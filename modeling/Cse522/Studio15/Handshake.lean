import Cse522.Interleave.Machine
import Mathlib.Data.Fintype.Basic
import Mathlib.Data.List.OfFn
import Mathlib.Logic.Function.Basic

/-!
# The leader and the follower of `share_mem`

Two processes share three guards and an array. The leader waits for the write guard,
copies its array cell by cell, raises the read guard and waits for the delete guard; the
follower raises the write guard, waits for the read guard, reads the array cell by cell
and raises the delete guard. Each guard is also cleared by the process that waits on it.
The follower may take its first step at any time after the region has its size, and the
region may hold anything then.
-/
namespace Cse522.Studio15.Handshake

open Cse522.Interleave

/-- `shm_data`, with `m` cells. -/
structure ShmData (m : Nat) where
  s32write_guard : Int32
  s32read_guard : Int32
  s32delete_guard : Int32
  as32data : Fin m → Int32
  deriving DecidableEq

/-- The statement the leader executes next. -/
inductive LeaderPc where
  /-- `s32write_guard = 0` -/
  | clearWrite
  /-- `while(0 == s32write_guard)` -/
  | spinWrite
  /-- the `memcpy` into the region, in front of cell `k` -/
  | copy (k : Nat)
  /-- `s32read_guard = 1` -/
  | raiseRead
  /-- `s32delete_guard = 0` -/
  | clearDelete
  /-- `while(0 == s32delete_guard)` -/
  | spinDelete
  /-- past its last loop, on the way to `munmap` and `shm_unlink` -/
  | left
  deriving DecidableEq, Repr

/-- The statement the follower executes next. -/
inductive FollowerPc where
  /-- `s32write_guard = 1` -/
  | raiseWrite
  /-- `s32read_guard = 0` -/
  | clearRead
  /-- `while(0 == s32read_guard)` -/
  | spinRead
  /-- `print_intlist`, or the `memcpy` out of the region, in front of cell `k` -/
  | read (k : Nat)
  /-- `s32delete_guard = 1` -/
  | raiseDelete
  | finished
  deriving DecidableEq, Repr

/-- Both program counters, the region, and the values the follower has read so far. -/
structure State (m : Nat) where
  shm : ShmData m
  leader : LeaderPc
  follower : FollowerPc
  got : List Int32
  deriving DecidableEq

variable {m : Nat}

/-- After the leader's `ftruncate`, on a region with arbitrary contents. -/
def init (shm : ShmData m) : State m := ⟨shm, .clearWrite, .raiseWrite, []⟩

inductive Process where
  | leader
  | follower
  deriving DecidableEq, Repr

/-- Store `v` in cell `k`. -/
def ShmData.store (shm : ShmData m) (k : Fin m) (v : Int32) : ShmData m :=
  { shm with as32data := Function.update shm.as32data k v }

/-- One step of the leader, whose local array is `ps32local`. -/
def leaderNext (ps32local : Fin m → Int32) (s : State m) : Option (State m) :=
  match s.leader with
  | .clearWrite =>
      some { s with shm := { s.shm with s32write_guard := 0 }, leader := .spinWrite }
  | .spinWrite => some (if 0 = s.shm.s32write_guard then s else { s with leader := .copy 0 })
  | .copy k =>
      if h : k < m then
        some { s with shm := s.shm.store ⟨k, h⟩ (ps32local ⟨k, h⟩), leader := .copy (k + 1) }
      else some { s with leader := .raiseRead }
  | .raiseRead =>
      some { s with shm := { s.shm with s32read_guard := 1 }, leader := .clearDelete }
  | .clearDelete =>
      some { s with shm := { s.shm with s32delete_guard := 0 }, leader := .spinDelete }
  | .spinDelete => some (if 0 = s.shm.s32delete_guard then s else { s with leader := .left })
  | .left => none

def followerNext (s : State m) : Option (State m) :=
  match s.follower with
  | .raiseWrite =>
      some { s with shm := { s.shm with s32write_guard := 1 }, follower := .clearRead }
  | .clearRead =>
      some { s with shm := { s.shm with s32read_guard := 0 }, follower := .spinRead }
  | .spinRead => some (if 0 = s.shm.s32read_guard then s else { s with follower := .read 0 })
  | .read k =>
      if h : k < m then
        some { s with got := s.got ++ [s.shm.as32data ⟨k, h⟩], follower := .read (k + 1) }
      else some { s with follower := .raiseDelete }
  | .raiseDelete =>
      some { s with shm := { s.shm with s32delete_guard := 1 }, follower := .finished }
  | .finished => none

/-- The two programs side by side; the label names the process that moves. -/
def handshake (ps32local : Fin m → Int32) : Machine (State m) Process where
  next
    | s, .leader => leaderNext ps32local s
    | s, .follower => followerNext s

/-! ## What a step can do -/

/-- The steps of both processes, one constructor for each outcome of a statement. -/
inductive Step (ps32local : Fin m → Int32) (s : State m) : Process → State m → Prop
  | clearWrite (hpc : s.leader = .clearWrite) : Step ps32local s .leader
      { s with shm := { s.shm with s32write_guard := 0 }, leader := .spinWrite }
  | spinWrite (hpc : s.leader = .spinWrite) (hg : s.shm.s32write_guard = 0) :
      Step ps32local s .leader s
  | leaveWrite (hpc : s.leader = .spinWrite) (hg : s.shm.s32write_guard ≠ 0) :
      Step ps32local s .leader { s with leader := .copy 0 }
  | copyCell (k : Nat) (hpc : s.leader = .copy k) (hk : k < m) : Step ps32local s .leader
      { s with shm := s.shm.store ⟨k, hk⟩ (ps32local ⟨k, hk⟩), leader := .copy (k + 1) }
  | copyDone (k : Nat) (hpc : s.leader = .copy k) (hk : ¬ k < m) : Step ps32local s .leader
      { s with leader := .raiseRead }
  | raiseRead (hpc : s.leader = .raiseRead) : Step ps32local s .leader
      { s with shm := { s.shm with s32read_guard := 1 }, leader := .clearDelete }
  | clearDelete (hpc : s.leader = .clearDelete) : Step ps32local s .leader
      { s with shm := { s.shm with s32delete_guard := 0 }, leader := .spinDelete }
  | spinDelete (hpc : s.leader = .spinDelete) (hg : s.shm.s32delete_guard = 0) :
      Step ps32local s .leader s
  | leaveDelete (hpc : s.leader = .spinDelete) (hg : s.shm.s32delete_guard ≠ 0) :
      Step ps32local s .leader { s with leader := .left }
  | raiseWrite (hpc : s.follower = .raiseWrite) : Step ps32local s .follower
      { s with shm := { s.shm with s32write_guard := 1 }, follower := .clearRead }
  | clearRead (hpc : s.follower = .clearRead) : Step ps32local s .follower
      { s with shm := { s.shm with s32read_guard := 0 }, follower := .spinRead }
  | spinRead (hpc : s.follower = .spinRead) (hg : s.shm.s32read_guard = 0) :
      Step ps32local s .follower s
  | leaveRead (hpc : s.follower = .spinRead) (hg : s.shm.s32read_guard ≠ 0) :
      Step ps32local s .follower { s with follower := .read 0 }
  | readCell (k : Nat) (hpc : s.follower = .read k) (hk : k < m) : Step ps32local s .follower
      { s with got := s.got ++ [s.shm.as32data ⟨k, hk⟩], follower := .read (k + 1) }
  | readDone (k : Nat) (hpc : s.follower = .read k) (hk : ¬ k < m) : Step ps32local s .follower
      { s with follower := .raiseDelete }
  | raiseDelete (hpc : s.follower = .raiseDelete) : Step ps32local s .follower
      { s with shm := { s.shm with s32delete_guard := 1 }, follower := .finished }

theorem step_of_leaderNext {ps32local : Fin m → Int32} {s t : State m}
    (h : leaderNext ps32local s = some t) : Step ps32local s .leader t := by
  cases hpc : s.leader
  all_goals simp only [leaderNext, hpc, Option.some.injEq, reduceCtorEq] at h
  case clearWrite =>
    subst h
    exact .clearWrite hpc
  case spinWrite =>
    subst h
    split
    case isTrue hg => exact .spinWrite hpc hg.symm
    case isFalse hg => exact .leaveWrite hpc (Ne.symm hg)
  case copy k =>
    split at h
    case isTrue hk =>
      cases h
      exact .copyCell k hpc hk
    case isFalse hk =>
      cases h
      exact .copyDone k hpc hk
  case raiseRead =>
    subst h
    exact .raiseRead hpc
  case clearDelete =>
    subst h
    exact .clearDelete hpc
  case spinDelete =>
    subst h
    split
    case isTrue hg => exact .spinDelete hpc hg.symm
    case isFalse hg => exact .leaveDelete hpc (Ne.symm hg)

theorem step_of_followerNext {ps32local : Fin m → Int32} {s t : State m}
    (h : followerNext s = some t) : Step ps32local s .follower t := by
  cases hpc : s.follower
  all_goals simp only [followerNext, hpc, Option.some.injEq, reduceCtorEq] at h
  case raiseWrite =>
    subst h
    exact .raiseWrite hpc
  case clearRead =>
    subst h
    exact .clearRead hpc
  case spinRead =>
    subst h
    split
    case isTrue hg => exact .spinRead hpc hg.symm
    case isFalse hg => exact .leaveRead hpc (Ne.symm hg)
  case read k =>
    split at h
    case isTrue hk =>
      cases h
      exact .readCell k hpc hk
    case isFalse hk =>
      cases h
      exact .readDone k hpc hk
  case raiseDelete =>
    subst h
    exact .raiseDelete hpc

theorem step_of_next {ps32local : Fin m → Int32} {s t : State m} {p : Process}
    (h : (handshake ps32local).next s p = some t) : Step ps32local s p t := by
  cases p with
  | leader => exact step_of_leaderNext h
  | follower => exact step_of_followerNext h

end Cse522.Studio15.Handshake

import Cse522.Interleave.Mutex
import Cse522.Lab02.Parsing

/-!
# The number dispatcher of `work_fxn`

Behind the barrier every worker runs `s32round` rounds. A round takes the index lock,
saves the shared index, advances it modulo `s32cnt`, releases the lock, and only then
reads the list and iterates on the number. The mutex and the spin lock of the two builds
are the same object here. Picks and reads are history: nothing but the proofs reads them.
-/
namespace Cse522.Lab02.Dispatcher

open Cse522.Interleave
open Cse522.Lab02.Parsing (ProfArg)

/-- The statement a worker executes next. -/
inductive Pc where
  /-- `s32round < s32roundmax` -/
  | roundTest
  /-- `pthread_mutex_lock(&gmutex_cabinidx)` -/
  | lock
  /-- `s32idx = gs32cabinidx` -/
  | saveIdx
  /-- `gs32cabinidx = (gs32cabinidx + 1) % s32cnt` -/
  | advance
  /-- `pthread_mutex_unlock(&gmutex_cabinidx)` -/
  | unlock
  /-- `s32base = ps32cabin[s32idx]` -/
  | readCabin
  /-- `s32iter < s32itermax` and the simulated workload -/
  | iterTest
  | finished
  deriving DecidableEq, Repr

/-- A worker and its locals; `ticket` is the position of its current pick. -/
structure Worker where
  pc : Pc
  s32round : Nat
  s32idx : Int
  s32base : Int
  s32iter : Nat
  ticket : Nat
  deriving DecidableEq

/-- An index taken under the lock. -/
structure Pick (T : Nat) where
  worker : Fin T
  slot : Int
  deriving DecidableEq

/-- A read of the list, for the pick at position `ticket`; an access outside the list
has no value. -/
structure Read (T : Nat) where
  worker : Fin T
  ticket : Nat
  value : Option Int
  deriving DecidableEq

structure State (T : Nat) where
  gs32cabinidx : Int
  gmutex_cabinidx : Option (Fin T)
  workers : Fin T → Worker
  picks : List (Pick T)
  reads : List (Read T)
  deriving DecidableEq

variable {T : Nat}

def init (T : Nat) : State T := ⟨0, none, fun _ => ⟨.roundTest, 0, 0, 0, 0, 0⟩, [], []⟩

/-- The cell behind a C index. -/
def cell (arg : ProfArg) (s32idx : Int) : Option Int :=
  if 0 ≤ s32idx then arg.ps32cabin[s32idx.toNat]? else none

/-- Worker `i` is left at `l`. -/
def State.move (s : State T) (i : Fin T) (l : Worker) : State T :=
  { s with workers := Function.update s.workers i l }

/-- One step of worker `i` in `work_fxn`. -/
def next (arg : ProfArg) (s : State T) (i : Fin T) : Option (State T) :=
  let l := s.workers i
  match l.pc with
  | .roundTest =>
      some (s.move i
        { l with pc := if (l.s32round : Int) < arg.s32round then .lock else .finished })
  | .lock => ((mutex (Fin T)).next s.gmutex_cabinidx (.acquire i)).map fun o =>
      { s with gmutex_cabinidx := o }.move i { l with pc := .saveIdx }
  | .saveIdx => some ({ s with picks := s.picks ++ [Pick.mk i s.gs32cabinidx] }.move i
      { l with pc := .advance, s32idx := s.gs32cabinidx, ticket := s.picks.length })
  | .advance =>
      some ({ s with gs32cabinidx := (s.gs32cabinidx + 1).tmod arg.s32cnt }.move i
        { l with pc := .unlock })
  | .unlock => ((mutex (Fin T)).next s.gmutex_cabinidx (.release i)).map fun o =>
      { s with gmutex_cabinidx := o }.move i { l with pc := .readCabin }
  | .readCabin =>
      let value := cell arg l.s32idx
      some ({ s with reads := s.reads ++ [Read.mk i l.ticket value] }.move i
        { l with pc := .iterTest, s32base := value.getD 0, s32iter := 0 })
  | .iterTest =>
      some (s.move i (if (l.s32iter : Int) < arg.s32iter
        then { l with pc := .iterTest, s32iter := l.s32iter + 1 }
        else { l with pc := .roundTest, s32round := l.s32round + 1 }))
  | .finished => none

/-- `T` workers on the record `arg`; the label of a step is the worker that moves. -/
def dispatcher (arg : ProfArg) (T : Nat) : Machine (State T) (Fin T) := ⟨next arg⟩

/-- The steps of `next`, one constructor for each outcome of a statement. -/
inductive Step (arg : ProfArg) (s : State T) (i : Fin T) : State T → Prop
  | start (hpc : (s.workers i).pc = .roundTest)
      (hr : ((s.workers i).s32round : Int) < arg.s32round) :
      Step arg s i (s.move i { s.workers i with pc := .lock })
  | finish (hpc : (s.workers i).pc = .roundTest)
      (hr : ¬ ((s.workers i).s32round : Int) < arg.s32round) :
      Step arg s i (s.move i { s.workers i with pc := .finished })
  | lock (hpc : (s.workers i).pc = .lock) (hfree : s.gmutex_cabinidx = none) :
      Step arg s i
        ({ s with gmutex_cabinidx := some i }.move i { s.workers i with pc := .saveIdx })
  | saveIdx (hpc : (s.workers i).pc = .saveIdx) :
      Step arg s i ({ s with picks := s.picks ++ [Pick.mk i s.gs32cabinidx] }.move i
        { s.workers i with pc := .advance, s32idx := s.gs32cabinidx, ticket := s.picks.length })
  | advance (hpc : (s.workers i).pc = .advance) :
      Step arg s i ({ s with gs32cabinidx := (s.gs32cabinidx + 1).tmod arg.s32cnt }.move i
        { s.workers i with pc := .unlock })
  | unlock (hpc : (s.workers i).pc = .unlock) (hown : s.gmutex_cabinidx = some i) :
      Step arg s i
        ({ s with gmutex_cabinidx := none }.move i { s.workers i with pc := .readCabin })
  | readCabin (hpc : (s.workers i).pc = .readCabin) :
      Step arg s i ({ s with reads := s.reads ++
          [Read.mk i (s.workers i).ticket (cell arg (s.workers i).s32idx)] }.move i
        { s.workers i with
          pc := .iterTest, s32base := (cell arg (s.workers i).s32idx).getD 0, s32iter := 0 })
  | iterate (hpc : (s.workers i).pc = .iterTest)
      (hi : ((s.workers i).s32iter : Int) < arg.s32iter) :
      Step arg s i (s.move i
        { s.workers i with pc := .iterTest, s32iter := (s.workers i).s32iter + 1 })
  | nextRound (hpc : (s.workers i).pc = .iterTest)
      (hi : ¬ ((s.workers i).s32iter : Int) < arg.s32iter) :
      Step arg s i (s.move i
        { s.workers i with pc := .roundTest, s32round := (s.workers i).s32round + 1 })

theorem step_of_next {arg : ProfArg} {s t : State T} {i : Fin T}
    (h : (dispatcher arg T).next s i = some t) : Step arg s i t := by
  change next arg s i = some t at h
  cases hpc : (s.workers i).pc
  all_goals simp only [next, hpc, Option.some.injEq, Option.map_eq_some_iff, mutex_acquire,
    mutex_release, reduceCtorEq] at h
  case roundTest =>
    subst h
    split
    · exact .start hpc ‹_›
    · exact .finish hpc ‹_›
  case lock =>
    obtain ⟨o, ⟨hfree, rfl⟩, rfl⟩ := h
    exact .lock hpc hfree
  case saveIdx =>
    subst h
    exact .saveIdx hpc
  case advance =>
    subst h
    exact .advance hpc
  case unlock =>
    obtain ⟨o, ⟨hown, rfl⟩, rfl⟩ := h
    exact .unlock hpc hown
  case readCabin =>
    subst h
    exact .readCabin hpc
  case iterTest =>
    subst h
    split
    · exact .iterate hpc ‹_›
    · exact .nextRound hpc ‹_›

end Cse522.Lab02.Dispatcher

import Cse522.Studio15.Handshake

/-!
# Notifications of the handshake

A guard is raised by one process and cleared by the process that waits on it, with no
order between the two. A clear that lands on a raised guard erases the notification, and
the process spins on it for good. These are exactly the runs that lose a notification.
-/
namespace Cse522.Studio15.Handshake

open Cse522.Interleave

variable {m : Nat} {ps32local : Fin m → Int32}

inductive Guard where
  | write
  | read
  | delete
  deriving DecidableEq, Repr

def State.guard (s : State m) : Guard → Int32
  | .write => s.shm.s32write_guard
  | .read => s.shm.s32read_guard
  | .delete => s.shm.s32delete_guard

/-- The process that raises the guard has executed its only write of 1 to it. -/
def Raised (s : State m) : Guard → Prop
  | .write => s.follower ≠ .raiseWrite
  | .read => s.leader = .clearDelete ∨ s.leader = .spinDelete ∨ s.leader = .left
  | .delete => s.follower = .finished

/-- The process that waits on the guard has executed its write of 0 to it. -/
def Cleared (s : State m) : Guard → Prop
  | .write => s.leader ≠ .clearWrite
  | .read => s.follower ≠ .raiseWrite ∧ s.follower ≠ .clearRead
  | .delete => s.leader = .spinDelete ∨ s.leader = .left

/-- A process is at the loop that waits on the guard. -/
def Spinning (s : State m) : Guard → Prop
  | .write => s.leader = .spinWrite
  | .read => s.follower = .spinRead
  | .delete => s.leader = .spinDelete

/-- A process spins on a guard that is 0 and that nobody will raise again. -/
def Lost (s : State m) (g : Guard) : Prop := Spinning s g ∧ s.guard g = 0 ∧ Raised s g

/-- The guard the process clears in its next step, if it clears one. -/
def clears (s : State m) : Process → Option Guard
  | .leader =>
      match s.leader with
      | .clearWrite => some .write
      | .clearDelete => some .delete
      | _ => none
  | .follower =>
      match s.follower with
      | .clearRead => some .read
      | _ => none

/-- A guard is cleared only before the other process has raised it. -/
def ClearedFirst (s : State m) (p : Process) (_ : State m) : Prop :=
  ∀ g, clears s p = some g → ¬ Raised s g

/-- No state loses a notification. -/
def NothingLost (_ : State m) (_ : Process) (t : State m) : Prop := ∀ g, ¬ Lost t g

/-- Once raised and cleared, a guard stays raised. -/
def Kept (s : State m) : Prop := ∀ g, Raised s g → Cleared s g → s.guard g ≠ 0

theorem Spinning.cleared {s : State m} {g : Guard} (h : Spinning s g) : Cleared s g := by
  cases g with
  | write => simp [Cleared, show s.leader = .spinWrite from h]
  | read => simp [Cleared, show s.follower = .spinRead from h]
  | delete => exact .inl h

theorem Kept.not_lost {s : State m} (h : Kept s) (g : Guard) : ¬ Lost s g := by
  intro hlost
  obtain ⟨hspin, hzero, hraised⟩ := hlost
  exact h g hraised hspin.cleared hzero

theorem kept_init (shm : ShmData m) : Kept (init shm) := by
  intro g hr _
  cases g <;> simp [Raised, init] at hr

theorem kept_step {s t : State m} {p : Process} (h : Kept s)
    (hs : (handshake ps32local).next s p = some t) (hc : ClearedFirst s p t) : Kept t := by
  intro g
  have hg := h g
  have hcg := hc g
  cases step_of_next hs <;> cases g <;>
    simp_all [Raised, Cleared, State.guard, clears, ShmData.store]

/-- Clearing a raised guard leaves its process spinning on 0. -/
theorem lost_of_late_clear {s t : State m} {p : Process} {g : Guard}
    (hs : (handshake ps32local).next s p = some t) (hg : clears s p = some g)
    (hr : Raised s g) : Lost t g := by
  cases step_of_next hs <;> cases g <;>
    simp_all [Lost, Spinning, Raised, State.guard, clears]

theorem nothingLost_iff {s t : State m} {p : Process} (h : Kept s)
    (hs : (handshake ps32local).next s p = some t) :
    NothingLost s p t ↔ ClearedFirst s p t := by
  constructor
  · intro hn g hg hr
    exact hn g (lost_of_late_clear hs hg hr)
  · intro hc g
    exact (kept_step h hs hc).not_lost g

/-- A run loses no notification exactly when each of its clears comes before the raise of
the same guard. -/
theorem nothing_lost_iff_clearedFirst (ps32local : Fin m → Int32) (shm : ShmData m)
    (as : List Process) :
    (handshake ps32local).Along NothingLost (init shm) as ↔
      (handshake ps32local).Along ClearedFirst (init shm) as :=
  Machine.along_congr nothingLost_iff kept_step (kept_init shm)

/-- A region of one cell, as a fresh `ftruncate` leaves it. -/
def zeroed : ShmData 1 := ⟨0, 0, 0, fun _ => 0⟩

/-- A schedule that loses the guard: the clear is the last step of each. -/
def lateClear : Guard → List Process
  | .write => [.follower, .leader]
  | .read => [.leader, .follower, .leader, .leader, .leader, .leader, .follower]
  | .delete =>
      [.leader, .follower, .follower, .leader, .leader, .leader, .leader,
        .follower, .follower, .follower, .follower, .leader]

/-- No run loses the notification of the guard. -/
def NeverLost (g : Guard) : Prop :=
  ∀ (m : Nat) (ps32local : Fin m → Int32) (shm : ShmData m) (as : List Process) (s : State m),
    (handshake ps32local).run (init shm) as = some s → ¬ Lost s g

theorem handshake_loses_notification :
    ¬ NeverLost .write ∧ ¬ NeverLost .read ∧ ¬ NeverLost .delete := by
  refine ⟨fun h => ?_, fun h => ?_, fun h => ?_⟩
  · exact h 1 (fun _ => 7) zeroed (lateClear .write) _ rfl ⟨rfl, rfl, nofun⟩
  · exact h 1 (fun _ => 7) zeroed (lateClear .read) _ rfl ⟨rfl, rfl, .inl rfl⟩
  · exact h 1 (fun _ => 7) zeroed (lateClear .delete) _ rfl ⟨rfl, rfl, rfl⟩

end Cse522.Studio15.Handshake

import Cse522.Interleave.Phases
import Cse522.Studio15.HandshakeGuards
import Cse522.Studio15.HandshakeTransfer

/-!
# Which handshakes come to an end

A guard that has been raised before it is cleared is as good as lost: the clear is still to come,
and it erases the notification. From every other state the two programs can be run to the end of
their last loops.
-/
namespace Cse522.Studio15.Handshake

open Cse522.Interleave

variable {m : Nat} {ps32local : Fin m → Int32} {s t : State m} {p : Process} {g : Guard}

/-- The notification is lost, or will be with the clear that is still to come. -/
def Doomed (s : State m) (g : Guard) : Prop := Lost s g ∨ (Raised s g ∧ ¬ Cleared s g)

/-- The leader is past its last loop, and the follower has raised its last guard. -/
def Completed (s : State m) : Prop := s.leader = .left ∧ s.follower = .finished

theorem doomed_step (h : Doomed s g) (hn : (handshake ps32local).next s p = some t) :
    Doomed t g := by
  cases step_of_next hn <;> cases g <;>
    simp_all [Doomed, Lost, Raised, Cleared, Spinning, State.guard, ShmData.store]

theorem Completed.not_doomed (h : Completed s) (g : Guard) : ¬ Doomed s g := by
  obtain ⟨hl, hf⟩ := h
  cases g <;> simp [Doomed, Lost, Raised, Cleared, Spinning, hl, hf]

/-- The guard the process raises in its next step, if it raises one. -/
def raises (s : State m) : Process → Option Guard
  | .leader =>
      match s.leader with
      | .raiseRead => some .read
      | _ => none
  | .follower =>
      match s.follower with
      | .raiseWrite => some .write
      | .raiseDelete => some .delete
      | _ => none

/-- A guard is doomed only by being raised before it is cleared. -/
theorem fresh_step (h : ∀ g, ¬ Doomed s g) (hn : (handshake ps32local).next s p = some t)
    (hr : ∀ g, raises s p = some g → Cleared s g) (g : Guard) : ¬ Doomed t g := by
  have hg := h g
  have hrg := hr g
  cases step_of_next hn <;> cases g <;>
    simp_all [Doomed, Lost, Raised, Cleared, Spinning, State.guard, ShmData.store, raises]

/-! ## The way to the end -/

/-- The statements of the leader that are left, each loop once. -/
def LeaderPc.rank (m : Nat) : LeaderPc → Nat
  | .clearWrite => m + 6
  | .spinWrite => m + 5
  | .copy k => m - k + 4
  | .raiseRead => 3
  | .clearDelete => 2
  | .spinDelete => 1
  | .left => 0

def FollowerPc.rank (m : Nat) : FollowerPc → Nat
  | .raiseWrite => m + 5
  | .clearRead => m + 4
  | .spinRead => m + 3
  | .read k => m - k + 2
  | .raiseDelete => 1
  | .finished => 0

def State.rank (s : State m) : Nat := s.leader.rank m + s.follower.rank m

/-- Some process can take a step nearer to its end without dooming a guard. -/
def Advances (ps32local : Fin m → Int32) (s : State m) : Prop :=
  ∃ p t, (handshake ps32local).next s p = some t ∧ t.rank < s.rank ∧
    ∀ g, raises s p = some g → Cleared s g

/-- The leader moves, but for the raise of the read guard. -/
theorem advances_leader {shm : ShmData m} {leader : LeaderPc}
    (hn : leaderNext ps32local s = some { s with shm, leader })
    (hrank : leader.rank m < s.leader.rank m) (hr : s.leader ≠ .raiseRead) :
    Advances ps32local s := by
  refine ⟨.leader, _, hn, Nat.add_lt_add_right hrank _, fun g hg => ?_⟩
  cases hl : s.leader <;> simp_all [raises]

/-- The follower moves, and the guard it raises has been cleared. -/
theorem advances_follower {shm : ShmData m} {follower : FollowerPc} {got : List Int32}
    (hn : followerNext s = some { s with shm, follower, got })
    (hrank : follower.rank m < s.follower.rank m)
    (hw : s.follower = .raiseWrite → s.leader ≠ .clearWrite)
    (hd : s.follower = .raiseDelete → s.leader = .spinDelete) : Advances ps32local s := by
  refine ⟨.follower, _, hn, Nat.add_lt_add_left hrank _, fun g hg => ?_⟩
  cases hf : s.follower <;> cases g <;> simp_all [raises, Cleared]

/-- The leader waits for the follower, which comes to raise the guard if it has not done so. -/
theorem advances_spinWrite (h : ¬ Doomed s .write) (hl : s.leader = .spinWrite) :
    Advances ps32local s := by
  by_cases hzero : s.shm.s32write_guard = 0
  · have hf : s.follower = .raiseWrite := by
      by_contra hf
      exact h (.inl ⟨hl, hzero, hf⟩)
    refine advances_follower (by simp only [followerNext, hf]; rfl) ?_ (by simp [hl])
      (by simp [hf])
    simp only [hf, FollowerPc.rank]
    omega
  · refine advances_leader (by simp only [leaderNext, hl, if_neg (Ne.symm hzero)]; rfl) ?_
      (by simp [hl])
    simp only [hl, LeaderPc.rank]
    omega

theorem advances_copy {k : Nat} (hl : s.leader = .copy k) : Advances ps32local s := by
  by_cases hk : k < m
  · refine advances_leader (by simp only [leaderNext, hl, dif_pos hk]; rfl) ?_ (by simp [hl])
    simp only [hl, LeaderPc.rank]
    omega
  · refine advances_leader (by simp only [leaderNext, hl, dif_neg hk]; rfl) ?_ (by simp [hl])
    simp only [hl, LeaderPc.rank]
    omega

/-- The follower clears the read guard before the leader raises it. -/
theorem advances_raiseRead (hl : s.leader = .raiseRead) : Advances ps32local s := by
  by_cases hc : Cleared s .read
  · refine ⟨.leader, { s with
      shm := { s.shm with s32read_guard := 1 }, leader := .clearDelete }, ?_, ?_, fun g hg => ?_⟩
    · simp only [handshake, leaderNext, hl]
    · simp only [State.rank, hl, LeaderPc.rank]
      omega
    · simp only [raises, hl] at hg
      obtain rfl := Option.some.inj hg
      exact hc
  · have hf : s.follower = .raiseWrite ∨ s.follower = .clearRead := by
      by_contra hf
      exact hc (not_or.mp hf)
    rcases hf with hf | hf
    · refine advances_follower (by simp only [followerNext, hf]; rfl) ?_ (by simp [hl])
        (by simp [hf])
      simp only [hf, FollowerPc.rank]
      omega
    · refine advances_follower (by simp only [followerNext, hf]; rfl) ?_ (by simp [hl])
        (by simp [hf])
      simp only [hf, FollowerPc.rank]
      omega

/-- The follower has been notified and comes to its end. -/
theorem advances_spinDelete (h : ∀ g, ¬ Doomed s g) (hl : s.leader = .spinDelete) :
    Advances ps32local s := by
  by_cases hzero : s.shm.s32delete_guard = 0
  · cases hf : s.follower with
    | raiseWrite | clearRead =>
        exact absurd (.inr ⟨.inr (.inl hl), by simp [Cleared, hf]⟩) (h .read)
    | spinRead =>
        have hone : s.shm.s32read_guard ≠ 0 := fun hread =>
          h .read (.inl ⟨hf, hread, .inr (.inl hl)⟩)
        refine advances_follower (by simp only [followerNext, hf, if_neg (Ne.symm hone)]; rfl) ?_
          (by simp [hl]) (by simp [hl])
        simp only [hf, FollowerPc.rank]
        omega
    | read k =>
        by_cases hk : k < m
        · refine advances_follower (by simp only [followerNext, hf, dif_pos hk]; rfl) ?_
            (by simp [hl]) (by simp [hl])
          simp only [hf, FollowerPc.rank]
          omega
        · refine advances_follower (by simp only [followerNext, hf, dif_neg hk]; rfl) ?_
            (by simp [hl]) (by simp [hl])
          simp only [hf, FollowerPc.rank]
          omega
    | raiseDelete =>
        refine advances_follower (by simp only [followerNext, hf]; rfl) ?_ (by simp [hl])
          (fun _ => hl)
        simp only [hf, FollowerPc.rank]
        omega
    | finished => exact absurd (.inl ⟨hl, hzero, hf⟩) (h .delete)
  · refine advances_leader (by simp only [leaderNext, hl, if_neg (Ne.symm hzero)]; rfl) ?_
      (by simp [hl])
    simp only [hl, LeaderPc.rank]
    omega

/-- The invariant of the transfer, and no guard doomed. -/
structure Live (ps32local : Fin m → Int32) (s : State m) : Prop where
  sound : Sound ps32local s
  fresh : ∀ g, ¬ Doomed s g

theorem Live.advances (h : Live ps32local s) (hnot : ¬ Completed s) : Advances ps32local s := by
  cases hl : s.leader with
  | clearWrite =>
      refine advances_leader (by simp only [leaderNext, hl]; rfl) ?_ (by simp [hl])
      simp only [hl, LeaderPc.rank]
      omega
  | spinWrite => exact advances_spinWrite (h.fresh .write) hl
  | copy k => exact advances_copy hl
  | raiseRead => exact advances_raiseRead hl
  | clearDelete =>
      refine advances_leader (by simp only [leaderNext, hl]; rfl) ?_ (by simp [hl])
      simp only [hl, LeaderPc.rank]
      omega
  | spinDelete => exact advances_spinDelete h.fresh hl
  | left =>
      have hdel := h.sound.deleteNotified
      simp only [DeleteNotified, hl] at hdel
      exact absurd ⟨hl, hdel⟩ hnot

theorem live_descends :
    (handshake ps32local).Descends (Live ps32local) Completed State.rank := by
  intro s h hnot
  obtain ⟨p, t, hn, hrank, hr⟩ := h.advances hnot
  exact ⟨p, t, hn, ⟨sound_step h.sound hn, fresh_step h.fresh hn hr⟩, hrank⟩

/-- In every state of every run: a guard that is doomed stays so, and the two programs can be run
to their ends, the follower with the leader's array, if and only if none is. -/
theorem handshake_completes_iff (ps32local : Fin m → Int32) (shm : ShmData m)
    (hr : (handshake ps32local).Reachable (init shm) s) :
    (∀ g, Doomed s g → ∀ t, (handshake ps32local).Reachable s t → Doomed t g) ∧
    ((∃ t, (handshake ps32local).Reachable s t ∧ Completed t ∧ t.got = List.ofFn ps32local) ↔
      ∀ g, ¬ Doomed s g) := by
  have hstays : ∀ g, Doomed s g → ∀ t, (handshake ps32local).Reachable s t → Doomed t g :=
    fun g hg t ht => ht.invariant (I := fun t => Doomed t g) doomed_step hg
  have hsound : Sound ps32local s := hr.invariant sound_step (sound_init shm)
  refine ⟨hstays, fun hend g hg => ?_, fun hfresh => ?_⟩
  · obtain ⟨t, ht, hdone, -⟩ := hend
    exact hdone.not_doomed g (hstays g hg t ht)
  · obtain ⟨t, ht, hlive, hdone⟩ := live_descends.completes ⟨hsound, hfresh⟩
    have hpre := hlive.sound.prefixRead
    simp only [PrefixRead, hdone.2] at hpre
    exact ⟨t, ht, hdone, hpre⟩

/-- The follower has come first, and raised the guard that the leader is going to clear. -/
theorem handshake_completes_late : ∃ s : State 1, s.follower = .clearRead ∧
    ¬ ∃ t, (handshake fun _ : Fin 1 => 7).Reachable s t ∧ Completed t ∧
      t.got = List.ofFn fun _ : Fin 1 => 7 := by
  have hrun : ∃ s, (handshake fun _ : Fin 1 => 7).run (init zeroed) [.follower] = some s ∧
      s.follower = .clearRead ∧ s.leader = .clearWrite := ⟨_, rfl, rfl, rfl⟩
  obtain ⟨s, hs, hf, hl⟩ := hrun
  refine ⟨s, hf, fun hend => ?_⟩
  refine (handshake_completes_iff (fun _ => 7) zeroed ⟨_, hs⟩).2.mp hend .write (.inr ⟨?_, ?_⟩)
  · simp [Raised, hf]
  · simp [Cleared, hl]

end Cse522.Studio15.Handshake

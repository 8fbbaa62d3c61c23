import Cse522.Studio15.Handshake

/-!
# Integrity of the transfer

Whatever the region holds at the start, the follower reads only after its own clear of
the read guard has been overwritten by the leader, and the leader raises that guard only
after its whole copy. In the same way the leader leaves its last loop only after the
follower has read every cell.
-/
namespace Cse522.Studio15.Handshake

open Cse522.Interleave

variable {m : Nat} {ps32local : Fin m → Int32}

/-- The leader has finished its copy. -/
def LeaderPc.Copied : LeaderPc → Prop
  | .raiseRead | .clearDelete | .spinDelete | .left => True
  | _ => False

/-- The leader has raised the read guard. -/
def LeaderPc.Notified : LeaderPc → Prop
  | .clearDelete | .spinDelete | .left => True
  | _ => False

/-- The cells in front of the leader's position hold its array. -/
def CellsCopied (ps32local : Fin m → Int32) (s : State m) : Prop :=
  (∀ k, s.leader = .copy k → ∀ i : Fin m, i.val < k → s.shm.as32data i = ps32local i) ∧
  (s.leader.Copied → s.shm.as32data = ps32local)

/-- The follower is past its loop, or finds its guard raised, only once the leader has
notified it. -/
def ReadNotified (s : State m) : Prop :=
  match s.follower with
  | .raiseWrite | .clearRead => True
  | .spinRead => s.shm.s32read_guard ≠ 0 → s.leader.Notified
  | .read _ | .raiseDelete | .finished => s.leader.Notified

/-- The follower has read a prefix of the leader's array. -/
def PrefixRead (ps32local : Fin m → Int32) (s : State m) : Prop :=
  match s.follower with
  | .raiseWrite | .clearRead | .spinRead => s.got = []
  | .read k => k ≤ m ∧ s.got = (List.ofFn ps32local).take k
  | .raiseDelete | .finished => s.got = List.ofFn ps32local

/-- The leader is past its last loop, or finds its guard raised, only once the follower
has finished. -/
def DeleteNotified (s : State m) : Prop :=
  match s.leader with
  | .spinDelete => s.shm.s32delete_guard ≠ 0 → s.follower = .finished
  | .left => s.follower = .finished
  | _ => True

structure Sound (ps32local : Fin m → Int32) (s : State m) : Prop where
  cells : CellsCopied ps32local s
  readNotified : ReadNotified s
  prefixRead : PrefixRead ps32local s
  deleteNotified : DeleteNotified s

theorem sound_init (shm : ShmData m) : Sound ps32local (init shm) where
  cells := by simp [CellsCopied, init, LeaderPc.Copied]
  readNotified := by simp [ReadNotified, init]
  prefixRead := by simp [PrefixRead, init]
  deleteNotified := by simp [DeleteNotified, init]

theorem LeaderPc.Notified.copied {pc : LeaderPc} (h : pc.Notified) : pc.Copied := by
  cases pc <;> simp_all [LeaderPc.Notified, LeaderPc.Copied]

theorem cellsCopied_step {s t : State m} {p : Process} (h : CellsCopied ps32local s)
    (hs : Step ps32local s p t) : CellsCopied ps32local t := by
  obtain ⟨hcopy, hdone⟩ := h
  cases hs with
  | copyCell k hpc hk =>
      refine ⟨?_, by simp [LeaderPc.Copied]⟩
      intro k' hk' i hi
      obtain rfl : k + 1 = k' := by simpa using hk'
      by_cases hik : i = ⟨k, hk⟩
      · subst hik
        simp [ShmData.store]
      · have hlt : i.val < k := by
          have hne : i.val ≠ k := fun he => hik (Fin.ext he)
          omega
        simpa [ShmData.store, hik] using hcopy k hpc i hlt
  | copyDone k hpc hk =>
      refine ⟨by simp, fun _ => ?_⟩
      funext i
      exact hcopy k hpc i (by omega)
  | clearWrite hpc => exact ⟨by simp, by simp [LeaderPc.Copied]⟩
  | leaveWrite hpc hg => exact ⟨by simp, by simp [LeaderPc.Copied]⟩
  | raiseRead hpc => exact ⟨by simp, fun _ => hdone (by simp [hpc, LeaderPc.Copied])⟩
  | clearDelete hpc => exact ⟨by simp, fun _ => hdone (by simp [hpc, LeaderPc.Copied])⟩
  | leaveDelete hpc hg => exact ⟨by simp, fun _ => hdone (by simp [hpc, LeaderPc.Copied])⟩
  | _ => exact ⟨hcopy, hdone⟩

theorem readNotified_step {s t : State m} {p : Process} (h : ReadNotified s)
    (hs : Step ps32local s p t) : ReadNotified t := by
  cases hs <;> cases hf : s.follower <;>
    simp_all [ReadNotified, LeaderPc.Notified, ShmData.store]

theorem deleteNotified_step {s t : State m} {p : Process} (h : DeleteNotified s)
    (hs : Step ps32local s p t) : DeleteNotified t := by
  cases hs <;> cases hl : s.leader <;>
    simp_all [DeleteNotified]

theorem take_ofFn_succ (f : Fin m → Int32) {k : Nat} (hk : k < m) :
    (List.ofFn f).take k ++ [f ⟨k, hk⟩] = (List.ofFn f).take (k + 1) := by
  rw [List.take_add_one]
  simp [hk]

theorem prefixRead_step {s t : State m} {p : Process} (h : Sound ps32local s)
    (hs : Step ps32local s p t) : PrefixRead ps32local t := by
  have hpre := h.prefixRead
  cases hs with
  | readCell k hpc hk =>
      simp only [PrefixRead, hpc] at hpre
      have hnot := h.readNotified
      simp only [ReadNotified, hpc] at hnot
      have hcells := h.cells.2 hnot.copied
      refine ⟨hk, ?_⟩
      change s.got ++ [s.shm.as32data ⟨k, hk⟩] = _
      rw [hpre.2, hcells]
      exact take_ofFn_succ ps32local hk
  | readDone k hpc hk =>
      simp only [PrefixRead, hpc] at hpre
      have hkm : k = m := by omega
      change s.got = List.ofFn ps32local
      rw [hpre.2, hkm]
      exact List.take_of_length_le (by simp)
  | leaveRead hpc hg =>
      simp only [PrefixRead, hpc] at hpre
      exact ⟨Nat.zero_le m, by simpa using hpre⟩
  | raiseWrite hpc =>
      simp only [PrefixRead, hpc] at hpre
      exact hpre
  | clearRead hpc =>
      simp only [PrefixRead, hpc] at hpre
      exact hpre
  | raiseDelete hpc =>
      simp only [PrefixRead, hpc] at hpre
      exact hpre
  | _ => exact hpre

theorem sound_step {s t : State m} {p : Process} (h : Sound ps32local s)
    (hs : (handshake ps32local).next s p = some t) : Sound ps32local t where
  cells := cellsCopied_step h.cells (step_of_next hs)
  readNotified := readNotified_step h.readNotified (step_of_next hs)
  prefixRead := prefixRead_step h (step_of_next hs)
  deleteNotified := deleteNotified_step h.deleteNotified (step_of_next hs)

/-- For every initial content of the region: what the follower has read when it is done is
the leader's array, each value is right when it is read, and the leader leaves its last
loop only after the follower has read every cell. -/
theorem transfer_integrity (ps32local : Fin m → Int32) (shm : ShmData m) {s : State m}
    (h : (handshake ps32local).Reachable (init shm) s) :
    (s.follower = .raiseDelete ∨ s.follower = .finished → s.got = List.ofFn ps32local) ∧
    (∀ k, s.follower = .read k → s.got = (List.ofFn ps32local).take k) ∧
    (s.leader = .left → s.follower = .finished ∧ s.got = List.ofFn ps32local) := by
  have hsound := h.invariant sound_step (sound_init shm)
  have hpre := hsound.prefixRead
  refine ⟨?_, ?_, ?_⟩
  · rintro (hf | hf)
    all_goals
      simp only [PrefixRead, hf] at hpre
      exact hpre
  · intro k hf
    simp only [PrefixRead, hf] at hpre
    exact hpre.2
  · intro hl
    have hdel := hsound.deleteNotified
    simp only [DeleteNotified, hl] at hdel
    simp only [PrefixRead, hdel] at hpre
    exact ⟨hdel, hpre⟩

def threeCells (i : Fin 3) : Int32 := ([7, -2, 30] : List Int32).getD i.val 0

/-- A region whose guards an earlier run has left raised. -/
def stale : ShmData 3 := ⟨1, 1, 1, fun _ => 3⟩

/-- The follower has its first values while the leader clears the delete guard. -/
def overlapping : List Process :=
  [.leader, .follower, .follower, .leader, .leader, .leader, .leader, .leader, .leader,
    .follower, .follower, .leader, .follower, .leader, .follower, .follower, .follower, .leader]

theorem transfer_integrity_stale : ∃ s,
    (handshake threeCells).run (init stale) overlapping = some s ∧
    s.leader = .left ∧ s.got = [7, -2, 30] := by
  have hrun : ∃ s, (handshake threeCells).run (init stale) overlapping = some s ∧
      s.leader = .left := ⟨_, rfl, by decide⟩
  obtain ⟨s, hs, hl⟩ := hrun
  exact ⟨s, hs, hl, ((transfer_integrity _ _ ⟨_, hs⟩).2.2 hl).2⟩

end Cse522.Studio15.Handshake

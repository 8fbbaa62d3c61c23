import Cse522.Studio10.CounterRuns

/-!
# Every run of the module with the mutex ends

A thread has so many statements to execute that no scheduling changes their number, and one
that waits for `MYMUTEX` waits for a thread that can move. A schedule that cannot be continued
has therefore taken all the statements of all threads.
-/
namespace Cse522.Studio10.MultiMutex

open Cse522.Interleave

variable {T I : Nat} {s t : State T} {i : Fin T} {l : Thread}

/-- The statements that a thread has yet to execute. -/
def Thread.left (I : Nat) (l : Thread) : Nat := 6 * I + 3 - l.executed I

def State.left (I : Nat) (s : State T) : Nat := ∑ i, (s.threads i).left I

theorem left_init (T I : Nat) : (init T).left I = T * (6 * I + 3) := by
  simp [State.left, init, Thread.left, Thread.executed]

theorem executed_le (hp : MultiAtomic.Placed I l.abs) : l.executed I ≤ 6 * I + 3 := by
  unfold MultiAtomic.Placed at hp
  unfold Thread.executed
  cases hpc : l.pc <;> simp only [Thread.abs, Pc.abs, hpc] at hp ⊢ <;> omega

theorem left_step (hg : Guarded s) (hc : MultiAtomic.Counted I s.abs)
    (hn : (multiMutex T I).next s i = some t) : t.left I + 1 = s.left I := by
  have hthread : ∀ j, (t.threads j).left I + (if j = i then 1 else 0) = (s.threads j).left I := by
    intro j
    have hstep := executed_step (hc.placed i) hn j
    have hle := executed_le ((counted_step hg hc hn).placed j)
    simp only [Thread.left]
    omega
  calc t.left I + 1
      = ∑ j, ((t.threads j).left I + if j = i then 1 else 0) := by
        simp [State.left, Finset.sum_add_distrib]
    _ = s.left I := Finset.sum_congr rfl fun j _ => hthread j

theorem left_eq_zero_iff (hc : MultiAtomic.Counted I s.abs) :
    s.left I = 0 ↔ ∀ i, (s.threads i).pc = .returned := by
  have hthread : ∀ i, (s.threads i).left I = 0 ↔ (s.threads i).pc = .returned := by
    intro i
    rw [returned_iff_executed (hc.placed i), Thread.left]
    omega
  simp [State.left, hthread]

/-- The owner of the mutex can move. -/
theorem moves_of_holds (hi : Holds (s.threads i)) :
    ∃ t, (multiMutex T I).next s i = some t := by
  rcases hi with hpc | hpc | hpc
  all_goals exact ⟨_, by simp [multiMutex, mykthread, hpc]; rfl⟩

/-- With the mutex free everybody who has not returned can move. -/
theorem moves_of_free (hfree : s.MYMUTEX = none) (hi : (s.threads i).pc ≠ .returned) :
    ∃ t, (multiMutex T I).next s i = some t := by
  cases hpc : (s.threads i).pc with
  | returned => exact absurd hpc hi
  | lock => exact ⟨_, by simp [multiMutex, mykthread, hpc, hfree]; rfl⟩
  | _ => exact ⟨_, by simp [multiMutex, mykthread, hpc]; rfl⟩

theorem Guarded.returned_of_stuck (h : Guarded s) (hstuck : ∀ i, (multiMutex T I).next s i = none)
    (i : Fin T) : (s.threads i).pc = .returned := by
  have hfree : s.MYMUTEX = none := by
    cases ho : s.MYMUTEX with
    | none => rfl
    | some j =>
        obtain ⟨t, ht⟩ := moves_of_holds (I := I) ((h.owner j).mpr ho)
        rw [hstuck j] at ht
        cases ht
  by_contra hi
  obtain ⟨t, ht⟩ := moves_of_free (I := I) hfree hi
  rw [hstuck i] at ht
  cases ht

/-- A schedule of the module takes at most `T * (6 * I + 3)` steps. It cannot be continued
exactly when it has taken them all, and then `race` is `T * I` and the mutex is free. -/
theorem multiMutex_ends (hfit : T * I < 2147483648) {as : List (Fin T)}
    (hr : (multiMutex T I).run (init T) as = some s) :
    as.length ≤ T * (6 * I + 3) ∧
    ((∀ i, (multiMutex T I).next s i = none) ↔ as.length = T * (6 * I + 3)) ∧
    (as.length = T * (6 * I + 3) → s.race.toInt = T * I ∧ s.MYMUTEX = none) := by
  have hcount : as.length + s.left I = T * (6 * I + 3) := by
    rw [← left_init]
    refine Machine.length_add_of_countdown (M := multiMutex T I)
      (I := fun s => Guarded s ∧ MultiAtomic.Counted I s.abs) (fun h hn => ?_) ?_ hr
    · exact ⟨⟨guarded_step h.1 hn, counted_step h.1 h.2 hn⟩, left_step h.1 h.2 hn⟩
    · exact ⟨guarded_init T, MultiAtomic.counted_init T I⟩
  obtain ⟨hg, hc⟩ := counted_of_reachable ⟨as, hr⟩
  have hfull : as.length = T * (6 * I + 3) ↔ ∀ i, (s.threads i).pc = .returned := by
    rw [← left_eq_zero_iff hc]
    omega
  refine ⟨by omega, ⟨fun hstuck => ?_, fun hlen i => ?_⟩, fun hlen => ?_⟩
  · exact hfull.mpr (hg.returned_of_stuck hstuck)
  · simp [multiMutex, mykthread, hfull.mp hlen i]
  · have hret := hfull.mp hlen
    have hno : s.MYMUTEX = none := by
      refine hg.owner.eq_none_iff.mpr fun i hi => ?_
      simp [Holds, hret i] at hi
    have htotal := hc.total_eq_iff.mpr fun i =>
      hc.completed_of_returned (i := i) (abs_returned.mpr (hret i))
    refine ⟨?_, hno⟩
    show s.abs.race.toInt = T * I
    rw [hc.toInt_race hfit, htotal]
    push_cast
    rfl

/-- The second thread waits for the first, and both come to their end. -/
theorem multiMutex_ends_contended :
    (∃ q, (multiMutex 2 1).run (init 2) (contended.take 5) = some q ∧
      (q.threads 1).pc = .lock ∧ (multiMutex 2 1).next q 1 = none) ∧
    ∃ s, (multiMutex 2 1).run (init 2) contended = some s ∧
      (∀ i, (multiMutex 2 1).next s i = none) ∧ s.race.toInt = 2 ∧ s.MYMUTEX = none := by
  have hrun : ∃ s, (multiMutex 2 1).run (init 2) contended = some s := ⟨_, rfl⟩
  obtain ⟨s, hs⟩ := hrun
  obtain ⟨-, hstuck, hend⟩ := multiMutex_ends (by decide) hs
  exact ⟨⟨_, rfl, rfl, rfl⟩, s, hs, hstuck.mpr rfl, hend rfl⟩

end Cse522.Studio10.MultiMutex

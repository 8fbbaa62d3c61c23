import Mathlib.Algebra.Order.BigOperators.Group.Finset
import Cse522.Interleave.Phases
import Cse522.Studio11.SleepLockWakeup

/-!
# Which runs of `sleeplock.c` end

A store of -1 that is still to come kills the lock if it finds it free. A thread in front of one
is therefore lost when nobody can come to own the lock before it. Everywhere else the threads
can be run to their ends, and no spurious wake-up is needed for that.
-/
namespace Cse522.Studio11.SleepLock

open Cse522.Interleave Cse522.Clib.Word

variable {n : Nat} {s t : State n} {i : Fin n} {a : Act}

/-- Every thread has returned from its last `unlock`, and the lock is free. -/
def Finished (s : State n) : Prop :=
  s.gs32curlock = UNLOCKED ∧ ∀ i, (s.threads i).pc = .finished

/-- The runs in which no `FUTEX_WAIT` is interrupted. -/
def undisturbed (n : Nat) : Machine (State n) (Fin n) := ⟨fun s i => next s (i, .step)⟩

theorem reachable_of_undisturbed (hr : (undisturbed n).Reachable s t) :
    (sleepLock n).Reachable s t :=
  hr.invariant (I := fun t => (sleepLock n).Reachable s t)
    (fun hq hn => hq.trans (.single (a := (_, .step)) hn)) (.refl s)

/-- The thread will not own the lock, unless it does so behind a store of -1. -/
def CannotOwn (l : Thread) : Prop :=
  l.pc = .storeNeg ∨ l.pc = .finished ∨ (l.pc = .futexWake ∧ l.rounds ≤ 1)

/-- Somebody stands in front of a store of -1, and nobody can own the lock before. -/
def Stuck (s : State n) : Prop :=
  (∃ i, (s.threads i).pc = .storeNeg) ∧ ∀ i, CannotOwn (s.threads i)

/-! ## Lost threads -/

theorem CannotOwn.not_owns {l : Thread} (h : CannotOwn l) : ¬ Owns l := by
  rcases h with h | h | ⟨h, -⟩ <;> simp [Owns, h]

theorem Stuck.free (h : Stuck s) : ¬ ∃ i, Owns (s.threads i) := by
  rintro ⟨i, hi⟩
  exact (h.2 i).not_owns hi

/-- The lock is dead and some thread is inside of it, or some thread is about to kill it. -/
def Lost (s : State n) : Prop :=
  (∃ o, Represents s o) ∧ ((Dead s ∧ ∃ i, InLock (s.threads i)) ∨ Stuck s)

theorem represents_step (hn : n < 2147483648) {a : Fin n × Act} (h : ∃ o, Represents s o)
    (hs : (sleepLock n).next s a = some t) : ∃ o, Represents t o := by
  obtain ⟨o, ho⟩ := h
  obtain ⟨q, -, hq⟩ := (sleepLock_refines_mutex hn).run ho (Machine.run_cons.mpr
    ⟨t, hs, Machine.run_nil.mpr rfl⟩)
  exact ⟨q, hq⟩

theorem inLock_wakeAll {f : Fin n → Thread} {j : Fin n} (h : InLock (f j)) :
    InLock (wakeAll f j) := by
  rcases wakeAll_pc f j with hw | ⟨-, hw⟩
  · simpa only [InLock, hw] using h
  · exact .inl hw

/-- Nobody leaves a dead lock. -/
theorem inLock_step (hn : n < 2147483648) (h : Dead s) (hs : Step s i a t) {j : Fin n}
    (hj : InLock (s.threads j)) : InLock (t.threads j) := by
  by_cases hji : j = i
  · subst hji
    cases hs with
    | acquire hpc hret => exact absurd (h.contends hn hpc) hret
    | release hpc | bump hpc | storeOne hpc | wake hpc => simp [InLock, hpc] at hj
    | contend | storeNeg | sleep | retry | interrupt => simp [InLock]
  · cases hs with
    | wake hpc =>
        rw [State.wake_threads, Function.update_of_ne hji]
        exact inLock_wakeAll hj
    | _ => simpa [hji] using hj

theorem start_last {k : Nat} (h : k ≤ 1) : (Thread.start (k - 1)).pc = .finished := by
  have hzero : k - 1 = 0 := by omega
  rw [start_pc]
  exact .inl ⟨hzero, rfl⟩

/-- A stuck lock stays so until the store of -1 comes. -/
theorem stuck_step (h : Stuck s) (hs : Step s i a t) (hpc : (s.threads i).pc ≠ .storeNeg) :
    Stuck t := by
  obtain ⟨⟨j, hj⟩, hall⟩ := h
  have hi := (hall i).resolve_left hpc
  cases hs with
  | wake hwake =>
      have hlast := (hi.resolve_left (by simp [hwake])).2
      have hji : j ≠ i := fun he => hpc (he ▸ hj)
      have hkeep : ∀ k, (wakeAll s.threads k) = s.threads k := by
        intro k
        refine if_neg fun hasleep => ?_
        rcases hall k with hk | hk | ⟨hk, -⟩ <;> simp [hk] at hasleep
      refine ⟨⟨j, ?_⟩, fun k => ?_⟩
      · rw [State.wake_threads, Function.update_of_ne hji, hkeep]
        exact hj
      · by_cases hki : k = i
        · subst hki
          rw [State.wake_threads, Function.update_self]
          exact .inr (.inl (start_last hlast))
        · rw [State.wake_threads, Function.update_of_ne hki, hkeep]
          exact hall k
  | interrupt hwait => rcases hwait with hwait | hwait <;> simp [hwait] at hi
  | _ hother => simp_all

theorem lost_step (hn : n < 2147483648) {a : Fin n × Act} (h : Lost s)
    (hs : (sleepLock n).next s a = some t) : Lost t := by
  obtain ⟨i, a⟩ := a
  obtain ⟨hrep, hcase⟩ := h
  refine ⟨represents_step hn hrep hs, ?_⟩
  rcases hcase with ⟨hdead, j, hj⟩ | hstuck
  · exact .inl ⟨dead_step hn hdead hs, j, inLock_step hn hdead (step_of_next hs) hj⟩
  · by_cases hpc : (s.threads i).pc = .storeNeg
    · obtain ⟨o, ho⟩ := hrep
      obtain ⟨hdead, hin⟩ := dead_of_late_store ho hpc hs hstuck.free
      exact .inl ⟨hdead, i, hin⟩
    · exact .inr (stuck_step hstuck (step_of_next hs) hpc)

theorem Lost.not_finished (h : Lost s) : ¬ Finished s := by
  intro hfin
  rcases h.2 with ⟨-, j, hj⟩ | ⟨⟨j, hj⟩, -⟩
  · simp [InLock, hfin.2 j] at hj
  · simp [hfin.2 j] at hj

/-! ## The way to the end -/

/-- The statements a thread has left if it is not kept waiting. -/
def Thread.rank (l : Thread) : Nat :=
  match l.pc with
  | .storeNeg => 7 * l.rounds + 6
  | .futexWait | .asleep => 7 * l.rounds + 5
  | .subFetch => 7 * l.rounds + 4
  | .critical => 7 * l.rounds + 3
  | .storeOne => 7 * l.rounds + 2
  | .futexWake => 7 * l.rounds + 1
  | .finished => 0

def State.rank (s : State n) : Nat := ∑ i, (s.threads i).rank

theorem rank_start (l : Thread) : (Thread.start (l.rounds - 1)).rank < 7 * l.rounds + 1 := by
  by_cases hk : l.rounds - 1 = 0
  · simp [Thread.start, Thread.rank, hk]
  · simp only [Thread.start, Thread.rank, hk, if_false]
    omega

theorem rank_update {f : Fin n → Thread} {l : Thread} (h : l.rank < (f i).rank) :
    ∑ j, (Function.update f i l j).rank < ∑ j, (f j).rank := by
  have hsum := sum_update Thread.rank f i l
  omega

theorem rank_wakeAll (f : Fin n → Thread) (j : Fin n) : (wakeAll f j).rank ≤ (f j).rank := by
  unfold wakeAll
  split
  next hasleep =>
    simp only [Thread.rank, Thread.goto, hasleep]
    omega
  next => exact Nat.le_refl _

theorem rank_wake (hpc : (s.threads i).pc = .futexWake) : (s.wake i).rank < s.rank := by
  have hi : wakeAll s.threads i = s.threads i := if_neg (by simp [hpc])
  have hlt : (Thread.start ((s.threads i).rounds - 1)).rank < (wakeAll s.threads i).rank := by
    rw [hi]
    simpa only [Thread.rank, hpc] using rank_start (s.threads i)
  have hle : ∑ j, (wakeAll s.threads j).rank ≤ ∑ j, (s.threads j).rank :=
    Finset.sum_le_sum fun j _ => rank_wakeAll s.threads j
  exact (rank_update hlt).trans_le hle

/-- No store of -1 has come too late so far, and none has to. -/
structure Live (s : State n) : Prop where
  represents : ∃ o, Represents s o
  guarded : Guarded s
  notStuck : ¬ Stuck s

/-- A step that leaves the lock alive and lowers the rank. -/
def Advances (s : State n) (i : Fin n) : Prop :=
  ∃ t, (undisturbed n).next s i = some t ∧ Guarded t ∧ ¬ Stuck t ∧ t.rank < s.rank

theorem not_stuck_of_owns (h : Owns (t.threads i)) : ¬ Stuck t := fun hst => hst.free ⟨i, h⟩

theorem not_stuck_of_subFetch (h : (t.threads i).pc = .subFetch) : ¬ Stuck t := by
  intro hst
  rcases hst.2 i with hi | hi | ⟨hi, -⟩ <;> simp [h] at hi

theorem not_stuck_of_no_store (h : ∀ i, (t.threads i).pc ≠ .storeNeg) : ¬ Stuck t := by
  rintro ⟨⟨i, hi⟩, -⟩
  exact h i hi

/-- As long as somebody owns the lock, a store of -1 does no harm. -/
theorem advances_storeNeg (h : Guarded s) (hpc : (s.threads i).pc = .storeNeg) {j : Fin n}
    (hj : Owns (s.threads j)) : Advances s i := by
  have hs : (sleepLock n).next s (i, .step) =
      some (s.set (-1) i ((s.threads i).goto .futexWait)) := by
    simp only [sleepLock, next, hpc]
  have hji : j ≠ i := ne_of_local hj (by simp [Owns, hpc])
  refine ⟨_, hs, guarded_step h hs fun _ => ⟨j, hj⟩, not_stuck_of_owns (i := j) ?_, rank_update ?_⟩
  · simpa [hji] using hj
  · simp [Thread.rank, Thread.goto, hpc]

/-- With no store of -1 to come, the owner gets on. -/
theorem advances_owner (h : Guarded s) (hi : Owns (s.threads i))
    (hno : ∀ j, (s.threads j).pc ≠ .storeNeg) : Advances s i := by
  have hstep : ∀ w l, (sleepLock n).next s (i, .step) = some (s.set w i l) →
      l.pc ≠ .storeNeg → l.rank < (s.threads i).rank → Advances s i := by
    intro w l hs hl hrank
    refine ⟨_, hs, guarded_step h hs fun hpc => absurd hpc (hno i), not_stuck_of_no_store ?_,
      rank_update hrank⟩
    exact forall_update (P := fun _ (l : Thread) => l.pc ≠ .storeNeg) hno hl
  rcases hi with hpc | hpc
  · by_cases hret : s.gs32curlock + 1 ≠ 1
    · refine hstep (s.gs32curlock + 1) ((s.threads i).goto .storeOne) ?_ (by simp) ?_
      · simp only [sleepLock, next, hpc, if_pos hret]
      · simp [Thread.rank, Thread.goto, hpc]
    · refine hstep (s.gs32curlock + 1) (.start ((s.threads i).rounds - 1)) ?_ (by simp) ?_
      · simp only [sleepLock, next, hpc, if_neg hret]
      · have hlt := rank_start (s.threads i)
        simp only [Thread.rank, hpc] at hlt ⊢
        omega
  · refine hstep 1 ((s.threads i).goto .futexWake) ?_ (by simp) ?_
    · simp only [sleepLock, next, hpc]
    · simp [Thread.rank, Thread.goto, hpc]

/-- A free lock can be acquired. -/
theorem advances_subFetch (h : Guarded s) (hw : s.gs32curlock = 1)
    (hpc : (s.threads i).pc = .subFetch) : Advances s i := by
  have hs : (sleepLock n).next s (i, .step) =
      some (s.set (1 - 1) i ((s.threads i).goto .critical)) := by
    simp only [sleepLock, next, hpc, hw]
    rfl
  refine ⟨_, hs, guarded_step h hs fun hneg => ?_, not_stuck_of_owns (i := i) ?_, rank_update ?_⟩
  · simp [hpc] at hneg
  · simp [Owns]
  · simp [Thread.rank, Thread.goto, hpc]

theorem advances_futexWait (h : Guarded s) (hw : s.gs32curlock = 1)
    (hpc : (s.threads i).pc = .futexWait) : Advances s i := by
  have hs : (sleepLock n).next s (i, .step) =
      some (s.set s.gs32curlock i ((s.threads i).goto .subFetch)) := by
    simp only [sleepLock, next, hpc, hw]
    rfl
  refine ⟨_, hs, guarded_step h hs fun hneg => ?_, not_stuck_of_subFetch (i := i) ?_,
    rank_update ?_⟩
  · simp [hpc] at hneg
  · simp
  · simp [Thread.rank, Thread.goto, hpc]

/-- A thread that wakes the others can be stuck behind it only if it was before. -/
theorem stuck_of_wake (hpc : (s.threads i).pc = .futexWake) (h : Stuck (s.wake i)) : Stuck s := by
  obtain ⟨⟨j, hj⟩, hall⟩ := h
  rw [State.wake_threads] at hj
  have hji : j ≠ i := by
    rintro rfl
    simp at hj
  rw [Function.update_of_ne hji] at hj
  refine ⟨⟨j, ?_⟩, fun k => ?_⟩
  · rcases wakeAll_pc s.threads j with hw | ⟨-, hw⟩
    · exact hw ▸ hj
    · simp [hw] at hj
  · have hk := hall k
    rw [State.wake_threads] at hk
    by_cases hki : k = i
    · subst hki
      rw [Function.update_self] at hk
      refine .inr (.inr ⟨hpc, ?_⟩)
      rcases hk with hk | hk | ⟨hk, -⟩
      · simp at hk
      · simp at hk
        omega
      · simp at hk
    · rw [Function.update_of_ne hki] at hk
      by_cases hasleep : (s.threads k).pc = .asleep
      · have hwoken : (wakeAll s.threads k).pc = .subFetch := by
          rw [wakeAll, if_pos hasleep]
          rfl
        rcases hk with hk | hk | ⟨hk, -⟩ <;> simp [hwoken] at hk
      · rwa [wakeAll, if_neg hasleep] at hk

theorem advances_futexWake (h : Guarded s) (hst : ¬ Stuck s)
    (hpc : (s.threads i).pc = .futexWake) : Advances s i := by
  have hs : (sleepLock n).next s (i, .step) = some (s.wake i) := by
    simp only [sleepLock, next, hpc]
  refine ⟨_, hs, guarded_step h hs fun hneg => ?_, fun ht => hst (stuck_of_wake hpc ht),
    rank_wake hpc⟩
  simp [hpc] at hneg

/-- When the lock is free and nobody can come to own it, all have finished. -/
theorem Live.finished (h : Live s) (hfree : ¬ ∃ i, Owns (s.threads i))
    (hno : ∀ i, (s.threads i).pc ≠ .subFetch ∧ (s.threads i).pc ≠ .futexWait ∧
      (s.threads i).pc ≠ .futexWake) : Finished s := by
  have hasleep : ∀ i, (s.threads i).pc ≠ .asleep := by
    intro i hi
    rcases h.guarded.waker ⟨i, hi⟩ with ⟨j, hj | hj⟩ | ⟨j, hj, -⟩
    · exact hfree ⟨j, .inr hj⟩
    · exact (hno j).2.2 hj
    · exact hfree ⟨j, .inl hj⟩
  have hrest : ∀ i, (s.threads i).pc = .storeNeg ∨ (s.threads i).pc = .finished := by
    intro i
    have hi := hno i
    have hai := hasleep i
    have hoi : ¬ Owns (s.threads i) := fun ho => hfree ⟨i, ho⟩
    cases hpc : (s.threads i).pc <;> simp_all [Owns]
  refine ⟨h.guarded.owned.resolve_left hfree, fun i => (hrest i).resolve_left fun hi => ?_⟩
  exact h.notStuck ⟨⟨i, hi⟩, fun j => (hrest j).imp_right .inl⟩

theorem Live.advances (h : Live s) (hnot : ¬ Finished s) : ∃ i, Advances s i := by
  by_cases ho : ∃ i, Owns (s.threads i)
  · obtain ⟨i, hi⟩ := ho
    by_cases hneg : ∃ j, (s.threads j).pc = .storeNeg
    · obtain ⟨j, hj⟩ := hneg
      exact ⟨j, advances_storeNeg h.guarded hj hi⟩
    · exact ⟨i, advances_owner h.guarded hi fun j hj => hneg ⟨j, hj⟩⟩
  · have hw := h.guarded.owned.resolve_left ho
    by_contra hstay
    have hno := not_exists.mp hstay
    exact hnot (h.finished ho fun i => ⟨fun hi => hno i (advances_subFetch h.guarded hw hi),
      fun hi => hno i (advances_futexWait h.guarded hw hi),
      fun hi => hno i (advances_futexWake h.guarded h.notStuck hi)⟩)

theorem undisturbed_descends (hn : n < 2147483648) :
    (undisturbed n).Descends Live Finished State.rank := by
  intro s h hnot
  obtain ⟨i, t, hs, hguarded, hstuck, hrank⟩ := h.advances hnot
  have hstep : (sleepLock n).next s (i, .step) = some t := hs
  exact ⟨i, t, hs, ⟨represents_step hn h.represents hstep, hguarded, hstuck⟩, hrank⟩

/-! ## All runs -/

/-- In every run the lock is guarded, or it is dead with some thread inside. -/
def Settled (s : State n) : Prop :=
  (∃ o, Represents s o) ∧ (Guarded s ∨ (Dead s ∧ ∃ i, InLock (s.threads i)))

theorem settled_step (hn : n < 2147483648) {a : Fin n × Act} (h : Settled s)
    (hs : (sleepLock n).next s a = some t) : Settled t := by
  obtain ⟨i, a⟩ := a
  obtain ⟨hrep, hcase⟩ := h
  refine ⟨represents_step hn hrep hs, ?_⟩
  rcases hcase with hguarded | ⟨hdead, j, hj⟩
  · by_cases hst : StoreOwned s (i, a) t
    · exact .inl (guarded_step hguarded hs hst)
    · obtain ⟨hpc, hfree⟩ := Classical.not_imp.mp hst
      obtain ⟨o, ho⟩ := hrep
      obtain ⟨hdead, hin⟩ := dead_of_late_store ho hpc hs hfree
      exact .inr ⟨hdead, i, hin⟩
  · exact .inr ⟨dead_step hn hdead hs, j, inLock_step hn hdead (step_of_next hs) hj⟩

/-- A thread gets lost in every continuation of a run, however its waits are interrupted, if and
only if the lock is dead or stuck. From all other states the threads can be run to their ends,
with the lock free, and without any interrupted wait. -/
theorem sleepLock_finishes_iff (hn : n < 2147483648) (rounds : Fin n → Nat)
    (hr : (sleepLock n).Reachable (init rounds) s) :
    ((∃ t, (sleepLock n).Reachable s t ∧ Finished t) ↔ ¬ Dead s ∧ ¬ Stuck s) ∧
    ((∃ t, (undisturbed n).Reachable s t ∧ Finished t) ↔ ¬ Dead s ∧ ¬ Stuck s) := by
  obtain ⟨hrep, hcase⟩ : Settled s := hr.invariant (settled_step hn)
    ⟨⟨none, represents_init rounds⟩, .inl (guarded_init rounds)⟩
  have hgood : (∃ t, (sleepLock n).Reachable s t ∧ Finished t) → ¬ Dead s ∧ ¬ Stuck s := by
    rintro ⟨t, ht, hfin⟩
    have hnot : ¬ Lost s := fun hlost => (ht.invariant (lost_step hn) hlost).not_finished hfin
    refine ⟨fun hdead => ?_, fun hstuck => hnot ⟨hrep, .inr hstuck⟩⟩
    rcases hcase with hguarded | hin
    · rcases hguarded.owned with ⟨i, hi⟩ | hw
      · exact hdead.not_owns i hi
      · have hneg := hdead.negative
        rw [hw] at hneg
        exact absurd hneg (by decide)
    · exact hnot ⟨hrep, .inl hin⟩
  have hends : ¬ Dead s ∧ ¬ Stuck s → ∃ t, (undisturbed n).Reachable s t ∧ Finished t := by
    rintro ⟨hdead, hstuck⟩
    have hguarded : Guarded s := hcase.resolve_right fun hin => hdead hin.1
    obtain ⟨t, ht, -, hfin⟩ := (undisturbed_descends hn).completes ⟨hrep, hguarded, hstuck⟩
    exact ⟨t, ht, hfin⟩
  have hlift : (∃ t, (undisturbed n).Reachable s t ∧ Finished t) →
      ∃ t, (sleepLock n).Reachable s t ∧ Finished t := by
    rintro ⟨t, ht, hfin⟩
    exact ⟨t, reachable_of_undisturbed ht, hfin⟩
  exact ⟨⟨hgood, fun h => hlift (hends h)⟩, ⟨fun h => hgood (hlift h), hends⟩⟩

/-- Two threads: the second has failed its decrement, and the first owns the lock. -/
theorem sleepLock_finishes_two : ∃ t : State 2, Finished t := by
  have hrun : ∃ s, (sleepLock 2).run (init fun _ => 1) [(0, .step), (1, .step)] = some s ∧
      (s.threads 0).pc = .critical := ⟨_, rfl, rfl⟩
  obtain ⟨s, hs, hpc⟩ := hrun
  have howns : Owns (s.threads 0) := .inl hpc
  obtain ⟨t, -, hfin⟩ := (sleepLock_finishes_iff (by decide) (fun _ => 1) ⟨_, hs⟩).1.mpr
    ⟨fun hdead => hdead.not_owns 0 howns, not_stuck_of_owns howns⟩
  exact ⟨t, hfin⟩

end Cse522.Studio11.SleepLock

import Mathlib.Algebra.Order.BigOperators.Group.Finset
import Cse522.Clib.Word
import Cse522.Studio10.Counters

/-!
# No increment is lost

With `atomic_add`, `race` counts the bodies that have been run. The module with the mutex
simulates the one with `atomic_add`: its store is the other's addition, since the value
loaded with the mutex held is still that of `race`.
-/
namespace Cse522.Studio10

open Cse522.Interleave Cse522.Clib.Word

variable {T I : Nat}

namespace MultiAtomic

variable {s t : State T} {i : Fin T} {l : Thread}

/-- The counter where the thread stands. -/
def Placed (I : Nat) (l : Thread) : Prop :=
  match l.pc with
  | .start => l.s32i = 0
  | .test => l.s32i ≤ I
  | .atomicAdd | .incr => l.s32i < I
  | .finish | .returned => l.s32i = I

structure Counted (I : Nat) (s : State T) : Prop where
  race : s.race = Int32.ofNat s.total
  placed : ∀ i, Placed I (s.threads i)

theorem total_move (s : State T) (i : Fin T) (l : Thread) :
    (s.move i l).total + (s.threads i).completed = s.total + l.completed :=
  sum_update Thread.completed s.threads i l

/-- A move that runs no body. -/
theorem Counted.move (h : Counted I s) (hl : l.completed = (s.threads i).completed)
    (hp : Placed I l) : Counted I (s.move i l) := by
  have htotal := total_move s i l
  refine ⟨?_, forall_update (P := fun _ => Placed I) h.placed hp⟩
  have heq : (s.move i l).total = s.total := by omega
  rw [heq]
  exact h.race

theorem counted_init (T I : Nat) : Counted I (init T) where
  race := by simp [init, State.total, Thread.completed]
  placed := fun _ => rfl

theorem counted_step (h : Counted I s) (hn : (multiAtomic T I).next s i = some t) :
    Counted I t := by
  have hp := h.placed i
  simp only [multiAtomic, mykthread] at hn
  cases hpc : (s.threads i).pc <;> simp only [hpc, Placed, Option.some.injEq] at hn hp
  case start =>
      subst hn
      exact h.move (by simp [Thread.completed, hpc, hp]) (Nat.zero_le I)
  case test =>
      subst hn
      by_cases hlt : (s.threads i).s32i < I
      · rw [if_pos hlt]
        exact h.move (by simp [Thread.completed, hpc]) hlt
      · rw [if_neg hlt]
        exact h.move (by simp [Thread.completed, hpc]) (by simp only [Placed]; omega)
  case atomicAdd =>
      subst hn
      have htotal := total_move s i ⟨(s.threads i).s32i, .incr⟩
      simp only [Thread.completed, hpc, if_true, reduceCtorEq, if_false] at htotal
      have heq : (s.move i ⟨(s.threads i).s32i, .incr⟩).total = s.total + 1 := by omega
      refine ⟨?_, forall_update (P := fun _ => Placed I) h.placed hp⟩
      show s.race + 1 = Int32.ofNat (s.move i ⟨(s.threads i).s32i, .incr⟩).total
      rw [heq, h.race]
      simp
  case incr =>
      subst hn
      exact h.move (by simp [Thread.completed, hpc]) hp
  case finish =>
      subst hn
      exact h.move (by simp [Thread.completed, hpc]) hp
  case returned => cases hn

theorem Placed.completed_le (h : Placed I l) : l.completed ≤ I := by
  unfold Placed at h
  unfold Thread.completed
  cases hpc : l.pc <;> simp only [hpc, reduceCtorEq, if_true, if_false] at h ⊢ <;> omega

theorem Counted.total_le (h : Counted I s) : s.total ≤ T * I := by
  have hsum : s.total ≤ ∑ _i : Fin T, I := Finset.sum_le_sum fun i _ => (h.placed i).completed_le
  simpa using hsum

/-- The total is full when every thread is done with its bodies, and only then. -/
theorem Counted.total_eq_iff (h : Counted I s) :
    s.total = T * I ↔ ∀ i, (s.threads i).completed = I := by
  have hfull : (∑ _i : Fin T, I) = T * I := by simp
  rw [← hfull, State.total, Finset.sum_eq_sum_iff_of_le fun i _ => (h.placed i).completed_le]
  simp

theorem Counted.completed_of_returned (h : Counted I s) {i : Fin T}
    (hpc : (s.threads i).pc = .returned) : (s.threads i).completed = I := by
  have hp := h.placed i
  simp only [Placed, hpc] at hp
  simp [Thread.completed, hpc, hp]

/-- `race` does not wrap while the total fits an `int`. -/
theorem Counted.toInt_race (h : Counted I s) (hfit : T * I < 2147483648) :
    s.race.toInt = s.total := by
  have hle := h.total_le
  rw [h.race, Int32.toInt_ofNat_of_lt]
  omega

theorem counted_of_reachable (hr : (multiAtomic T I).Reachable (init T) s) : Counted I s :=
  hr.invariant counted_step (counted_init T I)

/-- The statements that a thread has executed. -/
def Thread.executed (I : Nat) (l : Thread) : Nat :=
  match l.pc with
  | .start => 0
  | .test => 3 * l.s32i + 1
  | .atomicAdd => 3 * l.s32i + 2
  | .incr => 3 * l.s32i + 3
  | .finish => 3 * I + 2
  | .returned => 3 * I + 3

/-- A thread changes nothing in another one. -/
theorem threads_other (hn : (multiAtomic T I).next s i = some t) {j : Fin T} (hj : j ≠ i) :
    t.threads j = s.threads j := by
  simp only [multiAtomic, mykthread] at hn
  cases hpc : (s.threads i).pc <;> simp only [hpc, Option.some.injEq] at hn
  case returned => cases hn
  all_goals
    subst hn
    simp [State.move, hj]

theorem executed_step (hp : Placed I (s.threads i)) (hn : (multiAtomic T I).next s i = some t)
    (j : Fin T) : (t.threads j).executed I =
      (s.threads j).executed I + if j = i then 1 else 0 := by
  by_cases hj : j = i
  · subst hj
    simp only [multiAtomic, mykthread] at hn
    cases hpc : (s.threads j).pc <;> simp only [hpc, Placed, Option.some.injEq] at hn hp
    case returned => cases hn
    case test =>
        subst hn
        by_cases hlt : (s.threads j).s32i < I
        · simp [State.move, Thread.executed, hpc, hlt]
        · simp only [State.move, Thread.executed, hpc, hlt, Function.update_self, if_false, if_true]
          omega
    all_goals
      subst hn
      simp [State.move, Thread.executed, hpc]
    all_goals omega
  · rw [threads_other hn hj, if_neg hj, Nat.add_zero]

/-- The last increment is a thread's statement `3 * I`. -/
theorem completed_iff_executed (hI : 0 < I) (hp : Placed I l) :
    l.completed = I ↔ 3 * I ≤ l.executed I := by
  unfold Placed at hp
  unfold Thread.completed Thread.executed
  cases hpc : l.pc <;> simp only [hpc, reduceCtorEq, if_true, if_false] at hp ⊢ <;> omega

theorem returned_iff_executed (hp : Placed I l) :
    l.pc = .returned ↔ 3 * I + 3 ≤ l.executed I := by
  unfold Placed at hp
  unfold Thread.executed
  cases hpc : l.pc <;> simp only [hpc, reduceCtorEq, false_iff, true_iff] at hp ⊢ <;> omega

end MultiAtomic

namespace MultiMutex

variable {s t : State T} {i : Fin T}

/-- Between `mutex_lock` and the end of `mutex_unlock`. -/
def Holds (l : Thread) : Prop := l.pc = .load ∨ l.pc = .store ∨ l.pc = .unlock

/-- The same point of the loop with `atomic_add`. -/
def Pc.abs : Pc → MultiAtomic.Pc
  | .start => .start
  | .test => .test
  | .lock | .load | .store => .atomicAdd
  | .unlock | .incr => .incr
  | .finish => .finish
  | .returned => .returned

def Thread.abs (l : Thread) : MultiAtomic.Thread := ⟨l.s32i, l.pc.abs⟩

def State.abs (s : State T) : MultiAtomic.State T := ⟨s.race, fun i => (s.threads i).abs⟩

/-- In front of the store, the register holds the value of `race`. -/
def Loaded (race : Int32) (l : Thread) : Prop := l.pc = .store → l.loaded = race

structure Guarded (s : State T) : Prop where
  owner : Owner Holds s.threads s.MYMUTEX
  loaded : ∀ i, Loaded s.race (s.threads i)

/-- The state of the other module, and who may touch `race`. -/
def Represents (s : State T) (o : MultiAtomic.State T) : Prop := o = s.abs ∧ Guarded s

/-- The steps on the mutex and the load are not seen. -/
def emit (s : State T) (i : Fin T) (_ : State T) : Option (Fin T) :=
  match (s.threads i).pc with
  | .lock | .load | .unlock => none
  | _ => some i

theorem guarded_init (T : Nat) : Guarded (init T) where
  owner := fun i => by simp [init, Holds]
  loaded := fun i h => by simp [init] at h

theorem abs_move (s : State T) (i : Fin T) (l : Thread) :
    (s.move i l).abs = s.abs.move i l.abs := by
  simp only [State.abs, State.move, MultiAtomic.State.move]
  congr 1
  funext j
  by_cases hj : j = i
  · subst hj
    simp
  · simp [hj]

/-- A move that the other module does not see. -/
theorem abs_move_of_eq {l : Thread} (h : l.abs = (s.threads i).abs) : (s.move i l).abs = s.abs := by
  rw [abs_move, h]
  show (⟨s.abs.race, Function.update s.abs.threads i (s.abs.threads i)⟩ : MultiAtomic.State T) = _
  rw [Function.update_eq_self]

/-- A move outside of the mutex. -/
theorem Guarded.move {l : Thread} (h : Guarded s) (hi : ¬ Holds (s.threads i)) (hl : ¬ Holds l) :
    Guarded (s.move i l) where
  owner := h.owner.keep ⟨fun hh => absurd hh hl, fun hh => absurd hh hi⟩
  loaded := forall_update (P := fun _ => Loaded s.race) h.loaded
    fun hpc => absurd (.inr (.inl hpc)) hl

theorem guarded_step (h : Guarded s) (hn : (multiMutex T I).next s i = some t) : Guarded t := by
  simp only [multiMutex, mykthread] at hn
  cases hpc : (s.threads i).pc <;> simp only [hpc, Option.some.injEq] at hn
  case start | incr | finish =>
      subst hn
      exact h.move (by simp [Holds, hpc]) (by simp [Holds])
  case test =>
      subst hn
      apply h.move (by simp [Holds, hpc])
      split <;> simp [Holds]
  case lock =>
      obtain ⟨hfree, ht⟩ := Option.ite_none_right_eq_some.mp hn
      cases ht
      have howner := h.owner
      rw [hfree] at howner
      refine ⟨howner.acquire (.inl rfl), ?_⟩
      exact forall_update (P := fun _ => Loaded s.race) h.loaded (by simp [Loaded])
  case load =>
      subst hn
      refine ⟨h.owner.keep (by simp [Holds, hpc]), ?_⟩
      exact forall_update (P := fun _ => Loaded s.race) h.loaded fun _ => rfl
  case store =>
      subst hn
      refine ⟨h.owner.keep (by simp [Holds, hpc]), ?_⟩
      -- the owner is the only one in front of the store
      have hnone : ∀ j, ((s.move i { s.threads i with pc := .unlock }).threads j).pc ≠ .store := by
        intro j hj
        by_cases hji : j = i
        · subst hji
          simp [State.move] at hj
        · have hj' : (s.threads j).pc = .store := by simpa [State.move, hji] using hj
          exact hji (h.owner.unique (.inr (.inl hj')) (.inr (.inl hpc)))
      intro j hj
      exact absurd hj (hnone j)
  case unlock =>
      subst hn
      refine ⟨h.owner.release (.inr (.inr hpc)) (by simp [Holds]), ?_⟩
      exact forall_update (P := fun _ => Loaded s.race) h.loaded (by simp [Loaded])
  case returned => cases hn

/-- A step is a step of the other module, or is not seen there. -/
theorem abs_step (h : Guarded s) (hn : (multiMutex T I).next s i = some t) :
    match emit s i t with
    | none => t.abs = s.abs
    | some i => (MultiAtomic.multiAtomic T I).next s.abs i = some t.abs := by
  simp only [multiMutex, mykthread] at hn
  have hpc' : (s.abs.threads i).pc = (s.threads i).pc.abs := rfl
  cases hpc : (s.threads i).pc <;> simp only [hpc, Option.some.injEq, emit, Pc.abs] at hn hpc' ⊢
  case start | incr | finish =>
      subst hn
      simp only [MultiAtomic.multiAtomic, MultiAtomic.mykthread, hpc', abs_move]
      rfl
  case test =>
      subst hn
      have hs : (s.abs.threads i).s32i = (s.threads i).s32i := rfl
      simp only [MultiAtomic.multiAtomic, MultiAtomic.mykthread, hpc', abs_move, hs]
      split <;> rfl
  case lock =>
      obtain ⟨-, ht⟩ := Option.ite_none_right_eq_some.mp hn
      cases ht
      exact abs_move_of_eq (s := s) (by simp [Thread.abs, Pc.abs, hpc])
  case load =>
      subst hn
      exact abs_move_of_eq (by simp [Thread.abs, Pc.abs, hpc])
  case store =>
      subst hn
      simp only [MultiAtomic.multiAtomic, MultiAtomic.mykthread, hpc', abs_move, h.loaded i hpc]
      rfl
  case unlock =>
      subst hn
      exact abs_move_of_eq (s := s) (by simp [Thread.abs, Pc.abs, hpc])
  case returned => cases hn

theorem abs_eq_or_next (h : Guarded s) (hn : (multiMutex T I).next s i = some t) :
    t.abs = s.abs ∨ (MultiAtomic.multiAtomic T I).next s.abs i = some t.abs := by
  have habs := abs_step h hn
  cases hpc : (s.threads i).pc <;> simp only [emit, hpc] at habs
  case lock | load | unlock => exact .inl habs
  all_goals exact .inr habs

theorem counted_step (h : Guarded s) (hc : MultiAtomic.Counted I s.abs)
    (hn : (multiMutex T I).next s i = some t) : MultiAtomic.Counted I t.abs := by
  rcases abs_eq_or_next h hn with heq | hnext
  · rw [heq]
    exact hc
  · exact MultiAtomic.counted_step hc hnext

theorem abs_returned {pc : Pc} : pc.abs = .returned ↔ pc = .returned := by
  cases pc <;> simp [Pc.abs]

/-- The statements that a thread has executed. -/
def Thread.executed (I : Nat) (l : Thread) : Nat :=
  match l.pc with
  | .start => 0
  | .test => 6 * l.s32i + 1
  | .lock => 6 * l.s32i + 2
  | .load => 6 * l.s32i + 3
  | .store => 6 * l.s32i + 4
  | .unlock => 6 * l.s32i + 5
  | .incr => 6 * l.s32i + 6
  | .finish => 6 * I + 2
  | .returned => 6 * I + 3

theorem threads_other (hn : (multiMutex T I).next s i = some t) {j : Fin T} (hj : j ≠ i) :
    t.threads j = s.threads j := by
  simp only [multiMutex, mykthread] at hn
  cases hpc : (s.threads i).pc <;> simp only [hpc, Option.some.injEq] at hn
  case returned => cases hn
  case lock =>
      obtain ⟨-, ht⟩ := Option.ite_none_right_eq_some.mp hn
      cases ht
      simp [State.move, hj]
  all_goals
    subst hn
    simp [State.move, hj]

theorem executed_step (hp : MultiAtomic.Placed I (s.threads i).abs)
    (hn : (multiMutex T I).next s i = some t) (j : Fin T) : (t.threads j).executed I =
      (s.threads j).executed I + if j = i then 1 else 0 := by
  by_cases hj : j = i
  · subst hj
    simp only [multiMutex, mykthread] at hn
    cases hpc : (s.threads j).pc <;> simp only [hpc, Option.some.injEq] at hn
    all_goals simp only [MultiAtomic.Placed, Thread.abs, Pc.abs, hpc] at hp
    case returned => cases hn
    case lock =>
        obtain ⟨-, ht⟩ := Option.ite_none_right_eq_some.mp hn
        cases ht
        simp [State.move, Thread.executed, hpc]
    case test =>
        subst hn
        by_cases hlt : (s.threads j).s32i < I
        · simp [State.move, Thread.executed, hpc, hlt]
        · simp only [State.move, Thread.executed, hpc, hlt, Function.update_self, if_false, if_true]
          omega
    all_goals
      subst hn
      simp [State.move, Thread.executed, hpc]
    all_goals omega
  · rw [threads_other hn hj, if_neg hj, Nat.add_zero]

/-- The last increment is made by the store, a thread's statement `6 * I - 1`. -/
theorem completed_iff_executed {l : Thread} (hI : 0 < I) (hp : MultiAtomic.Placed I l.abs) :
    l.abs.completed = I ↔ 6 * I - 1 ≤ l.executed I := by
  unfold MultiAtomic.Placed at hp
  unfold MultiAtomic.Thread.completed Thread.executed
  cases hpc : l.pc <;>
    simp only [Thread.abs, Pc.abs, hpc, reduceCtorEq, if_true, if_false] at hp ⊢ <;> omega

theorem returned_iff_executed {l : Thread} (hp : MultiAtomic.Placed I l.abs) :
    l.pc = .returned ↔ 6 * I + 3 ≤ l.executed I := by
  unfold MultiAtomic.Placed at hp
  unfold Thread.executed
  cases hpc : l.pc <;>
    simp only [Thread.abs, Pc.abs, hpc, reduceCtorEq, false_iff, true_iff] at hp ⊢ <;> omega

/-- The module with the mutex is a refinement of the one with `atomic_add`. -/
theorem multiMutex_refines_multiAtomic (T I : Nat) :
    Simulation (multiMutex T I) (MultiAtomic.multiAtomic T I) emit Represents where
  silent h hn he := by
    obtain ⟨rfl, hg⟩ := h
    have habs := abs_step hg hn
    rw [he] at habs
    exact ⟨habs.symm, guarded_step hg hn⟩
  visible h hn he := by
    obtain ⟨rfl, hg⟩ := h
    have habs := abs_step hg hn
    rw [he] at habs
    exact ⟨_, habs, rfl, guarded_step hg hn⟩

theorem represents_init (T : Nat) : Represents (init T) (MultiAtomic.init T) :=
  ⟨rfl, guarded_init T⟩

/-- Every state of the module shows one that the other reaches. -/
theorem counted_of_reachable (hr : (multiMutex T I).Reachable (init T) s) :
    Guarded s ∧ MultiAtomic.Counted I s.abs := by
  obtain ⟨as, hr⟩ := hr
  obtain ⟨o, ho, rfl, hg⟩ := (multiMutex_refines_multiAtomic T I).run (represents_init T) hr
  exact ⟨hg, MultiAtomic.counted_of_reachable ⟨_, ho⟩⟩

theorem completed_abs {l : Thread} (h : ¬ Holds l) : l.abs.completed = l.completed := by
  obtain ⟨s32i, loaded, pc⟩ := l
  cases pc <;> simp_all [MultiAtomic.Thread.completed, Thread.completed, Thread.abs, Pc.abs, Holds]

/-- With the mutex free, no thread is between its store and its `mutex_unlock`. -/
theorem Guarded.total_abs (h : Guarded s) (hfree : s.MYMUTEX = none) : s.abs.total = s.total := by
  have hno := (h.owner.eq_none_iff).mp hfree
  exact Finset.sum_congr rfl fun i _ => completed_abs (hno i)

end MultiMutex

/-- In every state of the module with `atomic_add`, and in every one of the module with the
mutex in which the mutex is free, `race` is the number of iterations completed. Once all
threads have returned it is `T * I` in both. -/
theorem counters_agree (T I : Nat) (hfit : T * I < 2147483648) :
    (∀ s, (MultiAtomic.multiAtomic T I).Reachable (MultiAtomic.init T) s →
      s.race.toInt = s.total ∧
      ((∀ i, (s.threads i).pc = .returned) → s.race.toInt = T * I)) ∧
    ∀ s, (MultiMutex.multiMutex T I).Reachable (MultiMutex.init T) s →
      (s.MYMUTEX = none → s.race.toInt = s.total) ∧
      ((∀ i, (s.threads i).pc = .returned) → s.race.toInt = T * I) := by
  constructor
  · intro s hr
    have h := MultiAtomic.counted_of_reachable hr
    have hrace := h.toInt_race hfit
    refine ⟨hrace, fun hret => ?_⟩
    have htotal := h.total_eq_iff.mpr fun i => h.completed_of_returned (hret i)
    rw [hrace, htotal]
    push_cast
    rfl
  · intro s hr
    obtain ⟨hg, h⟩ := MultiMutex.counted_of_reachable hr
    have hrace : s.race.toInt = s.abs.total := h.toInt_race hfit
    constructor
    · intro hfree
      rw [hrace, hg.total_abs hfree]
    · intro hret
      have habs : ∀ i, (s.abs.threads i).pc = .returned := fun i =>
        MultiMutex.abs_returned.mpr (hret i)
      have htotal := h.total_eq_iff.mpr fun i => h.completed_of_returned (habs i)
      rw [hrace, htotal]
      push_cast
      rfl

/-- Two threads with one iteration each take turns. -/
def takingTurns : List (Fin 2) :=
  (List.replicate 6 [⟨0, Nat.zero_lt_two⟩, ⟨1, Nat.one_lt_two⟩]).flatten

/-- Two threads with one iteration each: the second one comes to `mutex_lock` when the first one
holds the mutex. -/
def contended : List (Fin 2) :=
  let first : Fin 2 := ⟨0, Nat.zero_lt_two⟩
  let second : Fin 2 := ⟨1, Nat.one_lt_two⟩
  [first, second, first, second, first, first, first, first, second, first, second, first, second,
    first, second, second, second, second]

theorem counters_agree_two_one :
    (∃ s, (MultiAtomic.multiAtomic 2 1).run (MultiAtomic.init 2) takingTurns = some s ∧
      (∀ i, (s.threads i).pc = .returned) ∧ s.race.toInt = 2) ∧
    ∃ s, (MultiMutex.multiMutex 2 1).run (MultiMutex.init 2) contended = some s ∧
      (∀ i, (s.threads i).pc = .returned) ∧ s.race.toInt = 2 := by
  obtain ⟨hatomic, hmutex⟩ := counters_agree 2 1 (by decide)
  have hruns : ∃ s, (MultiAtomic.multiAtomic 2 1).run (MultiAtomic.init 2) takingTurns = some s ∧
      ∀ i, (s.threads i).pc = .returned := ⟨_, rfl, by decide⟩
  have hruns' : ∃ s, (MultiMutex.multiMutex 2 1).run (MultiMutex.init 2) contended = some s ∧
      ∀ i, (s.threads i).pc = .returned := ⟨_, rfl, by decide⟩
  obtain ⟨s, hs, hret⟩ := hruns
  obtain ⟨t, ht, hret'⟩ := hruns'
  exact ⟨⟨s, hs, hret, (hatomic s ⟨_, hs⟩).2 hret⟩, t, ht, hret', (hmutex t ⟨_, ht⟩).2 hret'⟩

end Cse522.Studio10

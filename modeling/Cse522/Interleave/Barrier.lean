import Cse522.Interleave.Machine
import Mathlib.Data.Fintype.Basic
import Mathlib.Logic.Function.Basic

/-!
# The reusable barrier

What a barrier is for: a thread departs from its k-th visit only after every thread has
arrived at its own k-th visit. An implementation is a barrier if the arrivals and
departures of its runs are a run of this object.
-/
namespace Cse522.Interleave

inductive BarrierStep (ι : Type*) where
  | arrive (i : ι)
  | depart (i : ι)
  deriving DecidableEq

/-- How often each thread has arrived and departed. -/
@[ext] structure Visits (ι : Type*) where
  arrived : ι → Nat
  departed : ι → Nat

variable {ι : Type*} [Fintype ι] [DecidableEq ι]

/-- A thread arrives from outside the barrier, and departs once nobody is behind its visit. -/
def barrier (ι : Type*) [Fintype ι] [DecidableEq ι] : Machine (Visits ι) (BarrierStep ι) where
  next
    | v, .arrive i =>
        if v.arrived i = v.departed i then
          some { v with arrived := Function.update v.arrived i (v.arrived i + 1) }
        else none
    | v, .depart i =>
        if ∀ j, v.departed i < v.arrived j then
          some { v with departed := Function.update v.departed i (v.departed i + 1) }
        else none

@[simp] theorem barrier_arrive {v q : Visits ι} {i : ι} :
    (barrier ι).next v (.arrive i) = some q ↔ v.arrived i = v.departed i ∧
      { v with arrived := Function.update v.arrived i (v.arrived i + 1) } = q := by
  simp [barrier]

@[simp] theorem barrier_depart {v q : Visits ι} {i : ι} :
    (barrier ι).next v (.depart i) = some q ↔ (∀ j, v.departed i < v.arrived j) ∧
      { v with departed := Function.update v.departed i (v.departed i + 1) } = q := by
  simp [barrier]

def Visits.zero : Visits ι := ⟨fun _ => 0, fun _ => 0⟩

/-- No thread has departed more often than another has arrived. -/
def Visits.Separated (v : Visits ι) : Prop := ∀ i j, v.departed i ≤ v.arrived j

omit [Fintype ι] in
theorem le_update_succ (f : ι → Nat) (i j : ι) :
    f j ≤ Function.update f i (f i + 1) j := by
  by_cases hj : j = i
  · subst j
    simp
  · simp [hj]

theorem separated_step {v q : Visits ι} {b : BarrierStep ι} (h : v.Separated)
    (hs : (barrier ι).next v b = some q) : q.Separated := by
  cases b with
  | arrive i =>
      obtain ⟨_, rfl⟩ := barrier_arrive.mp hs
      exact fun k j => (h k j).trans (le_update_succ v.arrived i j)
  | depart i =>
      obtain ⟨hall, rfl⟩ := barrier_depart.mp hs
      intro k j
      by_cases hk : k = i
      · subst k
        change Function.update v.departed i (v.departed i + 1) i ≤ v.arrived j
        rw [Function.update_self]
        exact hall j
      · simpa [hk] using h k j

theorem barrier_separates {v : Visits ι} (h : (barrier ι).Reachable .zero v) : v.Separated :=
  h.invariant separated_step fun _ _ => Nat.le_refl 0

end Cse522.Interleave

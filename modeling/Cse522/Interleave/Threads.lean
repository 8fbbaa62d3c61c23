import Mathlib.Data.Fintype.Card
import Mathlib.Data.Fintype.BigOperators
import Mathlib.Algebra.BigOperators.Group.Finset.Piecewise
import Mathlib.Logic.Function.Basic

/-!
# Families of threads: who is where, and how many

A step of one thread updates a family `ι → α` of local states at one index. This
file says what such an update does to the single owner of a resource and to the
number of threads in a region of their code.
-/
namespace Cse522.Interleave

variable {ι : Type*} {α : Type*} {p owns : α → Prop} {f : ι → α}

/-- One thread moves: what holds of every thread still does. -/
theorem forall_update [DecidableEq ι] {P : ι → α → Prop} {i : ι} {x : α}
    (h : ∀ j, P j (f j)) (hx : P i x) (j : ι) : P j (Function.update f i x j) :=
  (Function.forall_update_iff f P).mpr ⟨hx, fun k _ => h k⟩ j

theorem ne_of_local {q : α → Prop} {i j : ι} (hj : q (f j)) (hi : ¬ q (f i)) : j ≠ i := by
  intro he
  subst he
  exact hi hj

/-- What some other thread satisfies survives the move of thread `i`. -/
theorem exists_update [DecidableEq ι] {q : α → Prop} {i : ι} {x : α} (hi : ¬ q (f i))
    (h : ∃ j, q (f j)) : ∃ j, q (Function.update f i x j) := by
  obtain ⟨j, hj⟩ := h
  have hne : j ≠ i := ne_of_local hj hi
  refine ⟨j, ?_⟩
  rw [Function.update_of_ne hne]
  exact hj

/-- Whom one sees active behind the move of thread `i`. -/
theorem update_eq_some [DecidableEq ι] {g : ι → Option α} {i j : ι} {x : Option α} {a : α} :
    Function.update g i x j = some a ↔ (j = i ∧ x = some a) ∨ (j ≠ i ∧ g j = some a) := by
  by_cases hj : j = i
  · subst hj
    simp
  · simp [hj]

/-! ## The owner of a resource -/

/-- `o` names the one thread whose local state owns the resource. -/
def Owner (owns : α → Prop) (f : ι → α) (o : Option ι) : Prop := ∀ i, owns (f i) ↔ o = some i

namespace Owner

variable {o : Option ι} {i j : ι} {x : α}

theorem unique (h : Owner owns f o) (hi : owns (f i)) (hj : owns (f j)) : i = j := by
  have hi' := (h i).mp hi
  have hj' := (h j).mp hj
  exact Option.some.inj (hi'.symm.trans hj')

theorem eq_some (h : Owner owns f o) (hi : owns (f i)) : o = some i := (h i).mp hi

theorem eq_none_iff (h : Owner owns f o) : o = none ↔ ∀ i, ¬ owns (f i) := by
  constructor
  · intro ho i hi
    rw [(h i).mp hi] at ho
    cases ho
  · intro hn
    cases ho : o with
    | none => rfl
    | some i => exact absurd ((h i).mpr ho) (hn i)

variable [DecidableEq ι]

theorem keep (h : Owner owns f o) (hx : owns x ↔ owns (f i)) :
    Owner owns (Function.update f i x) o :=
  forall_update (P := fun j y => owns y ↔ o = some j) h (hx.trans (h i))

theorem acquire (h : Owner owns f none) (hx : owns x) :
    Owner owns (Function.update f i x) (some i) := by
  intro j
  by_cases hj : j = i
  · subst j
    simp [hx]
  · rw [Function.update_of_ne hj]
    have hn := h j
    constructor
    · intro hj'
      cases hn.mp hj'
    · intro he
      exact absurd (Option.some.inj he).symm hj

theorem release (h : Owner owns f o) (hi : owns (f i)) (hx : ¬ owns x) :
    Owner owns (Function.update f i x) none := by
  intro j
  by_cases hj : j = i
  · subst j
    simp [hx]
  · rw [Function.update_of_ne hj]
    constructor
    · intro hj'
      exact absurd (h.unique hj' hi) hj
    · intro he
      cases he

end Owner

/-! ## Counting the threads of a region -/

variable [Fintype ι] [DecidablePred p]

/-- The number of threads whose local state satisfies `p`. -/
def census (p : α → Prop) [DecidablePred p] (f : ι → α) : Nat :=
  (Finset.univ.filter fun i => p (f i)).card

theorem census_eq_sum (f : ι → α) : census p f = ∑ i, if p (f i) then 1 else 0 :=
  Finset.card_filter _ _

theorem census_le_card (f : ι → α) : census p f ≤ Fintype.card ι :=
  Finset.card_le_univ _

theorem census_eq_zero : census p f = 0 ↔ ∀ i, ¬ p (f i) := by
  simp [census, Finset.filter_eq_empty_iff]

theorem exists_of_census_pos (h : 0 < census p f) : ∃ i, p (f i) := by
  obtain ⟨i, hi⟩ := Finset.card_pos.mp h
  exact ⟨i, by simpa using hi⟩

theorem census_eq_card : census p f = Fintype.card ι ↔ ∀ i, p (f i) := by
  rw [census, ← Finset.card_univ, Finset.card_filter_eq_iff]
  simp

/-- The owner predicate fixes the number of owners. -/
theorem Owner.census [DecidablePred owns] {o : Option ι} (h : Owner owns f o) :
    Interleave.census owns f = if o.isSome then 1 else 0 := by
  cases o with
  | none => exact census_eq_zero.mpr (h.eq_none_iff.mp rfl)
  | some i =>
      have he : (Finset.univ.filter fun j => owns (f j)) = {i} := by
        ext j
        simp [h j, eq_comm]
      simp [Interleave.census, he]

variable [DecidableEq ι]

omit [DecidablePred p] in
/-- One thread moves: its old share leaves a total, its new one enters. -/
theorem sum_update (m : α → Nat) (f : ι → α) (i : ι) (x : α) :
    ∑ j, m (Function.update f i x j) + m (f i) = ∑ j, m (f j) + m x := by
  rw [← Finset.add_sum_erase _ _ (Finset.mem_univ i),
    ← Finset.add_sum_erase (a := i) _ (fun j => m (f j)) (Finset.mem_univ i)]
  have hrest : ∑ j ∈ Finset.univ.erase i, m (Function.update f i x j) =
      ∑ j ∈ Finset.univ.erase i, m (f j) := by
    refine Finset.sum_congr rfl fun j hj => ?_
    rw [Function.update_of_ne (Finset.ne_of_mem_erase hj)]
  rw [Function.update_self, hrest]
  omega

/-- One thread moves: its old local state leaves the count, its new one enters. -/
theorem census_update (f : ι → α) (i : ι) (x : α) :
    census p (Function.update f i x) + (if p (f i) then 1 else 0) =
      census p f + if p x then 1 else 0 := by
  rw [census_eq_sum, census_eq_sum]
  exact sum_update (fun l => if p l then 1 else 0) f i x

theorem census_update_enter {i : ι} {x : α} (hi : ¬ p (f i)) (hx : p x) :
    census p (Function.update f i x) = census p f + 1 := by
  have h := census_update (p := p) f i x
  simpa [hi, hx] using h

theorem census_update_leave {i : ι} {x : α} (hi : p (f i)) (hx : ¬ p x) :
    census p (Function.update f i x) + 1 = census p f := by
  have h := census_update (p := p) f i x
  simpa [hi, hx] using h

theorem census_update_same {i : ι} {x : α} (h : p x ↔ p (f i)) :
    census p (Function.update f i x) = census p f := by
  have hu := census_update (p := p) f i x
  simp only [h] at hu
  omega

/-- A count one short of everybody, with `i` missing, counts everybody else. -/
theorem forall_of_census {i j : ι} (hi : ¬ p (f i))
    (h : census p f + 1 = Fintype.card ι) (hj : j ≠ i) : p (f j) := by
  by_contra hn
  have hsub : (Finset.univ.filter fun k => p (f k)) ⊆ (Finset.univ.erase i).erase j := by
    intro k hk
    have hk' : p (f k) := by simpa using hk
    refine Finset.mem_erase.mpr ⟨?_, Finset.mem_erase.mpr ⟨?_, Finset.mem_univ k⟩⟩
    · rintro rfl
      exact hn hk'
    · rintro rfl
      exact hi hk'
  have hle := Finset.card_le_card hsub
  rw [Finset.card_erase_of_mem (by simp [hj]), Finset.card_erase_of_mem (Finset.mem_univ i),
    Finset.card_univ] at hle
  unfold census at h
  have hpos : 1 < Fintype.card ι := Fintype.one_lt_card_iff.mpr ⟨i, j, hj.symm⟩
  omega

end Cse522.Interleave

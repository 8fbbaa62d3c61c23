import Mathlib.Logic.Equiv.Basic

/-!
# Rearranged cells

An array is a function from its indices. Work on a part of it that only exchanges values
permutes the cells of that part and leaves the others alone, and what holds of all values
of the part holds of them afterwards. Two sorted parts on both sides of a cell that
separates their values are sorted together.
-/
namespace Cse522.Clib.Rearrange

variable {κ V : Type*} {p q : κ → Prop} {A B C : κ → V}

/-- `B` is `A` with the cells of the part `p` permuted. -/
def Rearranged (p : κ → Prop) (A B : κ → V) : Prop :=
  ∃ σ : Equiv.Perm κ, (∀ i, B i = A (σ i)) ∧ ∀ i, ¬ p i → σ i = i

namespace Rearranged

theorem refl (p : κ → Prop) (A : κ → V) : Rearranged p A A :=
  ⟨Equiv.refl κ, fun _ => rfl, fun _ _ => rfl⟩

theorem trans (hAB : Rearranged p A B) (hBC : Rearranged p B C) : Rearranged p A C := by
  obtain ⟨σ, hB, hσ⟩ := hAB
  obtain ⟨τ, hC, hτ⟩ := hBC
  refine ⟨τ.trans σ, ?_, ?_⟩
  · intro i
    rw [hC, hB]
    rfl
  · intro i hi
    rw [Equiv.trans_apply, hτ i hi, hσ i hi]

theorem mono (hpq : ∀ i, p i → q i) (h : Rearranged p A B) : Rearranged q A B := by
  obtain ⟨σ, hB, hσ⟩ := h
  refine ⟨σ, hB, ?_⟩
  intro i hi
  exact hσ i fun hp => hi (hpq i hp)

theorem swap [DecidableEq κ] (A : κ → V) {a b : κ} (ha : p a) (hb : p b) :
    Rearranged p A (A ∘ Equiv.swap a b) := by
  refine ⟨Equiv.swap a b, fun _ => rfl, ?_⟩
  intro i hi
  apply Equiv.swap_apply_of_ne_of_ne
  · rintro rfl
    exact hi ha
  · rintro rfl
    exact hi hb

/-- Outside of the part nothing changes. -/
theorem eq_of_not (h : Rearranged p A B) {i : κ} (hi : ¬ p i) : B i = A i := by
  obtain ⟨σ, hB, hσ⟩ := h
  rw [hB, hσ i hi]

/-- What holds of every value of the part still does. -/
theorem forall_mem {Q : V → Prop} (h : Rearranged p A B) (hA : ∀ i, p i → Q (A i)) :
    ∀ i, p i → Q (B i) := by
  obtain ⟨σ, hB, hσ⟩ := h
  intro i hi
  rw [hB]
  apply hA
  -- a cell of the part does not come from a cell that stays where it is
  by_contra hout
  have hfix : σ i = i := σ.injective (hσ (σ i) hout)
  rw [hfix] at hout
  exact hout hi

end Rearranged

/-- The values of the part `p` go up with the index. -/
def SortedOn [LT κ] (r : V → V → Prop) (p : κ → Prop) (A : κ → V) : Prop :=
  ∀ i j, p i → p j → i < j → r (A i) (A j)

theorem SortedOn.congr [LT κ] {r : V → V → Prop} (h : SortedOn r p A)
    (hAB : ∀ i, p i → B i = A i) : SortedOn r p B := by
  intro i j hi hj hij
  rw [hAB i hi, hAB j hj]
  exact h i j hi hj hij

section Order

variable [LE κ] [LT κ] [Std.IsLinearOrder κ] [Std.LawfulOrderLT κ]

/-- The parts below and above `m` are sorted, and `A m` separates their values. -/
theorem SortedOn.join {r : V → V → Prop} {m : κ} (htrans : ∀ u v w, r u v → r v w → r u w)
    (hlow : SortedOn r (fun i => p i ∧ i < m) A) (hhigh : SortedOn r (fun i => p i ∧ m < i) A)
    (hbelow : ∀ i, p i → i < m → r (A i) (A m)) (habove : ∀ i, p i → m < i → r (A m) (A i)) :
    SortedOn r p A := by
  intro i j hi hj hij
  rcases Std.lt_trichotomy i m with him | rfl | hmi
  · rcases Std.lt_trichotomy j m with hjm | rfl | hmj
    · exact hlow i j ⟨hi, him⟩ ⟨hj, hjm⟩ hij
    · exact hbelow i hi him
    · exact htrans _ _ _ (hbelow i hi him) (habove j hj hmj)
  · exact habove j hj hij
  · exact hhigh i j ⟨hi, hmi⟩ ⟨hj, Std.lt_trans hmi hij⟩ hij

end Order

end Cse522.Clib.Rearrange

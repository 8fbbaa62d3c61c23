import Mathlib.Data.Nat.Find
import Mathlib.Logic.Function.Iterate

/-!
# While loops

A `while` loop with a number of passes after which it is given up. It ends if its condition is
false at some point, and then it ends there, whatever the number was, if that was enough.
-/
namespace Cse522.Clib.While

variable {σ : Type*}

/-- `while (cond) body`, given up after `fuel` passes. -/
def whileLoop (cond : σ → Bool) (body : σ → σ) : Nat → σ → Option σ
  | 0, s => if cond s then none else some s
  | fuel + 1, s => if cond s then whileLoop cond body fuel (body s) else some s

/-- The loop makes `k` passes and ends. -/
structure Passes (cond : σ → Bool) (body : σ → σ) (s : σ) (k : Nat) : Prop where
  goes : ∀ j < k, cond (body^[j] s) = true
  stops : cond (body^[k] s) = false

variable {cond : σ → Bool} {body : σ → σ} {s t : σ} {k fuel : Nat}

theorem exists_passes (h : ∃ k, cond (body^[k] s) = false) : ∃ k, Passes cond body s k := by
  refine ⟨Nat.find h, fun j hj => ?_, Nat.find_spec h⟩
  simpa using Nat.find_min h hj

/-- A loop that starts with a pass. -/
theorem Passes.next (h : Passes cond body s (k + 1)) : Passes cond body (body s) k where
  goes j hj := h.goes (j + 1) (by omega)
  stops := h.stops

theorem whileLoop_of_passes (h : Passes cond body s k) (hfuel : k ≤ fuel) :
    whileLoop cond body fuel s = some (body^[k] s) := by
  induction k generalizing s fuel with
  | zero =>
      have hstop : cond s = false := h.stops
      cases fuel <;> simp [whileLoop, hstop]
  | succ k ih =>
      have hgo : cond s = true := h.goes 0 (Nat.succ_pos k)
      obtain ⟨fuel, rfl⟩ := Nat.exists_eq_succ_of_ne_zero (show fuel ≠ 0 by omega)
      rw [whileLoop, if_pos hgo, ih h.next (by omega)]
      rfl

theorem passes_of_whileLoop (h : whileLoop cond body fuel s = some t) :
    ∃ k ≤ fuel, Passes cond body s k ∧ t = body^[k] s := by
  induction fuel generalizing s with
  | zero =>
      obtain ⟨hstop, rfl⟩ : cond s = false ∧ s = t := by simpa [whileLoop] using h
      exact ⟨0, Nat.le_refl 0, ⟨by simp, hstop⟩, rfl⟩
  | succ fuel ih =>
      cases hc : cond s with
      | false =>
          obtain rfl : s = t := by simpa [whileLoop, hc] using h
          exact ⟨0, Nat.zero_le _, ⟨by simp, hc⟩, rfl⟩
      | true =>
          rw [whileLoop, if_pos hc] at h
          obtain ⟨k, hk, hp, rfl⟩ := ih h
          refine ⟨k + 1, by omega, ⟨fun j hj => ?_, hp.stops⟩, rfl⟩
          cases j with
          | zero => exact hc
          | succ j => exact hp.goes j (by omega)

/-- The states of a loop that ends are all different up to its end. -/
theorem iterate_ne {i j : Nat} {α : Type*} {f : α → α} {stop : α → Prop} {a : α}
    (hstop : stop (f^[k] a)) (hgo : ∀ i < k, ¬ stop (f^[i] a)) (hij : i < j) (hj : j ≤ k) :
    f^[i] a ≠ f^[j] a := by
  intro heq
  have hback : f^[k] a = f^[k - j + i] a := by
    rw [Function.iterate_add_apply, heq, ← Function.iterate_add_apply, Nat.sub_add_cancel hj]
  rw [hback] at hstop
  exact hgo _ (by omega) hstop

end Cse522.Clib.While

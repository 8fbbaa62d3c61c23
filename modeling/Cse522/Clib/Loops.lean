import Mathlib.Data.List.ProdSigma
import Mathlib.Data.List.Range
import Mathlib.Data.List.Nodup
import Mathlib.Logic.Function.Basic

/-!
# Counting loops over arrays

A loop with an unsigned counter below a bound does not wrap, so it is a fold over the
numbers below the bound. A nest of loops that rewrites one cell in each pass, and no cell
twice, leaves in each cell what its own pass has made of it, whatever the order.
-/
namespace Cse522.Clib.Loops

variable {σ ι κ V : Type*}

/-- `for (i = 0; i < n; i++)` with unsigned `i` and `n`. -/
def forUnsigned (n : UInt32) (body : UInt32 → σ → σ) (s : σ) : σ :=
  (List.range n.toNat).foldl (fun s i => body (UInt32.ofNat i) s) s

/-- Its first `k` passes. -/
def firstPasses (k : Nat) (body : UInt32 → σ → σ) (s : σ) : σ :=
  (List.range k).foldl (fun s i => body (UInt32.ofNat i) s) s

theorem firstPasses_succ (i : UInt32) (body : UInt32 → σ → σ) (s : σ) :
    firstPasses (i.toNat + 1) body s = body i (firstPasses i.toNat body s) := by
  rw [firstPasses, List.range_succ, List.foldl_append, List.foldl_cons, List.foldl_nil,
    UInt32.ofNat_toNat]
  rfl

/-! ## Folds that rewrite cells -/

variable [DecidableEq κ]

/-- A fold that rewrites one cell over and over. -/
theorem foldl_update_same (g : ι → V → V) (k : κ) (is : List ι) (y : κ → V) :
    is.foldl (fun y i => Function.update y k (g i (y k))) y =
      Function.update y k (is.foldl (fun v i => g i v) (y k)) := by
  induction is generalizing y with
  | nil => simp
  | cons i is ih => simp [ih]

theorem foldl_update_of_forall_ne (w : ι → κ) (g : ι → V → V) {is : List ι} {k : κ}
    (h : ∀ i ∈ is, w i ≠ k) (y : κ → V) :
    is.foldl (fun y i => Function.update y (w i) (g i (y (w i)))) y k = y k := by
  induction is generalizing y with
  | nil => rfl
  | cons i is ih =>
      have hne : k ≠ w i := Ne.symm (h i (by simp))
      rw [List.foldl_cons, ih fun j hj => h j (by simp [hj]), Function.update_of_ne hne]

/-- A fold that rewrites distinct cells leaves each with its own pass. -/
theorem foldl_update_apply (w : ι → κ) (g : ι → V → V) {is : List ι} (hnd : (is.map w).Nodup)
    (y : κ → V) {i : ι} (hi : i ∈ is) :
    is.foldl (fun y j => Function.update y (w j) (g j (y (w j)))) y (w i) = g i (y (w i)) := by
  induction is generalizing y with
  | nil => cases hi
  | cons j is ih =>
      obtain ⟨hj, hnd⟩ := List.nodup_cons.mp hnd
      rw [List.foldl_cons]
      rcases List.mem_cons.mp hi with rfl | hi
      · have hrest : ∀ k ∈ is, w k ≠ w i := by
          intro k hk hw
          apply hj
          rw [← hw]
          exact List.mem_map_of_mem hk
        rw [foldl_update_of_forall_ne w g hrest, Function.update_self]
      · have hne : w i ≠ w j := by
          intro hw
          apply hj
          rw [← hw]
          exact List.mem_map_of_mem hi
        rw [ih hnd _ hi, Function.update_of_ne hne]

/-! ## Nests of two loops -/

/-- The passes of a nest, the outer counter first. -/
def passes (n : Nat) : List (Nat × Nat) := List.range n ×ˢ List.range n

theorem mem_passes {n : Nat} {p : Nat × Nat} : p ∈ passes n ↔ p.1 < n ∧ p.2 < n := by
  obtain ⟨i, j⟩ := p
  simp [passes]

theorem foldl_passes (n : Nat) (body : Nat → Nat → σ → σ) (s : σ) :
    (List.range n).foldl (fun s i => (List.range n).foldl (fun s j => body i j s) s) s =
      (passes n).foldl (fun s p => body p.1 p.2 s) s := by
  have hprod : passes n = (List.range n).flatMap fun i => (List.range n).map (Prod.mk i) := rfl
  rw [hprod, List.foldl_flatMap]
  simp only [List.foldl_map]

omit [DecidableEq κ] in
theorem nodup_map_passes {n : Nat} {w : Nat × Nat → κ}
    (hw : ∀ p ∈ passes n, ∀ q ∈ passes n, w p = w q → p = q) : ((passes n).map w).Nodup := by
  have hnd : (passes n).Nodup := List.nodup_range.product List.nodup_range
  exact (List.nodup_map_iff_inj_on hnd).mpr hw

/-- A nest whose pass `(i, j)` rewrites its own cell `w (i, j)`. -/
theorem nest_apply {n : Nat} {w : Nat × Nat → κ} (g : Nat × Nat → V → V)
    (hw : ∀ p ∈ passes n, ∀ q ∈ passes n, w p = w q → p = q) (y : κ → V) {p : Nat × Nat}
    (hp : p ∈ passes n) :
    (passes n).foldl (fun y p => Function.update y (w p) (g p (y (w p)))) y (w p) =
      g p (y (w p)) :=
  foldl_update_apply w g (nodup_map_passes hw) y hp

end Cse522.Clib.Loops

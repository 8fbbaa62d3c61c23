import Cse522.Clib.Loops
import Cse522.Clib.Word

/-!
# Dense matrix multiplication

The matrices are flat arrays of `matrix_size * matrix_size` cells, indexed with unsigned
arithmetic. `dense_mm.c` runs over the rows first, the serial check of
`parallel_dense_mm.c` over the columns first. The values are of any type with a zero, a sum
and a product, which obey no laws.
-/
namespace Cse522.Studio03.DenseMm

open Cse522.Clib.Loops Cse522.Clib.Word

variable {V : Type*} [Zero V] [Add V] [Mul V]

/-- `row*matrix_size + col` -/
def flat (matrix_size row col : UInt32) : UInt32 := row * matrix_size + col

/-- `C[row*matrix_size + col] += A[row*matrix_size + index] * B[index*matrix_size + col]` -/
def accumulate (A B : UInt32 → V) (matrix_size row col index : UInt32) (C : UInt32 → V) :
    UInt32 → V :=
  let k := flat matrix_size row col
  Function.update C k (C k + A (flat matrix_size row index) * B (flat matrix_size index col))

/-- The cells of the array are set to 0.0; what lies behind it stays. -/
def zeroed (matrix_size : UInt32) (C : UInt32 → V) : UInt32 → V :=
  forUnsigned (matrix_size * matrix_size) (fun index C => Function.update C index 0) C

/-- The loop nest of `dense_mm.c`. -/
def denseMm (A B : UInt32 → V) (matrix_size : UInt32) (C : UInt32 → V) : UInt32 → V :=
  forUnsigned matrix_size (fun row =>
    forUnsigned matrix_size fun col =>
      forUnsigned matrix_size fun index => accumulate A B matrix_size row col index) C

/-- The serial loop nest over `D` in `parallel_dense_mm.c`. -/
def serialMm (A B : UInt32 → V) (matrix_size : UInt32) (D : UInt32 → V) : UInt32 → V :=
  forUnsigned matrix_size (fun col =>
    forUnsigned matrix_size fun row =>
      forUnsigned matrix_size fun index => accumulate A B matrix_size row col index) D

/-- The first `k` products of row `row` and column `col`, added up from the left. -/
def dot (A B : UInt32 → V) (matrix_size row col : UInt32) (k : Nat) : V :=
  (List.range k).foldl (fun sum i =>
    sum + A (flat matrix_size row (UInt32.ofNat i)) * B (flat matrix_size (UInt32.ofNat i) col)) 0

theorem dot_succ (A B : UInt32 → V) (N r c : UInt32) (k : Nat) :
    dot A B N r c (k + 1) = dot A B N r c k +
      A (flat N r (UInt32.ofNat k)) * B (flat N (UInt32.ofNat k) c) := by
  simp [dot, List.range_succ]

/-! ## Flat indices -/

section Flat

variable {N r c r' c' : UInt32}

/-- A row and a column below the size fit the array. -/
theorem flat_bound {n i j : Nat} (hi : i < n) (hj : j < n) : i * n + j < n * n := by
  have h : (i + 1) * n ≤ n * n := Nat.mul_le_mul_right n hi
  rw [Nat.add_mul, Nat.one_mul] at h
  omega

theorem square_lt {n : Nat} (h : n < 65536) : n * n < 4294967296 := by
  have hle : n * n ≤ 65535 * 65535 := Nat.mul_le_mul (by omega) (by omega)
  omega

theorem toNat_square (hN : N < 65536) : (N * N).toNat = N.toNat * N.toNat := by
  have hlt : N.toNat * N.toNat < 4294967296 := square_lt (lt_iff_toNat.mp hN)
  rw [UInt32.toNat_mul]
  exact Nat.mod_eq_of_lt hlt

theorem toNat_flat (hN : N < 65536) (hr : r < N) (hc : c < N) :
    (flat N r c).toNat = r.toNat * N.toNat + c.toNat := by
  have hsq : N.toNat * N.toNat < 4294967296 := square_lt (lt_iff_toNat.mp hN)
  have hb := flat_bound (lt_iff_toNat.mp hr) (lt_iff_toNat.mp hc)
  rw [flat, UInt32.toNat_add, UInt32.toNat_mul, Nat.mod_add_mod]
  apply Nat.mod_eq_of_lt
  omega

theorem flat_inj (hN : N < 65536) (hr : r < N) (hc : c < N) (hr' : r' < N) (hc' : c' < N)
    (h : flat N r c = flat N r' c') : r = r' ∧ c = c' := by
  have hn := congrArg UInt32.toNat h
  rw [toNat_flat hN hr hc, toNat_flat hN hr' hc'] at hn
  have hlt := lt_iff_toNat.mp hc
  have hlt' := lt_iff_toNat.mp hc'
  have hcol : c.toNat = c'.toNat := by
    have hm := congrArg (· % N.toNat) hn
    simpa only [Nat.mul_add_mod_of_lt hlt, Nat.mul_add_mod_of_lt hlt'] using hm
  have hrow : r.toNat = r'.toNat := by
    rw [hcol] at hn
    exact Nat.eq_of_mul_eq_mul_right (by omega) (Nat.add_right_cancel hn)
  exact ⟨UInt32.toNat_inj.mp hrow, UInt32.toNat_inj.mp hcol⟩

/-- Every cell of the array has a row and a column. -/
theorem exists_flat (hN : N < 65536) {index : UInt32} (h : index < N * N) :
    ∃ r c, r < N ∧ c < N ∧ flat N r c = index := by
  have hi := lt_iff_toNat.mp h
  rw [toNat_square hN] at hi
  have hpos : 0 < N.toNat := by
    by_contra h0
    have hz : N.toNat = 0 := by omega
    rw [hz] at hi
    omega
  have hr : index / N < N := by
    rw [lt_iff_toNat, UInt32.toNat_div]
    exact Nat.div_lt_of_lt_mul hi
  have hc : index % N < N := by
    rw [lt_iff_toNat, UInt32.toNat_mod]
    exact Nat.mod_lt _ hpos
  refine ⟨index / N, index % N, hr, hc, ?_⟩
  apply UInt32.toNat_inj.mp
  rw [toNat_flat hN hr hc, UInt32.toNat_div, UInt32.toNat_mod, Nat.mul_comm]
  exact Nat.div_add_mod _ _

theorem flat_lt (hN : N < 65536) (hr : r < N) (hc : c < N) : flat N r c < N * N := by
  rw [lt_iff_toNat, toNat_flat hN hr hc, toNat_square hN]
  exact flat_bound (lt_iff_toNat.mp hr) (lt_iff_toNat.mp hc)

end Flat

/-! ## The serial programs -/

section Serial

variable {A B : UInt32 → V} {N r c : UInt32}

/-- What the innermost loop makes of the cell of a row and a column. -/
def rowTimesCol (A B : UInt32 → V) (N : UInt32) (p : UInt32 × UInt32) (v : V) : V :=
  (List.range N.toNat).foldl (fun v i =>
    v + A (flat N p.1 (UInt32.ofNat i)) * B (flat N (UInt32.ofNat i) p.2)) v

omit [Zero V] in
theorem accumulate_loop (row col : UInt32) (C : UInt32 → V) :
    forUnsigned N (fun index => accumulate A B N row col index) C =
      Function.update C (flat N row col) (rowTimesCol A B N (row, col) (C (flat N row col))) :=
  foldl_update_same
    (fun i v => v + A (flat N row (UInt32.ofNat i)) * B (flat N (UInt32.ofNat i) col))
    (flat N row col) (List.range N.toNat) C

/-- The cell that a pass with these two counters rewrites, the row first. -/
def rowFirst (p : Nat × Nat) : UInt32 × UInt32 := (UInt32.ofNat p.1, UInt32.ofNat p.2)

def colFirst (p : Nat × Nat) : UInt32 × UInt32 := (UInt32.ofNat p.2, UInt32.ofNat p.1)

/-- The nest of the three loops, with the rows and the columns in any order that visits
each pair once. -/
theorem nest_cell (hN : N < 65536) (C : UInt32 → V) (cell : Nat × Nat → UInt32 × UInt32)
    (hcell : ∀ p ∈ passes N.toNat, (cell p).1 < N ∧ (cell p).2 < N)
    (hinj : ∀ p ∈ passes N.toNat, ∀ q ∈ passes N.toNat, cell p = cell q → p = q)
    {p : Nat × Nat} (hp : p ∈ passes N.toNat) (hC : C (flat N (cell p).1 (cell p).2) = 0) :
    (passes N.toNat).foldl (fun C p => forUnsigned N
        (fun index => accumulate A B N (cell p).1 (cell p).2 index) C) C
      (flat N (cell p).1 (cell p).2) = dot A B N (cell p).1 (cell p).2 N.toNat := by
  have hw : ∀ p ∈ passes N.toNat, ∀ q ∈ passes N.toNat,
      flat N (cell p).1 (cell p).2 = flat N (cell q).1 (cell q).2 → p = q := by
    intro p hp q hq heq
    obtain ⟨hr, hc⟩ := flat_inj hN (hcell p hp).1 (hcell p hp).2 (hcell q hq).1 (hcell q hq).2 heq
    exact hinj p hp q hq (Prod.ext hr hc)
  simp only [accumulate_loop]
  rw [nest_apply (w := fun p => flat N (cell p).1 (cell p).2)
    (fun p => rowTimesCol A B N (cell p)) hw C hp, hC]
  rfl

omit [Add V] [Mul V] in
theorem zeroed_apply {index : UInt32} (h : index < N * N) (C : UInt32 → V) :
    zeroed N C index = 0 := by
  have hlt := lt_iff_toNat.mp h
  have hi : UInt32.ofNat index.toNat = index := UInt32.ofNat_toNat
  have hnd : ((List.range (N * N).toNat).map UInt32.ofNat).Nodup := by
    refine (List.nodup_map_iff_inj_on List.nodup_range).mpr ?_
    intro i hi j hj heq
    have hn := congrArg UInt32.toNat heq
    rwa [toNat_ofNat_of_lt (List.mem_range.mp hi), toNat_ofNat_of_lt (List.mem_range.mp hj)] at hn
  have hmem : index.toNat ∈ List.range (N * N).toNat := List.mem_range.mpr hlt
  have hcell := foldl_update_apply UInt32.ofNat (fun _ _ => (0 : V)) hnd C hmem
  rwa [hi] at hcell

theorem rowFirst_lt {p : Nat × Nat} (hp : p ∈ passes N.toNat) :
    (rowFirst p).1 < N ∧ (rowFirst p).2 < N := by
  obtain ⟨h1, h2⟩ := mem_passes.mp hp
  exact ⟨ofNat_lt h1, ofNat_lt h2⟩

theorem colFirst_lt {p : Nat × Nat} (hp : p ∈ passes N.toNat) :
    (colFirst p).1 < N ∧ (colFirst p).2 < N := by
  obtain ⟨h1, h2⟩ := mem_passes.mp hp
  exact ⟨ofNat_lt h2, ofNat_lt h1⟩

theorem rowFirst_inj {p q : Nat × Nat} (hp : p ∈ passes N.toNat) (hq : q ∈ passes N.toNat)
    (h : rowFirst p = rowFirst q) : p = q := by
  obtain ⟨hp1, hp2⟩ := mem_passes.mp hp
  obtain ⟨hq1, hq2⟩ := mem_passes.mp hq
  have h1 := congrArg (fun x => x.1.toNat) h
  have h2 := congrArg (fun x => x.2.toNat) h
  simp only [rowFirst, toNat_ofNat_of_lt hp1, toNat_ofNat_of_lt hq1] at h1
  simp only [rowFirst, toNat_ofNat_of_lt hp2, toNat_ofNat_of_lt hq2] at h2
  exact Prod.ext h1 h2

theorem colFirst_inj {p q : Nat × Nat} (hp : p ∈ passes N.toNat) (hq : q ∈ passes N.toNat)
    (h : colFirst p = colFirst q) : p = q :=
  rowFirst_inj hp hq (congrArg Prod.swap h)

/-- The cells of `dense_mm.c`. -/
theorem denseMm_apply (hN : N < 65536) (C : UInt32 → V) (hr : r < N) (hc : c < N) :
    denseMm A B N (zeroed N C) (flat N r c) = dot A B N r c N.toNat := by
  have hp : (r.toNat, c.toNat) ∈ passes N.toNat :=
    mem_passes.mpr ⟨lt_iff_toNat.mp hr, lt_iff_toNat.mp hc⟩
  have hcell : rowFirst (r.toNat, c.toNat) = (r, c) := by
    simp only [rowFirst, UInt32.ofNat_toNat]
  have h := nest_cell (A := A) (B := B) hN (zeroed N C) rowFirst
    (fun p hp => rowFirst_lt hp) (fun p hp q hq => rowFirst_inj hp hq) hp
    (by rw [hcell]; exact zeroed_apply (flat_lt hN hr hc) C)
  rw [hcell] at h
  have hnest := foldl_passes N.toNat (fun i j => forUnsigned N fun index =>
    accumulate A B N (UInt32.ofNat i) (UInt32.ofNat j) index) (zeroed N C)
  exact (congrFun hnest _).trans h

/-- The cells of the serial check. -/
theorem serialMm_apply (hN : N < 65536) (D : UInt32 → V) (hr : r < N) (hc : c < N) :
    serialMm A B N (zeroed N D) (flat N r c) = dot A B N r c N.toNat := by
  have hp : (c.toNat, r.toNat) ∈ passes N.toNat :=
    mem_passes.mpr ⟨lt_iff_toNat.mp hc, lt_iff_toNat.mp hr⟩
  have hcell : colFirst (c.toNat, r.toNat) = (r, c) := by
    simp only [colFirst, UInt32.ofNat_toNat]
  have h := nest_cell (A := A) (B := B) hN (zeroed N D) colFirst
    (fun p hp => colFirst_lt hp) (fun p hp q hq => colFirst_inj hp hq) hp
    (by rw [hcell]; exact zeroed_apply (flat_lt hN hr hc) D)
  rw [hcell] at h
  have hnest := foldl_passes N.toNat (fun i j => forUnsigned N fun index =>
    accumulate A B N (UInt32.ofNat j) (UInt32.ofNat i) index) (zeroed N D)
  exact (congrFun hnest _).trans h

end Serial

end Cse522.Studio03.DenseMm

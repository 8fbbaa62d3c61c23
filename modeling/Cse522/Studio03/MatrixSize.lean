import Cse522.Clib.Stdlib
import Cse522.Studio03.DenseMm

/-!
# The accepted sizes

The programs reject a size above 65536, which is one more than the largest whose square is an
`unsigned`. At 65536 itself `squared_size` is zero: the arrays are empty and nothing of them
is initialised, while the loops run as ever.
-/
namespace Cse522.Studio03.DenseMm

open Cse522.Clib.Stdlib Cse522.Clib.Word

def sqrt_of_UINT32_MAX : UInt32 := 65536

/-- The head of `main`: the size in `argv[1]`, unless the program exits. -/
def readSize (num_expected_args : Nat) (argv : List String) : Option UInt32 :=
  if argv.length ≠ num_expected_args then none
  else do
    let arg ← argv[1]?
    let matrix_size := UInt32.ofInt (atoi arg)
    if matrix_size > sqrt_of_UINT32_MAX then none else some matrix_size

/-- `dense_mm.c`, `parallel_dense_mm.c` and `dense_mm_sig.c` -/
def denseMmSize : List String → Option UInt32 := readSize 2

/-- `parallel_dense_mm2.c`, which takes the number of repeats as well -/
def parallelDenseMm2Size : List String → Option UInt32 := readSize 3

def squaredSize (matrix_size : UInt32) : UInt32 := matrix_size * matrix_size

/-- `malloc( sizeof(double) * squared_size )`, in bytes; the `size_t` of the machine has 64 bits. -/
def mallocSize (matrix_size : UInt32) : UInt64 := 8 * (squaredSize matrix_size).toUInt64

/-- The index of a row and a column is exact, and its cell is in the array and initialised. -/
structure Exact (N row col : UInt32) : Prop where
  value : (flat N row col).toNat = row.toNat * N.toNat + col.toNat
  below : flat N row col < squaredSize N
  allocated : 8 * (flat N row col).toNat + 8 ≤ (mallocSize N).toNat
  initialised : ∀ (V : Type) [Zero V] (C : UInt32 → V), zeroed N C (flat N row col) = 0

/-- `squared_size` is the square, and all indices of the loops are exact. -/
structure NoWrap (N : UInt32) : Prop where
  square : (squaredSize N).toNat = N.toNat * N.toNat
  indices : ∀ row < N, ∀ col < N, ∀ index < N,
    Exact N row col ∧ Exact N row index ∧ Exact N index col

variable {N row col : UInt32}

theorem toNat_mallocSize : (mallocSize N).toNat = 8 * (squaredSize N).toNat := by
  have hlt := (squaredSize N).toNat_lt
  rw [mallocSize, UInt64.toNat_mul, UInt32.toNat_toUInt64]
  exact Nat.mod_eq_of_lt (by simpa using by omega)

theorem exact_of_lt (hN : N < 65536) (hrow : row < N) (hcol : col < N) : Exact N row col := by
  have hlt : flat N row col < squaredSize N := flat_lt hN hrow hcol
  refine ⟨toNat_flat hN hrow hcol, hlt, ?_, fun V _ C => zeroed_apply hlt C⟩
  have hnat := lt_iff_toNat.mp hlt
  rw [toNat_mallocSize]
  omega

theorem le_of_readSize {num_expected_args : Nat} {argv : List String}
    (h : readSize num_expected_args argv = some N) : N ≤ 65536 := by
  obtain ⟨-, h⟩ := Option.ite_none_left_eq_some.mp h
  obtain ⟨arg, -, h⟩ := Option.bind_eq_some_iff.mp h
  obtain ⟨hle, hN⟩ := Option.ite_none_left_eq_some.mp h
  rw [← Option.some.inj hN]
  exact UInt32.not_lt.mp hle

/-- Of the accepted sizes, 65536 is the only one at which the arithmetic wraps. -/
theorem noWrap_iff {num_expected_args : Nat} {argv : List String}
    (h : readSize num_expected_args argv = some N) : NoWrap N ↔ N ≠ 65536 := by
  constructor
  · rintro hN rfl
    exact absurd hN.square (by decide)
  · intro hne
    have hN : N < 65536 := UInt32.lt_of_le_of_ne (le_of_readSize h) hne
    refine ⟨?_, fun row hrow col hcol index hindex => ?_⟩
    · rw [squaredSize, toNat_square hN]
    · exact ⟨exact_of_lt hN hrow hcol, exact_of_lt hN hrow hindex, exact_of_lt hN hindex hcol⟩

theorem noWrap_65535 : denseMmSize ["dense_mm", "65535"] = some 65535 ∧ NoWrap 65535 := by
  have hsize : readSize 2 ["dense_mm", "65535"] = some 65535 := by decide +kernel
  exact ⟨hsize, (noWrap_iff hsize).mpr (by decide)⟩

/-- The last accepted size, in all of the programs. -/
theorem wraps_65536 :
    (¬ ∀ argv N, denseMmSize argv = some N → NoWrap N) ∧
      ¬ ∀ argv N, parallelDenseMm2Size argv = some N → NoWrap N := by
  have hbad : ¬ NoWrap 65536 := fun h => absurd h.square (by decide)
  exact ⟨fun h => hbad (h ["dense_mm", "65536"] _ (by decide +kernel)),
    fun h => hbad (h ["parallel_dense_mm2", "65536", "1"] _ (by decide +kernel))⟩

end Cse522.Studio03.DenseMm

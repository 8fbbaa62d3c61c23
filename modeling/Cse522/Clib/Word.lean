import Mathlib.Data.Int.Init

/-!
# The C `int` and `unsigned` as words

`Int32` is the type of every shared counter and lock word here. The lemmas say what
one increment or decrement does to its value, the wrapping ones included. `UInt32` is the
type of the counters and indices of loops, which stop short of their bound.
-/
namespace Cse522.Clib.Word

theorem toInt_bounds (w : Int32) : -2147483648 ≤ w.toInt ∧ w.toInt ≤ 2147483647 := by
  have hlo := w.le_toInt
  have hhi := w.toInt_lt
  omega

theorem toInt_sub_one (w : Int32) :
    (w - 1).toInt = if w.toInt = -2147483648 then 2147483647 else w.toInt - 1 := by
  have hb := toInt_bounds w
  rw [Int32.toInt_sub, Int32.toInt_one]
  split
  case isTrue h =>
    rw [h]
    rfl
  case isFalse h =>
    rw [Int.bmod_eq_of_le] <;> omega

theorem toInt_add_one (w : Int32) :
    (w + 1).toInt = if w.toInt = 2147483647 then -2147483648 else w.toInt + 1 := by
  have hb := toInt_bounds w
  rw [Int32.toInt_add, Int32.toInt_one]
  split
  case isTrue h =>
    rw [h]
    rfl
  case isFalse h =>
    rw [Int.bmod_eq_of_le] <;> omega

theorem lt_zero_iff {w : Int32} : w < 0 ↔ w.toInt < 0 := by
  rw [Int32.lt_iff_toInt_lt, Int32.toInt_zero]

theorem eq_one_iff {w : Int32} : w = 1 ↔ w.toInt = 1 := by
  rw [← Int32.toInt_inj, Int32.toInt_one]

theorem toInt_neg_one : (-1 : Int32).toInt = -1 := rfl

/-- An increment always changes the word, also where it wraps. -/
theorem add_one_ne (w : Int32) : w + 1 ≠ w := by
  intro h
  have hb := toInt_bounds w
  have hs := toInt_add_one w
  rw [h] at hs
  split at hs <;> omega

/-! ## Unsigned counters -/

section Unsigned

variable {a b i n : UInt32}

theorem lt_iff_toNat : a < b ↔ a.toNat < b.toNat := UInt32.lt_iff_toNat_lt

theorem le_iff_toNat : a ≤ b ↔ a.toNat ≤ b.toNat := UInt32.le_iff_toNat_le

theorem ofNat_lt {k : Nat} (h : k < n.toNat) : UInt32.ofNat k < n := by
  have hsize := n.toNat_lt
  rw [lt_iff_toNat, UInt32.toNat_ofNat']
  omega

theorem toNat_ofNat_of_lt {k : Nat} (h : k < n.toNat) : (UInt32.ofNat k).toNat = k := by
  have hsize := n.toNat_lt
  rw [UInt32.toNat_ofNat']
  exact Nat.mod_eq_of_lt (by omega)

theorem toNat_succ (h : i < n) : (i + 1).toNat = i.toNat + 1 := by
  have hlt := lt_iff_toNat.mp h
  have hsize := n.toNat_lt
  rw [UInt32.toNat_add]
  exact Nat.mod_eq_of_lt (by simpa using by omega)

theorem toNat_pred (h : n < i) : (i - 1).toNat = i.toNat - 1 := by
  have hlt := lt_iff_toNat.mp h
  apply UInt32.toNat_sub_of_le
  rw [le_iff_toNat, UInt32.toNat_one]
  omega

theorem succ_le (h : i < n) : i + 1 ≤ n := by
  rw [le_iff_toNat, toNat_succ h]
  exact lt_iff_toNat.mp h

theorem lt_succ_iff {j : UInt32} (h : i < n) : j < i + 1 ↔ j ≤ i := by
  rw [lt_iff_toNat, le_iff_toNat, toNat_succ h]
  omega

theorem succ_le_iff {j : UInt32} (h : i < n) : i + 1 ≤ j ↔ i < j := by
  rw [lt_iff_toNat, le_iff_toNat, toNat_succ h]
  omega

theorem le_pred_iff {j : UInt32} (h : n < i) : j ≤ i - 1 ↔ j < i := by
  have hlt := lt_iff_toNat.mp h
  rw [lt_iff_toNat, le_iff_toNat, toNat_pred h]
  omega

end Unsigned

end Cse522.Clib.Word

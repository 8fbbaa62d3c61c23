import Mathlib.Data.BitVec

/-!
# Fields of bits

A word holds fields of `k` bits each. A field is written by masking its bits out and or-ing the
new ones in, and is read by shifting and masking.
-/
namespace Cse522.Clib.BitField

variable {w k : Nat} {x v : BitVec w} {shift shift' j : Nat}

/-- The lowest `k` bits. -/
def mask (w k : Nat) : BitVec w := BitVec.ofNat w (2 ^ k - 1)

/-- The field of `k` bits at `shift`. -/
def field (k : Nat) (x : BitVec w) (shift : Nat) : BitVec w := x >>> shift &&& mask w k

def put (k : Nat) (x : BitVec w) (shift : Nat) (v : BitVec w) : BitVec w :=
  x &&& ~~~(mask w k <<< shift) ||| v <<< shift

theorem getLsbD_mask (hj : j < w) : (mask w k).getLsbD j = decide (j < k) := by
  rw [mask, BitVec.getLsbD_ofNat, Nat.testBit_two_pow_sub_one]
  simp [hj]

theorem getLsbD_field (hj : j < w) :
    (field k x shift).getLsbD j = (decide (j < k) && x.getLsbD (shift + j)) := by
  rw [field, BitVec.getLsbD_and, getLsbD_mask hj, BitVec.getLsbD_ushiftRight, Bool.and_comm]

/-- A value of the field has no bits above it. -/
theorem getLsbD_of_lt (hv : v.toNat < 2 ^ k) (hj : k ≤ j) : v.getLsbD j = false :=
  Nat.testBit_lt_two_pow (hv.trans_le (Nat.pow_le_pow_right (by decide) hj))

/-- The bits of the field are those of the new value, and all others stay. -/
theorem getLsbD_put (hv : v.toNat < 2 ^ k) (hj : j < w) :
    (put k x shift v).getLsbD j =
      if shift ≤ j ∧ j < shift + k then v.getLsbD (j - shift) else x.getLsbD j := by
  have hmask : (mask w k).getLsbD (j - shift) = decide (j - shift < k) := getLsbD_mask (by omega)
  rw [put, BitVec.getLsbD_or, BitVec.getLsbD_and, BitVec.getLsbD_not, BitVec.getLsbD_shiftLeft,
    BitVec.getLsbD_shiftLeft, hmask]
  by_cases hlo : shift ≤ j
  · by_cases hhi : j < shift + k
    · simp [hj, hlo, hhi, Nat.not_lt.mpr hlo, show j - shift < k by omega]
    · have hv0 : v.getLsbD (j - shift) = false := getLsbD_of_lt hv (by omega)
      simp [hj, hlo, hhi, hv0, show ¬ j - shift < k by omega]
  · simp [hj, hlo, show j < shift by omega]

theorem field_put_same (hv : v.toNat < 2 ^ k) (hshift : shift + k ≤ w) :
    field k (put k x shift v) shift = v := by
  apply BitVec.eq_of_getLsbD_eq
  intro j hj
  rw [getLsbD_field hj]
  by_cases hk : j < k
  · rw [getLsbD_put hv (by omega), if_pos (by omega), Nat.add_sub_cancel_left]
    simp [hk]
  · rw [getLsbD_of_lt hv (by omega)]
    simp [hk]

/-- A field that does not overlap is not disturbed. -/
theorem field_put_other (hv : v.toNat < 2 ^ k) (hshift : shift' + k ≤ w)
    (hne : shift + k ≤ shift' ∨ shift' + k ≤ shift) :
    field k (put k x shift v) shift' = field k x shift' := by
  apply BitVec.eq_of_getLsbD_eq
  intro j hj
  rw [getLsbD_field hj, getLsbD_field hj]
  by_cases hk : j < k
  · rw [getLsbD_put hv (by omega), if_neg (by omega)]
  · simp [hk]

end Cse522.Clib.BitField

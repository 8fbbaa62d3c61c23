import Mathlib.Data.Rat.Floor

/-!
# Comparing and converting a C `double`

A `double` is a number, an infinity or not a number. The conversion to `unsigned` drops
the fraction and is undefined where the result does not fit; the one from `unsigned` is
exact. Nothing here rounds.
-/
namespace Cse522.Clib

/-- The two zeros are one value. -/
inductive Double where
  | nan
  | inf (negative : Bool)
  | finite (value : ℚ)
  deriving DecidableEq

namespace Double

/-- `a <= b`, which is false where one of them is not a number. -/
def leb : Double → Double → Bool
  | .nan, _ | _, .nan => false
  | .inf true, _ | _, .inf false => true
  | .inf false, _ | _, .inf true => false
  | .finite p, .finite q => decide (p ≤ q)

instance : LE Double := ⟨fun a b => leb a b = true⟩

instance : DecidableLE Double := fun a b => inferInstanceAs (Decidable (leb a b = true))

/-- `(double) u` -/
def ofUnsigned (u : UInt32) : Double := .finite u.toNat

/-- `(unsigned) d`, with `none` for undefined behaviour. -/
def toUnsigned : Double → Option UInt32
  | .finite q => if -1 < q ∧ q < 4294967296 then some (UInt32.ofNat ⌊q⌋.toNat) else none
  | _ => none

/-- The value is an integer from 0 up to the largest `unsigned`. -/
def IsWord (d : Double) : Prop := ∃ u, d = ofUnsigned u

variable {a b c : Double} {u v : UInt32}

@[simp]
theorem toUnsigned_ofUnsigned (u : UInt32) : (ofUnsigned u).toUnsigned = some u := by
  have hlt : (u.toNat : ℚ) < 4294967296 := by exact_mod_cast u.toNat_lt
  have hpos : (-1 : ℚ) < u.toNat := lt_of_lt_of_le (by norm_num) (Nat.cast_nonneg _)
  rw [ofUnsigned, toUnsigned, if_pos ⟨hpos, hlt⟩, Int.floor_natCast, Int.toNat_natCast,
    UInt32.ofNat_toNat]

theorem not_nan_le : ¬ .nan ≤ a := nofun

theorem not_le_nan : ¬ a ≤ .nan := by
  rcases a with _ | (_ | _) | p <;> nofun

theorem le_negInf : a ≤ .inf true ↔ a = .inf true := by
  rcases a with _ | (_ | _) | p
  case inf.true => exact ⟨fun _ => rfl, fun _ => rfl⟩
  all_goals exact ⟨nofun, nofun⟩

theorem le_posInf : a ≤ .inf false ↔ a ≠ .nan := by
  rcases a with _ | (_ | _) | p
  case nan => exact ⟨nofun, fun h => absurd rfl h⟩
  all_goals exact ⟨nofun, fun _ => rfl⟩

theorem finite_le {p q : ℚ} : finite p ≤ finite q ↔ p ≤ q := by
  show decide (p ≤ q) = true ↔ p ≤ q
  exact decide_eq_true_iff

@[simp]
theorem ofUnsigned_le : ofUnsigned u ≤ ofUnsigned v ↔ u ≤ v := by
  rw [ofUnsigned, ofUnsigned, finite_le, Nat.cast_le, UInt32.le_iff_toNat_le]

theorem le_trans (hab : a ≤ b) (hbc : b ≤ c) : a ≤ c := by
  rcases c with _ | (_ | _) | r
  case nan => exact absurd hbc not_le_nan
  case inf.false =>
    rw [le_posInf]
    rintro rfl
    exact not_nan_le hab
  case inf.true =>
    rw [le_negInf.mp hbc] at hab
    exact hab
  case finite =>
    rcases b with _ | (_ | _) | q
    · exact absurd hab not_le_nan
    · cases hbc
    · rw [le_negInf.mp hab]
      rfl
    · rcases a with _ | (_ | _) | p
      · exact absurd hab not_nan_le
      · cases hab
      · rfl
      · rw [finite_le] at *
        exact Rat.le_trans hab hbc

theorem ofUnsigned_isWord (u : UInt32) : (ofUnsigned u).IsWord := ⟨u, rfl⟩

/-- Words are compared like the integers they stand for. -/
theorem IsWord.le_of_not_le (ha : a.IsWord) (hb : b.IsWord) (h : ¬ a ≤ b) : b ≤ a := by
  obtain ⟨u, rfl⟩ := ha
  obtain ⟨v, rfl⟩ := hb
  rw [ofUnsigned_le] at *
  exact UInt32.le_of_lt (UInt32.not_le.mp h)

end Double

end Cse522.Clib

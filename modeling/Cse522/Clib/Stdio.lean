import Cse522.Clib.Stdlib

/-!
# The conversions of `stdio.h`

`%d` prints the decimal digits of an `int`. Scanned, it skips white space, takes a sign and
digits as long as they come, and pushes back the first character behind them. The input may
be cut anywhere, so the scan is a state that takes one character at a time.
-/
namespace Cse522.Clib.Stdio

open Cse522.Clib.Stdlib

/-- `printf("%d")` -/
def decimal (v : Int) : List Char :=
  if v < 0 then '-' :: Nat.toDigits 10 v.natAbs else Nat.toDigits 10 v.natAbs

/-- `printf("%4d")` and its like: filled up with blanks on the left. -/
def padded (width : Nat) (v : Int) : List Char :=
  List.replicate (width - (decimal v).length) ' ' ++ decimal v

/-- `printf("%04d")` and its like, for numbers that are not negative. -/
def zeroPadded (width n : Nat) : List Char :=
  List.replicate (width - (Nat.toDigits 10 n).length) '0' ++ Nat.toDigits 10 n

/-- How far a `%d` of `scanf` has come. -/
inductive Scan where
  | skip
  /-- the characters `tok` of the number have been taken -/
  | number (tok : List Char)
  deriving DecidableEq, Repr

/-- What the next character does to it. -/
inductive Scanned where
  /-- the character is taken -/
  | more (scan : Scan)
  /-- the character is pushed back, and `v` is stored -/
  | stored (v : Int)
  /-- the character is pushed back, and there is no number -/
  | mismatch
  deriving DecidableEq, Repr

def scanChar : Scan → Char → Scanned
  | .skip, c =>
      if isSpace c then .more .skip
      else if c = '-' ∨ c = '+' ∨ c.isDigit then .more (.number [c])
      else .mismatch
  | .number tok, c =>
      if c.isDigit then .more (.number (tok ++ [c]))
      else if tok.any Char.isDigit then .stored (toInt (strtol tok))
      else .mismatch

/-! ## Digits -/

variable {c : Char} {ds : List Char} {n : Nat}

theorem toNat_of_isDigit (h : c.isDigit = true) : 48 ≤ c.toNat ∧ c.toNat ≤ 57 := by
  obtain ⟨h1, h2⟩ : '0'.val ≤ c.val ∧ c.val ≤ '9'.val := by simpa [Char.isDigit] using h
  exact ⟨UInt32.le_iff_toNat_le.mp h1, UInt32.le_iff_toNat_le.mp h2⟩

theorem isSpace_of_isDigit (h : c.isDigit = true) : isSpace c = false := by
  obtain ⟨h1, h2⟩ := toNat_of_isDigit h
  simp only [isSpace, Bool.or_eq_false_iff, Bool.and_eq_false_iff, beq_eq_false_iff_ne,
    decide_eq_false_iff_not]
  omega

/-- Digits are read up to the end. -/
theorem digits_eq_ofDigitChars (h : ∀ c ∈ ds, c.isDigit = true) (acc : Nat) :
    digits acc ds = Nat.ofDigitChars 10 ds acc := by
  induction ds generalizing acc with
  | nil => simp [digits]
  | cons c ds ih =>
      rw [digits, if_pos (h c (by simp)), ih (fun d hd => h d (by simp [hd])),
        Nat.ofDigitChars_cons, Nat.mul_comm]
      rfl

theorem digits_toDigits (n : Nat) : digits 0 (Nat.toDigits 10 n) = n := by
  rw [digits_eq_ofDigitChars fun c hc => Nat.isDigit_of_mem_toDigits (by decide) (by decide) hc]
  exact Nat.ofDigitChars_ten_toDigits

/-- A string that starts with a digit is read without a sign. -/
theorem strtol_of_isDigit (h : c.isDigit = true) :
    strtol (c :: ds) = clampLong (digits 0 (c :: ds)) := by
  obtain ⟨h1, h2⟩ := toNat_of_isDigit h
  have hminus : c ≠ '-' := by
    intro hc
    subst hc
    exact absurd h1 (by decide)
  have hplus : c ≠ '+' := by
    intro hc
    subst hc
    exact absurd h1 (by decide)
  simp [strtol, isSpace_of_isDigit h, hminus, hplus]

/-- `strtol` reads back what `%d` printed. -/
theorem strtol_decimal (v : Int) : strtol (decimal v) = clampLong v := by
  unfold decimal
  split
  · rename_i hneg
    have habs : (-(v.natAbs : Int)) = v := by omega
    have hspace : isSpace '-' = false := by decide
    simp only [strtol, List.dropWhile_cons, hspace, Bool.false_eq_true, if_false, if_true,
      digits_toDigits, habs]
  · rename_i hpos
    have habs : (v.natAbs : Int) = v := by omega
    cases hd : Nat.toDigits 10 v.natAbs with
    | nil => exact absurd hd Nat.toDigits_ne_nil
    | cons c ds =>
        have hc : c.isDigit = true := by
          apply Nat.isDigit_of_mem_toDigits (b := 10) (n := v.natAbs) (by decide) (by decide)
          rw [hd]
          simp
        rw [strtol_of_isDigit hc, ← hd, digits_toDigits, habs]

/-- An `int` comes back. -/
theorem toInt_strtol_decimal {v : Int} (h : -2147483648 ≤ v) (h' : v ≤ 2147483647) :
    toInt (strtol (decimal v)) = v := by
  rw [strtol_decimal, toInt, clampLong]
  omega

theorem decimal_ne_nil (v : Int) : decimal v ≠ [] := by
  unfold decimal
  split
  · simp
  · exact Nat.toDigits_ne_nil

theorem isDigit_of_mem_decimal {v : Int} (h : 0 ≤ v) (hc : c ∈ decimal v) : c.isDigit = true := by
  rw [decimal, if_neg (by omega)] at hc
  exact Nat.isDigit_of_mem_toDigits (by decide) (by decide) hc

theorem length_decimal_le {v : Int} (h : 0 ≤ v) (h' : v < 1000) : (decimal v).length ≤ 3 := by
  rw [decimal, if_neg (by omega), Nat.length_toDigits_le_iff (by decide) (by decide)]
  omega

/-- The last digit stands behind the others. -/
theorem zeroPadded_succ {width : Nat} (h : 0 < width) (n : Nat) :
    zeroPadded (width + 1) n = zeroPadded width (n / 10) ++ [(n % 10).digitChar] := by
  unfold zeroPadded
  by_cases hn : n < 10
  · have hcut : width = width - 1 + 1 := by omega
    rw [Nat.toDigits_of_lt_base hn, Nat.div_eq_of_lt hn, Nat.mod_eq_of_lt hn, Nat.toDigits_zero]
    simp only [List.length_singleton, Nat.add_sub_cancel]
    rw [← List.replicate_succ', ← hcut]
  · rw [Nat.toDigits_of_base_le (by decide) (Nat.le_of_not_lt hn)]
    simp only [List.length_append, List.length_singleton, Nat.reduceSubDiff, List.append_assoc]

theorem zeroPadded_one {n : Nat} (h : n < 10) : zeroPadded 1 n = [n.digitChar] := by
  rw [zeroPadded, Nat.toDigits_of_lt_base h]
  rfl

end Cse522.Clib.Stdio

import Cse522.Clib.Kstrtox
import Cse522.Clib.Stdio

/-!
# Decimal numerals

The strings that denote an integer, as a grammar apart from the functions that read them. What
`strtol` and the `%d` of `scanf` do with a string is then stated in terms of the numeral it
starts with, and what the conversions of the kernel do in terms of the numeral it is.
-/
namespace Cse522.Clib.Decimal

open Cse522.Clib.Stdlib Cse522.Clib.Stdio

/-- The value of some digits. -/
def value (ds : List Char) : Int := Nat.ofDigitChars 10 ds 0

/-- `tok` is a numeral for `v`: digits behind an optional sign. -/
inductive Numeral : List Char → Int → Prop where
  | plain {ds : List Char} (hne : ds ≠ []) (hd : ∀ c ∈ ds, c.isDigit = true) : Numeral ds (value ds)
  | minus {ds : List Char} (hne : ds ≠ []) (hd : ∀ c ∈ ds, c.isDigit = true) :
      Numeral ('-' :: ds) (-value ds)
  | plus {ds : List Char} (hne : ds ≠ []) (hd : ∀ c ∈ ds, c.isDigit = true) :
      Numeral ('+' :: ds) (value ds)

/-- `v` is a value of type `int`. -/
def IsInt (v : Int) : Prop := -2147483648 ≤ v ∧ v ≤ 2147483647

variable {tok ds text rest : List Char} {v x : Int} {c : Char}

theorem isInt_toInt (v : Int) : IsInt (toInt v) := by
  unfold IsInt toInt
  omega

theorem toInt_clampLong (h : IsInt v) : toInt (clampLong v) = v := by
  obtain ⟨hlo, hhi⟩ := h
  unfold toInt clampLong
  omega

theorem digits_eq_value (hd : ∀ c ∈ ds, c.isDigit = true) : (digits 0 ds : Int) = value ds := by
  rw [digits_eq_ofDigitChars hd, value]

theorem strtol_numeral (h : Numeral tok v) : strtol tok = clampLong v := by
  have hminus : isSpace '-' = false := by decide
  have hplus : isSpace '+' = false := by decide
  cases h with
  | plain hne hd =>
      cases tok with
      | nil => exact absurd rfl hne
      | cons c ds => rw [strtol_of_isDigit (hd c (by simp)), digits_eq_value hd]
  | minus hne hd => simp [strtol, hminus, digits_eq_value hd]
  | plus hne hd => simp [strtol, hplus, digits_eq_value hd]

/-- `atoi` on the numeral of an `int`. -/
theorem atoi_numeral {s : String} (h : Numeral s.toList v) (hv : IsInt v) : atoi s = v := by
  rw [atoi, strtol_numeral h, toInt_clampLong hv]

/-! ## `%d` on a whole text -/

/-- The `%d` of a `scanf` whose input ends: the value stored, and the input left. -/
def scanInt : Scan → List Char → Option (Int × List Char)
  | .skip, [] => none
  | .number tok, [] => if tok.any Char.isDigit then some (toInt (strtol tok), []) else none
  | scan, c :: cs =>
      match scanChar scan c with
      | .more scan => scanInt scan cs
      | .stored v => some (v, c :: cs)
      | .mismatch => none

/-- Behind white space, `text` starts with a numeral for `v` that `rest` does not go on. -/
def Reads (text : List Char) (v : Int) (rest : List Char) : Prop :=
  ∃ space tok, text = space ++ tok ++ rest ∧ (∀ c ∈ space, isSpace c = true) ∧ Numeral tok v ∧
    ∀ c ∈ rest.head?, c.isDigit = false

theorem Numeral.any_isDigit (h : Numeral tok v) : tok.any Char.isDigit = true := by
  have hds : ∀ {ds : List Char}, ds ≠ [] → (∀ c ∈ ds, c.isDigit = true) →
      ds.any Char.isDigit = true := by
    intro ds hne hd
    obtain ⟨c, hc⟩ := List.exists_mem_of_ne_nil ds hne
    exact List.any_eq_true.mpr ⟨c, hc, hd c hc⟩
  cases h with
  | plain hne hd => exact hds hne hd
  | minus hne hd | plus hne hd => rw [List.any_cons, hds hne hd, Bool.or_true]

/-- From within a number: digits are taken as long as they come. -/
theorem scanInt_number (hnum : Numeral (tok ++ ds) v) (hds : ∀ c ∈ ds, c.isDigit = true)
    (hrest : ∀ c ∈ rest.head?, c.isDigit = false) :
    scanInt (.number tok) (ds ++ rest) = some (toInt (clampLong v), rest) := by
  induction ds generalizing tok with
  | nil =>
      rw [List.append_nil] at hnum
      have hany := hnum.any_isDigit
      cases rest with
      | nil => simp [scanInt, hany, strtol_numeral hnum]
      | cons c cs =>
          have hc := hrest c rfl
          simp [scanInt, scanChar, hc, hany, strtol_numeral hnum]
  | cons c ds ih =>
      have hc := hds c (by simp)
      have hnum' : Numeral (tok ++ [c] ++ ds) v := by simpa using hnum
      have hnext := ih hnum' fun d hd => hds d (by simp [hd])
      simpa [scanInt, scanChar, hc] using hnext

theorem Numeral.exists_cons (h : Numeral tok v) : ∃ c ds, tok = c :: ds ∧
    (c = '-' ∨ c = '+' ∨ c.isDigit = true) ∧ ∀ d ∈ ds, d.isDigit = true := by
  cases h with
  | plain hne hd =>
      obtain ⟨c, ds, rfl⟩ := List.exists_cons_of_ne_nil hne
      exact ⟨c, ds, rfl, .inr (.inr (hd c (by simp))), fun d hds => hd d (by simp [hds])⟩
  | minus hne hd => exact ⟨_, _, rfl, .inl rfl, hd⟩
  | plus hne hd => exact ⟨_, _, rfl, .inr (.inl rfl), hd⟩

theorem isSpace_of_start (h : c = '-' ∨ c = '+' ∨ c.isDigit = true) : isSpace c = false := by
  rcases h with rfl | rfl | h
  · decide
  · decide
  · exact isSpace_of_isDigit h

theorem scanInt_of_reads (h : Reads text v rest) :
    scanInt .skip text = some (toInt (clampLong v), rest) := by
  obtain ⟨space, tok, rfl, hspace, hnum, hrest⟩ := h
  induction space with
  | nil =>
      obtain ⟨c, ds, rfl, hstart, hds⟩ := hnum.exists_cons
      have hnum' : Numeral ([c] ++ ds) v := hnum
      have hnumber := scanInt_number hnum' hds hrest
      simpa [scanInt, scanChar, isSpace_of_start hstart, hstart] using hnumber
  | cons c space ih =>
      have hnext := ih fun d hd => hspace d (by simp [hd])
      simpa [scanInt, scanChar, hspace c (by simp)] using hnext

/-- White space in front is not seen. -/
theorem scanInt_dropWhile : scanInt .skip (text.dropWhile isSpace) = scanInt .skip text := by
  induction text with
  | nil => rfl
  | cons c cs ih =>
      by_cases hc : isSpace c = true
      · rw [List.dropWhile_cons_of_pos hc, ih]
        simp [scanInt, scanChar, hc]
      · rw [List.dropWhile_cons_of_neg hc]

/-! ## What `%d` has printed -/

theorem isDigit_of_mem_toDigits {n : Nat} (h : c ∈ Nat.toDigits 10 n) : c.isDigit = true :=
  Nat.isDigit_of_mem_toDigits (by decide) (by decide) h

theorem value_toDigits (n : Nat) : value (Nat.toDigits 10 n) = n := by
  rw [value, Nat.ofDigitChars_ten_toDigits]

theorem numeral_decimal (v : Int) : Numeral (decimal v) v := by
  unfold decimal
  split
  · rename_i hneg
    have habs : -value (Nat.toDigits 10 v.natAbs) = v := by
      rw [value_toDigits]
      omega
    have hnum := Numeral.minus (Nat.toDigits_ne_nil (b := 10) (n := v.natAbs))
      fun _ => isDigit_of_mem_toDigits
    rwa [habs] at hnum
  · rename_i hpos
    have habs : value (Nat.toDigits 10 v.natAbs) = v := by
      rw [value_toDigits]
      omega
    have hnum := Numeral.plain (Nat.toDigits_ne_nil (b := 10) (n := v.natAbs))
      fun _ => isDigit_of_mem_toDigits
    rwa [habs] at hnum

/-- A number that has been printed is read, whatever comes behind it but a digit. -/
theorem reads_decimal {space : List Char} (hspace : ∀ c ∈ space, isSpace c = true) (v : Int)
    (hrest : ∀ c ∈ rest.head?, c.isDigit = false) : Reads (space ++ decimal v ++ rest) v rest :=
  ⟨space, decimal v, rfl, hspace, numeral_decimal v, hrest⟩

/-! ## The conversions of the kernel -/

/-- Up to its first NUL, `s` is a numeral for `v`, or one with a newline behind it. -/
def Denotes (s : List Char) (v : Int) : Prop :=
  ∃ tok, Numeral tok v ∧ (Kstrtox.cString s = tok ∨ Kstrtox.cString s = tok ++ ['\n'])

def IsLong (v : Int) : Prop := -9223372036854775808 ≤ v ∧ v ≤ 9223372036854775807

theorem value_nonneg (ds : List Char) : 0 ≤ value ds := Int.natCast_nonneg _

/-- Up to its first NUL, `s` is the digits `ds`, or those with a newline behind them. -/
structure Digits (s ds : List Char) : Prop where
  nonempty : ds ≠ []
  digits : ∀ c ∈ ds, c.isDigit = true
  ending : Kstrtox.cString s = ds ∨ Kstrtox.cString s = ds ++ ['\n']

theorem cString_cons (hc : c ≠ '\x00') : Kstrtox.cString (c :: text) = c :: Kstrtox.cString text :=
  List.takeWhile_cons_of_pos (by simpa using hc)

theorem exists_of_cString_cons (h : Kstrtox.cString text = c :: rest) :
    ∃ s, text = c :: s ∧ Kstrtox.cString s = rest := by
  cases text with
  | nil => cases h
  | cons d s =>
      by_cases hd : d = '\x00'
      · subst hd
        cases h
      · rw [cString_cons hd] at h
        obtain ⟨rfl, hs⟩ := List.cons.inj h
        exact ⟨s, rfl, hs⟩

theorem kstrtoull_eq_ok_iff {n : Nat} : Kstrtox.kstrtoull text = .ok n ↔
    ∃ ds, Digits text ds ∧ (n : Int) = value ds ∧ n < 18446744073709551616 := by
  constructor
  · intro h
    have hd : ∀ c ∈ (Kstrtox.cString text).takeWhile Char.isDigit, c.isDigit = true :=
      List.all_eq_true.mp List.all_takeWhile
    have hcut := List.takeWhile_append_dropWhile (p := Char.isDigit) (l := Kstrtox.cString text)
    simp only [Kstrtox.kstrtoull] at h
    split_ifs at h with hbig hne hrest
    obtain rfl := Except.ok.inj h
    refine ⟨(Kstrtox.cString text).takeWhile Char.isDigit, ⟨hne, hd, ?_⟩, digits_eq_value hd, ?_⟩
    · rcases hrest with hrest | hrest
      · rw [hrest, List.append_nil] at hcut
        exact .inl hcut.symm
      · rw [hrest] at hcut
        exact .inr hcut.symm
    · omega
  · intro hsome
    obtain ⟨ds, ⟨hne, hd, hend⟩, hn, hlt⟩ := hsome
    obtain ⟨rest, htext, hrest⟩ :
        ∃ rest, Kstrtox.cString text = ds ++ rest ∧ (rest = [] ∨ rest = ['\n']) := by
      rcases hend with hend | hend
      · exact ⟨[], by rw [hend, List.append_nil], .inl rfl⟩
      · exact ⟨['\n'], hend, .inr rfl⟩
    have htake : (ds ++ rest).takeWhile Char.isDigit = ds := by
      rw [List.takeWhile_append_of_pos hd]
      rcases hrest with rfl | rfl <;> simp
    have hdrop : (ds ++ rest).dropWhile Char.isDigit = rest := by
      rw [List.dropWhile_append_of_pos hd]
      rcases hrest with rfl | rfl <;> simp
    have hval : digits 0 ds = n := by
      have hcast := digits_eq_value hd
      omega
    simp only [Kstrtox.kstrtoull, htext, htake, hdrop, hne, hrest, hval, if_true, if_false]
    exact if_neg (by omega)

/-- A numeral is digits, or digits behind a sign. -/
theorem denotes_iff : Denotes text v ↔
    (∃ ds, Digits text ds ∧ v = value ds) ∨
    (∃ s ds, text = '-' :: s ∧ Digits s ds ∧ v = -value ds) ∨
    ∃ s ds, text = '+' :: s ∧ Digits s ds ∧ v = value ds := by
  have hsigned : ∀ {sign ds}, Kstrtox.cString text = sign :: ds ∨
      Kstrtox.cString text = sign :: ds ++ ['\n'] →
      ∃ s, text = sign :: s ∧ (Kstrtox.cString s = ds ∨ Kstrtox.cString s = ds ++ ['\n']) := by
    intro sign ds hend
    rcases hend with hend | hend
    · obtain ⟨s, hs, hrest⟩ := exists_of_cString_cons hend
      exact ⟨s, hs, .inl hrest⟩
    · obtain ⟨s, hs, hrest⟩ := exists_of_cString_cons hend
      exact ⟨s, hs, .inr hrest⟩
  constructor
  · intro hsome
    obtain ⟨tok, hnum, hend⟩ := hsome
    cases hnum with
    | plain hne hd => exact .inl ⟨_, ⟨hne, hd, hend⟩, rfl⟩
    | minus hne hd =>
        obtain ⟨s, rfl, hs⟩ := hsigned hend
        exact .inr (.inl ⟨s, _, rfl, ⟨hne, hd, hs⟩, rfl⟩)
    | plus hne hd =>
        obtain ⟨s, rfl, hs⟩ := hsigned hend
        exact .inr (.inr ⟨s, _, rfl, ⟨hne, hd, hs⟩, rfl⟩)
  · rintro (⟨ds, ⟨hne, hd, hend⟩, rfl⟩ | ⟨s, ds, rfl, ⟨hne, hd, hend⟩, rfl⟩ |
      ⟨s, ds, rfl, ⟨hne, hd, hend⟩, rfl⟩)
    · exact ⟨ds, .plain hne hd, hend⟩
    · refine ⟨'-' :: ds, .minus hne hd, ?_⟩
      rw [cString_cons (by decide)]
      exact hend.imp (congrArg _) (congrArg _)
    · refine ⟨'+' :: ds, .plus hne hd, ?_⟩
      rw [cString_cons (by decide)]
      exact hend.imp (congrArg _) (congrArg _)

theorem Digits.head_ne (h : Digits text ds) (hc : c.isDigit = false) : text.head? ≠ some c := by
  obtain ⟨hne, hd, hend⟩ := h
  obtain ⟨d, ds, rfl⟩ := List.exists_cons_of_ne_nil hne
  have htext : ∃ s, text = d :: s := by
    rcases hend with hend | hend
    · obtain ⟨s, hs, -⟩ := exists_of_cString_cons hend
      exact ⟨s, hs⟩
    · obtain ⟨s, hs, -⟩ := exists_of_cString_cons hend
      exact ⟨s, hs⟩
  obtain ⟨s, rfl⟩ := htext
  intro hhead
  rw [← Option.some.inj hhead, hd d (by simp)] at hc
  cases hc

theorem exists_of_head? (h : text.head? = some c) : ∃ s, text = c :: s := by
  cases text with
  | nil => cases h
  | cons d s => exact ⟨s, by cases h; rfl⟩

theorem bind_range {s : List Char} {big : Nat → Prop} [DecidablePred big] {g : Nat → Int} :
    ((Kstrtox.kstrtoull s).bind fun n =>
      if big n then .error (-Kstrtox.ERANGE) else .ok (g n)) = .ok v ↔
    ∃ n, Kstrtox.kstrtoull s = .ok n ∧ ¬ big n ∧ g n = v := by
  cases Kstrtox.kstrtoull s with
  | error e => simp [Except.bind]
  | ok n =>
      simp only [Except.bind, Except.ok.injEq, exists_eq_left']
      split <;> simp_all

/-- `kstrtoll` accepts the numerals of a `long long`. -/
theorem kstrtoll_eq_ok_iff : Kstrtox.kstrtoll text = .ok v ↔ Denotes text v ∧ IsLong v := by
  have hminus : ('-').isDigit = false := by decide
  have hplus : ('+').isDigit = false := by decide
  have hnat : ∀ ds, ((value ds).toNat : Int) = value ds := fun ds =>
    Int.toNat_of_nonneg (value_nonneg ds)
  unfold Kstrtox.kstrtoll IsLong
  rw [denotes_iff]
  by_cases hm : text.head? = some '-'
  · obtain ⟨s, rfl⟩ := exists_of_head? hm
    simp only [List.head?_cons, if_true, bind_range, kstrtoull_eq_ok_iff, List.tail_cons]
    constructor
    · intro hsome
      obtain ⟨n, ⟨ds, hds, hn, -⟩, hle, rfl⟩ := hsome
      exact ⟨.inr (.inl ⟨s, ds, rfl, hds, by omega⟩), by omega, by omega⟩
    · intro hcase
      obtain ⟨⟨ds, hds, -⟩ | ⟨s', ds, hs, hds, rfl⟩ | ⟨s', ds, hs, -⟩, hlo, hhi⟩ := hcase
      · exact absurd rfl (hds.head_ne hminus)
      · cases hs
        have hds' := hnat ds
        exact ⟨(value ds).toNat, ⟨ds, hds, hds', by omega⟩, by omega, by omega⟩
      · cases hs
  · -- without a minus, the digits are those behind the plus, if there is one
    have hdigits : (∃ ds, Digits (if text.head? = some '+' then text.tail else text) ds ∧
        v = value ds) ↔ (∃ ds, Digits text ds ∧ v = value ds) ∨
        ∃ s ds, text = '+' :: s ∧ Digits s ds ∧ v = value ds := by
      by_cases hp : text.head? = some '+'
      · obtain ⟨s, rfl⟩ := exists_of_head? hp
        rw [if_pos hp, List.tail_cons]
        constructor
        · intro hsome
          obtain ⟨ds, hds, hv⟩ := hsome
          exact .inr ⟨s, ds, rfl, hds, hv⟩
        · intro hcase
          obtain ⟨ds, hds, -⟩ | ⟨s', ds, hs, hds, hv⟩ := hcase
          · exact absurd rfl (hds.head_ne hplus)
          · cases hs
            exact ⟨ds, hds, hv⟩
      · rw [if_neg hp]
        refine ⟨.inl, ?_⟩
        intro hcase
        obtain h | ⟨s, ds, rfl, -⟩ := hcase
        · exact h
        · exact absurd rfl hp
    have hno : ¬ ∃ s ds, text = '-' :: s ∧ Digits s ds ∧ v = -value ds := by
      intro hsome
      obtain ⟨s, ds, rfl, -⟩ := hsome
      exact hm rfl
    simp only [hm, if_false, bind_range, kstrtoull_eq_ok_iff]
    rw [or_iff_right hno, ← hdigits]
    constructor
    · intro hsome
      obtain ⟨n, ⟨ds, hds, hn, -⟩, hle, rfl⟩ := hsome
      exact ⟨⟨ds, hds, hn⟩, by omega, by omega⟩
    · intro hsome
      obtain ⟨⟨ds, hds, rfl⟩, hlo, hhi⟩ := hsome
      have hds' := hnat ds
      exact ⟨(value ds).toNat, ⟨ds, hds, hds', by omega⟩, by omega, hds'⟩

/-- What is documented of `kstrtol` in base 10: it accepts the numerals of a `long`, and what it
returns for any other string is negative. -/
structure IsKstrtol (kstrtol : List Char → Except Int Int) : Prop where
  accepts : ∀ {text v}, kstrtol text = .ok v ↔ Denotes text v ∧ IsLong v
  negative : ∀ {text e}, kstrtol text = .error e → e < 0

theorem isKstrtol_kstrtol : IsKstrtol Kstrtox.kstrtol :=
  ⟨kstrtoll_eq_ok_iff, Kstrtox.error_neg_of_kstrtoll⟩

end Cse522.Clib.Decimal

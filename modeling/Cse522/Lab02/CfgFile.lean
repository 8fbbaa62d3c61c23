import Cse522.Clib.Decimal
import Cse522.Lab02.Parsing

/-!
# The configuration file of `lab02`

`parsing_cfgfile` scans three numbers of `exp.cfg` into the fields of the argument record. It
does not look at how many of them `fscanf` has found, nor at their values, and returns 0 for
every file that can be opened.
-/
namespace Cse522.Lab02.Parsing

open Cse522.Clib.Stdlib Cse522.Clib.Decimal

def ERR_CFGFILE : Int := -13

/-- `fscanf(fp, "%d %d %d\n", ...)`: a field is written as soon as its number is found, and the
first number that is not found ends the scan. -/
def scanFields (text : List Char) (arg : ProfArg) : ProfArg :=
  match scanInt .skip text with
  | none => arg
  | some (s32pthpercore, text) =>
      let arg := { arg with s32pthpercore }
      match scanInt .skip (text.dropWhile isSpace) with
      | none => arg
      | some (prio, text) =>
          let arg := { arg with as32prio := (prio, arg.as32prio.2) }
          match scanInt .skip (text.dropWhile isSpace) with
          | none => arg
          | some (prio, _) => { arg with as32prio := (arg.as32prio.1, prio) }

/-- `parsing_cfgfile`; there is no text if `fopen` fails. -/
def parsingCfgfile (file : Option (List Char)) (arg : ProfArg) : Int × ProfArg :=
  match file with
  | none => (ERR_CFGFILE, arg)
  | some text => (0, scanFields text arg)

/-- The text begins with the three integers. -/
def Begins (text : List Char) (v₁ v₂ v₃ : Int) : Prop :=
  ∃ rest₁ rest₂ rest₃, Reads text v₁ rest₁ ∧ Reads rest₁ v₂ rest₂ ∧ Reads rest₂ v₃ rest₃

/-- The three fields hold these values, and the others are as they were. -/
def Holds (arg : ProfArg) (v₁ v₂ v₃ : Int) (arg' : ProfArg) : Prop :=
  arg' = { arg with s32pthpercore := v₁, as32prio := (v₂, v₃) }

/-- The file begins with three integers that fit an `int`, the first of them positive. -/
def Usable (text : List Char) : Prop :=
  ∃ v₁ v₂ v₃, Begins text v₁ v₂ v₃ ∧ IsInt v₁ ∧ IsInt v₂ ∧ IsInt v₃ ∧ 1 ≤ v₁

/-- A file that is accepted is complete and usable, and any other changes nothing. -/
structure Careful (file : Option (List Char)) (arg : ProfArg) : Prop where
  accepts : (parsingCfgfile file arg).1 = 0 → ∃ text v₁ v₂ v₃, file = some text ∧
    Begins text v₁ v₂ v₃ ∧ Holds arg v₁ v₂ v₃ (parsingCfgfile file arg).2 ∧ 1 ≤ v₁
  refuses : (∀ text, file = some text → ¬ Usable text) →
    (parsingCfgfile file arg).1 ≠ 0 ∧ (parsingCfgfile file arg).2 = arg

variable {text : List Char} {arg : ProfArg} {v₁ v₂ v₃ : Int}

/-- A number is an `int` where it is what has been stored of it. -/
theorem isInt_of_eq {v : Int} (h : toInt (clampLong v) = v) : IsInt v := by
  rw [← h]
  exact isInt_toInt _

theorem scanFields_of_begins (arg : ProfArg) (h : Begins text v₁ v₂ v₃) :
    Holds arg (toInt (clampLong v₁)) (toInt (clampLong v₂)) (toInt (clampLong v₃))
      (scanFields text arg) := by
  obtain ⟨rest₁, rest₂, rest₃, h₁, h₂, h₃⟩ := h
  simp only [scanFields, scanInt_dropWhile, scanInt_of_reads h₁, scanInt_of_reads h₂,
    scanInt_of_reads h₃, Holds]

theorem holds_inj {arg' : ProfArg} {w₁ w₂ w₃ : Int} (h : Holds arg v₁ v₂ v₃ arg')
    (h' : Holds arg w₁ w₂ w₃ arg') : v₁ = w₁ ∧ v₂ = w₂ ∧ v₃ = w₃ := by
  rw [Holds] at h h'
  rw [h] at h'
  simpa using h'

/-- The numbers that are accepted as they are fit an `int`. -/
theorem usable_of_holds (hbegins : Begins text v₁ v₂ v₃)
    (hholds : Holds arg v₁ v₂ v₃ (scanFields text arg)) (hpos : 1 ≤ v₁) : Usable text := by
  obtain ⟨h₁, h₂, h₃⟩ := holds_inj (scanFields_of_begins arg hbegins) hholds
  exact ⟨v₁, v₂, v₃, hbegins, isInt_of_eq h₁, isInt_of_eq h₂, isInt_of_eq h₃, hpos⟩

theorem holds_of_usable (arg : ProfArg) (h : Usable text) : ∃ v₁ v₂ v₃, Begins text v₁ v₂ v₃ ∧
    Holds arg v₁ v₂ v₃ (scanFields text arg) ∧ 1 ≤ v₁ := by
  obtain ⟨v₁, v₂, v₃, hbegins, hi₁, hi₂, hi₃, hpos⟩ := h
  have hholds := scanFields_of_begins arg hbegins
  rw [toInt_clampLong hi₁, toInt_clampLong hi₂, toInt_clampLong hi₃] at hholds
  exact ⟨v₁, v₂, v₃, hbegins, hholds, hpos⟩

/-- The configuration is handled with care exactly if the file cannot be opened, or is usable. -/
theorem careful_iff_usable (file : Option (List Char)) (arg : ProfArg) :
    Careful file arg ↔ ∀ text, file = some text → Usable text := by
  constructor
  · rintro h text rfl
    obtain ⟨_, v₁, v₂, v₃, heq, hbegins, hholds, hpos⟩ := h.accepts rfl
    obtain rfl := Option.some.inj heq
    exact usable_of_holds hbegins hholds hpos
  · intro h
    cases file with
    | none => exact ⟨fun h0 => by simp [parsingCfgfile, ERR_CFGFILE] at h0,
        fun _ => ⟨by simp [parsingCfgfile, ERR_CFGFILE], rfl⟩⟩
    | some text =>
        have husable := h text rfl
        obtain ⟨v₁, v₂, v₃, hbegins, hholds, hpos⟩ := holds_of_usable arg husable
        exact ⟨fun _ => ⟨text, v₁, v₂, v₃, rfl, hbegins, hholds, hpos⟩,
          fun hno => absurd husable (hno text rfl)⟩

/-- A file with two numbers is accepted, and they are taken over. -/
theorem half_read_accepted :
    ¬ ∀ (file : Option (List Char)) (arg : ProfArg), Careful file arg := by
  intro h
  obtain ⟨text, v₁, v₂, v₃, htext, hbegins, -, -⟩ :=
    (h (some ['4', ' ', '7']) gstrArg).accepts rfl
  obtain rfl := Option.some.inj htext
  obtain ⟨rest₁, rest₂, rest₃, h₁, h₂, h₃⟩ := hbegins
  have hscan₁ : scanInt .skip ['4', ' ', '7'] = some (4, [' ', '7']) := by decide +kernel
  have hscan₂ : scanInt .skip [' ', '7'] = some (7, []) := by decide +kernel
  rw [scanInt_of_reads h₁] at hscan₁
  obtain ⟨-, rfl⟩ := Prod.mk.inj (Option.some.inj hscan₁)
  rw [scanInt_of_reads h₂] at hscan₂
  obtain ⟨-, rfl⟩ := Prod.mk.inj (Option.some.inj hscan₂)
  exact absurd (scanInt_of_reads h₃) (by simp [scanInt])

end Cse522.Lab02.Parsing

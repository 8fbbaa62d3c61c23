import Cse522.Clib.Stdlib

/-!
# The kernel's string conversions

A conversion returns 0 and writes its result, or returns a negative error and writes
nothing; `Except` says both at once.
-/
namespace Cse522.Clib.Kstrtox

def EINVAL : Int := 22
def ERANGE : Int := 34

variable {α : Type*}

/-- The return value of a conversion. -/
def ret : Except Int α → Int
  | .ok _ => 0
  | .error e => e

/-- The variable behind the result pointer, which held `x`. -/
def res (x : α) : Except Int α → α
  | .ok v => v
  | .error _ => x

@[simp] theorem ret_ok (v : α) : ret (.ok v) = 0 := rfl

@[simp] theorem ret_error (e : Int) : ret (.error e : Except Int α) = e := rfl

@[simp] theorem res_ok (x v : α) : res x (.ok v) = v := rfl

@[simp] theorem res_error (x : α) (e : Int) : res x (.error e) = x := rfl

/-- The string in a buffer ends at the first NUL. -/
def cString (s : List Char) : List Char := s.takeWhile (· ≠ '\x00')

/-- Decimal digits up to the end of the string or to a newline in front of it. -/
def kstrtoull (s : List Char) : Except Int Nat :=
  let ds := (cString s).takeWhile Char.isDigit
  let rest := (cString s).dropWhile Char.isDigit
  if 18446744073709551616 ≤ Stdlib.digits 0 ds then .error (-ERANGE)
  else if ds = [] then .error (-EINVAL)
  else if rest = [] ∨ rest = ['\n'] then .ok (Stdlib.digits 0 ds)
  else .error (-EINVAL)

/-- `kstrtoll` in base 10. -/
def kstrtoll (s : List Char) : Except Int Int :=
  if s.head? = some '-' then
    (kstrtoull s.tail).bind fun v =>
      if 9223372036854775808 < v then .error (-ERANGE) else .ok (-(v : Int))
  else
    (kstrtoull (if s.head? = some '+' then s.tail else s)).bind fun v =>
      if 9223372036854775808 ≤ v then .error (-ERANGE) else .ok (v : Int)

/-- `long` has 64 bits. -/
def kstrtol (s : List Char) : Except Int Int := kstrtoll s

def kstrtoint (s : List Char) : Except Int Int32 :=
  (kstrtoll s).bind fun v =>
    if -2147483648 ≤ v ∧ v ≤ 2147483647 then .ok (Int32.ofInt v) else .error (-ERANGE)

/-! ## Errors are negative -/

theorem error_neg_of_kstrtoull {s : List Char} {e : Int} (h : kstrtoull s = .error e) : e < 0 := by
  simp only [kstrtoull] at h
  split at h
  · cases h
    decide
  · split at h
    · cases h
      decide
    · split at h <;> cases h
      decide

theorem error_neg_of_kstrtoll {s : List Char} {e : Int} (h : kstrtoll s = .error e) : e < 0 := by
  have hbind : ∀ {x : Except Int Nat} {f : Nat → Except Int Int},
      (∀ e, x = .error e → e < 0) → (∀ v e, f v = .error e → e < 0) →
      x.bind f = .error e → e < 0 := by
    intro x f hx hf hb
    cases x with
    | error e' =>
        cases hb
        exact hx _ rfl
    | ok v => exact hf v e hb
  have hrange : ∀ {p : Prop} [Decidable p] {v e : Int},
      (if p then Except.error (-ERANGE) else Except.ok v) = .error e → e < 0 := by
    intro p _ v e hif
    split at hif <;> cases hif
    decide
  simp only [kstrtoll] at h
  split at h
  · exact hbind (fun _ => error_neg_of_kstrtoull) (fun _ _ => hrange) h
  · exact hbind (fun _ => error_neg_of_kstrtoull) (fun _ _ => hrange) h

theorem error_neg_of_kstrtoint {s : List Char} {e : Int} (h : kstrtoint s = .error e) :
    e < 0 := by
  unfold kstrtoint at h
  cases hv : kstrtoll s with
  | error e' =>
      rw [hv] at h
      cases h
      exact error_neg_of_kstrtoll hv
  | ok v =>
      rw [hv] at h
      simp only [Except.bind] at h
      split at h <;> cases h
      decide

end Cse522.Clib.Kstrtox

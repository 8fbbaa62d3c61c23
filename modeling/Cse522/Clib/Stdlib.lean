import Mathlib.Data.List.Basic

/-!
# The parts of `stdlib.h` the programs call

`atoi` is `(int) strtol(nptr, NULL, 10)`: white space, an optional sign, then as many
digits as follow. `strtol` clamps to a 64-bit `long`, and the cast keeps the low 32 bits.
-/
namespace Cse522.Clib.Stdlib

/-- `isspace` in the C locale: the blank and the codes 9 to 13. -/
def isSpace (c : Char) : Bool := c.toNat == 32 || (9 ≤ c.toNat && c.toNat ≤ 13)

/-- The value of the leading digits, behind the value read so far. -/
def digits : Nat → List Char → Nat
  | acc, [] => acc
  | acc, c :: cs => if c.isDigit then digits (acc * 10 + (c.toNat - 48)) cs else acc

def clampLong (v : Int) : Int := max (-9223372036854775808) (min v 9223372036854775807)

def strtol (s : List Char) : Int :=
  match s.dropWhile isSpace with
  | [] => 0
  | c :: cs =>
      if c = '-' then clampLong (-digits 0 cs)
      else if c = '+' then clampLong (digits 0 cs)
      else clampLong (digits 0 (c :: cs))

/-- The low 32 bits, read in two's complement. -/
def toInt (v : Int) : Int := (v + 2147483648) % 4294967296 - 2147483648

def atoi (nptr : String) : Int := toInt (strtol nptr.toList)

end Cse522.Clib.Stdlib

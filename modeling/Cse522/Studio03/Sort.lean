import Cse522.Clib.Double
import Cse522.Clib.Loops

/-!
# The randomized quicksort

`A` maps every unsigned index to the cell behind the pointer `A`, the cells behind the
array included, and the ends of a slice are inclusive. A run keeps a log of the cells it
touches and of the operands of `pivot - 1` and `pivot + 1`, and takes the results of
`rand()` from a stream, in the order of the calls. It is `none` where the C program has
undefined behaviour: a division by zero, or a conversion of a value that is no `unsigned`.
-/
namespace Cse522.Studio03.Sort

open Cse522.Clib Cse522.Clib.Loops

inductive Event where
  /-- the cell `A[index]` is read or written -/
  | access (index : UInt32)
  /-- `pivot - 1` is computed -/
  | minusOne (pivot : UInt32)
  /-- `pivot + 1` is computed -/
  | plusOne (pivot : UInt32)
  deriving DecidableEq

structure State where
  A : UInt32 → Double
  /-- how many times `rand` has been called -/
  drawn : Nat
  log : List Event

def State.note (s : State) (events : List Event) : State := { s with log := s.log ++ events }

/-- `swap(&A[a], &A[b])`, through the `unsigned` variable `temp`. -/
def swap (s : State) (a b : UInt32) : Option State :=
  (s.A a).toUnsigned.map fun temp =>
    { s with A := Function.update (Function.update s.A a (s.A b)) b (.ofUnsigned temp) }.note
      [.access a, .access b]

/-- One pass of the loop in `partition`, with `target` after it. -/
def pass (pivot_val target index : UInt32) (s : State) : Option (State × UInt32) :=
  if s.A index ≤ .ofUnsigned pivot_val then
    (swap (s.note [.access index]) target index).map fun s => (s, target + 1)
  else some (s.note [.access index], target)

/-- The remaining passes of the loop, which number `k`. -/
def walk (pivot_val : UInt32) : Nat → UInt32 → UInt32 → State → Option (State × UInt32)
  | 0, target, _, s => some (s, target)
  | k + 1, target, index, s =>
      (pass pivot_val target index s).bind fun (s, target) =>
        walk pivot_val k target (index + 1) s

/-- The results of `rand`, which are at most `RAND_MAX`. -/
abbrev Draws := Nat → Fin 2147483648

/-- Returns the location of the pivot. -/
def partition (rand : Draws) (start end_ : UInt32) (s : State) : Option (State × UInt32) :=
  let range := end_ - start
  if range = 0 then none
  else
    let pivot := UInt32.ofNat (rand s.drawn) % range + start
    (swap { s with drawn := s.drawn + 1 } pivot end_).bind fun s =>
      (s.A end_).toUnsigned.bind fun pivot_val =>
        (walk pivot_val (end_.toNat - start.toNat) start start
            (s.note [.access end_])).bind fun (s, target) =>
          (swap s target end_).map fun s => (s, target)

/-- The first argument bounds the depth of the recursion; a run that reaches it is `none`. -/
def quicksort (rand : Draws) : Nat → UInt32 → UInt32 → State → Option State
  | 0, _, _, _ => none
  | fuel + 1, start, end_, s =>
      if start < end_ then
        (partition rand start end_ s).bind fun (s, pivot) =>
          (if pivot > start then
              quicksort rand fuel start (pivot - 1) (s.note [.minusOne pivot])
            else some s).bind fun s =>
            if pivot < end_ then
              quicksort rand fuel (pivot + 1) end_ (s.note [.plusOne pivot])
            else some s
      else some s

/-- `A[index] = (double) rand()` for all `index < array_size`. -/
def generate (rand : Draws) (array_size : UInt32) (s : State) : State :=
  forUnsigned array_size (fun index s =>
    { s with A := Function.update s.A index (.ofUnsigned (UInt32.ofNat (rand s.drawn)))
             drawn := s.drawn + 1 }.note [.access index]) s

/-- How `main` has ended. -/
structure Outcome where
  state : State
  /-- the `location` that `error_quit` reports before it aborts -/
  error : Option UInt32

/-- `error_quit` prints all elements. -/
def errorQuit (s : State) (end_ location : UInt32) : Outcome :=
  ⟨forUnsigned end_ (fun index s => s.note [.access index]) s, some location⟩

/-- The remaining passes of the verification loop, which number `k`. -/
def verify (array_size : UInt32) : Nat → UInt32 → State → Outcome
  | 0, _, s => ⟨s, none⟩
  | k + 1, index, s =>
      if s.A index ≤ s.A (index + 1) then
        verify array_size k (index + 1) (s.note [.access index, .access (index + 1)])
      else errorQuit (s.note [.access index, .access (index + 1)]) array_size index

/-- `main` behind `malloc`, with `VERIFY_CORRECT` defined or not. -/
def main (VERIFY_CORRECT : Bool) (rand : Draws) (fuel : Nat) (array_size : UInt32)
    (A : UInt32 → Double) : Option Outcome :=
  (quicksort rand fuel 0 array_size (generate rand array_size ⟨A, 0, []⟩)).map fun s =>
    if VERIFY_CORRECT then verify array_size (array_size - 1).toNat 0 s else ⟨s, none⟩

end Cse522.Studio03.Sort

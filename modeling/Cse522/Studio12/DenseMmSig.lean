import Cse522.Clib.Stdio
import Cse522.Interleave.Machine
import Cse522.Studio03.MatrixSize

/-!
# A matrix product under signals

`dense_mm_sig.c` is `dense_mm.c` with a handler for `SIGINT` that counts its calls. A signal that
comes while one is pending is merged with it, one that comes while the handler runs is held back
until it returns, and one that comes before `sigaction` ends the process. The handler may start
between any two statements of `main`, which goes on when it has returned.
-/
namespace Cse522.Studio12.DenseMmSig

open Cse522.Clib.Loops Cse522.Clib.Stdio Cse522.Clib.Word Cse522.Interleave
open Cse522.Studio03.DenseMm (flat accumulate zeroed denseMm denseMmSize)

variable {V : Type*} [Zero V] [Add V] [Mul V]

/-- The next statement of `main`. -/
inductive Pc where
  | sigaction
  /-- from `argc != num_expected_args` to `squared_size` -/
  | args
  /-- `printf("Generating matrices...\n")` -/
  | generating
  | fillInit
  /-- `index < squared_size` -/
  | fillTest
  | fillA
  | fillB
  | fillC
  | fillIncr
  /-- `printf("Multiplying matrices...\n")` -/
  | multiplying
  | rowInit
  | rowTest
  | colInit
  | colTest
  | indexInit
  | indexTest
  /-- the right hand side of `C[..] += A[..] * B[..]` -/
  | add
  | store
  | indexIncr
  | colIncr
  | rowIncr
  /-- `printf("Multiplication done!\n")` -/
  | done
  /-- `printf("Count[%d]\n", gs32total)` -/
  | count
  | ret
  | finished
  /-- `exit(-1)` -/
  | failed
  /-- ended by a signal -/
  | killed
  deriving DecidableEq, Repr

/-- What `main` works on. -/
structure Prog (V : Type*) where
  pc : Pc
  matrix_size : UInt32
  row : UInt32
  col : UInt32
  index : UInt32
  /-- the calls of `rand` so far -/
  rands : Nat
  A : UInt32 → V
  B : UInt32 → V
  C : UInt32 → V
  sum : V
  stdout : List Char

/-- The call of the handler: `gs32total++` is a load and a store. -/
inductive Handler where
  | idle
  | load
  | store (s32temp : Int32)
  deriving DecidableEq, Repr

structure State (V : Type*) where
  prog : Prog V
  gs32total : Int32
  pending : Bool
  handler : Handler

/-- The arrays hold anything before they are filled. -/
def Prog.init (A B C : UInt32 → V) : Prog V := ⟨.sigaction, 0, 0, 0, 0, 0, A, B, C, 0, []⟩

def init (A B C : UInt32 → V) : State V := ⟨.init A B C, 0, false, .idle⟩

def Prog.print (p : Prog V) (text : List Char) (pc : Pc) : Prog V :=
  { p with stdout := p.stdout ++ text, pc }

def readArgs (argv : List String) (p : Prog V) : Prog V :=
  if argv.length ≠ 2 then p.print "Usage: ./dense_mm <size of matrices>\n".toList .failed
  else
    match denseMmSize argv with
    | none => p.print "ERROR: Matrix size must be between zero and 65536!\n".toList .failed
    | some matrix_size => { p with matrix_size, pc := .generating }

def generatingLine : List Char := "Generating matrices...\n".toList

def multiplyingLine : List Char := "Multiplying matrices...\n".toList

def doneLine : List Char := "Multiplication done!\n".toList

def countLine (gs32total : Int32) : List Char :=
  "Count[".toList ++ decimal gs32total.toInt ++ "]\n".toList

/-- A statement of `main`; call `i` of `rand` gives `rand i`. -/
def statement (rand : Nat → V) (argv : List String) (gs32total : Int32) (p : Prog V) :
    Option (Prog V) :=
  let N := p.matrix_size
  match p.pc with
  | .sigaction => some { p with pc := .args }
  | .args => some (readArgs argv p)
  | .generating => some (p.print generatingLine .fillInit)
  | .fillInit => some { p with index := 0, pc := .fillTest }
  | .fillTest => some { p with pc := if p.index < N * N then .fillA else .multiplying }
  | .fillA => some { p with
      A := Function.update p.A p.index (rand p.rands), rands := p.rands + 1, pc := .fillB }
  | .fillB => some { p with
      B := Function.update p.B p.index (rand p.rands), rands := p.rands + 1, pc := .fillC }
  | .fillC => some { p with C := Function.update p.C p.index 0, pc := .fillIncr }
  | .fillIncr => some { p with index := p.index + 1, pc := .fillTest }
  | .multiplying => some (p.print multiplyingLine .rowInit)
  | .rowInit => some { p with row := 0, pc := .rowTest }
  | .rowTest => some { p with pc := if p.row < N then .colInit else .done }
  | .colInit => some { p with col := 0, pc := .colTest }
  | .colTest => some { p with pc := if p.col < N then .indexInit else .rowIncr }
  | .indexInit => some { p with index := 0, pc := .indexTest }
  | .indexTest => some { p with pc := if p.index < N then .add else .colIncr }
  | .add => some { p with
      sum := p.C (flat N p.row p.col) + p.A (flat N p.row p.index) * p.B (flat N p.index p.col)
      pc := .store }
  | .store => some { p with C := Function.update p.C (flat N p.row p.col) p.sum, pc := .indexIncr }
  | .indexIncr => some { p with index := p.index + 1, pc := .indexTest }
  | .colIncr => some { p with col := p.col + 1, pc := .colTest }
  | .rowIncr => some { p with row := p.row + 1, pc := .rowTest }
  | .done => some (p.print doneLine .count)
  | .count => some (p.print (countLine gs32total) .ret)
  | .ret => some { p with pc := .finished }
  | .finished | .failed | .killed => none

/-- The process is no more. -/
def Pc.over : Pc → Bool
  | .finished | .failed | .killed => true
  | _ => false

inductive Act where
  | main
  /-- a `SIGINT` is sent to the process -/
  | sigint
  /-- the pending one is delivered -/
  | deliver
  /-- the load of `gs32total++` -/
  | load
  /-- its store, with which the handler returns -/
  | store
  deriving DecidableEq, Repr

def next (rand : Nat → V) (argv : List String) (s : State V) : Act → Option (State V)
  | .main =>
      if s.handler = .idle then
        (statement rand argv s.gs32total s.prog).map fun prog => { s with prog }
      else none
  | .sigint => if s.prog.pc.over then none else some { s with pending := true }
  | .deliver =>
      if s.pending ∧ s.handler = .idle ∧ s.prog.pc.over = false then
        if s.prog.pc = .sigaction then
          some { s with prog := { s.prog with pc := .killed }, pending := false }
        else some { s with pending := false, handler := .load }
      else none
  | .load => if s.handler = .load then some { s with handler := .store s.gs32total } else none
  | .store =>
      match s.handler with
      | .store s32temp => some { s with gs32total := s32temp + 1, handler := .idle }
      | _ => none

def denseMmSig (rand : Nat → V) (argv : List String) : Machine (State V) Act := ⟨next rand argv⟩

/-! ## The counters -/

section Statements

variable {rand : Nat → V} {argv : List String} {gs32total : Int32} {C₀ : UInt32 → V}
  {p q : Prog V}

/-- Where the loop counters are. -/
def Prog.InRange (p : Prog V) : Prop :=
  let N := p.matrix_size
  match p.pc with
  | .fillTest => p.index ≤ N * N
  | .fillA | .fillB | .fillC | .fillIncr => p.index < N * N
  | .rowTest => p.row ≤ N
  | .colInit | .rowIncr => p.row < N
  | .colTest => p.row < N ∧ p.col ≤ N
  | .indexInit | .colIncr => p.row < N ∧ p.col < N
  | .indexTest => p.row < N ∧ p.col < N ∧ p.index ≤ N
  | .add | .store | .indexIncr => p.row < N ∧ p.col < N ∧ p.index < N
  | _ => True

omit [Zero V] [Add V] [Mul V] in
theorem inRange_readArgs : (readArgs argv p).InRange := by
  unfold readArgs
  split
  · trivial
  · split
    · trivial
    · trivial

theorem inRange_statement (h : p.InRange) (ht : statement rand argv gs32total p = some q) :
    q.InRange := by
  unfold Prog.InRange at h
  cases hpc : p.pc <;>
    simp only [statement, hpc, Option.some.injEq, reduceCtorEq] at ht h <;> subst ht
  case args => exact inRange_readArgs
  case fillInit => exact UInt32.zero_le
  case fillTest =>
      by_cases hlt : p.index < p.matrix_size * p.matrix_size
      · rw [if_pos hlt]
        exact hlt
      · rw [if_neg hlt]
        trivial
  case fillA | fillB | fillC => exact h
  case fillIncr => exact succ_le h
  case rowInit => exact UInt32.zero_le
  case rowTest =>
      by_cases hlt : p.row < p.matrix_size
      · rw [if_pos hlt]
        exact hlt
      · rw [if_neg hlt]
        trivial
  case colInit => exact ⟨h, UInt32.zero_le⟩
  case colTest =>
      by_cases hlt : p.col < p.matrix_size
      · rw [if_pos hlt]
        exact ⟨h.1, hlt⟩
      · rw [if_neg hlt]
        exact h.1
  case indexInit => exact ⟨h.1, h.2, UInt32.zero_le⟩
  case indexTest =>
      by_cases hlt : p.index < p.matrix_size
      · rw [if_pos hlt]
        exact ⟨h.1, h.2.1, hlt⟩
      · rw [if_neg hlt]
        exact ⟨h.1, h.2.1⟩
  case add | store => exact h
  case indexIncr => exact ⟨h.1, h.2.1, succ_le h.2.2⟩
  case colIncr => exact ⟨h.1, succ_le h.2⟩
  case rowIncr => exact succ_le h
  all_goals trivial

/-! ## What has been computed -/

/-- The first `k` cells set to zero. -/
def zeroedTo (k : Nat) : (UInt32 → V) → UInt32 → V :=
  firstPasses k fun index C => Function.update C index 0

/-- The inner loops of the product, for one row. -/
def rowPass (A B : UInt32 → V) (N row : UInt32) : (UInt32 → V) → UInt32 → V :=
  forUnsigned N fun col => forUnsigned N fun index => accumulate A B N row col index

/-- The innermost loop. -/
def colPass (A B : UInt32 → V) (N row col : UInt32) : (UInt32 → V) → UInt32 → V :=
  forUnsigned N fun index => accumulate A B N row col index

def Prog.rowsDone (p : Prog V) (C₀ : UInt32 → V) : UInt32 → V :=
  firstPasses p.row.toNat (rowPass p.A p.B p.matrix_size) (zeroed p.matrix_size C₀)

def Prog.colsDone (p : Prog V) (C₀ : UInt32 → V) : UInt32 → V :=
  firstPasses p.col.toNat (colPass p.A p.B p.matrix_size p.row) (p.rowsDone C₀)

def Prog.productsDone (p : Prog V) (C₀ : UInt32 → V) : UInt32 → V :=
  firstPasses p.index.toNat (accumulate p.A p.B p.matrix_size p.row p.col) (p.colsDone C₀)

/-- What is in `C`, if it held `C₀` at the start. -/
def Prog.product (p : Prog V) (C₀ : UInt32 → V) : UInt32 → V :=
  let N := p.matrix_size
  match p.pc with
  | .sigaction | .args | .generating | .fillInit | .failed | .killed => C₀
  | .fillTest | .fillA | .fillB | .fillC => zeroedTo p.index.toNat C₀
  | .fillIncr => zeroedTo (p.index.toNat + 1) C₀
  | .multiplying | .rowInit => zeroed N C₀
  | .rowTest | .colInit => p.rowsDone C₀
  | .colTest | .indexInit => p.colsDone C₀
  | .indexTest | .add | .store => p.productsDone C₀
  | .indexIncr => accumulate p.A p.B N p.row p.col p.index (p.productsDone C₀)
  | .colIncr => colPass p.A p.B N p.row p.col (p.colsDone C₀)
  | .rowIncr => rowPass p.A p.B N p.row (p.rowsDone C₀)
  | .done | .count | .ret | .finished => denseMm p.A p.B N (zeroed N C₀)

/-- The contents of `C`, and the value that is about to be stored there. -/
structure Computed (C₀ : UInt32 → V) (p : Prog V) : Prop where
  C : p.C = p.product C₀
  sum : p.pc = .store → p.sum = p.C (flat p.matrix_size p.row p.col) +
    p.A (flat p.matrix_size p.row p.index) * p.B (flat p.matrix_size p.index p.col)

/-- A counter that has passed its last value is at the bound. -/
theorem toNat_eq_of_not_lt {i n : UInt32} (h : i ≤ n) (hlt : ¬ i < n) : i.toNat = n.toNat :=
  congrArg UInt32.toNat (UInt32.le_antisymm h (UInt32.not_lt.mp hlt))

theorem computed_readArgs (h : p.C = C₀) : Computed C₀ (readArgs argv p) := by
  unfold readArgs
  split
  · exact ⟨h, nofun⟩
  · split
    · exact ⟨h, nofun⟩
    · exact ⟨h, nofun⟩

theorem computed_statement (h : Computed C₀ p) (hin : p.InRange)
    (ht : statement rand argv gs32total p = some q) : Computed C₀ q := by
  have hC := h.C
  unfold Prog.product at hC
  unfold Prog.InRange at hin
  cases hpc : p.pc <;>
    simp only [statement, hpc, Option.some.injEq, reduceCtorEq] at ht hC hin <;> subst ht
  case args => exact computed_readArgs hC
  case fillInit => exact ⟨hC, nofun⟩
  case fillTest =>
      by_cases hlt : p.index < p.matrix_size * p.matrix_size
      · rw [if_pos hlt]
        exact ⟨hC, nofun⟩
      · rw [if_neg hlt]
        rw [toNat_eq_of_not_lt hin hlt] at hC
        exact ⟨hC, nofun⟩
  case fillA | fillB => exact ⟨hC, nofun⟩
  case fillC =>
      refine ⟨?_, nofun⟩
      show Function.update p.C p.index 0 = zeroedTo (p.index.toNat + 1) C₀
      rw [zeroedTo, firstPasses_succ, hC]
      rfl
  case fillIncr =>
      refine ⟨?_, nofun⟩
      show p.C = zeroedTo (p.index + 1).toNat C₀
      rw [toNat_succ hin]
      exact hC
  case rowInit => exact ⟨hC, nofun⟩
  case rowTest =>
      by_cases hlt : p.row < p.matrix_size
      · rw [if_pos hlt]
        exact ⟨hC, nofun⟩
      · rw [if_neg hlt]
        rw [Prog.rowsDone, toNat_eq_of_not_lt hin hlt] at hC
        exact ⟨hC, nofun⟩
  case colInit => exact ⟨hC, nofun⟩
  case colTest =>
      by_cases hlt : p.col < p.matrix_size
      · rw [if_pos hlt]
        exact ⟨hC, nofun⟩
      · rw [if_neg hlt]
        rw [Prog.colsDone, toNat_eq_of_not_lt hin.2 hlt] at hC
        exact ⟨hC, nofun⟩
  case indexInit => exact ⟨hC, nofun⟩
  case indexTest =>
      by_cases hlt : p.index < p.matrix_size
      · rw [if_pos hlt]
        exact ⟨hC, nofun⟩
      · rw [if_neg hlt]
        rw [Prog.productsDone, toNat_eq_of_not_lt hin.2.2 hlt] at hC
        exact ⟨hC, nofun⟩
  case add => exact ⟨hC, fun _ => rfl⟩
  case store =>
      refine ⟨?_, nofun⟩
      show Function.update p.C (flat p.matrix_size p.row p.col) p.sum =
        accumulate p.A p.B p.matrix_size p.row p.col p.index (p.productsDone C₀)
      rw [h.sum hpc, hC]
      rfl
  case indexIncr =>
      refine ⟨?_, nofun⟩
      show p.C = firstPasses (p.index + 1).toNat _ (p.colsDone C₀)
      rw [toNat_succ hin.2.2, firstPasses_succ]
      exact hC
  case colIncr =>
      refine ⟨?_, nofun⟩
      show p.C = firstPasses (p.col + 1).toNat _ (p.rowsDone C₀)
      rw [toNat_succ hin.2, firstPasses_succ]
      exact hC
  case rowIncr =>
      refine ⟨?_, nofun⟩
      show p.C = firstPasses (p.row + 1).toNat _ (zeroed p.matrix_size C₀)
      rw [toNat_succ hin, firstPasses_succ]
      exact hC
  all_goals exact ⟨hC, nofun⟩

/-! ## What has been generated -/

/-- The cells of `A` that have been filled. -/
def Prog.filledA (p : Prog V) : Nat :=
  match p.pc with
  | .sigaction | .args | .generating | .fillInit | .failed | .killed => 0
  | .fillTest | .fillA => p.index.toNat
  | .fillB | .fillC | .fillIncr => p.index.toNat + 1
  | _ => (p.matrix_size * p.matrix_size).toNat

/-- And those of `B`. -/
def Prog.filledB (p : Prog V) : Nat :=
  match p.pc with
  | .sigaction | .args | .generating | .fillInit | .failed | .killed => 0
  | .fillTest | .fillA | .fillB => p.index.toNat
  | .fillC | .fillIncr => p.index.toNat + 1
  | _ => (p.matrix_size * p.matrix_size).toNat

/-- The calls of `rand` go to the matrices in turn. -/
structure Filled (rand : Nat → V) (p : Prog V) : Prop where
  rands : p.rands = p.filledA + p.filledB
  A : ∀ k, k.toNat < p.filledA → p.A k = rand (2 * k.toNat)
  B : ∀ k, k.toNat < p.filledB → p.B k = rand (2 * k.toNat + 1)

omit [Zero V] [Add V] [Mul V] in
/-- A statement that fills nothing. -/
theorem filled_congr (h : Filled rand p) (hrands : q.rands = p.rands) (hA : q.A = p.A)
    (hB : q.B = p.B) (hfA : q.filledA = p.filledA) (hfB : q.filledB = p.filledB) :
    Filled rand q where
  rands := by rw [hrands, hfA, hfB]; exact h.rands
  A := by rw [hA, hfA]; exact h.A
  B := by rw [hB, hfB]; exact h.B

omit [Zero V] [Add V] [Mul V] in
/-- The cells below a counter, and the one that is written. -/
theorem update_below {f : Nat → V} {x : UInt32 → V} {i : UInt32} {v : V} (hv : v = f i.toNat)
    (h : ∀ k, k.toNat < i.toNat → x k = f k.toNat) :
    ∀ k, k.toNat < i.toNat + 1 → Function.update x i v k = f k.toNat := by
  intro k hk
  by_cases hki : k = i
  · rw [hki, Function.update_self, hv]
  · have hne : k.toNat ≠ i.toNat := fun heq => hki (UInt32.toNat_inj.mp heq)
    rw [Function.update_of_ne hki]
    exact h k (by omega)

omit [Zero V] [Add V] [Mul V] in
theorem filled_readArgs (h : Filled rand p) (hpc : p.pc = .args) :
    Filled rand (readArgs argv p) := by
  unfold readArgs
  split
  · exact filled_congr h rfl rfl rfl (by simp [Prog.filledA, Prog.print, hpc])
      (by simp [Prog.filledB, Prog.print, hpc])
  · split
    · exact filled_congr h rfl rfl rfl (by simp [Prog.filledA, Prog.print, hpc])
        (by simp [Prog.filledB, Prog.print, hpc])
    · exact filled_congr h rfl rfl rfl (by simp [Prog.filledA, hpc])
        (by simp [Prog.filledB, hpc])

theorem filled_statement (h : Filled rand p) (hin : p.InRange)
    (ht : statement rand argv gs32total p = some q) : Filled rand q := by
  have hrands := h.rands
  have hA := h.A
  have hB := h.B
  unfold Prog.InRange at hin
  unfold Prog.filledA at hrands hA
  unfold Prog.filledB at hrands hB
  cases hpc : p.pc <;>
    simp only [statement, hpc, Option.some.injEq, reduceCtorEq] at ht hrands hA hB hin <;> subst ht
  case args => exact filled_readArgs h hpc
  case fillTest =>
      by_cases hlt : p.index < p.matrix_size * p.matrix_size
      · rw [if_pos hlt]
        exact ⟨hrands, hA, hB⟩
      · rw [if_neg hlt]
        rw [toNat_eq_of_not_lt hin hlt] at hrands hA hB
        exact ⟨hrands, hA, hB⟩
  case fillA =>
      refine ⟨?_, update_below (f := fun i => rand (2 * i)) ?_ hA, hB⟩
      · show p.rands + 1 = p.index.toNat + 1 + p.index.toNat
        omega
      · show rand p.rands = rand (2 * p.index.toNat)
        rw [hrands, Nat.two_mul]
  case fillB =>
      refine ⟨?_, hA, update_below (f := fun i => rand (2 * i + 1)) ?_ hB⟩
      · show p.rands + 1 = p.index.toNat + 1 + (p.index.toNat + 1)
        omega
      · show rand p.rands = rand (2 * p.index.toNat + 1)
        rw [hrands]
        congr 1
        omega
  case fillIncr =>
      have hsucc := toNat_succ hin
      have hfA : Prog.filledA { p with index := p.index + 1, pc := .fillTest } =
        p.index.toNat + 1 := hsucc
      have hfB : Prog.filledB { p with index := p.index + 1, pc := .fillTest } =
        p.index.toNat + 1 := hsucc
      refine ⟨?_, ?_, ?_⟩
      · rw [hfA, hfB]
        exact hrands
      · rw [hfA]
        exact hA
      · rw [hfB]
        exact hB
  case rowTest =>
      split
      · exact ⟨hrands, hA, hB⟩
      · exact ⟨hrands, hA, hB⟩
  case colTest =>
      split
      · exact ⟨hrands, hA, hB⟩
      · exact ⟨hrands, hA, hB⟩
  case indexTest =>
      split
      · exact ⟨hrands, hA, hB⟩
      · exact ⟨hrands, hA, hB⟩
  all_goals exact ⟨hrands, hA, hB⟩

/-! ## What has been printed -/

/-- The text in front of a statement, where it does not depend on the arguments or the count. -/
def Pc.printed : Pc → Option (List Char)
  | .sigaction | .args | .generating | .killed => some []
  | .fillInit | .fillTest | .fillA | .fillB | .fillC | .fillIncr | .multiplying =>
      some generatingLine
  | .count => some (generatingLine ++ multiplyingLine ++ doneLine)
  | .ret | .finished | .failed => none
  | _ => some (generatingLine ++ multiplyingLine)

/-- `main` has accepted its arguments. -/
def Pc.accepted : Pc → Bool
  | .sigaction | .args | .failed | .killed => false
  | _ => true

structure Printed (argv : List String) (p : Prog V) : Prop where
  size : p.pc.accepted = true → denseMmSize argv = some p.matrix_size
  stdout : ∀ text ∈ p.pc.printed, p.stdout = text

omit [Zero V] [Add V] [Mul V] in
theorem printed_readArgs (h : p.stdout = []) : Printed argv (readArgs argv p) := by
  unfold readArgs
  split
  · exact ⟨nofun, nofun⟩
  · split
    next => exact ⟨nofun, nofun⟩
    next hN =>
      refine ⟨fun _ => hN, fun text htext => ?_⟩
      obtain rfl := Option.some.inj htext
      exact h

omit [Zero V] [Add V] [Mul V] in
/-- A statement that prints nothing. -/
theorem printed_congr (h : Printed argv p) (hsize : q.matrix_size = p.matrix_size)
    (hstdout : q.stdout = p.stdout) (haccepted : p.pc.accepted = true)
    (htext : q.pc.printed = p.pc.printed ∨ q.pc.printed = none) : Printed argv q where
  size _ := by rw [hsize]; exact h.size haccepted
  stdout text ht := by
    rcases htext with hsame | hnone
    · rw [hstdout]
      exact h.stdout text (hsame ▸ ht)
    · rw [hnone] at ht
      cases ht

omit [Zero V] [Add V] [Mul V] in
theorem printed_print (h : Printed argv p) (haccepted : p.pc.accepted = true) {before : List Char}
    (hbefore : p.pc.printed = some before) {text : List Char} {pc : Pc}
    (hpc : pc.printed = some (before ++ text)) : Printed argv (p.print text pc) where
  size _ := h.size haccepted
  stdout text' ht := by
    have htext : pc.printed = some text' := ht
    rw [hpc] at htext
    rw [← Option.some.inj htext, ← h.stdout before hbefore]
    rfl

theorem printed_statement (h : Printed argv p) (ht : statement rand argv gs32total p = some q) :
    Printed argv q := by
  have hsize := h.size
  have hstdout := h.stdout
  cases hpc : p.pc <;>
    simp only [statement, hpc, Option.some.injEq, reduceCtorEq] at ht hsize hstdout <;> subst ht
  case sigaction => exact ⟨nofun, hstdout⟩
  case args => exact printed_readArgs (hstdout [] rfl)
  case generating => exact printed_print h (by rw [hpc]; rfl) (by rw [hpc]; rfl) rfl
  case multiplying => exact printed_print h (by rw [hpc]; rfl) (by rw [hpc]; rfl) rfl
  case done => exact printed_print h (by rw [hpc]; rfl) (by rw [hpc]; rfl) rfl
  case count => exact ⟨hsize, nofun⟩
  case ret => exact ⟨hsize, nofun⟩
  case fillTest | rowTest | colTest | indexTest =>
      split
      · exact printed_congr h rfl rfl (by rw [hpc]; rfl) (.inl (by rw [hpc]; rfl))
      · exact printed_congr h rfl rfl (by rw [hpc]; rfl) (.inl (by rw [hpc]; rfl))
  all_goals exact printed_congr h rfl rfl (by rw [hpc]; rfl) (.inl (by rw [hpc]; rfl))

end Statements

end Cse522.Studio12.DenseMmSig

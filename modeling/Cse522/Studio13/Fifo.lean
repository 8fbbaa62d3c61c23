import Cse522.Clib.Stdio
import Cse522.Interleave.Machine

/-!
# The active object at the FIFO

Any number of writers put lines into the FIFO, each line at once: it is much shorter than
`PIPE_BUF`. The reader's stdio fetches any part of what is there, in the middle of a number
or not, whenever its buffer is used up. The writer's numbers come from `rand`, whose results
are the labels of its steps.
-/
namespace Cse522.Studio13.Fifo

open Cse522.Clib.Stdlib Cse522.Clib.Stdio Cse522.Interleave

def PIPE_BUF : Nat := 4096

/-- `fprintf(fd, "%d\n", s32temp)` -/
def line (s32temp : Int) : List Char := decimal s32temp ++ ['\n']

/-- `printf("Old [%4d] New [%4d]\n", s32temp, s32temp * 2)` -/
def oldNew (s32temp : Int) : List Char :=
  "Old [".toList ++ padded 4 s32temp ++ "] New [".toList ++ padded 4 (s32temp * 2) ++ "]\n".toList

/-- The number that a writer started with `argv1` makes of the result of `rand`. -/
def drawn (argv1 : String) (rand : Nat) : Int :=
  let s32isodd := atoi argv1
  let s32temp : Int := rand % 500 * 2
  if 0 = s32isodd then s32temp else s32temp + 1

inductive Pc where
  /-- in `fscanf` -/
  | scan (scan : Scan)
  /-- `printf` -/
  | print
  /-- `s32temp * 2` has overflowed -/
  | undefined
  deriving DecidableEq, Repr

structure State where
  myfifo : List Char
  /-- what the stdio of the reader has fetched and not used -/
  fetched : List Char
  s32temp : Int
  pc : Pc
  stdout : List (List Char)
  deriving DecidableEq, Repr

/-- `s32temp` is not initialised. -/
def init (s32temp : Int) : State := ⟨[], [], s32temp, .scan .skip, []⟩

inductive Act (ι : Type*) where
  /-- the writer `i` gets `rand` from its generator and writes its line -/
  | write (i : ι) (rand : Nat)
  /-- the reader fetches the next `n` characters -/
  | refill (n : Nat)
  | scan
  | print

variable {ι : Type*}

def next (argv : ι → String) (s : State) : Act ι → Option State
  | .write i rand => some { s with myfifo := s.myfifo ++ line (drawn (argv i) rand) }
  | .refill n =>
      match s.pc, s.fetched with
      | .scan _, [] =>
          if 0 < n ∧ n ≤ s.myfifo.length then
            some { s with fetched := s.myfifo.take n, myfifo := s.myfifo.drop n }
          else none
      | _, _ => none
  | .scan =>
      match s.pc, s.fetched with
      | .scan scan, c :: fetched =>
          match scanChar scan c with
          | .more scan => some { s with fetched, pc := .scan scan }
          | .stored v => some { s with s32temp := v, pc := .print }
          | .mismatch => some { s with pc := .print }
      | _, _ => none
  | .print =>
      if s.pc = .print then
        if -2147483648 ≤ s.s32temp * 2 ∧ s.s32temp * 2 ≤ 2147483647 then
          some { s with stdout := s.stdout ++ [oldNew s.s32temp], pc := .scan .skip }
        else some { s with pc := .undefined }
      else none

/-- `fifo_tst.c` and the writers started with the arguments `argv`. -/
def activeObject (argv : ι → String) : Machine State (Act ι) := ⟨next argv⟩

/-- The writers and their numbers, in the order in which the lines entered the FIFO. -/
def written (argv : ι → String) (as : List (Act ι)) : List (ι × Int) :=
  as.filterMap fun
    | .write i rand => some (i, drawn (argv i) rand)
    | _ => none

/-- The numbers of one writer, in its order. -/
def writtenBy [DecidableEq ι] (argv : ι → String) (i : ι) (as : List (Act ι)) : List Int :=
  as.filterMap fun
    | .write j rand => if j = i then some (drawn (argv i) rand) else none
    | _ => none

end Cse522.Studio13.Fifo

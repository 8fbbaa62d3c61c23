import Mathlib.Data.List.Basic
import Cse522.Clib.Stdio
import Cse522.Interleave.Machine

/-!
# The processes of `busyloop_rtfork`

The first process binds itself to a CPU, chooses the scheduler and forks; it and its children
then count up to `IRT_NUM` and exit. A child leaves the loop that forks at once. What `printf`
holds back is copied by `fork`, and written by every process that exits; on a terminal nothing
is held back behind a newline.
-/
namespace Cse522.Studio09.RtFork

open Cse522.Clib.Stdlib Cse522.Clib.Stdio Cse522.Interleave

def MAX_CORE_NO : Int := 4

def EXIT_SUCCESS : Nat := 0

def EXIT_FAILURE : Nat := 1

/-- The next statement of a process. -/
inductive Pc where
  /-- the test of `argc`, the calls of `atoi`, and the test of the CPU -/
  | main
  | setCpu
  | setSched
  /-- `s32i < s32CHDNo` -/
  | forkTest
  /-- `fork`, and the test of what it returns -/
  | fork
  /-- the loop with `IRT_NUM` -/
  | spin
  | exit (status : Nat)
  | exited (status : Nat)
  deriving DecidableEq, Repr

structure Process where
  /-- the place of the process that forked it -/
  parent : Option Nat
  pc : Pc
  s32CPUNo : Int
  s32Prio : Int
  s32CHDNo : Int
  s32i : Nat
  /-- what `printf` holds back -/
  buffer : List Char
  deriving DecidableEq, Repr

structure State where
  /-- in the order of their creation -/
  processes : List Process
  stdout : List Char
  /-- the calls of `fork` that have failed -/
  failed : Nat
  deriving DecidableEq, Repr

/-- What a statement does: the process behind it, what is written, a child, and whether `fork`
has failed. -/
structure Effect where
  process : Process
  written : List Char
  child : Option Process
  failed : Nat

def init : State := ⟨[⟨none, .main, 0, 0, 0, 0, []⟩], [], 0⟩

/-- Only the process changes. -/
def Process.to (p : Process) : Effect := ⟨p, [], none, 0⟩

/-- `printf` of a text that ends with a newline. -/
def Process.printf (p : Process) (tty : Bool) (text : List Char) : Effect :=
  if tty then ⟨p, text, none, 0⟩ else ⟨{ p with buffer := p.buffer ++ text }, [], none, 0⟩

/-- `printf("CPU bind: %d\n", s32CPUNo)` -/
def bindLine (s32CPUNo : Int) : List Char := "CPU bind: ".toList ++ decimal s32CPUNo ++ ['\n']

def schedLine : List Char := "Set Sched:RR\n".toList

/-- A statement of process `i`. A call that can fail does so if `fails`. -/
def Process.run (tty : Bool) (IRT_NUM : Nat) (argv : List String) (i : Nat) (fails : Bool)
    (p : Process) : Option Effect :=
  match p.pc with
  | .main =>
      match argv with
      | [_, cpu, prio, chd] =>
          let p : Process := { p with
            s32CPUNo := atoi cpu
            s32Prio := atoi prio
            s32CHDNo := toInt (atoi chd - 1) }
          if p.s32CPUNo < 0 ∨ MAX_CORE_NO ≤ p.s32CPUNo then
            some ({ p with pc := .exit EXIT_FAILURE }.printf tty "OUT of Range\n".toList)
          else some ({ p with pc := .setCpu }.printf tty (bindLine p.s32CPUNo))
      | _ => some ({ p with pc := .exit EXIT_FAILURE }.printf tty "Error!\n".toList)
  | .setCpu =>
      if fails then some { p with pc := .exit EXIT_FAILURE }.to
      else some ({ p with pc := .setSched }.printf tty schedLine)
  | .setSched =>
      if fails then some { p with pc := .exit EXIT_FAILURE }.to
      else some { p with pc := .forkTest, s32i := 0 }.to
  | .forkTest =>
      if (p.s32i : Int) < p.s32CHDNo then some { p with pc := .fork }.to
      else some { p with pc := .spin, s32i := 0 }.to
  | .fork =>
      let child := { p with parent := some i, pc := .spin, s32i := 0 }
      let p := { p with pc := .forkTest, s32i := p.s32i + 1 }
      if fails then some ⟨p, [], none, 1⟩ else some ⟨p, [], some child, 0⟩
  | .spin =>
      if p.s32i < IRT_NUM then some { p with s32i := p.s32i + 1 }.to
      else some { p with pc := .exit EXIT_SUCCESS }.to
  | .exit status => some ⟨{ p with pc := .exited status, buffer := [] }, p.buffer, none, 0⟩
  | .exited _ => none

/-- Which process moves, and whether its call fails. -/
def next (tty : Bool) (IRT_NUM : Nat) (argv : List String) (s : State) :
    Nat × Bool → Option State
  | (i, fails) => do
      let p ← s.processes[i]?
      let e ← p.run tty IRT_NUM argv i fails
      return ⟨s.processes.set i e.process ++ e.child.toList, s.stdout ++ e.written,
        s.failed + e.failed⟩

/-- The program, with its output on a terminal or in a file. -/
def rtFork (tty : Bool) (IRT_NUM : Nat) (argv : List String) : Machine State (Nat × Bool) :=
  ⟨next tty IRT_NUM argv⟩

end Cse522.Studio09.RtFork

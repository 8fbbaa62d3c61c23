import Mathlib.Algebra.Ring.Nat
import Cse522.Clib.Forest
import Cse522.Clib.Stdio
import Cse522.Interleave.Machine

/-!
# A family tree of processes

`tree` starts two children with the level below its own. The recursion runs over `fork`, `execlp`
and a decimal text. Behind a `fork` two processes stand at the same statement, and the child
leaves the program of its parent by starting its own.
-/
namespace Cse522.Studio07.Tree

open Cse522.Clib Cse522.Clib.Stdlib Cse522.Clib.Stdio Cse522.Interleave

/-- The child of the first and of the second block. -/
inductive Child where
  | first
  | second
  deriving DecidableEq, Repr

/-- The next statement of a process. -/
inductive Pc where
  /-- the test of `argc`, `atoi`, and the first test of the level -/
  | main
  | fork (c : Child)
  /-- the test for zero of what `fork` has returned -/
  | isChild (c : Child)
  | sprintf (c : Child)
  | execlp (c : Child)
  /-- the second test of the level, and the `printf` it chooses -/
  | report
  | sleep
  /-- the process ends, and may still write what it has printed -/
  | exit (status : Int)
  deriving DecidableEq, Repr

inductive Line where
  /-- `Argument Error!` -/
  | argumentError
  /-- `Execlp Error!` -/
  | execlpError
  /-- `Level[%d] Parent:PID[%6d] Children [%6d], [%6d]` -/
  | children (s32Level getpid s32pid1 s32pid2 : Int)
  /-- `Level[%d] Parent:PID[%6d] No Children` -/
  | noChildren (s32Level getpid : Int)
  deriving DecidableEq, Repr

structure Process where
  /-- the place of the process that forked it -/
  parent : Option Nat
  pid : Int
  argv : List String
  pc : Pc
  s32Level : Int
  s32pid1 : Int
  s32pid2 : Int
  pcLevel : String
  /-- what `printf` holds back -/
  buffer : List Line
  /-- the levels it has been started with -/
  started : List Int
  deriving DecidableEq, Repr

namespace Process

/-- `execlp("./tree", "tree", level, NULL)`: the identity stays, and nothing else does. -/
def exec (p : Process) (level : String) : Process where
  parent := p.parent
  pid := p.pid
  argv := ["tree", level]
  pc := .main
  s32Level := 0
  s32pid1 := 0
  s32pid2 := 0
  pcLevel := ""
  buffer := []
  started := p.started ++ [atoi level]

/-- What the last `fork` of the block has returned. -/
def s32pid (p : Process) : Child → Int
  | .first => p.s32pid1
  | .second => p.s32pid2

/-- `fork` has returned `ret`. -/
def forked (p : Process) (ret : Int) : Child → Process
  | .first => { p with s32pid1 := ret, pc := .isChild .first }
  | .second => { p with s32pid2 := ret, pc := .isChild .second }

/-- The child of process `i`: a copy of it in which `fork` has returned zero. -/
def copy (p : Process) (i : Nat) (pid : Int) (c : Child) : Process :=
  { p.forked 0 c with parent := some i, pid, started := [] }

def printf (p : Process) (line : Line) (pc : Pc) : Process :=
  { p with buffer := p.buffer ++ [line], pc }

/-- The line the second test of the level chooses. -/
def line (p : Process) : Line :=
  if 0 < p.s32Level then .children p.s32Level p.pid p.s32pid1 p.s32pid2
  else .noChildren p.s32Level p.pid

/-- A statement that is no system call. The text in `pcLevel` has room for four characters, and
what a longer one does is not defined. -/
def statement (p : Process) : Option Process :=
  match p.pc with
  | .main =>
      match p.argv with
      | [_, level] =>
          let s32Level := atoi level
          some { p with s32Level, pc := if 0 < s32Level then .fork .first else .report }
      | _ => some (p.printf .argumentError (.exit 1))
  | .isChild c =>
      let behind := match c with
        | .first => .fork .second
        | .second => .report
      some { p with pc := if p.s32pid c = 0 then .sprintf c else behind }
  | .sprintf c =>
      let level := decimal (p.s32Level - 1)
      if level.length < 5 then some { p with pcLevel := String.ofList level, pc := .execlp c }
      else none
  | .report => some (p.printf p.line .sleep)
  | .sleep => some { p with pc := .exit 0 }
  | .fork _ | .execlp _ | .exit _ => none

end Process

/-- What a process can do. -/
inductive Call where
  | statement
  /-- `fork` makes a child, the kernel gives it `pid` -/
  | fork (pid : Int)
  | forkFails
  | execlp
  | execlpFails
  /-- what was printed is written -/
  | flush
  deriving DecidableEq, Repr

/-- What comes of it. -/
structure Effect where
  process : Process
  child : Option Process
  written : List Line
  deriving DecidableEq, Repr

/-- What `p` does, which is process `i`. -/
def effect (i : Nat) (p : Process) : Call → Option Effect
  | .statement => p.statement.map fun q => ⟨q, none, []⟩
  | .fork pid =>
      match p.pc with
      | .fork c =>
          if 0 < pid then some ⟨p.forked pid c, some (p.copy i pid c), []⟩ else none
      | _ => none
  | .forkFails =>
      match p.pc with
      | .fork c => some ⟨p.forked (-1) c, none, []⟩
      | _ => none
  | .execlp =>
      match p.pc with
      | .execlp _ => some ⟨p.exec p.pcLevel, none, []⟩
      | _ => none
  | .execlpFails =>
      match p.pc with
      | .execlp _ => some ⟨p.printf .execlpError (.exit 1), none, []⟩
      | _ => none
  | .flush => if p.buffer = [] then none else some ⟨{ p with buffer := [] }, none, p.buffer⟩

structure State where
  /-- all processes, those that have ended too -/
  processes : List Process
  /-- the lines, and which process has written each -/
  stdout : List (Nat × Line)
  deriving DecidableEq, Repr

def State.after (s : State) (i : Nat) (e : Effect) : State where
  processes := s.processes.set i e.process ++ e.child.toList
  stdout := s.stdout ++ e.written.map (Prod.mk i)

structure Act where
  process : Nat
  call : Call
  deriving DecidableEq, Repr

def next (s : State) (a : Act) : Option State :=
  s.processes[a.process]?.bind fun p => (effect a.process p a.call).map (s.after a.process)

/-- The processes take their statements in any order. -/
def tree : Machine State Act := ⟨next⟩

/-- The text `sprintf(pcLevel, "%d", level)` makes. -/
def text (level : Nat) : String := String.ofList (decimal level)

/-- The process a shell starts `tree n` in. -/
def root (pid : Int) (n : Nat) : Process :=
  Process.exec ⟨none, pid, [], .main, 0, 0, 0, "", [], []⟩ (text n)

def init (pid : Int) (n : Nat) : State := ⟨[root pid n], []⟩

/-- `fork` and `execlp` succeed. -/
def Act.Succeeds (a : Act) : Prop := a.call ≠ .forkFails ∧ a.call ≠ .execlpFails

instance (a : Act) : Decidable a.Succeeds := inferInstanceAs (Decidable (_ ∧ _))

/-- The process has ended and has written what it has printed. -/
def Process.ended (p : Process) : Bool :=
  match p.pc with
  | .exit _ => p.buffer.isEmpty
  | _ => false

def State.Finished (s : State) : Prop := ∀ p ∈ s.processes, p.ended = true

def State.parents (s : State) : List (Option Nat) := s.processes.map Process.parent

/-- The lines process `i` has written. -/
def State.writtenBy (s : State) (i : Nat) : List Line :=
  (s.stdout.filter fun w => w.1 = i).map Prod.snd

/-- A process that has forked for itself, or prints, has been started once, with its level. -/
def State.Alone (s : State) : Prop :=
  ∀ p ∈ s.processes, (∃ c, p.pc = .fork c) ∨ p.pc = .report → p.started = [p.s32Level]

/-- Process `i` is `p`. It has been started once and has written one line, with its level. It
has no children at level zero, and else two, which have been started with the level below. -/
def State.Settled (s : State) (i : Nat) (p : Process) : Prop :=
  (p.started = [0] ∧ Forest.children s.parents i = [] ∧ s.writtenBy i = [.noChildren 0 p.pid]) ∨
    ∃ (k : Nat) (j j' : Nat) (q q' : Process), p.started = [(k : Int) + 1] ∧
      Forest.children s.parents i = [j, j'] ∧ s.processes[j]? = some q ∧
      s.processes[j']? = some q' ∧ q.started = [(k : Int)] ∧ q'.started = [(k : Int)] ∧
      s.writtenBy i = [.children (k + 1) p.pid q.pid q'.pid]

/-- The processes are the complete binary tree of depth `n`. -/
structure State.Complete (s : State) (n : Nat) : Prop where
  size : s.processes.length = 2 ^ (n + 1) - 1
  root : ∃ p, s.processes[0]? = some p ∧ p.parent = none ∧ p.started = [(n : Int)]
  tree : Forest.Complete s.parents n 0
  settled : ∀ i p, s.processes[i]? = some p → s.Settled i p

end Cse522.Studio07.Tree

import Cse522.Interleave.Machine
import Cse522.Interleave.Pipe

/-!
# A parent that reads what its child writes

`pipe_tst.c`. Both processes have both ends of the pipe open behind `fork`, and each closes the
one it does not use. The parent copies the pipe to its output character by character, to the
end of the file; the capacity of the pipe and the messages are parameters.
-/
namespace Cse522.Studio13.PipeTst

open Cse522.Interleave

def acMsg1 : List Char := "[Tst Msg1] Today\n".toList

def acMsg2 : List Char := "[Tst Msg2] I am\n".toList

def acMsg3 : List Char := "[Tst Msg3] happy.\n".toList

/-- The call of the parent executed next. -/
inductive Parent where
  | pipe
  | fork
  /-- `close(as32pipefd[1])` -/
  | closeWrite
  /-- `read(as32pipefd[0], &cbuf, 1)` -/
  | read
  /-- `write(STDOUT_FILENO, &cbuf, 1)` -/
  | write (cbuf : Char)
  /-- `close(as32pipefd[0])` -/
  | closeRead
  /-- `perror("pipe")` -/
  | perror
  | exited (status : Nat)
  deriving DecidableEq, Repr

/-- The call of the child executed next. -/
inductive Child where
  /-- not forked -/
  | absent
  /-- `close(as32pipefd[0])` -/
  | closeRead
  /-- `write(as32pipefd[1], ...)` of the first of the messages left, or behind the last of
  them `close(as32pipefd[1])` -/
  | write (todo : List (List Char))
  | returned
  /-- by `SIGPIPE` -/
  | killed
  deriving DecidableEq, Repr

structure State where
  pipefd : Pipe Char
  parent : Parent
  child : Child
  stdout : List Char
  deriving DecidableEq, Repr

inductive Act where
  | parent
  /-- the call of the parent, `pipe` or `fork`, fails -/
  | fail
  | child
  deriving DecidableEq, Repr

def EXIT_SUCCESS : Nat := 0

def EXIT_FAILURE : Nat := 1

def init : State := ⟨⟨[], 0, 0⟩, .pipe, .absent, []⟩

def parentStep (s : State) : Option State :=
  match s.parent with
  | .pipe => some { s with pipefd := ⟨[], 1, 1⟩, parent := .fork }
  | .fork =>
      some { s with
        pipefd := ⟨s.pipefd.held, s.pipefd.readers + 1, s.pipefd.writers + 1⟩
        parent := .closeWrite
        child := .closeRead }
  | .closeWrite => some { s with pipefd := s.pipefd.closeWrite, parent := .read }
  | .read =>
      match s.pipefd.read with
      | .got cbuf pipefd => some { s with pipefd, parent := .write cbuf }
      | .eof => some { s with parent := .closeRead }
      | .blocked => none
  | .write cbuf => some { s with stdout := s.stdout ++ [cbuf], parent := .read }
  | .closeRead =>
      some { s with pipefd := s.pipefd.closeRead, parent := .exited EXIT_SUCCESS }
  | .perror => some { s with parent := .exited EXIT_FAILURE }
  | .exited _ => none

/-- `fork` returns -1, which is not 0: the branch of the parent is taken. -/
def failStep (s : State) : Option State :=
  match s.parent with
  | .pipe => some { s with parent := .perror }
  | .fork => some { s with parent := .closeWrite }
  | _ => none

def childStep (capacity : Nat) (messages : List (List Char)) (s : State) : Option State :=
  match s.child with
  | .closeRead => some { s with pipefd := s.pipefd.closeRead, child := .write messages }
  | .write [] => some { s with pipefd := s.pipefd.closeWrite, child := .returned }
  | .write (acMsg :: todo) =>
      match s.pipefd.write capacity acMsg with
      | .put pipefd => some { s with pipefd, child := .write todo }
      | .sigpipe => some { s with pipefd := s.pipefd.closeWrite, child := .killed }
      | .blocked => none
  | .absent | .returned | .killed => none

def next (capacity : Nat) (messages : List (List Char)) (s : State) : Act → Option State
  | .parent => parentStep s
  | .fail => failStep s
  | .child => childStep capacity messages s

def pipeTst (capacity : Nat) (messages : List (List Char)) : Machine State Act :=
  ⟨next capacity messages⟩

end Cse522.Studio13.PipeTst

import Cse522.Clib.Cstring
import Cse522.Interleave.Machine

/-!
# The local socket server and its client

The server takes the connections in the order in which they come. The bytes of a connection
arrive in segments of any size, and the server reads them one by one into a buffer that is
kept from one connection to the next and only grows. What `malloc` and `realloc` leave in
new cells, a failing `accept`, `read` or `realloc`, and the moment each segment arrives are
up to the label of the step.
-/
namespace Cse522.Studio14.AfLocal

open Cse522.Clib.Cstring Cse522.Interleave

def CONNECT_RETRY : Nat := 5
def BUF_LEN : Int := 1024

/-- `"quit"` -/
def quit : List UInt8 := [113, 117, 105, 116]

inductive Pc where
  /-- `accept`, at the attempt `s32i` -/
  | accept (s32i : Nat)
  /-- the `read` in the loop condition -/
  | read
  /-- `printf` and `close` -/
  | print
  /-- the `strncmp` with `"quit"` -/
  | compare
  /-- out of the loop, up to the `return` -/
  | finished
  /-- `exit (EXIT_FAILURE)` -/
  | failure
  /-- the behaviour is undefined: an overflow of an `int`, an access behind the buffer -/
  | undefined
  deriving DecidableEq, Repr

structure State where
  /-- what the connections to come will send -/
  waiting : List (List UInt8)
  /-- what the peer of this connection has still to send -/
  unsent : List UInt8
  /-- what has arrived at the socket and is not read -/
  arrived : List UInt8
  closed : Bool
  pcBuf : List UInt8
  s32stringlen : Int
  s32idx : Int
  pc : Pc
  stdout : List (List UInt8)
  /-- what has been read on this connection; the program keeps no such record -/
  received : List UInt8

/-- A block of `n` bytes with the contents `mem`. -/
def malloc (n : Int) (mem : Nat → UInt8) : List UInt8 := (List.range n.toNat).map mem

/-- The first `n` bytes of the block, filled up from `mem`. -/
def realloc (buf : List UInt8) (n : Int) (mem : Nat → UInt8) : List UInt8 :=
  (List.range n.toNat).map fun i => buf.getD i (mem i)

/-- The server listens, and the first block has been allocated. -/
def init (streams : List (List UInt8)) (mem : Nat → UInt8) : State where
  waiting := streams
  unsent := []
  arrived := []
  closed := false
  pcBuf := malloc BUF_LEN mem
  s32stringlen := BUF_LEN
  s32idx := 0
  pc := .accept 0
  stdout := []
  received := []

inductive Act where
  /-- the next connection is accepted -/
  | accept
  | acceptFails
  /-- the next `n` bytes reach the socket -/
  | arrive (n : Nat)
  /-- the peer closes the connection -/
  | close
  /-- `read` returns; `mem` is the result of the `realloc` that may follow -/
  | read (mem : Option (Nat → UInt8))
  /-- `read` returns -1 -/
  | readFails
  | print
  | compare

/-- The body of the loop behind a `read` that has stored a byte. -/
def grow (s : State) (mem : Option (Nat → UInt8)) : State :=
  if s.s32stringlen ≤ s.s32idx then
    if 2147483647 < s.s32stringlen + BUF_LEN then { s with pc := .undefined }
    else
      let s32stringlen := s.s32stringlen + BUF_LEN
      match mem with
      | none => { s with s32stringlen, pcBuf := [], pc := .failure }
      | some mem => { s with s32stringlen, pcBuf := realloc s.pcBuf s32stringlen mem }
  else s

/-- `read` stores a byte at `s32idx++`. -/
def store (s : State) (b : UInt8) (arrived : List UInt8) : State :=
  if 0 ≤ s.s32idx ∧ s.s32idx < s.pcBuf.length then
    { s with
      pcBuf := s.pcBuf.set s.s32idx.toNat b
      s32idx := s.s32idx + 1
      arrived
      received := s.received ++ [b] }
  else { s with pc := .undefined }

def next (s : State) : Act → Option State
  | .accept =>
      match s.pc, s.waiting with
      | .accept _, stream :: waiting =>
          some { s with
            waiting, unsent := stream, arrived := [], closed := false
            s32idx := 0, received := [], pc := .read }
      | _, _ => none
  | .acceptFails =>
      match s.pc with
      | .accept s32i =>
          if s32i + 1 < CONNECT_RETRY then some { s with pc := .accept (s32i + 1) }
          else some { s with pc := .failure }
      | _ => none
  | .arrive n =>
      if s.pc = .read ∧ 0 < n ∧ n ≤ s.unsent.length then
        some { s with arrived := s.arrived ++ s.unsent.take n, unsent := s.unsent.drop n }
      else none
  | .close =>
      if s.pc = .read ∧ s.unsent = [] ∧ s.closed = false then some { s with closed := true }
      else none
  | .read mem =>
      match s.pc, s.arrived with
      | .read, b :: arrived =>
          let t := store s b arrived
          some (if t.pc = .undefined then t else grow t mem)
      | .read, [] =>
          if s.closed then some { s with s32idx := s.s32idx + 1, pc := .print } else none
      | _, _ => none
  | .readFails =>
      if s.pc = .read then some { s with s32idx := s.s32idx + 1, pc := .print } else none
  | .print =>
      if s.pc = .print then
        match cString s.pcBuf with
        | none => some { s with pc := .undefined }
        | some str => some { s with stdout := s.stdout ++ [str], pc := .compare }
      else none
  | .compare =>
      if s.pc = .compare then
        match strncmp (quit ++ [0]) s.pcBuf 4 with
        | none => some { s with pc := .undefined }
        | some r => some { s with pc := if r = 0 then .finished else .accept 0 }
      else none

/-- `main` of `server.c`. -/
def server : Machine State Act := ⟨next⟩

/-! ## The client -/

/-- `gets` on the typed characters: the line and its NUL go into the array, if they fit. -/
def gets (acBuf stdin : List UInt8) : Option (List UInt8) :=
  let line := stdin.takeWhile (· ≠ 10)
  if line.length < acBuf.length then some (line ++ 0 :: acBuf.drop (line.length + 1)) else none

/-- What `client.c` writes to the socket, `acBuf` being the contents of its array of 256
bytes at the start. There is one byte more than the string and its NUL. -/
def client (acBuf : Fin 256 → UInt8) (stdin : List UInt8) : Option (List UInt8) := do
  let acBuf ← gets (List.ofFn acBuf) stdin
  let s32stringlen := (← strlen acBuf) + 1
  if s32stringlen + 1 ≤ acBuf.length then some (acBuf.take (s32stringlen + 1)) else none

end Cse522.Studio14.AfLocal

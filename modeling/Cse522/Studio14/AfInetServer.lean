import Mathlib.Logic.Function.Basic
import Cse522.Interleave.Machine

/-!
# The server of the internet socket and its clients

The server accepts one connection after the other, writes its message to each in one call and
closes it. It gives up when `accept` has failed `CONNECT_RETRY` times in a row, and when `write`
has not taken the whole message. A client copies what it reads to its output, character by
character, until the server has closed the connection. The number of clients and the message,
with its terminating zero, are parameters.
-/
namespace Cse522.Studio14.AfInet.Server

open Cse522.Interleave

def CONNECT_RETRY : Nat := 5

def EXIT_SUCCESS : Nat := 0

def EXIT_FAILURE : Nat := 1

/-- `acBuf`, of which `strlen(acBuf) + 1` bytes are written. -/
def acBuf : List UInt8 := "This is a test message.\x00".toList.map fun c => UInt8.ofNat c.toNat

/-- The call of the server executed next. -/
inductive ServerPc (n : Nat) where
  /-- `accept`, for the time `s32i` in this round -/
  | accept (s32i : Nat)
  /-- `write` to the connection of a client -/
  | write (s32newskfd : Fin n)
  /-- `close` of the connection -/
  | close (s32newskfd : Fin n)
  /-- exited behind `perror("ERROR: Retry Time over!")` -/
  | retryOver
  /-- exited behind `perror("ERROR read")`: the `write` to the client has fallen short -/
  | errorRead (s32newskfd : Fin n)
  deriving DecidableEq, Repr

/-- The call of a client executed next. -/
inductive ClientPc where
  /-- `connect`, behind `socket` and `gethostbyname` -/
  | connect
  /-- `read` of a byte -/
  | read
  /-- `printf("%c", cbuf)` -/
  | printf
  /-- `printf("\n")` and `close` -/
  | newline
  | exited (status : Nat)
  deriving DecidableEq, Repr

/-- The server's end of a connection. -/
inductive Conn where
  /-- there is no connection -/
  | absent
  /-- not yet accepted -/
  | queued
  | accepted
  | closed
  deriving DecidableEq, Repr

structure Client where
  pc : ClientPc
  cbuf : UInt8
  conn : Conn
  /-- the bytes on their way to the client -/
  stream : List UInt8
  stdout : List UInt8
  /-- what `write` has taken for this client -/
  sent : List UInt8
  deriving DecidableEq, Repr

structure State (n : Nat) where
  server : ServerPc n
  /-- the connections that `accept` has not taken -/
  queue : List (Fin n)
  clients : Fin n → Client

variable {n : Nat}

/-- Every client has something in `cbuf`. -/
def init (cbuf : Fin n → UInt8) : State n :=
  ⟨.accept 0, [], fun i => ⟨.connect, cbuf i, .absent, [], [], []⟩⟩

/-- The server is at `server`, the queue is `queue`, and client `i` is at `l`. -/
def State.set (s : State n) (server : ServerPc n) (queue : List (Fin n)) (i : Fin n)
    (l : Client) : State n :=
  ⟨server, queue, Function.update s.clients i l⟩

inductive Act (n : Nat) where
  /-- `accept` returns the next connection -/
  | accept
  | acceptFails
  /-- `write` returns `ret` -/
  | write (ret : Int)
  | close
  | client (i : Fin n)
  | connectFails (i : Fin n)
  /-- `read` returns -1, which is not 0 -/
  | readFails (i : Fin n)
  deriving DecidableEq, Repr

/-- The server listens until it exits. -/
def ServerPc.listens : ServerPc n → Bool
  | .retryOver | .errorRead _ => false
  | _ => true

/-- A call of client `i`. `read` waits while there is nothing to read and the server has the
connection open. -/
def clientStep (s : State n) (i : Fin n) : Option (State n) :=
  let l := s.clients i
  match l.pc with
  | .connect =>
      if s.server.listens then
        some (s.set s.server (s.queue ++ [i]) i { l with pc := .read, conn := .queued })
      else none
  | .read =>
      match l.stream with
      | cbuf :: stream => some (s.set s.server s.queue i { l with pc := .printf, cbuf, stream })
      | [] =>
          if l.conn = .closed then some (s.set s.server s.queue i { l with pc := .newline })
          else none
  | .printf =>
      some (s.set s.server s.queue i { l with pc := .read, stdout := l.stdout ++ [l.cbuf] })
  | .newline =>
      some (s.set s.server s.queue i
        { l with pc := .exited EXIT_SUCCESS, stdout := l.stdout ++ [10] })
  | .exited _ => none

/-- A server that exits closes the connection it has. -/
def next (acBuf : List UInt8) (s : State n) : Act n → Option (State n)
  | .accept =>
      match s.server, s.queue with
      | .accept _, i :: queue =>
          some (s.set (.write i) queue i { s.clients i with conn := .accepted })
      | _, _ => none
  | .acceptFails =>
      match s.server with
      | .accept s32i =>
          some { s with
            server := if s32i + 1 < CONNECT_RETRY then .accept (s32i + 1) else .retryOver }
      | _ => none
  | .write ret =>
      match s.server with
      | .write i =>
          let l := s.clients i
          let s32stringlen := acBuf.length
          let data := acBuf.take ret.toNat
          if ret < -1 ∨ (s32stringlen : Int) < ret then none
          else if ret ≠ s32stringlen then
            some (s.set (.errorRead i) s.queue i { l with
              conn := .closed
              stream := l.stream ++ data
              sent := data })
          else
            some (s.set (.close i) s.queue i { l with stream := l.stream ++ data, sent := data })
      | _ => none
  | .close =>
      match s.server with
      | .close i => some (s.set (.accept 0) s.queue i { s.clients i with conn := .closed })
      | _ => none
  | .client i => clientStep s i
  | .connectFails i =>
      if (s.clients i).pc = .connect then
        some (s.set s.server s.queue i { s.clients i with pc := .exited EXIT_FAILURE })
      else none
  | .readFails i =>
      if (s.clients i).pc = .read then
        some (s.set s.server s.queue i { s.clients i with pc := .printf })
      else none

/-- The server and `n` clients. -/
def service (n : Nat) (acBuf : List UInt8) : Machine (State n) (Act n) := ⟨next acBuf⟩

/-- No `read` of a client fails. -/
def ReadsWork (_ : State n) (a : Act n) (_ : State n) : Prop := ∀ i, a ≠ .readFails i

end Cse522.Studio14.AfInet.Server

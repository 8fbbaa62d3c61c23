import Mathlib.Data.Int.Basic
import Cse522.Clib.While

/-!
# The client of the internet socket

The client prints what it reads, byte by byte, until `read` returns 0. The comparison that
should have been made with the result of `read` stands within its arguments, so the loop does
not end on an error: it goes on printing the last byte as long as the error lasts.
-/
namespace Cse522.Studio14.AfInet

open Cse522.Clib.While

/-- A result of `read` with a byte to be read. -/
inductive Read where
  | byte (c : UInt8)
  | eof
  | error
  deriving DecidableEq, Repr

/-- The return value. -/
def Read.ret : Read → Int
  | .byte _ => 1
  | .eof => 0
  | .error => -1

structure State where
  /-- the calls of `read` so far -/
  reads : Nat
  ret : Int
  cbuf : UInt8
  stdout : List UInt8
  deriving DecidableEq, Repr

/-- `read(s32rdfd, &cbuf, sizeof(char) > 0)`. The number of bytes asked for is the value of the
comparison, which is 1. -/
def readByte (results : Nat → Read) (s : State) : State :=
  let r := results s.reads
  let cbuf := match r with
    | .byte c => c
    | _ => s.cbuf
  { s with reads := s.reads + 1, ret := r.ret, cbuf }

/-- The body of the loop, and the `read` in its condition. -/
def pass (results : Nat → Read) (s : State) : State :=
  readByte results { s with stdout := s.stdout ++ [s.cbuf] }

/-- The first `read`, with anything in `cbuf`. -/
def start (results : Nat → Read) (cbuf : UInt8) : State := readByte results ⟨0, 0, cbuf, []⟩

/-- The client once it is connected: what it prints in all, if its loop is through after `fuel`
passes. -/
def client (results : Nat → Read) (cbuf : UInt8) (fuel : Nat) : Option (List UInt8) :=
  (whileLoop (fun s => decide (s.ret ≠ 0)) (pass results) fuel (start results cbuf)).map
    fun s => s.stdout ++ [10]

/-- The bytes in front of the first end of file or error. -/
structure Delivered (results : Nat → Read) (bytes : List UInt8) : Prop where
  delivered : ∀ i (hi : i < bytes.length), results i = .byte bytes[i]
  stop : ∀ c, results bytes.length ≠ .byte c

/-- The client comes to an end, and has printed the bytes and a newline. -/
def Copies (results : Nat → Read) (cbuf : UInt8) (bytes : List UInt8) : Prop :=
  ∃ k, ∀ fuel ≥ k, client results cbuf fuel = some (bytes ++ [10])

variable {results : Nat → Read} {cbuf : UInt8} {bytes : List UInt8} {k : Nat}

/-- Behind `k` passes, which print a byte each. -/
theorem iterate_pass (results : Nat → Read) (cbuf : UInt8) (k : Nat) :
    ((pass results)^[k] (start results cbuf)).reads = k + 1 ∧
      ((pass results)^[k] (start results cbuf)).ret = (results k).ret ∧
      ((pass results)^[k] (start results cbuf)).stdout.length = k := by
  induction k with
  | zero => exact ⟨rfl, rfl, rfl⟩
  | succ k ih =>
      obtain ⟨hreads, -, hlen⟩ := ih
      rw [Function.iterate_succ_apply']
      simp only [pass, readByte, hreads, List.length_append, hlen, List.length_singleton, and_self]

theorem cbuf_of_byte {c : UInt8} (h : results k = .byte c) :
    ((pass results)^[k] (start results cbuf)).cbuf = c := by
  cases k with
  | zero => simp [start, readByte, h]
  | succ k =>
      obtain ⟨hreads, -, -⟩ := iterate_pass results cbuf k
      rw [Function.iterate_succ_apply']
      simp only [pass, readByte, hreads, h]

/-- As long as there are bytes, they are printed. -/
theorem stdout_of_bytes (h : Delivered results bytes) (hk : k ≤ bytes.length) :
    ((pass results)^[k] (start results cbuf)).stdout = bytes.take k := by
  induction k with
  | zero => rfl
  | succ k ih =>
      have hc : ((pass results)^[k] (start results cbuf)).cbuf = bytes[k] :=
        cbuf_of_byte (h.delivered k hk)
      rw [Function.iterate_succ_apply', List.take_succ_eq_append_getElem hk, ← ih (by omega), ← hc]
      rfl

theorem ret_eq_zero {r : Read} : r.ret = 0 ↔ r = .eof := by
  cases r <;> simp [Read.ret]

theorem copies_of_eof (h : Delivered results bytes) (heof : results bytes.length = .eof) :
    Copies results cbuf bytes := by
  have hret : ∀ k, ((pass results)^[k] (start results cbuf)).ret = (results k).ret := fun k =>
    (iterate_pass results cbuf k).2.1
  have hp : Passes (fun s => decide (s.ret ≠ 0)) (pass results) (start results cbuf)
      bytes.length := by
    constructor
    · intro j hj
      have hbyte : (Read.byte bytes[j]).ret ≠ 0 := Int.one_ne_zero
      rw [decide_eq_true_iff, hret, h.delivered j hj]
      exact hbyte
    · rw [decide_eq_false_iff_not, hret, heof]
      decide
  refine ⟨bytes.length, fun fuel hfuel => ?_⟩
  rw [client, whileLoop_of_passes hp hfuel, Option.map_some,
    stdout_of_bytes h (Nat.le_refl _), List.take_length]

theorem eof_of_copies (hc : Copies results cbuf bytes) :
    results bytes.length = .eof := by
  obtain ⟨fuel, hrun⟩ := hc
  obtain ⟨s, hs, hout⟩ := Option.map_eq_some_iff.mp (hrun fuel (Nat.le_refl _))
  obtain ⟨k, -, hp, rfl⟩ := passes_of_whileLoop hs
  obtain ⟨-, hret, hlen⟩ := iterate_pass results cbuf k
  -- a pass prints one byte, so the loop has ended right behind the bytes
  have hk : k = bytes.length := by
    rw [← hlen, List.append_cancel_right hout]
  have hstop := hp.stops
  rw [decide_eq_false_iff_not, not_not, hret, ret_eq_zero] at hstop
  rw [← hk]
  exact hstop

/-- Without an end of file, the client never stops. -/
theorem client_never_ends (h : ∀ i, results i ≠ .eof) (cbuf : UInt8) (fuel : Nat) :
    client results cbuf fuel = none := by
  cases hs : client results cbuf fuel with
  | none => rfl
  | some out =>
      obtain ⟨s, hs, -⟩ := Option.map_eq_some_iff.mp hs
      obtain ⟨k, -, hp, rfl⟩ := passes_of_whileLoop hs
      have hstop := hp.stops
      rw [decide_eq_false_iff_not, not_not, (iterate_pass results cbuf k).2.1, ret_eq_zero] at hstop
      exact absurd hstop (h k)

/-- The client copies the stream and stops if and only if it is ended by an end of file. -/
theorem copies_iff_eof (cbuf : UInt8) (h : Delivered results bytes) :
    Copies results cbuf bytes ↔ results bytes.length = .eof :=
  ⟨eof_of_copies, copies_of_eof h⟩

/-- A connection that delivers `"a"`, and fails from then on. -/
def failsBehind : Nat → Read
  | 0 => .byte 97
  | _ => .error

def endsBehind : Nat → Read
  | 0 => .byte 97
  | _ => .eof

theorem copies_iff_eof_one : Copies endsBehind 0 [97] ↔ endsBehind 1 = .eof :=
  copies_iff_eof 0 ⟨fun i hi => by
    obtain rfl : i = 0 := by simpa using hi
    rfl, fun c => by simp [endsBehind]⟩

theorem error_not_copied : ¬ ∀ (results : Nat → Read) (cbuf : UInt8) (bytes : List UInt8),
    Delivered results bytes → (∀ i ≥ bytes.length, results i = results bytes.length) →
    Copies results cbuf bytes := by
  intro h
  have hdelivered : Delivered failsBehind [97] := ⟨fun i hi => by
    obtain rfl : i = 0 := by simpa using hi
    rfl, fun c => by simp [failsBehind]⟩
  have hpersists : ∀ i ≥ 1, failsBehind i = failsBehind 1 := by
    intro i hi
    obtain ⟨j, rfl⟩ := Nat.exists_eq_add_of_le' hi
    rfl
  obtain ⟨k, hrun⟩ := h failsBehind 0 [97] hdelivered hpersists
  have hno : ∀ i, failsBehind i ≠ .eof := by
    intro i
    cases i <;> simp [failsBehind]
  have hnone := client_never_ends hno 0 k
  rw [hrun k (Nat.le_refl k)] at hnone
  cases hnone

/-! ## Segments -/

/-- The next byte of a message that has come in segments, and what is left of them. -/
def receive : List (List UInt8) → Option UInt8 × List (List UInt8)
  | [] => (none, [])
  | [] :: segments => receive segments
  | (c :: cs) :: segments => (some c, cs :: segments)

/-- The results of `read` on a message, and then on the connection without it. -/
def fromSocket (rest : Read) (segments : List (List UInt8)) (i : Nat) : Read :=
  match (receive ((fun segments => (receive segments).2)^[i] segments)).1 with
  | some c => .byte c
  | none => rest

theorem receive_eq (segments : List (List UInt8)) :
    (receive segments).1 = segments.flatten.head? ∧
      (receive segments).2.flatten = segments.flatten.tail := by
  induction segments with
  | nil => exact ⟨rfl, rfl⟩
  | cons segment segments ih =>
      cases segment with
      | nil => exact ih
      | cons c cs => exact ⟨rfl, rfl⟩

theorem flatten_receive (segments : List (List UInt8)) (i : Nat) :
    ((fun segments => (receive segments).2)^[i] segments).flatten = segments.flatten.drop i := by
  induction i with
  | zero => rfl
  | succ i ih => rw [Function.iterate_succ_apply', (receive_eq _).2, ih, List.tail_drop]

theorem delivered_fromSocket {rest : Read} (hrest : ∀ c, rest ≠ .byte c)
    (segments : List (List UInt8)) :
    Delivered (fromSocket rest segments) segments.flatten := by
  have hread : ∀ i, (receive ((fun segments => (receive segments).2)^[i] segments)).1 =
      segments.flatten[i]? := by
    intro i
    rw [(receive_eq _).1, flatten_receive, List.head?_drop]
  refine ⟨fun i hi => ?_, fun c => ?_⟩
  · rw [fromSocket, hread, List.getElem?_eq_getElem hi]
  · rw [fromSocket, hread, List.getElem?_eq_none (Nat.le_refl _)]
    exact hrest c

/-- The segments in which a message comes make no difference. -/
theorem client_copies_segments (cbuf : UInt8) (segments : List (List UInt8)) :
    Copies (fromSocket .eof segments) cbuf segments.flatten := by
  have hdelivered : Delivered (fromSocket .eof segments) segments.flatten :=
    delivered_fromSocket (fun _ => by simp) segments
  apply copies_of_eof hdelivered
  rw [fromSocket, (receive_eq _).1, flatten_receive, List.drop_length]
  rfl

end Cse522.Studio14.AfInet

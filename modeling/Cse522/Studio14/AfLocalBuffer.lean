import Cse522.Studio14.AfLocal

/-!
# The receive buffer

The block is as long as `s32stringlen` says, a whole number of `BUF_LEN`, and starts with
the bytes read on the connection, in order, with at least one cell behind them. A byte
more either keeps this, or the block has to grow and cannot.
-/
namespace Cse522.Studio14.AfLocal

open Cse522.Clib.Cstring Cse522.Interleave

variable {s t : State} {a : Act} {buf : List UInt8} {mem : Nat → UInt8}

/-- What each step does. -/
inductive Step (s : State) : Act → State → Prop where
  | accept {s32i : Nat} {stream : List UInt8} {waiting : List (List UInt8)}
      (hpc : s.pc = .accept s32i) (hw : s.waiting = stream :: waiting) :
      Step s .accept { s with
        waiting, unsent := stream, arrived := [], closed := false
        s32idx := 0, received := [], pc := .read }
  | retry {s32i : Nat} (hpc : s.pc = .accept s32i) (hi : s32i + 1 < CONNECT_RETRY) :
      Step s .acceptFails { s with pc := .accept (s32i + 1) }
  | giveUp {s32i : Nat} (hpc : s.pc = .accept s32i) :
      Step s .acceptFails { s with pc := .failure }
  | arrive {n : Nat} (hpc : s.pc = .read) (h0 : 0 < n) (hn : n ≤ s.unsent.length) :
      Step s (.arrive n) { s with
        arrived := s.arrived ++ s.unsent.take n, unsent := s.unsent.drop n }
  | close (hpc : s.pc = .read) (hu : s.unsent = []) (hc : s.closed = false) :
      Step s .close { s with closed := true }
  | byte {mem : Option (Nat → UInt8)} {b : UInt8} {arrived : List UInt8}
      (hpc : s.pc = .read) (ha : s.arrived = b :: arrived) :
      Step s (.read mem)
        (if (store s b arrived).pc = .undefined then store s b arrived
         else grow (store s b arrived) mem)
  | eof {mem : Option (Nat → UInt8)} (hpc : s.pc = .read) (ha : s.arrived = [])
      (hc : s.closed = true) :
      Step s (.read mem) { s with s32idx := s.s32idx + 1, pc := .print }
  | readFails (hpc : s.pc = .read) :
      Step s .readFails { s with s32idx := s.s32idx + 1, pc := .print }
  | print {str : List UInt8} (hpc : s.pc = .print) (hstr : cString s.pcBuf = some str) :
      Step s .print { s with stdout := s.stdout ++ [str], pc := .compare }
  | printWild (hpc : s.pc = .print) (hstr : cString s.pcBuf = none) :
      Step s .print { s with pc := .undefined }
  | compare {r : Int} (hpc : s.pc = .compare) (hr : strncmp (quit ++ [0]) s.pcBuf 4 = some r) :
      Step s .compare { s with pc := if r = 0 then .finished else .accept 0 }
  | compareWild (hpc : s.pc = .compare) (hr : strncmp (quit ++ [0]) s.pcBuf 4 = none) :
      Step s .compare { s with pc := .undefined }

theorem step_of_next (h : server.next s a = some t) : Step s a t := by
  cases a <;> simp only [server, next] at h
  case accept =>
      split at h
      case h_1 hpc hw =>
          cases h
          exact .accept hpc hw
      case h_2 => cases h
  case acceptFails =>
      split at h
      case h_1 hpc =>
          split at h <;> cases h
          case isTrue hi => exact .retry hpc hi
          case isFalse => exact .giveUp hpc
      case h_2 => cases h
  case arrive n =>
      split at h <;> cases h
      case isTrue hc => exact .arrive hc.1 hc.2.1 hc.2.2
  case close =>
      split at h <;> cases h
      case isTrue hc => exact .close hc.1 hc.2.1 hc.2.2
  case read mem =>
      split at h
      case h_1 hpc ha =>
          cases h
          exact .byte hpc ha
      case h_2 hpc ha =>
          split at h <;> cases h
          case isTrue hc => exact .eof hpc ha hc
      case h_3 => cases h
  case readFails =>
      split at h <;> cases h
      case isTrue hpc => exact .readFails hpc
  case print =>
      split at h
      case isTrue hpc =>
          split at h <;> cases h
          case h_1 hstr => exact .printWild hpc hstr
          case h_2 str hstr => exact .print hpc hstr
      case isFalse => cases h
  case compare =>
      split at h
      case isTrue hpc =>
          split at h <;> cases h
          case h_1 hr => exact .compareWild hpc hr
          case h_2 r hr => exact .compare hpc hr
      case isFalse => cases h

/-! ## Blocks of memory -/

@[simp] theorem length_malloc (n : Int) : (malloc n mem).length = n.toNat := by simp [malloc]

@[simp] theorem length_realloc (n : Int) : (realloc buf n mem).length = n.toNat := by
  simp [realloc]

/-- A longer block starts with the shorter one. -/
theorem prefix_realloc {n : Int} (h : (buf.length : Int) ≤ n) : buf <+: realloc buf n mem := by
  rw [List.prefix_iff_getElem?]
  intro i hi
  have hn : i < n.toNat := by omega
  simp [realloc, hn, hi]

/-- A cell written right behind a prefix extends it. -/
theorem prefix_set {bs : List UInt8} (b : UInt8) (h : bs <+: buf) (hlt : bs.length < buf.length) :
    bs ++ [b] <+: buf.set bs.length b := by
  obtain ⟨rest, rfl⟩ := h
  cases rest with
  | nil => simp at hlt
  | cons c rest => exact ⟨rest, by simp⟩

/-! ## The invariant -/

structure Buffer (s : State) : Prop where
  length_eq : (s.pcBuf.length : Int) = s.s32stringlen
  blocks : (1024 : Int) ∣ s.s32stringlen
  fits : s.s32stringlen ≤ 2147483647
  contents : s.received <+: s.pcBuf
  room : s.received.length < s.pcBuf.length
  idx : s.pc = .read → s.s32idx = s.received.length

theorem buffer_init (streams : List (List UInt8)) (mem : Nat → UInt8) :
    Buffer (init streams mem) where
  length_eq := by simp [init, BUF_LEN]
  blocks := by simp [init, BUF_LEN]
  fits := by simp [init, BUF_LEN]
  contents := List.nil_prefix
  room := by simp [init, BUF_LEN]
  idx := by simp [init]

/-- The largest whole number of blocks an `int` can count. -/
theorem Buffer.le_last (h : Buffer s) : s.s32stringlen ≤ 2147482624 := by
  have hfits := h.fits
  obtain ⟨k, hk⟩ := h.blocks
  omega

theorem Buffer.short (h : Buffer s) : s.received.length < 2147482624 := by
  have hroom := h.room
  have hlen := h.length_eq
  have hlast := h.le_last
  omega

/-- Steps that leave the buffer and the record alone keep it. -/
theorem Buffer.of_eq (h : Buffer s) (hbuf : t.pcBuf = s.pcBuf)
    (hlen : t.s32stringlen = s.s32stringlen) (hrec : t.received = s.received)
    (hidx : t.pc = .read → t.s32idx = t.received.length) : Buffer t where
  length_eq := by rw [hbuf, hlen, h.length_eq]
  blocks := by rw [hlen]; exact h.blocks
  fits := by rw [hlen]; exact h.fits
  contents := by rw [hbuf, hrec]; exact h.contents
  room := by rw [hbuf, hrec]; exact h.room
  idx := hidx

theorem store_eq (h : Buffer s) (hpc : s.pc = .read) (b : UInt8) (arrived : List UInt8) :
    store s b arrived = { s with
      pcBuf := s.pcBuf.set s.received.length b
      s32idx := s.received.length + 1
      arrived
      received := s.received ++ [b] } := by
  have hroom := h.room
  have hlt : (0 : Int) ≤ s.received.length ∧ (s.received.length : Int) < s.pcBuf.length := by
    omega
  simp only [store, h.idx hpc, hlt, and_self, if_true, Int.toNat_natCast]

/-- What is left of the state by a byte read: the peer, the output and the connections to
come stay, the byte moves from the socket to the record. -/
structure Moved (s t : State) (b : UInt8) (arrived : List UInt8) : Prop where
  waiting : t.waiting = s.waiting
  unsent : t.unsent = s.unsent
  closed : t.closed = s.closed
  stdout : t.stdout = s.stdout
  arrived : t.arrived = arrived
  received : t.received = s.received ++ [b]

/-- Where a byte read leaves the server. -/
inductive Stored (t : State) : Prop where
  | kept (hpc : t.pc = .read) (hb : Buffer t) : Stored t
  | failed (hpc : t.pc = .failure) (hs : t.received.length < 2147482624)
      (hlong : 1024 ≤ t.received.length) : Stored t
  | overflowed (hpc : t.pc = .undefined) (hs : 2147482624 ≤ t.received.length) : Stored t

theorem byte_cases (h : Buffer s) (hpc : s.pc = .read) (b : UInt8) (arrived : List UInt8)
    (mem : Option (Nat → UInt8))
    (ht : t = if (store s b arrived).pc = .undefined then store s b arrived
      else grow (store s b arrived) mem) :
    Moved s t b arrived ∧ Stored t := by
  have hlen := h.length_eq
  have hroom := h.room
  have hlast := h.le_last
  have hset := prefix_set b h.contents hroom
  have hblock : (1024 : Int) ≤ s.s32stringlen := by
    obtain ⟨k, hk⟩ := h.blocks
    omega
  simp only [store_eq h hpc, hpc, reduceCtorEq, if_false, grow, BUF_LEN] at ht
  by_cases hfull : s.s32stringlen ≤ s.received.length + 1
  · rw [if_pos hfull] at ht
    by_cases hover : 2147483647 < s.s32stringlen + 1024
    · -- the block cannot grow: 2^31 - 1024 bytes have been read
      rw [if_pos hover] at ht
      subst ht
      refine ⟨⟨rfl, rfl, rfl, rfl, rfl, rfl⟩, .overflowed rfl ?_⟩
      obtain ⟨k, hk⟩ := h.blocks
      simp only [List.length_append, List.length_singleton]
      omega
    · rw [if_neg hover] at ht
      cases mem with
      | none =>
          subst ht
          refine ⟨⟨rfl, rfl, rfl, rfl, rfl, rfl⟩, .failed rfl ?_ ?_⟩ <;>
            simp only [List.length_append, List.length_singleton] <;> omega
      | some mem =>
          subst ht
          refine ⟨⟨rfl, rfl, rfl, rfl, rfl, rfl⟩, .kept rfl ?_⟩
          constructor
          · simp only [length_realloc]
            omega
          · exact Int.dvd_add h.blocks (by simp)
          · simp only
            omega
          · refine hset.trans (prefix_realloc ?_)
            simp only [List.length_set]
            omega
          · simp only [List.length_append, List.length_singleton, length_realloc]
            omega
          · intro _
            simp
  · rw [if_neg hfull] at ht
    subst ht
    refine ⟨⟨rfl, rfl, rfl, rfl, rfl, rfl⟩, .kept rfl ?_⟩
    constructor
    · simpa using hlen
    · exact h.blocks
    · exact h.fits
    · exact hset
    · simp only [List.length_append, List.length_singleton, List.length_set]
      omega
    · intro _
      simp

/-- The server has left its loop by an error, or its behaviour is undefined. -/
def Broken (s : State) : Prop := s.pc = .failure ∨ s.pc = .undefined

theorem broken_stuck (h : Broken s) : server.next s a ≠ some t := by
  intro hn
  rcases h with hb | hb <;> cases step_of_next hn <;> simp_all

/-- Every step keeps the buffer, or breaks the server. -/
theorem buffer_step (h : Buffer s) (hn : server.next s a = some t) : Buffer t ∨ Broken t := by
  cases step_of_next hn with
  | accept hpc hw =>
      have hroom := h.room
      refine .inl ⟨h.length_eq, h.blocks, h.fits, List.nil_prefix, ?_, fun _ => rfl⟩
      simp only [List.length_nil]
      omega
  | retry hpc => exact .inl (h.of_eq rfl rfl rfl (by simp))
  | giveUp hpc => exact .inr (.inl rfl)
  | arrive hpc | close hpc => exact .inl (h.of_eq rfl rfl rfl h.idx)
  | byte hpc ha =>
      cases (byte_cases h hpc _ _ _ rfl).2 with
      | kept _ hb => exact .inl hb
      | failed hf => exact .inr (.inl hf)
      | overflowed ho => exact .inr (.inr ho)
  | eof hpc | readFails hpc | print hpc => exact .inl (h.of_eq rfl rfl rfl (by simp))
  | printWild hpc | compareWild hpc => exact .inr (.inr rfl)
  | compare hpc =>
      refine .inl (h.of_eq rfl rfl rfl fun hread => ?_)
      simp only at hread
      split at hread <;> cases hread

end Cse522.Studio14.AfLocal

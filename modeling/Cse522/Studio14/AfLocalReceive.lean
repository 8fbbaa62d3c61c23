import Cse522.Studio14.AfLocalBuffer

/-!
# What is received on a connection

Every byte is read into the cell right behind the bytes of its connection, which is inside
the block. This does not depend on the strings the server prints, so the runs here are
also those in which `printf` or `strncmp` reads behind the block and comes back.
-/
namespace Cse522.Studio14.AfLocal

open Cse522.Clib.Cstring Cse522.Interleave

inductive ReceiveAct where
  | server (a : Act)
  /-- `printf` finds a NUL behind the block only, and prints `str` -/
  | printsOn (str : List UInt8)
  /-- `strncmp` reads on behind the block, and returns `r` -/
  | comparesOn (r : Int)

def receiveNext (s : State) : ReceiveAct → Option State
  | .server a => server.next s a
  | .printsOn str =>
      if s.pc = .print ∧ cString s.pcBuf = none then
        some { s with stdout := s.stdout ++ [str], pc := .compare }
      else none
  | .comparesOn r =>
      if s.pc = .compare ∧ strncmp (quit ++ [0]) s.pcBuf 4 = none then
        some { s with pc := if r = 0 then .finished else .accept 0 }
      else none

/-- The server, where reading behind the block is survived. -/
def receiver : Machine State ReceiveAct := ⟨receiveNext⟩

/-- The connections from this one on; the bytes of this one are read, at the socket, or
still to be sent. -/
def remaining (s : State) : List (List UInt8) :=
  if s.pc = .read then (s.received ++ s.arrived ++ s.unsent) :: s.waiting else s.waiting

structure Receiving (streams : List (List UInt8)) (s : State) : Prop where
  buffer : Buffer s ∨ Broken s
  stream : remaining s <:+ streams

variable {streams : List (List UInt8)} {s t : State} {a : ReceiveAct}

theorem remaining_of_read (hpc : s.pc = .read) :
    remaining s = (s.received ++ s.arrived ++ s.unsent) :: s.waiting := if_pos hpc

theorem remaining_of_ne (hpc : s.pc ≠ .read) : remaining s = s.waiting := if_neg hpc

theorem waiting_suffix (s : State) : s.waiting <:+ remaining s := by
  unfold remaining
  split
  · exact List.suffix_cons _ _
  · exact List.suffix_refl _

/-- Out of the reading loop, only the connections to come are left. -/
theorem remaining_step_out (h : remaining s <:+ streams) (hw : t.waiting = s.waiting)
    (hpc : t.pc ≠ .read) : remaining t <:+ streams := by
  rw [remaining_of_ne hpc, hw]
  exact (waiting_suffix s).trans h

theorem remaining_step {a : Act} (hb : Buffer s) (h : remaining s <:+ streams)
    (hn : server.next s a = some t) : remaining t <:+ streams := by
  cases step_of_next hn with
  | accept hpc hw =>
      rw [remaining_of_ne (by simp [hpc]), hw] at h
      exact h
  | retry | giveUp => exact remaining_step_out h rfl (by simp)
  | arrive hpc =>
      rw [remaining_of_read hpc] at h
      simpa [remaining, hpc] using h
  | close hpc =>
      rw [remaining_of_read hpc] at h
      simpa [remaining, hpc] using h
  | byte hpc ha =>
      obtain ⟨hmoved, hstored⟩ := byte_cases hb hpc _ _ _ rfl
      cases hstored with
      | kept hpc' =>
          rw [remaining_of_read hpc, ha] at h
          rw [remaining_of_read hpc', hmoved.received, hmoved.arrived, hmoved.unsent,
            hmoved.waiting]
          simpa using h
      | failed hpc' | overflowed hpc' =>
          exact remaining_step_out h hmoved.waiting (by simp [hpc'])
  | eof | readFails | print | printWild | compareWild => exact remaining_step_out h rfl (by simp)
  | compare =>
      refine remaining_step_out h rfl ?_
      simp only
      split <;> simp

theorem receiving_init (streams : List (List UInt8)) (mem : Nat → UInt8) :
    Receiving streams (init streams mem) :=
  ⟨.inl (buffer_init streams mem), List.suffix_refl _⟩

theorem receiving_step (h : Receiving streams s) (hn : receiver.next s a = some t) :
    Receiving streams t := by
  cases a with
  | server a =>
      have hn' : server.next s a = some t := hn
      rcases h.buffer with hb | hbroken
      · exact ⟨buffer_step hb hn', remaining_step hb h.stream hn'⟩
      · exact absurd hn' (broken_stuck hbroken)
  | printsOn str =>
      obtain ⟨hc, ht⟩ := Option.ite_none_right_eq_some.mp hn
      cases ht
      refine ⟨h.buffer.imp (fun hb => hb.of_eq rfl rfl rfl (by simp)) ?_,
        remaining_step_out h.stream rfl (by simp)⟩
      rintro (hpc | hpc) <;> simp [hc.1] at hpc
  | comparesOn r =>
      obtain ⟨hc, ht⟩ := Option.ite_none_right_eq_some.mp hn
      cases ht
      have hpc : ∀ {b : Prop} [Decidable b], (if b then Pc.finished else Pc.accept 0) ≠ .read := by
        intro b _
        split <;> simp
      refine ⟨h.buffer.imp (fun hb => hb.of_eq rfl rfl rfl fun hread => absurd hread hpc) ?_,
        remaining_step_out h.stream rfl hpc⟩
      rintro (hb | hb) <;> simp [hc.1] at hb

/-- While the peer's bytes are few enough for an `int`, a byte read stays in the block, and
the block keeps what came before it. -/
theorem read_keeps {mem : Option (Nat → UInt8)} (hb : Buffer s) (hpc : s.pc = .read)
    (hshort : (s.received ++ s.arrived ++ s.unsent).length < 2147482624)
    (hn : server.next s (.read mem) = some t) :
    t.pc ≠ .undefined ∧ (t.pc ≠ .failure → s.received <+: t.pcBuf) ∧
      (t.pc = .print → t.received = s.received ∧ t.pcBuf = s.pcBuf) := by
  cases step_of_next hn with
  | @byte mem b arrived _ ha =>
      obtain ⟨hmoved, hstored⟩ := byte_cases hb hpc b arrived mem rfl
      cases hstored with
      | kept hpc' hb' =>
          refine ⟨by simp [hpc'], fun _ => ?_, by simp [hpc']⟩
          have hcontents := hb'.contents
          rw [hmoved.received] at hcontents
          exact (List.prefix_append _ _).trans hcontents
      | failed hpc' => exact ⟨by simp [hpc'], fun hf => absurd hpc' hf, by simp [hpc']⟩
      | overflowed hpc' hlong =>
          rw [hmoved.received] at hlong
          simp only [List.length_append, ha, List.length_cons, List.length_nil] at hlong hshort
          omega
  | eof => exact ⟨by simp, fun _ => hb.contents, fun _ => ⟨rfl, rfl⟩⟩

/-- Before every `read` the index is inside the block, which has `s32stringlen` cells; the
bytes of the connection are at its start, in order. They survive the call: a byte read, with
the `realloc` behind it, and a call that returns 0 or fails, whatever that leaves in the
cell it was given. -/
theorem read_in_block {streams : List (List UInt8)}
    (hs : ∀ stream ∈ streams, stream.length < 2147482624) {mem : Nat → UInt8} {s : State}
    (hr : receiver.Reachable (init streams mem) s) (hpc : s.pc = .read) :
    (0 ≤ s.s32idx ∧ s.s32idx < s.s32stringlen ∧ s.s32stringlen = s.pcBuf.length) ∧
    (s.received ++ s.arrived ++ s.unsent) :: s.waiting <:+ streams ∧
    (s.s32idx = s.received.length ∧ s.received <+: s.pcBuf) ∧
    (∀ mem t, server.next s (.read mem) = some t →
      t.pc ≠ .undefined ∧ (t.pc ≠ .failure → s.received <+: t.pcBuf) ∧
        (t.pc = .print → t.received = s.received ∧ t.pcBuf = s.pcBuf)) ∧
    (∀ t, server.next s .readFails = some t → t.received = s.received ∧ t.pcBuf = s.pcBuf) ∧
    ∀ b, s.received <+: s.pcBuf.set s.s32idx.toNat b := by
  have h : Receiving streams s :=
    hr.invariant receiving_step (receiving_init streams mem)
  have hb : Buffer s := by
    rcases h.buffer with hb | hb | hb
    · exact hb
    · simp [hpc] at hb
    · simp [hpc] at hb
  have hstream := h.stream
  rw [remaining_of_read hpc] at hstream
  have hshort := hs _ (hstream.subset List.mem_cons_self)
  have hidx := hb.idx hpc
  have hroom := hb.room
  have hlen := hb.length_eq
  refine ⟨⟨by omega, by omega, hlen.symm⟩, hstream, ⟨hidx, hb.contents⟩, ?_, ?_, ?_⟩
  · intro mem t hn
    exact read_keeps hb hpc hshort hn
  · intro t hn
    cases step_of_next hn with
    | readFails => exact ⟨rfl, rfl⟩
  · intro b
    rw [hidx, Int.toNat_natCast]
    exact (List.prefix_append _ _).trans (prefix_set b hb.contents hroom)

/-! ## A block that grows -/

/-- With memory to be had, a read byte leaves the server in its loop, or overflows an `int`. -/
theorem pc_grow_some (s : State) (mem : Nat → UInt8) :
    (grow s (some mem)).pc = .undefined ∨ (grow s (some mem)).pc = s.pc := by
  unfold grow
  split
  · split
    · exact .inl rfl
    · exact .inr rfl
  · exact .inr rfl

/-- The bytes that have arrived are read, if every `realloc` succeeds. -/
theorem reads_arrived {bs rest : List UInt8} (mem : Nat → UInt8) (hb : Buffer s)
    (hpc : s.pc = .read) (harr : s.arrived = bs ++ rest)
    (hfit : s.received.length + bs.length < 2147482624) :
    ∃ t, receiver.run s (List.replicate bs.length (.server (.read (some mem)))) = some t ∧
      t.pc = .read ∧ t.received = s.received ++ bs := by
  induction bs generalizing s with
  | nil => exact ⟨s, by simp, hpc, by simp⟩
  | cons b bs ih =>
      obtain ⟨q, hq⟩ : ∃ q, q = if (store s b (bs ++ rest)).pc = .undefined then
          store s b (bs ++ rest) else grow (store s b (bs ++ rest)) (some mem) := ⟨_, rfl⟩
      have hn : receiver.next s (.server (.read (some mem))) = some q := by
        simp [receiver, receiveNext, server, next, hpc, harr, hq]
      obtain ⟨hmoved, hstored⟩ := byte_cases hb hpc b (bs ++ rest) (some mem) hq
      have hlen : q.received.length = s.received.length + 1 := by
        rw [hmoved.received, List.length_append, List.length_singleton]
      rw [List.length_cons] at hfit
      cases hstored with
      | kept hpc' hb' =>
          obtain ⟨t, ht, hend, hrec⟩ := ih hb' hpc' hmoved.arrived (by omega)
          refine ⟨t, Machine.run_cons.mpr ⟨q, hn, ht⟩, hend, ?_⟩
          rw [hrec, hmoved.received, List.append_assoc, List.singleton_append]
      | failed hpc' =>
          have hstore : (store s b (bs ++ rest)).pc = .read := by rw [store_eq hb hpc, hpc]
          rw [if_neg (by simp [hstore])] at hq
          have hgrow := pc_grow_some (store s b (bs ++ rest)) mem
          rw [← hq, hpc', hstore] at hgrow
          rcases hgrow with hgrow | hgrow <;> cases hgrow
      | overflowed hpc' hlong => omega

/-- The first connection, of which the bytes `bs` have been read. -/
theorem read_first {bs rest : List UInt8} (mem mem' : Nat → UInt8) (hne : rest ≠ [])
    (hfit : bs.length < 2147482624) :
    ∃ s, receiver.run (init [bs ++ rest] mem)
        (.server .accept :: .server (.arrive (bs ++ rest).length) ::
          List.replicate bs.length (.server (.read (some mem')))) = some s ∧
      s.pc = .read ∧ s.received = bs := by
  have hpos : 0 < rest.length := List.length_pos_iff.mpr hne
  have htake : (bs ++ rest).take (bs.length + rest.length) = bs ++ rest :=
    List.take_of_length_le (by simp)
  let opened : State :=
    { init [bs ++ rest] mem with waiting := [], unsent := bs ++ rest, pc := .read }
  let q : State := { opened with arrived := bs ++ rest, unsent := [] }
  have haccept : server.next (init [bs ++ rest] mem) .accept = some opened := rfl
  have harrive : server.next opened (.arrive (bs ++ rest).length) = some q := by
    have hroom : 0 < bs.length + rest.length := by omega
    simp [server, next, opened, q, init, htake, hroom]
  have hb : Buffer opened :=
    (buffer_step (buffer_init _ mem) haccept).resolve_right (by simp [Broken, opened])
  have hb : Buffer q := (buffer_step hb harrive).resolve_right (by simp [Broken, q, opened])
  have hpc : q.pc = .read := rfl
  have harr : q.arrived = bs ++ rest := rfl
  have hnone : q.received = [] := rfl
  obtain ⟨s, hs, hend, hreceived⟩ := reads_arrived mem' hb hpc harr (by simpa [hnone] using hfit)
  rw [hnone, List.nil_append] at hreceived
  exact ⟨s, Machine.run_cons.mpr ⟨_, haccept, Machine.run_cons.mpr ⟨_, harrive, hs⟩⟩, hend,
    hreceived⟩

def longLine : List UInt8 := List.replicate 1025 109

/-- All of a long line has been read but its NUL, and the block has grown. -/
theorem read_in_block_grown :
    ∃ s, receiver.run (init [longLine ++ [0]] fun _ => 7)
        (.server .accept :: .server (.arrive (longLine ++ [0]).length) ::
          List.replicate longLine.length (.server (.read (some fun _ => 9)))) = some s ∧
      s.s32idx = 1025 ∧ BUF_LEN < s.s32stringlen ∧ s.s32stringlen = s.pcBuf.length ∧
      longLine <+: s.pcBuf := by
  have hlen : longLine.length = 1025 := List.length_replicate
  have hnul : ([0] : List UInt8) ≠ [] := by simp
  have hfit : longLine.length < 2147482624 := by omega
  obtain ⟨s, hs, hpc, hreceived⟩ := read_first (fun _ => 7) (fun _ => 9) hnul hfit
  have hstreams : ∀ stream ∈ [longLine ++ [0]], stream.length < 2147482624 := by simp [hlen]
  obtain ⟨⟨-, hlt, hblock⟩, -, ⟨hidx, hcontents⟩, -⟩ := read_in_block hstreams ⟨_, hs⟩ hpc
  rw [hreceived] at hidx hcontents
  exact ⟨s, hs, by omega, by unfold BUF_LEN; omega, hblock, hcontents⟩

end Cse522.Studio14.AfLocal

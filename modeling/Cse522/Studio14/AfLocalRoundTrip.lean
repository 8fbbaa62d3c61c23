import Mathlib.Algebra.GroupWithZero.Nat
import Cse522.Studio14.AfLocalIsolation

/-!
# From the client to the server

A client sends its line, a NUL and one byte more. Whatever the server's buffer holds, the
lines come out in the order of the connections up to the first that starts with `quit`.
What is printed and what is still owed add up to the same list in every state of a run.
-/
namespace Cse522.Studio14.AfLocal

open Cse522.Clib.Cstring Cse522.Interleave

variable {s t : State} {a : Act}

/-- One run of the client: the line typed, and what its array held at the start. -/
structure ClientRun where
  line : List UInt8
  acBuf : Fin 256 → UInt8
  noNul : 0 ∉ line
  noNewline : 10 ∉ line
  short : line.length ≤ 254

namespace ClientRun

/-- What the run writes to its socket. -/
def sent (r : ClientRun) : Option (List UInt8) := client r.acBuf (r.line ++ [10])

theorem gets_line (r : ClientRun) :
    gets (List.ofFn r.acBuf) (r.line ++ [10]) =
      some (r.line ++ 0 :: (List.ofFn r.acBuf).drop (r.line.length + 1)) := by
  have hline : (r.line ++ [10]).takeWhile (· ≠ 10) = r.line := by
    rw [List.takeWhile_append_of_pos]
    · simp
    · intro b hb
      have hne : b ≠ 10 := fun h10 => r.noNewline (h10 ▸ hb)
      simpa using hne
  have hlt : r.line.length < (List.ofFn r.acBuf).length := by
    have hshort := r.short
    simp only [List.length_ofFn]
    omega
  simp only [gets, hline, hlt, if_true]

/-- The line, its NUL, and one byte that the array happened to hold. -/
theorem exists_sent (r : ClientRun) : ∃ x, r.sent = some (r.line ++ [0, x]) := by
  have hshort := r.short
  have hlen : ((List.ofFn r.acBuf).drop (r.line.length + 1)).length = 255 - r.line.length := by
    simp only [List.length_drop, List.length_ofFn]
    omega
  obtain ⟨x, rest, hdrop⟩ :
      ∃ x rest, (List.ofFn r.acBuf).drop (r.line.length + 1) = x :: rest := by
    apply List.exists_cons_of_length_pos
    omega
  refine ⟨x, ?_⟩
  rw [hdrop, List.length_cons] at hlen
  have hfits : r.line.length + 1 + 1 ≤ (r.line ++ 0 :: x :: rest).length := by
    simp only [List.length_append, List.length_cons]
    omega
  have hstr : strlen (r.line ++ 0 :: x :: rest) = some r.line.length :=
    strlen_append_nul r.noNul
  have htake : (r.line ++ 0 :: x :: rest).take (r.line.length + 1 + 1) = r.line ++ [0, x] := by
    rw [Nat.add_assoc, List.take_length_add_append]
    rfl
  simp only [sent, client, r.gets_line, hdrop, hstr, Option.bind_eq_bind, Option.bind_some,
    hfits, if_true, htake]

/-- A message read from a client ends its line for the server. -/
theorem upToNul_sent {r : ClientRun} {msg : List UInt8} (h : r.sent = some msg) :
    0 ∈ msg ∧ upToNul msg = r.line ∧ msg.length ≤ 256 := by
  obtain ⟨x, hx⟩ := r.exists_sent
  obtain rfl := Option.some.inj (h.symm.trans hx)
  refine ⟨by simp, ?_, ?_⟩
  · rw [upToNul_append_of_notMem r.noNul]
    simp [upToNul]
  · have hshort := r.short
    simp only [List.length_append, List.length_cons, List.length_nil]
    omega

end ClientRun

/-- The lines up to the first that starts with `quit`, that one included. -/
def untilQuit : List (List UInt8) → List (List UInt8)
  | [] => []
  | line :: lines => line :: if quit <+: line then [] else untilQuit lines

def lines (runs : List ClientRun) : List (List UInt8) := runs.map ClientRun.line

def Quits (runs : List ClientRun) : Prop := ∃ r ∈ runs, quit <+: r.line

/-- The streams are what the runs send. -/
abbrev SentBy (runs : List ClientRun) (streams : List (List UInt8)) : Prop :=
  List.Forall₂ (fun r msg => r.sent = some msg) runs streams

theorem exists_sentBy (runs : List ClientRun) : ∃ streams, SentBy runs streams := by
  induction runs with
  | nil => exact ⟨[], .nil⟩
  | cons r runs ih =>
      obtain ⟨streams, hs⟩ := ih
      obtain ⟨x, hx⟩ := r.exists_sent
      exact ⟨_, .cons hx hs⟩

/-! ## What is owed -/

/-- What has been printed and what the clients of `runs` are owed make up `out`, and the
server is told to quit by one of them if `stop` holds. -/
structure Owed (out : List (List UInt8)) (stop : Prop) (s : State)
    (runs rest : List ClientRun) : Prop where
  waiting : SentBy rest s.waiting
  output : s.stdout ++ untilQuit (lines runs) = out
  quits : stop ↔ Quits runs

/-- Where the server stands in serving the clients. -/
def Serving (out : List (List UInt8)) (stop : Prop) (s : State) : Prop :=
  match s.pc with
  | .accept _ => ∃ rest, Owed out stop s rest rest
  | .read => ∃ r rest, Owed out stop s (r :: rest) rest ∧
      r.sent = some (s.received ++ s.arrived ++ s.unsent) ∧ (s.closed = true → s.unsent = [])
  | .print => ∃ r rest, Owed out stop s (r :: rest) rest ∧ r.sent = some s.received
  | .compare => ∃ r rest, SentBy rest s.waiting ∧ r.sent = some s.received ∧
      s.stdout ++ (if quit <+: r.line then [] else untilQuit (lines rest)) = out ∧
      (stop ↔ Quits (r :: rest))
  | .finished => s.stdout = out ∧ stop
  | .failure => s.stdout <+: out
  | .undefined => False

variable {out : List (List UInt8)} {stop : Prop}

theorem quits_cons_of_starts {r : ClientRun} {rest : List ClientRun} (h : quit <+: r.line) :
    Quits (r :: rest) := ⟨r, by simp, h⟩

theorem quits_cons_of_not {r : ClientRun} {rest : List ClientRun} (h : ¬ quit <+: r.line) :
    Quits (r :: rest) ↔ Quits rest := by
  simp [Quits, h]

theorem Serving.printed (h : Serving out stop s) : s.stdout <+: out := by
  unfold Serving at h
  split at h
  · obtain ⟨rest, ho⟩ := h
    exact ⟨_, ho.output⟩
  · obtain ⟨r, rest, ho, -⟩ := h
    exact ⟨_, ho.output⟩
  · obtain ⟨r, rest, ho, -⟩ := h
    exact ⟨_, ho.output⟩
  · obtain ⟨r, rest, -, -, hout, -⟩ := h
    exact ⟨_, hout⟩
  · exact h.1 ▸ List.prefix_refl _
  · exact h
  · exact h.elim

/-- The string printed for a client is its line. -/
theorem Buffer.cString_sent {r : ClientRun} (hb : Buffer s) (hsent : r.sent = some s.received) :
    cString s.pcBuf = some r.line := by
  obtain ⟨hnul, hline, -⟩ := ClientRun.upToNul_sent hsent
  rw [hb.cString_eq_iff.mpr (.inl hnul), hline]

/-- The comparison for a client looks at its line. -/
theorem Buffer.compare_sent {r : ClientRun} (hb : Buffer s) (hsent : r.sent = some s.received) :
    ∃ c, strncmp (quit ++ [0]) s.pcBuf 4 = some c ∧ (c = 0 ↔ quit <+: r.line) := by
  obtain ⟨hnul, hline, -⟩ := ClientRun.upToNul_sent hsent
  rw [← hline]
  exact hb.compare (.inl hnul)

/-- A message of a client never fills the first block. -/
theorem serving_byte {b : UInt8} {arrived : List UInt8} (h : Serving out stop s)
    (hpc : s.pc = .read) (harr : s.arrived = b :: arrived) (hmoved : Moved s t b arrived)
    (hstored : Stored t) : Serving out stop t ∧ t.pc = .read := by
  simp only [Serving, hpc, harr] at h
  obtain ⟨r, rest, ho, hsent, hclosed⟩ := h
  have hlen := (ClientRun.upToNul_sent hsent).2.2
  have hrec := congrArg List.length hmoved.received
  simp only [List.length_append, List.length_cons, List.length_nil] at hlen hrec
  cases hstored with
  | kept hpc' =>
      refine ⟨?_, hpc'⟩
      simp only [Serving, hpc', hmoved.received, hmoved.arrived, hmoved.unsent, hmoved.closed]
      refine ⟨r, rest, ⟨?_, ?_, ho.quits⟩, by simpa using hsent, hclosed⟩
      · rw [hmoved.waiting]
        exact ho.waiting
      · rw [hmoved.stdout]
        exact ho.output
  | failed _ _ hlong => omega
  | overflowed _ hlong => omega

theorem serving_step (h : Serving out stop s) (hb : Buffer s)
    (hn : server.next s a = some t) (ha : a ≠ .readFails) : Serving out stop t := by
  cases step_of_next hn with
  | accept hpc hw =>
      simp only [Serving, hpc] at h ⊢
      obtain ⟨rest, ho⟩ := h
      have hsent := ho.waiting
      rw [hw] at hsent
      cases hsent with
      | cons hr hrest => exact ⟨_, _, ⟨hrest, ho.output, ho.quits⟩, by simpa using hr, nofun⟩
  | retry hpc =>
      simp only [Serving, hpc] at h ⊢
      obtain ⟨rest, ho⟩ := h
      exact ⟨rest, ⟨ho.waiting, ho.output, ho.quits⟩⟩
  | giveUp hpc => exact h.printed
  | arrive hpc h0 hlen =>
      simp only [Serving, hpc] at h ⊢
      obtain ⟨r, rest, ho, hsent, hclosed⟩ := h
      refine ⟨r, rest, ⟨ho.waiting, ho.output, ho.quits⟩, by simpa using hsent, fun hc => ?_⟩
      rw [hclosed hc, List.drop_nil]
  | close hpc hu =>
      simp only [Serving, hpc] at h ⊢
      obtain ⟨r, rest, ho, hsent, -⟩ := h
      exact ⟨r, rest, ⟨ho.waiting, ho.output, ho.quits⟩, hsent, fun _ => hu⟩
  | byte hpc harr =>
      obtain ⟨hmoved, hstored⟩ := byte_cases hb hpc _ _ _ rfl
      exact (serving_byte h hpc harr hmoved hstored).1
  | eof hpc harr hc =>
      simp only [Serving, hpc, harr] at h ⊢
      obtain ⟨r, rest, ho, hsent, hclosed⟩ := h
      rw [hclosed hc, List.append_nil, List.append_nil] at hsent
      exact ⟨r, rest, ⟨ho.waiting, ho.output, ho.quits⟩, hsent⟩
  | readFails => exact absurd rfl ha
  | print hpc hstr =>
      simp only [Serving, hpc] at h ⊢
      obtain ⟨r, rest, ho, hsent⟩ := h
      obtain rfl := Option.some.inj (hstr.symm.trans (hb.cString_sent hsent))
      refine ⟨r, rest, ho.waiting, hsent, ?_, ho.quits⟩
      rw [← ho.output]
      simp [lines, untilQuit]
  | printWild hpc hstr =>
      simp only [Serving, hpc] at h
      obtain ⟨r, rest, ho, hsent⟩ := h
      rw [hb.cString_sent hsent] at hstr
      cases hstr
  | compare hpc hr =>
      simp only [Serving, hpc] at h
      obtain ⟨r, rest, hw, hsent, hout, hstop⟩ := h
      obtain ⟨c, hc, hiff⟩ := hb.compare_sent hsent
      obtain rfl := Option.some.inj (hr.symm.trans hc)
      by_cases hq : quit <+: r.line
      · rw [if_pos hq, List.append_nil] at hout
        simp only [Serving, if_pos (hiff.mpr hq)]
        exact ⟨hout, hstop.mpr (quits_cons_of_starts hq)⟩
      · rw [if_neg hq] at hout
        simp only [Serving, if_neg (mt hiff.mp hq)]
        exact ⟨rest, ⟨hw, hout, hstop.trans (quits_cons_of_not hq)⟩⟩
  | compareWild hpc hr =>
      simp only [Serving, hpc] at h
      obtain ⟨r, rest, hw, hsent, -⟩ := h
      obtain ⟨c, hc, -⟩ := hb.compare_sent hsent
      rw [hr] at hc
      cases hc

/-- While it serves clients, the server gives up in `accept` only. -/
theorem failure_step (h : Serving out stop s) (hb : Buffer s)
    (hn : server.next s a = some t) (hf : t.pc = .failure) : a = .acceptFails := by
  cases step_of_next hn with
  | giveUp hpc => rfl
  | byte hpc harr =>
      obtain ⟨hmoved, hstored⟩ := byte_cases hb hpc _ _ _ rfl
      rw [(serving_byte h hpc harr hmoved hstored).2] at hf
      cases hf
  | arrive hpc | close hpc => simp [hpc] at hf
  | compare hpc =>
      simp only at hf
      split at hf <;> cases hf
  | _ => cases hf

/-! ## The end of a run -/

/-- Nothing can happen any more, except that `accept` or `read` fails. -/
def Quiet (s : State) : Prop :=
  ∀ a t, server.next s a = some t → a = .acceptFails ∨ a = .readFails

theorem Quiet.false_of_next (h : Quiet s) (hn : (server.next s a).isSome)
    (hne : a ≠ .acceptFails ∧ a ≠ .readFails) : False := by
  obtain ⟨t, ht⟩ := Option.isSome_iff_exists.mp hn
  exact (h a t ht).elim hne.1 hne.2

/-- While a connection is open, its bytes arrive, are read, or the peer closes it. -/
theorem not_quiet_of_read (hpc : s.pc = .read) : ¬ Quiet s := by
  intro hq
  cases harr : s.arrived with
  | cons b arrived =>
      exact hq.false_of_next (a := .read none) (by simp [server, next, hpc, harr]) (by simp)
  | nil =>
      cases hun : s.unsent with
      | cons b unsent =>
          exact hq.false_of_next (a := .arrive 1) (by simp [server, next, hpc, hun]) (by simp)
      | nil =>
          cases hc : s.closed with
          | true =>
              exact hq.false_of_next (a := .read none) (by simp [server, next, hpc, harr, hc])
                (by simp)
          | false =>
              exact hq.false_of_next (a := .close) (by simp [server, next, hpc, hun, hc])
                (by simp)

theorem not_quiet_of_print (hpc : s.pc = .print) : ¬ Quiet s := by
  intro hq
  refine hq.false_of_next (a := .print) ?_ (by simp)
  simp only [server, next, hpc, if_true]
  split <;> rfl

theorem not_quiet_of_compare (hpc : s.pc = .compare) : ¬ Quiet s := by
  intro hq
  refine hq.false_of_next (a := .compare) ?_ (by simp)
  simp only [server, next, hpc, if_true]
  split <;> rfl

/-- Every client has been served when nothing can happen any more. -/
theorem served_of_quiet (h : Serving out stop s) (hq : Quiet s) (hf : s.pc ≠ .failure) :
    s.stdout = out ∧ (s.pc = .finished ↔ stop) := by
  cases hpc : s.pc with
  | accept i =>
      simp only [Serving, hpc] at h
      obtain ⟨rest, ho⟩ := h
      have hrest := ho.waiting
      cases hw : s.waiting with
      | nil =>
          rw [hw] at hrest
          cases hrest
          refine ⟨by simpa [lines, untilQuit] using ho.output, ?_⟩
          rw [ho.quits]
          simp [Quits]
      | cons stream waiting =>
          exact (hq.false_of_next (a := .accept) (by simp [server, next, hpc, hw])
            (by simp)).elim
  | read => exact absurd hq (not_quiet_of_read hpc)
  | print => exact absurd hq (not_quiet_of_print hpc)
  | compare => exact absurd hq (not_quiet_of_compare hpc)
  | finished =>
      simp only [Serving, hpc] at h
      exact ⟨h.1, by simp [h.2]⟩
  | failure => exact absurd hpc hf
  | undefined => simp only [Serving, hpc] at h

/-- A bound on the steps left. -/
def work (s : State) : Nat :=
  (s.waiting.map fun stream => 2 * stream.length + 20).sum +
    match s.pc with
    | .accept s32i => CONNECT_RETRY - s32i + 1
    | .read => 2 * s.unsent.length + s.arrived.length + (if s.closed then 0 else 1) + 9
    | .print => 8
    | .compare => 7
    | _ => 0

theorem work_byte {b : UInt8} {arrived : List UInt8} (hpc : s.pc = .read)
    (harr : s.arrived = b :: arrived) (hmoved : Moved s t b arrived) (hstored : Stored t) :
    work t < work s := by
  cases hstored with
  | kept hpc' =>
      simp only [work, hpc, hpc', hmoved.waiting, hmoved.unsent, hmoved.closed, hmoved.arrived,
        harr, List.length_cons]
      omega
  | failed hf | overflowed hf =>
      simp only [work, hpc, hf, hmoved.waiting]
      omega

theorem work_step (hb : Buffer s) (hn : server.next s a = some t) : work t < work s := by
  cases step_of_next hn with
  | accept hpc hw =>
      simp only [work, hpc, hw, List.map_cons, List.sum_cons, List.length_nil]
      simp
      omega
  | retry hpc hi =>
      simp only [work, hpc, CONNECT_RETRY] at hi ⊢
      omega
  | giveUp hpc =>
      simp only [work, hpc]
      omega
  | arrive hpc h0 hlen =>
      simp only [work, hpc, List.length_append, List.length_take, List.length_drop]
      omega
  | close hpc hu hc =>
      simp only [work, hpc, hc]
      simp
  | byte hpc harr =>
      obtain ⟨hmoved, hstored⟩ := byte_cases hb hpc _ _ _ rfl
      exact work_byte hpc harr hmoved hstored
  | eof hpc | readFails hpc =>
      simp only [work, hpc]
      omega
  | print hpc | printWild hpc | compareWild hpc =>
      simp only [work, hpc]
      omega
  | @compare r hpc hr =>
      by_cases h0 : r = 0
      · simp only [work, hpc, if_pos h0]
        omega
      · simp only [work, hpc, if_neg h0, CONNECT_RETRY]
        omega

/-! ## The run -/

theorem serving_run {as : List Act} (h : Serving out stop s) (hb : Buffer s)
    (hr : server.run s as = some t) (hno : .readFails ∉ as) :
    Serving out stop t ∧ (t.pc = .failure → s.pc = .failure ∨ .acceptFails ∈ as) := by
  induction as generalizing s with
  | nil =>
      obtain rfl := Machine.run_nil.mp hr
      exact ⟨h, .inl⟩
  | cons a as ih =>
      obtain ⟨q, hq, hr⟩ := Machine.run_cons.mp hr
      obtain ⟨ha, hrest⟩ : .readFails ≠ a ∧ .readFails ∉ as := by simpa using hno
      have hs := serving_step h hb hq (Ne.symm ha)
      rcases buffer_step hb hq with hb' | hbroken
      · obtain ⟨ht, hfail⟩ := ih hs hb' hr hrest
        refine ⟨ht, fun hf => .inr ?_⟩
        rcases hfail hf with hq' | hmem
        · rw [failure_step h hb hq hq']
          exact List.mem_cons_self
        · exact List.mem_cons_of_mem a hmem
      · cases as with
        | nil =>
            obtain rfl := Machine.run_nil.mp hr
            refine ⟨hs, fun hf => .inr ?_⟩
            rw [failure_step h hb hq hf]
            exact List.mem_cons_self
        | cons b as =>
            obtain ⟨u, hu, -⟩ := Machine.run_cons.mp hr
            exact absurd hu (broken_stuck hbroken)

theorem work_run {as : List Act} (hb : Buffer s) (hr : server.run s as = some t) :
    as.length ≤ work s := by
  have hdec : ∀ {q a r}, Buffer q ∨ Broken q → server.next q a = some r →
      (Buffer r ∨ Broken r) ∧ work r < work q := by
    intro q a r hq hn
    have hbq := hq.resolve_right fun hbroken => broken_stuck hbroken hn
    exact ⟨buffer_step hbq hn, work_step hbq hn⟩
  have hlen := Machine.length_le_of_decreasing hdec (.inl hb) hr
  omega

/-- Whatever connections came first and whatever they left in the buffer, the server prints
the lines of the clients in their order, up to the first that starts with `quit`. It gives
up only when `accept` fails; otherwise it comes to an end within `work` steps, has served
every client up to that one, and has left its loop if there was one. -/
theorem clients_served_in_order (before : List (List UInt8)) (runs : List ClientRun) :
    ∃ streams, SentBy runs streams ∧
      ∀ (mem : Nat → UInt8) (s t : State) (s32i : Nat) (as : List Act),
        server.Reachable (init (before ++ streams) mem) s →
        s.pc = .accept s32i → s.waiting = streams →
        server.run s as = some t → .readFails ∉ as →
        t.stdout <+: s.stdout ++ untilQuit (lines runs) ∧
        (t.pc = .failure → .acceptFails ∈ as) ∧
        (Quiet t → t.pc ≠ .failure →
          t.stdout = s.stdout ++ untilQuit (lines runs) ∧ (t.pc = .finished ↔ Quits runs)) ∧
        as.length ≤ work s := by
  obtain ⟨streams, hsent⟩ := exists_sentBy runs
  refine ⟨streams, hsent, ?_⟩
  intro mem s t s32i as hreach hpc hw hr hno
  have hb : Buffer s := by
    have hinv : Buffer s ∨ Broken s := by
      refine hreach.invariant (I := fun q => Buffer q ∨ Broken q) ?_ (.inl (buffer_init _ mem))
      intro q a r hq hn
      exact buffer_step (hq.resolve_right fun hbroken => broken_stuck hbroken hn) hn
    exact hinv.resolve_right (by simp [Broken, hpc])
  have hs : Serving (s.stdout ++ untilQuit (lines runs)) (Quits runs) s := by
    simp only [Serving, hpc]
    exact ⟨runs, by rw [hw]; exact hsent, rfl, Iff.rfl⟩
  obtain ⟨ht, hfail⟩ := serving_run hs hb hr hno
  refine ⟨ht.printed, fun hf => ?_, served_of_quiet ht, work_run hb hr⟩
  exact (hfail hf).resolve_left (by simp [hpc])

theorem SentBy.map_sent {runs : List ClientRun} {streams : List (List UInt8)}
    (h : SentBy runs streams) : runs.map ClientRun.sent = streams.map some := by
  induction h with
  | nil => rfl
  | cons hr _ ih => rw [List.map_cons, List.map_cons, hr, ih]

theorem quiet_of_finished (h : s.pc = .finished) : Quiet s := by
  intro a t hn
  cases a <;> simp [server, next, h] at hn

def longRun : ClientRun := ⟨List.replicate 20 109, fun _ => 7, by decide, by decide, by decide⟩

def shortRun : ClientRun := ⟨[104, 105], fun _ => 8, by decide, by decide, by decide⟩

/-- A client that types `quit`. -/
def quitRun : ClientRun := ⟨quit, fun _ => 7, by decide, by decide, by decide⟩

/-- A short line behind a long one, and nobody is served after `quit`. -/
theorem quit_served :
    ∃ streams, SentBy [longRun, shortRun, quitRun, shortRun] streams ∧
      ∃ t, server.run (init streams fun _ => 255) (served 22 ++ served 4 ++ served 6) = some t ∧
        t.pc = .finished ∧ t.stdout = [List.replicate 20 109, [104, 105], quit] := by
  obtain ⟨streams, hsent, h⟩ :=
    clients_served_in_order [] [longRun, shortRun, quitRun, shortRun]
  refine ⟨streams, hsent, ?_⟩
  let sent : List (List UInt8) :=
    [List.replicate 20 109 ++ [0, 7], [104, 105, 0, 8], [113, 117, 105, 116, 0, 7],
      [104, 105, 0, 8]]
  have hall : [longRun, shortRun, quitRun, shortRun].map ClientRun.sent = sent.map some := by
    decide +kernel
  obtain rfl : streams = sent :=
    List.map_injective_iff.mpr (Option.some_injective _) (hsent.map_sent.symm.trans hall)
  have hrun : (server.run (init sent fun _ => 255) (served 22 ++ served 4 ++ served 6)).map
      State.pc = some .finished := by decide +kernel
  obtain ⟨t, ht, hpc⟩ := Option.map_eq_some_iff.mp hrun
  obtain ⟨-, -, hend, -⟩ := h _ _ t 0 _ (.refl _) rfl rfl ht (by simp [served])
  exact ⟨t, ht, hpc, (hend (quiet_of_finished hpc) (by rw [hpc]; decide)).1⟩

end Cse522.Studio14.AfLocal

import Mathlib.Data.List.Basic
import Cse522.Interleave.Phases
import Cse522.Interleave.Threads
import Cse522.Studio14.AfInetServer

/-!
# Every client gets the message

What a client has printed, has in hand and has on its way is what `write` has taken for it. A
connection that is closed has been given the whole message, or it is the one that the server has
given up on. While the server listens, every client can be served.
-/
namespace Cse522.Studio14.AfInet.Server

open Cse522.Interleave

variable {n : Nat} {acBuf : List UInt8} {s t : State n} {i j : Fin n} {l : Client}
  {server : ServerPc n} {queue : List (Fin n)}

@[simp] theorem set_server : (s.set server queue i l).server = server := rfl

@[simp] theorem set_queue : (s.set server queue i l).queue = queue := rfl

@[simp] theorem set_clients :
    (s.set server queue i l).clients = Function.update s.clients i l := rfl

/-! ## What is sent and printed -/

/-- What the client has printed, and what comes after it, is what was sent. -/
def Flow (l : Client) : Prop :=
  match l.pc with
  | .connect => l.conn = .absent ∧ l.stdout = [] ∧ l.stream = []
  | .read => l.conn ≠ .absent ∧ l.stdout ++ l.stream = l.sent
  | .printf => l.conn ≠ .absent ∧ l.stdout ++ [l.cbuf] ++ l.stream = l.sent
  | .newline => l.conn = .closed ∧ l.stdout = l.sent
  | .exited status =>
      (status = EXIT_FAILURE ∧ l.conn = .absent) ∨
        (status = EXIT_SUCCESS ∧ l.conn = .closed ∧ l.stdout = l.sent ++ [10])

/-- What was sent to client `i`, by the state of its connection. -/
def Account (acBuf : List UInt8) (server : ServerPc n) (i : Fin n) (l : Client) : Prop :=
  match l.conn with
  | .absent | .queued => l.sent = []
  | .accepted => (server = .write i ∧ l.sent = []) ∨ (server = .close i ∧ l.sent = acBuf)
  | .closed => l.sent = acBuf ∨
      (server = .errorRead i ∧ ∃ k < acBuf.length, l.sent = acBuf.take k)

structure Sound (acBuf : List UInt8) (s : State n) : Prop where
  flow : ∀ i, Flow (s.clients i)
  account : ∀ i, Account acBuf s.server i (s.clients i)
  /-- the client that the server is at has its connection -/
  serves : ∀ i, s.server = .write i ∨ s.server = .close i → (s.clients i).conn = .accepted
  queued : ∀ i, i ∈ s.queue ↔ (s.clients i).conn = .queued
  nodup : s.queue.Nodup

theorem sound_init (cbuf : Fin n → UInt8) : Sound acBuf (init cbuf) where
  flow i := ⟨rfl, rfl, rfl⟩
  account i := rfl
  serves i h := by rcases h with h | h <;> cases h
  queued i := by simp [init]
  nodup := List.nodup_nil

/-- Nobody but the client at the server has an accepted connection, and while the server
listens every closed one has been given the message. -/
theorem account_other (h : Account acBuf s.server j l) (hlisten : s.server.listens)
    (hw : s.server ≠ .write j) (hc : s.server ≠ .close j) (server : ServerPc n) :
    Account acBuf server j l := by
  unfold Account at h ⊢
  cases hconn : l.conn with
  | absent | queued => simpa only [hconn] using h
  | accepted =>
      simp only [hconn] at h
      obtain ⟨hserver, -⟩ | ⟨hserver, -⟩ := h
      · exact absurd hserver hw
      · exact absurd hserver hc
  | closed =>
      simp only [hconn] at h ⊢
      obtain hsent | ⟨hserver, -⟩ := h
      · exact .inl hsent
      · rw [hserver] at hlisten
        cases hlisten

/-- A client moves, its connection and what was sent to it stay. -/
theorem sound_client (h : Sound acBuf s) (hflow : Flow l) (hconn : l.conn = (s.clients i).conn)
    (hsent : l.sent = (s.clients i).sent) : Sound acBuf (s.set s.server s.queue i l) where
  flow := forall_update (P := fun _ => Flow) h.flow hflow
  account := by
    refine forall_update (P := Account acBuf s.server) h.account ?_
    have ha := h.account i
    unfold Account at ha ⊢
    rw [hconn, hsent]
    exact ha
  serves j hj := by
    by_cases hji : j = i
    · subst hji
      simpa [hconn] using h.serves j hj
    · simpa [hji] using h.serves j hj
  queued j := by
    by_cases hji : j = i
    · subst hji
      simpa [hconn] using h.queued j
    · simpa [hji] using h.queued j
  nodup := h.nodup

/-- The server moves on with client `i`, whose connection it has taken from the queue or had
before, and is not at another client. -/
theorem sound_serve (h : Sound acBuf s) (hlisten : s.server.listens)
    (hidle : ∀ j ≠ i, s.server ≠ .write j ∧ s.server ≠ .close j)
    (hflow : Flow l) (haccount : Account acBuf server i l)
    (hserves : ∀ j, server = .write j ∨ server = .close j → j = i ∧ l.conn = .accepted)
    (hqueued : ∀ j, j ∈ queue ↔ j ≠ i ∧ j ∈ s.queue) (hnodup : queue.Nodup)
    (hconn : l.conn ≠ .queued) : Sound acBuf (s.set server queue i l) where
  flow := forall_update (P := fun _ => Flow) h.flow hflow
  account j := by
    by_cases hji : j = i
    · subst hji
      simpa using haccount
    · obtain ⟨hw, hc⟩ := hidle j hji
      simpa [hji] using account_other (h.account j) hlisten hw hc server
  serves j hj := by
    obtain ⟨rfl, hl⟩ := hserves j hj
    simpa using hl
  queued j := by
    by_cases hji : j = i
    · subst hji
      simp [hqueued, hconn]
    · simp [hqueued, hji, h.queued]
  nodup := hnodup

/-- A connection that has been accepted is not in the queue. -/
theorem Sound.queue_accepted (h : Sound acBuf s) (hconn : (s.clients i).conn = .accepted)
    (j : Fin n) : j ∈ s.queue ↔ j ≠ i ∧ j ∈ s.queue := by
  refine ⟨fun hj => ⟨?_, hj⟩, fun hj => hj.2⟩
  rintro rfl
  rw [h.queued, hconn] at hj
  cases hj

theorem sound_accept (h : Sound acBuf s) {s32i : Nat} (hs : s.server = .accept s32i)
    (hq : s.queue = i :: queue) :
    Sound acBuf (s.set (.write i) queue i { s.clients i with conn := .accepted }) := by
  have hconn : (s.clients i).conn = .queued := (h.queued i).mp (by simp [hq])
  have hnodup := h.nodup
  rw [hq, List.nodup_cons] at hnodup
  refine sound_serve h (by rw [hs]; rfl) (fun j _ => by simp [hs]) ?_ ?_ ?_ ?_ hnodup.2 (by simp)
  · have hflow := h.flow i
    unfold Flow at hflow ⊢
    cases hpc : (s.clients i).pc <;> simp only [hpc, hconn] at hflow ⊢ <;> simp_all
  · have ha := h.account i
    simp only [Account, hconn] at ha
    exact .inl ⟨rfl, ha⟩
  · intro j hj
    obtain hj | hj := hj
    · exact ⟨(ServerPc.write.inj hj).symm, rfl⟩
    · cases hj
  · intro j
    rw [hq, List.mem_cons]
    constructor
    · intro hj
      refine ⟨?_, .inr hj⟩
      rintro rfl
      exact hnodup.1 hj
    · intro hj
      exact hj.2.resolve_left hj.1

/-- Bytes are sent on a connection that has had none. -/
theorem flow_write (h : Flow (s.clients i)) (hconn : (s.clients i).conn = .accepted)
    (hsent : (s.clients i).sent = []) {conn : Conn} (hc : conn = .accepted ∨ conn = .closed)
    (data : List UInt8) : Flow { s.clients i with
      conn
      stream := (s.clients i).stream ++ data
      sent := data } := by
  have hne : conn ≠ .absent := by
    rcases hc with rfl | rfl <;> simp
  unfold Flow at h ⊢
  cases hpc : (s.clients i).pc <;> simp only [hpc, hconn, hsent] at h ⊢
  case connect => cases h.1
  case read =>
      refine ⟨hne, ?_⟩
      obtain ⟨hout, hstream⟩ := List.append_eq_nil_iff.mp h.2
      simp [hout, hstream]
  case printf =>
      have hnil := h.2
      simp at hnil
  case newline => cases h.1
  case exited => simp at h

theorem sound_write (hmsg : acBuf ≠ []) (h : Sound acBuf s) {ret : Int} (hs : s.server = .write i)
    (hn : (service n acBuf).next s (.write ret) = some t) : Sound acBuf t := by
  have hconn := h.serves i (.inl hs)
  have ha := h.account i
  simp only [Account, hconn, hs] at ha
  have hsent : (s.clients i).sent = [] := by
    obtain ⟨-, hsent⟩ | ⟨hclose, -⟩ := ha
    · exact hsent
    · cases hclose
  have hidle : ∀ j ≠ i, s.server ≠ .write j ∧ s.server ≠ .close j := by
    intro j hji
    rw [hs]
    exact ⟨fun he => hji (ServerPc.write.inj he).symm, nofun⟩
  have hqueue := h.queue_accepted hconn
  have hlisten : s.server.listens := by rw [hs]; rfl
  have hpos := List.length_pos_of_ne_nil hmsg
  simp only [service, next, hs] at hn
  split at hn
  case isTrue => cases hn
  case isFalse hrange =>
    split at hn
    case isTrue hshort =>
      obtain rfl := Option.some.inj hn
      refine sound_serve h hlisten hidle (flow_write (h.flow i) hconn hsent (.inr rfl) _)
        (.inr ⟨rfl, ret.toNat, by omega, rfl⟩) ?_ hqueue h.nodup (by simp)
      intro j hj
      rcases hj with hj | hj <;> cases hj
    case isFalse hfull =>
      obtain rfl := Option.some.inj hn
      have hdata : acBuf.take ret.toNat = acBuf := List.take_of_length_le (by omega)
      have hflow := flow_write (h.flow i) hconn hsent (.inl rfl) (acBuf.take ret.toNat)
      rw [← hconn] at hflow
      refine sound_serve h hlisten hidle hflow ?_ ?_ hqueue h.nodup (by simp [hconn])
      · simp only [Account, hconn]
        exact .inr ⟨trivial, hdata⟩
      · intro j hj
        obtain hj | hj := hj
        · cases hj
        · exact ⟨(ServerPc.close.inj hj).symm, hconn⟩

theorem sound_close (h : Sound acBuf s) (hs : s.server = .close i) :
    Sound acBuf (s.set (.accept 0) s.queue i { s.clients i with conn := .closed }) := by
  have hconn := h.serves i (.inr hs)
  have ha := h.account i
  simp only [Account, hconn, hs] at ha
  have hsent : (s.clients i).sent = acBuf := by
    obtain ⟨hwrite, -⟩ | ⟨-, hsent⟩ := ha
    · cases hwrite
    · exact hsent
  refine sound_serve h (by rw [hs]; rfl) ?_ ?_ (.inl hsent) ?_ (h.queue_accepted hconn) h.nodup
    (by simp)
  · intro j hji
    rw [hs]
    exact ⟨nofun, fun he => hji (ServerPc.close.inj he).symm⟩
  · have hflow := h.flow i
    unfold Flow at hflow ⊢
    cases hpc : (s.clients i).pc <;> simp only [hpc, hconn] at hflow ⊢ <;> simp_all
  · intro j hj
    rcases hj with hj | hj <;> cases hj

/-- `accept` fails, and is called again or not. -/
theorem sound_acceptFails (h : Sound acBuf s) {s32i : Nat} (hs : s.server = .accept s32i)
    (hserver : ∀ j, server ≠ .write j ∧ server ≠ .close j) :
    Sound acBuf { s with server } where
  flow := h.flow
  account j := account_other (h.account j) (by rw [hs]; rfl) (by simp [hs]) (by simp [hs]) server
  serves j hj := by
    rcases hj with hj | hj
    · exact absurd hj (hserver j).1
    · exact absurd hj (hserver j).2
  queued := h.queued
  nodup := h.nodup

theorem sound_connect (h : Sound acBuf s) (hpc : (s.clients i).pc = .connect) :
    Sound acBuf (s.set s.server (s.queue ++ [i]) i
      { s.clients i with pc := .read, conn := .queued }) := by
  have hflow := h.flow i
  have ha := h.account i
  simp only [Flow, hpc] at hflow
  obtain ⟨hconn, hout, hstream⟩ := hflow
  simp only [Account, hconn] at ha
  have hnot : i ∉ s.queue := by
    rw [h.queued, hconn]
    simp
  refine ⟨?_, ?_, ?_, ?_, ?_⟩
  · refine forall_update (P := fun _ => Flow) h.flow ⟨by simp, ?_⟩
    simp [hout, hstream, ha]
  · exact forall_update (P := Account acBuf s.server) h.account ha
  · intro j hj
    have hj' := h.serves j hj
    have hji : j ≠ i := by
      rintro rfl
      rw [hconn] at hj'
      cases hj'
    simpa [hji] using hj'
  · intro j
    by_cases hji : j = i
    · subst hji
      simp
    · simp [hji, h.queued]
  · exact List.nodup_append.mpr ⟨h.nodup, List.nodup_singleton i, by
      intro j hj k hk
      obtain rfl := List.mem_singleton.mp hk
      rintro rfl
      exact hnot hj⟩

theorem sound_clientStep (h : Sound acBuf s) (hn : clientStep s i = some t) : Sound acBuf t := by
  have hflow := h.flow i
  simp only [clientStep] at hn
  cases hpc : (s.clients i).pc <;> simp only [hpc, Flow] at hn hflow
  case connect =>
      obtain ⟨-, ht⟩ := Option.ite_none_right_eq_some.mp hn
      cases ht
      exact sound_connect h hpc
  case read =>
      cases hstream : (s.clients i).stream with
      | cons cbuf stream =>
          simp only [hstream, Option.some.injEq] at hn hflow
          subst hn
          exact sound_client h (by simpa [Flow] using hflow) rfl rfl
      | nil =>
          simp only [hstream] at hn hflow
          obtain ⟨hclosed, ht⟩ := Option.ite_none_right_eq_some.mp hn
          cases ht
          exact sound_client h ⟨hclosed, by simpa using hflow.2⟩ rfl rfl
  case printf =>
      obtain rfl := Option.some.inj hn
      exact sound_client h hflow rfl rfl
  case newline =>
      obtain rfl := Option.some.inj hn
      refine sound_client h (.inr ⟨rfl, hflow.1, ?_⟩) rfl rfl
      show (s.clients i).stdout ++ [10] = (s.clients i).sent ++ [10]
      rw [hflow.2]
  case exited => cases hn

theorem sound_step (hmsg : acBuf ≠ []) {a : Act n} (h : Sound acBuf s)
    (hn : (service n acBuf).next s a = some t) (hc : ReadsWork s a t) : Sound acBuf t := by
  cases a with
  | accept =>
      simp only [service, next] at hn
      split at hn
      case h_1 s32i i queue hs hq =>
          obtain rfl := Option.some.inj hn
          exact sound_accept h hs hq
      case h_2 => cases hn
  | acceptFails =>
      simp only [service, next] at hn
      split at hn
      case h_1 s32i hs =>
          obtain rfl := Option.some.inj hn
          refine sound_acceptFails h hs fun j => ?_
          split <;> simp
      case h_2 => cases hn
  | write ret =>
      cases hs : s.server with
      | write i => exact sound_write hmsg h hs hn
      | _ => simp [service, next, hs] at hn
  | close =>
      simp only [service, next] at hn
      split at hn
      case h_1 i hs =>
          obtain rfl := Option.some.inj hn
          exact sound_close h hs
      case h_2 => cases hn
  | client i => exact sound_clientStep h hn
  | connectFails i =>
      obtain ⟨hpc, ht⟩ := Option.ite_none_right_eq_some.mp hn
      cases ht
      have hflow := h.flow i
      simp only [Flow, hpc] at hflow
      exact sound_client h (.inl ⟨rfl, hflow.1⟩) rfl rfl
  | readFails i => exact absurd rfl (hc i)

/-! ## The way to the end -/

/-- The calls that a client has left, its share of those of the server among them. -/
def Client.rank (size : Nat) (l : Client) : Nat :=
  match l.pc, l.conn with
  | .exited _, _ => 0
  | .newline, _ => 1
  | .read, .closed => 2 * l.stream.length + 2
  | .printf, .closed => 2 * l.stream.length + 3
  | .connect, _ => 2 * size + 9
  | _, .accepted => 2 * size + 6
  | _, _ => 2 * size + 8

def ServerPc.rank : ServerPc n → Nat
  | .write _ => 1
  | _ => 0

def State.rank (size : Nat) (s : State n) : Nat :=
  s.server.rank + ∑ i, (s.clients i).rank size

theorem rank_set {size : Nat}
    (h : server.rank + l.rank size < s.server.rank + (s.clients i).rank size) :
    (s.set server queue i l).rank size < s.rank size := by
  have hsum := sum_update (Client.rank size) s.clients i l
  show server.rank + ∑ j, (Function.update s.clients i l j).rank size < s.rank size
  unfold State.rank
  omega

/-- The server listens, and no client has failed since `s₀`. -/
structure Live (acBuf : List UInt8) (s₀ s : State n) : Prop where
  sound : Sound acBuf s
  listens : s.server.listens
  keeps : ∀ i, (s.clients i).pc = .exited EXIT_FAILURE → (s₀.clients i).pc = .exited EXIT_FAILURE

variable {s₀ : State n}

/-- A step that brings client `i` forward. -/
theorem live_set (hmsg : acBuf ≠ []) (h : Live acBuf s₀ s) {a : Act n}
    (hn : (service n acBuf).next s a = some (s.set server queue i l)) (ha : ReadsWork s a t)
    (hlisten : server.listens) (hpc : l.pc ≠ .exited EXIT_FAILURE)
    (hrank : server.rank + l.rank acBuf.length <
      s.server.rank + (s.clients i).rank acBuf.length) :
    ∃ a t, (service n acBuf).next s a = some t ∧ Live acBuf s₀ t ∧
      t.rank acBuf.length < s.rank acBuf.length := by
  refine ⟨a, _, hn, ⟨sound_step hmsg h.sound hn ha, hlisten, fun j hj => ?_⟩, rank_set hrank⟩
  by_cases hji : j = i
  · subst hji
    rw [set_clients, Function.update_self] at hj
    exact absurd hj hpc
  · rw [set_clients, Function.update_of_ne hji] at hj
    exact h.keeps j hj

theorem Sound.stream_le (h : Sound acBuf s) (hclose : s.server = .close i) :
    (s.clients i).stream.length ≤ acBuf.length := by
  have hconn := h.serves i (.inr hclose)
  have hflow := h.flow i
  have ha := h.account i
  simp only [Account, hconn, hclose] at ha
  obtain ⟨hwrite, -⟩ | ⟨-, hsent⟩ := ha
  · cases hwrite
  · unfold Flow at hflow
    cases hpc : (s.clients i).pc <;> simp only [hpc, hconn, hsent] at hflow
    case connect => cases hflow.1
    case newline => cases hflow.1
    case exited => simp at hflow
    all_goals
      have hlen := congrArg List.length hflow.2
      simp only [List.length_append] at hlen
      omega

/-- The server is not at `accept`: it moves. -/
theorem moves_serving (hmsg : acBuf ≠ []) (h : Live acBuf s₀ s)
    (hs : s.server = .write i ∨ s.server = .close i) :
    ∃ a t, (service n acBuf).next s a = some t ∧ Live acBuf s₀ t ∧
      t.rank acBuf.length < s.rank acBuf.length := by
  have hconn := h.sound.serves i hs
  have hflow := h.sound.flow i
  have hpc : (s.clients i).pc = .read ∨ (s.clients i).pc = .printf := by
    unfold Flow at hflow
    cases hpc : (s.clients i).pc <;> simp_all
  have hfail : (s.clients i).pc ≠ .exited EXIT_FAILURE := by
    intro he
    simp [he] at hpc
  rcases hs with hs | hs
  · have hn : (service n acBuf).next s (.write acBuf.length) = some (s.set (.close i) s.queue i
        { s.clients i with stream := (s.clients i).stream ++ acBuf, sent := acBuf }) := by
      have hrange : ¬ ((acBuf.length : Int) < -1 ∨ (acBuf.length : Int) < acBuf.length) := by omega
      simp only [service, next, hs, hrange, if_false, ne_eq, not_true_eq_false, Int.toNat_natCast,
        List.take_length]
    refine live_set (t := s) hmsg h hn (fun j => nofun) rfl hfail ?_
    rcases hpc with hpc | hpc <;> simp [hs, ServerPc.rank, Client.rank, hpc, hconn]
  · have hn : (service n acBuf).next s .close = some (s.set (.accept 0) s.queue i
        { s.clients i with conn := .closed }) := by
      simp only [service, next, hs]
    have hle := h.sound.stream_le hs
    refine live_set (t := s) hmsg h hn (fun j => nofun) rfl hfail ?_
    rcases hpc with hpc | hpc <;> simp only [hs, ServerPc.rank, Client.rank, hpc, hconn] <;> omega

/-- The server is at `accept`, which returns the next connection. -/
theorem moves_accepting (hmsg : acBuf ≠ []) (h : Live acBuf s₀ s) {s32i : Nat}
    (hs : s.server = .accept s32i) (hq : s.queue = i :: queue) :
    ∃ a t, (service n acBuf).next s a = some t ∧ Live acBuf s₀ t ∧
      t.rank acBuf.length < s.rank acBuf.length := by
  have hconn : (s.clients i).conn = .queued := (h.sound.queued i).mp (by simp [hq])
  have hflow := h.sound.flow i
  have ha := h.sound.account i
  simp only [Account, hconn] at ha
  have hpc : (s.clients i).pc = .read := by
    unfold Flow at hflow
    cases hpc : (s.clients i).pc <;> simp_all
  have hn : (service n acBuf).next s .accept = some (s.set (.write i) queue i
      { s.clients i with conn := .accepted }) := by
    simp only [service, next, hs, hq]
  refine live_set (t := s) hmsg h hn (fun j => nofun) rfl (by simp [hpc]) ?_
  simp only [hs, ServerPc.rank, Client.rank, hpc, hconn]
  omega

/-- Nobody waits for the server: a client that is not through moves. -/
theorem moves_client (hmsg : acBuf ≠ []) (h : Live acBuf s₀ s) {s32i : Nat}
    (hs : s.server = .accept s32i) (hq : s.queue = [])
    (hi : ∀ status, (s.clients i).pc ≠ .exited status) :
    ∃ a t, (service n acBuf).next s a = some t ∧ Live acBuf s₀ t ∧
      t.rank acBuf.length < s.rank acBuf.length := by
  have hlisten := h.listens
  have hreads : ReadsWork s (.client i) s := fun j => nofun
  -- the connection of a client that has one is closed
  have hclosed : (s.clients i).conn ≠ .absent → (s.clients i).conn = .closed := by
    intro habsent
    have ha := h.sound.account i
    have hqueued := h.sound.queued i
    unfold Account at ha
    cases hconn : (s.clients i).conn <;> simp_all
  have hflow := h.sound.flow i
  cases hpc : (s.clients i).pc <;> simp only [Flow, hpc] at hflow
  case connect =>
      have hn : (service n acBuf).next s (.client i) = some (s.set s.server (s.queue ++ [i]) i
          { s.clients i with pc := .read, conn := .queued }) := by
        simp only [service, next, clientStep, hpc, hlisten, if_true]
      exact live_set hmsg h hn hreads hlisten (by simp) (by simp [Client.rank, hpc])
  case read =>
      have hconn := hclosed hflow.1
      cases hstream : (s.clients i).stream with
      | cons cbuf stream =>
          have hn : (service n acBuf).next s (.client i) = some (s.set s.server s.queue i
              { s.clients i with pc := .printf, cbuf, stream }) := by
            simp only [service, next, clientStep, hpc, hstream]
          refine live_set hmsg h hn hreads hlisten (by simp) ?_
          simp only [Client.rank, hpc, hconn, hstream, List.length_cons]
          omega
      | nil =>
          have hn : (service n acBuf).next s (.client i) = some (s.set s.server s.queue i
              { s.clients i with pc := .newline }) := by
            simp only [service, next, clientStep, hpc, hstream, hconn, if_true]
          exact live_set hmsg h hn hreads hlisten (by simp) (by simp [Client.rank, hpc, hconn])
  case printf =>
      have hconn := hclosed hflow.1
      have hn : (service n acBuf).next s (.client i) = some (s.set s.server s.queue i
          { s.clients i with
            pc := .read
            stdout := (s.clients i).stdout ++ [(s.clients i).cbuf] }) := by
        simp only [service, next, clientStep, hpc]
      exact live_set hmsg h hn hreads hlisten (by simp) (by simp [Client.rank, hpc, hconn])
  case newline =>
      have hn : (service n acBuf).next s (.client i) = some (s.set s.server s.queue i
          { s.clients i with
            pc := .exited EXIT_SUCCESS
            stdout := (s.clients i).stdout ++ [10] }) := by
        simp only [service, next, clientStep, hpc]
      exact live_set hmsg h hn hreads hlisten (by simp [EXIT_SUCCESS, EXIT_FAILURE])
        (by simp [Client.rank, hpc])
  case exited status => exact absurd hpc (hi status)

theorem service_descends (hmsg : acBuf ≠ []) (s₀ : State n) :
    (service n acBuf).Descends (Live acBuf s₀)
      (fun s => ∀ i, ∃ status, (s.clients i).pc = .exited status) (State.rank acBuf.length) := by
  intro s h hnot
  obtain ⟨i, hi⟩ := not_forall.mp hnot
  have hlisten := h.listens
  cases hs : s.server with
  | accept s32i =>
      cases hq : s.queue with
      | cons j queue => exact moves_accepting hmsg h hs hq
      | nil => exact moves_client hmsg h hs hq (not_exists.mp hi)
  | write j => exact moves_serving hmsg h (.inl hs)
  | close j => exact moves_serving hmsg h (.inr hs)
  | retryOver | errorRead j =>
      rw [hs] at hlisten
      cases hlisten

/-! ## What the clients print -/

theorem Sound.stdout_part (h : Sound acBuf s)
    (hi : ∀ status, (s.clients i).pc ≠ .exited status) : (s.clients i).stdout <+: acBuf := by
  have hsent : (s.clients i).sent <+: acBuf := by
    have ha := h.account i
    unfold Account at ha
    cases hconn : (s.clients i).conn <;> simp only [hconn] at ha
    case absent | queued => simp [ha]
    case accepted =>
        obtain ⟨-, hsent⟩ | ⟨-, hsent⟩ := ha <;> simp [hsent]
    case closed =>
        obtain hsent | ⟨-, k, -, hsent⟩ := ha
        · simp [hsent]
        · rw [hsent]
          exact List.take_prefix k acBuf
  have hflow := h.flow i
  unfold Flow at hflow
  cases hpc : (s.clients i).pc <;> simp only [hpc] at hflow
  case connect => simp [hflow.2.1]
  case read => exact (hflow.2 ▸ List.prefix_append _ _ : _ <+: _).trans hsent
  case printf =>
      rw [List.append_assoc] at hflow
      exact (hflow.2 ▸ List.prefix_append _ _ : _ <+: _).trans hsent
  case newline => exact hflow.2 ▸ hsent
  case exited status => exact absurd hpc (hi status)

theorem Sound.stdout_exited (h : Sound acBuf s) (hi : (s.clients i).pc = .exited EXIT_SUCCESS) :
    (s.clients i).stdout = acBuf ++ [10] ∨ (s.server = .errorRead i ∧
      ∃ k < acBuf.length, (s.clients i).stdout = acBuf.take k ++ [10]) := by
  have hflow := h.flow i
  simp only [Flow, hi] at hflow
  obtain ⟨hstatus, -⟩ | ⟨-, hconn, hout⟩ := hflow
  · cases hstatus
  · have ha := h.account i
    simp only [Account, hconn] at ha
    rw [hout]
    obtain hsent | ⟨hserver, k, hk, hsent⟩ := ha
    · exact .inl (by rw [hsent])
    · exact .inr ⟨hserver, k, hk, by rw [hsent]⟩

end Cse522.Studio14.AfInet.Server

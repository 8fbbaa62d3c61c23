import Mathlib.Data.Int.Basic
import Cse522.Clib.Stdlib
import Cse522.Interleave.Machine

/-!
# Messages over a stream socket

`sendMsg` offers a message to a socket that does not block, and takes any number of accepted
bytes for success. `recvMsg` asks for a whole message. The two agree on where a message starts
only through the number of bytes, so a block that is received is the message in its place
exactly if that message was accepted whole and as many bytes have gone before it on both sides.
-/
namespace Cse522.Studio14.NetworkUtil

open Cse522.Clib.Stdlib Cse522.Interleave

/-- `sendMsg`, whose `send` returns `ret`. The errors are what `error` exits with. -/
def sendMsg (ret : Int) : Except Int Int :=
  let n := toInt ret
  if n < 0 then .error 1 else .ok 0

/-- `recvMsg`, whose `recv` returns `ret`. -/
def recvMsg (ret : Int) : Except Int Int :=
  let s32rcvsize := toInt ret
  if s32rcvsize < 0 then .error 1 else .ok s32rcvsize

/-- The connection. The ends keep no record of what they have sent and received. -/
structure State where
  /-- what `send` has taken of each message -/
  sent : List (List UInt8)
  /-- the bytes on their way -/
  stream : List UInt8
  /-- what `recv` has put into each message -/
  received : List (List UInt8)
  /-- the sender, or the receiver, has exited -/
  senderExit : Bool
  receiverExit : Bool
  deriving DecidableEq, Repr

inductive Act where
  /-- the next message is sent, and `send` returns `ret` -/
  | sendMsg (ret : Int)
  /-- a message is received, and `recv` returns `ret` -/
  | recvMsg (ret : Int)
  deriving DecidableEq, Repr

def init : State := ⟨[], [], [], false, false⟩

/-- The result fails, and the process exits. -/
def exits : Except Int Int → Bool
  | .ok _ => false
  | .error _ => true

/-- `send` may take any part of the message, and `recv` may return with less than a message. -/
def next (s32size : Nat) (msgs : Nat → List UInt8) (s : State) : Act → Option State
  | .sendMsg ret =>
      if s.senderExit = false ∧ -1 ≤ ret ∧ ret ≤ s32size then
        let data := (msgs s.sent.length).take ret.toNat
        some { s with
          sent := s.sent ++ [data]
          stream := s.stream ++ data
          senderExit := exits (sendMsg ret) }
      else none
  | .recvMsg ret =>
      if s.receiverExit = false ∧ -1 ≤ ret ∧ ret ≤ s32size ∧ ret ≤ s.stream.length then
        some { s with
          stream := s.stream.drop ret.toNat
          received := s.received ++ [s.stream.take ret.toNat]
          receiverExit := exits (recvMsg ret) }
      else none

/-- A sender of the messages `msgs`, which are of one size, and a receiver. -/
def connection (s32size : Nat) (msgs : Nat → List UInt8) : Machine State Act := ⟨next s32size msgs⟩

/-- A `recvMsg` that returns the full size delivers the message that was sent in its place. -/
def Delivers (s32size : Nat) (msgs : Nat → List UInt8) (s : State) (a : Act) (t : State) : Prop :=
  ∀ ret, a = .recvMsg ret → recvMsg ret = .ok s32size →
    s.received.length < s.sent.length ∧
      t.received[s.received.length]? = some (msgs s.received.length)

/-- When a `recvMsg` returns the full size, the message in its place has been accepted whole, and
of the messages before it as many bytes as have been received before. -/
def InStep (s32size : Nat) (s : State) (a : Act) : Prop :=
  ∀ ret, a = .recvMsg ret → recvMsg ret = .ok s32size →
    ∃ data, s.sent[s.received.length]? = some data ∧ data.length = s32size ∧
      s.received.flatten.length = (s.sent.take s.received.length).flatten.length

variable {s32size : Nat} {msgs : Nat → List UInt8} {s t : State} {a : Act}

/-- The stream is what was sent and is not received, and what was sent of a message is a part
of it. -/
structure Carried (msgs : Nat → List UInt8) (s : State) : Prop where
  stream : s.received.flatten ++ s.stream = s.sent.flatten
  parts : ∀ i data, s.sent[i]? = some data → data = (msgs i).take data.length

theorem full_of_recvMsg {ret : Int} (h : recvMsg ret = .ok s32size) (hlo : -1 ≤ ret)
    (hle : ret ≤ s32size) : ret = s32size := by
  simp only [recvMsg] at h
  split at h
  · cases h
  · have hint : toInt ret = s32size := Except.ok.inj h
    unfold toInt at hint
    omega

theorem carried_init : Carried msgs init := ⟨rfl, fun i data h => by simp [init] at h⟩

theorem carried_step (h : Carried msgs s) (hn : (connection s32size msgs).next s a = some t) :
    Carried msgs t := by
  cases a with
  | sendMsg ret =>
      obtain ⟨-, hn⟩ := Option.ite_none_right_eq_some.mp hn
      obtain rfl := Option.some.inj hn
      refine ⟨?_, fun i data hi => ?_⟩
      · simp only [List.flatten_append, List.flatten_singleton]
        rw [← List.append_assoc, h.stream]
      · rcases Nat.lt_trichotomy i s.sent.length with hlt | rfl | hlt
        · rw [List.getElem?_append_left hlt] at hi
          exact h.parts i data hi
        · rw [List.getElem?_concat_length] at hi
          obtain rfl := Option.some.inj hi
          rw [List.take_eq_take_iff]
          simp
        · rw [List.getElem?_eq_none (by simp; omega)] at hi
          cases hi
  | recvMsg ret =>
      obtain ⟨-, hn⟩ := Option.ite_none_right_eq_some.mp hn
      obtain rfl := Option.some.inj hn
      refine ⟨?_, h.parts⟩
      simp only [List.flatten_append, List.flatten_singleton, List.append_assoc,
        List.take_append_drop]
      exact h.stream

/-- The messages up to one, it, and those behind it. -/
theorem flatten_split {sent : List (List UInt8)} {i : Nat} {data : List UInt8}
    (h : sent[i]? = some data) :
    sent.flatten = (sent.take i).flatten ++ data ++ (sent.drop (i + 1)).flatten := by
  obtain ⟨hi, rfl⟩ := List.getElem?_eq_some_iff.mp h
  have hcut : sent = sent.take i ++ sent[i] :: sent.drop (i + 1) := by
    rw [← List.drop_eq_getElem_cons hi, List.take_append_drop]
  have hflat := congrArg List.flatten hcut
  rw [List.flatten_append, List.flatten_cons, ← List.append_assoc] at hflat
  exact hflat

/-- In step, the block is the message. -/
theorem delivers_of_inStep (hlen : ∀ i, (msgs i).length = s32size) (h : Carried msgs s)
    (hn : (connection s32size msgs).next s a = some t) (hin : InStep s32size s a) :
    Delivers s32size msgs s a t := by
  rintro ret rfl hfull
  obtain ⟨data, hdata, hwhole, hbefore⟩ := hin ret rfl hfull
  obtain ⟨⟨-, hlo, hle, -⟩, hn⟩ := Option.ite_none_right_eq_some.mp hn
  obtain rfl := full_of_recvMsg hfull hlo hle
  obtain rfl := Option.some.inj hn
  have hmsg : data = msgs s.received.length := by
    rw [h.parts _ _ hdata, hwhole, ← hlen s.received.length, List.take_length]
  have hstream := h.stream
  rw [flatten_split hdata, List.append_assoc] at hstream
  obtain ⟨-, hrest⟩ := List.append_inj hstream hbefore
  refine ⟨(List.getElem?_eq_some_iff.mp hdata).1, ?_⟩
  rw [List.getElem?_concat_length, Int.toNat_natCast, hrest, ← hwhole, List.take_left', hmsg]
  rfl

/-! ## Out of step -/

/-- The message `i` is all ones, the others are all zeros. -/
def mark (s32size i : Nat) (j : Nat) : List UInt8 := List.replicate s32size (if j = i then 1 else 0)

theorem length_mark (s32size i j : Nat) : (mark s32size i j).length = s32size :=
  List.length_replicate

/-- What was sent of another message has no ones. -/
theorem zero_of_mark {i j : Nat} {part : List UInt8} (h : Carried (mark s32size i) s)
    (hpart : s.sent[j]? = some part) (hne : j ≠ i) : ∀ c ∈ part, c = 0 := by
  intro c hc
  rw [h.parts j part hpart, mark, if_neg hne] at hc
  exact List.eq_of_mem_replicate (List.mem_of_mem_take hc)

/-- Ones are found in what was sent of the marked message only. -/
theorem mark_position {i x : Nat} {data : List UInt8} (h : Carried (mark s32size i) s)
    (hdata : s.sent[i]? = some data) (hx : s.sent.flatten[x]? = some 1) :
    (s.sent.take i).flatten.length ≤ x ∧ x < (s.sent.take i).flatten.length + data.length := by
  have hbefore : ∀ c ∈ (s.sent.take i).flatten, c = 0 := by
    intro c hc
    obtain ⟨part, hpart, hc⟩ := List.mem_flatten.mp hc
    obtain ⟨j, hj⟩ := List.mem_iff_getElem?.mp hpart
    obtain ⟨hlt, hj⟩ := Option.ite_none_right_eq_some.mp (List.getElem?_take.symm.trans hj)
    exact zero_of_mark h hj (by omega) c hc
  have hbehind : ∀ c ∈ (s.sent.drop (i + 1)).flatten, c = 0 := by
    intro c hc
    obtain ⟨part, hpart, hc⟩ := List.mem_flatten.mp hc
    obtain ⟨j, hj⟩ := List.mem_iff_getElem?.mp hpart
    exact zero_of_mark h (List.getElem?_drop.symm.trans hj) (by omega) c hc
  rw [flatten_split hdata] at hx
  constructor
  · by_contra hlt
    rw [List.append_assoc, List.getElem?_append_left (by omega)] at hx
    exact absurd (hbefore 1 (List.mem_of_getElem? hx)) (by decide)
  · by_contra hge
    rw [List.getElem?_append_right (by rw [List.length_append]; omega)] at hx
    exact absurd (hbehind 1 (List.mem_of_getElem? hx)) (by decide)

/-- If a block of the full size is the marked message, it has come in step. -/
theorem inStep_of_delivers (h : Carried (mark s32size s.received.length) s)
    (hn : (connection s32size (mark s32size s.received.length)).next s a = some t)
    (hdel : Delivers s32size (mark s32size s.received.length) s a t) : InStep s32size s a := by
  rintro ret rfl hfull
  obtain ⟨hlt, hblock⟩ := hdel ret rfl hfull
  obtain ⟨⟨-, hlo, hle, havail⟩, hn⟩ := Option.ite_none_right_eq_some.mp hn
  obtain rfl := full_of_recvMsg hfull hlo hle
  obtain rfl := Option.some.inj hn
  obtain ⟨data, hdata⟩ : ∃ data, s.sent[s.received.length]? = some data :=
    ⟨_, List.getElem?_eq_getElem hlt⟩
  have hdatalen : data.length ≤ s32size := by
    have hcut := congrArg List.length (h.parts _ data hdata)
    rw [List.length_take, length_mark] at hcut
    omega
  rw [List.getElem?_concat_length, Option.some.injEq, Int.toNat_natCast, mark, if_pos rfl] at hblock
  have hones : ∀ y < s32size, s.sent.flatten[s.received.flatten.length + y]? = some 1 := by
    intro y hy
    rw [← h.stream, List.getElem?_append_right (by omega), Nat.add_sub_cancel_left,
      ← List.getElem?_take_of_lt hy, hblock, List.getElem?_replicate_of_lt hy]
  refine ⟨data, hdata, ?_⟩
  rcases Nat.eq_zero_or_pos s32size with hzero | hpos
  · subst hzero
    have hnothing : s.sent.flatten = [] := by
      rw [List.flatten_eq_nil_iff]
      intro part hpart
      obtain ⟨j, hj⟩ := List.mem_iff_getElem?.mp hpart
      rw [h.parts j part hj, mark, List.replicate_zero, List.take_nil]
    have hreceived : s.received.flatten = [] := (List.append_eq_nil_iff.mp
      (h.stream.trans hnothing)).1
    rw [flatten_split hdata, List.append_assoc] at hnothing
    rw [hreceived, (List.append_eq_nil_iff.mp hnothing).1]
    exact ⟨Nat.le_zero.mp hdatalen, rfl⟩
  · have hfirst := mark_position h hdata (hones 0 hpos)
    have hlast := mark_position h hdata (hones (s32size - 1) (by omega))
    omega

/-! ## Other contents -/

/-- Two connections that differ in the contents of the messages only. -/
structure SameShape (s s' : State) : Prop where
  sent : s.sent.map List.length = s'.sent.map List.length
  stream : s.stream.length = s'.stream.length
  received : s.received.map List.length = s'.received.map List.length
  senderExit : s.senderExit = s'.senderExit
  receiverExit : s.receiverExit = s'.receiverExit

theorem SameShape.next {msgs' : Nat → List UInt8} {s' : State} (h : SameShape s s')
    (hlen : ∀ i, (msgs i).length = (msgs' i).length)
    (hn : (connection s32size msgs).next s a = some t) :
    ∃ t', (connection s32size msgs').next s' a = some t' ∧ SameShape t t' := by
  have hsent : s.sent.length = s'.sent.length := by simpa using congrArg List.length h.sent
  cases a with
  | sendMsg ret =>
      obtain ⟨⟨hexit, hret⟩, hn⟩ := Option.ite_none_right_eq_some.mp hn
      obtain rfl := Option.some.inj hn
      refine ⟨_, if_pos ⟨h.senderExit ▸ hexit, hret⟩, ?_, ?_, h.received, rfl, h.receiverExit⟩
      · simp [h.sent, hlen, hsent]
      · simp [h.stream, hlen, hsent]
  | recvMsg ret =>
      obtain ⟨⟨hexit, hlo, hle, havail⟩, hn⟩ := Option.ite_none_right_eq_some.mp hn
      obtain rfl := Option.some.inj hn
      refine ⟨_, if_pos ⟨h.receiverExit ▸ hexit, hlo, hle, h.stream ▸ havail⟩, h.sent, ?_, ?_,
        h.senderExit, rfl⟩
      · simp [h.stream]
      · simp [h.stream, h.received]

/-- Whether a step is in step does not depend on the contents. -/
theorem SameShape.inStep {s' : State} (h : SameShape s s') (hin : InStep s32size s' a) :
    InStep s32size s a := by
  intro ret ha hfull
  obtain ⟨data', hdata', hwhole, hbefore⟩ := hin ret ha hfull
  have hreceived : s.received.length = s'.received.length := by
    simpa using congrArg List.length h.received
  have hat : (s.sent.map List.length)[s.received.length]? = some s32size := by
    rw [h.sent, hreceived, List.getElem?_map, hdata', Option.map_some, hwhole]
  rw [List.getElem?_map] at hat
  obtain ⟨data, hdata, hlen⟩ := Option.map_eq_some_iff.mp hat
  refine ⟨data, hdata, hlen, ?_⟩
  rw [List.length_flatten, List.length_flatten, List.map_take, h.sent, h.received, hreceived,
    ← List.map_take, ← List.length_flatten, ← List.length_flatten, hbefore]

/-- A run in which the blocks are the messages whatever is in them is in step. -/
theorem along_inStep {as : List Act} (hlen : ∀ i, (msgs i).length = s32size)
    (h : ∀ i, ∃ s', SameShape s s' ∧ Carried (mark s32size i) s' ∧
      (connection s32size (mark s32size i)).Along (Delivers s32size (mark s32size i)) s' as) :
    (connection s32size msgs).Along (fun s a _ => InStep s32size s a) s as := by
  induction as generalizing s with
  | nil => trivial
  | cons a as ih =>
      intro t hn
      have hlen' : ∀ i j, (msgs j).length = (mark s32size i j).length := fun i j =>
        (hlen j).trans (length_mark s32size i j).symm
      constructor
      · obtain ⟨s', hshape, hcarried, halong⟩ := h s.received.length
        have hreceived : s.received.length = s'.received.length := by
          simpa using congrArg List.length hshape.received
        rw [hreceived] at hcarried halong
        obtain ⟨t', hn', -⟩ := hshape.next (hlen' _) hn
        exact hshape.inStep (inStep_of_delivers hcarried hn' (halong t' hn').1)
      · apply ih
        intro i
        obtain ⟨s', hshape, hcarried, halong⟩ := h i
        obtain ⟨t', hn', hshape'⟩ := hshape.next (hlen' i) hn
        exact ⟨t', hshape', carried_step hcarried hn', (halong t' hn').2⟩

theorem along_delivers {as : List Act} (hlen : ∀ i, (msgs i).length = s32size)
    (h : Carried msgs s)
    (hin : (connection s32size msgs).Along (fun s a _ => InStep s32size s a) s as) :
    (connection s32size msgs).Along (Delivers s32size msgs) s as := by
  induction as generalizing s with
  | nil => trivial
  | cons a as ih =>
      intro t hn
      obtain ⟨hstep, hrest⟩ := hin t hn
      exact ⟨delivers_of_inStep hlen h hn hstep, ih (carried_step h hn) hrest⟩

/-- Whatever the messages are, the blocks of the full size are the messages in their places,
exactly along the schedules that stay in step. -/
theorem framed_iff_inStep (s32size : Nat) (as : List Act) :
    (∀ msgs : Nat → List UInt8, (∀ i, (msgs i).length = s32size) →
        (connection s32size msgs).Along (Delivers s32size msgs) init as) ↔
      ∀ msgs : Nat → List UInt8, (∀ i, (msgs i).length = s32size) →
        (connection s32size msgs).Along (fun s a _ => InStep s32size s a) init as := by
  constructor
  · intro h msgs hlen
    apply along_inStep hlen
    intro i
    exact ⟨init, ⟨rfl, rfl, rfl, rfl, rfl⟩, carried_init, h _ (length_mark s32size i)⟩
  · intro h msgs hlen
    exact along_delivers hlen carried_init (h msgs hlen)

/-- Three bytes of two messages of two bytes, and a block of two. -/
def shortSend : List Act := [.sendMsg 1, .sendMsg 2, .recvMsg 2]

/-- The block is the first byte of the one message and the first byte of the other. -/
theorem shortSend_merges :
    ¬ ∀ (s32size : Nat) (msgs : Nat → List UInt8) (as : List Act),
      (∀ i, (msgs i).length = s32size) →
      (∀ ret, .sendMsg ret ∈ as → sendMsg ret = .ok 0) →
      (connection s32size msgs).Along (Delivers s32size msgs) init as := by
  intro h
  have hlen : ∀ i : Nat, (if i = 0 then [1, 2] else [3, 4] : List UInt8).length = 2 := by
    intro i
    split <;> rfl
  have hsent : ∀ ret, .sendMsg ret ∈ shortSend → sendMsg ret = .ok 0 := by
    intro ret hret
    simp only [shortSend, List.mem_cons, Act.sendMsg.injEq, reduceCtorEq, List.not_mem_nil,
      or_false] at hret
    rcases hret with rfl | rfl <;> rfl
  have hblock := (((h 2 _ shortSend hlen hsent _ rfl).2 _ rfl).2 _ rfl).1 2 rfl rfl
  revert hblock
  decide

end Cse522.Studio14.NetworkUtil

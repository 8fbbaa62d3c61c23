import Cse522.Studio14.AfLocalBuffer

/-!
# What one connection sees of the others

The server writes no NUL behind the bytes it has read. A connection is printed, and
compared with `"quit"`, by its own bytes alone exactly when they contain a NUL or the cell
right behind them happens to hold one.
-/
namespace Cse522.Studio14.AfLocal

open Cse522.Clib.Cstring Cse522.Interleave

variable {s t : State} {a : Act}

/-- The step prints the bytes of its connection up to the first NUL, and stops if and only
if they start with `quit`. -/
structure Isolated (s : State) (_ : Act) (t : State) : Prop where
  defined : t.pc ≠ .undefined
  printed : s.pc = .print → t.stdout = s.stdout ++ [upToNul s.received]
  decided : s.pc = .compare → (t.pc = .finished ↔ quit <+: upToNul s.received)

/-- The buffer holds a NUL among the bytes of the connection or right behind them. -/
def NulInReach (s : State) : Prop := 0 ∈ s.received ∨ s.pcBuf[s.received.length]? = some 0

/-- The connection stays below 2^31 - 1024 bytes, and is printed with a NUL in reach. -/
structure Terminated (s : State) (_ : Act) (t : State) : Prop where
  short : t.received.length < 2147482624
  nul : s.pc = .print → NulInReach s

instance (s : State) : Decidable (NulInReach s) := inferInstanceAs (Decidable (_ ∨ _))

instance (s : State) (a : Act) (t : State) : Decidable (Isolated s a t) :=
  decidable_of_iff (t.pc ≠ .undefined ∧
    (s.pc = .print → t.stdout = s.stdout ++ [upToNul s.received]) ∧
    (s.pc = .compare → (t.pc = .finished ↔ quit <+: upToNul s.received)))
    ⟨fun h => ⟨h.1, h.2.1, h.2.2⟩, fun h => ⟨h.defined, h.printed, h.decided⟩⟩

/-! ## The string in the buffer -/

/-- With a NUL in reach, the buffer holds the bytes up to the first NUL and then a NUL. -/
theorem Buffer.terminated (h : Buffer s) (hn : NulInReach s) :
    ∃ rest, s.pcBuf = upToNul s.received ++ 0 :: rest := by
  obtain ⟨rest, hrest⟩ := h.contents
  by_cases hmem : 0 ∈ s.received
  · obtain ⟨rest', hrest'⟩ := exists_of_mem hmem
    refine ⟨rest' ++ rest, ?_⟩
    conv_lhs => rw [← hrest, hrest']
    simp
  · have hcell := hn.resolve_left hmem
    rw [← hrest, List.getElem?_append_right (Nat.le_refl _), Nat.sub_self] at hcell
    cases rest with
    | nil => simp at hcell
    | cons c rest =>
        obtain rfl : c = 0 := by simpa using hcell
        exact ⟨rest, by rw [← hrest, upToNul_of_notMem hmem]⟩

/-- The string in the buffer is the one of the connection only with a NUL in reach. -/
theorem Buffer.cString_eq_iff (h : Buffer s) :
    cString s.pcBuf = some (upToNul s.received) ↔ NulInReach s := by
  constructor
  · intro hstr
    by_cases hmem : 0 ∈ s.received
    · exact .inl hmem
    · have hbuf : 0 ∈ s.pcBuf := by
        by_contra hno
        simp [cString, hno] at hstr
      obtain ⟨rest, hrest⟩ := exists_of_mem hbuf
      rw [cString, if_pos hbuf, Option.some.injEq, upToNul_of_notMem hmem] at hstr
      rw [hstr] at hrest
      exact .inr (by rw [hrest]; simp)
  · intro hn
    obtain ⟨rest, hrest⟩ := h.terminated hn
    rw [hrest]
    exact cString_append_nul notMem_upToNul

/-- With a NUL in reach the comparison sees the bytes of the connection only. -/
theorem Buffer.compare (h : Buffer s) (hn : NulInReach s) :
    ∃ r, strncmp (quit ++ [0]) s.pcBuf 4 = some r ∧ (r = 0 ↔ quit <+: upToNul s.received) := by
  have hquit : 0 ∉ quit := by decide
  have hlen : quit.length ≤ s.pcBuf.length := by
    have h4 : quit.length = 4 := rfl
    have hle := h.length_eq
    have hroom := h.room
    obtain ⟨k, hk⟩ := h.blocks
    omega
  obtain ⟨r, hr, hiff⟩ := strncmp_literal hquit hlen
  obtain ⟨rest, hrest⟩ := h.terminated hn
  refine ⟨r, hr, hiff.trans ?_⟩
  rw [hrest]
  exact prefix_iff_of_notMem hquit

/-! ## Along a run -/

/-- What the steps that meet `Terminated` keep. -/
def Sound (s : State) : Prop :=
  Broken s ∨ (Buffer s ∧ (s.pc = .compare → NulInReach s))

/-- A step that neither prints nor compares, and keeps the connection short. -/
theorem isolated_iff_of_quiet (hp : s.pc ≠ .print) (hc : s.pc ≠ .compare)
    (hd : t.pc ≠ .undefined) (hs : t.received.length < 2147482624) :
    Isolated s a t ↔ Terminated s a t :=
  ⟨fun _ => ⟨hs, fun h => absurd h hp⟩,
    fun _ => ⟨hd, fun h => absurd h hp, fun h => absurd h hc⟩⟩

theorem isolated_iff_terminated (hs : Sound s) (hn : server.next s a = some t) :
    Isolated s a t ↔ Terminated s a t := by
  obtain ⟨hb, hcmp⟩ := hs.resolve_left fun hb => broken_stuck hb hn
  cases step_of_next hn with
  | accept hpc hw =>
      exact isolated_iff_of_quiet (by simp [hpc]) (by simp [hpc]) (by simp) (by simp)
  | retry hpc | giveUp hpc =>
      exact isolated_iff_of_quiet (by simp [hpc]) (by simp [hpc]) (by simp) hb.short
  | arrive hpc | close hpc | eof hpc | readFails hpc =>
      exact isolated_iff_of_quiet (by simp [hpc]) (by simp [hpc]) (by simp [hpc]) hb.short
  | byte hpc ha =>
      cases (byte_cases hb hpc _ _ _ rfl).2 with
      | kept hpc' hb' =>
          exact isolated_iff_of_quiet (by simp [hpc]) (by simp [hpc]) (by simp [hpc']) hb'.short
      | failed hf hs =>
          exact isolated_iff_of_quiet (by simp [hpc]) (by simp [hpc]) (by simp [hf]) hs
      | overflowed ho hs =>
          -- neither side holds
          exact ⟨fun h => absurd ho h.defined, fun h => absurd h.short (Nat.not_lt.mpr hs)⟩
  | print hpc hstr =>
      constructor
      · intro h
        refine ⟨hb.short, fun _ => hb.cString_eq_iff.mp ?_⟩
        have heq := h.printed hpc
        rw [List.append_cancel_left_eq, List.singleton_inj] at heq
        rw [hstr, heq]
      · intro h
        have heq := hb.cString_eq_iff.mpr (h.nul hpc)
        obtain rfl := Option.some.inj (hstr.symm.trans heq)
        exact ⟨by simp, fun _ => rfl, fun hc => by simp [hpc] at hc⟩
  | printWild hpc hstr =>
      constructor
      · intro h
        exact absurd rfl h.defined
      · intro h
        have heq := hb.cString_eq_iff.mpr (h.nul hpc)
        rw [hstr] at heq
        cases heq
  | compare hpc hr =>
      obtain ⟨r, hr', hiff⟩ := hb.compare (hcmp hpc)
      obtain rfl := Option.some.inj (hr.symm.trans hr')
      constructor
      · intro h
        exact ⟨hb.short, fun hp => by simp [hpc] at hp⟩
      · intro h
        refine ⟨?_, fun hp => by simp [hpc] at hp, fun _ => ?_⟩
        · simp only
          split <;> simp
        · rw [← hiff]
          simp
  | compareWild hpc hr =>
      obtain ⟨r, hr', -⟩ := hb.compare (hcmp hpc)
      rw [hr] at hr'
      cases hr'

theorem sound_step (hs : Sound s) (hn : server.next s a = some t) (ht : Terminated s a t) :
    Sound t := by
  obtain ⟨hb, hcmp⟩ := hs.resolve_left fun hb => broken_stuck hb hn
  rcases buffer_step hb hn with hb' | hbroken
  · refine .inr ⟨hb', fun hpc' => ?_⟩
    -- the comparison follows the output, which found a NUL in reach
    cases step_of_next hn with
    | print hpc => exact ht.nul hpc
    | byte hpc ha =>
        cases (byte_cases hb hpc _ _ _ rfl).2 with
        | kept hk | failed hk | overflowed hk => rw [hk] at hpc'; cases hpc'
    | arrive hpc | close hpc => simp [hpc] at hpc'
    | compare hpc =>
        simp only at hpc'
        split at hpc' <;> cases hpc'
    | _ => cases hpc'
  · exact .inl hbroken

/-- On every sequence of connections, whatever the memory and the system calls do, each
string printed and each decision to stop is the one of the connection's own bytes if and
only if each connection has a NUL in reach when it is printed, and is not too long. -/
theorem isolated_along_iff_terminated (streams : List (List UInt8)) (mem : Nat → UInt8)
    (as : List Act) :
    server.Along Isolated (init streams mem) as ↔
      server.Along Terminated (init streams mem) as :=
  Machine.along_congr isolated_iff_terminated sound_step
    (.inr ⟨buffer_init streams mem, fun h => by simp [init] at h⟩)

/-- The server's steps on one connection that delivers `n` bytes at once. -/
def served (n : Nat) : List Act :=
  .accept :: .arrive n :: .close :: (List.replicate (n + 1) (.read none) ++ [.print, .compare])

/-- After `hello` and its NUL, the two bytes `qu` are printed as `qullo`. -/
theorem afLocal_prints_old_bytes :
    ¬ ∀ (streams : List (List UInt8)) (mem : Nat → UInt8) (as : List Act),
      server.Along Isolated (init streams mem) as := by
  intro h
  have hrun := h [[104, 101, 108, 108, 111, 0], [113, 117]] (fun _ => 0) (served 6 ++ served 2)
  exact absurd hrun (by decide +kernel)

end Cse522.Studio14.AfLocal

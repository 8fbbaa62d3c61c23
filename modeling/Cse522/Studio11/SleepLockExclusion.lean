import Cse522.Studio11.SleepLock

/-!
# The futex lock is a mutual exclusion object

The value of the word alone does not name the owner: a late store of -1 can land on a
free lock and lock it for good. It never lets a second thread in, because the word
stays at most 0 from an acquiring decrement up to the owner's store of 1, and at most
1 otherwise. The lower bound counts the decrements whose store of -1 is pending.
-/
namespace Cse522.Studio11.SleepLock

open Cse522.Interleave Cse522.Clib.Word

variable {n : Nat}

/-- From the decrement that acquired the word to the store of 1, or to the increment
that returned 1. -/
def Owns (l : Thread) : Prop := l.pc = .critical ∨ l.pc = .storeOne

/-- Between the failed decrement and the store of -1. -/
def Pending (l : Thread) : Prop := l.pc = .storeNeg

instance : DecidablePred Owns := fun _ => inferInstanceAs (Decidable (_ ∨ _))
instance : DecidablePred Pending := fun _ => inferInstanceAs (Decidable (_ = _))

/-- The word, the owner and the pending stores. -/
structure Represents (s : State n) (o : Option (Fin n)) : Prop where
  owner : Owner Owns s.threads o
  free : o = none → s.gs32curlock.toInt ≤ 1
  held : o ≠ none → s.gs32curlock.toInt ≤ 0
  low : -(census Pending s.threads + 1 : Int) ≤ s.gs32curlock.toInt

/-- The ownership change a step shows. -/
def emit (s : State n) (a : Fin n × Act) (t : State n) : Option (MutexStep (Fin n)) :=
  ownershipStep Owns a.1 (s.threads a.1) (t.threads a.1)

@[simp] theorem not_owns_start (k : Nat) : ¬ Owns (.start k) := by
  simp [Owns]

@[simp] theorem not_pending_start (k : Nat) : ¬ Pending (.start k) := by
  simp [Pending]

theorem owns_wakeAll (f : Fin n → Thread) (j : Fin n) : Owns (wakeAll f j) ↔ Owns (f j) := by
  rcases wakeAll_pc f j with h | ⟨h, h'⟩
  · simp [Owns, h]
  · simp [Owns, h, h']

theorem pending_wakeAll (f : Fin n → Thread) (j : Fin n) :
    Pending (wakeAll f j) ↔ Pending (f j) := by
  rcases wakeAll_pc f j with h | ⟨h, h'⟩
  · simp [Pending, h]
  · simp [Pending, h, h']

theorem owner_wakeAll {f : Fin n → Thread} {o : Option (Fin n)} (h : Owner Owns f o) :
    Owner Owns (wakeAll f) o :=
  fun j => (owns_wakeAll f j).trans (h j)

theorem census_wakeAll (f : Fin n → Thread) :
    census Pending (wakeAll f) = census Pending f := by
  simp only [census, pending_wakeAll]

theorem represents_init (rounds : Fin n → Nat) : Represents (init rounds) none where
  owner := by
    intro i
    simp [init]
  free := by
    intro _
    change UNLOCKED.toInt ≤ 1
    decide
  held := fun h => absurd rfl h
  low := by
    have hz : census Pending (init rounds).threads = 0 :=
      census_eq_zero.mpr fun i => not_pending_start (rounds i)
    rw [hz]
    change -(((0 : Nat) : Int) + 1) ≤ UNLOCKED.toInt
    decide

/-- A thread that is not pending leaves room for one more pending decrement. -/
theorem pending_room {s : State n} {i : Fin n} (hi : ¬ Pending (s.threads i)) :
    census Pending s.threads + 1 ≤ n := by
  have hle := census_le_card (p := Pending) s.threads
  have hne : census Pending s.threads ≠ Fintype.card (Fin n) :=
    fun h => hi (census_eq_card.mp h i)
  rw [Fintype.card_fin] at hle hne
  omega

/-- With fewer than 2^31 threads no decrement wraps. -/
theorem toInt_sub_fetch (hn : n < 2147483648) {s : State n} {o : Option (Fin n)} {i : Fin n}
    (h : Represents s o) (hpc : (s.threads i).pc = .subFetch) :
    (s.gs32curlock - 1).toInt = s.gs32curlock.toInt - 1 := by
  have hroom := pending_room (s := s) (i := i) (by simp [Pending, hpc])
  have hlow := h.low
  rw [toInt_sub_one, if_neg (by omega)]

theorem Represents.word_le_one {s : State n} {o : Option (Fin n)} (h : Represents s o) :
    s.gs32curlock.toInt ≤ 1 := by
  by_cases ho : o = none
  · exact h.free ho
  · have := h.held ho
    omega

theorem Represents.toInt_add_fetch {s : State n} {o : Option (Fin n)} (h : Represents s o) :
    (s.gs32curlock + 1).toInt = s.gs32curlock.toInt + 1 := by
  have hle := h.word_le_one
  rw [toInt_add_one, if_neg (by omega)]

/-- A decrement that returns 0 or more found the word at 1, so the lock was free. -/
theorem Represents.acquire_free {s : State n} {o : Option (Fin n)} (h : Represents s o)
    (hret : ¬ s.gs32curlock - 1 < 0)
    (hsub : (s.gs32curlock - 1).toInt = s.gs32curlock.toInt - 1) :
    o = none ∧ s.gs32curlock.toInt = 1 := by
  rw [lt_zero_iff, hsub] at hret
  by_cases ho : o = none
  · exact ⟨ho, by have := h.free ho; omega⟩
  · have := h.held ho
    omega

/-- A step that changes no ownership keeps the representation. -/
theorem represents_silent (hn : n < 2147483648) {s t : State n} {o : Option (Fin n)} {i : Fin n}
    {a : Act} (h : Represents s o) (hs : Step s i a t) (he : emit s (i, a) t = none) :
    Represents t o := by
  have hlow := h.low
  have hfree := h.free
  have hheld := h.held
  cases hs with
  | acquire hpc hret => simp [emit, ownershipStep, Owns, hpc] at he
  | contend hpc hret =>
      have hsub := toInt_sub_fetch hn h hpc
      have hc := census_update_enter (p := Pending) (f := s.threads) (i := i)
        (x := (s.threads i).goto .storeNeg) (by simp [Pending, hpc]) (by simp [Pending])
      rw [lt_zero_iff] at hret
      refine ⟨h.owner.keep (by simp [Owns, hpc]), ?_, ?_, ?_⟩
      · intro _
        change (s.gs32curlock - 1).toInt ≤ 1
        omega
      · intro _
        change (s.gs32curlock - 1).toInt ≤ 0
        omega
      · rw [State.set_threads, State.set_word, hc, hsub]
        push_cast
        omega
  | storeNeg hpc =>
      refine ⟨h.owner.keep (by simp [Owns, hpc]), ?_, ?_, ?_⟩
      · intro _
        change (-1 : Int32).toInt ≤ 1
        decide
      · intro _
        change (-1 : Int32).toInt ≤ 0
        decide
      · rw [State.set_word, toInt_neg_one]
        omega
  | sleep hpc hw =>
      refine ⟨h.owner.keep (by simp [Owns, hpc]), hfree, hheld, ?_⟩
      rw [State.set_threads, census_update_same (by simp [Pending, hpc])]
      exact hlow
  | retry hpc hw =>
      refine ⟨h.owner.keep (by simp [Owns, hpc]), hfree, hheld, ?_⟩
      rw [State.set_threads, census_update_same (by simp [Pending, hpc])]
      exact hlow
  | release hpc hret => simp [emit, ownershipStep, Owns, hpc] at he
  | bump hpc hret =>
      have hadd := h.toInt_add_fetch
      have ho : o ≠ none := by
        rw [h.owner.eq_some (i := i) (.inl hpc)]
        simp
      rw [Ne, eq_one_iff] at hret
      refine ⟨h.owner.keep (by simp [Owns, hpc]), fun hf => absurd hf ho, ?_, ?_⟩
      · intro _
        have := hheld ho
        change (s.gs32curlock + 1).toInt ≤ 0
        omega
      · rw [State.set_threads, census_update_same (by simp [Pending, hpc]), State.set_word]
        omega
  | storeOne hpc => simp [emit, ownershipStep, Owns, hpc] at he
  | wake hpc =>
      refine ⟨?_, hfree, hheld, ?_⟩
      · apply (owner_wakeAll h.owner).keep
        rw [owns_wakeAll]
        simp [Owns, hpc]
      · rw [State.wake_threads, census_update_same, census_wakeAll]
        · exact hlow
        · rw [pending_wakeAll]
          simp [Pending, hpc]
  | interrupt hpc =>
      refine ⟨h.owner.keep ?_, hfree, hheld, ?_⟩
      · rcases hpc with hpc | hpc <;> simp [Owns, hpc]
      · rw [State.set_threads, census_update_same]
        · exact hlow
        · rcases hpc with hpc | hpc <;> simp [Pending, hpc]

/-- A step that changes the ownership is one of the mutual exclusion object. -/
theorem represents_visible (hn : n < 2147483648) {s t : State n} {o : Option (Fin n)} {i : Fin n}
    {a : Act} {b : MutexStep (Fin n)} (h : Represents s o) (hs : Step s i a t)
    (he : emit s (i, a) t = some b) :
    ∃ q, (mutex (Fin n)).next o b = some q ∧ Represents t q := by
  have hlow := h.low
  cases hs with
  | acquire hpc hret =>
      have hsub := toInt_sub_fetch hn h hpc
      obtain ⟨ho, hw⟩ := h.acquire_free hret hsub
      have hb : .acquire i = b := by simpa [emit, ownershipStep, Owns, hpc] using he
      subst hb ho
      refine ⟨some i, by simp, h.owner.acquire (by simp [Owns]), by simp, ?_, ?_⟩
      · intro _
        rw [State.set_word, hsub]
        omega
      · rw [State.set_threads, census_update_same (by simp [Pending, hpc]), State.set_word, hsub]
        omega
  | release hpc hret =>
      have hb : .release i = b := by simpa [emit, ownershipStep, Owns, hpc] using he
      subst hb
      have ho := h.owner.eq_some (i := i) (.inl hpc)
      have hw := eq_one_iff.mp hret
      refine ⟨none, by simp [ho], h.owner.release (.inl hpc) (by simp), ?_, by simp, ?_⟩
      · intro _
        rw [State.set_word]
        omega
      · rw [State.set_word, hw]
        omega
  | storeOne hpc =>
      have hb : .release i = b := by simpa [emit, ownershipStep, Owns, hpc] using he
      subst hb
      have ho := h.owner.eq_some (i := i) (.inr hpc)
      refine ⟨none, by simp [ho], h.owner.release (.inr hpc) (by simp [Owns]), ?_, by simp, ?_⟩
      · intro _
        change (1 : Int32).toInt ≤ 1
        decide
      · rw [State.set_word, Int32.toInt_one]
        omega
  | contend hpc hret => simp [emit, ownershipStep, Owns, hpc] at he
  | storeNeg hpc => simp [emit, ownershipStep, Owns, hpc] at he
  | sleep hpc hw => simp [emit, ownershipStep, Owns, hpc] at he
  | retry hpc hw => simp [emit, ownershipStep, Owns, hpc] at he
  | bump hpc hret => simp [emit, ownershipStep, Owns, hpc] at he
  | wake hpc => simp [emit, ownershipStep, Owns, hpc] at he
  | interrupt hpc => rcases hpc with hpc | hpc <;> simp [emit, ownershipStep, Owns, hpc] at he

/-- The lock implements the mutual exclusion object. -/
theorem sleepLock_refines_mutex (hn : n < 2147483648) :
    Simulation (sleepLock n) (mutex (Fin n)) emit Represents where
  silent h hs he := represents_silent hn h (step_of_next hs) he
  visible h hs he := represents_visible hn h (step_of_next hs) he

theorem reachable_represents (hn : n < 2147483648) {rounds : Fin n → Nat} {s : State n}
    (h : (sleepLock n).Reachable (init rounds) s) : ∃ o, Represents s o := by
  obtain ⟨as, hr⟩ := h
  obtain ⟨o, _, ho⟩ := (sleepLock_refines_mutex hn).run (represents_init rounds) hr
  exact ⟨o, ho⟩

/-- At most one thread is between its acquiring decrement and its increment; nobody
acquires while another thread has incremented and not yet stored 1; and the word is an
`int` that never wraps. -/
theorem sleepLock_mutual_exclusion (hn : n < 2147483648) (rounds : Fin n → Nat) {s : State n}
    (h : (sleepLock n).Reachable (init rounds) s) :
    (∀ i j, (s.threads i).pc = .critical → (s.threads j).pc = .critical → i = j) ∧
    (∀ i j a t, (s.threads i).pc = .storeOne → (sleepLock n).next s (j, a) = some t →
      (t.threads j).pc ≠ .critical) ∧
    -(n + 1 : Int) ≤ s.gs32curlock.toInt ∧ s.gs32curlock.toInt ≤ 1 ∧
    (∀ i, (s.threads i).pc = .subFetch →
      (s.gs32curlock - 1).toInt = s.gs32curlock.toInt - 1) := by
  obtain ⟨o, hR⟩ := reachable_represents hn h
  refine ⟨?_, ?_, ?_, hR.word_le_one, fun i hi => toInt_sub_fetch hn hR hi⟩
  · intro i j hi hj
    exact hR.owner.unique (.inl hi) (.inl hj)
  · intro i j a t hi hs hj
    have hs' := step_of_next hs
    cases hs' with
    | acquire hpc hret =>
        obtain ⟨ho, _⟩ := hR.acquire_free hret (toInt_sub_fetch hn hR hpc)
        rw [hR.owner.eq_some (i := i) (.inr hi)] at ho
        cases ho
    | _ => simp at hj
  · have hle := census_le_card (p := Pending) s.threads
    have hlow := hR.low
    rw [Fintype.card_fin] at hle
    omega

/-- The second of two threads stands in front of its store of -1 when the first has
incremented the word. -/
theorem sleepLock_exclusion_two : ∃ s : State 2,
    (s.threads 0).pc = .storeOne ∧ (s.threads 1).pc = .storeNeg ∧
    (∀ a t, (sleepLock 2).next s (1, a) = some t → (t.threads 1).pc ≠ .critical) ∧
    -3 ≤ s.gs32curlock.toInt := by
  have hrun : ∃ s, (sleepLock 2).run (init fun _ => 1) [(0, .step), (1, .step), (0, .step)] =
      some s ∧ (s.threads 0).pc = .storeOne ∧ (s.threads 1).pc = .storeNeg :=
    ⟨_, rfl, by decide, by decide⟩
  obtain ⟨s, hs, h0, h1⟩ := hrun
  obtain ⟨_, hno, hlow, _⟩ := sleepLock_mutual_exclusion (by decide) (fun _ => 1) ⟨_, hs⟩
  exact ⟨s, h0, h1, fun a t => hno 0 1 a t h0, hlow⟩

end Cse522.Studio11.SleepLock

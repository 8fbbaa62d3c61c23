import Cse522.Studio11.SleepLockExclusion

/-!
# Wake-ups of the futex lock

A sleeper needs a thread that will still issue `FUTEX_WAKE`. The store of -1 in `lock`
is a separate step from the decrement before it, so it can land after the owner has
stored 1 and woken everybody: the lock is then free but reads -1, and whoever waits on
it waits for good. Runs in which every store of -1 finds the lock owned lose no wake-up.
-/
namespace Cse522.Studio11.SleepLock

open Cse522.Interleave Cse522.Clib.Word

variable {n : Nat}

/-- Somebody sleeps in `FUTEX_WAIT` and nobody is left to wake him. -/
def Stranded (s : State n) : Prop :=
  (∃ i, (s.threads i).pc = .asleep) ∧
    ∀ j, (s.threads j).pc = .asleep ∨ (s.threads j).pc = .finished

instance (s : State n) : Decidable (Stranded s) := inferInstanceAs (Decidable (_ ∧ _))

/-- A store of -1 is executed only while some thread owns the lock. -/
def StoreOwned (s : State n) (a : Fin n × Act) (_ : State n) : Prop :=
  (s.threads a.1).pc = .storeNeg → ∃ i, Owns (s.threads i)

instance (s : State n) (a : Fin n × Act) (t : State n) : Decidable (StoreOwned s a t) :=
  inferInstanceAs (Decidable (_ → _))

/-- A thread on its way to `FUTEX_WAKE`: it has passed the increment, or its increment
will not return 1, or another owner is left after it. -/
def HasWaker (s : State n) : Prop :=
  (∃ i, (s.threads i).pc = .storeOne ∨ (s.threads i).pc = .futexWake) ∨
  ∃ i, (s.threads i).pc = .critical ∧
    (s.gs32curlock ≠ 0 ∨ ∃ j, j ≠ i ∧ (s.threads j).pc = .critical)

/-- No bound on the number of threads is needed: where decrements wrap, several threads
own the word at once, and one of them still wakes the sleepers. -/
structure Guarded (s : State n) : Prop where
  owned : (∃ i, Owns (s.threads i)) ∨ s.gs32curlock = 1
  waker : (∃ i, (s.threads i).pc = .asleep) → HasWaker s

theorem guarded_init (rounds : Fin n → Nat) : Guarded (init rounds) where
  owned := .inr rfl
  waker := by
    intro h
    obtain ⟨i, hi⟩ := h
    simp [init] at hi

theorem HasWaker.not_stranded {s : State n} (h : HasWaker s) : ¬ Stranded s := by
  intro hs
  obtain ⟨_, hall⟩ := hs
  rcases h with ⟨i, hi | hi⟩ | ⟨i, hi, _⟩
  all_goals
    have ha := hall i
    simp [hi] at ha

theorem Guarded.not_stranded {s : State n} (h : Guarded s) : ¬ Stranded s :=
  fun hs => (h.waker hs.1).not_stranded hs

theorem sub_one_ne_zero_of_neg {w : Int32} (h : w - 1 < 0) : w - 1 ≠ 0 := by
  intro he
  rw [he] at h
  exact absurd h (by decide)

theorem owned_step {s t : State n} {i : Fin n} {a : Act} (h : Guarded s) (hs : Step s i a t)
    (hst : StoreOwned s (i, a) t) : (∃ j, Owns (t.threads j)) ∨ t.gs32curlock = 1 := by
  cases hs with
  | acquire hpc hret => exact .inl ⟨i, by simp [Owns]⟩
  | contend hpc hret =>
      rcases h.owned with ho | hw
      · exact .inl (exists_update (q := Owns) (by simp [Owns, hpc]) ho)
      · rw [hw] at hret
        exact absurd hret (by decide)
  | storeNeg hpc => exact .inl (exists_update (q := Owns) (by simp [Owns, hpc]) (hst hpc))
  | sleep hpc hw => exact h.owned.imp (exists_update (q := Owns) (by simp [Owns, hpc])) id
  | retry hpc hw => exact h.owned.imp (exists_update (q := Owns) (by simp [Owns, hpc])) id
  | release hpc hret => exact .inr hret
  | bump hpc hret => exact .inl ⟨i, by simp [Owns]⟩
  | storeOne hpc => exact .inr rfl
  | wake hpc =>
      refine h.owned.imp (fun ho => exists_update (q := Owns) ?_ ?_) id
      · rw [owns_wakeAll]
        simp [Owns, hpc]
      · simpa only [owns_wakeAll] using ho
  | interrupt hpc =>
      refine h.owned.imp (exists_update (q := Owns) ?_) id
      rcases hpc with hpc | hpc <;> simp [Owns, hpc]

/-- Nobody sleeps right after a wake-up. -/
theorem not_asleep_wake (s : State n) (i j : Fin n) : ((s.wake i).threads j).pc ≠ .asleep := by
  intro hj
  by_cases hji : j = i
  · subst j
    simp at hj
  · rw [State.wake_threads, Function.update_of_ne hji] at hj
    rcases wakeAll_pc s.threads j with hw | ⟨_, hw⟩
    · have : wakeAll s.threads j = (s.threads j).goto .subFetch := by
        unfold wakeAll
        rw [if_pos (hw ▸ hj)]
      simp [this] at hj
    · simp [hw] at hj

/-- Past an increment that did not return 1. -/
def Committed (l : Thread) : Prop := l.pc = .storeOne ∨ l.pc = .futexWake

/-- The waker survives a step of thread `i` that neither wakes, nor leaves the critical
section, nor clears the word. -/
theorem HasWaker.set {s : State n} {i : Fin n} {w : Int32} {pc : Pc} (h : HasWaker s)
    (hi : (s.threads i).pc = .subFetch ∨ (s.threads i).pc = .storeNeg ∨
      (s.threads i).pc = .futexWait ∨ (s.threads i).pc = .asleep)
    (hw : w = s.gs32curlock ∨ w ≠ 0) : HasWaker (s.set w i ((s.threads i).goto pc)) := by
  rcases h with ⟨k, hk⟩ | ⟨k, hk, hz⟩
  · refine .inl (exists_update (q := Committed) ?_ ⟨k, hk⟩)
    rcases hi with hi | hi | hi | hi <;> simp [Committed, hi]
  · have hni : (s.threads i).pc ≠ .critical := by
      rcases hi with hi | hi | hi | hi <;> simp [hi]
    have hne : k ≠ i := ne_of_local (q := fun l : Thread => l.pc = .critical) hk hni
    refine .inr ⟨k, by simpa [hne] using hk, ?_⟩
    rcases hw with rfl | hw
    · refine hz.imp id fun ho => ?_
      obtain ⟨j, hjk, hj⟩ := ho
      have hji : j ≠ i := ne_of_local (q := fun l : Thread => l.pc = .critical) hj hni
      exact ⟨j, hjk, by simpa [hji] using hj⟩
    · exact .inl hw

theorem waker_step {s t : State n} {i : Fin n} {a : Act} (h : Guarded s) (hs : Step s i a t)
    (hsleep : ∃ j, (t.threads j).pc = .asleep) : HasWaker t := by
  -- a thread asleep after the step was asleep before it, unless it is the one that moved
  have hold : ∀ {w : Int32} {x : Thread}, x.pc ≠ .asleep →
      (∃ j, ((s.set w i x).threads j).pc = .asleep) → HasWaker s := by
    intro w x hx ha
    obtain ⟨j, hj⟩ := ha
    by_cases hji : j = i
    · subst j
      simp [hx] at hj
    · exact h.waker ⟨j, by simpa [hji] using hj⟩
  cases hs with
  | acquire hpc hret =>
      rcases hold (by simp) hsleep with ⟨k, hk⟩ | ⟨k, hk, _⟩
      · exact .inl (exists_update (q := Committed) (by simp [Committed, hpc]) ⟨k, hk⟩)
      · have hne : k ≠ i := ne_of_local (q := fun l : Thread => l.pc = .critical) hk (by simp [hpc])
        exact .inr ⟨k, by simpa [hne] using hk, .inr ⟨i, hne.symm, by simp⟩⟩
  | contend hpc hret =>
      exact (hold (by simp) hsleep).set (.inl hpc) (.inr (sub_one_ne_zero_of_neg hret))
  | storeNeg hpc => exact (hold (by simp) hsleep).set (.inr (.inl hpc)) (.inr (by decide))
  | sleep hpc hw =>
      -- the word reads -1, so somebody owns it
      have ho : ∃ k, Owns (s.threads k) := by
        apply h.owned.resolve_right
        rw [hw]
        decide
      obtain ⟨k, hk⟩ := ho
      have hne : k ≠ i := ne_of_local (q := Owns) hk (by simp [Owns, hpc])
      rcases hk with hk | hk
      · refine .inr ⟨k, by simpa [hne] using hk, .inl ?_⟩
        rw [State.set_word, hw]
        decide
      · exact .inl ⟨k, .inl (by simpa [hne] using hk)⟩
  | retry hpc hw => exact (hold (by simp) hsleep).set (.inr (.inr (.inl hpc))) (.inl rfl)
  | release hpc hret =>
      have hone : (s.gs32curlock + 1 : Int32) ≠ 0 := by
        rw [hret]
        decide
      rcases hold (by simp) hsleep with ⟨k, hk⟩ | ⟨k, hk, hz⟩
      · exact .inl (exists_update (q := Committed) (by simp [Committed, hpc]) ⟨k, hk⟩)
      · by_cases hki : k = i
        · subst k
          -- the last owner would have found the word at 0
          have hzero : s.gs32curlock = 0 := by
            have := congrArg (· - 1) hret
            simpa using this
          obtain ⟨j, hj, hjc⟩ := hz.resolve_left (not_not.mpr hzero)
          exact .inr ⟨j, by simpa [hj] using hjc, .inl hone⟩
        · exact .inr ⟨k, by simpa [hki] using hk, .inl hone⟩
  | bump hpc hret => exact .inl ⟨i, .inl (by simp)⟩
  | storeOne hpc => exact .inl ⟨i, .inr (by simp)⟩
  | wake hpc =>
      obtain ⟨j, hj⟩ := hsleep
      exact absurd hj (not_asleep_wake s i j)
  | interrupt hpc =>
      refine (hold (by simp) hsleep).set ?_ (.inl rfl)
      rcases hpc with hpc | hpc
      · exact .inr (.inr (.inl hpc))
      · exact .inr (.inr (.inr hpc))

theorem guarded_step {s t : State n} {a : Fin n × Act} (h : Guarded s)
    (hs : (sleepLock n).next s a = some t) (hst : StoreOwned s a t) : Guarded t where
  owned := owned_step h (step_of_next hs) hst
  waker := waker_step h (step_of_next hs)

/-- In a run whose stores of -1 all find the lock owned, no reachable state strands a
sleeper. -/
theorem no_lost_wakeup_of_storeOwned (rounds : Fin n → Nat) {as : List (Fin n × Act)} {s : State n}
    (hr : (sleepLock n).run (init rounds) as = some s)
    (hc : (sleepLock n).Along StoreOwned (init rounds) as) : ¬ Stranded s :=
  (hc.invariant guarded_step (guarded_init rounds) hr).not_stranded

/-- The second of two threads stores -1 and falls asleep while the first owns the lock. -/
theorem no_lost_wakeup_of_two : ∃ s : State 2, (s.threads 1).pc = .asleep ∧ ¬ Stranded s := by
  have hrun : ∃ s, (sleepLock 2).run (init fun _ => 1) [(0, .step), (1, .step), (1, .step),
      (1, .step), (0, .step), (0, .step)] = some s ∧ (s.threads 1).pc = .asleep :=
    ⟨_, rfl, by decide⟩
  obtain ⟨s, hs, hasleep⟩ := hrun
  exact ⟨s, hasleep, no_lost_wakeup_of_storeOwned (fun _ => 1) hs (by decide)⟩

/-! ## A late store kills the lock -/

/-- Nobody owns the lock and its word is negative: no decrement will acquire it. -/
structure Dead (s : State n) : Prop where
  represents : Represents s none
  negative : s.gs32curlock.toInt < 0

/-- Inside `lock`, without having acquired. -/
def InLock (l : Thread) : Prop :=
  l.pc = .subFetch ∨ l.pc = .storeNeg ∨ l.pc = .futexWait ∨ l.pc = .asleep

theorem Dead.not_owns {s : State n} (h : Dead s) (i : Fin n) : ¬ Owns (s.threads i) :=
  h.represents.owner.eq_none_iff.mp rfl i

theorem Dead.contends (hn : n < 2147483648) {s : State n} (h : Dead s) {i : Fin n}
    (hpc : (s.threads i).pc = .subFetch) : s.gs32curlock - 1 < 0 := by
  have hneg := h.negative
  rw [lt_zero_iff, toInt_sub_fetch hn h.represents hpc]
  omega

theorem dead_step (hn : n < 2147483648) {s t : State n} {a : Fin n × Act} (h : Dead s)
    (hs : (sleepLock n).next s a = some t) : Dead t := by
  obtain ⟨i, a⟩ := a
  have hneg := h.negative
  have hno := h.not_owns i
  have hs' := step_of_next hs
  refine ⟨represents_silent hn h.represents hs' ?_, ?_⟩
  · cases hs' with
    | acquire hpc hret => exact absurd (h.contends hn hpc) hret
    | release hpc hret => exact absurd (.inl hpc) hno
    | storeOne hpc => exact absurd (.inr hpc) hno
    | bump hpc hret => exact absurd (.inl hpc) hno
    | interrupt hpc => rcases hpc with hpc | hpc <;> simp [emit, ownershipStep, Owns, hpc]
    | contend hpc _ | storeNeg hpc | sleep hpc _ | retry hpc _ | wake hpc =>
        simp [emit, ownershipStep, Owns, hpc]
  · cases hs' with
    | acquire hpc hret => exact absurd (h.contends hn hpc) hret
    | contend hpc hret => exact lt_zero_iff.mp hret
    | storeNeg hpc =>
        rw [State.set_word, toInt_neg_one]
        decide
    | release hpc hret => exact absurd (.inl hpc) hno
    | storeOne hpc => exact absurd (.inr hpc) hno
    | bump hpc hret => exact absurd (.inl hpc) hno
    | sleep | retry | wake | interrupt => exact hneg

/-- No thread ever acquires a dead lock again. -/
theorem dead_forever (hn : n < 2147483648) {s t : State n} (h : Dead s)
    (hr : (sleepLock n).Reachable s t) : Dead t :=
  hr.invariant (dead_step hn) h

/-- A store of -1 on a free lock kills it. -/
theorem dead_of_late_store {s t : State n} {i : Fin n} {o : Option (Fin n)} {a : Act}
    (h : Represents s o) (hpc : (s.threads i).pc = .storeNeg)
    (hs : (sleepLock n).next s (i, a) = some t) (hfree : ¬ ∃ j, Owns (s.threads j)) :
    Dead t ∧ InLock (t.threads i) := by
  obtain rfl : o = none := h.owner.eq_none_iff.mpr fun j hj => hfree ⟨j, hj⟩
  cases step_of_next hs with
  | storeNeg _ =>
      have hw : ((-1 : Int32)).toInt < 0 := by decide
      refine ⟨⟨⟨h.owner.keep (by simp [Owns, hpc]), ?_, fun hf => absurd rfl hf, ?_⟩, hw⟩, ?_⟩
      · intro _
        rw [State.set_word, toInt_neg_one]
        decide
      · rw [State.set_word, toInt_neg_one]
        omega
      · simp [InLock]
  | _ => simp_all

/-- From its store of -1 a thread can run on its own to the end of its sleep. -/
theorem sleep_from_storeNeg {s : State n} {i : Fin n} (hpc : (s.threads i).pc = .storeNeg) :
    ∃ t, (sleepLock n).Reachable s t ∧ (t.threads i).pc = .asleep ∧
      ∀ j, j ≠ i → t.threads j = s.threads j := by
  let u := s.set (-1) i ((s.threads i).goto .futexWait)
  refine ⟨u.set (-1) i ((u.threads i).goto .asleep), ⟨[(i, .step), (i, .step)], ?_⟩, by simp, ?_⟩
  · simp [sleepLock, next, hpc, u]
  · intro j hj
    simp [u, hj]

theorem sleep_from_subFetch (hn : n < 2147483648) {s : State n} (h : Dead s) {i : Fin n}
    (hpc : (s.threads i).pc = .subFetch) :
    ∃ t, (sleepLock n).Reachable s t ∧ (t.threads i).pc = .asleep ∧
      ∀ j, j ≠ i → t.threads j = s.threads j := by
  let u := s.set (s.gs32curlock - 1) i ((s.threads i).goto .storeNeg)
  have hu : (sleepLock n).next s (i, .step) = some u := by
    simp [sleepLock, next, hpc, u, h.contends hn hpc]
  obtain ⟨t, ht, hasleep, hrest⟩ := sleep_from_storeNeg (s := u) (i := i) (by simp [u])
  refine ⟨t, (Machine.Reachable.single hu).trans ht, hasleep, fun j hj => ?_⟩
  rw [hrest j hj]
  simp [u, hj]

/-- A thread inside `lock` on a dead word can go to sleep while the others stand still. -/
theorem sleep_from_inLock (hn : n < 2147483648) {s : State n} (h : Dead s) {i : Fin n}
    (hi : InLock (s.threads i)) :
    ∃ t, (sleepLock n).Reachable s t ∧ (t.threads i).pc = .asleep ∧
      ∀ j, j ≠ i → t.threads j = s.threads j := by
  rcases hi with hpc | hpc | hpc | hpc
  · exact sleep_from_subFetch hn h hpc
  · exact sleep_from_storeNeg hpc
  · let u := s.set s.gs32curlock i ((s.threads i).goto .subFetch)
    by_cases hw : s.gs32curlock = -1
    · refine ⟨s.set s.gs32curlock i ((s.threads i).goto .asleep), ⟨[(i, .step)], ?_⟩, by simp, ?_⟩
      · simp [sleepLock, next, hpc, hw]
      · intro j hj
        simp [hj]
    · have hu : (sleepLock n).next s (i, .step) = some u := by
        simp [sleepLock, next, hpc, hw, u]
      obtain ⟨t, ht, hasleep, hrest⟩ :=
        sleep_from_subFetch hn (i := i) (dead_step hn h hu) (by simp [u])
      refine ⟨t, (Machine.Reachable.single hu).trans ht, hasleep, fun j hj => ?_⟩
      rw [hrest j hj]
      simp [u, hj]
  · exact ⟨s, .refl s, hpc, fun _ _ => rfl⟩

instance : DecidablePred InLock := fun _ => inferInstanceAs (Decidable (_ ∨ _ ∨ _ ∨ _))

def Waking (l : Thread) : Prop := l.pc = .futexWake

def Awake (l : Thread) : Prop := InLock l ∧ l.pc ≠ .asleep

instance : DecidablePred Waking := fun _ => inferInstanceAs (Decidable (_ = _))
instance : DecidablePred Awake := fun _ => inferInstanceAs (Decidable (_ ∧ _))

/-- The pending wake-ups of a dead lock can all be spent. -/
theorem spend_wakeups {s : State n} {i : Fin n} (hi : InLock (s.threads i)) :
    ∃ t, (sleepLock n).Reachable s t ∧ (∀ j, ¬ Waking (t.threads j)) ∧ InLock (t.threads i) := by
  induction hc : census Waking s.threads generalizing s with
  | zero => exact ⟨s, .refl s, census_eq_zero.mp hc, hi⟩
  | succ k ih =>
      obtain ⟨j, hj⟩ := exists_of_census_pos (p := Waking) (f := s.threads) (by omega)
      have hpc : (s.threads j).pc = .futexWake := hj
      have hji : i ≠ j := ne_of_local (q := InLock) hi (by simp [InLock, hpc])
      have hstep : (sleepLock n).next s (j, .step) = some (s.wake j) := by
        simp [sleepLock, next, hpc]
      have hsame : ∀ l, Waking (wakeAll s.threads l) ↔ Waking (s.threads l) := by
        intro l
        rcases wakeAll_pc s.threads l with h | ⟨h, h'⟩ <;> simp [Waking, *]
      have hcount : census Waking (s.wake j).threads + 1 = census Waking s.threads := by
        rw [State.wake_threads, census_update_leave ((hsame j).mpr hj) (by simp [Waking])]
        simp only [census, hsame]
      have hin : InLock ((s.wake j).threads i) := by
        rw [State.wake_threads, Function.update_of_ne hji]
        rcases wakeAll_pc s.threads i with h | ⟨_, h⟩
        · simpa [InLock, h] using hi
        · simp [InLock, h]
      obtain ⟨t, ht, hno, hit⟩ := ih hin (by omega)
      exact ⟨t, (Machine.Reachable.single hstep).trans ht, hno, hit⟩

/-- With no wake-up pending, every thread left inside a dead lock can go to sleep. -/
theorem settle (hn : n < 2147483648) {s : State n} (h : Dead s)
    (hno : ∀ j, ¬ Waking (s.threads j)) {i : Fin n} (hi : InLock (s.threads i)) :
    ∃ t, (sleepLock n).Reachable s t ∧ Stranded t := by
  induction hc : census Awake s.threads generalizing s with
  | zero =>
      have hnone := census_eq_zero.mp hc
      have hpc : ∀ j, InLock (s.threads j) → (s.threads j).pc = .asleep :=
        fun j hj => by_contra fun hne => hnone j ⟨hj, hne⟩
      refine ⟨s, .refl s, ⟨i, hpc i hi⟩, fun j => ?_⟩
      have hown := h.not_owns j
      have hwake := hno j
      have hin := hpc j
      cases hj : (s.threads j).pc <;> simp_all [Owns, Waking, InLock]
  | succ k ih =>
      obtain ⟨j, hj⟩ := exists_of_census_pos (p := Awake) (f := s.threads) (by omega)
      obtain ⟨t, ht, hasleep, hrest⟩ := sleep_from_inLock hn h hj.1
      have hthreads : t.threads = Function.update s.threads j (t.threads j) := by
        funext l
        by_cases hl : l = j
        · simp [hl]
        · simp [hl, hrest l hl]
      have hcount := census_update_leave (p := Awake) (f := s.threads) (i := j)
        (x := t.threads j) hj (fun ha => ha.2 hasleep)
      rw [← hthreads] at hcount
      have hnot : ∀ l, ¬ Waking (t.threads l) := by
        intro l
        by_cases hl : l = j
        · simp [hl, Waking, hasleep]
        · rw [hrest l hl]
          exact hno l
      have hin : InLock (t.threads i) := by
        by_cases hij : i = j
        · simp [hij, InLock, hasleep]
        · rw [hrest i hij]
          exact hi
      obtain ⟨r, hr, hstr⟩ := ih (dead_forever hn h ht) hnot hin (by omega)
      exact ⟨r, ht.trans hr, hstr⟩

/-- Some run strands a sleeper exactly when some run executes a store of -1 on a free
lock. -/
theorem strands_iff_late_store (hn : n < 2147483648) (rounds : Fin n → Nat) :
    (∃ s, (sleepLock n).Reachable (init rounds) s ∧ Stranded s) ↔
      ∃ s a t, (sleepLock n).Reachable (init rounds) s ∧ (sleepLock n).next s a = some t ∧
        ¬ StoreOwned s a t := by
  constructor
  · intro h
    obtain ⟨s, ⟨as, hr⟩, hstr⟩ := h
    by_contra hno
    have hall : (sleepLock n).Along StoreOwned (init rounds) as :=
      Machine.along_of_reachable fun hq hs => by_contra fun hc => hno ⟨_, _, _, hq, hs, hc⟩
    exact (hall.invariant guarded_step (guarded_init rounds) hr).not_stranded hstr
  · intro h
    obtain ⟨s, ⟨i, a⟩, t, hs, hst, hlate⟩ := h
    obtain ⟨hpc, hfree⟩ := Classical.not_imp.mp hlate
    obtain ⟨o, ho⟩ := reachable_represents hn hs
    obtain ⟨hdead, hin⟩ := dead_of_late_store ho hpc hst hfree
    obtain ⟨u, hu, hno, hin'⟩ := spend_wakeups hin
    obtain ⟨r, hr, hstr⟩ := settle hn (dead_forever hn hdead hu) hno hin'
    exact ⟨r, ((hs.trans (.single hst)).trans hu).trans hr, hstr⟩

/-! ## The lost wake-up -/

/-- Two threads, one round each. The second fails its decrement, the first runs its
whole `unlock`, and only then the second stores -1 and sleeps. -/
def lateStore : List (Fin 2 × Act) :=
  [(0, .step), (1, .step), (0, .step), (0, .step), (0, .step), (1, .step), (1, .step)]

/-- No `FUTEX_WAIT` of the schedule is interrupted. -/
theorem sleepLock_loses_wakeup :
    ¬ ∀ (n : Nat) (rounds : Fin n → Nat) (as : List (Fin n × Act)) (s : State n), 1 ≤ n →
      (∀ a ∈ as, a.2 = .step) → (sleepLock n).run (init rounds) as = some s → ¬ Stranded s := by
  intro h
  exact h 2 (fun _ => 1) lateStore _ (by decide) (by decide) rfl (by decide)

end Cse522.Studio11.SleepLock

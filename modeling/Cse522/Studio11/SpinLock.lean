import Cse522.Interleave.Mutex

/-!
# The compare-exchange lock of `spinlock.c`

Both functions pass 1 as the fourth argument of `__atomic_compare_exchange`, so the
exchange is the weak one: it may fail although the word equals the expected value, and
every failure overwrites the caller's local with the word observed. The label of a step
says whether an exchange fails this way.
-/
namespace Cse522.Studio11.SpinLock

open Cse522.Interleave

def LOCK : Int32 := 1
def UNLOCK : Int32 := 0

/-- The result of an exchange, with `*ptr` and `*expected` after it. -/
structure Exchange where
  ret : Bool
  ptr : Int32
  expected : Int32

/-- The weak `__atomic_compare_exchange`. -/
def compareExchange (ptr expected desired : Int32) (spurious : Bool) : Exchange :=
  if ptr = expected ∧ spurious = false then ⟨true, desired, expected⟩ else ⟨false, ptr, ptr⟩

/-- The statement a thread executes next. -/
inductive Pc where
  /-- the call of `lock`, with its two initialisers -/
  | callLock
  /-- the exchange in the loop condition of `lock` -/
  | exchangeLock
  /-- `s32unlock = UNLOCK` in the loop body -/
  | resetUnlock
  /-- `lock` has returned; `critical_section`, then the call of `unlock` -/
  | critical
  /-- the exchange of `unlock` -/
  | exchangeUnlock
  /-- the branch of `unlock` that prints "Cannot unlock" and exits -/
  | cannotUnlock
  | finished
  deriving DecidableEq, Repr

/-- A thread, the locals of the call it is in and the rounds it has left. -/
structure Thread where
  pc : Pc
  s32lock : Int32
  s32unlock : Int32
  rounds : Nat
  deriving DecidableEq

/-- A thread in front of `k` rounds. -/
def Thread.start (l : Thread) (k : Nat) : Thread :=
  { l with pc := if k = 0 then .finished else .callLock, rounds := k }

/-- Enter `lock` or `unlock`: both set their locals to `LOCK` and `UNLOCK`. -/
def Thread.call (l : Thread) (pc : Pc) : Thread :=
  { l with pc, s32lock := LOCK, s32unlock := UNLOCK }

structure State (n : Nat) where
  gs32curlock : Int32
  threads : Fin n → Thread
  exited : Bool
  deriving DecidableEq

variable {n : Nat}

def init (rounds : Fin n → Nat) : State n :=
  ⟨UNLOCK, fun i => Thread.start ⟨.finished, 0, 0, 0⟩ (rounds i), false⟩

/-- Thread `i` leaves the word at `w` and itself at `l`. -/
def State.set (s : State n) (w : Int32) (i : Fin n) (l : Thread) : State n :=
  { s with gs32curlock := w, threads := Function.update s.threads i l }

@[simp] theorem State.set_word (s : State n) (w : Int32) (i : Fin n) (l : Thread) :
    (s.set w i l).gs32curlock = w := rfl

@[simp] theorem State.set_threads (s : State n) (w : Int32) (i : Fin n) (l : Thread) :
    (s.set w i l).threads = Function.update s.threads i l := rfl

/-- One atomic step of thread `i`; `exit` ends the run of all threads. -/
def next (s : State n) : Fin n × Bool → Option (State n)
  | (i, spurious) =>
    let l := s.threads i
    let w := s.gs32curlock
    if s.exited then none else
    match l.pc with
    | .callLock => some (s.set w i (l.call .exchangeLock))
    | .exchangeLock =>
        let r := compareExchange w l.s32unlock l.s32lock spurious
        some (s.set r.ptr i
          { l with s32unlock := r.expected, pc := if r.ret then .critical else .resetUnlock })
    | .resetUnlock => some (s.set w i { l with s32unlock := UNLOCK, pc := .exchangeLock })
    | .critical => some (s.set w i (l.call .exchangeUnlock))
    | .exchangeUnlock =>
        let r := compareExchange w l.s32lock l.s32unlock spurious
        some (s.set r.ptr i
          (if r.ret then l.start (l.rounds - 1)
           else { l with s32lock := r.expected, pc := .cannotUnlock }))
    | .cannotUnlock => some { s with exited := true }
    | .finished => none

def spinLock (n : Nat) : Machine (State n) (Fin n × Bool) := ⟨next⟩

/-- The steps of `next`, one constructor for each outcome of a statement. -/
inductive Step (s : State n) (i : Fin n) (spurious : Bool) : State n → Prop
  | callLock (hpc : (s.threads i).pc = .callLock) :
      Step s i spurious (s.set s.gs32curlock i ((s.threads i).call .exchangeLock))
  | acquire (hpc : (s.threads i).pc = .exchangeLock)
      (heq : s.gs32curlock = (s.threads i).s32unlock) (hs : spurious = false) :
      Step s i spurious (s.set (s.threads i).s32lock i { s.threads i with pc := .critical })
  | fail (hpc : (s.threads i).pc = .exchangeLock) :
      Step s i spurious (s.set s.gs32curlock i
        { s.threads i with s32unlock := s.gs32curlock, pc := .resetUnlock })
  | resetUnlock (hpc : (s.threads i).pc = .resetUnlock) :
      Step s i spurious (s.set s.gs32curlock i
        { s.threads i with s32unlock := UNLOCK, pc := .exchangeLock })
  | callUnlock (hpc : (s.threads i).pc = .critical) :
      Step s i spurious (s.set s.gs32curlock i ((s.threads i).call .exchangeUnlock))
  | release (hpc : (s.threads i).pc = .exchangeUnlock)
      (heq : s.gs32curlock = (s.threads i).s32lock) (hs : spurious = false) :
      Step s i spurious (s.set (s.threads i).s32unlock i
        ((s.threads i).start ((s.threads i).rounds - 1)))
  | refuse (hpc : (s.threads i).pc = .exchangeUnlock)
      (hne : ¬ (s.gs32curlock = (s.threads i).s32lock ∧ spurious = false)) :
      Step s i spurious (s.set s.gs32curlock i
        { s.threads i with s32lock := s.gs32curlock, pc := .cannotUnlock })
  | exit (hpc : (s.threads i).pc = .cannotUnlock) : Step s i spurious { s with exited := true }

theorem step_of_next {s t : State n} {i : Fin n} {spurious : Bool}
    (h : (spinLock n).next s (i, spurious) = some t) : Step s i spurious t := by
  change next s (i, spurious) = some t at h
  have hex : s.exited = false := by
    by_contra he
    simp [next, he] at h
  cases hpc : (s.threads i).pc
  all_goals simp only [next, hex, Bool.false_eq_true, ↓reduceIte, hpc, Option.some.injEq,
    reduceCtorEq] at h
  case callLock =>
    subst h
    exact .callLock hpc
  case exchangeLock =>
    subst h
    unfold compareExchange
    split
    case isTrue he => exact .acquire hpc he.1 he.2
    case isFalse he => exact .fail hpc
  case resetUnlock =>
    subst h
    exact .resetUnlock hpc
  case critical =>
    subst h
    exact .callUnlock hpc
  case exchangeUnlock =>
    subst h
    unfold compareExchange
    split
    case isTrue he => exact .release hpc he.1 he.2
    case isFalse he => exact .refuse hpc he
  case cannotUnlock =>
    subst h
    exact .exit hpc

@[simp] theorem start_pc {l : Thread} {k : Nat} {pc : Pc} :
    (l.start k).pc = pc ↔ (k = 0 ∧ pc = .finished) ∨ (k ≠ 0 ∧ pc = .callLock) := by
  by_cases hk : k = 0 <;> simp [Thread.start, hk, eq_comm]

/-! ## The lock is a mutual exclusion object -/

/-- From the successful exchange of `lock` to the successful exchange of `unlock`. -/
def Owns (l : Thread) : Prop :=
  l.pc = .critical ∨ l.pc = .exchangeUnlock ∨ l.pc = .cannotUnlock

instance : DecidablePred Owns := fun _ => inferInstanceAs (Decidable (_ ∨ _ ∨ _))

/-- The locals an exchange is about to read are the ones the call set. A stale
`s32unlock` survives only up to the reset. -/
def LocalsOk (l : Thread) : Prop :=
  match l.pc with
  | .exchangeLock | .exchangeUnlock => l.s32lock = LOCK ∧ l.s32unlock = UNLOCK
  | .resetUnlock => l.s32lock = LOCK
  | _ => True

structure Represents (s : State n) (o : Option (Fin n)) : Prop where
  owner : Owner Owns s.threads o
  word : s.gs32curlock = if o.isSome then LOCK else UNLOCK
  locals : ∀ i, LocalsOk (s.threads i)

def emit (s : State n) (a : Fin n × Bool) (t : State n) : Option (MutexStep (Fin n)) :=
  ownershipStep Owns a.1 (s.threads a.1) (t.threads a.1)

theorem localsOk_update {f : Fin n → Thread} {i : Fin n} {x : Thread}
    (h : ∀ j, LocalsOk (f j)) (hx : LocalsOk x) (j : Fin n) :
    LocalsOk (Function.update f i x j) :=
  forall_update (P := fun _ => LocalsOk) h hx j

theorem localsOk_start (l : Thread) (k : Nat) : LocalsOk (l.start k) := by
  by_cases hk : k = 0 <;> simp [LocalsOk, Thread.start, hk]

@[simp] theorem not_owns_start (l : Thread) (k : Nat) : ¬ Owns (l.start k) := by
  simp [Owns]

theorem represents_init (rounds : Fin n → Nat) : Represents (init rounds) none where
  owner := by
    intro i
    simp [init]
  word := rfl
  locals := fun i => localsOk_start _ (rounds i)

theorem lock_ne_unlock : LOCK ≠ UNLOCK := by decide

/-- The word reads `UNLOCK` only while nobody owns it. -/
theorem Represents.free_of_word {s : State n} {o : Option (Fin n)} (h : Represents s o)
    (hw : s.gs32curlock = UNLOCK) : o = none := by
  cases o with
  | none => rfl
  | some i => exact absurd (h.word.symm.trans hw) lock_ne_unlock

theorem Represents.word_of_owns {s : State n} {o : Option (Fin n)} (h : Represents s o)
    {i : Fin n} (hi : Owns (s.threads i)) : s.gs32curlock = LOCK := by
  have hw := h.word
  rw [h.owner.eq_some hi] at hw
  exact hw

theorem represents_silent {s t : State n} {o : Option (Fin n)} {i : Fin n} {b : Bool}
    (h : Represents s o) (hs : Step s i b t) (he : emit s (i, b) t = none) :
    Represents t o := by
  have hloc := h.locals i
  cases hs with
  | callLock hpc =>
      exact ⟨h.owner.keep (by simp [Owns, hpc, Thread.call]), h.word,
        localsOk_update h.locals ⟨rfl, rfl⟩⟩
  | acquire hpc heq hsp => simp [emit, ownershipStep, Owns, hpc] at he
  | fail hpc =>
      simp only [LocalsOk, hpc] at hloc
      exact ⟨h.owner.keep (by simp [Owns, hpc]), h.word, localsOk_update h.locals hloc.1⟩
  | resetUnlock hpc =>
      simp only [LocalsOk, hpc] at hloc
      exact ⟨h.owner.keep (by simp [Owns, hpc]), h.word, localsOk_update h.locals ⟨hloc, rfl⟩⟩
  | callUnlock hpc =>
      exact ⟨h.owner.keep (by simp [Owns, hpc, Thread.call]), h.word,
        localsOk_update h.locals ⟨rfl, rfl⟩⟩
  | release hpc heq hsp => simp [emit, ownershipStep, Owns, hpc] at he
  | refuse hpc hne =>
      exact ⟨h.owner.keep (by simp [Owns, hpc]), h.word, localsOk_update h.locals trivial⟩
  | exit hpc => exact ⟨h.owner, h.word, h.locals⟩

theorem represents_visible {s t : State n} {o : Option (Fin n)} {i : Fin n} {b : Bool}
    {m : MutexStep (Fin n)} (h : Represents s o) (hs : Step s i b t)
    (he : emit s (i, b) t = some m) :
    ∃ q, (mutex (Fin n)).next o m = some q ∧ Represents t q := by
  have hloc := h.locals i
  cases hs with
  | acquire hpc heq hsp =>
      simp only [LocalsOk, hpc] at hloc
      have hm : .acquire i = m := by simpa [emit, ownershipStep, Owns, hpc] using he
      subst hm
      obtain rfl := h.free_of_word (heq.trans hloc.2)
      refine ⟨some i, by simp, h.owner.acquire (by simp [Owns]), ?_, ?_⟩
      · exact hloc.1
      · exact localsOk_update h.locals trivial
  | release hpc heq hsp =>
      simp only [LocalsOk, hpc] at hloc
      have hm : .release i = m := by simpa [emit, ownershipStep, Owns, hpc] using he
      subst hm
      have hi : Owns (s.threads i) := .inr (.inl hpc)
      refine ⟨none, by simp [h.owner.eq_some hi], h.owner.release hi (by simp), ?_, ?_⟩
      · exact hloc.2
      · exact localsOk_update h.locals (localsOk_start _ _)
  | callLock hpc => simp [emit, ownershipStep, Owns, hpc, Thread.call] at he
  | fail hpc => simp [emit, ownershipStep, Owns, hpc] at he
  | resetUnlock hpc => simp [emit, ownershipStep, Owns, hpc] at he
  | callUnlock hpc => simp [emit, ownershipStep, Owns, hpc, Thread.call] at he
  | refuse hpc hne => simp [emit, ownershipStep, Owns, hpc] at he
  | exit hpc => simp [emit, ownershipStep, Owns, hpc] at he

theorem spinLock_refines_mutex : Simulation (spinLock n) (mutex (Fin n)) emit Represents where
  silent h hs he := represents_silent h (step_of_next hs) he
  visible h hs he := represents_visible h (step_of_next hs) he

theorem represents_step {s t : State n} {a : Fin n × Bool} (h : ∃ o, Represents s o)
    (hs : (spinLock n).next s a = some t) : ∃ o, Represents t o := by
  obtain ⟨o, ho⟩ := h
  cases he : emit s a t with
  | none => exact ⟨o, spinLock_refines_mutex.silent ho hs he⟩
  | some m =>
      obtain ⟨q, _, hq⟩ := spinLock_refines_mutex.visible ho hs he
      exact ⟨q, hq⟩

/-- The word is `LOCK` or `UNLOCK`, at most one thread owns it, and one does exactly when
it reads `LOCK`, under every pattern of spurious failures. -/
theorem spinLock_mutual_exclusion (rounds : Fin n → Nat) {s : State n}
    (h : (spinLock n).Reachable (init rounds) s) :
    (s.gs32curlock = LOCK ∨ s.gs32curlock = UNLOCK) ∧ census Owns s.threads ≤ 1 ∧
    (census Owns s.threads = 1 ↔ s.gs32curlock = LOCK) := by
  obtain ⟨o, ho⟩ := h.invariant represents_step ⟨none, represents_init rounds⟩
  rw [ho.owner.census, ho.word]
  cases o <;> simp [lock_ne_unlock.symm]

/-- Two threads: the exchange of the first fails spuriously once and then succeeds. -/
theorem spinLock_exclusion_two : ∃ s : State 2, s.gs32curlock = LOCK ∧
    census Owns s.threads = 1 := by
  have hrun : ∃ s, (spinLock 2).run (init fun _ => 1) [(0, false), (0, true), (1, false),
      (0, false), (0, false), (1, false)] = some s ∧ s.gs32curlock = LOCK :=
    ⟨_, rfl, by decide⟩
  obtain ⟨s, hs, hw⟩ := hrun
  exact ⟨s, hw, (spinLock_mutual_exclusion (fun _ => 1) ⟨_, hs⟩).2.2.mpr hw⟩

/-! ## Unlocking -/

/-- The exchange of `unlock` leaves the word at `UNLOCK` and does not take the branch
that prints "Cannot unlock". -/
def UnlockLeaves (s : State n) (a : Fin n × Bool) (t : State n) : Prop :=
  (s.threads a.1).pc = .exchangeUnlock →
    t.gs32curlock = UNLOCK ∧ (t.threads a.1).pc ≠ .cannotUnlock

/-- The exchange of `unlock` does not fail spuriously. -/
def UnlockStrong (s : State n) (a : Fin n × Bool) (_ : State n) : Prop :=
  (s.threads a.1).pc = .exchangeUnlock → a.2 = false

instance (s : State n) (a : Fin n × Bool) (t : State n) : Decidable (UnlockLeaves s a t) :=
  inferInstanceAs (Decidable (_ → _))

theorem unlockLeaves_iff {s t : State n} {a : Fin n × Bool} (h : ∃ o, Represents s o)
    (hs : (spinLock n).next s a = some t) : UnlockLeaves s a t ↔ UnlockStrong s a t := by
  obtain ⟨i, b⟩ := a
  obtain ⟨o, ho⟩ := h
  have hloc := ho.locals i
  cases step_of_next hs with
  | release hpc heq hsp =>
      simp only [LocalsOk, hpc] at hloc
      exact ⟨fun _ _ => hsp, fun _ _ => ⟨hloc.2, by simp⟩⟩
  | refuse hpc hne =>
      simp only [LocalsOk, hpc] at hloc
      have hw := ho.word_of_owns (i := i) (.inr (.inl hpc))
      constructor
      · intro hl
        exact absurd (by simp) (hl hpc).2
      · intro hb
        exact absurd ⟨hw.trans hloc.1.symm, hb hpc⟩ hne
  | _ hpc => simp [UnlockLeaves, UnlockStrong, hpc]

/-- Along every schedule, `unlock` by the owner works exactly when its weak exchanges
never fail spuriously. -/
theorem unlock_works_iff (rounds : Fin n → Nat) (as : List (Fin n × Bool)) :
    (spinLock n).Along UnlockLeaves (init rounds) as ↔
      (spinLock n).Along UnlockStrong (init rounds) as :=
  Machine.along_congr unlockLeaves_iff (fun h hs _ => represents_step h hs)
    ⟨none, represents_init rounds⟩

/-- One thread, one round, and an exchange of `unlock` that fails spuriously. -/
theorem unlock_fails_spuriously :
    ¬ ∀ (n : Nat) (rounds : Fin n → Nat) (as : List (Fin n × Bool)),
      (spinLock n).Along UnlockLeaves (init rounds) as := by
  intro h
  have hrun := h 1 (fun _ => 1) [(0, false), (0, false), (0, false), (0, true)]
  exact absurd hrun (by decide)

end Cse522.Studio11.SpinLock

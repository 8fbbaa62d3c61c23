import Cse522.Clib.Word
import Cse522.Interleave.Barrier
import Cse522.Interleave.Threads

/-!
# The spin barrier of `lab02`

`barrier_wait` under `gs32MAX_THREAD` threads, each calling it as often as it likes. A
step is one access to a shared variable: the read of `gs32passed`, the fetch-and-add of
`gs32bar`, the two stores of the last arriver, and one iteration of the spin test. The
counters of a thread are history: nothing but the proofs reads them.
-/
namespace Cse522.Lab02.SpinBarrier

open Cse522.Interleave

/-- The statement a thread executes next. -/
inductive Pc where
  /-- not in `barrier_wait` -/
  | outside
  /-- `s32passed_old = gs32passed` -/
  | readPassed
  /-- `__sync_fetch_and_add(&gs32bar, 1)` and the test of its result -/
  | fetchAdd
  /-- `gs32bar = 0` -/
  | resetBar
  /-- `gs32passed++` -/
  | bumpPassed
  /-- `while(gs32passed == s32passed_old)` -/
  | spin
  deriving DecidableEq, Repr

/-- A thread, with the calls it has entered, counted itself in for, and returned from. -/
structure Thread where
  pc : Pc
  s32passed_old : Int32
  entered : Nat
  added : Nat
  returned : Nat
  deriving DecidableEq

/-- `gs32bar` never exceeds the thread count, which is an `int`, so a natural number
models it; `gs32passed` wraps. -/
structure State (n : Nat) where
  gs32bar : Nat
  gs32passed : Int32
  threads : Fin n → Thread
  deriving DecidableEq

variable {n : Nat}

def init (n : Nat) : State n := ⟨0, 0, fun _ => ⟨.outside, 0, 0, 0, 0⟩⟩

/-- Thread `i` is left at `l`. -/
def State.move (s : State n) (i : Fin n) (l : Thread) : State n :=
  { s with threads := Function.update s.threads i l }

def Thread.enter (l : Thread) : Thread := { l with pc := .readPassed, entered := l.entered + 1 }

def Thread.arrive (l : Thread) (pc : Pc) : Thread := { l with pc, added := l.added + 1 }

def Thread.ret (l : Thread) : Thread := { l with pc := .outside, returned := l.returned + 1 }

/-- One step of thread `i` in `barrier_wait`, for `gs32MAX_THREAD = n`. -/
def next (s : State n) (i : Fin n) : Option (State n) :=
  let l := s.threads i
  match l.pc with
  | .outside => some (s.move i l.enter)
  | .readPassed => some (s.move i { l with pc := .fetchAdd, s32passed_old := s.gs32passed })
  | .fetchAdd =>
      let s' := { s with gs32bar := s.gs32bar + 1 }
      some (s'.move i (l.arrive (if s.gs32bar = n - 1 then .resetBar else .spin)))
  | .resetBar => some ({ s with gs32bar := 0 }.move i { l with pc := .bumpPassed })
  | .bumpPassed => some ({ s with gs32passed := s.gs32passed + 1 }.move i l.ret)
  | .spin => some (if s.gs32passed = l.s32passed_old then s else s.move i l.ret)

/-- The label of a step is the thread that moves. -/
def spinBarrier (n : Nat) : Machine (State n) (Fin n) := ⟨next⟩

/-- The steps of `next`, one constructor for each outcome of a statement. -/
inductive Step (s : State n) (i : Fin n) : State n → Prop
  | enter (hpc : (s.threads i).pc = .outside) : Step s i (s.move i (s.threads i).enter)
  | readPassed (hpc : (s.threads i).pc = .readPassed) : Step s i
      (s.move i { s.threads i with pc := .fetchAdd, s32passed_old := s.gs32passed })
  | arriveLast (hpc : (s.threads i).pc = .fetchAdd) (hb : s.gs32bar = n - 1) : Step s i
      ({ s with gs32bar := s.gs32bar + 1 }.move i ((s.threads i).arrive .resetBar))
  | arrive (hpc : (s.threads i).pc = .fetchAdd) (hb : s.gs32bar ≠ n - 1) : Step s i
      ({ s with gs32bar := s.gs32bar + 1 }.move i ((s.threads i).arrive .spin))
  | resetBar (hpc : (s.threads i).pc = .resetBar) : Step s i
      ({ s with gs32bar := 0 }.move i { s.threads i with pc := .bumpPassed })
  | bumpPassed (hpc : (s.threads i).pc = .bumpPassed) : Step s i
      ({ s with gs32passed := s.gs32passed + 1 }.move i (s.threads i).ret)
  | spin (hpc : (s.threads i).pc = .spin) (hp : s.gs32passed = (s.threads i).s32passed_old) :
      Step s i s
  | leave (hpc : (s.threads i).pc = .spin) (hp : s.gs32passed ≠ (s.threads i).s32passed_old) :
      Step s i (s.move i (s.threads i).ret)

theorem step_of_next {s t : State n} {i : Fin n} (h : (spinBarrier n).next s i = some t) :
    Step s i t := by
  change next s i = some t at h
  cases hpc : (s.threads i).pc
  all_goals simp only [next, hpc, Option.some.injEq] at h
  all_goals subst h
  case outside => exact .enter hpc
  case readPassed => exact .readPassed hpc
  case fetchAdd =>
    split
    · exact .arriveLast hpc ‹_›
    · exact .arrive hpc ‹_›
  case resetBar => exact .resetBar hpc
  case bumpPassed => exact .bumpPassed hpc
  case spin =>
    split
    · exact .spin hpc ‹_›
    · exact .leave hpc ‹_›

/-! ## Generations

The generation is the number of increments of `gs32passed` so far. A spinning thread has
counted itself in for the current generation, or is a laggard of the one before it. -/

/-- Where a thread stands in generation `g`, with `gs32passed` at `passed`. -/
def Placed (passed : Int32) (g : Nat) (l : Thread) : Prop :=
  match l.pc with
  | .outside => l.entered = l.returned ∧ l.added = l.returned ∧ l.returned = g
  | .readPassed => l.entered = l.returned + 1 ∧ l.added = l.returned ∧ l.returned = g
  | .fetchAdd =>
      l.entered = l.returned + 1 ∧ l.added = l.returned ∧ l.returned = g ∧
        l.s32passed_old = passed
  | .resetBar | .bumpPassed =>
      l.entered = l.returned + 1 ∧ l.added = l.returned + 1 ∧ l.returned = g
  | .spin =>
      l.entered = l.returned + 1 ∧ l.added = l.returned + 1 ∧
        ((l.returned = g ∧ l.s32passed_old = passed) ∨
          (l.returned + 1 = g ∧ passed = l.s32passed_old + 1))

/-- Counted in for generation `g` and spinning. -/
def Waiting (g : Nat) (l : Thread) : Prop := l.pc = .spin ∧ l.returned = g

/-- The last arriver, between its fetch-and-add and its increment of `gs32passed`. -/
def Closing (l : Thread) : Prop := l.pc = .resetBar ∨ l.pc = .bumpPassed

instance (g : Nat) : DecidablePred (Waiting g) := fun _ => inferInstanceAs (Decidable (_ ∧ _))

structure Generation (s : State n) (g : Nat) : Prop where
  placed : ∀ i, Placed s.gs32passed g (s.threads i)
  counted : (∀ i, ¬ Closing (s.threads i)) →
    s.gs32bar = census (Waiting g) s.threads ∧ s.gs32bar < n
  closing : ∀ i, Closing (s.threads i) → ∀ j, j ≠ i → Waiting g (s.threads j)
  reset : ∀ i, (s.threads i).pc = .bumpPassed → s.gs32bar = 0

theorem Placed.returned_le {p : Int32} {g : Nat} {l : Thread} (h : Placed p g l) :
    l.returned ≤ g := by
  unfold Placed at h
  cases hpc : l.pc <;> simp only [hpc] at h <;> omega

theorem Placed.le_added {p : Int32} {g : Nat} {l : Thread} (h : Placed p g l) : g ≤ l.added := by
  unfold Placed at h
  cases hpc : l.pc <;> simp only [hpc] at h <;> omega

/-- A thread that is not spinning rules out a closing thread other than itself. -/
theorem Generation.not_closing {s : State n} {g : Nat} (h : Generation s g) {i : Fin n}
    (hi : (s.threads i).pc ≠ .spin) (hc : ¬ Closing (s.threads i)) (j : Fin n) :
    ¬ Closing (s.threads j) := by
  intro hj
  by_cases hji : i = j
  · subst hji
    exact hc hj
  · exact hi (h.closing j hj i hji).1

/-- The spin test fails only for a laggard of the generation before. -/
theorem Placed.laggard {p : Int32} {g : Nat} {l : Thread} (h : Placed p g l)
    (hpc : l.pc = .spin) (hp : p ≠ l.s32passed_old) :
    l.entered = l.returned + 1 ∧ l.added = l.returned + 1 ∧ l.returned + 1 = g := by
  simp only [Placed, hpc] at h
  obtain ⟨he, ha, hr⟩ := h
  refine ⟨he, ha, ?_⟩
  rcases hr with ⟨_, hold⟩ | ⟨hg, _⟩
  · exact absurd hold.symm hp
  · exact hg

theorem placed_update {p : Int32} {g : Nat} {f : Fin n → Thread} {i : Fin n} {l : Thread}
    (h : ∀ j, Placed p g (f j)) (hl : Placed p g l) (j : Fin n) :
    Placed p g (Function.update f i l j) :=
  forall_update (P := fun _ => Placed p g) h hl j

/-- A move between statements that are neither counted nor closing. -/
theorem Generation.move {s : State n} {g : Nat} {i : Fin n} {l : Thread} (h : Generation s g)
    (hl : Placed s.gs32passed g l) (hw : ¬ Waiting g (s.threads i)) (hw' : ¬ Waiting g l)
    (hc : ¬ Closing (s.threads i)) (hc' : ¬ Closing l) : Generation (s.move i l) g := by
  have hback : ∀ j, Closing ((s.move i l).threads j) → j ≠ i ∧ Closing (s.threads j) := by
    intro j hj
    by_cases hji : j = i
    · subst j
      exact absurd (by simpa [State.move] using hj) hc'
    · exact ⟨hji, by simpa [State.move, hji] using hj⟩
  refine ⟨placed_update h.placed hl, ?_, ?_, ?_⟩
  · intro hno
    have hno' : ∀ j, ¬ Closing (s.threads j) := by
      intro j hj
      by_cases hji : j = i
      · subst j
        exact hc hj
      · exact hno j (by simpa [State.move, hji] using hj)
    have hcount := h.counted hno'
    rw [State.move, census_update_same (by simp [hw, hw'])]
    exact hcount
  · intro j hj
    obtain ⟨hji, hj'⟩ := hback j hj
    exact absurd (h.closing j hj' i hji.symm) hw
  · intro j hj
    obtain ⟨hji, _⟩ := hback j (.inr hj)
    exact h.reset j (by simpa [State.move, hji] using hj)

/-- The last arriver finds everybody else waiting. -/
theorem Generation.arriveLast {s : State n} {g : Nat} {i : Fin n} (h : Generation s g)
    (hpc : (s.threads i).pc = .fetchAdd) (hb : s.gs32bar = n - 1) :
    Generation ({ s with gs32bar := s.gs32bar + 1 }.move i ((s.threads i).arrive .resetBar)) g := by
  have hp := h.placed i
  simp only [Placed, hpc] at hp
  have hopen := h.not_closing (i := i) (by simp [hpc]) (by simp [Closing, hpc])
  obtain ⟨hcount, _⟩ := h.counted hopen
  have hothers : ∀ j, j ≠ i → Waiting g (s.threads j) := by
    intro j hj
    refine forall_of_census (i := i) (by simp [Waiting, hpc]) ?_ hj
    rw [← hcount, hb, Fintype.card_fin]
    have := i.isLt
    omega
  refine ⟨placed_update h.placed ?_, ?_, ?_, ?_⟩
  · exact ⟨hp.1, congrArg (· + 1) hp.2.1, hp.2.2.1⟩
  · intro hno
    exact absurd (.inl (by simp [State.move, Thread.arrive])) (hno i)
  · intro k hk j hj
    have hki : k = i := by
      by_contra hki
      have hk' : Closing (s.threads k) := by simpa [State.move, hki] using hk
      exact hopen k hk'
    subst k
    simpa [State.move, hj] using hothers j hj
  · intro k hk
    by_cases hki : k = i
    · subst k
      simp [State.move, Thread.arrive] at hk
    · have hk' : (s.threads k).pc = .bumpPassed := by simpa [State.move, hki] using hk
      exact absurd (.inr hk') (hopen k)

theorem Generation.arrive {s : State n} {g : Nat} {i : Fin n} (h : Generation s g)
    (hpc : (s.threads i).pc = .fetchAdd) (hb : s.gs32bar ≠ n - 1) :
    Generation ({ s with gs32bar := s.gs32bar + 1 }.move i ((s.threads i).arrive .spin)) g := by
  have hp := h.placed i
  simp only [Placed, hpc] at hp
  have hopen := h.not_closing (i := i) (by simp [hpc]) (by simp [Closing, hpc])
  obtain ⟨hcount, hlt⟩ := h.counted hopen
  have hnone : ∀ k, ¬ Closing
      (({ s with gs32bar := s.gs32bar + 1 }.move i ((s.threads i).arrive .spin)).threads k) := by
    intro k hk
    by_cases hki : k = i
    · subst k
      simp [State.move, Thread.arrive, Closing] at hk
    · exact hopen k (by simpa [State.move, hki] using hk)
  refine ⟨placed_update h.placed ?_, ?_, ?_, ?_⟩
  · exact ⟨hp.1, congrArg (· + 1) hp.2.1, .inl ⟨hp.2.2.1, hp.2.2.2⟩⟩
  · intro _
    have hw : Waiting g ((s.threads i).arrive .spin) := ⟨rfl, hp.2.2.1⟩
    simp only [State.move]
    rw [census_update_enter (by simp [Waiting, hpc]) hw, hcount]
    omega
  · intro k hk
    exact absurd hk (hnone k)
  · intro k hk
    exact absurd (.inr hk) (hnone k)

theorem Generation.resetBar {s : State n} {g : Nat} {i : Fin n} (h : Generation s g)
    (hpc : (s.threads i).pc = .resetBar) :
    Generation ({ s with gs32bar := 0 }.move i { s.threads i with pc := .bumpPassed }) g := by
  have hp := h.placed i
  simp only [Placed, hpc] at hp
  have hothers := h.closing i (.inl hpc)
  refine ⟨placed_update h.placed hp, ?_, ?_, fun _ _ => rfl⟩
  · intro hno
    exact absurd (.inr (by simp [State.move])) (hno i)
  · intro k hk j hj
    have hki : k = i := by
      by_contra hki
      have hk' : Closing (s.threads k) := by simpa [State.move, hki] using hk
      have hspin := (hothers k hki).1
      rcases hk' with hk' | hk' <;> simp [hspin] at hk'
    subst k
    simpa [State.move, hj] using hothers j hj

/-- The increment of `gs32passed` opens the next generation: everybody else becomes a
laggard, and nobody is counted in yet. -/
theorem Generation.bumpPassed {s : State n} {g : Nat} {i : Fin n} (h : Generation s g)
    (hpc : (s.threads i).pc = .bumpPassed) :
    Generation ({ s with gs32passed := s.gs32passed + 1 }.move i (s.threads i).ret) (g + 1) := by
  have hp := h.placed i
  simp only [Placed, hpc] at hp
  have hothers := h.closing i (.inr hpc)
  have hbar := h.reset i hpc
  have hnone : ∀ k, ¬ Closing
      (({ s with gs32passed := s.gs32passed + 1 }.move i (s.threads i).ret).threads k) := by
    intro k hk
    by_cases hki : k = i
    · subst k
      simp [State.move, Thread.ret, Closing] at hk
    · have hspin := (hothers k hki).1
      rcases hk with hk | hk <;> simp [State.move, hki, hspin] at hk
  refine ⟨?_, ?_, ?_, ?_⟩
  · intro j
    by_cases hj : j = i
    · subst j
      simp only [State.move, Function.update_self]
      exact ⟨by simp [Thread.ret, hp], by simp [Thread.ret, hp], by simp [Thread.ret, hp]⟩
    · simp only [State.move, Function.update_of_ne hj]
      obtain ⟨hspin, hret⟩ := hothers j hj
      have hpj := h.placed j
      simp only [Placed, hspin] at hpj ⊢
      obtain ⟨he, ha, hold⟩ := hpj
      refine ⟨he, ha, .inr ⟨by omega, ?_⟩⟩
      rcases hold with ⟨_, hold⟩ | ⟨hg, _⟩
      · rw [hold]
      · omega
  · intro _
    have hzero : census (Waiting (g + 1))
        (({ s with gs32passed := s.gs32passed + 1 }.move i (s.threads i).ret).threads) = 0 := by
      refine census_eq_zero.mpr fun j hj => ?_
      by_cases hji : j = i
      · subst j
        simp [State.move, Thread.ret, Waiting] at hj
      · have hret := (hothers j hji).2
        simp [State.move, hji, Waiting, hret] at hj
    have hn := i.isLt
    rw [hzero]
    change s.gs32bar = 0 ∧ s.gs32bar < n
    omega
  · intro k hk
    exact absurd hk (hnone k)
  · intro k hk
    exact absurd (.inr hk) (hnone k)

theorem generation_init (hn : 1 ≤ n) : Generation (init n) 0 where
  placed := fun i => ⟨rfl, rfl, rfl⟩
  counted := by
    intro _
    have hzero : census (Waiting 0) (init n).threads = 0 :=
      census_eq_zero.mpr fun i hi => by simp [Waiting, init] at hi
    rw [hzero]
    exact ⟨rfl, hn⟩
  closing := by
    intro i hi
    rcases hi with hi | hi <;> simp [init] at hi
  reset := by
    intro i hi
    simp [init] at hi

theorem generation_step {s t : State n} {g : Nat} {i : Fin n} (h : Generation s g)
    (hs : Step s i t) : ∃ g', Generation t g' := by
  have hp := h.placed i
  cases hs with
  | enter hpc =>
      simp only [Placed, hpc] at hp
      refine ⟨g, h.move ⟨?_, hp.2⟩ (by simp [Waiting, hpc]) (by simp [Waiting, Thread.enter])
        (by simp [Closing, hpc]) (by simp [Closing, Thread.enter])⟩
      simp [Thread.enter, hp.1]
  | readPassed hpc =>
      simp only [Placed, hpc] at hp
      exact ⟨g, h.move ⟨hp.1, hp.2.1, hp.2.2, rfl⟩ (by simp [Waiting, hpc]) (by simp [Waiting])
        (by simp [Closing, hpc]) (by simp [Closing])⟩
  | arriveLast hpc hb => exact ⟨g, h.arriveLast hpc hb⟩
  | arrive hpc hb => exact ⟨g, h.arrive hpc hb⟩
  | resetBar hpc => exact ⟨g, h.resetBar hpc⟩
  | bumpPassed hpc => exact ⟨g + 1, h.bumpPassed hpc⟩
  | spin hpc hpass => exact ⟨g, h⟩
  | leave hpc hpass =>
      obtain ⟨he, ha, hg⟩ := hp.laggard hpc hpass
      refine ⟨g, h.move ⟨he, ha, hg⟩ ?_ (by simp [Waiting, Thread.ret]) (by simp [Closing, hpc])
        (by simp [Closing, Thread.ret])⟩
      intro hwait
      obtain ⟨_, hret⟩ := hwait
      omega

end Cse522.Lab02.SpinBarrier

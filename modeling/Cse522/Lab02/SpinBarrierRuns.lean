import Cse522.Lab02.SpinBarrier

/-!
# The spin barrier separates the visits and never blocks for good

The counter threads compare is one word that wraps, and it is only ever compared for
equality with the value before the last increment, so the wrap is harmless.
-/
namespace Cse522.Lab02.SpinBarrier

open Cse522.Interleave Cse522.Clib.Word

variable {n : Nat}

/-- A fetch-and-add is an arrival, a return is a departure. -/
def visits (s : State n) : Visits (Fin n) :=
  ⟨fun i => (s.threads i).added, fun i => (s.threads i).returned⟩

def emit (s : State n) (i : Fin n) (t : State n) : Option (BarrierStep (Fin n)) :=
  if (s.threads i).added < (t.threads i).added then some (.arrive i)
  else if (s.threads i).returned < (t.threads i).returned then some (.depart i)
  else none

theorem visits_move (s : State n) (i : Fin n) (l : Thread) :
    visits (s.move i l) = ⟨Function.update (visits s).arrived i l.added,
      Function.update (visits s).departed i l.returned⟩ := by
  apply Visits.ext
  all_goals
    funext j
    by_cases hj : j = i
    · subst j
      simp [visits, State.move]
    · simp [visits, State.move, hj]

/-- A move that touches neither counter shows no visit. -/
theorem visits_move_same {s : State n} {i : Fin n} {l : Thread}
    (ha : l.added = (s.threads i).added) (hr : l.returned = (s.threads i).returned) :
    visits (s.move i l) = visits s := by
  rw [visits_move, ha, hr]
  exact Visits.ext (Function.update_eq_self i _) (Function.update_eq_self i _)

theorem visits_arrive (s : State n) (i : Fin n) (pc : Pc) :
    visits (s.move i ((s.threads i).arrive pc)) =
      { visits s with
        arrived := Function.update (visits s).arrived i ((visits s).arrived i + 1) } := by
  rw [visits_move]
  exact Visits.ext rfl (Function.update_eq_self i _)

theorem visits_ret (s : State n) (i : Fin n) :
    visits (s.move i (s.threads i).ret) =
      { visits s with
        departed := Function.update (visits s).departed i ((visits s).departed i + 1) } := by
  rw [visits_move]
  exact Visits.ext (Function.update_eq_self i _) rfl

/-- A thread that returns leaves nobody behind its visit. -/
theorem Generation.depart_allowed {s : State n} {g : Nat} (h : Generation s g) {i : Fin n}
    (hi : (s.threads i).pc = .bumpPassed ∨ ((s.threads i).pc = .spin ∧
      s.gs32passed ≠ (s.threads i).s32passed_old)) (j : Fin n) :
    (s.threads i).returned < (s.threads j).added := by
  rcases hi with hpc | ⟨hpc, hp⟩
  · have hpi := h.placed i
    simp only [Placed, hpc] at hpi
    by_cases hj : j = i
    · subst j
      omega
    · obtain ⟨hspin, hret⟩ := h.closing i (.inr hpc) j hj
      have hpj := h.placed j
      simp only [Placed, hspin] at hpj
      omega
  · obtain ⟨_, _, hg⟩ := (h.placed i).laggard hpc hp
    have hle := (h.placed j).le_added
    omega

theorem Generation.arrive_allowed {s : State n} {g : Nat} (h : Generation s g) {i : Fin n}
    (hpc : (s.threads i).pc = .fetchAdd) : (s.threads i).added = (s.threads i).returned := by
  have hp := h.placed i
  simp only [Placed, hpc] at hp
  exact hp.2.1

theorem emit_arrive (s : State n) (i : Fin n) (b : Nat) (pc : Pc) :
    emit s i ({ s with gs32bar := b }.move i ((s.threads i).arrive pc)) = some (.arrive i) := by
  simp [emit, State.move, Thread.arrive]

theorem emit_ret (s : State n) (i : Fin n) (p : Int32) :
    emit s i ({ s with gs32passed := p }.move i (s.threads i).ret) = some (.depart i) := by
  simp [emit, State.move, Thread.ret]

/-- The spin barrier implements the reusable barrier. -/
theorem spinBarrier_refines_barrier : Simulation (spinBarrier n) (barrier (Fin n)) emit
    (fun s v => (∃ g, Generation s g) ∧ visits s = v) where
  silent := by
    rintro s i t v ⟨⟨g, hg⟩, rfl⟩ hn he
    have hs := step_of_next hn
    refine ⟨generation_step hg hs, ?_⟩
    cases hs with
    | enter hpc => exact visits_move_same rfl rfl
    | readPassed hpc => exact visits_move_same rfl rfl
    | arriveLast hpc hb =>
        rw [emit_arrive] at he
        cases he
    | arrive hpc hb =>
        rw [emit_arrive] at he
        cases he
    | resetBar hpc => exact visits_move_same (s := { s with gs32bar := 0 }) rfl rfl
    | bumpPassed hpc =>
        rw [emit_ret] at he
        cases he
    | spin hpc hp => rfl
    | leave hpc hp =>
        have he' := emit_ret s i s.gs32passed
        rw [he] at he'
        cases he'
  visible := by
    rintro s i t v b ⟨⟨g, hg⟩, rfl⟩ hn he
    have hs := step_of_next hn
    refine ⟨visits t, ?_, generation_step hg hs, rfl⟩
    cases hs with
    | enter hpc => simp [emit, State.move, Thread.enter] at he
    | readPassed hpc => simp [emit, State.move] at he
    | arriveLast hpc hb =>
        obtain rfl := Option.some.inj ((emit_arrive s i _ _).symm.trans he)
        exact barrier_arrive.mpr ⟨hg.arrive_allowed hpc,
          (visits_arrive { s with gs32bar := s.gs32bar + 1 } i .resetBar).symm⟩
    | arrive hpc hb =>
        obtain rfl := Option.some.inj ((emit_arrive s i _ _).symm.trans he)
        exact barrier_arrive.mpr ⟨hg.arrive_allowed hpc,
          (visits_arrive { s with gs32bar := s.gs32bar + 1 } i .spin).symm⟩
    | resetBar hpc => simp [emit, State.move] at he
    | bumpPassed hpc =>
        obtain rfl := Option.some.inj ((emit_ret s i _).symm.trans he)
        exact barrier_depart.mpr ⟨hg.depart_allowed (.inl hpc),
          (visits_ret { s with gs32passed := s.gs32passed + 1 } i).symm⟩
    | spin hpc hp => simp [emit] at he
    | leave hpc hp =>
        obtain rfl := Option.some.inj ((emit_ret s i s.gs32passed).symm.trans he)
        exact barrier_depart.mpr ⟨hg.depart_allowed (.inr ⟨hpc, hp⟩), (visits_ret s i).symm⟩

/-- All threads have entered their k-th call, somebody has not returned from it, and
whoever has not spins on the value he saved. -/
def Blocked (s : State n) (k : Nat) : Prop :=
  (∀ i, k ≤ (s.threads i).entered) ∧ (∃ i, (s.threads i).returned < k) ∧
  ∀ i, (s.threads i).returned < k →
    (s.threads i).pc = .spin ∧ s.gs32passed = (s.threads i).s32passed_old

theorem Placed.current {p : Int32} {g : Nat} {l : Thread} (h : Placed p g l)
    (hpc : l.pc = .spin) (hp : p = l.s32passed_old) : l.returned = g := by
  simp only [Placed, hpc] at h
  rcases h.2.2 with ⟨hg, _⟩ | ⟨_, hnext⟩
  · exact hg
  · exact absurd (hnext.symm.trans hp) (add_one_ne l.s32passed_old)

theorem Generation.not_blocked {s : State n} {g : Nat} (h : Generation s g) (k : Nat) :
    ¬ Blocked s k := by
  intro hblocked
  obtain ⟨_, ⟨i, hi⟩, hall⟩ := hblocked
  have hg := (h.placed i).current (hall i hi).1 (hall i hi).2
  have hret : ∀ j, (s.threads j).returned < k := by
    intro j
    have hle := (h.placed j).returned_le
    omega
  have hwait : ∀ j, Waiting g (s.threads j) := by
    intro j
    obtain ⟨hspin, hold⟩ := hall j (hret j)
    exact ⟨hspin, (h.placed j).current hspin hold⟩
  have hopen : ∀ j, ¬ Closing (s.threads j) := by
    intro j hj
    have hspin := (hwait j).1
    rcases hj with hj | hj <;> simp [hspin] at hj
  obtain ⟨hbar, hlt⟩ := h.counted hopen
  rw [census_eq_card.mpr hwait, Fintype.card_fin] at hbar
  omega

/-- In every interleaving nobody returns from a call before all threads have counted
themselves in for it, and no reachable state blocks the callers for good. -/
theorem barrier_wait_correct (hn : 1 ≤ n) {s : State n}
    (h : (spinBarrier n).Reachable (init n) s) :
    (∀ k i, k ≤ (s.threads i).returned → ∀ j, k ≤ (s.threads j).added) ∧
    ∀ k, ¬ Blocked s k := by
  obtain ⟨as, hr⟩ := h
  obtain ⟨v, hv, ⟨g, hg⟩, rfl⟩ :=
    spinBarrier_refines_barrier.run ⟨⟨0, generation_init hn⟩, rfl⟩ hr
  refine ⟨?_, fun k => hg.not_blocked k⟩
  intro k i hk j
  have hsep := barrier_separates ⟨_, hv⟩
  exact hk.trans (hsep i j)

/-- Two threads: one has returned from its first call and entered the second while the
other still spins on the first. -/
theorem barrier_wait_two : ∃ s : State 2, (s.threads 0).returned = 1 ∧ (s.threads 0).entered = 2 ∧
    (∀ j, 1 ≤ (s.threads j).added) ∧ ∀ k, ¬ Blocked s k := by
  have hrun : ∃ s, (spinBarrier 2).run (init 2) [1, 1, 1, 0, 0, 0, 0, 0, 0] = some s ∧
      (s.threads 0).returned = 1 ∧ (s.threads 0).entered = 2 := ⟨_, rfl, by decide, by decide⟩
  obtain ⟨s, hs, hret, hent⟩ := hrun
  obtain ⟨hsep, hblocked⟩ := barrier_wait_correct (by decide) ⟨_, hs⟩
  exact ⟨s, hret, hent, hsep 1 0 hret.ge, hblocked⟩

end Cse522.Lab02.SpinBarrier

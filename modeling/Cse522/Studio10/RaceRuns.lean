import Cse522.Studio10.CounterRuns

/-!
# What the unprotected counter can lose

Nothing orders the load and the store of `race++` in `multi_race`. Whatever the schedule,
`race` and all registers stay between zero and the number of stores; from the first store over a
value that its thread has not loaded on, they stay strictly below it. At the low end, a store
in a second iteration has loaded at least one.
-/
namespace Cse522.Studio10.MultiRace

open Cse522.Interleave Cse522.Clib.Word
open MultiAtomic (Placed)

variable {T I : Nat} {s t : State T} {i : Fin T} {l : Thread}

/-- The same point of the loop with `atomic_add`. -/
def Pc.abs : Pc → MultiAtomic.Pc
  | .start => .start
  | .test => .test
  | .load | .store => .atomicAdd
  | .incr => .incr
  | .finish => .finish
  | .returned => .returned

def Thread.abs (l : Thread) : MultiAtomic.Thread := ⟨l.s32i, l.pc.abs⟩

theorem completed_abs (l : Thread) : l.abs.completed = l.completed := by
  obtain ⟨s32i, loaded, pc⟩ := l
  cases pc <;> rfl

/-! ## What a step does -/

/-- A step of a thread that stores nothing. Its register is new only if it has loaded `race`,
and then it stands in front of the store. -/
structure Quiet (I : Nat) (race : Int32) (l l' : Thread) : Prop where
  completed : l'.completed = l.completed
  placed : Placed I l.abs → Placed I l'.abs
  loaded : l'.loaded = l.loaded ∨ l'.loaded = race
  store : l'.pc = .store → l'.loaded = race ∧ l'.s32i = l.s32i

/-- What thread `i` leaves behind its store. -/
def State.stored (s : State T) (i : Fin T) : State T :=
  { s with race := (s.threads i).loaded + 1 }.move i
    ⟨(s.threads i).s32i, (s.threads i).loaded, .incr⟩

theorem step_cases (hp : Placed I (s.threads i).abs) (hn : (multiRace T I).next s i = some t) :
    ((s.threads i).pc = .store ∧ t = s.stored i) ∨
    ((s.threads i).pc ≠ .store ∧ ∃ l, t = s.move i l ∧ Quiet I s.race (s.threads i) l) := by
  simp only [multiRace, mykthread] at hn
  cases hpc : (s.threads i).pc <;>
    simp only [hpc, Option.some.injEq, Thread.abs, Pc.abs, Placed] at hn hp
  case store => exact .inl ⟨rfl, hn.symm⟩
  case returned => cases hn
  all_goals refine .inr ⟨by simp, _, hn.symm, ?_⟩
  case start =>
      exact ⟨by simp [Thread.completed, hpc, hp], fun _ => Nat.zero_le I, .inl rfl, by simp⟩
  case test =>
      by_cases hlt : (s.threads i).s32i < I
      · rw [if_pos hlt]
        exact ⟨by simp [Thread.completed, hpc], fun _ => hlt, .inl rfl, by simp⟩
      · rw [if_neg hlt]
        refine ⟨by simp [Thread.completed, hpc], fun _ => ?_, .inl rfl, by simp⟩
        show (s.threads i).s32i = I
        omega
  case load =>
      exact ⟨by simp [Thread.completed, hpc], fun _ => hp, .inr rfl, fun _ => ⟨rfl, rfl⟩⟩
  case incr => exact ⟨by simp [Thread.completed, hpc], fun _ => hp, .inl rfl, by simp⟩
  case finish => exact ⟨by simp [Thread.completed, hpc], fun _ => hp, .inl rfl, by simp⟩

theorem total_move (s : State T) (i : Fin T) (l : Thread) :
    (s.move i l).total + (s.threads i).completed = s.total + l.completed :=
  sum_update Thread.completed s.threads i l

theorem Quiet.total (h : Quiet I s.race (s.threads i) l) : (s.move i l).total = s.total := by
  have htotal := total_move s i l
  have hcompleted := h.completed
  omega

/-- A store is counted. -/
theorem total_stored (h : (s.threads i).pc = .store) : (s.stored i).total = s.total + 1 := by
  have htotal := total_move { s with race := (s.threads i).loaded + 1 } i
    ⟨(s.threads i).s32i, (s.threads i).loaded, .incr⟩
  simp only [Thread.completed, h, if_true, reduceCtorEq, if_false] at htotal
  show State.total (State.move _ _ _) = s.total + 1
  have hsame : State.total ⟨(s.threads i).loaded + 1, s.threads⟩ = s.total := rfl
  omega

/-! ## Where the threads stand -/

structure AllPlaced (I : Nat) (s : State T) : Prop where
  placed : ∀ i, Placed I (s.threads i).abs

theorem allPlaced_init (T I : Nat) : AllPlaced I (init T) := ⟨fun _ => rfl⟩

theorem allPlaced_step (h : AllPlaced I s) (hn : (multiRace T I).next s i = some t) :
    AllPlaced I t := by
  have hp := h.placed i
  rcases step_cases hp hn with ⟨hpc, rfl⟩ | ⟨-, l, rfl, hq⟩
  · simp only [Thread.abs, hpc, Pc.abs, Placed] at hp
    exact ⟨forall_update (P := fun _ (l : Thread) => Placed I l.abs) h.placed hp⟩
  · exact ⟨forall_update (P := fun _ (l : Thread) => Placed I l.abs) h.placed (hq.placed hp)⟩

theorem AllPlaced.completed_le (h : AllPlaced I s) (i : Fin T) : (s.threads i).completed ≤ I := by
  rw [← completed_abs]
  exact (h.placed i).completed_le

theorem AllPlaced.total_le (h : AllPlaced I s) : s.total ≤ T * I := by
  have hsum : s.total ≤ ∑ _i : Fin T, I := Finset.sum_le_sum fun i _ => h.completed_le i
  simpa using hsum

theorem AllPlaced.completed_of_returned (h : AllPlaced I s)
    (hpc : (s.threads i).pc = .returned) : (s.threads i).completed = I := by
  have hp := h.placed i
  simp only [Thread.abs, hpc, Pc.abs, Placed] at hp
  simp [Thread.completed, hpc, hp]

theorem AllPlaced.total_of_returned (h : AllPlaced I s)
    (hret : ∀ i, (s.threads i).pc = .returned) : s.total = T * I := by
  have hsum : s.total = ∑ _i : Fin T, I :=
    Finset.sum_congr rfl fun i _ => h.completed_of_returned (hret i)
  simpa using hsum

theorem completed_le_total (s : State T) (i : Fin T) : (s.threads i).completed ≤ s.total :=
  Finset.single_le_sum (f := fun j => (s.threads j).completed) (fun _ _ => Nat.zero_le _)
    (Finset.mem_univ i)

/-! ## The high end -/

/-- `race` and all registers are `d` or more below the number of stores. -/
structure Below (d : Int) (s : State T) : Prop where
  race : 0 ≤ s.race.toInt ∧ s.race.toInt + d ≤ s.total
  loaded : ∀ i, 0 ≤ (s.threads i).loaded.toInt ∧ (s.threads i).loaded.toInt + d ≤ s.total

theorem below_init (T : Nat) : Below 0 (init T) := by
  have hzero : (0 : Int32).toInt = 0 := rfl
  constructor
  · simp [init, hzero]
  · intro i
    simp [init, hzero]

/-- The value that a thread stores. -/
theorem Below.toInt_succ {d : Int} (h : Below d s) (hd : 0 ≤ d) (hfit : s.total < 2147483647) :
    ((s.threads i).loaded + 1).toInt = (s.threads i).loaded.toInt + 1 := by
  have hl := h.loaded i
  rw [toInt_add_one, if_neg]
  omega

/-- The value stored is new, and the registers are as far below as before or one further. -/
theorem Below.stored {d e : Int} (h : Below d s) (hd : 0 ≤ d) (hfit : s.total < 2147483647)
    (hpc : (s.threads i).pc = .store) (he : e ≤ d + 1)
    (hi : (s.threads i).loaded.toInt + e ≤ s.total) : Below e (s.stored i) := by
  have hsucc := h.toInt_succ (i := i) hd hfit
  have hl := h.loaded i
  have htotal : ((s.stored i).total : Int) = s.total + 1 := by
    rw [total_stored hpc]
    push_cast
    rfl
  constructor
  · show 0 ≤ ((s.threads i).loaded + 1).toInt ∧ ((s.threads i).loaded + 1).toInt + e ≤ _
    omega
  · rw [htotal]
    refine forall_update
      (P := fun _ (l : Thread) =>
        0 ≤ l.loaded.toInt ∧ l.loaded.toInt + e ≤ (s.total : Int) + 1) (fun j => ?_) ?_
    · have hj : 0 ≤ (s.threads j).loaded.toInt ∧ _ := h.loaded j
      show 0 ≤ (s.threads j).loaded.toInt ∧ (s.threads j).loaded.toInt + e ≤ _
      omega
    · show 0 ≤ (s.threads i).loaded.toInt ∧ (s.threads i).loaded.toInt + e ≤ _
      omega

theorem AllPlaced.total_lt (hp : AllPlaced I s) (hfit : T * I < 2147483648)
    (hpc : (s.threads i).pc = .store) : s.total < 2147483647 := by
  have hn : (multiRace T I).next s i = some (s.stored i) := by
    simp only [multiRace, mykthread, hpc]
    rfl
  have hle := (allPlaced_step hp hn).total_le
  rw [total_stored hpc] at hle
  omega

theorem below_step {d : Int} (hd : 0 ≤ d) (h : Below d s) (hp : AllPlaced I s)
    (hfit : T * I < 2147483648) (hn : (multiRace T I).next s i = some t) : Below d t := by
  rcases step_cases (hp.placed i) hn with ⟨hpc, rfl⟩ | ⟨-, l, rfl, hq⟩
  · exact h.stored hd (hp.total_lt hfit hpc) hpc (by omega) (h.loaded i).2
  · constructor
    · rw [hq.total]
      exact h.race
    · rw [hq.total]
      refine forall_update
        (P := fun _ (l : Thread) => 0 ≤ l.loaded.toInt ∧ l.loaded.toInt + d ≤ (s.total : Int))
        h.loaded ?_
      rcases hq.loaded with hl | hl
      · rw [hl]
        exact h.loaded i
      · rw [hl]
        exact h.race

theorem reachable_below (hfit : T * I < 2147483648) (hr : (multiRace T I).Reachable (init T) s) :
    AllPlaced I s ∧ Below 0 s := by
  refine hr.invariant (I := fun s => AllPlaced I s ∧ Below 0 s) ?_
    ⟨allPlaced_init T I, below_init T⟩
  intro s i t h hn
  exact ⟨allPlaced_step h.1 hn, below_step (Int.le_refl 0) h.2 h.1 hfit hn⟩

/-! ## Lost updates -/

/-- As long as all stores are fresh, `race` is their number. A store that is not writes at most
the value that is there already. -/
theorem race_step (hb : Below 0 s) (hp : AllPlaced I s) (hfit : T * I < 2147483648)
    (heq : s.race.toInt = s.total) (hn : (multiRace T I).next s i = some t) :
    (Fresh s i t ∧ t.race.toInt = t.total) ∨ (¬ Fresh s i t ∧ Below 1 t) := by
  rcases step_cases (hp.placed i) hn with ⟨hpc, rfl⟩ | ⟨hpc, l, rfl, hq⟩
  · have hlt := hp.total_lt hfit hpc
    by_cases hfresh : (s.threads i).loaded = s.race
    · refine .inl ⟨fun _ => hfresh, ?_⟩
      show ((s.threads i).loaded + 1).toInt = _
      rw [total_stored hpc, hb.toInt_succ (Int.le_refl 0) hlt, hfresh, heq]
      push_cast
      rfl
    · refine .inr ⟨fun h => hfresh (h hpc), hb.stored (Int.le_refl 0) hlt hpc (by decide) ?_⟩
      have hne : (s.threads i).loaded.toInt ≠ s.race.toInt := fun h =>
        hfresh (Int32.toInt_inj.mp h)
      have hl := (hb.loaded i).2
      omega
  · refine .inl ⟨fun h => absurd h hpc, ?_⟩
    rw [hq.total]
    exact heq

/-- Along a run, either all stores are fresh and `race` is their number, or some store is not
and `race` is below their number at the end. -/
theorem fresh_or_below (hfit : T * I < 2147483648) {as : List (Fin T)} (hp : AllPlaced I s)
    (hb : Below 0 s) (heq : s.race.toInt = s.total) (hr : (multiRace T I).run s as = some t) :
    ((multiRace T I).Along Fresh s as ∧ t.race.toInt = t.total) ∨
      (¬ (multiRace T I).Along Fresh s as ∧ Below 1 t) := by
  induction as generalizing s with
  | nil =>
      obtain rfl := Machine.run_nil.mp hr
      exact .inl ⟨trivial, heq⟩
  | cons i as ih =>
      obtain ⟨q, hq, hr⟩ := Machine.run_cons.mp hr
      have hpq := allPlaced_step hp hq
      rw [Machine.along_cons_of_next hq]
      rcases race_step hb hp hfit heq hq with ⟨hfresh, hqeq⟩ | ⟨hfresh, hlost⟩
      · have hbq := below_step (Int.le_refl 0) hb hp hfit hq
        rcases ih hpq hbq hqeq hr with ⟨hrest, ht⟩ | ⟨hrest, ht⟩
        · exact .inl ⟨⟨hfresh, hrest⟩, ht⟩
        · exact .inr ⟨fun h => hrest h.2, ht⟩
      · refine .inr ⟨fun h => hfresh h.1, ?_⟩
        -- what is lost is not made up for by the steps that follow
        have hinv : AllPlaced I t ∧ Below 1 t := by
          refine Machine.Reachable.invariant (I := fun s => AllPlaced I s ∧ Below 1 s) ?_
            ⟨hpq, hlost⟩ ⟨as, hr⟩
          intro s j r h hn
          exact ⟨allPlaced_step h.1 hn, below_step (by decide) h.2 h.1 hfit hn⟩
        exact hinv.2

/-- When all threads have returned, `race` holds the full total if and only if, along the whole
run, every store wrote over the value that its thread had loaded. -/
theorem race_exact_iff_fresh (T I : Nat) (hfit : T * I < 2147483648) (as : List (Fin T))
    (s : State T) (hr : (multiRace T I).run (init T) as = some s)
    (hret : ∀ i, (s.threads i).pc = .returned) :
    s.race.toInt = T * I ↔ (multiRace T I).Along Fresh (init T) as := by
  have hzero : (init T).race.toInt = (init T).total := by
    simp [init, State.total, Thread.completed]
  have hp := (reachable_below hfit ⟨as, hr⟩).1
  have htotal := hp.total_of_returned hret
  rcases fresh_or_below hfit (allPlaced_init T I) (below_init T) hzero hr with
    ⟨hfresh, heq⟩ | ⟨hfresh, hlost⟩
  · refine iff_of_true ?_ hfresh
    rw [heq, htotal]
    push_cast
    rfl
  · refine iff_of_false ?_ hfresh
    have hrace := hlost.race.2
    rw [htotal] at hrace
    push_cast at hrace
    omega

/-- Both threads load zero. -/
theorem race_exact_iff_fresh_two_one :
    ∃ s, (multiRace 2 1).run (init 2) [0, 0, 0, 1, 1, 1, 0, 0, 0, 0, 1, 1, 1, 1] = some s ∧
      (s.race.toInt = (2 : Nat) * (1 : Nat) ↔
        (multiRace 2 1).Along Fresh (init 2) [0, 0, 0, 1, 1, 1, 0, 0, 0, 0, 1, 1, 1, 1]) :=
  ⟨_, rfl, race_exact_iff_fresh 2 1 (by decide) _ _ rfl (by decide)⟩

/-! ## The low end -/

/-- The first store leaves at least one, and a thread that loads behind its first iteration
loads at least one. At least two is left as soon as every thread is in its second. -/
structure Grown (s : State T) : Prop where
  race : s.total = 0 ∨ 1 ≤ s.race.toInt
  loaded : ∀ i, (s.threads i).pc = .store → (s.threads i).s32i = 0 ∨
    1 ≤ (s.threads i).loaded.toInt
  second : 2 ≤ s.race.toInt ∨ ∃ i, (s.threads i).completed ≤ 1

theorem grown_init (hT : 0 < T) : Grown (init T) where
  race := .inl (by simp [init, State.total, Thread.completed])
  loaded i h := by simp [init] at h
  second := .inr ⟨⟨0, hT⟩, by simp [init, Thread.completed]⟩

theorem grown_step (h : Grown s) (hb : Below 0 s) (hp : AllPlaced I s)
    (hfit : T * I < 2147483648) (hn : (multiRace T I).next s i = some t) : Grown t := by
  rcases step_cases (hp.placed i) hn with ⟨hpc, rfl⟩ | ⟨-, l, rfl, hq⟩
  · have hsucc := hb.toInt_succ (i := i) (Int.le_refl 0) (hp.total_lt hfit hpc)
    have hl := hb.loaded i
    constructor
    · right
      show 1 ≤ ((s.threads i).loaded + 1).toInt
      omega
    · exact forall_update
        (P := fun _ (l : Thread) => l.pc = .store → l.s32i = 0 ∨ 1 ≤ l.loaded.toInt)
        h.loaded (by simp)
    · rcases h.loaded i hpc with hfirst | hlater
      · right
        refine ⟨i, ?_⟩
        simp [State.stored, State.move, Thread.completed, hfirst]
      · left
        show 2 ≤ ((s.threads i).loaded + 1).toInt
        omega
  · constructor
    · rw [hq.total]
      exact h.race
    · refine forall_update
        (P := fun _ (l : Thread) => l.pc = .store → l.s32i = 0 ∨ 1 ≤ l.loaded.toInt)
        h.loaded fun hstore => ?_
      obtain ⟨hload, hs32i⟩ := hq.store hstore
      rw [hload, hs32i]
      rcases h.race with hzero | hone
      · have hle := completed_le_total s i
        unfold Thread.completed at hle
        exact .inl (by omega)
      · exact .inr hone
    · rcases h.second with htwo | ⟨j, hj⟩
      · exact .inl htwo
      · refine .inr ⟨j, ?_⟩
        by_cases hji : j = i
        · subst hji
          simpa [State.move, hq.completed] using hj
        · simpa [State.move, hji] using hj

theorem grown_of_reachable (hT : 0 < T) (hfit : T * I < 2147483648)
    (hr : (multiRace T I).Reachable (init T) s) : Grown s := by
  have hinv : (AllPlaced I s ∧ Below 0 s) ∧ Grown s := by
    refine hr.invariant (I := fun s => (AllPlaced I s ∧ Below 0 s) ∧ Grown s) ?_
      ⟨⟨allPlaced_init T I, below_init T⟩, grown_init hT⟩
    intro s i t h hn
    obtain ⟨⟨hp, hb⟩, hg⟩ := h
    exact ⟨⟨allPlaced_step hp hn, below_step (Int.le_refl 0) hb hp hfit hn⟩,
      grown_step hg hb hp hfit hn⟩
  exact hinv.2

theorem final_race_bounds (hT : 0 < T) (hfit : T * I < 2147483648)
    (hr : (multiRace T I).Reachable (init T) s) (hret : ∀ i, (s.threads i).pc = .returned) :
    ((min 2 I : Nat) : Int) ≤ s.race.toInt ∧ s.race.toInt ≤ T * I := by
  obtain ⟨hp, hb⟩ := reachable_below hfit hr
  have hg := grown_of_reachable hT hfit hr
  have htotal := hp.total_of_returned hret
  have hrace := hb.race
  rw [htotal] at hrace
  push_cast at hrace
  refine ⟨?_, by omega⟩
  rcases hg.second with htwo | ⟨i, hi⟩
  · omega
  · rw [hp.completed_of_returned (hret i)] at hi
    rcases hg.race with hzero | hone
    · have hle := completed_le_total s i
      rw [hp.completed_of_returned (hret i)] at hle
      omega
    · omega

end Cse522.Studio10.MultiRace

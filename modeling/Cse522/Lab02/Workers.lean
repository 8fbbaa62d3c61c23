import Cse522.Lab02.DispatcherRuns
import Cse522.Lab02.Gates

/-!
# The whole of `work_fxn`

Every worker first waits at the barrier of the build and then takes its numbers. No number is
taken before all workers have arrived, and from wherever a run stands it can be continued until
all workers have returned, each with as many numbers as there are rounds.
-/
namespace Cse522.Lab02

open Cse522.Interleave
open Cse522.Lab02.Parsing (ProfArg gstrArg SCHED_RR parsingInput)

namespace Dispatcher

variable {T R : Nat} {arg : ProfArg} {s t : State T} {i : Fin T} {l : Worker}

/-- A bound on the steps that a worker has left. -/
def Worker.rank (arg : ProfArg) (R : Nat) (l : Worker) : Nat :=
  let s32itermax := arg.s32iter.toNat
  let rest := (R - l.s32round - 1) * (s32itermax + 8)
  match l.pc with
  | .roundTest => if l.s32round < R then rest + s32itermax + 8 else 1
  | .lock => rest + s32itermax + 7
  | .saveIdx => rest + s32itermax + 6
  | .advance => rest + s32itermax + 5
  | .unlock => rest + s32itermax + 4
  | .readCabin => rest + s32itermax + 3
  | .iterTest => rest + (s32itermax - l.s32iter) + 2
  | .finished => 0

def State.rank (arg : ProfArg) (R : Nat) (s : State T) : Nat := ∑ i, (s.workers i).rank arg R

theorem rank_move {x : Int} {o : Option (Fin T)} {picks : List (Pick T)} {reads : List (Read T)}
    (h : l.rank arg R < (s.workers i).rank arg R) :
    (State.move ⟨x, o, s.workers, picks, reads⟩ i l).rank arg R < s.rank arg R := by
  refine sum_lt i ?_ fun j hj => ?_
  · simpa [State.move] using h
  · simp [State.move, hj]

/-- The next round is one of those left. -/
theorem rank_nextRound (hpc : l.pc = .iterTest) :
    ({ l with pc := .roundTest, s32round := l.s32round + 1 } : Worker).rank arg R <
      l.rank arg R := by
  simp only [Worker.rank, hpc]
  split
  case isTrue hnext =>
    have hrest : R - l.s32round - 1 = R - (l.s32round + 1) - 1 + 1 := by omega
    rw [hrest, Nat.succ_mul]
    omega
  case isFalse => omega

theorem rank_step (hc : Configured arg R)
    (hn : (dispatcher arg T).next s i = some t) : t.rank arg R < s.rank arg R := by
  have hround := hc.round
  cases step_of_next hn with
  | start hpc hr =>
      have hlt : (s.workers i).s32round < R := by omega
      exact rank_move (by simp [Worker.rank, hpc, hlt])
  | finish hpc hr =>
      have hlt : ¬ (s.workers i).s32round < R := by omega
      exact rank_move (by simp [Worker.rank, hpc, hlt])
  | lock hpc hfree => exact rank_move (by simp [Worker.rank, hpc])
  | saveIdx hpc => exact rank_move (by simp [Worker.rank, hpc])
  | advance hpc => exact rank_move (by simp [Worker.rank, hpc])
  | unlock hpc hown => exact rank_move (by simp [Worker.rank, hpc])
  | readCabin hpc =>
      refine rank_move ?_
      simp only [Worker.rank, hpc]
      omega
  | iterate hpc hi =>
      refine rank_move ?_
      simp only [Worker.rank, hpc]
      omega
  | nextRound hpc hi => exact rank_move (rank_nextRound hpc)

/-- The owner of the index lock can move, and so can anybody while it is free. -/
theorem RoundRobin.exists_moving (h : RoundRobin arg R s)
    (hi : (s.workers i).pc ≠ .finished) : ∃ j t, (dispatcher arg T).next s j = some t := by
  cases hm : s.gmutex_cabinidx with
  | some j =>
      rcases (h.owner j).mpr hm with hpc | hpc | hpc
      · exact ⟨j, by simp [dispatcher, next, hpc]⟩
      · exact ⟨j, by simp [dispatcher, next, hpc]⟩
      · exact ⟨j, by simp [dispatcher, next, hpc, hm, mutex]⟩
  | none =>
      have hfree := h.owner.eq_none_iff.mp hm i
      refine ⟨i, ?_⟩
      cases hpc : (s.workers i).pc <;> simp_all [Holds, dispatcher, next, mutex]

theorem dispatcher_descends (hc : Configured arg R) :
    (dispatcher arg T).Descends (RoundRobin arg R) (fun s => ∀ i, (s.workers i).pc = .finished)
      (State.rank arg R) := by
  intro s h hnot
  obtain ⟨i, hi⟩ := not_forall.mp hnot
  obtain ⟨j, t, ht⟩ := h.exists_moving hi
  exact ⟨j, t, ht, roundRobin_step hc h ht, rank_step hc ht⟩

end Dispatcher

/-- What `work_fxn` is compiled with. -/
inductive Build where
  /-- `CUSTOM_BARRIER`, and `CUSTOM_SLEEP_BARRIER` for its variables -/
  | customBarrier
  /-- `CUSTOM_SPIN_BARRIER` -/
  | customSpinBarrier
  | default
  deriving DecidableEq, Repr

def Build.gate (T : Nat) (hT : 1 ≤ T) : Build → Gate (Fin T)
  | .customBarrier => sleepGate T
  | .customSpinBarrier => spinGate T hT
  | .default => pthreadGate T

/-- `T` workers, from their barrier to their return. -/
def workFxn (build : Build) (arg : ProfArg) (T : Nat) (hT : 1 ≤ T) :
    Machine ((build.gate T hT).σ × Dispatcher.State T) ((build.gate T hT).ℓ ⊕ Fin T) :=
  (build.gate T hT).behind (Dispatcher.dispatcher arg T)

variable {T R : Nat} {arg : ProfArg}

open Dispatcher in
/-- In every build and every interleaving: once a number has been taken, all workers have
arrived at the barrier; and the run can be continued until all workers are through the barrier
and have finished, and then each has taken `R` numbers. -/
theorem work_fxn_starts_together_and_ends (build : Build) {mallocOk : Bool} {argv : List String}
    {arg₀ arg : ProfArg} (hparse : parsingInput mallocOk argv arg₀ = (0, arg)) (hT : 1 ≤ T)
    {p : (build.gate T hT).σ × State T}
    (hr : (workFxn build { arg with s32round := R } T hT).Reachable
      ((build.gate T hT).init, init T) p) :
    (p.2.picks ≠ [] → ∀ j, (build.gate T hT).Arrived p.1 j) ∧
    ∃ q, (workFxn build { arg with s32round := R } T hT).Reachable p q ∧
      (∀ i, (build.gate T hT).Through q.1 i ∧ (q.2.workers i).pc = .finished) ∧
      q.2.picks.length = T * R ∧ ∀ i, picksOf q.2.picks i = R := by
  have hc := configured_of_parsingInput hparse R
  have hopened := Gate.opened_of_reachable hr
  constructor
  · intro hpicks j
    refine hopened.all_arrived (fun heq => hpicks ?_) j
    rw [heq]
    rfl
  · have hdescends := @Gate.Opened.descends _ _ (build.gate T hT) _ (init T) _ _ _
      (dispatcher_descends hc) fun hw => roundRobin_reachable hc hw
    obtain ⟨q, hq, hopenedq, hall, hfin⟩ := hdescends.completes hopened
    have hrr := roundRobin_reachable hc hopenedq.work
    exact ⟨q, hq, fun i => ⟨hall i, hfin i⟩, hrr.length_finished hfin,
      fun i => hrr.picksOf_finished (hfin i)⟩

/-- One worker sleeps in the block; the other one opens it and takes its number, while the first
has been woken and has not run yet. -/
def overtaking : List (SleepBarrier.Act 2 ⊕ Fin 2) :=
  let first : Fin 2 := ⟨0, by decide⟩
  let second : Fin 2 := ⟨1, by decide⟩
  List.replicate 5 (.inl (.thread first)) ++ List.replicate 5 (.inl (.thread second)) ++
    List.replicate 3 (.inr second)

/-- `./run SCHED_RR 1 1 7 8` with two workers and the sleep barrier. -/
theorem work_fxn_ends_two :
    ∃ p q : SleepBarrier.State 2 × Dispatcher.State 2,
      (workFxn .customBarrier ⟨2, (0, 0), SCHED_RR, (1 : Nat), 1, 2, [7, 8]⟩ 2 (by decide)).run
        (SleepBarrier.init 2, Dispatcher.init 2) overtaking = some p ∧
      p.1.pcs 0 = .reacquire ∧ p.2.picks.length = 1 ∧
      (∀ j, ¬ SleepBarrier.Before (p.1.pcs j)) ∧
      (workFxn .customBarrier ⟨2, (0, 0), SCHED_RR, (1 : Nat), 1, 2, [7, 8]⟩ 2
        (by decide)).Reachable p q ∧
      (∀ i, (q.2.workers i).pc = .finished) ∧ q.2.picks.length = 2 * 1 := by
  have hparse : parsingInput true ["./run", "SCHED_RR", "1", "1", "7", "8"] gstrArg =
      (0, ⟨2, (0, 0), SCHED_RR, 1, 1, 2, [7, 8]⟩) := by decide +kernel
  have hT : 1 ≤ 2 := by decide
  have hrun : ∃ p : SleepBarrier.State 2 × Dispatcher.State 2,
      (workFxn .customBarrier ⟨2, (0, 0), SCHED_RR, (1 : Nat), 1, 2, [7, 8]⟩ 2 hT).run
        (SleepBarrier.init 2, Dispatcher.init 2) overtaking = some p ∧
      p.1.pcs 0 = .reacquire ∧ p.2.picks.length = 1 := ⟨_, rfl, rfl, rfl⟩
  obtain ⟨p, hp, hpc, hpicks⟩ := hrun
  obtain ⟨harrived, q, hq, hend, hlen, -⟩ :=
    work_fxn_starts_together_and_ends (T := 2) (R := 1) .customBarrier hparse hT ⟨_, hp⟩
  have hne : p.2.picks ≠ [] := List.ne_nil_of_length_pos (by omega)
  exact ⟨p, q, hp, hpc, hpicks, harrived hne, hq, fun i => (hend i).2, hlen⟩

end Cse522.Lab02

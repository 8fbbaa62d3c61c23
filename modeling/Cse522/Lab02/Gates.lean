import Mathlib.Algebra.Order.BigOperators.Group.Finset
import Cse522.Interleave.Phases
import Cse522.Lab02.SleepBarrierRuns
import Cse522.Lab02.SpinBarrierRuns

/-!
# The barriers of the three builds as gates

`work_fxn` waits at one barrier, once. It is the block with the condition variable under
`CUSTOM_BARRIER`, `barrier_wait` under `CUSTOM_SPIN_BARRIER`, and `pthread_barrier_wait` else.
Each separates the threads, and from every state it can be run until all of them are through.
-/
namespace Cse522.Lab02

open Cse522.Interleave

/-- One term is smaller and none is greater. -/
theorem sum_lt {T : Nat} {f g : Fin T → Nat} (i : Fin T) (hi : f i < g i)
    (hle : ∀ j, j ≠ i → f j ≤ g j) : ∑ j, f j < ∑ j, g j := by
  refine Finset.sum_lt_sum (fun j _ => ?_) ⟨i, Finset.mem_univ i, hi⟩
  by_cases hj : j = i
  · rw [hj]
    exact Nat.le_of_lt hi
  · exact hle j hj

namespace SleepBarrier

variable {T : Nat} {s t : State T} {i : Fin T}

/-- How far the thread is from the end of the block, without wakeups that nobody has sent.
While the counter is not zero, a woken thread goes back to sleep. -/
def Pc.rank (gs32remain : Int) : Pc → Nat
  | .lock => 9
  | .decrement => 8
  | .test => 7
  | .broadcast => 2
  | .whileTest => if gs32remain = 0 then 2 else 6
  | .wait => 5
  | .asleep => 4
  | .reacquire => if gs32remain = 0 then 3 else 7
  | .unlock => 1
  | .left => 0

def State.rank (s : State T) : Nat := ∑ i, (s.pcs i).rank s.gs32remain

/-- A thread moves and the counter stays. -/
theorem rank_move {pc : Pc} (o : Option (Fin T))
    (h : pc.rank s.gs32remain < (s.pcs i).rank s.gs32remain) :
    ({ s with gmutex_barrier := o }.move i pc).rank < s.rank := by
  refine sum_lt i ?_ fun j hj => ?_
  · simpa [State.move] using h
  · simp [State.move, hj]

theorem rank_decrement (h : Counted s) (hpc : s.pcs i = .decrement) :
    ({ s with gs32remain := s.gs32remain - 1 }.move i .test).rank < s.rank := by
  have hpos := h.remain_pos (i := i) (.inr hpc)
  have hne : ¬ s.gs32remain = 0 := by omega
  refine sum_lt i ?_ fun j hj => ?_
  · simp [State.move, hpc, Pc.rank]
  · -- the block may open for the others
    simp only [State.move, Function.update_of_ne hj]
    cases s.pcs j <;> simp only [Pc.rank, Nat.le_refl, hne, if_false]
    all_goals split <;> simp

theorem rank_broadcast (h : Counted s) (hpc : s.pcs i = .broadcast) :
    ({ s with pcs := fun j => wake (s.pcs j), announced := true }.move i .unlock).rank <
      s.rank := by
  have hzero : s.gs32remain = 0 := h.through i (.inl hpc)
  refine sum_lt i ?_ fun j hj => ?_
  · simp [State.move, hpc, Pc.rank]
  · simp only [State.move, Function.update_of_ne hj, hzero]
    cases s.pcs j <;> simp [wake, Pc.rank]

theorem rank_thread (h : Counted s) (hn : (sleepBarrier T).next s (.thread i) = some t) :
    t.rank < s.rank := by
  cases step_of_next hn with
  | lock hpc hfree => exact rank_move (some i) (by simp [hpc, Pc.rank])
  | decrement hpc => exact rank_decrement h hpc
  | last hpc h0 => exact rank_move s.gmutex_barrier (by simp [hpc, Pc.rank])
  | notLast hpc h0 => exact rank_move s.gmutex_barrier (by simp [hpc, Pc.rank, h0])
  | broadcast hpc => exact rank_broadcast h hpc
  | closed hpc h0 => exact rank_move s.gmutex_barrier (by simp [hpc, Pc.rank, h0])
  | opened hpc h0 => exact rank_move s.gmutex_barrier (by simp [hpc, Pc.rank, h0])
  | wait hpc hown => exact rank_move none (by simp [hpc, Pc.rank])
  | reacquire hpc hfree =>
      refine rank_move (some i) ?_
      by_cases h0 : s.gs32remain = 0 <;> simp [hpc, Pc.rank, h0]
  | unlock hpc hown => exact rank_move none (by simp [hpc, Pc.rank])

/-- A thread that has left is not the one that moves. -/
theorem left_move {f : Fin T → Pc} {pc : Pc} {j : Fin T} (hi : s.pcs i ≠ .left)
    (hj : s.pcs j = .left) (hf : f j = .left) : Function.update f i pc j = .left := by
  have hji : j ≠ i := fun h => hi (h ▸ hj)
  rw [Function.update_of_ne hji]
  exact hf

theorem left_step {a : Act T} (hn : (sleepBarrier T).next s a = some t) (j : Fin T)
    (hj : s.pcs j = .left) : t.pcs j = .left := by
  cases step_of_next hn with
  | broadcast hpc => exact left_move (by simp [hpc]) hj (by simp [hj, wake])
  | lock hpc | decrement hpc | last hpc | notLast hpc | closed hpc | opened hpc | wait hpc
  | reacquire hpc | unlock hpc | spurious hpc => exact left_move (by simp [hpc]) hj hj

end SleepBarrier

/-- The gate of the build with `CUSTOM_BARRIER`. -/
def sleepGate (T : Nat) : Gate (Fin T) where
  σ := SleepBarrier.State T
  ℓ := SleepBarrier.Act T
  machine := SleepBarrier.sleepBarrier T
  init := SleepBarrier.init T
  Arrived s i := ¬ SleepBarrier.Before (s.pcs i)
  Through s i := s.pcs i = .left
  decThrough _ _ := inferInstance
  Inv := SleepBarrier.Counted
  rank := SleepBarrier.State.rank
  inv_init := SleepBarrier.counted_init T
  inv_step := SleepBarrier.counted_step
  through_step j _ hn := SleepBarrier.left_step hn j
  separates i j h hi hj := by
    have hzero := h.through i (.inr (.inr hi))
    have hpos := h.remain_pos hj
    omega
  moves i h hi := by
    obtain ⟨j, hj⟩ := h.progress hi
    obtain ⟨t, ht⟩ := Option.isSome_iff_exists.mp hj
    exact ⟨.thread j, t, ht, SleepBarrier.rank_thread h ht⟩

namespace SpinBarrier

variable {n : Nat} {s t : State n} {i : Fin n}

/-- Each thread calls `barrier_wait` once. -/
def calledOnce (n : Nat) : Machine (State n) (Fin n) where
  next s i := if (s.threads i).returned = 0 then next s i else none

def Thread.rank (l : Thread) : Nat :=
  if l.returned = 0 then
    match l.pc with
    | .outside => 5
    | .readPassed => 4
    | .fetchAdd => 3
    | .resetBar => 2
    | .bumpPassed | .spin => 1
  else 0

def State.rank (s : State n) : Nat := ∑ i, (s.threads i).rank

theorem calledOnce_next : (calledOnce n).next s i = some t ↔
    (s.threads i).returned = 0 ∧ (spinBarrier n).next s i = some t := by
  simp only [calledOnce, Option.ite_none_right_eq_some]
  rfl

theorem rank_move {l : Thread} {b : Nat} {p : Int32} (h : l.rank < (s.threads i).rank) :
    (State.move ⟨b, p, s.threads⟩ i l).rank < s.rank := by
  refine sum_lt i ?_ fun j hj => ?_
  · simpa [State.move] using h
  · simp [State.move, hj]

/-- A thread in its first call that does not spin in vain gets nearer to its return. -/
theorem rank_step (hret : (s.threads i).returned = 0)
    (hvain : ¬ ((s.threads i).pc = .spin ∧ s.gs32passed = (s.threads i).s32passed_old)) :
    ∃ t, (calledOnce n).next s i = some t ∧ t.rank < s.rank := by
  have hsome : ∃ t, (spinBarrier n).next s i = some t := by
    cases hpc : (s.threads i).pc <;> simp [spinBarrier, next, hpc]
  obtain ⟨t, ht⟩ := hsome
  refine ⟨t, calledOnce_next.mpr ⟨hret, ht⟩, ?_⟩
  cases step_of_next ht with
  | enter hpc => exact rank_move (by simp [Thread.rank, Thread.enter, hpc, hret])
  | readPassed hpc => exact rank_move (by simp [Thread.rank, hpc, hret])
  | arriveLast hpc hb => exact rank_move (by simp [Thread.rank, Thread.arrive, hpc, hret])
  | arrive hpc hb => exact rank_move (by simp [Thread.rank, Thread.arrive, hpc, hret])
  | resetBar hpc => exact rank_move (by simp [Thread.rank, hpc, hret])
  | bumpPassed hpc => exact rank_move (by simp [Thread.rank, Thread.ret, hpc, hret])
  | spin hpc hp => exact absurd ⟨hpc, hp⟩ hvain
  | leave hpc hp => exact rank_move (by simp [Thread.rank, Thread.ret, hpc, hret])

theorem returned_step (hn : (spinBarrier n).next s i = some t) (j : Fin n) :
    (s.threads j).returned ≤ (t.threads j).returned := by
  cases step_of_next hn with
  | spin hpc hp => exact Nat.le_refl _
  | enter hpc | readPassed hpc | arriveLast hpc | arrive hpc | resetBar hpc | bumpPassed hpc
  | leave hpc =>
      by_cases hj : j = i
      · subst hj
        simp [State.move, Thread.enter, Thread.arrive, Thread.ret]
      · simp [State.move, hj]

/-- Somebody who has not returned does not spin in vain. -/
theorem Generation.exists_moving {g : Nat} (h : Generation s g)
    (hi : (s.threads i).returned = 0) :
    ∃ j, (s.threads j).returned = 0 ∧
      ¬ ((s.threads j).pc = .spin ∧ s.gs32passed = (s.threads j).s32passed_old) := by
  by_contra hno
  have hspin : ∀ j, (s.threads j).returned = 0 →
      (s.threads j).pc = .spin ∧ s.gs32passed = (s.threads j).s32passed_old := by
    intro j hj
    by_contra hvain
    exact hno ⟨j, hj, hvain⟩
  refine h.not_blocked 1 ⟨fun j => ?_, ⟨i, by omega⟩, fun j hj => hspin j (by omega)⟩
  have hp := h.placed j
  by_cases hj : (s.threads j).returned = 0
  · simp only [Placed, (hspin j hj).1] at hp
    omega
  · unfold Placed at hp
    cases hpc : (s.threads j).pc <;> simp only [hpc] at hp <;> omega

end SpinBarrier

/-- The gate of the build with `CUSTOM_SPIN_BARRIER`. -/
def spinGate (n : Nat) (hn : 1 ≤ n) : Gate (Fin n) where
  σ := SpinBarrier.State n
  ℓ := Fin n
  machine := SpinBarrier.calledOnce n
  init := SpinBarrier.init n
  Arrived s i := 1 ≤ (s.threads i).added
  Through s i := 1 ≤ (s.threads i).returned
  decThrough _ _ := inferInstance
  Inv s := ∃ g, SpinBarrier.Generation s g
  rank := SpinBarrier.State.rank
  inv_init := ⟨0, SpinBarrier.generation_init hn⟩
  inv_step h hs := by
    obtain ⟨g, hg⟩ := h
    exact SpinBarrier.generation_step hg
      (SpinBarrier.step_of_next (SpinBarrier.calledOnce_next.mp hs).2)
  through_step j _ hs hj :=
    hj.trans (SpinBarrier.returned_step (SpinBarrier.calledOnce_next.mp hs).2 j)
  separates i j h hi := by
    obtain ⟨g, hg⟩ := h
    exact (hi.trans (hg.placed i).returned_le).trans (hg.placed j).le_added
  moves i h hi := by
    obtain ⟨g, hg⟩ := h
    obtain ⟨j, hret, hvain⟩ := hg.exists_moving (i := i) (by omega)
    obtain ⟨t, ht, hlt⟩ := SpinBarrier.rank_step hret hvain
    exact ⟨j, t, ht, hlt⟩

namespace PthreadBarrier

variable {T : Nat} {v w : Visits (Fin T)} {i : Fin T}

/-- `pthread_barrier_wait(&gstrbar)`, which each thread calls once. -/
def calledOnce (T : Nat) : Machine (Visits (Fin T)) (BarrierStep (Fin T)) where
  next v
    | .arrive i => if v.arrived i = 0 then (barrier (Fin T)).next v (.arrive i) else none
    | .depart i => if v.departed i = 0 then (barrier (Fin T)).next v (.depart i) else none

theorem next_of_calledOnce {b : BarrierStep (Fin T)} (h : (calledOnce T).next v b = some w) :
    (barrier (Fin T)).next v b = some w := by
  cases b with
  | arrive i | depart i => exact (Option.ite_none_right_eq_some.mp h).2

def rank (v : Visits (Fin T)) : Nat := ∑ i, ((1 - v.arrived i) + (1 - v.departed i))

theorem rank_arrive (hi : v.arrived i = 0) :
    rank { v with arrived := Function.update v.arrived i (v.arrived i + 1) } < rank v := by
  refine sum_lt i ?_ fun j hj => ?_
  · simp [hi]
  · simp [hj]

theorem rank_depart (hi : v.departed i = 0) :
    rank { v with departed := Function.update v.departed i (v.departed i + 1) } < rank v := by
  refine sum_lt i ?_ fun j hj => ?_
  · simp [hi]
  · simp [hj]

theorem departed_step {b : BarrierStep (Fin T)} (h : (barrier (Fin T)).next v b = some w)
    (j : Fin T) : v.departed j ≤ w.departed j := by
  cases b with
  | arrive i =>
      obtain ⟨-, rfl⟩ := barrier_arrive.mp h
      exact Nat.le_refl _
  | depart i =>
      obtain ⟨-, rfl⟩ := barrier_depart.mp h
      exact le_update_succ v.departed i j

end PthreadBarrier

/-- The gate of the default build. -/
def pthreadGate (T : Nat) : Gate (Fin T) where
  σ := Visits (Fin T)
  ℓ := BarrierStep (Fin T)
  machine := PthreadBarrier.calledOnce T
  init := .zero
  Arrived v i := 1 ≤ v.arrived i
  Through v i := 1 ≤ v.departed i
  decThrough _ _ := inferInstance
  Inv := Visits.Separated
  rank := PthreadBarrier.rank
  inv_init := fun _ _ => Nat.le_refl 0
  inv_step h hs := separated_step h (PthreadBarrier.next_of_calledOnce hs)
  through_step j _ hs hj :=
    hj.trans (PthreadBarrier.departed_step (PthreadBarrier.next_of_calledOnce hs) j)
  separates i j h hi := hi.trans (h i j)
  moves {v} i h hi := by
    have hdep : v.departed i = 0 := by omega
    by_cases hall : ∃ j, v.arrived j = 0
    · obtain ⟨j, hj⟩ := hall
      have hdj : v.departed j = 0 := by
        have hle := h j j
        omega
      refine ⟨.arrive j, _, ?_, PthreadBarrier.rank_arrive hj⟩
      simp [PthreadBarrier.calledOnce, hj, hdj]
    · refine ⟨.depart i, _, ?_, PthreadBarrier.rank_depart hdep⟩
      have hpos : ∀ j, 0 < v.arrived j := fun j => by
        have hne : v.arrived j ≠ 0 := fun h0 => hall ⟨j, h0⟩
        omega
      simp [PthreadBarrier.calledOnce, hdep, hpos]

end Cse522.Lab02

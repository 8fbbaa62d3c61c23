import Cse522.Lab02.SleepBarrier

/-!
# The sleep barrier opens once and for all

`gs32remain` counts the threads that have not decremented it. A thread goes to sleep only
while the counter is not zero, and under the mutex, so nobody falls asleep behind the
broadcast of the last one.
-/
namespace Cse522.Lab02.SleepBarrier

open Cse522.Interleave

variable {T : Nat} {s t : State T} {a : Act T}

/-- The thread has not decremented `gs32remain`. -/
def Before (pc : Pc) : Prop := pc = .lock ∨ pc = .decrement

/-- The thread holds the mutex. -/
def Holds (pc : Pc) : Prop :=
  pc = .decrement ∨ pc = .test ∨ pc = .broadcast ∨ pc = .whileTest ∨ pc = .wait ∨ pc = .unlock

/-- The thread has seen that the barrier is open. -/
def Through (pc : Pc) : Prop := pc = .broadcast ∨ pc = .unlock ∨ pc = .left

instance : DecidablePred Before := fun _ => inferInstanceAs (Decidable (_ ∨ _))
instance : DecidablePred Holds := fun _ => inferInstanceAs (Decidable (_ ∨ _))

theorem before_wake (pc : Pc) : Before (wake pc) ↔ Before pc := by
  cases pc <;> simp [wake, Before]

theorem holds_wake (pc : Pc) : Holds (wake pc) ↔ Holds pc := by
  cases pc <;> simp [wake, Holds]

theorem wake_ne_asleep (pc : Pc) : wake pc ≠ .asleep := by cases pc <;> simp [wake]

theorem wake_eq_wait {pc : Pc} : wake pc = .wait ↔ pc = .wait := by cases pc <;> simp [wake]

structure Counted (s : State T) : Prop where
  count : s.gs32remain = census Before s.pcs
  owner : Owner Holds s.pcs s.gmutex_barrier
  through : ∀ i, Through (s.pcs i) → s.gs32remain = 0
  waits : ∀ i, s.pcs i = .wait → s.gs32remain ≠ 0
  heard : s.announced = true → s.gs32remain = 0 ∧ ∀ i, s.pcs i ≠ .asleep
  pending : s.gs32remain = 0 → s.announced = true ∨ T = 0 ∨
    ∃ i, s.pcs i = .test ∨ s.pcs i = .broadcast

theorem counted_init (T : Nat) : Counted (init T) where
  count := by
    have hall : census Before (init T).pcs = Fintype.card (Fin T) :=
      census_eq_card.mpr fun i => .inl rfl
    rw [hall, Fintype.card_fin]
    rfl
  owner := fun i => by simp [init, Holds]
  through := fun i h => by simp [init, Through] at h
  waits := fun i h => by simp [init] at h
  heard := fun h => by simp [init] at h
  pending := fun h => .inr (.inl (by simpa [init] using h))

/-- While a thread has not decremented, the counter is not zero. -/
theorem Counted.remain_pos (h : Counted s) {i : Fin T} (hi : Before (s.pcs i)) :
    0 < s.gs32remain := by
  have hne : census Before s.pcs ≠ 0 := fun h0 => census_eq_zero.mp h0 i hi
  rw [h.count]
  omega

/-! ## Each step -/

theorem count_step (h : Counted s) (hs : Step s a t) : t.gs32remain = census Before t.pcs := by
  have hc := h.count
  cases hs with
  | decrement hpc =>
      have hleave := census_update_leave (p := Before) (f := s.pcs) (x := .test) (.inr hpc)
        (by simp [Before])
      simp only [State.move]
      omega
  | @broadcast i hpc =>
      have hwake : census Before (fun j => wake (s.pcs j)) = census Before s.pcs := by
        simp only [census, before_wake]
      simp only [State.move]
      rw [census_update_same (by simp [hpc, wake, Before]), hwake]
      exact hc
  | lock hpc | last hpc | notLast hpc | closed hpc | opened hpc | wait hpc | reacquire hpc
  | unlock hpc | spurious hpc =>
      simp only [State.move]
      rw [census_update_same (by simp [Before, hpc])]
      exact hc

theorem owner_step (h : Counted s) (hs : Step s a t) : Owner Holds t.pcs t.gmutex_barrier := by
  have ho := h.owner
  cases hs with
  | lock hpc hfree | reacquire hpc hfree =>
      rw [hfree] at ho
      exact ho.acquire (by simp [Holds])
  | wait hpc | unlock hpc => exact ho.release (by simp [Holds, hpc]) (by simp [Holds])
  | broadcast hpc =>
      have hwake : Owner Holds (fun j => wake (s.pcs j)) s.gmutex_barrier :=
        fun j => (holds_wake _).trans (ho j)
      exact hwake.keep (by simp [hpc, wake, Holds])
  | decrement hpc | last hpc | notLast hpc | closed hpc | opened hpc | spurious hpc =>
      exact ho.keep (by simp [Holds, hpc])

theorem through_step (h : Counted s) (hs : Step s a t) (j : Fin T) :
    Through (t.pcs j) → t.gs32remain = 0 := by
  have hj := h.through
  cases hs with
  | @decrement i hpc =>
      -- while this thread had not decremented, nobody was through
      have hpos := h.remain_pos (i := i) (.inr hpc)
      have hnone : ∀ k, ¬ Through (s.pcs k) := fun k hk => by
        have h0 := hj k hk
        omega
      intro hthrough
      exact absurd hthrough (forall_update (P := fun _ pc => ¬ Through pc) hnone
        (by simp [Through]) j)
  | last hpc h0 | opened hpc h0 =>
      exact fun _ => h0
  | broadcast hpc =>
      exact fun _ => hj _ (.inl hpc)
  | unlock hpc =>
      exact fun _ => hj _ (.inr (.inl hpc))
  | lock | notLast | closed | wait | reacquire | spurious =>
      exact forall_update (P := fun _ pc => Through pc → s.gs32remain = 0) hj (by simp [Through]) j

theorem waits_step (h : Counted s) (hs : Step s a t) (j : Fin T) :
    t.pcs j = .wait → t.gs32remain ≠ 0 := by
  have hj := h.waits
  cases hs with
  | @decrement i hpc =>
      -- nobody else holds the mutex
      intro hwait
      by_cases hji : j = i
      · simp [State.move, hji] at hwait
      · have hpj : s.pcs j = .wait := by simpa [State.move, hji] using hwait
        exact absurd (h.owner.unique (by simp [Holds, hpj]) (by simp [Holds, hpc])) hji
  | @broadcast i hpc =>
      exact forall_update (f := fun k => wake (s.pcs k))
        (P := fun _ pc => pc = Pc.wait → s.gs32remain ≠ 0) (fun k hk => hj k (wake_eq_wait.mp hk))
        (by simp) j
  | closed hpc h0 =>
      exact fun _ => h0
  | lock | last | notLast | opened | wait | reacquire | unlock | spurious =>
      exact forall_update (P := fun _ pc => pc = Pc.wait → s.gs32remain ≠ 0) hj (by simp) j

theorem heard_step (h : Counted s) (hs : Step s a t) (hann : t.announced = true) :
    t.gs32remain = 0 ∧ ∀ j, t.pcs j ≠ .asleep := by
  have hh := h.heard
  cases hs with
  | @decrement i hpc =>
      have hpos := h.remain_pos (i := i) (.inr hpc)
      have h0 := (hh hann).1
      omega
  | @broadcast i hpc =>
      refine ⟨h.through i (.inl hpc), ?_⟩
      exact forall_update (f := fun k => wake (s.pcs k)) (P := fun _ pc => pc ≠ Pc.asleep)
        (fun k => wake_ne_asleep _) (by simp)
  | @wait i hpc =>
      -- the counter of a thread that waits is not zero
      exact absurd (hh hann).1 (h.waits i hpc)
  | lock | last | notLast | closed | opened | reacquire | unlock | spurious =>
      obtain ⟨h0, hawake⟩ := hh hann
      exact ⟨h0, forall_update (P := fun _ pc => pc ≠ Pc.asleep) hawake (by simp)⟩

/-- The thread that made the counter zero is still on its way to the broadcast. -/
def Closing (pc : Pc) : Prop := pc = .test ∨ pc = .broadcast

theorem pending_step (h : Counted s) (hs : Step s a t) (h0 : t.gs32remain = 0) :
    t.announced = true ∨ T = 0 ∨ ∃ j, t.pcs j = .test ∨ t.pcs j = .broadcast := by
  have hp := h.pending
  cases hs with
  | @decrement i hpc => exact .inr (.inr ⟨i, by simp [State.move]⟩)
  | @last i hpc => exact .inr (.inr ⟨i, by simp [State.move]⟩)
  | notLast hpc hne => exact absurd h0 hne
  | broadcast hpc => exact .inl rfl
  | lock hpc | closed hpc | opened hpc | wait hpc | reacquire hpc | unlock hpc | spurious hpc =>
      rcases hp h0 with hann | hT | hex
      · exact .inl hann
      · exact .inr (.inl hT)
      · exact .inr (.inr (exists_update (q := Closing) (by simp [Closing, hpc]) hex))

theorem counted_step (h : Counted s) (hn : (sleepBarrier T).next s a = some t) : Counted t := by
  have hs := step_of_next hn
  exact ⟨count_step h hs, owner_step h hs, through_step h hs, waits_step h hs, heard_step h hs,
    pending_step h hs⟩

theorem counted_of_reachable (hr : (sleepBarrier T).Reachable (init T) s) : Counted s :=
  hr.invariant counted_step (counted_init T)

/-! ## Nobody waits for ever -/

/-- The owner of the mutex can move. -/
theorem Counted.owner_moves (h : Counted s) {i : Fin T} (hown : s.gmutex_barrier = some i) :
    ((sleepBarrier T).next s (.thread i)).isSome := by
  rcases (h.owner i).mpr hown with hpc | hpc | hpc | hpc | hpc | hpc <;>
    simp [sleepBarrier, next, hpc, hown, mutex]

/-- A thread in front of a free mutex can move. -/
theorem moves_of_free {i : Fin T} (hfree : s.gmutex_barrier = none)
    (hpc : s.pcs i = .lock ∨ s.pcs i = .reacquire) :
    ((sleepBarrier T).next s (.thread i)).isSome := by
  rcases hpc with hpc | hpc <;> simp [sleepBarrier, next, hpc, hfree, mutex]

theorem Counted.progress (h : Counted s) {i : Fin T} (hi : s.pcs i ≠ .left) :
    ∃ j, ((sleepBarrier T).next s (.thread j)).isSome := by
  cases hm : s.gmutex_barrier with
  | some j => exact ⟨j, h.owner_moves hm⟩
  | none =>
      by_cases hfree : ∃ j, s.pcs j = .lock ∨ s.pcs j = .reacquire
      · obtain ⟨j, hj⟩ := hfree
        exact ⟨j, moves_of_free hm hj⟩
      · -- everybody has left or sleeps, so everybody has decremented, and `i` sleeps
        have hno := h.owner.eq_none_iff.mp hm
        have hrest : ∀ j, s.pcs j = .asleep ∨ s.pcs j = .left := by
          intro j
          have hj := hno j
          have hfj : ¬ (s.pcs j = .lock ∨ s.pcs j = .reacquire) := fun hj' => hfree ⟨j, hj'⟩
          cases hpc : s.pcs j <;> simp [Holds, hpc] at hj hfj ⊢
        have h0 : s.gs32remain = 0 := by
          have hnone : census Before s.pcs = 0 := census_eq_zero.mpr fun j => by
            rcases hrest j with hj | hj <;> simp [Before, hj]
          rw [h.count, hnone]
          rfl
        have hasleep := (hrest i).resolve_right hi
        rcases h.pending h0 with hann | hT | ⟨j, hj⟩
        · exact absurd hasleep ((h.heard hann).2 i)
        · subst hT
          exact i.elim0
        · rcases hrest j with hj' | hj' <;> simp [hj'] at hj

/-- Whoever has left the block knows that everybody has decremented, the counter is never
negative, nobody sleeps once the broadcast is issued, and as long as somebody is in the
block some thread moves without a wakeup that nobody has sent. -/
theorem sleepBarrier_safe (T : Nat) {s : State T} (hr : (sleepBarrier T).Reachable (init T) s) :
    (∀ i, s.pcs i = .left → ∀ j, ¬ Before (s.pcs j)) ∧
    0 ≤ s.gs32remain ∧
    (s.announced = true → ∀ i, s.pcs i ≠ .asleep) ∧
    ((∃ i, s.pcs i ≠ .left) → ∃ j, ((sleepBarrier T).next s (.thread j)).isSome) := by
  have h := counted_of_reachable hr
  refine ⟨?_, ?_, fun hann => (h.heard hann).2, ?_⟩
  · intro i hi j hj
    have h0 := h.through i (.inr (.inr hi))
    have hpos := h.remain_pos hj
    omega
  · rw [h.count]
    omega
  · intro hex
    obtain ⟨i, hi⟩ := hex
    exact h.progress hi

/-- Thread `i` falls asleep, wakes up for no reason and waits again; thread `j` comes last. -/
def spuriousThenLast (i j : Fin T) : List (Act T) :=
  [.thread i, .thread i, .thread i, .thread i, .thread i, .spurious i, .thread i, .thread i,
    .thread i, .thread j, .thread j, .thread j, .thread j, .thread j, .thread i, .thread i,
    .thread i]

theorem sleepBarrier_safe_two :
    ∃ s, (sleepBarrier 2).run (init 2) (spuriousThenLast 0 1) = some s ∧ s.pcs 0 = .left ∧
      ∀ j, ¬ Before (s.pcs j) :=
  ⟨_, rfl, by decide, (sleepBarrier_safe 2 ⟨spuriousThenLast 0 1, rfl⟩).1 0 (by decide)⟩

end Cse522.Lab02.SleepBarrier

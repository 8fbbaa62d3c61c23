import Cse522.Interleave.Phases
import Cse522.Studio11.SpinLock

/-!
# Which runs of `spinlock.c` end

`main` waits for its team at the end of the parallel block, so the program ends well when every
thread has returned from its last `unlock`. The weak exchange of `lock` may fail as often as it
likes, the loop tries again. The one of `unlock` is tried once: a thread that it fails goes on
to `exit` with the word left at `LOCK`, and nobody else gets past the lock.
-/
namespace Cse522.Studio11.SpinLock

open Cse522.Interleave

variable {n : Nat} {s t : State n} {i : Fin n} {b : Bool}

/-- Every thread has returned, with the word back at `UNLOCK`. -/
def Finished (s : State n) : Prop :=
  s.exited = false ∧ s.gs32curlock = UNLOCK ∧ ∀ i, (s.threads i).pc = .finished

instance : DecidablePred (Finished (n := n)) := fun _ => inferInstanceAs (Decidable (_ ∧ _ ∧ _))

/-! ## A failed `unlock` -/

/-- Thread `i` holds the word and is on its way to `exit`, or has got there. -/
def Doomed (i : Fin n) (s : State n) : Prop :=
  (∃ o, Represents s o) ∧ (s.threads i).pc = .cannotUnlock

/-- No step takes a thread out of the branch that exits. -/
theorem stays_cannotUnlock (hs : Step s i b t) {j : Fin n}
    (hj : (s.threads j).pc = .cannotUnlock) : (t.threads j).pc = .cannotUnlock := by
  by_cases hji : j = i
  · subst hji
    cases hs with
    | exit _ => exact hj
    | _ hpc => simp [hpc] at hj
  · cases hs with
    | exit _ => exact hj
    | _ _ => simpa [hji] using hj

theorem doomed_step {j : Fin n} {a : Fin n × Bool} (h : Doomed j s)
    (hn : (spinLock n).next s a = some t) : Doomed j t := by
  obtain ⟨hrep, hj⟩ := h
  exact ⟨represents_step hrep hn, stays_cannotUnlock (step_of_next hn) hj⟩

/-- Behind a failed `unlock` nobody else is between `lock` and `unlock`. -/
theorem Doomed.alone {j : Fin n} (h : Doomed j s) (hi : Owns (s.threads i)) : i = j := by
  obtain ⟨⟨o, ho⟩, hj⟩ := h
  exact ho.owner.unique hi (.inr (.inr hj))

/-! ## The way to the end -/

/-- The statements a thread has left, if no exchange fails. -/
def Thread.rank (l : Thread) : Nat :=
  match l.pc with
  | .callLock => 6 * l.rounds + 5
  | .resetUnlock => 6 * l.rounds + 4
  | .exchangeLock => 6 * l.rounds + 3
  | .critical => 6 * l.rounds + 2
  | .exchangeUnlock => 6 * l.rounds + 1
  | .cannotUnlock | .finished => 0

def State.rank (s : State n) : Nat := ∑ i, (s.threads i).rank

theorem rank_set {w : Int32} {l : Thread} (h : l.rank < (s.threads i).rank) :
    (s.set w i l).rank < s.rank := by
  have hsum := sum_update Thread.rank s.threads i l
  show ∑ j, (Function.update s.threads i l j).rank < ∑ j, (s.threads j).rank
  omega

theorem rank_start (l : Thread) : (l.start (l.rounds - 1)).rank < 6 * l.rounds + 1 := by
  by_cases hk : l.rounds - 1 = 0
  · simp [Thread.start, Thread.rank, hk]
  · simp only [Thread.start, Thread.rank, hk, ↓reduceIte]
    omega

/-- The process runs and every `unlock` so far has worked. -/
structure Sound (s : State n) : Prop where
  represents : ∃ o, Represents s o
  runs : s.exited = false
  unlocks : ∀ i, (s.threads i).pc ≠ .cannotUnlock

theorem sound_set {w : Int32} {l : Thread} (h : Sound s)
    (hn : (spinLock n).next s (i, b) = some (s.set w i l)) (hl : l.pc ≠ .cannotUnlock) :
    Sound (s.set w i l) where
  represents := represents_step h.represents hn
  runs := h.runs
  unlocks := forall_update (P := fun _ (l : Thread) => l.pc ≠ .cannotUnlock) h.unlocks hl

/-- The exchange that finds the value it expects, and does not fail for another reason. -/
theorem compareExchange_eq (w d : Int32) : compareExchange w w d false = ⟨true, d, w⟩ := by
  simp [compareExchange]

/-- Without a spurious failure the owner gets on, and anybody does when there is none. -/
theorem moves_of_turn {o : Option (Fin n)} (h : Sound s) (ho : Represents s o)
    (hi : (s.threads i).pc ≠ .finished) (hturn : Owns (s.threads i) ∨ o = none) :
    ∃ t, (spinLock n).next s (i, false) = some t ∧ Sound t ∧ t.rank < s.rank := by
  have hloc := ho.locals i
  have hruns := h.runs
  cases hpc : (s.threads i).pc with
  | callLock =>
      have hn : (spinLock n).next s (i, false) =
          some (s.set s.gs32curlock i ((s.threads i).call .exchangeLock)) := by
        simp [spinLock, next, hruns, hpc]
      refine ⟨_, hn, sound_set h hn (by simp [Thread.call]), rank_set ?_⟩
      simp [Thread.rank, Thread.call, hpc]
  | resetUnlock =>
      have hn : (spinLock n).next s (i, false) = some (s.set s.gs32curlock i
          { s.threads i with s32unlock := UNLOCK, pc := .exchangeLock }) := by
        simp [spinLock, next, hruns, hpc]
      refine ⟨_, hn, sound_set h hn (by simp), rank_set ?_⟩
      simp [Thread.rank, hpc]
  | exchangeLock =>
      simp only [LocalsOk, hpc] at hloc
      have hnone : o = none := hturn.resolve_left (by simp [Owns, hpc])
      have hword : s.gs32curlock = (s.threads i).s32unlock := by
        rw [ho.word, hloc.2, hnone]
        rfl
      have hn : (spinLock n).next s (i, false) =
          some (s.set (s.threads i).s32lock i { s.threads i with pc := .critical }) := by
        simp [spinLock, next, hruns, hpc, hword, compareExchange_eq]
      refine ⟨_, hn, sound_set h hn (by simp), rank_set ?_⟩
      simp [Thread.rank, hpc]
  | critical =>
      have hn : (spinLock n).next s (i, false) =
          some (s.set s.gs32curlock i ((s.threads i).call .exchangeUnlock)) := by
        simp [spinLock, next, hruns, hpc]
      refine ⟨_, hn, sound_set h hn (by simp [Thread.call]), rank_set ?_⟩
      simp [Thread.rank, Thread.call, hpc]
  | exchangeUnlock =>
      simp only [LocalsOk, hpc] at hloc
      have hword : s.gs32curlock = (s.threads i).s32lock :=
        (ho.word_of_owns (.inr (.inl hpc))).trans hloc.1.symm
      have hn : (spinLock n).next s (i, false) = some (s.set (s.threads i).s32unlock i
          ((s.threads i).start ((s.threads i).rounds - 1))) := by
        simp [spinLock, next, hruns, hpc, hword, compareExchange_eq]
      refine ⟨_, hn, sound_set h hn (by simp), rank_set ?_⟩
      simpa only [Thread.rank, hpc] using rank_start (s.threads i)
  | cannotUnlock => exact absurd hpc (h.unlocks i)
  | finished => exact absurd hpc hi

theorem spinLock_descends :
    (spinLock n).Descends Sound (fun s => ∀ i, (s.threads i).pc = .finished) State.rank := by
  intro s h hnot
  obtain ⟨i, hi⟩ := not_forall.mp hnot
  obtain ⟨o, ho⟩ := h.represents
  cases o with
  | none =>
      obtain ⟨t, hn, ht⟩ := moves_of_turn h ho hi (.inr rfl)
      exact ⟨(i, false), t, hn, ht⟩
  | some j =>
      have hj : Owns (s.threads j) := (ho.owner j).mpr rfl
      have hne : (s.threads j).pc ≠ .finished := by
        intro hfin
        simp [Owns, hfin] at hj
      obtain ⟨t, hn, ht⟩ := moves_of_turn h ho hne (.inl hj)
      exact ⟨(j, false), t, hn, ht⟩

theorem Sound.finished (h : Sound s) (hfin : ∀ i, (s.threads i).pc = .finished) : Finished s := by
  obtain ⟨o, ho⟩ := h.represents
  have hnone : o = none := by
    refine ho.owner.eq_none_iff.mpr fun i hi => ?_
    simp [Owns, hfin i] at hi
  refine ⟨h.runs, ?_, hfin⟩
  rw [ho.word, hnone]
  rfl

/-- The lock does not deadlock: as long as no `unlock` has failed the threads can all be run
to their return. Behind one that has failed none of the others is, or ever gets, past the
lock, and the threads never all return. -/
theorem spinLock_finishes_iff (rounds : Fin n → Nat)
    (hr : (spinLock n).Reachable (init rounds) s) (hruns : s.exited = false) :
    ((∃ t, (spinLock n).Reachable s t ∧ Finished t) ↔
      ∀ i, (s.threads i).pc ≠ .cannotUnlock) ∧
    ∀ i, (s.threads i).pc = .cannotUnlock → ∀ t, (spinLock n).Reachable s t →
      ∀ j, Owns (t.threads j) ↔ j = i := by
  have hrep : ∃ o, Represents s o := hr.invariant (I := fun s => ∃ o, Represents s o)
    represents_step ⟨none, represents_init rounds⟩
  have hdoomed : ∀ i, (s.threads i).pc = .cannotUnlock → ∀ t, (spinLock n).Reachable s t →
      Doomed i t := fun i hi t ht => ht.invariant doomed_step ⟨hrep, hi⟩
  refine ⟨⟨?_, ?_⟩, ?_⟩
  · intro h i hi
    obtain ⟨t, ht, -, -, hfin⟩ := h
    have hd := (hdoomed i hi t ht).2
    rw [hfin i] at hd
    cases hd
  · intro h
    obtain ⟨t, ht, hsound, hfin⟩ := spinLock_descends.completes ⟨hrep, hruns, h⟩
    exact ⟨t, ht, hsound.finished hfin⟩
  · intro i hi t ht j
    have hd := hdoomed i hi t ht
    refine ⟨fun hj => hd.alone hj, ?_⟩
    intro hji
    subst hji
    exact .inr (.inr hd.2)

/-- Two threads: the exchange of the first `lock` fails spuriously, and all end. -/
theorem spinLock_finishes_two : ∃ t : State 2, Finished t := by
  have hrun : ∃ s, (spinLock 2).run (init fun _ => 1) [(0, false), (0, true), (1, false)] =
      some s ∧ s.exited = false ∧ ∀ i, (s.threads i).pc ≠ .cannotUnlock :=
    ⟨_, rfl, by decide⟩
  obtain ⟨s, hs, hruns, hno⟩ := hrun
  obtain ⟨t, -, ht⟩ := (spinLock_finishes_iff (fun _ => 1) ⟨_, hs⟩ hruns).1.mpr hno
  exact ⟨t, ht⟩

end Cse522.Studio11.SpinLock

import Cse522.Interleave.Merged
import Cse522.Lab02.Dispatcher

/-!
# The picks of all workers are one round robin

The pick at position `k` of the merged sequence is slot `k % s32cnt`, whoever makes it.
The read comes after the lock is released, so it is tied to its pick by the ticket the
worker carries, not by the order of the reads.
-/
namespace Cse522.Lab02.Dispatcher

open Cse522.Interleave
open Cse522.Lab02.Parsing (ProfArg gstrArg SCHED_RR parsingInput accepted_of_parsingInput)

variable {T R : Nat} {arg : ProfArg}

/-- Between the lock and the unlock. -/
def Holds (l : Worker) : Prop := l.pc = .saveIdx ∨ l.pc = .advance ∨ l.pc = .unlock

/-- Carrying the pick at position `k`, not yet read. -/
def Carries (k : Nat) (l : Worker) : Prop :=
  (l.pc = .advance ∨ l.pc = .unlock ∨ l.pc = .readCabin) ∧ l.ticket = k

instance (k : Nat) : DecidablePred (Carries k) := fun _ => inferInstanceAs (Decidable (_ ∧ _))

def picksOf (picks : List (Pick T)) (i : Fin T) : Nat := picks.countP fun p => p.worker = i

def picksAt (picks : List (Pick T)) (i : Nat) : Nat := picks.countP fun p => p.slot = (i : Int)

def readsOf (reads : List (Read T)) (k : Nat) : Nat := reads.countP fun r => r.ticket = k

/-- The record is as an accepted command line leaves it, with `R` rounds. -/
structure Configured (arg : ProfArg) (R : Nat) : Prop where
  pos : 0 < arg.ps32cabin.length
  cnt : arg.s32cnt = arg.ps32cabin.length
  round : arg.s32round = R

/-- The rounds a worker has run against the picks it has made. -/
def WorkerOk (R : Nat) (picks : List (Pick T)) (i : Fin T) (l : Worker) : Prop :=
  match l.pc with
  | .roundTest => picksOf picks i = l.s32round ∧ l.s32round ≤ R
  | .lock | .saveIdx => picksOf picks i = l.s32round ∧ l.s32round < R
  | .advance | .unlock | .readCabin =>
      picksOf picks i = l.s32round + 1 ∧ l.s32round < R ∧ picks[l.ticket]? = some ⟨i, l.s32idx⟩
  | .iterTest => picksOf picks i = l.s32round + 1 ∧ l.s32round < R
  | .finished => picksOf picks i = l.s32round ∧ l.s32round = R

/-- The shared index is the number of picks modulo the list length, or one behind while a
worker stands between saving and advancing it. -/
structure IndexOk (c : Nat) (s : State T) : Prop where
  settled : (∀ i, (s.workers i).pc ≠ .advance) → s.gs32cabinidx = (s.picks.length % c : Nat)
  behind : ∀ i, (s.workers i).pc = .advance →
    s.gs32cabinidx = ((s.workers i).ticket % c : Nat) ∧ (s.workers i).ticket + 1 = s.picks.length

/-- The pick at position `k` is slot `k % c`. -/
def Cyclic (c : Nat) (picks : List (Pick T)) : Prop :=
  ∀ (k : Nat) (p : Pick T), picks[k]? = some p → p.slot = (k % c : Nat)

/-- A read returns the cell of its pick and is made by the worker of its pick. -/
def ReadOk (arg : ProfArg) (picks : List (Pick T)) (r : Read T) : Prop :=
  ∃ p, picks[r.ticket]? = some p ∧ p.worker = r.worker ∧
    r.value = arg.ps32cabin[r.ticket % arg.ps32cabin.length]?

structure RoundRobin (arg : ProfArg) (R : Nat) (s : State T) : Prop where
  owner : Owner Holds s.workers s.gmutex_cabinidx
  worker : ∀ i, WorkerOk R s.picks i (s.workers i)
  index : IndexOk arg.ps32cabin.length s
  cyclic : Cyclic arg.ps32cabin.length s.picks
  reads : ∀ r ∈ s.reads, ReadOk arg s.picks r
  once : ∀ k, readsOf s.reads k + census (Carries k) s.workers =
    if k < s.picks.length then 1 else 0

theorem roundRobin_init : RoundRobin arg R (init T) where
  owner := by
    intro i
    simp [init, Holds]
  worker := by
    intro i
    simp [WorkerOk, init, picksOf]
  index := ⟨by simp [init], by simp [init]⟩
  cyclic := by
    intro k p hk
    simp [init] at hk
  reads := by
    intro r hr
    simp [init] at hr
  once := by
    intro k
    have hz : census (Carries k) (init T).workers = 0 :=
      census_eq_zero.mpr fun i hi => by simp [Carries, init] at hi
    rw [hz]
    simp [readsOf, init]

/-! ## The mutex -/

theorem owner_step {s t : State T} {i : Fin T} (h : Owner Holds s.workers s.gmutex_cabinidx)
    (hs : Step arg s i t) : Owner Holds t.workers t.gmutex_cabinidx := by
  cases hs with
  | lock hpc hfree => exact (hfree ▸ h).acquire (by simp [Holds])
  | unlock hpc hown => exact h.release (by simp [Holds, hpc]) (by simp [Holds])
  | _ hpc => exact h.keep (by simp [Holds, hpc])

/-! ## The workers -/

theorem picksOf_append (picks : List (Pick T)) (i j : Fin T) (x : Int) :
    picksOf (picks ++ [⟨i, x⟩]) j = picksOf picks j + if i = j then 1 else 0 := by
  simp [picksOf, List.countP_append, List.countP_cons]

theorem workerOk_update {picks : List (Pick T)} {f : Fin T → Worker} {i : Fin T} {l : Worker}
    (h : ∀ j, WorkerOk R picks j (f j)) (hl : WorkerOk R picks i l) (j : Fin T) :
    WorkerOk R picks j (Function.update f i l j) :=
  forall_update (P := WorkerOk R picks) h hl j

/-- A pick of another worker leaves a worker's account as it is. -/
theorem WorkerOk.append {picks : List (Pick T)} {i j : Fin T} {l : Worker} {x : Int}
    (h : WorkerOk R picks j l) (hij : i ≠ j) : WorkerOk R (picks ++ [⟨i, x⟩]) j l := by
  have hget : ∀ p, picks[l.ticket]? = some p → (picks ++ [Pick.mk i x])[l.ticket]? = some p := by
    intro p hp
    obtain ⟨hlt, _⟩ := List.getElem?_eq_some_iff.mp hp
    rw [List.getElem?_append_left hlt]
    exact hp
  unfold WorkerOk at h ⊢
  simp only [picksOf_append, if_neg hij, Nat.add_zero]
  cases hpc : l.pc <;> simp only [hpc] at h ⊢
  case advance | unlock | readCabin => exact ⟨h.1, h.2.1, hget _ h.2.2⟩
  all_goals exact h

theorem worker_step (hc : Configured arg R) {s t : State T} {i : Fin T}
    (h : ∀ j, WorkerOk R s.picks j (s.workers j)) (hs : Step arg s i t) (j : Fin T) :
    WorkerOk R t.picks j (t.workers j) := by
  have hi := h i
  have hround := hc.round
  cases hs with
  | start hpc hr =>
      simp only [WorkerOk, hpc] at hi
      refine workerOk_update h ?_ j
      exact ⟨hi.1, show (s.workers i).s32round < R by omega⟩
  | finish hpc hr =>
      simp only [WorkerOk, hpc] at hi
      refine workerOk_update h ?_ j
      exact ⟨hi.1, show (s.workers i).s32round = R by omega⟩
  | saveIdx hpc =>
      simp only [WorkerOk, hpc] at hi
      by_cases hj : j = i
      · subst j
        simp only [State.move, Function.update_self]
        refine ⟨?_, hi.2, by simp⟩
        rw [picksOf_append, if_pos rfl, hi.1]
      · simp only [State.move, Function.update_of_ne hj]
        exact (h j).append (Ne.symm hj)
  | readCabin hpc =>
      simp only [WorkerOk, hpc] at hi
      refine workerOk_update h ?_ j
      exact ⟨hi.1, hi.2.1⟩
  | nextRound hpc hit =>
      simp only [WorkerOk, hpc] at hi
      refine workerOk_update h ?_ j
      exact ⟨hi.1, hi.2⟩
  | lock hpc _ | advance hpc | unlock hpc _ | iterate hpc _ =>
      simp only [WorkerOk, hpc] at hi
      refine workerOk_update h ?_ j
      exact hi

/-! ## The shared index and the picks -/

/-- The holder of the lock is the only worker that can stand at `advance`. -/
theorem RoundRobin.settled {s : State T} (h : RoundRobin arg R s) {i : Fin T}
    (hi : Holds (s.workers i)) (hpc : (s.workers i).pc ≠ .advance) :
    s.gs32cabinidx = (s.picks.length % arg.ps32cabin.length : Nat) := by
  apply h.index.settled
  intro j hj
  have hji := h.owner.unique (i := j) (j := i) (.inr (.inl hj)) hi
  subst j
  exact hpc hj

theorem tmod_succ {c k : Nat} : (((k % c : Nat) : Int) + 1).tmod c = ((k + 1) % c : Nat) := by
  have h : ((k % c : Nat) : Int) + 1 = ((k % c + 1 : Nat) : Int) := by push_cast; rfl
  rw [h, ← Int.ofNat_tmod, Nat.mod_add_mod]

/-- A step of a worker outside the locked region leaves the index settled. -/
theorem IndexOk.move {c : Nat} {s : State T} {i : Fin T} {l : Worker} (h : IndexOk c s)
    (hpc : (s.workers i).pc ≠ .advance) (hl : l.pc ≠ .advance) : IndexOk c (s.move i l) where
  settled hno := by
    apply h.settled
    intro j hj
    by_cases hji : j = i
    · subst j
      exact hpc hj
    · exact hno j (by simpa [State.move, hji] using hj)
  behind j hj := by
    by_cases hji : j = i
    · subst j
      simp [State.move, hl] at hj
    · simp only [State.move, Function.update_of_ne hji] at hj ⊢
      exact h.behind j hj

theorem index_step (hc : Configured arg R) {s t : State T} {i : Fin T}
    (h : RoundRobin arg R s) (hs : Step arg s i t) : IndexOk arg.ps32cabin.length t := by
  cases hs with
  | saveIdx hpc =>
      have hset := h.settled (i := i) (.inl hpc) (by simp [hpc])
      refine ⟨fun hno => absurd (by simp [State.move]) (hno i), fun j hj => ?_⟩
      by_cases hji : j = i
      · subst j
        simp [State.move, hset]
      · have hj' : (s.workers j).pc = .advance := by simpa [State.move, hji] using hj
        exact absurd (h.owner.unique (.inr (.inl hj')) (.inl hpc)) hji
  | advance hpc =>
      obtain ⟨hidx, hlen⟩ := h.index.behind i hpc
      refine ⟨fun _ => ?_, fun j hj => ?_⟩
      · simp only [State.move]
        rw [hidx, hc.cnt, tmod_succ, hlen]
      · by_cases hji : j = i
        · subst j
          simp [State.move] at hj
        · have hj' : (s.workers j).pc = .advance := by simpa [State.move, hji] using hj
          exact absurd (h.owner.unique (.inr (.inl hj')) (.inr (.inl hpc))) hji
  | lock hpc hfree =>
      exact IndexOk.move (s := { s with gmutex_cabinidx := some i })
        ⟨h.index.settled, h.index.behind⟩ (by simp [hpc]) (by simp)
  | unlock hpc hown =>
      exact IndexOk.move (s := { s with gmutex_cabinidx := none })
        ⟨h.index.settled, h.index.behind⟩ (by simp [hpc]) (by simp)
  | readCabin hpc =>
      exact IndexOk.move (s := { s with reads := s.reads ++ [_] })
        ⟨h.index.settled, h.index.behind⟩ (by simp [hpc]) (by simp)
  | start hpc _ | finish hpc _ | iterate hpc _ | nextRound hpc _ =>
      exact h.index.move (by simp [hpc]) (by simp)

theorem cyclic_step {s t : State T} {i : Fin T} (h : RoundRobin arg R s) (hs : Step arg s i t) :
    Cyclic arg.ps32cabin.length t.picks := by
  cases hs with
  | saveIdx hpc =>
      have hset := h.settled (i := i) (.inl hpc) (by simp [hpc])
      intro k p hk
      simp only [State.move, List.getElem?_append] at hk
      split at hk
      · exact h.cyclic k p hk
      case isFalse hge =>
        have hk0 : k = s.picks.length := by
          by_contra hne
          rw [List.getElem?_eq_none (by simp; omega)] at hk
          cases hk
        subst hk0
        obtain rfl : Pick.mk i s.gs32cabinidx = p := by simpa using hk
        exact hset
  | _ => exact h.cyclic

/-! ## The reads -/

theorem ReadOk.append {picks : List (Pick T)} {r : Read T} {q : Pick T}
    (h : ReadOk arg picks r) : ReadOk arg (picks ++ [q]) r := by
  obtain ⟨p, hp, hrest⟩ := h
  obtain ⟨hlt, _⟩ := List.getElem?_eq_some_iff.mp hp
  exact ⟨p, by rw [List.getElem?_append_left hlt]; exact hp, hrest⟩

theorem cell_natCast (k : Nat) : cell arg (k : Int) = arg.ps32cabin[k]? := by
  simp [cell]

theorem reads_step {s t : State T} {i : Fin T} (h : RoundRobin arg R s) (hs : Step arg s i t) :
    ∀ r ∈ t.reads, ReadOk arg t.picks r := by
  cases hs with
  | saveIdx hpc => exact fun r hr => (h.reads r hr).append
  | readCabin hpc =>
      intro r hr
      have hi := h.worker i
      simp only [WorkerOk, hpc] at hi
      rcases List.mem_append.mp hr with hr | hr
      · exact h.reads r hr
      · obtain rfl := List.mem_singleton.mp hr
        refine ⟨_, hi.2.2, rfl, ?_⟩
        have hslot := h.cyclic _ _ hi.2.2
        simp only at hslot
        simp only [hslot, cell_natCast]
  | _ => exact h.reads

theorem readsOf_append (reads : List (Read T)) (r : Read T) (k : Nat) :
    readsOf (reads ++ [r]) k = readsOf reads k + if r.ticket = k then 1 else 0 := by
  simp [readsOf, List.countP_append, List.countP_cons]

theorem once_step {s t : State T} {i : Fin T} (h : RoundRobin arg R s) (hs : Step arg s i t)
    (k : Nat) : readsOf t.reads k + census (Carries k) t.workers =
      if k < t.picks.length then 1 else 0 := by
  have hk := h.once k
  cases hs with
  | saveIdx hpc =>
      simp only [State.move, List.length_append, List.length_singleton]
      by_cases hkl : k = s.picks.length
      · rw [census_update_enter (by simp [Carries, hpc]) (by simp [Carries, hkl])]
        subst hkl
        simp at hk ⊢
        omega
      · rw [census_update_same (by simp [Carries, hpc, Ne.symm hkl]), hk]
        simp only [show k < s.picks.length + 1 ↔ k < s.picks.length by omega]
  | readCabin hpc =>
      refine Eq.trans ?_ hk
      simp only [State.move, readsOf_append]
      by_cases hkt : (s.workers i).ticket = k
      · rw [if_pos hkt, Nat.add_right_comm, Nat.add_assoc,
          census_update_leave (by simp [Carries, hpc, hkt]) (by simp [Carries])]
      · rw [census_update_same (by simp [Carries, hkt]), if_neg hkt, Nat.add_zero]
  | _ hpc =>
      simp only [State.move]
      rw [census_update_same (by simp [Carries, hpc])]
      exact hk

theorem roundRobin_step (hc : Configured arg R) {s t : State T} {i : Fin T}
    (h : RoundRobin arg R s) (hn : (dispatcher arg T).next s i = some t) :
    RoundRobin arg R t where
  owner := owner_step h.owner (step_of_next hn)
  worker := worker_step hc h.worker (step_of_next hn)
  index := index_step hc h (step_of_next hn)
  cyclic := cyclic_step h (step_of_next hn)
  reads := reads_step h (step_of_next hn)
  once := once_step h (step_of_next hn)

theorem roundRobin_reachable (hc : Configured arg R) {s : State T}
    (h : (dispatcher arg T).Reachable (init T) s) : RoundRobin arg R s :=
  Machine.Reachable.invariant (fun hs hn => roundRobin_step hc hs hn) roundRobin_init h

/-! ## Whole runs -/

/-- A command line that `parsing_input` accepts, run for `R` rounds. -/
theorem configured_of_parsingInput {mallocOk : Bool} {argv : List String} {arg₀ arg : ProfArg}
    (h : parsingInput mallocOk argv arg₀ = (0, arg)) (R : Nat) :
    Configured { arg with s32round := R } R := by
  have ha := accepted_of_parsingInput h
  have hpos := ha.cnt_pos
  have hlen := ha.cabin_length
  exact ⟨show 0 < arg.ps32cabin.length by omega, hlen.symm, rfl⟩

namespace RoundRobin

variable {s : State T}

theorem index_bounds (hc : Configured arg R) (h : RoundRobin arg R s) :
    0 ≤ s.gs32cabinidx ∧ s.gs32cabinidx < arg.s32cnt := by
  have hmod : ∀ k : Nat, ((k % arg.ps32cabin.length : Nat) : Int) < arg.s32cnt := by
    intro k
    have := Nat.mod_lt k hc.pos
    rw [hc.cnt]
    omega
  by_cases hadv : ∀ i, (s.workers i).pc ≠ .advance
  · rw [h.index.settled hadv]
    exact ⟨by omega, hmod _⟩
  · push Not at hadv
    obtain ⟨i, hi⟩ := hadv
    rw [(h.index.behind i hi).1]
    exact ⟨by omega, hmod _⟩

/-- The slots in pick order run cyclically through the list. -/
theorem slots_eq (h : RoundRobin arg R s) :
    s.picks.map Pick.slot =
      (List.range s.picks.length).map fun k => ((k % arg.ps32cabin.length : Nat) : Int) := by
  apply List.ext_getElem?
  intro k
  rw [List.getElem?_map, List.getElem?_map]
  by_cases hk : k < s.picks.length
  · have hp := List.getElem?_eq_getElem hk
    rw [hp, List.getElem?_range hk]
    simp [h.cyclic k _ hp]
  · rw [List.getElem?_eq_none (by omega), List.getElem?_eq_none (by simp; omega)]
    rfl

theorem picksAt_eq (h : RoundRobin arg R s) {i : Nat} (hi : i < arg.ps32cabin.length) :
    picksAt s.picks i =
      (s.picks.length - i + (arg.ps32cabin.length - 1)) / arg.ps32cabin.length := by
  have hmap : picksAt s.picks i = (s.picks.map Pick.slot).countP fun x => x = (i : Int) := by
    rw [List.countP_map]
    rfl
  rw [hmap, h.slots_eq, List.countP_map, ← countP_range_mod hi]
  refine List.countP_congr fun k _ => ?_
  simp
  omega

theorem picksOf_finished (h : RoundRobin arg R s) {i : Fin T}
    (hi : (s.workers i).pc = .finished) : picksOf s.picks i = R := by
  have hw := h.worker i
  simp only [WorkerOk, hi] at hw
  exact hw.1.trans hw.2

theorem length_finished (h : RoundRobin arg R s) (hfin : ∀ i, (s.workers i).pc = .finished) :
    s.picks.length = T * R := by
  have hsum : ∑ i, picksOf s.picks i = s.picks.length := sum_countP_eq_length Pick.worker s.picks
  rw [← hsum, Finset.sum_congr rfl fun i _ => h.picksOf_finished (hfin i)]
  simp

theorem readsOf_finished (h : RoundRobin arg R s) (hfin : ∀ i, (s.workers i).pc = .finished)
    (k : Nat) : readsOf s.reads k = if k < T * R then 1 else 0 := by
  have hz : census (Carries k) s.workers = 0 :=
    census_eq_zero.mpr fun i hi => by simp [Carries, hfin i] at hi
  have hk := h.once k
  rw [hz, h.length_finished hfin] at hk
  exact hk

end RoundRobin

/-- Every number in its turn: in every interleaving the pick at position `k` is slot
`k % s32cnt` and its read returns that cell, the index stays inside the list, and workers
that have all finished have shared out `T * R` picks evenly, each read exactly once. -/
theorem work_fxn_round_robin {mallocOk : Bool} {argv : List String} {arg₀ arg : ProfArg}
    (hparse : parsingInput mallocOk argv arg₀ = (0, arg)) {s : State T}
    (h : (dispatcher { arg with s32round := R } T).Reachable (init T) s) :
    (1 ≤ arg.s32cnt ∧ 0 ≤ s.gs32cabinidx ∧ s.gs32cabinidx < arg.s32cnt) ∧
    (∀ (k : Nat) (p : Pick T), s.picks[k]? = some p → p.slot = (k : Int) % arg.s32cnt) ∧
    (∀ r ∈ s.reads, ∃ p x, s.picks[r.ticket]? = some p ∧ p.worker = r.worker ∧
      arg.ps32cabin[r.ticket % arg.s32cnt.toNat]? = some x ∧ r.value = some x) ∧
    ((∀ i, (s.workers i).pc = .finished) →
      s.picks.length = T * R ∧ (∀ i, picksOf s.picks i = R) ∧
      (∀ i < arg.s32cnt.toNat,
        picksAt s.picks i = (T * R - i + (arg.s32cnt.toNat - 1)) / arg.s32cnt.toNat) ∧
      ∀ k, readsOf s.reads k = if k < T * R then 1 else 0) := by
  have hc := configured_of_parsingInput hparse R
  have hr := roundRobin_reachable hc h
  have hcnt : arg.s32cnt = arg.ps32cabin.length := hc.cnt
  have hpos : 0 < arg.ps32cabin.length := hc.pos
  have hnat : arg.s32cnt.toNat = arg.ps32cabin.length := by omega
  have hidx := hr.index_bounds hc
  refine ⟨⟨by omega, hidx⟩, ?_, ?_, ?_⟩
  · intro k p hp
    rw [hr.cyclic k p hp, hcnt]
    exact Int.natCast_mod k _
  · intro r hmem
    obtain ⟨p, hp, hw, hv⟩ := hr.reads r hmem
    have hlt := Nat.mod_lt r.ticket hpos
    have hx := List.getElem?_eq_getElem hlt
    rw [hnat]
    exact ⟨p, _, hp, hw, hx, hv.trans hx⟩
  · intro hfin
    have hlen := hr.length_finished hfin
    refine ⟨hlen, fun i => hr.picksOf_finished (hfin i), ?_, hr.readsOf_finished hfin⟩
    intro i hi
    rw [hnat] at hi ⊢
    rw [← hlen]
    exact hr.picksAt_eq hi

/-- `./run SCHED_RR 1 1 7 8`, two workers of one round each: the second reads first. -/
theorem work_fxn_round_robin_two : ∃ s : State 2, (∀ i, (s.workers i).pc = .finished) ∧
    picksAt s.picks 0 = 1 ∧ picksAt s.picks 1 = 1 ∧
    ∀ k, readsOf s.reads k = if k < 2 then 1 else 0 := by
  have hparse : parsingInput true ["./run", "SCHED_RR", "1", "1", "7", "8"] gstrArg =
      (0, ⟨2, (0, 0), SCHED_RR, 1, 1, 2, [7, 8]⟩) := by decide +kernel
  have hrun : ∃ s, (dispatcher ⟨2, (0, 0), SCHED_RR, (1 : Nat), 1, 2, [7, 8]⟩ 2).run (init 2)
      [0, 0, 1, 0, 0, 0, 1, 1, 1, 1, 1, 1, 1, 0, 0, 0, 0, 1] = some s ∧
      ∀ i, (s.workers i).pc = .finished := ⟨_, rfl, by decide⟩
  obtain ⟨s, hs, hfin⟩ := hrun
  obtain ⟨_, _, hat, hreads⟩ := (work_fxn_round_robin (R := 1) hparse ⟨_, hs⟩).2.2.2 hfin
  exact ⟨s, hfin, hat 0 (by decide), hat 1 (by decide), hreads⟩

end Cse522.Lab02.Dispatcher

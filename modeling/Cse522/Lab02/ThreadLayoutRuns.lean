import Mathlib.Data.List.Nodup
import Mathlib.Data.List.Range
import Mathlib.Algebra.GroupWithZero.Nat
import Cse522.Lab02.ThreadLayout

/-!
# Each core gets its threads

The slots are visited in order, so the state after `k` passes of the first loops is known: the
first `k` cells of each array are written. No call of the library matters for that, except that
a call that fails ends the program.
-/
namespace Cse522.Lab02.ThreadLayout

open Cse522.Clib.Outcome Cse522.Clib.Stdlib Cse522.Lab02.Parsing

/-- All calls that are checked succeed, for `cnt` threads. -/
structure Pthread.Succeeds (lib : Pthread) (cnt : Int) : Prop where
  mutexInit : lib.mutexInit = 0
  barrierInit : lib.barrierInit cnt = 0
  attrSetaffinity : ∀ slot, 0 ≤ slot → slot < cnt → lib.attrSetaffinity slot = 0
  attrSetschedpolicy : ∀ slot, 0 ≤ slot → slot < cnt → lib.attrSetschedpolicy slot = 0
  attrSetschedparam : ∀ slot, 0 ≤ slot → slot < cnt → lib.attrSetschedparam slot = 0
  create : ∀ slot, 0 ≤ slot → slot < cnt → lib.create slot = 0
  barrierDestroy : lib.barrierDestroy = 0
  mutexDestroy : lib.mutexDestroy = 0

/-- One of the policies that `parsing_input` lets through. -/
def KnownPolicy (s32policy : Int) : Prop :=
  s32policy = SCHED_OTHER ∨ s32policy = SCHED_RR ∨ s32policy = SCHED_FIFO

/-- Some call fails, or the policy is none; the slots are used as they should be. -/
def Refused (lib : Pthread) (arg : ProfArg) (cnt : Int) (e : Stop) : Prop :=
  e ≠ .misuse ∧ ¬ (lib.Succeeds cnt ∧ KnownPolicy arg.s32sched_policy)

variable {lib : Pthread} {arg : ProfArg} {P cnt : Int} {p k : Nat} {α : Type}

theorem ends_check {ret status : Int} (h : lib.Succeeds cnt → ret = 0) :
    Ends (fun _ => True) (Refused lib arg cnt) (check ret status) := by
  unfold check
  split
  case isTrue hne => exact .error ⟨by simp, fun hgood => hne (h hgood.1)⟩
  case isFalse => exact .ok trivial

/-! ## Arrays written in order -/

/-- An array whose first `k` cells are written. -/
def filled (k : Nat) (f : Nat → α) : Int → Option α :=
  fun s32idx => if 0 ≤ s32idx ∧ s32idx < k then some (f s32idx.toNat) else none

theorem filled_zero (f : Nat → α) : filled 0 f = fun _ => none := by
  funext s32idx
  have hno : ¬ (0 ≤ s32idx ∧ s32idx < (0 : Nat)) := by omega
  rw [filled, if_neg hno]

theorem write_filled (f : Nat → α) (hk : k < cnt) :
    write cnt (filled k f) k (f k) = .ok (filled (k + 1) f) := by
  have hfree : filled k f k = none := by simp [filled]
  have hupdate : Function.update (filled k f) k (some (f k)) = filled (k + 1) f := by
    funext s32idx
    by_cases hidx : s32idx = k
    · rw [hidx, Function.update_self, filled, if_pos ⟨by omega, by omega⟩, Int.toNat_natCast]
    · have hlt : s32idx < (k + 1 : Nat) ↔ s32idx < k := by omega
      rw [Function.update_of_ne hidx, filled, filled]
      simp only [hlt]
  rw [write, if_pos ⟨by omega, hk, hfree⟩, hupdate]

theorem read_filled {m : Nat} (f : Nat → α) (hk : k < cnt) (hm : k < m) :
    read cnt (filled m f) k = .ok (f k) := by
  have hcell : filled m f k = some (f k) := by simp [filled, hm]
  rw [read, if_pos ⟨by omega, hk⟩, hcell]

/-! ## The threads -/

/-- The priority of the threads in row `k / p`. -/
def prioAt (arg : ProfArg) (p k : Nat) : Int :=
  if ((k / p : Nat) : Int) < arg.s32pthpercore.tdiv 2 then arg.as32prio.1 else arg.as32prio.2

def attrAt (arg : ProfArg) (p k : Nat) : Attr :=
  ⟨(k % p : Nat), arg.s32sched_policy,
    if arg.s32sched_policy = SCHED_OTHER then 0 else prioAt arg p k⟩

def threadAt (arg : ProfArg) (p k : Nat) : Thread := ⟨attrAt arg p k, prioAt arg p k⟩

theorem priority_threadAt (arg : ProfArg) (p k : Nat) :
    (threadAt arg p k).priority = prioAt arg p k := by
  simp only [Thread.priority, threadAt, attrAt]
  split <;> rfl

/-- The first slots. -/
def slots (k : Nat) : List Int := (List.range k).map fun i : Nat => (i : Int)

theorem slots_succ (k : Nat) : slots (k + 1) = slots k ++ [(k : Int)] := by
  simp [slots, List.range_succ]

/-- `k` threads are created, `j` of them joined, and the attributes of `d` destroyed. -/
def stateAt (arg : ProfArg) (p : Nat) (cnt : Int) (k j d : Nat) : State where
  s32threadcnt := cnt
  barrier := cnt
  pstrworkarg := filled k (prioAt arg p)
  pstrattr := filled k (attrAt arg p)
  ppthread := filled k (threadAt arg p)
  created := slots k
  joined := slots j
  destroyed := slots d

theorem toInt_of_bounds {x : Int} (hlo : 0 ≤ x) (hhi : x < 2147483648) : toInt x = x := by
  unfold toInt
  omega

/-- The slot of the `k`-th pass. -/
theorem slot_eq (hk : k < 2147483648) :
    toInt (((k / p : Nat) : Int) * p + (k % p : Nat)) = k := by
  have hdiv : ((k / p : Nat) : Int) * p + (k % p : Nat) = k := by
    exact_mod_cast Nat.div_add_mod' k p
  rw [hdiv, toInt_of_bounds (by omega) (by omega)]

theorem ends_schedPriority (s32prio : Int) :
    Ends (· = if arg.s32sched_policy = SCHED_OTHER then 0 else s32prio) (Refused lib arg cnt)
      (schedPriority arg.s32sched_policy s32prio) := by
  unfold schedPriority
  split_ifs with hother hrt
  · exact .ok rfl
  · exact .ok rfl
  · refine .error ⟨by simp, fun hgood => ?_⟩
    rcases hgood.2 with h | h
    · exact hother h
    · exact hrt h

theorem ends_attr (lib : Pthread) (arg : ProfArg) {slot : Int} (h0 : 0 ≤ slot)
    (hslot : slot < cnt) (p k : Nat) :
    Ends (· = attrAt arg p k) (Refused lib arg cnt)
      (setPthreadSchedinfoAttr lib slot arg.s32sched_policy (prioAt arg p k) (k % p : Nat)) := by
  refine (ends_check fun hs => hs.attrSetaffinity slot h0 hslot).bind fun _ _ => ?_
  refine (ends_schedPriority (prioAt arg p k)).bind fun prio hprio => ?_
  refine (ends_check fun hs => hs.attrSetschedpolicy slot h0 hslot).bind fun _ _ => ?_
  refine (ends_check fun hs => hs.attrSetschedparam slot h0 hslot).bind fun _ _ => ?_
  rw [hprio]
  exact .ok rfl

theorem ends_createThread (hk : k < cnt) (hcnt : cnt < 2147483648) :
    Ends (· = stateAt arg p cnt (k + 1) 0 0) (Refused lib arg cnt)
      (createThread lib arg p (k / p : Nat) (k % p : Nat) (stateAt arg p cnt k 0 0)) := by
  unfold createThread
  rw [slot_eq (by omega)]
  have hworkarg : write cnt (filled k (prioAt arg p)) k
      (if ((k / p : Nat) : Int) < arg.s32pthpercore.tdiv 2 then arg.as32prio.1
        else arg.as32prio.2) = .ok (filled (k + 1) (prioAt arg p)) := write_filled _ hk
  simp only [stateAt, hworkarg]
  refine (ends_attr lib arg (Int.natCast_nonneg k) hk p k).bind fun attr hattr => ?_
  simp only [hattr, write_filled _ hk, read_filled _ hk (Nat.lt_succ_self k), ok_bind]
  refine (ends_check fun hs => hs.create k (Int.natCast_nonneg k) hk).bind fun _ _ => ?_
  have hthread : write cnt (filled k (threadAt arg p)) k ⟨attrAt arg p k, prioAt arg p k⟩ =
      .ok (filled (k + 1) (threadAt arg p)) := write_filled _ hk
  simp only [hthread, slots_succ, ok_bind]
  exact .ok rfl

theorem ends_joinThread {m : Nat} (hk : k < m) (hm : m ≤ cnt)
    (hcnt : cnt < 2147483648) :
    Ends (· = stateAt arg p cnt m (k + 1) 0) (Refused lib arg cnt)
      (joinThread p (k / p : Nat) (k % p : Nat) (stateAt arg p cnt m k 0)) := by
  unfold joinThread
  rw [slot_eq (by omega)]
  simp only [stateAt, read_filled _ (show (k : Int) < cnt by omega) hk, ok_bind, slots_succ]
  exact .ok rfl

theorem ends_destroyAttr {m j : Nat} (hk : k < m) (hm : m ≤ cnt)
    (hcnt : cnt < 2147483648) :
    Ends (· = stateAt arg p cnt m j (k + 1)) (Refused lib arg cnt)
      (destroyAttr p (k / p : Nat) (k % p : Nat) (stateAt arg p cnt m j k)) := by
  unfold destroyAttr
  rw [slot_eq (by omega)]
  simp only [stateAt, read_filled _ (show (k : Int) < cnt by omega) hk, ok_bind, slots_succ]
  exact .ok rfl

/-- The whole of `main`. -/
theorem ends_main (lib : Pthread) {cnt : Nat} (hn : 1 ≤ arg.s32pthpercore) (hp : 1 ≤ p)
    (hcnt : arg.s32pthpercore.toNat * p = cnt) (hfit : cnt < 2147483648) :
    Ends (· = stateAt arg p cnt cnt cnt cnt) (Refused lib arg cnt) (main lib arg p) := by
  have hn' : (arg.s32pthpercore.toNat : Int) = arg.s32pthpercore := Int.toNat_of_nonneg (by omega)
  have hple : p ≤ cnt := by
    rw [← hcnt]
    exact Nat.le_mul_of_pos_left p (by omega)
  have hprocs : toInt p = p := toInt_of_bounds (by omega) (by omega)
  have hthreads : toInt (p * arg.s32pthpercore) = cnt := by
    have hmul : (p : Int) * arg.s32pthpercore = cnt := by
      rw [← hn', ← hcnt, Int.mul_comm]
      push_cast
      rfl
    rw [hmul, toInt_of_bounds (by omega) (by omega)]
  unfold main
  simp only [hprocs, hthreads]
  refine (ends_check fun hs => hs.mutexInit).bind fun _ _ => ?_
  refine (ends_check fun hs => hs.barrierInit).bind fun _ _ => ?_
  simp only [forInt_forInt, Int.toNat_natCast, hcnt]
  refine Ends.bind (Q := (· = stateAt arg p cnt cnt 0 0)) ?_ fun s hs => ?_
  · refine Ends.foldlM (I := fun k s => s = stateAt arg p cnt k 0 0) (fun k hk s hs => ?_) ?_
    · subst hs
      exact ends_createThread (by omega) (by omega)
    · rw [stateAt, filled_zero, filled_zero, filled_zero]
      rfl
  subst hs
  refine Ends.bind (Q := (· = stateAt arg p cnt cnt cnt 0)) ?_ fun s hs => ?_
  · refine Ends.foldlM (I := fun k s => s = stateAt arg p cnt cnt k 0) (fun k hk s hs => ?_) rfl
    subst hs
    exact ends_joinThread hk (Int.le_refl _) (by omega)
  subst hs
  refine (ends_check fun hs => hs.barrierDestroy).bind fun _ _ => ?_
  refine (ends_check fun hs => hs.mutexDestroy).bind fun _ _ => ?_
  refine Ends.foldlM (I := fun k s => s = stateAt arg p cnt cnt cnt k) (fun k hk s hs => ?_) rfl
  subst hs
  exact ends_destroyAttr hk (Int.le_refl _) (by omega)

/-! ## The threads of a core -/

/-- The threads in order of their creation that are pinned to core `j`. -/
def State.onCore (s : State) (j : Int) : List Thread :=
  (s.created.filterMap s.ppthread).filter fun t => t.attr.core = j

theorem threads_stateAt {m j d : Nat} :
    (stateAt arg p cnt m j d).created.filterMap (stateAt arg p cnt m j d).ppthread =
      (List.range m).map (threadAt arg p) := by
  show ((List.range m).map fun i : Nat => (i : Int)).filterMap (filled m (threadAt arg p)) = _
  rw [List.filterMap_map, ← List.filterMap_eq_map]
  refine List.filterMap_congr fun k hk => ?_
  have hlt := List.mem_range.mp hk
  simp [filled, hlt]

/-- Every `p`-th slot is one of core `j`. -/
theorem filter_mod (n : Nat) {j : Nat} (hj : j < p) :
    (List.range (n * p)).filter (fun k => k % p = j) = (List.range n).map fun i => i * p + j := by
  induction n with
  | zero => simp
  | succ n ih =>
      have hrow : ((List.range p).map (n * p + ·)).filter (fun k => k % p = j) = [n * p + j] := by
        have hmod : ∀ i ∈ List.range p, (n * p + i) % p = i := by
          intro i hi
          exact Nat.mul_add_mod_of_lt (List.mem_range.mp hi)
        rw [List.filter_map, List.filter_congr (q := fun i => i = j) fun i hi => by
          simp [hmod i hi]]
        rw [List.filter_eq, List.count_eq_one_of_mem List.nodup_range (List.mem_range.mpr hj)]
        rfl
      rw [Nat.succ_mul, List.range_add, List.filter_append, ih, hrow, List.range_succ,
        List.map_append]
      rfl

theorem map_ite_range (n h : Nat) (hle : h ≤ n) (a b : α) :
    ((List.range n).map fun i => if i < h then a else b) =
      List.replicate h a ++ List.replicate (n - h) b := by
  obtain ⟨d, rfl⟩ := Nat.exists_eq_add_of_le hle
  rw [List.range_add, List.map_append, List.map_map, Nat.add_sub_cancel_left]
  congr 1
  · refine List.eq_replicate_iff.mpr ⟨by simp, fun x hx => ?_⟩
    obtain ⟨i, hi, rfl⟩ := List.mem_map.mp hx
    exact if_pos (List.mem_range.mp hi)
  · refine List.eq_replicate_iff.mpr ⟨by simp, fun x hx => ?_⟩
    obtain ⟨i, -, rfl⟩ := List.mem_map.mp hx
    exact if_neg (Nat.not_lt.mpr (Nat.le_add_right h i))

/-- The lower half of the threads of a core have the first priority. -/
theorem onCore_stateAt {n : Nat} {j : Nat} (hn : arg.s32pthpercore = n) (hj : j < p) :
    ((stateAt arg p cnt (n * p) (n * p) (n * p)).onCore j).map Thread.priority =
      List.replicate (n / 2) arg.as32prio.1 ++ List.replicate (n - n / 2) arg.as32prio.2 := by
  have hcore : ∀ k, decide ((threadAt arg p k).attr.core = j) = decide (k % p = j) := by
    intro k
    rw [decide_eq_decide]
    exact Int.ofNat_inj
  have hhalf : arg.s32pthpercore.tdiv 2 = (n / 2 : Nat) := by
    rw [hn]
    rfl
  have hrow : ∀ i, (threadAt arg p (i * p + j)).priority =
      if i < n / 2 then arg.as32prio.1 else arg.as32prio.2 := by
    intro i
    rw [priority_threadAt, prioAt, mul_add_div_of_lt hj, hhalf]
    exact if_congr Int.ofNat_lt rfl rfl
  rw [State.onCore, threads_stateAt, List.filter_map, List.map_map]
  have hfilter : (fun t => decide (t.attr.core = (j : Int))) ∘ threadAt arg p =
      fun k => decide (k % p = j) := funext hcore
  rw [hfilter, filter_mod n hj, List.map_map, ← map_ite_range n (n / 2) (Nat.div_le_self n 2)]
  exact List.map_congr_left fun i _ => hrow i

/-! ## The layout -/

/-- All loops go over the slots below `s32pthpercore * P` in order, which are the ones written in
the arrays and as many as the barrier waits for; and each core has its threads, the first half of
them, rounded down, with the first priority and the others with the second. -/
structure LaidOut (arg : ProfArg) (P : Int) (s : State) : Prop where
  created : s.created = slots (arg.s32pthpercore * P).toNat
  joined : s.joined = slots (arg.s32pthpercore * P).toNat
  destroyed : s.destroyed = slots (arg.s32pthpercore * P).toNat
  barrier : s.barrier = arg.s32pthpercore * P
  written : ∀ s32idx, ((s.pstrworkarg s32idx).isSome ↔ s32idx ∈ s.created) ∧
    ((s.pstrattr s32idx).isSome ↔ s32idx ∈ s.created) ∧
    ((s.ppthread s32idx).isSome ↔ s32idx ∈ s.created)
  cores : ∀ j, 0 ≤ j → j < P → (s.onCore j).map Thread.priority =
    List.replicate (arg.s32pthpercore.toNat / 2) arg.as32prio.1 ++
      List.replicate (arg.s32pthpercore.toNat - arg.s32pthpercore.toNat / 2) arg.as32prio.2

theorem mem_slots {s32idx : Int} : s32idx ∈ slots k ↔ 0 ≤ s32idx ∧ s32idx < k := by
  simp only [slots, List.mem_map, List.mem_range]
  constructor
  · intro hsome
    obtain ⟨i, hi, rfl⟩ := hsome
    omega
  · intro hsome
    obtain ⟨hlo, hhi⟩ := hsome
    exact ⟨s32idx.toNat, by omega, Int.toNat_of_nonneg hlo⟩

theorem isSome_filled {s32idx : Int} (f : Nat → α) :
    (filled k f s32idx).isSome ↔ s32idx ∈ slots k := by
  rw [mem_slots, filled]
  split <;> simp_all

theorem laidOut_stateAt {n : Nat} (hn : arg.s32pthpercore = n) :
    LaidOut arg p (stateAt arg p (n * p : Nat) (n * p) (n * p) (n * p)) := by
  have hmul : arg.s32pthpercore * (p : Int) = (n * p : Nat) := by
    rw [hn]
    push_cast
    rfl
  have hslots : slots (n * p) = slots (arg.s32pthpercore * (p : Int)).toNat := by
    rw [hmul, Int.toNat_natCast]
  refine ⟨hslots, hslots, hslots, hmul.symm,
    fun s32idx => ⟨isSome_filled _, isSome_filled _, isSome_filled _⟩, fun j hj0 hjP => ?_⟩
  obtain ⟨i, rfl⟩ := Int.eq_ofNat_of_zero_le hj0
  rw [hn, Int.toNat_natCast]
  exact onCore_stateAt hn (by omega)

/-- Whatever the calls of the library return, no slot is used in front of its initialisation, or
initialised twice, or outside of its array. If none of them fails, the threads are laid out on
the cores as they should be. -/
theorem main_lays_out (lib : Pthread) (arg : ProfArg) (P : Int) (hn : 1 ≤ arg.s32pthpercore)
    (hP : 1 ≤ P) (hfit : arg.s32pthpercore * P < 2147483648) :
    main lib arg P ≠ .error .misuse ∧
    (lib.Succeeds (arg.s32pthpercore * P) → KnownPolicy arg.s32sched_policy →
      ∃ s, main lib arg P = .ok s ∧ LaidOut arg P s) := by
  obtain ⟨p, rfl⟩ := Int.eq_ofNat_of_zero_le (show 0 ≤ P by omega)
  obtain ⟨n, hn'⟩ := Int.eq_ofNat_of_zero_le (show 0 ≤ arg.s32pthpercore by omega)
  have hmul : arg.s32pthpercore * (p : Int) = (n * p : Nat) := by
    rw [hn']
    push_cast
    rfl
  have hends := ends_main lib (p := p) hn (by omega)
    (show arg.s32pthpercore.toNat * p = n * p by rw [hn', Int.toNat_natCast]) (by omega)
  rw [hmul]
  constructor
  · intro hbad
    rw [hbad] at hends
    cases hends with
    | error h => exact h.1 rfl
  · intro hs hpolicy
    obtain ⟨s, hmain, hstate⟩ := hends.exists_ok fun e he => he.2 ⟨hs, hpolicy⟩
    refine ⟨s, hmain, ?_⟩
    rw [hstate]
    exact laidOut_stateAt hn'

/-- Every call returns 0. -/
def noFailure : Pthread where
  mutexInit := 0
  barrierInit _ := 0
  attrSetaffinity _ := 0
  attrSetschedpolicy _ := 0
  attrSetschedparam _ := 0
  create _ := 0
  barrierDestroy := 0
  mutexDestroy := 0

/-- Three threads on each of four cores, one of them with priority 7 and two with priority 9. -/
theorem main_lays_out_three_four :
    ∃ s, main noFailure ⟨3, (7, 9), SCHED_RR, 1, 1, 1, [5]⟩ 4 = .ok s ∧
      LaidOut ⟨3, (7, 9), SCHED_RR, 1, 1, 1, [5]⟩ 4 s :=
  (main_lays_out _ _ _ (by decide) (by decide) (by decide)).2
    ⟨rfl, rfl, fun _ _ _ => rfl, fun _ _ _ => rfl, fun _ _ _ => rfl, fun _ _ _ => rfl, rfl, rfl⟩
    (.inr (.inl rfl))

end Cse522.Lab02.ThreadLayout

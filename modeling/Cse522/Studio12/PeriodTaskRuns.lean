import Cse522.Studio12.PeriodTask

/-!
# The records of a whole run

Each signal before the last job adds one record behind those there are. The arguments are
checked one by one, but the size of the array bounds their quotient: a run is safe when the
jobs fit the array, or when it is too short to fill it.
-/
namespace Cse522.Studio12.PeriodTask

open Cse522.Interleave

variable {v : Vars} {s t : State} {job : Record} {signals : List Record}

/-- A handler run before the last job records within the array; the one behind it reports
all jobs, and reads records that were written. -/
structure Safe (v : Vars) (s : State) (job : Record) (t : State) : Prop where
  records : s.idx < count v → 0 ≤ s.idx ∧ s.idx < MAX ∧ t.data s.idx.toNat = some job
  jobsDone : count v ≤ s.idx → ∀ i : Nat, (s.data i).isSome ↔ (i : Int) < jobs v
  reads : count v ≤ s.idx → t.printed.isSome

/-- The task counts its jobs right, and is safe at every signal. -/
def RunSafe (v : Vars) (start_time : Ticks) (signals : List Record) : Prop :=
  count v = jobs v ∧ (task v).Along (Safe v) (init start_time) signals

/-- `j` jobs are done, and the next signal finds the handler ready. -/
structure Recorded (v : Vars) (s : State) (j : Nat) : Prop where
  pc : s.pc = .running
  idx : s.idx = j
  data : ∀ i, (s.data i).isSome ↔ i < j
  le : (j : Int) ≤ count v

theorem recorded_init (hv : 0 ≤ count v) (start_time : Ticks) :
    Recorded v (init start_time) 0 where
  pc := rfl
  idx := rfl
  data := by simp [init]
  le := hv

/-- The report comes out when every record it reads is there. -/
theorem printRes_isSome {period n : Int} {start_time : Ticks} {data : Nat → Option Record}
    (h : ∀ i : Nat, (i : Int) < n → (data i).isSome) :
    (printRes period n start_time data).isSome := by
  have hfold : ∀ (is : List Nat) (out : Printed), (∀ i ∈ is, (data i).isSome) →
      (is.foldlM (printRow period data) out).isSome := by
    intro is
    induction is with
    | nil =>
        intro out _
        rfl
    | cons i is ih =>
        intro out hall
        obtain ⟨r, hr⟩ := Option.isSome_iff_exists.mp (hall i (by simp))
        simp only [List.foldlM_cons, printRow, hr, Option.map_some, Option.bind_eq_bind,
          Option.bind_some]
        exact ih _ fun j hj => hall j (by simp [hj])
  apply hfold
  intro i hi
  have hlt := List.mem_range.mp hi
  exact h i (by omega)

/-! ## One signal -/

/-- What the handler does after `j` jobs. -/
theorem work_cases {j : Nat} (h : Recorded v s j) (hn : (task v).next s job = some t) :
    (count v = j ∧ t.pc = .exited ∧ t.printed.isSome) ∨
    (j < count v ∧ j < MAX ∧ Recorded v t (j + 1) ∧ t.data j = some job) ∨
    (j < count v ∧ MAX ≤ j ∧ t.pc = .undefined) := by
  have hle := h.le
  simp only [task, work, h.pc, h.idx, ne_eq, not_true_eq_false, if_false] at hn
  by_cases hdone : count v ≤ j
  · rw [if_pos hdone] at hn
    cases hn
    refine .inl ⟨by omega, rfl, printRes_isSome fun i hi => ?_⟩
    rw [h.data]
    omega
  · rw [if_neg hdone] at hn
    by_cases hfits : (0 : Int) ≤ j ∧ (j : Int) < MAX
    · rw [if_pos hfits] at hn
      cases hn
      refine .inr (.inl ⟨by omega, hfits.2, ?_, by simp⟩)
      refine ⟨rfl, by simp, fun i => ?_, by simp only [Nat.cast_add, Nat.cast_one]; omega⟩
      by_cases hij : i = j
      · subst hij
        simp
      · have hdata := h.data i
        simp only [Int.toNat_natCast, Function.update_of_ne hij, hdata]
        omega
    · rw [if_neg hfits] at hn
      cases hn
      exact .inr (.inr ⟨by omega, by omega, rfl⟩)

/-- A signal is handled safely when the record fits, or there is nothing left to record. -/
theorem safe_iff {j : Nat} (hcount : count v = jobs v) (h : Recorded v s j)
    (hn : (task v).next s job = some t) : Safe v s job t ↔ j = count v ∨ j < MAX := by
  have hle := h.le
  constructor
  · intro hs
    by_cases hdone : j = count v
    · exact .inl hdone
    · have hrec := (hs.records (by rw [h.idx]; omega)).2.1
      rw [h.idx] at hrec
      exact .inr hrec
  · intro hok
    rcases work_cases h hn with ⟨hj, -, hprinted⟩ | ⟨hlt, hmax, -, hdata⟩ | ⟨hlt, hmax, -⟩
    · refine ⟨fun hi => ?_, fun _ i => ?_, fun _ => hprinted⟩
      · rw [h.idx] at hi
        omega
      · rw [h.data i, ← hcount, hj]
        exact Nat.cast_lt.symm
    · refine ⟨fun _ => ?_, fun hi => ?_, fun hi => ?_⟩
      · rw [h.idx]
        exact ⟨by omega, hmax, hdata⟩
      · rw [h.idx] at hi
        omega
      · rw [h.idx] at hi
        omega
    · rcases hok with hj | hj <;> omega

/-! ## All signals -/

theorem along_safe_of_stopped (hpc : s.pc ≠ .running) : (task v).Along (Safe v) s signals := by
  cases signals with
  | nil => trivial
  | cons job signals =>
      intro t hn
      simp [task, work, hpc] at hn

theorem next_isSome {j : Nat} (h : Recorded v s j) (job : Record) :
    ∃ t, (task v).next s job = some t := by
  simp only [task, work, h.pc, ne_eq, not_true_eq_false, if_false]
  split
  · exact ⟨_, rfl⟩
  · split <;> exact ⟨_, rfl⟩

/-- After `j` jobs, the signals to come are handled safely if and only if all jobs fit the
array, or these signals do not go beyond it. -/
theorem along_safe_iff {j : Nat} (hcount : count v = jobs v) (h : Recorded v s j) (hj : j ≤ MAX) :
    (task v).Along (Safe v) s signals ↔ count v ≤ MAX ∨ j + signals.length ≤ MAX := by
  induction signals generalizing s j with
  | nil =>
      simp only [List.length_nil, Nat.cast_zero, Int.add_zero, hj, or_true, iff_true]
      trivial
  | cons job signals ih =>
      obtain ⟨t, hn⟩ := next_isSome h job
      rw [Machine.along_cons_of_next hn, safe_iff hcount h hn, List.length_cons]
      have hle := h.le
      push_cast
      rcases work_cases h hn with ⟨hdone, hpc, -⟩ | ⟨hlt, hmax, hrec, -⟩ | ⟨hlt, hmax, -⟩
      · have hrest : (task v).Along (Safe v) t signals := along_safe_of_stopped (by simp [hpc])
        simp only [hrest, and_true]
        omega
      · rw [ih hrec (by push_cast; omega)]
        push_cast
        omega
      · constructor
        · intro hboth
          rcases hboth.1 with hj' | hj' <;> omega
        · intro hfit
          omega

/-- A run of an accepted command line, with any number of signals, is safe if and only if
the number of jobs fits an `int`, and it fits the array or the signals do not fill it. -/
theorem runSafe_iff {args : List (Char × String)} (hargs : accepted args = some v)
    (start_time : Ticks) (signals : List Record) :
    RunSafe v start_time signals ↔
      jobs v ≤ 2147483647 ∧ (jobs v ≤ MAX ∨ (signals.length : Int) ≤ MAX) := by
  have hpos := positive_of_accepted hargs
  have hjobs := jobs_pos v hpos
  rw [RunSafe, count_eq_jobs_iff v hpos]
  constructor
  · intro h
    have hcount := (count_eq_jobs_iff v hpos).mpr h.1
    have hrec := recorded_init (v := v) (by omega) start_time
    have hfit := (along_safe_iff hcount hrec (by decide)).mp h.2
    refine ⟨h.1, ?_⟩
    rw [hcount] at hfit
    simpa using hfit
  · intro h
    have hcount := (count_eq_jobs_iff v hpos).mpr h.1
    have hrec := recorded_init (v := v) (by omega) start_time
    refine ⟨h.1, (along_safe_iff hcount hrec (by decide)).mpr ?_⟩
    rw [hcount]
    simpa using h.2

/-- Three jobs of one second each, and five signals. -/
theorem runSafe_three_jobs :
    accepted [('c', "10"), ('p', "1000"), ('d', "3000"), ('l', "5")] =
        some ⟨10, 1000, 3000, 5⟩ ∧
      RunSafe ⟨10, 1000, 3000, 5⟩ 0 (List.replicate 5 ⟨0, 1⟩) := by
  have hargs : accepted [('c', "10"), ('p', "1000"), ('d', "3000"), ('l', "5")] =
      some ⟨10, 1000, 3000, 5⟩ := by decide
  have hjobs : jobs ⟨10, 1000, 3000, 5⟩ = 3 := (jobs_eq _ (positive_of_accepted hargs)).symm
  refine ⟨hargs, (runSafe_iff hargs 0 _).mpr ?_⟩
  rw [hjobs]
  decide

/-- A period of one millisecond for 20001 milliseconds: the last job is recorded behind the
array. -/
theorem period_task_overruns :
    ¬ ∀ (args : List (Char × String)) (v : Vars) (start_time : Ticks) (signals : List Record),
      accepted args = some v → RunSafe v start_time signals := by
  intro h
  have hargs : accepted [('c', "1"), ('p', "1"), ('d', "20001"), ('l', "1")] =
      some ⟨1, 1, 20001, 1⟩ := by decide
  obtain ⟨hcount, halong⟩ := h _ _ 0 (List.replicate 20001 ⟨0, 1⟩) hargs
  have hc : count ⟨1, 1, 20001, 1⟩ = 20001 := by decide
  have hrec := recorded_init (v := ⟨1, 1, 20001, 1⟩) (by omega) 0
  have hfit := (along_safe_iff hcount hrec (by decide)).mp halong
  rw [hc, List.length_replicate] at hfit
  exact absurd hfit (by decide)

end Cse522.Studio12.PeriodTask

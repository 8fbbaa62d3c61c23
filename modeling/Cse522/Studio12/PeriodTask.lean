import Mathlib.Data.Rat.Floor
import Cse522.Clib.Stdlib
import Cse522.Interleave.Machine

/-!
# The periodic task

`main` takes four positive numbers and computes how many jobs to run. The handler of the
timer's signal runs a job and records when it started and finished, or, once all jobs are
done, prints the records and exits. The records are an array of fixed size, and the number
of jobs, computed with 64 bits, is stored in an `int`.
-/
namespace Cse522.Studio12.PeriodTask

open Cse522.Clib.Stdlib Cse522.Interleave

def MHZ : Int := 3299140
def MAX : Int := 20000

abbrev Ticks := UInt64

/-- `RECORD` -/
structure Record where
  dispatch : Ticks
  finish : Ticks
  deriving DecidableEq, Repr

/-- The parameters of the task, in milliseconds. -/
structure Vars where
  wcet : Int
  period : Int
  duration : Int
  priority : Int
  deriving DecidableEq, Repr

/-- The loop over the options and arguments that `getopt` finds; `none` stands for an exit
with an error. -/
def options : List (Char × String) → Vars → Option Vars
  | [], v => some v
  | ('c', optarg) :: rest, v =>
      if atoi optarg ≤ 0 then none else options rest { v with wcet := atoi optarg }
  | ('p', optarg) :: rest, v =>
      if atoi optarg ≤ 0 then none else options rest { v with period := atoi optarg }
  | ('d', optarg) :: rest, v =>
      if strtol optarg.toList ≤ 0 then none
      else options rest { v with duration := strtol optarg.toList }
  | ('l', optarg) :: rest, v =>
      if atoi optarg ≤ 0 then none else options rest { v with priority := atoi optarg }
  | _ :: _, _ => none

/-- The command line is accepted with these parameters. -/
def accepted (args : List (Char × String)) : Option Vars :=
  (options args ⟨0, 0, 0, 0⟩).bind fun v =>
    if v.wcet = 0 ∨ v.period = 0 ∨ v.duration = 0 ∨ v.priority = 0 then none else some v

/-- `count = (duration - 1) / period + 1`, a `long long` stored in an `int`. -/
def count (v : Vars) : Int := toInt ((v.duration - 1).tdiv v.period + 1)

/-- A line of the report, and the jobs that missed their deadline. -/
structure Row where
  start : Ticks
  dispatch : Ticks
  finish : Ticks
  delta : Ticks
  deriving DecidableEq, Repr

structure Printed where
  rows : List Row
  miss : Int
  start_time : Ticks
  deriving DecidableEq, Repr

/-- The body of the loop in `print_res`; the product `period*MHZ` is an `int`. There is no
result for a record that has not been written. -/
def printRow (period : Int) (data : Nat → Option Record) (out : Printed) (i : Nat) :
    Option Printed :=
  (data i).map fun r =>
    let deadline := out.start_time + UInt64.ofInt (toInt (period * MHZ))
    let mhz := UInt64.ofInt MHZ
    { rows := out.rows ++
        [⟨out.start_time / mhz, r.dispatch / mhz, r.finish / mhz, (r.finish - r.dispatch) / mhz⟩]
      miss := if r.finish > deadline then out.miss + 1 else out.miss
      start_time := deadline }

def printRes (period count : Int) (start_time : Ticks) (data : Nat → Option Record) :
    Option Printed :=
  (List.range count.toNat).foldlM (printRow period data) ⟨[], 0, start_time⟩

inductive Pc where
  | running
  | exited
  /-- a record has been written behind the array -/
  | undefined
  deriving DecidableEq, Repr

/-- A record is `none` until it is written. -/
structure State where
  idx : Int
  data : Nat → Option Record
  start_time : Ticks
  pc : Pc
  printed : Option Printed

def init (start_time : Ticks) : State := ⟨0, fun _ => none, start_time, .running, none⟩

/-- `work`, run by a signal; the label is what `rdtsc` returns in it. -/
def work (v : Vars) (s : State) (job : Record) : Option State :=
  if s.pc ≠ .running then none
  else if count v ≤ s.idx then
    some { s with printed := printRes v.period (count v) s.start_time s.data, pc := .exited }
  else if 0 ≤ s.idx ∧ s.idx < MAX then
    some { s with data := Function.update s.data s.idx.toNat (some job), idx := s.idx + 1 }
  else some { s with pc := .undefined }

/-- The task, driven by its signals. -/
def task (v : Vars) : Machine State Record := ⟨work v⟩

/-! ## What is accepted -/

/-- The parameters of an accepted command line. -/
structure Positive (v : Vars) : Prop where
  wcet : 0 < v.wcet
  period : 0 < v.period
  duration : 0 < v.duration
  priority : 0 < v.priority

/-- The options leave every parameter zero or positive. -/
def NonNeg (v : Vars) : Prop := 0 ≤ v.wcet ∧ 0 ≤ v.period ∧ 0 ≤ v.duration ∧ 0 ≤ v.priority

theorem nonNeg_options {args : List (Char × String)} {v w : Vars} (hv : NonNeg v)
    (h : options args v = some w) : NonNeg w := by
  fun_induction options args v with
  | case1 v =>
      cases h
      exact hv
  | case2 | case4 | case6 | case8 | case10 => cases h
  | case3 optarg rest v hpos ih =>
      exact ih ⟨by simp only; omega, hv.2.1, hv.2.2.1, hv.2.2.2⟩ h
  | case5 optarg rest v hpos ih =>
      exact ih ⟨hv.1, by simp only; omega, hv.2.2.1, hv.2.2.2⟩ h
  | case7 optarg rest v hpos ih =>
      exact ih ⟨hv.1, hv.2.1, by simp only; omega, hv.2.2.2⟩ h
  | case9 optarg rest v hpos ih =>
      exact ih ⟨hv.1, hv.2.1, hv.2.2.1, by simp only; omega⟩ h

theorem positive_of_accepted {args : List (Char × String)} {v : Vars}
    (h : accepted args = some v) : Positive v := by
  obtain ⟨w, hw, hif⟩ := Option.bind_eq_some_iff.mp h
  split at hif
  · cases hif
  · rename_i hzero
    cases hif
    obtain ⟨hw0, hp0, hd0, hl0⟩ := nonNeg_options ⟨le_refl _, le_refl _, le_refl _, le_refl _⟩ hw
    constructor <;> omega

/-! ## The number of jobs -/

/-- The mathematical number of jobs. -/
def jobs (v : Vars) : Int := ⌈(v.duration : ℚ) / v.period⌉

theorem jobs_eq (v : Vars) (h : Positive v) : (v.duration - 1).tdiv v.period + 1 = jobs v := by
  have hp := h.period
  have hd := h.duration
  have hpq : (0 : ℚ) < v.period := by exact_mod_cast hp
  rw [Int.tdiv_eq_ediv_of_nonneg (by omega)]
  symm
  apply Int.ceil_eq_iff.mpr
  have hlo : (v.duration - 1) / v.period * v.period ≤ v.duration - 1 := Int.ediv_mul_le _ (by omega)
  have hhi : v.duration - 1 < ((v.duration - 1) / v.period + 1) * v.period :=
    Int.lt_ediv_add_one_mul_self _ hp
  constructor
  · rw [lt_div_iff₀ hpq]
    have hlt : (v.duration - 1) / v.period * v.period < v.duration := by omega
    push_cast
    rw [add_sub_cancel_right]
    exact_mod_cast hlt
  · rw [div_le_iff₀ hpq]
    have hle : v.duration ≤ ((v.duration - 1) / v.period + 1) * v.period := by omega
    exact_mod_cast hle

theorem jobs_pos (v : Vars) (h : Positive v) : 0 < jobs v := by
  have hd := h.duration
  have hp := h.period
  rw [← jobs_eq v h, Int.tdiv_eq_ediv_of_nonneg (by omega)]
  have hq : 0 ≤ (v.duration - 1) / v.period := Int.ediv_nonneg (by omega) (by omega)
  omega

/-- The `int` holds the number of jobs exactly when it fits. -/
theorem count_eq_jobs_iff (v : Vars) (h : Positive v) : count v = jobs v ↔ jobs v ≤ 2147483647 := by
  have hpos := jobs_pos v h
  rw [count, jobs_eq v h, toInt]
  omega

end Cse522.Studio12.PeriodTask

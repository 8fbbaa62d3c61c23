import Mathlib.Data.List.Count
import Cse522.Studio12.PeriodTask

/-!
# Deadlines of the periodic task

`print_res` adds `period*MHZ` to the release time for each job. The product is an `int`, which
holds the ticks of up to 650 ms; for a longer period what is added is too small by a multiple of
`2^32`, and from the second job on the release times are wrong.
-/
namespace Cse522.Studio12.PeriodTask

open Cse522.Clib.Stdlib

variable {period n : Int} {start_time : Ticks} {data : Nat → Option Record} {jobs : Nat → Record}
  {out : Printed} {i k : Nat}

/-- The value of `start_time` in front of job `i`. -/
def release (period : Int) (start_time : Ticks) : Nat → Ticks
  | 0 => start_time
  | i + 1 => release period start_time i + UInt64.ofInt (toInt (period * MHZ))

/-- The deadline of job `i` in exact arithmetic. -/
def deadline (period : Int) (start_time : Ticks) (i : Nat) : Int :=
  start_time.toNat + (i + 1) * (period * MHZ)

/-- The jobs that finish behind their deadline are counted, and the printed release times, which
are in milliseconds, are the exact ones. -/
structure Accounted (period n : Int) (start_time : Ticks) (jobs : Nat → Record) (out : Printed) :
    Prop where
  miss : out.miss = ((List.range n.toNat).countP fun i =>
    deadline period start_time i < (jobs i).finish.toNat : Nat)
  release : out.rows.map (fun row => (row.start.toNat : Int)) =
    (List.range n.toNat).map fun i : Nat => (start_time.toNat + i * (period * MHZ)) / MHZ

/-- The line of a job. -/
def row (start_time : Ticks) (r : Record) : Row :=
  let mhz := UInt64.ofInt MHZ
  ⟨start_time / mhz, r.dispatch / mhz, r.finish / mhz, (r.finish - r.dispatch) / mhz⟩

/-- What is printed of `k` jobs. -/
def printed (period : Int) (start_time : Ticks) (jobs : Nat → Record) (k : Nat) : Printed where
  rows := (List.range k).map fun i => row (release period start_time i) (jobs i)
  miss := ((List.range k).countP fun i =>
    release period start_time (i + 1) < (jobs i).finish : Nat)
  start_time := release period start_time k

theorem foldlM_printRow (hdata : ∀ i < k, data i = some (jobs i)) :
    (List.range k).foldlM (printRow period data) ⟨[], 0, start_time⟩ =
      some (printed period start_time jobs k) := by
  induction k with
  | zero => rfl
  | succ k ih =>
      rw [List.range_succ, List.foldlM_append, ih fun i hi => hdata i (by omega)]
      simp only [Option.bind_eq_bind, Option.bind_some, List.foldlM_cons, List.foldlM_nil, printRow,
        hdata k (by omega), Option.map_some, printed, List.range_succ, List.map_append,
        List.countP_append, List.map_cons, List.map_nil, release, row]
      split <;> rename_i hlate <;> simp [hlate]

theorem printRes_eq (hdata : ∀ i < n.toNat, data i = some (jobs i)) :
    printRes period n start_time data = some (printed period start_time jobs n.toNat) :=
  foldlM_printRow hdata

/-! ## The ticks of a period -/

theorem toNat_add_ofInt (t : Ticks) (w : Int) :
    ((t + UInt64.ofInt w).toNat : Int) = (t.toNat + w) % 18446744073709551616 := by
  have hw : (UInt64.ofInt w).toNat = (w % 18446744073709551616).toNat := by
    rw [UInt64.ofInt, UInt64.toNat_ofNat']
    omega
  rw [UInt64.toNat_add, hw]
  omega

/-- The ticks of the period fit an `int`. -/
def Fits (period : Int) : Prop := period * MHZ < 2147483648

theorem fits_iff : Fits period ↔ period ≤ 650 := by
  simp only [Fits, MHZ]
  omega

theorem ticks_pos (hp : 0 < period) : 0 < period * MHZ := by
  simp only [MHZ]
  omega

theorem toNat_release (hp : 0 < period) (hfits : Fits period)
    (hi : start_time.toNat + i * (period * MHZ) < 18446744073709551616) :
    ((release period start_time i).toNat : Int) = start_time.toNat + i * (period * MHZ) := by
  have hT : toInt (period * MHZ) = period * MHZ := by
    simp only [Fits, MHZ] at hfits
    simp only [toInt, MHZ]
    omega
  have hpos := ticks_pos hp
  induction i with
  | zero => simp [release]
  | succ i ih =>
      have hsucc : ((i + 1 : Nat) : Int) * (period * MHZ) = i * (period * MHZ) + period * MHZ := by
        push_cast
        rw [Int.add_mul, Int.one_mul]
      have hmul : 0 ≤ (i : Int) * (period * MHZ) := Int.mul_nonneg (by omega) (by omega)
      rw [hsucc] at hi ⊢
      rw [release, toNat_add_ofInt, hT, ih (by omega)]
      omega

theorem toNat_div_mhz (t : Ticks) :
    ((t / UInt64.ofInt MHZ).toNat : Int) = t.toNat / MHZ := by
  have hmhz : (UInt64.ofInt MHZ).toNat = 3299140 := by decide
  rw [UInt64.toNat_div, hmhz]
  rfl

/-! ## The whole report -/

/-- The printed report against the exact one, job by job. -/
theorem accounted_printed_iff :
    Accounted period n start_time jobs (printed period start_time jobs n.toNat) ↔
      ((List.range n.toNat).countP fun i => release period start_time (i + 1) < (jobs i).finish) =
        ((List.range n.toNat).countP fun i =>
          deadline period start_time i < (jobs i).finish.toNat) ∧
      ∀ i < n.toNat, ((release period start_time i).toNat : Int) / MHZ =
        (start_time.toNat + i * (period * MHZ)) / MHZ := by
  have hrows : (printed period start_time jobs n.toNat).rows.map (fun r => (r.start.toNat : Int)) =
      (List.range n.toNat).map fun i => ((release period start_time i).toNat : Int) / MHZ := by
    rw [printed, List.map_map]
    exact List.map_congr_left fun i _ => toNat_div_mhz _
  constructor
  · intro h
    refine ⟨Int.ofNat_inj.mp h.miss, fun i hi => ?_⟩
    have hrelease := h.release
    rw [hrows] at hrelease
    exact List.map_inj_left.mp hrelease i (List.mem_range.mpr hi)
  · intro hsome
    obtain ⟨hmiss, hrelease⟩ := hsome
    refine ⟨by rw [printed, hmiss], ?_⟩
    rw [hrows]
    exact List.map_congr_left fun i hi => hrelease i (List.mem_range.mp hi)

theorem accounted_of_fits (hp : 0 < period) (hfits : Fits period)
    (hend : start_time.toNat + n * (period * MHZ) < 18446744073709551616) :
    Accounted period n start_time jobs (printed period start_time jobs n.toNat) := by
  have hpos := ticks_pos hp
  have hrelease : ∀ i : Nat, i ≤ n.toNat → ((release period start_time i).toNat : Int) =
      start_time.toNat + i * (period * MHZ) := by
    intro i hi
    apply toNat_release hp hfits
    rcases Int.le_total n 0 with hn | hn
    · obtain rfl : i = 0 := by omega
      have hlt := start_time.toNat_lt
      simp only [Nat.cast_zero, Int.zero_mul]
      omega
    · have hle : (i : Int) * (period * MHZ) ≤ n * (period * MHZ) :=
        Int.mul_le_mul_of_nonneg_right (by omega) (Int.le_of_lt hpos)
      omega
  rw [accounted_printed_iff]
  refine ⟨List.countP_congr fun i hi => ?_, fun i hi => by rw [hrelease i (by omega)]⟩
  have hlt := List.mem_range.mp hi
  have hsucc := hrelease (i + 1) hlt
  rw [decide_eq_true_iff, decide_eq_true_iff, deadline, UInt64.lt_iff_toNat_lt]
  push_cast at hsucc
  omega

/-- The second release time is wrong where the ticks of the period do not fit. -/
theorem release_one_ne (hp' : period ≤ 2147483647) (hfits : ¬ Fits period)
    (hend : start_time.toNat + 2 * (period * MHZ) < 18446744073709551616) :
    ((release period start_time 1).toNat : Int) / MHZ ≠
      (start_time.toNat + (1 : Nat) * (period * MHZ)) / MHZ := by
  simp only [Fits, MHZ] at hfits
  rw [release, release, toNat_add_ofInt]
  simp only [toInt, MHZ, Nat.cast_one, Int.one_mul] at hend ⊢
  -- what the `int` loses is a multiple of 2^32, and less than 2^64
  obtain ⟨d, hd⟩ : ∃ d, d = (period * 3299140 + 2147483648) / 4294967296 := ⟨_, rfl⟩
  have hlost : 1 ≤ d ∧ d ≤ 4194304 := by omega
  have hint : (period * 3299140 + 2147483648) % 4294967296 - 2147483648 =
      period * 3299140 - 4294967296 * d := by omega
  rw [hint]
  rcases Int.lt_or_le (start_time.toNat + (period * 3299140 - 4294967296 * d)) 0 with hneg | hpos
  · omega
  · rw [Int.emod_eq_of_lt hpos (by omega)]
    omega

/-- One job: its release time is the start time, and its deadline is computed with the `int`. -/
theorem accounted_one_iff :
    Accounted period 1 start_time jobs (printed period start_time jobs (1 : Int).toNat) ↔
      ((start_time.toNat + toInt (period * MHZ)) % 18446744073709551616 < (jobs 0).finish.toNat ↔
        start_time.toNat + period * MHZ < (jobs 0).finish.toNat) := by
  have hone : ∀ p q : Nat → Bool,
      (List.range (1 : Int).toNat).countP p = (List.range (1 : Int).toNat).countP q ↔
        (p 0 ↔ q 0) := by
    intro p q
    cases hp : p 0 <;> cases hq : q 0 <;> simp [List.range_succ, hp, hq]
  have hfirst : ∀ i < (1 : Int).toNat, ((release period start_time i).toNat : Int) / MHZ =
      (start_time.toNat + i * (period * MHZ)) / MHZ := by
    intro i hi
    obtain rfl : i = 0 := by omega
    simp [release]
  have hwrapped : (start_time + UInt64.ofInt (toInt (period * MHZ))).toNat <
      (jobs 0).finish.toNat ↔ (start_time.toNat + toInt (period * MHZ)) % 18446744073709551616 <
      (jobs 0).finish.toNat := by
    rw [← toNat_add_ofInt]
    exact Int.ofNat_lt.symm
  rw [accounted_printed_iff, hone, and_iff_left hfirst]
  simp only [decide_eq_true_iff, UInt64.lt_iff_toNat_lt, release, deadline, hwrapped,
    Nat.cast_zero, Int.zero_add, Int.one_mul]

/-- `x` is behind one of the two times and not behind the other. -/
def Between (a b x : Int) : Prop := a < x ∧ x ≤ b ∨ b < x ∧ x ≤ a

/-- The ticks of the period fit an `int`, or there is at most one job and it does not finish
between the deadline computed with the `int` and the exact one. -/
def Counts (period n : Int) (start_time : Ticks) (jobs : Nat → Record) : Prop :=
  period ≤ 650 ∨ n ≤ 0 ∨
    n = 1 ∧ ¬ Between ((start_time.toNat + toInt (period * MHZ)) % 18446744073709551616)
      (start_time.toNat + period * MHZ) (jobs 0).finish.toNat

theorem accounted_iff_counts (hp : 0 < period) (hp' : period ≤ 2147483647)
    (hend : start_time.toNat + n * (period * MHZ) < 18446744073709551616)
    (hdata : ∀ i < n.toNat, data i = some (jobs i)) :
    (∃ out, printRes period n start_time data = some out ∧
      Accounted period n start_time jobs out) ↔ Counts period n start_time jobs := by
  rw [printRes_eq hdata]
  simp only [Option.some.injEq, exists_eq_left']
  by_cases hfits : Fits period
  · exact iff_of_true (accounted_of_fits hp hfits hend) (.inl (fits_iff.mp hfits))
  have hlong : ¬ period ≤ 650 := fun h => hfits (fits_iff.mpr h)
  rw [Counts]
  rcases lt_trichotomy n 1 with hn | rfl | hn
  · have hzero : n.toNat = 0 := by omega
    rw [accounted_printed_iff]
    simp only [hzero, List.range_zero, List.countP_nil, Nat.not_lt_zero, false_implies,
      implies_true, and_self, true_iff]
    omega
  · rw [accounted_one_iff, Between]
    omega
  · rw [accounted_printed_iff]
    constructor
    · intro hsome
      obtain ⟨-, hrelease⟩ := hsome
      have hend' : start_time.toNat + 2 * (period * MHZ) < 18446744073709551616 := by
        have hle : 2 * (period * MHZ) ≤ n * (period * MHZ) :=
          Int.mul_le_mul_of_nonneg_right (by omega) (Int.le_of_lt (ticks_pos hp))
        omega
      exact absurd (hrelease 1 (by omega)) (release_one_ne hp' hfits hend')
    · intro h
      omega

/-- A job that starts at 3000000000 and takes a tick. -/
def shortJob : Record := ⟨3000000000, 3000000001⟩

/-- Two jobs with the longest period that fits, and with the next one. -/
theorem accounted_650_651 :
    (∃ out, printRes 650 2 3000000000 (fun _ => some shortJob) = some out ∧
      Accounted 650 2 3000000000 (fun _ => shortJob) out) ∧
    ¬ ∃ out, printRes 651 2 3000000000 (fun _ => some shortJob) = some out ∧
      Accounted 651 2 3000000000 (fun _ => shortJob) out :=
  ⟨(accounted_iff_counts (by decide) (by decide) (by decide) (fun _ _ => rfl)).mpr
      (.inl (by decide)),
    fun h => absurd ((accounted_iff_counts (by decide) (by decide) (by decide)
      (fun _ _ => rfl)).mp h) (by simp [Counts])⟩

/-- With a period of 651 ms, a job that finishes after a tick has missed its deadline. -/
theorem short_job_misses :
    ¬ ∀ (period n : Int) (start_time : Ticks) (data : Nat → Option Record) (jobs : Nat → Record),
      0 < period → period ≤ 2147483647 →
      start_time.toNat + n * (period * MHZ) < 18446744073709551616 →
      (∀ i < n.toNat, data i = some (jobs i)) →
      ∃ out, printRes period n start_time data = some out ∧
        Accounted period n start_time jobs out := by
  intro h
  obtain ⟨out, hout, hacc⟩ := h 651 1 3000000000 (fun _ => some shortJob) (fun _ => shortJob)
    (by decide) (by decide) (by decide) (fun _ _ => rfl)
  have hprinted : printRes 651 1 3000000000 (fun _ => some shortJob) =
      some ⟨[⟨909, 909, 909, 0⟩], 1, 852772844⟩ := by decide +kernel
  rw [hprinted] at hout
  obtain rfl := Option.some.inj hout
  exact absurd hacc.miss (by decide +kernel)

end Cse522.Studio12.PeriodTask

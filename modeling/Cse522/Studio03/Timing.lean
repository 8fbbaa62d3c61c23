import Mathlib.Data.Rat.Defs
import Mathlib.Algebra.Order.Field.Rat
import Mathlib.Data.List.MinMax

/-!
# The timing report

`parallel_dense_mm2.c` reads the clock around each repeat and reports the largest, the least
and the mean time. A second is taken for `10e9` nanoseconds, which are ten seconds, so only
readings within one second are turned into nanoseconds. For those the start values of the
scan are out of the way.
-/
namespace Cse522.Studio03.Timing

/-- `struct timespec` -/
structure Timespec where
  tv_sec : Int
  tv_nsec : Int
  nsec_nonneg : 0 ≤ tv_nsec
  nsec_lt : tv_nsec < 1000000000

/-- What the clock reads before and after a repeat. -/
structure Reading where
  strBefore : Timespec
  strAfter : Timespec
  ordered : strBefore.tv_sec < strAfter.tv_sec ∨
    strBefore.tv_sec = strAfter.tv_sec ∧ strBefore.tv_nsec ≤ strAfter.tv_nsec

/-- A result of type `long`; there is none on overflow. -/
def long (x : Int) : Option Int :=
  if -9223372036854775808 ≤ x ∧ x ≤ 9223372036854775807 then some x else none

/-- `(long)((strAfter.tv_sec - strBefore.tv_sec) * 10e9L) + (strAfter.tv_nsec - strBefore.tv_nsec)`.
The product of a `long` and `10e9L` is exact as a `long double` if it fits a `long`. -/
def record (r : Reading) : Option Int := do
  let sec ← long (r.strAfter.tv_sec - r.strBefore.tv_sec)
  let whole ← long (sec * 10000000000)
  let nsec ← long (r.strAfter.tv_nsec - r.strBefore.tv_nsec)
  long (whole + nsec)

structure Report where
  s32max : Int
  s32min : Int
  d64total : ℚ
  deriving DecidableEq

/-- The body of the loop of the report. -/
def scan (st : Report) (ps32record : Int) : Report where
  s32max := if ps32record ≥ st.s32max then ps32record else st.s32max
  s32min := if ps32record ≤ st.s32min then ps32record else st.s32min
  d64total := st.d64total + ps32record

/-- `Max`, `Min` and `Avg` -/
structure Printed where
  max : Int
  min : Int
  avg : ℚ
  deriving DecidableEq

def report (ps32record : List Int) : Printed :=
  let st := ps32record.foldl scan ⟨0, 0x7FFFFFFF, 0⟩
  ⟨st.s32max, st.s32min, st.d64total / ps32record.length⟩

/-- The records of a sequential run, and what is printed of them. -/
def timed (readings : List Reading) : Option (List Int × Printed) :=
  (readings.mapM record).map fun ps32record => (ps32record, report ps32record)

/-- The nanoseconds between the two readings. -/
def elapsed (r : Reading) : Int :=
  (r.strAfter.tv_sec - r.strBefore.tv_sec) * 1000000000 +
    (r.strAfter.tv_nsec - r.strBefore.tv_nsec)

/-- Every record is the elapsed time, and the report is that of the elapsed times. -/
structure Accurate (readings : List Reading) (ps32record : List Int) (out : Printed) : Prop where
  records : ps32record = readings.map elapsed
  max : (readings.map elapsed).max? = some out.max
  min : (readings.map elapsed).min? = some out.min
  avg : out.avg = ((readings.map elapsed).sum : ℚ) / readings.length

/-! ## One record -/

variable {r : Reading} {readings : List Reading} {l : List Int}

theorem long_eq_some {x y : Int} (h : long x = some y) : y = x := by
  unfold long at h
  split at h
  · exact (Option.some.inj h).symm
  · cases h

theorem long_of_bounds {x : Int} (hlo : -9223372036854775808 ≤ x)
    (hhi : x ≤ 9223372036854775807) : long x = some x := if_pos ⟨hlo, hhi⟩

theorem record_eq_some {v : Int} (h : record r = some v) :
    v = (r.strAfter.tv_sec - r.strBefore.tv_sec) * 10000000000 +
      (r.strAfter.tv_nsec - r.strBefore.tv_nsec) := by
  simp only [record, Option.bind_eq_bind, Option.bind_eq_some_iff] at h
  obtain ⟨sec, hsec, whole, hwhole, nsec, hnsec, hv⟩ := h
  rw [long_eq_some hv, long_eq_some hwhole, long_eq_some hsec, long_eq_some hnsec]

/-- A second that passes is counted tenfold. -/
theorem record_eq_elapsed_iff :
    record r = some (elapsed r) ↔ r.strAfter.tv_sec = r.strBefore.tv_sec := by
  obtain ⟨before, after, hord⟩ := r
  have hb := before.nsec_nonneg
  have hb' := before.nsec_lt
  have ha := after.nsec_nonneg
  have ha' := after.nsec_lt
  constructor
  · intro h
    have hv := record_eq_some h
    simp only [elapsed] at hv
    simp only
    omega
  · intro h
    simp only at h
    have hnsec : long (after.tv_nsec - before.tv_nsec) = some (after.tv_nsec - before.tv_nsec) :=
      long_of_bounds (by omega) (by omega)
    simp [record, elapsed, h, hnsec, long_of_bounds]

theorem elapsed_nonneg (r : Reading) : 0 ≤ elapsed r := by
  obtain ⟨before, after, hord⟩ := r
  have hb' := before.nsec_lt
  have ha := after.nsec_nonneg
  simp only [elapsed]
  omega

/-- Within one second the start value of `s32min` is larger than any record. -/
theorem elapsed_le (h : r.strAfter.tv_sec = r.strBefore.tv_sec) : elapsed r ≤ 0x7FFFFFFF := by
  have hb := r.strBefore.nsec_nonneg
  have ha' := r.strAfter.nsec_lt
  simp only [elapsed, h]
  omega

/-! ## The scan -/

theorem foldl_scan (st : Report) (l : List Int) :
    l.foldl scan st = ⟨l.foldl max st.s32max, l.foldl min st.s32min, st.d64total + l.sum⟩ := by
  induction l generalizing st with
  | nil => simp
  | cons x l ih =>
      rw [List.foldl_cons, ih]
      simp only [scan, List.foldl_cons, List.sum_cons, Report.mk.injEq]
      refine ⟨?_, ?_, ?_⟩
      · rw [max_def st.s32max x]
      · rw [min_comm st.s32min x, min_def x st.s32min]
      · push_cast
        exact add_assoc _ _ _

theorem foldl_max_of_le {a : Int} (hne : l ≠ []) (h : ∀ x ∈ l, a ≤ x) :
    l.max? = some (l.foldl max a) := by
  obtain ⟨m, hm⟩ := Option.isSome_iff_exists.mp (List.isSome_max?_of_ne_nil hne)
  have hmem := (List.max?_eq_some_iff.mp hm).1
  rw [List.foldl_max, hm, Option.getD_some, max_eq_right (h m hmem)]

theorem foldl_min_of_le {a : Int} (hne : l ≠ []) (h : ∀ x ∈ l, x ≤ a) :
    l.min? = some (l.foldl min a) := by
  obtain ⟨m, hm⟩ := Option.isSome_iff_exists.mp (List.isSome_min?_of_ne_nil hne)
  have hmem := (List.min?_eq_some_iff.mp hm).1
  rw [List.foldl_min, hm, Option.getD_some, min_eq_right (h m hmem)]

theorem report_avg (l : List Int) : (report l).avg = (l.sum : ℚ) / l.length := by
  simp [report, foldl_scan]

/-- The report of times that the start values of the scan do not beat. -/
theorem accurate_report (hne : readings ≠ []) (hle : ∀ r ∈ readings, elapsed r ≤ 0x7FFFFFFF) :
    Accurate readings (readings.map elapsed) (report (readings.map elapsed)) where
  records := rfl
  max := by
    rw [foldl_max_of_le (a := 0) (by simpa using hne) fun x hx => ?_]
    · simp [report, foldl_scan]
    · obtain ⟨r, -, rfl⟩ := List.mem_map.mp hx
      exact elapsed_nonneg r
  min := by
    rw [foldl_min_of_le (a := 0x7FFFFFFF) (by simpa using hne) fun x hx => ?_]
    · simp [report, foldl_scan]
    · obtain ⟨r, hr, rfl⟩ := List.mem_map.mp hx
      exact hle r hr
  avg := by rw [report_avg, List.length_map]

theorem mapM_record_iff :
    readings.mapM record = some (readings.map elapsed) ↔
      ∀ r ∈ readings, record r = some (elapsed r) := by
  induction readings with
  | nil => simp
  | cons r readings ih => simp [List.mapM_cons, Option.bind_eq_some_iff, ih]

/-- Each record is the elapsed time, and the greatest, the least and the mean of them are printed,
if and only if no repeat runs across the turn of a second. -/
theorem timed_accurate_iff (hne : readings ≠ []) :
    (∃ ps32record out, timed readings = some (ps32record, out) ∧
      Accurate readings ps32record out) ↔
    ∀ r ∈ readings, r.strAfter.tv_sec = r.strBefore.tv_sec := by
  constructor
  · rintro ⟨ps32record, out, hrun, hacc⟩ r hr
    obtain ⟨l, hl, heq⟩ := Option.map_eq_some_iff.mp hrun
    obtain ⟨rfl, -⟩ := Prod.mk.inj heq
    rw [hacc.records] at hl
    exact record_eq_elapsed_iff.mp (mapM_record_iff.mp hl r hr)
  · intro h
    have hrecords := mapM_record_iff.mpr fun r hr => record_eq_elapsed_iff.mpr (h r hr)
    refine ⟨readings.map elapsed, report (readings.map elapsed), ?_, ?_⟩
    · rw [timed, hrecords]
      rfl
    · exact accurate_report hne fun r hr => elapsed_le (h r hr)

/-- 1 ns and 3 ns, both within a second. -/
def twoRepeats : List Reading := [
  ⟨⟨5, 10, by decide, by decide⟩, ⟨5, 11, by decide, by decide⟩, by decide⟩,
  ⟨⟨6, 0, by decide, by decide⟩, ⟨6, 3, by decide, by decide⟩, by decide⟩]

theorem timed_accurate_two :
    ∃ ps32record out, timed twoRepeats = some (ps32record, out) ∧
      Accurate twoRepeats ps32record out :=
  (timed_accurate_iff (by simp [twoRepeats])).mpr (by simp [twoRepeats])

/-- The last nanosecond of a second, of which 9000000001 are recorded. -/
def lastNanosecond : List Reading := [
  ⟨⟨0, 999999999, by decide, by decide⟩, ⟨1, 0, by decide, by decide⟩, by decide⟩]

theorem timed_tenfold :
    ¬ ∀ readings, readings ≠ [] → ∃ ps32record out, timed readings = some (ps32record, out) ∧
      Accurate readings ps32record out := by
  intro h
  obtain ⟨ps32record, out, hrun, hacc⟩ := h lastNanosecond (by simp [lastNanosecond])
  have hrecord : timed lastNanosecond = some ([9000000001], report [9000000001]) := by
    decide +kernel
  rw [hrecord] at hrun
  obtain ⟨rfl, -⟩ := Prod.mk.inj (Option.some.inj hrun)
  exact absurd hacc.records (by decide)

end Cse522.Studio03.Timing

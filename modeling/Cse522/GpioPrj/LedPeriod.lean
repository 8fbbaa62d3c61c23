import Cse522.Clib.Decimal
import Cse522.GpioPrj.LedToggle

/-!
# The period of the LED

`set_period` checks the number that is written as a `long` and stores it in an `int`. A number
that does not fit loses its high bits on the way, so the period is what was written, and at
least 10, only as long as no such number is accepted.
-/
namespace Cse522.GpioPrj.LedToggle

open Cse522.Interleave Cse522.Clib.Decimal Cse522.Clib.Kstrtox Cse522.GpioPrj.MyGpio

variable {kstrtol : List Char → Except Int Int}

/-- The period is at least 10 ms; a write that is accepted makes it the number written, and one
that is rejected fails with `-EINVAL` and changes nothing. `count` is what `set_period` is told
of the length. -/
structure PeriodKept (kstrtol : List Char → Except Int Int) (s : State) (a : Act) (t : State) :
    Prop where
  bound : 10 ≤ t.gs32Period
  accepted : ∀ buf count, a = .write buf → 0 ≤ count →
    0 ≤ (setPeriod kstrtol buf count s.gs32Period).1 →
    ∃ v, Denotes buf v ∧ t.gs32Period = v
  rejected : ∀ buf count, a = .write buf → 0 ≤ count →
    (setPeriod kstrtol buf count s.gs32Period).1 < 0 →
    (setPeriod kstrtol buf count s.gs32Period).1 = -EINVAL ∧ t = s

/-- No number is written that fits a `long`, but is too large for an `int`. -/
def FitsInt (a : Act) : Prop :=
  ∀ buf v, a = .write buf → Denotes buf v → 2147483648 ≤ v → ¬ IsLong v

variable {s t : State} {a : Act} {buf : List Char} {count gs32Period v : Int}

/-- A string that is accepted, and what is stored of its number. -/
theorem setPeriod_accepted (hv : kstrtol buf = .ok v) (h10 : 10 ≤ v) :
    setPeriod kstrtol buf count gs32Period = (count, Clib.Stdlib.toInt v) := by
  have hret : ¬ ret (kstrtol buf) < 0 := by
    rw [hv, ret_ok]
    decide
  unfold setPeriod
  rw [if_neg hret, hv, res_ok, if_neg (by omega)]

theorem setPeriod_rejected (hk : IsKstrtol kstrtol) (h : ∀ v, kstrtol buf = .ok v → v < 10) :
    setPeriod kstrtol buf count gs32Period = (-EINVAL, gs32Period) := by
  unfold setPeriod
  cases hv : kstrtol buf with
  | error e => rw [ret_error, if_pos (hk.negative hv)]
  | ok v => rw [ret_ok, res_ok, if_neg (by decide), if_pos (h v hv)]

/-- Only writes change the period. -/
theorem period_of_next (hn : (ledModule kstrtol).next s a = some t)
    (ha : ∀ buf, a ≠ .write buf) : t.gs32Period = s.gs32Period := by
  cases a with
  | write buf => exact absurd rfl (ha buf)
  | expire =>
      obtain ⟨-, hn⟩ := Option.ite_none_right_eq_some.mp hn
      rw [← Option.some.inj hn]
  | handler =>
      cases hh : s.handler <;>
        simp only [ledModule, next, fxnTimerHdl, hh, Option.some.injEq, reduceCtorEq] at hn <;>
        rw [← hn]
  | loader =>
      cases hl : s.loader <;>
        simp only [ledModule, next, runLoader, hl, Option.some.injEq, reduceCtorEq] at hn <;>
        rw [← hn]

theorem write_of_next (hn : (ledModule kstrtol).next s (.write buf) = some t) :
    t = { s with gs32Period := (setPeriod kstrtol buf buf.length s.gs32Period).2 } := by
  obtain ⟨-, hn⟩ := Option.ite_none_right_eq_some.mp hn
  exact (Option.some.inj hn).symm

/-- A numeral has one value. -/
theorem denotes_unique (hk : IsKstrtol kstrtol) {x : Int} (hv : Denotes buf v) (hlv : IsLong v)
    (hx : Denotes buf x) (hlx : IsLong x) : x = v := by
  have hv' : kstrtol buf = .ok v := hk.accepts.mpr ⟨hv, hlv⟩
  have hx' : kstrtol buf = .ok x := hk.accepts.mpr ⟨hx, hlx⟩
  rw [hv'] at hx'
  exact (Except.ok.inj hx').symm

/-- A string with the numeral of a `long` that is at least 10 is accepted. -/
theorem write_accepted (hk : IsKstrtol kstrtol)
    (hn : (ledModule kstrtol).next s (.write buf) = some t) (hden : Denotes buf v)
    (hlong : IsLong v) (h10 : 10 ≤ v) :
    t.gs32Period = Clib.Stdlib.toInt v ∧ ∀ count,
      setPeriod kstrtol buf count s.gs32Period = (count, Clib.Stdlib.toInt v) := by
  have hv : kstrtol buf = .ok v := hk.accepts.mpr ⟨hden, hlong⟩
  refine ⟨?_, fun count => setPeriod_accepted hv h10⟩
  rw [write_of_next hn, setPeriod_accepted hv h10]

/-- Any other string is rejected. -/
theorem write_rejected (hk : IsKstrtol kstrtol)
    (hn : (ledModule kstrtol).next s (.write buf) = some t)
    (h : ∀ v, Denotes buf v → IsLong v → v < 10) :
    t = s ∧ ∀ count, setPeriod kstrtol buf count s.gs32Period = (-EINVAL, s.gs32Period) := by
  have hv : ∀ v, kstrtol buf = .ok v → v < 10 := by
    intro v hv
    obtain ⟨hden, hlong⟩ := hk.accepts.mp hv
    exact h v hden hlong
  refine ⟨?_, fun count => setPeriod_rejected hk hv⟩
  rw [write_of_next hn, setPeriod_rejected hk hv]

theorem fitsInt_of_periodKept (hk : IsKstrtol kstrtol)
    (hn : (ledModule kstrtol).next s (.write buf) = some t)
    (h : PeriodKept kstrtol s (.write buf) t) : FitsInt (.write buf) := by
  intro buf' v hb hden hbig hlong
  obtain rfl := Act.write.inj hb
  obtain ⟨hperiod, hret⟩ := write_accepted hk hn hden hlong (by omega)
  have haccepted : 0 ≤ (setPeriod kstrtol buf 0 s.gs32Period).1 := by rw [hret]
  obtain ⟨x, hx, hxt⟩ := h.accepted buf 0 rfl (Int.le_refl 0) haccepted
  have hlo := isInt_toInt v
  rw [← hperiod, hxt] at hlo
  have hlx : IsLong x := ⟨by have := hlo.1; omega, by have := hlo.2; omega⟩
  have heq := denotes_unique hk hden hlong hx hlx
  have hle := hlo.2
  omega

theorem periodKept_of_fitsInt (hk : IsKstrtol kstrtol) (h10 : 10 ≤ s.gs32Period)
    (hn : (ledModule kstrtol).next s (.write buf) = some t) (h : FitsInt (.write buf)) :
    PeriodKept kstrtol s (.write buf) t := by
  by_cases hex : ∃ v, Denotes buf v ∧ IsLong v ∧ 10 ≤ v
  · obtain ⟨v, hden, hlong, hv10⟩ := hex
    have hsmall : v < 2147483648 := by
      by_contra hbig
      exact h buf v rfl hden (by omega) hlong
    obtain ⟨hperiod, hret⟩ := write_accepted hk hn hden hlong hv10
    have hv : t.gs32Period = v := by
      rw [hperiod]
      unfold Clib.Stdlib.toInt
      omega
    refine ⟨by omega, fun buf' count hb _ _ => ?_, fun buf' count hb hcount hneg => ?_⟩
    · obtain rfl := Act.write.inj hb
      exact ⟨v, hden, hv⟩
    · obtain rfl := Act.write.inj hb
      rw [hret] at hneg
      exact absurd hneg (Int.not_lt.mpr hcount)
  · obtain ⟨hts, hret⟩ := write_rejected hk hn fun v hden hlong => by
      by_contra hv10
      exact hex ⟨v, hden, hlong, by omega⟩
    refine ⟨by rw [hts]; exact h10, fun buf' count hb _ hpos => ?_, fun buf' count hb _ _ => ?_⟩
    · obtain rfl := Act.write.inj hb
      rw [hret] at hpos
      have hneg : ¬ 0 ≤ -EINVAL := by decide
      exact absurd hpos hneg
    · obtain rfl := Act.write.inj hb
      rw [hret]
      exact ⟨rfl, hts⟩

theorem periodKept_iff_fitsInt (hk : IsKstrtol kstrtol) (h10 : 10 ≤ s.gs32Period)
    (hn : (ledModule kstrtol).next s a = some t) : PeriodKept kstrtol s a t ↔ FitsInt a := by
  by_cases hwrite : ∃ buf, a = .write buf
  · obtain ⟨buf, rfl⟩ := hwrite
    exact ⟨fitsInt_of_periodKept hk hn, periodKept_of_fitsInt hk h10 hn⟩
  · have hne : ∀ buf, a ≠ .write buf := fun buf ha => hwrite ⟨buf, ha⟩
    refine iff_of_true ⟨?_, ?_, ?_⟩ ?_
    · rw [period_of_next hn hne]
      exact h10
    · exact fun buf _ ha => absurd ha (hne buf)
    · exact fun buf _ ha => absurd ha (hne buf)
    · exact fun buf _ ha => absurd ha (hne buf)

/-- In every run, the period is kept in all states if and only if every number that is written is
one of an `int`, or not even one of a `long`. -/
theorem period_kept_iff_fitsInt (hk : IsKstrtol kstrtol) (gpstrReg : GpioRegs) (as : List Act) :
    10 ≤ (init gpstrReg).gs32Period ∧
      (ledModule kstrtol).Along (PeriodKept kstrtol) (init gpstrReg) as ↔
    (ledModule kstrtol).Along (fun _ a _ => FitsInt a) (init gpstrReg) as := by
  have h0 : 10 ≤ (init gpstrReg).gs32Period := by
    show (10 : Int) ≤ 1000
    decide
  rw [and_iff_right h0]
  exact Machine.along_congr (I := fun s => 10 ≤ s.gs32Period) (periodKept_iff_fitsInt hk)
    (fun h10 hn hf => ((periodKept_iff_fitsInt hk h10 hn).mpr hf).bound) h0

/-- A number that is written is one of an `int`, or the string is rejected. -/
theorem fitsInt_write (hk : IsKstrtol kstrtol)
    (h : ∀ v, kstrtol buf = .ok v → v ≤ 2147483647) : FitsInt (.write buf) := by
  intro buf' v hb hden hbig hlong
  obtain rfl := Act.write.inj hb
  have hle := h v (hk.accepts.mpr ⟨hden, hlong⟩)
  omega

/-- The timer expires between two writes. -/
def retimed : List Act :=
  loaded ++ [.write "25\n".toList, .expire, .handler, .write "fast".toList, .write "26\x00-".toList]

/-- The period is kept up to a write of `2^32`. -/
theorem period_kept_retimed :
    (ledModule Clib.Kstrtox.kstrtol).Along (PeriodKept Clib.Kstrtox.kstrtol)
      (init zeroRegs) retimed ∧
    ¬ (ledModule Clib.Kstrtox.kstrtol).Along (PeriodKept Clib.Kstrtox.kstrtol)
      (init zeroRegs) (retimed ++ [.write "4294967296\x00-".toList]) := by
  have hk := isKstrtol_kstrtol
  constructor
  · refine ((period_kept_iff_fitsInt hk zeroRegs retimed).mpr ?_).2
    refine Machine.along_of_forall fun a ha => ?_
    simp only [retimed, loaded, List.cons_append, List.nil_append, List.mem_cons,
      List.not_mem_nil, or_false, or_self_left] at ha
    rcases ha with rfl | rfl | rfl | rfl | rfl | rfl
    · exact nofun
    · refine fitsInt_write hk fun v hv => ?_
      have h25 : Clib.Kstrtox.kstrtol "25\n".toList = .ok 25 := rfl
      rw [h25] at hv
      cases hv
      decide
    · exact nofun
    · exact nofun
    · refine fitsInt_write hk fun v hv => ?_
      cases hv
    · refine fitsInt_write hk fun v hv => ?_
      have h26 : Clib.Kstrtox.kstrtol "26\x00-".toList = .ok 26 := rfl
      rw [h26] at hv
      cases hv
      decide
  · intro h
    have hfits := ((period_kept_iff_fitsInt hk zeroRegs _).mp ⟨by decide, h⟩).of_append rfl
    have hbig : Denotes "4294967296\x00-".toList 4294967296 ∧ IsLong 4294967296 :=
      hk.accepts.mp rfl
    exact (hfits _ rfl).1 _ _ rfl hbig.1 (by decide) hbig.2

/-- `2^32` is stored as 0. -/
theorem period_zero : ¬ ∀ (gpstrReg : GpioRegs) (as : List Act),
    (ledModule Clib.Kstrtox.kstrtol).Along (PeriodKept Clib.Kstrtox.kstrtol)
      (init gpstrReg) as := by
  intro h
  have halong := (h zeroRegs (loaded ++ [.write "4294967296".toList])).of_append rfl
  exact absurd (halong _ rfl).1.bound (by decide +kernel)

end Cse522.GpioPrj.LedToggle

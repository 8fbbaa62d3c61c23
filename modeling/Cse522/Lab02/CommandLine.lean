import Cse522.Clib.Decimal
import Cse522.Lab02.Parsing

/-!
# What the command line has to be

`parsing_input` has no check of its own for numerals: a number is what `atoi` makes of an
argument. A numeral of an `int` is read as that `int`, but so is whatever else starts with one,
and the data are not checked at all.
-/
namespace Cse522.Lab02.Parsing

open Cse522.Clib.Stdlib Cse522.Clib.Decimal

variable {argv : List String} {arg : ProfArg} {i : Nat}

def IsPolicy (pcpolicy : String) : Prop :=
  pcpolicy = "SCHED_RR" ∨ pcpolicy = "SCHED_FIFO" ∨ pcpolicy = "SCHED_OTHER"

/-- Argument `i` is the numeral of an `int`. -/
def IntArg (argv : List String) (i : Nat) (v : Int) : Prop :=
  Numeral (argv.getD i "").toList v ∧ IsInt v

/-- Every number of the command line is written as a numeral. -/
structure WellFormed (argv : List String) : Prop where
  argc : 5 ≤ argv.length
  policy : IsPolicy (argv.getD 1 "")
  round : ∃ v, IntArg argv 2 v ∧ 0 < v
  iter : ∃ v, IntArg argv 3 v ∧ 0 < v
  data : ∀ i, 4 ≤ i → i < argv.length → ∃ v, IntArg argv i v

/-- What `parsing_input` checks. -/
structure Checked (argv : List String) : Prop where
  argc : 5 ≤ argv.length
  policy : IsPolicy (argv.getD 1 "")
  round : 0 < atoi (argv.getD 2 "")
  iter : 0 < atoi (argv.getD 3 "")

/-- What `parsing_input` stores. -/
structure Stored (argv : List String) (arg : ProfArg) : Prop where
  round : arg.s32round = atoi (argv.getD 2 "")
  iter : arg.s32iter = atoi (argv.getD 3 "")
  cnt : arg.s32cnt = argv.length - 4 ∧ 1 ≤ arg.s32cnt
  cabinLength : arg.ps32cabin.length = argv.length - 4
  cabin : ∀ i < argv.length - 4, arg.ps32cabin[i]? = some (atoi (argv.getD (i + 4) ""))

theorem checkSchedPolicy_eq_zero {pcpolicy : String} {s32sched_policy : Int} :
    (checkSchedPolicy pcpolicy s32sched_policy).1 = 0 ↔ IsPolicy pcpolicy := by
  unfold checkSchedPolicy IsPolicy
  split_ifs with hrr hfifo hother
  · simp [hrr]
  · simp [hfifo]
  · simp [hother]
  · simp [hrr, hfifo, hother, ERR_NOSCHED]

theorem parsingInput_eq_zero_iff : (parsingInput true argv arg).1 = 0 ↔ Checked argv := by
  constructor
  · intro h
    simp only [parsingInput, Bool.true_eq_false, if_false] at h
    split_ifs at h with hargc hsched hround hiter
    · simp [ERR_ARGMISS] at h
    · exact absurd h hsched
    · simp [ERR_NPOSR] at h
    · simp [ERR_NPOSI] at h
    · exact ⟨by omega, checkSchedPolicy_eq_zero.mp (not_not.mp hsched), Int.not_le.mp hround,
        Int.not_le.mp hiter⟩
  · rintro ⟨hargc, hpolicy, hround, hiter⟩
    have hsched : (checkSchedPolicy (argv.getD 1 "") arg.s32sched_policy).1 = 0 :=
      checkSchedPolicy_eq_zero.mpr hpolicy
    simp only [parsingInput]
    rw [if_neg (by omega), if_neg (not_not.mpr hsched), if_neg (Int.not_le.mpr hround),
      if_neg (Int.not_le.mpr hiter)]
    simp

theorem stored_of_accepted (h : Accepted argv arg) : Stored argv arg where
  round := h.round.1
  iter := h.iter.1
  cnt := ⟨h.cnt, h.cnt_pos⟩
  cabinLength := by rw [h.cabin, fillCabin, List.length_map, List.length_range]
  cabin := fun i hi => by
    rw [h.cabin, fillCabin, List.getElem?_map, List.getElem?_range hi]
    rfl

/-- 0 is returned exactly for three checks that go by the values of `atoi`, and those are also
what is stored. An argument that is the numeral of an `int` has just that value. -/
theorem parsingInput_reads_atoi (argv : List String) (arg : ProfArg) :
    ((parsingInput true argv arg).1 = 0 ↔ Checked argv) ∧
    ((parsingInput true argv arg).1 = 0 → Stored argv (parsingInput true argv arg).2) ∧
    ∀ i v, IntArg argv i v → atoi (argv.getD i "") = v :=
  ⟨parsingInput_eq_zero_iff,
    fun h => stored_of_accepted (accepted_of_parsingInput (Prod.ext h rfl)),
    fun _ _ h => atoi_numeral h.1 h.2⟩

/-- A round of `3x` is accepted. -/
theorem parsingInput_garbage :
    ¬ ∀ (argv : List String) (arg : ProfArg),
      (parsingInput true argv arg).1 = 0 ↔ WellFormed argv := by
  intro h
  have haccepted := (h ["run", "SCHED_RR", "3x", "1", "5"] gstrArg).mp (by decide +kernel)
  obtain ⟨v, ⟨hnum, -⟩, -⟩ := haccepted.round
  obtain ⟨c, ds, htok, -, hds⟩ := hnum.exists_cons
  have hlist : ("3x" : String).toList = ['3', 'x'] := by decide +kernel
  obtain ⟨rfl, rfl⟩ : c = '3' ∧ ds = ['x'] := by
    have hcons : '3' :: ['x'] = c :: ds := hlist.symm.trans htok
    exact ⟨(List.cons.inj hcons).1.symm, (List.cons.inj hcons).2.symm⟩
  exact absurd (hds 'x' (by simp)) (by decide)

end Cse522.Lab02.Parsing

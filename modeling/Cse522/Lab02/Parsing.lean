import Cse522.Clib.Stdlib

/-!
# The command line of `lab02`

`parsing_input` checks its arguments in order and fills the argument record on the way,
so an error leaves the fields before it already written.
-/
namespace Cse522.Lab02.Parsing

open Cse522.Clib.Stdlib

def ERR_ARGMISS : Int := -1
def ERR_NOSCHED : Int := -2
def ERR_NPOSR : Int := -3
def ERR_NPOSI : Int := -4
def ERR_MALLOC : Int := -6

def SCHED_OTHER : Int := 0
def SCHED_FIFO : Int := 1
def SCHED_RR : Int := 2

/-- `prof_arg`; a null `ps32cabin` is the empty list. -/
structure ProfArg where
  s32pthpercore : Int
  as32prio : Int × Int
  s32sched_policy : Int
  s32round : Int
  s32iter : Int
  s32cnt : Int
  ps32cabin : List Int
  deriving DecidableEq, Repr

/-- The initial value of the global. -/
def gstrArg : ProfArg where
  s32pthpercore := 2
  as32prio := (0, 0)
  s32sched_policy := SCHED_OTHER
  s32round := 0
  s32iter := 0
  s32cnt := 0
  ps32cabin := []

/-- The return value, and the policy behind the pointer after the call. -/
def checkSchedPolicy (pcpolicy : String) (s32sched_policy : Int) : Int × Int :=
  if pcpolicy = "SCHED_RR" then (0, SCHED_RR)
  else if pcpolicy = "SCHED_FIFO" then (0, SCHED_FIFO)
  else if pcpolicy = "SCHED_OTHER" then (0, SCHED_OTHER)
  else (ERR_NOSCHED, s32sched_policy)

/-- The data list: `ps32cabin[s32i] = atoi(argv[s32i + 4])` for each cell. -/
def fillCabin (argv : List String) (s32cnt : Nat) : List Int :=
  (List.range s32cnt).map fun s32i => atoi (argv.getD (s32i + 4) "")

/-- `parsing_input` with `argc` the length of `argv`; `mallocOk` says whether `malloc`
finds memory for the list. The result is the return value and the record after the call. -/
def parsingInput (mallocOk : Bool) (argv : List String) (arg : ProfArg) : Int × ProfArg :=
  if argv.length < 5 then (ERR_ARGMISS, arg) else
  let sched := checkSchedPolicy (argv.getD 1 "") arg.s32sched_policy
  let arg := { arg with s32sched_policy := sched.2 }
  if sched.1 ≠ 0 then (sched.1, arg) else
  let arg := { arg with s32round := atoi (argv.getD 2 "") }
  if arg.s32round ≤ 0 then (ERR_NPOSR, arg) else
  let arg := { arg with s32iter := atoi (argv.getD 3 "") }
  if arg.s32iter ≤ 0 then (ERR_NPOSI, arg) else
  let arg := { arg with s32cnt := argv.length - 4 }
  if mallocOk = false then (ERR_MALLOC, { arg with ps32cabin := [] }) else
  (0, { arg with ps32cabin := fillCabin argv (argv.length - 4) })

/-- What an accepted command line leaves in the record. -/
structure Accepted (argv : List String) (arg : ProfArg) : Prop where
  argc : 5 ≤ argv.length
  round : arg.s32round = atoi (argv.getD 2 "") ∧ 0 < arg.s32round
  iter : arg.s32iter = atoi (argv.getD 3 "") ∧ 0 < arg.s32iter
  cnt : arg.s32cnt = argv.length - 4
  cabin : arg.ps32cabin = fillCabin argv (argv.length - 4)

theorem accepted_of_parsingInput {mallocOk : Bool} {argv : List String} {arg arg' : ProfArg}
    (h : parsingInput mallocOk argv arg = (0, arg')) : Accepted argv arg' := by
  simp only [parsingInput] at h
  split_ifs at h with hargc hsched hround hiter hmalloc
  · simp [ERR_ARGMISS] at h
  · exact absurd (Prod.mk.inj h).1 hsched
  · simp [ERR_NPOSR] at h
  · simp [ERR_NPOSI] at h
  · simp [ERR_MALLOC] at h
  · obtain rfl := (Prod.mk.inj h).2
    exact ⟨by omega, ⟨rfl, Int.not_le.mp hround⟩, ⟨rfl, Int.not_le.mp hiter⟩, rfl, rfl⟩

namespace Accepted

variable {argv : List String} {arg : ProfArg}

theorem cnt_pos (h : Accepted argv arg) : 1 ≤ arg.s32cnt := by
  have hargc := h.argc
  rw [h.cnt]
  omega

/-- The list has exactly `s32cnt` cells. -/
theorem cabin_length (h : Accepted argv arg) : (arg.ps32cabin.length : Int) = arg.s32cnt := by
  have hargc := h.argc
  rw [h.cabin, h.cnt, fillCabin, List.length_map, List.length_range]
  omega

end Accepted

end Cse522.Lab02.Parsing

import Cse522.Lab02.CfgFile
import Cse522.Lab02.CommandLine
import Cse522.Lab02.ThreadLayoutRuns

/-!
# The experiments of the scripts

The scripts of `lab02` write the configuration with `echo`, and the rest of an experiment on the
command line. The program takes both apart again, and its threads are laid out as the script
says.
-/
namespace Cse522.Lab02.ThreadLayout

open Cse522.Clib.Outcome Cse522.Clib.Stdlib Cse522.Clib.Stdio Cse522.Clib.Decimal
open Cse522.Lab02.Parsing

/-! ## The program from its start -/

/-- `main`, with what it makes of the command line and of the file `exp.cfg` first. -/
def program (lib : Pthread) (mallocOk : Bool) (argv : List String) (file : Option (List Char))
    (nprocs : Int) : Except Stop State := do
  let input := parsingInput mallocOk argv gstrArg
  check input.1 input.1
  let cfg := parsingCfgfile file input.2
  check cfg.1 cfg.1
  main lib cfg.2 nprocs

/-! ## The scripts -/

inductive Policy where
  | other
  | fifo
  | rr
  deriving DecidableEq, Repr

def Policy.name : Policy → String
  | .other => "SCHED_OTHER"
  | .fifo => "SCHED_FIFO"
  | .rr => "SCHED_RR"

def Policy.code : Policy → Int
  | .other => SCHED_OTHER
  | .fifo => SCHED_FIFO
  | .rr => SCHED_RR

/-- The variables of a script, and the numbers at the end of its last line. -/
structure Experiment where
  sched : Policy
  round : Int
  iter : Int
  perCore : Int
  prio0 : Int
  prio1 : Int
  data : List Int
  deriving DecidableEq, Repr

/-- `echo ${PerCore} ${Prio0} ${Prio1} > exp.cfg` -/
def Experiment.expCfg (e : Experiment) : List Char :=
  decimal e.perCore ++ ' ' :: (decimal e.prio0 ++ ' ' :: (decimal e.prio1 ++ ['\n']))

def word (v : Int) : String := String.ofList (decimal v)

/-- `./lab02_main ${Sched} ${Round} ${Iter} 2 3 5 7 11` -/
def Experiment.argv (e : Experiment) : List String :=
  "./lab02_main" :: e.sched.name :: word e.round :: word e.iter :: e.data.map word

/-- `run_single.sh` -/
def runSingle : Experiment := ⟨.rr, 1000, 1000, 2, 2, 1, [2, 3, 5, 7, 11]⟩

/-- `run_q5.sh`: `for((i=-15;i<=15;i=i+5))` -/
def runQ5 : List Experiment :=
  [-15, -10, -5, 0, 5, 10, 15].map fun i => ⟨.other, 1000, 1000, 2, i, i, [2, 3, 5, 7, 11]⟩

/-- `run_q6.sh`: `for((i=0;i<5;i++))` -/
def runQ6 : List Experiment :=
  (List.range 5).flatMap fun _ => [⟨.fifo, 1000, 1000, 2, 2, 1, [2, 3, 5, 7, 11]⟩,
    ⟨.rr, 1000, 1000, 2, 2, 1, [2, 3, 5, 7, 11]⟩]

/-- All numbers are of type `int`, and there are rounds, iterations, threads and data. -/
structure Experiment.Valid (e : Experiment) : Prop where
  round : 0 < e.round ∧ IsInt e.round
  iter : 0 < e.iter ∧ IsInt e.iter
  perCore : 1 ≤ e.perCore ∧ IsInt e.perCore
  prio0 : IsInt e.prio0
  prio1 : IsInt e.prio1
  data : e.data ≠ [] ∧ ∀ v ∈ e.data, IsInt v

/-- The record that the experiment stands for. -/
def Experiment.arg (e : Experiment) : ProfArg where
  s32pthpercore := e.perCore
  as32prio := (e.prio0, e.prio1)
  s32sched_policy := e.sched.code
  s32round := e.round
  s32iter := e.iter
  s32cnt := e.data.length
  ps32cabin := e.data

/-! ## What the program reads -/

variable {e : Experiment} {v : Int}

theorem atoi_word (hv : IsInt v) : atoi (word v) = v :=
  atoi_numeral (by simpa [word] using numeral_decimal v) hv

theorem checkSchedPolicy_name (policy : Policy) (s32sched_policy : Int) :
    checkSchedPolicy policy.name s32sched_policy = (0, policy.code) := by
  cases policy
  all_goals rfl

theorem fillCabin_argv (h : ∀ v ∈ e.data, IsInt v) :
    fillCabin e.argv (e.argv.length - 4) = e.data := by
  have hlen : e.argv.length - 4 = e.data.length := by simp [Experiment.argv]
  rw [hlen]
  refine List.ext_getElem (by simp [fillCabin]) fun i _ hi => ?_
  simp [fillCabin, Experiment.argv, hi, atoi_word (h _ (List.getElem_mem hi))]

theorem parsingInput_argv (he : e.Valid) : parsingInput true e.argv gstrArg =
    (0, { e.arg with s32pthpercore := gstrArg.s32pthpercore, as32prio := gstrArg.as32prio }) := by
  have hlen : e.argv.length = e.data.length + 4 := by simp [Experiment.argv]
  have hdata := List.length_pos_of_ne_nil he.data.1
  have hround : atoi (e.argv.getD 2 "") = e.round := atoi_word he.round.2
  have hiter : atoi (e.argv.getD 3 "") = e.iter := atoi_word he.iter.2
  have hsched : checkSchedPolicy (e.argv.getD 1 "") gstrArg.s32sched_policy = (0, e.sched.code) :=
    checkSchedPolicy_name e.sched _
  have hcnt : ((e.argv.length : Int) - 4) = e.data.length := by
    rw [hlen]
    omega
  simp only [parsingInput, hsched, hround, hiter, hcnt, fillCabin_argv he.data.2]
  rw [if_neg (by omega), if_neg (by simp), if_neg (Int.not_le.mpr he.round.1),
    if_neg (Int.not_le.mpr he.iter.1), if_neg (by simp)]
  rfl

theorem begins_expCfg (e : Experiment) : Begins e.expCfg e.perCore e.prio0 e.prio1 := by
  have hblank : ∀ c ∈ [' '], isSpace c = true := by
    intro c hc
    obtain rfl := List.mem_singleton.mp hc
    rfl
  have hnone : ∀ c ∈ ([] : List Char), isSpace c = true := by simp
  have hstops : ∀ {rest : List Char}, ∀ c ∈ (' ' :: rest).head?, c.isDigit = false := by
    intro rest c hc
    obtain rfl := Option.some.inj hc
    rfl
  have hnewline : ∀ c ∈ ['\n'].head?, c.isDigit = false := by
    intro c hc
    obtain rfl := Option.some.inj hc
    rfl
  exact ⟨_, _, ['\n'], reads_decimal hnone e.perCore hstops, reads_decimal hblank e.prio0 hstops,
    reads_decimal hblank e.prio1 hnewline⟩

theorem parsingCfgfile_expCfg (he : e.Valid) (arg : ProfArg) :
    parsingCfgfile (some e.expCfg) arg =
      (0, { arg with s32pthpercore := e.perCore, as32prio := (e.prio0, e.prio1) }) := by
  have hholds := scanFields_of_begins arg (begins_expCfg e)
  rw [toInt_clampLong he.perCore.2, toInt_clampLong he.prio0, toInt_clampLong he.prio1] at hholds
  rw [parsingCfgfile, hholds]

/-- The program takes an experiment apart as it has been written. -/
theorem program_experiment (lib : Pthread) (he : e.Valid) (nprocs : Int) :
    program lib true e.argv (some e.expCfg) nprocs = main lib e.arg nprocs := by
  simp only [program, parsingInput_argv he, parsingCfgfile_expCfg he]
  rfl

/-! ## What it does with that -/

theorem knownPolicy_code (policy : Policy) : KnownPolicy policy.code := by
  cases policy
  · exact .inl rfl
  · exact .inr (.inr rfl)
  · exact .inr (.inl rfl)

/-- What all of the scripts have in common. -/
theorem valid_of_script (sched : Policy) {i j : Int} (hi : IsInt i) (hj : IsInt j) :
    Experiment.Valid ⟨sched, 1000, 1000, 2, i, j, [2, 3, 5, 7, 11]⟩ := by
  have hint : ∀ v ∈ ([1000, 2, 3, 5, 7, 11] : List Int), IsInt v := by
    unfold IsInt
    decide
  have hdata : ∀ v ∈ ([2, 3, 5, 7, 11] : List Int), IsInt v := fun v hv =>
    hint v (List.mem_cons_of_mem _ hv)
  exact ⟨⟨by simp, hint 1000 (by simp)⟩, ⟨by simp, hint 1000 (by simp)⟩,
    ⟨by simp, hint 2 (by simp)⟩, hi, hj, by simp, hdata⟩

theorem scripts_valid : ∀ e ∈ runSingle :: runQ5 ++ runQ6, e.Valid := by
  have hsmall : ∀ v ∈ ([-15, -10, -5, 0, 5, 10, 15, 2, 1] : List Int), IsInt v := by
    unfold IsInt
    decide
  have htwo := valid_of_script .rr (hsmall 2 (by simp)) (hsmall 1 (by simp))
  have hfifo := valid_of_script .fifo (hsmall 2 (by simp)) (hsmall 1 (by simp))
  intro e he
  rcases List.mem_append.mp he with he | he
  · rcases List.mem_cons.mp he with rfl | he
    · exact htwo
    · obtain ⟨i, hi, rfl⟩ := List.mem_map.mp he
      have hint := hsmall i (List.mem_append_left [2, 1] hi)
      exact valid_of_script .other hint hint
  · obtain ⟨k, -, hk⟩ := List.mem_flatMap.mp he
    simp only [List.mem_cons, List.not_mem_nil, or_false] at hk
    rcases hk with rfl | rfl
    · exact hfifo
    · exact htwo

end Cse522.Lab02.ThreadLayout

import Mathlib.Data.List.Nodup
import Cse522.Clib.Kstrtox
import Cse522.Clib.While

/-!
# The ancestors of a task

`fam_reader_store` looks up the task whose pid is written to the attribute and logs it and its
ancestors, until it comes to a task with pid 1 or 0. The table of processes is not its own: all
it relies on is that the parents of every task lead to such a task.
-/
namespace Cse522.Studio07.FamilyReader

open Cse522.Clib.Kstrtox Cse522.Clib.While

/-- The tasks of the kernel, and how they are found. -/
structure ProcessTable (Pid Task : Type) where
  find_vpid : Int32 → Option Pid
  /-- `pid_task(pid, PIDTYPE_PID)` -/
  pid_task : Pid → Option Task
  pid : Task → Int32
  comm : Task → String
  real_parent : Task → Task

/-- A call of `printk`. -/
inductive Line where
  | func (name : String)
  | pstIdNull
  | pstTrNull
  /-- `"PID = %d, comm = %s\n"` -/
  | task (pid : Int32) (comm : String)
  deriving DecidableEq, Repr

/-- What `fam_reader_store` returns, the attribute behind the call, and the log. -/
structure Result where
  ret : Int
  fam_reader : Int32
  log : List Line
  deriving DecidableEq, Repr

section

variable {Pid Task : Type}

def logTask (table : ProcessTable Pid Task) (pstTr : Task) : Line :=
  .task (table.pid pstTr) (table.comm pstTr)

/-- `1 != pstTrTemp->pid && 0 != pstTrTemp->pid` -/
def goesOn (table : ProcessTable Pid Task) (st : Task × List Line) : Bool :=
  table.pid st.1 ≠ 1 ∧ table.pid st.1 ≠ 0

/-- The body of the loop, on `pstTrTemp` and the log. -/
def goUp (table : ProcessTable Pid Task) (st : Task × List Line) : Task × List Line :=
  let pstTrTemp := table.real_parent st.1
  (pstTrTemp, st.2 ++ [logTask table pstTrTemp])

/-- `fam_reader_store` with the conversion `kstrtoint`; there is no result if the loop is not
through after `fuel` passes. -/
def famReaderStore (kstrtoint : List Char → Except Int Int32) (table : ProcessTable Pid Task)
    (fuel : Nat) (buf : List Char) (count : Int) (fam_reader : Int32) : Option Result :=
  let log := [.func "fam_reader_store"]
  let ret := Clib.Kstrtox.ret (kstrtoint buf)
  let fam_reader := res fam_reader (kstrtoint buf)
  if ret < 0 then some ⟨ret, fam_reader, log⟩
  else
    match table.find_vpid fam_reader with
    | none => some ⟨count, fam_reader, log ++ [.pstIdNull]⟩
    | some pstId =>
        match table.pid_task pstId with
        | none => some ⟨count, fam_reader, log ++ [.pstTrNull]⟩
        | some pstTr =>
            (whileLoop (goesOn table) (goUp table) fuel (pstTr, log ++ [logTask table pstTr])).map
              fun st => ⟨count, fam_reader, st.2⟩

/-! ## What is expected -/

/-- The task is one at which the walk stops. -/
def IsRoot (table : ProcessTable Pid Task) (task : Task) : Prop :=
  table.pid task = 0 ∨ table.pid task = 1

/-- From every task, the parents lead to pid 0 or 1. -/
def Rooted (table : ProcessTable Pid Task) : Prop :=
  ∀ task, ∃ k, IsRoot table (table.real_parent^[k] task)

/-- `chain` is the task and its parents up to the first with pid 0 or 1, without repetitions. -/
structure Ancestry (table : ProcessTable Pid Task) (task : Task) (chain : List Task) : Prop where
  parents : ∃ k, chain = (List.range (k + 1)).map (fun i => table.real_parent^[i] task) ∧
    IsRoot table (table.real_parent^[k] task) ∧
    ∀ i < k, ¬ IsRoot table (table.real_parent^[i] task)
  once : chain.Nodup

/-- The task with this pid. -/
def taskOf (table : ProcessTable Pid Task) (pid : Int32) : Option Task :=
  (table.find_vpid pid).bind table.pid_task

def Line.isTask : Line → Bool
  | .task _ _ => true
  | _ => false

/-- What a call is to return and to log. -/
structure Reported (kstrtoint : List Char → Except Int Int32) (table : ProcessTable Pid Task)
    (buf : List Char) (count : Int) (fam_reader : Int32) (r : Result) : Prop where
  /-- a string that is not parsed -/
  unparsed : ∀ e, kstrtoint buf = .error e →
    r.ret = e ∧ r.ret < 0 ∧ r.fam_reader = fam_reader ∧ r.log.filter Line.isTask = []
  parsed : ∀ v, kstrtoint buf = .ok v → r.ret = count ∧ r.fam_reader = v
  missing : ∀ v, kstrtoint buf = .ok v → taskOf table v = none → r.log.filter Line.isTask = []
  found : ∀ v task, kstrtoint buf = .ok v → taskOf table v = some task →
    ∃ chain, Ancestry table task chain ∧
      r.log.filter Line.isTask = chain.map fun task => .task (table.pid task) (table.comm task)

variable {kstrtoint : List Char → Except Int Int32} {table : ProcessTable Pid Task} {task : Task}
  {k : Nat}

/-! ## The walk -/

theorem goesOn_eq_false {st : Task × List Line} : goesOn table st = false ↔ IsRoot table st.1 := by
  unfold goesOn IsRoot
  rw [decide_eq_false_iff_not]
  constructor
  · intro h
    by_cases h0 : table.pid st.1 = 0
    · exact .inl h0
    · exact .inr (by_contra fun h1 => h ⟨h1, h0⟩)
  · rintro (h0 | h1) ⟨hne1, hne0⟩
    · exact hne0 h0
    · exact hne1 h1

/-- The task and the log behind some passes. -/
theorem goUp_iterate (log : List Line) (k : Nat) : (goUp table)^[k] (task, log) =
    (table.real_parent^[k] task,
      log ++ (List.range k).map fun i => logTask table (table.real_parent^[i + 1] task)) := by
  induction k with
  | zero => simp
  | succ k ih =>
      rw [Function.iterate_succ_apply', ih, Function.iterate_succ_apply', List.range_succ,
        List.map_append]
      simp only [goUp, List.map_cons, List.map_nil, List.append_assoc,
        Function.iterate_succ_apply']

theorem exists_walk (hroot : Rooted table) (task : Task) (log : List Line) :
    ∃ k, Passes (goesOn table) (goUp table) (task, log) k := by
  obtain ⟨k, hk⟩ := hroot task
  apply exists_passes
  refine ⟨k, ?_⟩
  rw [goesOn_eq_false, goUp_iterate]
  exact hk

/-- The tasks that have been seen when the walk ends. -/
def walked (table : ProcessTable Pid Task) (task : Task) (k : Nat) : List Task :=
  (List.range (k + 1)).map fun i => table.real_parent^[i] task

theorem ancestry_walked {log : List Line}
    (h : Passes (goesOn table) (goUp table) (task, log) k) :
    Ancestry table task (walked table task k) := by
  have hstop : IsRoot table (table.real_parent^[k] task) := by
    have hstops := h.stops
    rwa [goesOn_eq_false, goUp_iterate] at hstops
  have hgo : ∀ i < k, ¬ IsRoot table (table.real_parent^[i] task) := by
    intro i hi hroot
    have hgoes := h.goes i hi
    have hfalse : goesOn table ((goUp table)^[i] (task, log)) = false := by
      rw [goesOn_eq_false, goUp_iterate]
      exact hroot
    rw [hfalse] at hgoes
    cases hgoes
  refine ⟨⟨k, rfl, hstop, hgo⟩, ?_⟩
  apply (List.nodup_map_iff_inj_on List.nodup_range).mpr
  intro i hi j hj heq
  have hi' := List.mem_range.mp hi
  have hj' := List.mem_range.mp hj
  rcases Nat.lt_trichotomy i j with hlt | rfl | hlt
  · exact absurd heq (iterate_ne hstop hgo hlt (by omega))
  · rfl
  · exact absurd heq.symm (iterate_ne hstop hgo hlt (by omega))

theorem tasks_walked (k : Nat) :
    logTask table task ::
        (List.range k).map (fun i => logTask table (table.real_parent^[i + 1] task)) =
      (walked table task k).map (logTask table) := by
  rw [walked, List.range_succ_eq_map, List.map_cons, List.map_cons, List.map_map, List.map_map]
  rfl

/-- The walk from a task that is found. -/
theorem found_walk (hroot : Rooted table) {buf : List Char} {v : Int32} (count : Int)
    (fam_reader : Int32) (hv : kstrtoint buf = .ok v) (htask : taskOf table v = some task) :
    ∃ k, Ancestry table task (walked table task k) ∧ ∀ fuel ≥ k,
      famReaderStore kstrtoint table fuel buf count fam_reader =
        some ⟨count, v, .func "fam_reader_store" :: (walked table task k).map (logTask table)⟩ := by
  obtain ⟨pstId, hpid, hpstTr⟩ := Option.bind_eq_some_iff.mp htask
  obtain ⟨k, hk⟩ := exists_walk hroot task [.func "fam_reader_store", logTask table task]
  refine ⟨k, ancestry_walked hk, fun fuel hfuel => ?_⟩
  simp only [famReaderStore, hv, ret_ok, res_ok, hpid, hpstTr, List.cons_append, List.nil_append]
  rw [if_neg (by decide), whileLoop_of_passes hk hfuel, goUp_iterate, ← tasks_walked]
  rfl

theorem isTask_tasks (tasks : List Task) :
    ((tasks.map (logTask table)).filter Line.isTask) = tasks.map (logTask table) := by
  apply List.filter_eq_self.mpr
  intro line hline
  obtain ⟨task, -, rfl⟩ := List.mem_map.mp hline
  rfl

theorem missing_task {buf : List Char} {v : Int32} (count : Int) (fam_reader : Int32)
    (hv : kstrtoint buf = .ok v) (htask : taskOf table v = none) :
    ∃ log, log.filter Line.isTask = [] ∧ ∀ fuel,
      famReaderStore kstrtoint table fuel buf count fam_reader = some ⟨count, v, log⟩ := by
  have hret : ¬ (0 : Int) < 0 := by decide
  cases hpid : table.find_vpid v with
  | none =>
      refine ⟨[.func "fam_reader_store", .pstIdNull], rfl, fun fuel => ?_⟩
      simp only [famReaderStore, hv, ret_ok, res_ok, hpid, if_neg hret]
      rfl
  | some pstId =>
      have hpstTr : table.pid_task pstId = none := by
        rwa [taskOf, hpid, Option.bind_some] at htask
      refine ⟨[.func "fam_reader_store", .pstTrNull], rfl, fun fuel => ?_⟩
      simp only [famReaderStore, hv, ret_ok, res_ok, hpid, hpstTr, if_neg hret]
      rfl

/-- For every string, the call comes to an end, and returns and logs what it should. -/
theorem fam_reader_store_reports (herror : ∀ {buf e}, kstrtoint buf = .error e → e < 0)
    (table : ProcessTable Pid Task) (hroot : Rooted table) (buf : List Char) (count : Int)
    (fam_reader : Int32) :
    ∃ k r, (∀ fuel ≥ k, famReaderStore kstrtoint table fuel buf count fam_reader = some r) ∧
      Reported kstrtoint table buf count fam_reader r := by
  cases hv : kstrtoint buf with
  | error e =>
      have hneg := herror hv
      refine ⟨0, ⟨e, fam_reader, [.func "fam_reader_store"]⟩, fun fuel _ => ?_, ?_⟩
      · simp only [famReaderStore, hv, ret_error, res_error, if_pos hneg]
      · refine ⟨fun e' he' => ?_, fun v hv' => ?_, fun v hv' => ?_, fun v _ hv' => ?_⟩
        · cases hv.symm.trans he'
          exact ⟨rfl, hneg, rfl, rfl⟩
        · cases hv.symm.trans hv'
        · cases hv.symm.trans hv'
        · cases hv.symm.trans hv'
  | ok v =>
      have hok : ∀ {w}, kstrtoint buf = .ok w → v = w := fun hw => Except.ok.inj (hv.symm.trans hw)
      cases htask : taskOf table v with
      | none =>
          obtain ⟨log, hlog, hrun⟩ := missing_task count fam_reader hv htask
          refine ⟨0, _, fun fuel _ => hrun fuel, fun e he => ?_, fun w hw => ?_, fun w hw _ => hlog,
            fun w task hw hfound => ?_⟩
          · cases hv.symm.trans he
          · exact ⟨rfl, hok hw⟩
          · rw [← hok hw, htask] at hfound
            cases hfound
      | some task =>
          obtain ⟨k, hchain, hrun⟩ := found_walk hroot count fam_reader hv htask
          refine ⟨k, _, hrun, fun e he => ?_, fun w hw => ?_, fun w hw hmissing => ?_,
            fun w task' hw hfound => ?_⟩
          · cases hv.symm.trans he
          · exact ⟨rfl, hok hw⟩
          · rw [← hok hw, htask] at hmissing
            cases hmissing
          · rw [← hok hw, htask] at hfound
            obtain rfl := Option.some.inj hfound
            exact ⟨_, hchain, isTask_tasks _⟩

end

/-- Four tasks, each the parent of the next. -/
inductive Proc where
  | swapper
  | systemd
  | bash
  | vim
  deriving DecidableEq, Repr

/-- The idle task cannot be found by its pid. -/
def fourTasks : ProcessTable Proc Proc where
  find_vpid nr := if nr = 1 then some .systemd else if nr = 40 then some .bash
    else if nr = 41 then some .vim else none
  pid_task pstId := some pstId
  pid
    | .swapper => 0
    | .systemd => 1
    | .bash => 40
    | .vim => 41
  comm
    | .swapper => "swapper/0"
    | .systemd => "systemd"
    | .bash => "bash"
    | .vim => "vim"
  real_parent
    | .swapper => .swapper
    | .systemd => .swapper
    | .bash => .systemd
    | .vim => .bash

/-- The walk from `vim` ends at `systemd`. -/
theorem fam_reader_store_reports_41 :
    ∃ k r, (∀ fuel ≥ k,
      famReaderStore Clib.Kstrtox.kstrtoint fourTasks fuel "41\n".toList 3 0 = some r) ∧
      Reported Clib.Kstrtox.kstrtoint fourTasks "41\n".toList 3 0 r ∧
      r.log.filter Line.isTask = [.task 41 "vim", .task 40 "bash", .task 1 "systemd"] := by
  have hroot : Rooted fourTasks := by
    intro task
    refine ⟨3, .inl ?_⟩
    cases task <;> rfl
  obtain ⟨k, r, hrun, hr⟩ :=
    fam_reader_store_reports error_neg_of_kstrtoint fourTasks hroot "41\n".toList 3 0
  refine ⟨k, r, hrun, hr, ?_⟩
  have hlog : famReaderStore Clib.Kstrtox.kstrtoint fourTasks (k + 3) "41\n".toList 3 0 =
      some ⟨3, 41, [.func "fam_reader_store", .task 41 "vim", .task 40 "bash",
        .task 1 "systemd"]⟩ := rfl
  rw [hrun (k + 3) (by omega)] at hlog
  rw [Option.some.inj hlog]
  rfl

end Cse522.Studio07.FamilyReader

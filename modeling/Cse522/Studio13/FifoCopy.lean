import Cse522.Interleave.Machine
import Cse522.Interleave.Pipe

/-!
# Copying a FIFO to the output

`fifo_tst.c` of `FIFO` makes `myfifo`, opens it for reading and copies it character by character,
until a `read` finds it empty and without a writer. The writers are other processes: any of
them may open the FIFO while the reader has it open, write and close it. What has entered the
FIFO by then has been printed, and nothing that enters later is.
-/
namespace Cse522.Studio13.FifoCopy

open Cse522.Interleave

/-- The call of `main` executed next. -/
inductive Main where
  | mkfifo
  /-- `open("./myfifo", O_RDONLY)` -/
  | openFifo
  /-- in `open`, which waits for a writer -/
  | opening
  /-- `read(s32fd, &cbuf, 1)` -/
  | read
  /-- `write(STDOUT_FILENO, &cbuf, 1)` -/
  | write (cbuf : Char)
  /-- `close(s32fd)` -/
  | close
  /-- behind `exit(EXIT_FAILURE)`, or behind `return 0` -/
  | exited (status : Nat)
  deriving DecidableEq, Repr

structure State where
  myfifo : Pipe Char
  /-- some writer has opened the FIFO -/
  met : Bool
  main : Main
  stdout : List Char
  deriving DecidableEq, Repr

inductive Act where
  | main
  /-- the call of `main`, `mkfifo` or `open`, fails -/
  | fail
  /-- some writer's `open` ends -/
  | writerOpens
  /-- some writer writes, `PIPE_BUF` characters at most -/
  | writes (text : List Char)
  /-- some writer closes the FIFO -/
  | writerCloses
  deriving DecidableEq, Repr

def EXIT_FAILURE : Nat := 1

def init : State := ⟨⟨[], 0, 0⟩, false, .mkfifo, []⟩

def mainStep (s : State) : Option State :=
  match s.main with
  | .mkfifo => some { s with main := .openFifo }
  | .openFifo =>
      some { s with
        myfifo := ⟨s.myfifo.held, s.myfifo.readers + 1, s.myfifo.writers⟩
        main := .opening }
  | .opening => if s.met then some { s with main := .read } else none
  | .read =>
      match s.myfifo.read with
      | .got cbuf myfifo => some { s with myfifo, main := .write cbuf }
      | .eof => some { s with main := .close }
      | .blocked => none
  | .write cbuf => some { s with stdout := s.stdout ++ [cbuf], main := .read }
  | .close => some { s with myfifo := s.myfifo.closeRead, main := .exited 0 }
  | .exited _ => none

def next (capacity : Nat) (s : State) : Act → Option State
  | .main => mainStep s
  | .fail =>
      match s.main with
      | .mkfifo | .openFifo => some { s with main := .exited EXIT_FAILURE }
      | _ => none
  | .writerOpens =>
      if 0 < s.myfifo.readers then
        some { s with
          myfifo := ⟨s.myfifo.held, s.myfifo.readers, s.myfifo.writers + 1⟩
          met := true }
      else none
  | .writes text =>
      if 0 < s.myfifo.writers then
        match s.myfifo.write capacity text with
        | .put myfifo => some { s with myfifo }
        | .sigpipe => some { s with myfifo := s.myfifo.closeWrite }
        | .blocked => none
      else none
  | .writerCloses =>
      if 0 < s.myfifo.writers then some { s with myfifo := s.myfifo.closeWrite } else none

def fifoTst (capacity : Nat) : Machine State Act := ⟨next capacity⟩

/-- What the writers write, in the order of their calls. -/
def written (as : List Act) : List Char :=
  as.flatMap fun
    | .writes text => text
    | _ => []

variable {capacity : Nat} {s t : State} {a : Act} {as : List Act}

/-- What `main` has read and not printed. -/
def Main.inHand : Main → List Char
  | .write cbuf => [cbuf]
  | _ => []

/-- The loop has not come to the end of the file. -/
def Main.Copying : Main → Prop
  | .opening | .read | .write _ => True
  | _ => False

/-- The loop has come to the end of the file. -/
def Main.Over : Main → Prop
  | .close => True
  | .exited status => status = 0
  | _ => False

/-- `open` has returned the FIFO. -/
def Main.Opened : Main → Prop
  | .read | .write _ | .close => True
  | .exited status => status = 0
  | _ => False

/-- `main` never had the FIFO open. -/
def Main.Unopened : Main → Prop
  | .mkfifo | .openFifo => True
  | .exited status => status ≠ 0
  | _ => False

/-- `sent` is what has been written so far. -/
structure Copied (sent : List Char) (s : State) : Prop where
  readers : s.main.Copying → s.myfifo.readers = 1
  closed : s.main.Unopened → s.myfifo.readers = 0 ∧ s.myfifo.writers = 0
  flow : ¬ s.main.Over → s.stdout ++ s.main.inHand ++ s.myfifo.held = sent

theorem copied_init : Copied [] init where
  readers := by simp [init, Main.Copying]
  closed := fun _ => ⟨rfl, rfl⟩
  flow := fun _ => rfl

theorem copied_main {sent : List Char} (h : Copied sent s) (hn : mainStep s = some t) :
    Copied sent t := by
  obtain ⟨hreaders, hclosed, hflow⟩ := h
  unfold mainStep at hn
  cases hm : s.main <;> simp only [hm, Option.some.injEq, reduceCtorEq] at hn
  all_goals rw [hm] at hreaders hclosed hflow
  case mkfifo =>
      subst hn
      exact ⟨by simp [Main.Copying], hclosed, hflow⟩
  case openFifo =>
      subst hn
      obtain ⟨hr, -⟩ := hclosed trivial
      exact ⟨by simp [hr], by simp [Main.Unopened], hflow⟩
  case opening =>
      obtain ⟨-, ht⟩ := Option.ite_none_right_eq_some.mp hn
      cases ht
      exact ⟨hreaders, by simp [Main.Unopened], hflow⟩
  case read =>
      cases hread : s.myfifo.read <;> simp only [hread, Option.some.injEq, reduceCtorEq] at hn
      case eof =>
          subst hn
          exact ⟨by simp [Main.Copying], by simp [Main.Unopened], fun h => absurd trivial h⟩
      case got cbuf q =>
          subst hn
          obtain ⟨hheld, hr, -⟩ := Pipe.read_eq_got_iff.mp hread
          refine ⟨fun hc => hr.trans (hreaders hc), by simp [Main.Unopened], fun _ => ?_⟩
          have hsent := hflow not_false
          rw [hheld] at hsent
          simpa [Main.inHand] using hsent
  case write cbuf =>
      subst hn
      refine ⟨hreaders, by simp [Main.Unopened], fun _ => ?_⟩
      have hsent := hflow not_false
      simpa [Main.inHand] using hsent
  case close =>
      subst hn
      exact ⟨by simp [Main.Copying], by simp [Main.Unopened], fun h => absurd rfl h⟩

/-- A step of anybody else leaves `main` and what it has printed. -/
theorem others_frame (ha : a ≠ .main) (hf : a ≠ .fail) (hn : (fifoTst capacity).next s a = some t) :
    t.main = s.main ∧ t.stdout = s.stdout := by
  cases a with
  | main => exact absurd rfl ha
  | fail => exact absurd rfl hf
  | writerOpens =>
      obtain ⟨-, ht⟩ := Option.ite_none_right_eq_some.mp hn
      cases ht
      exact ⟨rfl, rfl⟩
  | writes text =>
      obtain ⟨-, ht⟩ := Option.ite_none_right_eq_some.mp hn
      cases hw : s.myfifo.write capacity text with
      | put q =>
          simp only [hw, Option.some.injEq] at ht
          subst ht
          exact ⟨rfl, rfl⟩
      | sigpipe =>
          simp only [hw, Option.some.injEq] at ht
          subst ht
          exact ⟨rfl, rfl⟩
      | blocked => simp [hw] at ht
  | writerCloses =>
      obtain ⟨-, ht⟩ := Option.ite_none_right_eq_some.mp hn
      cases ht
      exact ⟨rfl, rfl⟩

/-- A main that is not over, and whose FIFO has a writer, has it open for reading. -/
theorem Copied.readers_of_writers {sent : List Char} (h : Copied sent s) (hover : ¬ s.main.Over)
    (hw : 0 < s.myfifo.writers) : s.myfifo.readers = 1 := by
  by_cases hun : s.main.Unopened
  · have hzero := (h.closed hun).2
    omega
  · refine h.readers ?_
    cases hm : s.main <;> simp_all [Main.Over, Main.Unopened, Main.Copying]

theorem copied_step {sent : List Char} (h : Copied sent s)
    (hn : (fifoTst capacity).next s a = some t) : Copied (sent ++ written [a]) t := by
  cases a with
  | main =>
      have hmain := copied_main h hn
      simpa [written] using hmain
  | fail =>
      obtain ⟨hreaders, hclosed, hflow⟩ := h
      have hsent : sent ++ written [Act.fail] = sent := by simp [written]
      rw [hsent]
      simp only [fifoTst, next] at hn
      cases hm : s.main <;> simp only [hm, Option.some.injEq, reduceCtorEq] at hn
      all_goals
        rw [hm] at hclosed hflow
        subst hn
        exact ⟨by simp [Main.Copying], fun _ => hclosed trivial, fun _ => hflow not_false⟩
  | writerOpens =>
      obtain ⟨hr, ht⟩ := Option.ite_none_right_eq_some.mp hn
      cases ht
      have hsent : sent ++ written [Act.writerOpens] = sent := by simp [written]
      rw [hsent]
      refine ⟨h.readers, fun hun => ?_, h.flow⟩
      have hzero := (h.closed hun).1
      omega
  | writes text =>
      obtain ⟨hw, ht⟩ := Option.ite_none_right_eq_some.mp hn
      have hsent : sent ++ written [Act.writes text] = sent ++ text := by simp [written]
      rw [hsent]
      have hopen : ¬ s.main.Unopened := fun hun => by
        have hzero := (h.closed hun).2
        omega
      cases hwrite : s.myfifo.write capacity text <;>
        simp only [hwrite, Option.some.injEq, reduceCtorEq] at ht
      case put q =>
          subst ht
          obtain ⟨-, -, rfl⟩ := Pipe.write_eq_put_iff.mp hwrite
          refine ⟨h.readers, fun hun => absurd hun hopen, fun hover => ?_⟩
          rw [← h.flow hover]
          simp
      case sigpipe =>
          subst ht
          have hzero := Pipe.write_eq_sigpipe_iff.mp hwrite
          refine ⟨h.readers, fun hun => absurd hun hopen, fun hover => ?_⟩
          have hone := h.readers_of_writers hover hw
          omega
  | writerCloses =>
      obtain ⟨hw, ht⟩ := Option.ite_none_right_eq_some.mp hn
      cases ht
      have hsent : sent ++ written [Act.writerCloses] = sent := by simp [written]
      rw [hsent]
      refine ⟨h.readers, fun hun => ?_, h.flow⟩
      have hzero := (h.closed hun).2
      omega

theorem written_append (as bs : List Act) : written (as ++ bs) = written as ++ written bs :=
  List.flatMap_append

theorem copied_run {sent : List Char} (h : Copied sent s)
    (hr : (fifoTst capacity).run s as = some t) : Copied (sent ++ written as) t := by
  induction as generalizing s sent with
  | nil =>
      obtain rfl := Machine.run_nil.mp hr
      simpa [written] using h
  | cons a as ih =>
      obtain ⟨q, hq, hr⟩ := Machine.run_cons.mp hr
      have hall := ih (copied_step h hq) hr
      rwa [List.append_assoc, ← written_append] at hall

/-- The loop ends with a `read` that finds neither characters nor writers. -/
theorem over_step (hs : ¬ s.main.Over) (ht : t.main.Over)
    (hn : (fifoTst capacity).next s a = some t) :
    a = .main ∧ s.main = .read ∧ s.myfifo.held = [] ∧ s.myfifo.writers = 0 ∧
      t.stdout = s.stdout := by
  by_cases ha : a = .main
  · subst ha
    simp only [fifoTst, next, mainStep] at hn
    cases hm : s.main <;> simp only [hm, Option.some.injEq, reduceCtorEq] at hn
    case read =>
        cases hread : s.myfifo.read <;> simp only [hread, Option.some.injEq, reduceCtorEq] at hn
        case eof =>
            subst hn
            obtain ⟨hheld, hw⟩ := Pipe.read_eq_eof_iff.mp hread
            exact ⟨rfl, rfl, hheld, hw, rfl⟩
        case got =>
            subst hn
            exact absurd ht not_false
    case opening =>
        obtain ⟨-, ht'⟩ := Option.ite_none_right_eq_some.mp hn
        cases ht'
        exact absurd ht not_false
    case close => exact absurd (by rw [hm]; trivial) hs
    all_goals
      subst hn
      exact absurd ht not_false
  · by_cases hf : a = .fail
    · subst hf
      simp only [fifoTst, next] at hn
      cases hm : s.main <;> simp only [hm, Option.some.injEq, reduceCtorEq] at hn
      all_goals
        subst hn
        exact absurd (show EXIT_FAILURE = 0 from ht) (by decide)
    · have hframe := others_frame ha hf hn
      rw [hframe.1] at ht
      exact absurd ht hs

/-- Behind the end of the file nothing is printed. -/
theorem over_kept (h : s.main.Over) (hn : (fifoTst capacity).next s a = some t) :
    t.main.Over ∧ t.stdout = s.stdout := by
  by_cases ha : a = .main
  · subst ha
    simp only [fifoTst, next, mainStep] at hn
    cases hm : s.main <;> simp only [hm, Main.Over, Option.some.injEq, reduceCtorEq] at h hn
    case close =>
        subst hn
        exact ⟨rfl, rfl⟩
  · by_cases hf : a = .fail
    · subst hf
      simp only [fifoTst, next] at hn
      cases hm : s.main <;> simp only [hm, Main.Over, reduceCtorEq] at h hn
    · obtain ⟨hmain, hstdout⟩ := others_frame ha hf hn
      rw [hmain]
      exact ⟨h, hstdout⟩

theorem over_run (h : s.main.Over) (hr : (fifoTst capacity).run s as = some t) :
    t.main.Over ∧ t.stdout = s.stdout := by
  refine Machine.Reachable.invariant (I := fun q => q.main.Over ∧ q.stdout = s.stdout) ?_
    ⟨h, rfl⟩ ⟨as, hr⟩
  intro q a r hq hn
  obtain ⟨hover, hstdout⟩ := over_kept hq.1 hn
  exact ⟨hover, hstdout.trans hq.2⟩

/-! ## The first writer -/

/-- What the `open` of `main` waits for. -/
def Met (s : State) : Prop := s.main.Opened → s.met = true

theorem met_main (h : Met s) (hn : mainStep s = some t) : Met t ∧ t.met = s.met := by
  unfold mainStep at hn
  unfold Met at h
  cases hm : s.main <;> simp only [hm, Option.some.injEq, reduceCtorEq] at hn
  all_goals rw [hm] at h
  case opening =>
      obtain ⟨hmet, ht⟩ := Option.ite_none_right_eq_some.mp hn
      cases ht
      exact ⟨fun _ => hmet, rfl⟩
  case read =>
      cases hread : s.myfifo.read <;> simp only [hread, Option.some.injEq, reduceCtorEq] at hn
      all_goals
        subst hn
        exact ⟨fun _ => h trivial, rfl⟩
  case mkfifo | openFifo =>
      subst hn
      exact ⟨False.elim, rfl⟩
  case write | close =>
      subst hn
      exact ⟨fun _ => h trivial, rfl⟩

theorem met_step (h : Met s) (hn : (fifoTst capacity).next s a = some t) :
    Met t ∧ (t.met = s.met ∨ a = .writerOpens) := by
  cases a with
  | main =>
      obtain ⟨hmet, hsame⟩ := met_main h hn
      exact ⟨hmet, .inl hsame⟩
  | fail =>
      simp only [fifoTst, next] at hn
      cases hm : s.main <;> simp only [hm, Option.some.injEq, reduceCtorEq] at hn
      all_goals
        subst hn
        exact ⟨fun hopened => absurd (show EXIT_FAILURE = 0 from hopened) (by decide), .inl rfl⟩
  | writerOpens =>
      obtain ⟨-, ht⟩ := Option.ite_none_right_eq_some.mp hn
      cases ht
      exact ⟨fun _ => rfl, .inr rfl⟩
  | writes text =>
      obtain ⟨-, ht⟩ := Option.ite_none_right_eq_some.mp hn
      cases hw : s.myfifo.write capacity text <;>
        simp only [hw, Option.some.injEq, reduceCtorEq] at ht
      all_goals
        subst ht
        exact ⟨h, .inl rfl⟩
  | writerCloses =>
      obtain ⟨-, ht⟩ := Option.ite_none_right_eq_some.mp hn
      cases ht
      exact ⟨h, .inl rfl⟩

theorem met_run (h : Met s) (hr : (fifoTst capacity).run s as = some t) :
    Met t ∧ (t.met = true → s.met = true ∨ .writerOpens ∈ as) := by
  induction as generalizing s with
  | nil =>
      obtain rfl := Machine.run_nil.mp hr
      exact ⟨h, .inl⟩
  | cons a as ih =>
      obtain ⟨q, hq, hr⟩ := Machine.run_cons.mp hr
      obtain ⟨hmet, hstep⟩ := met_step h hq
      obtain ⟨hend, hopens⟩ := ih hmet hr
      refine ⟨hend, fun ht => ?_⟩
      rcases hstep with hsame | rfl
      · exact (hopens ht).imp (fun hmetq => hsame ▸ hmetq) (List.mem_cons_of_mem a)
      · exact .inr List.mem_cons_self

/-- `open` returns only when a writer has come. -/
theorem writerOpens_of_opened (hr : (fifoTst capacity).run init as = some s)
    (hopened : s.main.Opened) : .writerOpens ∈ as := by
  obtain ⟨hmet, hopens⟩ := met_run (s := init) False.elim hr
  exact (hopens (hmet hopened)).resolve_left Bool.false_ne_true

end Cse522.Studio13.FifoCopy

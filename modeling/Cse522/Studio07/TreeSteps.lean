import Mathlib.Algebra.BigOperators.Group.List.Basic
import Cse522.Studio07.Tree

/-!
# What a process of the family does

A process is a copy of its parent until it is started itself, and it is started once. The
children it still has to fork, and all that will come of them, are counted in advance, and a
child takes its share of the count with it.
-/
namespace Cse522.Studio07.Tree

open Cse522.Clib.Stdlib Cse522.Clib.Stdio

theorem atoi_text {k : Nat} (h : k ≤ 10000) : atoi (text k) = k := by
  rw [atoi, text, String.toList_ofList]
  exact toInt_strtol_decimal (by omega) (by omega)

namespace Process

/-- The level a process has been started with, or will be, if it is a copy of its parent. -/
def level (p : Process) : Nat :=
  match p.started with
  | [] => (p.s32Level - 1).toNat
  | k :: _ => k.toNat

/-- The children it has forked. -/
def recorded (p : Process) : List Int :=
  match p.pc with
  | .main | .fork .first | .sprintf _ | .execlp _ => []
  | .isChild .first => if p.started = [] then [] else [p.s32pid1]
  | .fork .second => [p.s32pid1]
  | .isChild .second => if p.started = [] then [] else [p.s32pid1, p.s32pid2]
  | .report | .sleep | .exit _ => if p.level = 0 then [] else [p.s32pid1, p.s32pid2]

/-- The processes that will still come of it. -/
def pending (p : Process) : Nat := (2 - p.recorded.length) * (2 ^ p.level - 1)

/-- The lines it has printed. -/
def printed (p : Process) : List Line :=
  match p.pc with
  | .sleep | .exit _ => [p.line]
  | _ => []

/-- Its statements to come, at most. -/
def weight (p : Process) : Nat :=
  match p.pc with
  | .isChild c => if p.started = [] then 11 else match c with
      | .first => 6
      | .second => 4
  | .sprintf _ => 10
  | .execlp _ => 9
  | .main => 8
  | .fork .first => 7
  | .fork .second => 5
  | .report => 3
  | .sleep => 1
  | .exit _ => 0

/-- Where a process of level `k` stands. Only a copy of its parent has not been started. -/
def At (k : Nat) (p : Process) : Prop :=
  match p.pc with
  | .main => p.buffer = [] ∧ p.started = [(k : Int)] ∧ ∃ tree, p.argv = [tree, text k]
  | .fork _ => p.buffer = [] ∧ p.started = [(k : Int)] ∧ p.s32Level = k ∧ 0 < k
  | .isChild c => p.buffer = [] ∧
      (p.started = [(k : Int)] ∧ p.s32Level = k ∧ 0 < k ∧ 0 < p.s32pid c ∨
        p.started = [] ∧ p.s32Level = k + 1 ∧ p.s32pid c = 0)
  | .sprintf _ => p.buffer = [] ∧ p.started = [] ∧ p.s32Level = k + 1
  | .execlp _ => p.buffer = [] ∧ p.started = [] ∧ p.s32Level = k + 1 ∧ p.pcLevel = text k
  | .report => p.buffer = [] ∧ p.started = [(k : Int)] ∧ p.s32Level = k
  | .sleep => p.started = [(k : Int)] ∧ p.s32Level = k
  | .exit status => p.started = [(k : Int)] ∧ p.s32Level = k ∧ status = 0

theorem level_of_started {p : Process} {k : Nat} (h : p.started = [(k : Int)]) : p.level = k := by
  simp [level, h]

theorem level_of_copy {p : Process} {k : Nat} (h : p.started = []) (hl : p.s32Level = k + 1) :
    p.level = k := by
  simp [level, h, hl]

theorem At.level_eq {p : Process} {k : Nat} (h : p.At k) : p.level = k := by
  unfold At at h
  split at h
  · exact level_of_started h.2.1
  · exact level_of_started h.2.1
  · rcases h.2 with h | h
    · exact level_of_started h.1
    · exact level_of_copy h.1 h.2.1
  · exact level_of_copy h.2.1 h.2.2
  · exact level_of_copy h.2.1 h.2.2.1
  · exact level_of_started h.2.1
  · exact level_of_started h.1
  · exact level_of_started h.1

end Process

/-- What an effect leaves as it is and what it may change, for a process of level `k`. -/
structure Keeps (i k : Nat) (p : Process) (e : Effect) : Prop where
  stands : e.process.At k
  started : e.process.started = [] → p.started = []
  parent : e.process.parent = p.parent
  pid : e.process.pid = p.pid
  recorded : e.process.recorded = p.recorded ++ e.child.toList.map Process.pid
  child : ∀ c ∈ e.child, c.parent = some i ∧ c.recorded = [] ∧ c.printed = [] ∧ c.buffer = [] ∧
    ∃ j, c.At j ∧ j + 1 = k
  lines : ∃ lines, e.written ++ e.process.buffer = p.buffer ++ lines ∧
    e.process.printed = p.printed ++ lines
  weight : e.process.weight + e.process.buffer.length + (e.child.toList.map Process.weight).sum <
    p.weight + p.buffer.length + 12 * e.child.toList.length

variable {i k : Nat} {p q : Process} {e : Effect}

/-- A statement that forks no child and writes nothing. -/
theorem keeps_alone (hat : q.At k) (hstarted : q.started = [] → p.started = [])
    (hparent : q.parent = p.parent) (hpid : q.pid = p.pid) (hrecorded : q.recorded = p.recorded)
    (hlines : ∃ lines, q.buffer = p.buffer ++ lines ∧ q.printed = p.printed ++ lines)
    (hweight : q.weight + q.buffer.length < p.weight + p.buffer.length) :
    Keeps i k p ⟨q, none, []⟩ where
  stands := hat
  started := hstarted
  parent := hparent
  pid := hpid
  recorded := by simpa using hrecorded
  child c hc := by cases hc
  lines := by simpa using hlines
  weight := by simpa using hweight

theorem keeps_main (hk : k ≤ 10000) (hpc : p.pc = .main) (h : p.At k)
    (he : p.statement = some q) : Keeps i k p ⟨q, none, []⟩ := by
  obtain ⟨parent, pid, argv, pc, s32Level, s32pid1, s32pid2, pcLevel, buffer, started⟩ := p
  obtain rfl : pc = .main := hpc
  obtain ⟨rfl, rfl, tree, rfl⟩ := h
  obtain rfl := Option.some.inj he
  rw [atoi_text hk]
  rcases Nat.eq_zero_or_pos k with rfl | hpos
  · exact keeps_alone ⟨rfl, rfl, rfl⟩ id rfl rfl rfl ⟨[], rfl, rfl⟩ (by simp [Process.weight])
  · rw [if_pos (by omega)]
    exact keeps_alone ⟨rfl, rfl, rfl, hpos⟩ id rfl rfl rfl ⟨[], rfl, rfl⟩ (by simp [Process.weight])

/-- Behind a `fork`, the parent goes on, and the copy turns off. -/
theorem keeps_isChild {c : Child} (hpc : p.pc = .isChild c) (h : p.At k)
    (he : p.statement = some q) : Keeps i k p ⟨q, none, []⟩ := by
  have hlevel := h.level_eq
  obtain ⟨parent, pid, argv, pc, s32Level, s32pid1, s32pid2, pcLevel, buffer, started⟩ := p
  obtain rfl : pc = .isChild c := hpc
  obtain rfl := Option.some.inj he
  obtain ⟨rfl, ⟨rfl, rfl, hpos, hret⟩ | ⟨rfl, rfl, hret⟩⟩ := h
  · rw [if_neg (by omega)]
    cases c with
    | first =>
        exact keeps_alone ⟨rfl, rfl, rfl, hpos⟩ id rfl rfl rfl ⟨[], rfl, rfl⟩
          (by simp [Process.weight])
    | second =>
        have hrecorded : (if k = 0 then [] else [s32pid1, s32pid2]) = [s32pid1, s32pid2] :=
          if_neg (by omega)
        exact keeps_alone ⟨rfl, rfl, rfl⟩ id rfl rfl hrecorded ⟨[], rfl, rfl⟩
          (by simp [Process.weight])
  · rw [if_pos hret]
    cases c <;>
      exact keeps_alone ⟨rfl, rfl, rfl⟩ id rfl rfl rfl ⟨[], rfl, rfl⟩ (by simp [Process.weight])

theorem keeps_sprintf {c : Child} (hpc : p.pc = .sprintf c) (h : p.At k)
    (he : p.statement = some q) : Keeps i k p ⟨q, none, []⟩ := by
  obtain ⟨parent, pid, argv, pc, s32Level, s32pid1, s32pid2, pcLevel, buffer, started⟩ := p
  obtain rfl : pc = .sprintf c := hpc
  obtain ⟨rfl, rfl, rfl⟩ := h
  obtain ⟨-, he⟩ := Option.ite_none_right_eq_some.mp he
  obtain rfl := Option.some.inj he
  have htext : String.ofList (decimal ((k : Int) + 1 - 1)) = text k := by
    rw [text, Int.add_sub_cancel]
  exact keeps_alone ⟨rfl, rfl, rfl, htext⟩ id rfl rfl rfl ⟨[], rfl, rfl⟩ (by simp [Process.weight])

theorem keeps_report (hpc : p.pc = .report) (h : p.At k)
    (he : p.statement = some q) : Keeps i k p ⟨q, none, []⟩ := by
  obtain ⟨parent, pid, argv, pc, s32Level, s32pid1, s32pid2, pcLevel, buffer, started⟩ := p
  obtain rfl : pc = .report := hpc
  obtain ⟨rfl, rfl, rfl⟩ := h
  obtain rfl := Option.some.inj he
  exact keeps_alone ⟨rfl, rfl⟩ id rfl rfl rfl ⟨_, rfl, rfl⟩
    (by simp [Process.weight, Process.printf])

theorem keeps_sleep (hpc : p.pc = .sleep) (h : p.At k)
    (he : p.statement = some q) : Keeps i k p ⟨q, none, []⟩ := by
  obtain ⟨parent, pid, argv, pc, s32Level, s32pid1, s32pid2, pcLevel, buffer, started⟩ := p
  obtain rfl : pc = .sleep := hpc
  obtain ⟨rfl, rfl⟩ := h
  obtain rfl := Option.some.inj he
  exact keeps_alone ⟨rfl, rfl, rfl⟩ id rfl rfl rfl ⟨[], by simp, by simp [Process.printed]; rfl⟩
    (by simp [Process.weight])

theorem keeps_statement (hk : k ≤ 10000) (h : p.At k) (he : p.statement = some q) :
    Keeps i k p ⟨q, none, []⟩ := by
  cases hpc : p.pc with
  | main => exact keeps_main hk hpc h he
  | isChild c => exact keeps_isChild hpc h he
  | sprintf c => exact keeps_sprintf hpc h he
  | report => exact keeps_report hpc h he
  | sleep => exact keeps_sleep hpc h he
  | fork c | execlp c | exit status =>
      rw [Process.statement, hpc] at he
      cases he

namespace Process

variable {ret : Int} {c : Child}

@[simp] theorem forked_pc : (p.forked ret c).pc = .isChild c := by cases c <;> rfl
@[simp] theorem forked_started : (p.forked ret c).started = p.started := by cases c <;> rfl
@[simp] theorem forked_s32Level : (p.forked ret c).s32Level = p.s32Level := by cases c <;> rfl
@[simp] theorem forked_buffer : (p.forked ret c).buffer = p.buffer := by cases c <;> rfl
@[simp] theorem forked_parent : (p.forked ret c).parent = p.parent := by cases c <;> rfl
@[simp] theorem forked_pid : (p.forked ret c).pid = p.pid := by cases c <;> rfl
@[simp] theorem forked_s32pid : (p.forked ret c).s32pid c = ret := by cases c <;> rfl

theorem forked_recorded (hpc : p.pc = .fork c) (h : p.started ≠ []) :
    (p.forked ret c).recorded = p.recorded ++ [ret] := by
  cases c <;> simp [recorded, hpc, forked, h]

theorem forked_weight (hpc : p.pc = .fork c) (h : p.started ≠ []) :
    (p.forked ret c).weight + 1 = p.weight := by
  cases c <;> simp [weight, hpc, forked, h]

theorem copy_recorded (p : Process) (i : Nat) (pid : Int) (c : Child) :
    (p.copy i pid c).recorded = [] := by
  cases c <;> rfl

theorem copy_weight (p : Process) (i : Nat) (pid : Int) (c : Child) :
    (p.copy i pid c).weight = 11 := by
  cases c <;> rfl

theorem forked_at (hpc : p.pc = .fork c) (h : p.At k) (hret : 0 < ret) :
    (p.forked ret c).At k := by
  rw [At, hpc] at h
  obtain ⟨hbuffer, hstarted, hlevel, hpos⟩ := h
  simp [At, hbuffer, hstarted, hlevel, hpos, hret]

/-- The copy is to be started with the level below. -/
theorem copy_at {pid : Int} (hpc : p.pc = .fork c) (h : p.At (k + 1)) : (p.copy i pid c).At k := by
  rw [At, hpc] at h
  obtain ⟨hbuffer, -, hlevel, -⟩ := h
  cases c <;> exact ⟨hbuffer, .inr ⟨rfl, hlevel, rfl⟩⟩

end Process

theorem keeps_fork {pid : Int} (h : p.At k) (he : effect i p (.fork pid) = some e) :
    Keeps i k p e := by
  cases hpc : p.pc with
  | fork c =>
      simp only [effect, hpc] at he
      obtain ⟨hpid, he⟩ := Option.ite_none_right_eq_some.mp he
      obtain rfl := Option.some.inj he
      obtain ⟨hbuffer, hstarted, -, hpos⟩ : p.buffer = [] ∧ p.started = [(k : Int)] ∧
          p.s32Level = k ∧ 0 < k := by rwa [Process.At, hpc] at h
      have hne : p.started ≠ [] := by simp [hstarted]
      have hbuffer' : (p.copy i pid c).buffer = [] := by cases c <;> exact hbuffer
      obtain ⟨j, rfl⟩ : ∃ j, k = j + 1 := ⟨k - 1, by omega⟩
      refine ⟨p.forked_at hpc h hpid, ?_, Process.forked_parent, Process.forked_pid,
        Process.forked_recorded hpc hne, ?_, ⟨[], ?_, ?_⟩, ?_⟩
      · rw [Process.forked_started]
        exact id
      · rintro q ⟨⟩
        exact ⟨rfl, p.copy_recorded i pid c, by cases c <;> rfl, hbuffer', j,
          p.copy_at hpc h, rfl⟩
      · rw [Process.forked_buffer, List.append_nil, List.nil_append]
      · simp only [Process.printed, hpc, Process.forked_pc, List.append_nil]
      · have hweight : (p.forked pid c).weight + 1 = p.weight := Process.forked_weight hpc hne
        simp only [Process.forked_buffer, Option.toList_some, List.map_cons, List.map_nil,
          List.sum_singleton, List.length_singleton, Process.copy_weight]
        omega
  | main | isChild | sprintf | execlp | report | sleep | exit =>
      simp only [effect, hpc] at he
      cases he

/-- The text is the level. -/
theorem keeps_execlp (hk : k ≤ 10000) (h : p.At k) (he : effect i p .execlp = some e) :
    Keeps i k p e := by
  obtain ⟨parent, pid, argv, pc, s32Level, s32pid1, s32pid2, pcLevel, buffer, started⟩ := p
  cases pc with
  | execlp c =>
      obtain rfl := Option.some.inj he
      obtain ⟨rfl, rfl, rfl, rfl⟩ := h
      have hstarted : [] ++ [atoi (text k)] = [(k : Int)] := by rw [atoi_text hk, List.nil_append]
      exact keeps_alone ⟨rfl, hstarted, "tree", rfl⟩ (fun _ => rfl) rfl rfl rfl ⟨[], rfl, rfl⟩
        (by simp [Process.weight, Process.exec])
  | main | fork | isChild | sprintf | report | sleep | exit => cases he

theorem Process.At.flush (h : p.At k) : Process.At k { p with buffer := [] } := by
  unfold Process.At at h ⊢
  cases hpc : p.pc <;> simp only [hpc] at h ⊢
  case main | fork | isChild | sprintf | execlp | report => exact ⟨trivial, h.2⟩
  case sleep | exit => exact h

theorem keeps_flush (h : p.At k) (he : effect i p .flush = some e) : Keeps i k p e := by
  obtain ⟨hne, he⟩ := Option.ite_none_left_eq_some.mp he
  obtain rfl := Option.some.inj he
  refine ⟨h.flush, id, rfl, rfl, (List.append_nil _).symm, (fun c hc => by cases hc),
    ⟨[], rfl, (List.append_nil _).symm⟩, ?_⟩
  have hweight : Process.weight { p with buffer := [] } = p.weight := rfl
  have hpos : 0 < p.buffer.length := List.length_pos_iff.mpr hne
  simp only [hweight, List.length_nil, Option.toList_none, List.map_nil, List.sum_nil]
  omega

theorem keeps_of_effect {call : Call} (hk : k ≤ 10000) (h : p.At k)
    (hok : call ≠ .forkFails ∧ call ≠ .execlpFails) (he : effect i p call = some e) :
    Keeps i k p e := by
  cases call with
  | statement =>
      obtain ⟨q, hq, rfl⟩ := Option.map_eq_some_iff.mp he
      exact keeps_statement hk h hq
  | fork pid => exact keeps_fork h he
  | execlp => exact keeps_execlp hk h he
  | flush => exact keeps_flush h he
  | forkFails => exact absurd rfl hok.1
  | execlpFails => exact absurd rfl hok.2

/-! ## The count -/

theorem Process.recorded_length_le (p : Process) : p.recorded.length ≤ 2 := by
  unfold Process.recorded
  split <;> (try split) <;> simp

def Process.work (p : Process) : Nat := 12 * p.pending + p.weight + p.buffer.length

/-- A child takes its share of what is to come, and is one of those to come. -/
theorem Keeps.pending (h : Keeps i k p e) (hat : p.At k) :
    p.pending = e.process.pending + (e.child.toList.map fun c => c.pending + 1).sum := by
  have hlevel := h.stands.level_eq
  have hrecorded := congrArg List.length h.recorded
  have hle := e.process.recorded_length_le
  unfold Process.pending
  cases hc : e.child with
  | none =>
      rw [hc, Option.toList_none, List.map_nil, List.append_nil] at hrecorded
      rw [hrecorded, hlevel, hat.level_eq]
      simp
  | some c =>
      obtain ⟨-, hnone, -, -, j, hj, rfl⟩ := h.child c (by rw [hc]; rfl)
      simp only [hc, Option.toList_some, List.map_cons, List.map_nil, List.length_append,
        List.length_singleton] at hrecorded
      simp only [hlevel, hat.level_eq, hj.level_eq, hnone, Option.toList_some, List.map_cons,
        List.map_nil, List.sum_singleton, List.length_nil]
      have hpos : 0 < 2 ^ j := Nat.two_pow_pos j
      have hdouble : 2 ^ (j + 1) = 2 * 2 ^ j := Nat.pow_succ'
      rcases (by omega : p.recorded.length = 0 ∨ p.recorded.length = 1) with hr | hr <;>
        · rw [hrecorded, hr]
          omega

theorem Keeps.work (h : Keeps i k p e) (hat : p.At k) :
    e.process.work + (e.child.toList.map Process.work).sum < p.work := by
  have hpending := h.pending hat
  have hweight := h.weight
  unfold Process.work
  cases hc : e.child with
  | none =>
      simp only [hc, Option.toList_none, List.map_nil, List.sum_nil, List.length_nil] at *
      omega
  | some c =>
      have hbuffer : c.buffer = [] := (h.child c (by rw [hc]; rfl)).2.2.2.1
      simp only [hc, hbuffer, Option.toList_some, List.map_cons, List.map_nil, List.sum_singleton,
        List.length_singleton, List.length_nil] at *
      omega

end Cse522.Studio07.Tree

import Mathlib.Data.List.Basic
import Cse522.Interleave.Machine

/-!
# Where the signals arrive

The handler of `SIGINT` marks the number the loop variable holds, whatever the program is doing.
The first loop writes the numbers, the second reports the marked ones, and both use the same
variable, which has left the array when a loop ends.
-/
namespace Cse522.Studio12.Print5000

open Cse522.Interleave

def size : Nat := 5000

/-- The statements in the body of the first loop. -/
inductive Body where
  /-- `s32temp = i` -/
  | temp
  /-- `acMsg[3] = '0' + s32temp / 1000` -/
  | thousands
  /-- `s32temp %= 1000` -/
  | rest1000
  | hundreds
  | rest100
  | tens
  | rest10
  | units
  | write
  deriving DecidableEq, Repr

/-- The next statement of `main`, behind the call of `sigaction`. -/
inductive Pc where
  /-- `i = 0` of the first loop -/
  | init1
  | test1
  | body (b : Body)
  | incr1
  /-- `i = 0` of the second loop -/
  | init2
  | test2
  /-- `if( called[i] == 1 )` -/
  | isCalled
  | printf
  | incr2
  | ret
  | finished
  deriving DecidableEq, Repr

structure State where
  pc : Pc
  i : Nat
  called : List Nat
  s32temp : Nat
  acMsg : List Char
  /-- the messages of the first loop -/
  written : List (List Char)
  /-- the numbers printed as possibly interrupted -/
  reported : List Nat
  /-- the handler has written outside of `called` -/
  wild : Bool
  /-- where the program was at each signal, and what `i` then was -/
  signals : List (Pc × Nat)
  deriving DecidableEq, Repr

def init : State where
  pc := .init1
  i := 0
  called := List.replicate size 0
  s32temp := 0
  acMsg := ['i', ':', ' ', ' ', ' ', ' ', ' ', '\n', '\x00']
  written := []
  reported := []
  wild := false
  signals := []

/-- `acMsg[k] = '0' + digit` -/
def State.setDigit (s : State) (k digit : Nat) (pc : Pc) : State :=
  { s with acMsg := s.acMsg.set k (Char.ofNat (48 + digit)), pc }

def Body.run (s : State) : Body → State
  | .temp => { s with s32temp := s.i, pc := .body .thousands }
  | .thousands => s.setDigit 3 (s.s32temp / 1000) (.body .rest1000)
  | .rest1000 => { s with s32temp := s.s32temp % 1000, pc := .body .hundreds }
  | .hundreds => s.setDigit 4 (s.s32temp / 100) (.body .rest100)
  | .rest100 => { s with s32temp := s.s32temp % 100, pc := .body .tens }
  | .tens => s.setDigit 5 (s.s32temp / 10) (.body .rest10)
  | .rest10 => { s with s32temp := s.s32temp % 10, pc := .body .units }
  | .units => s.setDigit 6 s.s32temp (.body .write)
  | .write => { s with written := s.written ++ [s.acMsg], pc := .incr1 }

/-- A statement of `main`. -/
def statement (s : State) : Option State :=
  match s.pc with
  | .init1 => some { s with i := 0, pc := .test1 }
  | .test1 => some { s with pc := if s.i < size then .body .temp else .init2 }
  | .body b => some (b.run s)
  | .incr1 => some { s with i := s.i + 1, pc := .test1 }
  | .init2 => some { s with i := 0, pc := .test2 }
  | .test2 => some { s with pc := if s.i < size then .isCalled else .ret }
  | .isCalled => some { s with pc := if s.called[s.i]? = some 1 then .printf else .incr2 }
  | .printf => some { s with reported := s.reported ++ [s.i], pc := .incr2 }
  | .incr2 => some { s with i := s.i + 1, pc := .test2 }
  | .ret => some { s with pc := .finished }
  | .finished => none

/-- `called[i] = 1`, which is not defined outside of the array. -/
def sigintHandler (s : State) : State :=
  { s with
    called := s.called.set s.i 1
    wild := s.wild || decide (size ≤ s.i)
    signals := s.signals ++ [(s.pc, s.i)] }

inductive Act where
  | main
  | sigint
  deriving DecidableEq, Repr

def next (s : State) : Act → Option State
  | .main => statement s
  | .sigint => if s.pc = .finished then none else some (sigintHandler s)

/-- A signal may arrive before every statement. -/
def print5000 : Machine State Act := ⟨next⟩

/-- The first loop is at the number in `i`. -/
def Pc.printing : Pc → Bool
  | .test1 | .body _ | .incr1 => true
  | _ => false

/-- `called[i]` is still to be tested, and the first loop is not at `i`: it has not begun, or the
second loop is there. -/
def Pc.stray : Pc → Bool
  | .init1 | .test2 | .isCalled => true
  | _ => false

/-- The handler has written to `called` only, and the numbers reported are those at which the
first loop was when a signal arrived. -/
def Kept (s : State) : Prop :=
  s.wild = false ∧ ∀ j, j ∈ s.reported ↔ ∃ pc : Pc, pc.printing = true ∧ (pc, j) ∈ s.signals

/-- No signal has arrived while `i` was behind the last number, and where one has arrived before
the first loop, or in the second before the test, one has arrived in the first loop, too. -/
def Clean (s : State) : Prop :=
  (∀ x ∈ s.signals, x.2 ≠ size) ∧
    ∀ x ∈ s.signals, x.1.stray = true → ∃ pc : Pc, pc.printing = true ∧ (pc, x.2) ∈ s.signals

/-! ## What the variable holds -/

/-- What `i` can be at a statement. -/
def Pc.At (i : Nat) : Pc → Prop
  | .init1 => i = 0
  | .test1 | .test2 => i ≤ size
  | .body _ | .incr1 | .isCalled | .printf | .incr2 => i < size
  | .init2 | .ret | .finished => i = size

/-- The numbers below have been tested, those below `State.done` reported if they were marked. -/
def State.tested (s : State) : Nat :=
  match s.pc with
  | .init1 | .test1 | .body _ | .incr1 | .init2 => 0
  | .test2 | .isCalled | .ret | .finished => s.i
  | .printf | .incr2 => s.i + 1

def State.done (s : State) : Nat := if s.pc = .printf then s.i else s.tested

/-- The mark that is set here has been missed if the number is tested. -/
def Pc.late : Pc → Bool
  | .printf | .incr2 => true
  | _ => false

/-- A mark is due where a signal has arrived before the test. -/
def State.Due (s : State) (j : Nat) : Prop := ∃ pc : Pc, pc.late = false ∧ (pc, j) ∈ s.signals

structure Marked (s : State) : Prop where
  here : s.pc.At s.i
  arrived : ∀ x ∈ s.signals, x.1.At x.2
  length : s.called.length = size
  called : ∀ j < size, s.called[j]? = some 1 ↔ ∃ pc, (pc, j) ∈ s.signals
  late : ∀ x ∈ s.signals, x.1.late = true → x.2 < s.tested
  due : s.pc = .printf → s.Due s.i
  reported : ∀ j, j ∈ s.reported ↔ j < s.done ∧ s.Due j
  wild : s.wild = true ↔ ∃ x ∈ s.signals, x.2 = size

variable {s t : State} {i j : Nat}

theorem marked_init : Marked init where
  here := rfl
  arrived x hx := by cases hx
  length := List.length_replicate
  called j hj := by simp [init, List.getElem?_replicate]
  late x hx := by cases hx
  due hpc := by cases hpc
  reported j := by simp [init, State.done, State.tested]
  wild := by simp [init]

theorem le_of_at {pc : Pc} (h : pc.At i) : i ≤ size := by
  cases pc <;> simp only [Pc.At] at h <;> omega

theorem Marked.at_pc {pc : Pc} (h : Marked s) (hpc : s.pc = pc) : pc.At s.i := hpc ▸ h.here

theorem due_congr (h : t.signals = s.signals) (j : Nat) : t.Due j ↔ s.Due j := by
  rw [State.Due, State.Due, h]

/-- A statement that neither tests nor reports. -/
theorem marked_silent (h : Marked s) (hcalled : t.called = s.called)
    (hsignals : t.signals = s.signals) (hwild : t.wild = s.wild)
    (hreported : t.reported = s.reported) (hhere : t.pc.At t.i) (htested : t.tested = s.tested)
    (hdone : t.done = s.done) (hpc : t.pc ≠ .printf) : Marked t where
  here := hhere
  arrived := by rw [hsignals]; exact h.arrived
  length := by rw [hcalled]; exact h.length
  called := by rw [hcalled, hsignals]; exact h.called
  late := by rw [hsignals, htested]; exact h.late
  due hprintf := absurd hprintf hpc
  reported j := by rw [hreported, hdone, due_congr hsignals]; exact h.reported j
  wild := by rw [hwild, hsignals]; exact h.wild

/-- A number that is marked when it is tested is due, and one that is not has not been marked. -/
theorem due_iff_called (h : Marked s) (hpc : s.pc = .isCalled) :
    s.called[s.i]? = some 1 ↔ s.Due s.i := by
  have hi : s.i < size := h.at_pc hpc
  have htested : s.tested = s.i := by rw [State.tested, hpc]
  rw [h.called s.i hi]
  constructor
  · intro hsome
    obtain ⟨pc, hx⟩ := hsome
    refine ⟨pc, ?_, hx⟩
    by_contra hlate
    have hlt := h.late _ hx (by simpa using hlate)
    rw [htested] at hlt
    exact Nat.lt_irrefl _ hlt
  · intro hsome
    obtain ⟨pc, -, hx⟩ := hsome
    exact ⟨pc, hx⟩

theorem marked_isCalled (h : Marked s) (hpc : s.pc = .isCalled) :
    Marked { s with pc := if s.called[s.i]? = some 1 then .printf else .incr2 } := by
  have hi : s.i < size := h.at_pc hpc
  have htested : s.tested = s.i := by rw [State.tested, hpc]
  have hdone : s.done = s.i := by rw [State.done, hpc, if_neg nofun, htested]
  have hlate : ∀ x ∈ s.signals, x.1.late = true → x.2 < s.i + 1 := fun x hx hl =>
    Nat.lt_succ_of_lt (htested ▸ h.late x hx hl)
  have hdue := due_iff_called h hpc
  have hreported := h.reported
  rw [hdone] at hreported
  by_cases hmark : s.called[s.i]? = some 1
  · rw [if_pos hmark]
    exact { h with here := hi, late := hlate, due := fun _ => hdue.mp hmark, reported := hreported }
  · rw [if_neg hmark]
    refine { h with here := hi, late := hlate, due := nofun, reported := ?_ }
    intro j
    rw [hreported j]
    constructor
    · intro hsome
      obtain ⟨hlt, hj⟩ := hsome
      exact ⟨Nat.lt_succ_of_lt hlt, hj⟩
    · intro hsome
      obtain ⟨hlt, hj⟩ := hsome
      refine ⟨Nat.lt_of_le_of_ne (Nat.le_of_lt_succ hlt) ?_, hj⟩
      rintro rfl
      exact hmark (hdue.mpr hj)

theorem marked_printf (h : Marked s) (hpc : s.pc = .printf) :
    Marked { s with reported := s.reported ++ [s.i], pc := .incr2 } := by
  have hi : s.i < size := h.at_pc hpc
  have hdone : s.done = s.i := by rw [State.done, hpc, if_pos rfl]
  have htested : s.tested = s.i + 1 := by rw [State.tested, hpc]
  have hlate := h.late
  rw [htested] at hlate
  have hdue := h.due hpc
  refine { h with here := hi, late := hlate, due := nofun, reported := ?_ }
  intro j
  rw [List.mem_append, List.mem_singleton, h.reported j, hdone]
  constructor
  · intro hcase
    obtain ⟨hlt, hj⟩ | rfl := hcase
    · exact ⟨Nat.lt_succ_of_lt hlt, hj⟩
    · exact ⟨Nat.lt_succ_self _, hdue⟩
  · intro hsome
    obtain ⟨hlt, hj⟩ := hsome
    rcases Nat.lt_succ_iff_lt_or_eq.mp hlt with hlt | rfl
    · exact .inl ⟨hlt, hj⟩
    · exact .inr rfl

theorem marked_body (h : Marked s) {b : Body} (hpc : s.pc = .body b) : Marked (b.run s) := by
  have hi : s.i < size := h.at_pc hpc
  have htested : s.tested = 0 := by rw [State.tested, hpc]
  have hdone : s.done = 0 := by rw [State.done, hpc, if_neg nofun, htested]
  cases b <;> exact marked_silent h rfl rfl rfl rfl hi htested.symm hdone.symm nofun

theorem marked_statement (h : Marked s) (ht : statement s = some t) : Marked t := by
  cases hpc : s.pc with
  | init1 | init2 =>
      simp only [statement, hpc] at ht
      obtain rfl := Option.some.inj ht
      exact marked_silent h rfl rfl rfl rfl (Nat.zero_le _) (by simp [State.tested, hpc])
        (by simp [State.done, State.tested, hpc]) nofun
  | test1 | test2 =>
      have hat := h.at_pc hpc
      simp only [statement, hpc] at ht
      obtain rfl := Option.some.inj ht
      by_cases hi : s.i < size
      · rw [if_pos hi]
        exact marked_silent h rfl rfl rfl rfl hi (by simp [State.tested, hpc])
          (by simp [State.done, State.tested, hpc]) nofun
      · rw [if_neg hi]
        exact marked_silent h rfl rfl rfl rfl (Nat.le_antisymm hat (Nat.le_of_not_lt hi))
          (by simp [State.tested, hpc]) (by simp [State.done, State.tested, hpc]) nofun
  | body b =>
      simp only [statement, hpc] at ht
      obtain rfl := Option.some.inj ht
      exact marked_body h hpc
  | incr1 | incr2 =>
      have hat := h.at_pc hpc
      simp only [statement, hpc] at ht
      obtain rfl := Option.some.inj ht
      exact marked_silent h rfl rfl rfl rfl (Nat.succ_le_of_lt hat) (by simp [State.tested, hpc])
        (by simp [State.done, State.tested, hpc]) nofun
  | isCalled =>
      simp only [statement, hpc] at ht
      obtain rfl := Option.some.inj ht
      exact marked_isCalled h hpc
  | printf =>
      simp only [statement, hpc] at ht
      obtain rfl := Option.some.inj ht
      exact marked_printf h hpc
  | ret =>
      have hat := h.at_pc hpc
      simp only [statement, hpc] at ht
      obtain rfl := Option.some.inj ht
      exact marked_silent h rfl rfl rfl rfl hat (by simp [State.tested, hpc])
        (by simp [State.done, State.tested, hpc]) nofun
  | finished =>
      simp only [statement, hpc] at ht
      cases ht

/-- A signal that comes in time comes before its number is reported. -/
theorem done_le_of_late (h : s.pc.late = false) : s.done ≤ s.i := by
  cases hpc : s.pc <;> simp_all [State.done, State.tested, Pc.late]

theorem lt_tested_of_late (h : s.pc.late = true) : s.i < s.tested := by
  cases hpc : s.pc <;> simp_all [State.tested, Pc.late]

theorem marked_sigint (h : Marked s) : Marked (sigintHandler s) where
  here := h.here
  arrived x hx := by
    rcases List.mem_append.mp hx with hx | hx
    · exact h.arrived x hx
    · obtain rfl := List.mem_singleton.mp hx
      exact h.here
  length := List.length_set.trans h.length
  called j hj := by
    simp only [sigintHandler, List.mem_append, List.mem_singleton, Prod.mk.injEq]
    by_cases hji : s.i = j
    · subst hji
      rw [List.getElem?_set_self (by rw [h.length]; exact hj)]
      exact ⟨fun _ => ⟨s.pc, .inr ⟨rfl, rfl⟩⟩, fun _ => rfl⟩
    · rw [List.getElem?_set_ne hji, h.called j hj]
      constructor
      · intro hsome
        obtain ⟨pc, hx⟩ := hsome
        exact ⟨pc, .inl hx⟩
      · intro hcase
        obtain ⟨pc, hx | ⟨-, rfl⟩⟩ := hcase
        · exact ⟨pc, hx⟩
        · exact absurd rfl hji
  late x hx hlate := by
    rcases List.mem_append.mp hx with hx | hx
    · exact h.late x hx hlate
    · obtain rfl := List.mem_singleton.mp hx
      exact lt_tested_of_late hlate
  due hpc := by
    obtain ⟨pc, hlate, hx⟩ := h.due hpc
    exact ⟨pc, hlate, List.mem_append_left _ hx⟩
  reported j := by
    have hdone : (sigintHandler s).done = s.done := rfl
    rw [hdone]
    refine (h.reported j).trans (and_congr_right fun hj => ?_)
    constructor
    · intro hsome
      obtain ⟨pc, hlate, hx⟩ := hsome
      exact ⟨pc, hlate, List.mem_append_left _ hx⟩
    · intro hsome
      obtain ⟨pc, hlate, hx⟩ := hsome
      rcases List.mem_append.mp hx with hx | hx
      · exact ⟨pc, hlate, hx⟩
      · obtain ⟨rfl, rfl⟩ := Prod.mk.inj (List.mem_singleton.mp hx)
        have hle := done_le_of_late hlate
        omega
  wild := by
    have hle := le_of_at h.here
    simp only [sigintHandler, Bool.or_eq_true, decide_eq_true_eq, h.wild, List.mem_append,
      List.mem_singleton]
    constructor
    · intro hcase
      obtain ⟨x, hx, hsize⟩ | hge := hcase
      · exact ⟨x, .inl hx, hsize⟩
      · exact ⟨_, .inr rfl, Nat.le_antisymm hle hge⟩
    · intro hcase
      obtain ⟨x, hx | rfl, hsize⟩ := hcase
      · exact .inl ⟨x, hx, hsize⟩
      · exact .inr (Nat.le_of_eq hsize.symm)

theorem marked_step {a : Act} (h : Marked s) (ht : print5000.next s a = some t) : Marked t := by
  cases a with
  | main => exact marked_statement h ht
  | sigint =>
      obtain ⟨-, ht⟩ := Option.ite_none_left_eq_some.mp ht
      obtain rfl := Option.some.inj ht
      exact marked_sigint h

theorem marked_reachable (h : print5000.Reachable init s) : Marked s :=
  h.invariant marked_step marked_init

/-! ## The report -/

theorem wild_iff (h : Marked s) : s.wild = false ↔ ∀ x ∈ s.signals, x.2 ≠ size := by
  rw [← Bool.not_eq_true, h.wild]
  constructor
  · intro hno x hx hsize
    exact hno ⟨x, hx, hsize⟩
  · rintro hall ⟨x, hx, hsize⟩
    exact hall x hx hsize

/-- A signal that comes in time, and not behind the last number, comes in the first loop or is
stray. -/
theorem printing_or_stray {pc : Pc} (hat : pc.At j) (hj : j ≠ size) (hlate : pc.late = false) :
    pc.printing = true ∨ pc.stray = true := by
  cases pc with
  | init1 | test2 | isCalled => exact .inr rfl
  | test1 | body | incr1 => exact .inl rfl
  | init2 | ret | finished => exact absurd hat hj
  | printf | incr2 => cases hlate

theorem late_of_printing {pc : Pc} (h : pc.printing = true) : pc.late = false := by
  cases pc <;> first | rfl | cases h

theorem late_of_stray {pc : Pc} (h : pc.stray = true) : pc.late = false := by
  cases pc <;> first | rfl | cases h

theorem kept_iff (h : Marked s) (hpc : s.pc = .finished) : Kept s ↔ Clean s := by
  have hdone : s.done = size := by
    rw [State.done, hpc, if_neg nofun, State.tested, hpc]
    exact h.at_pc hpc
  have hreported := h.reported
  rw [hdone] at hreported
  rw [Kept, Clean, wild_iff h]
  refine and_congr_right fun hin => ?_
  have hlt : ∀ {pc j}, (pc, j) ∈ s.signals → j < size := fun hx =>
    Nat.lt_of_le_of_ne (le_of_at (h.arrived _ hx)) (hin _ hx)
  constructor
  · intro hkept x hx hstray
    exact (hkept x.2).mp ((hreported x.2).mpr ⟨hlt hx, x.1, late_of_stray hstray, hx⟩)
  · intro hclean j
    rw [hreported j]
    constructor
    · intro hsome
      obtain ⟨-, pc, hlate, hx⟩ := hsome
      rcases printing_or_stray (h.arrived _ hx) (hin _ hx) hlate with hprinting | hstray
      · exact ⟨pc, hprinting, hx⟩
      · exact hclean _ hx hstray
    · intro hsome
      obtain ⟨pc, hprinting, hx⟩ := hsome
      exact ⟨hlt hx, pc, late_of_printing hprinting, hx⟩

/-! ## Runs -/

/-- A loop over the numbers comes to its end if its body does. -/
theorem loop_runs (test inside incr out : Pc)
    (htest : ∀ s, s.pc = test →
      statement s = some { s with pc := if s.i < size then inside else out })
    (hbody : ∀ s, s.pc = inside → ∃ t, print5000.Reachable s t ∧ t.pc = incr ∧ t.i = s.i ∧
      t.signals = s.signals)
    (hincr : ∀ s, s.pc = incr → statement s = some { s with i := s.i + 1, pc := test })
    (hpc : s.pc = test) (hi : s.i ≤ size) :
    ∃ t, print5000.Reachable s t ∧ t.pc = out ∧ t.i = size ∧ t.signals = s.signals := by
  generalize hleft : size - s.i = left
  have hnext := htest s hpc
  induction left generalizing s with
  | zero =>
      have hend : s.i = size := by omega
      rw [if_neg (by omega)] at hnext
      exact ⟨_, .single (a := .main) hnext, rfl, hend, rfl⟩
  | succ left ih =>
      rw [if_pos (by omega)] at hnext
      obtain ⟨u, hu, hupc, hui, husignals⟩ := hbody { s with pc := inside } rfl
      simp only at hui husignals
      obtain ⟨t, ht, htpc, hti, htsignals⟩ :=
        ih (s := { u with i := u.i + 1, pc := test }) rfl (by simp only; omega)
          (by simp only; omega) (htest _ rfl)
      have hstart : print5000.Reachable s _ := .single (a := .main) hnext
      have hstep : print5000.Reachable u _ := .single (a := .main) (hincr u hupc)
      exact ⟨t, hstart.trans (hu.trans (hstep.trans ht)), htpc, hti, htsignals.trans husignals⟩

theorem body_runs (hpc : s.pc = .body .temp) : ∃ t, print5000.Reachable s t ∧ t.pc = .incr1 ∧
    t.i = s.i ∧ t.signals = s.signals := by
  obtain ⟨pc, i, called, s32temp, acMsg, written, reported, wild, signals⟩ := s
  obtain rfl : pc = .body .temp := hpc
  exact ⟨_, ⟨List.replicate 9 .main, rfl⟩, rfl, rfl, rfl⟩

theorem test_runs (hpc : s.pc = .isCalled) : ∃ t, print5000.Reachable s t ∧ t.pc = .incr2 ∧
    t.i = s.i ∧ t.signals = s.signals := by
  by_cases hmark : s.called[s.i]? = some 1
  · refine ⟨{ s with reported := s.reported ++ [s.i], pc := .incr2 }, ⟨[.main, .main], ?_⟩,
      rfl, rfl, rfl⟩
    simp [print5000, Machine.run, next, statement, hpc, hmark]
  · refine ⟨{ s with pc := .incr2 }, ⟨[.main], ?_⟩, rfl, rfl, rfl⟩
    simp [print5000, Machine.run, next, statement, hpc, hmark]

/-- Undisturbed, the first loop comes to its end. -/
theorem printing_runs (hpc : s.pc = .test1) (hi : s.i ≤ size) :
    ∃ t, print5000.Reachable s t ∧ t.pc = .init2 ∧ t.i = size ∧ t.signals = s.signals :=
  loop_runs .test1 (.body .temp) .incr1 .init2
    (fun s hpc => by simp only [statement, hpc]) (fun s hpc => body_runs hpc)
    (fun s hpc => by simp only [statement, hpc]) hpc hi

/-- And so does the program. -/
theorem reporting_runs (hpc : s.pc = .init2) :
    ∃ t, print5000.Reachable s t ∧ t.pc = .finished ∧ t.signals = s.signals := by
  obtain ⟨t, ht, htpc, -, htsignals⟩ :=
    loop_runs (s := { s with i := 0, pc := .test2 }) .test2 .isCalled .incr2 .ret
      (fun s hpc => by simp only [statement, hpc]) (fun s hpc => test_runs hpc)
      (fun s hpc => by simp only [statement, hpc]) rfl (Nat.zero_le _)
  have hinit : statement s = some { s with i := 0, pc := .test2 } := by
    simp only [statement, hpc]
  have hret : statement t = some { t with pc := .finished } := by
    simp only [statement, htpc]
  have hstart : print5000.Reachable s _ := .single (a := .main) hinit
  have hend : print5000.Reachable t _ := .single (a := .main) hret
  exact ⟨_, hstart.trans (ht.trans hend), rfl, htsignals⟩

/-- The handler keeps to the array as long as no signal arrives behind the last number. At the
end of the program, the report is right exactly if no stray signal has marked a number. -/
theorem kept_iff_clean (hr : print5000.Reachable init t) :
    (t.wild = false ↔ ∀ x ∈ t.signals, x.2 ≠ size) ∧
      (t.pc = .finished → (Kept t ↔ Clean t)) :=
  ⟨wild_iff (marked_reachable hr), kept_iff (marked_reachable hr)⟩

/-- A signal in the first loop, before the number zero is tested. -/
theorem kept_iff_clean_zero : ∃ t, print5000.Reachable init t ∧ t.pc = .finished ∧
    t.signals = [(.test1, 0)] ∧ Kept t := by
  have hstart : print5000.Reachable init (sigintHandler { init with pc := .test1 }) :=
    ⟨[.main, .sigint], rfl⟩
  obtain ⟨u, hu, hupc, -, husignals⟩ :=
    printing_runs (s := sigintHandler { init with pc := .test1 }) rfl (Nat.zero_le _)
  obtain ⟨t, ht, htpc, htsignals⟩ := reporting_runs hupc
  have hr := hstart.trans (hu.trans ht)
  have hsignals : t.signals = [(.test1, 0)] := htsignals.trans husignals
  refine ⟨t, hr, htpc, hsignals, ((kept_iff_clean hr).2 htpc).mpr ⟨?_, ?_⟩⟩
  · rw [hsignals]
    decide
  · rw [hsignals]
    intro x hx hstray
    obtain rfl := List.mem_singleton.mp hx
    cases hstray

/-- A signal between the loops is written behind the array. -/
theorem behind_the_array : ¬ ∀ t, print5000.Reachable init t →
    t.wild = false ∧ (t.pc = .finished → Kept t) := by
  intro h
  have hstart : print5000.Reachable init { init with pc := .test1 } := ⟨[.main], rfl⟩
  obtain ⟨u, hu, hupc, hui, -⟩ :=
    printing_runs (s := { init with pc := .test1 }) rfl (Nat.zero_le _)
  have hsigint : print5000.next u .sigint = some (sigintHandler u) := by
    simp only [print5000, next, hupc, reduceCtorEq, if_false]
  have hwild := (h _ (hstart.trans (hu.trans (.single hsigint)))).1
  simp [sigintHandler, hui] at hwild

end Cse522.Studio12.Print5000

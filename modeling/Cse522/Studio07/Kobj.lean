import Cse522.Clib.Kstrtox
import Cse522.Clib.Stdio
import Cse522.Interleave.Machine

/-!
# The attributes of the sample kobject

Three integers are read and written through files. `b_store` looks at the result of
`kstrtoint` first; `foo_store` assigns its local variable, which `kstrtoint` has left alone
on an error, before it looks. What stands in that variable is the label of the step.
-/
namespace Cse522.Studio07.Kobj

open Cse522.Clib.Kstrtox Cse522.Clib.Stdio Cse522.Interleave

/-- The three attributes of `attr_group`. -/
inductive Attr where
  | foo
  | baz
  | bar
  deriving DecidableEq, Repr

/-- `attr->attr.name` -/
def Attr.name : Attr → String
  | .foo => "foo"
  | .baz => "baz"
  | .bar => "bar"

/-- The static variables. -/
structure Vars where
  foo : Int32
  baz : Int32
  bar : Int32
  deriving DecidableEq

def Vars.get (v : Vars) : Attr → Int32
  | .foo => v.foo
  | .baz => v.baz
  | .bar => v.bar

/-- The variables, the log, what the last call returned and the page it filled. -/
structure State where
  vars : Vars
  printk : List (List Char)
  ret : Int
  page : List Char
  /-- the value of the last store that succeeded; the module keeps no such record -/
  stored : Attr → Int32

/-- `sprintf(buf, "%d\n", var)` -/
def page (var : Int32) : List Char := decimal var.toInt ++ ['\n']

/-- `func` and what it says about the values. -/
def entry (func : String) (values : List (String × Int32)) : List Char :=
  func.toList ++ (values.flatMap fun v => v.1.toList ++ decimal v.2.toInt ++ "]".toList) ++ ['\n']

def fooShow (s : State) : State :=
  { s with
    printk := s.printk ++ [entry "foo_show" [("() : foo=[", s.vars.foo)]]
    page := page s.vars.foo
    ret := (page s.vars.foo).length }

def bShow (name : String) (s : State) : State :=
  let var := if name = "baz" then s.vars.baz else s.vars.bar
  { s with
    printk := s.printk ++ [entry "b_show" [("(): baz=[", var)]]
    page := page var
    ret := (page var).length }

/-- `s32val` is what the local variable holds at the start. -/
def fooStore (kstrtoint : List Char → Except Int Int32) (buf : List Char) (count : Int)
    (s32val : Int32) (s : State) : State :=
  let r := ret (kstrtoint buf)
  let s32val := res s32val (kstrtoint buf)
  { s with
    printk := s.printk ++
      [entry "foo_store" [("() Old foo=[", s.vars.foo), (", New foo=[", s32val)]]
    vars := { s.vars with foo := s32val }
    ret := if r < 0 then r else count }

def bStore (kstrtoint : List Char → Except Int Int32) (name : String) (buf : List Char)
    (count : Int) (var : Int32) (s : State) : State :=
  let r := ret (kstrtoint buf)
  let var := res var (kstrtoint buf)
  if r < 0 then { s with ret := r }
  else if name = "baz" then
    { s with
      printk := s.printk ++
        [entry "b_store" [("(): Old baz=[", s.vars.baz), (", New baz=[", var)]]
      vars := { s.vars with baz := var }
      ret := count }
  else
    { s with
      printk := s.printk ++
        [entry "b_store" [("(): Old bar=[", s.vars.bar), (", New bar=[", var)]]
      vars := { s.vars with bar := var }
      ret := count }

/-- The variables of a module just loaded. -/
def init : State := ⟨⟨0, 0, 0⟩, [], 0, [], fun _ => 0⟩

inductive Act where
  /-- the file of an attribute is read -/
  | show (attr : Attr)
  /-- `buf` is written to the file of an attribute; `var` is in the local variable -/
  | store (attr : Attr) (buf : List Char) (var : Int32)
  deriving DecidableEq

/-- The record of the last success. -/
def record (kstrtoint : List Char → Except Int Int32) (attr : Attr) (buf : List Char)
    (stored : Attr → Int32) : Attr → Int32 :=
  match kstrtoint buf with
  | .ok v => Function.update stored attr v
  | .error _ => stored

def next (kstrtoint : List Char → Except Int Int32) (s : State) : Act → Option State
  | .show .foo => some (fooShow s)
  | .show attr => some (bShow attr.name s)
  | .store attr buf var =>
      let s := { s with stored := record kstrtoint attr buf s.stored }
      match attr with
      | .foo => some (fooStore kstrtoint buf buf.length var s)
      | attr => some (bStore kstrtoint attr.name buf buf.length var s)

/-- The module with the kernel's `kstrtoint`. -/
def kobj (kstrtoint : List Char → Except Int Int32) : Machine State Act := ⟨next kstrtoint⟩

/-! ## An atomic store -/

variable {kstrtoint : List Char → Except Int Int32} {s t : State} {a : Act}

/-- A show gives the last value stored with success. A store that is rejected returns the
error, which is negative, and changes nothing; another one changes its attribute only. -/
def Atomic (kstrtoint : List Char → Except Int Int32) (s : State) : Act → State → Prop
  | .show attr, t => t.page = decimal (s.stored attr).toInt ++ ['\n'] ∧ t.vars = s.vars
  | .store attr buf _, t =>
      match kstrtoint buf with
      | .error e => t.ret = e ∧ e < 0 ∧ t.vars = s.vars
      | .ok v => t.ret = buf.length ∧ t.vars.get attr = v ∧
          ∀ other ≠ attr, t.vars.get other = s.vars.get other

/-- A string rejected by `foo_store` finds the value of `foo` in the local variable. -/
def LocalAgrees (kstrtoint : List Char → Except Int Int32) (s : State) : Act → State → Prop
  | .store .foo buf var, _ => ∀ e, kstrtoint buf = .error e → var = s.vars.foo
  | _, _ => True

/-- The variables are what was stored. -/
def Recorded (s : State) : Prop := ∀ attr, s.vars.get attr = s.stored attr

/-! ## What each call does -/

variable {attr : Attr} {buf : List Char} {var v : Int32} {e : Int}

theorem show_spec (hn : (kobj kstrtoint).next s (.show attr) = some t) :
    t.page = page (s.vars.get attr) ∧ t.vars = s.vars ∧ t.stored = s.stored := by
  cases attr <;> cases hn <;> exact ⟨rfl, rfl, rfl⟩

theorem store_ok (hv : kstrtoint buf = .ok v)
    (hn : (kobj kstrtoint).next s (.store attr buf var) = some t) :
    t.ret = buf.length ∧ t.vars.get attr = v ∧
      (∀ other ≠ attr, t.vars.get other = s.vars.get other) ∧
      t.stored = Function.update s.stored attr v := by
  cases attr <;> simp only [kobj, next, Option.some.injEq] at hn <;> subst hn
  · -- `foo_store`
    refine ⟨by simp [fooStore, hv], by simp [fooStore, hv, Vars.get], ?_, ?_⟩
    · intro other ho
      cases other <;> first | exact absurd rfl ho | rfl
    · simp only [fooStore, record, hv]
  all_goals
    refine ⟨by simp [bStore, hv, Attr.name], by simp [bStore, hv, Attr.name, Vars.get], ?_, ?_⟩
    · intro other ho
      cases other <;> first | exact absurd rfl ho | simp [bStore, hv, Attr.name, Vars.get]
    · simp [bStore, record, hv, Attr.name]

/-- `b_store` leaves everything as it was. -/
theorem bStore_error (he : kstrtoint buf = .error e) (hneg : e < 0) (hb : attr ≠ .foo)
    (hn : (kobj kstrtoint).next s (.store attr buf var) = some t) :
    t.ret = e ∧ t.vars = s.vars ∧ t.stored = s.stored := by
  cases attr <;> simp only [kobj, next, Option.some.injEq] at hn <;> subst hn
  · exact absurd rfl hb
  all_goals
    simp [bStore, record, he, hneg]

/-- `foo_store` returns the error, with the local variable assigned. -/
theorem fooStore_error (he : kstrtoint buf = .error e) (hneg : e < 0)
    (hn : (kobj kstrtoint).next s (.store .foo buf var) = some t) :
    t.ret = e ∧ t.vars = { s.vars with foo := var } ∧ t.stored = s.stored := by
  simp only [kobj, next, Option.some.injEq] at hn
  subst hn
  simp [fooStore, record, he, hneg]

/-! ## Along a run -/

theorem atomic_iff_localAgrees (hneg : ∀ {buf e}, kstrtoint buf = .error e → e < 0)
    (hrec : Recorded s) (hn : (kobj kstrtoint).next s a = some t) :
    Atomic kstrtoint s a t ↔ LocalAgrees kstrtoint s a t := by
  cases a with
  | «show» attr =>
      obtain ⟨hpage, hvars, -⟩ := show_spec hn
      rw [hrec attr] at hpage
      exact ⟨fun _ => trivial, fun _ => ⟨hpage, hvars⟩⟩
  | store attr buf var =>
      simp only [Atomic]
      cases hk : kstrtoint buf with
      | ok v =>
          obtain ⟨hret, hval, hother, -⟩ := store_ok hk hn
          refine ⟨fun _ => ?_, fun _ => ⟨hret, hval, hother⟩⟩
          cases attr <;> simp [LocalAgrees, hk]
      | error e =>
          by_cases hb : attr = .foo
          · subst hb
            obtain ⟨hret, hvars, -⟩ := fooStore_error hk (hneg hk) hn
            constructor
            · intro h e' he'
              have hfoo := congrArg Vars.foo (hvars.symm.trans h.2.2)
              exact hfoo
            · intro h
              refine ⟨hret, hneg hk, ?_⟩
              rw [hvars, h e hk]
          · obtain ⟨hret, hvars, -⟩ := bStore_error hk (hneg hk) hb hn
            refine ⟨fun _ => ?_, fun _ => ⟨hret, hneg hk, hvars⟩⟩
            cases attr
            · exact absurd rfl hb
            all_goals trivial

theorem recorded_step (hneg : ∀ {buf e}, kstrtoint buf = .error e → e < 0) (hrec : Recorded s)
    (hn : (kobj kstrtoint).next s a = some t) (hc : LocalAgrees kstrtoint s a t) :
    Recorded t := by
  have hat := (atomic_iff_localAgrees hneg hrec hn).mpr hc
  cases a with
  | «show» attr =>
      obtain ⟨-, hvars, hst⟩ := show_spec hn
      intro other
      rw [hvars, hst]
      exact hrec other
  | store attr buf var =>
      simp only [Atomic] at hat
      cases hk : kstrtoint buf with
      | ok v =>
          obtain ⟨-, hval, hother, hst⟩ := store_ok hk hn
          intro other
          rw [hst]
          by_cases ho : other = attr
          · subst ho
            rw [Function.update_self, hval]
          · rw [Function.update_of_ne ho, hother other ho, hrec other]
      | error e =>
          rw [hk] at hat
          have hst : t.stored = s.stored := by
            by_cases hb : attr = .foo
            · subst hb
              exact (fooStore_error hk (hneg hk) hn).2.2
            · exact (bStore_error hk (hneg hk) hb hn).2.2
          intro other
          rw [hat.2.2, hst]
          exact hrec other

/-- The attributes are an atomic store along a run if and only if every store to `foo` of a
string that does not parse happens to find the value of `foo` in the local variable. -/
theorem atomic_along_iff_localAgrees (kstrtoint : List Char → Except Int Int32)
    (hneg : ∀ buf e, kstrtoint buf = .error e → e < 0) (as : List Act) :
    (kobj kstrtoint).Along (Atomic kstrtoint) init as ↔
      (kobj kstrtoint).Along (LocalAgrees kstrtoint) init as := by
  have hrec : Recorded init := fun attr => by cases attr <;> rfl
  exact Machine.along_congr (atomic_iff_localAgrees (hneg _ _)) (recorded_step (hneg _ _)) hrec

/-- With the conversion of the kernel, a string is stored, one is rejected, and `baz` is read. -/
theorem atomic_along_kernel :
    (kobj Clib.Kstrtox.kstrtoint).Along (Atomic Clib.Kstrtox.kstrtoint) init
        [.store .baz ['4', '2', '\n'] 0, .store .foo ['x'] 0, .show .baz] ↔
      (kobj Clib.Kstrtox.kstrtoint).Along (LocalAgrees Clib.Kstrtox.kstrtoint) init
        [.store .baz ['4', '2', '\n'] 0, .store .foo ['x'] 0, .show .baz] :=
  atomic_along_iff_localAgrees _ (fun _ _ => error_neg_of_kstrtoint) _

/-- `x` is written to `foo` while 5 stands in the local variable. -/
theorem kobj_foo_corrupted :
    ¬ ∀ as : List Act,
      (kobj Clib.Kstrtox.kstrtoint).Along (Atomic Clib.Kstrtox.kstrtoint) init as := by
  intro h
  obtain ⟨-, -, hvars⟩ := (h [.store .foo ['x'] 5] _ rfl).1
  exact absurd hvars (by decide)

end Cse522.Studio07.Kobj

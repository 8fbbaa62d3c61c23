import Mathlib.Algebra.GroupWithZero.Nat
import Cse522.Interleave.Machine
import Cse522.Interleave.Threads
import Cse522.Studio03.DenseMm

/-!
# The repeated matrix multiplication

The loop that `parallel_dense_mm2.c` shares among its threads is the one over the repeats.
Every repeat adds the whole product to the same `C`, which nobody clears in between, and the
additions of different repeats to a cell may overtake each other. So `C` is the product only
with a single repeat, or where the products to be added are zero.
-/
namespace Cse522.Studio03.DenseMm

open Cse522.Interleave Cse522.Clib.Loops Cse522.Clib.Word

namespace Repeated

/-- The counters in one pass of the innermost loop. -/
structure Pass where
  col : UInt32
  row : UInt32
  index : UInt32
  deriving DecidableEq, Repr

/-- The passes of the three loops, in order. A repeat makes them with counters of its own. -/
def nest (matrix_size : UInt32) : List Pass :=
  (List.range matrix_size.toNat).flatMap fun col =>
    (List.range matrix_size.toNat).flatMap fun row =>
      (List.range matrix_size.toNat).map fun index =>
        ⟨UInt32.ofNat col, UInt32.ofNat row, UInt32.ofNat index⟩

/-- The cells of the three arrays lie below `squared_size`. -/
def Pass.InBounds (N : UInt32) (p : Pass) : Prop :=
  flat N p.row p.col < N * N ∧ flat N p.row p.index < N * N ∧ flat N p.index p.col < N * N

instance (N : UInt32) (p : Pass) : Decidable (p.InBounds N) :=
  inferInstanceAs (Decidable (_ ∧ _ ∧ _))

/-- The step of `C[row*matrix_size + col] += ...` executed next. -/
inductive Pc where
  | load
  | mulAdd
  | store
  deriving DecidableEq, Repr

/-- An iteration over `s32i`: the passes that are left, and the value that is added to. -/
structure Iteration (V : Type*) where
  todo : List Pass
  sum : V
  pc : Pc

structure State (τ V : Type*) where
  C : UInt32 → V
  /-- the iterations that have been handed out -/
  taken : Nat → Bool
  threads : τ → Option (Iteration V)
  /-- an array has been accessed outside of its bounds -/
  faulted : Bool

inductive Act (τ : Type*) where
  /-- thread `t`, which is idle, is given the iteration `s32i` -/
  | take (t : τ) (s32i : Nat)
  | step (t : τ)

variable {τ V : Type*} [DecidableEq τ] [Zero V] [Add V] [Mul V]

def init (C : UInt32 → V) : State τ V := ⟨C, fun _ => false, fun _ => none, false⟩

def State.move (s : State τ V) (t : τ) (it : Option (Iteration V)) : State τ V :=
  { s with threads := Function.update s.threads t it }

/-- `A[row*matrix_size + index] * B[index*matrix_size + col]` -/
def Pass.product (A B : UInt32 → V) (N : UInt32) (p : Pass) : V :=
  A (flat N p.row p.index) * B (flat N p.index p.col)

/-- One step of the iteration `it` of thread `t`. -/
def iterate (A B : UInt32 → V) (N : UInt32) (s : State τ V) (t : τ) (it : Iteration V) :
    State τ V :=
  match it.todo with
  | [] => s.move t none
  | p :: todo =>
      match it.pc with
      | .load =>
          if p.InBounds N then
            s.move t (some { it with sum := s.C (flat N p.row p.col), pc := .mulAdd })
          else { s with faulted := true }
      | .mulAdd => s.move t (some { it with sum := it.sum + p.product A B N, pc := .store })
      | .store =>
          { s with C := Function.update s.C (flat N p.row p.col) it.sum }.move t
            (some { it with todo, pc := .load })

def next (A B : UInt32 → V) (N : UInt32) (s32cnt : Nat) (s : State τ V) (a : Act τ) :
    Option (State τ V) :=
  if s.faulted then none
  else
    match a with
    | .take t s32i =>
        if s.threads t = none ∧ s32i < s32cnt ∧ s.taken s32i = false then
          some ({ s with taken := Function.update s.taken s32i true }.move t
            (some ⟨nest N, 0, .load⟩))
        else none
    | .step t => (s.threads t).map (iterate A B N s t)

/-- The timed loop of `parallel_dense_mm2.c`, run by the threads `τ`. -/
def repeatedMm (A B : UInt32 → V) (N : UInt32) (s32cnt : Nat) :
    Machine (State τ V) (Act τ) := ⟨next A B N s32cnt⟩

variable {A B : UInt32 → V} {N : UInt32} {s32cnt : Nat} {s q : State τ V} {a : Act τ} {t : τ}

theorem take_cases {s32i : Nat} (hn : (repeatedMm A B N s32cnt).next s (.take t s32i) = some q) :
    s.faulted = false ∧ s.threads t = none ∧ s32i < s32cnt ∧ s.taken s32i = false ∧
      q = { s with taken := Function.update s.taken s32i true }.move t
        (some ⟨nest N, 0, .load⟩) := by
  obtain ⟨hf, hn⟩ := Option.ite_none_left_eq_some.mp hn
  obtain ⟨⟨hidle, hlt, hfree⟩, hq⟩ := Option.ite_none_right_eq_some.mp hn
  exact ⟨by simpa using hf, hidle, hlt, hfree, (Option.some.inj hq).symm⟩

theorem step_cases (hn : (repeatedMm A B N s32cnt).next s (.step t) = some q) :
    s.faulted = false ∧ ∃ it, s.threads t = some it ∧ q = iterate A B N s t it := by
  obtain ⟨hf, hn⟩ := Option.ite_none_left_eq_some.mp hn
  obtain ⟨it, hit, hq⟩ := Option.map_eq_some_iff.mp hn
  exact ⟨by simpa using hf, it, hit, hq.symm⟩

/-! ## The passes -/

/-- `C` behind the pass `p`. -/
def Pass.add (A B : UInt32 → V) (N : UInt32) (C : UInt32 → V) (p : Pass) : UInt32 → V :=
  accumulate A B N p.row p.col p.index C

/-- `C` behind some passes in a row. -/
def addAll (A B : UInt32 → V) (N : UInt32) (C : UInt32 → V) (l : List Pass) : UInt32 → V :=
  l.foldl (Pass.add A B N) C

omit [Zero V] in
/-- The serial check makes the passes one behind the other. -/
theorem serialMm_eq_addAll (C : UInt32 → V) : serialMm A B N C = addAll A B N C (nest N) := by
  simp only [serialMm, forUnsigned, addAll, nest, List.foldl_flatMap, List.foldl_map]
  rfl

theorem mem_nest {p : Pass} : p ∈ nest N ↔ p.col < N ∧ p.row < N ∧ p.index < N := by
  obtain ⟨col, row, index⟩ := p
  have hlt : ∀ x : UInt32, x < N ↔ ∃ i < N.toNat, UInt32.ofNat i = x := by
    intro x
    constructor
    · intro h
      exact ⟨x.toNat, lt_iff_toNat.mp h, UInt32.ofNat_toNat⟩
    · intro hsome
      obtain ⟨i, hi, rfl⟩ := hsome
      exact ofNat_lt hi
  simp only [nest, List.mem_flatMap, List.mem_map, List.mem_range, Pass.mk.injEq, hlt]
  constructor
  · intro hsome
    obtain ⟨i, hi, j, hj, k, hk, rfl, rfl, rfl⟩ := hsome
    exact ⟨⟨i, hi, rfl⟩, ⟨j, hj, rfl⟩, ⟨k, hk, rfl⟩⟩
  · intro hsome
    obtain ⟨⟨i, hi, rfl⟩, ⟨j, hj, rfl⟩, ⟨k, hk, rfl⟩⟩ := hsome
    exact ⟨i, hi, j, hj, k, hk, rfl, rfl, rfl⟩

theorem inBounds_of_mem_nest (hN : N < 65536) {p : Pass} (hp : p ∈ nest N) : p.InBounds N := by
  obtain ⟨hcol, hrow, hindex⟩ := mem_nest.mp hp
  exact ⟨flat_lt hN hrow hcol, flat_lt hN hrow hindex, flat_lt hN hindex hcol⟩

/-- An active thread has some passes of the nest in front of it. -/
def Within (N : UInt32) (it : Iteration V) : Prop := ∀ p ∈ it.todo, p ∈ nest N

/-! ## Every run ends -/

/-- The steps left in an iteration. -/
def left (it : Iteration V) : Nat :=
  match it.pc with
  | .load => 3 * it.todo.length + 3
  | .mulAdd => 3 * it.todo.length + 2
  | .store => 3 * it.todo.length + 1

/-- The steps of a whole iteration, the one that takes it included. -/
def perRepeat (N : UInt32) : Nat := 3 * (nest N).length + 4

/-- The steps left in all. -/
def work [Fintype τ] (N : UInt32) (s32cnt : Nat) (s : State τ V) : Nat :=
  if s.faulted then 0
  else 1 + ∑ i ∈ Finset.range s32cnt, (if s.taken i then 0 else perRepeat N) +
    ∑ t, (s.threads t).elim 0 left

omit [Zero V] in
/-- What a step of an iteration makes of its thread. -/
theorem iterate_cases (s : State τ V) (t : τ) (it : Iteration V) :
    (iterate A B N s t it).faulted = true ∨
    ∃ x C, x.elim 0 left < left it ∧ iterate A B N s t it = { s with C }.move t x := by
  unfold iterate
  split
  case h_1 hnil =>
      refine .inr ⟨none, s.C, ?_, rfl⟩
      cases hpc : it.pc <;> simp [left, hpc]
  case h_2 p todo htodo =>
      cases hpc : it.pc <;> simp only
      case load =>
          by_cases hin : p.InBounds N
          · rw [if_pos hin]
            refine .inr ⟨_, s.C, ?_, rfl⟩
            simp [left, hpc]
          · rw [if_neg hin]
            exact .inl rfl
      case mulAdd =>
          refine .inr ⟨_, s.C, ?_, rfl⟩
          simp [left, hpc]
      case store =>
          refine .inr ⟨_, _, ?_, rfl⟩
          simp only [Option.elim_some, left, hpc, htodo, List.length_cons]
          omega

/-- An iteration taken leaves the sum. -/
theorem sum_take (taken : Nat → Bool) {s32i : Nat} (hlt : s32i < s32cnt)
    (hfree : taken s32i = false) (k : Nat) :
    ∑ i ∈ Finset.range s32cnt, (if Function.update taken s32i true i then 0 else k) + k =
      ∑ i ∈ Finset.range s32cnt, if taken i then 0 else k := by
  have hmem : s32i ∈ Finset.range s32cnt := Finset.mem_range.mpr hlt
  have hrest : ∑ i ∈ (Finset.range s32cnt).erase s32i,
        (if Function.update taken s32i true i then 0 else k) =
      ∑ i ∈ (Finset.range s32cnt).erase s32i, if taken i then 0 else k := by
    refine Finset.sum_congr rfl fun i hi => ?_
    rw [Function.update_of_ne (Finset.ne_of_mem_erase hi)]
  rw [← Finset.add_sum_erase _ _ hmem, ← Finset.add_sum_erase (a := s32i) _
    (fun i => if taken i then 0 else k) hmem, hrest]
  simp only [Function.update_self, if_true, hfree, Bool.false_eq_true, if_false]
  omega

theorem work_step [Fintype τ] (hn : (repeatedMm A B N s32cnt).next s a = some q) :
    work N s32cnt q < work N s32cnt s := by
  cases a with
  | take t s32i =>
      obtain ⟨hf, hidle, hlt, hfree, rfl⟩ := take_cases hn
      have hsum := sum_update (fun x : Option (Iteration V) => x.elim 0 left) s.threads t
        (some ⟨nest N, 0, .load⟩)
      have htake := sum_take s.taken hlt hfree (perRepeat N)
      have hleft : left (⟨nest N, 0, .load⟩ : Iteration V) + 1 = perRepeat N := rfl
      simp only [hidle, Option.elim_none, Option.elim_some] at hsum
      simp only [work, State.move, hf, Bool.false_eq_true, if_false]
      omega
  | step t =>
      obtain ⟨hf, it, hit, rfl⟩ := step_cases hn
      rcases iterate_cases (A := A) (B := B) (N := N) s t it with hbad | ⟨x, C, hx, hq⟩
      · simp only [work, hbad, hf, if_true, Bool.false_eq_true, if_false]
        omega
      · have hsum := sum_update (fun x : Option (Iteration V) => x.elim 0 left) s.threads t x
        simp only [hit, Option.elim_some] at hsum
        rw [hq]
        simp only [work, State.move, hf, Bool.false_eq_true, if_false]
        omega

/-! ## Products that are zero -/

/-- Adding the product of a pass to zero changes nothing. -/
def Pass.Vanishes (A B : UInt32 → V) (N : UInt32) (p : Pass) : Prop := 0 + p.product A B N = 0

/-- `C` is zero, and whatever is about to be stored is zero. -/
structure Blank (N : UInt32) (s : State τ V) : Prop where
  faulted : s.faulted = false
  zero : ∀ index < N * N, s.C index = 0
  within : ∀ t it, s.threads t = some it → Within N it
  sum : ∀ t it, s.threads t = some it → it.pc ≠ .load → it.sum = 0

omit [DecidableEq τ] [Add V] [Mul V] in
theorem blank_init (C : UInt32 → V) : Blank N (init (zeroed N C) : State τ V) where
  faulted := rfl
  zero := fun _ hi => zeroed_apply hi C
  within := fun t it hit => by simp [init] at hit
  sum := fun t it hit => by simp [init] at hit

omit [Add V] [Mul V] in
theorem Blank.move {C : UInt32 → V} {x : Option (Iteration V)} (h : Blank N s)
    (hC : ∀ index < N * N, C index = 0)
    (hx : ∀ it ∈ x, Within N it ∧ (it.pc ≠ .load → it.sum = 0)) :
    Blank N ({ s with C }.move t x) := by
  refine ⟨h.faulted, hC, fun u it hit => ?_, fun u it hit => ?_⟩
  · rcases update_eq_some.mp hit with ⟨-, hit⟩ | ⟨-, hit⟩
    · exact (hx it hit).1
    · exact h.within u it hit
  · rcases update_eq_some.mp hit with ⟨-, hit⟩ | ⟨-, hit⟩
    · exact (hx it hit).2
    · exact h.sum u it hit

theorem blank_iterate (hN : N < 65536) (hv : ∀ p ∈ nest N, p.Vanishes A B N) (h : Blank N s)
    {it : Iteration V} (hit : s.threads t = some it) : Blank N (iterate A B N s t it) := by
  have hwithin := h.within t it hit
  unfold iterate
  split
  case h_1 => exact h.move h.zero (by simp)
  case h_2 p todo htodo =>
      have hp : p ∈ nest N := hwithin p (by simp [htodo])
      have hrest : ∀ r ∈ todo, r ∈ nest N := fun r hr => hwithin r (by simp [htodo, hr])
      have hin := inBounds_of_mem_nest hN hp
      cases hpc : it.pc <;> simp only
      case load =>
          rw [if_pos hin]
          apply h.move h.zero
          intro it' hit'
          obtain rfl := Option.mem_some_iff.mp hit'
          exact ⟨hwithin, fun _ => h.zero _ hin.1⟩
      case mulAdd =>
          apply h.move h.zero
          intro it' hit'
          obtain rfl := Option.mem_some_iff.mp hit'
          refine ⟨hwithin, fun _ => ?_⟩
          show it.sum + p.product A B N = 0
          rw [h.sum t it hit (by simp [hpc])]
          exact hv p hp
      case store =>
          have hsum := h.sum t it hit (by simp [hpc])
          refine h.move (fun index hi => ?_) fun it' hit' => ?_
          · by_cases hk : index = flat N p.row p.col
            · rw [hk, Function.update_self, hsum]
            · rw [Function.update_of_ne hk]
              exact h.zero index hi
          · obtain rfl := Option.mem_some_iff.mp hit'
            exact ⟨hrest, fun hne => absurd rfl hne⟩

theorem blank_step (hN : N < 65536) (hv : ∀ p ∈ nest N, p.Vanishes A B N) (h : Blank N s)
    (hn : (repeatedMm A B N s32cnt).next s a = some q) : Blank N q := by
  cases a with
  | take t s32i =>
      obtain ⟨-, -, -, -, rfl⟩ := take_cases hn
      have hmove : Blank N ({ s with C := s.C }.move t (some ⟨nest N, 0, .load⟩)) := by
        apply h.move h.zero
        intro it hit
        obtain rfl := Option.mem_some_iff.mp hit
        exact ⟨fun _ hp => hp, fun hne => absurd rfl hne⟩
      exact ⟨hmove.faulted, hmove.zero, hmove.within, hmove.sum⟩
  | step t =>
      obtain ⟨-, it, hit, rfl⟩ := step_cases hn
      exact blank_iterate hN hv h hit

omit [DecidableEq τ] in
theorem dot_eq_zero {r c : UInt32} (hr : r < N) (hc : c < N)
    (hv : ∀ p ∈ nest N, p.Vanishes A B N) {k : Nat} (hk : k ≤ N.toNat) : dot A B N r c k = 0 := by
  induction k with
  | zero => rfl
  | succ k ih =>
      have hp : (⟨c, r, UInt32.ofNat k⟩ : Pass) ∈ nest N := mem_nest.mpr ⟨hc, hr, ofNat_lt hk⟩
      have h0 : 0 + Pass.product A B N ⟨c, r, UInt32.ofNat k⟩ = 0 := hv _ hp
      rw [dot_succ, ih (by omega)]
      exact h0

/-! ## A single repeat -/

/-- What an iteration has in its register in front of the pass `p`. -/
def Holds (A B : UInt32 → V) (N : UInt32) (C : UInt32 → V) (it : Iteration V) (p : Pass) : Prop :=
  match it.pc with
  | .load => True
  | .mulAdd => it.sum = C (flat N p.row p.col)
  | .store => it.sum = C (flat N p.row p.col) + p.product A B N

/-- An iteration that works on `Z` alone. -/
def Working (A B : UInt32 → V) (N : UInt32) (Z C : UInt32 → V) (it : Iteration V) : Prop :=
  (∃ done, nest N = done ++ it.todo ∧ C = addAll A B N Z done) ∧
    ∀ p ∈ it.todo.head?, Holds A B N C it p

/-- The only iteration has not been handed out, is the only one worked on, or is through. -/
structure Alone (A B : UInt32 → V) (N : UInt32) (Z : UInt32 → V) (s : State τ V) : Prop where
  faulted : s.faulted = false
  untaken : s.taken 0 = false → s.C = Z ∧ ∀ t, s.threads t = none
  working : ∀ t it, s.threads t = some it → Working A B N Z s.C it
  only : ∀ t u, (s.threads t).isSome → (s.threads u).isSome → t = u
  through : s.taken 0 = true → (∀ t, s.threads t = none) → s.C = addAll A B N Z (nest N)

variable {Z : UInt32 → V}

omit [DecidableEq τ] [Zero V] in
theorem alone_init (Z : UInt32 → V) : Alone A B N Z (init Z : State τ V) where
  faulted := rfl
  untaken := fun _ => ⟨rfl, fun _ => rfl⟩
  working := fun t it hit => by simp [init] at hit
  only := fun t u ht => by simp [init] at ht
  through := fun h => by simp [init] at h

omit [Zero V] in
theorem addAll_append (Z : UInt32 → V) (done : List Pass) (p : Pass) :
    addAll A B N Z (done ++ [p]) = Pass.add A B N (addAll A B N Z done) p := by
  simp [addAll]

/-- What a step of the only iteration leaves of it. -/
inductive Iterated (A B : UInt32 → V) (N : UInt32) (Z : UInt32 → V) (s : State τ V) (t : τ) :
    State τ V → Prop
  | goes (C : UInt32 → V) (it : Iteration V) (hw : Working A B N Z C it) :
      Iterated A B N Z s t ({ s with C }.move t (some it))
  | ends (hC : s.C = addAll A B N Z (nest N)) : Iterated A B N Z s t (s.move t none)

omit [Zero V] in
theorem iterated (hN : N < 65536) {it : Iteration V} (hw : Working A B N Z s.C it) :
    Iterated A B N Z s t (iterate A B N s t it) := by
  obtain ⟨⟨done, hdone, hC⟩, hregister⟩ := hw
  unfold iterate
  split
  case h_1 hnil =>
      rw [hnil, List.append_nil] at hdone
      rw [← hdone] at hC
      exact .ends hC
  case h_2 p todo htodo =>
      have hp : p ∈ nest N := by simp [hdone, htodo]
      have hsum : Holds A B N s.C it p := hregister p (by simp [htodo])
      cases hpc : it.pc <;> simp only [Holds, hpc] at hsum ⊢
      case load =>
          rw [if_pos (inBounds_of_mem_nest hN hp)]
          refine .goes s.C _ ⟨⟨done, hdone, hC⟩, fun r hr => ?_⟩
          obtain rfl : p = r := by simpa [htodo] using hr
          rfl
      case mulAdd =>
          refine .goes s.C _ ⟨⟨done, hdone, hC⟩, fun r hr => ?_⟩
          obtain rfl : p = r := by simpa [htodo] using hr
          show it.sum + p.product A B N = _
          rw [hsum]
      case store =>
          refine .goes _ _ ⟨⟨done ++ [p], ?_, ?_⟩, fun r hr => trivial⟩
          · rw [hdone, htodo, List.append_cons]
          · rw [addAll_append, ← hC, hsum]
            rfl

theorem alone_take {t : τ} (h : Alone A B N Z s) (hfree : s.taken 0 = false) :
    Alone A B N Z ({ s with taken := Function.update s.taken 0 true }.move t
      (some ⟨nest N, 0, .load⟩)) := by
  obtain ⟨hC, hidle⟩ := h.untaken hfree
  have hself : ∀ u, (Function.update s.threads t (some ⟨nest N, 0, .load⟩) u).isSome → u = t := by
    intro u hu
    by_contra hne
    simp [Function.update_of_ne hne, hidle u] at hu
  refine ⟨h.faulted, fun hno => by simp [State.move] at hno, fun u it hit => ?_,
    fun u w hu hw => ?_, fun _ hall => ?_⟩
  · rcases update_eq_some.mp hit with ⟨-, hit⟩ | ⟨-, hit⟩
    · obtain rfl := Option.some.inj hit
      exact ⟨⟨[], rfl, hC⟩, fun _ _ => trivial⟩
    · rw [hidle u] at hit
      cases hit
  · rw [hself u hu, hself w hw]
  · have ht := hall t
    simp [State.move] at ht

omit [Zero V] in
theorem alone_iterated {it : Iteration V} (h : Alone A B N Z s) (hit : s.threads t = some it)
    (hq : Iterated A B N Z s t q) : Alone A B N Z q := by
  have htaken : s.taken 0 = true := by
    by_contra hno
    have hidle := (h.untaken (by simpa using hno)).2 t
    rw [hit] at hidle
    cases hidle
  -- the others are idle
  have hother : ∀ u, u ≠ t → s.threads u = none := by
    intro u hu
    by_contra hsome
    exact hu (h.only u t (Option.isSome_iff_ne_none.mpr hsome) (by simp [hit]))
  have hself : ∀ x u, (Function.update s.threads t x u).isSome → u = t := by
    intro x u hu
    by_contra hne
    simp [Function.update_of_ne hne, hother u hne] at hu
  cases hq with
  | goes C it' hw =>
      refine ⟨h.faulted, fun hno => by simp [State.move, htaken] at hno, fun u ju hju => ?_,
        fun u w hu hw => ?_, fun _ hall => ?_⟩
      · rcases update_eq_some.mp hju with ⟨-, hju⟩ | ⟨hu, hju⟩
        · obtain rfl := Option.some.inj hju
          exact hw
        · rw [hother u hu] at hju
          cases hju
      · rw [hself _ u hu, hself _ w hw]
      · have ht := hall t
        simp [State.move] at ht
  | ends hC =>
      refine ⟨h.faulted, fun hno => by simp [State.move, htaken] at hno, fun u ju hju => ?_,
        fun u w hu hw => ?_, fun _ _ => hC⟩
      · rcases update_eq_some.mp hju with ⟨-, hju⟩ | ⟨hu, hju⟩
        · cases hju
        · rw [hother u hu] at hju
          cases hju
      · rw [hself _ u hu, hself _ w hw]

theorem alone_step (hN : N < 65536) (h : Alone A B N Z s)
    (hn : (repeatedMm A B N 1).next s a = some q) : Alone A B N Z q := by
  cases a with
  | take t s32i =>
      obtain ⟨-, -, hlt, hfree, rfl⟩ := take_cases hn
      obtain rfl : s32i = 0 := by omega
      exact alone_take h hfree
  | step t =>
      obtain ⟨-, it, hit, rfl⟩ := step_cases hn
      exact alone_iterated h hit (iterated hN (h.working t it hit))

/-! ## The end of a run -/

/-- No thread can move, and no iteration can be handed out. -/
def Over (A B : UInt32 → V) (N : UInt32) (s32cnt : Nat) (s : State τ V) : Prop :=
  ∀ a, (repeatedMm A B N s32cnt).next s a = none

theorem Over.idle (h : Over A B N s32cnt s) (hf : s.faulted = false) (t : τ) :
    s.threads t = none := by
  have hstep := h (.step t)
  simpa [repeatedMm, next, hf] using hstep

theorem Over.taken [Nonempty τ] (h : Over A B N s32cnt s) (hf : s.faulted = false) {i : Nat}
    (hi : i < s32cnt) : s.taken i = true := by
  obtain ⟨t⟩ := ‹Nonempty τ›
  have htake := h (.take t i)
  simpa [repeatedMm, next, hf, h.idle hf t, hi] using htake

theorem over_of_idle (hidle : ∀ t, s.threads t = none) (htaken : ∀ i < s32cnt, s.taken i = true) :
    Over A B N s32cnt s := by
  intro a
  cases a with
  | take t i =>
      by_cases hi : i < s32cnt
      · simp [repeatedMm, next, htaken i hi]
      · simp [repeatedMm, next, hi]
  | step t => simp [repeatedMm, next, hidle t]

end Repeated

end Cse522.Studio03.DenseMm

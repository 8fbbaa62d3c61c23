import Cse522.Studio03.RepeatedMm

/-!
# When the repeats leave the product

A second repeat that is worked on after the first adds each product once more. One that
overtakes the first at the last product that matters loses an addition. The two runs leave
different sums, so the check fails in one of them.
-/
namespace Cse522.Studio03.DenseMm

open Cse522.Interleave Cse522.Clib.Word

namespace Repeated

variable {τ V : Type*} [DecidableEq τ]

/-- Thread `t` is left with `x`, and the array with `C`. -/
def State.leave (s : State τ V) (t : τ) (C : UInt32 → V) (x : Option (Iteration V)) : State τ V :=
  { s with C }.move t x

section Leave

variable {s : State τ V} {t u : τ} {C C' : UInt32 → V} {x y : Option (Iteration V)}

@[simp] theorem leave_leave : (s.leave t C x).leave t C' y = s.leave t C' y := by
  simp [State.leave, State.move]

@[simp] theorem leave_faulted : (s.leave t C x).faulted = s.faulted := rfl

@[simp] theorem leave_self : (s.leave t C x).threads t = x := by
  simp [State.leave, State.move]

theorem leave_other (hu : u ≠ t) : (s.leave t C x).threads u = s.threads u := by
  simp [State.leave, State.move, hu]

theorem leave_eq_self (h : s.threads t = x) : s.leave t s.C x = s := by
  subst h
  simp [State.leave, State.move]

end Leave

variable [Zero V] [Add V] [Mul V] (A B : UInt32 → V) (N : UInt32) (s32cnt : Nat)
  {s q : State τ V} {t u : τ} {p : Pass} {todo l : List Pass} {v : V}

/-! ## A thread that runs on its own -/

theorem reachable_step (hf : s.faulted = false) {it : Iteration V} (hit : s.threads t = some it) :
    (repeatedMm A B N s32cnt).Reachable s (iterate A B N s t it) := by
  apply Machine.Reachable.single (a := .step t)
  simp [repeatedMm, next, hf, hit]

/-- The load and the addition. -/
theorem reachable_fetch (hf : s.faulted = false) (hin : p.InBounds N)
    (hit : s.threads t = some ⟨p :: todo, v, .load⟩) :
    (repeatedMm A B N s32cnt).Reachable s (s.leave t s.C
      (some ⟨p :: todo, s.C (flat N p.row p.col) + p.product A B N, .store⟩)) := by
  have hload : (repeatedMm A B N s32cnt).Reachable s
      (s.leave t s.C (some ⟨p :: todo, s.C (flat N p.row p.col), .mulAdd⟩)) := by
    have h := reachable_step A B N s32cnt hf hit
    simp only [iterate, if_pos hin] at h
    exact h
  have hadd := reachable_step A B N s32cnt
    (leave_faulted.trans hf) (leave_self (s := s) (t := t) (C := s.C)
      (x := some ⟨p :: todo, s.C (flat N p.row p.col), .mulAdd⟩))
  have heq : iterate A B N
      (s.leave t s.C (some ⟨p :: todo, s.C (flat N p.row p.col), .mulAdd⟩)) t
      ⟨p :: todo, s.C (flat N p.row p.col), .mulAdd⟩ =
      s.leave t s.C (some ⟨p :: todo, s.C (flat N p.row p.col) + p.product A B N, .store⟩) :=
    leave_leave
  rw [heq] at hadd
  exact hload.trans hadd

theorem reachable_store (hf : s.faulted = false)
    (hit : s.threads t = some ⟨p :: todo, v, .store⟩) :
    (repeatedMm A B N s32cnt).Reachable s
      (s.leave t (Function.update s.C (flat N p.row p.col) v) (some ⟨todo, v, .load⟩)) :=
  reachable_step A B N s32cnt hf hit

theorem reachable_pass (hf : s.faulted = false) (hin : p.InBounds N)
    (hit : s.threads t = some ⟨p :: todo, v, .load⟩) :
    ∃ v', (repeatedMm A B N s32cnt).Reachable s
      (s.leave t (Pass.add A B N s.C p) (some ⟨todo, v', .load⟩)) := by
  have hfetch := reachable_fetch A B N s32cnt hf hin hit
  have hstore := reachable_store A B N s32cnt
    (leave_faulted.trans hf) (leave_self (s := s) (t := t) (C := s.C)
      (x := some ⟨p :: todo, s.C (flat N p.row p.col) + p.product A B N, .store⟩))
  rw [leave_leave] at hstore
  exact ⟨_, hfetch.trans hstore⟩

/-- Some passes in a row. -/
theorem reachable_passes (hl : ∀ p ∈ l, p.InBounds N) (hf : s.faulted = false)
    (hit : s.threads t = some ⟨l ++ todo, v, .load⟩) :
    ∃ v', (repeatedMm A B N s32cnt).Reachable s
      (s.leave t (addAll A B N s.C l) (some ⟨todo, v', .load⟩)) := by
  induction l generalizing s v with
  | nil =>
      refine ⟨v, ?_⟩
      have heq : s.leave t (addAll A B N s.C []) (some ⟨todo, v, .load⟩) = s := leave_eq_self hit
      rw [heq]
      exact .refl s
  | cons p l ih =>
      obtain ⟨v₁, hpass⟩ := reachable_pass A B N s32cnt hf
        (hl p (by simp)) hit
      obtain ⟨v₂, hrest⟩ := ih (fun r hr => hl r (by simp [hr]))
        (s := s.leave t (Pass.add A B N s.C p) (some ⟨l ++ todo, v₁, .load⟩)) hf leave_self
      rw [leave_leave] at hrest
      exact ⟨v₂, hpass.trans hrest⟩

/-- The rest of an iteration. -/
theorem reachable_rest (hl : ∀ p ∈ l, p.InBounds N) (hf : s.faulted = false)
    (hit : s.threads t = some ⟨l, v, .load⟩) :
    (repeatedMm A B N s32cnt).Reachable s (s.leave t (addAll A B N s.C l) none) := by
  have happend : s.threads t = some ⟨l ++ [], v, .load⟩ := by rw [hit, List.append_nil]
  obtain ⟨v', hpasses⟩ := reachable_passes A B N s32cnt hl hf happend
  have hend := reachable_step A B N s32cnt
    (leave_faulted.trans hf) (leave_self (s := s) (t := t) (C := addAll A B N s.C l)
      (x := some ⟨[], v', .load⟩))
  have heq : iterate A B N (s.leave t (addAll A B N s.C l) (some ⟨[], v', .load⟩)) t
      ⟨[], v', .load⟩ = s.leave t (addAll A B N s.C l) none := leave_leave
  rw [heq] at hend
  exact hpasses.trans hend

/-- An iteration that has been handed out. -/
def State.given (s : State τ V) (t : τ) (s32i : Nat) (N : UInt32) : State τ V :=
  { s with taken := Function.update s.taken s32i true }.move t (some ⟨nest N, 0, .load⟩)

theorem reachable_take {s32i : Nat} (hf : s.faulted = false) (hidle : s.threads t = none)
    (hlt : s32i < s32cnt) (hfree : s.taken s32i = false) :
    (repeatedMm A B N s32cnt).Reachable s (s.given t s32i N) := by
  apply Machine.Reachable.single (a := .take t s32i)
  simp [repeatedMm, next, hf, hidle, hlt, hfree, State.given]

/-- All threads are idle, and the first `n` iterations have been worked on. -/
structure Rested (n : Nat) (s : State τ V) : Prop where
  faulted : s.faulted = false
  idle : ∀ t, s.threads t = none
  taken : ∀ i, s.taken i = true ↔ i < n

/-- One thread can do the first iterations one by one. -/
theorem exists_rested [Nonempty τ] (hN : N < 65536) (Z : UInt32 → V) {n : Nat} (hn : n ≤ s32cnt) :
    ∃ s : State τ V, (repeatedMm A B N s32cnt).Reachable (init Z) s ∧ Rested n s := by
  induction n with
  | zero => exact ⟨init Z, .refl _, rfl, fun _ => rfl, fun i => by simp [init]⟩
  | succ n ih =>
      obtain ⟨s, hs, hf, hidle, htaken⟩ := ih (by omega)
      obtain ⟨t⟩ := ‹Nonempty τ›
      have hfree : s.taken n = false := by simpa using (htaken n).not.mpr (by omega)
      have htake := reachable_take A B N s32cnt hf (hidle t) hn hfree
      have hrest := reachable_rest A B N s32cnt (s := s.given t n N)
        (t := t) (l := nest N) (v := 0) (fun p hp => inBounds_of_mem_nest hN hp) hf
        (by simp [State.given, State.move])
      refine ⟨_, (hs.trans htake).trans hrest, hf, fun u => ?_, fun i => ?_⟩
      · by_cases hu : u = t
        · subst hu
          exact leave_self
        · simp [leave_other hu, State.given, State.move, hu, hidle u]
      · show Function.update s.taken n true i = true ↔ i < n + 1
        by_cases hi : i = n
        · subst hi
          simp
        · rw [Function.update_of_ne hi, htaken]
          omega

/-! ## Two threads at one pass -/

section TwoThreads

variable {s : State Bool V} {after : List Pass} {C : UInt32 → V} {x : Option (Iteration V)}

omit [Zero V] [Add V] [Mul V] in
@[simp] theorem leave_true_false : (s.leave true C x).threads false = s.threads false :=
  leave_other (by simp)

omit [Zero V] [Add V] [Mul V] in
@[simp] theorem leave_false_true : (s.leave false C x).threads true = s.threads true :=
  leave_other (by simp)

/-- Both threads are in front of the load of the pass `p`, with the last two iterations. -/
structure Poised (s32cnt : Nat) (p : Pass) (after : List Pass) (s : State Bool V) : Prop where
  faulted : s.faulted = false
  taken : ∀ i < s32cnt, s.taken i = true
  threads : ∀ t, ∃ v, s.threads t = some ⟨p :: after, v, .load⟩

/-- No iteration is left. -/
structure Done (s32cnt : Nat) (s : State Bool V) : Prop where
  faulted : s.faulted = false
  taken : ∀ i < s32cnt, s.taken i = true
  idle : ∀ t, s.threads t = none

theorem exists_poised (hN : N < 65536) (Z : UInt32 → V) (hcnt : 2 ≤ s32cnt) {before : List Pass}
    (hnest : nest N = before ++ p :: after) :
    ∃ s : State Bool V, (repeatedMm A B N s32cnt).Reachable (init Z) s ∧
      Poised s32cnt p after s := by
  have hbefore : ∀ r ∈ before, r.InBounds N := fun r hr =>
    inBounds_of_mem_nest hN (by simp [hnest, hr])
  obtain ⟨s₀, hs₀, hf, hidle, htaken⟩ := exists_rested (τ := Bool) A B N s32cnt hN Z
    (show s32cnt - 2 ≤ s32cnt by omega)
  have hfree : ∀ i, s32cnt - 2 ≤ i → s₀.taken i = false := fun i hi => by
    simpa using (htaken i).not.mpr (by omega)
  -- both are handed out, and brought to the pass one behind the other
  let s₁ := s₀.given false (s32cnt - 2) N
  let s₂ := s₁.given true (s32cnt - 1) N
  have hne : s32cnt - 1 ≠ s32cnt - 2 := by omega
  have htake₁ : (repeatedMm A B N s32cnt).Reachable s₀ s₁ :=
    reachable_take A B N s32cnt hf (hidle false) (by omega) (hfree _ (Nat.le_refl _))
  have htake₂ : (repeatedMm A B N s32cnt).Reachable s₁ s₂ :=
    reachable_take A B N s32cnt hf (by simp [s₁, State.given, State.move, hidle]) (by omega)
      (by simp [s₁, State.given, State.move, hne, hfree (s32cnt - 1) (by omega)])
  have hit₂ : s₂.threads false = some ⟨before ++ p :: after, 0, .load⟩ := by
    simp [s₂, s₁, State.given, State.move, hnest]
  obtain ⟨v₀, hpass₀⟩ := reachable_passes A B N s32cnt (s := s₂) hbefore hf hit₂
  let s₃ := s₂.leave false (addAll A B N s₂.C before) (some ⟨p :: after, v₀, .load⟩)
  have hit₃ : s₃.threads true = some ⟨before ++ p :: after, 0, .load⟩ := by
    simp [s₃, s₂, State.given, State.move, hnest]
  obtain ⟨v₁, hpass₁⟩ := reachable_passes A B N s32cnt (s := s₃) hbefore hf hit₃
  refine ⟨_, (((hs₀.trans htake₁).trans htake₂).trans hpass₀).trans hpass₁, hf, ?_, ?_⟩
  · intro i hi
    show Function.update (Function.update s₀.taken (s32cnt - 2) true) (s32cnt - 1) true i = true
    by_cases h1 : i = s32cnt - 1
    · simp [h1]
    · by_cases h2 : i = s32cnt - 2
      · rw [Function.update_of_ne h1, h2, Function.update_self]
      · rw [Function.update_of_ne h1, Function.update_of_ne h2, htaken]
        omega
  · intro t
    cases t with
    | false => exact ⟨v₀, by rw [leave_true_false, leave_self]⟩
    | true => exact ⟨v₁, leave_self⟩

/-- Both iterations are brought to their end, the one of `false` first. -/
theorem exists_done {l₀ l₁ : List Pass} {v₀ v₁ : V} (h₀ : ∀ p ∈ l₀, p.InBounds N)
    (h₁ : ∀ p ∈ l₁, p.InBounds N) (hf : s.faulted = false) (htaken : ∀ i < s32cnt, s.taken i = true)
    (hit₀ : s.threads false = some ⟨l₀, v₀, .load⟩) (hit₁ : s.threads true = some ⟨l₁, v₁, .load⟩) :
    ∃ q, (repeatedMm A B N s32cnt).Reachable s q ∧ Done s32cnt q ∧
      q.C = addAll A B N (addAll A B N s.C l₀) l₁ := by
  have hend₀ := reachable_rest A B N s32cnt h₀ hf hit₀
  have hend₁ := reachable_rest A B N s32cnt (t := true)
    (s := s.leave false (addAll A B N s.C l₀) none) h₁ hf (leave_false_true.trans hit₁)
  refine ⟨_, hend₀.trans hend₁, ⟨hf, htaken, fun t => ?_⟩, rfl⟩
  cases t with
  | false => rw [leave_true_false, leave_self]
  | true => exact leave_self

/-- One behind the other: the product is added twice. -/
theorem exists_twice (hl : ∀ r ∈ p :: after, r.InBounds N) (h : Poised s32cnt p after s)
    (hafter : ∀ C, addAll A B N C after = C) :
    ∃ q, (repeatedMm A B N s32cnt).Reachable s q ∧ Done s32cnt q ∧ q.C (flat N p.row p.col) =
      s.C (flat N p.row p.col) + p.product A B N + p.product A B N := by
  obtain ⟨v₀, hit₀⟩ := h.threads false
  obtain ⟨v₁, hit₁⟩ := h.threads true
  obtain ⟨q, hq, hdone, hC⟩ := exists_done A B N s32cnt hl hl h.faulted h.taken hit₀ hit₁
  refine ⟨q, hq, hdone, ?_⟩
  have hcons : ∀ C, addAll A B N C (p :: after) = Pass.add A B N C p := fun C =>
    hafter (Pass.add A B N C p)
  rw [hC, hcons, hcons]
  simp [Pass.add, accumulate, Pass.product]

/-- Both load, then both store: the product is added once. -/
theorem exists_once (hl : ∀ r ∈ p :: after, r.InBounds N) (h : Poised s32cnt p after s)
    (hafter : ∀ C, addAll A B N C after = C) :
    ∃ q, (repeatedMm A B N s32cnt).Reachable s q ∧ Done s32cnt q ∧ q.C (flat N p.row p.col) =
      s.C (flat N p.row p.col) + p.product A B N := by
  obtain ⟨v₀, hit₀⟩ := h.threads false
  obtain ⟨v₁, hit₁⟩ := h.threads true
  have hin : p.InBounds N := hl p (by simp)
  have hrest : ∀ r ∈ after, r.InBounds N := fun r hr => hl r (by simp [hr])
  let v := s.C (flat N p.row p.col) + p.product A B N
  let C := Function.update s.C (flat N p.row p.col) v
  let s₁ := s.leave false s.C (some ⟨p :: after, v, .store⟩)
  let s₂ := s₁.leave true s.C (some ⟨p :: after, v, .store⟩)
  let s₃ := s₂.leave false C (some ⟨after, v, .load⟩)
  let s₄ := s₃.leave true (Function.update C (flat N p.row p.col) v) (some ⟨after, v, .load⟩)
  have h₁ : (repeatedMm A B N s32cnt).Reachable s s₁ :=
    reachable_fetch A B N s32cnt h.faulted hin hit₀
  have h₂ : (repeatedMm A B N s32cnt).Reachable s₁ s₂ :=
    reachable_fetch A B N s32cnt (s := s₁) h.faulted hin (leave_false_true.trans hit₁)
  have h₃ : (repeatedMm A B N s32cnt).Reachable s₂ s₃ :=
    reachable_store A B N s32cnt (s := s₂) h.faulted (leave_true_false.trans leave_self)
  have h₄ : (repeatedMm A B N s32cnt).Reachable s₃ s₄ :=
    reachable_store A B N s32cnt (s := s₃) h.faulted (leave_false_true.trans leave_self)
  obtain ⟨q, hq, hdone, hC⟩ := exists_done A B N s32cnt (s := s₄) hrest
    hrest h.faulted h.taken (leave_true_false.trans leave_self) leave_self
  refine ⟨q, (((h₁.trans h₂).trans h₃).trans h₄).trans hq, hdone, ?_⟩
  rw [hC, hafter, hafter]
  exact Function.update_self _ _ _

end TwoThreads

variable {A B N s32cnt}

omit [Zero V] in
theorem addAll_of_neutral (h : ∀ r ∈ l, ∀ x : V, x + r.product A B N = x) (C : UInt32 → V) :
    addAll A B N C l = C := by
  induction l generalizing C with
  | nil => rfl
  | cons p l ih =>
      have hp : Pass.add A B N C p = C :=
        Function.update_eq_self_iff.mpr (h p (by simp) _)
      show addAll A B N (Pass.add A B N C p) l = C
      rw [hp]
      exact ih (fun r hr => h r (by simp [hr])) C

/-- The last element of a list that satisfies `Q`. -/
theorem exists_last {α : Type*} {Q : α → Prop} {l : List α} (h : ∃ x ∈ l, Q x) :
    ∃ before x after, l = before ++ x :: after ∧ Q x ∧ ∀ y ∈ after, ¬ Q y := by
  induction l with
  | nil => simp at h
  | cons a l ih =>
      by_cases hl : ∃ x ∈ l, Q x
      · obtain ⟨before, x, after, rfl, hx, hafter⟩ := ih hl
        exact ⟨a :: before, x, after, rfl, hx, hafter⟩
      · have hno : ∀ y ∈ l, ¬ Q y := fun y hy hQ => hl ⟨y, hy, hQ⟩
        obtain ⟨x, hx, hQ⟩ := h
        rcases List.mem_cons.mp hx with rfl | hx
        · exact ⟨[], x, l, rfl, hQ, hno⟩
        · exact absurd hQ (hno x hx)

/-- A size whose square wraps to 0: the arrays have no cells, but the loops have passes. -/
theorem exists_faulted (A B : UInt32 → V) (Z : UInt32 → V) (hpos : 0 < N) (hsquare : N * N = 0)
    (hcnt : 1 ≤ s32cnt) :
    ∃ s : State Unit V, (repeatedMm A B N s32cnt).Reachable (init Z) s ∧ s.faulted = true := by
  have hmem : (⟨0, 0, 0⟩ : Pass) ∈ nest N := mem_nest.mpr ⟨hpos, hpos, hpos⟩
  obtain ⟨p, todo, hnest⟩ := List.exists_cons_of_ne_nil (List.ne_nil_of_mem hmem)
  have hout : ¬ p.InBounds N := fun hin => by
    have hlt := hin.1
    rw [hsquare] at hlt
    exact UInt32.not_lt_zero hlt
  have htake := reachable_take A B N s32cnt (s := (init Z : State Unit V)) (t := ()) rfl rfl
    hcnt rfl
  have hit : ((init Z : State Unit V).given () 0 N).threads () = some ⟨nest N, 0, .load⟩ := by
    simp [State.given, State.move]
  have hload := reachable_step A B N s32cnt rfl hit
  refine ⟨_, htake.trans hload, ?_⟩
  simp [iterate, hnest, hout]

end Repeated

open Repeated

/-- Whatever threads there are, however they share the repeats and interleave, no access is out
of bounds, and at the end `C` is the product and passes the check against the serial one. -/
def Verified {V : Type*} [Zero V] [Add V] [Mul V] (A B : UInt32 → V) (N : UInt32)
    (s32cnt : Nat) : Prop :=
  ∀ (τ : Type) [DecidableEq τ] [Fintype τ] [Nonempty τ] (C₀ D₀ : UInt32 → V) (as : List (Act τ))
    (s : State τ V), (repeatedMm A B N s32cnt).run (init (zeroed N C₀)) as = some s →
    s.faulted = false ∧ (Over A B N s32cnt s →
      (∀ index < N * N, s.C index = serialMm A B N (zeroed N D₀) index) ∧
      ∀ r < N, ∀ c < N, s.C (r * N + c) = dot A B N r c N.toNat)

/-- There is one repeat, or nothing but zeros to be added; and `squared_size` does not wrap. -/
def SingleOrZero {V : Type*} [Zero V] [Add V] [Mul V] (A B : UInt32 → V) (N : UInt32)
    (s32cnt : Nat) : Prop :=
  N ≠ 65536 ∧
    (s32cnt = 1 ∨ ∀ r < N, ∀ c < N, ∀ i < N, 0 + A (r * N + i) * B (i * N + c) = 0)

section

variable {V : Type*} [Zero V] [Add V] [Mul V] {A B : UInt32 → V} {N : UInt32} {s32cnt : Nat}

theorem verified_of_zero (hN : N < 65536) (hv : ∀ p ∈ nest N, p.Vanishes A B N) :
    Verified A B N s32cnt := by
  intro τ _ _ _ C₀ D₀ as s hr
  have h : Blank N s := Machine.Reachable.invariant (blank_step hN hv) (blank_init C₀) ⟨as, hr⟩
  have hdot : ∀ {r c}, r < N → c < N → dot A B N r c N.toNat = 0 := fun hr hc =>
    dot_eq_zero hr hc hv (Nat.le_refl _)
  refine ⟨h.faulted, fun _ => ⟨fun index hi => ?_, fun r hr c hc => ?_⟩⟩
  · obtain ⟨r, c, hr, hc, rfl⟩ := exists_flat hN hi
    rw [h.zero _ hi, serialMm_apply hN D₀ hr hc, hdot hr hc]
  · rw [hdot hr hc]
    exact h.zero _ (flat_lt hN hr hc)

theorem verified_of_single (hN : N < 65536) : Verified A B N 1 := by
  intro τ _ _ _ C₀ D₀ as s hr
  have h : Alone A B N (zeroed N C₀) s :=
    Machine.Reachable.invariant (alone_step hN) (alone_init _) ⟨as, hr⟩
  refine ⟨h.faulted, fun hover => ?_⟩
  have hC : s.C = serialMm A B N (zeroed N C₀) := by
    rw [serialMm_eq_addAll]
    exact h.through (hover.taken h.faulted (by omega)) (hover.idle h.faulted)
  refine ⟨fun index hi => ?_, fun r hr c hc => ?_⟩
  · obtain ⟨r, c, hr, hc, rfl⟩ := exists_flat hN hi
    rw [hC, serialMm_apply hN C₀ hr hc, serialMm_apply hN D₀ hr hc]
  · rw [hC]
    exact serialMm_apply hN C₀ hr hc

/-- A sum that stays the same when a product is added once more: the product is zero. -/
theorem singleOrZero_of_verified (hlaw : ∀ x y p : V, x + p = x → y + p = y) (hN : N ≤ 65536)
    (hcnt : 1 ≤ s32cnt) (h : Verified A B N s32cnt) : SingleOrZero A B N s32cnt := by
  have hne : N ≠ 65536 := by
    rintro rfl
    obtain ⟨s, ⟨as, hr⟩, hbad⟩ :=
      exists_faulted (N := 65536) A B (zeroed 65536 0) (by decide) (by decide) hcnt
    have hok := (h Unit 0 0 as s hr).1
    rw [hbad] at hok
    cases hok
  have hlt : N < 65536 := UInt32.lt_of_le_of_ne hN hne
  refine ⟨hne, ?_⟩
  by_contra hno
  obtain ⟨hone, hex⟩ := not_or.mp hno
  -- the last product that is not zero
  have hmatters : ∃ p ∈ nest N, ¬ p.Vanishes A B N := by
    by_contra hall
    apply hex
    intro r hr c hc i hi
    by_contra hbad
    exact hall ⟨⟨c, r, i⟩, mem_nest.mpr ⟨hc, hr, hi⟩, hbad⟩
  obtain ⟨before, p, after, hnest, hp, hafter⟩ := exists_last hmatters
  have hneutral : ∀ C, addAll A B N C after = C :=
    addAll_of_neutral fun r hr x => hlaw 0 x _ (not_not.mp (hafter r hr))
  have hl : ∀ r ∈ p :: after, r.InBounds N := fun r hr =>
    inBounds_of_mem_nest hlt (by simp [hnest, List.mem_cons.mp hr])
  have hmem : p ∈ nest N := by simp [hnest]
  obtain ⟨hcol, hrow, -⟩ := mem_nest.mp hmem
  obtain ⟨s, hs, hpoised⟩ := exists_poised A B N s32cnt hlt (zeroed N 0)
    (show 2 ≤ s32cnt by omega) hnest
  have hend : ∀ q, (repeatedMm A B N s32cnt).Reachable s q → Done s32cnt q →
      q.C (flat N p.row p.col) = dot A B N p.row p.col N.toNat := by
    intro q hq hdone
    obtain ⟨as, hr⟩ := hs.trans hq
    exact ((h Bool 0 0 as q hr).2 (over_of_idle hdone.idle hdone.taken)).2 _ hrow _ hcol
  obtain ⟨q₁, hq₁, hdone₁, hC₁⟩ := exists_once A B N s32cnt hl hpoised hneutral
  obtain ⟨q₂, hq₂, hdone₂, hC₂⟩ := exists_twice A B N s32cnt hl hpoised hneutral
  have hagain := hC₂.symm.trans ((hend q₂ hq₂ hdone₂).trans ((hend q₁ hq₁ hdone₁).symm.trans hC₁))
  exact hp (hlaw _ 0 _ hagain)

/-- Every run of the timed loop comes to an end. With one repeat, or with nothing but zeros to
be added, the check succeeds in all of them. In exact arithmetic, where what changes nothing once
never does, it succeeds in all of them only then. The `==` of the check is taken as equality, which
on a `double` it is for numbers, but not for NaN. -/
theorem verified_iff_singleOrZero {V : Type*} [Zero V] [Add V] [Mul V] (A B : UInt32 → V)
    {N : UInt32} {s32cnt : Nat} (hN : N ≤ 65536) (hcnt : 1 ≤ s32cnt) :
    (∀ (τ : Type) [DecidableEq τ] [Fintype τ] (C : UInt32 → V) (as : List (Act τ))
      (s : State τ V), (repeatedMm A B N s32cnt).run (init C) as = some s →
      as.length ≤ s32cnt * perRepeat N + 1) ∧
    (SingleOrZero A B N s32cnt → Verified A B N s32cnt) ∧
    ((∀ x y p : V, x + p = x → y + p = y) →
      Verified A B N s32cnt → SingleOrZero A B N s32cnt) := by
  refine ⟨?_, ?_, fun hlaw h => singleOrZero_of_verified hlaw hN hcnt h⟩
  · intro τ _ _ C as s hr
    have hlen := Machine.length_le_of_decreasing (I := fun _ => True) (m := work N s32cnt)
      (fun _ hn => ⟨trivial, work_step hn⟩) trivial hr
    have hwork : work N s32cnt (init C : State τ V) = 1 + s32cnt * perRepeat N := by
      simp [work, init]
    omega
  · rintro ⟨hne, hone | hzero⟩
    · subst hone
      exact verified_of_single (UInt32.lt_of_le_of_ne hN hne)
    · apply verified_of_zero (UInt32.lt_of_le_of_ne hN hne)
      intro p hp
      obtain ⟨hcol, hrow, hindex⟩ := mem_nest.mp hp
      exact hzero _ hrow _ hcol _ hindex

/-- The zero matrix, three times; and matrices of ones, three times. -/
theorem verified_iff_singleOrZero_two :
    Verified (fun _ => 0) (fun i => i.toNat) 2 3 ∧
      ¬ Verified (fun _ => (1 : Nat)) (fun _ => 1) 2 3 := by
  constructor
  · exact (verified_iff_singleOrZero _ _ (by decide) (by decide)).2.1
      ⟨by decide, .inr fun _ _ _ _ _ _ => by simp⟩
  · intro h
    obtain ⟨-, hone | hzero⟩ := (verified_iff_singleOrZero (fun _ => (1 : Nat)) (fun _ => 1)
      (by decide) (by decide)).2.2 (fun x y p h => by omega) h
    · omega
    · exact absurd (hzero 0 (by decide) 0 (by decide) 0 (by decide)) (by decide)

/-- The sum of two repeats is twice the product. -/
theorem twice_not_verified : ¬ Verified (fun _ => (1 : Nat)) (fun _ => 1) 1 2 := by
  intro h
  obtain ⟨-, hone | hzero⟩ :=
    singleOrZero_of_verified (fun x y p h => by omega) (by decide) (by decide) h
  · omega
  · exact absurd (hzero 0 (by decide) 0 (by decide) 0 (by decide)) (by decide)

end

end Cse522.Studio03.DenseMm

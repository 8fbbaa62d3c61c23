import Mathlib.Data.Option.Basic
import Mathlib.Data.List.Basic

/-!
# Machines of atomic steps, their runs and their invariants

A machine is a partial step function on labelled steps. A schedule is a list of
labels, so every interleaving of a family of threads is a schedule of the machine
whose labels name the thread that moves. Safety over all interleavings is then an
induction over the schedule, packaged here once.
-/
namespace Cse522.Interleave

universe u v w x

/-- `next s a` is the state after the atomic step `a`, and `none` where that step
cannot be taken from `s`. -/
structure Machine (σ : Type u) (ℓ : Type v) where
  next : σ → ℓ → Option σ

namespace Machine

variable {σ : Type u} {ℓ : Type v} (M : Machine σ ℓ)

/-- The state a schedule ends in, if each of its steps can be taken in turn. -/
def run : σ → List ℓ → Option σ
  | s, [] => some s
  | s, a :: as => (M.next s a).bind fun t => run t as

def Reachable (s t : σ) : Prop := ∃ as, M.run s as = some t

/-- Every step taken by the schedule satisfies `P` on its source, label and target. -/
def Along (P : σ → ℓ → σ → Prop) : σ → List ℓ → Prop
  | _, [] => True
  | s, a :: as => ∀ t, M.next s a = some t → P s a t ∧ Along P t as

variable {M} {s t r : σ} {a : ℓ} {as bs : List ℓ}

@[simp] theorem run_nil : M.run s [] = some t ↔ s = t := by
  simp [run]

@[simp] theorem run_cons :
    M.run s (a :: as) = some r ↔ ∃ t, M.next s a = some t ∧ M.run t as = some r := by
  simp [run, Option.bind_eq_some_iff]

theorem run_append :
    M.run s (as ++ bs) = some r ↔ ∃ t, M.run s as = some t ∧ M.run t bs = some r := by
  induction as generalizing s with
  | nil => simp
  | cons a as ih =>
      simp only [List.cons_append, run_cons, ih]
      constructor
      · intro h
        obtain ⟨q, hq, t, ht, hr⟩ := h
        exact ⟨t, ⟨q, hq, ht⟩, hr⟩
      · intro h
        obtain ⟨t, ⟨q, hq, ht⟩, hr⟩ := h
        exact ⟨q, hq, t, ht, hr⟩

theorem Reachable.refl (s : σ) : M.Reachable s s := ⟨[], by simp⟩

theorem Reachable.trans (h : M.Reachable s t) (h' : M.Reachable t r) : M.Reachable s r := by
  obtain ⟨as, ha⟩ := h
  obtain ⟨bs, hb⟩ := h'
  exact ⟨as ++ bs, run_append.mpr ⟨t, ha, hb⟩⟩

theorem Reachable.single (h : M.next s a = some t) : M.Reachable s t := ⟨[a], by simpa using h⟩

theorem along_cons_of_next {P : σ → ℓ → σ → Prop} (h : M.next s a = some t) :
    M.Along P s (a :: as) ↔ P s a t ∧ M.Along P t as := by
  simp [Along, h]

theorem Along.of_append {P : σ → ℓ → σ → Prop} (h : M.Along P s (as ++ bs))
    (hr : M.run s as = some t) : M.Along P t bs := by
  induction as generalizing s with
  | nil =>
      obtain rfl := run_nil.mp hr
      exact h
  | cons a as ih =>
      obtain ⟨q, hq, hr⟩ := run_cons.mp hr
      exact ih (h q hq).2 hr

/-- A step condition is met along a schedule if each step meets it in the state that the steps in
front of it lead to. -/
theorem along_iff {P : σ → ℓ → σ → Prop} : M.Along P s as ↔ ∀ bs a cs q t, as = bs ++ a :: cs →
    M.run s bs = some q → M.next q a = some t → P q a t := by
  constructor
  · rintro h bs a cs q t rfl hq ht
    exact (h.of_append hq t ht).1
  · intro h
    induction as generalizing s with
    | nil => trivial
    | cons a as ih =>
        intro t ht
        refine ⟨h [] a as s t rfl (run_nil.mpr rfl) ht, ih fun bs b cs q r has hq hr => ?_⟩
        exact h (a :: bs) b cs q r (congrArg (a :: ·) has) (run_cons.mpr ⟨t, ht, hq⟩) hr

/-- A step condition can be checked along a schedule by running it. -/
instance decidableAlong {P : σ → ℓ → σ → Prop} [∀ s a t, Decidable (P s a t)] :
    ∀ s as, Decidable (M.Along P s as)
  | _, [] => isTrue trivial
  | s, a :: as =>
      match h : M.next s a with
      | none => isTrue fun t ht => by simp [h] at ht
      | some t =>
          have : Decidable (M.Along P t as) := decidableAlong t as
          decidable_of_iff _ (along_cons_of_next h).symm

/-- A condition that every reachable step meets is met along every schedule. -/
theorem along_of_reachable {P : σ → ℓ → σ → Prop}
    (h : ∀ {q a t}, M.Reachable s q → M.next q a = some t → P q a t) : M.Along P s as := by
  induction as generalizing s with
  | nil => trivial
  | cons a as ih =>
      intro t ht
      refine ⟨h (.refl s) ht, ih fun hq hn => h ?_ hn⟩
      exact (Reachable.single ht).trans hq

/-- A run along which a condition is not met has a first half, a step that breaks the
condition, and a second half. -/
theorem exists_of_not_along {P : σ → ℓ → σ → Prop} (hr : M.run s as = some r)
    (h : ¬ M.Along P s as) :
    ∃ q a t, M.Reachable s q ∧ M.next q a = some t ∧ ¬ P q a t ∧ M.Reachable t r := by
  induction as generalizing s with
  | nil => exact absurd trivial h
  | cons a as ih =>
      obtain ⟨t, ht, hr⟩ := run_cons.mp hr
      by_cases hp : P s a t
      · have hrest : ¬ M.Along P t as := fun hrest => h ((along_cons_of_next ht).mpr ⟨hp, hrest⟩)
        obtain ⟨q, b, t', hq, hn, hb, ht'⟩ := ih hr hrest
        exact ⟨q, b, t', (Reachable.single ht).trans hq, hn, hb, ht'⟩
      · exact ⟨s, a, t, .refl s, ht, hp, as, hr⟩

/-- Where `P` has come to hold along a run, there is a first step with which it does. -/
theorem exists_first_step {P : σ → Prop} (hr : M.run s as = some r) (hs : ¬ P s) (h : P r) :
    ∃ bs a cs q t, as = bs ++ a :: cs ∧ M.run s bs = some q ∧ ¬ P q ∧ M.next q a = some t ∧ P t ∧
      M.run t cs = some r := by
  induction as generalizing s with
  | nil =>
      obtain rfl := run_nil.mp hr
      exact absurd h hs
  | cons a as ih =>
      obtain ⟨t, ht, hr⟩ := run_cons.mp hr
      by_cases hp : P t
      · exact ⟨[], a, as, s, t, rfl, by simp, hs, ht, hp, hr⟩
      · obtain ⟨bs, b, cs, q, t', rfl, hq, hnq, hn, ht', hrest⟩ := ih hr hp
        exact ⟨a :: bs, b, cs, q, t', rfl, run_cons.mpr ⟨t, ht, hq⟩, hnq, hn, ht', hrest⟩

/-! ## Invariants -/

/-- An invariant kept by the steps that meet `C` holds at the end of every schedule
along which `C` is met. -/
theorem Along.invariant {C : σ → ℓ → σ → Prop} {I : σ → Prop}
    (hstep : ∀ {s a t}, I s → M.next s a = some t → C s a t → I t)
    (h0 : I s) (hc : M.Along C s as) (hr : M.run s as = some t) : I t := by
  induction as generalizing s with
  | nil =>
      obtain rfl := run_nil.mp hr
      exact h0
  | cons a as ih =>
      obtain ⟨q, hq, hr⟩ := run_cons.mp hr
      obtain ⟨hC, hrest⟩ := hc q hq
      exact ih (hstep h0 hq hC) hrest hr

theorem along_true : M.Along (fun _ _ _ => True) s as := by
  induction as generalizing s with
  | nil => trivial
  | cons a as ih => exact fun t _ => ⟨trivial, ih⟩

theorem along_of_forall {P : ℓ → Prop} (h : ∀ a ∈ as, P a) : M.Along (fun _ a _ => P a) s as := by
  induction as generalizing s with
  | nil => trivial
  | cons a as ih =>
      intro t _
      exact ⟨h a List.mem_cons_self, ih fun b hb => h b (List.mem_cons_of_mem a hb)⟩

/-- A measure that every step that meets `C` lowers, under an invariant, bounds the length of a
run along which `C` is met. -/
theorem Along.length_le {C : σ → ℓ → σ → Prop} {I : σ → Prop} {m : σ → ℕ}
    (hstep : ∀ {s a t}, I s → M.next s a = some t → C s a t → I t ∧ m t < m s)
    (h0 : I s) (hc : M.Along C s as) (hr : M.run s as = some t) : as.length + m t ≤ m s := by
  induction as generalizing s with
  | nil =>
      obtain rfl := run_nil.mp hr
      simp
  | cons a as ih =>
      obtain ⟨q, hq, hr⟩ := run_cons.mp hr
      obtain ⟨hC, hrest⟩ := hc q hq
      obtain ⟨hI, hlt⟩ := hstep h0 hq hC
      have hlen := ih hI hrest hr
      rw [List.length_cons]
      omega

/-- A measure that every step lowers, under an invariant, bounds the length of a run. -/
theorem length_le_of_decreasing {I : σ → Prop} {m : σ → ℕ}
    (hstep : ∀ {s a t}, I s → M.next s a = some t → I t ∧ m t < m s)
    (h0 : I s) (hr : M.run s as = some t) : as.length + m t ≤ m s :=
  Along.length_le (C := fun _ _ _ => True) (fun hs hn _ => hstep hs hn) h0 along_true hr

/-- A measure of which every step takes one counts the steps of a run. -/
theorem length_add_of_countdown {I : σ → Prop} {m : σ → ℕ}
    (hstep : ∀ {s a t}, I s → M.next s a = some t → I t ∧ m t + 1 = m s)
    (h0 : I s) (hr : M.run s as = some t) : as.length + m t = m s := by
  induction as generalizing s with
  | nil =>
      obtain rfl := run_nil.mp hr
      simp
  | cons a as ih =>
      obtain ⟨q, hq, hr⟩ := run_cons.mp hr
      obtain ⟨hI, heq⟩ := hstep h0 hq
      have hlen := ih hI hr
      rw [List.length_cons]
      omega

/-- Where the steps that `p` names raise the measure, and by less than `c`, and all others lower
it, the run is bounded by the number of those. -/
theorem length_le_of_charged {p : ℓ → Bool} {c : ℕ} {I : σ → Prop} {m : σ → ℕ}
    (hstep : ∀ {s a t}, I s → M.next s a = some t →
      I t ∧ m t + 1 ≤ m s + if p a then c else 0)
    (h0 : I s) (hr : M.run s as = some t) : as.length + m t ≤ m s + c * as.countP p := by
  induction as generalizing s with
  | nil =>
      obtain rfl := run_nil.mp hr
      simp
  | cons a as ih =>
      obtain ⟨q, hq, hr⟩ := run_cons.mp hr
      obtain ⟨hI, hle⟩ := hstep h0 hq
      have hlen := ih hI hr
      rw [List.length_cons, List.countP_cons, Nat.mul_add]
      split at hle <;> rename_i hc <;> simp only [hc, if_true, Bool.false_eq_true, if_false] <;>
        omega

/-- A measure that no step raises and that the steps named by `p` lower bounds the number of
those. -/
theorem countP_le_of_decreasing {p : ℓ → Bool} {I : σ → Prop} {m : σ → ℕ}
    (hstep : ∀ {s a t}, I s → M.next s a = some t → I t ∧ m t + (if p a then 1 else 0) ≤ m s)
    (h0 : I s) (hr : M.run s as = some t) : as.countP p + m t ≤ m s := by
  induction as generalizing s with
  | nil =>
      obtain rfl := run_nil.mp hr
      simp
  | cons a as ih =>
      obtain ⟨q, hq, hr⟩ := run_cons.mp hr
      obtain ⟨hI, hle⟩ := hstep h0 hq
      have hrest := ih hI hr
      rw [List.countP_cons]
      omega

/-- What is kept by every step may speak of the steps taken so far. -/
theorem run_history {P : List ℓ → σ → Prop}
    (hstep : ∀ {bs s a t}, P bs s → M.next s a = some t → P (bs ++ [a]) t)
    (h0 : P [] s) (hr : M.run s as = some t) : P as t := by
  suffices ∀ bs, P bs s → P (bs ++ as) t from this [] h0
  clear h0
  intro bs hs
  induction as generalizing s bs with
  | nil =>
      obtain rfl := run_nil.mp hr
      rwa [List.append_nil]
  | cons a as ih =>
      obtain ⟨q, hq, hr⟩ := run_cons.mp hr
      have hall := ih hr (bs ++ [a]) (hstep hs hq)
      rwa [List.append_assoc] at hall

/-- The unconditional case: an inductive invariant holds of every reachable state. -/
theorem Reachable.invariant {I : σ → Prop}
    (hstep : ∀ {s a t}, I s → M.next s a = some t → I t)
    (h0 : I s) (hr : M.Reachable s t) : I t := by
  obtain ⟨as, hr⟩ := hr
  exact Along.invariant (C := fun _ _ _ => True) (fun hs hn _ => hstep hs hn) h0 along_true hr

/-- Two step conditions that agree under an invariant are met along the same
schedules. The invariant has to survive only the steps that meet them: the first
step that does not settles both sides. -/
theorem along_congr {P Q : σ → ℓ → σ → Prop} {I : σ → Prop}
    (hiff : ∀ {s a t}, I s → M.next s a = some t → (P s a t ↔ Q s a t))
    (hstep : ∀ {s a t}, I s → M.next s a = some t → Q s a t → I t)
    (h0 : I s) : M.Along P s as ↔ M.Along Q s as := by
  induction as generalizing s with
  | nil => exact Iff.rfl
  | cons a as ih =>
      constructor
      · intro h t ht
        obtain ⟨hp, hrest⟩ := h t ht
        have hq := (hiff h0 ht).mp hp
        exact ⟨hq, (ih (hstep h0 ht hq)).mp hrest⟩
      · intro h t ht
        obtain ⟨hq, hrest⟩ := h t ht
        exact ⟨(hiff h0 ht).mpr hq, (ih (hstep h0 ht hq)).mpr hrest⟩

end Machine

/-! ## Forward simulation -/

section Simulation

variable {σ : Type u} {ℓ : Type v} {τ : Type w} {κ : Type x}

/-- The abstract steps a schedule of `M` shows, in order: at most one for each of its steps. -/
def Machine.events (M : Machine σ ℓ) (emit : σ → ℓ → σ → Option κ) : σ → List ℓ → List κ
  | _, [] => []
  | s, a :: as =>
      match M.next s a with
      | none => []
      | some t => (emit s a t).toList ++ M.events emit t as

/-- `R` is kept when a step of `M` shows nothing, and answered by `N` when it shows one. -/
structure Simulation (M : Machine σ ℓ) (N : Machine τ κ) (emit : σ → ℓ → σ → Option κ)
    (R : σ → τ → Prop) : Prop where
  silent : ∀ {s a t o}, R s o → M.next s a = some t → emit s a t = none → R t o
  visible : ∀ {s a t o b}, R s o → M.next s a = some t → emit s a t = some b →
    ∃ q, N.next o b = some q ∧ R t q

/-- What a run of `M` shows is a run of `N`. -/
theorem Simulation.run {M : Machine σ ℓ} {N : Machine τ κ} {emit : σ → ℓ → σ → Option κ}
    {R : σ → τ → Prop} (h : Simulation M N emit R) {s t : σ} {o : τ} {as : List ℓ}
    (h0 : R s o) (hr : M.run s as = some t) :
    ∃ q, N.run o (M.events emit s as) = some q ∧ R t q := by
  induction as generalizing s o with
  | nil =>
      obtain rfl := Machine.run_nil.mp hr
      exact ⟨o, rfl, h0⟩
  | cons a as ih =>
      obtain ⟨r, hn, hr⟩ := Machine.run_cons.mp hr
      simp only [Machine.events, hn]
      cases he : emit s a r with
      | none => exact ih (h.silent h0 hn he) hr
      | some b =>
          obtain ⟨q, hq, hR⟩ := h.visible h0 hn he
          obtain ⟨q', hq', hR'⟩ := ih hR hr
          exact ⟨q', Machine.run_cons.mpr ⟨q, hq, hq'⟩, hR'⟩

end Simulation

end Cse522.Interleave

import Cse522.Interleave.Machine
import Mathlib.Logic.Function.Basic

/-!
# Work behind a gate

Threads first pass a gate, a barrier for instance, and then do their work: a thread can take a
step of the work once it is through. The work sees only its own machine, so all that is known
of its runs holds behind the gate too; what the gate adds is that everybody has arrived before
the work begins. A machine that can always move towards its end can be run to it from every
state.
-/
namespace Cse522.Interleave

universe u v

/-! ## Runs to the end -/

namespace Machine

variable {σ : Type u} {ℓ : Type v}

/-- From every state in `I` that is not done, some step stays in `I` and lowers `m`. -/
def Descends (M : Machine σ ℓ) (I : σ → Prop) (done : σ → Prop) (m : σ → Nat) : Prop :=
  ∀ s, I s → ¬ done s → ∃ a t, M.next s a = some t ∧ I t ∧ m t < m s

variable {M : Machine σ ℓ} {I done : σ → Prop} {m : σ → Nat}

theorem Descends.completes (h : M.Descends I done m) {s : σ} (hs : I s) :
    ∃ t, M.Reachable s t ∧ I t ∧ done t := by
  induction hn : m s using Nat.strongRecOn generalizing s with
  | _ n ih =>
      by_cases hd : done s
      · exact ⟨s, .refl s, hs, hd⟩
      · obtain ⟨a, q, hq, hIq, hlt⟩ := h s hs hd
        obtain ⟨t, ht, hIt, hdt⟩ := ih (m q) (hn ▸ hlt) hIq rfl
        exact ⟨t, (Reachable.single hq).trans ht, hIt, hdt⟩

end Machine

/-! ## Gates -/

/-- A gate in front of the threads `ι`. -/
structure Gate (ι : Type u) where
  σ : Type
  ℓ : Type
  machine : Machine σ ℓ
  init : σ
  Arrived : σ → ι → Prop
  Through : σ → ι → Prop
  decThrough : ∀ s i, Decidable (Through s i)
  Inv : σ → Prop
  rank : σ → Nat
  inv_init : Inv init
  inv_step : ∀ {s a t}, Inv s → machine.next s a = some t → Inv t
  through_step : ∀ {s a t} i, Inv s → machine.next s a = some t → Through s i → Through t i
  /-- whoever is through knows that everybody has arrived -/
  separates : ∀ {s} i j, Inv s → Through s i → Arrived s j
  /-- as long as somebody is not through, some step brings the gate nearer to its end -/
  moves : ∀ {s} i, Inv s → ¬ Through s i → ∃ a t, machine.next s a = some t ∧ rank t < rank s

namespace Gate

variable {ι : Type u} {τ : Type v} (G : Gate ι) (N : Machine τ ι)

instance (s : G.σ) (i : ι) : Decidable (G.Through s i) := G.decThrough s i

/-- A step of the gate, or a step of the work by a thread that is through. -/
def behind : Machine (G.σ × τ) (G.ℓ ⊕ ι) where
  next
    | (s, w), .inl a => (G.machine.next s a).map fun t => (t, w)
    | (s, w), .inr i => if G.Through s i then (N.next w i).map fun v => (s, v) else none

variable {G N} {s t : G.σ} {w v w₀ : τ}

theorem behind_inl {a : G.ℓ} : (G.behind N).next (s, w) (.inl a) = some (t, v) ↔
    G.machine.next s a = some t ∧ v = w := by
  simp [behind, eq_comm]

theorem behind_inr {i : ι} : (G.behind N).next (s, w) (.inr i) = some (t, v) ↔
    G.Through s i ∧ N.next w i = some v ∧ t = s := by
  simp only [behind, Option.ite_none_right_eq_some, Option.map_eq_some_iff, Prod.mk.injEq]
  constructor
  · intro h
    obtain ⟨hthrough, q, hq, hs, rfl⟩ := h
    exact ⟨hthrough, hq, hs.symm⟩
  · intro h
    obtain ⟨hthrough, hv, rfl⟩ := h
    exact ⟨hthrough, v, hv, rfl, rfl⟩

/-- What holds of the two parts, and between them. -/
structure Opened (G : Gate ι) (N : Machine τ ι) (w₀ : τ) (p : G.σ × τ) : Prop where
  gate : G.Inv p.1
  work : N.Reachable w₀ p.2
  begun : p.2 ≠ w₀ → ∃ i, G.Through p.1 i

theorem opened_step {p q : G.σ × τ} {a : G.ℓ ⊕ ι} (h : Opened G N w₀ p)
    (hn : (G.behind N).next p a = some q) : Opened G N w₀ q := by
  obtain ⟨s, w⟩ := p
  obtain ⟨t, v⟩ := q
  obtain ⟨hgate, hwork, hbegun⟩ := h
  cases a with
  | inl a =>
      obtain ⟨hs, rfl⟩ := behind_inl.mp hn
      refine ⟨G.inv_step hgate hs, hwork, fun hne => ?_⟩
      obtain ⟨i, hi⟩ := hbegun hne
      exact ⟨i, G.through_step i hgate hs hi⟩
  | inr i =>
      obtain ⟨hi, hv, rfl⟩ := behind_inr.mp hn
      exact ⟨hgate, hwork.trans (.single hv), fun _ => ⟨i, hi⟩⟩

theorem opened_of_reachable {p : G.σ × τ} (hr : (G.behind N).Reachable (G.init, w₀) p) :
    Opened G N w₀ p :=
  hr.invariant opened_step ⟨G.inv_init, .refl w₀, fun h => absurd rfl h⟩

/-- The work has begun only if everybody has arrived. -/
theorem Opened.all_arrived {p : G.σ × τ} (h : Opened G N w₀ p) (hne : p.2 ≠ w₀) (j : ι) :
    G.Arrived p.1 j := by
  obtain ⟨i, hi⟩ := h.begun hne
  exact G.separates i j h.gate hi

/-- Work that can be run to its end can be run to it behind the gate. -/
theorem Opened.descends {I done : τ → Prop} {m : τ → Nat} (hN : N.Descends I done m)
    (hI : ∀ {w}, N.Reachable w₀ w → I w) :
    (G.behind N).Descends (Opened G N w₀) (fun p => (∀ i, G.Through p.1 i) ∧ done p.2)
      fun p => G.rank p.1 + m p.2 := by
  intro p h hnot
  obtain ⟨s, w⟩ := p
  by_cases hall : ∀ i, G.Through s i
  · have hd : ¬ done w := fun hd => hnot ⟨hall, hd⟩
    obtain ⟨i, v, hv, -, hlt⟩ := hN w (hI h.work) hd
    have hn : (G.behind N).next (s, w) (.inr i) = some (s, v) :=
      behind_inr.mpr ⟨hall i, hv, rfl⟩
    refine ⟨.inr i, (s, v), hn, opened_step h hn, ?_⟩
    show G.rank s + m v < G.rank s + m w
    omega
  · obtain ⟨i, hi⟩ := not_forall.mp hall
    obtain ⟨a, t, ht, hlt⟩ := G.moves i h.gate hi
    have hn : (G.behind N).next (s, w) (.inl a) = some (t, w) := behind_inl.mpr ⟨ht, rfl⟩
    have hlt' : G.rank t < G.rank s := hlt
    refine ⟨.inl a, (t, w), hn, opened_step h hn, ?_⟩
    show G.rank t + m w < G.rank s + m w
    omega

end Gate

end Cse522.Interleave

import Mathlib.Data.List.Range
import Mathlib.Logic.Basic

/-!
# Computations with early exits

A step of a program goes on with a state or ends the program early. `Ends Q E x` says what is
known of both: the state satisfies `Q`, the exit satisfies `E`. The rules follow the ways in
which steps are put together, the counting loops among them.
-/
namespace Cse522.Clib.Outcome

universe u v

variable {σ τ : Type u} {ε : Type v}

/-- The computation goes on with a state in `Q` or exits in `E`. -/
inductive Ends (Q : σ → Prop) (E : ε → Prop) : Except ε σ → Prop where
  | ok {s : σ} (h : Q s) : Ends Q E (.ok s)
  | error {e : ε} (h : E e) : Ends Q E (.error e)

variable {Q : σ → Prop} {R : τ → Prop} {E : ε → Prop}

theorem ok_bind (s : σ) (f : σ → Except ε τ) : (Except.ok s >>= f) = f s := rfl

theorem Ends.bind {x : Except ε σ} {f : σ → Except ε τ} (hx : Ends Q E x)
    (hf : ∀ s, Q s → Ends R E (f s)) : Ends R E (x >>= f) := by
  cases hx with
  | ok h => exact hf _ h
  | error h => exact .error h

theorem Ends.exists_ok {x : Except ε σ} (hx : Ends Q E x) (hE : ∀ e, ¬ E e) :
    ∃ s, x = .ok s ∧ Q s := by
  cases hx with
  | ok h => exact ⟨_, rfl, h⟩
  | error h => exact absurd h (hE _)

/-- `for (i = 0; i < n; i++)` with an `int` counter that the body does not change. -/
def forInt (n : Int) (body : Int → σ → Except ε σ) (s : σ) : Except ε σ :=
  (List.range n.toNat).foldlM (fun s (i : Nat) => body i s) s

/-- The loop rule: `I k` holds in front of pass `k`. -/
theorem Ends.foldlM {I : Nat → σ → Prop} {f : σ → Nat → Except ε σ} {m : Nat} {s : σ}
    (hstep : ∀ k < m, ∀ s, I k s → Ends (I (k + 1)) E (f s k)) (h0 : I 0 s) :
    Ends (I m) E ((List.range m).foldlM f s) := by
  induction m with
  | zero => exact .ok h0
  | succ m ih =>
      rw [List.range_succ, List.foldlM_append]
      have hrest : Ends (I m) E ((List.range m).foldlM f s) := ih fun k hk => hstep k (by omega)
      refine hrest.bind fun s hs => ?_
      rw [List.foldlM_cons]
      exact (hstep m (by omega) s hs).bind fun t ht => .ok ht

theorem foldlM_congr_mem {α : Type*} {f g : σ → α → Except ε σ} {l : List α}
    (h : ∀ a ∈ l, ∀ s, f s a = g s a) (s : σ) : l.foldlM f s = l.foldlM g s := by
  induction l generalizing s with
  | nil => rfl
  | cons a l ih =>
      rw [List.foldlM_cons, List.foldlM_cons, h a (by simp)]
      congr 1
      funext t
      exact ih (fun b hb => h b (by simp [hb])) t

theorem mul_add_div_of_lt {a b c : Nat} (h : c < b) : (a * b + c) / b = a := by
  rw [Nat.mul_comm, Nat.mul_add_div (by omega), Nat.div_eq_of_lt h, Nat.add_zero]

/-- Two nested loops are one loop over the pairs of their counters. -/
theorem forInt_forInt (n m : Int) (body : Int → Int → σ → Except ε σ) (s : σ) :
    forInt n (fun i => forInt m (body i)) s =
      (List.range (n.toNat * m.toNat)).foldlM
        (fun s k => body (k / m.toNat : Nat) (k % m.toNat : Nat) s) s := by
  generalize hp : m.toNat = p
  simp only [forInt, hp]
  induction n.toNat generalizing s with
  | zero => simp
  | succ n ih =>
      rw [List.range_succ, List.foldlM_append, ih, Nat.succ_mul, List.range_add,
        List.foldlM_append]
      congr 1
      funext s
      rw [List.foldlM_cons, List.foldlM_map]
      simp only [List.foldlM_nil, bind_pure]
      refine foldlM_congr_mem (fun j hj s => ?_) s
      have hlt := List.mem_range.mp hj
      rw [mul_add_div_of_lt hlt, Nat.mul_add_mod_of_lt hlt]

end Cse522.Clib.Outcome

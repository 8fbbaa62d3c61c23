import Mathlib.Algebra.BigOperators.Group.Finset.Piecewise
import Mathlib.Data.Fintype.BigOperators
import Mathlib.Data.Int.CardIntervalMod

/-!
# Counting in a merged sequence

A shared log is the merge of what each thread put into it. The counts of its entries by
thread add up to its length, and a log that runs cyclically through `c` values holds
each of them equally often, up to one.
-/
namespace Cse522.Interleave

variable {ι β : Type*} [Fintype ι] [DecidableEq ι]

theorem sum_countP_eq_length (f : β → ι) (l : List β) :
    ∑ i, l.countP (fun b => f b = i) = l.length := by
  induction l with
  | nil => simp
  | cons b l ih =>
      simp only [List.countP_cons, Finset.sum_add_distrib, ih, decide_eq_true_eq, List.length_cons]
      simp

theorem div_add_mod_lt {c n i : Nat} (hi : i < c) :
    (n / c + if i < n % c then 1 else 0) = (n - i + (c - 1)) / c := by
  have hc : 0 < c := by omega
  have hn := Nat.div_add_mod n c
  have hm := Nat.mod_lt n hc
  generalize n / c = q at hn ⊢
  generalize n % c = r at hn hm ⊢
  symm
  split
  case isTrue h =>
    apply Nat.div_eq_of_lt_le
    · rw [Nat.add_mul, Nat.mul_comm q c]
      omega
    · rw [Nat.add_mul, Nat.add_mul, Nat.mul_comm q c]
      omega
  case isFalse h =>
    apply Nat.div_eq_of_lt_le
    · rw [Nat.add_zero, Nat.mul_comm q c]
      rcases Nat.eq_zero_or_pos q with hq | hq
      · simp [hq]
      · have := Nat.mul_le_mul_left c hq
        omega
    · rw [Nat.add_zero, Nat.add_mul, Nat.mul_comm q c]
      omega

/-- Among the first `n` positions of a cycle of length `c`, value `i` stands at
`⌈(n - i) / c⌉` of them. -/
theorem countP_range_mod {c n i : Nat} (hi : i < c) :
    (List.range n).countP (fun k => k % c = i) = (n - i + (c - 1)) / c := by
  have h := Nat.count_modEq_card n (show 0 < c by omega) i
  rw [Nat.mod_eq_of_lt hi, div_add_mod_lt hi] at h
  rw [← h, Nat.count]
  refine List.countP_congr fun k _ => ?_
  simp [Nat.ModEq, Nat.mod_eq_of_lt hi]

end Cse522.Interleave

import Mathlib.Data.List.Basic
import Mathlib.Data.List.Nodup

/-!
# Forests given by their parents

The nodes are numbered in the order in which they come. Each but a root names the node above it,
so a node that is added changes the children of one node only.
-/
namespace Cse522.Clib.Forest

/-- The nodes below `i`, in the order in which they have come. -/
def children (parents : List (Option Nat)) (i : Nat) : List Nat :=
  (List.range parents.length).filter fun j => parents[j]? = some (some i)

/-- `i` is the root of the complete binary tree of a depth. -/
def Complete (parents : List (Option Nat)) : Nat → Nat → Prop
  | 0, i => children parents i = []
  | depth + 1, i => ∃ j j', children parents i = [j, j'] ∧ j ≠ j' ∧
      Complete parents depth j ∧ Complete parents depth j'

variable {parents : List (Option Nat)} {i j : Nat}

theorem mem_children : j ∈ children parents i ↔ parents[j]? = some (some i) := by
  simp only [children, List.mem_filter, List.mem_range, decide_eq_true_eq, and_iff_right_iff_imp]
  intro h
  exact (List.getElem?_eq_some_iff.mp h).1

theorem nodup_children (parents : List (Option Nat)) (i : Nat) : (children parents i).Nodup :=
  List.nodup_range.filter _

theorem children_concat (parents : List (Option Nat)) (o : Option Nat) (i : Nat) :
    children (parents ++ [o]) i =
      children parents i ++ if o = some i then [parents.length] else [] := by
  have hold : (List.range parents.length).filter (fun j => (parents ++ [o])[j]? = some (some i)) =
      children parents i := by
    apply List.filter_congr
    intro j hj
    rw [List.getElem?_append_left (List.mem_range.mp hj)]
  rw [children, List.length_append, List.length_singleton, List.range_succ, List.filter_append,
    hold, List.filter_singleton, List.getElem?_concat_length]
  simp

/-- Nothing is below a node that none names. -/
theorem children_eq_nil (h : ∀ o ∈ parents, o ≠ some i) : children parents i = [] := by
  rw [List.eq_nil_iff_forall_not_mem]
  intro j hj
  exact h _ (List.mem_of_getElem? (mem_children.mp hj)) rfl

/-- If each node has two children of the level below its own, or none at level zero, then each
is the root of the complete tree of its level. -/
theorem complete_of_levels {level : Nat → Nat}
    (hleaf : ∀ i < parents.length, level i = 0 → children parents i = [])
    (hnode : ∀ i < parents.length, level i ≠ 0 → ∃ j j', children parents i = [j, j'] ∧
      level j + 1 = level i ∧ level j' + 1 = level i)
    (hi : i < parents.length) : Complete parents (level i) i := by
  generalize hk : level i = k
  induction k generalizing i with
  | zero => exact hleaf i hi hk
  | succ k ih =>
      obtain ⟨j, j', hchildren, hj, hj'⟩ := hnode i hi (by omega)
      have hlt : ∀ c ∈ children parents i, c < parents.length := fun c hc =>
        (List.getElem?_eq_some_iff.mp (mem_children.mp hc)).1
      have hne : j ≠ j' := by
        have hnodup := nodup_children parents i
        rw [hchildren] at hnodup
        simpa using hnodup
      rw [hchildren] at hlt
      exact ⟨j, j', hchildren, hne, ih (hlt j (by simp)) (by omega),
        ih (hlt j' (by simp)) (by omega)⟩

end Cse522.Clib.Forest

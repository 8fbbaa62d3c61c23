import Cse522.Interleave.Machine
import Cse522.Interleave.Threads

/-!
# The mutual exclusion object

What a lock is for: `acquire` succeeds only while nobody owns the object, and only
the owner can `release` it. An implementation is a lock if the ownership changes of
its runs are a run of this object.
-/
namespace Cse522.Interleave

inductive MutexStep (ι : Type*) where
  | acquire (i : ι)
  | release (i : ι)
  deriving DecidableEq

variable {ι : Type*} [DecidableEq ι]

/-- The state of the object is its owner, if it has one. -/
def mutex (ι : Type*) [DecidableEq ι] : Machine (Option ι) (MutexStep ι) where
  next
    | none, .acquire i => some (some i)
    | some j, .release i => if j = i then some none else none
    | some _, .acquire _ => none
    | none, .release _ => none

@[simp] theorem mutex_acquire {o q : Option ι} {i : ι} :
    (mutex ι).next o (.acquire i) = some q ↔ o = none ∧ q = some i := by
  cases o <;> simp [mutex, eq_comm]

@[simp] theorem mutex_release {o q : Option ι} {i : ι} :
    (mutex ι).next o (.release i) = some q ↔ o = some i ∧ q = none := by
  cases o with
  | none => simp [mutex]
  | some j =>
      by_cases hj : j = i
      · simp [mutex, hj, eq_comm]
      · simp [mutex, hj]

section Ownership

variable {α : Type*} {owns : α → Prop} [DecidablePred owns] {f : ι → α} {o : Option ι}
  {i : ι} {x : α}

/-- What thread `i` does to the ownership when it moves from `l` to `x`. -/
def ownershipStep (owns : α → Prop) [DecidablePred owns] (i : ι) (l x : α) : Option (MutexStep ι) :=
  if owns l then (if owns x then none else some (.release i))
  else (if owns x then some (.acquire i) else none)

omit [DecidableEq ι] in
theorem ownershipStep_eq_none : ownershipStep owns i (f i) x = none ↔ (owns x ↔ owns (f i)) := by
  unfold ownershipStep
  split_ifs <;> simp_all

/-- A silent move keeps the owner. -/
theorem Owner.silent (h : Owner owns f o) (he : ownershipStep owns i (f i) x = none) :
    Owner owns (Function.update f i x) o :=
  h.keep (ownershipStep_eq_none.mp he)

/-- A visible move is one of the object, provided a thread takes only a free object. -/
theorem Owner.visible {b : MutexStep ι} (h : Owner owns f o)
    (hfree : ¬ owns (f i) → owns x → o = none) (he : ownershipStep owns i (f i) x = some b) :
    ∃ q, (mutex ι).next o b = some q ∧ Owner owns (Function.update f i x) q := by
  unfold ownershipStep at he
  by_cases hi : owns (f i)
  · by_cases hx : owns x
    · simp [hi, hx] at he
    · simp only [hi, hx, ↓reduceIte, Option.some.injEq] at he
      subst he
      exact ⟨none, mutex_release.mpr ⟨h.eq_some hi, rfl⟩, h.release hi hx⟩
  · by_cases hx : owns x
    · simp only [hi, hx, ↓reduceIte, Option.some.injEq] at he
      subst he
      obtain rfl := hfree hi hx
      exact ⟨some i, mutex_acquire.mpr ⟨rfl, rfl⟩, h.acquire hx⟩
    · simp [hi, hx] at he

end Ownership

end Cse522.Interleave

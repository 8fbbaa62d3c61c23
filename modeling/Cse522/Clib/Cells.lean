import Mathlib.Data.List.Induction

/-!
# Cells that are written one at a time

A device has cells, and an operation that writes one of them. Where a write is seen in its own
cell only, what is found in a cell behind a sequence of writes is due to the last one to it. It
is enough that the cells are so while they are live, if writes keep them live.
-/
namespace Cse522.Clib.Cells

variable {σ κ μ ν : Type*}

/-- The last value that is written to `k`. -/
def lastTo [DecidableEq κ] (k : κ) (calls : List (κ × μ)) : Option μ :=
  (calls.filter fun c => c.1 = k).getLast?.map Prod.snd

@[simp] theorem lastTo_nil [DecidableEq κ] (k : κ) : lastTo k ([] : List (κ × μ)) = none := rfl

theorem lastTo_concat [DecidableEq κ] (k : κ) (calls : List (κ × μ)) (c : κ × μ) :
    lastTo k (calls ++ [c]) = if c.1 = k then some c.2 else lastTo k calls := by
  unfold lastTo
  rw [List.filter_append]
  by_cases hc : c.1 = k
  · rw [if_pos hc, List.filter_cons_of_pos (by simpa using hc)]
    simp
  · rw [if_neg hc, List.filter_cons_of_neg (by simpa using hc)]
    simp

/-- A write of a value in `ok` stores what `value` makes of it in its own cell, if that is live,
and nothing in any other. -/
def Stores [DecidableEq κ] (live : σ → κ → Prop) (read : σ → κ → ν) (write : σ → κ → μ → σ)
    (ok : μ → Prop) (value : μ → ν) : Prop :=
  ∀ s k v, ok v → ∀ k', live s k' → live (write s k v) k' ∧
    read (write s k v) k' = if k = k' then value v else read s k'

def writes (write : σ → κ → μ → σ) (s : σ) (calls : List (κ × μ)) : σ :=
  calls.foldl (fun s c => write s c.1 c.2) s

theorem writes_concat (write : σ → κ → μ → σ) (s : σ) (calls : List (κ × μ)) (c : κ × μ) :
    writes write s (calls ++ [c]) = write (writes write s calls) c.1 c.2 := by
  simp [writes]

theorem read_writes [DecidableEq κ] {live : σ → κ → Prop} {read : σ → κ → ν}
    {write : σ → κ → μ → σ} {ok : μ → Prop} {value : μ → ν} (h : Stores live read write ok value)
    {s : σ} {calls : List (κ × μ)} (hok : ∀ c ∈ calls, ok c.2) {k : κ} (hlive : live s k) :
    live (writes write s calls) k ∧
      read (writes write s calls) k = ((lastTo k calls).map value).getD (read s k) := by
  induction calls using List.reverseRecOn with
  | nil => exact ⟨hlive, rfl⟩
  | append_singleton calls c ih =>
      have hc : ok c.2 := hok c (by simp)
      obtain ⟨hl, hread⟩ := ih fun d hd => hok d (List.mem_append_left _ hd)
      obtain ⟨hl', hread'⟩ := h (writes write s calls) c.1 c.2 hc k hl
      rw [writes_concat, lastTo_concat]
      refine ⟨hl', ?_⟩
      rw [hread']
      by_cases hk : c.1 = k
      · rw [if_pos hk, if_pos hk]
        rfl
      · rw [if_neg hk, if_neg hk]
        exact hread

/-- What each of the writes keeps is kept by all of them. -/
theorem writes_keep {write : σ → κ → μ → σ} {α : Type*} {f : σ → α} {calls : List (κ × μ)}
    (h : ∀ c ∈ calls, ∀ s, f (write s c.1 c.2) = f s) (s : σ) :
    f (writes write s calls) = f s := by
  induction calls using List.reverseRecOn with
  | nil => rfl
  | append_singleton calls c ih =>
      rw [writes_concat, h c (by simp)]
      exact ih fun d hd => h d (List.mem_append_left _ hd)

/-- Two devices whose states correspond, and whose writes keep it that way. -/
theorem writes_map {τ : Type*} {write : σ → κ → μ → σ} {write' : τ → κ → μ → τ} {f : τ → σ}
    (h : ∀ t k v, f (write' t k v) = write (f t) k v) (t : τ) (calls : List (κ × μ)) :
    f (writes write' t calls) = writes write (f t) calls := by
  induction calls using List.reverseRecOn with
  | nil => rfl
  | append_singleton calls c ih => rw [writes_concat, writes_concat, h, ih]

end Cse522.Clib.Cells

import Cse522.Clib.Rearrange
import Cse522.Clib.Word
import Cse522.Studio03.Sort

/-!
# The quicksort on a slice

A slice whose values all are words is sorted whatever pivots are drawn. No conversion to
`unsigned` loses a value there, so every exchange permutes the slice.
-/
namespace Cse522.Studio03.Sort

open Cse522.Clib Cse522.Clib.Rearrange Cse522.Clib.Word

def InSlice (start end_ i : UInt32) : Prop := start ≤ i ∧ i ≤ end_

/-- The event touches the slice only, or computes a pivot's neighbour without wrapping. -/
def Event.Within (start end_ : UInt32) : Event → Prop
  | .access index => InSlice start end_ index
  | .minusOne pivot => pivot ≠ 0
  | .plusOne pivot => pivot ≠ 4294967295

/-- What any part of the sort makes of the slice. -/
structure WorksIn (start end_ : UInt32) (s t : State) : Prop where
  log : ∃ events, t.log = s.log ++ events ∧ ∀ e ∈ events, e.Within start end_
  cells : Rearranged (InSlice start end_) s.A t.A

/-- Every value of the slice is an integer that fits an `unsigned`. -/
def Words (start end_ : UInt32) (s : State) : Prop := ∀ i, InSlice start end_ i → (s.A i).IsWord

namespace WorksIn

variable {start end_ start' end_' : UInt32} {s t u : State}

theorem refl (start end_ : UInt32) (s : State) : WorksIn start end_ s s :=
  ⟨⟨[], by simp⟩, .refl _ _⟩

theorem trans (hst : WorksIn start end_ s t) (htu : WorksIn start end_ t u) :
    WorksIn start end_ s u := by
  obtain ⟨es, hes, hin⟩ := hst.log
  obtain ⟨fs, hfs, hin'⟩ := htu.log
  refine ⟨⟨es ++ fs, ?_, ?_⟩, hst.cells.trans htu.cells⟩
  · rw [hfs, hes, List.append_assoc]
  · intro e he
    rcases List.mem_append.mp he with he | he
    · exact hin e he
    · exact hin' e he

/-- Work in a part of the slice is work in the slice. -/
theorem mono (h : WorksIn start end_ s t) (hs : start' ≤ start) (he : end_ ≤ end_') :
    WorksIn start' end_' s t := by
  have hin : ∀ i, InSlice start end_ i → InSlice start' end_' i := fun i hi =>
    ⟨UInt32.le_trans hs hi.1, UInt32.le_trans hi.2 he⟩
  obtain ⟨es, hes, hall⟩ := h.log
  refine ⟨⟨es, hes, ?_⟩, h.cells.mono hin⟩
  intro e hmem
  cases e with
  | access index => exact hin index (hall _ hmem)
  | minusOne pivot => exact hall _ hmem
  | plusOne pivot => exact hall _ hmem

theorem note {e : Event} (he : e.Within start end_) : WorksIn start end_ s (s.note [e]) := by
  refine ⟨⟨[e], rfl, ?_⟩, .refl _ _⟩
  intro f hf
  rw [List.mem_singleton.mp hf]
  exact he

theorem words (h : WorksIn start end_ s t) (hw : Words start end_ s) : Words start end_ t :=
  h.cells.forall_mem hw

end WorksIn

variable {rand : Draws} {start end_ pivot pivot_val target index : UInt32} {s s₀ t : State}

/-! ## `swap` -/

def State.swapped (s : State) (a b : UInt32) : State :=
  { s with A := s.A ∘ Equiv.swap a b }.note [.access a, .access b]

/-- A word goes through `temp` unchanged. -/
theorem swap_eq {a b : UInt32} (hw : (s.A a).IsWord) : swap s a b = some (s.swapped a b) := by
  obtain ⟨u, hu⟩ := hw
  rw [swap, State.swapped, hu, Double.toUnsigned_ofUnsigned, Equiv.swap_comm,
    Equiv.comp_swap_eq_update, hu]
  rfl

@[simp]
theorem swapped_A (a b i : UInt32) : (s.swapped a b).A i = s.A (Equiv.swap a b i) := rfl

theorem swapped_worksIn {a b : UInt32} (ha : InSlice start end_ a) (hb : InSlice start end_ b) :
    WorksIn start end_ s (s.swapped a b) := by
  refine ⟨⟨[.access a, .access b], rfl, ?_⟩, .swap s.A ha hb⟩
  intro e he
  rcases List.mem_pair.mp he with rfl | rfl
  · exact ha
  · exact hb

/-! ## The loop in `partition` -/

/-- The invariant of the loop: the cells below `target` hold what is at most the pivot's
value, and those from there up to `index` what is not. -/
structure Walked (start end_ pivot_val target index : UInt32) (s : State) : Prop where
  start_le : start ≤ target
  target_le : target ≤ index
  words : Words start end_ s
  low : ∀ i, start ≤ i → i < target → s.A i ≤ .ofUnsigned pivot_val
  high : ∀ i, target ≤ i → i < index → ¬ s.A i ≤ .ofUnsigned pivot_val
  last : s.A end_ = .ofUnsigned pivot_val

theorem pass_spec (h : Walked start end_ pivot_val target index s) (hindex : index < end_) :
    ∃ t target', pass pivot_val target index s = some (t, target') ∧
      WorksIn start end_ s t ∧ Walked start end_ pivot_val target' (index + 1) t := by
  have hin : InSlice start end_ index :=
    ⟨UInt32.le_trans h.start_le h.target_le, UInt32.le_of_lt hindex⟩
  have hnote : WorksIn start end_ s (s.note [.access index]) := WorksIn.note hin
  by_cases hle : s.A index ≤ .ofUnsigned pivot_val
  · have htarget : target < end_ := UInt32.lt_of_le_of_lt h.target_le hindex
    have hword : ((s.note [.access index]).A target).IsWord :=
      h.words target ⟨h.start_le, UInt32.le_of_lt htarget⟩
    have hwork := hnote.trans (swapped_worksIn ⟨h.start_le, UInt32.le_of_lt htarget⟩ hin)
    refine ⟨(s.note [.access index]).swapped target index, target + 1, ?_, hwork, ?_⟩
    · rw [pass, if_pos hle, swap_eq hword]
      rfl
    · refine ⟨?_, ?_, hwork.words h.words, ?_, ?_, ?_⟩
      · exact UInt32.le_of_lt ((lt_succ_iff htarget).mpr h.start_le)
      · rw [succ_le_iff htarget, lt_succ_iff hindex]
        exact h.target_le
      · intro i hi hlt
        rw [swapped_A]
        by_cases heq : i = target
        · rw [heq, Equiv.swap_apply_left]
          exact hle
        · have hbelow : i < target := by grind [lt_succ_iff htarget]
          have hne : i ≠ index := by grind [h.target_le]
          rw [Equiv.swap_apply_of_ne_of_ne heq hne]
          exact h.low i hi hbelow
      · intro i hi hlt
        have habove : target < i := (succ_le_iff htarget).mp hi
        have hupto : i ≤ index := (lt_succ_iff hindex).mp hlt
        rw [swapped_A]
        by_cases heq : i = index
        · rw [heq, Equiv.swap_apply_right]
          exact h.high target (by grind) (by grind)
        · rw [Equiv.swap_apply_of_ne_of_ne (by grind) heq]
          exact h.high i (by grind) (by grind)
      · rw [swapped_A, Equiv.swap_apply_of_ne_of_ne (by grind) (by grind)]
        exact h.last
  · refine ⟨s.note [.access index], target, ?_, hnote, ?_⟩
    · rw [pass, if_neg hle]
    · refine ⟨h.start_le, ?_, h.words, h.low, ?_, h.last⟩
      · exact UInt32.le_of_lt ((lt_succ_iff hindex).mpr h.target_le)
      · intro i hi hlt
        by_cases heq : i = index
        · rw [heq]
          exact hle
        · have hupto : i ≤ index := (lt_succ_iff hindex).mp hlt
          exact h.high i hi (by grind)

/-- The whole loop, by induction on the passes that remain. -/
theorem walk_spec (k : Nat) (h : Walked start end_ pivot_val target index s)
    (hk : index.toNat + k = end_.toNat) :
    ∃ t target', walk pivot_val k target index s = some (t, target') ∧
      WorksIn start end_ s t ∧ Walked start end_ pivot_val target' end_ t := by
  induction k generalizing target index s with
  | zero =>
      have hend : index = end_ := UInt32.toNat_inj.mp hk
      rw [hend] at h
      exact ⟨s, target, rfl, .refl _ _ _, h⟩
  | succ k ih =>
      have hindex : index < end_ := by
        rw [lt_iff_toNat]
        omega
      obtain ⟨t, target', hpass, hwork, hwalked⟩ := pass_spec h hindex
      have hnext : (index + 1).toNat + k = end_.toNat := by
        rw [toNat_succ hindex]
        omega
      obtain ⟨u, target'', hwalk, hwork', hend⟩ := ih hwalked hnext
      refine ⟨u, target'', ?_, hwork.trans hwork', hend⟩
      rw [walk, hpass]
      exact hwalk

/-! ## `partition` -/

/-- What `partition` makes of the slice: the value at `pivot` separates the others. -/
structure Partitioned (start end_ pivot : UInt32) (s t : State) : Prop where
  start_le : start ≤ pivot
  le_end : pivot ≤ end_
  work : WorksIn start end_ s t
  below : ∀ i, start ≤ i → i < pivot → t.A i ≤ t.A pivot
  above : ∀ i, pivot < i → i ≤ end_ → t.A pivot ≤ t.A i

/-- The last exchange puts the pivot's value at `target`. -/
theorem partitioned_of_walked (h : Walked start end_ pivot_val target end_ s) :
    Partitioned start end_ target s (s.swapped target end_) := by
  have hend : start ≤ end_ := UInt32.le_trans h.start_le h.target_le
  have hpivot : (s.swapped target end_).A target = .ofUnsigned pivot_val := by
    rw [swapped_A, Equiv.swap_apply_left]
    exact h.last
  refine ⟨h.start_le, h.target_le, ?_, ?_, ?_⟩
  · exact swapped_worksIn ⟨h.start_le, h.target_le⟩ ⟨hend, UInt32.le_refl _⟩
  · intro i hi hlt
    rw [hpivot, swapped_A, Equiv.swap_apply_of_ne_of_ne (by grind) (by grind [h.target_le])]
    exact h.low i hi hlt
  · intro i hlt hi
    have hlast : target < end_ := by grind
    have hword : ∀ j, target ≤ j → j < end_ → (s.A j).IsWord := fun j hj hlt =>
      h.words j ⟨UInt32.le_trans h.start_le hj, UInt32.le_of_lt hlt⟩
    have habove : ∀ j, target ≤ j → j < end_ → .ofUnsigned pivot_val ≤ s.A j := fun j hj hlt =>
      (hword j hj hlt).le_of_not_le (Double.ofUnsigned_isWord pivot_val) (h.high j hj hlt)
    rw [hpivot, swapped_A]
    by_cases heq : i = end_
    · rw [heq, Equiv.swap_apply_right]
      exact habove target (UInt32.le_refl _) hlast
    · rw [Equiv.swap_apply_of_ne_of_ne (by grind) heq]
      exact habove i (by grind) (by grind)

theorem toNat_range (h : start < end_) : (end_ - start).toNat = end_.toNat - start.toNat :=
  UInt32.toNat_sub_of_le _ _ (UInt32.le_of_lt h)

/-- `rand() % range + start` lies in the slice, before its last cell. -/
theorem drawn_bounds (r : UInt32) (h : start < end_) :
    start ≤ r % (end_ - start) + start ∧ r % (end_ - start) + start < end_ := by
  have hlt := lt_iff_toNat.mp h
  have hsize := end_.toNat_lt
  have hmod : (r % (end_ - start)).toNat < end_.toNat - start.toNat := by
    rw [UInt32.toNat_mod, toNat_range h]
    exact Nat.mod_lt _ (by omega)
  have hsum : (r % (end_ - start) + start).toNat = (r % (end_ - start)).toNat + start.toNat := by
    rw [UInt32.toNat_add]
    exact Nat.mod_eq_of_lt (by omega)
  rw [le_iff_toNat, lt_iff_toNat, hsum]
  omega

theorem range_ne_zero (h : start < end_) : end_ - start ≠ 0 := by
  intro hzero
  have hlt := lt_iff_toNat.mp h
  have hrange := toNat_range h
  rw [hzero, UInt32.toNat_zero] at hrange
  omega

/-- `partition` ends whatever pivot is drawn, and separates the slice. -/
theorem partition_spec (rand : Draws) (hw : Words start end_ s) (h : start < end_) :
    ∃ t pivot, partition rand start end_ s = some (t, pivot) ∧
      Partitioned start end_ pivot s t := by
  obtain ⟨hge, hlt⟩ := drawn_bounds (UInt32.ofNat (rand s.drawn)) h
  generalize hpivot : UInt32.ofNat (rand s.drawn) % (end_ - start) + start = pivot at hge hlt
  have hend : InSlice start end_ end_ := ⟨UInt32.le_of_lt h, UInt32.le_refl _⟩
  -- the pivot goes to the last cell
  have hdrawn : WorksIn start end_ s { s with drawn := s.drawn + 1 } := ⟨⟨[], by simp⟩, .refl _ _⟩
  have hin : InSlice start end_ pivot := ⟨hge, UInt32.le_of_lt hlt⟩
  have hmoved := hdrawn.trans (swapped_worksIn hin hend)
  generalize hs₁ : State.swapped _ pivot end_ = s₁ at hmoved
  obtain ⟨pivot_val, hval⟩ := hmoved.words hw end_ hend
  have hread : WorksIn start end_ s₁ (s₁.note [.access end_]) := WorksIn.note hend
  -- the loop begins with both of its zones empty
  have hstart : Walked start end_ pivot_val start start (s₁.note [.access end_]) :=
    ⟨UInt32.le_refl _, UInt32.le_refl _, hmoved.words hw, by grind, by grind, hval⟩
  have hpasses : start.toNat + (end_.toNat - start.toNat) = end_.toNat := by
    have hlt' := lt_iff_toNat.mp h
    omega
  obtain ⟨t, target, hwalk, hwork, hwalked⟩ := walk_spec _ hstart hpasses
  have hlast := partitioned_of_walked hwalked
  refine ⟨_, target, ?_, hlast.start_le, hlast.le_end, ?_, hlast.below, hlast.above⟩
  · have hpiv : (({ s with drawn := s.drawn + 1 } : State).A pivot).IsWord := hw pivot hin
    have htarget : (t.A target).IsWord := hwalked.words target ⟨hlast.start_le, hlast.le_end⟩
    simp only [partition, if_neg (range_ne_zero h), hpivot, swap_eq hpiv, hs₁, Option.bind_some,
      hval, Double.toUnsigned_ofUnsigned, hwalk, swap_eq htarget, Option.map_some]
  · exact (hmoved.trans (hread.trans hwork)).trans hlast.work

/-! ## `quicksort` -/

/-- What a call makes of its part `p` of the slice. -/
structure Sorts (start end_ : UInt32) (p : UInt32 → Prop) (s t : State) : Prop where
  work : WorksIn start end_ s t
  cells : Rearranged p s.A t.A
  sorted : SortedOn (· ≤ ·) p t.A

/-- The call with this slice ends in `t`, if the recursion may go `depth` calls deep. -/
def Ends (rand : Draws) (depth : Nat) (start end_ : UInt32) (s t : State) : Prop :=
  ∀ fuel, depth < fuel → quicksort rand fuel start end_ s = some t

/-- The part of the slice below the pivot. -/
abbrev Below (start end_ pivot i : UInt32) : Prop := InSlice start end_ i ∧ i < pivot

/-- The part of the slice above the pivot. -/
abbrev Above (start end_ pivot i : UInt32) : Prop := InSlice start end_ i ∧ pivot < i

/-- The slice around the pivot, once both parts are sorted. -/
theorem sorts_of_parts {t₀ t₁ t₂ : State} (hp : Partitioned start end_ pivot s t₀)
    (hlow : Sorts start end_ (Below start end_ pivot) t₀ t₁)
    (hhigh : Sorts start end_ (Above start end_ pivot) t₁ t₂) :
    Sorts start end_ (InSlice start end_) s t₂ := by
  have hwork := (hp.work.trans hlow.work).trans hhigh.work
  refine ⟨hwork, hwork.cells, ?_⟩
  -- each part keeps its cells, and its bound, while the other one is sorted
  have hlow₂ : ∀ i, ¬ pivot < i → t₂.A i = t₁.A i := fun i hi =>
    hhigh.cells.eq_of_not fun h => hi h.2
  have hhigh₁ : ∀ i, ¬ i < pivot → t₁.A i = t₀.A i := fun i hi =>
    hlow.cells.eq_of_not fun h => hi h.2
  have hpivot : t₂.A pivot = t₀.A pivot := by
    rw [hlow₂ pivot (UInt32.lt_irrefl _), hhigh₁ pivot (UInt32.lt_irrefl _)]
  have hbelow : ∀ i, Below start end_ pivot i → t₁.A i ≤ t₀.A pivot :=
    hlow.cells.forall_mem (Q := (· ≤ t₀.A pivot)) fun i hi => hp.below i hi.1.1 hi.2
  have habove : ∀ i, Above start end_ pivot i → t₀.A pivot ≤ t₂.A i := by
    apply hhigh.cells.forall_mem (Q := (t₀.A pivot ≤ ·))
    intro i hi
    rw [hhigh₁ i (UInt32.lt_asymm hi.2)]
    exact hp.above i hi.2 hi.1.2
  refine SortedOn.join (m := pivot) (fun u v w huv hvw => Double.le_trans huv hvw) ?_
    hhigh.sorted ?_ ?_
  · apply hlow.sorted.congr
    intro i hi
    exact hlow₂ i (UInt32.lt_asymm hi.2)
  · intro i hi hlt
    rw [hpivot, hlow₂ i (UInt32.lt_asymm hlt)]
    exact hbelow i ⟨hi, hlt⟩
  · intro i hi hlt
    rw [hpivot]
    exact habove i ⟨hi, hlt⟩

/-- A part without cells is left as it is. -/
theorem sorts_of_empty {p : UInt32 → Prop} (h : ∀ i, ¬ p i) : Sorts start end_ p s s :=
  ⟨.refl _ _ _, .refl _ _, fun i _ hi => absurd hi (h i)⟩

/-- A smaller slice is a part of the slice. -/
theorem Sorts.part {start' end_' : UInt32} {p : UInt32 → Prop} {e : Event}
    (h : Sorts start' end_' (InSlice start' end_') (s.note [e]) t) (he : e.Within start end_)
    (hs : start ≤ start') (hend : end_' ≤ end_) (hp : ∀ i, InSlice start' end_' i ↔ p i) :
    Sorts start end_ p s t := by
  have hpart : InSlice start' end_' = p := funext fun i => propext (hp i)
  have hnote : WorksIn start end_ s (s.note [e]) := WorksIn.note he
  rw [← hpart]
  exact ⟨hnote.trans (h.work.mono hs hend), h.cells, h.sorted⟩

/-- Every slice that is shorter than `n + 1` cells is sorted. -/
def SortsBelow (rand : Draws) (n : Nat) : Prop :=
  ∀ (start end_ : UInt32) (s : State), end_.toNat - start.toNat < n → Words start end_ s →
    ∃ t, Ends rand (end_.toNat - start.toNat) start end_ s t ∧
      Sorts start end_ (InSlice start end_) s t

/-- The guard `pivot > start` keeps `pivot - 1` from wrapping. -/
theorem lower_spec {n : Nat} (ih : SortsBelow rand n) (hn : end_.toNat - start.toNat = n)
    (hstart : start ≤ pivot) (hend : pivot ≤ end_) (hw : Words start end_ s) :
    ∃ t, (∀ fuel, n ≤ fuel → (if pivot > start then
        quicksort rand fuel start (pivot - 1) (s.note [.minusOne pivot]) else some s) = some t) ∧
      Sorts start end_ (Below start end_ pivot) s t := by
  by_cases hlt : start < pivot
  · have hpred := toNat_pred hlt
    have hlt' := lt_iff_toNat.mp hlt
    have hend' := le_iff_toNat.mp hend
    have hword : Words start (pivot - 1) (s.note [.minusOne pivot]) := fun i hi =>
      hw i ⟨hi.1, UInt32.le_trans (UInt32.le_of_lt ((le_pred_iff hlt).mp hi.2)) hend⟩
    obtain ⟨t, hrun, hsorts⟩ := ih start (pivot - 1) _ (by omega) hword
    refine ⟨t, ?_, ?_⟩
    · intro fuel hfuel
      rw [if_pos hlt]
      exact hrun fuel (by omega)
    · refine hsorts.part (e := .minusOne pivot) ?_ (UInt32.le_refl _) ?_ ?_
      · show pivot ≠ 0
        rintro rfl
        exact UInt32.not_lt_zero hlt
      · rw [le_iff_toNat]
        omega
      · intro i
        rw [Below, InSlice, InSlice, le_pred_iff hlt]
        grind
  · refine ⟨s, ?_, sorts_of_empty ?_⟩
    · intro fuel _
      rw [if_neg hlt]
    · rintro i ⟨hi, hip⟩
      exact hlt (UInt32.lt_of_le_of_lt hi.1 hip)

/-- The guard `pivot < end` keeps `pivot + 1` from wrapping. -/
theorem upper_spec {n : Nat} (ih : SortsBelow rand n) (hn : end_.toNat - start.toNat = n)
    (hstart : start ≤ pivot) (hw : Words start end_ s) :
    ∃ t, (∀ fuel, n ≤ fuel → (if pivot < end_ then
        quicksort rand fuel (pivot + 1) end_ (s.note [.plusOne pivot]) else some s) = some t) ∧
      Sorts start end_ (Above start end_ pivot) s t := by
  by_cases hlt : pivot < end_
  · have hsucc := toNat_succ hlt
    have hlt' := lt_iff_toNat.mp hlt
    have hstart' := le_iff_toNat.mp hstart
    have hword : Words (pivot + 1) end_ (s.note [.plusOne pivot]) := fun i hi =>
      hw i ⟨UInt32.le_trans hstart (UInt32.le_of_lt ((succ_le_iff hlt).mp hi.1)), hi.2⟩
    obtain ⟨t, hrun, hsorts⟩ := ih (pivot + 1) end_ _ (by omega) hword
    refine ⟨t, ?_, ?_⟩
    · intro fuel hfuel
      rw [if_pos hlt]
      exact hrun fuel (by omega)
    · refine hsorts.part (e := .plusOne pivot) ?_ ?_ (UInt32.le_refl _) ?_
      · show pivot ≠ 4294967295
        rintro rfl
        have hsize := end_.toNat_lt
        exact absurd hlt' (by simpa using by omega)
      · rw [le_iff_toNat]
        omega
      · intro i
        rw [Above, InSlice, InSlice, succ_le_iff hlt]
        grind
  · refine ⟨s, ?_, sorts_of_empty ?_⟩
    · intro fuel _
      rw [if_neg hlt]
    · rintro i ⟨hi, hip⟩
      exact hlt (UInt32.lt_of_lt_of_le hip hi.2)

/-- One call, if the recursive ones sort their slices. -/
theorem quicksort_step {n : Nat} (ih : SortsBelow rand n) (hn : end_.toNat - start.toNat = n)
    (hw : Words start end_ s) :
    ∃ t, Ends rand n start end_ s t ∧ Sorts start end_ (InSlice start end_) s t := by
  by_cases hlt : start < end_
  · obtain ⟨t₀, pivot, hpart, hp⟩ := partition_spec rand hw hlt
    obtain ⟨t₁, hleft, hlow⟩ := lower_spec ih hn hp.start_le hp.le_end (hp.work.words hw)
    obtain ⟨t₂, hright, hhigh⟩ := upper_spec ih hn hp.start_le (hlow.work.words (hp.work.words hw))
    refine ⟨t₂, ?_, sorts_of_parts hp hlow hhigh⟩
    intro fuel hfuel
    cases fuel with
    | zero => omega
    | succ fuel =>
        rw [quicksort, if_pos hlt, hpart, Option.bind_some]
        simp only [hleft fuel (by omega), Option.bind_some, hright fuel (by omega)]
  · refine ⟨s, ?_, .refl _ _ _, .refl _ _, ?_⟩
    · intro fuel hfuel
      cases fuel with
      | zero => omega
      | succ fuel => rw [quicksort, if_neg hlt]
    · -- a single cell
      intro i j hi hj hij
      exact absurd (UInt32.lt_of_le_of_lt hi.1 (UInt32.lt_of_lt_of_le hij hj.2)) hlt

theorem sortsBelow (rand : Draws) (n : Nat) : SortsBelow rand n := by
  induction n with
  | zero =>
      intro start end_ s hn
      omega
  | succ n ih =>
      intro start end_ s hn hw
      apply quicksort_step _ rfl hw
      intro start' end_' s' hn' hw'
      exact ih start' end_' s' (by omega) hw'

/-- For every sequence of draws the slice is sorted, its values are permuted, nothing else
is touched, no neighbour of a pivot wraps, and the recursion is as deep as the slice at most. -/
theorem quicksort_sorts (rand : Draws) (start end_ : UInt32) (s : State)
    (hw : Words start end_ s) :
    ∃ t, (∀ fuel, end_.toNat - start.toNat < fuel → quicksort rand fuel start end_ s = some t) ∧
      (∃ events, t.log = s.log ++ events ∧ ∀ e ∈ events, e.Within start end_) ∧
      (∀ i, ¬ InSlice start end_ i → t.A i = s.A i) ∧
      Rearranged (InSlice start end_) s.A t.A ∧
      SortedOn (· ≤ ·) (InSlice start end_) t.A := by
  obtain ⟨t, hrun, hsorts⟩ := sortsBelow rand _ start end_ s (Nat.lt_succ_self _) hw
  exact ⟨t, hrun, hsorts.work.log, fun i hi => hsorts.cells.eq_of_not hi, hsorts.cells,
    hsorts.sorted⟩

/-- The cells hold 2, 1, 0 and, behind the slice, the largest `unsigned` values. -/
def descending : State := ⟨fun i => .ofUnsigned (2 - i), 0, []⟩

theorem descending_sorted :
    ∃ t, quicksort (fun _ => 1) 3 0 2 descending = some t ∧ t.A 3 = .ofUnsigned 4294967295 ∧
      Rearranged (InSlice 0 2) descending.A t.A ∧ SortedOn (· ≤ ·) (InSlice 0 2) t.A := by
  obtain ⟨t, hrun, -, hout, hperm, hsorted⟩ :=
    quicksort_sorts (fun _ => 1) 0 2 descending fun i _ => Double.ofUnsigned_isWord (2 - i)
  exact ⟨t, hrun 3 (by decide), hout 3 (by unfold InSlice; decide), hperm, hsorted⟩

end Cse522.Studio03.Sort

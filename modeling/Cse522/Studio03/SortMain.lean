import Cse522.Studio03.Quicksort

/-!
# The sort program

`main` passes the number of elements as the inclusive end of the slice, so the first call
of `partition` already moves the pivot to the cell behind the array. Without elements the
bound `array_size - 1` of the verification loop wraps.
-/
namespace Cse522.Studio03.Sort

open Cse522.Clib Cse522.Clib.Loops Cse522.Clib.Rearrange

variable {rand : Draws} {start end_ pivot pivot_val target target' index array_size : UInt32}
  {s t u : State}

/-- `main` ends, touches no cell behind the array, sorts the generated values and does not
reach `error_quit`. -/
def EndToEnd (VERIFY_CORRECT : Bool) (rand : Draws) (array_size : UInt32) (A : UInt32 → Double) :
    Prop :=
  ∃ fuel o, main VERIFY_CORRECT rand fuel array_size A = some o ∧ o.error = none ∧
    (∀ index, Event.access index ∈ o.state.log → index < array_size) ∧
    Rearranged (· < array_size) (generate rand array_size ⟨A, 0, []⟩).A o.state.A ∧
    SortedOn (· ≤ ·) (· < array_size) o.state.A

/-! ## What has been logged stays logged -/

/-- What `s` has logged is in the log of `t`. -/
def Logged (s t : State) : Prop := ∀ e ∈ s.log, e ∈ t.log

theorem Logged.refl (s : State) : Logged s s := fun _ he => he

theorem Logged.trans (hst : Logged s t) (htu : Logged t u) : Logged s u := fun e he =>
  htu e (hst e he)

theorem note_logged (s : State) (es : List Event) : Logged s (s.note es) := fun _ he =>
  List.mem_append_left es he

theorem swap_log {a b : UInt32} (h : swap s a b = some t) :
    t.log = s.log ++ [.access a, .access b] := by
  obtain ⟨temp, -, rfl⟩ := Option.map_eq_some_iff.mp h
  rfl

theorem swap_logged {a b : UInt32} (h : swap s a b = some t) : Logged s t := by
  intro e he
  rw [swap_log h]
  exact List.mem_append_left _ he

theorem pass_logged (h : pass pivot_val target index s = some (t, target')) : Logged s t := by
  rw [pass] at h
  split at h
  · obtain ⟨u, hswap, hu⟩ := Option.map_eq_some_iff.mp h
    obtain ⟨rfl, -⟩ := Prod.mk.inj hu
    exact (note_logged s _).trans (swap_logged hswap)
  · cases h
    exact note_logged s _

theorem walk_logged {k : Nat} (h : walk pivot_val k target index s = some (t, target')) :
    Logged s t := by
  induction k generalizing target index s with
  | zero =>
      cases h
      exact .refl _
  | succ k ih =>
      obtain ⟨⟨u, target''⟩, hpass, hwalk⟩ := Option.bind_eq_some_iff.mp h
      exact (pass_logged hpass).trans (ih hwalk)

/-- `partition` touches the cell at `end`, whatever the slice holds. -/
theorem partition_logged (h : partition rand start end_ s = some (t, pivot)) :
    Logged s t ∧ .access end_ ∈ t.log := by
  simp only [partition] at h
  split at h
  · cases h
  · obtain ⟨s₁, hswap, h⟩ := Option.bind_eq_some_iff.mp h
    obtain ⟨pivot_val, -, h⟩ := Option.bind_eq_some_iff.mp h
    obtain ⟨⟨s₂, target⟩, hwalk, h⟩ := Option.bind_eq_some_iff.mp h
    obtain ⟨s₃, hlast, hs₃⟩ := Option.map_eq_some_iff.mp h
    obtain ⟨rfl, -⟩ := Prod.mk.inj hs₃
    have hrest : Logged s₁ s₃ :=
      (note_logged s₁ _).trans ((walk_logged hwalk).trans (swap_logged hlast))
    have hend : .access end_ ∈ s₁.log := by
      rw [swap_log hswap]
      simp
    exact ⟨(swap_logged hswap).trans hrest, hrest _ hend⟩

theorem quicksort_logged {fuel : Nat} (h : quicksort rand fuel start end_ s = some t) :
    Logged s t ∧ (start < end_ → .access end_ ∈ t.log) := by
  induction fuel generalizing start end_ s t with
  | zero => cases h
  | succ fuel ih =>
      rw [quicksort] at h
      split at h
      case isFalse hlt =>
        cases h
        exact ⟨.refl _, fun h => absurd h hlt⟩
      case isTrue hlt =>
        obtain ⟨⟨s₁, pivot⟩, hpart, h⟩ := Option.bind_eq_some_iff.mp h
        obtain ⟨s₂, hleft, hright⟩ := Option.bind_eq_some_iff.mp h
        have hlower : Logged s₁ s₂ := by
          split at hleft
          · exact (note_logged s₁ _).trans (ih hleft).1
          · cases hleft
            exact .refl _
        have hupper : Logged s₂ t := by
          split at hright
          · exact (note_logged s₂ _).trans (ih hright).1
          · cases hright
            exact .refl _
        obtain ⟨hkeep, hend⟩ := partition_logged hpart
        exact ⟨hkeep.trans (hlower.trans hupper), fun _ => hupper _ (hlower _ hend)⟩

theorem errorQuit_logged (s : State) (end_ location : UInt32) :
    Logged s (errorQuit s end_ location).state := by
  show Logged s (forUnsigned end_ _ s)
  rw [forUnsigned]
  generalize List.range end_.toNat = is
  induction is generalizing s with
  | nil => exact .refl _
  | cons i is ih => exact (note_logged s _).trans (ih _)

theorem verify_logged (k : Nat) (index : UInt32) (s : State) :
    Logged s (verify array_size k index s).state := by
  induction k generalizing index s with
  | zero => exact .refl _
  | succ k ih =>
      rw [verify]
      split
      · exact (note_logged s _).trans (ih _ _)
      · exact (note_logged s _).trans (errorQuit_logged _ _ _)

/-- The first pass of the verification loop touches the cell at `index`. -/
theorem verify_first {k : Nat} (hk : 0 < k) (index : UInt32) (s : State) :
    .access index ∈ (verify array_size k index s).state.log := by
  obtain ⟨k, rfl⟩ : ∃ j, k = j + 1 := ⟨k - 1, by omega⟩
  have hmem : .access index ∈ (s.note [.access index, .access (index + 1)]).log := by
    simp [State.note]
  rw [verify]
  split
  · exact verify_logged k _ _ _ hmem
  · exact errorQuit_logged _ _ _ _ hmem

/-! ## The array and the cell behind it -/

/-- With elements, the sort touches the cell behind the array. -/
theorem main_touches_end {VERIFY_CORRECT : Bool} {fuel : Nat} {A : UInt32 → Double} {o : Outcome}
    (hsize : array_size ≠ 0) (h : main VERIFY_CORRECT rand fuel array_size A = some o) :
    .access array_size ∈ o.state.log := by
  obtain ⟨s, hsort, rfl⟩ := Option.map_eq_some_iff.mp h
  have hpos : 0 < array_size := by grind
  have hmem := (quicksort_logged hsort).2 hpos
  cases VERIFY_CORRECT with
  | false => exact hmem
  | true => exact verify_logged _ _ _ _ hmem

/-- Without elements, the verification loop starts reading at `A[0]`. -/
theorem main_verifies_nothing {fuel : Nat} {A : UInt32 → Double} {o : Outcome}
    (h : main true rand fuel 0 A = some o) : .access 0 ∈ o.state.log := by
  obtain ⟨s, -, rfl⟩ := Option.map_eq_some_iff.mp h
  exact verify_first (by decide) 0 s

/-- The program meets its purpose only where it has nothing to sort and nothing to verify. -/
theorem endToEnd_iff (VERIFY_CORRECT : Bool) (rand : Draws) (array_size : UInt32)
    (A : UInt32 → Double) :
    EndToEnd VERIFY_CORRECT rand array_size A ↔ array_size = 0 ∧ VERIFY_CORRECT = false := by
  constructor
  · intro hsome
    obtain ⟨fuel, o, hrun, -, hin, -, -⟩ := hsome
    by_cases hsize : array_size = 0
    · subst hsize
      cases VERIFY_CORRECT with
      | false => exact ⟨rfl, rfl⟩
      | true => exact absurd (hin 0 (main_verifies_nothing hrun)) (by decide)
    · exact absurd (hin array_size (main_touches_end hsize hrun)) (UInt32.lt_irrefl _)
  · intro hsome
    obtain ⟨rfl, rfl⟩ := hsome
    have hnone : ∀ i : UInt32, ¬ i < 0 := fun i => UInt32.not_lt_zero
    exact ⟨1, ⟨⟨A, 0, []⟩, none⟩, rfl, rfl, nofun, .refl _ _, fun i _ hi => absurd hi (hnone i)⟩

/-- One element, 5, with 3 behind it: the two change places. -/
theorem sort_takes_foreign_cell :
    (main false (fun _ => 5) 2 1 fun _ => .ofUnsigned 3).map (fun o => (o.state.A 0, o.state.A 1)) =
        some (.ofUnsigned 3, .ofUnsigned 5) ∧
      ¬ EndToEnd false (fun _ => 5) 1 fun _ => .ofUnsigned 3 := by
  refine ⟨by decide +kernel, ?_⟩
  intro hsome
  obtain ⟨fuel, o, hrun, -, hin, -, -⟩ := hsome
  exact absurd (hin 1 (main_touches_end (by decide) hrun)) (by decide)

end Cse522.Studio03.Sort

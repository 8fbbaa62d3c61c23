import Mathlib.Algebra.GroupWithZero.Nat
import Cse522.Interleave.Machine
import Cse522.Interleave.Threads
import Cse522.Studio03.DenseMm

/-!
# The parallel matrix multiplication

The threads of `omp parallel for` take the iterations over `col` in any distribution and
order, each with a `row` and an `index` of its own. A thread loads a cell, adds a product
and stores the cell in three steps, between which the others move. No column is worked on
by two threads, and the cells of different columns are different.
-/
namespace Cse522.Studio03.DenseMm

open Cse522.Interleave Cse522.Clib.Word

namespace Parallel

/-- Where an iteration over `col` stands. -/
inductive Pc where
  /-- `row < matrix_size` -/
  | rowTest
  /-- `index < matrix_size` -/
  | indexTest
  /-- the load of `C[row*matrix_size + col]` -/
  | load
  /-- the product is added -/
  | mulAdd
  /-- the store, and `index++` -/
  | store
  deriving DecidableEq, Repr

/-- The private variables of an iteration, and the value it is adding to. -/
structure Iteration (V : Type*) where
  col : UInt32
  row : UInt32
  index : UInt32
  sum : V
  pc : Pc

structure State (τ V : Type*) where
  C : UInt32 → V
  /-- the iterations that have been handed out -/
  taken : UInt32 → Bool
  threads : τ → Option (Iteration V)

inductive Act (τ : Type*) where
  /-- thread `t`, which is idle, is given the iteration `col` -/
  | take (t : τ) (col : UInt32)
  | step (t : τ)

variable {τ V : Type*} [DecidableEq τ] [Zero V] [Add V] [Mul V]

def init (C : UInt32 → V) : State τ V := ⟨C, fun _ => false, fun _ => none⟩

def State.move (s : State τ V) (t : τ) (it : Option (Iteration V)) : State τ V :=
  { s with threads := Function.update s.threads t it }

/-- One step of the iteration `it` of thread `t`. -/
def iterate (A B : UInt32 → V) (N : UInt32) (s : State τ V) (t : τ) (it : Iteration V) :
    State τ V :=
  match it.pc with
  | .rowTest =>
      s.move t (if it.row < N then some { it with index := 0, pc := .indexTest } else none)
  | .indexTest =>
      s.move t (some (if it.index < N then { it with pc := .load }
        else { it with row := it.row + 1, pc := .rowTest }))
  | .load => s.move t (some { it with sum := s.C (flat N it.row it.col), pc := .mulAdd })
  | .mulAdd => s.move t (some { it with
      sum := it.sum + A (flat N it.row it.index) * B (flat N it.index it.col), pc := .store })
  | .store =>
      { s with C := Function.update s.C (flat N it.row it.col) it.sum }.move t
        (some { it with index := it.index + 1, pc := .indexTest })

def next (A B : UInt32 → V) (N : UInt32) (s : State τ V) : Act τ → Option (State τ V)
  | .take t col =>
      match s.threads t with
      | none =>
          if col < N ∧ s.taken col = false then
            some ({ s with taken := Function.update s.taken col true }.move t
              (some ⟨col, 0, 0, 0, .rowTest⟩))
          else none
      | some _ => none
  | .step t => (s.threads t).map (iterate A B N s t)

/-- The loop nest of `parallel_dense_mm.c`, run by the threads `τ`. -/
def parallelMm (A B : UInt32 → V) (N : UInt32) : Machine (State τ V) (Act τ) := ⟨next A B N⟩

variable {A B : UInt32 → V} {N : UInt32} {s q : State τ V} {a : Act τ}

theorem take_cases {t : τ} {col : UInt32}
    (hn : (parallelMm A B N).next s (.take t col) = some q) :
    s.threads t = none ∧ col < N ∧ s.taken col = false ∧
      q = { s with taken := Function.update s.taken col true }.move t
        (some ⟨col, 0, 0, 0, .rowTest⟩) := by
  simp only [parallelMm, next] at hn
  split at hn
  · rename_i hidle
    split at hn
    · rename_i hc
      exact ⟨hidle, hc.1, hc.2, (Option.some.inj hn).symm⟩
    · cases hn
  · cases hn

theorem step_cases {t : τ} (hn : (parallelMm A B N).next s (.step t) = some q) :
    ∃ it, s.threads t = some it ∧ q = iterate A B N s t it := by
  obtain ⟨it, hit, hq⟩ := Option.map_eq_some_iff.mp hn
  exact ⟨it, hit, hq.symm⟩

/-! ## A column -/

/-- How many products the cell in row `r` holds while `row` and `index` stand there. -/
def progress (N row index r : Nat) : Nat := if r < row then N else if r = row then index else 0

/-- Column `c` of `C` has got as far as `row` and `index`. -/
def Column (A B : UInt32 → V) (N : UInt32) (C : UInt32 → V) (c : UInt32) (row index : Nat) :
    Prop :=
  ∀ r < N, C (flat N r c) = dot A B N r c (progress N.toNat row index r.toNat)

variable {C : UInt32 → V} {c c' row : UInt32} {v : V}

/-- A full row is as good as an empty next one. -/
theorem column_next_row {row : Nat} (h : Column A B N C c row N.toNat) :
    Column A B N C c (row + 1) 0 := by
  intro r hr
  have hp : progress N.toNat (row + 1) 0 r.toNat = progress N.toNat row N.toNat r.toNat := by
    simp only [progress]
    split_ifs <;> omega
  rw [hp]
  exact h r hr

/-- A store into the cell where the column stands. -/
theorem column_store (hN : N < 65536) (hrow : row < N) (hc : c < N) {index : Nat}
    (h : Column A B N C c row.toNat index) (hv : v = dot A B N row c (index + 1)) :
    Column A B N (Function.update C (flat N row c) v) c row.toNat (index + 1) := by
  intro r hr
  by_cases heq : r = row
  · subst heq
    have hp : progress N.toNat r.toNat (index + 1) r.toNat = index + 1 := by simp [progress]
    rw [Function.update_self, hp, hv]
  · have hne : flat N r c ≠ flat N row c := fun hf => heq (flat_inj hN hr hc hrow hc hf).1
    have hnat : r.toNat ≠ row.toNat := fun hn => heq (UInt32.toNat_inj.mp hn)
    have hp : progress N.toNat row.toNat (index + 1) r.toNat =
        progress N.toNat row.toNat index r.toNat := by
      simp only [progress, hnat, if_false]
    rw [Function.update_of_ne hne, hp]
    exact h r hr

/-- The columns other than `c` hold the same. -/
def SameElsewhere (N c : UInt32) (C C' : UInt32 → V) : Prop :=
  ∀ r < N, ∀ c' < N, c' ≠ c → C' (flat N r c') = C (flat N r c')

omit [Zero V] [Add V] [Mul V] in
theorem sameElsewhere_store (hN : N < 65536) (hrow : row < N) (hc : c < N) :
    SameElsewhere N c C (Function.update C (flat N row c) v) := by
  intro r hr c' hc' hne
  have hcell : flat N r c' ≠ flat N row c := fun hf => hne (flat_inj hN hr hc' hrow hc hf).2
  exact Function.update_of_ne hcell _ _

theorem SameElsewhere.column {C' : UInt32 → V} (h : SameElsewhere N c C C') (hc' : c' < N)
    (hne : c' ≠ c) {r index : Nat} (hcol : Column A B N C c' r index) :
    Column A B N C' c' r index := by
  intro r' hr'
  rw [h r' hr' c' hc' hne]
  exact hcol r' hr'

/-! ## The invariant -/

/-- What an iteration has done to its column. -/
def Working (A B : UInt32 → V) (N : UInt32) (C : UInt32 → V) (it : Iteration V) : Prop :=
  it.col < N ∧
  match it.pc with
  | .rowTest => it.row ≤ N ∧ Column A B N C it.col it.row.toNat 0
  | .indexTest => it.row < N ∧ it.index ≤ N ∧ Column A B N C it.col it.row.toNat it.index.toNat
  | .load => it.row < N ∧ it.index < N ∧ Column A B N C it.col it.row.toNat it.index.toNat
  | .mulAdd => it.row < N ∧ it.index < N ∧ Column A B N C it.col it.row.toNat it.index.toNat ∧
      it.sum = dot A B N it.row it.col it.index.toNat
  | .store => it.row < N ∧ it.index < N ∧ Column A B N C it.col it.row.toNat it.index.toNat ∧
      it.sum = dot A B N it.row it.col (it.index.toNat + 1)

structure Sound (A B : UInt32 → V) (N : UInt32) (s : State τ V) : Prop where
  untaken : ∀ c < N, s.taken c = false → Column A B N s.C c 0 0
  working : ∀ t it, s.threads t = some it → s.taken it.col = true ∧ Working A B N s.C it
  apart : ∀ t u it ju, s.threads t = some it → s.threads u = some ju → it.col = ju.col → t = u
  finished : ∀ c < N, s.taken c = true →
    (∃ t it, s.threads t = some it ∧ it.col = c) ∨ Column A B N s.C c N.toNat 0

omit [DecidableEq τ] in
theorem sound_init (h : ∀ index < N * N, C index = 0) (hN : N < 65536) :
    Sound A B N (init C : State τ V) where
  untaken := by
    intro c hc _ r hr
    have hp : progress N.toNat 0 0 r.toNat = 0 := by simp [progress]
    rw [hp]
    exact h _ (flat_lt hN hr hc)
  working := fun t it hit => by cases hit
  apart := fun t u it ju hit => by cases hit
  finished := fun c _ htaken => by cases htaken

/-- An iteration does not notice what happens in another column. -/
theorem Working.elsewhere {C' : UInt32 → V} {it : Iteration V} (h : Working A B N C it)
    (hsame : SameElsewhere N c C C') (hne : it.col ≠ c) : Working A B N C' it := by
  obtain ⟨hcol, hrest⟩ := h
  have hcolumn : ∀ {r index}, Column A B N C it.col r index → Column A B N C' it.col r index :=
    fun h => hsame.column hcol hne h
  refine ⟨hcol, ?_⟩
  cases hpc : it.pc <;> simp only [hpc] at hrest ⊢
  · exact ⟨hrest.1, hcolumn hrest.2⟩
  · exact ⟨hrest.1, hrest.2.1, hcolumn hrest.2.2⟩
  · exact ⟨hrest.1, hrest.2.1, hcolumn hrest.2.2⟩
  · exact ⟨hrest.1, hrest.2.1, hcolumn hrest.2.2.1, hrest.2.2.2⟩
  · exact ⟨hrest.1, hrest.2.1, hcolumn hrest.2.2.1, hrest.2.2.2⟩

/-- A counter that has passed its loop condition stands at the bound. -/
theorem eq_bound {i : UInt32} (h : i ≤ N) (h' : ¬ i < N) : i = N :=
  UInt32.le_antisymm h (UInt32.not_lt.mp h')

/-- A step of an iteration goes on with the iteration, in its own column, or ends it. -/
inductive Iterated (A B : UInt32 → V) (N : UInt32) (s : State τ V) (t : τ) (it : Iteration V) :
    State τ V → Prop
  | goes (C : UInt32 → V) (it' : Iteration V) (hcol : it'.col = it.col)
      (hsame : SameElsewhere N it.col s.C C) (hw : Working A B N C it') :
      Iterated A B N s t it ({ s with C }.move t (some it'))
  | ends (hdone : Column A B N s.C it.col N.toNat 0) :
      Iterated A B N s t it (s.move t none)

omit [Zero V] [Add V] [Mul V] in
theorem SameElsewhere.refl (C : UInt32 → V) : SameElsewhere N c C C := fun _ _ _ _ _ => rfl

theorem iterated {t : τ} {it : Iteration V} (hN : N < 65536) (hw : Working A B N s.C it) :
    Iterated A B N s t it (iterate A B N s t it) := by
  obtain ⟨hcol, hrest⟩ := hw
  cases hpc : it.pc <;> simp only [hpc, iterate] at hrest ⊢
  case rowTest =>
      obtain ⟨hrow, hC⟩ := hrest
      by_cases hlt : it.row < N
      · rw [if_pos hlt]
        refine .goes s.C _ rfl (.refl _) ⟨hcol, hlt, UInt32.zero_le, ?_⟩
        exact hC
      · rw [if_neg hlt]
        refine .ends ?_
        rw [eq_bound hrow hlt] at hC
        exact hC
  case indexTest =>
      obtain ⟨hrow, hindex, hC⟩ := hrest
      by_cases hlt : it.index < N
      · rw [if_pos hlt]
        exact .goes s.C _ rfl (.refl _) ⟨hcol, hrow, hlt, hC⟩
      · rw [if_neg hlt]
        refine .goes s.C _ rfl (.refl _) ⟨hcol, succ_le hrow, ?_⟩
        rw [eq_bound hindex hlt] at hC
        simp only [toNat_succ hrow]
        exact column_next_row hC
  case load =>
      obtain ⟨hrow, hindex, hC⟩ := hrest
      refine .goes s.C _ rfl (.refl _) ⟨hcol, hrow, hindex, hC, ?_⟩
      have hp : progress N.toNat it.row.toNat it.index.toNat it.row.toNat = it.index.toNat := by
        simp [progress]
      simp only [hC it.row hrow, hp]
  case mulAdd =>
      obtain ⟨hrow, hindex, hC, hsum⟩ := hrest
      refine .goes s.C _ rfl (.refl _) ⟨hcol, hrow, hindex, hC, ?_⟩
      rw [dot_succ, UInt32.ofNat_toNat]
      simp only [hsum]
  case store =>
      obtain ⟨hrow, hindex, hC, hsum⟩ := hrest
      refine .goes _ _ rfl (sameElsewhere_store hN hrow hcol) ⟨hcol, hrow, succ_le hindex, ?_⟩
      simp only [toNat_succ hindex]
      exact column_store hN hrow hcol hC hsum

omit [Zero V] [Add V] [Mul V] in
theorem threads_move {t u : τ} {x : Option (Iteration V)} {it : Iteration V} :
    (s.move t x).threads u = some it ↔ (u = t ∧ x = some it) ∨ (u ≠ t ∧ s.threads u = some it) :=
  update_eq_some

/-- A thread takes a column that nobody has worked on. -/
theorem sound_take {t : τ} (h : Sound A B N s) (hidle : s.threads t = none) (hc : c < N)
    (hfree : s.taken c = false) :
    Sound A B N ({ s with taken := Function.update s.taken c true }.move t
      (some ⟨c, 0, 0, 0, .rowTest⟩)) := by
  have hcol : ∀ u it, s.threads u = some it → it.col ≠ c := by
    intro u it hit heq
    have htaken := (h.working u it hit).1
    rw [heq, hfree] at htaken
    cases htaken
  constructor
  · intro c' hc' hno
    by_cases heq : c' = c
    · subst heq
      simp [State.move] at hno
    · exact h.untaken c' hc' (by simpa [State.move, heq] using hno)
  · intro u it hit
    rcases threads_move.mp hit with ⟨rfl, hx⟩ | ⟨hu, hit⟩
    · obtain rfl := Option.some.inj hx
      exact ⟨by simp [State.move], hc, UInt32.zero_le, h.untaken c hc hfree⟩
    · obtain ⟨htaken, hw⟩ := h.working u it hit
      exact ⟨by simp [State.move, hcol u it hit, htaken], hw⟩
  · intro u w it ju hit hju heq
    rcases threads_move.mp hit with ⟨hu, hx⟩ | ⟨hu, hit'⟩
    · rcases threads_move.mp hju with ⟨hw, -⟩ | ⟨hw, hju'⟩
      · rw [hu, hw]
      · obtain rfl := Option.some.inj hx
        exact absurd heq.symm (hcol w ju hju')
    · rcases threads_move.mp hju with ⟨hw, hx⟩ | ⟨hw, hju'⟩
      · obtain rfl := Option.some.inj hx
        exact absurd heq (hcol u it hit')
      · exact h.apart u w it ju hit' hju' heq
  · intro c' hc' htaken
    by_cases heq : c' = c
    · exact .inl ⟨t, ⟨c, 0, 0, 0, .rowTest⟩, threads_move.mpr (.inl ⟨rfl, rfl⟩), heq.symm⟩
    · rcases h.finished c' hc' (by simpa [State.move, heq] using htaken) with hex | hdone
      · obtain ⟨u, it, hit, hitc⟩ := hex
        have hu : u ≠ t := by
          intro hu
          rw [hu, hidle] at hit
          cases hit
        exact .inl ⟨u, it, threads_move.mpr (.inr ⟨hu, hit⟩), hitc⟩
      · exact .inr hdone

/-- A column of another thread is still worked on, and a finished one is still finished. -/
theorem Sound.finished_other {t : τ} {it : Iteration V} {x : Option (Iteration V)}
    {C' : UInt32 → V} (h : Sound A B N s) (hit : s.threads t = some it)
    (hsame : SameElsewhere N it.col s.C C') (hc : c < N) (hne : c ≠ it.col)
    (htaken : s.taken c = true) :
    (∃ u ju, ({ s with C := C' }.move t x).threads u = some ju ∧ ju.col = c) ∨
      Column A B N C' c N.toNat 0 := by
  rcases h.finished c hc htaken with hex | hdone
  · obtain ⟨u, ju, hju, hjuc⟩ := hex
    have hu : u ≠ t := by
      intro hu
      rw [hu, hit, Option.some.injEq] at hju
      exact hne (by rw [← hjuc, hju])
    exact .inl ⟨u, ju, threads_move.mpr (.inr ⟨hu, hju⟩), hjuc⟩
  · exact .inr (hsame.column hc hne hdone)

theorem sound_iterated {t : τ} {it : Iteration V} (h : Sound A B N s)
    (hit : s.threads t = some it) (hq : Iterated A B N s t it q) : Sound A B N q := by
  obtain ⟨htaken, hwork⟩ := h.working t it hit
  -- the others work on other columns
  have hother : ∀ u ju, u ≠ t → s.threads u = some ju → ju.col ≠ it.col := by
    intro u ju hu hju heq
    exact hu (h.apart u t ju it hju hit heq)
  cases hq with
  | goes C it' hcol hsame hw =>
      constructor
      · intro c hc hno
        have hne : c ≠ it.col := by
          intro heq
          rw [heq] at hno
          exact absurd (htaken.symm.trans hno) (by decide)
        exact hsame.column hc hne (h.untaken c hc hno)
      · intro u ju hju
        rcases threads_move.mp hju with ⟨rfl, hx⟩ | ⟨hu, hju⟩
        · obtain rfl := Option.some.inj hx
          exact ⟨by rw [hcol]; exact htaken, hw⟩
        · obtain ⟨htaken', hw'⟩ := h.working u ju hju
          exact ⟨htaken', hw'.elsewhere hsame (hother u ju hu hju)⟩
      · intro u w ju kw hju hkw heq
        rcases threads_move.mp hju with ⟨hu, hx⟩ | ⟨hu, hju'⟩
        · rcases threads_move.mp hkw with ⟨hw', -⟩ | ⟨hw', hkw'⟩
          · rw [hu, hw']
          · obtain rfl := Option.some.inj hx
            rw [hcol] at heq
            exact absurd heq.symm (hother w kw hw' hkw')
        · rcases threads_move.mp hkw with ⟨hw', hx⟩ | ⟨hw', hkw'⟩
          · obtain rfl := Option.some.inj hx
            rw [hcol] at heq
            exact absurd heq (hother u ju hu hju')
          · exact h.apart u w ju kw hju' hkw' heq
      · intro c hc htk
        by_cases heq : c = it.col
        · exact .inl ⟨t, it', threads_move.mpr (.inl ⟨rfl, rfl⟩), by rw [hcol, heq]⟩
        · exact h.finished_other hit hsame hc heq htk
  | ends hdone =>
      constructor
      · exact h.untaken
      · intro u ju hju
        rcases threads_move.mp hju with ⟨-, hx⟩ | ⟨-, hju⟩
        · cases hx
        · exact h.working u ju hju
      · intro u w ju kw hju hkw heq
        rcases threads_move.mp hju with ⟨-, hx⟩ | ⟨-, hju⟩
        · cases hx
        · rcases threads_move.mp hkw with ⟨-, hx⟩ | ⟨-, hkw⟩
          · cases hx
          · exact h.apart u w ju kw hju hkw heq
      · intro c hc htk
        by_cases heq : c = it.col
        · exact .inr (heq ▸ hdone)
        · exact h.finished_other hit (.refl s.C) hc heq htk

theorem sound_step (hN : N < 65536) (h : Sound A B N s)
    (hn : (parallelMm A B N).next s a = some q) : Sound A B N q := by
  cases a with
  | take t col =>
      obtain ⟨hidle, hc, hfree, rfl⟩ := take_cases hn
      exact sound_take h hidle hc hfree
  | step t =>
      obtain ⟨it, hit, rfl⟩ := step_cases hn
      exact sound_iterated h hit (iterated hN (h.working t it hit).2)

/-! ## Every run ends -/

/-- The steps left in an iteration. -/
def left (N : UInt32) (it : Iteration V) : Nat :=
  let n := N.toNat
  match it.pc with
  | .rowTest => (n - it.row.toNat) * (4 * n + 2) + 1
  | .indexTest => (n - it.row.toNat - 1) * (4 * n + 2) + 4 * (n - it.index.toNat) + 2
  | .load => (n - it.row.toNat - 1) * (4 * n + 2) + 4 * (n - it.index.toNat) + 1
  | .mulAdd => (n - it.row.toNat - 1) * (4 * n + 2) + 4 * (n - it.index.toNat)
  | .store => (n - it.row.toNat - 1) * (4 * n + 2) + 4 * (n - it.index.toNat) - 1

/-- The steps of a whole iteration, the one that takes it included. -/
def perColumn (N : UInt32) : Nat := N.toNat * (4 * N.toNat + 2) + 2

/-- The steps left in all. -/
def work [Fintype τ] (N : UInt32) (s : State τ V) : Nat :=
  ∑ c ∈ Finset.range N.toNat, (if s.taken (UInt32.ofNat c) then 0 else perColumn N) +
    ∑ t, (s.threads t).elim 0 (left N)

omit [Zero V] [Add V] [Mul V] in
theorem threads_move_self {t : τ} {x : Option (Iteration V)} : (s.move t x).threads t = x := by
  simp [State.move]

/-- A row less to go. -/
theorem rows_succ {i : UInt32} (h : i < N) (m : Nat) :
    (N.toNat - i.toNat) * m = (N.toNat - i.toNat - 1) * m + m := by
  have hlt := lt_iff_toNat.mp h
  obtain ⟨k, hk⟩ : ∃ k, N.toNat - i.toNat = k + 1 := ⟨N.toNat - i.toNat - 1, by omega⟩
  rw [hk, Nat.add_sub_cancel, Nat.succ_mul]

theorem left_iterate {t : τ} {it : Iteration V} (hw : Working A B N s.C it) :
    ((iterate A B N s t it).threads t).elim 0 (left N) < left N it := by
  obtain ⟨-, hrest⟩ := hw
  cases hpc : it.pc <;> simp only [hpc, iterate, threads_move_self] at hrest ⊢
  case rowTest =>
      by_cases hlt : it.row < N
      · have hrow := rows_succ hlt (4 * N.toNat + 2)
        simp only [if_pos hlt, Option.elim_some, left, hpc, UInt32.toNat_zero]
        omega
      · simp [if_neg hlt, left, hpc]
  case indexTest =>
      by_cases hlt : it.index < N
      · simp only [if_pos hlt, Option.elim_some, left, hpc]
        omega
      · have hsub : N.toNat - (it.row.toNat + 1) = N.toNat - it.row.toNat - 1 := by omega
        simp only [if_neg hlt, Option.elim_some, left, hpc, toNat_succ hrest.1, hsub]
        omega
  case load | mulAdd =>
      have hlt := lt_iff_toNat.mp hrest.2.1
      simp only [Option.elim_some, left, hpc]
      omega
  case store =>
      have hlt := lt_iff_toNat.mp hrest.2.1
      simp only [Option.elim_some, left, hpc, toNat_succ hrest.2.1]
      omega

/-- A column taken leaves the sum. -/
theorem sum_take (taken : UInt32 → Bool) (hc : c < N) (hfree : taken c = false) (k : Nat) :
    ∑ i ∈ Finset.range N.toNat,
        (if Function.update taken c true (UInt32.ofNat i) then 0 else k) + k =
      ∑ i ∈ Finset.range N.toNat, if taken (UInt32.ofNat i) then 0 else k := by
  have hmem : c.toNat ∈ Finset.range N.toNat := Finset.mem_range.mpr (lt_iff_toNat.mp hc)
  have hrest : ∑ i ∈ (Finset.range N.toNat).erase c.toNat,
        (if Function.update taken c true (UInt32.ofNat i) then 0 else k) =
      ∑ i ∈ (Finset.range N.toNat).erase c.toNat, if taken (UInt32.ofNat i) then 0 else k := by
    refine Finset.sum_congr rfl fun i hi => ?_
    obtain ⟨hne, hi⟩ := Finset.mem_erase.mp hi
    have hic : UInt32.ofNat i ≠ c := by
      intro heq
      apply hne
      rw [← heq, toNat_ofNat_of_lt (Finset.mem_range.mp hi)]
    rw [Function.update_of_ne hic]
  rw [← Finset.add_sum_erase _ _ hmem, ← Finset.add_sum_erase (a := c.toNat) _
    (fun i => if taken (UInt32.ofNat i) then 0 else k) hmem, hrest]
  simp only [UInt32.ofNat_toNat, Function.update_self, if_true, hfree, Bool.false_eq_true,
    if_false]
  omega

variable [Fintype τ]

theorem work_step (h : Sound A B N s) (hn : (parallelMm A B N).next s a = some q) :
    work N q < work N s := by
  cases a with
  | take t col =>
      obtain ⟨hidle, hc, hfree, rfl⟩ := take_cases hn
      have hsum := sum_update (fun x : Option (Iteration V) => x.elim 0 (left N)) s.threads t
        (some ⟨col, 0, 0, 0, .rowTest⟩)
      have htake := sum_take s.taken hc hfree (perColumn N)
      simp only [hidle, Option.elim_none, Option.elim_some, left, UInt32.toNat_zero,
        Nat.sub_zero] at hsum
      have hper : perColumn N = N.toNat * (4 * N.toNat + 2) + 1 + 1 := rfl
      show ∑ i ∈ Finset.range N.toNat,
          (if Function.update s.taken col true (UInt32.ofNat i) then 0 else perColumn N) +
        ∑ u, (Function.update s.threads t (some ⟨col, 0, 0, 0, .rowTest⟩) u).elim 0 (left N) <
        work N s
      unfold work
      omega
  | step t =>
      obtain ⟨it, hit, rfl⟩ := step_cases hn
      have hlt := left_iterate (t := t) (h.working t it hit).2
      have hmove : ∃ x, (iterate A B N s t it).threads = Function.update s.threads t x ∧
          (iterate A B N s t it).taken = s.taken := by
        unfold iterate
        split <;> exact ⟨_, rfl, rfl⟩
      obtain ⟨x, hthreads, htaken⟩ := hmove
      have hsum := sum_update (fun x : Option (Iteration V) => x.elim 0 (left N)) s.threads t x
      rw [hthreads, Function.update_self] at hlt
      simp only [work, hthreads, htaken, hit, Option.elim_some] at hsum ⊢
      omega

/-! ## The end of a run -/

/-- No thread can move, and no iteration can be handed out. -/
def Over (A B : UInt32 → V) (N : UInt32) (s : State τ V) : Prop :=
  ∀ a, (parallelMm A B N).next s a = none

omit [Fintype τ] in
theorem over_of_idle (hidle : ∀ t, s.threads t = none) (htaken : ∀ c < N, s.taken c = true) :
    Over A B N s := by
  intro a
  cases a with
  | take t col =>
      by_cases hc : col < N
      · simp [parallelMm, next, hidle t, htaken col hc]
      · simp [parallelMm, next, hidle t, hc]
  | step t => simp [parallelMm, next, hidle t]

omit [Fintype τ] in
/-- At the end every column is finished. -/
theorem column_of_over [Nonempty τ] (h : Sound A B N s) (hover : Over A B N s) (hc : c < N) :
    Column A B N s.C c N.toNat 0 := by
  have hidle : ∀ t, s.threads t = none := by
    intro t
    have hstep := hover (.step t)
    simpa [parallelMm, next] using hstep
  have htaken : s.taken c = true := by
    obtain ⟨t⟩ := ‹Nonempty τ›
    by_contra hno
    have hfree : s.taken c = false := by simpa using hno
    have htake := hover (.take t c)
    simp [parallelMm, next, hidle t, hc, hfree] at htake
  rcases h.finished c hc htaken with hex | hdone
  · obtain ⟨t, it, hit, -⟩ := hex
    rw [hidle t] at hit
    cases hit
  · exact hdone

end Parallel

open Parallel

/-- The work that all columns together take. -/
def workload (N : UInt32) : Nat := N.toNat * perColumn N

/-- Whatever threads there are, however they share the columns and interleave, they come to
an end, and then `C` is cell by cell what the serial check puts into `D` and `dense_mm.c`
into its `C`: the products of row and column added up from the left. -/
theorem parallelMm_eq_serial {τ V : Type*} [DecidableEq τ] [Fintype τ] [Nonempty τ] [Zero V]
    [Add V] [Mul V] {N : UInt32} (hN : N < 65536) (A B C₀ D₀ E₀ : UInt32 → V)
    {as : List (Act τ)} {s : State τ V}
    (hr : (parallelMm A B N).run (init (zeroed N C₀)) as = some s) :
    as.length ≤ workload N ∧
    (Over A B N s →
      (∀ index < N * N, s.C index = serialMm A B N (zeroed N D₀) index ∧
        s.C index = denseMm A B N (zeroed N E₀) index) ∧
      ∀ r < N, ∀ c < N, s.C (r * N + c) = dot A B N r c N.toNat) := by
  have h0 : Sound A B N (init (zeroed N C₀) : State τ V) :=
    sound_init (fun index hi => zeroed_apply hi C₀) hN
  have hs : Sound A B N s := Machine.Reachable.invariant (sound_step hN) h0 ⟨as, hr⟩
  constructor
  · have hlen := Machine.length_le_of_decreasing
      (fun h hn => ⟨sound_step hN h hn, work_step h hn⟩) h0 hr
    have hwork : work N (init (zeroed N C₀) : State τ V) = workload N := by
      simp [work, init, workload]
    omega
  · intro hover
    have hcell : ∀ r < N, ∀ c < N, s.C (flat N r c) = dot A B N r c N.toNat := by
      intro r hr c hc
      have hp : progress N.toNat N.toNat 0 r.toNat = N.toNat := by
        simp [progress, lt_iff_toNat.mp hr]
      rw [column_of_over hs hover hc r hr, hp]
    refine ⟨fun index hi => ?_, hcell⟩
    obtain ⟨r, c, hr, hc, rfl⟩ := exists_flat hN hi
    rw [hcell r hr c hc, serialMm_apply hN D₀ hr hc, denseMm_apply hN E₀ hr hc]
    exact ⟨rfl, rfl⟩

/-- Two threads in lock step, on a column each. -/
def lockStep : List (Act Bool) :=
  [.take false 0, .take true 1] ++ (List.replicate 21 [.step false, .step true]).flatten

/-- 1 2 and 3 4, times 5 6 and 7 8, into cells that held 99. -/
def twoByTwo : Option (State Bool Nat) :=
  (parallelMm (fun i => i.toNat + 1) (fun i => i.toNat + 5) 2).run
    (init (zeroed 2 fun _ => 99)) lockStep

theorem parallelMm_two_by_two :
    ∃ s, twoByTwo = some s ∧ s.C 3 = 50 ∧
      s.C 3 = serialMm (fun i => i.toNat + 1) (fun i => i.toNat + 5) 2 (zeroed 2 fun _ => 0) 3 := by
  obtain ⟨s, hs⟩ := Option.isSome_iff_exists.mp (show twoByTwo.isSome by decide +kernel)
  have hread : ∀ {α : Type} {f : State Bool Nat → α} {x : α},
      twoByTwo.map f = some x → f s = x := by
    intro α f x hf
    rw [hs] at hf
    exact Option.some.inj hf
  have hidle : ∀ t, s.threads t = none := by
    intro t
    cases t
    · exact Option.isNone_iff_eq_none.mp
        (hread (f := fun s => (s.threads false).isNone) (by decide +kernel))
    · exact Option.isNone_iff_eq_none.mp
        (hread (f := fun s => (s.threads true).isNone) (by decide +kernel))
  have htaken : ∀ c < 2, s.taken c = true := by
    intro c hc
    have hlt := lt_iff_toNat.mp hc
    obtain rfl | rfl : c = 0 ∨ c = 1 := by
      have hcases : c.toNat = 0 ∨ c.toNat = 1 := by
        have h2 : (2 : UInt32).toNat = 2 := rfl
        omega
      rcases hcases with h | h
      · exact .inl (UInt32.toNat_inj.mp h)
      · exact .inr (UInt32.toNat_inj.mp h)
    · exact hread (f := fun s => s.taken 0) (by decide +kernel)
    · exact hread (f := fun s => s.taken 1) (by decide +kernel)
  have hall := (parallelMm_eq_serial (by decide) _ _ _ (fun _ => 0) (fun _ => 0) hs).2
    (over_of_idle hidle htaken)
  exact ⟨s, hs, hread (f := fun s => s.C 3) (by decide +kernel), (hall.1 3 (by decide)).1⟩

end Cse522.Studio03.DenseMm

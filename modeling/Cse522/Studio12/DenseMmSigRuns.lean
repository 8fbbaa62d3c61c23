import Mathlib.Algebra.GroupWithZero.Nat
import Cse522.Interleave.Phases
import Cse522.Studio12.DenseMmSig

/-!
# The product is not disturbed

The handler changes only `gs32total`, so whatever signals come, `main` takes as many statements
as without them and its product is the one of the matrices it has drawn. The printed count is that
of the signals delivered so far; signals that were merged are not in it.
-/
namespace Cse522.Studio12.DenseMmSig

open Cse522.Clib.Loops Cse522.Clib.Stdio Cse522.Clib.Word Cse522.Interleave
open Cse522.Studio03.DenseMm (flat denseMmSize zeroed zeroed_apply denseMm dot)

variable {V : Type*} [Zero V] [Add V] [Mul V]

/-! ## The statements that are left -/

/-- The statements of one pass of the loop over the columns, with its last test left out. -/
def perCol (n : Nat) : Nat := 4 * n + 4

def perRow (n : Nat) : Nat := n * perCol n + 4

/-- The statements from the test of `row` on. -/
def fromRow (n row : Nat) : Nat := (n - row) * perRow n + 4

/-- Those from the test of `col` on. -/
def fromCol (n row col : Nat) : Nat := (n - col) * perCol n + 2 + fromRow n (row + 1)

def fromIndex (n row col index : Nat) : Nat := (n - index) * 4 + 2 + fromCol n row (col + 1)

/-- Those from the test of the loop that fills the matrices on. -/
def fromFill (n squared_size index : Nat) : Nat :=
  (squared_size - index) * 5 + 3 + fromRow n 0

/-- Those from the test of `argc` on. -/
def fromArgs (argv : List String) : Nat :=
  match denseMmSize argv with
  | none => 1
  | some N => fromFill N.toNat (N * N).toNat 0 + 3

def Prog.left (argv : List String) (p : Prog V) : Nat :=
  let n := p.matrix_size.toNat
  let row := p.row.toNat
  let col := p.col.toNat
  let index := p.index.toNat
  let squared_size := (p.matrix_size * p.matrix_size).toNat
  match p.pc with
  | .sigaction => fromArgs argv + 1
  | .args => fromArgs argv
  | .generating => fromFill n squared_size 0 + 2
  | .fillInit => fromFill n squared_size 0 + 1
  | .fillTest => fromFill n squared_size index
  | .fillA => fromFill n squared_size (index + 1) + 4
  | .fillB => fromFill n squared_size (index + 1) + 3
  | .fillC => fromFill n squared_size (index + 1) + 2
  | .fillIncr => fromFill n squared_size (index + 1) + 1
  | .multiplying => fromRow n 0 + 2
  | .rowInit => fromRow n 0 + 1
  | .rowTest => fromRow n row
  | .colInit => fromCol n row 0 + 1
  | .colTest => fromCol n row col
  | .indexInit => fromIndex n row col 0 + 1
  | .indexTest => fromIndex n row col index
  | .add => fromIndex n row col (index + 1) + 3
  | .store => fromIndex n row col (index + 1) + 2
  | .indexIncr => fromIndex n row col (index + 1) + 1
  | .colIncr => fromCol n row (col + 1) + 1
  | .rowIncr => fromRow n (row + 1) + 1
  | .done => 3
  | .count => 2
  | .ret => 1
  | .finished | .failed | .killed => 0

theorem sub_mul_of_lt {i n : Nat} (h : i < n) (c : Nat) :
    (n - i) * c = (n - (i + 1)) * c + c := by
  have hsucc : n - i = n - (i + 1) + 1 := by omega
  rw [hsucc, Nat.succ_mul]

theorem fromRow_of_lt {n row : Nat} (h : row < n) : fromRow n row = fromCol n row 0 + 2 := by
  rw [fromRow, fromCol, fromRow, sub_mul_of_lt h, perRow, Nat.sub_zero]
  omega

theorem fromCol_of_lt {n row col : Nat} (h : col < n) :
    fromCol n row col = fromIndex n row col 0 + 2 := by
  rw [fromCol, fromIndex, fromCol, sub_mul_of_lt h, perCol]
  omega

theorem fromIndex_of_lt {n row col index : Nat} (h : index < n) :
    fromIndex n row col index = fromIndex n row col (index + 1) + 4 := by
  rw [fromIndex, fromIndex, sub_mul_of_lt h]
  omega

theorem fromFill_of_lt {n squared_size index : Nat} (h : index < squared_size) :
    fromFill n squared_size index = fromFill n squared_size (index + 1) + 5 := by
  rw [fromFill, fromFill, sub_mul_of_lt h]
  omega

variable {rand : Nat → V} {argv : List String} {gs32total : Int32} {A B C₀ : UInt32 → V}
  {p q : Prog V}

omit [Zero V] [Add V] [Mul V] in
theorem left_readArgs : (readArgs argv p).left argv + 1 = fromArgs argv := by
  by_cases hlen : argv.length ≠ 2
  · have hnone : denseMmSize argv = none := if_pos hlen
    simp only [readArgs, fromArgs, hnone, if_pos hlen]
    rfl
  · cases hsize : denseMmSize argv with
    | none =>
        simp only [readArgs, fromArgs, hsize, if_neg hlen]
        rfl
    | some matrix_size =>
        simp only [readArgs, fromArgs, hsize, if_neg hlen]
        rfl

/-- Every statement of `main` is one less to go. -/
theorem left_statement (hin : p.InRange) (ht : statement rand argv gs32total p = some q) :
    q.left argv + 1 = p.left argv := by
  unfold Prog.InRange at hin
  cases hpc : p.pc <;>
    simp only [statement, hpc, Option.some.injEq, reduceCtorEq] at ht hin <;> subst ht
  case args =>
      rw [left_readArgs, Prog.left, hpc]
  case fillTest =>
      by_cases hlt : p.index < p.matrix_size * p.matrix_size
      · rw [if_pos hlt]
        simp only [Prog.left, hpc, fromFill_of_lt (lt_iff_toNat.mp hlt)]
      · rw [if_neg hlt]
        simp only [Prog.left, hpc, toNat_eq_of_not_lt hin hlt, fromFill]
        omega
  case fillIncr => simp only [Prog.left, hpc, toNat_succ hin]
  case rowTest =>
      by_cases hlt : p.row < p.matrix_size
      · rw [if_pos hlt]
        simp only [Prog.left, hpc, fromRow_of_lt (lt_iff_toNat.mp hlt)]
      · rw [if_neg hlt]
        simp only [Prog.left, hpc, toNat_eq_of_not_lt hin hlt, fromRow, Nat.sub_self, Nat.zero_mul]
  case colTest =>
      by_cases hlt : p.col < p.matrix_size
      · rw [if_pos hlt]
        simp only [Prog.left, hpc, fromCol_of_lt (lt_iff_toNat.mp hlt)]
      · rw [if_neg hlt]
        simp only [Prog.left, hpc, toNat_eq_of_not_lt hin.2 hlt, fromCol, Nat.sub_self,
          Nat.zero_mul]
        omega
  case indexTest =>
      by_cases hlt : p.index < p.matrix_size
      · rw [if_pos hlt]
        simp only [Prog.left, hpc, fromIndex_of_lt (lt_iff_toNat.mp hlt)]
      · rw [if_neg hlt]
        simp only [Prog.left, hpc, toNat_eq_of_not_lt hin.2.2 hlt, fromIndex]
        omega
  case indexIncr => simp only [Prog.left, hpc, toNat_succ hin.2.2]
  case colIncr => simp only [Prog.left, hpc, toNat_succ hin.2]
  case rowIncr => simp only [Prog.left, hpc, toNat_succ hin]
  all_goals simp only [Prog.left, Prog.print, hpc, UInt32.toNat_zero]

/-! ## Runs -/

variable {s t : State V} {a : Act} {as : List Act}

structure Inv (rand : Nat → V) (argv : List String) (C₀ : UInt32 → V) (s : State V) : Prop where
  inRange : s.prog.InRange
  computed : Computed C₀ s.prog
  filled : Filled rand s.prog
  printed : Printed argv s.prog

theorem inv_init : Inv rand argv C₀ (init A B C₀) where
  inRange := trivial
  computed := ⟨rfl, nofun⟩
  filled := ⟨rfl, nofun, nofun⟩
  printed := ⟨nofun, fun _ ht => Option.some.inj ht⟩

/-- The steps of the state, one constructor for each kind. -/
inductive Step (rand : Nat → V) (argv : List String) (s : State V) : Act → State V → Prop where
  | main (hidle : s.handler = .idle) {prog : Prog V}
      (ht : statement rand argv s.gs32total s.prog = some prog) :
      Step rand argv s .main { s with prog }
  | sigint (halive : s.prog.pc.over = false) : Step rand argv s .sigint { s with pending := true }
  | kill (hpending : s.pending = true) (hidle : s.handler = .idle)
      (hpc : s.prog.pc = .sigaction) : Step rand argv s .deliver
      { s with prog := { s.prog with pc := .killed }, pending := false }
  | deliver (hpending : s.pending = true) (hidle : s.handler = .idle)
      (halive : s.prog.pc.over = false) (hpc : s.prog.pc ≠ .sigaction) :
      Step rand argv s .deliver { s with pending := false, handler := .load }
  | load (hload : s.handler = .load) :
      Step rand argv s .load { s with handler := .store s.gs32total }
  | store {s32temp : Int32} (hstore : s.handler = .store s32temp) :
      Step rand argv s .store { s with gs32total := s32temp + 1, handler := .idle }

theorem step_of_next (hn : (denseMmSig rand argv).next s a = some t) : Step rand argv s a t := by
  cases a with
  | main =>
      obtain ⟨hidle, hn⟩ := Option.ite_none_right_eq_some.mp hn
      obtain ⟨prog, ht, rfl⟩ := Option.map_eq_some_iff.mp hn
      exact .main hidle ht
  | sigint =>
      obtain ⟨halive, hn⟩ := Option.ite_none_left_eq_some.mp hn
      obtain rfl := Option.some.inj hn
      exact .sigint (Bool.eq_false_iff.mpr halive)
  | deliver =>
      obtain ⟨⟨hpending, hidle, halive⟩, hn⟩ := Option.ite_none_right_eq_some.mp hn
      by_cases hpc : s.prog.pc = .sigaction
      · rw [if_pos hpc] at hn
        obtain rfl := Option.some.inj hn
        exact .kill hpending hidle hpc
      · rw [if_neg hpc] at hn
        obtain rfl := Option.some.inj hn
        exact .deliver hpending hidle halive hpc
  | load =>
      obtain ⟨hload, hn⟩ := Option.ite_none_right_eq_some.mp hn
      obtain rfl := Option.some.inj hn
      exact .load hload
  | store =>
      cases hstore : s.handler <;>
        simp only [denseMmSig, next, hstore, reduceCtorEq, Option.some.injEq] at hn
      obtain rfl := hn
      exact .store hstore

/-- Before `sigaction`, nothing has been done that a signal could interrupt. -/
theorem inv_killed (h : Inv rand argv C₀ s) (hpc : s.prog.pc = .sigaction) :
    Inv rand argv C₀ { s with prog := { s.prog with pc := .killed }, pending := false } where
  inRange := trivial
  computed := by
    have hC := h.computed.C
    rw [Prog.product, hpc] at hC
    exact ⟨hC, nofun⟩
  filled := filled_congr h.filled rfl rfl rfl (by rw [Prog.filledA, Prog.filledA, hpc])
    (by rw [Prog.filledB, Prog.filledB, hpc])
  printed := ⟨nofun, fun text ht => h.printed.stdout text (by rw [hpc]; exact ht)⟩

theorem inv_step (h : Inv rand argv C₀ s) (hn : (denseMmSig rand argv).next s a = some t) :
    Inv rand argv C₀ t := by
  cases step_of_next hn with
  | main _ ht =>
      exact ⟨inRange_statement h.inRange ht, computed_statement h.computed h.inRange ht,
        filled_statement h.filled h.inRange ht, printed_statement h.printed ht⟩
  | kill _ _ hpc => exact inv_killed h hpc
  | sigint | deliver | load | store => exact ⟨h.inRange, h.computed, h.filled, h.printed⟩

/-! ## The bound -/

def Handler.left : Handler → Nat
  | .idle => 0
  | .load => 2
  | .store _ => 1

/-- The steps that are left if no further signal is sent. -/
def State.left (argv : List String) (s : State V) : Nat :=
  s.prog.left argv + s.handler.left + if s.pending then 3 else 0

/-- Each step is one less to go, except that a signal brings its delivery and the two steps of
the handler. -/
theorem left_step (h : Inv rand argv C₀ s) (hn : (denseMmSig rand argv).next s a = some t) :
    t.left argv + 1 ≤ s.left argv + if a = .sigint then 4 else 0 := by
  cases step_of_next hn with
  | @main _ prog ht =>
      have hleft : prog.left argv + 1 = s.prog.left argv := left_statement h.inRange ht
      simp only [State.left, reduceCtorEq, if_false]
      omega
  | sigint =>
      simp only [State.left, if_true]
      split <;> omega
  | kill hpending _ hpc =>
      have hzero : Prog.left argv { s.prog with pc := .killed } = 0 := rfl
      simp only [State.left, hzero, hpending, reduceCtorEq, if_true, if_false, Bool.false_eq_true]
      omega
  | deliver hpending hidle =>
      simp only [State.left, hpending, hidle, Handler.left, reduceCtorEq, if_true, if_false,
        Bool.false_eq_true]
      omega
  | load hload =>
      simp only [State.left, hload, Handler.left, reduceCtorEq, if_false]
      omega
  | store hstore =>
      simp only [State.left, hstore, Handler.left, reduceCtorEq, if_false]
      omega

/-- As long as the process lives, it can move without a further signal. -/
theorem moves (rand : Nat → V) (argv : List String) (s : State V) (h : s.prog.pc.over = false) :
    ∃ a t, a ≠ .sigint ∧ (denseMmSig rand argv).next s a = some t := by
  cases hh : s.handler with
  | idle =>
      have hmain : ∃ prog, statement rand argv s.gs32total s.prog = some prog := by
        cases hpc : s.prog.pc <;> rw [hpc] at h <;> simp only [statement, hpc] <;>
          first | exact ⟨_, rfl⟩ | exact absurd h (by decide)
      obtain ⟨prog, hprog⟩ := hmain
      refine ⟨.main, { s with prog }, by decide, ?_⟩
      simp only [denseMmSig, next, hh, hprog, if_true, Option.map_some]
  | load => exact ⟨.load, _, by decide, if_pos hh⟩
  | store s32temp =>
      refine ⟨.store, { s with gs32total := s32temp + 1, handler := .idle }, by decide, ?_⟩
      simp only [denseMmSig, next, hh]

/-! ## The count -/

def State.waiting (s : State V) : Nat := if s.pending then 1 else 0

def Handler.running : Handler → Nat
  | .idle => 0
  | .load | .store _ => 1

/-- What the steps taken so far say about the signals, and about the statements of `main`. -/
structure Tally (argv : List String) (as : List Act) (s : State V) : Prop where
  merged : as.count .deliver + s.waiting ≤ as.count .sigint
  kept : 0 < as.count .sigint → 0 < as.count .deliver + s.waiting
  temp : ∀ s32temp, s.handler = .store s32temp → s32temp = s.gs32total
  total : s.gs32total = Int32.ofNat (as.count .store)
  handled : s.prog.pc ≠ .killed → as.count .deliver = as.count .store + s.handler.running
  statements : s.prog.pc ≠ .killed → as.count .main + s.prog.left argv = fromArgs argv + 1
  shown : s.prog.pc = .ret ∨ s.prog.pc = .finished → ∃ bs cs, as = bs ++ .main :: cs ∧
    s.prog.stdout = generatingLine ++ multiplyingLine ++ doneLine ++
      countLine (Int32.ofNat (bs.count .deliver))

omit [Add V] [Mul V] in
theorem tally_init : Tally argv [] (init A B C₀) where
  merged := Nat.le_refl 0
  kept h := absurd h (Nat.lt_irrefl 0)
  temp := nofun
  total := rfl
  handled _ := rfl
  statements _ := Nat.zero_add _
  shown h := by rcases h with h | h <;> cases h

/-- A later step changes neither the text nor what was counted for it. -/
theorem shown_append {text : List Char}
    (h : ∃ bs cs, as = bs ++ Act.main :: cs ∧
      text = generatingLine ++ multiplyingLine ++ doneLine ++
        countLine (Int32.ofNat (bs.count .deliver))) (a : Act) :
    ∃ bs cs, as ++ [a] = bs ++ Act.main :: cs ∧
      text = generatingLine ++ multiplyingLine ++ doneLine ++
        countLine (Int32.ofNat (bs.count .deliver)) := by
  obtain ⟨bs, cs, rfl, htext⟩ := h
  exact ⟨bs, cs ++ [a], by simp, htext⟩

theorem killed_of_statement (ht : statement rand argv gs32total p = some q) :
    p.pc ≠ .killed ∧ q.pc ≠ .killed := by
  constructor
  · intro hpc
    simp only [statement, hpc, reduceCtorEq] at ht
  · cases hpc : p.pc <;>
      simp only [statement, hpc, Option.some.injEq, reduceCtorEq] at ht <;> subst ht
    case args =>
        unfold readArgs
        split
        · simp [Prog.print]
        · split <;> simp [Prog.print]
    case fillTest | rowTest | colTest | indexTest => split <;> simp
    all_goals simp [Prog.print]

theorem tally_main (hi : Inv rand argv C₀ s) (h : Tally argv as s) (hidle : s.handler = .idle)
    {prog : Prog V} (ht : statement rand argv s.gs32total s.prog = some prog) :
    Tally argv (as ++ [.main]) { s with prog } where
  merged := by simpa [State.waiting] using h.merged
  kept := by simpa [State.waiting] using h.kept
  temp := h.temp
  total := by simpa using h.total
  handled _ := by simpa using h.handled (killed_of_statement ht).1
  statements _ := by
    have hleft := left_statement hi.inRange ht
    have hsum := h.statements (killed_of_statement ht).1
    simp only [List.count_append, List.count_singleton_self]
    omega
  shown hpc := by
    have hdelivered := h.handled (killed_of_statement ht).1
    rw [hidle, Handler.running, Nat.add_zero] at hdelivered
    cases hs : s.prog.pc <;>
      simp only [statement, hs, Option.some.injEq, reduceCtorEq] at ht <;> subst ht
    case count =>
        have hout := hi.printed.stdout (generatingLine ++ multiplyingLine ++ doneLine)
          (by rw [hs]; rfl)
        refine ⟨as, [], rfl, ?_⟩
        show s.prog.stdout ++ countLine s.gs32total = _
        rw [hout, h.total, hdelivered]
    case ret => exact shown_append (h.shown (.inl hs)) .main
    case args =>
        unfold readArgs at hpc
        split at hpc
        · simp [Prog.print] at hpc
        · split at hpc <;> simp [Prog.print] at hpc
    case fillTest | rowTest | colTest | indexTest => split at hpc <;> simp at hpc
    all_goals simp [Prog.print] at hpc

theorem tally_step (hi : Inv rand argv C₀ s) (h : Tally argv as s)
    (hn : (denseMmSig rand argv).next s a = some t) : Tally argv (as ++ [a]) t := by
  have hmerged := h.merged
  have hkept := h.kept
  have hshown := fun hpc => shown_append (h.shown hpc) a
  cases step_of_next hn with
  | main hidle ht => exact tally_main hi h hidle ht
  | sigint =>
      refine ⟨?_, ?_, h.temp, ?_, ?_, ?_, hshown⟩
      · simp only [State.waiting, List.count_append] at hmerged ⊢
        simp
        omega
      · intro _
        simp [State.waiting]
      · simpa using h.total
      · simpa using h.handled
      · simpa using h.statements
  | kill hpending hidle hpc =>
      refine ⟨?_, ?_, h.temp, ?_, ?_, ?_, ?_⟩
      · simpa [State.waiting, hpending] using hmerged
      · intro _
        simp [State.waiting]
      · simpa using h.total
      · intro hk
        exact absurd rfl hk
      · intro hk
        exact absurd rfl hk
      · rintro (hk | hk) <;> cases hk
  | deliver hpending hidle halive hpc =>
      have hhandled := h.handled
      rw [hidle] at hhandled
      refine ⟨?_, ?_, nofun, ?_, ?_, ?_, hshown⟩
      · simpa [State.waiting, hpending] using hmerged
      · intro _
        simp [State.waiting]
      · simpa using h.total
      · intro hk
        simpa [Handler.running] using hhandled hk
      · simpa using h.statements
  | load hload =>
      have hhandled := h.handled
      rw [hload] at hhandled
      refine ⟨by simpa [State.waiting] using hmerged, by simpa [State.waiting] using hkept, ?_,
        by simpa using h.total, by simpa [Handler.running] using hhandled,
        by simpa using h.statements, hshown⟩
      intro s32temp htemp
      exact (Handler.store.inj htemp).symm
  | @store s32temp hstore =>
      have hhandled := h.handled
      rw [hstore] at hhandled
      refine ⟨by simpa [State.waiting] using hmerged, by simpa [State.waiting] using hkept, nofun,
        ?_, by simpa [Handler.running] using hhandled, by simpa using h.statements, hshown⟩
      show s32temp + 1 = _
      rw [h.temp s32temp hstore, h.total, List.count_append, List.count_singleton_self]
      exact (Int32.ofNat_add _ 1).symm

theorem inv_tally (hr : (denseMmSig rand argv).run (init A B C₀) as = some s) :
    Inv rand argv C₀ s ∧ Tally argv as s :=
  Machine.run_history (P := fun as s => Inv rand argv C₀ s ∧ Tally argv as s)
    (fun h hn => ⟨inv_step h.1 hn, tally_step h.1 h.2 hn⟩) ⟨inv_init, tally_init⟩ hr

/-! ## The product -/

/-- The matrices that `main` draws, with the calls of `rand` in turn. -/
def drawnA (rand : Nat → V) (k : UInt32) : V := rand (2 * k.toNat)

def drawnB (rand : Nat → V) (k : UInt32) : V := rand (2 * k.toNat + 1)

theorem dot_drawn {N r c : UInt32} (hN : N < 65536) (hr : r < N) (hc : c < N)
    (hA : ∀ k, k.toNat < (N * N).toNat → A k = rand (2 * k.toNat))
    (hB : ∀ k, k.toNat < (N * N).toNat → B k = rand (2 * k.toNat + 1)) :
    dot A B N r c N.toNat = dot (drawnA rand) (drawnB rand) N r c N.toNat := by
  apply List.foldl_ext
  intro sum i hi
  have hlt : UInt32.ofNat i < N := ofNat_lt (List.mem_range.mp hi)
  have hrow := lt_iff_toNat.mp (Studio03.DenseMm.flat_lt hN hr hlt)
  have hcol := lt_iff_toNat.mp (Studio03.DenseMm.flat_lt hN hlt hc)
  rw [hA _ hrow, hB _ hcol]
  rfl

/-- The product at the end of `main`. -/
theorem Inv.product (h : Inv rand argv C₀ s) (hpc : s.prog.pc = .finished)
    (hne : s.prog.matrix_size ≠ 65536) {r c : UInt32} (hr : r < s.prog.matrix_size)
    (hc : c < s.prog.matrix_size) : s.prog.C (flat s.prog.matrix_size r c) =
      dot (drawnA rand) (drawnB rand) s.prog.matrix_size r c s.prog.matrix_size.toNat := by
  have hsize := h.printed.size (by rw [hpc]; rfl)
  have hN : s.prog.matrix_size < 65536 :=
    UInt32.lt_of_le_of_ne (Studio03.DenseMm.le_of_readSize hsize) hne
  have hA := h.filled.A
  have hB := h.filled.B
  have hC := h.computed.C
  rw [Prog.filledA, hpc] at hA
  rw [Prog.filledB, hpc] at hB
  rw [Prog.product, hpc] at hC
  rw [hC]
  exact (Studio03.DenseMm.denseMm_apply hN C₀ hr hc).trans (dot_drawn hN hr hc hA hB)

theorem countLine_ofNat {n : Nat} (h : n < 2147483648) :
    countLine (Int32.ofNat n) = "Count[".toList ++ decimal n ++ "]\n".toList := by
  have htoInt : (Int32.ofNat n).toInt = n := Int32.toInt_ofNat_of_lt h
  exact congrArg (fun v => "Count[".toList ++ decimal v ++ "]\n".toList) htoInt

/-- The size 1, with two signals before the product, of which the second is merged. -/
def interrupted : List Act :=
  List.replicate 10 .main ++ [.sigint, .sigint, .deliver, .load, .store] ++
    List.replicate 18 .main

/-- With 3 and 5 drawn. -/
def three_five (i : Nat) : Nat := if i = 0 then 3 else 5

/-- Signals are merged, but not all of them are lost: at most as many are delivered as are sent,
and at least one of them is delivered or pending. Every run is bounded by the signals sent, and
it can go on without a further one until the process is no more. -/
theorem denseMmSig_signals (hr : (denseMmSig rand argv).run (init A B C₀) as = some s) :
    as.count .deliver ≤ as.count .sigint ∧
    (0 < as.count .sigint → 0 < as.count .deliver ∨ s.pending = true) ∧
    as.length ≤ fromArgs argv + 1 + 4 * as.count .sigint ∧
    (s.prog.pc.over = false →
      ∃ a t, a ≠ .sigint ∧ (denseMmSig rand argv).next s a = some t) := by
  obtain ⟨-, htally⟩ := inv_tally hr
  refine ⟨Nat.le_of_add_right_le htally.merged, fun h => ?_, ?_, moves rand argv s⟩
  · have hkept := htally.kept h
    unfold State.waiting at hkept
    cases hpending : s.pending with
    | true => exact .inr rfl
    | false =>
        rw [hpending] at hkept
        exact .inl hkept
  · have hlen := Machine.length_le_of_charged (p := (· == Act.sigint)) (c := 4)
      (I := Inv rand argv C₀) (m := State.left argv) (fun h hn => ⟨inv_step h hn, by
        simpa using left_step h hn⟩) (inv_init (A := A) (B := B)) hr
    have hstart : (init A B C₀).left argv = fromArgs argv + 1 := rfl
    rw [hstart] at hlen
    exact (Nat.le_add_right _ _).trans hlen

theorem denseMmSig_signals_merged : ∃ s, (denseMmSig three_five ["dense_mm_sig", "1"]).run
    (init (fun _ => 7) (fun _ => 7) (fun _ => 7)) [.main, .sigint, .sigint] = some s ∧
      s.pending = true := by
  have hrun : ∃ s, (denseMmSig three_five ["dense_mm_sig", "1"]).run
      (init (fun _ => 7) (fun _ => 7) (fun _ => 7)) [.main, .sigint, .sigint] = some s := ⟨_, rfl⟩
  obtain ⟨s, hs⟩ := hrun
  refine ⟨s, hs, ((denseMmSig_signals hs).2.1 (by decide)).resolve_left (by decide)⟩

end Cse522.Studio12.DenseMmSig

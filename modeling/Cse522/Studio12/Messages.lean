import Mathlib.Data.List.Sort
import Cse522.Clib.Stdio
import Cse522.Studio12.Print5000

/-!
# What `print5000_2` writes

The message is put together in place, one digit at a time, and a signal can come between any two
of the assignments. The handler reads the loop variable and marks a number; it does not touch
the message nor what is left of the number, so the lines come out whole and in order. Behind the
array it could touch anything, and then nothing is said.
-/
namespace Cse522.Studio12.Print5000

open Cse522.Interleave Cse522.Clib.Stdio

variable {s t : State} {i : Nat} {b : Body}

/-- `acMsg` with the digits `ds`. -/
def line (ds : List Char) : List Char := ['i', ':', ' '] ++ ds ++ ['\n', '\x00']

/-- The line of the number `i`. -/
def message (i : Nat) : List Char := line (zeroPadded 4 i)

/-- The character written for a digit is the decimal one. -/
theorem ofNat_digit {d : Nat} (h : d < 10) : Char.ofNat (48 + d) = d.digitChar := by
  have hall : ∀ d < 10, Char.ofNat (48 + d) = Nat.digitChar d := by decide
  exact hall d h

theorem message_eq (h : i < 10000) : message i = line
    [(i / 1000).digitChar, (i % 1000 / 100).digitChar, (i % 100 / 10).digitChar,
      (i % 10).digitChar] := by
  have h1 : i / 10 % 10 = i % 100 / 10 := by omega
  have h2 : i / 10 / 10 % 10 = i % 1000 / 100 := by omega
  have h3 : i / 10 / 10 / 10 = i / 1000 := by omega
  rw [message, zeroPadded_succ (by decide), zeroPadded_succ (by decide),
    zeroPadded_succ (by decide), zeroPadded_one (by omega), h1, h2, h3]
  rfl

/-- What is in `s32temp` and `acMsg` in front of each of the assignments. -/
def Composed (s : State) : Body → Prop
  | .temp => ∃ a b c d, s.acMsg = line [a, b, c, d]
  | .thousands => s.s32temp = s.i ∧ ∃ a b c d, s.acMsg = line [a, b, c, d]
  | .rest1000 =>
      s.s32temp = s.i ∧ ∃ b c d, s.acMsg = line [(s.i / 1000).digitChar, b, c, d]
  | .hundreds =>
      s.s32temp = s.i % 1000 ∧ ∃ b c d, s.acMsg = line [(s.i / 1000).digitChar, b, c, d]
  | .rest100 => s.s32temp = s.i % 1000 ∧ ∃ c d, s.acMsg =
      line [(s.i / 1000).digitChar, (s.i % 1000 / 100).digitChar, c, d]
  | .tens => s.s32temp = s.i % 100 ∧ ∃ c d, s.acMsg =
      line [(s.i / 1000).digitChar, (s.i % 1000 / 100).digitChar, c, d]
  | .rest10 => s.s32temp = s.i % 100 ∧ ∃ d, s.acMsg =
      line [(s.i / 1000).digitChar, (s.i % 1000 / 100).digitChar, (s.i % 100 / 10).digitChar, d]
  | .units => s.s32temp = s.i % 10 ∧ ∃ d, s.acMsg =
      line [(s.i / 1000).digitChar, (s.i % 1000 / 100).digitChar, (s.i % 100 / 10).digitChar, d]
  | .write => s.acMsg = message s.i

/-- The lines written so far. -/
def State.lines (s : State) : Nat :=
  match s.pc with
  | .init1 => 0
  | .test1 | .body _ => s.i
  | .incr1 => s.i + 1
  | _ => size

structure Printed (s : State) : Prop where
  written : s.written = (List.range s.lines).map message
  composed : ∀ b, s.pc = .body b → Composed s b
  acMsg : ∃ a b c d, s.acMsg = line [a, b, c, d]
  ascending : s.reported.Pairwise (· < ·)

theorem printed_init : Printed init where
  written := rfl
  composed b hb := by cases hb
  acMsg := ⟨' ', ' ', ' ', ' ', rfl⟩
  ascending := .nil

/-- A statement outside of the first loop's body, if it reports nothing. -/
theorem printed_outside (h : Printed s) (hwritten : t.written = s.written)
    (hmsg : t.acMsg = s.acMsg) (hreported : t.reported = s.reported) (hlines : t.lines = s.lines)
    (hpc : ∀ b, t.pc = .body b → b = .temp) : Printed t where
  written := by rw [hwritten, hlines]; exact h.written
  composed b hb := by
    obtain rfl := hpc b hb
    show ∃ a b c d, t.acMsg = line [a, b, c, d]
    rw [hmsg]
    exact h.acMsg
  acMsg := by rw [hmsg]; exact h.acMsg
  ascending := by rw [hreported]; exact h.ascending

/-- An assignment of the body. -/
theorem printed_assign (h : Printed s) (hpc : s.pc = .body b) {b' : Body}
    (hwritten : t.written = s.written) (hi : t.i = s.i) (hreported : t.reported = s.reported)
    (hpc' : t.pc = .body b') (hcomposed : Composed t b')
    (hmsg : ∃ a b c d, t.acMsg = line [a, b, c, d]) : Printed t where
  written := by
    have hlines : t.lines = s.lines := by rw [State.lines, State.lines, hpc, hpc', hi]
    rw [hwritten, hlines]
    exact h.written
  composed b'' hb := by
    obtain rfl : b' = b'' := by simpa [hpc'] using hb
    exact hcomposed
  acMsg := hmsg
  ascending := by rw [hreported]; exact h.ascending

theorem printed_write (h : Printed s) (hpc : s.pc = .body .write) :
    Printed (Body.write.run s) where
  written := by
    have hlines : s.lines = s.i := by rw [State.lines, hpc]
    have hmsg : s.acMsg = message s.i := h.composed .write hpc
    show s.written ++ [s.acMsg] = (List.range (s.i + 1)).map message
    rw [List.range_succ, List.map_append, h.written, hlines, hmsg]
    rfl
  composed b hb := by cases hb
  acMsg := h.acMsg
  ascending := h.ascending

theorem printed_body (h : Printed s) (hpc : s.pc = .body b) (hi : s.i < size) :
    Printed (b.run s) := by
  have hc := h.composed b hpc
  have hsize : s.i < 5000 := hi
  cases b with
  | temp => exact printed_assign h hpc rfl rfl rfl rfl ⟨rfl, h.acMsg⟩ h.acMsg
  | thousands =>
      obtain ⟨htemp, a, b, c, d, hmsg⟩ := hc
      have hset : s.acMsg.set 3 (Char.ofNat (48 + s.s32temp / 1000)) =
          line [(s.i / 1000).digitChar, b, c, d] := by
        rw [hmsg, htemp, ofNat_digit (by omega)]
        rfl
      exact printed_assign h hpc rfl rfl rfl rfl ⟨htemp, b, c, d, hset⟩ ⟨_, b, c, d, hset⟩
  | rest1000 =>
      obtain ⟨htemp, b, c, d, hmsg⟩ := hc
      have hrest : s.s32temp % 1000 = s.i % 1000 := by rw [htemp]
      exact printed_assign h hpc rfl rfl rfl rfl ⟨hrest, b, c, d, hmsg⟩ h.acMsg
  | hundreds =>
      obtain ⟨htemp, b, c, d, hmsg⟩ := hc
      have hset : s.acMsg.set 4 (Char.ofNat (48 + s.s32temp / 100)) =
          line [(s.i / 1000).digitChar, (s.i % 1000 / 100).digitChar, c, d] := by
        rw [hmsg, htemp, ofNat_digit (by omega)]
        rfl
      exact printed_assign h hpc rfl rfl rfl rfl ⟨htemp, c, d, hset⟩ ⟨_, _, c, d, hset⟩
  | rest100 =>
      obtain ⟨htemp, c, d, hmsg⟩ := hc
      have hrest : s.s32temp % 100 = s.i % 100 := by omega
      exact printed_assign h hpc rfl rfl rfl rfl ⟨hrest, c, d, hmsg⟩ h.acMsg
  | tens =>
      obtain ⟨htemp, c, d, hmsg⟩ := hc
      have hset : s.acMsg.set 5 (Char.ofNat (48 + s.s32temp / 10)) =
          line [(s.i / 1000).digitChar, (s.i % 1000 / 100).digitChar, (s.i % 100 / 10).digitChar,
            d] := by
        rw [hmsg, htemp, ofNat_digit (by omega)]
        rfl
      exact printed_assign h hpc rfl rfl rfl rfl ⟨htemp, d, hset⟩ ⟨_, _, _, d, hset⟩
  | rest10 =>
      obtain ⟨htemp, d, hmsg⟩ := hc
      have hrest : s.s32temp % 10 = s.i % 10 := by omega
      exact printed_assign h hpc rfl rfl rfl rfl ⟨hrest, d, hmsg⟩ h.acMsg
  | units =>
      obtain ⟨htemp, d, hmsg⟩ := hc
      have hset : s.acMsg.set 6 (Char.ofNat (48 + s.s32temp)) = message s.i := by
        rw [hmsg, htemp, ofNat_digit (by omega), message_eq (by omega)]
        rfl
      have hfour := hset.trans (message_eq (by omega))
      exact printed_assign h hpc rfl rfl rfl rfl hset ⟨_, _, _, _, hfour⟩
  | write => exact printed_write h hpc

/-- The number printed is larger than those before it. -/
theorem printed_printf (h : Printed s) (hm : Marked s) (hpc : s.pc = .printf) :
    Printed { s with reported := s.reported ++ [s.i], pc := .incr2 } where
  written := by
    have hlines : s.lines = size := by rw [State.lines, hpc]
    exact h.written.trans (by rw [hlines]; rfl)
  composed b hb := by cases hb
  acMsg := h.acMsg
  ascending := by
    have hdone : s.done = s.i := by rw [State.done, hpc, if_pos rfl]
    refine List.pairwise_append.mpr ⟨h.ascending, List.pairwise_singleton _ _, ?_⟩
    intro j hj k hk
    obtain rfl := List.mem_singleton.mp hk
    exact hdone ▸ ((hm.reported j).mp hj).1

theorem printed_statement (h : Printed s) (hm : Marked s) (ht : statement s = some t) :
    Printed t := by
  have hat := hm.here
  cases hpc : s.pc <;> simp only [statement, hpc, Option.some.injEq] at ht
  case body b =>
      subst ht
      exact printed_body h hpc (hm.at_pc hpc)
  case test1 =>
      subst ht
      have hle : s.i ≤ size := hm.at_pc hpc
      by_cases hi : s.i < size
      · rw [if_pos hi]
        refine printed_outside h rfl rfl rfl (by simp [State.lines, hpc]) fun b hb => ?_
        exact (Pc.body.inj hb).symm
      · rw [if_neg hi]
        have hsize : s.i = size := by omega
        exact printed_outside h rfl rfl rfl (by simp [State.lines, hpc, hsize])
          fun b hb => by cases hb
  case test2 =>
      subst ht
      refine printed_outside h rfl rfl rfl ?_ ?_
      all_goals split <;> simp [State.lines, hpc]
  case isCalled =>
      subst ht
      refine printed_outside h rfl rfl rfl ?_ ?_
      all_goals split <;> simp [State.lines, hpc]
  case printf =>
      subst ht
      exact printed_printf h hm hpc
  case finished => cases ht
  all_goals
    subst ht
    exact printed_outside h rfl rfl rfl (by simp [State.lines, hpc]) fun b hb => by cases hb

theorem printed_sigint (h : Printed s) : Printed (sigintHandler s) where
  written := h.written
  composed b hb := by
    have hc := h.composed b hb
    cases b <;> exact hc
  acMsg := h.acMsg
  ascending := h.ascending

theorem printed_step {a : Act} (h : Marked s ∧ Printed s) (ht : print5000.next s a = some t) :
    Marked t ∧ Printed t := by
  refine ⟨marked_step h.1 ht, ?_⟩
  cases a with
  | main => exact printed_statement h.2 h.1 ht
  | sigint =>
      obtain ⟨-, ht⟩ := Option.ite_none_left_eq_some.mp ht
      obtain rfl := Option.some.inj ht
      exact printed_sigint h.2

theorem lines_le (h : Marked s) : s.lines ≤ size := by
  have hat := h.here
  cases hpc : s.pc <;> simp only [hpc, Pc.At] at hat <;> simp only [State.lines, hpc] <;> omega

/-- At the end, the numbers are reported at which a signal has come in time, in order. -/
theorem reported_eq (h : Marked s) (hp : Printed s) (hpc : s.pc = .finished) :
    s.reported = (List.range size).filter fun j =>
      s.signals.any fun x => !x.1.late && decide (x.2 = j) := by
  have hdone : s.done = size := by
    rw [State.done, hpc, if_neg (by simp), State.tested, hpc]
    exact h.at_pc hpc
  have hsorted : ((List.range size).filter fun j =>
      s.signals.any fun x => !x.1.late && decide (x.2 = j)).Pairwise (· < ·) :=
    List.Pairwise.filter _ List.pairwise_lt_range
  refine hp.ascending.eq_of_mem_iff hsorted fun {j} => ?_
  rw [h.reported j, hdone, List.mem_filter, List.mem_range, List.any_eq_true]
  refine and_congr_right fun _ => ?_
  constructor
  · intro hdue
    obtain ⟨pc, hlate, hx⟩ := hdue
    exact ⟨(pc, j), hx, by simp [hlate]⟩
  · intro hany
    obtain ⟨x, hx, hj⟩ := hany
    simp only [Bool.and_eq_true, Bool.not_eq_true', decide_eq_true_eq] at hj
    obtain ⟨hlate, rfl⟩ := hj
    exact ⟨x.1, hlate, hx⟩

end Cse522.Studio12.Print5000

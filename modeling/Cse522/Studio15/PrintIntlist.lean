import Cse522.Clib.Stdio
import Cse522.Studio15.HandshakeTransfer

/-!
# The printed lists

The leader fills its array with random numbers and prints it at the end, the follower prints the
cells of the region as it reads them. Both use `print_intlist`, which sets each number in
brackets, five to a line. The numbers can be read back from the text, whatever they are, so the
two texts agree exactly if the arrays do. Numbers of at most five characters stand in columns.
-/
namespace Cse522.Studio15.Handshake

open Cse522.Interleave Cse522.Clib.Stdio Cse522.Clib.Stdlib

/-- `printf("[%5d] ", v)`, and the newline behind every fifth entry. -/
def entry (s32i : Nat) (v : Int32) : List Char :=
  '[' :: padded 5 v.toInt ++ [']', ' '] ++ if 0 = (s32i + 1) % 5 then ['\n'] else []

/-- The loop of `print_intlist` from `s32i` on. -/
def printFrom : Nat → List Int32 → List Char
  | _, [] => []
  | s32i, v :: vs => entry s32i v ++ printFrom (s32i + 1) vs

def printIntlist (l : List Int32) : List Char := printFrom 0 l

/-- `rnd_populate`; `rand i` is the result of call `i`. -/
def rndPopulate (rand : Nat → Int32) (s32len : Nat) : Fin s32len → Int32 :=
  fun s32i => rand s32i.val % 1000

/-- Reads the numbers between the brackets; in front of one, `none`, behind one the characters
since then. -/
def readFields : Option (List Char) → List Char → List Int
  | _, [] => []
  | none, c :: cs => readFields (if c = '[' then some [] else none) cs
  | some tok, c :: cs =>
      if c = ']' then toInt (strtol tok) :: readFields none cs
      else readFields (some (tok ++ [c])) cs

def readIntlist (text : List Char) : List Int := readFields none text

/-! ## Reading back -/

variable {tok ds cs : List Char} {v : Int} {width m : Nat} {l : List Int32}
  {ps32local : Fin m → Int32}

theorem readFields_token (h : ']' ∉ ds) :
    readFields (some tok) (ds ++ ']' :: cs) =
      toInt (strtol (tok ++ ds)) :: readFields none cs := by
  induction ds generalizing tok with
  | nil => simp [readFields]
  | cons d ds ih =>
      obtain ⟨hd, hds⟩ := List.ne_and_not_mem_of_not_mem_cons h
      rw [List.cons_append, readFields, if_neg hd.symm, ih hds, List.append_assoc]
      rfl

theorem mem_decimal {c : Char} (h : c ∈ decimal v) : c = '-' ∨ c.isDigit = true := by
  have hdigits : ∀ n : Nat, c ∈ Nat.toDigits 10 n → c.isDigit = true := fun n hc =>
    Nat.isDigit_of_mem_toDigits (by decide) (by decide) hc
  unfold decimal at h
  split at h
  · rcases List.mem_cons.mp h with hminus | hc
    · exact .inl hminus
    · exact .inr (hdigits _ hc)
  · exact .inr (hdigits _ h)

theorem bracket_not_mem_padded : ']' ∉ padded width v := by
  intro h
  rcases List.mem_append.mp h with hblank | hdec
  · exact absurd (List.eq_of_mem_replicate hblank) (by decide)
  · rcases mem_decimal hdec with hc | hc
    · exact absurd hc (by decide)
    · exact absurd hc (by decide)

/-- The blanks in front of a number are skipped. -/
theorem strtol_padded : strtol (padded width v) = strtol (decimal v) := by
  have hblank : ∀ k, (List.replicate k ' ' ++ decimal v).dropWhile isSpace =
      (decimal v).dropWhile isSpace := by
    intro k
    induction k with
    | zero => rfl
    | succ k ih => exact ih
  rw [strtol, padded, hblank]
  rfl

theorem readFields_entry (s32i : Nat) (v : Int32) :
    readFields none (entry s32i v ++ cs) = v.toInt :: readFields none cs := by
  have hv : toInt (strtol (padded 5 v.toInt)) = v.toInt := by
    rw [strtol_padded]
    exact toInt_strtol_decimal v.le_toInt (Int.le_of_lt_add_one v.toInt_lt)
  have hshape : entry s32i v ++ cs = '[' :: (padded 5 v.toInt ++ ']' ::
      (' ' :: (if 0 = (s32i + 1) % 5 then ['\n'] else []) ++ cs)) := by
    simp [entry]
  rw [hshape, readFields, if_pos rfl, readFields_token bracket_not_mem_padded, List.nil_append, hv]
  split <;> rfl

theorem readFields_printFrom (s32i : Nat) (l : List Int32) :
    readFields none (printFrom s32i l) = l.map Int32.toInt := by
  induction l generalizing s32i with
  | nil => rfl
  | cons v vs ih => rw [printFrom, readFields_entry, ih, List.map_cons]

theorem printFrom_append (s32i : Nat) (l l' : List Int32) :
    printFrom s32i (l ++ l') = printFrom s32i l ++ printFrom (s32i + l.length) l' := by
  induction l generalizing s32i with
  | nil => rfl
  | cons v vs ih =>
      have hlen : s32i + (v :: vs).length = s32i + 1 + vs.length := by
        rw [List.length_cons]
        omega
      rw [List.cons_append, printFrom, printFrom, ih, List.append_assoc, hlen]

theorem printIntlist_inj {l l' : List Int32} (h : printIntlist l = printIntlist l') : l = l' := by
  have hread := congrArg readIntlist h
  unfold readIntlist printIntlist at hread
  rw [readFields_printFrom, readFields_printFrom] at hread
  exact List.map_injective_iff.mpr (fun _ _ => Int32.toInt_inj.mp) hread

/-! ## Columns -/

/-- The numbers that `%5d` sets to five characters. -/
def Narrow (v : Int32) : Prop := (decimal v.toInt).length ≤ 5

theorem length_padded (h : (decimal v).length ≤ width) : (padded width v).length = width := by
  rw [padded, List.length_append, List.length_replicate]
  omega

theorem length_entry {v : Int32} (h : Narrow v) (s32i : Nat) :
    (entry s32i v).length = 8 + ((s32i + 1) / 5 - s32i / 5) := by
  have hlen : (padded 5 v.toInt).length = 5 := length_padded h
  rw [entry]
  split
  · simp only [List.cons_append, List.length_cons, List.length_append, hlen, List.length_nil]
    omega
  · simp only [List.cons_append, List.length_cons, List.length_append, hlen, List.length_nil]
    omega

theorem length_printFrom (h : ∀ v ∈ l, Narrow v) (s32i : Nat) :
    (printFrom s32i l).length = 8 * l.length + ((s32i + l.length) / 5 - s32i / 5) := by
  induction l generalizing s32i with
  | nil => simp [printFrom]
  | cons v vs ih =>
      have hvs := ih (fun w hw => h w (List.mem_cons_of_mem v hw)) (s32i + 1)
      rw [printFrom, List.length_append, length_entry (h v List.mem_cons_self), hvs,
        List.length_cons]
      omega

/-- An entry begins eight characters behind the one before, and one more in a new line. -/
theorem entry_at (h : ∀ v ∈ l, Narrow v) {k : Nat} (hk : k < l.length) :
    (printIntlist l).drop (8 * k + k / 5) = entry k l[k] ++ printFrom (k + 1) (l.drop (k + 1)) := by
  have hlen : (l.take k).length = k := List.length_take_of_le (Nat.le_of_lt hk)
  have hfront : (printFrom 0 (l.take k)).length = 8 * k + k / 5 := by
    rw [length_printFrom (fun v hv => h v (List.mem_of_mem_take hv)), hlen]
    omega
  have hsplit : printIntlist l = printFrom 0 (l.take k) ++ printFrom k (l.drop k) := by
    have happend := printFrom_append 0 (l.take k) (l.drop k)
    rw [List.take_append_drop, hlen, Nat.zero_add] at happend
    exact happend
  rw [hsplit, ← hfront, List.drop_left, List.drop_eq_getElem_cons hk]
  rfl

theorem toInt_rndPopulate {rand : Nat → Int32} (h : ∀ i, 0 ≤ rand i) (s32i : Fin m) :
    0 ≤ (rndPopulate rand m s32i).toInt ∧ (rndPopulate rand m s32i).toInt < 1000 := by
  have hpos : 0 ≤ (rand s32i.val).toInt := Int32.le_iff_toInt_le.mp (h s32i.val)
  have hmod : (rndPopulate rand m s32i).toInt = (rand s32i.val).toInt.tmod 1000 :=
    Int32.toInt_mod _ _
  rw [hmod, Int.tmod_eq_emod_of_nonneg hpos]
  exact ⟨Int.emod_nonneg _ (by decide), Int.emod_lt_of_pos _ (by decide)⟩

theorem narrow_rndPopulate {rand : Nat → Int32} (h : ∀ i, 0 ≤ rand i) :
    ∀ v ∈ List.ofFn (rndPopulate rand m), Narrow v := by
  intro v hv
  obtain ⟨s32i, rfl⟩ := List.mem_ofFn.mp hv
  obtain ⟨hpos, hlt⟩ := toInt_rndPopulate h s32i
  exact (length_decimal_le hpos hlt).trans (by decide)

/-- What the leader prints behind its last loop. -/
def leaderOut (ps32local : Fin m → Int32) : List Char := printIntlist (List.ofFn ps32local)

/-- A populated array is printed in five columns of eight characters: the entry of a cell begins
behind those in front of it and the newlines among them, and takes its brackets, five characters
and a blank. -/
theorem populated_columns {rand : Nat → Int32} (h : ∀ i, 0 ≤ rand i) (m : Nat) :
    (leaderOut (rndPopulate rand m)).length = 8 * m + m / 5 ∧
    ∀ k : Fin m, (padded 5 (rndPopulate rand m k).toInt).length = 5 ∧
      ((leaderOut (rndPopulate rand m)).drop (8 * k + k / 5)).take 8 =
        '[' :: padded 5 (rndPopulate rand m k).toInt ++ [']', ' '] := by
  have hnarrow := narrow_rndPopulate (m := m) h
  constructor
  · have hlen := length_printFrom hnarrow 0
    rw [List.length_ofFn] at hlen
    rw [leaderOut, printIntlist, hlen]
    omega
  · intro k
    have hfive : (padded 5 (rndPopulate rand m k).toInt).length = 5 :=
      length_padded (hnarrow _ (List.mem_ofFn.mpr ⟨k, rfl⟩))
    refine ⟨hfive, ?_⟩
    have hk : k.val < (List.ofFn (rndPopulate rand m)).length := by
      rw [List.length_ofFn]
      exact k.isLt
    rw [leaderOut, entry_at hnarrow hk, List.getElem_ofFn, entry, List.append_assoc]
    refine List.take_left' ?_
    rw [List.length_append, List.length_cons, hfive]
    rfl

/-- Three cells, with the first numbers of the library's generator. -/
theorem populated_columns_three : (leaderOut (rndPopulate
    (fun i => [1804289383, 846930886, 1681692777].getD i 0) 3)).length = 24 := by
  refine (populated_columns (fun i => ?_) 3).1
  match i with
  | 0 | 1 | 2 => decide
  | _ + 3 => exact Int32.le_refl 0

/-! ## The two programs -/

/-- What the follower has printed so far. -/
def followerOut (s : State m) : List Char := printIntlist s.got

theorem Sound.got_part {s : State m} (h : Sound ps32local s) : s.got <+: List.ofFn ps32local := by
  have hpre := h.prefixRead
  cases hf : s.follower with
  | raiseWrite | clearRead | spinRead =>
      simp only [PrefixRead, hf] at hpre
      rw [hpre]
      exact List.nil_prefix
  | read k =>
      simp only [PrefixRead, hf] at hpre
      rw [hpre.2]
      exact List.take_prefix k _
  | raiseDelete | finished =>
      simp only [PrefixRead, hf] at hpre
      rw [hpre]

/-- The follower has read everything when the leader prints. -/
theorem Sound.got_of_left {s : State m} (h : Sound ps32local s) (hl : s.leader = .left) :
    s.got = List.ofFn ps32local := by
  have hdel := h.deleteNotified
  have hpre := h.prefixRead
  simp only [DeleteNotified, hl] at hdel
  simpa only [PrefixRead, hdel] using hpre

/-- In every run, what the follower has printed is the beginning of the leader's text, and all of
it when the leader comes to print. The numbers can be read back from either text, so that leaders
with different arrays print different texts. -/
theorem printed_lists_agree (ps32local : Fin m → Int32) (shm : ShmData m) {s : State m}
    (h : (handshake ps32local).Reachable (init shm) s) :
    followerOut s <+: leaderOut ps32local ∧
    (s.leader = .left → followerOut s = leaderOut ps32local) ∧
    readIntlist (followerOut s) = s.got.map Int32.toInt ∧
    ∀ other, leaderOut other = leaderOut ps32local → other = ps32local := by
  have hsound := h.invariant sound_step (sound_init shm)
  refine ⟨?_, ?_, readFields_printFrom 0 s.got, ?_⟩
  · obtain ⟨rest, hrest⟩ := hsound.got_part
    rw [followerOut, leaderOut, printIntlist, printIntlist, ← hrest, printFrom_append]
    exact List.prefix_append _ _
  · intro hl
    rw [followerOut, hsound.got_of_left hl]
    rfl
  · intro other hout
    exact List.ofFn_injective (printIntlist_inj hout)

/-- A region whose guards an earlier run has left raised. -/
theorem printed_lists_agree_stale :
    ∃ s, (handshake threeCells).run (init stale) overlapping = some s ∧ s.leader = .left ∧
      followerOut s = "[    7] [   -2] [   30] ".toList := by
  have hrun : ∃ s, (handshake threeCells).run (init stale) overlapping = some s ∧
      s.leader = .left := ⟨_, rfl, by decide⟩
  obtain ⟨s, hs, hl⟩ := hrun
  exact ⟨s, hs, hl, (printed_lists_agree _ _ ⟨_, hs⟩).2.1 hl⟩

end Cse522.Studio15.Handshake

import Mathlib.Data.List.Basic
import Mathlib.Data.List.TakeWhile

/-!
# C strings in a buffer

A string is what stands in a buffer in front of its first NUL. The functions return `none`
where they would read behind the buffer.
-/
namespace Cse522.Clib.Cstring

/-- The bytes in front of the first NUL, or all of them. -/
def upToNul (bs : List UInt8) : List UInt8 := bs.takeWhile (· ≠ 0)

/-- The string that starts with the buffer. -/
def cString (buf : List UInt8) : Option (List UInt8) :=
  if 0 ∈ buf then some (upToNul buf) else none

def strlen (buf : List UInt8) : Option Nat := (cString buf).map List.length

/-- `strncmp(s1, s2, n)`. -/
def strncmp : List UInt8 → List UInt8 → Nat → Option Int
  | _, _, 0 => some 0
  | c :: s1, d :: s2, n + 1 =>
      if c ≠ d then some (c.toNat - d.toNat)
      else if c = 0 then some 0
      else strncmp s1 s2 n
  | _, _, _ => none

variable {s q bs rest buf : List UInt8}

@[simp] theorem upToNul_nil : upToNul [] = [] := rfl

theorem upToNul_append_of_notMem (h : 0 ∉ bs) : upToNul (bs ++ rest) = bs ++ upToNul rest := by
  apply List.takeWhile_append_of_pos
  intro b hb
  have hne : b ≠ 0 := fun h0 => h (h0 ▸ hb)
  simpa using hne

theorem upToNul_of_notMem (h : 0 ∉ bs) : upToNul bs = bs := by
  have happ : upToNul (bs ++ []) = bs ++ upToNul [] := upToNul_append_of_notMem h
  simpa using happ

/-- The buffer goes on behind the string with its NUL. -/
theorem exists_of_mem (h : 0 ∈ buf) : ∃ rest, buf = upToNul buf ++ 0 :: rest := by
  induction buf with
  | nil => simp at h
  | cons b buf ih =>
      by_cases hb : b = 0
      · exact ⟨buf, by simp [upToNul, hb]⟩
      · obtain ⟨rest, hrest⟩ := ih ((List.mem_cons.mp h).resolve_left (Ne.symm hb))
        refine ⟨rest, ?_⟩
        conv_lhs => rw [hrest]
        simp [upToNul, hb]

theorem notMem_upToNul : 0 ∉ upToNul bs := by
  intro h
  simpa using List.mem_takeWhile_imp h

theorem cString_append_nul (h : 0 ∉ s) : cString (s ++ 0 :: rest) = some s := by
  rw [cString, if_pos (by simp), upToNul_append_of_notMem h]
  simp [upToNul]

theorem strlen_append_nul (h : 0 ∉ s) : strlen (s ++ 0 :: rest) = some s.length := by
  rw [strlen, cString_append_nul h, Option.map_some]

/-! ## Comparing a prefix -/

/-- A comparison over the whole length of a literal `q` is a test for a prefix. -/
theorem strncmp_literal (h : 0 ∉ q) (hlen : q.length ≤ buf.length) :
    ∃ c, strncmp (q ++ [0]) buf q.length = some c ∧ (c = 0 ↔ q <+: buf) := by
  induction q generalizing buf with
  | nil => exact ⟨0, by simp [strncmp]⟩
  | cons b q ih =>
      obtain ⟨hb, hq⟩ : 0 ≠ b ∧ 0 ∉ q := by simpa using h
      cases buf with
      | nil => simp at hlen
      | cons d buf =>
          obtain ⟨c, hc, hiff⟩ := ih hq (by simpa using hlen)
          by_cases hbd : b = d
          · subst hbd
            refine ⟨c, ?_, by rw [hiff, List.cons_prefix_cons]; simp⟩
            simpa [strncmp, Ne.symm hb] using hc
          · refine ⟨(b.toNat : Int) - d.toNat, by simp [strncmp, hbd], ?_⟩
            have hne : (b.toNat : Int) - d.toNat ≠ 0 := by
              intro h0
              apply hbd
              apply UInt8.toNat_inj.mp
              omega
            simp [hne, List.cons_prefix_cons, hbd]

/-- A literal is a prefix of the buffer when it is one of the string in it. -/
theorem prefix_iff_of_notMem (h : 0 ∉ q) : q <+: s ++ 0 :: rest ↔ q <+: s := by
  constructor
  · intro hq
    by_cases hle : q.length ≤ s.length
    · exact List.prefix_of_prefix_length_le hq (List.prefix_append s _) hle
    · have hs : s ++ [0] <+: q := by
        apply List.prefix_of_prefix_length_le ⟨rest, by simp⟩ hq
        simp
        omega
      exact absurd (hs.subset (by simp)) h
  · intro hq
    exact hq.trans (List.prefix_append s _)

end Cse522.Clib.Cstring

import Cse522.Clib.BitField
import Cse522.Clib.Cells
import Cse522.GpioPrj.Bcm2837Gpio

/-!
# The modes of the pins

The select registers hold the modes of the 54 pins, and a call of `set_gpio_mode` rewrites the
field of its pin in place. No call disturbs another pin, whatever the registers hold.
-/
namespace Cse522.GpioPrj.ModePacking

open Cse522.Clib.BitField Cse522.Clib.Cells Cse522.GpioPrj.MyGpio

variable {pstrReg : GpioRegs} {p q : Fin 54} {s32mode : Word} {i : Fin 6} {j : Nat}

/-- The lowest bit of the field of a pin. -/
def shiftOf (p : Fin 54) : Nat := p.val % 10 * 3

/-- The 3-bit field of a pin. -/
def modeOf (pstrReg : GpioRegs) (p : Fin 54) : Word :=
  field 3 (pstrReg.as32GPFSEL (selReg p)) (shiftOf p)

/-- Bit `j` of select register `i` is one of the pin. -/
def Owns (p : Fin 54) (i : Fin 6) (j : Nat) : Prop :=
  selReg p = i ∧ shiftOf p ≤ j ∧ j < shiftOf p + 3

/-- What calls of `set_gpio_mode` leave of the registers. -/
structure Packed (before after : GpioRegs) (calls : List (Fin 54 × Word)) : Prop where
  /-- every register index is in range -/
  inRange : ∀ c ∈ calls, c.1.val / 10 < 6
  modes : ∀ p, modeOf after p = (lastTo p calls).getD (modeOf before p)
  others : ∀ i j, (∀ c ∈ calls, ¬ Owns c.1 i j) →
    (after.as32GPFSEL i).getLsbD j = (before.as32GPFSEL i).getLsbD j
  gpset : after.as32GPSET = before.as32GPSET
  gpclr : after.as32GPCLR = before.as32GPCLR
  gplv : after.as32GPLV = before.as32GPLV

theorem shiftOf_le (p : Fin 54) : shiftOf p + 3 ≤ 32 := by
  unfold shiftOf
  omega

/-- Two pins share no bit. -/
theorem disjoint_of_ne (hne : p ≠ q) (hreg : selReg p = selReg q) :
    shiftOf p + 3 ≤ shiftOf q ∨ shiftOf q + 3 ≤ shiftOf p := by
  have hval : p.val ≠ q.val := fun h => hne (Fin.ext h)
  have hdiv : p.val / 10 = q.val / 10 := congrArg Fin.val hreg
  unfold shiftOf
  omega

/-- One call writes one field of one register. -/
theorem setGpioMode_sel (pstrReg : GpioRegs) (p : Fin 54) (s32mode : Word) :
    (setGpioMode pstrReg p s32mode).as32GPFSEL = Function.update pstrReg.as32GPFSEL (selReg p)
      (put 3 (pstrReg.as32GPFSEL (selReg p)) (shiftOf p) s32mode) := by
  have hmask : mask 32 3 = 7#32 := rfl
  simp only [setGpioMode, Function.update_self, Function.update_idem, put, hmask, shiftOf]

theorem mode_setGpioMode (hmode : s32mode < 8) (pstrReg : GpioRegs) (p q : Fin 54) :
    modeOf (setGpioMode pstrReg p s32mode) q = if p = q then s32mode else modeOf pstrReg q := by
  have hlt : s32mode.toNat < 2 ^ 3 := hmode
  rw [modeOf, setGpioMode_sel]
  by_cases hpq : p = q
  · subst hpq
    rw [if_pos rfl, Function.update_self]
    exact field_put_same hlt (shiftOf_le p)
  · rw [if_neg hpq]
    by_cases hreg : selReg q = selReg p
    · rw [hreg, Function.update_self, modeOf, hreg]
      exact field_put_other hlt (shiftOf_le q) (disjoint_of_ne hpq hreg.symm)
    · rw [Function.update_of_ne hreg]
      rfl

theorem stores_mode : Stores (fun _ _ => True) modeOf setGpioMode (· < 8) id :=
  fun pstrReg p _ hmode q _ => ⟨trivial, mode_setGpioMode hmode pstrReg p q⟩

/-- A bit of another pin, or of none, is left alone. -/
theorem bit_setGpioMode (hmode : s32mode < 8) (h : ¬ Owns p i j) :
    ((setGpioMode pstrReg p s32mode).as32GPFSEL i).getLsbD j =
      (pstrReg.as32GPFSEL i).getLsbD j := by
  have hlt : s32mode.toNat < 2 ^ 3 := hmode
  rw [setGpioMode_sel]
  by_cases hreg : i = selReg p
  · subst hreg
    rw [Function.update_self]
    by_cases hj : j < 32
    · rw [getLsbD_put hlt hj, if_neg fun hin => h ⟨rfl, hin⟩]
    · rw [BitVec.getLsbD_of_ge _ _ (by omega), BitVec.getLsbD_of_ge _ _ (by omega)]
  · rw [Function.update_of_ne hreg]

theorem packed_writes (pstrReg : GpioRegs) {calls : List (Fin 54 × Word)}
    (hmode : ∀ c ∈ calls, c.2 < 8) :
    Packed pstrReg (writes setGpioMode pstrReg calls) calls where
  inRange c _ := by omega
  modes p := by
    rw [(read_writes stores_mode hmode trivial).2, Option.map_id, id]
  others i j hfree := writes_keep (f := fun r => (r.as32GPFSEL i).getLsbD j)
    (fun c hc _ => bit_setGpioMode (hmode c hc) (hfree c hc)) pstrReg
  gpset := writes_keep (f := GpioRegs.as32GPSET) (fun _ _ _ => rfl) pstrReg
  gpclr := writes_keep (f := GpioRegs.as32GPCLR) (fun _ _ _ => rfl) pstrReg
  gplv := writes_keep (f := GpioRegs.as32GPLV) (fun _ _ _ => rfl) pstrReg

/-- The modes are those of the last calls, in the kernel module and in the user-space program,
and the registers are the same in both. -/
theorem modes_packed (pstr : Bcm2837Gpio.Bcm2837Peripheral) {calls : List (Fin 54 × Word)}
    (hmode : ∀ c ∈ calls, c.2 < 8) :
    Packed pstr.pstrReg (writes setGpioMode pstr.pstrReg calls) calls ∧
    (writes Bcm2837Gpio.setGpioMode pstr calls).pstrReg =
      writes setGpioMode pstr.pstrReg calls :=
  ⟨packed_writes pstr.pstrReg hmode,
    writes_map Bcm2837Gpio.pstrReg_setGpioMode pstr calls⟩

/-- Registers in which all bits are set. -/
def allOnes : GpioRegs := ⟨fun _ => 0xFFFFFFFF, fun _ => 0, fun _ => 0, fun _ => 0⟩

/-- Pin 4 is set twice, and shares no register with pin 14. -/
theorem modes_packed_three :
    Packed allOnes (writes setGpioMode allOnes [(4, 1), (14, 2), (4, 5)])
      [(4, 1), (14, 2), (4, 5)] := by
  have hmode : ∀ call ∈ [((4 : Fin 54), (1 : Word)), (14, 2), (4, 5)], call.2 < 8 := by
    intro call hcall
    simp only [List.mem_cons, List.not_mem_nil, or_false] at hcall
    obtain rfl | rfl | rfl := hcall <;> decide
  exact (modes_packed ⟨0, 0, allOnes⟩ hmode).1

end Cse522.GpioPrj.ModePacking

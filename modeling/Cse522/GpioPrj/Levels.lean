import Cse522.Clib.Cells
import Cse522.GpioPrj.Bcm2837Gpio
import Cse522.GpioPrj.ModePacking

/-!
# The levels of the pins

`set_gpio` stores a single one to the set or the clear register of a bank, and `get_gpio` reads
the level register. The hardware between them acts on the outputs whose bits are one, and only on
those, so a plain store is enough to move one pin.
-/
namespace Cse522.GpioPrj.Levels

open Cse522.Clib.Cells Cse522.GpioPrj.MyGpio
open Cse522.GpioPrj.ModePacking (modeOf)

/-- The bit of a pin in its bank. -/
def bitOf (p : Fin 54) : Nat := p.val % 32

/-- The level of a pin, as `GPLV` shows it. -/
def level (pstrReg : GpioRegs) (p : Fin 54) : Bool := (pstrReg.as32GPLV (bank p)).getLsbD (bitOf p)

/-- The pin has a one in a store of `bits` to bank `b`. -/
def Hit (b : Fin 2) (bits : Word) (p : Fin 54) : Prop := bank p = b ∧ bits.getLsbD (bitOf p) = true

instance (b : Fin 2) (bits : Word) (p : Fin 54) : Decidable (Hit b bits p) :=
  inferInstanceAs (Decidable (_ ∧ _))

/-- The pin is an output. -/
def IsOutput (pstrReg : GpioRegs) (p : Fin 54) : Prop := modeOf pstrReg p = GPIO_MODE_OUTPUT

instance (pstrReg : GpioRegs) (p : Fin 54) : Decidable (IsOutput pstrReg p) :=
  inferInstanceAs (Decidable (_ = _))

/-- What is assumed of the hardware: a store to `GPSET` raises the outputs with a one in it, a
store to `GPCLR` lowers them, the other outputs keep their level, and no mode changes. The level
of a pin in another mode is anything. -/
structure Latches (store : GpioRegs → Store → GpioRegs) : Prop where
  gpfsel : ∀ pstrReg st, (store pstrReg st).as32GPFSEL = pstrReg.as32GPFSEL
  gpset : ∀ pstrReg b bits p, IsOutput pstrReg p →
    level (store pstrReg (.gpset b bits)) p = if Hit b bits p then true else level pstrReg p
  gpclr : ∀ pstrReg b bits p, IsOutput pstrReg p →
    level (store pstrReg (.gpclr b bits)) p = if Hit b bits p then false else level pstrReg p

/-- From outside, the levels of the pins that are no outputs become those of `as32GPLV`. -/
def outside (pstrReg : GpioRegs) (as32GPLV : Fin 2 → Word) : Option GpioRegs :=
  if ∀ p, IsOutput pstrReg p → level { pstrReg with as32GPLV } p = level pstrReg p then
    some { pstrReg with as32GPLV }
  else none

variable {store : GpioRegs → Store → GpioRegs} {pstrReg pstrReg' : GpioRegs} {p q : Fin 54}

theorem bit_lt (p : Fin 54) : bitOf p < 32 := Nat.mod_lt _ (by decide)

/-- The bit that `set_gpio` stores for `p` is one of `p` and of no other pin. -/
theorem hit_iff : Hit (bank p) (1#32 <<< bitOf p) q ↔ p = q := by
  have hbit : (1#32 <<< bitOf p).getLsbD (bitOf q) = true ↔ bitOf p = bitOf q := by
    have hp := bit_lt p
    have hq := bit_lt q
    simp only [BitVec.getLsbD_shiftLeft, BitVec.getLsbD_one]
    simp only [hq, decide_true, Bool.true_and, Bool.and_eq_true, Bool.not_eq_true',
      decide_eq_false_iff_not, decide_eq_true_eq]
    omega
  rw [Hit, hbit, Fin.ext_iff, Fin.ext_iff]
  simp only [bank, bitOf]
  omega

theorem mode_setGpioOn (h : Latches store) (pstrReg : GpioRegs) (p q : Fin 54) (s32val : Int32) :
    modeOf (setGpioOn store pstrReg p s32val) q = modeOf pstrReg q := by
  unfold modeOf setGpioOn
  split <;> simp only [h.gpfsel]

/-- A call moves its own pin to the level of its value, if that is an output, and no other. -/
theorem level_setGpioOn (h : Latches store) (hq : IsOutput pstrReg q) (p : Fin 54)
    (s32val : Int32) : level (setGpioOn store pstrReg p s32val) q =
      if p = q then decide (s32val ≠ 0) else level pstrReg q := by
  unfold setGpioOn
  by_cases hval : s32val ≠ 0
  · rw [if_pos hval, h.gpset _ _ _ _ hq]
    exact if_congr hit_iff (decide_eq_true hval).symm rfl
  · rw [if_neg hval, h.gpclr _ _ _ _ hq]
    exact if_congr hit_iff (decide_eq_false hval).symm rfl

theorem stores_level (h : Latches store) : Stores IsOutput level (setGpioOn store)
    (fun _ => True) (fun s32val => decide (s32val ≠ 0)) :=
  fun pstrReg p s32val _ q hq =>
    ⟨(mode_setGpioOn h pstrReg p q s32val).trans hq, level_setGpioOn h hq p s32val⟩

theorem mode_outside {as32GPLV : Fin 2 → Word} (h : outside pstrReg as32GPLV = some pstrReg')
    (q : Fin 54) : modeOf pstrReg' q = modeOf pstrReg q := by
  obtain ⟨-, h⟩ := Option.ite_none_right_eq_some.mp h
  cases h
  rfl

theorem level_outside {as32GPLV : Fin 2 → Word} (h : outside pstrReg as32GPLV = some pstrReg')
    (hq : IsOutput pstrReg q) : level pstrReg' q = level pstrReg q := by
  obtain ⟨hkeep, h⟩ := Option.ite_none_right_eq_some.mp h
  cases h
  exact hkeep q hq

theorem getGpio_level (pstrReg : GpioRegs) (p : Fin 54) :
    getGpio pstrReg p = if level pstrReg p then 1 else 0 := by
  have hbit : ∀ b : Bool, ∀ j < 32,
      (if b then (1 : Word) else 0).getLsbD j = (b && decide (j = 0)) := by
    intro b j hj
    cases b <;> simp [BitVec.getLsbD_one]
  apply BitVec.eq_of_getLsbD_eq
  intro j hj
  rw [getGpio, BitVec.getLsbD_and, BitVec.getLsbD_ushiftRight, BitVec.getLsbD_one, hbit _ j hj]
  by_cases hj0 : j = 0
  · subst hj0
    simp [level, bitOf]
  · simp [hj0]

/-- What `get_gpio` returns behind a sequence of calls of `set_gpio`. -/
def expected (before : Word) : Option Int32 → Word
  | none => before
  | some s32val => if s32val ≠ 0 then 1 else 0

theorem getGpio_writes (h : Latches store) (hp : IsOutput pstrReg p)
    (calls : List (Fin 54 × Int32)) :
    getGpio (writes (setGpioOn store) pstrReg calls) p =
      expected (getGpio pstrReg p) (lastTo p calls) := by
  rw [getGpio_level, getGpio_level, (read_writes (stores_level h) (fun _ _ => trivial) hp).2]
  cases lastTo p calls with
  | none => rfl
  | some s32val => simp [expected]

/-- The last call for a pin that is an output decides what is read of it, in the kernel module
and in the user-space program. -/
theorem levels_round_trip (h : Latches store) (pstr : Bcm2837Gpio.Bcm2837Peripheral)
    (hp : IsOutput pstr.pstrReg p) (calls : List (Fin 54 × Int32)) :
    getGpio (writes (setGpioOn store) pstr.pstrReg calls) p =
      expected (getGpio pstr.pstrReg p) (lastTo p calls) ∧
    Bcm2837Gpio.getGpio (writes (Bcm2837Gpio.setGpioOn store) pstr calls) p =
      expected (Bcm2837Gpio.getGpio pstr p) (lastTo p calls) := by
  have hregs := writes_map (f := Bcm2837Gpio.Bcm2837Peripheral.pstrReg)
    (Bcm2837Gpio.pstrReg_setGpioOn store) pstr calls
  refine ⟨getGpio_writes h hp calls, ?_⟩
  rw [Bcm2837Gpio.getGpio_eq, hregs]
  exact getGpio_writes h hp calls

/-- A word with the bits of some pins. -/
def bitsOf (ps : List (Fin 54)) : Word := ps.foldr (fun p bits => 1#32 <<< bitOf p ||| bits) 0

/-- The pins of a bank that are outputs. -/
def outputs (pstrReg : GpioRegs) (b : Fin 2) : Word :=
  bitsOf ((List.finRange 54).filter fun p => bank p = b ∧ IsOutput pstrReg p)

/-- Hardware that acts on the outputs only, and keeps what was stored. -/
def hardware (pstrReg : GpioRegs) (st : Store) : GpioRegs :=
  match st with
  | .gpset b bits => { toMemory pstrReg st with
      as32GPLV := Function.update pstrReg.as32GPLV b
        (pstrReg.as32GPLV b ||| (bits &&& outputs pstrReg b)) }
  | .gpclr b bits => { toMemory pstrReg st with
      as32GPLV := Function.update pstrReg.as32GPLV b
        (pstrReg.as32GPLV b &&& ~~~(bits &&& outputs pstrReg b)) }

theorem getLsbD_bitsOf {ps : List (Fin 54)} (h : p ∈ ps) :
    (bitsOf ps).getLsbD (bitOf p) = true := by
  induction ps with
  | nil => cases h
  | cons q ps ih =>
      rw [bitsOf, List.foldr_cons, BitVec.getLsbD_or, Bool.or_eq_true]
      rcases List.mem_cons.mp h with rfl | h
      · exact .inl (hit_iff.mpr rfl).2
      · exact .inr (ih h)

theorem getLsbD_outputs (hp : IsOutput pstrReg p) :
    (outputs pstrReg (bank p)).getLsbD (bitOf p) = true := by
  apply getLsbD_bitsOf
  simp [hp]

theorem latches_hardware : Latches hardware where
  gpfsel pstrReg st := by cases st <;> rfl
  gpset pstrReg b bits p hp := by
    by_cases hb : bank p = b
    · subst hb
      simp [level, hardware, Hit, getLsbD_outputs hp, Bool.or_comm]
    · simp [level, hardware, Hit, hb]
  gpclr pstrReg b bits p hp := by
    by_cases hb : bank p = b
    · subst hb
      have hlt := bit_lt p
      have hout := getLsbD_outputs hp
      cases hbit : bits.getLsbD (bitOf p) <;> simp_all [level, hardware, Hit]
    · simp [level, hardware, Hit, hb]

/-- All pins are outputs, and low. -/
def allLow : GpioRegs := ⟨fun _ => 0x09249249, fun _ => 0, fun _ => 0, fun _ => 0⟩

/-- Pin 31, the last of its bank, is raised and stays so when pin 53 is raised and lowered. -/
theorem levels_round_trip_31 :
    getGpio (writes (setGpioOn hardware) allLow [(31, -5), (53, 1), (53, 0)]) 31 = 1 :=
  (levels_round_trip latches_hardware ⟨0, 0, allLow⟩ (p := 31) (by decide)
    [(31, -5), (53, 1), (53, 0)]).1

end Cse522.GpioPrj.Levels

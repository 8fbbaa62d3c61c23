import Mathlib.Data.BitVec
import Mathlib.Logic.Function.Basic

/-!
# The GPIO registers of `mygpio.c`

Ten pins share a function select register, three bits each, and 32 pins share a bank of
the set, clear and level registers. There are 54 pins, so every register index is in range.
-/
namespace Cse522.GpioPrj.MyGpio

abbrev Word := BitVec 32

def GPIO_MODE_INPUT : Word := 0
def GPIO_MODE_OUTPUT : Word := 1

/-- `gpio_regs`, without its reserved words. -/
structure GpioRegs where
  as32GPFSEL : Fin 6 → Word
  as32GPSET : Fin 2 → Word
  as32GPCLR : Fin 2 → Word
  as32GPLV : Fin 2 → Word
  deriving DecidableEq

/-- `s32ioid / 10` -/
def selReg (s32ioid : Fin 54) : Fin 6 := ⟨s32ioid.val / 10, by omega⟩

/-- `s32ioid / 32` -/
def bank (s32ioid : Fin 54) : Fin 2 := ⟨s32ioid.val / 32, by omega⟩

def setGpioMode (pstrReg : GpioRegs) (s32ioid : Fin 54) (s32mode : Word) : GpioRegs :=
  let i := selReg s32ioid
  let shift := s32ioid.val % 10 * 3
  let cleared := Function.update pstrReg.as32GPFSEL i (pstrReg.as32GPFSEL i &&& ~~~(7#32 <<< shift))
  { pstrReg with as32GPFSEL := Function.update cleared i (cleared i ||| s32mode <<< shift) }

def setGpio (pstrReg : GpioRegs) (s32ioid : Fin 54) (s32val : Int32) : GpioRegs :=
  let bit := 1#32 <<< (s32ioid.val % 32)
  if s32val ≠ 0 then
    { pstrReg with as32GPSET := Function.update pstrReg.as32GPSET (bank s32ioid) bit }
  else
    { pstrReg with as32GPCLR := Function.update pstrReg.as32GPCLR (bank s32ioid) bit }

def getGpio (pstrReg : GpioRegs) (s32ioid : Fin 54) : Word :=
  pstrReg.as32GPLV (bank s32ioid) >>> (s32ioid.val % 32) &&& 1#32

/-- A store to one of the registers through which the hardware is told what to do. -/
inductive Store where
  | gpset (bank : Fin 2) (bits : Word)
  | gpclr (bank : Fin 2) (bits : Word)
  deriving DecidableEq

/-- A store to plain memory. -/
def toMemory (pstrReg : GpioRegs) : Store → GpioRegs
  | .gpset bank bits =>
      { pstrReg with as32GPSET := Function.update pstrReg.as32GPSET bank bits }
  | .gpclr bank bits =>
      { pstrReg with as32GPCLR := Function.update pstrReg.as32GPCLR bank bits }

/-- `set_gpio` on registers that are stored to by `store`. -/
def setGpioOn (store : GpioRegs → Store → GpioRegs) (pstrReg : GpioRegs) (s32ioid : Fin 54)
    (s32val : Int32) : GpioRegs :=
  let bit := 1#32 <<< (s32ioid.val % 32)
  if s32val ≠ 0 then store pstrReg (.gpset (bank s32ioid) bit)
  else store pstrReg (.gpclr (bank s32ioid) bit)

end Cse522.GpioPrj.MyGpio

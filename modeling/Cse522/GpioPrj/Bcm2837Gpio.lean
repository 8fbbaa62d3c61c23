import Cse522.GpioPrj.MyGpio

/-!
# The GPIO functions of the user-space program

`bcm2837_gpio.c` has the same three functions as the kernel module, on the registers it has
mapped from `/dev/mem`.
-/
namespace Cse522.GpioPrj.Bcm2837Gpio

open Cse522.GpioPrj.MyGpio

/-- `bcm2837_peripheral`, with the registers that `map` and `pstrReg` point to. -/
structure Bcm2837Peripheral where
  addr_p : Word
  mem_fd : Int32
  pstrReg : GpioRegs

def setGpioMode (pstr : Bcm2837Peripheral) (s32ioid : Fin 54) (s32mode : Word) :
    Bcm2837Peripheral :=
  let pstrReg := pstr.pstrReg
  let i := selReg s32ioid
  let shift := s32ioid.val % 10 * 3
  let cleared := Function.update pstrReg.as32GPFSEL i (pstrReg.as32GPFSEL i &&& ~~~(7#32 <<< shift))
  { pstr with
    pstrReg := { pstrReg with
      as32GPFSEL := Function.update cleared i (cleared i ||| s32mode <<< shift) } }

/-- `set_gpio` on registers that are stored to by `store`. -/
def setGpioOn (store : GpioRegs → Store → GpioRegs) (pstr : Bcm2837Peripheral) (s32ioid : Fin 54)
    (s32val : Int32) : Bcm2837Peripheral :=
  let pstrReg := pstr.pstrReg
  let bit := 1#32 <<< (s32ioid.val % 32)
  if s32val ≠ 0 then { pstr with pstrReg := store pstrReg (.gpset (bank s32ioid) bit) }
  else { pstr with pstrReg := store pstrReg (.gpclr (bank s32ioid) bit) }

def getGpio (pstr : Bcm2837Peripheral) (s32ioid : Fin 54) : Word :=
  let pstrReg := pstr.pstrReg
  pstrReg.as32GPLV (bank s32ioid) >>> (s32ioid.val % 32) &&& 1#32

/-! ## The two implementations -/

theorem pstrReg_setGpioMode (pstr : Bcm2837Peripheral) (s32ioid : Fin 54) (s32mode : Word) :
    (setGpioMode pstr s32ioid s32mode).pstrReg =
      MyGpio.setGpioMode pstr.pstrReg s32ioid s32mode := rfl

theorem pstrReg_setGpioOn (store : GpioRegs → Store → GpioRegs) (pstr : Bcm2837Peripheral)
    (s32ioid : Fin 54) (s32val : Int32) : (setGpioOn store pstr s32ioid s32val).pstrReg =
      MyGpio.setGpioOn store pstr.pstrReg s32ioid s32val := by
  unfold setGpioOn MyGpio.setGpioOn
  split <;> rfl

theorem getGpio_eq (pstr : Bcm2837Peripheral) (s32ioid : Fin 54) :
    getGpio pstr s32ioid = MyGpio.getGpio pstr.pstrReg s32ioid := rfl

end Cse522.GpioPrj.Bcm2837Gpio

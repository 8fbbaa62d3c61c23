import Cse522.Clib.Kstrtox
import Cse522.GpioPrj.MyGpio
import Cse522.Interleave.Machine

/-!
# The LED module

The handler of the timer runs on one CPU, in three steps, while `led_ctrl_init`,
`led_ctrl_exit` and the writes to the `period` attribute run on others. The timer may
expire at any time while it is pending, whatever period it was armed with. The kernel
detaches it before the handler runs, `del_timer` does not wait for a running handler, and
`mod_timer` arms the timer in any case.
-/
namespace Cse522.GpioPrj.LedToggle

open Cse522.Interleave Cse522.Clib Cse522.Clib.Kstrtox Cse522.GpioPrj.MyGpio

def LED_PIN : Fin 54 := 4

/-- The statement of `fxn_timer_hdl` executed next. -/
inductive HandlerPc where
  | idle
  /-- `gs32isoff = !gs32isoff` -/
  | toggle
  /-- `set_gpio(gpstrReg, LED_PIN, gs32isoff)` -/
  | setGpio
  /-- `mod_timer(&gstrTimer, ..)`, the last one -/
  | modTimer
  deriving DecidableEq, Repr

/-- The statement of `led_ctrl_init` or `led_ctrl_exit` executed next. -/
inductive LoaderPc where
  /-- `gs32isoff = get_gpio(gpstrReg, LED_PIN)` -/
  | getLevel
  /-- `set_gpio_mode(gpstrReg, LED_PIN, GPIO_MODE_OUTPUT)` -/
  | setOutput
  /-- `setup_timer` and `mod_timer(&gstrTimer, ..)` -/
  | armTimer
  /-- `class_create` and `device_create` -/
  | createDevice
  /-- `device_create_file` -/
  | createFile
  /-- loaded; `led_ctrl_exit` starts with `device_remove_file` -/
  | removeFile
  /-- `device_destroy` and `class_destroy` -/
  | destroyDevice
  /-- `del_timer(&gstrTimer)` -/
  | delTimer
  /-- `set_gpio_mode(gpstrReg, LED_PIN, GPIO_MODE_INPUT)` -/
  | setInput
  /-- `led_ctrl_exit` has returned -/
  | unloaded
  deriving DecidableEq, Repr

/-- The globals of the module, whether `gstrTimer` is pending, whether the `period` file
is there, and both program counters. -/
structure State where
  gpstrReg : GpioRegs
  gs32Period : Int
  gs32isoff : Int32
  pending : Bool
  file : Bool
  handler : HandlerPc
  loader : LoaderPc
  deriving DecidableEq

/-- The module is loaded on registers with arbitrary contents. -/
def init (gpstrReg : GpioRegs) : State := ⟨gpstrReg, 1000, 1, false, false, .idle, .getLevel⟩

/-- `set_period` with the conversion `kstrtol`: the return value, and `gs32Period` after
the call. -/
def setPeriod (kstrtol : List Char → Except Int Int) (buf : List Char) (count gs32Period : Int) :
    Int × Int :=
  let s32val := res 0 (kstrtol buf)
  if ret (kstrtol buf) < 0 then (-EINVAL, gs32Period)
  else if s32val < 10 then (-EINVAL, gs32Period)
  else (count, Stdlib.toInt s32val)

inductive Act where
  /-- `led_ctrl_init` or `led_ctrl_exit` moves -/
  | loader
  /-- `buf` is written to the `period` file -/
  | write (buf : List Char)
  /-- the timer expires -/
  | expire
  /-- the handler moves -/
  | handler
  deriving DecidableEq

/-- One step of `fxn_timer_hdl`. -/
def fxnTimerHdl (s : State) : Option State :=
  match s.handler with
  | .idle => none
  | .toggle => some { s with gs32isoff := if s.gs32isoff = 0 then 1 else 0, handler := .setGpio }
  | .setGpio =>
      some { s with gpstrReg := setGpio s.gpstrReg LED_PIN s.gs32isoff, handler := .modTimer }
  | .modTimer => some { s with pending := true, handler := .idle }

/-- One step of `led_ctrl_init` or `led_ctrl_exit`. -/
def runLoader (s : State) : Option State :=
  match s.loader with
  | .getLevel => some { s with
      gs32isoff := Int32.ofInt (getGpio s.gpstrReg LED_PIN).toInt, loader := .setOutput }
  | .setOutput => some { s with
      gpstrReg := setGpioMode s.gpstrReg LED_PIN GPIO_MODE_OUTPUT, loader := .armTimer }
  | .armTimer => some { s with pending := true, loader := .createDevice }
  | .createDevice => some { s with loader := .createFile }
  | .createFile => some { s with file := true, loader := .removeFile }
  | .removeFile => some { s with file := false, loader := .destroyDevice }
  | .destroyDevice => some { s with loader := .delTimer }
  | .delTimer => some { s with pending := false, loader := .setInput }
  | .setInput => some { s with
      gpstrReg := setGpioMode s.gpstrReg LED_PIN GPIO_MODE_INPUT, loader := .unloaded }
  | .unloaded => none

def next (kstrtol : List Char → Except Int Int) (s : State) : Act → Option State
  | .loader => runLoader s
  | .write buf =>
      if s.file then some { s with gs32Period := (setPeriod kstrtol buf buf.length s.gs32Period).2 }
      else none
  | .expire =>
      if s.pending then some { s with pending := false, handler := .toggle } else none
  | .handler => fxnTimerHdl s

/-- The module with the kernel's `kstrtol`. -/
def ledModule (kstrtol : List Char → Except Int Int) : Machine State Act := ⟨next kstrtol⟩

/-- `led_ctrl_init` has returned. -/
def loaded : List Act := [.loader, .loader, .loader, .loader, .loader]

def zeroRegs : GpioRegs := ⟨fun _ => 0, fun _ => 0, fun _ => 0, fun _ => 0⟩

end Cse522.GpioPrj.LedToggle

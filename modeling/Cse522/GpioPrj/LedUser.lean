import Mathlib.Data.List.Basic
import Cse522.Clib.Stdio
import Cse522.GpioPrj.Levels
import Cse522.GpioPrj.ModePacking
import Cse522.Interleave.Machine

/-!
# The user-space program that blinks

`main` maps the registers, makes the pin of the LED an output, raises and lowers it ten times,
printing each time the level it reads back, and makes it an input again. The registers are
shared: while `main` runs, other programs raise and lower other pins, and pins that are no
outputs are moved from outside.
-/
namespace Cse522.GpioPrj.LedUser

open Cse522.Clib.Cells Cse522.Clib.Stdio Cse522.Interleave Cse522.GpioPrj.MyGpio
open Cse522.GpioPrj.Bcm2837Gpio (Bcm2837Peripheral)
open Cse522.GpioPrj.Levels
open Cse522.GpioPrj.ModePacking (modeOf)

def LED_PIN : Fin 54 := ⟨4, by decide⟩

/-- The statement of `main` executed next. -/
inductive Pc where
  /-- `open("/dev/mem", ..)` of `map_peripheral` -/
  | open
  /-- `mmap` of `map_peripheral` -/
  | mmap
  | setOutput
  /-- `s32i < 10` -/
  | test
  /-- `set_gpio(&gstrgpio, LED_PIN, 1)` -/
  | setHigh
  | getHigh
  | printHigh
  | sleepHigh
  /-- `set_gpio(&gstrgpio, LED_PIN, 0)` -/
  | setLow
  | getLow
  | printLow
  | sleepLow
  | incr
  | setInput
  /-- `unmap_peripheral` -/
  | unmap
  | returned
  /-- `exit(-1)` in `map_peripheral` -/
  | failed
  deriving DecidableEq, Repr

structure State where
  gstrgpio : Bcm2837Peripheral
  pc : Pc
  s32i : Nat
  s32temp : Word
  stdout : List Char
  /-- what the other programs have stored -/
  others : List (Fin 54 × Int32)

def init (gstrgpio : Bcm2837Peripheral) : State := ⟨gstrgpio, .open, 0, 0, [], []⟩

inductive Act where
  | main
  /-- `open` returns `mem_fd` -/
  | opens (mem_fd : Int32)
  | mmapFails
  /-- `set_gpio` in another program -/
  | other (s32ioid : Fin 54) (s32val : Int32)
  /-- pins that are no outputs are moved -/
  | outside (as32GPLV : Fin 2 → Word)
  deriving DecidableEq

/-- `printf("Set GPIO[%d] = %d\n", LED_PIN, s32temp)` -/
def setLine (s32temp : Word) : List Char :=
  "Set GPIO[".toList ++ decimal LED_PIN.val ++ "] = ".toList ++ decimal s32temp.toInt ++ ['\n']

/-- A statement of `main`, on the hardware behind `store`. -/
def statement (store : GpioRegs → Store → GpioRegs) (s : State) : Option State :=
  let p := s.gstrgpio
  match s.pc with
  | .open => none
  | .mmap => some { s with pc := .setOutput }
  | .setOutput =>
      some { s with
        gstrgpio := Bcm2837Gpio.setGpioMode p LED_PIN GPIO_MODE_OUTPUT
        s32i := 0
        pc := .test }
  | .test => some { s with pc := if s.s32i < 10 then .setHigh else .setInput }
  | .setHigh =>
      some { s with gstrgpio := Bcm2837Gpio.setGpioOn store p LED_PIN 1, pc := .getHigh }
  | .getHigh => some { s with s32temp := Bcm2837Gpio.getGpio p LED_PIN, pc := .printHigh }
  | .printHigh => some { s with stdout := s.stdout ++ setLine s.s32temp, pc := .sleepHigh }
  | .sleepHigh => some { s with pc := .setLow }
  | .setLow => some { s with gstrgpio := Bcm2837Gpio.setGpioOn store p LED_PIN 0, pc := .getLow }
  | .getLow => some { s with s32temp := Bcm2837Gpio.getGpio p LED_PIN, pc := .printLow }
  | .printLow => some { s with stdout := s.stdout ++ setLine s.s32temp, pc := .sleepLow }
  | .sleepLow => some { s with pc := .incr }
  | .incr => some { s with s32i := s.s32i + 1, pc := .test }
  | .setInput =>
      some { s with
        gstrgpio := Bcm2837Gpio.setGpioMode p LED_PIN GPIO_MODE_INPUT
        pc := .unmap }
  | .unmap => some { s with pc := .returned }
  | .returned | .failed => none

def next (store : GpioRegs → Store → GpioRegs) (s : State) : Act → Option State
  | .main => statement store s
  | .opens mem_fd =>
      if s.pc = .open then
        some { s with
          gstrgpio := { s.gstrgpio with mem_fd }
          pc := if mem_fd < 0 then .failed else .mmap }
      else none
  | .mmapFails => if s.pc = .mmap then some { s with pc := .failed } else none
  | .other s32ioid s32val =>
      if s32ioid = LED_PIN then none
      else some { s with
        gstrgpio := Bcm2837Gpio.setGpioOn store s.gstrgpio s32ioid s32val
        others := s.others ++ [(s32ioid, s32val)] }
  | .outside as32GPLV =>
      (outside s.gstrgpio.pstrReg as32GPLV).map fun pstrReg =>
        { s with gstrgpio := { s.gstrgpio with pstrReg } }

/-- `main`, among other programs that leave its pin alone. -/
def ledUser (store : GpioRegs → Store → GpioRegs) : Machine State Act := ⟨next store⟩

/-- What one round prints. -/
def round : List Char := "Set GPIO[4] = 1\nSet GPIO[4] = 0\n".toList

theorem round_eq : round = setLine 1 ++ setLine 0 := by decide

/-! ## What `main` relies on -/

/-- The part of a round that has been printed. -/
def Pc.printed : Pc → List Char
  | .sleepHigh | .setLow | .getLow | .printLow => setLine 1
  | .sleepLow | .incr => round
  | _ => []

/-- The rounds there can have been. -/
def Pc.Counts (s32i : Nat) : Pc → Prop
  | .open | .mmap | .setOutput | .failed => s32i = 0
  | .test => s32i ≤ 10
  | .setInput | .unmap | .returned => s32i = 10
  | _ => s32i < 10

/-- The level of the pin, where it is an output and `main` has set it. -/
def State.lit (s : State) : Option Bool :=
  match s.pc with
  | .getHigh | .printHigh | .sleepHigh | .setLow => some true
  | .getLow | .printLow | .sleepLow | .incr | .setInput => some false
  | .test => if s.s32i = 0 then none else some false
  | _ => none

/-- The mode of the pin, where `main` has set it. -/
def Pc.mode : Pc → Option Word
  | .open | .mmap | .setOutput | .failed => none
  | .unmap | .returned => some GPIO_MODE_INPUT
  | _ => some GPIO_MODE_OUTPUT

/-- The value `main` is about to print. -/
def Pc.reading : Pc → Option Word
  | .printHigh => some 1
  | .printLow => some 0
  | _ => none

structure Inv (before : GpioRegs) (s : State) : Prop where
  stdout : s.stdout = (List.replicate s.s32i round).flatten ++ s.pc.printed
  counts : s.pc.Counts s.s32i
  lit : ∀ b ∈ s.lit, level s.gstrgpio.pstrReg LED_PIN = b
  mode : ∀ m ∈ s.pc.mode, modeOf s.gstrgpio.pstrReg LED_PIN = m
  reading : ∀ v ∈ s.pc.reading, s.s32temp = v
  levels : ∀ q, q ≠ LED_PIN → IsOutput before q → level s.gstrgpio.pstrReg q =
    ((lastTo q s.others).map fun s32val => decide (s32val ≠ 0)).getD (level before q)
  modes : ∀ q, q ≠ LED_PIN → modeOf s.gstrgpio.pstrReg q = modeOf before q

variable {store : GpioRegs → Store → GpioRegs} {before : GpioRegs} {s t : State}
  {gstrgpio : Bcm2837Peripheral}

theorem inv_init (gstrgpio : Bcm2837Peripheral) : Inv gstrgpio.pstrReg (init gstrgpio) where
  stdout := rfl
  counts := rfl
  lit b hb := by cases hb
  mode m hm := by cases hm
  reading v hv := by cases hv
  levels q _ _ := rfl
  modes q _ := rfl

theorem mode_of_lit {b : Bool} (h : s.lit = some b) : s.pc.mode = some GPIO_MODE_OUTPUT := by
  cases hpc : s.pc <;> simp only [State.lit, hpc, reduceCtorEq] at h <;> rfl

/-- The pin is an output where its level is known. -/
theorem Inv.isOutput (h : Inv before s) {b : Bool} (hb : s.lit = some b) :
    IsOutput s.gstrgpio.pstrReg LED_PIN :=
  h.mode _ (mode_of_lit hb)

/-- The other outputs stay outputs. -/
theorem Inv.isOutput_other (h : Inv before s) {q : Fin 54} (hq : q ≠ LED_PIN)
    (hout : IsOutput before q) : IsOutput s.gstrgpio.pstrReg q :=
  (h.modes q hq).trans hout

theorem level_setGpioOn (hd : Latches store) {q : Fin 54} (hq : IsOutput gstrgpio.pstrReg q)
    (p : Fin 54) (s32val : Int32) :
    level (Bcm2837Gpio.setGpioOn store gstrgpio p s32val).pstrReg q =
      if p = q then decide (s32val ≠ 0) else level gstrgpio.pstrReg q := by
  rw [Bcm2837Gpio.pstrReg_setGpioOn]
  exact Levels.level_setGpioOn hd hq p s32val

theorem mode_setGpioOn (hd : Latches store) (p q : Fin 54) (s32val : Int32) :
    modeOf (Bcm2837Gpio.setGpioOn store gstrgpio p s32val).pstrReg q =
      modeOf gstrgpio.pstrReg q := by
  rw [Bcm2837Gpio.pstrReg_setGpioOn]
  exact Levels.mode_setGpioOn hd gstrgpio.pstrReg p q s32val

/-- What `set_gpio_mode` does to the modes. -/
theorem mode_setGpioMode {m : Word} (hm : m < 8) (p q : Fin 54) :
    modeOf (Bcm2837Gpio.setGpioMode gstrgpio p m).pstrReg q =
      if p = q then m else modeOf gstrgpio.pstrReg q :=
  ModePacking.mode_setGpioMode hm gstrgpio.pstrReg p q

/-- A statement that does not touch the registers. -/
theorem inv_local (h : Inv before s) (hregs : t.gstrgpio.pstrReg = s.gstrgpio.pstrReg)
    (hothers : t.others = s.others) (hcounts : t.pc.Counts t.s32i)
    (hstdout : t.stdout = (List.replicate t.s32i round).flatten ++ t.pc.printed)
    (hlit : ∀ b ∈ t.lit, b ∈ s.lit) (hmode : ∀ m ∈ t.pc.mode, m ∈ s.pc.mode)
    (hreading : ∀ v ∈ t.pc.reading, t.s32temp = v) : Inv before t where
  stdout := hstdout
  counts := hcounts
  lit b hb := by rw [hregs]; exact h.lit b (hlit b hb)
  mode m hm := by rw [hregs]; exact h.mode m (hmode m hm)
  reading := hreading
  levels q hq hout := by rw [hregs, hothers]; exact h.levels q hq hout
  modes q hq := by rw [hregs]; exact h.modes q hq

/-- `main` raises or lowers its pin. -/
theorem inv_setGpio (hd : Latches store) (h : Inv before s) {s32val : Int32} {pc : Pc}
    (hcounts : pc.Counts s.s32i) (hprinted : pc.printed = s.pc.printed)
    (hlit : State.lit { s with pc } = some (decide (s32val ≠ 0)))
    (hmode : pc.mode = s.pc.mode) (hreading : pc.reading = none) :
    Inv before { s with
      gstrgpio := Bcm2837Gpio.setGpioOn store s.gstrgpio LED_PIN s32val
      pc } where
  stdout := by rw [hprinted]; exact h.stdout
  counts := hcounts
  lit b hb := by
    have hmode' : s.pc.mode = some GPIO_MODE_OUTPUT := hmode ▸ mode_of_lit hlit
    rw [level_setGpioOn hd (h.mode _ hmode'), if_pos rfl]
    exact Option.some.inj (hlit.symm.trans hb)
  mode m hm := by
    rw [mode_setGpioOn hd]
    exact h.mode m (hmode ▸ hm)
  reading v hv := by
    rw [hreading] at hv
    cases hv
  levels q hq hout := by
    rw [level_setGpioOn hd (h.isOutput_other hq hout), if_neg hq.symm]
    exact h.levels q hq hout
  modes q hq := by
    rw [mode_setGpioOn hd]
    exact h.modes q hq

/-- `main` sets the mode of its pin. -/
theorem inv_setMode (h : Inv before s) {m : Word} (hm : m < 8) {pc : Pc}
    (hcounts : pc.Counts s.s32i) (hprinted : pc.printed = s.pc.printed)
    (hlit : State.lit { s with pc } = none)
    (hmode : pc.mode = some m) (hreading : pc.reading = none) :
    Inv before { s with
      gstrgpio := Bcm2837Gpio.setGpioMode s.gstrgpio LED_PIN m
      pc } where
  stdout := by rw [hprinted]; exact h.stdout
  counts := hcounts
  lit b hb := by
    have hlit' : State.lit { s with pc } = some b := hb
    rw [hlit] at hlit'
    cases hlit'
  mode m' hm' := by
    rw [mode_setGpioMode hm, if_pos rfl]
    exact Option.some.inj (hmode.symm.trans hm')
  reading v hv := by
    rw [hreading] at hv
    cases hv
  levels := h.levels
  modes q hq := by
    rw [mode_setGpioMode hm, if_neg hq.symm]
    exact h.modes q hq

/-- Another program moves another pin. -/
theorem inv_other (hd : Latches store) (h : Inv before s) {p : Fin 54} (hp : p ≠ LED_PIN)
    (s32val : Int32) : Inv before { s with
      gstrgpio := Bcm2837Gpio.setGpioOn store s.gstrgpio p s32val
      others := s.others ++ [(p, s32val)] } where
  stdout := h.stdout
  counts := h.counts
  lit b hb := by
    rw [level_setGpioOn hd (h.isOutput hb), if_neg hp]
    exact h.lit b hb
  mode m hm := by
    rw [mode_setGpioOn hd]
    exact h.mode m hm
  reading := h.reading
  levels q hq hout := by
    rw [level_setGpioOn hd (h.isOutput_other hq hout), lastTo_concat]
    by_cases hpq : p = q
    · rw [if_pos hpq, if_pos hpq]
      rfl
    · rw [if_neg hpq, if_neg hpq]
      exact h.levels q hq hout
  modes q hq := by
    rw [mode_setGpioOn hd]
    exact h.modes q hq

/-- Pins that are no outputs are moved. -/
theorem inv_outside (h : Inv before s) {as32GPLV : Fin 2 → Word} {pstrReg : GpioRegs}
    (ho : outside s.gstrgpio.pstrReg as32GPLV = some pstrReg) :
    Inv before { s with gstrgpio := { s.gstrgpio with pstrReg } } where
  stdout := h.stdout
  counts := h.counts
  lit b hb := (level_outside ho (h.isOutput hb)).trans (h.lit b hb)
  mode m hm := (mode_outside ho LED_PIN).trans (h.mode m hm)
  reading := h.reading
  levels q hq hout := (level_outside ho (h.isOutput_other hq hout)).trans (h.levels q hq hout)
  modes q hq := (mode_outside ho q).trans (h.modes q hq)

theorem inv_statement (hd : Latches store) (h : Inv before s) (ht : statement store s = some t) :
    Inv before t := by
  have hout := h.stdout
  have hcounts := h.counts
  have hlit := h.lit
  cases hpc : s.pc <;>
    simp only [statement, hpc, Option.some.injEq, reduceCtorEq] at ht <;>
    simp only [hpc, Pc.printed, Pc.Counts] at hout hcounts <;> subst ht
  case mmap =>
      exact inv_local h rfl rfl hcounts hout nofun nofun nofun
  case setOutput =>
      obtain ⟨gstrgpio, pc, s32i, s32temp, stdout, others⟩ := s
      obtain rfl : s32i = 0 := hcounts
      refine inv_setMode h (by decide) (Nat.zero_le 10) ?_ rfl rfl rfl
      simp only at hpc
      rw [hpc]
      rfl
  case test =>
      by_cases hlt : s.s32i < 10
      · rw [if_pos hlt]
        exact inv_local h rfl rfl hlt hout nofun (by simp [Pc.mode, hpc]) nofun
      · rw [if_neg hlt]
        have hten : s.s32i = 10 := by omega
        exact inv_local h rfl rfl hten hout (by simp [State.lit, hpc, hten])
          (by simp [Pc.mode, hpc]) nofun
  case setHigh =>
      exact inv_setGpio hd h hcounts (by rw [hpc]; rfl) rfl (by rw [hpc]; rfl) rfl
  case getHigh =>
      refine inv_local h rfl rfl hcounts hout (by simp [State.lit, hpc]) (by simp [Pc.mode, hpc]) ?_
      intro v hv
      cases hv
      have hhigh := hlit true (by simp [State.lit, hpc])
      rw [Bcm2837Gpio.getGpio_eq, getGpio_level, hhigh]
      rfl
  case printHigh =>
      have hread := h.reading 1 (by simp [Pc.reading, hpc])
      refine inv_local h rfl rfl hcounts ?_ (by simp [State.lit, hpc]) (by simp [Pc.mode, hpc])
        nofun
      simp [hout, hread, Pc.printed]
  case sleepHigh =>
      exact inv_local h rfl rfl hcounts hout (by simp [State.lit, hpc]) (by simp [Pc.mode, hpc])
        nofun
  case setLow =>
      exact inv_setGpio hd h hcounts (by rw [hpc]; rfl) rfl (by rw [hpc]; rfl) rfl
  case getLow =>
      refine inv_local h rfl rfl hcounts hout (by simp [State.lit, hpc]) (by simp [Pc.mode, hpc]) ?_
      intro v hv
      cases hv
      have hlow := hlit false (by simp [State.lit, hpc])
      rw [Bcm2837Gpio.getGpio_eq, getGpio_level, hlow]
      rfl
  case printLow =>
      have hread := h.reading 0 (by simp [Pc.reading, hpc])
      refine inv_local h rfl rfl hcounts ?_ (by simp [State.lit, hpc]) (by simp [Pc.mode, hpc])
        nofun
      simp [hout, hread, Pc.printed, round_eq]
  case sleepLow =>
      exact inv_local h rfl rfl hcounts hout (by simp [State.lit, hpc]) (by simp [Pc.mode, hpc])
        nofun
  case incr =>
      refine inv_local h rfl rfl hcounts ?_ (by simp [State.lit, hpc]) (by simp [Pc.mode, hpc])
        nofun
      simp [hout, Pc.printed, List.replicate_succ']
  case setInput =>
      exact inv_setMode h (by decide) hcounts (by rw [hpc]; rfl) rfl rfl rfl
  case unmap =>
      exact inv_local h rfl rfl hcounts hout (by simp [State.lit, hpc]) (by simp [Pc.mode, hpc])
        nofun

theorem inv_step (hd : Latches store) {a : Act} (h : Inv before s)
    (hn : (ledUser store).next s a = some t) : Inv before t := by
  cases a with
  | main => exact inv_statement hd h hn
  | opens mem_fd =>
      obtain ⟨hpc, ht⟩ := Option.ite_none_right_eq_some.mp hn
      cases ht
      have hout := h.stdout
      have hcounts := h.counts
      rw [hpc] at hout hcounts
      by_cases hfd : mem_fd < 0
      · rw [if_pos hfd]
        exact inv_local h rfl rfl hcounts hout nofun nofun nofun
      · rw [if_neg hfd]
        exact inv_local h rfl rfl hcounts hout nofun nofun nofun
  | mmapFails =>
      obtain ⟨hpc, ht⟩ := Option.ite_none_right_eq_some.mp hn
      cases ht
      have hout := h.stdout
      have hcounts := h.counts
      rw [hpc] at hout hcounts
      exact inv_local h rfl rfl hcounts hout nofun nofun nofun
  | other p s32val =>
      obtain ⟨hp, ht⟩ := Option.ite_none_left_eq_some.mp hn
      cases ht
      exact inv_other hd h hp s32val
  | outside as32GPLV =>
      obtain ⟨pstrReg, ho, rfl⟩ := Option.map_eq_some_iff.mp hn
      exact inv_outside h ho

theorem printed_part (pc : Pc) : pc.printed <+: round := by
  cases pc <;> simp [Pc.printed, round_eq]

theorem Inv.stdout_part (h : Inv before s) : s.stdout <+: (List.replicate 10 round).flatten := by
  rw [h.stdout]
  have hcounts := h.counts
  by_cases hlt : s.s32i < 10
  · have hsplit : (List.replicate 10 round).flatten = (List.replicate s.s32i round).flatten ++
        (round ++ (List.replicate (9 - s.s32i) round).flatten) := by
      have hsum : 10 = s.s32i + (1 + (9 - s.s32i)) := by omega
      rw [hsum, List.replicate_add, List.replicate_add, List.flatten_append, List.flatten_append]
      simp
    rw [hsplit, List.prefix_append_right_inj]
    exact (printed_part s.pc).trans (List.prefix_append _ _)
  · have hten : s.s32i = 10 ∧ s.pc.printed = [] := by
      cases hpc : s.pc <;> simp only [hpc, Pc.Counts] at hcounts <;>
        simp only [Pc.printed, and_true] <;> omega
    rw [hten.1, hten.2, List.append_nil]

/-- Whatever other programs do to the other pins, the program reads back what it has set: its
output is the first part of ten rounds of `1` and `0`, and all of them when it returns. It lowers
the pin before it makes it an input again, it leaves the modes of the other pins, and the levels
of those that are outputs are what the other programs have set. -/
theorem led_user_blinks (hd : Latches store) (gstrgpio : Bcm2837Peripheral)
    (hr : (ledUser store).Reachable (init gstrgpio) s) :
    s.stdout <+: (List.replicate 10 round).flatten ∧
    (∀ q, q ≠ LED_PIN → modeOf s.gstrgpio.pstrReg q = modeOf gstrgpio.pstrReg q ∧
      (IsOutput gstrgpio.pstrReg q → level s.gstrgpio.pstrReg q =
        ((lastTo q s.others).map fun s32val => decide (s32val ≠ 0)).getD
          (level gstrgpio.pstrReg q))) ∧
    (s.pc = .setInput → IsOutput s.gstrgpio.pstrReg LED_PIN ∧
      level s.gstrgpio.pstrReg LED_PIN = false) ∧
    (s.pc = .returned → s.stdout = (List.replicate 10 round).flatten ∧
      modeOf s.gstrgpio.pstrReg LED_PIN = GPIO_MODE_INPUT) := by
  have h : Inv gstrgpio.pstrReg s := hr.invariant (inv_step hd) (inv_init gstrgpio)
  refine ⟨h.stdout_part, fun q hq => ⟨h.modes q hq, h.levels q hq⟩, fun hpc => ?_, fun hpc => ?_⟩
  · have hlit : s.lit = some false := by simp [State.lit, hpc]
    exact ⟨h.isOutput hlit, h.lit false hlit⟩
  · have hout := h.stdout
    have hten : s.s32i = 10 := by
      have hcounts := h.counts
      rw [hpc] at hcounts
      exact hcounts
    rw [hten, hpc] at hout
    refine ⟨by simpa [Pc.printed] using hout, ?_⟩
    exact h.mode GPIO_MODE_INPUT (by simp [Pc.mode, hpc])

/-- Another program raises a pin before `main` blinks. -/
def raised (p : Fin 54) : List Act :=
  [.opens 3, .main, .main, .other p 1] ++ List.replicate 103 .main

theorem led_user_blinks_other : ∃ s,
    (ledUser hardware).run (init ⟨0, 0, allLow⟩) (raised 31) = some s ∧
    s.stdout = (List.replicate 10 round).flatten ∧
    modeOf s.gstrgpio.pstrReg LED_PIN = GPIO_MODE_INPUT ∧
    level s.gstrgpio.pstrReg 31 = true := by
  have hrun : ∃ s, (ledUser hardware).run (init ⟨0, 0, allLow⟩) (raised 31) = some s ∧
      s.pc = .returned ∧ s.others = [(31, 1)] := ⟨_, rfl, rfl, rfl⟩
  obtain ⟨s, hs, hpc, hothers⟩ := hrun
  obtain ⟨-, hpins, -, hreturned⟩ :=
    led_user_blinks latches_hardware ⟨0, 0, allLow⟩ ⟨_, hs⟩
  obtain ⟨hstdout, hmode⟩ := hreturned hpc
  have hlevel := (hpins 31 (by decide)).2 (by decide)
  rw [hothers] at hlevel
  exact ⟨s, hs, hstdout, hmode, hlevel⟩

end Cse522.GpioPrj.LedUser

import Cse522.GpioPrj.LedToggle
import Cse522.GpioPrj.LedUser

/-!
# The kernel module that blinks

The module on hardware that acts on its stores, with other drivers that raise and lower other
pins, and a world outside that moves those that are no outputs. The handler of the timer inverts
what it last stored and arms the timer again, so that from `led_ctrl_init` to `del_timer` the LED
changes its level each time the timer expires, whatever is written to the `period` file meanwhile.
-/
namespace Cse522.GpioPrj.LedBlinks

open Cse522.Clib.Cells Cse522.Interleave Cse522.GpioPrj.MyGpio
open Cse522.GpioPrj.LedToggle (LED_PIN)
open Cse522.GpioPrj.Levels
open Cse522.GpioPrj.ModePacking (modeOf mode_setGpioMode)

structure Board where
  ledToggle : LedToggle.State
  /-- the level of the pin that `led_ctrl_init` has read -/
  first : Bool
  /-- the values that the handler has stored for the pin -/
  stored : List Int32
  /-- what other drivers have stored for theirs -/
  others : List (Fin 54 × Int32)

def init (gpstrReg : GpioRegs) : Board := ⟨LedToggle.init gpstrReg, false, [], []⟩

inductive Act where
  | ledToggle (a : LedToggle.Act)
  /-- `set_gpio` in another driver -/
  | other (s32ioid : Fin 54) (s32val : Int32)
  /-- pins that are no outputs are moved -/
  | outside (as32GPLV : Fin 2 → Word)
  deriving DecidableEq

/-- The call of `set_gpio` in `fxn_timer_hdl`, on the hardware behind `store`. -/
def storeLevel (store : GpioRegs → Store → GpioRegs) (b : Board) : Board :=
  let s := b.ledToggle
  { b with
    ledToggle := { s with
      gpstrReg := setGpioOn store s.gpstrReg LED_PIN s.gs32isoff
      handler := .modTimer }
    stored := b.stored ++ [s.gs32isoff] }

def next (store : GpioRegs → Store → GpioRegs) (kstrtol : List Char → Except Int Int) (b : Board) :
    Act → Option Board
  | .ledToggle a =>
      let s := b.ledToggle
      if a = .handler ∧ s.handler = .setGpio then some (storeLevel store b)
      else
        (LedToggle.next kstrtol s a).map fun ledToggle => { b with
          ledToggle
          first := if s.loader = .getLevel then level s.gpstrReg LED_PIN else b.first }
  | .other s32ioid s32val =>
      if s32ioid = LED_PIN then none
      else some { b with
        ledToggle := { b.ledToggle with
          gpstrReg := setGpioOn store b.ledToggle.gpstrReg s32ioid s32val }
        others := b.others ++ [(s32ioid, s32val)] }
  | .outside as32GPLV =>
      (outside b.ledToggle.gpstrReg as32GPLV).map fun gpstrReg =>
        { b with ledToggle := { b.ledToggle with gpstrReg } }

def ledBoard (store : GpioRegs → Store → GpioRegs) (kstrtol : List Char → Except Int Int) :
    Machine Board Act := ⟨next store kstrtol⟩

/-- The level behind `k` changes. -/
def changed (before : Bool) : Nat → Bool
  | 0 => before
  | k + 1 => !changed before k

/-- The values that `k` runs of the handler store. -/
def blinks (before : Bool) (k : Nat) : List Int32 :=
  (List.range k).map fun i => if changed before (i + 1) then 1 else 0

/-- The timer has been armed and not been deleted. -/
def Ticking : LedToggle.LoaderPc → Prop
  | .createDevice | .createFile | .removeFile | .destroyDevice | .delTimer => True
  | _ => False

/-- The mode of the pin, where the module has set it. -/
def modeAt : LedToggle.LoaderPc → Option Word
  | .getLevel | .setOutput => none
  | .unloaded => some GPIO_MODE_INPUT
  | _ => some GPIO_MODE_OUTPUT

/-- The value that is in `gs32isoff` if the pin is at `now`. -/
def isoffAt (now : Bool) : LedToggle.HandlerPc → Int32
  | .setGpio => if now then 0 else 1
  | .idle | .toggle | .modTimer => if now then 1 else 0

/-- The level that the handler has last given to the pin, or the first one. -/
def Board.now (b : Board) : Bool := changed b.first b.stored.length

structure Inv (before : GpioRegs) (b : Board) : Prop where
  stored : b.stored = blinks b.first b.stored.length
  lit : b.stored ≠ [] → IsOutput b.ledToggle.gpstrReg LED_PIN →
    level b.ledToggle.gpstrReg LED_PIN = b.now
  isoff : b.ledToggle.loader ≠ .getLevel →
    b.ledToggle.gs32isoff = isoffAt b.now b.ledToggle.handler
  idle : b.ledToggle.pending = true → b.ledToggle.handler = .idle
  ticking : Ticking b.ledToggle.loader →
    b.ledToggle.pending = true ∨ b.ledToggle.handler ≠ .idle
  unarmed : b.ledToggle.loader = .getLevel ∨ b.ledToggle.loader = .setOutput ∨
    b.ledToggle.loader = .armTimer →
    b.ledToggle.pending = false ∧ b.ledToggle.handler = .idle ∧ b.stored = []
  mode : ∀ m ∈ modeAt b.ledToggle.loader, modeOf b.ledToggle.gpstrReg LED_PIN = m
  levels : ∀ q, q ≠ LED_PIN → IsOutput before q → level b.ledToggle.gpstrReg q =
    ((lastTo q b.others).map fun s32val => decide (s32val ≠ 0)).getD (level before q)
  modes : ∀ q, q ≠ LED_PIN → modeOf b.ledToggle.gpstrReg q = modeOf before q

variable {store : GpioRegs → Store → GpioRegs} {kstrtol : List Char → Except Int Int}
  {before : GpioRegs} {b c : Board} {s : LedToggle.State}

theorem inv_init (gpstrReg : GpioRegs) : Inv gpstrReg (init gpstrReg) where
  stored := rfl
  lit h := absurd rfl h
  isoff h := absurd rfl h
  idle h := by cases h
  ticking h := by cases h
  unarmed _ := ⟨rfl, rfl, rfl⟩
  mode m hm := by cases hm
  levels q _ _ := rfl
  modes q _ := rfl

/-- The other outputs stay outputs. -/
theorem Inv.isOutput_other (h : Inv before b) {q : Fin 54} (hq : q ≠ LED_PIN)
    (hout : IsOutput before q) : IsOutput b.ledToggle.gpstrReg q :=
  (h.modes q hq).trans hout

theorem blinks_succ (before : Bool) (k : Nat) :
    blinks before (k + 1) = blinks before k ++ [if changed before (k + 1) then 1 else 0] := by
  rw [blinks, List.range_succ, List.map_append]
  rfl

/-! ## Steps -/

/-- A step that stores nothing and leaves the pins alone. -/
theorem inv_local (h : Inv before b) (hregs : s.gpstrReg = b.ledToggle.gpstrReg)
    (hisoff : s.loader ≠ .getLevel → s.gs32isoff = isoffAt b.now s.handler)
    (hidle : s.pending = true → s.handler = .idle)
    (hticking : Ticking s.loader → s.pending = true ∨ s.handler ≠ .idle)
    (hunarmed : s.loader = .getLevel ∨ s.loader = .setOutput ∨ s.loader = .armTimer →
      s.pending = false ∧ s.handler = .idle ∧ b.stored = [])
    (hmode : ∀ m ∈ modeAt s.loader, m ∈ modeAt b.ledToggle.loader) :
    Inv before { b with ledToggle := s } where
  stored := h.stored
  lit := by rw [hregs]; exact h.lit
  isoff := hisoff
  idle := hidle
  ticking := hticking
  unarmed := hunarmed
  mode m hm := by rw [hregs]; exact h.mode m (hmode m hm)
  levels q hq := by rw [hregs]; exact h.levels q hq
  modes q hq := by rw [hregs]; exact h.modes q hq

/-- Before `led_ctrl_init` has read the level, it may be any. -/
theorem Inv.withFirst (h : Inv before b) (hl : b.ledToggle.loader = .getLevel) (first : Bool) :
    Inv before { b with first } := by
  obtain ⟨-, -, hstored⟩ := h.unarmed (.inl hl)
  refine ⟨?_, fun hne => absurd hstored hne, fun hne => absurd hl hne, h.idle, h.ticking,
    h.unarmed, h.mode, h.levels, h.modes⟩
  rw [hstored]
  rfl

/-- `get_gpio` in `led_ctrl_init`. -/
theorem inv_getLevel (h : Inv before b) (hl : b.ledToggle.loader = .getLevel)
    (hfirst : b.first = level b.ledToggle.gpstrReg LED_PIN) :
    Inv before { b with
      ledToggle := { b.ledToggle with
        gs32isoff := Int32.ofInt (getGpio b.ledToggle.gpstrReg LED_PIN).toInt
        loader := .setOutput } } := by
  obtain ⟨hpending, hhandler, hstored⟩ := h.unarmed (.inl hl)
  refine inv_local h rfl (fun _ => ?_) h.idle nofun (fun _ => ⟨hpending, hhandler, hstored⟩) nofun
  rw [hhandler, getGpio_level, Board.now, hstored, List.length_nil, changed, hfirst, isoffAt]
  split <;> rfl

/-- The module sets the mode of its pin: makes it an output before anything is stored, or an
input. -/
theorem inv_setMode (h : Inv before b) {m : Word} (hm : m < 8) {loader : LedToggle.LoaderPc}
    (hget : b.ledToggle.loader ≠ .getLevel) (hticking : ¬ Ticking loader)
    (hunarmed : loader = .getLevel ∨ loader = .setOutput ∨ loader = .armTimer →
      b.ledToggle.pending = false ∧ b.ledToggle.handler = .idle ∧ b.stored = [])
    (hmode : modeAt loader = some m) (hlit : b.stored = [] ∨ m ≠ GPIO_MODE_OUTPUT) :
    Inv before { b with ledToggle := { b.ledToggle with
      gpstrReg := setGpioMode b.ledToggle.gpstrReg LED_PIN m, loader } } where
  stored := h.stored
  lit hne hout := by
    have hself := mode_setGpioMode hm b.ledToggle.gpstrReg LED_PIN LED_PIN
    rw [if_pos rfl] at hself
    exact absurd (hself.symm.trans hout) (hlit.resolve_left hne)
  isoff _ := h.isoff hget
  idle := h.idle
  ticking ht := absurd ht hticking
  unarmed := hunarmed
  mode m' hm' := by
    obtain rfl := Option.some.inj (hmode.symm.trans hm')
    exact (mode_setGpioMode hm b.ledToggle.gpstrReg LED_PIN LED_PIN).trans (if_pos rfl)
  levels := h.levels
  modes q hq := by
    have hkeep := mode_setGpioMode hm b.ledToggle.gpstrReg LED_PIN q
    rw [if_neg hq.symm] at hkeep
    exact hkeep.trans (h.modes q hq)

theorem inv_loader (h : Inv before b) (hget : b.ledToggle.loader ≠ .getLevel)
    (hn : LedToggle.runLoader b.ledToggle = some s) : Inv before { b with ledToggle := s } := by
  have hidle := h.idle
  have hticking := h.ticking
  have hunarmed := h.unarmed
  have hisoff := h.isoff hget
  cases hl : b.ledToggle.loader <;>
    simp only [LedToggle.runLoader, hl, Option.some.injEq, reduceCtorEq] at hn <;> subst hn <;>
    simp only [hl, Ticking, or_true, forall_const, reduceCtorEq, or_false, or_self,
      false_implies] at hticking hunarmed
  case getLevel => exact absurd hl hget
  case setOutput =>
      exact inv_setMode h (by decide) hget nofun (fun _ => hunarmed) rfl (.inl hunarmed.2.2)
  case armTimer =>
      exact inv_local h rfl (fun _ => hisoff) (fun _ => hunarmed.2.1) (fun _ => .inl rfl)
        (by simp) (by simp [modeAt, hl])
  case delTimer =>
      exact inv_local h rfl (fun _ => hisoff) nofun nofun (by simp) (by simp [modeAt, hl])
  case setInput => exact inv_setMode h (by decide) hget nofun (by simp) rfl (.inr (by decide))
  all_goals
    exact inv_local h rfl (fun _ => hisoff) hidle (fun _ => hticking) (by simp)
      (by simp [modeAt, hl])

/-- The handler of the timer, but for its call of `set_gpio`. -/
theorem inv_handler (h : Inv before b) (hset : b.ledToggle.handler ≠ .setGpio)
    (hn : LedToggle.fxnTimerHdl b.ledToggle = some s) : Inv before { b with ledToggle := s } := by
  have hisoff := h.isoff
  have hunarmed := h.unarmed
  cases hh : b.ledToggle.handler <;>
    simp only [LedToggle.fxnTimerHdl, hh, Option.some.injEq, reduceCtorEq] at hn <;> subst hn
  case toggle =>
      rw [hh] at hisoff hunarmed
      refine inv_local h rfl (fun hl => ?_) (fun hp => ?_) (fun _ => .inr nofun)
        (fun hl => absurd (hunarmed hl).2.1 nofun) (fun _ => id)
      · show (if b.ledToggle.gs32isoff = 0 then 1 else 0) = isoffAt _ .setGpio
        rw [hisoff hl]
        cases b.now <;> rfl
      · rw [h.idle hp] at hh
        cases hh
  case setGpio => exact absurd hh hset
  case modTimer =>
      rw [hh] at hisoff hunarmed
      exact inv_local h rfl hisoff (fun _ => rfl) (fun _ => .inl rfl)
        (fun hl => absurd (hunarmed hl).2.1 nofun) (fun _ => id)

/-- Its call of `set_gpio`. -/
theorem inv_storeLevel (hd : Latches store) (h : Inv before b)
    (hset : b.ledToggle.handler = .setGpio) : Inv before (storeLevel store b) := by
  have hnot : ∀ {P : Prop}, (b.ledToggle.handler = .idle) → P := by
    intro P hidle
    rw [hset] at hidle
    cases hidle
  have hget : b.ledToggle.loader ≠ .getLevel := fun hl => hnot (h.unarmed (.inl hl)).2.1
  have hlen : (storeLevel store b).stored.length = b.stored.length + 1 := List.length_append
  have hnow : (storeLevel store b).now = !b.now := by
    rw [Board.now, hlen]
    rfl
  have hisoff : b.ledToggle.gs32isoff = if (storeLevel store b).now then 1 else 0 := by
    rw [h.isoff hget, hset, hnow]
    cases b.now <;> rfl
  have hlevel : decide (b.ledToggle.gs32isoff ≠ 0) = (storeLevel store b).now := by
    rw [hisoff]
    cases (storeLevel store b).now <;> rfl
  have hmode : ∀ q, modeOf (storeLevel store b).ledToggle.gpstrReg q =
      modeOf b.ledToggle.gpstrReg q := fun q => mode_setGpioOn hd _ LED_PIN q _
  have hregs : ∀ q, IsOutput b.ledToggle.gpstrReg q →
      level (storeLevel store b).ledToggle.gpstrReg q =
        if LED_PIN = q then decide (b.ledToggle.gs32isoff ≠ 0)
        else level b.ledToggle.gpstrReg q := fun q hq => level_setGpioOn hd hq LED_PIN _
  refine ⟨?_, fun _ hout => ?_, fun _ => ?_, fun hp => hnot (h.idle hp), fun _ => .inr nofun,
    fun hl => hnot (h.unarmed hl).2.1, fun m hm => (hmode _).trans (h.mode m hm),
    fun q hq hout => ?_, fun q hq => (hmode q).trans (h.modes q hq)⟩
  · rw [hlen, blinks_succ]
    show b.stored ++ [b.ledToggle.gs32isoff] = blinks b.first b.stored.length ++ _
    rw [← h.stored, hisoff, Board.now, hlen]
  · rw [hregs LED_PIN ((hmode _).symm.trans hout), if_pos rfl, hlevel]
  · exact hisoff
  · rw [hregs q (h.isOutput_other hq hout), if_neg hq.symm]
    exact h.levels q hq hout

/-- Another driver raises or lowers another pin. -/
theorem inv_other (hd : Latches store) (h : Inv before b) {p : Fin 54} (hp : p ≠ LED_PIN)
    (s32val : Int32) : Inv before { b with
      ledToggle := { b.ledToggle with
        gpstrReg := setGpioOn store b.ledToggle.gpstrReg p s32val }
      others := b.others ++ [(p, s32val)] } where
  stored := h.stored
  lit hne hout := by
    have hpin : IsOutput b.ledToggle.gpstrReg LED_PIN := (mode_setGpioOn hd _ _ _ _).symm.trans hout
    exact (level_setGpioOn hd hpin p s32val).trans ((if_neg hp).trans (h.lit hne hpin))
  isoff := h.isoff
  idle := h.idle
  ticking := h.ticking
  unarmed := h.unarmed
  mode m hm := (mode_setGpioOn hd _ _ _ _).trans (h.mode m hm)
  levels q hq hout := by
    rw [level_setGpioOn hd (h.isOutput_other hq hout), lastTo_concat]
    by_cases hpq : p = q
    · rw [if_pos hpq, if_pos hpq]
      rfl
    · rw [if_neg hpq, if_neg hpq]
      exact h.levels q hq hout
  modes q hq := (mode_setGpioOn hd _ _ _ _).trans (h.modes q hq)

/-- Pins that are no outputs are moved. -/
theorem inv_outside (h : Inv before b) {as32GPLV : Fin 2 → Word} {gpstrReg : GpioRegs}
    (ho : outside b.ledToggle.gpstrReg as32GPLV = some gpstrReg) :
    Inv before { b with ledToggle := { b.ledToggle with gpstrReg } } where
  stored := h.stored
  lit hne hout := by
    have hpin : IsOutput b.ledToggle.gpstrReg LED_PIN := (mode_outside ho LED_PIN).symm.trans hout
    exact (level_outside ho hpin).trans (h.lit hne hpin)
  isoff := h.isoff
  idle := h.idle
  ticking := h.ticking
  unarmed := h.unarmed
  mode m hm := (mode_outside ho LED_PIN).trans (h.mode m hm)
  levels q hq hout := (level_outside ho (h.isOutput_other hq hout)).trans (h.levels q hq hout)
  modes q hq := (mode_outside ho q).trans (h.modes q hq)

theorem inv_write (h : Inv before b) {buf : List Char}
    (hn : LedToggle.next kstrtol b.ledToggle (.write buf) = some s) :
    Inv before { b with ledToggle := s } := by
  obtain ⟨-, hn⟩ := Option.ite_none_right_eq_some.mp hn
  obtain rfl := Option.some.inj hn
  exact inv_local h rfl h.isoff h.idle h.ticking h.unarmed (fun _ => id)

/-- A step of the module behind `get_gpio`, but for the one that stores. -/
theorem inv_ledToggle (h : Inv before b) {a : LedToggle.Act}
    (hset : ¬ (a = .handler ∧ b.ledToggle.handler = .setGpio))
    (hget : b.ledToggle.loader ≠ .getLevel)
    (hn : LedToggle.next kstrtol b.ledToggle a = some s) :
    Inv before { b with ledToggle := s } := by
  cases a with
  | loader => exact inv_loader h hget hn
  | handler => exact inv_handler h (fun hh => hset ⟨rfl, hh⟩) hn
  | write buf => exact inv_write h hn
  | expire =>
      obtain ⟨hp, hn⟩ := Option.ite_none_right_eq_some.mp hn
      obtain rfl := Option.some.inj hn
      have hisoff := h.isoff
      rw [h.idle hp] at hisoff
      refine inv_local h rfl hisoff nofun (fun _ => .inr nofun) (fun hl => ?_) (fun _ => id)
      rw [(h.unarmed hl).1] at hp
      cases hp

/-- A step of the module before it has read the level, `first`. -/
theorem inv_unread (h : Inv before b) {a : LedToggle.Act} (hl : b.ledToggle.loader = .getLevel)
    (hfirst : b.first = level b.ledToggle.gpstrReg LED_PIN)
    (hn : LedToggle.next kstrtol b.ledToggle a = some s) :
    Inv before { b with ledToggle := s } := by
  obtain ⟨hpending, hhandler, -⟩ := h.unarmed (.inl hl)
  cases a with
  | loader =>
      simp only [LedToggle.next, LedToggle.runLoader, hl, Option.some.injEq] at hn
      subst hn
      exact inv_getLevel h hl hfirst
  | handler => simp [LedToggle.next, LedToggle.fxnTimerHdl, hhandler] at hn
  | write buf => exact inv_write h hn
  | expire => simp [LedToggle.next, hpending] at hn

theorem inv_step (hd : Latches store) {a : Act} (h : Inv before b)
    (hn : (ledBoard store kstrtol).next b a = some c) : Inv before c := by
  cases a with
  | other p s32val =>
      obtain ⟨hp, hn⟩ := Option.ite_none_left_eq_some.mp hn
      obtain rfl := Option.some.inj hn
      exact inv_other hd h hp s32val
  | outside as32GPLV =>
      obtain ⟨gpstrReg, ho, rfl⟩ := Option.map_eq_some_iff.mp hn
      exact inv_outside h ho
  | ledToggle a =>
      simp only [ledBoard, next] at hn
      split at hn
      next hcall =>
        obtain rfl := Option.some.inj hn
        exact inv_storeLevel hd h hcall.2
      next hcall =>
        obtain ⟨s, hs, rfl⟩ := Option.map_eq_some_iff.mp hn
        by_cases hl : b.ledToggle.loader = .getLevel
        · rw [if_pos hl]
          exact inv_unread (h.withFirst hl _) hl rfl hs
        · rw [if_neg hl]
          exact inv_ledToggle h hcall hl hs

/-! ## The next change -/

variable (store kstrtol)

/-- The handler can be run to its call of `set_gpio`. -/
def ChangesOnce (b : Board) : Prop :=
  ∃ c, (ledBoard store kstrtol).Reachable b c ∧ c.stored.length = b.stored.length + 1

variable {store kstrtol}

theorem changesOnce_of_step {a : Act} (hn : (ledBoard store kstrtol).next b a = some c)
    (hstored : c.stored = b.stored) (h : ChangesOnce store kstrtol c) :
    ChangesOnce store kstrtol b := by
  obtain ⟨d, hd, hlen⟩ := h
  exact ⟨d, (Machine.Reachable.single hn).trans hd, by rw [hlen, hstored]⟩

theorem changesOnce_of_setGpio (h : b.ledToggle.handler = .setGpio) :
    ChangesOnce store kstrtol b :=
  ⟨storeLevel store b, .single (a := .ledToggle .handler) (if_pos ⟨rfl, h⟩), List.length_append⟩

theorem changesOnce_of_toggle (h : b.ledToggle.handler = .toggle) :
    ChangesOnce store kstrtol b := by
  have hn : (ledBoard store kstrtol).next b (.ledToggle .handler) =
      some { b with
        ledToggle := { b.ledToggle with
          gs32isoff := if b.ledToggle.gs32isoff = 0 then 1 else 0, handler := .setGpio }
        first := if b.ledToggle.loader = .getLevel then level b.ledToggle.gpstrReg LED_PIN
          else b.first } := by
    simp only [ledBoard, next, LedToggle.next, LedToggle.fxnTimerHdl, h, reduceCtorEq, and_false,
      if_false, Option.map_some]
  exact changesOnce_of_step hn rfl (changesOnce_of_setGpio rfl)

theorem changesOnce_of_pending (h : b.ledToggle.pending = true) :
    ChangesOnce store kstrtol b := by
  have hn : (ledBoard store kstrtol).next b (.ledToggle .expire) =
      some { b with
        ledToggle := { b.ledToggle with pending := false, handler := .toggle }
        first := if b.ledToggle.loader = .getLevel then level b.ledToggle.gpstrReg LED_PIN
          else b.first } := by
    simp only [ledBoard, next, LedToggle.next, h, reduceCtorEq, false_and, if_true, if_false,
      Option.map_some]
  exact changesOnce_of_step hn rfl (changesOnce_of_toggle rfl)

theorem changesOnce_of_modTimer (h : b.ledToggle.handler = .modTimer) :
    ChangesOnce store kstrtol b := by
  have hn : (ledBoard store kstrtol).next b (.ledToggle .handler) =
      some { b with
        ledToggle := { b.ledToggle with pending := true, handler := .idle }
        first := if b.ledToggle.loader = .getLevel then level b.ledToggle.gpstrReg LED_PIN
          else b.first } := by
    simp only [ledBoard, next, LedToggle.next, LedToggle.fxnTimerHdl, h, reduceCtorEq, and_false,
      if_false, Option.map_some]
  exact changesOnce_of_step hn rfl (changesOnce_of_pending rfl)

theorem Inv.changesOnce (h : Inv before b) (ht : Ticking b.ledToggle.loader) :
    ChangesOnce store kstrtol b := by
  cases hh : b.ledToggle.handler with
  | idle => exact changesOnce_of_pending ((h.ticking ht).resolve_right (not_not_intro hh))
  | toggle => exact changesOnce_of_toggle hh
  | setGpio => exact changesOnce_of_setGpio hh
  | modTimer => exact changesOnce_of_modTimer hh

/-- In every run, whatever is written to the `period` file, the values that the handler stores are
in turn the inverse of the level that was read first and that level, the pin is where they put it
while it is an output, and as long as the timer has not been deleted it will be changed once more.
The pin is an output in between; the others keep their modes, and those that are outputs the
levels that their drivers have stored. -/
theorem led_module_blinks (hd : Latches store) (gpstrReg : GpioRegs)
    (hr : (ledBoard store kstrtol).Reachable (init gpstrReg) b) :
    b.stored = blinks b.first b.stored.length ∧
    (b.stored ≠ [] → IsOutput b.ledToggle.gpstrReg LED_PIN →
      level b.ledToggle.gpstrReg LED_PIN = changed b.first b.stored.length) ∧
    (Ticking b.ledToggle.loader → IsOutput b.ledToggle.gpstrReg LED_PIN ∧
      ChangesOnce store kstrtol b) ∧
    (b.ledToggle.loader = .unloaded →
      modeOf b.ledToggle.gpstrReg LED_PIN = GPIO_MODE_INPUT) ∧
    ∀ q, q ≠ LED_PIN → modeOf b.ledToggle.gpstrReg q = modeOf gpstrReg q ∧
      (IsOutput gpstrReg q → level b.ledToggle.gpstrReg q = ((lastTo q b.others).map fun s32val =>
        decide (s32val ≠ 0)).getD (level gpstrReg q)) := by
  have h : Inv gpstrReg b := hr.invariant (inv_step hd) (inv_init gpstrReg)
  refine ⟨h.stored, h.lit, fun ht => ⟨h.mode _ ?_, h.changesOnce ht⟩, fun hl => h.mode _ ?_,
    fun q hq => ⟨h.modes q hq, h.levels q hq⟩⟩
  · cases hl : b.ledToggle.loader <;> rw [hl] at ht <;> first | exact absurd ht id | rfl
  · rw [hl]
    rfl

/-- Loaded on outputs that are low; the timer expires and the handler raises the pin. -/
def raised : List Act :=
  [.ledToggle .loader, .ledToggle .loader, .other ⟨31, by decide⟩ 1, .ledToggle .loader,
    .ledToggle .expire, .ledToggle .handler, .ledToggle .handler]

theorem led_module_blinks_once : ∃ b, (ledBoard hardware Clib.Kstrtox.kstrtol).run
    (init allLow) raised = some b ∧ level b.ledToggle.gpstrReg LED_PIN = true ∧
    level b.ledToggle.gpstrReg 31 = true := by
  have hrun : ∃ b, (ledBoard hardware Clib.Kstrtox.kstrtol).run (init allLow) raised = some b ∧
      b.first = false ∧ b.stored.length = 1 ∧ b.others = [(31, 1)] ∧
      b.ledToggle.loader = .createDevice := ⟨_, rfl, rfl, rfl, rfl, rfl⟩
  obtain ⟨b, hb, hfirst, hlen, hothers, hloader⟩ := hrun
  obtain ⟨-, hlevel, hticking, -, hpins⟩ := led_module_blinks latches_hardware allLow ⟨_, hb⟩
  have hout := (hticking (by rw [hloader]; trivial)).1
  have hpin := hlevel (by simp [← List.length_pos_iff, hlen]) hout
  rw [hfirst, hlen] at hpin
  have hother := (hpins 31 (by decide)).2 (by decide)
  rw [hothers] at hother
  exact ⟨b, hb, hpin, hother⟩

end Cse522.GpioPrj.LedBlinks

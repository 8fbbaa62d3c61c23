import Cse522.GpioPrj.LedToggle

/-!
# Unloading the LED module

The last step of `fxn_timer_hdl` arms the timer again, and `del_timer` does not wait for a
handler that is running. The timer is gone for good exactly when `led_ctrl_exit` deletes it
while no handler runs; otherwise the module stays alive in every later state.
-/
namespace Cse522.GpioPrj.LedToggle

open Cse522.Interleave Cse522.GpioPrj.MyGpio

variable {kstrtol : List Char → Except Int Int} {gpstrReg : GpioRegs} {s t : State} {a : Act}

/-- The timer is not pending and its handler is not running. -/
def Stopped (s : State) : Prop := s.pending = false ∧ s.handler = .idle

instance (s : State) : Decidable (Stopped s) := inferInstanceAs (Decidable (_ ∧ _))

/-- `led_ctrl_exit` has executed `del_timer`. -/
def Deleted (s : State) : Prop := s.loader = .setInput ∨ s.loader = .unloaded

/-- `del_timer` is executed while no handler is running. -/
def DelIdle (s : State) (a : Act) (_ : State) : Prop :=
  a = .loader → s.loader = .delTimer → s.handler = .idle

instance (s : State) (a : Act) (t : State) : Decidable (DelIdle s a t) :=
  inferInstanceAs (Decidable (_ → _ → _))

/-- What a step does to the timer, its handler and the loader. -/
inductive Step (s t : State) : Act → Prop where
  | arm (hl : s.loader = .armTimer) (hp : t.pending = true) (hh : t.handler = s.handler)
      (hl' : t.loader = .createDevice) : Step s t .loader
  | del (hl : s.loader = .delTimer) (hp : t.pending = false) (hh : t.handler = s.handler)
      (hl' : t.loader = .setInput) : Step s t .loader
  | input (hl : s.loader = .setInput) (hp : t.pending = s.pending)
      (hh : t.handler = s.handler) (hl' : t.loader = .unloaded) : Step s t .loader
  /-- the steps of the loader that do not touch the timer, and do not follow `del_timer` -/
  | other (hl : ¬ Deleted s ∧ s.loader ≠ .delTimer) (hp : t.pending = s.pending)
      (hh : t.handler = s.handler) (hl' : ¬ Deleted t) : Step s t .loader
  | write (buf : List Char) (hp : t.pending = s.pending) (hh : t.handler = s.handler)
      (hl : t.loader = s.loader) : Step s t (.write buf)
  | expire (hp : s.pending = true) (hp' : t.pending = false) (hh : t.handler ≠ .idle)
      (hl : t.loader = s.loader) : Step s t .expire
  /-- the handler moves on towards `mod_timer` -/
  | advance (hh : s.handler ≠ .idle) (hp : t.pending = s.pending) (hh' : t.handler ≠ .idle)
      (hl : t.loader = s.loader) : Step s t .handler
  | rearm (hh : s.handler = .modTimer) (hp : t.pending = true) (hh' : t.handler = .idle)
      (hl : t.loader = s.loader) : Step s t .handler

theorem step_of_next (h : (ledModule kstrtol).next s a = some t) : Step s t a := by
  cases a with
  | loader =>
      cases hl : s.loader <;>
        simp only [ledModule, next, runLoader, hl, Option.some.injEq, reduceCtorEq] at h <;>
        subst h
      case armTimer => exact .arm hl rfl rfl rfl
      case delTimer => exact .del hl rfl rfl rfl
      case setInput => exact .input hl rfl rfl rfl
      all_goals exact .other (by simp [Deleted, hl]) rfl rfl (by simp [Deleted])
  | write buf =>
      obtain ⟨_, rfl⟩ : s.file = true ∧ _ = t := by simpa [ledModule, next] using h
      exact .write buf rfl rfl rfl
  | expire =>
      obtain ⟨hp, rfl⟩ : s.pending = true ∧ _ = t := by simpa [ledModule, next] using h
      exact .expire hp rfl (by simp) rfl
  | handler =>
      cases hh : s.handler <;>
        simp only [ledModule, next, fxnTimerHdl, hh, Option.some.injEq, reduceCtorEq] at h <;>
        subst h
      case modTimer => exact .rearm hh rfl rfl rfl
      all_goals exact .advance (by simp [hh]) rfl (by simp) rfl

/-! ## Deleted while no handler runs -/

/-- A timer deleted for good. -/
def Gone (s : State) : Prop := Deleted s ∧ Stopped s

theorem gone_step (h : Gone s) (hn : (ledModule kstrtol).next s a = some t) : Gone t := by
  obtain ⟨hd, hp, hh⟩ := h
  cases step_of_next hn with
  | input hl hp' hh' hl' => exact ⟨.inr hl', by rw [hp', hp], by rw [hh', hh]⟩
  | write buf hp' hh' hl =>
      refine ⟨?_, by rw [hp', hp], by rw [hh', hh]⟩
      rwa [Deleted, hl]
  | arm hl | del hl => simp [Deleted, hl] at hd
  | other hl => exact absurd hd hl.1
  | expire hp' => simp [hp] at hp'
  | advance hh' => exact absurd hh hh'
  | rearm hh' => simp [hh] at hh'

/-- Once deleted, the timer has stopped. -/
def StoppedIfDeleted (s : State) : Prop := Deleted s → Stopped s

theorem stoppedIfDeleted_step (h : StoppedIfDeleted s)
    (hn : (ledModule kstrtol).next s a = some t) (hc : DelIdle s a t) : StoppedIfDeleted t := by
  intro hd
  by_cases hs : Deleted s
  · exact (gone_step ⟨hs, h hs⟩ hn).2
  · cases step_of_next hn with
    | del hl hp hh =>
        have hidle := hc rfl hl
        exact ⟨hp, by rw [hh, hidle]⟩
    | arm _ _ _ hl' => simp [Deleted, hl'] at hd
    | input hl => exact absurd (.inl hl) hs
    | other _ _ _ hl' => exact absurd hd hl'
    | write _ _ _ hl | expire _ _ _ hl | advance _ _ _ hl | rearm _ _ _ hl =>
        exact absurd (by rwa [Deleted, hl] at hd) hs

/-! ## Deleted under a running handler -/

/-- The timer has been deleted and is still going to fire: some handler is running, or has
armed the timer again. -/
def Revived (s : State) : Prop := Deleted s ∧ ¬ Stopped s

theorem revived_step (h : Revived s) (hn : (ledModule kstrtol).next s a = some t) :
    Revived t := by
  obtain ⟨hd, hlive⟩ := h
  cases step_of_next hn with
  | input hl hp hh hl' =>
      refine ⟨.inr hl', ?_⟩
      rwa [Stopped, hp, hh]
  | write buf hp hh hl =>
      refine ⟨by rwa [Deleted, hl], ?_⟩
      rwa [Stopped, hp, hh]
  | arm hl | del hl => simp [Deleted, hl] at hd
  | other hl => exact absurd hd hl.1
  | expire hp hp' hh hl => exact ⟨by rwa [Deleted, hl], fun hs => hh hs.2⟩
  | advance hh hp hh' hl => exact ⟨by rwa [Deleted, hl], fun hs => hh' hs.2⟩
  | rearm hh hp hh' hl =>
      refine ⟨by rwa [Deleted, hl], fun hs => ?_⟩
      simp [hs.1] at hp

theorem revived_of_not_delIdle (hn : (ledModule kstrtol).next s a = some t)
    (h : ¬ DelIdle s a t) : Revived t := by
  obtain ⟨ha, hl, hbusy⟩ : a = .loader ∧ s.loader = .delTimer ∧ s.handler ≠ .idle := by
    simpa [DelIdle] using h
  subst ha
  cases step_of_next hn with
  | del _ _ hh hl' => exact ⟨.inl hl', fun hs => hbusy (hh ▸ hs.2)⟩
  | arm hl' | input hl' => simp [hl] at hl'
  | other hl' => exact absurd hl hl'.2

/-! ## After the unload -/

/-- Once `led_ctrl_exit` has returned, the timer is not pending, no handler runs and none
starts later, if and only if `del_timer` was executed while no handler was running. -/
theorem stopped_forever_iff_delIdle {as : List Act}
    (hr : (ledModule kstrtol).run (init gpstrReg) as = some s) (hu : s.loader = .unloaded) :
    (∀ t, (ledModule kstrtol).Reachable s t → Stopped t) ↔
      (ledModule kstrtol).Along DelIdle (init gpstrReg) as := by
  have hd : Deleted s := .inr hu
  constructor
  · intro h
    by_contra hno
    obtain ⟨q, a, r, -, hn, hbad, hrs⟩ := Machine.exists_of_not_along hr hno
    have hlive := hrs.invariant revived_step (revived_of_not_delIdle hn hbad)
    exact hlive.2 (h s (.refl s))
  · intro h t ht
    have h0 : StoppedIfDeleted (init gpstrReg) := fun h0 => by simp [Deleted, init] at h0
    have hs := Machine.Along.invariant stoppedIfDeleted_step h0 h hr
    have hgone : Gone t := ht.invariant gone_step ⟨hd, hs hd⟩
    exact hgone.2

def exited : List Act := [.loader, .loader, .loader, .loader]

/-- One period passes before the module is unloaded. -/
theorem stopped_forever_after_one_period :
    ∃ s, (ledModule Clib.Kstrtox.kstrtol).run (init zeroRegs)
        (loaded ++ [.expire, .handler, .handler, .handler] ++ exited) = some s ∧
      s.loader = .unloaded ∧
      ((∀ t, (ledModule Clib.Kstrtox.kstrtol).Reachable s t → Stopped t) ↔
        (ledModule Clib.Kstrtox.kstrtol).Along DelIdle (init zeroRegs)
          (loaded ++ [.expire, .handler, .handler, .handler] ++ exited)) :=
  ⟨_, rfl, rfl, stopped_forever_iff_delIdle rfl rfl⟩

/-- A handler that has toggled is overtaken by the whole of `led_ctrl_exit`. It arms the
timer again, which then expires in the unloaded module. -/
theorem led_unload_rearmed :
    ¬ ∀ (gpstrReg : GpioRegs) (as : List Act) (s : State),
      (ledModule Clib.Kstrtox.kstrtol).run (init gpstrReg) as = some s →
      s.loader = .unloaded →
      ∀ t, (ledModule Clib.Kstrtox.kstrtol).Reachable s t → Stopped t := by
  intro h
  have hs := h zeroRegs (loaded ++ [.expire, .handler] ++ exited) _ rfl rfl _
    ⟨[.handler, .handler], rfl⟩
  exact absurd hs (by decide)

end Cse522.GpioPrj.LedToggle

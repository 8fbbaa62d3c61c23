import Cse522.Interleave.Machine
import Mathlib.Data.Fintype.Basic
import Mathlib.Data.Fin.Basic

/-!
# Kernel threads and the high resolution timer

What the two monitoring modules use of the kernel. A task is woken by setting its state
to `TASK_RUNNING`; `schedule` takes it off the processor only while its state is another
one. A timer runs one callback at a time and is not queued while it runs.
-/
namespace Cse522.Lab01.Kernel

inductive TaskState where
  | running
  | interruptible
  /-- a new kthread, before its first wake-up -/
  | uninterruptible
  deriving DecidableEq, Repr

/-- The statement a kthread executes next. -/
inductive Pc where
  /-- in the kernel, in front of the first wake-up -/
  | parked
  /-- in the kernel, in front of the call of `mykthread`; a stopped kthread skips the call -/
  | entry
  /-- `hrtimer_start` in `mykthread` -/
  | hrtimerStart
  /-- `while(!kthread_should_stop())` -/
  | test
  /-- the call of `schedule()` -/
  | schedule
  /-- off the processor, inside `schedule()` -/
  | asleep
  /-- `printk` -/
  | log
  /-- `set_current_state(TASK_INTERRUPTIBLE)` -/
  | setState
  /-- `hrtimer_cancel` in `mykthread` -/
  | hrtimerCancel
  | exited
  deriving DecidableEq, Repr

/-- A `struct task_struct`. `stopWoken` is history: `kthread_stop` has delivered its wake-up. -/
structure TaskStruct (n : Nat) where
  created : Bool
  cpu : Option (Fin n)
  state : TaskState
  shouldStop : Bool
  stopWoken : Bool
  reaped : Bool
  pc : Pc
  deriving DecidableEq

namespace TaskStruct

variable {n : Nat}

def new : TaskStruct n := ⟨false, none, .uninterruptible, false, false, false, .parked⟩

def goto (l : TaskStruct n) (pc : Pc) : TaskStruct n := { l with pc }

/-- `wake_up_process` -/
def wake (l : TaskStruct n) : TaskStruct n := { l with state := .running }

/-- `kthread_bind`: a task that has left its first sleep is not bound, only warned about. -/
def bind (l : TaskStruct n) (core : Fin n) : TaskStruct n :=
  if l.pc = .parked ∧ l.state = .uninterruptible then { l with cpu := some core } else l

@[simp] theorem goto_pc (l : TaskStruct n) (pc : Pc) : (l.goto pc).pc = pc := rfl

@[simp] theorem wake_pc (l : TaskStruct n) : l.wake.pc = l.pc := rfl

@[simp] theorem bind_pc (l : TaskStruct n) (core : Fin n) : (l.bind core).pc = l.pc := by
  unfold bind
  split <;> rfl

@[simp] theorem bind_reaped (l : TaskStruct n) (core : Fin n) :
    (l.bind core).reaped = l.reaped := by
  unfold bind
  split <;> rfl

/-- Off the processor, with nobody having woken it. -/
def Sleeping (l : TaskStruct n) : Prop := l.pc = .asleep ∧ l.state ≠ .running

instance (l : TaskStruct n) : Decidable l.Sleeping := inferInstanceAs (Decidable (_ ∧ _))

end TaskStruct

/-- A statement of the timer callback. -/
inductive CallbackStmt (n : Nat) where
  | hrtimerForward
  /-- `wake_up_process(gpkthmykth[i])` -/
  | wakeUpProcess (i : Fin n)
  /-- `return HRTIMER_RESTART` -/
  | restart
  deriving DecidableEq

/-- A `struct hrtimer`: whether it is queued, and what is left of its running callback. -/
structure Timer (n : Nat) where
  armed : Bool
  callback : List (CallbackStmt n)
  deriving DecidableEq

namespace Timer

variable {n : Nat}

def Active (t : Timer n) : Prop := t.armed = true ∨ t.callback ≠ []

/-- `hrtimer_start` -/
def start (t : Timer n) : Timer n := { t with armed := true }

/-- `hrtimer_cancel` waits for a running callback. -/
def cancel (t : Timer n) : Option (Timer n) :=
  if t.callback = [] then some { t with armed := false } else none

/-- The timer expires and its callback, with the given statements, starts. -/
def expire (t : Timer n) (body : List (CallbackStmt n)) : Option (Timer n) :=
  if t.armed = true ∧ t.callback = [] then some ⟨false, body⟩ else none

theorem cancel_eq_some {t u : Timer n} (h : t.cancel = some u) : ¬ u.Active := by
  unfold cancel at h
  split at h
  case isTrue hidle =>
    cases h
    simp [Active, hidle]
  case isFalse => cases h

theorem expire_eq_some {t u : Timer n} {body : List (CallbackStmt n)}
    (h : t.expire body = some u) : t.armed = true ∧ t.callback = [] ∧ u = ⟨false, body⟩ := by
  unfold expire at h
  split at h
  case isTrue hq => exact ⟨hq.1, hq.2, (Option.some.inj h).symm⟩
  case isFalse => cases h

end Timer

end Cse522.Lab01.Kernel

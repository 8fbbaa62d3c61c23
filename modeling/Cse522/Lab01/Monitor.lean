import Cse522.Lab01.Kernel
import Mathlib.Data.List.Infix

/-!
# The monitoring modules of `lab01`

A module is the sequence of kernel calls of its `hello_init` and `hello_exit`, the
statements of its `mycallback`, and a `mykthread` that runs on each of its kthreads. The
loader runs `hello_exit` at any time after `hello_init` has returned. The timer may expire
between any two steps while it is queued, whatever its interval is, since any of the
parties may be preempted for that long.
-/
namespace Cse522.Lab01.Monitor

open Cse522.Interleave Cse522.Lab01.Kernel

/-- A kernel call of `hello_init` or `hello_exit`. -/
inductive Call (n : Nat) where
  | hrtimerStart
  | kthreadCreate (i : Fin n)
  /-- the new kthread is stored in `gpkthmykth[i]` -/
  | assign (i : Fin n)
  | kthreadBind (i : Fin n)
  | wakeUpProcess (i : Fin n)
  /-- `kthread_stop` sets the flag -/
  | setShouldStop (i : Fin n)
  /-- `kthread_stop` wakes the kthread -/
  | wakeStopped (i : Fin n)
  /-- `kthread_stop` waits for the exit and drops the task -/
  | waitExited (i : Fin n)
  | hrtimerCancel
  deriving DecidableEq

def kthreadStop {n : Nat} (i : Fin n) : List (Call n) :=
  [.setShouldStop i, .wakeStopped i, .waitExited i]

/-- A monitoring module with `n` kthreads. The last three fields are what its calls owe
the kthreads and the timer, whatever runs in between. -/
structure KernelModule (n : Nat) where
  helloInit : List (Call n)
  helloExit : List (Call n)
  mycallback : List (CallbackStmt n)
  /-- `mykthread` itself starts the timer in front of its loop and cancels it behind it -/
  ownTimer : Bool
  /-- every kthread is stopped and waited for -/
  stops : ∀ i, .setShouldStop i ∈ helloInit ++ helloExit ∧ .waitExited i ∈ helloInit ++ helloExit
  /-- the stop flag is set before the wake-up of `kthread_stop` -/
  flagFirst : ∀ l ∈ (helloInit ++ helloExit).tails, ∀ i,
    .setShouldStop i ∈ l → l.head? ≠ some (.wakeStopped i)
  /-- a timer that is started is cancelled later -/
  cancels : ∀ l ∈ (helloInit ++ helloExit).tails,
    l.head? = some .hrtimerStart → .hrtimerCancel ∈ l

/-- `multi_thread/main.c` -/
def multiThread : KernelModule 4 where
  helloInit := [
    .hrtimerStart,
    .kthreadCreate 0, .assign 0, .kthreadCreate 1, .assign 1,
    .kthreadCreate 2, .assign 2, .kthreadCreate 3, .assign 3,
    .kthreadBind 0, .kthreadBind 1, .kthreadBind 2, .kthreadBind 3,
    .wakeUpProcess 0, .wakeUpProcess 1, .wakeUpProcess 2, .wakeUpProcess 3]
  helloExit := kthreadStop 0 ++ kthreadStop 1 ++ kthreadStop 2 ++ kthreadStop 3 ++ [.hrtimerCancel]
  mycallback := [.hrtimerForward, .wakeUpProcess 0, .wakeUpProcess 1, .wakeUpProcess 2,
    .wakeUpProcess 3, .restart]
  ownTimer := false
  stops := by decide
  flagFirst := by decide +kernel
  cancels := by decide +kernel

/-- `single_thread/main.c`. `kthread_run` wakes the kthread before it returns the pointer. -/
def singleThread : KernelModule 1 where
  helloInit := [.kthreadCreate 0, .wakeUpProcess 0, .assign 0]
  helloExit := kthreadStop 0
  mycallback := [.hrtimerForward, .wakeUpProcess 0, .restart]
  ownTimer := true
  stops := by decide
  flagFirst := by decide
  cancels := by decide

variable {n : Nat}

/-- What is left of `hello_init` and `hello_exit`, the kthreads and the timer. -/
structure State (n : Nat) where
  todo : List (Call n)
  gpkthmykth : Fin n → Option (Fin n)
  tasks : Fin n → TaskStruct n
  timer : Timer n
  deriving DecidableEq

def KernelModule.calls (m : KernelModule n) : List (Call n) := m.helloInit ++ m.helloExit

def KernelModule.init (m : KernelModule n) : State n :=
  ⟨m.calls, fun _ => none, fun _ => .new, ⟨false, []⟩⟩

/-- Task `i` is left at `l`. -/
def State.move (s : State n) (i : Fin n) (l : TaskStruct n) : State n :=
  { s with tasks := Function.update s.tasks i l }

/-- `hello_init` or `hello_exit` executes the call `c`. -/
def exec (s : State n) : Call n → Option (State n)
  | .hrtimerStart => some { s with timer := s.timer.start }
  | .kthreadCreate i => some (s.move i { s.tasks i with created := true })
  | .assign i => some { s with gpkthmykth := Function.update s.gpkthmykth i (some i) }
  | .kthreadBind i => some (s.move i ((s.tasks i).bind i))
  | .wakeUpProcess i => some (s.move i (s.tasks i).wake)
  | .setShouldStop i => some (s.move i { s.tasks i with shouldStop := true })
  | .wakeStopped i => some (s.move i { (s.tasks i).wake with stopWoken := true })
  | .waitExited i =>
      if (s.tasks i).pc = .exited then some (s.move i { s.tasks i with reaped := true }) else none
  | .hrtimerCancel => s.timer.cancel.map fun t => { s with timer := t }

/-- One step of kthread `i` in `mykthread`, and around its call in the kernel. -/
def mykthread (ownTimer : Bool) (s : State n) (i : Fin n) : Option (State n) :=
  let l := s.tasks i
  match l.pc with
  | .parked => if l.state = .running then some (s.move i (l.goto .entry)) else none
  | .entry => some (s.move i (l.goto
      (if l.shouldStop then .exited else if ownTimer then .hrtimerStart else .test)))
  | .hrtimerStart => some ({ s with timer := s.timer.start }.move i (l.goto .test))
  | .test => some (s.move i (l.goto
      (if l.shouldStop then (if ownTimer then .hrtimerCancel else .exited) else .schedule)))
  | .schedule => some (s.move i (l.goto (if l.state = .running then .log else .asleep)))
  | .asleep => if l.state = .running then some (s.move i (l.goto .log)) else none
  | .log => some (s.move i (l.goto .setState))
  | .setState => some (s.move i { l with state := .interruptible, pc := .test })
  | .hrtimerCancel => s.timer.cancel.map fun t => { s with timer := t }.move i (l.goto .exited)
  | .exited => none

/-- The wake-up of the callback. A pointer that names no live task changes nothing here. -/
def wakeUpProcess (s : State n) : Option (Fin n) → State n
  | none => s
  | some j => if (s.tasks j).reaped then s else s.move j (s.tasks j).wake

/-- One step of the running callback. -/
def runCallback (s : State n) : Option (State n) :=
  match s.timer.callback with
  | [] => none
  | c :: rest =>
      let s := { s with timer := { s.timer with callback := rest } }
      match c with
      | .hrtimerForward => some s
      | .wakeUpProcess i => some (wakeUpProcess s (s.gpkthmykth i))
      | .restart => some { s with timer := s.timer.start }

inductive Act (n : Nat) where
  /-- `hello_init` or `hello_exit` moves -/
  | loader
  /-- kthread `i` moves -/
  | thread (i : Fin n)
  /-- the timer expires -/
  | expire
  /-- the callback moves -/
  | callback
  deriving DecidableEq

def KernelModule.next (m : KernelModule n) (s : State n) : Act n → Option (State n)
  | .loader =>
      match s.todo with
      | [] => none
      | c :: rest => exec { s with todo := rest } c
  | .thread i => mykthread m.ownTimer s i
  | .expire => (s.timer.expire m.mycallback).map fun t => { s with timer := t }
  | .callback => runCallback s

/-- A loaded module and everything that runs beside it. -/
def KernelModule.machine (m : KernelModule n) : Machine (State n) (Act n) := ⟨m.next⟩

end Cse522.Lab01.Monitor

import Cse522.Clib.Word
import Cse522.Interleave.Mutex

/-!
# The futex lock of `sleeplock.c`

Each thread runs `lock(); critical_section(); unlock();` a given number of times on one
word. The machine steps at the granularity of the source's atomic operations: the
decrement, the store of -1 and the futex wait of `lock`, the increment, the store of 1
and the futex wake of `unlock`.
-/
namespace Cse522.Studio11.SleepLock

open Cse522.Interleave

/-- `#define UNLOCKED (1)`, the initial value of `gs32curlock`. -/
def UNLOCKED : Int32 := 1

/-- The statement a thread executes next. -/
inductive Pc where
  /-- `__atomic_sub_fetch` in `lock` -/
  | subFetch
  /-- `__atomic_store_n(ps32lock, -1)` in `lock` -/
  | storeNeg
  /-- `FUTEX_WAIT` with the value -1, in `lock` -/
  | futexWait
  /-- asleep in the kernel, inside `FUTEX_WAIT` -/
  | asleep
  /-- `lock` has returned; `critical_section`, then `__atomic_add_fetch` in `unlock` -/
  | critical
  /-- `__atomic_store_n(ps32lock, 1)` in `unlock` -/
  | storeOne
  /-- `FUTEX_WAKE` of every sleeper, in `unlock` -/
  | futexWake
  | finished
  deriving DecidableEq, Repr

/-- A thread and the rounds it has left, the current one included. -/
structure Thread where
  pc : Pc
  rounds : Nat
  deriving DecidableEq, Repr

/-- A thread in front of `k` rounds. -/
def Thread.start (k : Nat) : Thread := ⟨if k = 0 then .finished else .subFetch, k⟩

def Thread.goto (l : Thread) (pc : Pc) : Thread := { l with pc }

@[simp] theorem Thread.goto_pc (l : Thread) (pc : Pc) : (l.goto pc).pc = pc := rfl

structure State (n : Nat) where
  gs32curlock : Int32
  threads : Fin n → Thread
  deriving DecidableEq

variable {n : Nat}

def init (rounds : Fin n → Nat) : State n := ⟨UNLOCKED, fun i => .start (rounds i)⟩

/-- Thread `i` leaves the word at `w` and itself at `l`. -/
def State.set (s : State n) (w : Int32) (i : Fin n) (l : Thread) : State n :=
  ⟨w, Function.update s.threads i l⟩

@[simp] theorem State.set_word (s : State n) (w : Int32) (i : Fin n) (l : Thread) :
    (s.set w i l).gs32curlock = w := rfl

@[simp] theorem State.set_threads (s : State n) (w : Int32) (i : Fin n) (l : Thread) :
    (s.set w i l).threads = Function.update s.threads i l := rfl

/-- `FUTEX_WAKE` with `INT_MAX`: every sleeper goes back to the top of the loop in `lock`. -/
def wakeAll (f : Fin n → Thread) (j : Fin n) : Thread :=
  if (f j).pc = .asleep then (f j).goto .subFetch else f j

/-- Thread `i` wakes every sleeper and returns from `unlock`. -/
def State.wake (s : State n) (i : Fin n) : State n :=
  ⟨s.gs32curlock, Function.update (wakeAll s.threads) i (.start ((s.threads i).rounds - 1))⟩

@[simp] theorem State.wake_word (s : State n) (i : Fin n) :
    (s.wake i).gs32curlock = s.gs32curlock := rfl

@[simp] theorem State.wake_threads (s : State n) (i : Fin n) : (s.wake i).threads =
    Function.update (wakeAll s.threads) i (.start ((s.threads i).rounds - 1)) := rfl

inductive Act where
  /-- the thread executes its next statement -/
  | step
  /-- `FUTEX_WAIT` returns without a wake-up: at once, or out of a sleep -/
  | interrupt
  deriving DecidableEq, Repr

/-- One atomic step of thread `i`. -/
def next (s : State n) : Fin n × Act → Option (State n)
  | (i, .step) =>
    let l := s.threads i
    let w := s.gs32curlock
    match l.pc with
    | .subFetch => some (s.set (w - 1) i (l.goto (if w - 1 < 0 then .storeNeg else .critical)))
    | .storeNeg => some (s.set (-1) i (l.goto .futexWait))
    | .futexWait => some (s.set w i (l.goto (if w = -1 then .asleep else .subFetch)))
    | .asleep => none
    | .critical =>
        some (s.set (w + 1) i (if w + 1 ≠ 1 then l.goto .storeOne else .start (l.rounds - 1)))
    | .storeOne => some (s.set 1 i (l.goto .futexWake))
    | .futexWake => some (s.wake i)
    | .finished => none
  | (i, .interrupt) =>
    let l := s.threads i
    match l.pc with
    | .futexWait | .asleep => some (s.set s.gs32curlock i (l.goto .subFetch))
    | _ => none

/-- The lock under `n` threads; every schedule of it is an interleaving. -/
def sleepLock (n : Nat) : Machine (State n) (Fin n × Act) := ⟨next⟩

/-! ## What a step can do -/

/-- The steps of `next`, one constructor for each outcome of a statement. -/
inductive Step (s : State n) (i : Fin n) : Act → State n → Prop
  | acquire (hpc : (s.threads i).pc = .subFetch) (hret : ¬ s.gs32curlock - 1 < 0) :
      Step s i .step (s.set (s.gs32curlock - 1) i ((s.threads i).goto .critical))
  | contend (hpc : (s.threads i).pc = .subFetch) (hret : s.gs32curlock - 1 < 0) :
      Step s i .step (s.set (s.gs32curlock - 1) i ((s.threads i).goto .storeNeg))
  | storeNeg (hpc : (s.threads i).pc = .storeNeg) :
      Step s i .step (s.set (-1) i ((s.threads i).goto .futexWait))
  | sleep (hpc : (s.threads i).pc = .futexWait) (hw : s.gs32curlock = -1) :
      Step s i .step (s.set s.gs32curlock i ((s.threads i).goto .asleep))
  | retry (hpc : (s.threads i).pc = .futexWait) (hw : s.gs32curlock ≠ -1) :
      Step s i .step (s.set s.gs32curlock i ((s.threads i).goto .subFetch))
  | release (hpc : (s.threads i).pc = .critical) (hret : s.gs32curlock + 1 = 1) :
      Step s i .step (s.set (s.gs32curlock + 1) i (.start ((s.threads i).rounds - 1)))
  | bump (hpc : (s.threads i).pc = .critical) (hret : s.gs32curlock + 1 ≠ 1) :
      Step s i .step (s.set (s.gs32curlock + 1) i ((s.threads i).goto .storeOne))
  | storeOne (hpc : (s.threads i).pc = .storeOne) :
      Step s i .step (s.set 1 i ((s.threads i).goto .futexWake))
  | wake (hpc : (s.threads i).pc = .futexWake) : Step s i .step (s.wake i)
  | interrupt (hpc : (s.threads i).pc = .futexWait ∨ (s.threads i).pc = .asleep) :
      Step s i .interrupt (s.set s.gs32curlock i ((s.threads i).goto .subFetch))

theorem step_of_next {s t : State n} {i : Fin n} {a : Act}
    (h : (sleepLock n).next s (i, a) = some t) : Step s i a t := by
  change next s (i, a) = some t at h
  cases a with
  | step =>
      cases hpc : (s.threads i).pc
      all_goals simp only [next, hpc, Option.some.injEq, reduceCtorEq] at h
      case subFetch =>
        subst h
        split
        · exact .contend hpc ‹_›
        · exact .acquire hpc ‹_›
      case storeNeg =>
        subst h
        exact .storeNeg hpc
      case futexWait =>
        subst h
        split
        · exact .sleep hpc ‹_›
        · exact .retry hpc ‹_›
      case critical =>
        subst h
        split
        · exact .bump hpc ‹_›
        · exact .release hpc (not_not.mp ‹_›)
      case storeOne =>
        subst h
        exact .storeOne hpc
      case futexWake =>
        subst h
        exact .wake hpc
  | interrupt =>
      cases hpc : (s.threads i).pc
      all_goals simp only [next, hpc, Option.some.injEq, reduceCtorEq] at h
      case futexWait =>
        subst h
        exact .interrupt (.inl hpc)
      case asleep =>
        subst h
        exact .interrupt (.inr hpc)

/-! ## Small facts about the threads a step leaves behind -/

@[simp] theorem start_pc {k : Nat} {pc : Pc} :
    (Thread.start k).pc = pc ↔ (k = 0 ∧ pc = .finished) ∨ (k ≠ 0 ∧ pc = .subFetch) := by
  by_cases hk : k = 0 <;> simp [Thread.start, hk, eq_comm]

theorem wakeAll_pc (f : Fin n → Thread) (j : Fin n) :
    (wakeAll f j).pc = (f j).pc ∨ ((f j).pc = .asleep ∧ (wakeAll f j).pc = .subFetch) := by
  unfold wakeAll
  split
  · exact .inr ⟨‹_›, rfl⟩
  · exact .inl rfl

end Cse522.Studio11.SleepLock

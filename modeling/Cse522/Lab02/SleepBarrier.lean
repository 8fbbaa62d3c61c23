import Cse522.Interleave.Mutex

/-!
# The sleep barrier

The `CUSTOM_BARRIER` block of `work_fxn`, run once by each of `T` threads. A thread in
`pthread_cond_wait` has released the mutex and sleeps in one step; it takes the mutex again
after a broadcast, or after a wakeup for no reason. That a broadcast has been issued is
history: nothing but the proofs reads it.
-/
namespace Cse522.Lab02.SleepBarrier

open Cse522.Interleave

/-- The statement of the block a thread executes next. -/
inductive Pc where
  /-- `pthread_mutex_lock(&gmutex_barrier)` -/
  | lock
  /-- `gs32remain--` -/
  | decrement
  /-- `0 == gs32remain` -/
  | test
  /-- `pthread_cond_broadcast(&gcond_var)` -/
  | broadcast
  /-- `0 != gs32remain` -/
  | whileTest
  /-- `pthread_cond_wait(&gcond_var, &gmutex_barrier)` -/
  | wait
  /-- asleep on `gcond_var` -/
  | asleep
  /-- woken inside `pthread_cond_wait`, without the mutex -/
  | reacquire
  /-- `pthread_mutex_unlock(&gmutex_barrier)` -/
  | unlock
  /-- out of the block -/
  | left
  deriving DecidableEq, Repr

structure State (T : Nat) where
  gs32remain : Int
  gmutex_barrier : Option (Fin T)
  pcs : Fin T → Pc
  announced : Bool
  deriving DecidableEq

variable {T : Nat}

/-- `main` has set `gs32remain` to the number of threads. -/
def init (T : Nat) : State T := ⟨T, none, fun _ => .lock, false⟩

/-- What a broadcast does to a thread. -/
def wake : Pc → Pc
  | .asleep => .reacquire
  | pc => pc

def State.move (s : State T) (i : Fin T) (pc : Pc) : State T :=
  { s with pcs := Function.update s.pcs i pc }

inductive Act (T : Nat) where
  | thread (i : Fin T)
  /-- thread `i` wakes up for no reason -/
  | spurious (i : Fin T)
  deriving DecidableEq

def next (s : State T) : Act T → Option (State T)
  | .thread i =>
      match s.pcs i with
      | .lock => ((mutex (Fin T)).next s.gmutex_barrier (.acquire i)).map fun o =>
          { s with gmutex_barrier := o }.move i .decrement
      | .decrement => some ({ s with gs32remain := s.gs32remain - 1 }.move i .test)
      | .test => some (s.move i (if 0 = s.gs32remain then .broadcast else .whileTest))
      | .broadcast => some
          ({ s with pcs := fun j => wake (s.pcs j), announced := true }.move i .unlock)
      | .whileTest => some (s.move i (if 0 ≠ s.gs32remain then .wait else .unlock))
      | .wait => ((mutex (Fin T)).next s.gmutex_barrier (.release i)).map fun o =>
          { s with gmutex_barrier := o }.move i .asleep
      | .asleep => none
      | .reacquire => ((mutex (Fin T)).next s.gmutex_barrier (.acquire i)).map fun o =>
          { s with gmutex_barrier := o }.move i .whileTest
      | .unlock => ((mutex (Fin T)).next s.gmutex_barrier (.release i)).map fun o =>
          { s with gmutex_barrier := o }.move i .left
      | .left => none
  | .spurious i => if s.pcs i = .asleep then some (s.move i .reacquire) else none

/-- `T` threads in the block. -/
def sleepBarrier (T : Nat) : Machine (State T) (Act T) := ⟨next⟩

/-- The steps of `next`, one constructor for each outcome of a statement. -/
inductive Step (s : State T) : Act T → State T → Prop
  | lock {i : Fin T} (hpc : s.pcs i = .lock) (hfree : s.gmutex_barrier = none) :
      Step s (.thread i) ({ s with gmutex_barrier := some i }.move i .decrement)
  | decrement {i : Fin T} (hpc : s.pcs i = .decrement) :
      Step s (.thread i) ({ s with gs32remain := s.gs32remain - 1 }.move i .test)
  | last {i : Fin T} (hpc : s.pcs i = .test) (h0 : s.gs32remain = 0) :
      Step s (.thread i) (s.move i .broadcast)
  | notLast {i : Fin T} (hpc : s.pcs i = .test) (h0 : s.gs32remain ≠ 0) :
      Step s (.thread i) (s.move i .whileTest)
  | broadcast {i : Fin T} (hpc : s.pcs i = .broadcast) :
      Step s (.thread i)
        ({ s with pcs := fun j => wake (s.pcs j), announced := true }.move i .unlock)
  | closed {i : Fin T} (hpc : s.pcs i = .whileTest) (h0 : s.gs32remain ≠ 0) :
      Step s (.thread i) (s.move i .wait)
  | opened {i : Fin T} (hpc : s.pcs i = .whileTest) (h0 : s.gs32remain = 0) :
      Step s (.thread i) (s.move i .unlock)
  | wait {i : Fin T} (hpc : s.pcs i = .wait) (hown : s.gmutex_barrier = some i) :
      Step s (.thread i) ({ s with gmutex_barrier := none }.move i .asleep)
  | reacquire {i : Fin T} (hpc : s.pcs i = .reacquire) (hfree : s.gmutex_barrier = none) :
      Step s (.thread i) ({ s with gmutex_barrier := some i }.move i .whileTest)
  | unlock {i : Fin T} (hpc : s.pcs i = .unlock) (hown : s.gmutex_barrier = some i) :
      Step s (.thread i) ({ s with gmutex_barrier := none }.move i .left)
  | spurious {i : Fin T} (hpc : s.pcs i = .asleep) :
      Step s (.spurious i) (s.move i .reacquire)

theorem step_of_next {s t : State T} {a : Act T} (h : (sleepBarrier T).next s a = some t) :
    Step s a t := by
  change next s a = some t at h
  cases a with
  | thread i =>
      cases hpc : s.pcs i
      all_goals simp only [next, hpc, Option.some.injEq, Option.map_eq_some_iff, mutex_acquire,
        mutex_release, reduceCtorEq] at h
      case lock =>
        obtain ⟨o, ⟨hfree, rfl⟩, rfl⟩ := h
        exact .lock hpc hfree
      case decrement =>
        subst h
        exact .decrement hpc
      case test =>
        subst h
        split
        · exact .last hpc (Eq.symm ‹_›)
        · exact .notLast hpc (Ne.symm ‹_›)
      case broadcast =>
        subst h
        exact .broadcast hpc
      case whileTest =>
        subst h
        split
        · exact .closed hpc (Ne.symm ‹_›)
        · exact .opened hpc (Eq.symm (not_not.mp ‹_›))
      case wait =>
        obtain ⟨o, ⟨hown, rfl⟩, rfl⟩ := h
        exact .wait hpc hown
      case reacquire =>
        obtain ⟨o, ⟨hfree, rfl⟩, rfl⟩ := h
        exact .reacquire hpc hfree
      case unlock =>
        obtain ⟨o, ⟨hown, rfl⟩, rfl⟩ := h
        exact .unlock hpc hown
  | spurious i =>
      simp only [next] at h
      split at h <;> cases h
      exact .spurious ‹_›

end Cse522.Lab02.SleepBarrier

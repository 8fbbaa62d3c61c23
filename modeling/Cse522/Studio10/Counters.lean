import Cse522.Interleave.Mutex

/-!
# The counting threads

The threads of `multi_race`, `multi_atomic` and `multi_mutex` count up the global `race`,
`IRT_TIME` times each. `multi_race` loads and stores the `volatile` variable in two steps, and
`multi_mutex` does so with `MYMUTEX` held; `multi_atomic` uses `atomic_add`. The number of
threads and of iterations are parameters.
-/
namespace Cse522.Studio10

open Cse522.Interleave

namespace MultiAtomic

/-- The statement of `mykthread` executed next. -/
inductive Pc where
  /-- the first `printk` -/
  | start
  /-- `s32i < IRT_TIME` -/
  | test
  /-- `atomic_add(1, &race)` -/
  | atomicAdd
  /-- `s32i++` -/
  | incr
  /-- the second `printk` -/
  | finish
  | returned
  deriving DecidableEq, Repr

structure Thread where
  s32i : Nat
  pc : Pc
  deriving DecidableEq, Repr

structure State (T : Nat) where
  race : Int32
  threads : Fin T → Thread
  deriving DecidableEq

variable {T : Nat}

def init (T : Nat) : State T := ⟨0, fun _ => ⟨0, .start⟩⟩

def State.move (s : State T) (i : Fin T) (l : Thread) : State T :=
  { s with threads := Function.update s.threads i l }

/-- One step of `mykthread` on thread `i`. -/
def mykthread (IRT_TIME : Nat) (s : State T) (i : Fin T) : Option (State T) :=
  let l := s.threads i
  match l.pc with
  | .start => some (s.move i ⟨0, .test⟩)
  | .test => some (s.move i { l with pc := if l.s32i < IRT_TIME then .atomicAdd else .finish })
  | .atomicAdd => some ({ s with race := s.race + 1 }.move i { l with pc := .incr })
  | .incr => some (s.move i ⟨l.s32i + 1, .test⟩)
  | .finish => some (s.move i { l with pc := .returned })
  | .returned => none

def multiAtomic (T IRT_TIME : Nat) : Machine (State T) (Fin T) := ⟨mykthread IRT_TIME⟩

/-- How many times the thread has run the body of its loop. -/
def Thread.completed (l : Thread) : Nat := l.s32i + if l.pc = .incr then 1 else 0

def State.total (s : State T) : Nat := ∑ i, (s.threads i).completed

end MultiAtomic

namespace MultiMutex

/-- The statement of `mykthread` executed next. -/
inductive Pc where
  /-- the first `printk` -/
  | start
  /-- `s32i < IRT_TIME` -/
  | test
  /-- `mutex_lock(&MYMUTEX)` -/
  | lock
  /-- the load of `race++` -/
  | load
  /-- the store of `race++` -/
  | store
  /-- `mutex_unlock(&MYMUTEX)` -/
  | unlock
  /-- `s32i++` -/
  | incr
  /-- the second `printk` -/
  | finish
  | returned
  deriving DecidableEq, Repr

/-- `loaded` is the register of `race++`. -/
structure Thread where
  s32i : Nat
  loaded : Int32
  pc : Pc
  deriving DecidableEq, Repr

structure State (T : Nat) where
  race : Int32
  MYMUTEX : Option (Fin T)
  threads : Fin T → Thread
  deriving DecidableEq

variable {T : Nat}

def init (T : Nat) : State T := ⟨0, none, fun _ => ⟨0, 0, .start⟩⟩

def State.move (s : State T) (i : Fin T) (l : Thread) : State T :=
  { s with threads := Function.update s.threads i l }

/-- One step of `mykthread` on thread `i`. -/
def mykthread (IRT_TIME : Nat) (s : State T) (i : Fin T) : Option (State T) :=
  let l := s.threads i
  match l.pc with
  | .start => some (s.move i { l with s32i := 0, pc := .test })
  | .test => some (s.move i { l with pc := if l.s32i < IRT_TIME then .lock else .finish })
  | .lock =>
      if s.MYMUTEX = none then some ({ s with MYMUTEX := some i }.move i { l with pc := .load })
      else none
  | .load => some (s.move i { l with loaded := s.race, pc := .store })
  | .store => some ({ s with race := l.loaded + 1 }.move i { l with pc := .unlock })
  | .unlock => some ({ s with MYMUTEX := none }.move i { l with pc := .incr })
  | .incr => some (s.move i { l with s32i := l.s32i + 1, pc := .test })
  | .finish => some (s.move i { l with pc := .returned })
  | .returned => none

def multiMutex (T IRT_TIME : Nat) : Machine (State T) (Fin T) := ⟨mykthread IRT_TIME⟩

/-- How many times the thread has run the body of its loop. -/
def Thread.completed (l : Thread) : Nat := l.s32i + if l.pc = .incr then 1 else 0

def State.total (s : State T) : Nat := ∑ i, (s.threads i).completed

end MultiMutex

namespace MultiRace

/-- The statement of `mykthread` executed next. -/
inductive Pc where
  /-- the first `printk` -/
  | start
  /-- `s32i < IRT_TIME` -/
  | test
  /-- the load of `race++` -/
  | load
  /-- the store of `race++` -/
  | store
  /-- `s32i++` -/
  | incr
  /-- the second `printk` -/
  | finish
  | returned
  deriving DecidableEq, Repr

/-- `loaded` is the register of `race++`. -/
structure Thread where
  s32i : Nat
  loaded : Int32
  pc : Pc
  deriving DecidableEq, Repr

structure State (T : Nat) where
  race : Int32
  threads : Fin T → Thread
  deriving DecidableEq

variable {T : Nat}

def init (T : Nat) : State T := ⟨0, fun _ => ⟨0, 0, .start⟩⟩

def State.move (s : State T) (i : Fin T) (l : Thread) : State T :=
  { s with threads := Function.update s.threads i l }

/-- One step of `mykthread` on thread `i`. -/
def mykthread (IRT_TIME : Nat) (s : State T) (i : Fin T) : Option (State T) :=
  let l := s.threads i
  match l.pc with
  | .start => some (s.move i { l with s32i := 0, pc := .test })
  | .test => some (s.move i { l with pc := if l.s32i < IRT_TIME then .load else .finish })
  | .load => some (s.move i { l with loaded := s.race, pc := .store })
  | .store => some ({ s with race := l.loaded + 1 }.move i { l with pc := .incr })
  | .incr => some (s.move i { l with s32i := l.s32i + 1, pc := .test })
  | .finish => some (s.move i { l with pc := .returned })
  | .returned => none

def multiRace (T IRT_TIME : Nat) : Machine (State T) (Fin T) := ⟨mykthread IRT_TIME⟩

/-- How many times the thread has run the body of its loop. -/
def Thread.completed (l : Thread) : Nat := l.s32i + if l.pc = .incr then 1 else 0

def State.total (s : State T) : Nat := ∑ i, (s.threads i).completed

/-- A store writes over the value that its thread has loaded. -/
def Fresh (s : State T) (i : Fin T) (_ : State T) : Prop :=
  (s.threads i).pc = .store → (s.threads i).loaded = s.race

instance : ∀ (s : State T) i t, Decidable (Fresh s i t) :=
  fun s i _ =>
    inferInstanceAs (Decidable ((s.threads i).pc = .store → (s.threads i).loaded = s.race))

end MultiRace

end Cse522.Studio10

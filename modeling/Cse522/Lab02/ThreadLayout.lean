import Mathlib.Logic.Function.Basic
import Cse522.Clib.Outcome
import Cse522.Lab02.Parsing

/-!
# The threads of `main`

`main` sizes its three arrays and the barrier with one product, and goes over the slots of the
arrays in three pairs of loops: to create the threads, to join them and to destroy their
attributes. The slot of the threads `s32i` on core `s32j` is `s32i * s32PCPUcnt + s32j`.
-/
namespace Cse522.Lab02.ThreadLayout

open Cse522.Clib.Outcome Cse522.Clib.Stdlib Cse522.Lab02.Parsing

def ERR_THREAD_CREATE : Int := -5
def ERR_SET_POLICY : Int := -7
def ERR_PIN_CORE : Int := -8
def ERR_SET_BARRIER : Int := -9
def ERR_DES_BARRIER : Int := -10
def ERR_INIT_MUTEX : Int := -11
def ERR_DES_MUTEX : Int := -12
def ERR_SET_PRIORITY : Int := -14

/-- How `main` stops early. -/
inductive Stop where
  | exit (status : Int)
  /-- a slot outside of its array, used before it is written, or written twice -/
  | misuse
  deriving DecidableEq, Repr

/-- What the calls return whose results are checked; those in the loops are told apart by their
slot. -/
structure Pthread where
  mutexInit : Int
  barrierInit : Int → Int
  attrSetaffinity : Int → Int
  attrSetschedpolicy : Int → Int
  attrSetschedparam : Int → Int
  create : Int → Int
  barrierDestroy : Int
  mutexDestroy : Int

/-- `pthread_attr_t`: the core in the affinity mask, and the scheduling parameters. -/
structure Attr where
  core : Int
  policy : Int
  schedPriority : Int
  deriving DecidableEq, Repr

/-- A thread, with the attributes it is created with and the `s32prio` of its `work_arg`. -/
structure Thread where
  attr : Attr
  s32prio : Int
  deriving DecidableEq, Repr

/-- The priority the thread runs with: `work_fxn` calls `setpriority` if the policy is
`SCHED_OTHER`, for which the attribute has 0. -/
def Thread.priority (t : Thread) : Int :=
  if t.attr.policy = SCHED_OTHER then t.s32prio else t.attr.schedPriority

/-- The arrays, the count of the barrier, and the slots visited by the three loops. -/
structure State where
  s32threadcnt : Int
  barrier : Int
  pstrworkarg : Int → Option Int
  pstrattr : Int → Option Attr
  ppthread : Int → Option Thread
  created : List Int
  joined : List Int
  destroyed : List Int

/-- A call that returns `ret` and exits with `status` unless that is 0. -/
def check (ret status : Int) : Except Stop Unit :=
  if ret ≠ 0 then .error (.exit status) else .ok ()

def write {α : Type} (cnt : Int) (a : Int → Option α) (s32idx : Int) (x : α) :
    Except Stop (Int → Option α) :=
  if 0 ≤ s32idx ∧ s32idx < cnt ∧ a s32idx = none then
    .ok (Function.update a s32idx (some x))
  else .error .misuse

def read {α : Type} (cnt : Int) (a : Int → Option α) (s32idx : Int) : Except Stop α :=
  if 0 ≤ s32idx ∧ s32idx < cnt then
    match a s32idx with
    | some x => .ok x
    | none => .error .misuse
  else .error .misuse

/-- The `switch` of `set_pthread_schedinfo_attr` -/
def schedPriority (s32policy s32prio : Int) : Except Stop Int :=
  if s32policy = SCHED_OTHER then .ok 0
  else if s32policy = SCHED_RR ∨ s32policy = SCHED_FIFO then .ok s32prio
  else .error (.exit ERR_SET_POLICY)

/-- `set_pthread_schedinfo_attr` on the attribute in `slot` -/
def setPthreadSchedinfoAttr (lib : Pthread) (slot s32policy s32prio s32coreid : Int) :
    Except Stop Attr := do
  check (lib.attrSetaffinity slot) ERR_PIN_CORE
  let schedPriority ← schedPriority s32policy s32prio
  check (lib.attrSetschedpolicy slot) ERR_SET_POLICY
  check (lib.attrSetschedparam slot) ERR_SET_PRIORITY
  return ⟨s32coreid, s32policy, schedPriority⟩

/-- The body of the loops that create the threads. -/
def createThread (lib : Pthread) (arg : ProfArg) (s32PCPUcnt s32i s32j : Int) (s : State) :
    Except Stop State := do
  let s32idx := toInt (s32i * s32PCPUcnt + s32j)
  let s32prio := if s32i < arg.s32pthpercore.tdiv 2 then arg.as32prio.1 else arg.as32prio.2
  let pstrworkarg ← write s.s32threadcnt s.pstrworkarg s32idx s32prio
  let attr ← setPthreadSchedinfoAttr lib s32idx arg.s32sched_policy s32prio s32j
  let pstrattr ← write s.s32threadcnt s.pstrattr s32idx attr
  -- `pthread_create` reads both
  let attr ← read s.s32threadcnt pstrattr s32idx
  let s32prio ← read s.s32threadcnt pstrworkarg s32idx
  check (lib.create s32idx) ERR_THREAD_CREATE
  let ppthread ← write s.s32threadcnt s.ppthread s32idx ⟨attr, s32prio⟩
  return { s with pstrworkarg, pstrattr, ppthread, created := s.created ++ [s32idx] }

/-- The body of the loops with `pthread_join`. -/
def joinThread (s32PCPUcnt s32i s32j : Int) (s : State) : Except Stop State := do
  let s32idx := toInt (s32i * s32PCPUcnt + s32j)
  let _ ← read s.s32threadcnt s.ppthread s32idx
  return { s with joined := s.joined ++ [s32idx] }

/-- The body of the loops with `pthread_attr_destroy`. -/
def destroyAttr (s32PCPUcnt s32i s32j : Int) (s : State) : Except Stop State := do
  let s32idx := toInt (s32i * s32PCPUcnt + s32j)
  let _ ← read s.s32threadcnt s.pstrattr s32idx
  return { s with destroyed := s.destroyed ++ [s32idx] }

/-- `main`, once its arguments are parsed, on `nprocs` online processors. -/
def main (lib : Pthread) (arg : ProfArg) (nprocs : Int) : Except Stop State := do
  let s32PCPUcnt := toInt nprocs
  let s32threadcnt := toInt (s32PCPUcnt * arg.s32pthpercore)
  check lib.mutexInit ERR_INIT_MUTEX
  check (lib.barrierInit s32threadcnt) ERR_SET_BARRIER
  let s : State := ⟨s32threadcnt, s32threadcnt, fun _ => none, fun _ => none, fun _ => none,
    [], [], []⟩
  let s ← forInt arg.s32pthpercore
    (fun s32i => forInt s32PCPUcnt (createThread lib arg s32PCPUcnt s32i)) s
  let s ← forInt arg.s32pthpercore
    (fun s32i => forInt s32PCPUcnt (joinThread s32PCPUcnt s32i)) s
  check lib.barrierDestroy ERR_DES_BARRIER
  check lib.mutexDestroy ERR_DES_MUTEX
  forInt arg.s32pthpercore (fun s32i => forInt s32PCPUcnt (destroyAttr s32PCPUcnt s32i)) s

end Cse522.Lab02.ThreadLayout

import Cse522.Lab01.MonitorSteps

/-!
# The window of the timer callback

`hello_init` of the second module starts the timer before its kthreads exist, and its
`hello_exit` cancels the timer after they are gone. The callback finds what it wakes only
inside the window between the binding of a kthread and its stop, and nothing but the
timing keeps it there.
-/
namespace Cse522.Lab01.Monitor

open Cse522.Interleave Cse522.Lab01.Kernel

variable {n : Nat}

/-- The callback is about to wake `gpkthmykth[i]`. -/
def Wakes (s : State n) (i : Fin n) : Prop :=
  s.timer.callback.head? = some (.wakeUpProcess i)

/-- `gpkthmykth[i]` points to a kthread that has been created, bound to its core and not
yet reaped. -/
def Live (s : State n) (i : Fin n) : Prop :=
  ∃ j, s.gpkthmykth i = some j ∧ (s.tasks j).created = true ∧ (s.tasks j).cpu = some i ∧
    (s.tasks j).reaped = false

/-- The callback touches live kthreads only. -/
def TouchesLive (s : State n) (a : Act n) (_ : State n) : Prop :=
  a = .callback → ∀ i, Wakes s i → Live s i

/-- The callback wakes a kthread only after `hello_init` has executed its `kthread_bind`
and before its `kthread_stop` in `hello_exit` has returned. -/
def InWindow (s : State n) (a : Act n) (_ : State n) : Prop :=
  a = .callback → ∀ i, Wakes s i → .kthreadBind i ∉ s.todo ∧ .waitExited i ∈ s.todo

instance (s : State n) (a : Act n) (t : State n) : Decidable (TouchesLive s a t) :=
  inferInstanceAs (Decidable (_ → ∀ i, s.timer.callback.head? = some (.wakeUpProcess i) →
    ∃ j, s.gpkthmykth i = some j ∧ (s.tasks j).created = true ∧ (s.tasks j).cpu = some i ∧
      (s.tasks j).reaped = false))

/-! ## The order of the calls -/

theorem multiThread_nodup : multiThread.calls.Nodup := by decide +kernel

/-- A kthread is created and stored before it is bound. -/
theorem multiThread_bindLast : ∀ l ∈ multiThread.calls.tails, ∀ i, .kthreadBind i ∉ l →
    .kthreadCreate i ∉ l ∧ .assign i ∉ l := by decide +kernel

/-- A kthread is bound before `hello_init` or `kthread_stop` wakes it. -/
theorem multiThread_bindFirst : ∀ l ∈ multiThread.calls.tails, ∀ i, .kthreadBind i ∈ l →
    l.head? ≠ some (.wakeUpProcess i) ∧ l.head? ≠ some (.wakeStopped i) := by decide +kernel

/-- Every kthread is created, stored, bound and waited for. -/
theorem multiThread_calls (i : Fin 4) : .kthreadCreate i ∈ multiThread.calls ∧
    .assign i ∈ multiThread.calls ∧ .kthreadBind i ∈ multiThread.calls ∧
    .waitExited i ∈ multiThread.calls := by
  revert i
  decide +kernel

/-- An executed call does not come again. -/
theorem not_mem_of_loader {s t : State 4} {c : Call 4} (h : s.todo ∈ multiThread.calls.tails)
    (hs : Step multiThread s .loader t) (hcall : s.todo.head? = some c) : c ∉ t.todo := by
  have hnd : s.todo.Nodup := multiThread_nodup.sublist ((List.mem_tails _ _).mp h).sublist
  obtain ⟨c', htodo⟩ := todo_of_loader hs
  rw [htodo] at hnd hcall
  obtain rfl : c' = c := by simpa using hcall
  exact (List.nodup_cons.mp hnd).1

/-! ## Inside the window -/

/-- What the calls that are left say about the pointers and the kthreads. -/
structure Tracked (s : State 4) : Prop where
  suffix : s.todo ∈ multiThread.calls.tails
  done : ∀ c ∈ multiThread.calls, c ∉ s.todo → Done s c
  pointer : ∀ i j, s.gpkthmykth i = some j → j = i
  unbound : ∀ i, .kthreadBind i ∈ s.todo →
    (s.tasks i).pc = .parked ∧ (s.tasks i).state = .uninterruptible ∧ (s.tasks i).cpu = none
  bound : ∀ i, .kthreadBind i ∉ s.todo → (s.tasks i).cpu = some i
  reaped : ∀ i, (s.tasks i).reaped = true → .waitExited i ∉ s.todo

theorem tracked_init : Tracked multiThread.init where
  suffix := by simp [KernelModule.init]
  done := fun c hc hno => absurd hc hno
  pointer := fun i j h => by simp [KernelModule.init] at h
  unbound := fun i _ => ⟨rfl, rfl, rfl⟩
  bound := fun i h => absurd (multiThread_calls i).2.2.1 h
  reaped := fun i h => by simp [KernelModule.init, TaskStruct.new] at h

theorem live_iff {s : State 4} (h : Tracked s) (i : Fin 4) :
    Live s i ↔ .kthreadBind i ∉ s.todo ∧ .waitExited i ∈ s.todo := by
  constructor
  · intro hlive
    obtain ⟨j, hp, _, hcpu, hreaped⟩ := hlive
    obtain rfl := h.pointer i j hp
    constructor
    · intro hmem
      rw [(h.unbound j hmem).2.2] at hcpu
      cases hcpu
    · by_contra hno
      have hd := (h.done _ (multiThread_calls j).2.2.2 hno).2
      rw [hreaped] at hd
      cases hd
  · intro hwindow
    obtain ⟨hbind, hwait⟩ := hwindow
    obtain ⟨hcreate, hassign⟩ := multiThread_bindLast _ h.suffix i hbind
    obtain ⟨hc, ha, _⟩ := multiThread_calls i
    refine ⟨i, h.done _ ha hassign, h.done _ hc hcreate, h.bound i hbind, ?_⟩
    by_contra hr
    exact h.reaped i (by simpa using hr) hwait

theorem touchesLive_iff {s t : State 4} {a : Act 4} (h : Tracked s)
    (_ : multiThread.machine.next s a = some t) : TouchesLive s a t ↔ InWindow s a t := by
  simp only [TouchesLive, InWindow, live_iff h]

theorem pointer_of_step {s t : State 4} {a : Act 4} (h : Tracked s) (hs : Step multiThread s a t)
    (i j : Fin 4) (hp : t.gpkthmykth i = some j) : j = i := by
  cases hs with
  | assign k rest hcall =>
      by_cases hk : i = k
      · subst hk
        simpa [eq_comm] using hp
      · exact h.pointer i j (by simpa [hk] using hp)
  | _ => exact h.pointer i j hp

/-- Inside the window nobody wakes a kthread that is still to be bound. -/
theorem unbound_step {s t : State 4} {a : Act 4} (h : Tracked s) (hs : Step multiThread s a t)
    (hw : InWindow s a t) (j : Fin 4) (hj : .kthreadBind j ∈ t.todo) :
    (t.tasks j).pc = .parked ∧ (t.tasks j).state = .uninterruptible ∧ (t.tasks j).cpu = none := by
  have hold := mem_of_todo hs hj
  have hfresh := h.unbound j hold
  have hfirst := multiThread_bindFirst _ h.suffix j hold
  have hc := taskChange_of_step hs j
  generalize t.tasks j = l at hc
  cases hc with
  | bind hcall => exact absurd hj (not_mem_of_loader h.suffix hs hcall)
  | wakeUp hcall => exact absurd hcall hfirst.1
  | wakeStopped hcall => exact absurd hcall hfirst.2
  | task l hl =>
      cases hl with
      | firstRun hpc hrun => simp [hfresh.2.1] at hrun
      | _ hpc => simp [hfresh.1] at hpc
  | taskStart hpc => simp [hfresh.1] at hpc
  | taskCancel hpc => simp [hfresh.1] at hpc
  | wake i hcb hp =>
      obtain rfl := h.pointer i j hp
      exact absurd hold (hw rfl j hcb).1
  | _ => exact hfresh

theorem cpu_of_step {s t : State 4} {a : Act 4} (hs : Step multiThread s a t) {j : Fin 4}
    (hj : .kthreadBind j ∉ s.todo) : (t.tasks j).cpu = (s.tasks j).cpu := by
  have hc := taskChange_of_step hs j
  generalize t.tasks j = l at hc
  cases hc with
  | bind hcall => exact absurd (List.mem_of_head? hcall) hj
  | task l hl => cases hl <;> rfl
  | _ => rfl

theorem bound_step {s t : State 4} {a : Act 4} (h : Tracked s) (hs : Step multiThread s a t)
    (j : Fin 4) (hj : .kthreadBind j ∉ t.todo) : (t.tasks j).cpu = some j := by
  by_cases hold : .kthreadBind j ∈ s.todo
  · -- only the binding itself takes it off the list, and the kthread still sleeps then
    cases hs with
    | bind i rest hcall =>
        have hrest : .kthreadBind j ∉ rest := hj
        obtain rfl : j = i := by simpa [hcall, hrest] using hold
        obtain ⟨hpc, hst, _⟩ := h.unbound j hold
        simp [State.move, TaskStruct.bind, hpc, hst]
    | _ => simp_all [State.move]
  · rw [cpu_of_step hs hold]
    exact h.bound j hold

theorem reaped_step {s t : State 4} {a : Act 4} (h : Tracked s) (hs : Step multiThread s a t)
    (j : Fin 4) (hr : (t.tasks j).reaped = true) : .waitExited j ∉ t.todo := by
  have hback : (s.tasks j).reaped = true → .waitExited j ∉ t.todo :=
    fun hr hmem => h.reaped j hr (mem_of_todo hs hmem)
  have hc := taskChange_of_step hs j
  generalize t.tasks j = l at hc hr
  cases hc with
  | waitExited hcall hex => exact not_mem_of_loader h.suffix hs hcall
  | bind hcall => exact hback (by simpa using hr)
  | task l hl => cases hl <;> exact hback hr
  | _ => exact hback hr

theorem tracked_step {s t : State 4} {a : Act 4} (h : Tracked s)
    (hn : multiThread.machine.next s a = some t) (hw : InWindow s a t) : Tracked t where
  suffix := suffix_step h.suffix (step_of_next hn)
  done := fun c hc => done_step (step_of_next hn) (h.done c hc)
  pointer := pointer_of_step h (step_of_next hn)
  unbound := unbound_step h (step_of_next hn) hw
  bound := bound_step h (step_of_next hn)
  reaped := reaped_step h (step_of_next hn)

/-- Along every schedule, the callback touches live kthreads only exactly when each of its
wake-ups falls between the binding of the kthread and the return of its stop. -/
theorem callback_live_iff_inWindow (as : List (Act 4)) :
    multiThread.machine.Along TouchesLive multiThread.init as ↔
      multiThread.machine.Along InWindow multiThread.init as :=
  Machine.along_congr touchesLive_iff tracked_step tracked_init

/-! ## Outside the window -/

/-- The timer expires after the calls of `hello_init` up to position `k`, and its callback
runs to its end. -/
def expireAfter (k : Nat) : List (Act 4) :=
  List.replicate k .loader ++ .expire :: List.replicate 6 .callback

/-- The whole of `hello_init`, a stop of each kthread before its first statement, and an
expiry in front of `hrtimer_cancel`. -/
def expireLast : List (Act 4) :=
  List.replicate 17 .loader ++
    (List.finRange 4).flatMap (fun i => [.loader, .loader, .thread i, .thread i, .loader]) ++
    [.expire, .callback, .callback]

/-- The callback can run before the pointers are set, before the kthreads are bound, and
after they are gone. -/
theorem callback_touches_dead :
    ¬ multiThread.machine.Along TouchesLive multiThread.init (expireAfter 1) ∧
    ¬ multiThread.machine.Along TouchesLive multiThread.init (expireAfter 9) ∧
    ¬ multiThread.machine.Along TouchesLive multiThread.init expireLast := by
  refine ⟨?_, ?_, ?_⟩ <;> decide +kernel

end Cse522.Lab01.Monitor

import Cse522.Lab01.MonitorSteps

/-!
# Stop requests

The loop of `mykthread` sets its state before it tests the stop flag, and `kthread_stop`
sets the flag before it wakes. Whatever the interleaving, a kthread that stands in front
of or inside `schedule` after the wake-up of its stop is runnable. The timer in turn is
held by a later `hrtimer_cancel`, of `hello_exit` or of a kthread in its loop.
-/
namespace Cse522.Lab01.Monitor

open Cse522.Interleave Cse522.Lab01.Kernel

variable {n : Nat} {m : KernelModule n}

/-- A kthread whose stop has been requested and woken does not go to sleep again. -/
def Heeds (l : TaskStruct n) : Prop :=
  l.stopWoken = true →
    l.shouldStop = true ∧ (l.pc = .schedule ∨ l.pc = .asleep → l.state = .running)

/-- Between the start and the cancel of the timer, where `mykthread` makes them. -/
def InLoop (pc : Pc) : Prop :=
  pc = .test ∨ pc = .schedule ∨ pc = .asleep ∨ pc = .log ∨ pc = .setState ∨ pc = .hrtimerCancel

/-- Whoever will cancel the timer. -/
def Held (m : KernelModule n) (s : State n) : Prop :=
  .hrtimerCancel ∈ s.todo ∨ (m.ownTimer = true ∧ ∃ i, InLoop (s.tasks i).pc)

structure Attended (m : KernelModule n) (s : State n) : Prop where
  suffix : s.todo ∈ m.calls.tails
  done : ∀ c ∈ m.calls, c ∉ s.todo → Done s c
  heeds : ∀ i, Heeds (s.tasks i)
  owns : ∀ i, (s.tasks i).pc = .hrtimerStart → m.ownTimer = true
  held : s.timer.Active → Held m s

theorem attended_init (m : KernelModule n) : Attended m m.init where
  suffix := by simp [KernelModule.init]
  done := fun c hc hno => absurd hc hno
  heeds := fun i h => by simp [KernelModule.init, TaskStruct.new] at h
  owns := fun i h => by simp [KernelModule.init, TaskStruct.new] at h
  held := fun h => by simp [KernelModule.init, Timer.Active] at h

/-! ## The kthreads -/

theorem heeds_taskStep {own : Bool} {l l' : TaskStruct n} (h : Heeds l) (hl : TaskStep own l l') :
    Heeds l' := by
  intro hw
  cases hl with
  | test hpc =>
      have hstop := (h hw).1
      refine ⟨hstop, ?_⟩
      cases own <;> simp [hstop]
  | schedule hpc =>
      obtain ⟨hstop, hrun⟩ := h hw
      have hs := hrun (.inl hpc)
      exact ⟨hstop, fun _ => hs⟩
  | entry hpc =>
      have hstop := (h hw).1
      refine ⟨hstop, ?_⟩
      simp [hstop]
  | firstRun | awake | log | setState => exact ⟨(h hw).1, by simp⟩

/-- At the wake-up of `kthread_stop` the flag is set. -/
theorem Attended.flag_of_wake {s : State n} (h : Attended m s) {i : Fin n}
    (hcall : s.todo.head? = some (.wakeStopped i)) : (s.tasks i).shouldStop = true :=
  h.done _ (m.stops i).1 fun hmem => m.flagFirst _ h.suffix i hmem hcall

theorem heeds_step {s t : State n} {a : Act n} (h : Attended m s) (hs : Step m s a t)
    (j : Fin n) : Heeds (t.tasks j) := by
  have hj := h.heeds j
  have hc := taskChange_of_step hs j
  generalize t.tasks j = l at hc
  cases hc with
  | bind hcall =>
      unfold TaskStruct.bind
      split <;> exact hj
  | wakeUp hcall => exact fun hw => ⟨(hj hw).1, fun _ => rfl⟩
  | wake i hcb hp => exact fun hw => ⟨(hj hw).1, fun _ => rfl⟩
  | setShouldStop hcall => exact fun hw => ⟨rfl, (hj hw).2⟩
  | wakeStopped hcall => exact fun _ => ⟨h.flag_of_wake hcall, fun _ => rfl⟩
  | task l hl => exact heeds_taskStep hj hl
  | taskStart hpc => exact fun hw => ⟨(hj hw).1, by simp⟩
  | taskCancel hpc => exact fun hw => ⟨(hj hw).1, by simp⟩
  | keep | create | waitExited => exact hj

/-! ## The timer -/

theorem owns_step {s t : State n} {a : Act n} (h : Attended m s) (hs : Step m s a t)
    (j : Fin n) : (t.tasks j).pc = .hrtimerStart → m.ownTimer = true := by
  have hj := h.owns j
  have hc := taskChange_of_step hs j
  generalize t.tasks j = l at hc
  cases hc with
  | task l hl =>
      cases hl with
      | entry hpc | test hpc =>
          cases hown : m.ownTimer <;> cases hstop : (s.tasks j).shouldStop <;> simp
      | schedule hpc =>
          intro hl
          rw [TaskStruct.goto_pc] at hl
          split at hl <;> cases hl
      | firstRun | awake | log | setState => simp
  | taskStart hpc => simp
  | taskCancel hpc => simp
  | bind hcall =>
      rw [TaskStruct.bind_pc]
      exact hj
  | _ => exact hj

/-- A kthread that cancels the timer itself leaves its loop only through the cancel. -/
theorem inLoop_taskStep {l l' : TaskStruct n} (h : InLoop l.pc) (hl : TaskStep true l l') :
    InLoop l'.pc := by
  cases hl with
  | firstRun hpc | entry hpc => simp [InLoop, hpc] at h
  | test hpc => cases hstop : l.shouldStop <;> simp [InLoop]
  | schedule hpc =>
      rw [TaskStruct.goto_pc]
      split <;> simp [InLoop]
  | awake | log | setState => simp [InLoop]

/-- A call other than `hrtimer_cancel` leaves the timer to whoever holds it. -/
theorem Held.call {s t : State n} {c : Call n} (h : Held m s) (hcall : s.todo = c :: t.todo)
    (hc : c ≠ .hrtimerCancel) (hpc : ∀ j, (t.tasks j).pc = (s.tasks j).pc) : Held m t := by
  rcases h with hmem | ⟨hown, i, hi⟩
  · rw [hcall] at hmem
    exact .inl ((List.mem_cons.mp hmem).resolve_left (Ne.symm hc))
  · exact .inr ⟨hown, i, by rwa [hpc i]⟩

theorem Held.move {s t : State n} {i : Fin n} {l : TaskStruct n} (h : Held m s)
    (htodo : t.todo = s.todo) (htasks : t.tasks = Function.update s.tasks i l)
    (hl : m.ownTimer = true → InLoop (s.tasks i).pc → InLoop l.pc) : Held m t := by
  rcases h with hmem | ⟨hown, j, hj⟩
  · exact .inl (htodo ▸ hmem)
  · by_cases hji : j = i
    · subst j
      exact .inr ⟨hown, i, by simpa [htasks] using hl hown hj⟩
    · exact .inr ⟨hown, j, by simpa [htasks, hji] using hj⟩

theorem pc_update {f : Fin n → TaskStruct n} {i : Fin n} {l : TaskStruct n}
    (h : l.pc = (f i).pc) (j : Fin n) : (Function.update f i l j).pc = (f j).pc :=
  forall_update (P := fun k (y : TaskStruct n) => y.pc = (f k).pc) (fun _ => rfl) h j

theorem held_step {s t : State n} {a : Act n} (h : Attended m s) (hs : Step m s a t)
    (hact : t.timer.Active) : Held m t := by
  cases hs with
  | start rest hcall =>
      have hmem := m.cancels _ h.suffix (by simp [hcall])
      rw [hcall] at hmem
      exact .inl ((List.mem_cons.mp hmem).resolve_left nofun)
  | cancel rest u hcall hu => exact absurd hact (Timer.cancel_eq_some hu)
  | create i rest hcall =>
      exact (h.held hact).call hcall nofun (pc_update rfl)
  | assign i rest hcall => exact (h.held hact).call hcall nofun fun _ => rfl
  | bind i rest hcall => exact (h.held hact).call hcall nofun (pc_update (by simp))
  | wakeUp i rest hcall => exact (h.held hact).call hcall nofun (pc_update rfl)
  | setShouldStop i rest hcall => exact (h.held hact).call hcall nofun (pc_update rfl)
  | wakeStopped i rest hcall => exact (h.held hact).call hcall nofun (pc_update rfl)
  | waitExited i rest hcall hex => exact (h.held hact).call hcall nofun (pc_update rfl)
  | task i l hl =>
      refine (h.held hact).move rfl rfl fun hown hi => ?_
      rw [hown] at hl
      exact inLoop_taskStep hi hl
  | taskStart i hpc => exact .inr ⟨h.owns i hpc, i, by simp [State.move, InLoop]⟩
  | taskCancel i u hpc hu => exact absurd hact (Timer.cancel_eq_some hu)
  | expire harmed => exact h.held (.inl harmed)
  | forward rest hcb => exact h.held (.inr (by simp [hcb]))
  | wakeNobody i rest hcb hp => exact h.held (.inr (by simp [hcb]))
  | wake i j rest hcb hp hlive =>
      exact (h.held (.inr (by simp [hcb]))).move rfl rfl fun _ hi => hi
  | restart rest hcb => exact h.held (.inr (by simp [hcb]))

theorem attended_step {s t : State n} {a : Act n} (h : Attended m s)
    (hn : m.machine.next s a = some t) : Attended m t where
  suffix := suffix_step h.suffix (step_of_next hn)
  done := fun c hc => done_step (step_of_next hn) (h.done c hc)
  heeds := heeds_step h (step_of_next hn)
  owns := owns_step h (step_of_next hn)
  held := held_step h (step_of_next hn)

/-- When `hello_exit` has returned, the kthreads have left their function and the timer is
inactive. -/
theorem Attended.ended {s : State n} (h : Attended m s) (hdone : s.todo = []) :
    (∀ i, (s.tasks i).pc = .exited) ∧ ¬ s.timer.Active := by
  have hex : ∀ i, (s.tasks i).pc = .exited := fun i =>
    (h.done _ (m.stops i).2 (by simp [hdone])).1
  refine ⟨hex, fun hact => ?_⟩
  rcases h.held hact with hmem | ⟨_, i, hi⟩
  · simp [hdone] at hmem
  · simp [InLoop, hex i] at hi

/-! ## Both modules -/

/-- The two modules of the lab. -/
inductive Lab where
  | singleThread
  | multiThread
  deriving DecidableEq, Repr

def Lab.cores : Lab → Nat
  | .singleThread => 1
  | .multiThread => 4

def Lab.module : (lab : Lab) → KernelModule lab.cores
  | .singleThread => Monitor.singleThread
  | .multiThread => Monitor.multiThread

/-- A kthread whose stop has been requested and woken is not asleep in `schedule`, and
once `hello_exit` has returned every kthread has left its function and the timer is
inactive. -/
theorem stop_request_never_lost (lab : Lab) {s : State lab.cores}
    (h : lab.module.machine.Reachable lab.module.init s) :
    (∀ i, (s.tasks i).stopWoken = true → (s.tasks i).shouldStop = true ∧ ¬ (s.tasks i).Sleeping) ∧
    (s.todo = [] → (∀ i, (s.tasks i).pc = .exited) ∧ ¬ s.timer.Active) := by
  have ha := h.invariant attended_step (attended_init _)
  constructor
  · intro i hw
    obtain ⟨hstop, hrun⟩ := ha.heeds i hw
    exact ⟨hstop, fun hs => hs.2 (hrun (.inr hs.1))⟩
  · exact ha.ended

/-- The kthread of the first module is asleep when the timer expires, and stands in front
of `schedule` again when its stop is requested. -/
theorem stop_request_single : ∃ s : State 1,
    s.todo = [] ∧ (s.tasks 0).pc = .exited ∧ ¬ s.timer.Active := by
  have hrun : ∃ s, singleThread.machine.run singleThread.init
      [.loader, .loader, .thread 0, .thread 0, .thread 0, .loader, .thread 0, .thread 0, .thread 0,
        .thread 0, .thread 0, .thread 0, .expire, .callback, .callback, .callback, .thread 0,
        .thread 0, .thread 0, .thread 0, .loader, .loader, .thread 0, .thread 0, .thread 0,
        .thread 0, .thread 0, .loader] = some s ∧ s.todo = [] := ⟨_, rfl, by decide⟩
  obtain ⟨s, hs, hdone⟩ := hrun
  obtain ⟨hex, hact⟩ := (stop_request_never_lost .singleThread (s := s) ⟨_, hs⟩).2 hdone
  exact ⟨s, hdone, hex (0 : Fin 1), hact⟩

end Cse522.Lab01.Monitor

import Mathlib.Algebra.Order.BigOperators.Group.Finset
import Cse522.Interleave.Phases
import Cse522.Lab01.StopRequests

/-!
# The end of a monitoring module

A kthread whose stop has been woken is a few of its own statements away from its exit, and
the only thing it can have to wait for is a running callback. `hello_exit` can therefore be
run to its end from everywhere, and no tick of the timer is needed for that.
-/
namespace Cse522.Lab01.Monitor

open Cse522.Interleave Cse522.Lab01.Kernel

variable {n : Nat} {m : KernelModule n} {s t : State n} {a : Act n}

/-! ## A stopped kthread -/

/-- A kthread whose stop has been woken does not sleep in front of its first statement
either, and cancels the timer only where `mykthread` does so. -/
structure Leaving (ownTimer : Bool) (l : TaskStruct n) : Prop where
  first : l.stopWoken = true → l.pc = .parked → l.state = .running
  cancels : l.pc = .hrtimerCancel → ownTimer = true

theorem leaving_taskStep {own : Bool} {l l' : TaskStruct n} (h : Leaving own l)
    (hl : TaskStep own l l') : Leaving own l' := by
  cases hl with
  | entry | test =>
      constructor
      · intro _ hpc
        rw [TaskStruct.goto_pc] at hpc
        split at hpc <;> try split at hpc
        all_goals cases hpc
      · cases own <;> cases hstop : l.shouldStop <;> simp
  | schedule hpc =>
      constructor
      · intro _ hl
        rw [TaskStruct.goto_pc] at hl
        split at hl <;> cases hl
      · intro hl
        rw [TaskStruct.goto_pc] at hl
        split at hl <;> cases hl
  | firstRun | awake | log | setState => exact ⟨by simp, by simp⟩

theorem leaving_step (hs : Step m s a t) (j : Fin n) (h : Leaving m.ownTimer (s.tasks j)) :
    Leaving m.ownTimer (t.tasks j) := by
  have hc := taskChange_of_step hs j
  generalize t.tasks j = l at hc
  cases hc with
  | bind hcall =>
      unfold TaskStruct.bind
      split
      case isTrue => exact ⟨h.first, h.cancels⟩
      case isFalse => exact h
  | task l hl => exact leaving_taskStep h hl
  | wakeUp | wakeStopped | wake => exact ⟨fun _ _ => rfl, h.cancels⟩
  | taskStart | taskCancel => exact ⟨by simp, by simp⟩
  | keep | create | setShouldStop | waitExited => exact ⟨h.first, h.cancels⟩

theorem stopWoken_step (hs : Step m s a t) {j : Fin n} (h : (s.tasks j).stopWoken = true) :
    (t.tasks j).stopWoken = true := by
  have hc := taskChange_of_step hs j
  generalize t.tasks j = l at hc
  cases hc with
  | bind hcall =>
      unfold TaskStruct.bind
      split <;> exact h
  | wakeStopped => rfl
  | task l hl => cases hl <;> exact h
  | _ => exact h

/-- Only its own statements move a kthread on. -/
theorem pc_of_others (hs : Step m s a t) {j : Fin n} (ha : a ≠ .thread j) :
    (t.tasks j).pc = (s.tasks j).pc := by
  have hc := taskChange_of_step hs j
  generalize t.tasks j = l at hc
  cases hc with
  | task | taskStart | taskCancel => exact absurd rfl ha
  | bind => exact TaskStruct.bind_pc _ _
  | _ => rfl

/-- The statements of its own that a stopped kthread has left at most. -/
def statementsLeft (ownTimer : Bool) : Pc → Nat
  | .exited => 0
  | .entry | .hrtimerCancel => 1
  | .parked => 2
  | .test => 1 + ownTimer.toNat
  | .hrtimerStart | .setState => 2 + ownTimer.toNat
  | .log => 3 + ownTimer.toNat
  | .schedule | .asleep => 4 + ownTimer.toNat

theorem statementsLeft_le (own : Bool) (pc : Pc) : statementsLeft own pc ≤ 4 + own.toNat := by
  cases pc <;> simp only [statementsLeft] <;> omega

/-- A stopped kthread gets nearer to its exit with each of its statements. -/
theorem statementsLeft_taskStep {own : Bool} {l l' : TaskStruct n}
    (h : Heeds l) (hw : l.stopWoken = true) (hl : TaskStep own l l') :
    statementsLeft own l'.pc < statementsLeft own l.pc := by
  obtain ⟨hstop, hrun⟩ := h hw
  cases hl with
  | schedule hpc => simp [statementsLeft, hpc, hrun (.inl hpc)]
  | entry hpc => simp [statementsLeft, hpc, hstop]
  | test hpc => cases own <;> simp [statementsLeft, hpc, hstop]
  | firstRun hpc | awake hpc | log hpc | setState hpc => simp [statementsLeft, hpc]

theorem statementsLeft_thread {i : Fin n} (h : Heeds (s.tasks i))
    (hw : (s.tasks i).stopWoken = true) (hs : Step m s (.thread i) t) :
    statementsLeft m.ownTimer (t.tasks i).pc < statementsLeft m.ownTimer (s.tasks i).pc := by
  cases hs with
  | task _ l hl => simpa [State.move] using statementsLeft_taskStep h hw hl
  | taskStart _ hpc => simp [State.move, statementsLeft, hpc]
  | taskCancel _ u hpc => simp [State.move, statementsLeft, hpc]

/-- All that a kthread can have to wait for after its stop is a running callback, and that
only where it cancels the timer itself. -/
theorem thread_moves {i : Fin n} (h : Heeds (s.tasks i)) (hl : Leaving m.ownTimer (s.tasks i))
    (hw : (s.tasks i).stopWoken = true) :
    (s.tasks i).pc = .exited ∨ (∃ t, m.machine.next s (.thread i) = some t) ∨
    (m.ownTimer = true ∧ (s.tasks i).pc = .hrtimerCancel ∧ s.timer.callback ≠ []) := by
  obtain ⟨-, hrun⟩ := h hw
  change _ ∨ (∃ t, mykthread m.ownTimer s i = some t) ∨ _
  cases hpc : (s.tasks i).pc
  case exited => exact .inl rfl
  case hrtimerCancel =>
    refine .inr ?_
    by_cases hcb : s.timer.callback = []
    · exact .inl (by simp [mykthread, hpc, Timer.cancel, hcb])
    · exact .inr ⟨hl.cancels hpc, rfl, hcb⟩
  case parked => exact .inr (.inl (by simp [mykthread, hpc, hl.first hw hpc]))
  case asleep => exact .inr (.inl (by simp [mykthread, hpc, hrun (.inr hpc)]))
  all_goals exact .inr (.inl (by simp [mykthread, hpc]))

/-- The invariant of a run in which the stop of kthread `i` has been woken. -/
structure Stopped (m : KernelModule n) (i : Fin n) (s : State n) : Prop where
  attended : Attended m s
  leaving : Leaving m.ownTimer (s.tasks i)
  woken : (s.tasks i).stopWoken = true

theorem stopped_step {i : Fin n} (h : Stopped m i s) (hn : m.machine.next s a = some t) :
    Stopped m i t ∧ statementsLeft m.ownTimer (t.tasks i).pc +
      (if a == .thread i then 1 else 0) ≤ statementsLeft m.ownTimer (s.tasks i).pc := by
  have hs := step_of_next hn
  refine ⟨⟨attended_step h.attended hn, leaving_step hs i h.leaving, stopWoken_step hs h.woken⟩, ?_⟩
  by_cases ha : a = .thread i
  · subst ha
    simpa [Nat.add_one_le_iff] using statementsLeft_thread (h.attended.heeds i) h.woken hs
  · simp [ha, pc_of_others hs ha]

theorem leaving_init (m : KernelModule n) (i : Fin n) :
    Leaving m.ownTimer (m.init.tasks i) :=
  ⟨fun h => by simp [KernelModule.init, TaskStruct.new] at h,
    fun h => by simp [KernelModule.init, TaskStruct.new] at h⟩

/-- What holds of the kthreads and the timer in every reachable state. -/
theorem attended_and_leaving (hr : m.machine.Reachable m.init s) :
    Attended m s ∧ ∀ i, Leaving m.ownTimer (s.tasks i) :=
  hr.invariant (I := fun s => Attended m s ∧ ∀ i, Leaving m.ownTimer (s.tasks i))
    (fun h hn => ⟨attended_step h.1 hn, fun i => leaving_step (step_of_next hn) i (h.2 i)⟩)
    ⟨attended_init m, leaving_init m⟩

theorem Lab.ownTimer_iff (lab : Lab) : lab.module.ownTimer = true ↔ lab = .singleThread := by
  cases lab <;> decide

/-- The runs without a tick of the timer. -/
def KernelModule.untimed (m : KernelModule n) : Machine (State n) (Act n) :=
  ⟨fun s a => if a = .expire then none else m.next s a⟩

theorem untimed_next (ha : a ≠ .expire) : m.untimed.next s a = m.machine.next s a := if_neg ha

/-- Every stop is woken before it is waited for. -/
theorem Lab.wakes_first (lab : Lab) : (∀ i, .wakeStopped i ∈ lab.module.calls) ∧
    ∀ l ∈ lab.module.calls.tails, ∀ i, l.head? = some (.waitExited i) → .wakeStopped i ∉ l := by
  cases lab <;> decide +kernel

/-- The statements that are left when nothing but `hello_exit` goes on. -/
def State.left (ownTimer : Bool) (s : State n) : Nat :=
  s.todo.length + s.timer.callback.length + ∑ i, statementsLeft ownTimer (s.tasks i).pc

structure Unloadable (m : KernelModule n) (s : State n) : Prop where
  attended : Attended m s
  leaving : ∀ i, Leaving m.ownTimer (s.tasks i)
  wakes : ∀ i, .wakeStopped i ∈ s.todo ∨ (s.tasks i).stopWoken = true

theorem stopWoken_of_call {c : Call n} {i : Fin n} (hs : Step m s a t)
    (hcall : s.todo = c :: t.todo) (hc : c = .wakeStopped i) : (t.tasks i).stopWoken = true := by
  subst hc
  cases hs <;> simp_all [State.move]

theorem wakes_step (hs : Step m s a t) {i : Fin n}
    (h : .wakeStopped i ∈ s.todo ∨ (s.tasks i).stopWoken = true) :
    .wakeStopped i ∈ t.todo ∨ (t.tasks i).stopWoken = true := by
  rcases h with hmem | hw
  · rcases todo_of_step hs with htodo | ⟨c, htodo⟩
    · exact .inl (htodo ▸ hmem)
    · rw [htodo] at hmem
      rcases List.mem_cons.mp hmem with hc | hmem
      · exact .inr (stopWoken_of_call hs htodo hc.symm)
      · exact .inl hmem
  · exact .inr (stopWoken_step hs hw)

theorem unloadable_step (h : Unloadable m s) (hn : m.machine.next s a = some t) :
    Unloadable m t where
  attended := attended_step h.attended hn
  leaving := fun i => leaving_step (step_of_next hn) i (h.leaving i)
  wakes := fun i => wakes_step (step_of_next hn) (h.wakes i)

theorem todo_length_le (hs : Step m s a t) : t.todo.length ≤ s.todo.length := by
  rcases todo_of_step hs with htodo | ⟨c, htodo⟩ <;> simp [htodo]

theorem callback_eq_nil {u : Timer n} (h : ¬ u.Active) : u.callback = [] := by
  by_contra hcb
  exact h (.inr hcb)

/-- Without a tick the callback only gets shorter. -/
theorem callback_length_le (hs : Step m s a t) (ha : a ≠ .expire) :
    t.timer.callback.length ≤ s.timer.callback.length := by
  cases hs with
  | cancel rest u hcall hu | taskCancel i u hpc hu =>
      simp [State.move, callback_eq_nil (Timer.cancel_eq_some hu)]
  | expire => exact absurd rfl ha
  | forward rest hcb | wakeNobody i rest hcb | wake i j rest hcb | restart rest hcb =>
      simp [State.move, hcb]
  | _ => exact Nat.le_refl _

theorem callback_length_lt (hs : Step m s .callback t) :
    t.timer.callback.length < s.timer.callback.length := by
  cases hs with
  | forward rest hcb | wakeNobody i rest hcb | wake i j rest hcb | restart rest hcb =>
      simp [State.move, hcb]

theorem sum_eq_of_others (hs : Step m s a t) (ha : ∀ i, a ≠ .thread i) (own : Bool) :
    ∑ i, statementsLeft own (t.tasks i).pc = ∑ i, statementsLeft own (s.tasks i).pc :=
  Finset.sum_congr rfl fun i _ => by rw [pc_of_others hs (ha i)]

theorem sum_lt_of_thread {i : Fin n} (h : Heeds (s.tasks i))
    (hw : (s.tasks i).stopWoken = true) (hs : Step m s (.thread i) t) :
    ∑ j, statementsLeft m.ownTimer (t.tasks j).pc <
      ∑ j, statementsLeft m.ownTimer (s.tasks j).pc := by
  have hi := statementsLeft_thread h hw hs
  refine Finset.sum_lt_sum (fun j _ => ?_) ⟨i, Finset.mem_univ i, hi⟩
  by_cases hj : j = i
  · subst hj
    exact hi.le
  · have hpc := pc_of_others hs (j := j) (by simpa using fun he => hj he.symm)
    rw [hpc]

theorem callback_moves (hcb : s.timer.callback ≠ []) :
    ∃ t, m.machine.next s .callback = some t := by
  change ∃ t, runCallback s = some t
  obtain ⟨c, rest, hc⟩ := List.exists_cons_of_ne_nil hcb
  cases c <;> simp [runCallback, hc]

/-- The only calls that wait are those of `kthread_stop` and `hrtimer_cancel`. -/
theorem loader_moves {c : Call n} {rest : List (Call n)} (hcall : s.todo = c :: rest)
    (hcb : s.timer.callback = []) (hwait : ∀ i, c = .waitExited i → (s.tasks i).pc = .exited) :
    ∃ t, m.machine.next s .loader = some t := by
  change ∃ t, m.next s .loader = some t
  simp only [KernelModule.next, hcall]
  cases c
  case waitExited i => simp [exec, hwait i rfl]
  case hrtimerCancel => simp [exec, Timer.cancel, hcb]
  all_goals simp [exec]

theorem unload_descends (lab : Lab) : lab.module.untimed.Descends (Unloadable lab.module)
    (fun s => s.todo = []) (State.left lab.module.ownTimer) := by
  intro s h hdone
  suffices ∃ a t, a ≠ .expire ∧ lab.module.machine.next s a = some t ∧
      t.left lab.module.ownTimer < s.left lab.module.ownTimer by
    obtain ⟨a, t, ha, hn, hlt⟩ := this
    exact ⟨a, t, (untimed_next ha).trans hn, unloadable_step h hn, hlt⟩
  unfold State.left
  by_cases hcb : s.timer.callback = []
  · obtain ⟨c, rest, hcall⟩ := List.exists_cons_of_ne_nil hdone
    by_cases hwait : ∀ i, c = .waitExited i → (s.tasks i).pc = .exited
    · obtain ⟨t, ht⟩ := loader_moves (m := lab.module) hcall hcb hwait
      have hs := step_of_next ht
      obtain ⟨c', htodo⟩ := todo_of_loader hs
      have hlen := callback_length_le hs nofun
      have hsum := sum_eq_of_others hs nofun lab.module.ownTimer
      refine ⟨.loader, t, nofun, ht, ?_⟩
      rw [htodo, List.length_cons, hsum]
      omega
    · push Not at hwait
      obtain ⟨i, rfl, hpc⟩ := hwait
      have hw := (h.wakes i).resolve_left
        (lab.wakes_first.2 _ h.attended.suffix i (by simp [hcall]))
      have hheeds := h.attended.heeds i
      obtain ⟨t, ht⟩ : ∃ t, lab.module.machine.next s (.thread i) = some t :=
        ((thread_moves hheeds (h.leaving i) hw).resolve_left hpc).resolve_right
          fun hcancel => hcancel.2.2 hcb
      have hs := step_of_next ht
      have htodo := todo_length_le hs
      have hlen := callback_length_le hs nofun
      have hsum := sum_lt_of_thread hheeds hw hs
      exact ⟨.thread i, t, nofun, ht, by omega⟩
  · obtain ⟨t, ht⟩ := callback_moves (m := lab.module) hcb
    have hs := step_of_next ht
    have htodo := todo_length_le hs
    have hlen := callback_length_lt hs
    have hsum := sum_eq_of_others hs nofun lab.module.ownTimer
    exact ⟨.callback, t, nofun, ht, by omega⟩

/-- Unloading never hangs: every run of the module, wherever it stands, can be continued to the
end of `hello_exit`, with all kthreads gone and the timer inactive, and without a tick of the
timer. -/
theorem unload_completes (lab : Lab) {s : State lab.cores}
    (h : lab.module.machine.Reachable lab.module.init s) :
    ∃ t, lab.module.untimed.Reachable s t ∧ t.todo = [] ∧ (∀ i, (t.tasks i).pc = .exited) ∧
      ¬ t.timer.Active := by
  have h0 : Unloadable lab.module lab.module.init :=
    ⟨attended_init _, leaving_init _, fun i => .inl (lab.wakes_first.1 i)⟩
  obtain ⟨t, ht, hu, hdone⟩ :=
    (unload_descends lab).completes (h.invariant unloadable_step h0)
  obtain ⟨hex, hact⟩ := hu.attended.ended hdone
  exact ⟨t, ht, hdone, hex, hact⟩

/-- The kthread of the first module is asleep, and `hello_exit` has not begun. -/
theorem unload_completes_asleep : ∃ s t : State 1,
    (s.tasks 0).pc = .asleep ∧ t.todo = [] ∧ (t.tasks 0).pc = .exited := by
  have hrun : ∃ s, singleThread.machine.run singleThread.init
      [.loader, .loader, .thread 0, .thread 0, .thread 0, .loader, .thread 0, .thread 0, .thread 0,
        .thread 0, .thread 0, .thread 0] = some s ∧ (s.tasks 0).pc = .asleep :=
    ⟨_, rfl, by decide⟩
  obtain ⟨s, hs, hasleep⟩ := hrun
  obtain ⟨t, -, hdone, hex, -⟩ := unload_completes .singleThread (s := s) ⟨_, hs⟩
  exact ⟨s, t, hasleep, hdone, hex (0 : Fin 1)⟩

end Cse522.Lab01.Monitor

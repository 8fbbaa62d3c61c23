import Cse522.Interleave.Threads
import Cse522.Lab01.Monitor

/-!
# The steps of a monitoring module

Every later invariant is derived from the inversion of a step and from the three facts
after it: what a step can do to one kthread, what it can do to the calls that are left,
and that an executed call keeps its effect.
-/
namespace Cse522.Lab01.Monitor

open Cse522.Interleave Cse522.Lab01.Kernel

variable {n : Nat} {m : KernelModule n}

/-! ## What a step can do -/

/-- The statements of a kthread that leave the timer alone, one constructor for each. -/
inductive TaskStep (ownTimer : Bool) (l : TaskStruct n) : TaskStruct n → Prop
  | firstRun (hpc : l.pc = .parked) (hrun : l.state = .running) :
      TaskStep ownTimer l (l.goto .entry)
  | entry (hpc : l.pc = .entry) : TaskStep ownTimer l (l.goto
      (if l.shouldStop then .exited else if ownTimer then .hrtimerStart else .test))
  | test (hpc : l.pc = .test) : TaskStep ownTimer l (l.goto
      (if l.shouldStop then (if ownTimer then .hrtimerCancel else .exited) else .schedule))
  | schedule (hpc : l.pc = .schedule) :
      TaskStep ownTimer l (l.goto (if l.state = .running then .log else .asleep))
  | awake (hpc : l.pc = .asleep) (hrun : l.state = .running) : TaskStep ownTimer l (l.goto .log)
  | log (hpc : l.pc = .log) : TaskStep ownTimer l (l.goto .setState)
  | setState (hpc : l.pc = .setState) :
      TaskStep ownTimer l { l with state := .interruptible, pc := .test }

/-- The steps of the machine, one constructor for each call, each access to the timer and
each statement of the callback. -/
inductive Step (m : KernelModule n) (s : State n) : Act n → State n → Prop
  | start (rest) (hcall : s.todo = .hrtimerStart :: rest) :
      Step m s .loader { s with todo := rest, timer := s.timer.start }
  | create (i rest) (hcall : s.todo = .kthreadCreate i :: rest) : Step m s .loader
      ({ s with todo := rest }.move i { s.tasks i with created := true })
  | assign (i rest) (hcall : s.todo = .assign i :: rest) : Step m s .loader
      { s with todo := rest, gpkthmykth := Function.update s.gpkthmykth i (some i) }
  | bind (i rest) (hcall : s.todo = .kthreadBind i :: rest) : Step m s .loader
      ({ s with todo := rest }.move i ((s.tasks i).bind i))
  | wakeUp (i rest) (hcall : s.todo = .wakeUpProcess i :: rest) : Step m s .loader
      ({ s with todo := rest }.move i (s.tasks i).wake)
  | setShouldStop (i rest) (hcall : s.todo = .setShouldStop i :: rest) : Step m s .loader
      ({ s with todo := rest }.move i { s.tasks i with shouldStop := true })
  | wakeStopped (i rest) (hcall : s.todo = .wakeStopped i :: rest) : Step m s .loader
      ({ s with todo := rest }.move i { (s.tasks i).wake with stopWoken := true })
  | waitExited (i rest) (hcall : s.todo = .waitExited i :: rest)
      (hex : (s.tasks i).pc = .exited) : Step m s .loader
      ({ s with todo := rest }.move i { s.tasks i with reaped := true })
  | cancel (rest u) (hcall : s.todo = .hrtimerCancel :: rest) (hu : s.timer.cancel = some u) :
      Step m s .loader { s with todo := rest, timer := u }
  | task (i l) (hl : TaskStep m.ownTimer (s.tasks i) l) : Step m s (.thread i) (s.move i l)
  | taskStart (i) (hpc : (s.tasks i).pc = .hrtimerStart) : Step m s (.thread i)
      ({ s with timer := s.timer.start }.move i ((s.tasks i).goto .test))
  | taskCancel (i u) (hpc : (s.tasks i).pc = .hrtimerCancel) (hu : s.timer.cancel = some u) :
      Step m s (.thread i) ({ s with timer := u }.move i ((s.tasks i).goto .exited))
  | expire (harmed : s.timer.armed = true) :
      Step m s .expire { s with timer := ⟨false, m.mycallback⟩ }
  | forward (rest) (hcb : s.timer.callback = .hrtimerForward :: rest) :
      Step m s .callback { s with timer := { s.timer with callback := rest } }
  | wakeNobody (i rest) (hcb : s.timer.callback = .wakeUpProcess i :: rest)
      (hp : ∀ j, s.gpkthmykth i = some j → (s.tasks j).reaped = true) :
      Step m s .callback { s with timer := { s.timer with callback := rest } }
  | wake (i j rest) (hcb : s.timer.callback = .wakeUpProcess i :: rest)
      (hp : s.gpkthmykth i = some j) (hlive : (s.tasks j).reaped = false) : Step m s .callback
      ({ s with timer := { s.timer with callback := rest } }.move j (s.tasks j).wake)
  | restart (rest) (hcb : s.timer.callback = .restart :: rest) :
      Step m s .callback { s with timer := ⟨true, rest⟩ }

theorem step_of_loader {s t : State n} (h : m.next s .loader = some t) :
    Step m s .loader t := by
  cases hcall : s.todo with
  | nil => simp [KernelModule.next, hcall] at h
  | cons c rest =>
      simp only [KernelModule.next, hcall] at h
      cases c
      all_goals simp only [exec, Option.some.injEq, Option.map_eq_some_iff] at h
      case hrtimerStart =>
        subst h
        exact .start rest hcall
      case kthreadCreate i =>
        subst h
        exact .create i rest hcall
      case assign i =>
        subst h
        exact .assign i rest hcall
      case kthreadBind i =>
        subst h
        exact .bind i rest hcall
      case wakeUpProcess i =>
        subst h
        exact .wakeUp i rest hcall
      case setShouldStop i =>
        subst h
        exact .setShouldStop i rest hcall
      case wakeStopped i =>
        subst h
        exact .wakeStopped i rest hcall
      case waitExited i =>
        split at h
        case isTrue hex =>
          cases h
          exact .waitExited i rest hcall hex
        case isFalse => cases h
      case hrtimerCancel =>
        obtain ⟨u, hu, rfl⟩ := h
        exact .cancel rest u hcall hu

theorem step_of_thread {s t : State n} {i : Fin n}
    (h : m.next s (.thread i) = some t) : Step m s (.thread i) t := by
  change mykthread m.ownTimer s i = some t at h
  cases hpc : (s.tasks i).pc
  all_goals simp only [mykthread, hpc, Option.some.injEq, Option.map_eq_some_iff,
    reduceCtorEq] at h
  case parked =>
    split at h
    case isTrue hrun =>
      cases h
      exact .task i _ (.firstRun hpc hrun)
    case isFalse => cases h
  case entry =>
    subst h
    exact .task i _ (.entry hpc)
  case hrtimerStart =>
    subst h
    exact .taskStart i hpc
  case test =>
    subst h
    exact .task i _ (.test hpc)
  case schedule =>
    subst h
    exact .task i _ (.schedule hpc)
  case asleep =>
    split at h
    case isTrue hrun =>
      cases h
      exact .task i _ (.awake hpc hrun)
    case isFalse => cases h
  case log =>
    subst h
    exact .task i _ (.log hpc)
  case setState =>
    subst h
    exact .task i _ (.setState hpc)
  case hrtimerCancel =>
    obtain ⟨u, hu, rfl⟩ := h
    exact .taskCancel i u hpc hu

theorem step_of_callback {s t : State n} (h : m.next s .callback = some t) :
    Step m s .callback t := by
  change runCallback s = some t at h
  cases hcb : s.timer.callback with
  | nil => simp [runCallback, hcb] at h
  | cons c rest =>
      simp only [runCallback, hcb] at h
      cases c with
      | hrtimerForward =>
          cases h
          exact .forward rest hcb
      | wakeUpProcess i =>
          cases h
          cases hp : s.gpkthmykth i with
          | none => exact .wakeNobody i rest hcb (by simp [hp])
          | some j =>
              simp only [wakeUpProcess]
              split
              case isTrue hr => exact .wakeNobody i rest hcb (by simp [hp, hr])
              case isFalse hr => exact .wake i j rest hcb hp (by simpa using hr)
      | restart =>
          cases h
          exact .restart rest hcb

theorem step_of_next {s t : State n} {a : Act n}
    (h : m.machine.next s a = some t) : Step m s a t := by
  change m.next s a = some t at h
  cases a with
  | loader => exact step_of_loader h
  | thread i => exact step_of_thread h
  | expire =>
      obtain ⟨u, hu, rfl⟩ := Option.map_eq_some_iff.mp h
      obtain ⟨harmed, _, rfl⟩ := Timer.expire_eq_some hu
      exact .expire harmed
  | callback => exact step_of_callback h

/-- What one step can do to kthread `j`. -/
inductive TaskChange (m : KernelModule n) (s : State n) (j : Fin n) : Act n → TaskStruct n → Prop
  | keep (a) : TaskChange m s j a (s.tasks j)
  | create (hcall : s.todo.head? = some (.kthreadCreate j)) :
      TaskChange m s j .loader { s.tasks j with created := true }
  | bind (hcall : s.todo.head? = some (.kthreadBind j)) :
      TaskChange m s j .loader ((s.tasks j).bind j)
  | wakeUp (hcall : s.todo.head? = some (.wakeUpProcess j)) :
      TaskChange m s j .loader (s.tasks j).wake
  | setShouldStop (hcall : s.todo.head? = some (.setShouldStop j)) :
      TaskChange m s j .loader { s.tasks j with shouldStop := true }
  | wakeStopped (hcall : s.todo.head? = some (.wakeStopped j)) :
      TaskChange m s j .loader { (s.tasks j).wake with stopWoken := true }
  | waitExited (hcall : s.todo.head? = some (.waitExited j)) (hex : (s.tasks j).pc = .exited) :
      TaskChange m s j .loader { s.tasks j with reaped := true }
  | task (l) (hl : TaskStep m.ownTimer (s.tasks j) l) : TaskChange m s j (.thread j) l
  | taskStart (hpc : (s.tasks j).pc = .hrtimerStart) :
      TaskChange m s j (.thread j) ((s.tasks j).goto .test)
  | taskCancel (hpc : (s.tasks j).pc = .hrtimerCancel) :
      TaskChange m s j (.thread j) ((s.tasks j).goto .exited)
  | wake (i) (hcb : s.timer.callback.head? = some (.wakeUpProcess i))
      (hp : s.gpkthmykth i = some j) : TaskChange m s j .callback (s.tasks j).wake

theorem TaskChange.update {s : State n} {i : Fin n} {a : Act n} {l : TaskStruct n}
    (h : TaskChange m s i a l) (j : Fin n) :
    TaskChange m s j a (Function.update s.tasks i l j) :=
  forall_update (P := fun k => TaskChange m s k a) (fun _ => .keep a) h j

theorem taskChange_of_step {s t : State n} {a : Act n} (hs : Step m s a t)
    (j : Fin n) : TaskChange m s j a (t.tasks j) := by
  cases hs with
  | create i rest hcall => exact TaskChange.update (.create (by simp [hcall])) j
  | bind i rest hcall => exact TaskChange.update (.bind (by simp [hcall])) j
  | wakeUp i rest hcall => exact TaskChange.update (.wakeUp (by simp [hcall])) j
  | setShouldStop i rest hcall => exact TaskChange.update (.setShouldStop (by simp [hcall])) j
  | wakeStopped i rest hcall => exact TaskChange.update (.wakeStopped (by simp [hcall])) j
  | waitExited i rest hcall hex => exact TaskChange.update (.waitExited (by simp [hcall]) hex) j
  | task i l hl => exact TaskChange.update (.task l hl) j
  | taskStart i hpc => exact TaskChange.update (.taskStart hpc) j
  | taskCancel i u hpc hu => exact TaskChange.update (.taskCancel hpc) j
  | wake i k rest hcb hp hlive => exact TaskChange.update (.wake i (by simp [hcb]) hp) j
  | _ => exact .keep _

theorem todo_of_loader {s t : State n} (hs : Step m s .loader t) :
    ∃ c, s.todo = c :: t.todo := by
  cases hs with
  | start rest hcall | cancel rest u hcall | create i rest hcall | assign i rest hcall
  | bind i rest hcall | wakeUp i rest hcall | setShouldStop i rest hcall
  | wakeStopped i rest hcall | waitExited i rest hcall => exact ⟨_, hcall⟩

/-- A step leaves the list of calls alone, or takes the first one off it. -/
theorem todo_of_step {s t : State n} {a : Act n} (hs : Step m s a t) :
    t.todo = s.todo ∨ ∃ c, s.todo = c :: t.todo := by
  cases a with
  | loader => exact .inr (todo_of_loader hs)
  | thread i | expire | callback => cases hs <;> exact .inl rfl

theorem mem_of_todo {s t : State n} {a : Act n} (hs : Step m s a t)
    {c : Call n} (hc : c ∈ t.todo) : c ∈ s.todo := by
  rcases todo_of_step hs with htodo | ⟨c', htodo⟩
  · exact htodo ▸ hc
  · rw [htodo]
    exact List.mem_cons_of_mem c' hc

theorem suffix_step {s t : State n} {a : Act n} (h : s.todo ∈ m.calls.tails)
    (hs : Step m s a t) : t.todo ∈ m.calls.tails := by
  rw [List.mem_tails] at h ⊢
  rcases todo_of_step hs with htodo | ⟨c, htodo⟩
  · rwa [htodo]
  · rw [htodo] at h
    exact (List.suffix_cons c t.todo).trans h

/-! ## What an executed call leaves behind -/

/-- The lasting effect of a call. The binding is not one of them: it fails on a kthread
that is already up. -/
def Done (s : State n) : Call n → Prop
  | .kthreadCreate i => (s.tasks i).created = true
  | .assign i => s.gpkthmykth i = some i
  | .setShouldStop i => (s.tasks i).shouldStop = true
  | .waitExited i => (s.tasks i).pc = .exited ∧ (s.tasks i).reaped = true
  | _ => True

/-- The effects on a kthread that no later step takes back. -/
structure Later (l l' : TaskStruct n) : Prop where
  created : l.created = true → l'.created = true
  shouldStop : l.shouldStop = true → l'.shouldStop = true
  exited : l.pc = .exited → l'.pc = .exited
  reaped : l.reaped = true → l'.reaped = true

theorem later_step {s t : State n} {a : Act n} (hs : Step m s a t) (j : Fin n) :
    Later (s.tasks j) (t.tasks j) := by
  have hc := taskChange_of_step hs j
  generalize t.tasks j = l at hc
  cases hc with
  | bind hcall =>
      unfold TaskStruct.bind
      split <;> exact ⟨id, id, id, id⟩
  | setShouldStop hcall => exact ⟨id, fun _ => rfl, id, id⟩
  | create hcall => exact ⟨fun _ => rfl, id, id, id⟩
  | waitExited hcall hex => exact ⟨id, id, id, fun _ => rfl⟩
  | task l hl =>
      cases hl with
      | _ hpc => exact ⟨id, id, by simp [hpc], id⟩
  | taskStart hpc => exact ⟨id, id, by simp [hpc], id⟩
  | taskCancel hpc => exact ⟨id, id, by simp, id⟩
  | _ => exact ⟨id, id, id, id⟩

theorem pointer_step {s t : State n} {a : Act n} (hs : Step m s a t) {i : Fin n}
    (h : s.gpkthmykth i = some i) : t.gpkthmykth i = some i := by
  cases hs with
  | assign j rest hcall =>
      by_cases hj : i = j
      · simp [hj]
      · simpa [hj] using h
  | _ => exact h

theorem done_of_call {s t : State n} {a : Act n} (hs : Step m s a t) {c : Call n}
    (hc : s.todo = c :: t.todo) : Done t c := by
  cases hs <;> simp_all [Done, State.move]

/-- A call that has been executed has had its effect. -/
theorem done_step {s t : State n} {a : Act n} (hs : Step m s a t) {c : Call n}
    (h : c ∉ s.todo → Done s c) (hc : c ∉ t.todo) : Done t c := by
  by_cases hold : c ∈ s.todo
  · rcases todo_of_step hs with htodo | ⟨c', htodo⟩
    · exact absurd (htodo ▸ hold) hc
    · rw [htodo] at hold
      obtain rfl := (List.mem_cons.mp hold).resolve_right hc
      exact done_of_call hs htodo
  · have hd := h hold
    cases c with
    | kthreadCreate i => exact (later_step hs i).created hd
    | assign i => exact pointer_step hs hd
    | setShouldStop i => exact (later_step hs i).shouldStop hd
    | waitExited i => exact ⟨(later_step hs i).exited hd.1, (later_step hs i).reaped hd.2⟩
    | _ => trivial

end Cse522.Lab01.Monitor

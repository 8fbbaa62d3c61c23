import Cse522.Studio10.CounterRuns

/-!
# Unloading the counting modules

`hello_exit` prints `race` and returns. Its four calls of `kthread_stop` are commented out, so
nothing orders it with the threads: what it prints is the full total exactly when every thread
happens to be scheduled up to its last increment before the `printk`.
-/
namespace Cse522.Studio10

open Cse522.Interleave

def IRT_TIME : Nat := 1000000

namespace Unload

/-- A call of `hello_init`. -/
inductive Call where
  | printk
  /-- `atomic_set(&race, 0)` -/
  | atomicSet
  /-- `gpkthmykth[i] = kthread_create(mykthread, NULL, gacMyktname)` -/
  | kthreadCreate (i : Fin 4)
  | kthreadBind (i core : Fin 4)
  | wakeUpProcess (i : Fin 4)
  deriving DecidableEq, Repr

/-- Where the module loader stands. -/
inductive Loader where
  /-- in `hello_init`, with the calls that are left -/
  | helloInit (todo : List Call)
  /-- the module is loaded; the first `printk` of `hello_exit` is next -/
  | loaded
  /-- the second `printk` of `hello_exit` -/
  | printRace
  /-- the return of `hello_exit` -/
  | ret
  | unloaded
  deriving DecidableEq, Repr

/-- The steps with which the loader came here; `n` is the number of calls in `hello_init`. -/
def Loader.steps (n : Nat) : Loader → Nat
  | .helloInit todo => n - todo.length
  | .loaded => n + 1
  | .printRace => n + 2
  | .ret => n + 3
  | .unloaded => n + 4

theorem Loader.steps_printRace {n : Nat} {l : Loader} : l.steps n = n + 2 ↔ l = .printRace := by
  cases l <;> simp [Loader.steps]
  omega

theorem Loader.steps_ret {n : Nat} {l : Loader} : l.steps n = n + 3 ↔ l = .ret := by
  cases l <;> simp [Loader.steps]
  omega

/-- A `struct task_struct`. -/
structure Task where
  cpu : Option (Fin 4)
  woken : Bool
  deriving DecidableEq, Repr

/-- A module that counts with four threads. -/
structure CountingModule (σ : Type) where
  helloInit : List Call
  /-- the counter and the threads before the first of them runs -/
  start : σ
  mykthread : Machine σ (Fin 4)
  race : σ → Int32
  atomicSet : σ → σ
  /-- the thread has made its last increment of `race` -/
  Counted : σ → Fin 4 → Prop
  Returned : σ → Fin 4 → Prop
  /-- the counter is set before any thread is woken -/
  setFirst : ∀ l ∈ helloInit.tails, ∀ i, .atomicSet ∈ l → l.head? ≠ some (.wakeUpProcess i)

/-- The calls with which both modules start their threads: all are created, then each is bound
to the core of its own number, then all are woken. -/
def startThreads : List Call :=
  (List.finRange 4).map .kthreadCreate ++ (List.finRange 4).map (fun i => .kthreadBind i i) ++
    (List.finRange 4).map .wakeUpProcess

theorem multiAtomic_setFirst : ∀ l ∈ (.printk :: .atomicSet :: startThreads).tails, ∀ i,
    .atomicSet ∈ l → l.head? ≠ some (.wakeUpProcess i) := by
  decide

theorem multiMutex_setFirst : ∀ l ∈ (.printk :: startThreads).tails, ∀ i,
    .atomicSet ∈ l → l.head? ≠ some (.wakeUpProcess i) := by
  decide

/-- `multi_atomic/main.c` -/
def multiAtomic : CountingModule (MultiAtomic.State 4) where
  helloInit := .printk :: .atomicSet :: startThreads
  start := MultiAtomic.init 4
  mykthread := MultiAtomic.multiAtomic 4 IRT_TIME
  race s := s.race
  atomicSet s := { s with race := 0 }
  Counted s i := (s.threads i).completed = IRT_TIME
  Returned s i := (s.threads i).pc = .returned
  setFirst := multiAtomic_setFirst

/-- `multi_mutex/main.c`. The last increment is made by the store, before `mutex_unlock`. -/
def multiMutex : CountingModule (MultiMutex.State 4) where
  helloInit := .printk :: startThreads
  start := MultiMutex.init 4
  mykthread := MultiMutex.multiMutex 4 IRT_TIME
  race s := s.race
  atomicSet s := { s with race := 0 }
  Counted s i := (s.threads i).abs.completed = IRT_TIME
  Returned s i := (s.threads i).pc = .returned
  setFirst := multiMutex_setFirst

structure State (σ : Type) where
  loader : Loader
  gpkthmykth : Fin 4 → Option Task
  counters : σ
  /-- the value of `race` in the last message -/
  printed : Option Int32
  deriving DecidableEq

inductive Act where
  | loader
  | thread (i : Fin 4)
  deriving DecidableEq, Repr

variable {σ : Type}

/-- `gpkthmykth[i]` is changed, if it is there. -/
def State.modify (s : State σ) (i : Fin 4) (f : Task → Task) : State σ :=
  { s with gpkthmykth := Function.update s.gpkthmykth i ((s.gpkthmykth i).map f) }

/-- The thread has been created and woken. -/
def State.awake (s : State σ) (i : Fin 4) : Bool := (s.gpkthmykth i).any Task.woken

namespace CountingModule

variable (m : CountingModule σ)

def init : State σ := ⟨.helloInit m.helloInit, fun _ => none, m.start, none⟩

def exec (s : State σ) : Call → State σ
  | .printk => s
  | .atomicSet => { s with counters := m.atomicSet s.counters }
  | .kthreadCreate i =>
      { s with gpkthmykth := Function.update s.gpkthmykth i (some ⟨none, false⟩) }
  | .kthreadBind i core => s.modify i fun task => { task with cpu := some core }
  | .wakeUpProcess i => s.modify i fun task => { task with woken := true }

/-- One step of the loader, or of a thread that has been woken. -/
def next (s : State σ) : Act → Option (State σ)
  | .loader =>
      match s.loader with
      | .helloInit [] => some { s with loader := .loaded }
      | .helloInit (c :: todo) => some { m.exec s c with loader := .helloInit todo }
      | .loaded => some { s with loader := .printRace }
      | .printRace => some { s with printed := some (m.race s.counters), loader := .ret }
      | .ret => some { s with loader := .unloaded }
      | .unloaded => none
  | .thread i =>
      if s.awake i then (m.mykthread.next s.counters i).map fun c => { s with counters := c }
      else none

def machine : Machine (State σ) Act := ⟨m.next⟩

/-- The printed value is the total of all iterations, and an unloaded module has no thread in
`mykthread`. -/
def Reported (s : State σ) : Prop :=
  (∀ v ∈ s.printed, v.toInt = 4 * IRT_TIME) ∧
    (s.loader = .unloaded → ∀ i, m.Returned s.counters i)

/-- The loader reads `race` after the last increment of each thread, and returns from
`hello_exit` after each thread has returned. -/
def OnTime (s : State σ) (a : Act) : Prop :=
  a = .loader → (s.loader = .printRace → ∀ i, m.Counted s.counters i) ∧
    (s.loader = .ret → ∀ i, m.Returned s.counters i)

/-- The loader may take its next step when the steps in front of it are `bs`: each thread has
taken `last` of them before the loader prints `race`, and `all` before it returns. In front of the
second `printk` are the calls of `hello_init`, its return and the first `printk`. -/
def Waited (last all : Nat) (bs : List Act) : Prop :=
  (bs.count .loader = m.helloInit.length + 2 → ∀ i, last ≤ bs.count (.thread i)) ∧
    (bs.count .loader = m.helloInit.length + 3 → ∀ i, all ≤ bs.count (.thread i))

/-- No step of the loader that the schedule takes comes before its time. -/
def InTime (last all : Nat) (as : List Act) : Prop :=
  ∀ bs cs, as = bs ++ .loader :: cs → (m.machine.run m.init bs).isSome → m.Waited last all bs

/-- What the counting has to guarantee for the report of the total. A thread is done with its
last increment after `last` statements and with `mykthread` after `all`. -/
structure Laws (Inv : σ → Prop) (executed : σ → Fin 4 → Nat) (last all : Nat) : Prop where
  start : Inv m.start
  step : ∀ {c d i}, Inv c → m.mykthread.next c i = some d → Inv d
  atomicSet : m.atomicSet m.start = m.start
  race : ∀ {c}, Inv c → ((m.race c).toInt = 4 * IRT_TIME ↔ ∀ i, m.Counted c i)
  fresh : ∀ i, executed m.start i = 0
  executes : ∀ {c d i}, Inv c → m.mykthread.next c i = some d →
    ∀ j, executed d j = executed c j + if j = i then 1 else 0
  counted : ∀ {c}, Inv c → ∀ i, m.Counted c i ↔ last ≤ executed c i
  returned : ∀ {c}, Inv c → ∀ i, m.Returned c i ↔ all ≤ executed c i

variable {m} {Inv : σ → Prop} {executed : σ → Fin 4 → Nat} {last all : Nat}
  {s t : State σ} {a : Act} {bs : List Act}

/-! ## What a step keeps -/

/-- While `atomic_set` is still to come, no thread has run. -/
def Untouched (m : CountingModule σ) (s : State σ) : Prop :=
  ∀ todo, s.loader = .helloInit todo → todo ∈ m.helloInit.tails ∧
    (.atomicSet ∈ todo → s.counters = m.start ∧ ∀ i, s.awake i = false)

structure Sound (m : CountingModule σ) (Inv : σ → Prop) (s : State σ) : Prop where
  counters : Inv s.counters
  untouched : m.Untouched s

theorem thread_cases {i : Fin 4} (hn : m.next s (.thread i) = some t) :
    s.awake i = true ∧
      ∃ c, m.mykthread.next s.counters i = some c ∧ t = { s with counters := c } := by
  obtain ⟨hawake, hn⟩ := Option.ite_none_right_eq_some.mp hn
  obtain ⟨c, hc, ht⟩ := Option.map_eq_some_iff.mp hn
  exact ⟨hawake, c, hc, ht.symm⟩

theorem loader_cases (hn : m.next s .loader = some t) :
    (s.loader = .helloInit [] ∧ t = { s with loader := .loaded }) ∨
    (∃ c todo, s.loader = .helloInit (c :: todo) ∧
      t = { m.exec s c with loader := .helloInit todo }) ∨
    (s.loader = .loaded ∧ t = { s with loader := .printRace }) ∨
    (s.loader = .printRace ∧
      t = { s with printed := some (m.race s.counters), loader := .ret }) ∨
    (s.loader = .ret ∧ t = { s with loader := .unloaded }) := by
  unfold next at hn
  cases hs : s.loader with
  | helloInit todo =>
      cases todo with
      | nil =>
          simp only [hs, Option.some.injEq] at hn
          exact .inl ⟨rfl, hn.symm⟩
      | cons c todo =>
          simp only [hs, Option.some.injEq] at hn
          exact .inr (.inl ⟨c, todo, rfl, hn.symm⟩)
  | loaded =>
      simp only [hs, Option.some.injEq] at hn
      exact .inr (.inr (.inl ⟨rfl, hn.symm⟩))
  | printRace =>
      simp only [hs, Option.some.injEq] at hn
      exact .inr (.inr (.inr (.inl ⟨rfl, hn.symm⟩)))
  | ret =>
      simp only [hs, Option.some.injEq] at hn
      exact .inr (.inr (.inr (.inr ⟨rfl, hn.symm⟩)))
  | unloaded => simp [hs] at hn

theorem exec_printed (s : State σ) (c : Call) : (m.exec s c).printed = s.printed := by
  cases c <;> rfl

theorem exec_counters {c : Call} (h : c ≠ .atomicSet) : (m.exec s c).counters = s.counters := by
  cases c <;> first | rfl | exact absurd rfl h

theorem modify_asleep {i : Fin 4} {f : Task → Task} (hf : ∀ task, (f task).woken = task.woken)
    (h : ∀ j, s.awake j = false) (j : Fin 4) : (s.modify i f).awake j = false := by
  have hj := h j
  by_cases hji : j = i
  · subst hji
    cases ht : s.gpkthmykth j <;> simp_all [State.awake, State.modify]
  · simpa [State.awake, State.modify, hji] using hj

theorem exec_asleep {c : Call} (hc : ∀ i, c ≠ .wakeUpProcess i) (h : ∀ j, s.awake j = false)
    (j : Fin 4) : (m.exec s c).awake j = false := by
  cases c with
  | printk | atomicSet => exact h j
  | kthreadCreate i =>
      by_cases hji : j = i
      · subst hji
        simp [exec, State.awake]
      · simpa [exec, State.awake, hji] using h j
  | kthreadBind i core =>
      exact modify_asleep (f := fun task => { task with cpu := some core }) (fun _ => rfl) h j
  | wakeUpProcess i => exact absurd rfl (hc i)

theorem sound_init (hl : m.Laws Inv executed last all) : m.Sound Inv m.init where
  counters := hl.start
  untouched := by
    intro todo htodo
    cases htodo
    exact ⟨by simp, fun _ => ⟨rfl, fun _ => rfl⟩⟩

/-- No call of `hello_init` changes the counters: `atomic_set` finds them as they were built. -/
theorem counters_exec (hl : m.Laws Inv executed last all) (h : m.Untouched s) {c : Call}
    {todo : List Call} (hs : s.loader = .helloInit (c :: todo)) :
    (m.exec s c).counters = s.counters := by
  by_cases hc : c = .atomicSet
  · subst hc
    have hstart := ((h _ hs).2 List.mem_cons_self).1
    show m.atomicSet s.counters = s.counters
    rw [hstart, hl.atomicSet]
  · exact exec_counters hc

theorem untouched_exec (hl : m.Laws Inv executed last all) (h : m.Untouched s) {c : Call}
    {todo : List Call} (hs : s.loader = .helloInit (c :: todo)) :
    m.Untouched { m.exec s c with loader := .helloInit todo } := by
  obtain ⟨hsuffix, hfresh⟩ := h _ hs
  intro rest hrest
  cases hrest
  refine ⟨?_, fun hset => ?_⟩
  · rw [List.mem_tails] at hsuffix ⊢
    exact (List.suffix_cons c todo).trans hsuffix
  · have hset' : .atomicSet ∈ c :: todo := List.mem_cons_of_mem c hset
    obtain ⟨hstart, hasleep⟩ := hfresh hset'
    have hwake : ∀ i, c ≠ .wakeUpProcess i := fun i hi =>
      m.setFirst _ hsuffix i hset' (by rw [hi, List.head?_cons])
    exact ⟨(counters_exec hl h hs).trans hstart, exec_asleep hwake hasleep⟩

theorem sound_step (hl : m.Laws Inv executed last all) (h : m.Sound Inv s)
    (hn : m.next s a = some t) : m.Sound Inv t := by
  cases a with
  | thread i =>
      obtain ⟨hawake, c, hc, rfl⟩ := thread_cases hn
      refine ⟨hl.step h.counters hc, fun todo hs => ?_⟩
      obtain ⟨hsuffix, hfresh⟩ := h.untouched todo hs
      refine ⟨hsuffix, fun hset => ?_⟩
      rw [(hfresh hset).2 i] at hawake
      cases hawake
  | loader =>
      rcases loader_cases hn with ⟨hs, rfl⟩ | ⟨c, todo, hs, rfl⟩ | ⟨hs, rfl⟩ | ⟨hs, rfl⟩ | ⟨hs, rfl⟩
      · exact ⟨h.counters, fun _ hu => (by cases hu)⟩
      · refine ⟨?_, untouched_exec hl h.untouched hs⟩
        show Inv (m.exec s c).counters
        rw [counters_exec hl h.untouched hs]
        exact h.counters
      · exact ⟨h.counters, fun _ hu => (by cases hu)⟩
      · exact ⟨h.counters, fun _ hu => (by cases hu)⟩
      · exact ⟨h.counters, fun _ hu => (by cases hu)⟩

/-! ## What is reported, step by step -/

/-- A step of a thread reports nothing. -/
theorem reported_thread (hl : m.Laws Inv executed last all) (h : m.Sound Inv s)
    (hr : m.Reported s) {i : Fin 4} {c : σ} (hn : m.mykthread.next s.counters i = some c) :
    m.Reported { s with counters := c } := by
  refine ⟨hr.1, fun hu j => ?_⟩
  have hall : all ≤ executed s.counters j := (hl.returned h.counters j).mp (hr.2 hu j)
  have hj := hl.executes h.counters hn j
  exact (hl.returned (hl.step h.counters hn) j).mpr (by omega)

/-- What a step reports is right if it is taken in time, and only then. -/
theorem reported_iff_onTime (hl : m.Laws Inv executed last all) (h : m.Sound Inv s)
    (hr : m.Reported s) (hn : m.next s a = some t) : m.Reported t ↔ m.OnTime s a := by
  cases a with
  | thread i =>
      obtain ⟨-, c, hc, rfl⟩ := thread_cases hn
      exact iff_of_true (reported_thread hl h hr hc) (fun ha => by cases ha)
  | loader =>
      rcases loader_cases hn with ⟨hs, rfl⟩ | ⟨c, todo, hs, rfl⟩ | ⟨hs, rfl⟩ | ⟨hs, rfl⟩ | ⟨hs, rfl⟩
      · exact iff_of_true ⟨hr.1, by simp⟩ (fun _ => by simp [hs])
      · refine iff_of_true ⟨?_, by simp⟩ (fun _ => by simp [hs])
        show ∀ v ∈ (m.exec s c).printed, _
        rw [exec_printed]
        exact hr.1
      · exact iff_of_true ⟨hr.1, by simp⟩ (fun _ => by simp [hs])
      · simp [Reported, OnTime, hs, hl.race h.counters]
      · constructor
        · intro hret _
          exact ⟨fun hp => by simp [hs] at hp, fun _ => hret.2 rfl⟩
        · intro hon
          exact ⟨hr.1, fun _ => (hon rfl).2 hs⟩

/-- Every state of a run is reported right if and only if all its steps are taken in time. -/
theorem along_reported_iff (hl : m.Laws Inv executed last all) (as : List Act) :
    m.machine.Along (fun _ _ t => m.Reported t) m.init as ↔
      m.machine.Along (fun s a _ => m.OnTime s a) m.init as := by
  have hinit : m.Reported m.init :=
    ⟨fun v hv => by simp [init] at hv, fun hu => by simp [init] at hu⟩
  refine Machine.along_congr (I := fun s => m.Sound Inv s ∧ m.Reported s) ?_ ?_
    ⟨sound_init hl, hinit⟩
  · intro s a t h hn
    exact reported_iff_onTime hl h.1 h.2 hn
  · intro s a t h hn hon
    exact ⟨sound_step hl h.1 hn, (reported_iff_onTime hl h.1 h.2 hn).mpr hon⟩

/-! ## The steps taken so far -/

/-- The loader and the threads stand where the steps `bs` have led them. -/
structure Paced (m : CountingModule σ) (Inv : σ → Prop) (executed : σ → Fin 4 → Nat)
    (bs : List Act) (s : State σ) : Prop where
  sound : m.Sound Inv s
  loader : s.loader.steps m.helloInit.length = bs.count .loader
  threads : ∀ i, executed s.counters i = bs.count (.thread i)

theorem paced_init (hl : m.Laws Inv executed last all) : m.Paced Inv executed [] m.init where
  sound := sound_init hl
  loader := by simp [init, Loader.steps]
  threads i := by simp [init, hl.fresh i]

theorem paced_step (hl : m.Laws Inv executed last all) (h : m.Paced Inv executed bs s)
    (hn : m.next s a = some t) : m.Paced Inv executed (bs ++ [a]) t := by
  have hsound := sound_step hl h.sound hn
  have hloader := h.loader
  cases a with
  | thread i =>
      obtain ⟨-, c, hc, rfl⟩ := thread_cases hn
      refine ⟨hsound, by simpa [List.count_append] using hloader, fun j => ?_⟩
      rw [hl.executes h.sound.counters hc j, h.threads j]
      by_cases hj : j = i
      · simp [hj]
      · have hij : i ≠ j := fun hij => hj hij.symm
        simp [hj, hij]
  | loader =>
      have hthreads : ∀ i, executed s.counters i = (bs ++ [Act.loader]).count (.thread i) := by
        intro i
        simpa using h.threads i
      rcases loader_cases hn with ⟨hs, rfl⟩ | ⟨c, todo, hs, rfl⟩ | ⟨hs, rfl⟩ | ⟨hs, rfl⟩ | ⟨hs, rfl⟩
        <;> rw [hs] at hloader
      · exact ⟨hsound, by simp_all [Loader.steps], hthreads⟩
      · have hle := ((List.mem_tails _ _).mp (h.sound.untouched _ hs).1).length_le
        refine ⟨hsound, ?_, fun i => ?_⟩
        · simp only [Loader.steps, List.length_cons, List.count_append, List.count_singleton_self]
            at hloader hle ⊢
          omega
        · show executed (m.exec s c).counters i = _
          rw [counters_exec hl h.sound.untouched hs]
          exact hthreads i
      all_goals exact ⟨hsound, by simp_all [Loader.steps], hthreads⟩

theorem paced_of_run (hl : m.Laws Inv executed last all)
    (hr : m.machine.run m.init bs = some s) : m.Paced Inv executed bs s :=
  Machine.run_history (fun h hn => paced_step hl h hn) (paced_init hl) hr

theorem onTime_iff_waited (hl : m.Laws Inv executed last all) (h : m.Paced Inv executed bs s) :
    m.OnTime s .loader ↔ m.Waited last all bs := by
  simp only [OnTime, Waited, ← h.loader, Loader.steps_printRace, Loader.steps_ret, ← h.threads,
    hl.counted h.sound.counters, hl.returned h.sound.counters, forall_const]

theorem onTime_of_unloaded (hs : s.loader = .unloaded) : m.OnTime s a :=
  fun _ => ⟨fun hp => by simp [hs] at hp, fun hp => by simp [hs] at hp⟩

theorem next_loader (m : CountingModule σ) (s : State σ) :
    s.loader = .unloaded ∨ ∃ t, m.next s .loader = some t := by
  unfold next
  cases hs : s.loader with
  | helloInit todo => cases todo <;> exact .inr ⟨_, rfl⟩
  | loaded | printRace | ret => exact .inr ⟨_, rfl⟩
  | unloaded => exact .inl rfl

/-- Whether the steps are taken in time can be read off the schedule. -/
theorem along_onTime_iff (hl : m.Laws Inv executed last all) (as : List Act) :
    m.machine.Along (fun s a _ => m.OnTime s a) m.init as ↔ m.InTime last all as := by
  rw [Machine.along_iff]
  constructor
  · intro h bs cs has hsome
    obtain ⟨s, hs⟩ := Option.isSome_iff_exists.mp hsome
    rw [← onTime_iff_waited hl (paced_of_run hl hs)]
    rcases next_loader m s with hunloaded | ⟨t, ht⟩
    · exact onTime_of_unloaded hunloaded
    · exact h bs .loader cs s t has hs ht
  · intro h bs a cs s t has hs _ ha
    subst ha
    have hwaited := h bs cs has (Option.isSome_iff_exists.mpr ⟨s, hs⟩)
    exact (onTime_iff_waited hl (paced_of_run hl hs)).mpr hwaited rfl

theorem along_reported_iff_inTime (hl : m.Laws Inv executed last all) (as : List Act) :
    m.machine.Along (fun _ _ t => m.Reported t) m.init as ↔ m.InTime last all as :=
  (along_reported_iff hl as).trans (along_onTime_iff hl as)

end CountingModule

/-! ## The two modules -/

theorem fits : 4 * IRT_TIME < 2147483648 := by decide

theorem irt_time_pos : 0 < IRT_TIME := by decide

theorem race_eq_iff {c : MultiAtomic.State 4} (h : MultiAtomic.Counted IRT_TIME c) :
    c.race.toInt = 4 * IRT_TIME ↔ ∀ i, (c.threads i).completed = IRT_TIME := by
  rw [h.toInt_race fits, ← h.total_eq_iff]
  norm_cast

theorem multiAtomic_laws : multiAtomic.Laws (MultiAtomic.Counted IRT_TIME)
    (fun c i => (c.threads i).executed IRT_TIME) (3 * IRT_TIME) (3 * IRT_TIME + 3) where
  start := MultiAtomic.counted_init 4 IRT_TIME
  step := MultiAtomic.counted_step
  atomicSet := rfl
  race := race_eq_iff
  fresh _ := rfl
  executes h hn := MultiAtomic.executed_step (h.placed _) hn
  counted h i := MultiAtomic.completed_iff_executed irt_time_pos (h.placed i)
  returned h i := MultiAtomic.returned_iff_executed (h.placed i)

theorem multiMutex_laws :
    multiMutex.Laws (fun c => MultiMutex.Guarded c ∧ MultiAtomic.Counted IRT_TIME c.abs)
      (fun c i => (c.threads i).executed IRT_TIME) (6 * IRT_TIME - 1) (6 * IRT_TIME + 3) where
  start := ⟨MultiMutex.guarded_init 4, MultiAtomic.counted_init 4 IRT_TIME⟩
  step h hn := ⟨MultiMutex.guarded_step h.1 hn, MultiMutex.counted_step h.1 h.2 hn⟩
  atomicSet := rfl
  race h := race_eq_iff h.2
  fresh _ := rfl
  executes h hn := MultiMutex.executed_step (h.2.placed _) hn
  counted h i := MultiMutex.completed_iff_executed irt_time_pos (h.2.placed i)
  returned h i := MultiMutex.returned_iff_executed (h.2.placed i)

instance (s : State (MultiAtomic.State 4)) : Decidable (multiAtomic.Reported s) :=
  have : Decidable (∀ v ∈ s.printed, v.toInt = 4 * IRT_TIME) := Option.decidableForallMem _
  inferInstanceAs (Decidable (_ ∧
    (s.loader = .unloaded → ∀ i, (s.counters.threads i).pc = .returned)))

instance (s : State (MultiMutex.State 4)) : Decidable (multiMutex.Reported s) :=
  have : Decidable (∀ v ∈ s.printed, v.toInt = 4 * IRT_TIME) := Option.decidableForallMem _
  inferInstanceAs (Decidable (_ ∧
    (s.loader = .unloaded → ∀ i, (s.counters.threads i).pc = .returned)))

/-- In every run of either module, the printed value is the full total and no thread is left
in `mykthread` behind `hello_exit` if and only if the schedule gives every thread its statements up
to the last increment before the loader prints, and all of them before it returns. -/
theorem unload_reports_iff_inTime (as : List Act) :
    (multiAtomic.machine.Along (fun _ _ t => multiAtomic.Reported t) multiAtomic.init as ↔
      multiAtomic.InTime (3 * IRT_TIME) (3 * IRT_TIME + 3) as) ∧
    (multiMutex.machine.Along (fun _ _ t => multiMutex.Reported t) multiMutex.init as ↔
      multiMutex.InTime (6 * IRT_TIME - 1) (6 * IRT_TIME + 3) as) :=
  ⟨CountingModule.along_reported_iff_inTime multiAtomic_laws as,
    CountingModule.along_reported_iff_inTime multiMutex_laws as⟩

/-- The module is unloaded right behind `hello_init`, before any of its threads runs. -/
theorem unload_prints_zero :
    (¬ ∀ as, multiAtomic.machine.Along (fun _ _ t => multiAtomic.Reported t)
      multiAtomic.init as) ∧
    ¬ ∀ as, multiMutex.machine.Along (fun _ _ t => multiMutex.Reported t) multiMutex.init as := by
  constructor
  · intro h
    exact absurd (h (List.replicate 17 .loader)) (by decide +kernel)
  · intro h
    exact absurd (h (List.replicate 16 .loader)) (by decide +kernel)

end Unload

end Cse522.Studio10

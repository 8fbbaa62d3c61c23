import Mathlib.Algebra.Ring.Nat
import Mathlib.Data.List.Basic
import Cse522.Studio09.RtFork

/-!
# How many processes there are, and what they print

Every process but the first is a child of the first, and there are as many of them as calls of
`fork` have worked. The two lines are printed before the first `fork`: on a terminal they come
out once, in a file once for each process, since each writes its copy of them when it exits.
-/
namespace Cse522.Studio09.RtFork

open Cse522.Clib.Stdio Cse522.Clib.Stdlib Cse522.Interleave

variable {tty : Bool} {IRT_NUM i : Nat} {argv : List String} {cpu chd : Int} {fails : Bool}
  {s t : State} {p q p₀ : Process} {ps : List Process}

/-- The two lines of output. -/
def header (cpu : Int) : List Char :=
  "CPU bind: ".toList ++ decimal cpu ++ ['\n'] ++ "Set Sched:RR\n".toList

theorem bindLine_schedLine (cpu : Int) : bindLine cpu ++ schedLine = header cpu := rfl

/-- The lines that the process has printed or inherited. -/
def Process.text (p : Process) : List Char :=
  match p.pc with
  | .main => []
  | .setCpu => bindLine p.s32CPUNo
  | _ => header p.s32CPUNo

/-- The calls of `fork` that the first process has made. -/
def Process.forks (p : Process) : Nat :=
  match p.pc with
  | .main | .setCpu | .setSched => 0
  | .forkTest | .fork => p.s32i
  | _ => p.s32CHDNo.toNat

def Process.ended (p : Process) : Bool :=
  match p.pc with
  | .exited _ => true
  | _ => false

/-- What the process holds back. -/
def Buffered (tty : Bool) (p : Process) : Prop :=
  p.buffer = if tty || p.ended then [] else p.text

/-- The first process, as long as nothing has failed. -/
structure Root (cpu chd : Int) (p : Process) : Prop where
  parent : p.parent = none
  args : p.pc ≠ .main → p.s32CPUNo = cpu ∧ p.s32CHDNo = chd
  counts : match p.pc with
    | .forkTest => p.s32i ≤ chd.toNat
    | .fork => (p.s32i : Int) < chd
    | .exit status | .exited status => status = EXIT_SUCCESS
    | _ => True

structure Child (cpu : Int) (p : Process) : Prop where
  parent : p.parent = some 0
  cpu : p.s32CPUNo = cpu
  pc : p.pc = .spin ∨ p.pc = .exit EXIT_SUCCESS ∨ p.pc = .exited EXIT_SUCCESS

/-- The program works: the first process `p₀` and its children `ps`. -/
structure Works (tty : Bool) (cpu chd : Int) (p₀ : Process) (ps : List Process) (s : State) :
    Prop where
  processes : s.processes = p₀ :: ps
  root : Root cpu chd p₀
  children : ∀ p ∈ ps, Child cpu p
  forks : ps.length + s.failed = p₀.forks
  buffers : ∀ p ∈ s.processes, Buffered tty p
  terminal : tty = true → s.stdout = p₀.text
  file : tty = false →
    s.stdout = (List.replicate (s.processes.countP Process.ended) (header cpu)).flatten

/-- The first process exits before it has forked. -/
structure Fails (s : State) : Prop where
  alone : ∃ p, s.processes = [p] ∧ p.parent = none ∧
    (p.pc = .exit EXIT_FAILURE ∨ p.pc = .exited EXIT_FAILURE)
  failed : s.failed = 0

def Sound (tty : Bool) (cpu chd : Int) (s : State) : Prop :=
  (∃ p₀ ps, Works tty cpu chd p₀ ps s) ∨ Fails s

theorem sound_init : Sound tty cpu chd init :=
  .inl ⟨_, [], rfl, ⟨rfl, fun h => absurd rfl h, trivial⟩, by simp, rfl, by
    simp [init, Buffered, Process.text], fun _ => rfl, fun _ => by simp [init, Process.ended]⟩

/-! ## One process moves -/

/-- The place of a process in the list, and the list with another in its place. -/
theorem exists_split (h : ps[i]? = some p) :
    ∃ l r, ps = l ++ p :: r ∧ ∀ q, ps.set i q = l ++ q :: r := by
  obtain ⟨hi, hp⟩ := List.getElem?_eq_some_iff.mp h
  refine ⟨ps.take i, ps.drop (i + 1), ?_, fun q => ?_⟩
  · rw [← hp, ← List.drop_eq_getElem_cons hi, List.take_append_drop]
  · rw [List.set_eq_take_append_cons_drop, if_pos hi]

theorem next_eq_some {fails : Bool} : (rtFork tty IRT_NUM argv).next s (i, fails) = some t ↔
    ∃ p e, s.processes[i]? = some p ∧ p.run tty IRT_NUM argv i fails = some e ∧
      t = ⟨s.processes.set i e.process ++ e.child.toList, s.stdout ++ e.written,
        s.failed + e.failed⟩ := by
  simp only [rtFork, next, Option.bind_eq_bind, Option.bind_eq_some_iff, Option.pure_def,
    Option.some.injEq]
  constructor
  · intro h
    obtain ⟨p, hp, e, he, ht⟩ := h
    exact ⟨p, e, hp, he, ht.symm⟩
  · intro h
    obtain ⟨p, e, hp, he, ht⟩ := h
    exact ⟨p, hp, e, he, ht.symm⟩

theorem replicate_concat (n : Nat) (text : List Char) :
    (List.replicate n text).flatten ++ text = (List.replicate (n + 1) text).flatten := by
  simp [List.replicate_succ']

/-- The first process moves on and prints nothing. -/
theorem Works.root_silent (h : Works tty cpu chd p₀ ps s) (failed : Nat)
    (hroot : Root cpu chd p) (hforks : p.forks + s.failed = p₀.forks + failed)
    (hbuffer : p.buffer = p₀.buffer) (htext : p.text = p₀.text)
    (hended : p.ended = p₀.ended) :
    Works tty cpu chd p ps ⟨p :: ps, s.stdout, failed⟩ where
  processes := rfl
  root := hroot
  children := h.children
  forks := by
    have hold := h.forks
    show ps.length + failed = p.forks
    omega
  buffers := by
    have hbuf := h.buffers
    rw [h.processes] at hbuf
    intro q hq
    rcases List.mem_cons.mp hq with rfl | hq
    · have hb := hbuf p₀ List.mem_cons_self
      unfold Buffered at hb ⊢
      rw [hbuffer, htext, hended]
      exact hb
    · exact hbuf q (List.mem_cons_of_mem _ hq)
  terminal htty := by rw [htext]; exact h.terminal htty
  file htty := by
    have hfile := h.file htty
    rw [h.processes, List.countP_cons] at hfile
    rw [List.countP_cons, hended]
    exact hfile

/-- `fork` works. The child has a copy of what is held back. -/
theorem Works.root_forks (h : Works tty cpu chd p₀ ps s) (hroot : Root cpu chd p)
    (hforks : p.forks = p₀.forks + 1) (hbuffer : p.buffer = p₀.buffer) (htext : p.text = p₀.text)
    (hended : p.ended = p₀.ended) (hchild : Child cpu q) (hbuffer' : q.buffer = p₀.buffer)
    (htext' : q.text = p₀.text) (hended' : q.ended = p₀.ended) (hrunning : p₀.ended = false) :
    Works tty cpu chd p (ps ++ [q]) ⟨p :: (ps ++ [q]), s.stdout, s.failed⟩ := by
  have hw := h.root_silent (s.failed + 1) hroot (by omega) hbuffer htext hended
  have hbuf := hw.buffers
  refine ⟨rfl, hroot, fun x hx => ?_, ?_, fun x hx => ?_, hw.terminal, fun htty => ?_⟩
  · rcases List.mem_append.mp hx with hx | hx
    · exact h.children x hx
    · obtain rfl := List.mem_singleton.mp hx
      exact hchild
  · have hcount := hw.forks
    simp only [List.length_append, List.length_singleton] at hcount ⊢
    omega
  · rw [← List.cons_append] at hx
    rcases List.mem_append.mp hx with hx | hx
    · exact hbuf x hx
    · obtain rfl := List.mem_singleton.mp hx
      have hb := h.buffers p₀ (by simp [h.processes])
      unfold Buffered at hb ⊢
      rw [hbuffer', htext', hended']
      exact hb
  · have hfile := hw.file htty
    rw [← List.cons_append, List.countP_append, List.countP_singleton, hended', hrunning]
    simpa using hfile

/-- The first process prints a line. -/
theorem Works.root_printf (h : Works tty cpu chd p₀ ps s) (line : List Char)
    (hroot : Root cpu chd p) (hforks : p.forks = p₀.forks)
    (hbuffer : p.buffer = p₀.buffer) (htext : p.text = p₀.text ++ line)
    (hended : p.ended = false) (hended' : p₀.ended = false) :
    Works tty cpu chd (p.printf tty line).process ps
      ⟨(p.printf tty line).process :: ps, s.stdout ++ (p.printf tty line).written, s.failed⟩ := by
  have hbuf := h.buffers
  rw [h.processes] at hbuf
  have hb : p₀.buffer = if tty then [] else p₀.text := by
    have hb := hbuf p₀ List.mem_cons_self
    rw [Buffered, hended'] at hb
    simpa using hb
  have hcount : s.processes.countP Process.ended = ps.countP Process.ended := by
    rw [h.processes, List.countP_cons, hended']
    simp
  cases tty with
  | true =>
      refine ⟨rfl, hroot, h.children, h.forks.trans hforks.symm, ?_, fun _ => ?_, nofun⟩
      · intro q hq
        rcases List.mem_cons.mp hq with rfl | hq
        · simpa [Buffered, Process.printf, hbuffer] using hb
        · exact hbuf q (List.mem_cons_of_mem _ hq)
      · show s.stdout ++ line = p.text
        rw [htext, h.terminal rfl]
  | false =>
      have hended'' : ({ p with buffer := p.buffer ++ line } : Process).ended = false := hended
      refine ⟨rfl, ⟨hroot.parent, hroot.args, hroot.counts⟩, h.children,
        h.forks.trans hforks.symm, ?_, nofun, fun htty => ?_⟩
      · intro q hq
        rcases List.mem_cons.mp hq with rfl | hq
        · show p.buffer ++ line = _
          rw [show (p.printf false line).process.ended = false from hended, hbuffer, hb]
          exact htext.symm
        · exact hbuf q (List.mem_cons_of_mem _ hq)
      · show s.stdout ++ [] = _
        rw [List.append_nil, h.file rfl, hcount]
        show _ = (List.replicate (List.countP _ (_ :: ps)) _).flatten
        rw [List.countP_cons, show (p.printf false line).process.ended = false from hended]
        rfl

theorem fails_of_root (h : Works tty cpu chd p₀ ps s) (hforks : p₀.forks = 0)
    (hp : p.parent = none) (hpc : p.pc = .exit EXIT_FAILURE) (stdout : List Char) :
    Fails ⟨p :: ps, stdout, s.failed⟩ := by
  have hnone := h.forks
  rw [hforks] at hnone
  have hps : ps = [] := List.eq_nil_of_length_eq_zero (by omega)
  refine ⟨⟨p, by rw [hps], hp, .inl hpc⟩, ?_⟩
  show s.failed = 0
  omega

@[simp] theorem printf_child (p : Process) (tty : Bool) (text : List Char) :
    (p.printf tty text).child = none := by
  cases tty <;> rfl

@[simp] theorem printf_failed (p : Process) (tty : Bool) (text : List Char) :
    (p.printf tty text).failed = 0 := by
  cases tty <;> rfl

@[simp] theorem printf_pc (p : Process) (tty : Bool) (text : List Char) :
    (p.printf tty text).process.pc = p.pc := by
  cases tty <;> rfl

@[simp] theorem printf_parent (p : Process) (tty : Bool) (text : List Char) :
    (p.printf tty text).process.parent = p.parent := by
  cases tty <;> rfl

/-- A process that exits writes what it holds back. -/
theorem Works.flush (h : Works tty cpu chd p₀ ps s) {l r : List Process}
    (hps : s.processes = l ++ p :: r) (hended : p.ended = false) (htext : p.text = header cpu)
    (hq : q.ended = true) (hbuffer : q.buffer = []) :
    (∀ x ∈ l ++ q :: r, Buffered tty x) ∧
    (tty = true → s.stdout ++ p.buffer = p₀.text) ∧
    (tty = false → s.stdout ++ p.buffer =
      (List.replicate ((l ++ q :: r).countP Process.ended) (header cpu)).flatten) := by
  have hbuf := h.buffers
  rw [hps] at hbuf
  have hb : p.buffer = if tty then [] else header cpu := by
    have hb := hbuf p (by simp)
    rw [Buffered, hended, htext] at hb
    simpa using hb
  refine ⟨fun x hx => ?_, fun htty => ?_, fun htty => ?_⟩
  · rcases List.mem_append.mp hx with hx | hx
    · exact hbuf x (List.mem_append_left _ hx)
    · rcases List.mem_cons.mp hx with rfl | hx
      · simp [Buffered, hq, hbuffer]
      · exact hbuf x (by simp [hx])
  · rw [hb, if_pos htty, List.append_nil, h.terminal htty]
  · have hcount : (l ++ q :: r).countP Process.ended =
        (l ++ p :: r).countP Process.ended + 1 := by
      simp only [List.countP_append, List.countP_cons, hq, hended, if_true, Bool.false_eq_true,
        if_false]
      omega
    rw [hb, htty, if_neg (by simp), h.file htty, hps, replicate_concat, hcount]

/-- A child moves on and prints nothing. -/
theorem Works.child_silent (h : Works tty cpu chd p₀ ps s) {l r : List Process}
    (hps : ps = l ++ p :: r) (hchild : Child cpu q) (hbuffer : q.buffer = p.buffer)
    (htext : q.text = p.text) (hended : q.ended = p.ended) :
    Works tty cpu chd p₀ (l ++ q :: r) ⟨p₀ :: (l ++ q :: r), s.stdout, s.failed⟩ := by
  have hbuf := h.buffers
  have hchildren := h.children
  have hforks := h.forks
  rw [h.processes, hps] at hbuf
  rw [hps] at hchildren hforks
  refine ⟨rfl, h.root, fun x hx => ?_, by simpa using hforks, fun x hx => ?_, h.terminal,
    fun htty => ?_⟩
  · rcases List.mem_append.mp hx with hx | hx
    · exact hchildren x (List.mem_append_left _ hx)
    · rcases List.mem_cons.mp hx with rfl | hx
      · exact hchild
      · exact hchildren x (by simp [hx])
  · rcases List.mem_cons.mp hx with rfl | hx
    · exact hbuf _ List.mem_cons_self
    · rcases List.mem_append.mp hx with hx | hx
      · exact hbuf x (by simp [hx])
      · rcases List.mem_cons.mp hx with rfl | hx
        · have hb := hbuf p (by simp)
          unfold Buffered at hb ⊢
          rw [hbuffer, htext, hended]
          exact hb
        · exact hbuf x (by simp [hx])
  · have hfile := h.file htty
    rw [h.processes, hps] at hfile
    rw [hfile]
    simp [List.countP_append, List.countP_cons, hended]

theorem Child.text (h : Child cpu p) : p.text = header cpu := by
  obtain hpc | hpc | hpc := h.pc <;> simp [Process.text, hpc, h.cpu]

/-- A child takes a statement. -/
theorem works_child (h : Works tty cpu chd p₀ ps s) (hp : ps[i]? = some p) {e : Effect}
    (hrun : p.run tty IRT_NUM argv (i + 1) fails = some e) :
    Sound tty cpu chd ⟨p₀ :: ps.set i e.process ++ e.child.toList, s.stdout ++ e.written,
      s.failed + e.failed⟩ := by
  obtain ⟨l, r, hps, hset⟩ := exists_split hp
  have hchild := h.children p (List.mem_of_getElem? hp)
  have hparent := hchild.parent
  have hcpu := hchild.cpu
  obtain hpc | hpc | hpc := hchild.pc <;> simp only [Process.run, hpc] at hrun
  · refine .inl ⟨p₀, ps.set i e.process, ?_⟩
    by_cases hlt : p.s32i < IRT_NUM
    · rw [if_pos hlt] at hrun
      obtain rfl := Option.some.inj hrun
      have hw := h.child_silent (q := { p with s32i := p.s32i + 1 }) hps
        ⟨hparent, hcpu, .inl hpc⟩ rfl (by simp [Process.text, hpc]) (by simp [Process.ended, hpc])
      simpa [Process.to, hset, hpc] using hw
    · rw [if_neg hlt] at hrun
      obtain rfl := Option.some.inj hrun
      have hw := h.child_silent (q := { p with pc := .exit EXIT_SUCCESS }) hps
        ⟨hparent, hcpu, .inr (.inl rfl)⟩ rfl (by simp [Process.text, hpc])
        (by simp [Process.ended, hpc])
      simpa [Process.to, hset] using hw
  · obtain rfl := Option.some.inj hrun
    obtain ⟨hbuf, hterm, hfile⟩ :=
      h.flush (l := p₀ :: l) (q := { p with pc := .exited EXIT_SUCCESS, buffer := [] })
      (by rw [h.processes, hps]; rfl) (by simp [Process.ended, hpc]) hchild.text rfl rfl
    refine .inl ⟨p₀, ps.set i { p with pc := .exited EXIT_SUCCESS, buffer := [] }, ?_⟩
    have hchildren := h.children
    have hforks := h.forks
    rw [hps] at hchildren hforks
    refine ⟨by simp, h.root, fun x hx => ?_, by simpa [hset] using hforks, ?_, hterm, ?_⟩
    · rw [hset] at hx
      rcases List.mem_append.mp hx with hx | hx
      · exact hchildren x (List.mem_append_left _ hx)
      · rcases List.mem_cons.mp hx with rfl | hx
        · exact ⟨hparent, hcpu, .inr (.inr rfl)⟩
        · exact hchildren x (by simp [hx])
    · simpa [hset] using hbuf
    · simpa [hset] using hfile
  · cases hrun

/-- The first process takes a statement. -/
theorem works_root {prog a b c : String} (h : Works tty (atoi a) (toInt (atoi c - 1)) p₀ ps s)
    {e : Effect} (hrun : p₀.run tty IRT_NUM [prog, a, b, c] 0 fails = some e) :
    Sound tty (atoi a) (toInt (atoi c - 1))
      ⟨e.process :: ps ++ e.child.toList, s.stdout ++ e.written, s.failed + e.failed⟩ := by
  have hroot := h.root
  have hargs := hroot.args
  have hcounts := hroot.counts
  cases hpc : p₀.pc <;> simp only [Process.run, hpc] at hrun hcounts
  case main =>
      have hforks : p₀.forks = 0 := by simp [Process.forks, hpc]
      split at hrun
      case isTrue =>
        obtain rfl := Option.some.inj hrun
        have hf := fails_of_root h hforks
          (p := ({ p₀ with
            pc := .exit EXIT_FAILURE
            s32CPUNo := atoi a
            s32Prio := atoi b
            s32CHDNo := toInt (atoi c - 1) }.printf tty "OUT of Range\n".toList).process)
          (by simpa using hroot.parent) (by simp)
        exact .inr (by simpa using hf _)
      case isFalse =>
        obtain rfl := Option.some.inj hrun
        have hw := h.root_printf (bindLine (atoi a))
          (p := { p₀ with
            pc := .setCpu
            s32CPUNo := atoi a
            s32Prio := atoi b
            s32CHDNo := toInt (atoi c - 1) })
          ⟨hroot.parent, fun _ => ⟨rfl, rfl⟩, trivial⟩ (by simp [Process.forks, hpc]) rfl
          (by simp [Process.text, hpc]) rfl (by simp [Process.ended, hpc])
        have hs : Sound tty (atoi a) (toInt (atoi c - 1)) _ := .inl ⟨_, _, hw⟩
        simpa using hs
  case setCpu =>
      obtain ⟨hcpu, hchd⟩ := hargs (by simp [hpc])
      have hforks : p₀.forks = 0 := by simp [Process.forks, hpc]
      split at hrun
      case isTrue =>
        obtain rfl := Option.some.inj hrun
        have hf := fails_of_root h hforks (p := { p₀ with pc := .exit EXIT_FAILURE })
          hroot.parent rfl s.stdout
        exact .inr (by simpa [Process.to] using hf)
      case isFalse =>
        obtain rfl := Option.some.inj hrun
        have hw := h.root_printf schedLine (p := { p₀ with pc := .setSched })
          ⟨hroot.parent, fun _ => ⟨hcpu, hchd⟩, trivial⟩ (by simp [Process.forks, hpc]) rfl
          (by simp [Process.text, hpc, bindLine_schedLine]) rfl (by simp [Process.ended, hpc])
        have hs : Sound tty (atoi a) (toInt (atoi c - 1)) _ := .inl ⟨_, _, hw⟩
        simpa using hs
  case setSched =>
      obtain ⟨hcpu, hchd⟩ := hargs (by simp [hpc])
      have hforks : p₀.forks = 0 := by simp [Process.forks, hpc]
      split at hrun
      case isTrue =>
        obtain rfl := Option.some.inj hrun
        have hf := fails_of_root h hforks (p := { p₀ with pc := .exit EXIT_FAILURE })
          hroot.parent rfl s.stdout
        exact .inr (by simpa [Process.to] using hf)
      case isFalse =>
        obtain rfl := Option.some.inj hrun
        have hw := h.root_silent s.failed (p := { p₀ with pc := .forkTest, s32i := 0 })
          ⟨hroot.parent, fun _ => ⟨hcpu, hchd⟩, Nat.zero_le _⟩ (by simp [Process.forks, hpc]) rfl
          (by simp [Process.text, hpc]) (by simp [Process.ended, hpc])
        have hs : Sound tty (atoi a) (toInt (atoi c - 1)) _ := .inl ⟨_, _, hw⟩
        simpa [Process.to] using hs
  case forkTest =>
      obtain ⟨hcpu, hchd⟩ := hargs (by simp [hpc])
      split at hrun
      case isTrue hlt =>
        obtain rfl := Option.some.inj hrun
        have hw := h.root_silent s.failed (p := { p₀ with pc := .fork })
          ⟨hroot.parent, fun _ => ⟨hcpu, hchd⟩, hchd ▸ hlt⟩ (by simp [Process.forks, hpc]) rfl
          (by simp [Process.text, hpc]) (by simp [Process.ended, hpc])
        have hs : Sound tty (atoi a) (toInt (atoi c - 1)) _ := .inl ⟨_, _, hw⟩
        simpa [Process.to] using hs
      case isFalse hlt =>
        obtain rfl := Option.some.inj hrun
        have hforks : p₀.s32i = p₀.s32CHDNo.toNat := by
          rw [hchd] at hlt ⊢
          omega
        have hw := h.root_silent s.failed (p := { p₀ with pc := .spin, s32i := 0 })
          ⟨hroot.parent, fun _ => ⟨hcpu, hchd⟩, trivial⟩ (by simp [Process.forks, hpc, hforks]) rfl
          (by simp [Process.text, hpc]) (by simp [Process.ended, hpc])
        have hs : Sound tty (atoi a) (toInt (atoi c - 1)) _ := .inl ⟨_, _, hw⟩
        simpa [Process.to] using hs
  case fork =>
      obtain ⟨hcpu, hchd⟩ := hargs (by simp [hpc])
      have hroot' : Root (atoi a) (toInt (atoi c - 1))
          { p₀ with pc := .forkTest, s32i := p₀.s32i + 1 } :=
        ⟨hroot.parent, fun _ => ⟨hcpu, hchd⟩, by simp only; omega⟩
      split at hrun
      case isTrue =>
        obtain rfl := Option.some.inj hrun
        have hw := h.root_silent (s.failed + 1) hroot'
          (by simp only [Process.forks, hpc]; omega) rfl (by simp [Process.text, hpc])
          (by simp [Process.ended, hpc])
        have hs : Sound tty (atoi a) (toInt (atoi c - 1)) _ := .inl ⟨_, _, hw⟩
        simpa using hs
      case isFalse =>
        obtain rfl := Option.some.inj hrun
        have hw := h.root_forks (q := { p₀ with parent := some 0, pc := .spin, s32i := 0 }) hroot'
          (by simp [Process.forks, hpc]) rfl (by simp [Process.text, hpc])
          (by simp [Process.ended, hpc]) ⟨rfl, hcpu, .inl rfl⟩ rfl (by simp [Process.text, hpc])
          (by simp [Process.ended, hpc]) (by simp [Process.ended, hpc])
        have hs : Sound tty (atoi a) (toInt (atoi c - 1)) _ := .inl ⟨_, _, hw⟩
        simpa using hs
  case spin =>
      obtain ⟨hcpu, hchd⟩ := hargs (by simp [hpc])
      split at hrun
      case isTrue =>
        obtain rfl := Option.some.inj hrun
        have hw := h.root_silent s.failed (p := { p₀ with s32i := p₀.s32i + 1 })
          ⟨hroot.parent, fun _ => ⟨hcpu, hchd⟩, by simp [hpc]⟩ (by simp [Process.forks, hpc]) rfl
          (by simp [Process.text, hpc]) (by simp [Process.ended, hpc])
        have hs : Sound tty (atoi a) (toInt (atoi c - 1)) _ := .inl ⟨_, _, hw⟩
        simpa [Process.to, hpc] using hs
      case isFalse =>
        obtain rfl := Option.some.inj hrun
        have hw := h.root_silent s.failed (p := { p₀ with pc := .exit EXIT_SUCCESS })
          ⟨hroot.parent, fun _ => ⟨hcpu, hchd⟩, rfl⟩ (by simp [Process.forks, hpc]) rfl
          (by simp [Process.text, hpc]) (by simp [Process.ended, hpc])
        have hs : Sound tty (atoi a) (toInt (atoi c - 1)) _ := .inl ⟨_, _, hw⟩
        simpa [Process.to] using hs
  case exit status =>
      obtain ⟨hcpu, hchd⟩ := hargs (by simp [hpc])
      subst hcounts
      obtain rfl := Option.some.inj hrun
      have htext : p₀.text = header (atoi a) := by simp [Process.text, hpc, hcpu]
      obtain ⟨hbuf, hterm, hfile⟩ := h.flush (l := []) (r := ps)
        (q := { p₀ with pc := .exited EXIT_SUCCESS, buffer := [] })
        h.processes (by simp [Process.ended, hpc]) htext rfl rfl
      refine .inl ⟨{ p₀ with pc := .exited EXIT_SUCCESS, buffer := [] }, ps, by simp,
        ⟨hroot.parent, fun _ => ⟨hcpu, hchd⟩, rfl⟩, h.children, ?_, by simpa using hbuf,
        fun htty => ?_, by simpa using hfile⟩
      · simpa [Process.forks, hpc] using h.forks
      · show s.stdout ++ p₀.buffer = _
        rw [hterm htty, htext]
        simp [Process.text, hcpu]
  case exited => cases hrun

theorem sound_step {prog a b c : String} (h : Sound tty (atoi a) (toInt (atoi c - 1)) s)
    {act : Nat × Bool} (hn : (rtFork tty IRT_NUM [prog, a, b, c]).next s act = some t) :
    Sound tty (atoi a) (toInt (atoi c - 1)) t := by
  obtain ⟨i, fails⟩ := act
  obtain ⟨p, e, hp, hrun, rfl⟩ := next_eq_some.mp hn
  rcases h with ⟨p₀, ps, h⟩ | h
  · rw [h.processes] at hp ⊢
    cases i with
    | zero =>
        obtain rfl : p₀ = p := by simpa using hp
        exact works_root h hrun
    | succ i => exact works_child h (by simpa using hp) hrun
  · obtain ⟨q, hq, hparent, hpc⟩ := h.alone
    rw [hq] at hp ⊢
    obtain ⟨rfl, rfl⟩ : i = 0 ∧ q = p := by
      cases i with
      | zero => exact ⟨rfl, by simpa using hp⟩
      | succ i => simp at hp
    obtain hpc | hpc := hpc <;> simp only [Process.run, hpc] at hrun
    · obtain rfl := Option.some.inj hrun
      exact .inr ⟨⟨_, rfl, hparent, .inr rfl⟩, h.failed⟩
    · cases hrun

/-! ## The length of a run -/

/-- The statements that the process and the children to come have left. -/
def Process.left (IRT_NUM : Nat) (chd : Int) (p : Process) : Nat :=
  match p.pc with
  | .main => chd.toNat * (IRT_NUM + 4) + (IRT_NUM + 6)
  | .setCpu => chd.toNat * (IRT_NUM + 4) + (IRT_NUM + 5)
  | .setSched => chd.toNat * (IRT_NUM + 4) + (IRT_NUM + 4)
  | .forkTest => (chd.toNat - p.s32i) * (IRT_NUM + 4) + (IRT_NUM + 3)
  | .fork => (chd.toNat - p.s32i - 1) * (IRT_NUM + 4) + 2 * (IRT_NUM + 3)
  | .spin => IRT_NUM - p.s32i + 2
  | .exit _ => 1
  | .exited _ => 0

def State.left (IRT_NUM : Nat) (chd : Int) (s : State) : Nat :=
  (s.processes.map (Process.left IRT_NUM chd)).sum

/-- What the loop that forks goes by. -/
def Loops (chd : Int) (p : Process) : Prop :=
  p.pc = .forkTest ∨ p.pc = .fork → p.s32CHDNo = chd ∧ (p.pc = .fork → (p.s32i : Int) < chd)

theorem run_left {prog a b c : String} {e : Effect} (hloops : Loops chd p)
    (hrun : p.run tty IRT_NUM [prog, a, b, c] i fails = some e) :
    e.process.left IRT_NUM chd + (e.child.toList.map (Process.left IRT_NUM chd)).sum <
      p.left IRT_NUM chd := by
  unfold Loops at hloops
  cases hpc : p.pc <;> simp only [Process.run, hpc] at hrun hloops
  case main =>
      split at hrun <;> obtain rfl := Option.some.inj hrun
      all_goals
        simp only [Process.left, printf_pc, printf_child, hpc, Option.toList_none, List.map_nil,
          List.sum_nil]
        omega
  case setCpu =>
      split at hrun <;> obtain rfl := Option.some.inj hrun
      all_goals
        simp only [Process.left, Process.to, printf_pc, printf_child, hpc, Option.toList_none,
          List.map_nil, List.sum_nil]
        omega
  case setSched =>
      split at hrun <;> obtain rfl := Option.some.inj hrun
      all_goals
        simp only [Process.left, Process.to, hpc, Nat.sub_zero, Option.toList_none, List.map_nil,
          List.sum_nil]
        omega
  case forkTest =>
      obtain ⟨hchd, -⟩ := hloops (.inl trivial)
      split at hrun
      case isTrue hlt =>
        obtain rfl := Option.some.inj hrun
        have hsucc : chd.toNat - p.s32i = chd.toNat - p.s32i - 1 + 1 := by omega
        have hmul : (chd.toNat - p.s32i) * (IRT_NUM + 4) =
            (chd.toNat - p.s32i - 1) * (IRT_NUM + 4) + (IRT_NUM + 4) := by
          rw [← Nat.succ_mul, ← Nat.add_one, ← hsucc]
        simp only [Process.left, Process.to, hpc, Option.toList_none, List.map_nil, List.sum_nil]
        omega
      case isFalse =>
        obtain rfl := Option.some.inj hrun
        simp only [Process.left, Process.to, hpc, Option.toList_none, List.map_nil, List.sum_nil]
        omega
  case fork =>
      obtain ⟨-, hlt⟩ := hloops (.inr trivial)
      have hnext : chd.toNat - (p.s32i + 1) = chd.toNat - p.s32i - 1 := by omega
      split at hrun <;> obtain rfl := Option.some.inj hrun
      all_goals
        simp only [Process.left, hpc, hnext, Option.toList_none, Option.toList_some, List.map_nil,
          List.map_cons, List.sum_nil, List.sum_cons]
        omega
  case spin =>
      split at hrun <;> obtain rfl := Option.some.inj hrun
      all_goals
        simp only [Process.left, Process.to, hpc, Option.toList_none, List.map_nil, List.sum_nil]
        omega
  case exit status =>
      obtain rfl := Option.some.inj hrun
      simp [Process.left, hpc]
  case exited => cases hrun

theorem Sound.loops (h : Sound tty cpu chd s) (hp : p ∈ s.processes) : Loops chd p := by
  rcases h with ⟨p₀, ps, h⟩ | h
  · rw [h.processes] at hp
    rcases List.mem_cons.mp hp with rfl | hp
    · intro hpc
      have hargs := h.root.args
      have hcounts := h.root.counts
      refine ⟨(hargs (by rcases hpc with hpc | hpc <;> simp [hpc])).2, fun hfork => ?_⟩
      simpa only [hfork] using hcounts
    · intro hpc
      have hpc' := (h.children p hp).pc
      rcases hpc with hpc | hpc <;> simp [hpc] at hpc'
  · obtain ⟨q, hq, -, hpc'⟩ := h.alone
    intro hpc
    rw [hq] at hp
    obtain rfl := List.mem_singleton.mp hp
    rcases hpc with hpc | hpc <;> simp [hpc] at hpc'

theorem left_step {prog a b c : String} (h : Sound tty cpu chd s) {act : Nat × Bool}
    (hn : (rtFork tty IRT_NUM [prog, a, b, c]).next s act = some t) :
    t.left IRT_NUM chd < s.left IRT_NUM chd := by
  obtain ⟨i, fails⟩ := act
  obtain ⟨p, e, hp, hrun, rfl⟩ := next_eq_some.mp hn
  have hlt := run_left (h.loops (List.mem_of_getElem? hp)) hrun
  obtain ⟨l, r, hs, hset⟩ := exists_split hp
  simp only [State.left, hset]
  simp only [hs, List.map_append, List.map_cons, List.sum_append, List.sum_cons]
  omega

/-! ## The end -/

/-- A process that is not through can move. -/
theorem run_of_running {prog a b c : String} (hpc : ∀ status, p.pc ≠ .exited status) :
    ∃ e, p.run tty IRT_NUM [prog, a, b, c] i false = some e := by
  cases hp : p.pc with
  | exited status => exact absurd hp (hpc status)
  | main | forkTest | spin =>
      simp only [Process.run, hp]
      split <;> exact ⟨_, rfl⟩
  | _ => exact ⟨_, by simp only [Process.run, hp]; rfl⟩

theorem exited_of_stuck {prog a b c : String}
    (hstuck : ∀ act, (rtFork tty IRT_NUM [prog, a, b, c]).next s act = none)
    (hp : p ∈ s.processes) : ∃ status, p.pc = .exited status := by
  by_contra hpc
  obtain ⟨i, hi⟩ := List.getElem?_of_mem hp
  obtain ⟨e, he⟩ : ∃ e, p.run tty IRT_NUM [prog, a, b, c] i false = some e :=
    run_of_running (not_exists.mp hpc)
  have hn := next_eq_some.mpr ⟨p, e, hi, he, rfl⟩
  rw [hstuck] at hn
  cases hn

/-- The number of children asked for, if the text of it is not that of the least `int`. -/
theorem chd_eq {c : String} (hc : -2147483648 < atoi c) :
    1 + (toInt (atoi c - 1)).toNat = max 1 (atoi c).toNat := by
  have hlt : atoi c ≤ 2147483647 := by
    unfold atoi toInt
    omega
  have hsub : toInt (atoi c - 1) = atoi c - 1 := by
    unfold toInt
    omega
  rw [hsub]
  omega

theorem Works.length_le (h : Works tty cpu chd p₀ ps s) :
    s.processes.length + s.failed ≤ 1 + chd.toNat := by
  have hforks := h.forks
  have hargs := h.root.args
  have hcounts := h.root.counts
  rw [h.processes, List.length_cons]
  cases hpc : p₀.pc <;> simp only [Process.forks, hpc] at hforks hcounts <;>
    simp only [hpc] at hargs
  case main | setCpu | setSched | forkTest | fork => omega
  all_goals
    rw [(hargs (by simp)).2] at hforks
    omega

/-- What there is when all processes have exited. -/
theorem Works.finished (h : Works tty cpu chd p₀ ps s)
    (hall : ∀ p ∈ s.processes, ∃ status, p.pc = .exited status) :
    (∀ p ∈ s.processes, p.pc = .exited EXIT_SUCCESS) ∧
      s.processes.length + s.failed = 1 + chd.toNat ∧
      s.stdout = if tty then header cpu
        else (List.replicate s.processes.length (header cpu)).flatten := by
  have hroot : p₀.pc = .exited EXIT_SUCCESS := by
    obtain ⟨status, hst⟩ := hall p₀ (by simp [h.processes])
    have hcounts := h.root.counts
    simp only [hst] at hcounts
    rw [hst, hcounts]
  have hsuccess : ∀ p ∈ s.processes, p.pc = .exited EXIT_SUCCESS := by
    intro p hp
    obtain ⟨status, hst⟩ := hall p hp
    rw [h.processes] at hp
    rcases List.mem_cons.mp hp with rfl | hp
    · exact hroot
    · obtain hpc | hpc | hpc := (h.children p hp).pc
      · simp [hst] at hpc
      · simp [hst] at hpc
      · exact hpc
  obtain ⟨hcpu, hchd⟩ := h.root.args (by simp [hroot])
  refine ⟨hsuccess, ?_, ?_⟩
  · have hforks := h.forks
    simp only [Process.forks, hroot, hchd] at hforks
    rw [h.processes, List.length_cons]
    omega
  · cases htty : tty with
    | true =>
        rw [h.terminal htty]
        simp [Process.text, hroot, hcpu]
    | false =>
        have hcount : s.processes.countP Process.ended = s.processes.length :=
          List.countP_eq_length.mpr fun p hp => by simp [Process.ended, hsuccess p hp]
        rw [h.file htty, hcount]
        simp

/-- All processes but the first are its children, there are never more of them than asked for,
and every run ends. At its end the first process has failed before it forked, or all have
succeeded: then there are as many as asked for, but for the calls of `fork` that have failed,
and a terminal shows the two lines once, while a file has them once for each process. -/
theorem rtfork_processes (prog a b : String) {c : String} (hc : -2147483648 < atoi c)
    {as : List (Nat × Bool)} (hr : (rtFork tty IRT_NUM [prog, a, b, c]).run init as = some s) :
    (∀ i p, s.processes[i + 1]? = some p → p.parent = some 0) ∧
    s.processes.length + s.failed ≤ max 1 (atoi c).toNat ∧
    as.length ≤ max 1 (atoi c).toNat * (IRT_NUM + 4) + 2 ∧
    ((∀ act, (rtFork tty IRT_NUM [prog, a, b, c]).next s act = none) →
      (∃ p, s.processes = [p] ∧ p.pc = .exited EXIT_FAILURE) ∨
      ((∀ p ∈ s.processes, p.pc = .exited EXIT_SUCCESS) ∧
        s.processes.length + s.failed = max 1 (atoi c).toNat ∧
        s.stdout = if tty then header (atoi a)
          else (List.replicate s.processes.length (header (atoi a))).flatten)) := by
  have h : Sound tty (atoi a) (toInt (atoi c - 1)) s :=
    Machine.Reachable.invariant (fun h hn => sound_step h hn) sound_init ⟨as, hr⟩
  rw [← chd_eq hc]
  refine ⟨?_, ?_, ?_, ?_⟩
  · intro i p hp
    rcases h with ⟨p₀, ps, h⟩ | h
    · rw [h.processes, List.getElem?_cons_succ] at hp
      exact (h.children p (List.mem_of_getElem? hp)).parent
    · obtain ⟨q, hq, -⟩ := h.alone
      simp [hq] at hp
  · rcases h with ⟨p₀, ps, h⟩ | h
    · exact h.length_le
    · obtain ⟨q, hq, -⟩ := h.alone
      rw [hq, h.failed]
      simp
  · have h0 : Sound tty (atoi a) (toInt (atoi c - 1)) init := sound_init
    have hlen := Machine.length_le_of_decreasing (M := rtFork tty IRT_NUM [prog, a, b, c])
      (fun h hn => ⟨sound_step h hn, left_step h hn⟩) h0 hr
    have hinit : init.left IRT_NUM (toInt (atoi c - 1)) =
        (1 + (toInt (atoi c - 1)).toNat) * (IRT_NUM + 4) + 2 := by
      simp only [init, State.left, Process.left, List.map_cons, List.map_nil, List.sum_cons,
        List.sum_nil]
      rw [Nat.add_mul]
      omega
    omega
  · intro hstuck
    rcases h with ⟨p₀, ps, h⟩ | h
    · exact .inr (h.finished fun p hp => exited_of_stuck hstuck hp)
    · obtain ⟨q, hq, -, hpc⟩ := h.alone
      obtain ⟨status, hst⟩ := exited_of_stuck hstuck (p := q) (by simp [hq])
      refine .inl ⟨q, hq, hpc.resolve_left ?_⟩
      simp [hst]

/-- `busyloop_rtfork 0 1 2` with its output in a file, and one child. -/
theorem rtfork_processes_two : ∃ s,
    (rtFork false 0 ["busyloop_rtfork", "0", "1", "2"]).Reachable init s ∧
      s.stdout = "CPU bind: 0\nSet Sched:RR\nCPU bind: 0\nSet Sched:RR\n".toList := by
  have hrun : ∃ s, (rtFork false 0 ["busyloop_rtfork", "0", "1", "2"]).run init
      [(0, false), (0, false), (0, false), (0, false), (0, false), (1, false), (0, false),
        (1, false), (0, false), (0, false)] = some s ∧ s.processes.length = 2 ∧
      s.processes.map Process.pc = [.exited EXIT_SUCCESS, .exited EXIT_SUCCESS] :=
    ⟨_, rfl, by decide +kernel, by decide +kernel⟩
  obtain ⟨s, hs, hlen, hpcs⟩ := hrun
  have hc : -2147483648 < atoi "2" := by decide +kernel
  have hstuck : ∀ act, (rtFork false 0 ["busyloop_rtfork", "0", "1", "2"]).next s act = none := by
    intro act
    by_contra hne
    obtain ⟨t, ht⟩ := Option.ne_none_iff_exists'.mp hne
    obtain ⟨p, e, hp, hrun, -⟩ := next_eq_some.mp ht
    have hpc : p.pc = .exited EXIT_SUCCESS := by
      have hmem := List.mem_map_of_mem (f := Process.pc) (List.mem_of_getElem? hp)
      rw [hpcs] at hmem
      simpa using hmem
    simp [Process.run, hpc] at hrun
  obtain ⟨p, hp, -⟩ | ⟨-, -, hout⟩ :=
    (rtfork_processes "busyloop_rtfork" "0" "1" hc hs).2.2.2 hstuck
  · simp [hp] at hlen
  · refine ⟨s, ⟨_, hs⟩, ?_⟩
    have hzero : atoi "0" = 0 := by decide +kernel
    rw [hout, hlen, hzero]
    decide +kernel

end Cse522.Studio09.RtFork

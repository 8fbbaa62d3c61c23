import Cse522.Studio07.TreeSteps

/-!
# The family is a complete binary tree

The count of the processes and of those to come is the same in every state, and each process has
the children it has forked so far, of the level below its own. So, when nothing is to come any
more, the family is the complete tree.
-/
namespace Cse522.Studio07.Tree

open Cse522.Clib Cse522.Clib.Stdlib Cse522.Clib.Stdio Cse522.Interleave

variable {n i k : Nat} {p q : Process} {e : Effect}

/-! ## The family -/

structure Member where
  parent : Option Nat
  pid : Int
  level : Nat

def Process.member (p : Process) : Member := ⟨p.parent, p.pid, p.level⟩

/-- The members below `i` are of the level below `k`, and have the pids. -/
def Below (ms : List Member) (i k : Nat) (pids : List Int) : Prop :=
  List.Forall₂ (fun j pid => ∃ m, ms[j]? = some m ∧ m.pid = pid ∧ m.level + 1 = k)
    (Forest.children (ms.map Member.parent) i) pids

variable {ms : List Member} {m : Member} {pids : List Int}

theorem below_nil (h : ∀ m ∈ ms, m.parent ≠ some i) : Below ms i k [] := by
  have hnone : Forest.children (ms.map Member.parent) i = [] := by
    apply Forest.children_eq_nil
    intro o ho
    obtain ⟨m, hm, rfl⟩ := List.mem_map.mp ho
    exact h m hm
  rw [Below, hnone]
  exact .nil

theorem forall_concat {js : List Nat} (h : List.Forall₂ (fun j pid => ∃ m, ms[j]? = some m ∧
    m.pid = pid ∧ m.level + 1 = k) js pids) : List.Forall₂ (fun j pid => ∃ q, (ms ++ [m])[j]? =
    some q ∧ q.pid = pid ∧ q.level + 1 = k) js pids := by
  apply h.imp
  rintro j pid ⟨q, hq, hlink⟩
  exact ⟨q, (List.getElem?_append_left (List.getElem?_eq_some_iff.mp hq).1).trans hq, hlink⟩

theorem Below.concat_other (h : Below ms i k pids) (hm : m.parent ≠ some i) :
    Below (ms ++ [m]) i k pids := by
  rw [Below, List.map_append, List.map_singleton, Forest.children_concat, if_neg hm,
    List.append_nil]
  exact forall_concat h

theorem Below.concat_child (h : Below ms i k pids) (hm : m.parent = some i)
    (hlevel : m.level + 1 = k) : Below (ms ++ [m]) i k (pids ++ [m.pid]) := by
  rw [Below, List.map_append, List.map_singleton, Forest.children_concat, if_pos hm,
    List.length_map]
  refine List.rel_append (forall_concat h) (.cons ⟨m, ?_, rfl, hlevel⟩ .nil)
  exact List.getElem?_concat_length

def State.members (s : State) : List Member := s.processes.map Process.member

variable {s t : State} {j : Nat}

theorem parents_eq (s : State) : s.parents = s.members.map Member.parent := by
  rw [State.members, List.map_map]
  rfl

theorem length_members (s : State) : s.members.length = s.processes.length := List.length_map _

theorem exists_of_member (hm : s.members[j]? = some m) :
    ∃ q, s.processes[j]? = some q ∧ q.member = m := by
  rw [State.members, List.getElem?_map] at hm
  exact Option.map_eq_some_iff.mp hm

/-- What holds between the processes in every state. -/
structure Grown (n : Nat) (s : State) : Prop where
  stands : ∀ p ∈ s.processes, ∃ k ≤ n, p.At k ∧ (p.started = [] → k < n)
  count : s.processes.length + (s.processes.map Process.pending).sum = 2 ^ (n + 1) - 1
  root : ∃ m, s.members[0]? = some m ∧ m.parent = none ∧ m.level = n
  parents : ∀ j m, s.members[j]? = some m → 0 < j → ∃ i < j, m.parent = some i
  below : ∀ i p, s.processes[i]? = some p → Below s.members i p.level p.recorded
  lines : ∀ i p, s.processes[i]? = some p → s.writtenBy i ++ p.buffer = p.printed
  writers : ∀ w ∈ s.stdout, w.1 < s.processes.length

/-- No process is the child of one that is not there yet. -/
theorem Grown.parent_ne (h : Grown n s) (hm : m ∈ s.members) :
    m.parent ≠ some s.processes.length := by
  obtain ⟨j, hj⟩ := List.mem_iff_getElem?.mp hm
  have hlt : j < s.processes.length := by
    rw [← length_members]
    exact (List.getElem?_eq_some_iff.mp hj).1
  rcases Nat.eq_zero_or_pos j with rfl | hpos
  · obtain ⟨r, hr, hnone, -⟩ := h.root
    obtain rfl : m = r := Option.some.inj (hj.symm.trans hr)
    simp [hnone]
  · obtain ⟨i, hi, hparent⟩ := h.parents j m hj hpos
    simp only [hparent, ne_eq, Option.some.injEq]
    omega

theorem sum_map_set {α : Type} {l : List α} {i : Nat} {x y : α} (f : α → Nat)
    (h : l[i]? = some x) : ((l.set i y).map f).sum + f x = (l.map f).sum + f y := by
  induction l generalizing i with
  | nil => simp at h
  | cons z l ih =>
      cases i with
      | zero =>
          obtain rfl : z = x := by simpa using h
          simp only [List.set_cons_zero, List.map_cons, List.sum_cons]
          omega
      | succ i =>
          have hrest := ih (by simpa using h)
          simp only [List.set_cons_succ, List.map_cons, List.sum_cons]
          omega

/-- What is summed over the processes changes by what it changes for the one, and for its
child. -/
theorem sum_after (f : Process → Nat) (hp : s.processes[i]? = some p) :
    ((s.after i e).processes.map f).sum + f p =
      (s.processes.map f).sum + f e.process + (e.child.toList.map f).sum := by
  have hset := sum_map_set (y := e.process) f hp
  simp only [State.after, List.map_append, List.sum_append]
  omega

theorem after_cases (h : (s.after i e).processes[j]? = some q) :
    j = i ∧ q = e.process ∨ j ≠ i ∧ s.processes[j]? = some q ∨
      j = s.processes.length ∧ e.child = some q := by
  rcases Nat.lt_or_ge j s.processes.length with hlt | hge
  · rw [State.after, List.getElem?_append_left (by simpa using hlt)] at h
    by_cases hji : j = i
    · subst hji
      rw [List.getElem?_set_self hlt] at h
      exact .inl ⟨rfl, (Option.some.inj h).symm⟩
    · rw [List.getElem?_set_ne (Ne.symm hji)] at h
      exact .inr (.inl ⟨hji, h⟩)
  · rw [State.after, List.getElem?_append_right (by simpa using hge), List.length_set] at h
    cases hc : e.child with
    | none => simp [hc] at h
    | some c =>
        rw [hc, Option.toList_some, List.getElem?_singleton] at h
        obtain ⟨hzero, h⟩ := Option.ite_none_right_eq_some.mp h
        exact .inr (.inr ⟨by omega, h⟩)

theorem members_after (hp : s.processes[i]? = some p) (h : Keeps i k p e) (hat : p.At k) :
    (s.after i e).members = s.members ++ e.child.toList.map Process.member := by
  have hmember : e.process.member = p.member := by
    rw [Process.member, h.parent, h.pid, h.stands.level_eq, ← hat.level_eq]
    rfl
  obtain ⟨hi, rfl⟩ := List.getElem?_eq_some_iff.mp hp
  rw [State.members, State.after, List.map_append, List.map_set, hmember,
    ← List.getElem_map Process.member (h := by simpa using hi), List.set_getElem_self]
  rfl

theorem writtenBy_after_self : (s.after i e).writtenBy i = s.writtenBy i ++ e.written := by
  simp [State.writtenBy, State.after, List.filter_map, Function.comp_def]

theorem writtenBy_after_ne (h : j ≠ i) : (s.after i e).writtenBy j = s.writtenBy j := by
  simp [State.writtenBy, State.after, List.filter_map, Function.comp_def, Ne.symm h]

theorem getElem?_members (hp : s.processes[i]? = some p) : s.members[i]? = some p.member := by
  rw [State.members, List.getElem?_map, hp, Option.map_some]

/-- The new members are the child, if there is one. -/
theorem below_after (h : Grown n s) (hp : s.processes[i]? = some p) (hk : Keeps i k p e)
    (hat : p.At k) (hq : (s.after i e).processes[j]? = some q) :
    Below (s.after i e).members j q.level q.recorded := by
  rw [members_after hp hk hat]
  have hrecorded := hk.recorded
  cases hc : e.child with
  | none =>
      rw [hc] at hrecorded
      simp only [Option.toList_none, List.map_nil, List.append_nil] at hrecorded ⊢
      rcases after_cases hq with ⟨rfl, rfl⟩ | ⟨-, hq⟩ | ⟨-, hnone⟩
      · rw [hrecorded, hk.stands.level_eq, ← hat.level_eq]
        exact h.below j p hp
      · exact h.below j q hq
      · rw [hc] at hnone
        cases hnone
  | some c =>
      obtain ⟨hparent, hnone, -, -, l, hl, hlevel⟩ := hk.child c (by rw [hc]; rfl)
      have hi := (List.getElem?_eq_some_iff.mp hp).1
      rw [hc] at hrecorded
      simp only [Option.toList_some, List.map_cons, List.map_nil] at hrecorded ⊢
      rcases after_cases hq with ⟨rfl, rfl⟩ | ⟨hne, hq⟩ | ⟨rfl, hc'⟩
      · rw [hrecorded, hk.stands.level_eq]
        refine Below.concat_child (m := c.member) ?_ hparent ?_
        · rw [← hat.level_eq]
          exact h.below j p hp
        · rw [Process.member, hl.level_eq, hlevel]
      · refine Below.concat_other (h.below j q hq) ?_
        rw [Process.member, hparent, ne_eq, Option.some.injEq]
        exact Ne.symm hne
      · obtain rfl := Option.some.inj (hc.symm.trans hc')
        rw [hnone]
        refine Below.concat_other (below_nil fun m hm => h.parent_ne hm) ?_
        rw [Process.member, hparent, ne_eq, Option.some.injEq]
        omega

theorem lines_after (h : Grown n s) (hp : s.processes[i]? = some p) (hk : Keeps i k p e)
    (hq : (s.after i e).processes[j]? = some q) :
    (s.after i e).writtenBy j ++ q.buffer = q.printed := by
  rcases after_cases hq with ⟨rfl, rfl⟩ | ⟨hne, hq⟩ | ⟨rfl, hc⟩
  · obtain ⟨lines, hwritten, hprinted⟩ := hk.lines
    rw [writtenBy_after_self, List.append_assoc, hwritten, ← List.append_assoc, h.lines j p hp,
      hprinted]
  · rw [writtenBy_after_ne hne, h.lines j q hq]
  · obtain ⟨-, -, hprinted, hbuffer, -⟩ := hk.child q hc
    have hi := (List.getElem?_eq_some_iff.mp hp).1
    have hnothing : s.writtenBy s.processes.length = [] := by
      rw [State.writtenBy, List.map_eq_nil_iff, List.filter_eq_nil_iff]
      intro w hw
      have hlt := h.writers w hw
      simp only [decide_eq_true_eq]
      omega
    rw [writtenBy_after_ne (by omega), hnothing, hprinted, hbuffer, List.append_nil]

theorem grown_after (h : Grown n s) (hp : s.processes[i]? = some p) (hkn : k ≤ n)
    (hcopy : p.started = [] → k < n) (hk : Keeps i k p e) (hat : p.At k) :
    Grown n (s.after i e) where
  stands q hq := by
    obtain ⟨j, hq⟩ := List.mem_iff_getElem?.mp hq
    rcases after_cases hq with ⟨rfl, rfl⟩ | ⟨-, hq⟩ | ⟨-, hc⟩
    · exact ⟨k, hkn, hk.stands, fun hnone => hcopy (hk.started hnone)⟩
    · exact h.stands q (List.mem_of_getElem? hq)
    · obtain ⟨-, -, -, -, l, hl, hlevel⟩ := hk.child q hc
      exact ⟨l, by omega, hl, fun _ => by omega⟩
  count := by
    have hsum := sum_after Process.pending (e := e) hp
    have hpending := hk.pending hat
    have hcount := h.count
    cases hc : e.child with
    | none =>
        simp only [hc, Option.toList_none, List.map_nil, List.sum_nil] at hsum hpending
        simp only [State.after, hc, Option.toList_none, List.append_nil, List.length_set] at hsum ⊢
        omega
    | some c =>
        simp only [hc, Option.toList_some, List.map_cons, List.map_nil, List.sum_singleton]
          at hsum hpending
        simp only [State.after, hc, Option.toList_some, List.length_append, List.length_set,
          List.length_singleton] at hsum ⊢
        omega
  root := by
    obtain ⟨m, hm, hroot⟩ := h.root
    refine ⟨m, ?_, hroot⟩
    rw [members_after hp hk hat, List.getElem?_append_left (List.getElem?_eq_some_iff.mp hm).1, hm]
  parents j m hm hpos := by
    obtain ⟨q, hq, rfl⟩ := exists_of_member hm
    rcases after_cases hq with ⟨rfl, rfl⟩ | ⟨-, hq⟩ | ⟨rfl, hc⟩
    · obtain ⟨l, hl, hparent⟩ := h.parents j _ (getElem?_members hp) hpos
      exact ⟨l, hl, hk.parent.trans hparent⟩
    · exact h.parents j _ (getElem?_members hq) hpos
    · exact ⟨i, (List.getElem?_eq_some_iff.mp hp).1, (hk.child q hc).1⟩
  below j q hq := below_after h hp hk hat hq
  lines j q hq := lines_after h hp hk hq
  writers w hw := by
    have hi := (List.getElem?_eq_some_iff.mp hp).1
    simp only [State.after, List.length_append, List.length_set]
    rcases List.mem_append.mp hw with hw | hw
    · have hlt := h.writers w hw
      omega
    · obtain ⟨line, -, rfl⟩ := List.mem_map.mp hw
      exact Nat.lt_add_right _ hi

/-! ## Runs -/

/-- A number of four digits is less than ten thousand. -/
theorem le_of_fits {n : Nat} (h : ∀ k < n, (decimal k).length < 5) : n ≤ 10000 := by
  rcases Nat.eq_zero_or_pos n with rfl | hpos
  · exact Nat.zero_le _
  · have hlen := h (n - 1) (by omega)
    rw [decimal, if_neg (by omega), Nat.lt_succ_iff,
      Nat.length_toDigits_le_iff (by decide) (by decide)] at hlen
    omega

def State.work (s : State) : Nat := (s.processes.map Process.work).sum

variable {a : Act}

theorem next_cases (h : next s a = some t) : ∃ p e, s.processes[a.process]? = some p ∧
    effect a.process p a.call = some e ∧ s.after a.process e = t := by
  obtain ⟨p, hp, h⟩ := Option.bind_eq_some_iff.mp h
  obtain ⟨e, he, h⟩ := Option.map_eq_some_iff.mp h
  exact ⟨p, e, hp, he, h⟩

theorem grown_step (hn : n ≤ 10000) (h : Grown n s) (hnext : tree.next s a = some t)
    (hok : a.Succeeds) : Grown n t ∧ t.work < s.work := by
  obtain ⟨p, e, hp, he, rfl⟩ := next_cases hnext
  obtain ⟨k, hkn, hat, hcopy⟩ := h.stands p (List.mem_of_getElem? hp)
  have hk := keeps_of_effect (Nat.le_trans hkn hn) hat hok he
  refine ⟨grown_after h hp hkn hcopy hk hat, ?_⟩
  have hsum := sum_after Process.work (e := e) hp
  have hless := hk.work hat
  simp only [State.work]
  omega

/-- A process that has just been started is a family. -/
theorem grown_single (hpc : p.pc = .main) (hat : p.At n) (hparent : p.parent = none) :
    Grown n ⟨[p], []⟩ := by
  have hrecorded : p.recorded = [] := by rw [Process.recorded, hpc]
  have hprinted : p.printed = [] := by rw [Process.printed, hpc]
  obtain ⟨hbuffer, hstarted, -⟩ : p.buffer = [] ∧ p.started = [(n : Int)] ∧
      ∃ tree, p.argv = [tree, text n] := by rwa [Process.At, hpc] at hat
  have honly : ∀ {i q}, [p][i]? = some q → i = 0 ∧ q = p := by
    intro i q h
    rw [List.getElem?_singleton] at h
    obtain ⟨hi, h⟩ := Option.ite_none_right_eq_some.mp h
    exact ⟨hi, (Option.some.inj h).symm⟩
  refine ⟨?_, ?_, ⟨p.member, rfl, hparent, hat.level_eq⟩, ?_, ?_, ?_, ?_⟩
  · intro q hq
    obtain rfl := List.mem_singleton.mp hq
    exact ⟨n, Nat.le_refl n, hat, fun h => by rw [hstarted] at h; cases h⟩
  · have hpos : 0 < 2 ^ n := Nat.two_pow_pos n
    have hdouble : 2 ^ (n + 1) = 2 * 2 ^ n := Nat.pow_succ'
    simp only [List.length_singleton, List.map_cons, List.map_nil, List.sum_singleton,
      Process.pending, hat.level_eq, hrecorded, List.length_nil]
    omega
  · intro j m hm hpos
    have hlt := (List.getElem?_eq_some_iff.mp hm).1
    rw [length_members, List.length_singleton] at hlt
    omega
  · intro i q hq
    obtain ⟨rfl, rfl⟩ := honly hq
    rw [hrecorded]
    apply below_nil
    intro m hm
    obtain rfl := List.mem_singleton.mp hm
    simp [Process.member, hparent]
  · intro i q hq
    obtain ⟨rfl, rfl⟩ := honly hq
    rw [hprinted, hbuffer]
    rfl
  · intro w hw
    cases hw

theorem at_root (hn : n ≤ 10000) (pid : Int) : (root pid n).At n := by
  have hstarted : ([] : List Int) ++ [atoi (text n)] = [(n : Int)] := by
    rw [atoi_text hn, List.nil_append]
  exact ⟨rfl, hstarted, "tree", rfl⟩

theorem grown_init (hn : n ≤ 10000) (pid : Int) : Grown n (init pid n) :=
  grown_single rfl (at_root hn pid) rfl

theorem work_init (hn : n ≤ 10000) (pid : Int) : (init pid n).work ≤ 12 * 2 ^ (n + 1) := by
  have hpending : (root pid n).pending = 2 * (2 ^ n - 1) := by
    rw [Process.pending, (at_root hn pid).level_eq]
    rfl
  have hwork : (init pid n).work = 12 * (root pid n).pending + (root pid n).weight := by
    rw [State.work, init, List.map_singleton, List.sum_singleton, Process.work]
    exact Nat.add_zero _
  have hweight : (root pid n).weight = 8 := rfl
  have hdouble : 2 ^ (n + 1) = 2 * 2 ^ n := Nat.pow_succ'
  have hpos : 0 < 2 ^ n := Nat.two_pow_pos n
  omega

/-- A process that has not ended can go on. -/
theorem exists_effect (hfits : ∀ k < n, (decimal k).length < 5) (hat : p.At k)
    (hcopy : p.started = [] → k < n) (hended : p.ended = false) :
    ∃ call e, (call ≠ .forkFails ∧ call ≠ .execlpFails) ∧ effect i p call = some e := by
  obtain ⟨parent, pid, argv, pc, s32Level, s32pid1, s32pid2, pcLevel, buffer, started⟩ := p
  cases pc with
  | main =>
      obtain ⟨-, -, tree, rfl⟩ := hat
      exact ⟨.statement, _, ⟨nofun, nofun⟩, rfl⟩
  | fork c => exact ⟨.fork 1, _, ⟨nofun, nofun⟩, rfl⟩
  | isChild c => exact ⟨.statement, _, ⟨nofun, nofun⟩, rfl⟩
  | sprintf c =>
      obtain ⟨-, hstarted, rfl⟩ := hat
      have hlen : (decimal ((k : Int) + 1 - 1)).length < 5 := by
        rw [Int.add_sub_cancel]
        exact hfits k (hcopy hstarted)
      exact ⟨.statement, _, ⟨nofun, nofun⟩, congrArg (Option.map _) (if_pos hlen)⟩
  | execlp c => exact ⟨.execlp, _, ⟨nofun, nofun⟩, rfl⟩
  | report => exact ⟨.statement, _, ⟨nofun, nofun⟩, rfl⟩
  | sleep => exact ⟨.statement, _, ⟨nofun, nofun⟩, rfl⟩
  | exit status =>
      have hbuffer : buffer ≠ [] := by
        rintro rfl
        cases hended
      exact ⟨.flush, _, ⟨nofun, nofun⟩, if_neg hbuffer⟩

theorem exists_next (hfits : ∀ k < n, (decimal k).length < 5) (h : Grown n s)
    (hended : ¬ s.Finished) : ∃ a t, a.Succeeds ∧ tree.next s a = some t := by
  simp only [State.Finished, not_forall, Bool.not_eq_true] at hended
  obtain ⟨p, hp, hended⟩ := hended
  obtain ⟨k, -, hat, hcopy⟩ := h.stands p hp
  obtain ⟨i, hi⟩ := List.mem_iff_getElem?.mp hp
  obtain ⟨call, e, hok, he⟩ := exists_effect (i := i) hfits hat hcopy hended
  refine ⟨⟨i, call⟩, s.after i e, hok, ?_⟩
  simp only [tree, next, hi, Option.bind_some, he, Option.map_some]

/-! ## The end -/

theorem Process.At.alone (h : p.At k) (hpc : (∃ c, p.pc = .fork c) ∨ p.pc = .report) :
    p.started = [p.s32Level] := by
  unfold Process.At at h
  rcases hpc with ⟨c, hpc⟩ | hpc
  · rw [hpc] at h
    obtain ⟨-, hstarted, hlevel, -⟩ := h
    rw [hstarted, hlevel]
  · rw [hpc] at h
    obtain ⟨-, hstarted, hlevel⟩ := h
    rw [hstarted, hlevel]

structure Done (k : Nat) (p : Process) : Prop where
  started : p.started = [(k : Int)]
  level : p.level = k
  buffer : p.buffer = []
  recorded : p.recorded = if k = 0 then [] else [p.s32pid1, p.s32pid2]
  printed : p.printed = [if k = 0 then .noChildren 0 p.pid else
    .children k p.pid p.s32pid1 p.s32pid2]

theorem done_of_ended (h : p.At k) (hended : p.ended = true) : Done k p := by
  have hlevel := h.level_eq
  unfold Process.At at h
  unfold Process.ended at hended
  cases hpc : p.pc with
  | exit status =>
      rw [hpc] at h hended
      obtain ⟨hstarted, hs32, -⟩ := h
      refine ⟨hstarted, hlevel, List.isEmpty_iff.mp hended, ?_, ?_⟩
      · rw [Process.recorded, hpc]
        simp only [hlevel]
      · rw [Process.printed, hpc]
        rcases Nat.eq_zero_or_pos k with rfl | hpos
        · simp [Process.line, hs32]
        · simp [Process.line, hs32, hpos, Nat.ne_of_gt hpos]
  | main | fork | isChild | sprintf | execlp | report | sleep =>
      rw [hpc] at hended
      cases hended

theorem Done.pending (h : Done k p) : p.pending = 0 := by
  rw [Process.pending, h.recorded, h.level]
  rcases Nat.eq_zero_or_pos k with rfl | hpos
  · rfl
  · rw [if_neg (Nat.ne_of_gt hpos)]
    simp

theorem Grown.done (h : Grown n s) (hf : s.Finished) (hp : p ∈ s.processes) : ∃ k, Done k p := by
  obtain ⟨k, -, hat, -⟩ := h.stands p hp
  exact ⟨k, done_of_ended hat (hf p hp)⟩

/-- A member of the family is a process that has ended. -/
theorem Grown.done_of_member (h : Grown n s) (hf : s.Finished) (hm : s.members[j]? = some m) :
    ∃ q, s.processes[j]? = some q ∧ q.pid = m.pid ∧ q.started = [(m.level : Int)] := by
  obtain ⟨q, hq, rfl⟩ := exists_of_member hm
  obtain ⟨k, hdone⟩ := h.done hf (List.mem_of_getElem? hq)
  refine ⟨q, hq, rfl, ?_⟩
  rw [hdone.started, Process.member, hdone.level]

theorem settled_of_finished (h : Grown n s) (hf : s.Finished) (hp : s.processes[i]? = some p) :
    s.Settled i p := by
  obtain ⟨k, hdone⟩ := h.done hf (List.mem_of_getElem? hp)
  have hbelow := h.below i p hp
  have hlines := h.lines i p hp
  rw [Below, ← parents_eq, hdone.recorded, hdone.level] at hbelow
  rw [hdone.buffer, List.append_nil, hdone.printed] at hlines
  cases k with
  | zero =>
      exact .inl ⟨hdone.started, List.forall₂_nil_right_iff.mp hbelow, hlines⟩
  | succ k =>
      right
      rw [if_neg (Nat.succ_ne_zero k)] at hbelow hlines
      obtain ⟨j, js, ⟨m, hm, hpid, hlevel⟩, hsecond, hjs⟩ := List.forall₂_cons_right_iff.mp hbelow
      obtain ⟨j', js', ⟨m', hm', hpid', hlevel'⟩, hrest, rfl⟩ :=
        List.forall₂_cons_right_iff.mp hsecond
      obtain rfl := List.forall₂_nil_right_iff.mp hrest
      obtain ⟨q, hq, hqpid, hqs⟩ := h.done_of_member hf hm
      obtain ⟨q', hq', hqpid', hqs'⟩ := h.done_of_member hf hm'
      obtain rfl : m.level = k := by omega
      rw [Nat.add_right_cancel hlevel'] at hqs'
      refine ⟨_, j, j', q, q', hdone.started, hjs, hq, hq', hqs, hqs', ?_⟩
      rw [hlines, hqpid, hqpid', hpid, hpid']
      rfl

/-- In the end the parents are those of the complete tree. -/
theorem complete_tree (h : Grown n s) (hf : s.Finished) : Forest.Complete s.parents n 0 := by
  let level (i : Nat) : Nat := (s.processes[i]?.map Process.level).getD 0
  have hlevel : ∀ {i p}, s.processes[i]? = some p → level i = p.level := fun hp => by
    simp [level, hp]
  have hsettled : ∀ i < s.parents.length, ∃ p, s.processes[i]? = some p ∧ s.Settled i p := by
    intro i hi
    rw [State.parents, List.length_map] at hi
    have hp := List.getElem?_eq_getElem hi
    exact ⟨_, hp, settled_of_finished h hf hp⟩
  obtain ⟨m, hm, -, hroot⟩ := h.root
  obtain ⟨p, hp, rfl⟩ := exists_of_member hm
  have hzero : level 0 = n := (hlevel hp).trans hroot
  rw [← hzero]
  apply Forest.complete_of_levels
  · intro i hi hk
    obtain ⟨p, hp, ⟨-, hnone, -⟩ | ⟨k, _, _, _, _, hstarted, -⟩⟩ := hsettled i hi
    · exact hnone
    · rw [hlevel hp, Process.level_of_started (k := k + 1) hstarted] at hk
      cases hk
  · intro i hi hk
    obtain ⟨p, hp, ⟨hstarted, -⟩ | ⟨k, j, j', q, q', hstarted, hchildren, hq, hq', hqs, hqs', -⟩⟩ :=
      hsettled i hi
    · exact absurd ((hlevel hp).trans (Process.level_of_started (k := 0) hstarted)) hk
    · refine ⟨j, j', hchildren, ?_⟩
      rw [hlevel hp, hlevel hq, hlevel hq', Process.level_of_started (k := k + 1) hstarted,
        Process.level_of_started hqs, Process.level_of_started hqs']
      exact ⟨rfl, rfl⟩
  · rw [State.parents, List.length_map]
    exact (List.getElem?_eq_some_iff.mp hp).1

theorem complete_of_finished (h : Grown n s) (hf : s.Finished) : s.Complete n := by
  have hsize : s.processes.length = 2 ^ (n + 1) - 1 := by
    have hnone : (s.processes.map Process.pending).sum = 0 := by
      rw [List.sum_eq_zero_iff_forall_eq_nat]
      intro x hx
      obtain ⟨p, hp, rfl⟩ := List.mem_map.mp hx
      obtain ⟨k, hdone⟩ := h.done hf hp
      exact hdone.pending
    have hcount := h.count
    omega
  obtain ⟨m, hm, hparent, hlevel⟩ := h.root
  refine ⟨hsize, ?_, ?_, fun i p hp => settled_of_finished h hf hp⟩
  · obtain ⟨p, hp, rfl⟩ := exists_of_member hm
    obtain ⟨k, hdone⟩ := h.done hf (List.mem_of_getElem? hp)
    refine ⟨p, hp, hparent, ?_⟩
    rw [hdone.started, ← hlevel, Process.member, hdone.level]
  · exact complete_tree h hf

/-- `fork` and `execlp` do not fail. Then `tree n` comes to an end, which is the complete tree,
and on the way only the processes that have been started fork and print. -/
theorem tree_complete (n : Nat) (pid : Int) (hfits : ∀ k < n, (decimal k).length < 5)
    {as : List Act} (hok : ∀ a ∈ as, a.Succeeds) (hr : tree.run (init pid n) as = some t) :
    as.length ≤ 12 * 2 ^ (n + 1) ∧ t.Alone ∧
      (¬ t.Finished → ∃ a u, a.Succeeds ∧ tree.next t a = some u) ∧
      (t.Finished → t.Complete n) := by
  have hn := le_of_fits hfits
  have halong : tree.Along (fun _ a _ => a.Succeeds) (init pid n) as := Machine.along_of_forall hok
  have hgrown : Grown n t :=
    halong.invariant (fun h hnext hok => (grown_step hn h hnext hok).1) (grown_init hn pid) hr
  have hlength : as.length + t.work ≤ (init pid n).work :=
    halong.length_le (fun h hnext hok => grown_step hn h hnext hok) (grown_init hn pid) hr
  have hbound := work_init hn pid
  refine ⟨by omega, ?_, exists_next hfits hgrown, complete_of_finished hgrown⟩
  intro p hp hpc
  obtain ⟨k, -, hat, -⟩ := hgrown.stands p hp
  exact hat.alone hpc

/-- The root and its two children, one after the other. -/
def oneLevel : List Act :=
  [⟨0, .statement⟩, ⟨0, .fork 8⟩, ⟨0, .statement⟩, ⟨0, .fork 9⟩, ⟨0, .statement⟩,
    ⟨1, .statement⟩, ⟨1, .statement⟩, ⟨1, .execlp⟩, ⟨1, .statement⟩, ⟨1, .statement⟩,
    ⟨1, .statement⟩, ⟨1, .flush⟩, ⟨0, .statement⟩, ⟨0, .flush⟩, ⟨0, .statement⟩,
    ⟨2, .statement⟩, ⟨2, .statement⟩, ⟨2, .execlp⟩, ⟨2, .statement⟩, ⟨2, .statement⟩,
    ⟨2, .statement⟩, ⟨2, .flush⟩]

theorem tree_complete_one : ∃ t, tree.run (init 7 1) oneLevel = some t ∧ t.Complete 1 := by
  have hended : ((tree.run (init 7 1) oneLevel).map fun t => t.processes.all Process.ended) =
      some true := by decide
  obtain ⟨t, ht, hfinished⟩ := Option.map_eq_some_iff.mp hended
  refine ⟨t, ht, (tree_complete 1 7 (by decide) (by decide) ht).2.2.2 ?_⟩
  exact List.all_eq_true.mp hfinished

end Cse522.Studio07.Tree

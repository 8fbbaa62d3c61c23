import Cse522.Studio13.PipeTst

/-!
# Every run prints the messages and ends

The descriptors that are open are those of the two positions, so the parent meets the end of
the file behind the last message and not before, and the child always has a reader. What has
been printed, what is in the hand of the parent, what is in the pipe and what is still to be
written make up the messages.
-/
namespace Cse522.Studio13.PipeTst

open Cse522.Interleave

variable {capacity : Nat} {messages : List (List Char)} {s t : State} {a : Act}

/-- The read ends that the parent has open. -/
def Parent.readEnd : Parent → Nat
  | .fork | .closeWrite | .read | .write _ | .closeRead => 1
  | .pipe | .perror | .exited _ => 0

def Parent.writeEnd : Parent → Nat
  | .fork | .closeWrite => 1
  | .pipe | .read | .write _ | .closeRead | .perror | .exited _ => 0

def Child.readEnd : Child → Nat
  | .closeRead => 1
  | .absent | .write _ | .returned | .killed => 0

def Child.writeEnd : Child → Nat
  | .closeRead | .write _ => 1
  | .absent | .returned | .killed => 0

/-- What the parent has read and not printed. -/
def Parent.inHand : Parent → List Char
  | .write cbuf => [cbuf]
  | _ => []

def Child.unsent (messages : List (List Char)) : Child → List Char
  | .closeRead => messages.flatten
  | .write todo => todo.flatten
  | .absent | .returned | .killed => []

/-- What the child is there to send. -/
def Child.text (messages : List (List Char)) : Child → List Char
  | .absent => []
  | _ => messages.flatten

/-- In front of the branch on the result of `fork`, or never to come there. -/
def Parent.Early : Parent → Prop
  | .pipe | .fork | .perror => True
  | .exited status => status ≠ EXIT_SUCCESS
  | _ => False

/-- Behind the end of the file. -/
def Parent.Late : Parent → Prop
  | .closeRead => True
  | .exited status => status = EXIT_SUCCESS
  | _ => False

structure Inv (messages : List (List Char)) (s : State) : Prop where
  readers : s.pipefd.readers = s.parent.readEnd + s.child.readEnd
  writers : s.pipefd.writers = s.parent.writeEnd + s.child.writeEnd
  flow : s.stdout ++ s.parent.inHand ++ s.pipefd.held ++ s.child.unsent messages =
    s.child.text messages
  todo : ∀ todo, s.child = .write todo → ∀ acMsg ∈ todo, acMsg ∈ messages
  alive : s.child ≠ .killed
  early : s.parent.Early → s.child = .absent
  late : s.parent.Late → s.pipefd.held = [] ∧ s.child.writeEnd = 0

theorem inv_init (messages : List (List Char)) : Inv messages init where
  readers := rfl
  writers := rfl
  flow := rfl
  todo := by simp [init]
  alive := by simp [init]
  early := fun _ => rfl
  late := by simp [init, Parent.Late]

theorem inv_parent (h : Inv messages s) (hn : parentStep s = some t) : Inv messages t := by
  obtain ⟨hreaders, hwriters, hflow, htodo, halive, hearly, hlate⟩ := h
  unfold parentStep at hn
  cases hp : s.parent <;> simp only [hp, Option.some.injEq] at hn
  all_goals
    simp only [hp, Parent.readEnd, Parent.writeEnd, Parent.inHand] at hreaders hwriters hflow
  case pipe =>
      subst hn
      have habsent : s.child = .absent := hearly (by rw [hp]; trivial)
      rw [habsent] at hflow
      have hempty : s.stdout = [] ∧ s.pipefd.held = [] := by
        simpa [Child.unsent, Child.text] using hflow
      exact ⟨by simp [habsent, Parent.readEnd, Child.readEnd],
        by simp [habsent, Parent.writeEnd, Child.writeEnd],
        by simp [habsent, hempty.1, Parent.inHand, Child.unsent, Child.text],
        htodo, halive, fun _ => habsent, by simp [Parent.Late]⟩
  case fork =>
      subst hn
      have habsent : s.child = .absent := hearly (by rw [hp]; trivial)
      rw [habsent] at hreaders hwriters hflow
      have hempty : s.stdout = [] ∧ s.pipefd.held = [] := by
        simpa [Child.unsent, Child.text] using hflow
      exact ⟨by simp [hreaders, Parent.readEnd, Child.readEnd],
        by simp [hwriters, Parent.writeEnd, Child.writeEnd],
        by simp [hempty.1, hempty.2, Parent.inHand, Child.unsent, Child.text], by simp, by simp,
        by simp [Parent.Early], by simp [Parent.Late]⟩
  case closeWrite =>
      subst hn
      exact ⟨hreaders, by simp [hwriters, Parent.writeEnd],
        by simpa [Parent.inHand] using hflow, htodo, halive, by simp [Parent.Early],
        by simp [Parent.Late]⟩
  case read =>
      cases hread : s.pipefd.read <;> simp only [hread, Option.some.injEq, reduceCtorEq] at hn
      case eof =>
          subst hn
          obtain ⟨hheld, hzero⟩ := Pipe.read_eq_eof_iff.mp hread
          exact ⟨hreaders, hwriters, by simpa [Parent.inHand] using hflow, htodo, halive,
            by simp [Parent.Early], fun _ => ⟨hheld, by show s.child.writeEnd = 0; omega⟩⟩
      case got cbuf q =>
          subst hn
          obtain ⟨hheld, hr, hw⟩ := Pipe.read_eq_got_iff.mp hread
          exact ⟨hr.trans hreaders, hw.trans hwriters,
            by simpa [Parent.inHand, hheld] using hflow, htodo, halive, by simp [Parent.Early],
            by simp [Parent.Late]⟩
  case write cbuf =>
      subst hn
      exact ⟨hreaders, hwriters, by simpa [Parent.inHand] using hflow, htodo, halive,
        by simp [Parent.Early], by simp [Parent.Late]⟩
  case closeRead =>
      subst hn
      have hend := hlate (by rw [hp]; trivial)
      exact ⟨by simp [hreaders, Parent.readEnd], hwriters,
        by simpa [Parent.inHand] using hflow, htodo, halive,
        by simp [Parent.Early], fun _ => hend⟩
  case perror =>
      subst hn
      exact ⟨hreaders, hwriters, by simpa [Parent.inHand] using hflow, htodo, halive,
        fun _ => hearly (by rw [hp]; trivial),
        by simp [Parent.Late, EXIT_SUCCESS, EXIT_FAILURE]⟩
  case exited => cases hn

theorem inv_fail (h : Inv messages s) (hn : failStep s = some t) : Inv messages t := by
  obtain ⟨hreaders, hwriters, hflow, htodo, halive, hearly, hlate⟩ := h
  unfold failStep at hn
  cases hp : s.parent <;> simp only [hp, Option.some.injEq, reduceCtorEq] at hn
  all_goals
    subst hn
    simp only [hp, Parent.readEnd, Parent.writeEnd, Parent.inHand] at hreaders hwriters hflow
    have habsent : s.child = .absent := hearly (by rw [hp]; trivial)
  case pipe =>
      exact ⟨hreaders, hwriters, hflow, htodo, halive, fun _ => habsent, by simp [Parent.Late]⟩
  case fork =>
      exact ⟨hreaders, hwriters, hflow, htodo, halive, by simp [Parent.Early],
        by simp [Parent.Late]⟩

/-- A child that has been forked is only seen by a parent behind `fork`. -/
theorem Inv.not_early (h : Inv messages s) (hc : s.child ≠ .absent) : ¬ s.parent.Early :=
  fun he => hc (h.early he)

/-- As long as the child has its end open, the parent keeps the other one open. -/
theorem Inv.readers_pos (h : Inv messages s) {todo : List (List Char)}
    (hc : s.child = .write todo) : 0 < s.pipefd.readers := by
  have hearly := h.not_early (by rw [hc]; simp)
  have hlate : ¬ s.parent.Late := by
    intro hl
    have hend := (h.late hl).2
    rw [hc] at hend
    cases hend
  rw [h.readers]
  cases hp : s.parent <;> simp_all [Parent.Early, Parent.Late, Parent.readEnd, Child.readEnd]

theorem inv_child (h : Inv messages s) (hn : childStep capacity messages s = some t) :
    Inv messages t := by
  unfold childStep at hn
  cases hc : s.child <;> simp only [hc, Option.some.injEq, reduceCtorEq] at hn
  case closeRead =>
      have hearly := h.not_early (by simp [hc])
      obtain ⟨hreaders, hwriters, hflow, -, -, -, hlate⟩ := h
      rw [hc] at hreaders hwriters hflow hlate
      subst hn
      exact ⟨by simp [hreaders, Child.readEnd], hwriters, hflow, by simp, by simp,
        fun he => absurd he hearly, hlate⟩
  case write todo =>
      have hearly := h.not_early (by simp [hc])
      have hpos := h.readers_pos hc
      have hopen : ¬ s.parent.Late := fun hl => by simpa [hc, Child.writeEnd] using (h.late hl).2
      obtain ⟨hreaders, hwriters, hflow, htodo, -, -, -⟩ := h
      have hmem := htodo todo hc
      rw [hc] at hreaders hwriters hflow
      cases todo with
      | nil =>
          simp only [Option.some.injEq] at hn
          subst hn
          exact ⟨hreaders, by simp [hwriters, Child.writeEnd], hflow, by simp, by simp,
            fun he => absurd he hearly, fun hl => absurd hl hopen⟩
      | cons acMsg todo =>
          cases hw : s.pipefd.write capacity acMsg <;>
            simp only [hw, Option.some.injEq, reduceCtorEq] at hn
          case sigpipe =>
              have hzero := Pipe.write_eq_sigpipe_iff.mp hw
              omega
          case put q =>
              subst hn
              obtain ⟨-, -, rfl⟩ := Pipe.write_eq_put_iff.mp hw
              refine ⟨hreaders, hwriters, ?_, ?_, by simp, fun he => absurd he hearly,
                fun hl => absurd hl hopen⟩
              · simpa [Child.unsent, Child.text] using hflow
              · intro rest hrest
                cases hrest
                exact fun m hm => hmem m (List.mem_cons_of_mem acMsg hm)

theorem inv_step (h : Inv messages s) (hn : (pipeTst capacity messages).next s a = some t) :
    Inv messages t := by
  cases a with
  | parent => exact inv_parent h hn
  | fail => exact inv_fail h hn
  | child => exact inv_child h hn

/-! ## Nobody waits for ever -/

/-- Both processes have come to their ends, or there has been no child. -/
def Ended (s : State) : Prop :=
  (∃ status, s.parent = .exited status) ∧ (s.child = .absent ∨ s.child = .returned)

/-- With the pipe empty there is room for any message. -/
theorem child_moves (h : Inv messages s) (hroom : ∀ acMsg ∈ messages, acMsg.length ≤ capacity)
    (hheld : s.pipefd.held = []) (hc : 0 < s.child.writeEnd) :
    (childStep capacity messages s).isSome := by
  cases hchild : s.child with
  | closeRead => simp [childStep, hchild]
  | write todo =>
      cases todo with
      | nil => simp [childStep, hchild]
      | cons acMsg todo =>
          have hlen := hroom acMsg (h.todo _ hchild acMsg List.mem_cons_self)
          have hput : s.pipefd.write capacity acMsg =
              .put { s.pipefd with held := s.pipefd.held ++ acMsg } :=
            Pipe.write_eq_put_iff.mpr ⟨h.readers_pos hchild, by simpa [hheld] using hlen, rfl⟩
          simp [childStep, hchild, hput]
  | absent | returned | killed => simp [hchild, Child.writeEnd] at hc

theorem progress (h : Inv messages s) (hroom : ∀ acMsg ∈ messages, acMsg.length ≤ capacity)
    (hend : ¬ Ended s) :
    (parentStep s).isSome ∨ (childStep capacity messages s).isSome := by
  cases hp : s.parent with
  | pipe | fork | closeWrite | write | closeRead | perror => simp [parentStep, hp]
  | read =>
      cases hread : s.pipefd.read with
      | got cbuf q => simp [parentStep, hp, hread]
      | eof => simp [parentStep, hp, hread]
      | blocked =>
          -- the parent waits only for the child
          obtain ⟨hheld, hwriters⟩ := Pipe.read_eq_blocked_iff.mp hread
          have hsum := h.writers
          simp only [hp, Parent.writeEnd] at hsum
          exact .inr (child_moves h hroom hheld (by omega))
  | exited status =>
      have hnot : ¬ (s.child = .absent ∨ s.child = .returned) := fun hc => hend ⟨⟨_, hp⟩, hc⟩
      by_cases hstatus : status = EXIT_SUCCESS
      · have hlate := (h.late (by rw [hp]; exact hstatus)).2
        have halive := h.alive
        cases hc : s.child <;> simp_all [Child.writeEnd]
      · exact absurd (.inl (h.early (by rw [hp]; exact hstatus))) hnot

/-! ## The number of steps -/

def Parent.rank (messages : List (List Char)) : Parent → Nat
  | .pipe => messages.length + 2 * messages.flatten.length + 7
  | .fork => messages.length + 2 * messages.flatten.length + 6
  | .closeWrite => 3
  | .read => 2
  | .write _ => 3
  | .closeRead => 1
  | .perror => 1
  | .exited _ => 0

def Child.rank (messages : List (List Char)) : Child → Nat
  | .closeRead => messages.length + 2
  | .write todo => todo.length + 1
  | .absent | .returned | .killed => 0

/-- A character in the pipe or still to be written is read and printed. -/
def State.rank (messages : List (List Char)) (s : State) : Nat :=
  s.parent.rank messages + s.child.rank messages +
    2 * (s.pipefd.held.length + (s.child.unsent messages).length)

theorem rank_parent (h : Inv messages s) (hn : parentStep s = some t) :
    t.rank messages < s.rank messages := by
  unfold parentStep at hn
  cases hp : s.parent <;> simp only [hp, Option.some.injEq, reduceCtorEq] at hn
  case read =>
      cases hread : s.pipefd.read <;> simp only [hread, Option.some.injEq, reduceCtorEq] at hn
      case eof =>
          subst hn
          simp [State.rank, hp, Parent.rank]
      case got cbuf q =>
          subst hn
          obtain ⟨hheld, -, -⟩ := Pipe.read_eq_got_iff.mp hread
          simp only [State.rank, hp, Parent.rank, hheld, List.length_cons]
          omega
  case fork =>
      subst hn
      have habsent : s.child = .absent := h.early (by rw [hp]; trivial)
      simp only [State.rank, hp, habsent, Parent.rank, Child.rank, Child.unsent, List.length_nil]
      omega
  all_goals
    subst hn
    simp only [State.rank, hp, Parent.rank, Pipe.closeRead_held, Pipe.closeWrite_held,
      List.length_nil]
    omega

theorem rank_fail (hn : failStep s = some t) : t.rank messages < s.rank messages := by
  unfold failStep at hn
  cases hp : s.parent <;> simp only [hp, Option.some.injEq, reduceCtorEq] at hn
  all_goals
    subst hn
    simp only [State.rank, hp, Parent.rank]
    omega

theorem rank_child (hn : childStep capacity messages s = some t) :
    t.rank messages < s.rank messages := by
  unfold childStep at hn
  cases hc : s.child <;> simp only [hc, Option.some.injEq, reduceCtorEq] at hn
  case closeRead =>
      subst hn
      simp only [State.rank, hc, Child.rank, Child.unsent, Pipe.closeRead_held]
      omega
  case write todo =>
      cases todo with
      | nil =>
          simp only [Option.some.injEq] at hn
          subst hn
          simp [State.rank, hc, Child.rank, Child.unsent]
      | cons acMsg todo =>
          cases hw : s.pipefd.write capacity acMsg <;>
            simp only [hw, Option.some.injEq, reduceCtorEq] at hn
          case sigpipe =>
              subst hn
              simp only [State.rank, hc, Child.rank, Child.unsent, Pipe.closeWrite_held,
                List.length_nil]
              omega
          case put q =>
              subst hn
              obtain ⟨-, -, rfl⟩ := Pipe.write_eq_put_iff.mp hw
              simp only [State.rank, hc, Child.rank, Child.unsent, List.length_cons,
                List.flatten_cons, List.length_append]
              omega

theorem rank_step (h : Inv messages s) (hn : (pipeTst capacity messages).next s a = some t) :
    t.rank messages < s.rank messages := by
  cases a with
  | parent => exact rank_parent h hn
  | fail => exact rank_fail hn
  | child => exact rank_child hn

/-! ## Calls that fail -/

/-- The parent has come behind `fork` or has given up, and has no child. -/
def Childless (s : State) : Prop :=
  s.child = .absent ∧ s.parent ≠ .pipe ∧ s.parent ≠ .fork

theorem childless_step (h : Inv messages s) (hn : (pipeTst capacity messages).next s a = some t) :
    Childless t ↔ Childless s ∨ a = .fail := by
  cases a with
  | parent =>
      replace hn : parentStep s = some t := hn
      unfold parentStep at hn
      cases hp : s.parent <;> simp only [hp, Option.some.injEq, reduceCtorEq] at hn
      case read =>
          cases hread : s.pipefd.read <;> simp only [hread, Option.some.injEq, reduceCtorEq] at hn
          all_goals
            subst hn
            simp [Childless, hp]
      all_goals
        subst hn
        simp [Childless, hp]
  | fail =>
      replace hn : failStep s = some t := hn
      unfold failStep at hn
      cases hp : s.parent <;> simp only [hp, Option.some.injEq, reduceCtorEq] at hn
      all_goals
        subst hn
        have habsent : s.child = .absent := h.early (by rw [hp]; trivial)
        simp [Childless, habsent]
  | child =>
      replace hn : childStep capacity messages s = some t := hn
      unfold childStep at hn
      cases hc : s.child <;> simp only [hc, Option.some.injEq, reduceCtorEq] at hn
      case closeRead =>
          subst hn
          simp [Childless, hc]
      case write todo =>
          cases todo with
          | nil =>
              simp only [Option.some.injEq] at hn
              subst hn
              simp [Childless, hc]
          | cons acMsg todo =>
              cases hw : s.pipefd.write capacity acMsg <;>
                simp only [hw, Option.some.injEq, reduceCtorEq] at hn
              all_goals
                subst hn
                simp [Childless, hc]

/-- There is no child behind `fork` exactly if a call of the parent has failed. -/
theorem childless_iff {as : List Act} (hr : (pipeTst capacity messages).run init as = some s) :
    Childless s ↔ .fail ∈ as := by
  have hstep : ∀ {bs s a t}, Inv messages s ∧ (Childless s ↔ .fail ∈ bs) →
      (pipeTst capacity messages).next s a = some t →
      Inv messages t ∧ (Childless t ↔ .fail ∈ bs ++ [a]) := by
    intro bs s a t h hn
    refine ⟨inv_step h.1 hn, ?_⟩
    rw [childless_step h.1 hn, h.2, List.mem_append, List.mem_singleton, eq_comm]
  have hinit : Inv messages init ∧ (Childless init ↔ .fail ∈ ([] : List Act)) :=
    ⟨inv_init messages, by simp [Childless, init]⟩
  exact (Machine.run_history (P := fun bs s => Inv messages s ∧ (Childless s ↔ .fail ∈ bs))
    hstep hinit hr).2

/-- A child that the parent has waited for has written everything. -/
theorem Inv.all_printed (h : Inv messages s) {status : Nat} (hexit : s.parent = .exited status)
    (hc : s.child ≠ .absent) :
    status = EXIT_SUCCESS ∧ s.child = .returned ∧ s.stdout = messages.flatten := by
  have hstatus : status = EXIT_SUCCESS := by
    by_contra hne
    exact h.not_early hc (by rw [hexit]; exact hne)
  obtain ⟨hheld, hclosed⟩ := h.late (by rw [hexit]; exact hstatus)
  have halive := h.alive
  have hreturned : s.child = .returned := by
    cases hchild : s.child <;> simp_all [Child.writeEnd]
  have hflow := h.flow
  rw [hheld, hexit, hreturned] at hflow
  exact ⟨hstatus, hreturned, by simpa [Parent.inHand, Child.unsent, Child.text] using hflow⟩

/-- The child writes everything before the parent reads the first of the 51 characters. -/
def childFirst : List Act :=
  [.parent, .parent] ++ List.replicate 5 .child ++ List.replicate 105 .parent

end Cse522.Studio13.PipeTst

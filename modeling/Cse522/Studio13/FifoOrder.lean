import Cse522.Studio13.Fifo

/-!
# Nothing is lost between the writers and the output

What the reader has not scanned yet is the rest of a line and the lines behind it, wherever
stdio has cut the stream. So the numbers come out as they went in, one output line each.
-/
namespace Cse522.Studio13.Fifo

open Cse522.Clib.Stdlib Cse522.Clib.Stdio Cse522.Interleave

variable {ι : Type*} {argv : ι → String} {s t : State} {a : Act ι} {as bs : List (Act ι)}

/-! ## The numbers -/

theorem drawn_bounds (argv1 : String) (rand : Nat) :
    0 ≤ drawn argv1 rand ∧ drawn argv1 rand ≤ 999 := by
  simp only [drawn]
  split <;> omega

theorem even_drawn_iff (argv1 : String) (rand : Nat) :
    drawn argv1 rand % 2 = 0 ↔ atoi argv1 = 0 := by
  simp only [drawn]
  split <;> omega

theorem exists_drawn_of_mem {w : ι × Int} (h : w ∈ written argv as) :
    ∃ rand, w.2 = drawn (argv w.1) rand := by
  obtain ⟨a, -, ha⟩ := List.mem_filterMap.mp h
  cases a with
  | write i rand =>
      cases ha
      exact ⟨rand, rfl⟩
  | refill | scan | print => cases ha

theorem length_line_le {v : Int} (h : 0 ≤ v) (h' : v ≤ 999) : (line v).length ≤ PIPE_BUF := by
  have hlen := length_decimal_le h (by omega)
  simp only [line, List.length_append, List.length_singleton, PIPE_BUF]
  omega

/-- The numbers of `i` among all numbers. -/
theorem filter_written [DecidableEq ι] (i : ι) :
    ((written argv as).filter fun w => w.1 = i).map Prod.snd = writtenBy argv i as := by
  induction as with
  | nil => rfl
  | cons a as ih =>
      cases a with
      | write j rand =>
          by_cases hj : j = i
          · subst hj
            simpa [written, writtenBy] using ih
          · simpa [written, writtenBy, hj] using ih
      | refill | scan | print => simpa [written, writtenBy] using ih

/-! ## The stream -/

/-- The lines of `ws`. -/
def text (ws : List (ι × Int)) : List Char := ws.flatMap fun w => line w.2

@[simp] theorem text_nil : text ([] : List (ι × Int)) = [] := rfl

@[simp] theorem text_cons (w : ι × Int) (ws : List (ι × Int)) :
    text (w :: ws) = decimal w.2 ++ '\n' :: text ws := by
  simp [text, line]

@[simp] theorem text_append (ws ws' : List (ι × Int)) : text (ws ++ ws') = text ws ++ text ws' := by
  simp [text]

/-- The characters `input` that are not scanned yet, with the numbers `rest` still to be
printed. -/
def Unread (rest : List (ι × Int)) (input : List Char) (s32temp : Int) : Pc → Prop
  -- the newline behind the last number has been pushed back
  | .scan .skip => input = text rest ∨ input = '\n' :: text rest
  | .scan (.number tok) => ∃ w later ds, rest = w :: later ∧ tok ≠ [] ∧ decimal w.2 = tok ++ ds ∧
      input = ds ++ '\n' :: text later
  | .print => ∃ w later, rest = w :: later ∧ s32temp = w.2 ∧ input = '\n' :: text later
  | .undefined => False

/-- `ws` has been written, a part of it is printed and the rest is on its way. -/
structure Passed (ws : List (ι × Int)) (s : State) : Prop where
  range : ∀ w ∈ ws, 0 ≤ w.2 ∧ w.2 ≤ 999
  split : ∃ done rest, ws = done ++ rest ∧ s.stdout = done.map (fun w => oldNew w.2) ∧
    Unread rest (s.fetched ++ s.myfifo) s.s32temp s.pc

theorem passed_init (s32temp : Int) : Passed ([] : List (ι × Int)) (init s32temp) where
  range := by simp
  split := ⟨[], [], rfl, rfl, by simp [Unread, init]⟩

variable {rest : List (ι × Int)} {input : List Char} {v : Int} {pc : Pc}

/-- A line more at the end of the FIFO. -/
theorem Unread.write (h : Unread rest input v pc) (w : ι × Int) :
    Unread (rest ++ [w]) (input ++ line w.2) v pc := by
  cases pc with
  | scan scan =>
      cases scan with
      | skip =>
          rcases h with h | h
          · exact .inl (by simp [h, text])
          · exact .inr (by simp [h, text])
      | number tok =>
          obtain ⟨u, later, ds, rfl, hne, hdec, hin⟩ := h
          exact ⟨u, later ++ [w], ds, rfl, hne, hdec, by simp [hin, text]⟩
  | print =>
      obtain ⟨u, later, rfl, hu, hin⟩ := h
      exact ⟨u, later ++ [w], rfl, hu, by simp [hin, text]⟩
  | undefined => exact h

/-- A character is scanned: it belongs to the number in front, or ends it. -/
theorem Unread.scan {scan : Scan} {c : Char} (h : Unread rest (c :: input) v (.scan scan))
    (hrange : ∀ w ∈ rest, 0 ≤ w.2 ∧ w.2 ≤ 999) :
    match scanChar scan c with
    | .more scan => Unread rest input v (.scan scan)
    | .stored v => Unread rest (c :: input) v .print
    | .mismatch => False := by
  cases scan with
  | skip =>
      rcases h with h | h
      · -- the first digit of the next number
        cases rest with
        | nil => cases h
        | cons w later =>
            have hw := hrange w (by simp)
            obtain ⟨d, ds, hd⟩ := List.exists_cons_of_ne_nil (decimal_ne_nil w.2)
            rw [text_cons, hd, List.cons_append, List.cons_eq_cons] at h
            obtain ⟨rfl, hin⟩ := h
            have hdig : c.isDigit = true := isDigit_of_mem_decimal hw.1 (by rw [hd]; simp)
            simp only [scanChar, isSpace_of_isDigit hdig, hdig, Bool.false_eq_true, if_false,
              or_true, if_true, Unread]
            exact ⟨w, later, ds, rfl, by simp, by rw [hd]; rfl, hin⟩
      · -- the newline behind the number before
        rw [List.cons_eq_cons] at h
        obtain ⟨rfl, hin⟩ := h
        have hspace : isSpace '\n' = true := by decide
        simp only [scanChar, hspace, if_true, Unread]
        exact .inl hin
  | number tok =>
      obtain ⟨w, later, ds, rfl, hne, hdec, hin⟩ := h
      have hw := hrange w (by simp)
      cases ds with
      | cons d ds =>
          rw [List.cons_append, List.cons_eq_cons] at hin
          obtain ⟨rfl, hin⟩ := hin
          have hdig : c.isDigit = true := isDigit_of_mem_decimal hw.1 (by rw [hdec]; simp)
          simp only [scanChar, hdig, if_true, Unread]
          exact ⟨w, later, ds, rfl, by simp, by simpa using hdec, hin⟩
      | nil =>
          -- the newline ends the number
          rw [List.nil_append, List.cons_eq_cons] at hin
          obtain ⟨rfl, hin⟩ := hin
          rw [List.append_nil] at hdec
          have hany : tok.any Char.isDigit = true := by
            obtain ⟨d, ds, hd⟩ := List.exists_cons_of_ne_nil hne
            have hdig : d.isDigit = true := isDigit_of_mem_decimal hw.1 (by rw [hdec, hd]; simp)
            simp [hd, hdig]
          have hnl : '\n'.isDigit = false := by decide
          have hval : toInt (strtol tok) = w.2 := by
            rw [← hdec]
            exact toInt_strtol_decimal (by omega) (by omega)
          simp only [scanChar, hnl, Bool.false_eq_true, if_false, hany, if_true, Unread]
          exact ⟨w, later, rfl, hval, by rw [hin]⟩

theorem passed_step {ws : List (ι × Int)} (h : Passed ws s)
    (hn : (activeObject argv).next s a = some t) : Passed (ws ++ written argv [a]) t := by
  obtain ⟨hrange, done, rest, rfl, hout, hun⟩ := h
  cases a with
  | write i rand =>
      simp only [activeObject, next, Option.some.injEq] at hn
      subst hn
      have hw := drawn_bounds (argv i) rand
      constructor
      · intro w hmem
        rcases List.mem_append.mp hmem with hmem | hmem
        · exact hrange w hmem
        · obtain rfl : w = (i, drawn (argv i) rand) := by simpa [written] using hmem
          exact hw
      · have hnew := hun.write (i, drawn (argv i) rand)
        rw [List.append_assoc] at hnew
        exact ⟨done, rest ++ [(i, drawn (argv i) rand)], by simp [written], hout, hnew⟩
  | refill n =>
      simp only [activeObject, next] at hn
      split at hn
      · rename_i scan hpc hf
        split at hn <;> cases hn
        refine ⟨by simpa [written] using hrange, done, rest, by simp [written], hout, ?_⟩
        rw [hf, List.nil_append] at hun
        rwa [List.take_append_drop]
      · cases hn
  | scan =>
      simp only [activeObject, next] at hn
      split at hn
      · rename_i scan c fetched hpc hf
        rw [hpc, hf, List.cons_append] at hun
        have hscan := hun.scan fun w hw => hrange w (by simp [hw])
        refine ⟨by simpa [written] using hrange, done, rest, by simp [written], ?_⟩
        split at hn <;> cases hn <;> rename_i heq <;> rw [heq] at hscan
        · exact ⟨hout, hscan⟩
        · exact ⟨hout, by rwa [hf]⟩
        · exact hscan.elim
      · cases hn
  | print =>
      simp only [activeObject, next] at hn
      split at hn
      · rename_i hpc
        rw [hpc] at hun
        obtain ⟨w, later, rfl, hv, hin⟩ := hun
        have hw := hrange w (by simp)
        rw [if_pos (by omega)] at hn
        cases hn
        refine ⟨by simpa [written] using hrange, done ++ [w], later, by simp [written], ?_, ?_⟩
        · simp [hout, hv]
        · exact .inr hin
      · cases hn

theorem passed_run {ws : List (ι × Int)} (h : Passed ws s)
    (hr : (activeObject argv).run s as = some t) : Passed (ws ++ written argv as) t := by
  induction as generalizing s ws with
  | nil =>
      obtain rfl := Machine.run_nil.mp hr
      simpa [written] using h
  | cons a as ih =>
      obtain ⟨q, hq, hr⟩ := Machine.run_cons.mp hr
      have hs := ih (passed_step h hq) hr
      have hcons : written argv (a :: as) = written argv [a] ++ written argv as := by
        rw [written, written, written, ← List.filterMap_append, List.singleton_append]
      rwa [hcons, ← List.append_assoc]

/-! ## The reader comes to rest -/

/-- The reader waits for more characters. -/
def Waiting (argv : ι → String) (s : State) : Prop :=
  (∀ n, (activeObject argv).next s (.refill n) = none) ∧
    (activeObject argv).next s .scan = none ∧ (activeObject argv).next s .print = none

/-- A waiting reader has nothing left to scan. -/
theorem Waiting.empty (h : Waiting argv s) (hpc : s.pc ≠ .undefined) :
    ∃ scan, s.pc = .scan scan ∧ s.fetched ++ s.myfifo = [] := by
  obtain ⟨hrefill, hscan, hprint⟩ := h
  cases hp : s.pc with
  | scan scan =>
      refine ⟨scan, rfl, ?_⟩
      cases hf : s.fetched with
      | cons c fetched =>
          simp only [activeObject, next, hp, hf] at hscan
          split at hscan <;> cases hscan
      | nil =>
          cases hm : s.myfifo with
          | nil => rfl
          | cons c myfifo =>
              have h1 := hrefill 1
              simp [activeObject, next, hp, hf, hm] at h1
  | print =>
      simp only [activeObject, next, hp, if_true] at hprint
      split at hprint <;> cases hprint
  | undefined => exact absurd hp hpc

theorem Passed.done_of_waiting {ws : List (ι × Int)} (h : Passed ws s) (hw : Waiting argv s) :
    s.stdout = ws.map fun w => oldNew w.2 := by
  obtain ⟨-, done, rest, rfl, hout, hun⟩ := h
  have hpc : s.pc ≠ .undefined := by
    intro hpc
    rw [hpc] at hun
    exact hun
  obtain ⟨scan, hpc, hin⟩ := hw.empty hpc
  rw [hpc, hin] at hun
  cases scan with
  | skip =>
      rcases hun with hun | hun
      · cases rest with
        | nil => simpa using hout
        | cons w rest => simp at hun
      · cases hun
  | number tok =>
      obtain ⟨w, later, ds, -, -, -, hun⟩ := hun
      simp at hun

/-- A number begun is still to be stored and printed. -/
def weight : Pc → Nat
  | .scan .skip => 0
  | .scan (.number _) => 2
  | .print => 1
  | .undefined => 0

/-- What is left to do for the characters that are there. -/
def work (s : State) : Nat := 5 * s.myfifo.length + 4 * s.fetched.length + weight s.pc

theorem weight_scan_le (scan : Scan) : weight (.scan scan) ≤ 2 := by
  cases scan <;> simp [weight]

theorem scanChar_skip_ne_stored (c : Char) : scanChar .skip c ≠ .stored v := by
  intro h
  simp only [scanChar] at h
  split at h
  · cases h
  · split at h <;> cases h

/-- Every step of the reader leaves less to do. -/
theorem work_step {ws : List (ι × Int)} (h : Passed ws s)
    (hn : (activeObject argv).next s a = some t) (hno : ∀ i rand, a ≠ .write i rand) :
    work t < work s := by
  obtain ⟨hrange, done, rest, rfl, hout, hun⟩ := h
  cases a with
  | write i rand => exact absurd rfl (hno i rand)
  | refill n =>
      simp only [activeObject, next] at hn
      split at hn
      · rename_i scan hpc hf
        split at hn
        · rename_i hlen
          cases hn
          simp only [work, hf, List.length_take, List.length_drop, List.length_nil]
          omega
        · cases hn
      · cases hn
  | scan =>
      simp only [activeObject, next] at hn
      split at hn
      · rename_i scan c fetched hpc hf
        rw [hpc, hf, List.cons_append] at hun
        have hscan := hun.scan fun w hw => hrange w (by simp [hw])
        split at hn <;> cases hn <;> rename_i heq <;> rw [heq] at hscan
        · rename_i scan'
          have hle := weight_scan_le scan'
          simp only [work, hf, List.length_cons]
          omega
        · cases scan with
          | skip => exact absurd heq (scanChar_skip_ne_stored c)
          | number tok => simp [work, hpc, weight]
        · exact hscan.elim
      · cases hn
  | print =>
      simp only [activeObject, next] at hn
      split at hn
      · rename_i hpc
        split at hn <;> cases hn <;> simp [work, weight, hpc]
      · cases hn

theorem work_run {ws : List (ι × Int)} (h : Passed ws s)
    (hr : (activeObject argv).run s as = some t) (hno : ∀ i rand, .write i rand ∉ as) :
    as.length ≤ work s := by
  induction as generalizing s ws with
  | nil => simp
  | cons a as ih =>
      obtain ⟨q, hq, hr⟩ := Machine.run_cons.mp hr
      have hlt := work_step h hq fun i rand ha => hno i rand (by simp [ha])
      have hle := ih (passed_step h hq) hr fun i rand hmem => hno i rand (by simp [hmem])
      rw [List.length_cons]
      omega

/-! ## What is printed -/

/-- The output lines are the first of the numbers written, in FIFO order, each with its
double, which fits an `int`. -/
structure Delivered [DecidableEq ι] (argv : ι → String) (as : List (Act ι)) (t : State) :
    Prop where
  defined : t.pc ≠ .undefined
  output : t.stdout = ((written argv as).take t.stdout.length).map fun w =>
    "Old [".toList ++ padded 4 w.2 ++ "] New [".toList ++ padded 4 (2 * w.2) ++ "]\n".toList
  noMore : t.stdout.length ≤ (written argv as).length
  atomic : ∀ w ∈ written argv as, (line w.2).length ≤ PIPE_BUF
  range : ∀ w ∈ written argv as, 0 ≤ w.2 ∧ w.2 * 2 ≤ 1998
  /-- the even numbers are those of the writers in even mode -/
  parity : ∀ w ∈ written argv as, w.2 % 2 = 0 ↔ atoi (argv w.1) = 0
  /-- each writer's numbers come in its own order -/
  ownOrder : ∀ i, (((written argv as).take t.stdout.length).filter fun w => w.1 = i).map Prod.snd
    <+: writtenBy argv i as
  /-- when the reader waits, everything written has been printed -/
  complete : Waiting argv t → t.stdout.length = (written argv as).length
  /-- and it waits after a while, if the writers pause -/
  rests : ∀ bs u, (activeObject argv).run t bs = some u → (∀ i rand, .write i rand ∉ bs) →
    bs.length ≤ work t

theorem oldNew_double (v : Int) : oldNew v =
    "Old [".toList ++ padded 4 v ++ "] New [".toList ++ padded 4 (2 * v) ++ "]\n".toList := by
  unfold oldNew
  rw [Int.mul_comm 2 v]

theorem fifo_delivered [DecidableEq ι] (argv : ι → String) (s32temp : Int)
    (hr : (activeObject argv).run (init s32temp) as = some t) : Delivered argv as t := by
  have h := passed_run (passed_init s32temp) hr
  rw [List.nil_append] at h
  obtain ⟨hrange, done, rest, heq, hout, hun⟩ := h
  have hlen : t.stdout.length = done.length := by rw [hout, List.length_map]
  have htake : (written argv as).take t.stdout.length = done := by
    rw [hlen, heq, List.take_left]
  have hle : t.stdout.length ≤ (written argv as).length := by
    rw [hlen, heq, List.length_append]
    omega
  constructor
  · intro hpc
    rw [hpc] at hun
    exact hun
  · rw [htake, hout]
    exact List.map_congr_left fun w _ => oldNew_double w.2
  · exact hle
  · intro w hw
    exact length_line_le (hrange w hw).1 (hrange w hw).2
  · intro w hw
    have hb := hrange w hw
    omega
  · intro w hw
    obtain ⟨rand, hrand⟩ := exists_drawn_of_mem hw
    rw [hrand]
    exact even_drawn_iff (argv w.1) rand
  · intro i
    rw [← filter_written]
    exact ((List.take_prefix _ _).filter _).map Prod.snd
  · intro hw
    have hall := Passed.done_of_waiting ⟨hrange, done, rest, heq, hout, hun⟩ hw
    rw [hall, List.length_map]
  · intro bs u hbs hno
    exact work_run ⟨hrange, done, rest, heq, hout, hun⟩ hbs hno

/-- An even and an odd writer; stdio fetches the first half of `22` with the line before. -/
def cutInTheMiddle : List (Act Bool) :=
  [.write true 3, .write false 11, .refill 3, .scan, .scan, .print, .scan, .scan, .refill 2,
    .scan, .scan, .print]

theorem delivered_cut_in_the_middle :
    ∃ t, (activeObject fun odd => if odd then "1" else "0").run (init 0) cutInTheMiddle = some t ∧
      t.stdout = ["Old [   7] New [  14]\n".toList, "Old [  22] New [  44]\n".toList] ∧
      Delivered (fun odd => if odd then "1" else "0") cutInTheMiddle t :=
  ⟨_, rfl, by decide, fifo_delivered _ 0 rfl⟩

end Cse522.Studio13.Fifo

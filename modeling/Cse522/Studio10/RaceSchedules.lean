import Cse522.Studio10.RaceRuns

/-!
# The values that `multi_race` can end with

Two schedules reach every value between the bounds. In the first, one thread keeps its first
load while the others run some of their bodies, and its store takes all of these back. In the
second, its store leaves one behind, a few more bodies follow, and another thread has loaded
the result for its last store.
-/
namespace Cse522.Studio10.MultiRace

open Cse522.Interleave Cse522.Clib.Word

variable {T I : Nat} {s t r : State T} {i j : Fin T} {S : Finset (Fin T)}

/-! ## Moves of some threads only -/

/-- A run from `s` to `t` in which only threads of `S` move. -/
structure Among (I : Nat) (S : Finset (Fin T)) (s t : State T) : Prop where
  reach : (multiRace T I).Reachable s t
  same : ∀ j, j ∉ S → t.threads j = s.threads j

theorem Among.refl (s : State T) : Among I S s s := ⟨.refl s, fun _ _ => rfl⟩

theorem Among.trans (h : Among I S s t) (h' : Among I S t r) : Among I S s r where
  reach := h.reach.trans h'.reach
  same j hj := (h'.same j hj).trans (h.same j hj)

theorem Among.mono {S' : Finset (Fin T)} (h : Among I S s t) (hsub : S ⊆ S') :
    Among I S' s t where
  reach := h.reach
  same j hj := h.same j fun hmem => hj (hsub hmem)

theorem among_single (hn : (multiRace T I).next s i = some t)
    (hsame : ∀ j ≠ i, t.threads j = s.threads j) : Among I {i} s t where
  reach := .single hn
  same j hj := hsame j (by simpa using hj)

/-- The test of the loop and the load. -/
theorem load_body (hpc : (s.threads i).pc = .test) (hlt : (s.threads i).s32i < I) :
    ∃ t, Among I {i} s t ∧ t.race = s.race ∧
      t.threads i = ⟨(s.threads i).s32i, s.race, .store⟩ := by
  have htest : (multiRace T I).next s i = some (s.move i { s.threads i with pc := .load }) := by
    simp [multiRace, mykthread, hpc, hlt]
  refine ⟨_, (among_single htest fun j hj => by simp [State.move, hj]).trans
    (among_single (t := (s.move i { s.threads i with pc := .load }).move i
      ⟨(s.threads i).s32i, s.race, .store⟩) ?_ fun j hj => by simp [State.move, hj]), rfl, ?_⟩
  · simp [multiRace, mykthread, State.move]
  · simp [State.move]

/-- The store and the increment of the loop. -/
theorem store_body {k : Nat} {w : Int32} (hi : s.threads i = ⟨k, w, .store⟩) :
    ∃ t, Among I {i} s t ∧ t.race = w + 1 ∧ t.threads i = ⟨k + 1, w, .test⟩ := by
  have hstore : (multiRace T I).next s i =
      some ({ s with race := w + 1 }.move i ⟨k, w, .incr⟩) := by
    simp [multiRace, mykthread, hi]
  refine ⟨_, (among_single hstore fun j hj => by simp [State.move, hj]).trans
    (among_single (t := ({ s with race := w + 1 }.move i ⟨k, w, .incr⟩).move i
      ⟨k + 1, w, .test⟩) ?_ fun j hj => by simp [State.move, hj]), rfl, ?_⟩
  · simp [multiRace, mykthread, State.move]
  · simp [State.move]

/-- A body with nobody in between. -/
theorem whole_body (hpc : (s.threads i).pc = .test) (hlt : (s.threads i).s32i < I) :
    ∃ t, Among I {i} s t ∧ t.race = s.race + 1 ∧ (t.threads i).pc = .test ∧
      (t.threads i).s32i = (s.threads i).s32i + 1 := by
  obtain ⟨q, hq, -, hqi⟩ := load_body hpc hlt
  obtain ⟨t, ht, hrace, hti⟩ := store_body (I := I) hqi
  refine ⟨t, hq.trans ht, hrace, ?_⟩
  rw [hti]
  exact ⟨rfl, rfl⟩

/-! ## Bodies of the threads of a set -/

/-- The threads of `S` stand in front of their tests, `n` bodies behind them. -/
structure Resting (I : Nat) (S : Finset (Fin T)) (n : Nat) (s : State T) : Prop where
  test : ∀ j ∈ S, (s.threads j).pc = .test
  bound : ∀ j ∈ S, (s.threads j).s32i ≤ I
  sum : ∑ j ∈ S, (s.threads j).s32i = n

/-- The threads that move are others. -/
theorem Resting.of_among {n : Nat} {S' : Finset (Fin T)} (h : Resting I S n s)
    (ha : Among I S' s t) (hdisj : ∀ j ∈ S, j ∉ S') : Resting I S n t where
  test j hj := by
    rw [ha.same j (hdisj j hj)]
    exact h.test j hj
  bound j hj := by
    rw [ha.same j (hdisj j hj)]
    exact h.bound j hj
  sum := by
    rw [← h.sum]
    exact Finset.sum_congr rfl fun j hj => by rw [ha.same j (hdisj j hj)]

theorem resting_single (hpc : (s.threads i).pc = .test) (hle : (s.threads i).s32i ≤ I) :
    Resting I {i} (s.threads i).s32i s where
  test j hj := by
    rw [Finset.mem_singleton.mp hj]
    exact hpc
  bound j hj := by
    rw [Finset.mem_singleton.mp hj]
    exact hle
  sum := Finset.sum_singleton _ _

theorem Resting.single {n : Nat} (h : Resting I {i} n s) :
    (s.threads i).pc = .test ∧ (s.threads i).s32i = n := by
  have hsum := h.sum
  rw [Finset.sum_singleton] at hsum
  exact ⟨h.test i (Finset.mem_singleton_self i), hsum⟩

/-- In front of their first bodies. -/
theorem resting_zero (h : ∀ j ∈ S, (s.threads j).pc = .test ∧ (s.threads j).s32i = 0) :
    Resting I S 0 s where
  test j hj := (h j hj).1
  bound j hj := by
    rw [(h j hj).2]
    exact Nat.zero_le I
  sum := Finset.sum_eq_zero fun j hj => (h j hj).2

theorem Resting.union {S' : Finset (Fin T)} {n m : Nat} (h : Resting I S n s)
    (h' : Resting I S' m s) (hdisj : Disjoint S S') : Resting I (S ∪ S') (n + m) s where
  test j hj := (Finset.mem_union.mp hj).elim (h.test j) (h'.test j)
  bound j hj := (Finset.mem_union.mp hj).elim (h.bound j) (h'.bound j)
  sum := by rw [Finset.sum_union hdisj, h.sum, h'.sum]

theorem Resting.full (h : Resting I S (S.card * I) s) (hj : j ∈ S) :
    (s.threads j).s32i = I := by
  have hsum : ∑ j ∈ S, (s.threads j).s32i = ∑ _j ∈ S, I := by
    rw [h.sum, Finset.sum_const, Nat.nsmul_eq_mul]
  exact (Finset.sum_eq_sum_iff_of_le h.bound).mp hsum j hj

/-- A body of some thread of `S` that has one left. -/
theorem Resting.body {n : Nat} (h : Resting I S n s) (hn : n < S.card * I) :
    ∃ t, Among I S s t ∧ t.race = s.race + 1 ∧ Resting I S (n + 1) t := by
  have hex : ∃ j ∈ S, (s.threads j).s32i < I := by
    apply Finset.exists_lt_of_sum_lt
    rw [h.sum, Finset.sum_const, Nat.nsmul_eq_mul]
    exact hn
  obtain ⟨i, hi, hlt⟩ := hex
  obtain ⟨t, ha, hrace, hpc, hs32i⟩ := whole_body (h.test i hi) hlt
  have hother : ∀ j ∈ S, j ≠ i → t.threads j = s.threads j := fun j _ hji =>
    ha.same j (by simpa using hji)
  refine ⟨t, ha.mono (by simpa using hi), hrace, ?_, ?_, ?_⟩
  · intro j hj
    by_cases hji : j = i
    · rw [hji]
      exact hpc
    · rw [hother j hj hji]
      exact h.test j hj
  · intro j hj
    by_cases hji : j = i
    · rw [hji]
      omega
    · rw [hother j hj hji]
      exact h.bound j hj
  · rw [← Finset.add_sum_erase _ _ hi, hs32i, ← h.sum, ← Finset.add_sum_erase _ _ hi]
    have hrest : ∑ j ∈ S.erase i, (t.threads j).s32i =
        ∑ j ∈ S.erase i, (s.threads j).s32i := by
      refine Finset.sum_congr rfl fun j hj => ?_
      rw [hother j (Finset.mem_of_mem_erase hj) (Finset.ne_of_mem_erase hj)]
    omega

theorem Resting.bodies {n : Nat} (m : Nat) (h : Resting I S n s) (hm : n + m ≤ S.card * I) :
    ∃ t, Among I S s t ∧ t.race = s.race + Int32.ofNat m ∧ Resting I S (n + m) t := by
  induction m with
  | zero => exact ⟨s, .refl s, by simp, h⟩
  | succ m ih =>
      obtain ⟨q, hq, hrace, hrest⟩ := ih (by omega)
      obtain ⟨t, ht, hrace', hrest'⟩ := hrest.body (by omega)
      refine ⟨t, hq.trans ht, ?_, hrest'⟩
      rw [hrace', hrace, Int32.add_assoc]
      simp

/-! ## All threads one after the other -/

/-- What each thread can do for itself, without a change of `race`, all can do in turn. -/
theorem all_in_turn {P Q : Thread → Prop}
    (hstep : ∀ (s : State T) i, P (s.threads i) → ∃ t, Among I {i} s t ∧ t.race = s.race ∧
      Q (t.threads i)) (h : ∀ i, P (s.threads i)) :
    ∃ t, (multiRace T I).Reachable s t ∧ t.race = s.race ∧ ∀ i, Q (t.threads i) := by
  have hset : ∀ S : Finset (Fin T), ∃ t, Among I S s t ∧ t.race = s.race ∧
      ∀ i ∈ S, Q (t.threads i) := by
    intro S
    induction S using Finset.induction_on with
    | empty => exact ⟨s, .refl s, rfl, fun i hi => absurd hi (Finset.notMem_empty i)⟩
    | insert i S hi ih =>
        obtain ⟨q, hq, hrace, hall⟩ := ih
        have hp : P (q.threads i) := by
          rw [hq.same i hi]
          exact h i
        obtain ⟨t, ht, hrace', hti⟩ := hstep q i hp
        refine ⟨t, (hq.mono (Finset.subset_insert i S)).trans
          (ht.mono (by simp)), hrace'.trans hrace, fun j hj => ?_⟩
        rcases Finset.mem_insert.mp hj with rfl | hj
        · exact hti
        · rw [ht.same j fun hmem => hi (Finset.mem_singleton.mp hmem ▸ hj)]
          exact hall j hj
  obtain ⟨t, ht, hrace, hall⟩ := hset Finset.univ
  exact ⟨t, ht.reach, hrace, fun i => hall i (Finset.mem_univ i)⟩

/-- All threads come to their first tests. -/
theorem reach_tests (T I : Nat) : ∃ t, (multiRace T I).Reachable (init T) t ∧ t.race = 0 ∧
    ∀ i, (t.threads i).pc = .test ∧ (t.threads i).s32i = 0 := by
  refine all_in_turn (s := init T) (P := fun l => l.pc = .start)
    (Q := fun l => l.pc = .test ∧ l.s32i = 0) ?_ fun _ => rfl
  intro s i hpc
  refine ⟨s.move i { s.threads i with s32i := 0, pc := .test }, among_single ?_ ?_, rfl, ?_⟩
  · simp [multiRace, mykthread, hpc]
  · intro j hj
    simp [State.move, hj]
  · simp [State.move]

/-- Behind their last bodies, all threads return. -/
theorem reach_returned (h : ∀ i, (s.threads i).pc = .test ∧ (s.threads i).s32i = I) :
    ∃ t, (multiRace T I).Reachable s t ∧ t.race = s.race ∧
      ∀ i, (t.threads i).pc = .returned := by
  refine all_in_turn (P := fun l => l.pc = .test ∧ l.s32i = I)
    (Q := fun l => l.pc = .returned) ?_ h
  intro s i hi
  obtain ⟨hpc, hs32i⟩ := hi
  have htest : (multiRace T I).next s i = some (s.move i { s.threads i with pc := .finish }) := by
    simp [multiRace, mykthread, hpc, hs32i]
  refine ⟨_, (among_single htest fun j hj => by simp [State.move, hj]).trans
    (among_single (t := (s.move i { s.threads i with pc := .finish }).move i
      { s.threads i with pc := .returned }) ?_ fun j hj => by simp [State.move, hj]), rfl, ?_⟩
  · simp [multiRace, mykthread, State.move]
  · simp [State.move]

/-! ## The two schedules -/

/-- Thread `a` has loaded zero, and no other thread has run a body. -/
theorem reach_held (a : Fin T) (hI : 0 < I) :
    ∃ t, (multiRace T I).Reachable (init T) t ∧ t.threads a = ⟨0, 0, .store⟩ ∧
      ∀ j ≠ a, (t.threads j).pc = .test ∧ (t.threads j).s32i = 0 := by
  obtain ⟨s, hr, hrace, hall⟩ := reach_tests T I
  obtain ⟨t, ha, -, ht⟩ := load_body (hall a).1 (by rw [(hall a).2]; exact hI)
  rw [(hall a).2, hrace] at ht
  refine ⟨t, hr.trans ha.reach, ht, fun j hj => ?_⟩
  rw [ha.same j (by simpa using hj)]
  exact hall j

/-- The store of `a` leaves one, whatever the others have counted. -/
theorem store_held {a : Fin T} (hI : 0 < I) (ha : s.threads a = ⟨0, 0, .store⟩) :
    ∃ t, Among I {a} s t ∧ t.race = Int32.ofNat 1 ∧ Resting I {a} 1 t := by
  obtain ⟨t, hat, hrace, ht⟩ := store_body (I := I) ha
  refine ⟨t, hat, hrace, ?_⟩
  have hsingle := resting_single (I := I) (s := t) (i := a) (by rw [ht]) (by rw [ht]; exact hI)
  rwa [ht] at hsingle

/-- The others run `x` bodies between the first load of `a` and its store. -/
theorem reach_high {x : Nat} (a : Fin T) (hI : 0 < I) (hx : x ≤ (T - 1) * I) :
    ∃ t, (multiRace T I).Reachable (init T) t ∧ t.race = Int32.ofNat (T * I - x) ∧
      ∀ i, (t.threads i).pc = .test ∧ (t.threads i).s32i = I := by
  have hT : 0 < T := a.pos
  have hdisj : ∀ j ∈ ({a}ᶜ : Finset (Fin T)), j ∉ ({a} : Finset (Fin T)) := fun j hj =>
    Finset.mem_compl.mp hj
  have hcard : ({a}ᶜ : Finset (Fin T)).card = T - 1 := by
    rw [Finset.card_compl, Fintype.card_fin, Finset.card_singleton]
  have hfull : (Finset.univ : Finset (Fin T)).card * I = T * I := by
    rw [Finset.card_univ, Fintype.card_fin]
  have hmul : T * I = (T - 1) * I + I := by
    rw [← Nat.succ_mul, Nat.succ_eq_add_one, Nat.sub_add_cancel hT]
  obtain ⟨s0, hr, hs0, hothers⟩ := reach_held a hI
  have hrest0 : Resting I {a}ᶜ 0 s0 := resting_zero fun j hj => hothers j (by simpa using hj)
  obtain ⟨s1, ha1, -, hrest1⟩ := hrest0.bodies x (by rw [hcard]; omega)
  have hs1 : s1.threads a = ⟨0, 0, .store⟩ := by
    rw [ha1.same a (by simp), hs0]
  obtain ⟨s2, ha2, hrace2, hone⟩ := store_held hI hs1
  have hrest2 := hone.union (hrest1.of_among ha2 hdisj) disjoint_compl_right
  rw [Finset.union_compl] at hrest2
  -- the bodies that are left, in any order
  obtain ⟨m, hm⟩ : ∃ m, T * I - x = 1 + m := ⟨T * I - x - 1, by omega⟩
  obtain ⟨s3, ha3, hrace3, hrest3⟩ := hrest2.bodies m (by rw [hfull]; omega)
  refine ⟨s3, ((hr.trans ha1.reach).trans ha2.reach).trans ha3.reach, ?_, fun i => ?_⟩
  · rw [hrace3, hrace2, hm, Int32.ofNat_add]
  · have hsum : 1 + (0 + x) + m = (Finset.univ : Finset (Fin T)).card * I := by
      rw [hfull]
      omega
    rw [hsum] at hrest3
    exact ⟨hrest3.test i (Finset.mem_univ i), hrest3.full (Finset.mem_univ i)⟩

/-- Thread `b` is in front of its last body and all others but `a` behind theirs, when the
store of `a` leaves one. -/
theorem reach_one (a b : Fin T) (hab : b ≠ a) (hI : 0 < I) :
    ∃ t, (multiRace T I).Reachable (init T) t ∧ t.race = Int32.ofNat 1 ∧ Resting I {a} 1 t ∧
      Resting I {b} (I - 1) t ∧
      Resting I {a, b}ᶜ (({a, b}ᶜ : Finset (Fin T)).card * I) t := by
  obtain ⟨s0, hr, hs0, hothers⟩ := reach_held a hI
  have hrest0 : Resting I {a, b}ᶜ 0 s0 := resting_zero fun j hj => hothers j fun hja => by
    simp [hja] at hj
  obtain ⟨s1, ha1, -, hrest1⟩ := hrest0.bodies (({a, b}ᶜ : Finset (Fin T)).card * I) (by simp)
  have hb1 : Resting I {b} 0 s1 := by
    refine resting_zero fun j hj => ?_
    rw [Finset.mem_singleton.mp hj, ha1.same b (by simp)]
    exact hothers b hab
  obtain ⟨s2, ha2, -, hb2⟩ := hb1.bodies (I - 1) (by simp)
  have hs2 : s2.threads a = ⟨0, 0, .store⟩ := by
    rw [ha2.same a (by simpa using hab.symm), ha1.same a (by simp), hs0]
  obtain ⟨s3, ha3, hrace3, hone⟩ := store_held hI hs2
  have hrest3 := (hrest1.of_among ha2 (by simp)).of_among ha3 fun j hj => by
    simpa using fun hja : j = a => Finset.mem_compl.mp hj (by simp [hja])
  rw [Nat.zero_add] at hb2 hrest3
  refine ⟨s3, ((hr.trans ha1.reach).trans ha2.reach).trans ha3.reach, hrace3, hone, ?_, hrest3⟩
  exact hb2.of_among ha3 (by simpa using hab)

/-- Thread `b` loads for its last store when `a` has run `v - 2` more bodies. -/
theorem reach_low {v : Nat} (a b : Fin T) (hab : b ≠ a) (hlo : 2 ≤ v) (hhi : v ≤ I) :
    ∃ t, (multiRace T I).Reachable (init T) t ∧ t.race = Int32.ofNat v ∧
      ∀ i, (t.threads i).pc = .test ∧ (t.threads i).s32i = I := by
  have hba : ∀ j ∈ ({b} : Finset (Fin T)), j ∉ ({a} : Finset (Fin T)) := by simpa using hab
  have hab' : ∀ j ∈ ({a} : Finset (Fin T)), j ∉ ({b} : Finset (Fin T)) := by
    simpa using hab.symm
  obtain ⟨m, hm⟩ : ∃ m, v = 1 + m + 1 := ⟨v - 2, by omega⟩
  obtain ⟨s0, hr, hrace0, hone, hb0, hothers0⟩ := reach_one a b hab (show 0 < I by omega)
  obtain ⟨s1, ha1, hrace1, hmore⟩ := hone.bodies m (by simp; omega)
  obtain ⟨hpc, hs32i⟩ := (hb0.of_among ha1 hba).single
  have hlt : (s1.threads b).s32i < I := by omega
  obtain ⟨s2, ha2, -, hs2⟩ := load_body hpc hlt
  -- `a` goes on to its end, and then `b` stores
  obtain ⟨s3, ha3, -, hall⟩ := (hmore.of_among ha2 hab').bodies (I - (1 + m))
    (by simp; omega)
  have hs3 : s3.threads b = ⟨(s1.threads b).s32i, s1.race, .store⟩ := by
    rw [ha3.same b (by simpa using hab), hs2]
  obtain ⟨s4, ha4, hrace4, hs4⟩ := store_body (I := I) hs3
  have hpair : Among I {a, b} s0 s4 :=
    ((ha1.mono (by simp)).trans (ha2.mono (by simp))).trans
      ((ha3.mono (by simp)).trans (ha4.mono (by simp)))
  have hothers := hothers0.of_among hpair fun j hj => Finset.mem_compl.mp hj
  refine ⟨s4, hr.trans hpair.reach, ?_, fun i => ?_⟩
  · rw [hrace4, hrace1, hrace0, hm, Int32.ofNat_add, Int32.ofNat_add]
    rfl
  · by_cases hib : i = b
    · rw [hib, hs4, hs32i]
      exact ⟨rfl, Nat.sub_add_cancel (show 1 ≤ I by omega)⟩
    · by_cases hia : i = a
      · obtain ⟨hpca, hs32ia⟩ := (hall.of_among ha4 hab').single
        rw [hia]
        exact ⟨hpca, by omega⟩
      · have hi : i ∈ ({a, b}ᶜ : Finset (Fin T)) := by simp [hia, hib]
        exact ⟨hothers.test i hi, hothers.full hi⟩

/-- With two or more threads that count to `I` each, the values that `race` can have when all
of them have returned are those from `min 2 I` to `T * I`, and no others. -/
theorem final_race_iff (T I : Nat) (hT : 2 ≤ T) (hfit : T * I < 2147483648) (v : Int) :
    (∃ s, (multiRace T I).Reachable (init T) s ∧ (∀ i, (s.threads i).pc = .returned) ∧
      s.race.toInt = v) ↔ ((min 2 I : Nat) : Int) ≤ v ∧ v ≤ T * I := by
  constructor
  · intro h
    obtain ⟨s, hr, hret, hv⟩ := h
    rw [← hv]
    exact final_race_bounds (by omega) hfit hr hret
  · intro h
    obtain ⟨n, rfl⟩ := Int.eq_ofNat_of_zero_le (Int.le_trans (Int.natCast_nonneg _) h.1)
    have hlo : min 2 I ≤ n := by exact_mod_cast h.1
    have hhi : n ≤ T * I := by exact_mod_cast h.2
    let a : Fin T := ⟨0, by omega⟩
    let b : Fin T := ⟨1, by omega⟩
    have hreach : ∃ t, (multiRace T I).Reachable (init T) t ∧ t.race = Int32.ofNat n ∧
        ∀ i, (t.threads i).pc = .test ∧ (t.threads i).s32i = I := by
      rcases Nat.eq_zero_or_pos I with hzero | hpos
      · subst hzero
        obtain ⟨t, hr, hrace, hall⟩ := reach_tests T 0
        have hn : n = 0 := by simpa using hhi
        exact ⟨t, hr, by rw [hrace, hn]; rfl, hall⟩
      · by_cases hge : I ≤ n
        · have hmul : T * I = (T - 1) * I + I := by
            rw [← Nat.succ_mul, Nat.succ_eq_add_one, Nat.sub_add_cancel (by omega)]
          obtain ⟨t, hr, hrace, hall⟩ := reach_high (x := T * I - n) a hpos (by omega)
          rw [Nat.sub_sub_self hhi] at hrace
          exact ⟨t, hr, hrace, hall⟩
        · exact reach_low a b (by simp [a, b]) (by omega) (by omega)
    obtain ⟨t, hr, hrace, hall⟩ := hreach
    obtain ⟨r, hr', hrace', hret⟩ := reach_returned hall
    refine ⟨r, hr.trans hr', hret, ?_⟩
    rw [hrace', hrace, Int32.toInt_ofNat_of_lt]
    omega

theorem final_race_two_one :
    (∃ s, (multiRace 2 1).Reachable (init 2) s ∧ (∀ i, (s.threads i).pc = .returned) ∧
      s.race.toInt = 1) ↔ ((min 2 1 : Nat) : Int) ≤ 1 ∧ (1 : Int) ≤ (2 : Nat) * (1 : Nat) :=
  final_race_iff 2 1 (by decide) (by decide) 1

end Cse522.Studio10.MultiRace

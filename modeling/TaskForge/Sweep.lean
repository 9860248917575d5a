/-
Bounded sweeps over an ordered list of candidates.

A sweep looks at the first `n` candidates and treats each in turn. A candidate that
qualifies leaves the list; one that does not stays where it stands, so the next
sweep meets it again, at the same place. What a sweep leaves is therefore a function
of the list and of the verdicts (`sweep`), and repeated sweeps iterate it.

Which candidates `rounds` sweeps reach depends on where those that do not qualify stand.
All that counts is how many of them stand before each qualifying one (`aheads`): since
a sweep spends its room on them first, the qualifying ones are used up exactly when
they can be cut, in order, into as many batches as there are sweeps, each with room for
its members and for what stands before the last of them (`iterate_sweep_clear_iff`).
None ahead of any does no harm (`Batchable.of_none_ahead`); `n` of them ahead of a
candidate keep it out for good (`mem_iterate_sweep_of_blocked`).
-/
import TaskForge.Runs
import Mathlib.Logic.Function.Iterate

namespace Sweeping

open Runs

variable {ι : Type}

/-! ## Lists of candidates -/

section Lists

variable {n : ℕ} {q : ι → Bool} {xs : List ι}
variable {k b : ℕ} {l : List ℕ}

/-- What one sweep over the first `n` candidates leaves. -/
def sweep (n : ℕ) (q : ι → Bool) (xs : List ι) : List ι :=
  (xs.take n).filter (fun i => !q i) ++ xs.drop n

/-- How many sweeps of `n` cover `total` candidates. -/
def rounds (total n : ℕ) : ℕ := (total + n - 1) / n

theorem le_rounds_mul {total : ℕ} (hn : 1 ≤ n) : total ≤ rounds total n * n := by
  have hmod := Nat.div_add_mod (total + n - 1) n
  have hlt := Nat.mod_lt (total + n - 1) hn
  rw [Nat.mul_comm] at hmod
  unfold rounds
  omega

theorem sweep_sublist (n : ℕ) (q : ι → Bool) (xs : List ι) : (sweep n q xs).Sublist xs := by
  have happend := (List.filter_sublist (p := fun i => !q i) (l := xs.take n)).append
    (List.Sublist.refl (xs.drop n))
  rw [List.take_append_drop] at happend
  exact happend

theorem iterate_sweep_sublist (n : ℕ) (q : ι → Bool) (k : ℕ) (xs : List ι) :
    ((sweep n q)^[k] xs).Sublist xs := by
  induction k generalizing xs with
  | zero => exact List.Sublist.refl xs
  | succ k ih => exact (ih (sweep n q xs)).trans (sweep_sublist n q xs)

/-- A sweep takes as many candidates as qualify among the first `n`. -/
theorem countP_add_length_sweep :
    (xs.take n).countP q + (sweep n q xs).length = xs.length := by
  have hsplit : (xs.take n).length
      = (xs.take n).countP q + (xs.take n).countP fun i => decide (¬q i = true) :=
    List.length_eq_countP_add_countP q
  have htake : (xs.take n).length + (xs.drop n).length = xs.length := by
    rw [← List.length_append, List.take_append_drop]
  unfold sweep
  rw [List.length_append, ← List.countP_eq_length_filter]
  simp only [Bool.not_eq_true, Bool.decide_eq_false] at hsplit
  omega

/-- Only the verdicts on the candidates count. -/
theorem iterate_sweep_congr {q' : ι → Bool} (h : ∀ i ∈ xs, q i = q' i) :
    (sweep n q)^[k] xs = (sweep n q')^[k] xs := by
  induction k generalizing xs with
  | zero => rfl
  | succ k ih =>
    have hone : sweep n q xs = sweep n q' xs := by
      unfold sweep
      refine congrArg (· ++ xs.drop n) (List.filter_congr fun i hi => ?_)
      rw [h i (List.mem_of_mem_take hi)]
    rw [Function.iterate_succ_apply, Function.iterate_succ_apply, hone]
    exact ih fun i hi => h i ((sweep_sublist n q' xs).subset hi)

/-! ### What stands before the qualifying candidates

A sweep keeps those that do not qualify in their places, so what stands before a
candidate never changes. A batch of qualifying candidates can be treated in one sweep
when it has room beside what stands before its last member. -/

/-- For each qualifying candidate, in order, how many that do not qualify stand before it. -/
def aheads (q : ι → Bool) : List ι → List ℕ
  | [] => []
  | i :: xs => if q i then 0 :: aheads q xs else (aheads q xs).map (· + 1)

/-- The list can be cut, in order, into at most `k` batches: in each, the members and
what stands before any of them are at most `n`. -/
inductive Batchable (n : ℕ) : ℕ → List ℕ → Prop
  | nil (k : ℕ) : Batchable n k []
  | cons {k : ℕ} {batch rest : List ℕ} (room : ∀ b ∈ batch, batch.length + b ≤ n)
      (tail : Batchable n k rest) : Batchable n (k + 1) (batch ++ rest)

theorem aheads_append (xs ys : List ι) :
    aheads q (xs ++ ys)
      = aheads q xs ++ (aheads q ys).map (· + xs.countP fun i => !q i) := by
  induction xs with
  | nil => simp [aheads]
  | cons i xs ih =>
    cases hi : q i <;> simp [aheads, hi, ih, Function.comp_def, Nat.add_assoc]

theorem length_aheads (xs : List ι) : (aheads q xs).length = xs.countP q := by
  induction xs with
  | nil => rfl
  | cons i xs ih => cases hi : q i <;> simp [aheads, hi, ih]

theorem aheads_eq_nil : aheads q xs = [] ↔ ∀ i ∈ xs, q i = false := by
  rw [← List.length_eq_zero_iff, length_aheads, List.countP_eq_zero]
  simp

theorem le_of_mem_aheads (hb : b ∈ aheads q xs) : b ≤ xs.countP fun i => !q i := by
  induction xs generalizing b with
  | nil => cases hb
  | cons i xs ih =>
    cases hi : q i with
    | true =>
      simp only [aheads, hi, if_true, List.mem_cons] at hb
      rcases hb with rfl | hb
      · exact Nat.zero_le _
      · simpa [hi] using ih hb
    | false =>
      simp only [aheads, hi, Bool.false_eq_true, if_false, List.mem_map] at hb
      obtain ⟨c, hc, rfl⟩ := hb
      simpa [hi] using ih hc

/-- A sweep takes the qualifying ones of the first `n` off the front. -/
theorem aheads_sweep : aheads q xs = aheads q (xs.take n) ++ aheads q (sweep n q xs) := by
  have hkept : aheads q ((xs.take n).filter fun i => !q i) = [] :=
    aheads_eq_nil.mpr fun i hi => by simpa using (List.mem_filter.mp hi).2
  have hsplit : aheads q (xs.take n ++ xs.drop n) = _ := aheads_append (xs.take n) (xs.drop n)
  rw [List.take_append_drop] at hsplit
  rw [hsplit, sweep, aheads_append, hkept, List.nil_append, List.countP_filter]
  simp only [Bool.and_self]

/-- A batch that has room is treated by one sweep. -/
theorem length_le_of_room {batch rest : List ℕ} (hsplit : aheads q xs = batch ++ rest)
    (hroom : ∀ b ∈ batch, batch.length + b ≤ n) :
    batch.length ≤ (aheads q (xs.take n)).length := by
  refine Nat.le_of_not_lt fun hlong => ?_
  -- The first candidate past the sweep is in the batch, behind all that the sweep keeps.
  have happend : aheads q (xs.take n ++ xs.drop n) = _ := aheads_append (xs.take n) (xs.drop n)
  rw [List.take_append_drop, hsplit] at happend
  obtain ⟨more, hbatch, hmore⟩ := (List.append_eq_append_iff.mp happend).resolve_left
    fun ⟨_, h, _⟩ => by rw [h, List.length_append] at hlong; omega
  rcases more with - | ⟨b, more⟩
  · rw [hbatch, List.append_nil] at hlong
    exact Nat.lt_irrefl _ hlong
  have hmem : b ∈ (aheads q (xs.drop n)).map (· + (xs.take n).countP fun i => !q i) := by
    rw [hmore]
    exact List.mem_cons_self
  obtain ⟨c, hc, rfl⟩ := List.mem_map.mp hmem
  have hfull : (xs.take n).length = n := by
    refine List.length_take_of_le (Nat.le_of_not_lt fun hlt => ?_)
    rw [List.drop_eq_nil_of_le (Nat.le_of_lt hlt)] at hc
    cases hc
  have hparts := List.length_eq_countP_add_countP q (l := xs.take n)
  have hb := hroom (c + (xs.take n).countP fun i => !q i) (by rw [hbatch]; simp)
  rw [length_aheads] at hlong
  simp only [Bool.not_eq_true, Bool.decide_eq_false] at hparts
  omega

theorem Batchable.drop (h : Batchable n k l) (j : ℕ) :
    Batchable n k (l.drop j) := by
  induction h generalizing j with
  | nil k => rw [List.drop_nil]; exact .nil k
  | @cons k batch rest room _ ih =>
    rw [List.drop_append]
    refine .cons (fun b hb => ?_) (ih _)
    have hle := room b (List.mem_of_mem_drop hb)
    rw [List.length_drop]
    omega

/-- **Sweeps use up the qualifying candidates when these can be cut into as many
batches.** By induction on the sweeps: each takes as many as any batch could. -/
theorem iterate_sweep_clear_iff (k : ℕ) :
    (∀ i ∈ (sweep n q)^[k] xs, q i = false) ↔ Batchable n k (aheads q xs) := by
  induction k generalizing xs with
  | zero =>
    rw [Function.iterate_zero, id, ← aheads_eq_nil]
    constructor
    · intro h
      rw [h]
      exact .nil 0
    · intro h
      generalize aheads q xs = l at h
      cases h
      rfl
  | succ k ih =>
    rw [Function.iterate_succ_apply, ih]
    constructor
    · intro h
      rw [aheads_sweep (n := n)]
      refine .cons (fun b hb => ?_) h
      have hle := le_of_mem_aheads hb
      have hparts := List.length_eq_countP_add_countP q (l := xs.take n)
      have htake := List.length_take_le n xs
      simp only [Bool.not_eq_true, Bool.decide_eq_false] at hparts
      rw [length_aheads]
      omega
    · intro h
      generalize hl : aheads q xs = l at h
      cases h with
      | nil =>
        rw [aheads_sweep (n := n), List.append_eq_nil_iff] at hl
        rw [hl.2]
        exact .nil k
      | @cons _ batch rest room tail =>
        have hle := length_le_of_room hl room
        have hswept : aheads q xs = aheads q (xs.take n) ++ aheads q (sweep n q xs) := aheads_sweep
        have hleft : aheads q (sweep n q xs)
            = rest.drop ((aheads q (xs.take n)).length - batch.length) := by
          rw [← List.nil_append (rest.drop _), ← List.drop_eq_nil_of_le hle, ← List.drop_append,
            ← hl, hswept, List.drop_left]
        rw [hleft]
        exact tail.drop _

/-- What stands before a member of a batch is short of `n`. -/
theorem Batchable.lt (h : Batchable n k l) (hb : b ∈ l) : b < n := by
  induction h with
  | nil => cases hb
  | cons room _ ih =>
    rcases List.mem_append.mp hb with hb | hb
    · have hroom := room b hb
      have hpos := List.length_pos_of_mem hb
      omega
    · exact ih hb

/-- Candidates with nothing before them are used up `n` at a time. -/
theorem Batchable.of_none_ahead (h : ∀ b ∈ l, b = 0) (hlen : l.length ≤ k * n) :
    Batchable n k l := by
  induction k generalizing l with
  | zero =>
    rw [Nat.zero_mul, Nat.le_zero, List.length_eq_zero_iff] at hlen
    rw [hlen]
    exact .nil 0
  | succ k ih =>
    rw [← List.take_append_drop n l]
    refine .cons (fun b hb => ?_) (ih (fun b hb => h b (List.mem_of_mem_drop hb)) ?_)
    · rw [h b (List.mem_of_mem_take hb)]
      exact List.length_take_le n l
    · rw [Nat.succ_mul] at hlen
      rw [List.length_drop]
      omega

/-- A candidate behind `n` that do not qualify is never reached. -/
theorem mem_iterate_sweep_of_blocked {i : ι} {ahead behind : List ι}
    (h : n ≤ ahead.countP fun i => !q i) (k : ℕ) :
    i ∈ (sweep n q)^[k] (ahead ++ i :: behind) := by
  induction k generalizing ahead with
  | zero => simp
  | succ k ih =>
    have hle : n ≤ ahead.length := Nat.le_trans h List.countP_le_length
    have hsweep : sweep n q (ahead ++ i :: behind)
        = sweep n q ahead ++ i :: behind := by
      unfold sweep
      rw [List.take_append_of_le_length hle, List.drop_append_of_le_length hle,
        List.append_assoc]
    rw [Function.iterate_succ_apply, hsweep]
    refine ih ?_
    -- The sweep takes none of those that do not qualify.
    unfold sweep
    rw [List.countP_append, List.countP_filter]
    simp only [Bool.and_self]
    rw [← List.countP_append, List.take_append_drop]
    exact h

end Lists

/-! ## Systems that are swept -/

section Systems

variable {S : Type} [DecidableEq ι] {due : S → List ι} {q : S → ι → Bool} {step : S → ι → S → Prop}
  {I : S → Prop}

/-- Treating one candidate removes it if it qualifies, and changes nothing about the
others. `I` is an invariant of the states the system passes through. -/
structure Tidy (due : S → List ι) (q : S → ι → Bool) (step : S → ι → S → Prop) (I : S → Prop) :
    Prop where
  nodup : ∀ s, I s → (due s).Nodup
  kept : ∀ {s i t}, I s → i ∈ due s → step s i t → I t
  due_eq : ∀ {s i t}, I s → i ∈ due s → step s i t →
    due t = (due s).filter fun k => !(k == i && q s i)
  verdict : ∀ {s i t k}, I s → i ∈ due s → step s i t → k ∈ due t → q t k = q s k

/-- One sweep: the batch is the first `n` candidates, and each is treated in turn. -/
def Swept (due : S → List ι) (step : S → ι → S → Prop) (n : ℕ) (s : S) (batch : List ι) (t : S) :
    Prop := batch = (due s).take n ∧ Run step s batch t

namespace Tidy

/-- Treating a batch removes those of it that qualify. -/
theorem batch (h : Tidy due q step I) {s t : S} {ids : List ι} (hs : I s) (hids : ids.Nodup)
    (hsub : ∀ i ∈ ids, i ∈ due s) (hrun : Run step s ids t) :
    I t ∧ (due t = (due s).filter fun k => !(ids.contains k && q s k)) ∧
      ∀ k ∈ due t, q t k = q s k := by
  induction hrun with
  | nil s => exact ⟨hs, by simp, fun _ _ => rfl⟩
  | @cons s u t i ids head _ ih =>
    have hi := hsub i List.mem_cons_self
    have hdue := h.due_eq hs hi head
    obtain ⟨hnot, hnodup⟩ := List.nodup_cons.mp hids
    have hsub' : ∀ k ∈ ids, k ∈ due u := by
      intro k hk
      rw [hdue, List.mem_filter]
      refine ⟨hsub k (List.mem_cons_of_mem i hk), ?_⟩
      have hne : k ≠ i := fun he => hnot (he ▸ hk)
      simp [hne]
    obtain ⟨ht, hdue', hq⟩ := ih (h.kept hs hi head) hnodup hsub'
    refine ⟨ht, ?_, fun k hk => ?_⟩
    · have hverdict : ∀ k ∈ due u, q u k = q s k := fun k hk => h.verdict hs hi head hk
      have hcongr : ∀ k ∈ due u,
          (!(ids.contains k && q u k)) = (!(ids.contains k && q s k)) := by
        intro k hk
        rw [hverdict k hk]
      rw [hdue', List.filter_congr hcongr, hdue, List.filter_filter]
      refine List.filter_congr fun k _ => ?_
      by_cases hki : k = i
      · subst hki
        cases q s k <;> simp
      · simp [hki]
    · have hku : k ∈ due u := by
        rw [hdue'] at hk
        exact (List.mem_filter.mp hk).1
      rw [hq k hk, h.verdict hs hi head hku]

/-- One sweep leaves what `sweep` says. -/
theorem swept (h : Tidy due q step I) {n : ℕ} {s t : S} {ids : List ι} (hs : I s)
    (hrun : Swept due step n s ids t) :
    I t ∧ due t = sweep n (q s) (due s) ∧ ∀ k ∈ due t, q t k = q s k := by
  obtain ⟨rfl, hrun⟩ := hrun
  have hnodup := h.nodup s hs
  obtain ⟨ht, hdue, hq⟩ := h.batch hs (hnodup.sublist (List.take_sublist _ _))
    (fun i hi => List.mem_of_mem_take hi) hrun
  refine ⟨ht, ?_, hq⟩
  have hsplit := (List.take_append_drop n (due s)).symm
  have hapart : ∀ k ∈ (due s).drop n, k ∉ (due s).take n := by
    intro k hdrop htake
    rw [← List.take_append_drop n (due s), List.nodup_append] at hnodup
    exact hnodup.2.2 k htake k hdrop rfl
  rw [hdue]
  unfold sweep
  nth_rewrite 2 [hsplit]
  rw [List.filter_append]
  congr 1
  · refine List.filter_congr fun k hk => ?_
    simp [hk]
  · rw [List.filter_eq_self]
    intro k hk
    simp [hapart k hk]

end Tidy

end Systems

end Sweeping

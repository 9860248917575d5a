/-
Finite runs of a labelled step relation.

A system is a relation `step s l t`: from `s`, one atomic step labelled `l` may
lead to `t`. A run is a finite sequence of such steps, and its labels are its
trace. Three rules carry every whole-run statement of the layers above: an
invariant kept by each step holds at the end (`Run.invariant`), a preorder
between the two ends of each step relates the two ends of the run
(`Run.related`), and a number that each step raises by what its label is worth
is at the end worth the whole trace (`Run.count`). All three may assume an
invariant already established for the states passed through. A number that
selected steps use up bounds how many of them there are (`Run.spend`). Two more speak of
the steps themselves: what an invariant lets be said of each (`Run.strengthen`),
and that what can happen once happens at most once (`Run.once`).
-/
import Mathlib.Data.List.Basic
import Mathlib.Logic.Function.Basic
import Mathlib.Order.Defs.PartialOrder

namespace Runs

variable {S L : Type}

/-- The runs of `step`: where they start, their labels, where they end. -/
inductive Run (step : S → L → S → Prop) : S → List L → S → Prop where
  | nil (s : S) : Run step s [] s
  | cons {s t u : S} {l : L} {ls : List L} (head : step s l t) (tail : Run step t ls u) :
      Run step s (l :: ls) u

variable {step : S → L → S → Prop}

namespace Run

variable {s u : S} {ls ms : List L} {P : S → Prop} {f : S → ℕ} {c : L → Bool} {K : L → Prop}

/-- Runs that meet compose. -/
theorem append {t : S} (h₁ : Run step s ls t) (h₂ : Run step t ms u) :
    Run step s (ls ++ ms) u := by
  induction h₁ with
  | nil s => exact h₂
  | cons head _ ih => exact .cons head (ih h₂)

/-- A run over a concatenated trace passes through a state between the two. -/
theorem split (h : Run step s (ls ++ ms) u) :
    ∃ t, Run step s ls t ∧ Run step t ms u := by
  induction ls generalizing s with
  | nil => exact ⟨s, .nil s, h⟩
  | cons l ls ih =>
    cases h with
    | cons head tail =>
      obtain ⟨t, ht, hu⟩ := ih tail
      exact ⟨t, .cons head ht, hu⟩

/-- What holds at the start and is kept by each step holds at the end. -/
theorem invariant (hstep : ∀ {s l t}, P s → step s l t → P t) (h : Run step s ls u) (hs : P s) :
    P u := by
  induction h with
  | nil s => exact hs
  | cons head _ ih => exact ih (hstep hs head)

/-- The same, of what is said of a state together with the labels that led to it. -/
theorem history {P : List L → S → Prop}
    (hstep : ∀ {past s l t}, P past s → step s l t → P (past ++ [l]) t) {past : List L}
    (h : Run step s ls u) (hs : P past s) : P (past ++ ls) u := by
  induction h generalizing past with
  | nil s =>
    rw [List.append_nil]
    exact hs
  | @cons s t u l ls head _ ih =>
    have hnext := ih (hstep hs head)
    rw [List.append_assoc] at hnext
    exact hnext

/-- A preorder between the ends of each step relates the ends of the run. `P`
is an invariant of the states passed through. -/
theorem related {R : S → S → Prop} (hrefl : ∀ s, R s s)
    (htrans : ∀ {s t u}, R s t → R t u → R s u) (hinv : ∀ {s l t}, P s → step s l t → P t)
    (hstep : ∀ {s l t}, P s → step s l t → R s t) (h : Run step s ls u) (hs : P s) : R s u := by
  induction h with
  | nil s => exact hrefl s
  | cons head _ ih => exact htrans (hstep hs head) (ih (hinv hs head))

/-- A number that each step raises by one when its label is selected, and keeps
otherwise, ends up raised by the number of selected labels. -/
theorem count (hinv : ∀ {s l t}, P s → step s l t → P t)
    (hstep : ∀ {s l t}, P s → step s l t → f t = f s + (if c l then 1 else 0))
    (h : Run step s ls u) (hs : P s) : f u = f s + ls.countP c := by
  induction h with
  | nil s => rfl
  | @cons s t u l ls head _ ih =>
    rw [ih (hinv hs head), hstep hs head, List.countP_cons]
    omega

/-- A number that no step raises and each selected step lowers bounds the number of
selected steps. -/
theorem spend (hstep : ∀ {s l t}, step s l t → f t + (if c l then 1 else 0) ≤ f s)
    (h : Run step s ls u) : f u + ls.countP c ≤ f s := by
  induction h with
  | nil s => exact Nat.le_refl _
  | @cons s t u l ls head _ ih =>
    have hhead := hstep head
    rw [List.countP_cons]
    omega

/-- Every step of a run starts where the steps before it ended. -/
theorem exists_step_of_mem {l : L} (h : Run step s ls u) (hl : l ∈ ls) :
    ∃ pre post s₁ s₂, ls = pre ++ l :: post ∧ Run step s pre s₁ ∧ step s₁ l s₂ ∧
      Run step s₂ post u := by
  obtain ⟨pre, post, rfl⟩ := List.append_of_mem hl
  obtain ⟨t, hpre, htail⟩ := h.split
  cases htail with
  | cons head tail => exact ⟨pre, post, t, _, rfl, hpre, head, tail⟩

/-- What is known of every label may be added to every step. -/
theorem restrict (h : Run step s ls u) (hok : ∀ l ∈ ls, K l) :
    Run (fun s l t => step s l t ∧ K l) s ls u := by
  induction h with
  | nil s => exact .nil s
  | @cons s t u l ls head _ ih =>
    refine .cons ⟨head, hok l List.mem_cons_self⟩ (ih fun m hm => ?_)
    exact hok m (List.mem_cons_of_mem l hm)

/-- Under an invariant, a run is a run of everything its steps are known to do. -/
theorem strengthen {step' : S → L → S → Prop}
    (hstep : ∀ {s l t}, P s → step s l t → step' s l t ∧ P t) (h : Run step s ls u) (hs : P s) :
    Run step' s ls u ∧ P u := by
  induction h with
  | nil s => exact ⟨.nil s, hs⟩
  | cons head _ ih =>
    obtain ⟨hidle, hP⟩ := hstep hs head
    obtain ⟨htail, hu⟩ := ih hP
    exact ⟨.cons hidle htail, hu⟩

/-- What can happen once happens at most once. Before it, every step is idle or is
the one that does it; after it, every step is idle. `K` restricts the labels that
may come before, `I` is what an idle step does and `F` what the one does. -/
theorem once {I F : S → L → S → Prop} {Q : S → Prop}
    (hbefore : ∀ {s l t}, P s → K l → step s l t → (I s l t ∧ P t) ∨ (F s l t ∧ Q t))
    (hafter : ∀ {s l t}, Q s → step s l t → I s l t ∧ Q t) (h : Run step s ls u) (hs : P s)
    (hok : ∀ l ∈ ls, K l) :
    (Run I s ls u ∧ P u) ∨
      ∃ pre l post s₁ s₂, ls = pre ++ l :: post ∧ Run I s pre s₁ ∧ P s₁ ∧ F s₁ l s₂ ∧
        Q s₂ ∧ Run I s₂ post u ∧ Q u := by
  induction h with
  | nil s => exact .inl ⟨.nil s, hs⟩
  | @cons s t u l ls head tail ih =>
    rcases hbefore hs (hok l List.mem_cons_self) head with ⟨hidle, hP⟩ | ⟨hfires, hQ⟩
    · -- Still before: prepend the idle step to whatever the rest of the run is.
      rcases ih hP (fun m hm => hok m (List.mem_cons_of_mem l hm)) with
        ⟨hrest, hu⟩ | ⟨pre, m, post, s₁, s₂, rfl, hpre, hP₁, hfires, hQ, hpost, hu⟩
      · exact .inl ⟨.cons hidle hrest, hu⟩
      · exact .inr ⟨l :: pre, m, post, s₁, s₂, rfl, .cons hidle hpre, hP₁, hfires, hQ, hpost, hu⟩
    · obtain ⟨hrest, hu⟩ := tail.strengthen (P := Q) (fun hq hstep => hafter hq hstep) hQ
      exact .inr ⟨[], l, ls, s, t, rfl, .nil s, hs, hfires, hQ, hrest, hu⟩

end Run

/-- Many processes, of which one has moved: where each comes from. -/
theorem update_eq_some {P : Type} {procs : ℕ → Option P} {n m : ℕ} {v : Option P} {q : P} :
    Function.update procs n v m = some q ↔ (m = n ∧ v = some q) ∨ (m ≠ n ∧ procs m = some q) := by
  by_cases hmn : m = n
  · rw [hmn, Function.update_self]
    simp
  · rw [Function.update_of_ne hmn]
    simp [hmn]

/-- A process that is over has left the others where they were. -/
theorem of_update_none {P : Type} {procs : ℕ → Option P} {n m : ℕ} {q : P}
    (h : Function.update procs n none m = some q) : procs m = some q := by
  rcases update_eq_some.mp h with ⟨-, hnew⟩ | ⟨-, hold⟩
  · cases hnew
  · exact hold

end Runs

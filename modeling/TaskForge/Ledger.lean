/-
Two lists written in step, and lists numbered from one.

A ledger is kept in two columns that grow together, entry by entry: each entry of
the one stands against one entry of the other (`List.Forall₂`). The lemmas are
the ones that a development needs to use such a pair: an entry finds its
counterpart, in either direction or by its place, and a new pair of entries goes
at the end. A numbered list carries the numbers `1, 2, …` in order; the next
number is one above the highest, and an entry's number says where it stands.
-/
import Mathlib.Data.List.Forall2
import Mathlib.Data.List.Range

namespace Ledger

variable {A B : Type}

/-! ## Two columns -/

section Columns

variable {R : A → B → Prop} {as : List A} {bs : List B}

theorem exists_right (h : List.Forall₂ R as bs) {a : A} (ha : a ∈ as) : ∃ b ∈ bs, R a b := by
  induction h with
  | nil => cases ha
  | @cons x y xs ys hxy _ ih =>
    rcases List.mem_cons.mp ha with rfl | hx
    · exact ⟨y, List.mem_cons_self, hxy⟩
    · obtain ⟨b, hb, hab⟩ := ih hx
      exact ⟨b, List.mem_cons_of_mem y hb, hab⟩

theorem exists_left (h : List.Forall₂ R as bs) {b : B} (hb : b ∈ bs) : ∃ a ∈ as, R a b := by
  obtain ⟨a, ha, hab⟩ := exists_right (List.Forall₂.flip (R := fun y x => R x y) h) hb
  exact ⟨a, ha, hab⟩

/-- Two entries in the same place stand against each other. -/
theorem exists_getElem? (h : List.Forall₂ R as bs) {i : ℕ} {b : B} (hb : bs[i]? = some b) :
    ∃ a, as[i]? = some a ∧ R a b := by
  induction h generalizing i with
  | nil => cases hb
  | @cons x y xs ys hxy _ ih =>
    cases i with
    | zero =>
      cases hb
      exact ⟨x, rfl, hxy⟩
    | succ i => exact ih hb

theorem snoc (h : List.Forall₂ R as bs) {a : A} {b : B} (hab : R a b) :
    List.Forall₂ R (as ++ [a]) (bs ++ [b]) :=
  List.rel_append h (.cons hab .nil)

end Columns

/-! ## Numbers -/

/-- The entries carry the numbers `1, 2, …` in order. -/
def Numbered (number : A → ℕ) (as : List A) : Prop := as.map number = List.range' 1 as.length

namespace Numbered

variable {number : A → ℕ} {as : List A}

theorem nil : Numbered number ([] : List A) := rfl

theorem snoc (h : Numbered number as) {a : A} (ha : number a = as.length + 1) :
    Numbered number (as ++ [a]) := by
  unfold Numbered at h ⊢
  rw [List.map_append, h, List.length_append, List.length_singleton, List.range'_concat,
    List.map_singleton, ha]
  simp [Nat.add_comm]

/-- The last entry carries the highest number. -/
theorem last {a : A} (h : Numbered number (as ++ [a])) : number a = as.length + 1 := by
  have hlast := congrArg List.getLast? h
  rw [List.map_append, List.map_singleton, List.getLast?_concat, List.length_append,
    List.length_singleton, List.range'_concat, List.getLast?_concat, Option.some.injEq] at hlast
  omega

/-- Numbers are between one and the number of entries. -/
theorem bounds (h : Numbered number as) {a : A} (ha : a ∈ as) :
    1 ≤ number a ∧ number a ≤ as.length := by
  have hmem : number a ∈ as.map number := List.mem_map_of_mem ha
  rw [h, List.mem_range'_1] at hmem
  omega

/-- The number of an entry says where it stands. -/
theorem number_of_getElem? (h : Numbered number as) {i : ℕ} {a : A} (ha : as[i]? = some a) :
    number a = i + 1 := by
  have hi : i < as.length := (List.getElem?_eq_some_iff.mp ha).1
  have hmap := congrArg (fun ns => ns[i]?) h
  simp only [List.getElem?_map, ha, Option.map_some, List.getElem?_range' hi,
    Option.some.injEq] at hmap
  omega

/-- An entry is among the first as many as its number says. -/
theorem mem_take (h : Numbered number as) {a : A} (ha : a ∈ as) {n : ℕ} (hn : number a ≤ n) :
    a ∈ as.take n := by
  obtain ⟨i, hi⟩ := List.mem_iff_getElem?.mp ha
  have hnum := h.number_of_getElem? hi
  refine List.mem_iff_getElem?.mpr ⟨i, ?_⟩
  rw [List.getElem?_take_of_lt (by omega), hi]

/-- The starting value of a maximum can be taken last. -/
theorem foldr_max_init (xs : List ℕ) (m : ℕ) : xs.foldr max m = max (xs.foldr max 0) m := by
  induction xs with
  | nil => simp
  | cons x xs ih => rw [List.foldr_cons, List.foldr_cons, ih, max_assoc]

/-- The highest number is the number of entries. -/
theorem foldr_max (h : Numbered number as) : (as.map number).foldr max 0 = as.length := by
  rw [h]
  generalize as.length = n
  induction n with
  | zero => rfl
  | succ n ih =>
    rw [List.range'_concat, List.foldr_append, foldr_max_init, ih, List.foldr_cons, List.foldr_nil]
    omega

end Numbered

end Ledger

/-
A relational table with `CHECK` and `UNIQUE` constraints, and what the two
writing statements do to it.

A table is a list of rows together with the proof that every row passes the
table's check and that no two rows clash on a unique key. A statement that
would break either is refused, so a table that breaks its own constraints
cannot be built: this is the one place where the constraints are enforced, and
everything above reads them off the `checked` and `unique` fields.

The two statements are `insert` (one new row, at the end) and `update` (every
row that satisfies a predicate, rewritten in place). Both rebuild the row list
and hand it to `ofRows`, which decides the constraints.

Most updates hit exactly one row. `replaceRow` is that case, and the lemmas
below say how it meets membership, filters and the end of a list; they are the
whole reasoning interface of the layers above.
-/
import Mathlib.Data.List.Basic
import Mathlib.Data.List.Pairwise
import Mathlib.Data.List.Nodup
import Mathlib.Logic.Basic

namespace Relational

/-! ## Constraints and tables -/

/-- What a table demands: a check on each row, and when two rows clash on some
unique key. A table has a primary key, so a row clashes with itself. -/
structure Constraints (R : Type) where
  check : R → Bool
  clash : R → R → Bool
  clash_symm : ∀ a b, clash a b = clash b a
  clash_refl : ∀ a, clash a a = true

/-- Two rows agree on a unique key. A key may be absent (a `NULL`, or a row
outside a partial index), and absent keys never agree. -/
def sameKey {R κ : Type} [DecidableEq κ] (key : R → Option κ) (a b : R) : Bool :=
  (key a).isSome && decide (key a = key b)

theorem sameKey_comm {R κ : Type} [DecidableEq κ] (key : R → Option κ) (a b : R) :
    sameKey key a b = sameKey key b a := by
  unfold sameKey
  by_cases h : key a = key b
  · rw [h]
  · rw [decide_eq_false h, decide_eq_false (Ne.symm h), Bool.and_false, Bool.and_false]

theorem sameKey_eq_true {R κ : Type} [DecidableEq κ] {key : R → Option κ} {a b : R} :
    sameKey key a b = true ↔ ∃ k, key a = some k ∧ key b = some k := by
  unfold sameKey
  rw [Bool.and_eq_true, decide_eq_true_eq, Option.isSome_iff_exists]
  constructor
  · rintro ⟨⟨k, hk⟩, h⟩
    exact ⟨k, hk, h ▸ hk⟩
  · rintro ⟨k, ha, hb⟩
    exact ⟨⟨k, ha⟩, ha.trans hb.symm⟩

theorem eq_of_sameKey {R κ : Type} [DecidableEq κ] {key : R → Option κ} {a b : R}
    (h : sameKey key a b = true) : key a = key b := by
  obtain ⟨k, ha, hb⟩ := sameKey_eq_true.mp h
  exact ha.trans hb.symm

theorem sameKey_eq_false {R κ : Type} [DecidableEq κ] {key : R → Option κ} {a b : R} :
    sameKey key a b = false ↔ ∀ k, key b = some k → key a ≠ some k := by
  rw [Bool.eq_false_iff, Ne, sameKey_eq_true]
  constructor
  · intro h k hb ha
    exact h ⟨k, ha, hb⟩
  · rintro h ⟨k, ha, hb⟩
    exact h k hb ha

theorem sameKey_self {R κ : Type} [DecidableEq κ] (key : R → Option κ) (a : R)
    (h : (key a).isSome = true) : sameKey key a a = true := by
  rw [sameKey, h, decide_eq_true rfl, Bool.and_true]

/-- How a row can be refused. -/
inductive Violation where
  | check
  | unique
deriving DecidableEq, Repr

variable {R : Type}

/-- The rows of a table, with the constraints they satisfy. -/
@[ext]
structure Table (C : Constraints R) where
  rows : List R
  checked : ∀ r ∈ rows, C.check r = true
  unique : rows.Pairwise (fun a b => C.clash a b = false)

namespace Table

variable {C : Constraints R}
variable {rows : List R} {t t' : Table C} {r a b : R} {p : R → Bool} {f : R → R}

instance [DecidableEq R] : DecidableEq (Table C) := fun s t =>
  decidable_of_iff (s.rows = t.rows) Table.ext_iff.symm

/-- The table without rows. -/
def empty : Table C := ⟨[], by simp, List.Pairwise.nil⟩

/-- The table with exactly these rows, or the constraint they break. -/
def ofRows (C : Constraints R) (rows : List R) : Except Violation (Table C) :=
  if hc : ∀ r ∈ rows, C.check r = true then
    if hu : rows.Pairwise (fun a b => C.clash a b = false) then
      .ok ⟨rows, hc, hu⟩
    else
      .error .unique
  else
    .error .check

/-- `INSERT`: one new row. -/
def insert (t : Table C) (r : R) : Except Violation (Table C) :=
  ofRows C (t.rows ++ [r])

/-- `UPDATE … SET f WHERE p`. -/
def update (t : Table C) (p : R → Bool) (f : R → R) : Except Violation (Table C) :=
  ofRows C (t.rows.map fun r => if p r then f r else r)

/-- How many rows `p` selects: the rows affected by an `UPDATE`, or a
`count(*)`. -/
def count (t : Table C) (p : R → Bool) : ℕ := t.rows.countP p

/-! ## What a successful statement leaves -/

theorem ofRows_rows (h : ofRows C rows = .ok t) :
    t.rows = rows := by
  unfold ofRows at h
  split at h
  · split at h
    · cases h; rfl
    · cases h
  · cases h

theorem insert_rows (h : t.insert r = .ok t') :
    t'.rows = t.rows ++ [r] := ofRows_rows h

theorem update_rows (h : t.update p f = .ok t') :
    t'.rows = t.rows.map fun r => if p r then f r else r := ofRows_rows h

/-- Rows that satisfy the constraints make a table. -/
theorem ofRows_ok (hc : ∀ r ∈ rows, C.check r = true)
    (hu : rows.Pairwise (fun a b => C.clash a b = false)) :
    ofRows C rows = .ok ⟨rows, hc, hu⟩ := by
  unfold ofRows
  rw [dif_pos hc, dif_pos hu]

/-- An insert is accepted when the row passes the check and clashes with no row
that is already there. -/
theorem insert_ok (t : Table C) (hc : C.check r = true) (hu : ∀ x ∈ t.rows, C.clash x r = false) :
    ∃ t', t.insert r = .ok t' := by
  refine ⟨_, ofRows_ok ?_ ?_⟩
  · intro x hx
    rcases List.mem_append.mp hx with h | h
    · exact t.checked x h
    · rw [List.mem_singleton.mp h]; exact hc
  · rw [List.pairwise_append]
    refine ⟨t.unique, List.pairwise_singleton _ _, ?_⟩
    intro a ha b hb
    rw [List.mem_singleton.mp hb]
    exact hu a ha

/-- An update that leaves the unique keys alone, and the rows it selects in order, is
accepted. -/
theorem update_ok (t : Table C) (hcheck : ∀ r ∈ t.rows, p r = true → C.check (f r) = true)
    (hclash : ∀ a b, C.clash (f a) b = C.clash a b) :
    ∃ t', t.update p f = .ok t' := by
  have hboth : ∀ a b, C.clash (if p a then f a else a) (if p b then f b else b) = C.clash a b := by
    intro a b
    have hleft : ∀ c, C.clash (if p a then f a else a) c = C.clash a c := by
      intro c
      split_ifs
      · exact hclash a c
      · rfl
    rw [hleft]
    split_ifs
    · rw [C.clash_symm, hclash, C.clash_symm]
    · rfl
  refine ⟨_, ofRows_ok ?_ ?_⟩
  · intro r hr
    obtain ⟨x, hx, rfl⟩ := List.mem_map.mp hr
    split_ifs with hp
    · exact hcheck x hx hp
    · exact t.checked x hx
  · rw [List.pairwise_map]
    exact t.unique.imp fun {a b} hab => (hboth a b).trans hab

/-! ## Rows that clash are equal -/

/-- Two rows of one table that clash on a unique key are the same row. -/
theorem eq_of_clash (t : Table C) (ha : a ∈ t.rows) (hb : b ∈ t.rows) (h : C.clash a b = true) :
    a = b := by
  by_contra hne
  have hsymm : Std.Symm (fun a b => C.clash a b = false) :=
    ⟨fun x y hxy => by rw [C.clash_symm]; exact hxy⟩
  have hab : C.clash a b = false := List.Pairwise.forall t.unique ha hb hne
  rw [h] at hab
  exact Bool.noConfusion hab

/-- Different rows of a table do not clash. -/
theorem clash_eq_false (t : Table C) (ha : a ∈ t.rows) (hb : b ∈ t.rows) (hne : a ≠ b) :
    C.clash a b = false := by
  rw [Bool.eq_false_iff]
  exact fun hclash => hne (t.eq_of_clash ha hb hclash)

/-- No row is stored twice. -/
theorem nodup (t : Table C) : t.rows.Nodup := by
  refine t.unique.imp ?_
  rintro a b hab rfl
  rw [C.clash_refl] at hab
  exact Bool.noConfusion hab

/-- At most one row satisfies a predicate whose rows clash. -/
theorem countP_le_one (t : Table C) (h : ∀ a b, p a = true → p b = true → C.clash a b = true) :
    t.rows.countP p ≤ 1 := by
  have key : ∀ rows : List R, rows.Pairwise (fun a b => C.clash a b = false) →
      rows.countP p ≤ 1 := by
    intro rows
    induction rows with
    | nil => exact fun _ => Nat.zero_le 1
    | cons r rows ih =>
      intro hpair
      rw [List.pairwise_cons] at hpair
      rw [List.countP_cons]
      by_cases hr : p r = true
      · -- The first row has the key, so no later one has.
        have hnone : rows.countP p = 0 := by
          rw [List.countP_eq_zero]
          intro x hx hpx
          have hclash := h r x hr hpx
          rw [hpair.1 x hx] at hclash
          exact Bool.noConfusion hclash
        have hone : rows.countP p + (if p r = true then 1 else 0) = 1 := by rw [hnone, if_pos hr]
        exact Nat.le_of_eq hone
      · rw [if_neg hr]
        exact ih hpair.2
  exact key t.rows t.unique

end Table

/-! ## Replacing one row -/

variable [DecidableEq R]

/-- The rows with `old` rewritten to `new`. -/
def replaceRow (old new : R) (rows : List R) : List R :=
  rows.map fun r => if r = old then new else r

theorem mem_replaceRow {old new r : R} {rows : List R} :
    r ∈ replaceRow old new rows ↔ (r ∈ rows ∧ r ≠ old) ∨ (r = new ∧ old ∈ rows) := by
  unfold replaceRow
  rw [List.mem_map]
  constructor
  · rintro ⟨x, hx, rfl⟩
    by_cases h : x = old
    · rw [if_pos h]; exact .inr ⟨rfl, h ▸ hx⟩
    · rw [if_neg h]; exact .inl ⟨hx, h⟩
  · rintro (⟨hr, hne⟩ | ⟨rfl, ho⟩)
    · exact ⟨r, hr, if_neg hne⟩
    · exact ⟨old, ho, if_pos rfl⟩

@[simp] theorem replaceRow_self (r : R) (rows : List R) : replaceRow r r rows = rows := by
  unfold replaceRow
  rw [List.map_congr_left (g := id), List.map_id]
  intro x _
  split
  · next h => exact h.symm
  · rfl

theorem replaceRow_of_not_mem {old new : R} {rows : List R} (h : old ∉ rows) :
    replaceRow old new rows = rows := by
  unfold replaceRow
  rw [List.map_congr_left (g := id), List.map_id]
  intro x hx
  exact if_neg fun (he : x = old) => h (he ▸ hx)

/-- Replacing the last row of a list in which it occurs once. -/
theorem replaceRow_concat {old new : R} {past : List R} (h : old ∉ past) :
    replaceRow old new (past ++ [old]) = past ++ [new] := by
  have hpast : replaceRow old new past = past := replaceRow_of_not_mem h
  unfold replaceRow at hpast ⊢
  rw [List.map_append, hpast]
  simp

/-- A column the replacement keeps reads the same on the whole list. -/
theorem map_replaceRow {α : Type} (g : R → α) {old new : R} (h : g new = g old) (rows : List R) :
    (replaceRow old new rows).map g = rows.map g := by
  unfold replaceRow
  rw [List.map_map]
  refine List.map_congr_left fun x _ => ?_
  simp only [Function.comp_apply]
  split
  · next hx => rw [hx, h]
  · rfl

/-- A replacement that is not counted unless the row it replaces was does not raise
a count. -/
theorem countP_replaceRow_le (p : R → Bool) {old new : R} (h : p new = true → p old = true)
    (rows : List R) : (replaceRow old new rows).countP p ≤ rows.countP p := by
  unfold replaceRow
  rw [List.countP_map]
  refine List.countP_mono_left fun x _ hx => ?_
  simp only [Function.comp_apply] at hx
  split at hx
  · next heq => rw [heq]; exact h hx
  · exact hx

/-- Replacing a row that is stored once moves a count by what the two rows count
for. -/
theorem countP_replaceRow (p : R → Bool) {old new : R} {rows : List R} (hnodup : rows.Nodup)
    (hmem : old ∈ rows) :
    (replaceRow old new rows).countP p + (if p old then 1 else 0)
      = rows.countP p + (if p new then 1 else 0) := by
  induction rows with
  | nil => cases hmem
  | cons x rows ih =>
    have hcons : replaceRow old new (x :: rows)
        = (if x = old then new else x) :: replaceRow old new rows := rfl
    rw [hcons, List.countP_cons, List.countP_cons]
    by_cases hx : x = old
    · -- The row at the head is the one replaced, and it does not come again.
      rw [hx] at hnodup
      rw [if_pos hx, replaceRow_of_not_mem (List.nodup_cons.mp hnodup).1, hx]
      omega
    · have htail := ih (List.nodup_cons.mp hnodup).2
        ((List.mem_cons.mp hmem).resolve_left (Ne.symm hx))
      rw [if_neg hx]
      omega

/-- A filter that cannot tell the two rows apart commutes with replacing one by
the other. -/
theorem filter_replaceRow (p : R → Bool) {old new : R} (h : p new = p old) (rows : List R) :
    (replaceRow old new rows).filter p = replaceRow old new (rows.filter p) := by
  unfold replaceRow
  rw [List.filter_map]
  congr 1
  refine List.filter_congr fun x _ => ?_
  simp only [Function.comp_apply]
  split
  · next hx => rw [hx, h]
  · rfl

/-- A filter that drops both rows does not see the replacement. -/
theorem filter_replaceRow_of_neg (p : R → Bool) {old new : R} (ho : p old = false)
    (hn : p new = false) (rows : List R) :
    (replaceRow old new rows).filter p = rows.filter p := by
  rw [filter_replaceRow p (hn.trans ho.symm)]
  refine replaceRow_of_not_mem fun h => ?_
  rw [(List.mem_filter.mp h).2] at ho
  exact Bool.noConfusion ho

omit [DecidableEq R] in
theorem found_of_find? {rows : List R} {p : R → Bool} {r : R} (h : rows.find? p = some r) :
    r ∈ rows ∧ p r = true := ⟨List.mem_of_find?_eq_some h, List.find?_some h⟩

omit [DecidableEq R] in
/-- A search finds the row it describes when that row is the only one. -/
theorem find?_eq_some_of_unique {rows : List R} {p : R → Bool} {r : R} (hr : r ∈ rows)
    (hp : p r = true) (huniq : ∀ x ∈ rows, p x = true → x = r) : rows.find? p = some r := by
  cases hf : rows.find? p with
  | none => exact absurd hp (List.find?_eq_none.mp hf r hr)
  | some x => rw [huniq x (List.mem_of_find?_eq_some hf) (List.find?_some hf)]

/-- A search that neither row satisfies does not see the replacement. -/
theorem find?_replaceRow_of_neg (p : R → Bool) {old new : R} (ho : p old = false)
    (hn : p new = false) (rows : List R) :
    (replaceRow old new rows).find? p = rows.find? p := by
  rw [← List.head?_filter, ← List.head?_filter, filter_replaceRow_of_neg p ho hn]

/-! ## Statements that hit one row -/

namespace Table

variable {C : Constraints R}
variable {p : R → Bool} {f : R → R} {old : R}

/-- An update whose predicate selects one row only replaces that row. -/
theorem update_rows_single {t t' : Table C} (h : t.update p f = .ok t') (hp : p old = true)
    (huniq : ∀ x ∈ t.rows, p x = true → x = old) :
    t'.rows = replaceRow old (f old) t.rows := by
  rw [update_rows h]
  unfold replaceRow
  refine List.map_congr_left fun x hx => ?_
  by_cases hxo : x = old
  · rw [hxo, if_pos hp, if_pos rfl]
  · rw [if_neg hxo, if_neg]
    exact fun hpx => hxo (huniq x hx hpx)

/-- An update of one row is accepted when the new row passes the check and
clashes with none of the others. -/
theorem update_ok_single (t : Table C) (hp : p old = true)
    (huniq : ∀ x ∈ t.rows, p x = true → x = old) (hc : C.check (f old) = true)
    (hu : ∀ x ∈ t.rows, x ≠ old → C.clash x (f old) = false) :
    ∃ t', t.update p f = .ok t' := by
  have hne : ∀ x ∈ t.rows, x ≠ old → p x = false := by
    intro x hx hxo
    by_contra hpx
    exact hxo (huniq x hx (by simpa using hpx))
  refine ⟨_, ofRows_ok ?_ ?_⟩
  · intro r hr
    obtain ⟨x, hx, rfl⟩ := List.mem_map.mp hr
    by_cases hxo : x = old
    · rw [hxo, if_pos hp]; exact hc
    · rw [hne x hx hxo]; exact t.checked x hx
  · rw [List.pairwise_map]
    refine t.unique.imp_of_mem ?_
    intro a b ha hb hab
    by_cases hao : a = old <;> by_cases hbo : b = old
    · -- The same row twice would already have clashed with itself.
      rw [hao, hbo, C.clash_refl] at hab
      exact Bool.noConfusion hab
    · rw [hao, if_pos hp, hne b hb hbo, C.clash_symm]
      exact hu b hb hbo
    · rw [hbo, if_pos hp, hne a ha hao]
      exact hu a ha hao
    · rw [hne a ha hao, hne b hb hbo]
      exact hab

/-- One matching row is a count of one. -/
theorem count_eq_one (t : Table C) (ho : old ∈ t.rows) (hp : p old = true)
    (huniq : ∀ x ∈ t.rows, p x = true → x = old) : t.count p = 1 := by
  have hcongr : t.rows.countP p = t.rows.count old := by
    refine List.countP_congr fun x hx => ?_
    rw [beq_iff_eq]
    exact ⟨fun hpx => huniq x hx hpx, fun hxo => hxo ▸ hp⟩
  rw [count, hcongr]
  exact List.count_eq_one_of_mem t.nodup ho

end Table

/-! ## What one transaction writes to one table

At most one row: nothing, a new row, or a new version of a row that is there. A
group of rows (those with `key r = k`) sees a write to one of its own rows as the
same write, and does not see a write to a row of another group. -/

/-- The write of one transaction to one table. -/
inductive RowWrite (R : Type) where
  | keep
  | insert (r : R)
  | replace (old new : R)
deriving DecidableEq

namespace RowWrite

/-- The rows after the write. -/
def apply : RowWrite R → List R → List R
  | .keep, rows => rows
  | .insert r, rows => rows ++ [r]
  | .replace old new, rows => replaceRow old new rows

/-- The write stays within one group, and replaces a row that is there. -/
def Within {κ : Type} (key : R → κ) (k : κ) (rows : List R) : RowWrite R → Prop
  | .keep => True
  | .insert r => key r = k
  | .replace old new => old ∈ rows ∧ key old = k ∧ key new = k

/-- Where a row comes from: it was there, or it is the row written. -/
theorem mem_apply {w : RowWrite R} {rows : List R} {r : R} (h : r ∈ w.apply rows) :
    r ∈ rows ∨ w = .insert r ∨ ∃ old ∈ rows, w = .replace old r := by
  cases w with
  | keep => exact .inl h
  | insert x =>
    rcases List.mem_append.mp h with hr | hr
    · exact .inl hr
    · rw [List.mem_singleton.mp hr]
      exact .inr (.inl rfl)
  | replace old new =>
    rcases mem_replaceRow.mp h with ⟨hr, -⟩ | ⟨rfl, ho⟩
    · exact .inl hr
    · exact .inr (.inr ⟨old, ho, rfl⟩)

/-- What becomes of a row: it stays, or it is the row replaced. -/
theorem kept_or_replaced {w : RowWrite R} {rows : List R} {r : R} (h : r ∈ rows) :
    r ∈ w.apply rows ∨ ∃ new, w = .replace r new ∧ new ∈ w.apply rows := by
  cases w with
  | keep => exact .inl h
  | insert x => exact .inl (List.mem_append_left _ h)
  | replace old new =>
    by_cases hr : r = old
    · exact .inr ⟨new, by rw [hr], mem_replaceRow.mpr (.inr ⟨rfl, hr ▸ h⟩)⟩
    · exact .inl (mem_replaceRow.mpr (.inl ⟨h, hr⟩))

variable {κ : Type} [DecidableEq κ] {key : R → κ} {k k' : κ} {rows : List R} {w : RowWrite R}

/-- The group written to sees the same write. -/
theorem filter_apply (h : w.Within key k rows) :
    (w.apply rows).filter (fun r => decide (key r = k)) = w.apply (rows.filter fun r => decide (key r = k)) := by
  cases w with
  | keep => rfl
  | insert r =>
    have hr : key r = k := h
    simp [apply, hr]
  | replace old new =>
    obtain ⟨-, ho, hn⟩ := h
    exact filter_replaceRow _ (by simp [ho, hn]) rows

/-- Every other group is as it was. -/
theorem filter_apply_of_ne (h : w.Within key k rows) (hk : k' ≠ k) :
    (w.apply rows).filter (fun r => decide (key r = k')) = rows.filter fun r => decide (key r = k') := by
  cases w with
  | keep => rfl
  | insert r =>
    have hr : key r ≠ k' := fun he => hk (he.symm.trans h)
    simp [apply, hr]
  | replace old new =>
    obtain ⟨-, ho, hn⟩ := h
    exact filter_replaceRow_of_neg _ (by simp [ho, hk.symm]) (by simp [hn, hk.symm]) rows

end RowWrite

/-! ## Writes the constraints admit -/

namespace Table

variable {C : Constraints R}

/-- The written row passes its check and clashes with no row that stays. -/
def Admits (t : Table C) : RowWrite R → Prop
  | .keep => True
  | .insert r => C.check r = true ∧ ∀ x ∈ t.rows, C.clash x r = false
  | .replace old new => C.check new = true ∧ ∀ x ∈ t.rows, x ≠ old → C.clash x new = false

omit [DecidableEq R] in
/-- A row that stands behind those of the table in another was admitted by it. -/
theorem admits_insert_of_rows {t t' : Table C} {rs : List R} (h : t'.rows = t.rows ++ rs) {r : R}
    (hr : r ∈ rs) : t.Admits (.insert r) := by
  have hunique := t'.unique
  rw [h, List.pairwise_append] at hunique
  exact ⟨t'.checked r (h ▸ List.mem_append_right _ hr), fun x hx => hunique.2.2 x hx r hr⟩

/-- A row that stands in the place of another was admitted there. -/
theorem admits_of_apply {t t' : Table C} {w : RowWrite R} (h : t'.rows = w.apply t.rows)
    (hold : ∀ old new, w = .replace old new → old ∈ t.rows) : t.Admits w := by
  cases w with
  | keep => trivial
  | insert r => exact admits_insert_of_rows h List.mem_cons_self
  | replace old new =>
    have hmem := hold old new rfl
    have hrows : t'.rows = t.rows.map fun r => if r = old then new else r := h
    have hunique := t'.unique
    rw [hrows, List.pairwise_map] at hunique
    refine ⟨t'.checked new ?_, fun x hx hne => ?_⟩
    · rw [h]
      exact mem_replaceRow.mpr (.inr ⟨rfl, hmem⟩)
    · have hsymm : Std.Symm fun a b : R =>
          C.clash (if a = old then new else a) (if b = old then new else b) = false :=
        ⟨fun a b hab => by rw [C.clash_symm, hab]⟩
      have hapart := hunique.forall hx hmem hne
      rwa [if_neg hne, if_pos rfl] at hapart

omit [DecidableEq R] in
/-- An insert is accepted exactly when the constraints admit the row. -/
theorem insert_eq_ok_iff (t : Table C) {r : R} :
    (∃ t', t.insert r = .ok t') ↔ t.Admits (.insert r) := by
  constructor
  · rintro ⟨t', h⟩
    exact admits_insert_of_rows (insert_rows h) List.mem_cons_self
  · rintro ⟨hcheck, hclash⟩
    exact t.insert_ok hcheck hclash

omit [DecidableEq R] in
/-- A row rewritten so that it takes no key of another row is admitted. -/
theorem admits_replace (t : Table C) {old new : R} (hold : old ∈ t.rows)
    (hcheck : C.check new = true)
    (hkeys : ∀ x ∈ t.rows, C.clash x old = false → C.clash x new = false) :
    t.Admits (.replace old new) :=
  ⟨hcheck, fun x hx hne => hkeys x hx (t.clash_eq_false hx hold hne)⟩

end Table

end Relational

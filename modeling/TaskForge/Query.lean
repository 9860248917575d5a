/-
Reading a table: what a query selects, the order it answers in, and one page of it.

A `SELECT` does not see the order in which a table keeps its rows. It sees which
rows satisfy its condition, and it sorts them by a key that tells them apart. So
two tables that hold the same rows among those a condition admits answer every
query under that condition alike: `SameOn` is that relation, and each lemma below
carries it through one clause (`find?` for a keyed read, `countP` for `count(*)`,
`orderBy` for `ORDER BY`). The same relation, for the rows outside a condition, says
what a write leaves alone.

A keyset listing asks for the rows after a position, in the order of the key, one
more than the page holds; the extra row says whether there is a next page.
-/
import TaskForge.Table
import Mathlib.Data.Prod.Basic
import Mathlib.Order.Lattice

namespace Relational

variable {R κ κ₁ κ₂ : Type} {p : R → Prop} {rows rows' : List R} {key : R → κ}

/-! ## Tables that hold the same rows under a condition -/

/-- The two lists hold the same rows among those that satisfy `p`. -/
def SameOn (p : R → Prop) (rows rows' : List R) : Prop := ∀ r, p r → (r ∈ rows' ↔ r ∈ rows)

theorem SameOn.refl (p : R → Prop) (rows : List R) : SameOn p rows rows := fun _ _ => Iff.rfl

/-- The condition can be decided by filtering. -/
theorem SameOn.of_filter_eq [DecidablePred p]
    (h : (rows'.filter fun r => decide (p r)) = rows.filter fun r => decide (p r)) :
    SameOn p rows rows' := by
  intro r hr
  have hmem : r ∈ (rows'.filter fun r => decide (p r)) ↔ r ∈ rows.filter fun r => decide (p r) := by
    rw [h]
  rw [List.mem_filter, List.mem_filter, decide_eq_true_eq] at hmem
  exact ⟨fun hr' => (hmem.mp ⟨hr', hr⟩).1, fun hr' => (hmem.mpr ⟨hr', hr⟩).1⟩

/-- A narrower condition is enough, and it need only be narrower on rows that are
there. -/
theorem SameOn.restrict {q : R → Prop} (h : SameOn p rows rows') (hq : ∀ r ∈ rows, q r → p r)
    (hq' : ∀ r ∈ rows', q r → p r) : SameOn q rows rows' := by
  intro r hr
  constructor
  · intro hmem
    exact (h r (hq' r hmem hr)).mp hmem
  · intro hmem
    exact (h r (hq r hmem hr)).mpr hmem

/-- New rows outside the condition are not seen under it. -/
theorem SameOn.append (rows : List R) {new : List R} (h : ∀ r ∈ new, ¬p r) :
    SameOn p rows (rows ++ new) := by
  intro r hr
  rw [List.mem_append]
  refine ⟨?_, .inl⟩
  rintro (hmem | hmem)
  · exact hmem
  · exact absurd hr (h r hmem)

/-- A write within one group is not seen by the others. -/
theorem RowWrite.sameOn [DecidableEq R] {w : RowWrite R} {k : κ} (h : w.Within key k rows) :
    SameOn (fun r => key r ≠ k) rows (w.apply rows) := by
  cases w with
  | keep => exact .refl _ rows
  | insert new =>
    refine .append rows fun r hr hne => ?_
    rw [List.mem_singleton.mp hr] at hne
    exact hne h
  | replace old new =>
    obtain ⟨-, hold, hnew⟩ := h
    intro r hr
    rw [show (RowWrite.replace old new).apply rows = replaceRow old new rows from rfl,
      mem_replaceRow]
    constructor
    · rintro (⟨hmem, -⟩ | ⟨rfl, -⟩)
      · exact hmem
      · exact absurd hnew hr
    · intro hmem
      exact .inl ⟨hmem, fun he => hr (he ▸ hold)⟩

section Reads

variable {C : Constraints R} {t t' : Table C} {q : R → Bool}

/-- A read by a unique key. -/
theorem SameOn.find?_eq (h : SameOn (fun r => q r = true) t.rows t'.rows)
    (hkey : ∀ a b, q a = true → q b = true → C.clash a b = true) :
    t'.rows.find? q = t.rows.find? q := by
  cases hf : t.rows.find? q with
  | none =>
    rw [List.find?_eq_none] at hf ⊢
    intro r hmem hr
    exact hf r ((h r hr).mp hmem) hr
  | some r =>
    have hr := List.find?_some hf
    have hmem : r ∈ t'.rows := (h r hr).mpr (List.mem_of_find?_eq_some hf)
    cases hf' : t'.rows.find? q with
    | none => exact absurd hr (List.find?_eq_none.mp hf' r hmem)
    | some r' =>
      have hclash := hkey r' r (List.find?_some hf') hr
      rw [t'.eq_of_clash (List.mem_of_find?_eq_some hf') hmem hclash]

/-- The selected rows, in some order. -/
theorem SameOn.filter_perm (h : SameOn (fun r => q r = true) t.rows t'.rows) :
    (t'.rows.filter q).Perm (t.rows.filter q) := by
  rw [List.perm_ext_iff_of_nodup (t'.nodup.filter _) (t.nodup.filter _)]
  intro r
  rw [List.mem_filter, List.mem_filter]
  constructor
  · rintro ⟨hmem, hr⟩
    exact ⟨(h r hr).mp hmem, hr⟩
  · rintro ⟨hmem, hr⟩
    exact ⟨(h r hr).mpr hmem, hr⟩

/-- `count(*)` -/
theorem SameOn.countP_eq (h : SameOn (fun r => q r = true) t.rows t'.rows) :
    t'.rows.countP q = t.rows.countP q := by
  rw [List.countP_eq_length_filter, List.countP_eq_length_filter, h.filter_perm.length_eq]

end Reads

/-! ## Sort orders -/

/-- What `ORDER BY` sorts by: a total order. -/
structure SortOrder (κ : Type) where
  le : κ → κ → Bool
  trans : ∀ a b c, le a b = true → le b c = true → le a c = true
  total : ∀ a b, (le a b || le b a) = true
  antisymm : ∀ a b, le a b = true → le b a = true → a = b

namespace SortOrder

/-- `ASC`, on a column with its own order. -/
def asc (κ : Type) [LinearOrder κ] : SortOrder κ where
  le a b := decide (a ≤ b)
  trans a b c hab hbc := decide_eq_true (le_trans (of_decide_eq_true hab) (of_decide_eq_true hbc))
  total a b := by
    rw [Bool.or_eq_true, decide_eq_true_eq, decide_eq_true_eq]
    exact le_total a b
  antisymm a b hab hba := le_antisymm (of_decide_eq_true hab) (of_decide_eq_true hba)

/-- `DESC` -/
def reverse (o : SortOrder κ) : SortOrder κ where
  le a b := o.le b a
  trans a b c hab hbc := o.trans c b a hbc hab
  total a b := o.total b a
  antisymm a b hab hba := o.antisymm a b hba hab

/-- The order of a column that another column's order sorts. -/
def comap (o : SortOrder κ₁) (f : κ₂ → κ₁) (hf : Function.Injective f) : SortOrder κ₂ where
  le a b := o.le (f a) (f b)
  trans a b c := o.trans (f a) (f b) (f c)
  total a b := o.total (f a) (f b)
  antisymm a b hab hba := hf (o.antisymm (f a) (f b) hab hba)

/-- Two columns, the second among equals of the first. -/
def lex (o₁ : SortOrder κ₁) (o₂ : SortOrder κ₂) : SortOrder (κ₁ × κ₂) where
  le a b := o₁.le a.1 b.1 && (!o₁.le b.1 a.1 || o₂.le a.2 b.2)
  trans a b c := by
    simp only [Bool.and_eq_true, Bool.or_eq_true, Bool.not_eq_true']
    rintro ⟨hab, hab'⟩ ⟨hbc, hbc'⟩
    refine ⟨o₁.trans _ _ _ hab hbc, ?_⟩
    by_cases hca : o₁.le c.1 a.1 = true
    · -- The three are equal in the first column, so the second decides.
      have hba : o₁.le b.1 a.1 = true := o₁.trans _ _ _ hbc hca
      have hcb : o₁.le c.1 b.1 = true := o₁.trans _ _ _ hca hab
      rw [hba] at hab'
      rw [hcb] at hbc'
      refine .inr (o₂.trans _ _ _ (hab'.resolve_left ?_) (hbc'.resolve_left ?_)) <;> simp
    · exact .inl (Bool.eq_false_iff.mpr hca)
  total a b := by
    have h₁ := o₁.total a.1 b.1
    have h₂ := o₂.total a.2 b.2
    cases hab : o₁.le a.1 b.1 <;> cases hba : o₁.le b.1 a.1 <;> simp_all
  antisymm a b := by
    simp only [Bool.and_eq_true, Bool.or_eq_true, Bool.not_eq_true']
    rintro ⟨hab, hab'⟩ ⟨hba, hba'⟩
    rw [hba] at hab'
    rw [hab] at hba'
    have h₂ : a.2 = b.2 :=
      o₂.antisymm _ _ (hab'.resolve_left (by simp)) (hba'.resolve_left (by simp))
    exact Prod.ext (o₁.antisymm _ _ hab hba) h₂

end SortOrder

variable {o : SortOrder κ} {q : R → Bool} {r : R} {position : Option κ}

/-- `ORDER BY` -/
def orderBy (o : SortOrder κ) (key : R → κ) (rows : List R) : List R :=
  rows.mergeSort fun a b => o.le (key a) (key b)

theorem orderBy_perm (o : SortOrder κ) (key : R → κ) (rows : List R) :
    (orderBy o key rows).Perm rows := List.mergeSort_perm _ _

theorem orderBy_pairwise (o : SortOrder κ) (key : R → κ) (rows : List R) :
    (orderBy o key rows).Pairwise fun a b => o.le (key a) (key b) = true :=
  List.pairwise_mergeSort (fun a b c => o.trans (key a) (key b) (key c))
    (fun a b => o.total (key a) (key b)) rows

/-- The answer does not depend on where the rows stand, if the key tells them
apart. -/
theorem orderBy_congr (hperm : rows'.Perm rows)
    (hkey : ∀ a ∈ rows, ∀ b ∈ rows, key a = key b → a = b) :
    orderBy o key rows' = orderBy o key rows := by
  have hperm' := (orderBy_perm o key rows').trans (hperm.trans (orderBy_perm o key rows).symm)
  refine List.Perm.eq_of_pairwise ?_ (orderBy_pairwise o key rows') (orderBy_pairwise o key rows)
    hperm'
  intro a b ha hb hab hba
  have ha' := (orderBy_perm o key rows).mem_iff.mp (hperm'.mem_iff.mp ha)
  have hb' := (orderBy_perm o key rows).mem_iff.mp hb
  exact hkey a ha' b hb' (o.antisymm _ _ hab hba)

/-- `ORDER BY` keeps the order under a further condition. -/
theorem orderBy_filter (p : R → Bool) (hkey : ∀ a ∈ rows, ∀ b ∈ rows, key a = key b → a = b) :
    orderBy o key (rows.filter p) = (orderBy o key rows).filter p := by
  refine List.Perm.eq_of_pairwise ?_ (orderBy_pairwise o key _)
    ((orderBy_pairwise o key rows).filter _)
    ((orderBy_perm o key _).trans ((orderBy_perm o key rows).filter p).symm)
  intro a b ha hb hab hba
  have ha' := (List.mem_filter.mp ((orderBy_perm o key _).mem_iff.mp ha)).1
  have hb' := (orderBy_perm o key rows).mem_iff.mp (List.mem_filter.mp hb).1
  exact hkey a ha' b hb' (o.antisymm _ _ hab hba)

/-- Rows that are changed outside the key keep their places. -/
theorem orderBy_map {R' : Type} (o : SortOrder κ) {key' : R' → κ} {f : R → R'}
    (hf : ∀ r, key' (f r) = key r) (rows : List R) :
    orderBy o key' (rows.map f) = (orderBy o key rows).map f := by
  unfold orderBy
  symm
  apply List.map_mergeSort
  intro a _ b _
  rw [hf, hf]

/-- `EXISTS` under a condition that neither row satisfies does not see one replaced by
the other. -/
theorem any_replaceRow_of_neg [DecidableEq R] {p : R → Bool} {old new : R} (ho : p old = false)
    (hn : p new = false) (rows : List R) : (replaceRow old new rows).any p = rows.any p := by
  rw [Bool.eq_iff_iff, List.any_eq_true, List.any_eq_true]
  constructor
  · rintro ⟨r, hr, hp⟩
    rcases mem_replaceRow.mp hr with ⟨hr, -⟩ | ⟨rfl, -⟩
    · exact ⟨r, hr, hp⟩
    · rw [hn] at hp
      cases hp
  · rintro ⟨r, hr, hp⟩
    refine ⟨r, mem_replaceRow.mpr (.inl ⟨hr, ?_⟩), hp⟩
    rintro rfl
    rw [ho] at hp
    cases hp

/-- `EXISTS` under a condition that holds of one row at most asks about that row. -/
theorem any_eq_of_unique {p : R → Bool} (hr : r ∈ rows) (hp : p r = true)
    (huniq : ∀ x ∈ rows, p x = true → x = r) : (rows.any fun x => p x && q x) = q r := by
  rw [Bool.eq_iff_iff, List.any_eq_true]
  constructor
  · rintro ⟨x, hx, hpq⟩
    obtain ⟨hpx, hqx⟩ := Bool.and_eq_true_iff.mp hpq
    rwa [huniq x hx hpx] at hqx
  · intro hq
    exact ⟨r, hr, by rw [hp, hq]; rfl⟩

/-! ## Scans for candidates -/

/-- `SELECT id WHERE p ORDER BY key, id` -/
def scan {ι : Type} (o : SortOrder (κ × ι)) (p : R → Bool) (key : R → κ) (id : R → ι)
    (rows : List R) : List ι :=
  (orderBy o (fun r => (key r, id r)) (rows.filter p)).map id

section Scans

variable {ι : Type} {o : SortOrder (κ × ι)} {p : R → Bool} {id : R → ι}

theorem mem_scan {i : ι} : i ∈ scan o p key id rows ↔ ∃ r ∈ rows, p r = true ∧ id r = i := by
  unfold scan
  rw [List.mem_map]
  constructor
  · rintro ⟨r, hr, rfl⟩
    rw [(orderBy_perm _ _ _).mem_iff, List.mem_filter] at hr
    exact ⟨r, hr.1, hr.2, rfl⟩
  · rintro ⟨r, hr, hp, rfl⟩
    exact ⟨r, (orderBy_perm _ _ _).mem_iff.mpr (List.mem_filter.mpr ⟨hr, hp⟩), rfl⟩

/-- Rows that stand in order are answered as they stand. -/
theorem scan_of_sorted {ids : List ι} (h : ((rows.filter p).Pairwise fun a b =>
      o.le (key a, id a) (key b, id b) = true) ∧ (rows.filter p).map id = ids) :
    scan o p key id rows = ids := by
  unfold scan orderBy
  rw [List.mergeSort_of_pairwise h.1, h.2]

theorem nodup_scan (hrows : rows.Nodup) (hid : ∀ a ∈ rows, ∀ b ∈ rows, id a = id b → a = b) :
    (scan o p key id rows).Nodup := by
  have hmem : ∀ r ∈ orderBy o (fun r => (key r, id r)) (rows.filter p), r ∈ rows := by
    intro r hr
    exact (List.mem_filter.mp ((orderBy_perm _ _ _).mem_iff.mp hr)).1
  refine List.Nodup.map_on (fun a ha b hb => hid a (hmem a ha) b (hmem b hb)) ?_
  exact (orderBy_perm _ _ _).nodup_iff.mpr (hrows.filter _)

/-- A row that no longer satisfies the condition leaves the scan, and the others keep
their places. -/
theorem scan_replaceRow [DecidableEq R] [DecidableEq ι] {old new : R} (hold : old ∈ rows)
    (hnew : p new = false) (hid : ∀ a ∈ rows, ∀ b ∈ rows, id a = id b → a = b) :
    scan o p key id (replaceRow old new rows)
      = (scan o p key id rows).filter fun i => i != id old := by
  have hfilter : (replaceRow old new rows).filter p
      = (rows.filter p).filter fun r => decide (r ≠ old) := by
    rw [List.filter_filter]
    clear hold hid
    induction rows with
    | nil => rfl
    | cons r rows ih =>
      rw [show replaceRow old new (r :: rows)
        = (if r = old then new else r) :: replaceRow old new rows from rfl,
        List.filter_cons, List.filter_cons, ih]
      by_cases hr : r = old
      · simp [hr, hnew]
      · simp [hr]
  have hmem : ∀ r ∈ rows.filter p, r ∈ rows := fun r hr => (List.mem_filter.mp hr).1
  unfold scan
  rw [hfilter, orderBy_filter]
  · rw [List.filter_map]
    refine congrArg (List.map id) (List.filter_congr fun r hr => ?_)
    have hr' := hmem r ((orderBy_perm _ _ _).mem_iff.mp hr)
    by_cases he : r = old
    · simp [he]
    · have hne : id r ≠ id old := fun h => he (hid r hr' old hold h)
      simp [he, hne]
  · intro a ha b hb hab
    exact hid a (hmem a ha) b (hmem b hb) (Prod.mk.inj hab).2

end Scans

/-- Every row is still there, or is one of those under the condition and has become
another. -/
def Advanced (p : R → Bool) (g : R → R → Prop) (rows rows' : List R) : Prop :=
  ∀ r ∈ rows, r ∈ rows' ∨ (p r = true ∧ ∃ r' ∈ rows', g r r')

section Advances

variable {p : R → Bool} {g g' : R → R → Prop} {rows₂ rows₃ : List R}

theorem Advanced.refl (p : R → Bool) (g : R → R → Prop) (rows : List R) :
    Advanced p g rows rows := fun _ hr => .inl hr

/-- A row that has become another is not under the condition any more, so it stays. -/
theorem Advanced.trans (h : Advanced p g rows rows₂) (h' : Advanced p g' rows₂ rows₃)
    (hg : ∀ r r', g r r' → p r' = false ∧ g' r r') : Advanced p g' rows rows₃ := by
  intro r hr
  rcases h r hr with hr₂ | ⟨hp, r', hr', hgr⟩
  · exact h' r hr₂
  · obtain ⟨hnot, hgr'⟩ := hg r r' hgr
    rcases h' r' hr' with hr₃ | ⟨hp', -⟩
    · exact .inr ⟨hp, r', hr₃, hgr'⟩
    · rw [hnot] at hp'
      cases hp'

theorem Advanced.replaceRow [DecidableEq R] {old new : R} (hp : p old = true) (hg : g old new) :
    Advanced p g rows (replaceRow old new rows) := by
  intro r hr
  by_cases he : r = old
  · subst he
    exact .inr ⟨hp, new, mem_replaceRow.mpr (.inr ⟨rfl, hr⟩), hg⟩
  · exact .inl (mem_replaceRow.mpr (.inl ⟨hr, he⟩))

/-- Where no row is under the condition any more, each of them has become another. -/
theorem Advanced.done (h : Advanced p g rows rows₂) (hnone : ∀ r ∈ rows₂, p r = false) {r : R}
    (hr : r ∈ rows) (hp : p r = true) : ∃ r' ∈ rows₂, g r r' := by
  rcases h r hr with hr₂ | ⟨-, hr'⟩
  · rw [hnone r hr₂] at hp
    cases hp
  · exact hr'

/-- A row outside the condition is not touched. -/
theorem Advanced.kept (h : Advanced p g rows rows₂) {r : R} (hr : r ∈ rows) (hp : p r = false) :
    r ∈ rows₂ := by
  rcases h r hr with hr₂ | ⟨hp', -⟩
  · exact hr₂
  · rw [hp] at hp'
    cases hp'

/-- The rows that were due have all become others exactly when no candidate that is
left was due. -/
theorem Advanced.treated_iff {ι κ : Type} [DecidableEq ι] {o : SortOrder (κ × ι)} {key : R → κ}
    {id : R → ι} {due : R → Bool} (h : Advanced p g rows rows₂)
    (hdue : ∀ r, due r = true → p r = true) (hg : ∀ r r', g r r' → id r' = id r ∧ p r' = false)
    (huniq : ∀ a ∈ rows₂, ∀ b ∈ rows₂, id a = id b → a = b) :
    (∀ r ∈ rows, due r = true → ∃ r' ∈ rows₂, g r r') ↔
      ∀ i ∈ scan o p key id rows₂, (rows.any fun r => id r == i && due r) = false := by
  constructor
  · intro hall i hi
    rw [Bool.eq_false_iff]
    intro hq
    obtain ⟨r, hr, hcond⟩ := List.any_eq_true.mp hq
    obtain ⟨hid, hd⟩ := Bool.and_eq_true_iff.mp hcond
    obtain ⟨r', hr', hgr⟩ := hall r hr hd
    -- The candidate is under the condition in the rows left, and what became of it is not.
    obtain ⟨c, hc, hp, hcid⟩ := mem_scan.mp hi
    obtain ⟨hid', hnot⟩ := hg r r' hgr
    rw [huniq c hc r' hr' (by rw [hcid, hid', beq_iff_eq.mp hid]), hnot] at hp
    cases hp
  · intro hclear r hr hd
    rcases h r hr with hstill | ⟨-, hr'⟩
    · have hq := hclear (id r) (mem_scan.mpr ⟨r, hstill, hdue r hd, rfl⟩)
      have hyes : (rows.any fun x => id x == id r && due x) = true :=
        List.any_eq_true.mpr ⟨r, hr, by rw [hd, beq_self_eq_true]; rfl⟩
      rw [hyes] at hq
      cases hq
    · exact hr'

end Advances

/-! ## Keyset listings -/

/-- The key stands after the position, where there is one. -/
def isAfter (o : SortOrder κ) (position : Option κ) (k : κ) : Bool :=
  position.all fun p => !o.le k p

/-- `WHERE q AND key > position ORDER BY key` -/
def listing (o : SortOrder κ) (key : R → κ) (q : R → Bool) (position : Option κ)
    (rows : List R) : List R :=
  orderBy o key (rows.filter fun r => q r && isAfter o position (key r))

/-- The rows of a listing, where the table has them in order already. -/
theorem listing_of_sorted {found : List R}
    (hfound : (rows.filter fun r => q r && isAfter o position (key r)) = found)
    (hsorted : found.Pairwise fun a b => o.le (key a) (key b) = true) :
    listing o key q position rows = found := by
  rw [listing, hfound]
  exact List.mergeSort_of_pairwise hsorted

theorem mem_listing :
    r ∈ listing o key q position rows ↔
      r ∈ rows ∧ q r = true ∧ isAfter o position (key r) = true := by
  rw [listing, (orderBy_perm _ _ _).mem_iff, List.mem_filter, Bool.and_eq_true]

/-- Tables that hold the same rows under the condition are listed alike. -/
theorem SameOn.listing_eq {C : Constraints R} {t t' : Table C}
    (h : SameOn (fun r => q r = true) t.rows t'.rows)
    (hkey : ∀ a b, q a = true → q b = true → key a = key b → C.clash a b = true) :
    listing o key q position t'.rows = listing o key q position t.rows := by
  have hafter : SameOn (fun r => (q r && isAfter o position (key r)) = true) t.rows t'.rows :=
    h.restrict (fun _ _ hr => (Bool.and_eq_true_iff.mp hr).1)
      fun _ _ hr => (Bool.and_eq_true_iff.mp hr).1
  refine orderBy_congr hafter.filter_perm ?_
  intro a ha b hb heq
  rw [List.mem_filter, Bool.and_eq_true] at ha hb
  exact t.eq_of_clash ha.1 hb.1 (hkey a b ha.2.1 hb.2.1 heq)

/-- A page and the token of its last row, if there are more. -/
structure Page (α : Type) where
  items : List α
  nextCursor : String
deriving DecidableEq

/-- Cut the page from an answer that may hold one row too many. -/
def cutPage {α : Type} (limit : ℕ) (cursor : α → String) (found : List α) : Page α :=
  if limit < found.length then
    ⟨found.take limit, (found[limit - 1]?).elim "" cursor⟩
  else
    ⟨found, ""⟩

theorem mem_cutPage {α : Type} {limit : ℕ} {cursor : α → String} {found : List α} {x : α}
    (h : x ∈ (cutPage limit cursor found).items) : x ∈ found := by
  unfold cutPage at h
  split_ifs at h
  · exact List.mem_of_mem_take h
  · exact h

end Relational

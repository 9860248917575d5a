/-
What a document means, and its normal form.

As text, an object is a list of members; what it means is a map from names, where the
last member of a name counts. `Value.tree` is that meaning, with equality of trees as
equality of documents. A document is canonical when every object in it lists each name
once, in a fixed order. `rebuild` gives a canonical document of the same meaning, a
canonical document is determined by its meaning (`Canonical.ext`), and a printed
document determines the document (`encode_injective`). So printing the rebuilt document
is a normal form: two prints agree exactly when the meanings do.
-/
import TaskForge.Json.Maps
import Mathlib.Data.List.Lex
import Mathlib.Data.Char
import Mathlib.Order.Defs.LinearOrder

namespace Json

/-! ## Association lists -/

section Lookup

variable {α β : Type}

/-- The value of a name: that of its last member. -/
def lookup : List (Text × α) → Text → Option α
  | [], _ => none
  | (k, x) :: ms, name =>
    match lookup ms name with
    | some y => some y
    | none => if name = k then some x else none

theorem lookup_map (f : α → β) (ms : List (Text × α)) (name : Text) :
    lookup (ms.map fun m => (m.1, f m.2)) name = (lookup ms name).map f := by
  induction ms with
  | nil => rfl
  | cons m ms ih =>
    rw [List.map_cons, lookup, lookup, ih]
    cases lookup ms name with
    | some y => rfl
    | none =>
      rw [Option.map_none]
      split_ifs <;> rfl

theorem mem_of_lookup {ms : List (Text × α)} {name : Text} {x : α}
    (h : lookup ms name = some x) : (name, x) ∈ ms := by
  induction ms with
  | nil => cases h
  | cons m ms ih =>
    rw [lookup] at h
    cases hrest : lookup ms name with
    | some y =>
      rw [hrest] at h
      cases h
      exact List.mem_cons_of_mem _ (ih hrest)
    | none =>
      rw [hrest] at h
      simp only at h
      split_ifs at h with hname
      cases h
      subst hname
      exact List.mem_cons_self

theorem lookup_eq_none {ms : List (Text × α)} {name : Text} (h : ∀ m ∈ ms, m.1 ≠ name) :
    lookup ms name = none := by
  cases hlookup : lookup ms name with
  | none => rfl
  | some x => exact absurd rfl (h _ (mem_of_lookup hlookup))

end Lookup

/-! ## Members in order -/

/-- A strict total order of names. -/
structure Orders (before : Text → Text → Bool) : Prop where
  irrefl : ∀ k, before k k = false
  trans : ∀ {k k' k''}, before k k' = true → before k' k'' = true → before k k'' = true
  total : ∀ {k k'}, k ≠ k' → before k k' = false → before k' k = true

theorem bytewise_orders : Orders bytewise where
  irrefl k := by simp [bytewise]
  trans h h' := by
    simp only [bytewise, decide_eq_true_eq] at h h' ⊢
    exact lt_trans h h'
  total hne h := by
    simp only [bytewise, decide_eq_true_eq, decide_eq_false_iff_not] at h ⊢
    exact lt_of_le_of_ne (not_lt.mp h) hne.symm

section Sorted

variable {α β : Type} {before : Text → Text → Bool}
variable {m : Text × α} {ms : List (Text × α)}

/-- Each name once, in the order. -/
def Sorted (before : Text → Text → Bool) (ms : List (Text × α)) : Prop :=
  ms.Pairwise fun m m' => before m.1 m'.1 = true

theorem Sorted.head_ne (hb : Orders before) (h : Sorted before (m :: ms)) :
    ∀ x ∈ ms, x.1 ≠ m.1 := by
  intro x hx heq
  have hlt := List.rel_of_pairwise_cons h hx
  rw [heq, hb.irrefl] at hlt
  exact Bool.false_ne_true hlt

theorem Sorted.lookup_head (hb : Orders before) (h : Sorted before (m :: ms)) :
    lookup (m :: ms) m.1 = some m.2 := by
  rw [lookup, lookup_eq_none (h.head_ne hb)]
  exact if_pos rfl

/-- A name before the first one is not there. -/
theorem Sorted.lookup_before (hb : Orders before) {k : Text} (h : Sorted before (m :: ms))
    (hk : before k m.1 = true) : lookup (m :: ms) k = none := by
  apply lookup_eq_none
  intro x hx heq
  have hlt : before k x.1 = true := by
    rcases List.mem_cons.mp hx with rfl | hx
    · exact hk
    · exact hb.trans hk (List.rel_of_pairwise_cons h hx)
  rw [heq, hb.irrefl] at hlt
  exact Bool.false_ne_true hlt

theorem sorted_assign (hb : Orders before) (k : Text) (x : α) (h : Sorted before ms) :
    Sorted before (assign before k x ms) := by
  induction ms with
  | nil => exact List.pairwise_singleton _ _
  | cons m ms ih =>
    have hrest := List.Pairwise.of_cons h
    rw [assign]
    split_ifs with heq hlt
    · refine List.Pairwise.cons (fun y hy => ?_) hrest
      have := List.rel_of_pairwise_cons h hy
      rwa [← heq] at this
    · refine List.Pairwise.cons (fun y hy => ?_) h
      rcases List.mem_cons.mp hy with rfl | hy
      · exact hlt
      · exact hb.trans hlt (List.rel_of_pairwise_cons h hy)
    · refine List.Pairwise.cons (fun y hy => ?_) (ih hrest)
      rcases mem_assign hy with rfl | hy
      · exact hb.total heq (Bool.eq_false_of_not_eq_true hlt)
      · exact List.rel_of_pairwise_cons h hy

/-- The assigned name has the assigned value, and no other name changes. -/
theorem lookup_assign (hb : Orders before) (k : Text) (x : α) (h : Sorted before ms) (name : Text) :
    lookup (assign before k x ms) name = if name = k then some x else lookup ms name := by
  induction ms with
  | nil => rfl
  | cons m ms ih =>
    have hrest := List.Pairwise.of_cons h
    rw [assign]
    by_cases heq : k = m.1
    · -- The name was there: its member is replaced.
      rw [if_pos heq, lookup, lookup]
      by_cases hname : name = k
      · rw [if_pos hname, if_pos hname, hname, heq, lookup_eq_none (h.head_ne hb)]
      · rw [if_neg hname, if_neg hname, if_neg (heq ▸ hname)]
    · rw [if_neg heq]
      by_cases hlt : before k m.1 = true
      · rw [if_pos hlt, lookup]
        by_cases hname : name = k
        · rw [if_pos hname, if_pos hname, hname, h.lookup_before hb hlt]
        · rw [if_neg hname, if_neg hname]
          cases lookup (m :: ms) name <;> rfl
      · rw [if_neg hlt, lookup, ih hrest, lookup]
        by_cases hname : name = k
        · rw [if_pos hname, if_pos hname]
        · rw [if_neg hname, if_neg hname]

theorem sorted_asMap (hb : Orders before) (ms : List (Text × α)) :
    Sorted before (asMap before ms) ∧ ∀ name, lookup (asMap before ms) name = lookup ms name := by
  -- The members assigned so far, and what is left of them.
  have key : ∀ (ms acc : List (Text × α)), Sorted before acc →
      Sorted before (ms.foldl (fun acc m => assign before m.1 m.2 acc) acc) ∧
      ∀ name, lookup (ms.foldl (fun acc m => assign before m.1 m.2 acc) acc) name =
        (lookup ms name).or (lookup acc name) := by
    intro ms
    induction ms with
    | nil => exact fun acc h => ⟨h, fun name => rfl⟩
    | cons m ms ih =>
      intro acc h
      obtain ⟨hsorted, hlookup⟩ := ih _ (sorted_assign hb m.1 m.2 h)
      refine ⟨hsorted, fun name => ?_⟩
      rw [List.foldl_cons, hlookup, lookup_assign hb _ _ h, lookup]
      cases lookup ms name with
      | some y => rfl
      | none => split_ifs <;> rfl
  obtain ⟨hsorted, hlookup⟩ := key ms [] List.Pairwise.nil
  refine ⟨hsorted, fun name => ?_⟩
  rw [asMap, hlookup, lookup]
  exact Option.or_none

/-- Members in order are determined by what they assign, up to a function that tells
their values apart. -/
theorem Sorted.ext (hb : Orders before) {f : α → β} {ms' : List (Text × α)} (h : Sorted before ms)
    (h' : Sorted before ms') (hinj : ∀ m ∈ ms, ∀ m' ∈ ms', f m.2 = f m'.2 → m.2 = m'.2)
    (hsame : ∀ k, (lookup ms k).map f = (lookup ms' k).map f) : ms = ms' := by
  induction ms generalizing ms' with
  | nil =>
    cases ms' with
    | nil => rfl
    | cons m' ms' =>
      have := hsame m'.1
      rw [h'.lookup_head hb] at this
      cases this
  | cons m ms ih =>
    cases ms' with
    | nil =>
      have := hsame m.1
      rw [h.lookup_head hb] at this
      cases this
    | cons m' ms' =>
      -- Neither list begins before the other.
      have hname : m.1 = m'.1 := by
        by_contra hne
        cases hlt : before m.1 m'.1 with
        | true =>
          have := hsame m.1
          rw [h.lookup_head hb, h'.lookup_before hb hlt] at this
          cases this
        | false =>
          have := hsame m'.1
          rw [h'.lookup_head hb, h.lookup_before hb (hb.total hne hlt)] at this
          cases this
      have hvalue : m.2 = m'.2 := by
        have := hsame m.1
        rw [h.lookup_head hb, hname, h'.lookup_head hb] at this
        exact hinj m List.mem_cons_self m' List.mem_cons_self (Option.some.inj this)
      have htail : ms = ms' := by
        refine ih (List.Pairwise.of_cons h) (List.Pairwise.of_cons h')
          (fun x hx y hy => hinj x (List.mem_cons_of_mem _ hx) y (List.mem_cons_of_mem _ hy)) ?_
        intro k
        by_cases hk : k = m.1
        · subst hk
          rw [lookup_eq_none (h.head_ne hb), lookup_eq_none (hname ▸ h'.head_ne hb)]
        · have := hsame k
          rw [lookup, lookup, if_neg hk, if_neg (hname ▸ hk)] at this
          cases hl : lookup ms k <;> cases hl' : lookup ms' k <;> simp_all
      rw [htail, Prod.ext hname hvalue]

end Sorted

/-! ## Trees -/

/-- The meaning of a document. -/
inductive Tree where
  | null
  | bool (b : Bool)
  | number (literal : Text)
  | string (text : Text)
  | array (items : List Tree)
  | object (entries : Text → Option Tree)

mutual
/-- The tree of a document: an object is a map, the last of repeated names counts. -/
def Value.tree : Value → Tree
  | .null => .null
  | .bool b => .bool b
  | .number literal => .number literal
  | .string text => .string text
  | .array items => .array (Value.trees items)
  | .object members => .object (lookup (Value.entries members))
def Value.trees : List Value → List Tree
  | [] => []
  | v :: vs => v.tree :: Value.trees vs
def Value.entries : List (Text × Value) → List (Text × Tree)
  | [] => []
  | (k, v) :: ms => (k, v.tree) :: Value.entries ms
end

namespace Value

theorem trees_eq (items : List Value) : trees items = items.map tree := by
  induction items with
  | nil => rfl
  | cons v vs ih => rw [trees, ih, List.map_cons]

theorem entries_eq (members : List (Text × Value)) :
    entries members = members.map fun m => (m.1, m.2.tree) := by
  induction members with
  | nil => rfl
  | cons m ms ih => rw [entries, ih, List.map_cons]

theorem tree_object (members : List (Text × Value)) :
    (Value.object members).tree = .object fun k => (lookup members k).map tree := by
  rw [tree, entries_eq]
  exact congrArg Tree.object (funext fun k => lookup_map tree members k)

/-- Every object of the document lists each name once, in the order. -/
def Canonical (before : Text → Text → Bool) (v : Value) : Prop :=
  ∀ members, Value.object members ∈ v.nodes → Sorted before members

variable {before : Text → Text → Bool}

theorem Canonical.item {items : List Value} (h : (Value.array items).Canonical before) {v : Value}
    (hv : v ∈ items) : v.Canonical before := fun members hm =>
  h members (mem_nodes_array.mpr (.inr ⟨v, hv, hm⟩))

theorem Canonical.member {members : List (Text × Value)}
    (h : (Value.object members).Canonical before) {m : Text × Value} (hm : m ∈ members) :
    m.2.Canonical before := fun ms hms =>
  h ms (mem_nodes_object.mpr (.inr ⟨m, hm, hms⟩))

/-- **A canonical document is determined by its meaning.** -/
theorem Canonical.ext (hb : Orders before) {v v' : Value} (h : v.Canonical before)
    (h' : v'.Canonical before) (htree : v.tree = v'.tree) : v = v' := by
  induction v using Value.induct generalizing v' with
  | null | bool | number | string => cases v' <;> simp_all [tree]
  | array xs ih =>
    cases v' with
    | array ys =>
      simp only [tree, trees_eq, Tree.array.injEq] at htree
      have hlength : xs.length = ys.length := by simpa using congrArg List.length htree
      refine congrArg Value.array (List.ext_getElem hlength fun i hi hi' => ?_)
      refine ih _ (List.getElem_mem hi) (h.item (List.getElem_mem hi))
        (h'.item (List.getElem_mem hi')) ?_
      have := congrArg (fun l => l[i]?) htree
      simpa [hi, hi'] using this
    | _ => simp [tree] at htree
  | object ms ih =>
    cases v' with
    | object ms' =>
      rw [tree_object, tree_object, Tree.object.injEq] at htree
      refine congrArg Value.object (Sorted.ext hb (h ms ?_) (h' ms' ?_) ?_ fun k =>
        congrFun htree k)
      · exact mem_nodes_object.mpr (.inl rfl)
      · exact mem_nodes_object.mpr (.inl rfl)
      · intro m hm m' hm' heq
        exact ih m hm (h.member hm) (h'.member hm') heq
    | _ => simp [tree] at htree

end Value

section Rebuild

variable {number : Text → Text} {before : Text → Text → Bool}

theorem canonical_rebuild (hb : Orders before) (v : Value) :
    (rebuild number before v).Canonical before := by
  induction v using Value.induct with
  | null | bool | number | string => intro members h; simp [rebuild, Value.nodes] at h
  | array xs ih =>
    intro members h
    rw [rebuild, rebuildItems_eq, Value.mem_nodes_array] at h
    rcases h with h | ⟨y, hy, h⟩
    · cases h
    · obtain ⟨x, hx, rfl⟩ := List.mem_map.mp hy
      exact ih x hx members h
  | object ms ih =>
    intro members h
    rw [rebuild, rebuildMembers_eq, Value.mem_nodes_object] at h
    rcases h with h | ⟨m, hm, h⟩
    · cases h
      exact (sorted_asMap hb _).1
    · obtain ⟨x, hx, rfl⟩ := List.mem_map.mp (mem_of_mem_asMap hm)
      exact ih x hx members h

/-- Rebuilding keeps the meaning, when the literals are kept. -/
theorem tree_rebuild (hb : Orders before) (v : Value) : (rebuild id before v).tree = v.tree := by
  induction v using Value.induct with
  | null | bool | number | string => rfl
  | array xs ih =>
    rw [rebuild, rebuildItems_eq, Value.tree, Value.tree, Value.trees_eq, Value.trees_eq,
      List.map_map]
    exact congrArg Tree.array (List.map_congr_left ih)
  | object ms ih =>
    rw [rebuild, rebuildMembers_eq, Value.tree_object, Value.tree, Value.entries_eq]
    refine congrArg Tree.object (funext fun k => ?_)
    rw [(sorted_asMap hb _).2, ← lookup_map, List.map_map]
    refine congrArg (lookup · k) (List.map_congr_left fun m hm => ?_)
    exact congrArg (Prod.mk m.1) (ih m hm)

end Rebuild

/-- A printed document determines the document. -/
theorem encode_injective {style : Style} (hs : style.Lawful) {v v' : Value} (hv : v.WellFormed)
    (hv' : v'.WellFormed) (h : encode style v = encode style v') : v = v' := by
  have hread : ∀ {u : Value}, u.WellFormed → u.depth ≤ max v.depth v'.depth →
      read (max v.depth v'.depth) (encode style u) = some (u, []) := by
    intro u hu hdepth
    have := read_encode hs ⟨hu, hdepth⟩ (r := []) fun _ _ h => by cases h
    rwa [List.append_nil] at this
  have hsame := hread hv (le_max_left _ _)
  rw [h, hread hv' (le_max_right _ _)] at hsame
  exact (Prod.mk.inj (Option.some.inj hsame)).1.symm

end Json

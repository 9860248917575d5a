/-
Objects as finite maps.

A decoder that reads an object into a map keeps the last of repeated names, and a
printer of a map writes the names in an order of its own. `asMap` does both at once:
it assigns the members one after another into a list kept in the order of the names.
`rebuild` does it to every object of a tree. A decoder into maps followed by a printer
is one instance; what a `jsonb` column keeps of a document is another, which also
rewrites the numbers and refuses some documents.
-/
import TaskForge.Json.Styles

namespace Json

variable {α β : Type} {before : Text → Text → Bool} {ms : List (Text × α)} {m : Text × α}

/-- Assigns a name in a list kept in the order `before`. -/
def assign (before : Text → Text → Bool) (k : Text) (x : α) : List (Text × α) → List (Text × α)
  | [] => [(k, x)]
  | m :: ms =>
    if k = m.1 then (k, x) :: ms
    else if before k m.1 then (k, x) :: m :: ms
    else m :: assign before k x ms

/-- The members as a map: the last of repeated names, in the order `before`. -/
def asMap (before : Text → Text → Bool) (members : List (Text × α)) : List (Text × α) :=
  members.foldl (fun ms m => assign before m.1 m.2 ms) []

/-- Go's order of strings: by bytes, which is by code points. -/
def bytewise (k k' : Text) : Bool := decide (k < k')

/-- The order of names in a `jsonb` object: shorter names first. -/
def shortestFirst (k k' : Text) : Bool :=
  decide (octets k < octets k') || (octets k == octets k' && decide (k < k'))

theorem mem_assign {k : Text} {x : α} (h : m ∈ assign before k x ms) : m = (k, x) ∨ m ∈ ms := by
  induction ms with
  | nil => exact .inl (List.mem_singleton.mp h)
  | cons m' ms ih =>
    rw [assign] at h
    split_ifs at h
    · rcases List.mem_cons.mp h with h | h
      · exact .inl h
      · exact .inr (List.mem_cons_of_mem _ h)
    · exact List.mem_cons.mp h
    · rcases List.mem_cons.mp h with h | h
      · exact .inr (h ▸ List.mem_cons_self)
      · exact (ih h).imp_right (List.mem_cons_of_mem _)

/-- A map has no member its object did not have. -/
theorem mem_of_mem_asMap (h : m ∈ asMap before ms) : m ∈ ms := by
  have key : ∀ (ms acc : List (Text × α)),
      m ∈ ms.foldl (fun ms m => assign before m.1 m.2 ms) acc → m ∈ ms ∨ m ∈ acc := by
    intro ms
    induction ms with
    | nil => exact fun acc h => .inr h
    | cons m' ms ih =>
      intro acc h
      rcases ih _ h with h | h
      · exact .inl (List.mem_cons_of_mem _ h)
      · rcases mem_assign h with rfl | h
        · exact .inl List.mem_cons_self
        · exact .inr h
  exact (key ms [] h).resolve_right List.not_mem_nil

/-! ## Trees of maps -/

mutual
/-- The tree with every object as a map and every literal rewritten. -/
def rebuild (number : Text → Text) (before : Text → Text → Bool) : Value → Value
  | .null => .null
  | .bool b => .bool b
  | .number literal => .number (number literal)
  | .string text => .string text
  | .array items => .array (rebuildItems number before items)
  | .object members => .object (asMap before (rebuildMembers number before members))
def rebuildItems (number : Text → Text) (before : Text → Text → Bool) : List Value → List Value
  | [] => []
  | v :: vs => rebuild number before v :: rebuildItems number before vs
def rebuildMembers (number : Text → Text) (before : Text → Text → Bool) :
    List (Text × Value) → List (Text × Value)
  | [] => []
  | (k, v) :: ms => (k, rebuild number before v) :: rebuildMembers number before ms
end

section Rebuild

variable {number : Text → Text}

theorem rebuildItems_eq (items : List Value) :
    rebuildItems number before items = items.map (rebuild number before) := by
  induction items with
  | nil => rfl
  | cons v vs ih => rw [rebuildItems, ih, List.map_cons]

theorem rebuildMembers_eq (members : List (Text × Value)) :
    rebuildMembers number before members =
      members.map fun m => (m.1, rebuild number before m.2) := by
  induction members with
  | nil => rfl
  | cons m ms ih => rw [rebuildMembers, ih, List.map_cons]

/-- Rebuilding a tree keeps it within its limits, when literals stay literals. -/
theorem rebuild_within {v : Value} {depth : ℕ} (hv : v.Within depth)
    (hnumber : ∀ literal, Value.number literal ∈ v.nodes → scanNumber literal = some (literal, []) →
      scanNumber (number literal) = some (number literal, [])) :
    (rebuild number before v).Within depth := by
  induction v using Value.induct generalizing depth with
  | null | bool | string => exact hv
  | number literal =>
    have hmem : Value.number literal ∈ (Value.number literal).nodes := List.mem_singleton.mpr rfl
    refine .leaf rfl rfl fun l hl => ?_
    cases hl
    exact hnumber literal hmem (hv.1 literal hmem)
  | array xs ih =>
    obtain ⟨hwf, hdepth⟩ := hv
    obtain ⟨depth, rfl⟩ : ∃ n, depth = n + 1 :=
      ⟨depth - 1, by simp only [Value.depth] at hdepth; omega⟩
    simp only [Value.depth, Nat.add_le_add_iff_right, Value.depthOfItems_le] at hdepth
    rw [rebuild, rebuildItems_eq]
    refine .array fun v hv => ?_
    obtain ⟨x, hx, rfl⟩ := List.mem_map.mp hv
    have hnodes : ∀ n ∈ x.nodes, n ∈ (Value.array xs).nodes := fun n hn =>
      Value.mem_nodes_array.mpr (.inr ⟨x, hx, hn⟩)
    exact ih x hx ⟨fun l hl => hwf l (hnodes _ hl), hdepth x hx⟩ fun l hl => hnumber l (hnodes _ hl)
  | object ms ih =>
    obtain ⟨hwf, hdepth⟩ := hv
    obtain ⟨depth, rfl⟩ : ∃ n, depth = n + 1 :=
      ⟨depth - 1, by simp only [Value.depth] at hdepth; omega⟩
    simp only [Value.depth, Nat.add_le_add_iff_right, Value.depthOfMembers_le] at hdepth
    rw [rebuild, rebuildMembers_eq]
    refine .object fun m hm => ?_
    obtain ⟨x, hx, rfl⟩ := List.mem_map.mp (mem_of_mem_asMap hm)
    have hnodes : ∀ n ∈ x.2.nodes, n ∈ (Value.object ms).nodes := fun n hn =>
      Value.mem_nodes_object.mpr (.inr ⟨x, hx, hn⟩)
    exact ih x hx ⟨fun l hl => hwf l (hnodes _ hl), hdepth x hx⟩ fun l hl => hnumber l (hnodes _ hl)

end Rebuild

/-! ## Documents in a `jsonb` column -/

/-- What is assumed of PostgreSQL's numbers: which literals are in the range of
`numeric`, and how each is written back. -/
structure Jsonb where
  numeric : Text → Option Text
  literal : ∀ {l l' : Text}, scanNumber l = some (l, []) → numeric l = some l' →
    scanNumber l' = some (l', [])

namespace Jsonb

variable (J : Jsonb)

/-- What the column's type refuses in one node: U+0000 in a string or a name, and a
number outside the range. -/
def acceptsNode : Value → Bool
  | .number literal => (J.numeric literal).isSome
  | .string text => !text.contains '\x00'
  | .object members => members.all fun m => !m.1.contains '\x00'
  | _ => true

def accepts (v : Value) : Bool := v.nodes.all J.acceptsNode

/-- The document that is read back. -/
def stored (v : Value) : Value := rebuild (fun l => (J.numeric l).getD l) shortestFirst v

/-- The text the column is read as. -/
def text (v : Value) : Text := encode jsonbStyle (J.stored v)

theorem stored_within {v : Value} {depth : ℕ} (hv : v.Within depth) :
    (J.stored v).Within depth := by
  refine rebuild_within hv fun l _ hl => ?_
  cases hnumeric : J.numeric l with
  | none => exact hl
  | some l' => exact J.literal hl hnumeric

end Jsonb

end Json

/-
What the JSON reader does with text.

The reader is a function with fuel and a nesting limit, and what it accepts is a
grammar without either: `Spells v u` says that `u` is a text of the document `v`, with
any blanks between its tokens and any escapes in its strings. A document is read off
the front of a text exactly when one of its texts stands there (`read_eq_some`); only a
number looks at what follows it.

What the rest of the development needs is said about texts, and follows. What a lawful
style prints is a text of the tree that was printed, so it is read back (`read_encode`),
as long as the nesting limit allows it. And whatever is read has number literals and no
deeper nesting than the limit (`read_sound`), so it can be printed and read again.
-/
import Mathlib.Data.List.Forall2
import TaskForge.Json.Numbers

namespace Json

/-! ## Strings -/

/-- How a piece of a string may be written. -/
inductive Piece.Spelling : Piece → Text → Prop where
  | unit {a b c d : Char} {n : ℕ} (h : hex4 a b c d = some n) :
      Piece.Spelling (.unit n) ['\x5c', 'u', a, b, c, d]
  | short {e c : Char} (h : shortEscape e = some c) : Piece.Spelling (.char c) ['\x5c', e]
  | char {c : Char} (hquote : c ≠ '\x22') (hslash : c ≠ '\x5c') (hcontrol : ¬ c.toNat < 0x20) :
      Piece.Spelling (.char c) [c]

variable {u t r b : Text} {us : List Text} {ms : List (Text × Value)} {v : Value}
  {fuel depth depth' : ℕ} {style : Style} {xs : List Value} {p : Value × Text}

theorem Piece.Spelling.scan {p : Piece} (h : p.Spelling u) (r : Text) :
    scanPieces (u ++ r) = (scanPieces r).map fun q => (p :: q.1, q.2) := by
  cases h with
  | unit h =>
    simp only [List.cons_append, List.nil_append]
    rw [scanPieces.eq_def]
    simp [h]
  | @short e c h =>
    have he : e ≠ 'u' := by
      rintro rfl
      cases h
    simp only [List.cons_append, List.nil_append]
    rw [scanPieces.eq_def]
    simp [he, h]
  | char hquote hslash hcontrol =>
    rw [List.singleton_append, scanPieces.eq_def]
    simp only [hquote, hslash, hcontrol, if_false]

theorem scanPieces_close (r : Text) : scanPieces ('\x22' :: r) = some ([], r) := by
  rw [scanPieces.eq_def]
  rfl

theorem scanPieces_eq_some {ps : List Piece} : scanPieces t = some (ps, r) ↔
    ∃ us, List.Forall₂ Piece.Spelling ps us ∧ t = us.flatten ++ '\x22' :: r := by
  constructor
  · intro h
    fun_induction scanPieces t generalizing ps r with
    | case1 => cases h
    | case2 => cases h; exact ⟨[], .nil, rfl⟩
    | case3 => cases h
    | case4 a b c d _ _ ih =>
      simp only [Option.bind_eq_some_iff, Option.map_eq_some_iff] at h
      obtain ⟨n, hn, q, hq, h⟩ := h
      cases h
      obtain ⟨us, hus, rfl⟩ := ih hq
      exact ⟨_ :: us, .cons (.unit hn) hus, rfl⟩
    | case5 => cases h
    | case6 e _ he _ ih =>
      simp only [Option.bind_eq_some_iff, Option.map_eq_some_iff] at h
      obtain ⟨c, hc, q, hq, h⟩ := h
      cases h
      obtain ⟨us, hus, rfl⟩ := ih hq
      exact ⟨_ :: us, .cons (.short hc) hus, rfl⟩
    | case7 => cases h
    | case8 c _ hquote hslash hcontrol ih =>
      obtain ⟨q, hq, h⟩ := Option.map_eq_some_iff.mp h
      cases h
      obtain ⟨us, hus, rfl⟩ := ih hq
      exact ⟨_ :: us, .cons (.char hquote hslash hcontrol) hus, rfl⟩
  · rintro ⟨us, hus, rfl⟩
    induction hus with
    | nil => exact scanPieces_close r
    | cons hp _ ih => rw [List.flatten_cons, List.append_assoc, hp.scan, ih, Option.map_some]

/-- The texts of a string, between its quotation marks. -/
def StringText (s u : Text) : Prop :=
  ∃ ps us, List.Forall₂ Piece.Spelling ps us ∧ joinUnits ps = s ∧ u = us.flatten

theorem scanString_eq_some {s : Text} : scanString t = some (s, r) ↔
    ∃ u, StringText s u ∧ t = u ++ '\x22' :: r := by
  rw [scanString, Option.map_eq_some_iff]
  constructor
  · rintro ⟨⟨ps, _⟩, hq, h⟩
    cases h
    obtain ⟨us, hus, rfl⟩ := scanPieces_eq_some.mp hq
    exact ⟨_, ⟨ps, us, hus, rfl, rfl⟩, rfl⟩
  · rintro ⟨u, ⟨ps, us, hus, rfl, rfl⟩, rfl⟩
    exact ⟨(ps, r), scanPieces_eq_some.mpr ⟨us, hus, rfl⟩, rfl⟩

/-! ## Blanks and names -/

def Blanks (b : Text) : Prop := ∀ c ∈ b, isBlank c = true

theorem Blanks.nil : Blanks [] := fun _ h => absurd h List.not_mem_nil

theorem Blanks.skip (hb : Blanks b) (hr : Halts isBlank r) :
    skipBlanks (b ++ r) = r := by
  unfold skipBlanks
  rw [List.dropWhile_append_of_pos hb]
  cases r with
  | nil => rfl
  | cons c r => exact List.dropWhile_cons_of_neg (by rw [hr c rfl]; exact Bool.false_ne_true)

theorem skipBlanks_spec (t : Text) :
    ∃ b, Blanks b ∧ t = b ++ skipBlanks t ∧ Halts isBlank (skipBlanks t) := by
  refine ⟨t.takeWhile isBlank, fun c hc => List.mem_takeWhile_imp hc,
    List.takeWhile_append_dropWhile.symm, fun c hc => ?_⟩
  have hhead := List.head?_dropWhile_not isBlank t
  rw [skipBlanks, Option.mem_def] at hc
  rw [hc] at hhead
  simpa using hhead

/-- The texts of a member's name, with its colon and the blanks around that. -/
def NameText (k n : Text) : Prop :=
  ∃ u b b', StringText k u ∧ Blanks b ∧ Blanks b' ∧
    n = '\x22' :: (u ++ '\x22' :: (b ++ ':' :: b'))

theorem scanName_eq_some {k : Text} : scanName t = some (k, r) ↔
    ∃ n, NameText k n ∧ t = n ++ r ∧ Halts isBlank r := by
  constructor
  · intro h
    cases t with
    | nil => cases h
    | cons c t =>
      rw [scanName] at h
      split_ifs at h with hc
      obtain ⟨⟨s, q⟩, hq, h⟩ := Option.bind_eq_some_iff.mp h
      obtain ⟨u, hu, ht⟩ := scanString_eq_some.mp hq
      obtain ⟨b, hb, hsplit, -⟩ := skipBlanks_spec q
      simp only at h
      cases hblank : skipBlanks q with
      | nil => rw [hblank] at h; cases h
      | cons d v =>
        rw [hblank] at h hsplit
        simp only at h
        split_ifs at h with hd
        cases h
        obtain ⟨b', hb', hsplit', hhalts⟩ := skipBlanks_spec v
        refine ⟨_, ⟨u, b, b', hu, hb, hb', rfl⟩, ?_, hhalts⟩
        simp only [List.cons_append, List.append_assoc]
        rw [hc, ht, hsplit, hd, ← hsplit']
  · rintro ⟨_, ⟨u, b, b', hu, hb, hb', rfl⟩, rfl, hhalts⟩
    have hcolon : Halts isBlank (':' :: (b' ++ r)) := fun c hc => by cases hc; decide
    simp only [List.cons_append, List.append_assoc]
    rw [scanName, if_pos rfl, scanString_eq_some.mpr ⟨u, hu, rfl⟩, Option.bind_some]
    simp only [hb.skip hcolon, if_true, hb'.skip hhalts]

/-! ## Sequences -/

section Brackets

variable {α : Type} {close : Char} {more : Text → Option (List α × Text)} {p : List α × Text}

theorem scanBody_eq_some : scanBody close more t = some p ↔
    (∃ r, skipBlanks t = close :: r ∧ p = ([], r)) ∨
      ∃ c r, skipBlanks t = c :: r ∧ c ≠ close ∧ more (c :: r) = some p := by
  unfold scanBody
  cases skipBlanks t with
  | nil => simp
  | cons c r =>
    by_cases hc : c = close
    · simp [hc, eq_comm]
    · simp [hc]

theorem scanRest_eq_some {x : α} (hclose : close ≠ ',') : scanRest close more x t = some p ↔
    (∃ r, skipBlanks t = close :: r ∧ p = ([x], r)) ∨
      ∃ r q, skipBlanks t = ',' :: r ∧ more (skipBlanks r) = some q ∧ p = (x :: q.1, q.2) := by
  unfold scanRest
  cases skipBlanks t with
  | nil => simp
  | cons c r =>
    by_cases hcomma : c = ','
    · simp [hcomma, Ne.symm hclose, @eq_comm _ p]
    · by_cases hc : c = close
      · simp [hc, hclose, eq_comm]
      · simp [hcomma, hc]

end Brackets

/-- The texts of a sequence: commas between its items, and blanks around them. -/
inductive Body : List Text → Text → Prop where
  | empty {b : Text} (hb : Blanks b) : Body [] b
  | last {u b b' : Text} (hb : Blanks b) (hb' : Blanks b') : Body [u] (b ++ (u ++ b'))
  | more {u b b' t : Text} {us : List Text} (hb : Blanks b) (hb' : Blanks b') (hne : us ≠ [])
      (h : Body us t) : Body (u :: us) (b ++ (u ++ (b' ++ ',' :: t)))

/-- A reader of sequences, given by its reader of one item. Arrays and objects differ only
in the item. -/
structure Sequencing {α : Type} (close : Char) (one : ℕ → Text → Option (α × Text))
    (many : ℕ → Text → Option (List α × Text)) : Prop where
  bracket : close = ']' ∨ close = '\x7d'
  zero : ∀ t, many 0 t = none
  succ : ∀ fuel t, many (fuel + 1) t =
    (one fuel t).bind fun p => scanRest close (many fuel) p.1 p.2

/-- The text begins with a character that is neither a blank nor the bracket. -/
def Begins (close : Char) (t : Text) : Prop := ∃ c u, t = c :: u ∧ isBlank c = false ∧ c ≠ close

theorem Begins.halts {close : Char} (h : Begins close t) (r : Text) :
    Halts isBlank (t ++ r) := by
  obtain ⟨c, u, rfl, hc, -⟩ := h
  intro d hd
  cases hd
  exact hc

/-- What follows an item begins with a blank, a comma or the bracket, and ends a number. -/
theorem halts_separator {c : Char} (hb : Blanks b) (hc : c = ']' ∨ c = '\x7d' ∨ c = ',') :
    Halts isNumberChar (b ++ c :: r) := by
  intro d hd
  cases b with
  | nil =>
    cases hd
    rcases hc with rfl | rfl | rfl <;> decide
  | cons e b =>
    cases hd
    have he := hb d List.mem_cons_self
    simp only [isBlank, Bool.or_eq_true, beq_iff_eq, or_assoc] at he
    rcases he with rfl | rfl | rfl | rfl <;> decide

namespace Sequencing

variable {α : Type} {close : Char} {one : ℕ → Text → Option (α × Text)}
  {many : ℕ → Text → Option (List α × Text)} {xs : List α}

theorem ne_comma (h : Sequencing close one many) : close ≠ ',' ∧ isBlank close = false := by
  rcases h.bracket with rfl | rfl <;> decide

/-- What is read as a sequence is the text of one. -/
theorem sound (h : Sequencing close one many) {Item : α → Text → Prop}
    (hone : ∀ f < fuel, ∀ t x r, one f t = some (x, r) → ∃ u, t = u ++ r ∧ Item x u)
    (hmany : many fuel (skipBlanks t) = some (xs, r)) :
    ∃ us body, List.Forall₂ Item xs us ∧ us ≠ [] ∧ Body us body ∧ t = body ++ close :: r := by
  induction fuel generalizing t xs with
  | zero =>
    rw [h.zero] at hmany
    cases hmany
  | succ fuel ih =>
    rw [h.succ] at hmany
    obtain ⟨⟨x, r₁⟩, hx, hrest⟩ := Option.bind_eq_some_iff.mp hmany
    obtain ⟨b, hb, ht, -⟩ := skipBlanks_spec t
    obtain ⟨u, hu, hitem⟩ := hone fuel (Nat.lt_succ_self _) _ x r₁ hx
    obtain ⟨b', hb', ht', -⟩ := skipBlanks_spec r₁
    rcases (scanRest_eq_some h.ne_comma.1).mp hrest with ⟨r₂, hblank, hp⟩ | ⟨r₂, q, hblank, hq, hp⟩
    · cases hp
      refine ⟨[u], _, .cons hitem .nil, List.cons_ne_nil _ _, .last hb hb', ?_⟩
      rw [ht, hu, ht', hblank, List.append_assoc, List.append_assoc]
    · cases hp
      obtain ⟨us, body, hus, hne, hbody, hsplit⟩ :=
        ih (fun f hf => hone f (Nat.lt_succ_of_lt hf)) hq
      refine ⟨u :: us, _, .cons hitem hus, List.cons_ne_nil _ _, .more hb hb' hne hbody, ?_⟩
      rw [ht, hu, ht', hblank, hsplit]
      simp only [List.append_assoc, List.cons_append]

theorem sound_body (h : Sequencing close one many) {Item : α → Text → Prop}
    (hone : ∀ f < fuel, ∀ t x r, one f t = some (x, r) → ∃ u, t = u ++ r ∧ Item x u)
    (hmany : scanBody close (many fuel) t = some (xs, r)) :
    ∃ us body, List.Forall₂ Item xs us ∧ Body us body ∧ t = body ++ close :: r := by
  rcases scanBody_eq_some.mp hmany with ⟨_, hblank, hp⟩ | ⟨c, r₁, hblank, -, hread⟩
  · cases hp
    obtain ⟨b, hb, ht, -⟩ := skipBlanks_spec t
    exact ⟨[], b, .nil, .empty hb, by rw [← hblank, ← ht]⟩
  · rw [← hblank] at hread
    obtain ⟨us, body, hus, -, hbody, ht⟩ := h.sound hone hread
    exact ⟨us, body, hus, hbody, ht⟩

/-- The reader of one item takes the text `u` for `x`, wherever it stands. -/
def ReadBack (close : Char) (one : ℕ → Text → Option (α × Text)) (x : α) (u : Text) : Prop :=
  Begins close u ∧ ∀ fuel r, u.length < fuel → Halts isNumberChar r →
    one fuel (u ++ r) = some (x, r)

theorem complete (h : Sequencing close one many) {us : List Text} {body : Text}
    (hus : List.Forall₂ (ReadBack close one) xs us) (hbody : Body us body) (hne : us ≠ [])
    (hfuel : body.length + 1 < fuel) :
    many fuel (skipBlanks (body ++ close :: r)) = some (xs, r) := by
  have hclose : Halts isBlank (close :: r) := fun c hc => by cases hc; exact h.ne_comma.2
  have hcomma : ∀ v, Halts isBlank (',' :: v) := fun v c hc => by cases hc; decide
  induction hbody generalizing xs fuel with
  | empty => exact absurd rfl hne
  | @last u b b' hb hb' =>
    obtain ⟨x, _, hx, hnil, rfl⟩ := List.forall₂_cons_right_iff.mp hus
    cases hnil
    obtain ⟨fuel, rfl⟩ : ∃ n, fuel = n + 1 := ⟨fuel - 1, by omega⟩
    simp only [List.length_append] at hfuel
    simp only [List.append_assoc]
    rw [hb.skip (hx.1.halts _), h.succ, hx.2 fuel _ (by omega)
      (halts_separator hb' (h.bracket.imp_right .inl)), Option.bind_some]
    exact (scanRest_eq_some h.ne_comma.1).mpr (.inl ⟨r, hb'.skip hclose, rfl⟩)
  | @more u b b' t us hb hb' hne' _ ih =>
    obtain ⟨x, xs, hx, hxs, rfl⟩ := List.forall₂_cons_right_iff.mp hus
    obtain ⟨fuel, rfl⟩ : ∃ n, fuel = n + 1 := ⟨fuel - 1, by omega⟩
    simp only [List.length_append, List.length_cons] at hfuel
    simp only [List.append_assoc, List.cons_append]
    rw [hb.skip (hx.1.halts _), h.succ, hx.2 fuel _ (by omega)
      (halts_separator hb' (.inr (.inr rfl))), Option.bind_some]
    exact (scanRest_eq_some h.ne_comma.1).mpr
      (.inr ⟨_, (xs, r), hb'.skip (hcomma _), ih hxs hne' (by omega), rfl⟩)

theorem complete_body (h : Sequencing close one many) {us : List Text} {body : Text}
    (hus : List.Forall₂ (ReadBack close one) xs us) (hbody : Body us body)
    (hfuel : body.length + 1 < fuel) :
    scanBody close (many fuel) (body ++ close :: r) = some (xs, r) := by
  cases hus with
  | nil =>
    cases hbody with
    | empty hb =>
      exact scanBody_eq_some.mpr (.inl ⟨r, hb.skip fun c hc => by cases hc; exact h.ne_comma.2, rfl⟩)
  | @cons x u xs us hx hxs =>
    have hread := h.complete (r := r) (.cons hx hxs) hbody (List.cons_ne_nil _ _) hfuel
    have hfirst : ∃ c v, skipBlanks (body ++ close :: r) = c :: v ∧ c ≠ close := by
      obtain ⟨c, v, rfl, hc, hne⟩ := hx.1
      have hhalts : ∀ w, Halts isBlank (c :: w) := fun w d hd => by cases hd; exact hc
      cases hbody with
      | last hb hb' | more hb hb' _ _ =>
        rw [List.append_assoc, List.append_assoc]
        exact ⟨c, _, hb.skip (hhalts _), hne⟩
    obtain ⟨c, v, hcv, hne⟩ := hfirst
    exact scanBody_eq_some.mpr (.inr ⟨c, v, hcv, hne, hcv ▸ hread⟩)

end Sequencing

/-! ## The texts of a document -/

mutual
/-- The text `u` is a text of the document. -/
def Spells : Value → Text → Prop
  | .null, u => u = ['n', 'u', 'l', 'l']
  | .bool true, u => u = ['t', 'r', 'u', 'e']
  | .bool false, u => u = ['f', 'a', 'l', 's', 'e']
  | .number literal, u => u = literal ∧ NumberAt literal []
  | .string s, u => ∃ w, StringText s w ∧ u = '\x22' :: (w ++ ['\x22'])
  | .array vs, u => ∃ us body, SpellsItems vs us ∧ Body us body ∧ u = '[' :: (body ++ [']'])
  | .object ms, u =>
    ∃ us body, SpellsMembers ms us ∧ Body us body ∧ u = '\x7b' :: (body ++ ['\x7d'])
def SpellsItems : List Value → List Text → Prop
  | [], us => us = []
  | v :: vs, us => ∃ u us', us = u :: us' ∧ Spells v u ∧ SpellsItems vs us'
def SpellsMembers : List (Text × Value) → List Text → Prop
  | [], us => us = []
  | (k, v) :: ms, us => ∃ n u us', us = (n ++ u) :: us' ∧ NameText k n ∧ Spells v u ∧
      SpellsMembers ms us'
end

/-- The texts of a member. -/
def SpellsMember (m : Text × Value) (t : Text) : Prop :=
  ∃ n u, t = n ++ u ∧ NameText m.1 n ∧ Spells m.2 u

theorem spellsItems_iff {vs : List Value} :
    SpellsItems vs us ↔ List.Forall₂ Spells vs us := by
  induction vs generalizing us with
  | nil => rw [SpellsItems, List.forall₂_nil_left_iff]
  | cons v vs ih =>
    rw [SpellsItems, List.forall₂_cons_left_iff]
    constructor
    · rintro ⟨u, us', rfl, hu, hus⟩
      exact ⟨u, us', hu, ih.mp hus, rfl⟩
    · rintro ⟨u, us', hu, hus, rfl⟩
      exact ⟨u, us', rfl, hu, ih.mpr hus⟩

theorem spellsMembers_iff :
    SpellsMembers ms us ↔ List.Forall₂ SpellsMember ms us := by
  induction ms generalizing us with
  | nil => rw [SpellsMembers, List.forall₂_nil_left_iff]
  | cons m ms ih =>
    rw [SpellsMembers, List.forall₂_cons_left_iff]
    constructor
    · rintro ⟨n, u, us', rfl, hn, hu, hus⟩
      exact ⟨_, us', ⟨n, u, rfl, hn, hu⟩, ih.mp hus, rfl⟩
    · rintro ⟨_, us', ⟨n, u, rfl, hn, hu⟩, hus, rfl⟩
      exact ⟨n, u, us', rfl, hn, hu, ih.mpr hus⟩

theorem exists_of_forall₂ {α β : Type} {R : α → β → Prop} {xs : List α} {us : List β}
    (h : List.Forall₂ R xs us) : ∀ x ∈ xs, ∃ u, R x u :=
  ((List.forall₂_and_left xs us).mp (h.imp fun _ u hxu => ⟨⟨u, hxu⟩, hxu⟩)).1

/-- A document does not begin with a blank, a comma or a closing bracket. -/
theorem Spells.begins (h : Spells v u) : Begins ']' u := by
  cases v with
  | null => cases h; exact ⟨_, _, rfl, by decide, by decide⟩
  | bool b => cases b <;> cases h <;> exact ⟨_, _, rfl, by decide, by decide⟩
  | string s =>
    obtain ⟨w, -, rfl⟩ := h
    exact ⟨_, _, rfl, by decide, by decide⟩
  | array | object =>
    obtain ⟨us, body, -, -, rfl⟩ := h
    exact ⟨_, _, rfl, by decide, by decide⟩
  | number literal =>
    obtain ⟨rfl, hnumber⟩ := h
    obtain ⟨c, w, rfl, hc⟩ := hnumber.head
    refine ⟨c, w, rfl, ?_, ?_⟩
    · rw [← Bool.not_eq_true]
      intro hblank
      simp only [isBlank, Bool.or_eq_true, beq_iff_eq, or_assoc] at hblank
      rcases hblank with rfl | rfl | rfl | rfl <;> exact absurd hc (by decide)
    · rintro rfl
      exact absurd hc (by decide)

/-- Inside brackets no number goes on. -/
theorem Spells.number (h : Spells v u) (hr : Halts isNumberChar r) :
    ∀ literal, v = .number literal → NumberAt literal r := by
  rintro literal rfl
  exact h.2.change fun c hc => .inr (hr c hc)

/-! ## The reader against the grammar -/

theorem scanWord_split {w : Text} (h : scanWord w t = some r) : t = w ++ r := by
  induction w generalizing t with
  | nil => exact Option.some.inj h
  | cons a w ih =>
    cases t with
    | nil => cases h
    | cons c t =>
      rw [scanWord] at h
      split_ifs at h with hc
      rw [hc, ih h, List.cons_append]

theorem items_sequencing (depth : ℕ) :
    Sequencing ']' (fun fuel => value fuel depth) fun fuel => items fuel depth where
  bracket := .inl rfl
  zero _ := by rw [items]
  succ _ _ := by rw [items]

theorem members_sequencing (depth : ℕ) :
    Sequencing '\x7d' (fun fuel t => (scanName t).bind fun name =>
        (value fuel depth name.2).map fun p => ((name.1, p.1), p.2))
      fun fuel => members fuel depth where
  bracket := .inr rfl
  zero _ := by rw [members]
  succ _ _ := by rw [members]

/-- The text `u` of the document stands before `r`: a number must not go on there. -/
def SpellsAt (v : Value) (u r : Text) : Prop :=
  Spells v u ∧ ∀ literal, v = .number literal → NumberAt literal r

/-- What is read is one of its texts, within the nesting limit. -/
theorem value_sound (h : value fuel depth t = some (v, r)) :
    ∃ u, t = u ++ r ∧ SpellsAt v u r ∧ v.depth ≤ depth := by
  induction fuel using Nat.strong_induction_on generalizing depth t v r with
  | h fuel ih =>
    cases fuel with
    | zero =>
      rw [value] at h
      cases h
    | succ fuel =>
      cases t with
      | nil =>
        rw [value] at h
        cases h
      | cons c t =>
        -- Only a number looks at what follows.
        have leaf : ∀ {v : Value} {u : Text}, Spells v u → v.depth ≤ depth → c :: t = u ++ r →
            (∀ literal, v ≠ .number literal) →
            ∃ u, c :: t = u ++ r ∧ SpellsAt v u r ∧ v.depth ≤ depth :=
          fun hu hd hsplit hv => ⟨_, hsplit, ⟨hu, fun l hl => absurd hl (hv l)⟩, hd⟩
        rw [value] at h
        split_ifs at h with h1 h2 h3 h4 h5 h6
        · obtain ⟨⟨s, r'⟩, hs, hp⟩ := Option.map_eq_some_iff.mp h
          cases hp
          obtain ⟨w, hw, rfl⟩ := scanString_eq_some.mp hs
          refine leaf ⟨w, hw, rfl⟩ (Nat.zero_le _) ?_ fun _ h => by cases h
          rw [h1, List.cons_append, List.append_assoc, List.singleton_append]
        · cases depth with
          | zero => cases h
          | succ depth =>
            obtain ⟨⟨vs, r'⟩, hvs, hp⟩ := Option.map_eq_some_iff.mp h
            cases hp
            have hitem : ∀ f < fuel, ∀ t x r, value f depth t = some (x, r) →
                ∃ u, t = u ++ r ∧ x.depth ≤ depth ∧ Spells x u := by
              intro f hf t x r hx
              obtain ⟨u, hu, ⟨hspells, -⟩, hdepth⟩ := ih f (Nat.lt_succ_of_lt hf) hx
              exact ⟨u, hu, hdepth, hspells⟩
            obtain ⟨us, body, hus, hbody, rfl⟩ := (items_sequencing depth).sound_body hitem hvs
            obtain ⟨hdepth, hus⟩ := (List.forall₂_and_left _ _).mp hus
            refine leaf ⟨us, body, spellsItems_iff.mpr hus, hbody, rfl⟩
              (Nat.succ_le_succ (Value.depthOfItems_le.mpr hdepth)) ?_ fun _ h => by cases h
            rw [h2, List.cons_append, List.append_assoc, List.singleton_append]
        · cases depth with
          | zero => cases h
          | succ depth =>
            obtain ⟨⟨ms, r'⟩, hms, hp⟩ := Option.map_eq_some_iff.mp h
            cases hp
            have hmember : ∀ f < fuel, ∀ t (m : Text × Value) r, ((scanName t).bind fun name =>
                (value f depth name.2).map fun p => ((name.1, p.1), p.2)) = some (m, r) →
                ∃ u, t = u ++ r ∧ m.2.depth ≤ depth ∧ SpellsMember m u := by
              intro f hf t m r hm
              obtain ⟨⟨k, t'⟩, hname, hm⟩ := Option.bind_eq_some_iff.mp hm
              obtain ⟨⟨x, r'⟩, hvalue, hp⟩ := Option.map_eq_some_iff.mp hm
              cases hp
              obtain ⟨n, hn, rfl, -⟩ := scanName_eq_some.mp hname
              obtain ⟨u, rfl, ⟨hspells, -⟩, hdepth⟩ := ih f (Nat.lt_succ_of_lt hf) hvalue
              exact ⟨n ++ u, (List.append_assoc ..).symm, hdepth, n, u, rfl, hn, hspells⟩
            obtain ⟨us, body, hus, hbody, rfl⟩ := (members_sequencing depth).sound_body hmember hms
            obtain ⟨hdepth, hus⟩ := (List.forall₂_and_left _ _).mp hus
            refine leaf ⟨us, body, spellsMembers_iff.mpr hus, hbody, rfl⟩
              (Nat.succ_le_succ (Value.depthOfMembers_le.mpr hdepth)) ?_ fun _ h => by cases h
            rw [h3, List.cons_append, List.append_assoc, List.singleton_append]
        all_goals
          obtain ⟨q, hq, hp⟩ := Option.map_eq_some_iff.mp h
          cases hp
        · exact leaf rfl (Nat.zero_le _) (by rw [h4, scanWord_split hq]; rfl) fun _ h => by cases h
        · exact leaf rfl (Nat.zero_le _) (by rw [h5, scanWord_split hq]; rfl) fun _ h => by cases h
        · exact leaf rfl (Nat.zero_le _) (by rw [h6, scanWord_split hq]; rfl) fun _ h => by cases h
        · obtain ⟨hsplit, hnumber⟩ := scanNumber_eq_some.mp hq
          refine ⟨q.1, hsplit, ⟨⟨rfl, hnumber.change fun _ h => by cases h⟩, ?_⟩, Nat.zero_le _⟩
          rintro _ ⟨⟩
          exact hnumber

/-- Every text of a document is read as the document, where fuel and nesting suffice. -/
theorem value_complete (h : SpellsAt v u r) (hfuel : u.length < fuel) (hdepth : v.depth ≤ depth) :
    value fuel depth (u ++ r) = some (v, r) := by
  induction v using Value.induct generalizing u r fuel depth with
  | null =>
    obtain ⟨fuel, rfl⟩ : ∃ n, fuel = n + 1 := ⟨fuel - 1, by omega⟩
    cases h.1
    rfl
  | bool b =>
    obtain ⟨fuel, rfl⟩ : ∃ n, fuel = n + 1 := ⟨fuel - 1, by omega⟩
    cases b <;> cases h.1 <;> rfl
  | number literal =>
    obtain ⟨fuel, rfl⟩ : ∃ n, fuel = n + 1 := ⟨fuel - 1, by omega⟩
    obtain ⟨⟨rfl, -⟩, hnumber⟩ := h
    have hscan := (scanNumber_eq_some (p := (u, r))).mpr ⟨rfl, hnumber u rfl⟩
    obtain ⟨c, w, rfl, hc⟩ := (hnumber u rfl).head
    have hother : ∀ d : Char, ¬ (d = '-' ∨ isDigit d = true) → c ≠ d := by
      rintro d hd rfl
      exact hd hc
    rw [List.cons_append] at hscan ⊢
    rw [value, if_neg (hother _ (by decide)), if_neg (hother _ (by decide)),
      if_neg (hother _ (by decide)), if_neg (hother _ (by decide)), if_neg (hother _ (by decide)),
      if_neg (hother _ (by decide)), hscan, Option.map_some]
  | string s =>
    obtain ⟨fuel, rfl⟩ : ∃ n, fuel = n + 1 := ⟨fuel - 1, by omega⟩
    obtain ⟨⟨w, hw, rfl⟩, -⟩ := h
    simp only [List.cons_append, List.append_assoc, List.nil_append]
    rw [value, if_pos rfl, scanString_eq_some.mpr ⟨w, hw, rfl⟩, Option.map_some]
  | array vs ih =>
    obtain ⟨fuel, rfl⟩ : ∃ n, fuel = n + 1 := ⟨fuel - 1, by omega⟩
    obtain ⟨depth, rfl⟩ : ∃ n, depth = n + 1 :=
      ⟨depth - 1, by simp only [Value.depth] at hdepth; omega⟩
    simp only [Value.depth, Nat.add_le_add_iff_right, Value.depthOfItems_le] at hdepth
    obtain ⟨⟨us, body, hus, hbody, rfl⟩, -⟩ := h
    simp only [List.length_cons, List.length_append] at hfuel
    have hback : List.Forall₂ (Sequencing.ReadBack ']' fun fuel => value fuel depth) vs us := by
      refine ((List.forall₂_and_left _ _).mpr ⟨fun v hv => And.intro hv (hdepth v hv),
        spellsItems_iff.mp hus⟩).imp fun v u ⟨⟨hv, hdepth⟩, hu⟩ => ⟨hu.begins, ?_⟩
      exact fun fuel r hfuel hr => ih v hv ⟨hu, hu.number hr⟩ hfuel hdepth
    simp only [List.cons_append, List.append_assoc, List.nil_append]
    rw [value, if_neg (by decide), if_pos rfl, nested,
      (items_sequencing depth).complete_body hback hbody (by omega), Option.map_some]
  | object ms ih =>
    obtain ⟨fuel, rfl⟩ : ∃ n, fuel = n + 1 := ⟨fuel - 1, by omega⟩
    obtain ⟨depth, rfl⟩ : ∃ n, depth = n + 1 :=
      ⟨depth - 1, by simp only [Value.depth] at hdepth; omega⟩
    simp only [Value.depth, Nat.add_le_add_iff_right, Value.depthOfMembers_le] at hdepth
    obtain ⟨⟨us, body, hus, hbody, rfl⟩, -⟩ := h
    simp only [List.length_cons, List.length_append] at hfuel
    have hback : List.Forall₂ (Sequencing.ReadBack '\x7d' fun fuel t =>
        (scanName t).bind fun name => (value fuel depth name.2).map fun p => ((name.1, p.1), p.2))
        ms us := by
      refine ((List.forall₂_and_left _ _).mpr ⟨fun m hm => And.intro hm (hdepth m hm),
        spellsMembers_iff.mp hus⟩).imp ?_
      rintro m _ ⟨⟨hm, hdepth⟩, n, u, rfl, hn, hu⟩
      refine ⟨?_, fun fuel r hfuel hr => ?_⟩
      · obtain ⟨w, b, b', -, -, -, rfl⟩ := hn
        exact ⟨_, _, rfl, by decide, by decide⟩
      · rw [List.length_append] at hfuel
        simp only
        rw [List.append_assoc, scanName_eq_some.mpr ⟨n, hn, rfl, hu.begins.halts r⟩,
          Option.bind_some, ih m hm ⟨hu, hu.number hr⟩ (by omega) hdepth, Option.map_some]
    simp only [List.cons_append, List.append_assoc, List.nil_append]
    rw [value, if_neg (by decide), if_neg (by decide), if_pos rfl, nested,
      (members_sequencing depth).complete_body hback hbody (by omega), Option.map_some]

/-- A document is read off the front of a text exactly when one of its texts stands there,
after blanks, and is nested within the limit. -/
theorem read_eq_some :
    read depth t = some (v, r) ↔
      ∃ b u, Blanks b ∧ t = b ++ (u ++ r) ∧ SpellsAt v u r ∧ v.depth ≤ depth := by
  unfold read
  constructor
  · intro h
    obtain ⟨b, hb, hsplit, -⟩ := skipBlanks_spec t
    obtain ⟨u, hu, hspells, hdepth⟩ := value_sound h
    exact ⟨b, u, hb, by rw [← hu, ← hsplit], hspells, hdepth⟩
  · rintro ⟨b, u, hb, rfl, hspells, hdepth⟩
    rw [hb.skip (hspells.1.begins.halts r)]
    refine value_complete hspells ?_ hdepth
    simp only [List.length_append]
    omega

/-! ## What is printed is read back -/

/-- A style the reader understands: an escape stands for its character wherever it is
written, and the separators are a comma and a colon with blanks after them. -/
structure Style.Lawful (style : Style) : Prop where
  escape : ∀ c, ∃ piece : Piece, (∀ r, scanPieces (style.escape c ++ r) =
      (scanPieces r).map fun p => (piece :: p.1, p.2)) ∧
    ∀ ps, joinUnits (piece :: ps) = c :: joinUnits ps
  comma : ∃ blanks, style.comma = ',' :: blanks ∧ ∀ b ∈ blanks, isBlank b = true
  colon : ∃ blanks, style.colon = ':' :: blanks ∧ ∀ b ∈ blanks, isBlank b = true

/-- Every number of the document is a literal. -/
def Value.WellFormed (v : Value) : Prop :=
  ∀ literal, Value.number literal ∈ v.nodes → scanNumber literal = some (literal, [])

theorem Style.Lawful.stringText (hs : style.Lawful) (s : Text) :
    StringText s (s.flatMap style.escape) := by
  induction s with
  | nil => exact ⟨[], [], .nil, rfl, rfl⟩
  | cons c s ih =>
    obtain ⟨ps, us, hus, hjoin, hflat⟩ := ih
    obtain ⟨piece, hpiece, hc⟩ := hs.escape c
    -- An escape alone, before the closing mark, is the text of one piece.
    have hone := hpiece ['\x22']
    rw [scanPieces_close, Option.map_some] at hone
    obtain ⟨ws, hws, hsplit⟩ := scanPieces_eq_some.mp hone
    obtain ⟨w, _, hw, hnil, rfl⟩ := List.forall₂_cons_left_iff.mp hws
    cases hnil
    rw [List.flatten_cons, List.flatten_nil, List.append_nil] at hsplit
    refine ⟨piece :: ps, w :: us, .cons hw hus, by rw [hc, hjoin], ?_⟩
    rw [List.flatMap_cons, List.flatten_cons, hflat, List.append_cancel_right hsplit]

theorem joinWith_body {blanks : Text} (hblanks : Blanks blanks) (us : List Text) :
    Body us (joinWith (',' :: blanks) us) := by
  have htail : ∀ (u : Text) (us : List Text) (b : Text), Blanks b →
      Body (u :: us) (b ++ (u ++ us.flatMap (',' :: blanks ++ ·))) := by
    intro u us
    induction us generalizing u with
    | nil => exact fun b hb => .last hb .nil
    | cons w us ih =>
      intro b hb
      have h := Body.more (u := u) hb .nil (List.cons_ne_nil w us) (ih w blanks hblanks)
      simpa using h
  cases us with
  | nil => exact .empty .nil
  | cons u us => exact htail u us [] .nil

theorem encode_spells (hs : style.Lawful) (hv : v.WellFormed) :
    Spells v (encode style v) := by
  obtain ⟨commaBlanks, hcomma, hcommaBlanks⟩ := hs.comma
  obtain ⟨colonBlanks, hcolon, hcolonBlanks⟩ := hs.colon
  induction v using Value.induct with
  | null => rfl
  | bool b => cases b <;> rfl
  | number literal =>
    exact ⟨rfl, (scanNumber_eq_some.mp (hv literal (by simp [Value.nodes]))).2⟩
  | string s => exact ⟨_, hs.stringText s, rfl⟩
  | array vs ih =>
    have hwf : ∀ x ∈ vs, x.WellFormed := fun x hx literal hl =>
      hv literal (Value.mem_nodes_array.mpr (.inr ⟨x, hx, hl⟩))
    refine ⟨vs.map (encode style), _, spellsItems_iff.mpr ?_, joinWith_body hcommaBlanks _, ?_⟩
    · rw [List.forall₂_map_right_iff, List.forall₂_same]
      exact fun x hx => ih x hx (hwf x hx)
    · rw [encode, encodeItems_eq, hcomma]
  | object ms ih =>
    have hwf : ∀ m ∈ ms, m.2.WellFormed := fun m hm literal hl =>
      hv literal (Value.mem_nodes_object.mpr (.inr ⟨m, hm, hl⟩))
    refine ⟨ms.map fun m => memberText style m.1 (encode style m.2), _, spellsMembers_iff.mpr ?_,
      joinWith_body hcommaBlanks _, ?_⟩
    · rw [List.forall₂_map_right_iff, List.forall₂_same]
      refine fun m hm => ⟨_, _, rfl, ?_, ih m hm (hwf m hm)⟩
      refine ⟨_, [], colonBlanks, hs.stringText m.1, .nil, hcolonBlanks, ?_⟩
      rw [quote, hcolon, List.cons_append, List.append_assoc]
      rfl
    · rw [encode, objectText, encodeMembers_eq, hcomma, List.map_map]
      rfl

/-! ## What is read is well formed -/

theorem Value.WellFormed.array (h : ∀ v ∈ xs, Value.WellFormed v) :
    Value.WellFormed (.array xs) := by
  intro literal hl
  rcases Value.mem_nodes_array.mp hl with hl | ⟨x, hx, hl⟩
  · cases hl
  · exact h x hx literal hl

theorem Value.WellFormed.object (h : ∀ m ∈ ms, Value.WellFormed m.2) :
    Value.WellFormed (.object ms) := by
  intro literal hl
  rcases Value.mem_nodes_object.mp hl with hl | ⟨m, hm, hl⟩
  · cases hl
  · exact h m hm literal hl

theorem Value.wellFormed_string (s : Text) : Value.WellFormed (.string s) := by
  intro literal hl
  cases List.mem_singleton.mp hl

theorem Value.wellFormed_bool (b : Bool) : Value.WellFormed (.bool b) := by
  intro literal hl
  cases List.mem_singleton.mp hl

/-- A document whose numbers are literals and whose nesting is within a limit. -/
def Value.Within (depth : ℕ) (v : Value) : Prop := v.WellFormed ∧ v.depth ≤ depth

theorem Value.Within.array (h : ∀ v ∈ xs, Value.Within depth v) :
    Value.Within (depth + 1) (.array xs) := by
  refine ⟨.array fun v hv => (h v hv).1, ?_⟩
  exact Nat.add_le_add_right (Value.depthOfItems_le.mpr fun v hv => (h v hv).2) 1

theorem Value.Within.object (h : ∀ m ∈ ms, Value.Within depth m.2) :
    Value.Within (depth + 1) (.object ms) := by
  refine ⟨.object fun m hm => (h m hm).1, ?_⟩
  exact Nat.add_le_add_right (Value.depthOfMembers_le.mpr fun m hm => (h m hm).2) 1

/-- A document with nothing inside it. -/
theorem Value.Within.leaf (hnodes : v.nodes = [v]) (hdepth : v.depth = 0)
    (hnumber : ∀ literal, v = .number literal → scanNumber literal = some (literal, [])) :
    Value.Within depth v := by
  refine ⟨fun literal hl => ?_, by omega⟩
  rw [hnodes, List.mem_singleton] at hl
  exact hnumber literal hl.symm

theorem Spells.wellFormed (h : Spells v u) : v.WellFormed := by
  induction v using Value.induct generalizing u with
  | null => exact fun literal hl => by cases List.mem_singleton.mp hl
  | bool b => exact Value.wellFormed_bool b
  | string s => exact Value.wellFormed_string s
  | number literal =>
    intro l hl
    cases List.mem_singleton.mp hl
    exact scanNumber_eq_some.mpr ⟨(List.append_nil _).symm, h.2⟩
  | array vs ih =>
    obtain ⟨us, -, hus, -⟩ := h
    refine .array fun v hv => ?_
    obtain ⟨u, hu⟩ := exists_of_forall₂ (spellsItems_iff.mp hus) v hv
    exact ih v hv hu
  | object ms ih =>
    obtain ⟨us, -, hus, -⟩ := h
    refine .object fun m hm => ?_
    obtain ⟨_, n, u, -, -, hu⟩ := exists_of_forall₂ (spellsMembers_iff.mp hus) m hm
    exact ih m hm hu

/-! ## Reading a whole text -/

theorem read_sound (h : read depth t = some p) :
    Value.Within depth p.1 := by
  obtain ⟨b, u, -, -, hspells, hdepth⟩ := read_eq_some.mp h
  exact ⟨hspells.1.wellFormed, hdepth⟩

/-- What is read under one limit is read under any other that it stays within. -/
theorem read_of_depth (h : read depth t = some p) (hle : p.1.depth ≤ depth') :
    read depth' t = some p := by
  obtain ⟨b, u, hb, ht, hspells, -⟩ := read_eq_some.mp h
  exact read_eq_some.mpr ⟨b, u, hb, ht, hspells, hle⟩

theorem read_mono (h : read depth t = some p) (hle : depth ≤ depth') :
    read depth' t = some p := read_of_depth h ((read_sound h).2.trans hle)

theorem read_encode (hs : style.Lawful) (hv : v.Within depth)
    (hr : (∃ literal, v = .number literal) → Halts isNumberChar r) :
    read depth (encode style v ++ r) = some (v, r) := by
  have hspells := encode_spells hs hv.1
  exact read_eq_some.mpr ⟨[], _, .nil, rfl,
    ⟨hspells, fun l hl => hspells.number (hr ⟨l, hl⟩) l hl⟩, hv.2⟩

/-- A printed document is read exactly when the nesting limit allows it. -/
theorem read_encode_iff (hs : style.Lawful) (hv : v.WellFormed)
    (hr : (∃ literal, v = .number literal) → Halts isNumberChar r) :
    (read depth (encode style v ++ r)).isSome ↔ v.depth ≤ depth := by
  constructor
  · intro h
    obtain ⟨p, hp⟩ := Option.isSome_iff_exists.mp h
    have hwhole := read_encode hs ⟨hv, le_max_right depth v.depth⟩ hr
    have hsame := read_mono hp (le_max_left depth v.depth)
    rw [hwhole] at hsame
    have hdepth := (read_sound hp).2
    rw [← Option.some.inj hsame] at hdepth
    exact hdepth
  · intro h
    rw [read_encode hs ⟨hv, h⟩ hr]
    rfl

end Json

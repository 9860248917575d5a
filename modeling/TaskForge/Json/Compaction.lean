/-
What compaction keeps.

A document that is handed over as text is compacted on the way: blanks between its
tokens go, and some characters of its strings are escaped. The text is another one and
the document the same: a text of a document is compacted to a text of that document
(`Spells.compact`), token by token. Inside a string an escaped character is another
piece with the same text, between strings what the reader skips is what compaction
drops. So what was read from a text is read from the compacted text too
(`read_compact`).
-/
import TaskForge.Json.Styles

namespace Json

section Compaction

variable {html : Bool}
variable {mode : Mode} {c : Char} {t u s u' : Text} {v : Value}

/-! ## Inside a string -/

/-- An escaped character in place of the character itself. -/
def Piece.Spelled (p p' : Piece) : Prop := p' = p ∨ ∃ c : Char, p = .char c ∧ p' = .unit c.toNat

/-- Pieces that are spelled another way are the same text. -/
theorem joinUnits_spelled {ps ps' : List Piece} (h : List.Forall₂ Piece.Spelled ps ps') :
    joinUnits ps' = joinUnits ps := by
  fun_induction joinUnits ps generalizing ps' with
  | case1 => rw [List.forall₂_nil_left_iff.mp h, joinUnits]
  | case2 c ps ih =>
    obtain ⟨p', qs, hp, hqs, rfl⟩ := List.forall₂_cons_left_iff.mp h
    rcases hp with rfl | ⟨d, hd, rfl⟩
    · rw [joinUnits, ih hqs]
    · cases hd
      rw [joinUnits_toNat, ih hqs]
  | case3 n m ps hpair ih =>
    obtain ⟨p', qs, hp, hqs, rfl⟩ := List.forall₂_cons_left_iff.mp h
    obtain ⟨q', rs, hq, hrs, rfl⟩ := List.forall₂_cons_left_iff.mp hqs
    rcases hp with rfl | ⟨d, hd, -⟩
    · rcases hq with rfl | ⟨d, hd, -⟩
      · rw [joinUnits, if_pos hpair, ih hrs]
      · cases hd
    · cases hd
  | case4 n m ps hpair ih =>
    obtain ⟨p', qs, hp, hqs, rfl⟩ := List.forall₂_cons_left_iff.mp h
    have hrest := ih hqs
    obtain ⟨q', rs, hq, hrs, rfl⟩ := List.forall₂_cons_left_iff.mp hqs
    rcases hp with rfl | ⟨d, hd, -⟩
    · rcases hq with rfl | ⟨d, hd, -⟩
      · rw [joinUnits, if_neg hpair, hrest]
      · cases hd
    · cases hd
  | case5 n ps hnext ih =>
    obtain ⟨p', qs, hp, hqs, rfl⟩ := List.forall₂_cons_left_iff.mp h
    have hrest := ih hqs
    rcases hp with rfl | ⟨d, hd, -⟩
    · -- The unit stands alone: what follows it was no unit, and is no low surrogate now.
      cases hqs with
      | nil => rfl
      | @cons q q' qs qs' hq hqs =>
        rcases hq with rfl | ⟨d, rfl, rfl⟩
        · cases q' with
          | char d => exact congrArg (ofUnit n :: ·) hrest
          | unit m => exact absurd rfl (hnext m qs)
        · have halone : joinUnits (.unit n :: .unit d.toNat :: qs') =
              ofUnit n :: joinUnits (.unit d.toNat :: qs') := by
            rw [joinUnits, (not_surrogate d).2, Bool.and_false, if_neg Bool.false_ne_true]
          rw [halone, hrest]
    · cases hd

/-- The escape of one of those characters stands where the character stood. -/
theorem compactFrom_numericEscape (h : goExtra html c = true) (r : Text) :
    compactFrom (goExtra html) mode (numericEscape c ++ r) =
      numericEscape c ++ compactFrom (goExtra html) (mode.next c) r := by
  simp only [goExtra, isMarkup, isLineSeparator, Bool.or_eq_true, Bool.and_eq_true,
    beq_iff_eq] at h
  rcases h with ⟨rfl, (rfl | rfl) | rfl⟩ | rfl | rfl
  all_goals cases mode
  all_goals try rfl
  all_goals cases html <;> rfl

/-- What is compacted stays as it is. -/
theorem compactFrom_idem (mode : Mode) (t : Text) :
    compactFrom (goExtra html) mode (compactFrom (goExtra html) mode t) =
      compactFrom (goExtra html) mode t := by
  induction t generalizing mode with
  | nil => rfl
  | cons c r ih =>
    by_cases hblank : mode = .plain ∧ isBlank c = true
    · rw [compactFrom, if_pos hblank]
      exact ih mode
    · rw [compactFrom, if_neg hblank]
      by_cases hextra : goExtra html c = true
      · rw [if_pos hextra, compactFrom_numericEscape hextra, ih]
      · rw [if_neg hextra, List.singleton_append, compactFrom_copy ?_ (Bool.not_eq_true _ ▸ hextra), ih]
        intro hmode
        exact Bool.not_eq_true _ ▸ fun hc => hblank ⟨hmode, hc⟩

/-- A compacted text begins with no blank. -/
theorem compactFrom_plain_halts (t : Text) :
    Halts isBlank (compactFrom (goExtra html) .plain t) := by
  induction t with
  | nil => exact fun _ h => by cases h
  | cons c t ih =>
    by_cases hblank : isBlank c = true
    · rw [compactFrom, if_pos ⟨rfl, hblank⟩]
      exact ih
    · rw [compactFrom, if_neg fun h => hblank h.2]
      split_ifs
      · exact fun d hd => by cases hd; rfl
      · exact fun d hd => by cases hd; exact Bool.eq_false_iff.mpr hblank

/-- A text is its own compaction exactly if nothing in it is escaped, and no blank stands
between strings. -/
theorem compactFrom_eq_self_iff :
    compactFrom (goExtra html) mode t = t ↔ ∀ before c after, t = before ++ c :: after →
      goExtra html c = false ∧ (before.foldl Mode.next mode = .plain → isBlank c = false) := by
  induction t generalizing mode with
  | nil => exact iff_of_true rfl fun before c after h => by simp at h
  | cons c t ih =>
    constructor
    · intro h
      have hblank : mode = .plain → isBlank c = false := by
        rintro rfl
        refine @compactFrom_plain_halts html (c :: t) c ?_
        rw [h]
        rfl
      have hextra : goExtra html c = false := by
        by_contra hextra
        rw [compactFrom, if_neg fun hb => Bool.false_ne_true ((hblank hb.1).symm.trans hb.2),
          if_pos (Bool.not_eq_false _ ▸ hextra)] at h
        obtain rfl : '\x5c' = c := (List.cons.inj h).1
        exact hextra (by cases html <;> rfl)
      rw [compactFrom_copy hblank hextra] at h
      rintro (_ | ⟨d, before⟩) e after heq
      · cases heq
        exact ⟨hextra, hblank⟩
      · cases heq
        exact ih.mp (List.cons.inj h).2 before e after rfl
    · intro h
      obtain ⟨hextra, hblank⟩ := h [] c t rfl
      rw [List.foldl_nil] at hblank
      rw [compactFrom_copy hblank hextra, ih.mpr]
      intro before e after heq
      exact h (c :: before) e after (by rw [heq]; rfl)

/-- Compacting a piece of a string changes its spelling at most. -/
theorem Piece.Spelling.compact {p : Piece} (h : p.Spelling u) :
    ∃ p' u', p.Spelled p' ∧ p'.Spelling u' ∧ ∀ r,
      compactFrom (goExtra html) .quoted (u ++ r) =
        u' ++ compactFrom (goExtra html) .quoted r := by
  cases h with
  | unit h => exact ⟨_, _, .inl rfl, .unit h, compactFrom_unit h⟩
  | short h => exact ⟨_, _, .inl rfl, .short h, compactFrom_short h⟩
  | @char c hquote hslash hcontrol =>
    have hnext : Mode.quoted.next c = .quoted := by rw [Mode.next, if_neg hquote, if_neg hslash]
    by_cases hextra : goExtra html c = true
    · refine ⟨_, _, .inr ⟨c, rfl, rfl⟩, numericEscape_spelling (goExtra_lt hextra), fun r => ?_⟩
      rw [List.singleton_append, compactFrom, if_neg (by rintro ⟨h, -⟩; cases h), if_pos hextra,
        hnext]
    · refine ⟨_, _, .inl rfl, .char hquote hslash hcontrol, fun r => ?_⟩
      rw [List.singleton_append, compactFrom_copy (fun h => by cases h)
        (Bool.eq_false_iff.mpr hextra), hnext, List.singleton_append]

theorem StringText.compact (h : StringText s u) :
    ∃ u', StringText s u' ∧ ∀ r, compactFrom (goExtra html) .quoted (u ++ r) =
      u' ++ compactFrom (goExtra html) .quoted r := by
  obtain ⟨ps, us, hus, rfl, rfl⟩ := h
  have hpieces : ∃ ps' us', List.Forall₂ Piece.Spelled ps ps' ∧
      List.Forall₂ Piece.Spelling ps' us' ∧ ∀ r,
        compactFrom (goExtra html) .quoted (us.flatten ++ r) =
          us'.flatten ++ compactFrom (goExtra html) .quoted r := by
    induction hus with
    | nil => exact ⟨[], [], .nil, .nil, fun r => rfl⟩
    | cons hp _ ih =>
      obtain ⟨p', u', hspelled, hspelling, hcopy⟩ := @Piece.Spelling.compact html _ _ hp
      obtain ⟨ps', us', hps, hus, hrest⟩ := ih
      refine ⟨p' :: ps', u' :: us', .cons hspelled hps, .cons hspelling hus, fun r => ?_⟩
      rw [List.flatten_cons, List.append_assoc, hcopy, hrest, List.flatten_cons, List.append_assoc]
  obtain ⟨ps', us', hps, hus, hcopy⟩ := hpieces
  exact ⟨_, ⟨ps', us', hus, joinUnits_spelled hps, rfl⟩, hcopy⟩

/-! ## Between strings -/

/-- What the reader skips is dropped. -/
theorem compactFrom_skipBlanks (t : Text) :
    compactFrom (goExtra html) .plain (skipBlanks t) = compactFrom (goExtra html) .plain t := by
  induction t with
  | nil => rfl
  | cons c t ih =>
    by_cases hc : isBlank c = true
    · rw [skipBlanks, List.dropWhile_cons_of_pos hc, compactFrom, if_pos ⟨rfl, hc⟩]
      exact ih
    · rw [skipBlanks, List.dropWhile_cons_of_neg hc]

/-- The text `u` becomes `u'`, wherever it stands. -/
def Compacts (html : Bool) (u u' : Text) : Prop :=
  ∀ r, compactFrom (goExtra html) .plain (u ++ r) = u' ++ compactFrom (goExtra html) .plain r

theorem Compacts.append {v v' : Text} (hu : Compacts html u u') (hv : Compacts html v v') :
    Compacts html (u ++ v) (u' ++ v') := by
  intro r
  rw [List.append_assoc, hu, hv, List.append_assoc]

theorem Blanks.compacts {b : Text} (hb : Blanks b) : Compacts html b [] := by
  intro r
  induction b with
  | nil => rfl
  | cons c b ih =>
    rw [List.cons_append, compactFrom, if_pos ⟨rfl, hb c List.mem_cons_self⟩]
    exact ih fun c hc => hb c (List.mem_cons_of_mem _ hc)

/-- Brackets, commas and colons are copied. -/
theorem Compacts.mark (h : c ∈ ['[', ']', '\x7b', '\x7d', ',', ':']) (hu : Compacts html u u') :
    Compacts html (c :: u) (c :: u') := by
  intro r
  rw [List.cons_append, compactFrom_mark h, hu, List.cons_append]

theorem compacts_quoted {w : Text} (h : StringText s w) :
    ∃ w', StringText s w' ∧ Compacts html ('\x22' :: (w ++ ['\x22'])) ('\x22' :: (w' ++ ['\x22'])) := by
  obtain ⟨w', hw', hcopy⟩ := @StringText.compact html _ _ h
  refine ⟨w', hw', fun r => ?_⟩
  have hopen : Mode.plain.next '\x22' = .quoted := rfl
  have hclose : Mode.quoted.next '\x22' = .plain := rfl
  simp only [List.cons_append, List.append_assoc, List.nil_append]
  rw [compactFrom_copy (fun _ => by decide) (by cases html <;> decide), hopen, hcopy,
    compactFrom_copy (fun h => by cases h) (by cases html <;> decide), hclose]

/-- A sequence is compacted item by item. -/
theorem Body.compact {α : Type} {Item : α → Text → Prop} {xs : List α} {us : List Text}
    {body : Text} (hbody : Body us body)
    (hus : List.Forall₂ (fun x u => ∃ u', Item x u' ∧ Compacts html u u') xs us) :
    ∃ us' body', List.Forall₂ Item xs us' ∧ Body us' body' ∧ Compacts html body body' := by
  induction hbody generalizing xs with
  | empty hb =>
    cases hus
    exact ⟨[], [], .nil, .empty .nil, hb.compacts⟩
  | last hb hb' =>
    obtain ⟨x, _, ⟨u', hu', hcopy⟩, hnil, rfl⟩ := List.forall₂_cons_right_iff.mp hus
    cases hnil
    exact ⟨[u'], _, .cons hu' .nil, .last .nil .nil,
      hb.compacts.append (hcopy.append hb'.compacts)⟩
  | more hb hb' hne _ ih =>
    obtain ⟨x, xs, ⟨u', hu', hcopy⟩, hxs, rfl⟩ := List.forall₂_cons_right_iff.mp hus
    obtain ⟨us', body', hus', hbody', hrest⟩ := ih hxs
    have hne' : us' ≠ [] := by
      rintro rfl
      rw [List.forall₂_nil_right_iff.mp hus'] at hxs
      exact hne (List.forall₂_nil_left_iff.mp hxs)
    exact ⟨u' :: us', _, .cons hu' hus', .more .nil .nil hne' hbody',
      hb.compacts.append (hcopy.append (hb'.compacts.append (hrest.mark (by decide))))⟩

/-- A text of a document is compacted to a text of that document. -/
theorem Spells.compact (h : Spells v u) :
    ∃ u', Spells v u' ∧ Compacts html u u' := by
  induction v using Value.induct generalizing u with
  | null =>
    cases h
    exact ⟨_, rfl, fun r => by cases html <;> rfl⟩
  | bool b =>
    cases b <;> cases h <;> exact ⟨_, rfl, fun r => by cases html <;> rfl⟩
  | number literal =>
    obtain ⟨rfl, hnumber⟩ := h
    exact ⟨_, ⟨rfl, hnumber⟩, compactFrom_literal hnumber.chars⟩
  | string s =>
    obtain ⟨w, hw, rfl⟩ := h
    obtain ⟨w', hw', hcopy⟩ := @compacts_quoted html _ _ hw
    exact ⟨_, ⟨w', hw', rfl⟩, hcopy⟩
  | array vs ih =>
    obtain ⟨us, body, hus, hbody, rfl⟩ := h
    obtain ⟨us', body', hus', hbody', hcopy⟩ := @Body.compact html _ Spells vs us body hbody
      (((List.forall₂_and_left _ _).mpr ⟨fun _ hv => hv, spellsItems_iff.mp hus⟩).imp
        fun v u hvu => ih v hvu.1 hvu.2)
    exact ⟨_, ⟨us', body', spellsItems_iff.mpr hus', hbody', rfl⟩,
      (hcopy.append (.mark (by decide) fun r => rfl)).mark (by decide)⟩
  | object ms ih =>
    obtain ⟨us, body, hus, hbody, rfl⟩ := h
    have hmember : ∀ m ∈ ms, ∀ t, SpellsMember m t →
        ∃ t', SpellsMember m t' ∧ Compacts html t t' := by
      rintro m hm _ ⟨_, u, rfl, ⟨w, b, b', hw, hb, hb', rfl⟩, hu⟩
      obtain ⟨u', hu', hvalue⟩ := ih m hm hu
      obtain ⟨w', hw', hname⟩ := @compacts_quoted html _ _ hw
      refine ⟨_, ⟨_, u', rfl, ⟨w', [], [], hw', .nil, .nil, rfl⟩, hu'⟩, .append ?_ hvalue⟩
      have hcolon := hname.append (hb.compacts.append (hb'.compacts.mark (c := ':') (by decide)))
      simpa using hcolon
    obtain ⟨us', body', hus', hbody', hcopy⟩ := @Body.compact html _ SpellsMember ms us body hbody
      (((List.forall₂_and_left _ _).mpr ⟨fun _ hm => hm, spellsMembers_iff.mp hus⟩).imp
        fun m u hmu => hmember m hmu.1 u hmu.2)
    exact ⟨_, ⟨us', body', spellsMembers_iff.mpr hus', hbody', rfl⟩,
      (hcopy.append (.mark (by decide) fun r => rfl)).mark (by decide)⟩

/-- A document that is read to the end of a text is read to the end of the compacted
text too, with any nesting limit that covers it. -/
theorem read_compact {depth depth' : ℕ} {rest : Text} (h : read depth t = some (v, rest))
    (hrest : skipBlanks rest = []) (hdepth : v.depth ≤ depth') :
    read depth' (compact html t) = some (v, []) := by
  obtain ⟨b, u, hb, rfl, hspells, -⟩ := read_eq_some.mp h
  obtain ⟨u', hu', hcopy⟩ := @Spells.compact html _ _ hspells.1
  have hnil : compactFrom (goExtra html) .plain rest = [] := by
    rw [← compactFrom_skipBlanks, hrest]
    rfl
  refine read_eq_some.mpr ⟨[], u', .nil, ?_, ⟨hu', hu'.number fun _ h => by cases h⟩, hdepth⟩
  rw [compact, hb.compacts, hcopy, hnil]

end Compaction

end Json

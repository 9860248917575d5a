/-
How a Go service and PostgreSQL write JSON.

Both write a string with the short escapes and with numeric escapes for the other
control characters. They differ in the characters they escape beyond those
(`extra`), and PostgreSQL puts a blank after each comma and colon. Go copies a
document it was handed as text (`json.RawMessage`) by dropping the blanks and
escaping the extra characters where they stand (`compact`), so a document read from
a `jsonb` column leaves the service as Go would have printed the tree itself
(`compact_encode`).
-/
import TaskForge.Json.Reading

namespace Json

/-! ## Escapes -/

/-- The letter of the short escape of a character. -/
def shortOf (c : Char) : Option Char :=
  if c = '\x22' ∨ c = '\x5c' then some c
  else if c = '\x08' then some 'b'
  else if c = '\x0c' then some 'f'
  else if c = '\n' then some 'n'
  else if c = '\r' then some 'r'
  else if c = '\t' then some 't'
  else none

def hexDigit (n : ℕ) : Char := if n < 10 then Char.ofNat (48 + n) else Char.ofNat (87 + n)

/-- The escape by number, of a character of the basic plane. -/
def numericEscape (c : Char) : Text :=
  ['\x5c', 'u', hexDigit (c.toNat / 4096), hexDigit (c.toNat / 256 % 16),
    hexDigit (c.toNat / 16 % 16), hexDigit (c.toNat % 16)]

/-- A character of a string, with the characters of `extra` escaped besides those that
must be. -/
def escapeWith (extra : Char → Bool) (c : Char) : Text :=
  match shortOf c with
  | some e => ['\x5c', e]
  | none => if c.toNat < 0x20 || extra c then numericEscape c else [c]

/-- U+2028 and U+2029, which end a line in JavaScript. -/
def isLineSeparator (c : Char) : Bool := c == '\u2028' || c == '\u2029'

/-- The characters Go's `SetEscapeHTML` is about. -/
def isMarkup (c : Char) : Bool := c == '<' || c == '>' || c == '&'

/-- What Go escapes beyond what must be: the line separators, and markup unless told
not to. -/
def goExtra (html : Bool) (c : Char) : Bool := (html && isMarkup c) || isLineSeparator c

/-- `encoding/json`: no blanks. -/
def goStyle (html : Bool) : Style := ⟨escapeWith (goExtra html), [','], [':']⟩

/-- `jsonb` as PostgreSQL prints it. -/
def jsonbStyle : Style := ⟨escapeWith fun _ => false, [',', ' '], [':', ' ']⟩

/-! ## The escapes stand for their characters -/

theorem hexValue_hexDigit {d : ℕ} (h : d < 16) : hexValue (hexDigit d) = some d := by
  have key : ∀ d : Fin 16, hexValue (hexDigit d) = some d.val := by decide
  exact key ⟨d, h⟩

theorem hex4_hexDigit {n : ℕ} (h : n < 65536) :
    hex4 (hexDigit (n / 4096)) (hexDigit (n / 256 % 16)) (hexDigit (n / 16 % 16))
      (hexDigit (n % 16)) = some n := by
  have h3 := hexValue_hexDigit (d := n / 4096) (by omega)
  have h2 := hexValue_hexDigit (d := n / 256 % 16) (by omega)
  have h1 := hexValue_hexDigit (d := n / 16 % 16) (by omega)
  have h0 := hexValue_hexDigit (d := n % 16) (by omega)
  simp only [hex4, h3, h2, h1, h0, Option.bind_eq_bind, Option.bind_some, Option.pure_def,
    Option.some.injEq]
  omega

/-- A character is no surrogate. -/
theorem not_surrogate (c : Char) :
    isHighSurrogate c.toNat = false ∧ isLowSurrogate c.toNat = false := by
  have hvalid : c.toNat < 0xd800 ∨ (0xdfff < c.toNat ∧ c.toNat < 0x110000) := c.valid
  constructor
  · simp only [isHighSurrogate, Bool.and_eq_false_iff, decide_eq_false_iff_not]
    omega
  · simp only [isLowSurrogate, Bool.and_eq_false_iff, decide_eq_false_iff_not]
    omega

theorem joinUnits_unit {n : ℕ} (h : isHighSurrogate n = false) (ps : List Piece) :
    joinUnits (.unit n :: ps) = ofUnit n :: joinUnits ps := by
  cases ps with
  | nil => rfl
  | cons p ps =>
    cases p with
    | char c => rfl
    | unit m => rw [joinUnits, h, Bool.false_and, if_neg Bool.false_ne_true]

theorem shortEscape_shortOf {c e : Char} (h : shortOf c = some e) : shortEscape e = some c := by
  unfold shortOf at h
  split_ifs at h with h1 h2 h3 h4 h5 h6
  · cases h
    rcases h1 with rfl | rfl <;> decide
  all_goals
    cases h
    subst_vars
    decide

/-- A character without a short escape that is not a control character stands for
itself. -/
theorem shortOf_eq_none {c : Char} (h : shortOf c = none) : c ≠ '\x22' ∧ c ≠ '\x5c' := by
  constructor <;>
  · rintro rfl
    exact absurd h (by decide)

theorem joinUnits_toNat (c : Char) (ps : List Piece) :
    joinUnits (.unit c.toNat :: ps) = c :: joinUnits ps := by
  obtain ⟨hhigh, hlow⟩ := not_surrogate c
  rw [joinUnits_unit hhigh, ofUnit, hhigh, hlow, Bool.or_false, if_neg Bool.false_ne_true,
    Char.ofNat_toNat]

theorem numericEscape_spelling {c : Char} (h : c.toNat < 65536) :
    Piece.Spelling (.unit c.toNat) (numericEscape c) := .unit (hex4_hexDigit h)

theorem escapeWith_reads {extra : Char → Bool} (hextra : ∀ c, extra c = true → c.toNat < 65536)
    (c : Char) : ∃ piece : Piece, (∀ r, scanPieces (escapeWith extra c ++ r) =
      (scanPieces r).map fun p => (piece :: p.1, p.2)) ∧
    ∀ ps, joinUnits (piece :: ps) = c :: joinUnits ps := by
  unfold escapeWith
  cases hshort : shortOf c with
  | some e => exact ⟨.char c, (Piece.Spelling.short (shortEscape_shortOf hshort)).scan, fun ps => rfl⟩
  | none =>
    simp only
    split_ifs with hnumeric
    · have hlt : c.toNat < 65536 := by
        rw [Bool.or_eq_true, decide_eq_true_eq] at hnumeric
        rcases hnumeric with h | h
        · omega
        · exact hextra c h
      exact ⟨.unit c.toNat, (numericEscape_spelling hlt).scan, joinUnits_toNat c⟩
    · rw [Bool.or_eq_true, decide_eq_true_eq, not_or] at hnumeric
      obtain ⟨hquote, hslash⟩ := shortOf_eq_none hshort
      exact ⟨.char c, (Piece.Spelling.char hquote hslash hnumeric.1).scan, fun ps => rfl⟩

theorem goExtra_lt {html : Bool} {c : Char} (h : goExtra html c = true) : c.toNat < 65536 := by
  simp only [goExtra, isMarkup, isLineSeparator, Bool.or_eq_true, Bool.and_eq_true,
    beq_iff_eq] at h
  rcases h with ⟨-, (rfl | rfl) | rfl⟩ | rfl | rfl <;> decide

theorem goStyle_lawful (html : Bool) : (goStyle html).Lawful where
  escape := escapeWith_reads fun _ h => goExtra_lt h
  comma := ⟨[], rfl, fun _ h => absurd h List.not_mem_nil⟩
  colon := ⟨[], rfl, fun _ h => absurd h List.not_mem_nil⟩

theorem jsonbStyle_lawful : jsonbStyle.Lawful where
  escape := escapeWith_reads fun _ h => absurd h Bool.false_ne_true
  comma := ⟨[' '], rfl, fun b hb => by cases List.mem_singleton.mp hb; rfl⟩
  colon := ⟨[' '], rfl, fun b hb => by cases List.mem_singleton.mp hb; rfl⟩

/-! ## A document that is handed over as text -/

/-- Where a text stands: between strings, inside one, or after a backslash. -/
inductive Mode where
  | plain | quoted | escaped
deriving DecidableEq, Repr

def Mode.next : Mode → Char → Mode
  | .plain, c => if c = '\x22' then .quoted else .plain
  | .quoted, c => if c = '\x22' then .plain else if c = '\x5c' then .escaped else .quoted
  | .escaped, _ => .quoted

/-- `json.Compact` with the characters of `extra` escaped where they stand. -/
def compactFrom (extra : Char → Bool) : Mode → Text → Text
  | _, [] => []
  | mode, c :: r =>
    if mode = .plain ∧ isBlank c = true then compactFrom extra mode r
    else (if extra c then numericEscape c else [c]) ++ compactFrom extra (mode.next c) r

/-- How `encoding/json` re-emits a `json.RawMessage`. -/
def compact (html : Bool) (t : Text) : Text := compactFrom (goExtra html) .plain t

section Compact

variable {html : Bool}
variable {c : Char} {v : Value}

/-- A character that is copied as it stands. -/
theorem compactFrom_copy {mode : Mode} (hblank : mode = .plain → isBlank c = false)
    (hextra : goExtra html c = false) (r : Text) :
    compactFrom (goExtra html) mode (c :: r) =
      c :: compactFrom (goExtra html) (mode.next c) r := by
  have hkeep : ¬ (mode = .plain ∧ isBlank c = true) := by
    rintro ⟨rfl, hc⟩
    rw [hblank rfl] at hc
    exact Bool.false_ne_true hc
  rw [compactFrom, if_neg hkeep, hextra, if_neg Bool.false_ne_true, List.singleton_append]

/-- The characters that are escaped besides those that must be are no digits and no
letters of an escape. -/
theorem goExtra_eq_false (h : (hexValue c).isSome = true ∨ (shortEscape c).isSome = true) :
    goExtra html c = false := by
  by_contra hextra
  simp only [Bool.not_eq_false, goExtra, isMarkup, isLineSeparator, Bool.or_eq_true,
    Bool.and_eq_true, beq_iff_eq] at hextra
  rcases hextra with ⟨-, (rfl | rfl) | rfl⟩ | rfl | rfl
  all_goals exact absurd h (by decide)

/-- The digits of a numeric escape are copied. -/
theorem compactFrom_hex (h : (hexValue c).isSome = true) (r : Text) :
    compactFrom (goExtra html) .quoted (c :: r) = c :: compactFrom (goExtra html) .quoted r := by
  have hquote : c ≠ '\x22' := by
    rintro rfl
    exact absurd h (by decide)
  have hslash : c ≠ '\x5c' := by
    rintro rfl
    exact absurd h (by decide)
  rw [compactFrom_copy (fun h => by cases h) (goExtra_eq_false (.inl h)), Mode.next, if_neg hquote,
    if_neg hslash]

theorem compactFrom_unit {a b d : Char} {n : ℕ} (h : hex4 a b c d = some n) (r : Text) :
    compactFrom (goExtra html) .quoted (['\x5c', 'u', a, b, c, d] ++ r) =
      ['\x5c', 'u', a, b, c, d] ++ compactFrom (goExtra html) .quoted r := by
  simp only [hex4, Option.bind_eq_bind, Option.bind_eq_some_iff] at h
  obtain ⟨_, ha, _, hb, _, hc, _, hd, -⟩ := h
  have hslash : Mode.quoted.next '\x5c' = .escaped := rfl
  simp only [List.cons_append, List.nil_append]
  rw [compactFrom_copy (fun h => by cases h) (by cases html <;> decide), hslash,
    compactFrom_copy (fun h => by cases h) (by cases html <;> decide), Mode.next,
    compactFrom_hex (Option.isSome_of_mem ha), compactFrom_hex (Option.isSome_of_mem hb),
    compactFrom_hex (Option.isSome_of_mem hc), compactFrom_hex (Option.isSome_of_mem hd)]

theorem compactFrom_short {e : Char} (h : shortEscape e = some c) (r : Text) :
    compactFrom (goExtra html) .quoted (['\x5c', e] ++ r) =
      ['\x5c', e] ++ compactFrom (goExtra html) .quoted r := by
  have hslash : Mode.quoted.next '\x5c' = .escaped := rfl
  simp only [List.cons_append, List.nil_append]
  rw [compactFrom_copy (fun h => by cases h) (by cases html <;> decide), hslash,
    compactFrom_copy (fun h => by cases h) (goExtra_eq_false (.inr (Option.isSome_of_mem h))),
    Mode.next]

/-- Inside a string, the escape that must be written stays, and the extra ones are
added. -/
theorem compactFrom_escape (c : Char) (r : Text) :
    compactFrom (goExtra html) .quoted (escapeWith (fun _ => false) c ++ r) =
      escapeWith (goExtra html) c ++ compactFrom (goExtra html) .quoted r := by
  unfold escapeWith
  cases hshort : shortOf c with
  | some e => exact compactFrom_short (shortEscape_shortOf hshort) r
  | none =>
    obtain ⟨hquote, hslash⟩ := shortOf_eq_none hshort
    simp only [Bool.or_false, decide_eq_true_eq]
    by_cases hcontrol : c.toNat < 0x20
    · rw [if_pos hcontrol, if_pos (by simp [hcontrol])]
      exact compactFrom_unit (hex4_hexDigit (by omega)) r
    · rw [if_neg hcontrol]
      have hmode : Mode.quoted.next c = .quoted := by
        rw [Mode.next, if_neg hquote, if_neg hslash]
      rw [List.singleton_append, compactFrom, if_neg (by rintro ⟨h, -⟩; cases h), hmode]
      by_cases hextra : goExtra html c = true <;> simp [hcontrol, hextra]

theorem compactFrom_string (s r : Text) :
    compactFrom (goExtra html) .plain (quote jsonbStyle.escape s ++ r) =
      quote (goStyle html).escape s ++ compactFrom (goExtra html) .plain r := by
  have hinside : ∀ s : Text, compactFrom (goExtra html) .quoted
      (s.flatMap jsonbStyle.escape ++ '\x22' :: r) =
      s.flatMap (goStyle html).escape ++ '\x22' :: compactFrom (goExtra html) .plain r := by
    intro s
    induction s with
    | nil =>
      rw [List.flatMap_nil, List.flatMap_nil, List.nil_append, List.nil_append,
        compactFrom_copy (fun h => by cases h) (by cases html <;> decide)]
      rfl
    | cons c s ih =>
      rw [List.flatMap_cons, List.flatMap_cons, List.append_assoc, List.append_assoc, ← ih]
      exact compactFrom_escape c _
  rw [quote, quote, List.cons_append, List.append_assoc,
    compactFrom_copy (fun _ => by decide) (by cases html <;> decide)]
  simp only [List.cons_append, List.append_assoc, List.nil_append]
  exact congrArg ('\x22' :: ·) (hinside s)

theorem exists_of_isDigit (h : isDigit c = true) :
    ∃ n : Fin 10, c = Char.ofNat (48 + n) := by
  simp only [isDigit, Bool.and_eq_true, decide_eq_true_eq] at h
  have hlo : 48 ≤ c.toNat := h.1
  have hhi : c.toNat ≤ 57 := h.2
  refine ⟨⟨c.toNat - 48, by omega⟩, ?_⟩
  rw [show 48 + (c.toNat - 48) = c.toNat by omega, Char.ofNat_toNat]

/-- The characters of a list that compaction copies between strings, checked at once. -/
theorem plain_of_mem {cs : Text} (hc : c ∈ cs)
    (h : (cs.all fun c => !isBlank c && !goExtra html c && Mode.plain.next c == .plain) = true) :
    isBlank c = false ∧ goExtra html c = false ∧ Mode.plain.next c = .plain := by
  simpa [and_assoc] using List.all_eq_true.mp h c hc

/-- The characters of a number are copied. -/
theorem compactFrom_literal {t : Text} (h : ∀ c ∈ t, isLiteralChar c) (r : Text) :
    compactFrom (goExtra html) .plain (t ++ r) = t ++ compactFrom (goExtra html) .plain r := by
  induction t with
  | nil => rfl
  | cons c t ih =>
    have hc : isBlank c = false ∧ goExtra html c = false ∧ Mode.plain.next c = .plain := by
      rcases h c List.mem_cons_self with hd | hs
      · have key : ∀ (b : Bool), ∀ n : Fin 10, isBlank (Char.ofNat (48 + n)) = false ∧
            goExtra b (Char.ofNat (48 + n)) = false ∧
            Mode.plain.next (Char.ofNat (48 + n)) = .plain := by decide
        obtain ⟨n, rfl⟩ := exists_of_isDigit hd
        exact key html n
      · exact plain_of_mem hs (by cases html <;> decide)
    rw [List.cons_append, compactFrom_copy (fun _ => hc.1) hc.2.1, hc.2.2,
      ih fun c hc => h c (List.mem_cons_of_mem _ hc), List.cons_append]

/-- A bracket, a comma or a colon between strings is copied. -/
theorem compactFrom_mark (h : c ∈ ['[', ']', '\x7b', '\x7d', ',', ':']) (r : Text) :
    compactFrom (goExtra html) .plain (c :: r) = c :: compactFrom (goExtra html) .plain r := by
  obtain ⟨hblank, hextra, hmode⟩ := @plain_of_mem html _ _ h (by cases html <;> decide)
  rw [compactFrom_copy (fun _ => hblank) hextra, hmode]

theorem compactFrom_space (r : Text) :
    compactFrom (goExtra html) .plain (' ' :: r) = compactFrom (goExtra html) .plain r := by
  rw [compactFrom, if_pos ⟨rfl, by decide⟩]

theorem compactFrom_joinWith {α : Type} {print print' : α → Text} (xs : List α)
    (h : ∀ x ∈ xs, ∀ r, compactFrom (goExtra html) .plain (print x ++ r) =
      print' x ++ compactFrom (goExtra html) .plain r) (r : Text) :
    compactFrom (goExtra html) .plain (joinWith [',', ' '] (xs.map print) ++ r) =
      joinWith [','] (xs.map print') ++ compactFrom (goExtra html) .plain r := by
  have htail : ∀ ys : List α, (∀ x ∈ ys, x ∈ xs) → compactFrom (goExtra html) .plain
      ((ys.map print).flatMap ([',', ' '] ++ ·) ++ r) =
      (ys.map print').flatMap ([','] ++ ·) ++ compactFrom (goExtra html) .plain r := by
    intro ys hys
    induction ys with
    | nil => rfl
    | cons y ys ih =>
      have hy := h y (hys y List.mem_cons_self)
      have ih := ih fun x hx => hys x (List.mem_cons_of_mem _ hx)
      simp only [List.map_cons, List.flatMap_cons, List.append_assoc, List.cons_append,
        List.nil_append] at ih ⊢
      rw [compactFrom_mark (by decide), compactFrom_space, hy, ih]
  cases xs with
  | nil => rfl
  | cons x xs =>
    rw [List.map_cons, List.map_cons, joinWith, joinWith, List.append_assoc, List.append_assoc,
      h x List.mem_cons_self, htail xs fun y hy => List.mem_cons_of_mem _ hy]

/-- Removing the blanks of what PostgreSQL prints gives what Go prints. -/
theorem compactFrom_encode (hv : v.WellFormed) (r : Text) :
    compactFrom (goExtra html) .plain (encode jsonbStyle v ++ r) =
      encode (goStyle html) v ++ compactFrom (goExtra html) .plain r := by
  induction v using Value.induct generalizing r with
  | null => cases html <;> rfl
  | bool b => cases b <;> cases html <;> rfl
  | number literal =>
    rw [encode, encode]
    exact compactFrom_literal
      (scanNumber_eq_some.mp (hv literal (by simp [Value.nodes]))).2.chars r
  | string text => rw [encode, encode]; exact compactFrom_string text r
  | array xs ih =>
    have hitems : ∀ x ∈ xs, ∀ r, compactFrom (goExtra html) .plain (encode jsonbStyle x ++ r) =
        encode (goStyle html) x ++ compactFrom (goExtra html) .plain r := fun x hx r =>
      ih x hx (fun literal hl => hv literal (Value.mem_nodes_array.mpr (.inr ⟨x, hx, hl⟩))) r
    simp only [encode, encodeItems_eq, List.cons_append, List.append_assoc, List.nil_append]
    rw [compactFrom_mark (by decide)]
    refine congrArg ('[' :: ·) ((compactFrom_joinWith xs hitems _).trans ?_)
    rw [compactFrom_mark (by decide)]
    rfl
  | object ms ih =>
    have hmembers : ∀ m ∈ ms, ∀ r, compactFrom (goExtra html) .plain
        (memberText jsonbStyle m.1 (encode jsonbStyle m.2) ++ r) =
        memberText (goStyle html) m.1 (encode (goStyle html) m.2) ++
          compactFrom (goExtra html) .plain r := by
      intro m hm r
      have hvalue := ih m hm
        (fun literal hl => hv literal (Value.mem_nodes_object.mpr (.inr ⟨m, hm, hl⟩))) r
      simp only [memberText, List.append_assoc]
      rw [compactFrom_string]
      refine congrArg (quote (goStyle html).escape m.1 ++ ·) ?_
      refine (compactFrom_mark (by decide) _).trans ?_
      exact congrArg (':' :: ·) ((compactFrom_space _).trans hvalue)
    simp only [encode, objectText, encodeMembers_eq, List.map_map, List.cons_append,
      List.append_assoc, List.nil_append]
    rw [compactFrom_mark (by decide)]
    refine congrArg ('\x7b' :: ·) ((compactFrom_joinWith ms hmembers _).trans ?_)
    rw [compactFrom_mark (by decide)]
    rfl

theorem compact_encode (hv : v.WellFormed) :
    compact html (encode jsonbStyle v) = encode (goStyle html) v := by
  have h := (compactFrom_encode hv [] : compactFrom (goExtra html) .plain _ = _)
  rw [List.append_nil] at h
  rw [compact, h, compactFrom, List.append_nil]

end Compact

end Json

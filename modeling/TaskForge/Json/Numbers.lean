/-
Number literals.

The scanner of numbers takes as much as it can: the minus sign, the integer, the
fraction and the exponent are each cut off the front of what the part before left. So
what it returns is described by two things: the text is the literal and the rest, and
the rest does not go on with the literal (`scanNumber_eq_some`). A literal stays one
before any other rest that does not go on with it (`NumberAt.change`).
-/
import TaskForge.Json.Basic

namespace Json

/-- No character that satisfies `p` stands in front. -/
def Halts (p : Char → Bool) (r : Text) : Prop := ∀ c ∈ r.head?, p c = false

/-- The characters by which a number may go on. -/
def isNumberChar (c : Char) : Bool := isDigit c || c == '.' || c == 'e' || c == 'E'

def isExponentMark (c : Char) : Bool := c == 'e' || c == 'E'

/-- At least one digit, and nothing else. -/
def Digits (ds : Text) : Prop := ds ≠ [] ∧ ∀ c ∈ ds, isDigit c = true

/-! ## The parts of a literal, and what may follow each -/

def IntegerAt (a r : Text) : Prop :=
  a = ['0'] ∨ Digits a ∧ a.head? ≠ some '0' ∧ Halts isDigit r

def FractionAt (a r : Text) : Prop :=
  a = [] ∧ Halts (· == '.') r ∨ ∃ ds, a = '.' :: ds ∧ Digits ds ∧ Halts isDigit r

def ExponentAt (a r : Text) : Prop :=
  a = [] ∧ Halts isExponentMark r ∨ ∃ e sign ds, a = e :: (sign ++ ds) ∧ isExponentMark e = true ∧
    (sign = [] ∨ sign = ['+'] ∨ sign = ['-']) ∧ Digits ds ∧ Halts isDigit r

/-- The literal `a`, where the text goes on with `r`. -/
def NumberAt (a r : Text) : Prop :=
  ∃ minus int frac exp, a = minus ++ (int ++ (frac ++ exp)) ∧ (minus = [] ∨ minus = ['-']) ∧
    IntegerAt int (frac ++ (exp ++ r)) ∧ FractionAt frac (exp ++ r) ∧ ExponentAt exp r

/-! ## The scanner finds them -/

theorem scanDigits_spec (t : Text) : t = (scanDigits t).1 ++ (scanDigits t).2 ∧
    (∀ c ∈ (scanDigits t).1, isDigit c = true) ∧ Halts isDigit (scanDigits t).2 := by
  induction t with
  | nil => exact ⟨rfl, fun _ h => absurd h List.not_mem_nil, fun _ h => by cases h⟩
  | cons c t ih =>
    rw [scanDigits]
    split_ifs with hc
    · obtain ⟨hsplit, hall, hhalts⟩ := ih
      exact ⟨by rw [List.cons_append, ← hsplit], List.forall_mem_cons.mpr ⟨hc, hall⟩, hhalts⟩
    · refine ⟨rfl, fun _ h => absurd h List.not_mem_nil, fun d hd => ?_⟩
      cases hd
      exact Bool.eq_false_iff.mpr hc

variable {ds r t a : Text} {p : Text × Text}

theorem scanDigits_append (hall : ∀ c ∈ ds, isDigit c = true) (hr : Halts isDigit r) :
    scanDigits (ds ++ r) = (ds, r) := by
  induction ds with
  | nil =>
    cases r with
    | nil => rfl
    | cons c r => rw [List.nil_append, scanDigits, hr c rfl, if_neg Bool.false_ne_true]
  | cons d ds ih =>
    rw [List.cons_append, scanDigits, if_pos (hall d List.mem_cons_self),
      ih fun c hc => hall c (List.mem_cons_of_mem _ hc)]

theorem scanSome_spec (h : scanSome t = some p) :
    t = p.1 ++ p.2 ∧ Digits p.1 ∧ Halts isDigit p.2 := by
  unfold scanSome at h
  split at h
  · cases h
  · cases h
    rename_i c ds hds
    obtain ⟨hsplit, hall, hhalts⟩ := scanDigits_spec t
    exact ⟨hsplit, ⟨by rw [hds]; exact List.cons_ne_nil c ds, hall⟩, hhalts⟩

theorem Digits.scan (h : Digits ds) (hr : Halts isDigit r) :
    scanSome (ds ++ r) = some (ds, r) := by
  obtain ⟨d, u, rfl⟩ := List.exists_cons_of_ne_nil h.1
  rw [scanSome, scanDigits_append h.2 hr]

theorem scanInteger_spec (h : scanInteger t = some p) :
    t = p.1 ++ p.2 ∧ IntegerAt p.1 p.2 := by
  cases t with
  | nil => cases h
  | cons c t =>
    rw [scanInteger] at h
    split_ifs at h with hzero hdigit
    · cases h
      exact ⟨by rw [hzero, List.singleton_append], .inl rfl⟩
    · cases h
      obtain ⟨hsplit, hall, hhalts⟩ := scanDigits_spec t
      exact ⟨by rw [List.cons_append, ← hsplit], .inr ⟨⟨List.cons_ne_nil _ _,
        List.forall_mem_cons.mpr ⟨hdigit, hall⟩⟩, fun h => hzero (Option.some.inj h), hhalts⟩⟩

theorem IntegerAt.scan (h : IntegerAt a r) : scanInteger (a ++ r) = some (a, r) := by
  rcases h with rfl | ⟨hdigits, hhead, hhalts⟩
  · rfl
  · obtain ⟨c, ds, rfl⟩ := List.exists_cons_of_ne_nil hdigits.1
    rw [List.cons_append, scanInteger, if_neg fun hc => hhead (congrArg some hc),
      if_pos (hdigits.2 c List.mem_cons_self),
      scanDigits_append (fun c hc => hdigits.2 c (List.mem_cons_of_mem _ hc)) hhalts]

theorem scanFraction_spec (h : scanFraction t = some p) :
    t = p.1 ++ p.2 ∧ FractionAt p.1 p.2 := by
  cases t with
  | nil => cases h; exact ⟨rfl, .inl ⟨rfl, fun _ h => by cases h⟩⟩
  | cons c t =>
    rw [scanFraction] at h
    split_ifs at h with hdot
    · obtain ⟨q, hq, rfl⟩ := Option.map_eq_some_iff.mp h
      obtain ⟨hsplit, hdigits, hhalts⟩ := scanSome_spec hq
      exact ⟨by rw [hdot, List.cons_append, ← hsplit], .inr ⟨_, rfl, hdigits, hhalts⟩⟩
    · cases h
      refine ⟨rfl, .inl ⟨rfl, fun d hd => ?_⟩⟩
      cases hd
      exact beq_eq_false_iff_ne.mpr hdot

theorem FractionAt.scan (h : FractionAt a r) : scanFraction (a ++ r) = some (a, r) := by
  rcases h with ⟨rfl, hhalts⟩ | ⟨ds, rfl, hdigits, hhalts⟩
  · cases r with
    | nil => rfl
    | cons c r => rw [List.nil_append, scanFraction, if_neg (beq_eq_false_iff_ne.mp (hhalts c rfl))]
  · rw [List.cons_append, scanFraction, if_pos rfl, hdigits.scan hhalts, Option.map_some]

theorem scanSign_spec (t : Text) : t = (scanSign t).1 ++ (scanSign t).2 ∧
    ((scanSign t).1 = [] ∨ (scanSign t).1 = ['+'] ∨ (scanSign t).1 = ['-']) := by
  cases t with
  | nil => exact ⟨rfl, .inl rfl⟩
  | cons c t =>
    rw [scanSign]
    split_ifs with hc
    · rcases hc with rfl | rfl
      · exact ⟨rfl, .inr (.inl rfl)⟩
      · exact ⟨rfl, .inr (.inr rfl)⟩
    · exact ⟨rfl, .inl rfl⟩

theorem isExponentMark_iff {c : Char} : isExponentMark c = true ↔ c = 'e' ∨ c = 'E' := by
  rw [isExponentMark, Bool.or_eq_true, beq_iff_eq, beq_iff_eq]

theorem scanExponent_spec (h : scanExponent t = some p) :
    t = p.1 ++ p.2 ∧ ExponentAt p.1 p.2 := by
  cases t with
  | nil => cases h; exact ⟨rfl, .inl ⟨rfl, fun _ h => by cases h⟩⟩
  | cons c t =>
    rw [scanExponent] at h
    split_ifs at h with hmark
    · obtain ⟨q, hq, rfl⟩ := Option.map_eq_some_iff.mp h
      obtain ⟨hsign, hsigns⟩ := scanSign_spec t
      obtain ⟨hsplit, hdigits, hhalts⟩ := scanSome_spec hq
      exact ⟨by rw [List.cons_append, List.append_assoc, ← hsplit, ← hsign],
        .inr ⟨c, _, _, rfl, isExponentMark_iff.mpr hmark, hsigns, hdigits, hhalts⟩⟩
    · cases h
      refine ⟨rfl, .inl ⟨rfl, fun d hd => ?_⟩⟩
      cases hd
      exact Bool.eq_false_iff.mpr fun h => hmark (isExponentMark_iff.mp h)

theorem ExponentAt.scan (h : ExponentAt a r) : scanExponent (a ++ r) = some (a, r) := by
  rcases h with ⟨rfl, hhalts⟩ | ⟨e, sign, ds, rfl, hmark, hsigns, hdigits, hhalts⟩
  · cases r with
    | nil => rfl
    | cons c r =>
      rw [List.nil_append, scanExponent, if_neg fun h =>
        Bool.eq_false_iff.mp (hhalts c rfl) (isExponentMark_iff.mpr h)]
  · -- The sign is split off again, because a digit follows it.
    have hsign : scanSign (sign ++ (ds ++ r)) = (sign, ds ++ r) := by
      rcases hsigns with rfl | rfl | rfl
      · obtain ⟨d, u, rfl⟩ := List.exists_cons_of_ne_nil hdigits.1
        have hd : ¬ (d = '+' ∨ d = '-') := by
          rintro (rfl | rfl) <;> exact absurd (hdigits.2 _ List.mem_cons_self) (by decide)
        rw [List.nil_append, List.cons_append, scanSign, if_neg hd]
      · rfl
      · rfl
    rw [List.cons_append, List.append_assoc, scanExponent, if_pos (isExponentMark_iff.mp hmark),
      hsign, hdigits.scan hhalts, Option.map_some]

theorem IntegerAt.head (h : IntegerAt a r) :
    ∃ c ds, a = c :: ds ∧ isDigit c = true := by
  rcases h with rfl | ⟨hdigits, -⟩
  · exact ⟨_, _, rfl, by decide⟩
  · obtain ⟨c, ds, rfl⟩ := List.exists_cons_of_ne_nil hdigits.1
    exact ⟨c, ds, rfl, hdigits.2 c List.mem_cons_self⟩

/-- The number at the front of a text: a literal that the rest does not go on with. -/
theorem scanNumber_eq_some :
    scanNumber t = some p ↔ t = p.1 ++ p.2 ∧ NumberAt p.1 p.2 := by
  simp only [scanNumber, Option.bind_eq_bind, Option.bind_eq_some_iff, Option.pure_def,
    Option.some.injEq]
  constructor
  · rintro ⟨int, hint, frac, hfrac, exp, hexp, rfl⟩
    obtain ⟨hint, hintAt⟩ := scanInteger_spec hint
    obtain ⟨hfrac, hfracAt⟩ := scanFraction_spec hfrac
    obtain ⟨hexp, hexpAt⟩ := scanExponent_spec hexp
    rw [hfrac, hexp] at hintAt
    rw [hexp] at hfracAt
    have hminus : t = (scanMinus t).1 ++ (scanMinus t).2 ∧
        ((scanMinus t).1 = [] ∨ (scanMinus t).1 = ['-']) := by
      cases t with
      | nil => exact ⟨rfl, .inl rfl⟩
      | cons c t =>
        rw [scanMinus]
        split_ifs with hc
        · exact ⟨by rw [hc, List.singleton_append], .inr rfl⟩
        · exact ⟨rfl, .inl rfl⟩
    refine ⟨?_, _, _, _, _, by simp only [List.append_assoc], hminus.2, hintAt, hfracAt, hexpAt⟩
    rw [List.append_assoc, List.append_assoc, List.append_assoc, ← hexp, ← hfrac, ← hint]
    exact hminus.1
  · obtain ⟨a, r⟩ := p
    rintro ⟨rfl, minus, int, frac, exp, rfl, hminus, hint, hfrac, hexp⟩
    have hsplit : scanMinus (minus ++ (int ++ (frac ++ exp)) ++ r) =
        (minus, int ++ (frac ++ (exp ++ r))) := by
      simp only [List.append_assoc]
      rcases hminus with rfl | rfl
      · obtain ⟨c, ds, rfl, hc⟩ := hint.head
        have hne : c ≠ '-' := by
          rintro rfl
          exact absurd hc (by decide)
        rw [List.nil_append, List.cons_append, scanMinus, if_neg hne]
      · rfl
    rw [hsplit]
    exact ⟨_, hint.scan, _, hfrac.scan, _, hexp.scan, by simp only [List.append_assoc]⟩

/-! ## Literals -/

/-- A literal stays one before another rest: one that begins alike, or with what does
not go on with a number. -/
theorem NumberAt.change {r' : Text} (h : NumberAt a r)
    (hr : ∀ c ∈ r'.head?, c ∈ r.head? ∨ isNumberChar c = false) : NumberAt a r' := by
  have hhalts : ∀ {p : Char → Bool} (s : Text), (∀ c, isNumberChar c = false → p c = false) →
      Halts p (s ++ r) → Halts p (s ++ r') := by
    intro p s hp h c hc
    cases s with
    | nil =>
      rcases hr c hc with hc | hc
      · exact h c hc
      · exact hp c hc
    | cons d s => exact h c hc
  have hdigit : ∀ c, isNumberChar c = false → isDigit c = false := by
    simp +contextual [isNumberChar]
  obtain ⟨minus, int, frac, exp, rfl, hminus, hint, hfrac, hexp⟩ := h
  refine ⟨minus, int, frac, exp, rfl, hminus, ?_, ?_, ?_⟩
  · refine hint.imp_right (And.imp_right (And.imp_right fun h => ?_))
    rw [← List.append_assoc] at h ⊢
    exact hhalts _ hdigit h
  · refine hfrac.imp (And.imp_right ?_) fun ⟨ds, hds, h, hhalt⟩ => ⟨ds, hds, h, ?_⟩
    · exact hhalts exp (by simp +contextual [isNumberChar])
    · exact hhalts exp hdigit hhalt
  · refine hexp.imp (And.imp_right ?_) fun ⟨e, s, ds, ha, he, hs, h, hhalt⟩ =>
      ⟨e, s, ds, ha, he, hs, h, ?_⟩
    · exact hhalts [] (by simp +contextual [isNumberChar, isExponentMark])
    · exact hhalts [] hdigit hhalt

/-- A character of a number literal. -/
def isLiteralChar (c : Char) : Prop := isDigit c = true ∨ c ∈ ['+', '-', '.', 'e', 'E']

theorem NumberAt.chars (h : NumberAt a r) : ∀ c ∈ a, isLiteralChar c := by
  obtain ⟨minus, int, frac, exp, rfl, hminus, hint, hfrac, hexp⟩ := h
  intro c hc
  simp only [List.mem_append] at hc
  rcases hc with hc | hc | hc | hc
  · rcases hminus with rfl | rfl
    · cases hc
    · exact .inr (by rw [List.mem_singleton.mp hc]; decide)
  · rcases hint with rfl | ⟨hdigits, -⟩
    · exact .inl (by rw [List.mem_singleton.mp hc]; decide)
    · exact .inl (hdigits.2 c hc)
  · rcases hfrac with ⟨rfl, -⟩ | ⟨ds, rfl, hdigits, -⟩
    · cases hc
    · rcases List.mem_cons.mp hc with rfl | hc
      · exact .inr (by decide)
      · exact .inl (hdigits.2 c hc)
  · rcases hexp with ⟨rfl, -⟩ | ⟨e, sign, ds, rfl, hmark, hsign, hdigits, -⟩
    · cases hc
    · rcases List.mem_cons.mp hc with rfl | hc
      · rcases isExponentMark_iff.mp hmark with rfl | rfl <;> exact .inr (by decide)
      · rcases List.mem_append.mp hc with hc | hc
        · rcases hsign with rfl | rfl | rfl
          · cases hc
          · exact .inr (by rw [List.mem_singleton.mp hc]; decide)
          · exact .inr (by rw [List.mem_singleton.mp hc]; decide)
        · exact .inl (hdigits.2 c hc)

/-- A number begins with a minus sign or a digit. -/
theorem NumberAt.head (h : NumberAt a r) :
    ∃ c u, a = c :: u ∧ (c = '-' ∨ isDigit c = true) := by
  obtain ⟨minus, int, frac, exp, rfl, hminus, hint, -⟩ := h
  rcases hminus with rfl | rfl
  · obtain ⟨c, ds, rfl, hc⟩ := hint.head
    exact ⟨c, _, rfl, .inr hc⟩
  · exact ⟨_, _, rfl, .inl rfl⟩

end Json

/-
What a worker reports when a trusted handler fails: `classifyHandlerError`
(`internal/worker/runner.go`), `SafeMessage` (`internal/lifecycle/lifecycle.go`) and the
error values a handler can return (`internal/worker/handler.go`).

A handler that declares nothing gets a generic code and message, which always pass. A
handler that declares its failure has its message cut to the stored bounds
(`validateErrorMessage_safeMessage`) but its code passed through as it is, so the report
is accepted exactly when the declared code is a valid one (`handler_failures_reportable_iff`).

A Go string is bytes. `SafeMessage` returns text whatever it is given, since
`strings.Map` writes U+FFFD for a byte that is no character: as much as fits of what is
left once white space is collapsed and controls are removed (`safe_message_normalizes`).
A report carries a string as the text its runes spell, in JSON; a pattern of ASCII
characters matches that text exactly when it matches the bytes.
-/
import TaskForge.SuccessReport

open Json Fallible

namespace TaskForge

/-! ## Error values -/

/-- The text of a Go string, as `range` reads it. -/
def goText (bytes : List UInt8) : String := String.ofList (Utf8.runes bytes)

/-- `worker.FailureError` -/
structure FailureError where
  class_ : FailureClass
  code : List UInt8
  message : List UInt8
deriving DecidableEq, Repr

/-- An error value as `errors.As` walks it. A recovered panic is `plain`: `invokeHandler`
formats the recovered value and wraps nothing. -/
inductive HandlerError where
  /-- A `*FailureError`, or an error whose `As` method stands in for one; the pointer
  may be nil. -/
  | failure (declared : Option FailureError)
  | plain
  /-- `Unwrap() error` -/
  | wraps (inner : HandlerError)
  /-- `Unwrap() []error` -/
  | joins (inner : List HandlerError)

/-- `Retryable` -/
def retryableError (code message : List UInt8) : HandlerError :=
  .failure (some ⟨.retryable, code, message⟩)

/-- `Permanent` -/
def permanentError (code message : List UInt8) : HandlerError :=
  .failure (some ⟨.permanent, code, message⟩)

mutual

/-- `errors.As(err, &failure)`: the first one before what it wraps. -/
def HandlerError.as : HandlerError → Option (Option FailureError)
  | .failure declared => some declared
  | .plain => none
  | .wraps inner => inner.as
  | .joins inner => HandlerError.asFirst inner

def HandlerError.asFirst : List HandlerError → Option (Option FailureError)
  | [] => none
  | e :: rest => e.as.or (HandlerError.asFirst rest)

end

/-! ## The safe message -/

/-- What `SafeMessage` maps a character to; `none` drops it. -/
def safeRune (r : Char) : Option Char :=
  if r = '\n' ∨ r = '\r' ∨ r = '\t' then some ' ' else if isControl r then none else some r

/-- `strings.Join(strings.Fields(s), " ")` -/
def joinedFields (t : Text) : Text :=
  joinWith [' '] ((t.splitOnP isSpace).filter (· ≠ []))

/-- `isRuneStart`; the end of the string is one too. -/
def isRuneStart (s : List UInt8) (i : ℕ) : Bool := s[i]?.all fun b => b &&& 0xC0 != 0x80

/-- The loop of `SafeMessage`: the cut goes back to where a rune starts. -/
def backToRune (s : List UInt8) : ℕ → ℕ
  | 0 => 0
  | n + 1 => if isRuneStart s (n + 1) then n + 1 else backToRune s n

/-- `SafeMessage` -/
def safeMessage (message : List UInt8) : List UInt8 :=
  let trimmed := trimSpace (goText message)
  if trimmed = "" then []
  else
    let cleaned := Utf8.encode (joinedFields (trimmed.toList.filterMap safeRune))
    if cleaned.length ≤ maxErrorMessageBytes then cleaned
    else cleaned.take (backToRune cleaned maxErrorMessageBytes)

example : safeMessage (Utf8.encode " line one\n\x07line\ttwo  ".toList) =
    Utf8.encode "line one line two".toList := by decide +kernel

def codeHandlerError : String := "handler_error"
def messageHandlerError : String := "the trusted handler reported an error"

/-- `classifyHandlerError`; `none` is the panic on a nil pointer. -/
def classifyHandlerError (e : HandlerError) : Option (FailureClass × List UInt8 × List UInt8) :=
  let generic := (FailureClass.retryable, Utf8.encode codeHandlerError.toList,
    Utf8.encode messageHandlerError.toList)
  match e.as with
  | none => some generic
  | some none => none
  | some (some failure) =>
    if failure.class_.reportableByHandler then
      some (failure.class_, failure.code, safeMessage failure.message)
    else some generic

/-- The report `reportFailure` sends. -/
def classifiedReport (fence : Fence) (outcomeRequestID : UUID)
    (c : FailureClass × List UInt8 × List UInt8) : FailureReport :=
  ⟨fence, outcomeRequestID, c.1, goText c.2.1, goText c.2.2⟩

/-! ## Where the message is cut -/

theorem isRuneStart_encode (t : Text) : isRuneStart (Utf8.encode t) 0 = true := by
  cases t with
  | nil => rfl
  | cons c t =>
    obtain ⟨b, bs, hbytes, hb, -⟩ := Utf8.encodeChar_eq_cons c
    rw [Utf8.encode_cons, hbytes]
    simpa [isRuneStart, Utf8.continues] using hb

/-- Inside its first character, the cut goes back to the start of the text. -/
theorem backToRune_inside {b : UInt8} {bs rest : List UInt8}
    (hbs : ∀ x ∈ bs, Utf8.continues x = true) {n : ℕ} (hn : n ≤ bs.length) :
    backToRune (b :: bs ++ rest) n = 0 := by
  induction n with
  | zero => rfl
  | succ n ih =>
    have hnot : isRuneStart (b :: bs ++ rest) (n + 1) = false := by
      have hx := hbs bs[n] (List.getElem_mem hn)
      rw [isRuneStart, List.cons_append, List.getElem?_cons_succ, List.getElem?_append_left hn,
        List.getElem?_eq_getElem hn]
      simpa [Utf8.continues] using hx
    rw [backToRune, hnot]
    exact ih (Nat.le_of_lt hn)

/-- Behind whole characters, it is where what follows them is cut. -/
theorem backToRune_append {front rest : List UInt8} (hrest : isRuneStart rest 0 = true) (n : ℕ) :
    backToRune (front ++ rest) (front.length + n) = front.length + backToRune rest n := by
  have hstart : ∀ i, isRuneStart (front ++ rest) (front.length + i) = isRuneStart rest i := by
    intro i
    rw [isRuneStart, List.getElem?_append_right (Nat.le_add_right _ i), Nat.add_sub_cancel_left]
    rfl
  induction n with
  | zero =>
    have hzero := (hstart 0).trans hrest
    rw [Nat.add_zero] at hzero ⊢
    cases hlen : front.length with
    | zero => rfl
    | succ k =>
      rw [hlen] at hzero
      exact if_pos hzero
  | succ n ih =>
    rw [← Nat.add_assoc, backToRune, backToRune, Nat.add_assoc, hstart, ih]
    split_ifs <;> rfl

/-- **The cut leaves the longest text that fits.** -/
theorem take_backToRune (n : ℕ) (t : Text) :
    (Utf8.encode t).take (backToRune (Utf8.encode t) n) = Utf8.encode (withinOctets n t) := by
  induction t generalizing n with
  | nil => exact List.take_nil
  | cons c t ih =>
    obtain ⟨b, bs, hbytes, -, hbs⟩ := Utf8.encodeChar_eq_cons c
    have hsize := String.length_utf8EncodeChar c
    rw [hbytes] at hsize
    rw [withinOctets, Utf8.encode_cons, hbytes]
    split_ifs with hfits
    · obtain ⟨m, rfl⟩ := Nat.exists_eq_add_of_le hfits
      rw [← hsize, backToRune_append (isRuneStart_encode t), List.take_length_add_append, ih,
        Nat.add_sub_cancel_left, Utf8.encode_cons, hbytes]
    · rw [backToRune_inside hbs (by rw [List.length_cons] at hsize; omega)]
      rfl

/-! ## What the message is -/

/-- White space collapsed: `begun` says that something was written, and `due` that white
space was read since. -/
def collapse : (begun due : Bool) → Text → Text
  | _, _, [] => []
  | begun, due, c :: t =>
    if isSpace c then collapse begun begun t
    else if due then ' ' :: c :: collapse true false t
    else c :: collapse true false t

/-- Line breaks and tabs are white space; the other controls are removed. -/
def isKept (c : Char) : Bool := c = '\n' ∨ c = '\r' ∨ c = '\t' ∨ isControl c = false

/-- The message without controls, trimmed, and with one blank for each run of white space. -/
def normalForm (message : List UInt8) : Text :=
  collapse false false ((Utf8.runes message).filter isKept)

/-- A text that is its own normal form. -/
structure Tidy (t : Text) : Prop where
  plain : ∀ c ∈ t, isControl c = false
  blanks : ∀ c ∈ t, isSpace c = true → c = ' '
  single : t.IsChain fun a b => a = ' ' → b ≠ ' '
  front : t.head? ≠ some ' '
  back : t.getLast? ≠ some ' '

section Normal

variable {begun due : Bool} {t blanks : Text} {c : Char}

/-- `Fields` and `Join` collapse white space. -/
theorem collapse_eq (t : Text) :
    collapse false false t = joinedFields t ∧
      collapse true true t = ((t.splitOnP isSpace).filter (· ≠ [])).flatMap (' ' :: ·) ∧
      ∃ first rest, t.splitOnP isSpace = first :: rest ∧
        collapse true false t = first ++ (rest.filter (· ≠ [])).flatMap (' ' :: ·) := by
  induction t with
  | nil => exact ⟨rfl, rfl, [], [], rfl, rfl⟩
  | cons c t ih =>
    obtain ⟨hfields, hdue, first, rest, hsplit, hword⟩ := ih
    rw [joinedFields, List.splitOnP_cons_eq_if_modifyHead]
    by_cases hc : isSpace c = true
    · rw [if_pos hc]
      simp only [collapse, if_pos hc]
      exact ⟨hfields, hdue, [], t.splitOnP isSpace, rfl, hdue⟩
    · rw [if_neg hc, hsplit, List.modifyHead_cons]
      simp only [collapse, if_neg hc, hword]
      exact ⟨rfl, rfl, c :: first, rest, rfl, rfl⟩

theorem mem_collapse (h : c ∈ collapse begun due t) : c = ' ' ∨ c ∈ t ∧ isSpace c = false := by
  induction t generalizing begun due with
  | nil => cases h
  | cons d t ih =>
    have hlater : ∀ {begun due}, c ∈ collapse begun due t → c = ' ' ∨ c ∈ d :: t ∧ isSpace c = false :=
      fun h => (ih h).imp_right fun h => ⟨List.mem_cons_of_mem d h.1, h.2⟩
    rw [collapse] at h
    split_ifs at h with hd
    · exact hlater h
    · rcases List.mem_cons.mp h with rfl | h
      · exact .inl rfl
      · rcases List.mem_cons.mp h with rfl | h
        · exact .inr ⟨List.mem_cons_self, Bool.eq_false_iff.mpr hd⟩
        · exact hlater h
    · rcases List.mem_cons.mp h with rfl | h
      · exact .inr ⟨List.mem_cons_self, Bool.eq_false_iff.mpr hd⟩
      · exact hlater h

/-- White space at the end leaves nothing. -/
theorem collapse_append (h : ∀ c ∈ blanks, isSpace c = true) (begun due : Bool) (t : Text) :
    collapse begun due (t ++ blanks) = collapse begun due t := by
  induction t generalizing begun due with
  | nil =>
    induction blanks generalizing begun due with
    | nil => rfl
    | cons c blanks ih =>
      rw [List.forall_mem_cons] at h
      exact (if_pos h.1).trans (ih h.2 begun begun)
  | cons c t ih => simp only [List.cons_append, collapse, ih]

/-- Nor does white space at the beginning. -/
theorem collapse_blanks (h : ∀ c ∈ blanks, isSpace c = true) (t : Text) :
    collapse false false (blanks ++ t) = collapse false false t := by
  induction blanks with
  | nil => rfl
  | cons c blanks ih =>
    rw [List.forall_mem_cons] at h
    exact (if_pos h.1).trans (ih h.2)

theorem collapse_safeRune (begun due : Bool) (t : Text) :
    collapse begun due (t.filterMap safeRune) = collapse begun due (t.filter isKept) := by
  induction t generalizing begun due with
  | nil => rfl
  | cons c t ih =>
    rw [List.filterMap_cons, List.filter_cons, safeRune, isKept]
    by_cases hbreak : c = '\n' ∨ c = '\r' ∨ c = '\t'
    · rcases hbreak with rfl | rfl | rfl <;> exact ih begun begun
    · by_cases hcontrol : isControl c = true
      · simp [hbreak, hcontrol, ih]
      · simp [hbreak, hcontrol, collapse, ih]

theorem trimSpace_split (s : String) :
    ∃ front back, s.toList = front ++ ((trimSpace s).toList ++ back) ∧
      (∀ c ∈ front, isSpace c = true) ∧ ∀ c ∈ back, isSpace c = true := by
  refine ⟨s.toList.takeWhile isSpace,
    ((s.toList.dropWhile isSpace).reverse.takeWhile isSpace).reverse, ?_,
    fun c hc => List.mem_takeWhile_imp hc,
    fun c hc => List.mem_takeWhile_imp (List.mem_reverse.mp hc)⟩
  rw [trimSpace, String.toList_ofList, ← List.reverse_append, List.takeWhile_append_dropWhile,
    List.reverse_reverse, List.takeWhile_append_dropWhile]

/-- The message is the same whether or not it is trimmed first. -/
theorem joinedFields_trimSpace (s : String) :
    joinedFields ((trimSpace s).toList.filterMap safeRune) =
      collapse false false (s.toList.filter isKept) := by
  obtain ⟨front, back, hs, hfront, hback⟩ := trimSpace_split s
  rw [← (collapse_eq _).1, collapse_safeRune, hs, List.filter_append, List.filter_append,
    collapse_blanks fun c hc => hfront c (List.mem_of_mem_filter hc),
    collapse_append fun c hc => hback c (List.mem_of_mem_filter hc)]

/-- After a character, a tidy text is copied: a blank in it stands between two words. -/
theorem collapse_tidy (hblanks : ∀ c ∈ t, isSpace c = true → c = ' ')
    (hsingle : t.IsChain fun a b => a = ' ' → b ≠ ' ') (hback : t.getLast? ≠ some ' ') :
    collapse true false t = t := by
  induction t with
  | nil => rfl
  | cons c t ih =>
    rw [List.forall_mem_cons] at hblanks
    have hlater := ih hblanks.2 hsingle.tail
    by_cases hc : isSpace c = true
    · obtain rfl := hblanks.1 hc
      cases t with
      | nil => exact absurd rfl hback
      | cons d t =>
        rw [List.isChain_cons_cons] at hsingle
        rw [List.getLast?_cons_cons] at hback
        have hd : ¬ isSpace d = true := fun hd => hsingle.1 rfl (hblanks.2 d List.mem_cons_self hd)
        have hword := hlater hback
        rw [collapse, if_neg hd] at hword
        rw [collapse, if_pos hc, collapse, if_neg hd]
        exact congrArg (' ' :: ·) hword
    · rw [collapse, if_neg hc]
      refine congrArg (c :: ·) ?_
      cases t with
      | nil => rfl
      | cons d t => exact hlater (by rwa [List.getLast?_cons_cons] at hback)

theorem Tidy.normal (h : Tidy t) : normalForm (Utf8.encode t) = t := by
  have hkept : t.filter isKept = t := by
    rw [List.filter_eq_self]
    intro c hc
    simp [isKept, h.plain c hc]
  rw [normalForm, Utf8.runes_encode, hkept]
  have hword := collapse_tidy h.blanks h.single h.back
  cases t with
  | nil => rfl
  | cons c t =>
    have hc : ¬ isSpace c = true := by
      intro hc
      have hfront := h.front
      rw [h.blanks c List.mem_cons_self hc] at hfront
      exact hfront rfl
    rw [collapse, if_neg hc] at hword ⊢
    exact hword

end Normal

theorem goText_encode (t : Text) : goText (Utf8.encode t) = String.ofList t := by
  rw [goText, Utf8.runes_encode]

theorem length_encode (t : Text) : (Utf8.encode t).length = octets t := by
  simp [Utf8.encode, octets, List.length_flatMap]

/-- As much of the normal form as fits. -/
theorem safeMessage_eq (message : List UInt8) : safeMessage message =
    Utf8.encode (withinOctets maxErrorMessageBytes (normalForm message)) := by
  have hclean : joinedFields ((trimSpace (goText message)).toList.filterMap safeRune) =
      normalForm message := by
    rw [joinedFields_trimSpace, goText, String.toList_ofList, normalForm]
  unfold safeMessage
  simp only
  split_ifs with hempty hlen
  · rw [hempty] at hclean
    rw [← hclean]
    rfl
  · rw [hclean, length_encode] at hlen
    rw [hclean, withinOctets_eq_self hlen]
  · rw [hclean, take_backToRune]

/-- White space that is left is a blank, and no control is. -/
theorem mem_safeMessage {message : List UInt8} {c : Char}
    (h : c ∈ withinOctets maxErrorMessageBytes (normalForm message)) :
    isControl c = false ∧ (isSpace c = true → c = ' ') := by
  rcases mem_collapse ((withinOctets_begins _ _).subset h) with rfl | ⟨hc, hspace⟩
  · exact ⟨by decide, fun _ => rfl⟩
  · have hkept := List.of_mem_filter hc
    refine ⟨?_, fun hs => by rw [hs] at hspace; cases hspace⟩
    rw [isKept, decide_eq_true_eq] at hkept
    rcases hkept with rfl | rfl | rfl | hplain
    · cases hspace
    · cases hspace
    · cases hspace
    · exact hplain

/-- Whatever a handler wrote, the message that is reported is within the bounds. -/
theorem validateErrorMessage_safeMessage (message : List UInt8) :
    validateErrorMessage (goText (safeMessage message)) = none := by
  rw [safeMessage_eq, goText_encode]
  refine validateErrorMessage_of_bounded ?_ ?_
  · rw [← octets_toList, String.toList_ofList]
    exact octets_withinOctets_le _ _
  · rw [String.toList_ofList, List.any_eq_false]
    intro c hc
    rw [(mem_safeMessage hc).1]
    exact Bool.false_ne_true

/-- **`SafeMessage` normalizes.** What it returns is a text within the bound that passes,
the longest such beginning of the normal form; what is tidy and short enough is unchanged. -/
theorem safe_message_normalizes (message : List UInt8) :
    (∃ t, safeMessage message = Utf8.encode t ∧ octets t ≤ maxErrorMessageBytes ∧
      (∀ c ∈ t, isControl c = false ∧ (isSpace c = true → c = ' ')) ∧
      t <+: normalForm message ∧
      ∀ u, u <+: normalForm message → octets u ≤ maxErrorMessageBytes → u <+: t) ∧
    validateErrorMessage (goText (safeMessage message)) = none ∧
    ∀ t, message = Utf8.encode t → Tidy t → octets t ≤ maxErrorMessageBytes →
      safeMessage message = message := by
  refine ⟨⟨_, safeMessage_eq message, octets_withinOctets_le _ _, fun c hc => mem_safeMessage hc,
    withinOctets_begins _ _, fun u hu hlen => withinOctets_longest hu hlen⟩,
    validateErrorMessage_safeMessage message, ?_⟩
  rintro t rfl htidy hlen
  rw [safeMessage_eq, htidy.normal, withinOctets_eq_self hlen]

/-! ## The code passes when it is valid -/

/-- What the handler declared, if anything, is there and has a valid code, or is of a class
it may not declare. -/
def HandlerError.CodeValid (e : HandlerError) : Prop :=
  ∀ declared, e.as = some declared → ∃ failure, declared = some failure ∧
    (failure.class_.reportableByHandler = true → validateErrorCode (goText failure.code) = none)

/-- The report of a classification is accepted when each part of it is. -/
theorem classifiedReport_valid {fence : Fence} {id : UUID} (hfence : validateFence fence = [])
    (hid : id ≠ uuidNil) {class_ : FailureClass} (hclass : class_.reportableByHandler = true)
    {code message : List UInt8} (hmessage : validateErrorMessage (goText message) = none) :
    validateFailureReport (classifiedReport fence id (class_, code, message)) = [] ↔
      validateErrorCode (goText code) = none := by
  have hnil : mustBeUUID "outcome_request_id" id = [] := if_neg hid
  simp only [validateFailureReport, classifiedReport, hfence, hnil, hclass, hmessage, mustHold,
    if_true, List.nil_append, Option.map_none, Option.toList_none, List.append_nil,
    Option.toList_eq_nil_iff, Option.map_eq_none_iff]

/-- **Handler failures are reportable exactly when the declared code is valid.** The class
and the message always pass; a code a handler declares is passed through unchecked, and a
nil `*FailureError` is dereferenced. -/
theorem handler_failures_reportable_iff {fence : Fence} {id : UUID}
    (hfence : validateFence fence = []) (hid : id ≠ uuidNil) (e : HandlerError) :
    (∃ c, classifyHandlerError e = some c ∧
      validateFailureReport (classifiedReport fence id c) = []) ↔ e.CodeValid := by
  have hgeneric : validateFailureReport (classifiedReport fence id (FailureClass.retryable,
      Utf8.encode codeHandlerError.toList, Utf8.encode messageHandlerError.toList)) = [] := by
    refine (classifiedReport_valid hfence hid (by decide) ?_).mpr ?_
    · rw [goText_encode]
      decide +kernel
    · rw [goText_encode]
      decide +kernel
  unfold classifyHandlerError HandlerError.CodeValid
  cases has : e.as with
  | none => exact iff_of_true ⟨_, rfl, hgeneric⟩ nofun
  | some declared =>
    cases declared with
    | none =>
      refine iff_of_false ?_ ?_
      · rintro ⟨c, hc, -⟩
        cases hc
      · intro hvalid
        obtain ⟨failure, hnone, -⟩ := hvalid none rfl
        cases hnone
    | some failure =>
      simp only [Option.some.injEq, forall_eq', exists_eq_left']
      by_cases hclass : failure.class_.reportableByHandler = true
      · rw [if_pos hclass]
        simp only [Option.some.injEq, exists_eq_left', hclass, forall_const]
        exact classifiedReport_valid hfence hid hclass
          (validateErrorMessage_safeMessage failure.message)
      · rw [if_neg hclass]
        exact iff_of_true ⟨_, rfl, hgeneric⟩ fun h => absurd h hclass

/-- A wrapped declaration with a valid code, and a message with a line break in it. -/
theorem handler_failures_reportable_wrapped :
    ∃ c, classifyHandlerError (.wraps (permanentError (Utf8.encode "no_such_account".toList)
        (Utf8.encode "first line\nsecond line".toList))) = some c ∧
      validateFailureReport (classifiedReport sampleFence 20 c) = [] := by
  refine (handler_failures_reportable_iff (by decide) (by decide) _).mpr ?_
  intro declared hdeclared
  cases hdeclared
  refine ⟨_, rfl, fun _ => ?_⟩
  change validateErrorCode (goText (Utf8.encode "no_such_account".toList)) = none
  rw [goText_encode]
  decide +kernel

/-- `Fail` refuses an invalid report before it reads anything. -/
theorem fail_invalid {report : FailureReport} (h : validateFailureReport report ≠ []) (env : Env)
    (scope : String) (db : DB) :
    fail env scope report db = .error ⟨.validation (validateFailureReport report), .check⟩ := by
  have hcheck : validate (validateFailureReport report) =
      .error ⟨.validation (validateFailureReport report), .check⟩ := by
    rw [validate, demand, ensure, if_neg (by rwa [List.isEmpty_iff])]
  unfold fail
  rw [hcheck]
  rfl

/-- A handler declares a retryable failure under a code with a blank in it. The report is
refused in every state, so the attempt is left to be recorded as abandoned. -/
theorem declared_code_unreportable :
    validateFence sampleFence = [] ∧
    ∃ c, classifyHandlerError (retryableError (Utf8.encode "Upstream Timeout".toList)
        (Utf8.encode "the upstream did not answer".toList)) = some c ∧
      validateFailureReport (classifiedReport sampleFence 20 c) ≠ [] ∧
      ∀ (env : Env) (scope : String) (db : DB),
        fail env scope (classifiedReport sampleFence 20 c) db =
          .error ⟨.validation (validateFailureReport (classifiedReport sampleFence 20 c)), .check⟩ := by
  have hcode : validateErrorCode (goText (Utf8.encode "Upstream Timeout".toList)) ≠ none := by
    rw [goText_encode]
    decide +kernel
  have hrefused : validateFailureReport (classifiedReport sampleFence 20 (.retryable,
      Utf8.encode "Upstream Timeout".toList,
      safeMessage (Utf8.encode "the upstream did not answer".toList))) ≠ [] := fun h =>
    hcode ((classifiedReport_valid (by decide) (by decide) (by decide)
      (validateErrorMessage_safeMessage _)).mp h)
  exact ⟨by decide, _, rfl, hrefused, fail_invalid hrefused⟩

end TaskForge

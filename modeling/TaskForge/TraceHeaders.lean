/-
Whether trace headers decide a submission.

`withTracing` extracts the caller's trace context, the spans of the request continue it,
and `Submit` injects it into the row of the outbox event, in the transaction of the job.
Nothing else of a submission reads it (`submit_cases`). But the row has a check: at most
512 characters of tracestate, where the propagator takes 32 members of 256 characters
each side. A longer one fails the check, the event's `INSERT` fails with it, and the
submission is rolled back. So two choices of headers lead to the same end exactly when
no event is written or their states both fit or both do not (`traced_submit_same_iff`).
-/
import TaskForge.Wire

open Relational Fallible Json

namespace TaskForge

/-! ## Trace context -/

/-- A list member of a tracestate: its key and its value. -/
abbrev Member := Text × Text

/-- `trace.SpanContext` -/
structure SpanContext where
  traceID : BitVec 128
  spanID : BitVec 64
  flags : BitVec 8
  state : List Member

/-- The characters of a key after its first. -/
def isKeyChar (c : Char) : Bool := isLowerAlnum c || c == '_' || c == '-' || c == '*' || c == '/'

/-- A key, or its system: a lower-case letter and at most `n` more characters. -/
def isKeyPart (n : ℕ) : Text → Bool
  | [] => false
  | c :: cs => 'a' ≤ c && c ≤ 'z' && decide (cs.length ≤ n) && cs.all isKeyChar

/-- A tenant: it may begin with a digit. -/
def isKeyTenant (n : ℕ) : Text → Bool
  | [] => false
  | c :: cs => isLowerAlnum c && decide (cs.length ≤ n) && cs.all isKeyChar

/-- A key of a list member, of at most 256 characters. -/
def isKey (key : Text) : Bool :=
  match key.span (· ≠ '@') with
  | (tenant, _ :: system) => isKeyTenant 240 tenant && isKeyPart 13 system
  | (_, []) => isKeyPart 255 key

/-- A printable character, and no separator. -/
def isValueChar (c : Char) : Bool := ' ' ≤ c && c ≤ '~' && c != ',' && c != '='

/-- A value: one to 256 such characters, the last of them no blank. -/
def isValue (value : Text) : Bool :=
  decide (value.length ≤ 256) && value.all isValueChar && value.getLast?.any (· != ' ')

def isBlankOrTab (c : Char) : Bool := c == ' ' || c == '\t'

/-- One list member of the header. -/
def parseMember (t : Text) : Option Member :=
  match t.span (· ≠ '=') with
  | (_, []) => none
  | (key, _ :: value) =>
    if isKey (key.dropWhile isBlankOrTab) && isValue (value.rdropWhile isBlankOrTab) then
      some (key.dropWhile isBlankOrTab, value.rdropWhile isBlankOrTab)
    else none

def maxListMembers : ℕ := 32

/-- `trace.ParseTraceState`: distinct keys, and no more members than the limit. -/
def parseTraceState (header : String) : Option (List Member) :=
  (((header.toList.splitOn ',').filter (· ≠ [])).mapM parseMember).filter fun ms =>
    (ms.map Prod.fst).dedup == ms.map Prod.fst && decide (ms.length ≤ maxListMembers)

/-- `TraceState.String` -/
def stateText (ms : List Member) : Text := joinWith [','] (ms.map fun m => m.1 ++ '=' :: m.2)

/-- The `traceparent` and `tracestate` headers, each empty when it is absent. -/
structure TraceHeaders where
  traceparent : String
  tracestate : String

/-- What is assumed of `propagation.TraceContext`: what it makes of a `traceparent`,
none of a malformed one; the header the recommendation gives as its example is well
formed. -/
structure Propagator where
  parent : String → Option (BitVec 128 × BitVec 64 × BitVec 8)
  example_accepted : (parent "00-4bf92f3577b34da6a3ce929d0e0e4736-00f067aa0ba902b7-01").isSome = true

/-- `telemetry.ExtractTraceContext`. A tracestate that cannot be parsed is dropped. -/
def Propagator.extract (P : Propagator) (h : TraceHeaders) : Option SpanContext :=
  if h.traceparent = "" then none
  else (P.parent h.traceparent).map fun p =>
    ⟨p.1, p.2.1, p.2.2, (parseTraceState h.tracestate).getD []⟩

/-- What is assumed of the spans of a request: a span that continues a trace keeps its
tracestate, and a root, where there is one, has none. A tracer that records nothing
passes the parent through. -/
structure Tracer where
  start : Option SpanContext → Option SpanContext
  child : ∀ parent, ∃ span, start (some parent) = some span ∧ span.state = parent.state
  root : ∀ span, start none = some span → span.state = []

/-- `n` hexadecimal digits. -/
def hexText (n x : ℕ) : Text := (lastDigits n x).map Nat.digitChar

/-- The `traceparent` of a span. -/
def SpanContext.traceparent (s : SpanContext) : Text :=
  ['0', '0', '-'] ++ hexText 32 s.traceID.toNat ++ '-' :: hexText 16 s.spanID.toNat ++
    '-' :: hexText 2 s.flags.toNat

/-- `telemetry.InjectTraceContext` -/
def injectTraceContext : Option SpanContext → TraceContext
  | none => ⟨"", ""⟩
  | some s => ⟨String.ofList s.traceparent, String.ofList (stateText s.state)⟩

/-- `Store.Submit` under a request's headers. -/
def submitTraced (P : Propagator) (T : Tracer) (h : TraceHeaders) (env : Env) (scope key : String)
    (req : NormalizedRequest) (db : DB) : Tx (SubmitResult × DB) :=
  submit env scope key req (injectTraceContext (T.start (P.extract h))) db

/-! ## What is injected -/

section Injection

theorem hexText_length (n x : ℕ) : (hexText n x).length = n := by simp [hexText, lastDigits]

theorem isHexDigit_hexText {n x : ℕ} : ∀ c ∈ hexText n x, isHexDigit c = true := by
  have key : ∀ d : Fin 16, isHexDigit (Nat.digitChar d) = true := by decide
  intro c hc
  obtain ⟨d, hd, rfl⟩ := List.mem_map.mp hc
  obtain ⟨i, -, rfl⟩ := List.mem_map.mp hd
  exact key ⟨_, Nat.mod_lt _ (by decide)⟩

/-- An injected `traceparent` has the shape its column asks for. -/
theorem matchesTraceparent_traceparent (s : SpanContext) :
    matchesTraceparent (String.ofList s.traceparent) = true := by
  have hfield : ∀ {n x : ℕ}, (hexText n x).all isHexDigit = true := fun {n x} =>
    List.all_eq_true.mpr isHexDigit_hexText
  have h₁ := hexText_length 32 s.traceID.toNat
  have h₂ := hexText_length 16 s.spanID.toNat
  have h₃ := hexText_length 2 s.flags.toNat
  -- The four fields stand where the pattern looks for them.
  have hlength : s.traceparent.length = 55 := by
    simp only [SpanContext.traceparent, List.length_append, List.length_cons, List.length_nil, h₁, h₂,
      h₃]
  have htrace : (s.traceparent.drop 3).take 32 = hexText 32 s.traceID.toNat := by
    simp [SpanContext.traceparent, h₁]
  have hspan : (s.traceparent.drop 36).take 16 = hexText 16 s.spanID.toNat := by
    simp [SpanContext.traceparent, h₁, h₂, List.take_append, List.drop_append]
  have hflags : (s.traceparent.drop 53).take 2 = hexText 2 s.flags.toNat := by
    simp [SpanContext.traceparent, h₁, h₂, List.drop_append, List.drop_eq_nil_of_le,
      List.take_of_length_le h₃.le]
  have hdashes : s.traceparent[2]? = some '-' ∧ s.traceparent[35]? = some '-' ∧
      s.traceparent[52]? = some '-' := by
    simp [SpanContext.traceparent, h₁, h₂, List.getElem?_append]
  have hversion : (s.traceparent.drop 0).take 2 = ['0', '0'] := rfl
  unfold matchesTraceparent
  simp only [String.toList_ofList, String.length_ofList, hlength, hversion, htrace, hspan, hflags,
    hfield, hdashes, List.all_cons, List.all_nil]
  decide

/-- Every member of a parsed state has been checked. -/
theorem parseTraceState_checked {header : String} {ms : List Member}
    (h : parseTraceState header = some ms) : ∀ m ∈ ms, isKey m.1 = true ∧ isValue m.2 = true := by
  have hmembers := (Option.filter_eq_some_iff.mp h).1
  have key : ∀ (ts : List Text) (ms : List Member), ts.mapM parseMember = some ms →
      ∀ m ∈ ms, isKey m.1 = true ∧ isValue m.2 = true := by
    intro ts
    induction ts with
    | nil =>
      intro ms hms m hm
      cases hms
      cases hm
    | cons t ts ih =>
      intro ms hms m hm
      simp only [List.mapM_cons, Option.bind_eq_bind, Option.bind_eq_some_iff, Option.pure_def,
        Option.some.injEq] at hms
      obtain ⟨first, hfirst, rest, hrest, rfl⟩ := hms
      rcases List.mem_cons.mp hm with rfl | hm
      · unfold parseMember at hfirst
        split at hfirst
        · cases hfirst
        · split_ifs at hfirst with hchecked
          cases hfirst
          exact Bool.and_eq_true_iff.mp hchecked
      · exact ih rest hrest m hm
  exact key _ ms hmembers

/-- No key and no value has a NUL, so their text can be stored. -/
theorem nul_not_mem_key {key : Text} (h : isKey key = true) : '\x00' ∉ key := by
  have hfirst : ∀ {c : Char} {cs : Text}, c ≠ '\x00' → cs.all isKeyChar = true →
      '\x00' ∉ c :: cs := by
    intro c cs hc hcs hmem
    rcases List.mem_cons.mp hmem with h | h
    · exact hc h.symm
    · exact absurd (List.all_eq_true.mp hcs _ h) (by decide)
  have hpart : ∀ {n : ℕ} {t : Text}, isKeyPart n t = true → '\x00' ∉ t := by
    intro n t ht
    cases t with
    | nil => exact List.not_mem_nil
    | cons c cs =>
      simp only [isKeyPart, Bool.and_eq_true] at ht
      refine hfirst ?_ ht.2
      rintro rfl
      exact absurd ht.1.1.1 (by decide)
  have htenant : ∀ {n : ℕ} {t : Text}, isKeyTenant n t = true → '\x00' ∉ t := by
    intro n t ht
    cases t with
    | nil => exact List.not_mem_nil
    | cons c cs =>
      simp only [isKeyTenant, Bool.and_eq_true] at ht
      refine hfirst ?_ ht.2
      rintro rfl
      exact absurd ht.1.1 (by decide)
  unfold isKey at h
  rw [List.span_eq_takeWhile_dropWhile] at h
  split at h
  next tenant c system hsplit =>
    obtain ⟨htake, hdrop⟩ := Prod.mk.inj hsplit
    rw [Bool.and_eq_true] at h
    have hc : c = '@' := by
      have hhead := List.head?_dropWhile_not (fun c : Char => decide (c ≠ '@')) key
      rw [hdrop] at hhead
      simpa using hhead
    rw [← List.takeWhile_append_dropWhile (p := fun c => decide (c ≠ '@')) (l := key), htake, hdrop,
      hc]
    simp only [List.mem_append, List.mem_cons, not_or]
    exact ⟨htenant h.1, by decide, hpart h.2⟩
  next => exact hpart h

theorem nul_not_mem_value {value : Text} (h : isValue value = true) : '\x00' ∉ value := by
  simp only [isValue, Bool.and_eq_true, List.all_eq_true] at h
  intro hmem
  exact absurd (h.1.2 _ hmem) (by decide)

theorem storable_stateText {ms : List Member}
    (h : ∀ m ∈ ms, isKey m.1 = true ∧ isValue m.2 = true) :
    storable (String.ofList (stateText ms)) = true := by
  have key : '\x00' ∉ stateText ms := by
    intro hmem
    rcases mem_joinWith hmem with hmem | ⟨t, ht, hmem⟩
    · exact absurd hmem (by decide)
    · obtain ⟨m, hm, rfl⟩ := List.mem_map.mp ht
      rcases List.mem_append.mp hmem with hmem | hmem
      · exact nul_not_mem_key (h m hm).1 hmem
      · rcases List.mem_cons.mp hmem with hmem | hmem
        · exact absurd hmem (by decide)
        · exact nul_not_mem_value (h m hm).2 hmem
  simpa [storable] using key

end Injection

/-! ## What the check of the event lets through -/

section Event

variable (P : Propagator) (T : Tracer) (h : TraceHeaders)

/-- The column of the event holds what these headers carry on. -/
def Propagator.StateFits : Prop :=
  ∀ span, P.extract h = some span → (stateText span.state).length ≤ 512

/-- The event of a submission, with what is injected under these headers. -/
def tracedEvent (env : Env) (queue : String) : OutboxEvent :=
  workAvailableEvent env.id₂ env.clock.start env.id₁ queue 1
    (some (injectTraceContext (T.start (P.extract h))))

/-- The event without its trace columns. -/
def OutboxEvent.untraced (e : OutboxEvent) : OutboxEvent :=
  { e with traceparent := none, tracestate := none }

theorem untraced_workAvailableEvent (id : UUID) (start : Int) (jobID : UUID) (queue : String) (g : ℕ)
    (trace : Option TraceContext) :
    (workAvailableEvent id start jobID queue g trace).untraced =
      workAvailableEvent id start jobID queue g none := rfl

theorem check_of_untraced {e : OutboxEvent} (he : e.untraced.check = true) :
    e.check = (e.traceparent.all matchesTraceparent && e.tracestate.all (lengthBetween 0 512)) := by
  have hbase : (lengthBetween 1 64 e.eventType && decide (1 ≤ e.schemaVersion) &&
      e.publishedAtConsistent && e.notificationMetadataPaired) = true := by
    simp only [OutboxEvent.check, Bool.and_eq_true] at he
    simp only [Bool.and_eq_true]
    exact he.1.1
  rw [OutboxEvent.check, hbase, Bool.true_and]

/-- An event under a span passes its check exactly when the span's state fits. -/
theorem span_check {span : SpanContext} (hstored : storable (String.ofList (stateText span.state)) = true)
    (id : UUID) (start : Int) (jobID : UUID) (queue : String) :
    (workAvailableEvent id start jobID queue 1 (some (injectTraceContext (some span)))).check = true ↔
      (stateText span.state).length ≤ 512 := by
  have hparent := matchesTraceparent_traceparent span
  have hnonempty : String.ofList span.traceparent ≠ "" := by
    intro hempty
    rw [hempty] at hparent
    exact absurd hparent (by decide)
  have hbase := workAvailableEvent_check id start jobID queue (le_refl 1)
  rw [check_of_untraced (by rw [untraced_workAvailableEvent]; exact hbase)]
  -- The two columns: the traceparent is well formed, the state is left out when empty.
  by_cases hstate : String.ofList (stateText span.state) = ""
  · have hnil : stateText span.state = [] := by simpa using congrArg String.toList hstate
    simp [workAvailableEvent, injectTraceContext, Option.filter_some, hparent, hnonempty, hnil]
  · simp [workAvailableEvent, injectTraceContext, Option.filter_some, hparent, hnonempty, hstate,
      lengthBetween, hstored]

theorem tracedEvent_check (env : Env) (queue : String) :
    (tracedEvent P T h env queue).check = true ↔ P.StateFits h := by
  unfold tracedEvent Propagator.StateFits
  cases hextract : P.extract h with
  | none =>
    simp only [reduceCtorEq, false_implies, implies_true, iff_true]
    cases hstart : T.start none with
    | none => exact workAvailableEvent_check _ _ _ _ (le_refl 1)
    | some span =>
      have hroot := T.root span hstart
      refine (span_check ?_ _ _ _ _).mpr ?_
      · rw [hroot]
        exact storable_stateText (by simp)
      · rw [hroot]
        exact Nat.zero_le _
  | some parent =>
    obtain ⟨span, hspan, hkept⟩ := T.child parent
    have hparsed : ∀ m ∈ parent.state, isKey m.1 = true ∧ isValue m.2 = true := by
      unfold Propagator.extract at hextract
      split_ifs at hextract
      obtain ⟨p, -, rfl⟩ := Option.map_eq_some_iff.mp hextract
      show ∀ m ∈ (parseTraceState h.tracestate).getD [], _
      cases hstate : parseTraceState h.tracestate with
      | none => simp
      | some ms => exact parseTraceState_checked hstate
    rw [hspan, span_check (by rw [hkept]; exact storable_stateText hparsed), hkept]
    simp

end Event

/-! ## Two submissions that differ in their headers -/

/-- Equal but for the trace columns of events. -/
def SameButTrace (db db' : DB) : Prop :=
  { db with outbox := db'.outbox } = db' ∧
    db.outbox.rows.map OutboxEvent.untraced = db'.outbox.rows.map OutboxEvent.untraced

/-- Two submissions end the same way: with one error, or with one answer and states that
are equal but for trace columns. -/
inductive SameEnding : Tx (SubmitResult × DB) → Tx (SubmitResult × DB) → Prop
  | failed {f g : Failure} (herror : f.error = g.error) : SameEnding (.error f) (.error g)
  | answered {r : SubmitResult} {db db' : DB} (hdb : SameButTrace db db') :
    SameEnding (.ok (r, db)) (.ok (r, db'))

theorem SameEnding.refl (x : Tx (SubmitResult × DB)) : SameEnding x x := by
  cases x with
  | error f => exact .failed rfl
  | ok p => exact .answered ⟨rfl, rfl⟩

section Submissions

variable (P : Propagator) (T : Tracer) (env : Env) (scope key : String) (req : NormalizedRequest)
  (db : DB)

/-- The identifier of the event is free. -/
def EventIDFree : Prop := ∀ e ∈ db.outbox.rows, e.id ≠ env.id₂

/-- The submission announces a new job: its queue is there, the tables admit its job and
its record, no record has its key, it need not wait, and its event's id is free. -/
structure Announces : Prop where
  queue : ∃ q ∈ db.queues.rows, q.name = req.queue
  job : db.jobs.Admits (.insert (submittedJob env scope req))
  unused : ∀ r ∈ db.idempotency.rows, ¬ (r.scope = scope ∧ r.idempotencyKey = key)
  record : db.idempotency.Admits
    (.insert ⟨scope, key, env.fingerprint req, env.id₁, env.clock.start⟩)
  prompt : isDelayed env.clock.s₀ req = false
  event : EventIDFree env db

/-- The submission comes to its event, with everything else of the new state settled. -/
structure EventLast (finish : Table outboxEvents → DB) : Prop where
  outbox : ∀ outbox, (finish outbox).outbox = outbox
  others : ∀ outbox outbox', { finish outbox with outbox := outbox' } = finish outbox'
  submits : ∀ trace, submit env scope key req trace db = (do
    let outbox ← insertRow .outboxEvents db.outbox
      (workAvailableEvent env.id₂ env.clock.start env.id₁ req.queue 1 (some trace))
      (reported "insert outbox event")
    pure (⟨submittedView env scope req, false⟩, finish outbox))

/-- All a submission does with its trace context is to insert the event, last. It comes to
that exactly when it announces a job, the event's id apart. -/
theorem submit_cases :
    (∃ x, ∀ trace, submit env scope key req trace db = x) ∧ ¬ Announces env scope key req db ∨
    (∃ finish, EventLast env scope key req db finish) ∧
      (Announces env scope key req db ↔ EventIDFree env db) := by
  by_cases hqueue : (db.queues.rows.any fun q => q.name == req.queue) = true
  swap
  · refine .inl ⟨⟨.error ⟨.unknownQueue, .check⟩, fun trace => ?_⟩, fun h => hqueue ?_⟩
    · simp [submit, demand, ensure, hqueue, error_bind]
    · simpa using h.queue
  cases hjob : insertRow .jobs db.jobs (submittedJob env scope req) (reported "insert job") with
  | error f =>
    refine .inl ⟨⟨.error f, fun trace => ?_⟩, fun h => ?_⟩
    · simp only [submit, demand, ensure, hqueue, hjob, if_true, ok_bind, error_bind]
    · obtain ⟨t, ht⟩ := insertRow_ok_iff.mpr h.job
      cases hjob.symm.trans ht
  | ok jobs =>
  by_cases hused : (db.idempotency.rows.any fun r => r.scope == scope && r.idempotencyKey == key) =
      true
  · refine .inl ⟨⟨(resolveExisting db scope key (env.fingerprint req)).map fun r => (r, db),
      fun trace => ?_⟩, fun h => ?_⟩
    · simp only [submit, demand, ensure, hqueue, hjob, hused, ok_bind, if_true]
      rfl
    · obtain ⟨r, hr, hkey⟩ := List.any_eq_true.mp hused
      exact h.unused r hr (by simpa using hkey)
  cases hrecord : insertRow .idempotencyRecords db.idempotency
      ⟨scope, key, env.fingerprint req, (submittedJob env scope req).id, env.clock.start⟩
      (reported "insert idempotency record") with
  | error f =>
    refine .inl ⟨⟨.error f, fun trace => ?_⟩, fun h => ?_⟩
    · simp only [submit, demand, ensure, hqueue, hjob, hused, hrecord, if_true, ok_bind, error_bind,
        Bool.false_eq_true, if_false]
    · obtain ⟨t, ht⟩ := insertRow_ok_iff.mpr h.record
      cases hrecord.symm.trans ht
  | ok idempotency =>
  by_cases hdelayed : isDelayed env.clock.s₀ req = true
  · refine .inl ⟨⟨.ok (⟨submittedView env scope req, false⟩,
      { db with jobs := jobs, idempotency := idempotency }), fun trace => ?_⟩, fun h => ?_⟩
    · simp only [submit, demand, ensure, hqueue, hjob, hused, hrecord, notifySubmitted_submittedJob,
        hdelayed, if_true, ok_bind, Bool.false_eq_true, if_false]
      rfl
    · rw [h.prompt] at hdelayed
      cases hdelayed
  · refine .inr ⟨⟨fun outbox => { db with jobs := jobs, idempotency := idempotency, outbox := outbox },
      fun outbox => rfl, fun outbox outbox' => rfl, fun trace => ?_⟩, Announces.event, fun hfree => ?_⟩
    -- The generation is 1, so nothing stops the insert before its constraints do.
    · simp only [submit, demand, ensure, hqueue, hjob, hused, hrecord, notifySubmitted_submittedJob,
        insertWorkAvailableTx, hdelayed, if_true, ok_bind, Bool.false_eq_true, if_false, le_refl,
        decide_true]
    · refine ⟨by simpa using hqueue, insertRow_ok_iff.mp ⟨jobs, hjob⟩, ?_,
        insertRow_ok_iff.mp ⟨idempotency, hrecord⟩, Bool.eq_false_iff.mpr hdelayed, hfree⟩
      simpa using hused

/-- The event is inserted exactly when its identifier is free and the state fits. -/
theorem insertEvent_ok_iff (h : TraceHeaders) (queue : String) :
    (∃ outbox, insertRow .outboxEvents db.outbox (tracedEvent P T h env queue)
      (reported "insert outbox event") = .ok outbox) ↔ EventIDFree env db ∧ P.StateFits h := by
  have hclash : (∀ e ∈ db.outbox.rows, outboxEvents.clash e (tracedEvent P T h env queue) = false) ↔
      EventIDFree env db := by
    refine forall₂_congr fun e he => ?_
    show sameKey OutboxEvent.idKey e _ = false ↔ _
    constructor
    · intro hfree hid
      exact sameKey_eq_false.mp hfree env.id₂ rfl (congrArg some hid)
    · intro hfree
      refine sameKey_eq_false.mpr fun k hk hek => hfree ?_
      exact Option.some.inj (hek.trans hk.symm)
  rw [insertRow_ok_iff, Table.Admits, hclash, and_comm]
  exact and_congr_right' (tracedEvent_check P T h env queue)

variable {env scope key req db} {finish : Table outboxEvents → DB}

/-- Where the event can be inserted, the submission is accepted. -/
theorem EventLast.accepted (hlast : EventLast env scope key req db finish) {h : TraceHeaders}
    (hfits : EventIDFree env db ∧ P.StateFits h) :
    ∃ outbox, submitTraced P T h env scope key req db =
        .ok (⟨submittedView env scope req, false⟩, finish outbox) ∧
      outbox.rows = db.outbox.rows ++ [tracedEvent P T h env req.queue] := by
  obtain ⟨outbox, ho⟩ := (insertEvent_ok_iff P T env db h req.queue).mpr hfits
  refine ⟨outbox, ?_, insertRow_eq_ok ho⟩
  rw [tracedEvent] at ho
  rw [submitTraced, hlast.submits, ho]
  rfl

/-- Where it cannot, everything the submission has written is rolled back with it. -/
theorem EventLast.refused (hlast : EventLast env scope key req db finish) {h : TraceHeaders}
    (hnot : ¬ (EventIDFree env db ∧ P.StateFits h)) :
    ∃ f, submitTraced P T h env scope key req db = .error f ∧
      f.error = .failed "insert outbox event" := by
  cases ho : insertRow .outboxEvents db.outbox (tracedEvent P T h env req.queue)
      (reported "insert outbox event") with
  | ok outbox => exact absurd ((insertEvent_ok_iff P T env db h req.queue).mp ⟨outbox, ho⟩) hnot
  | error f =>
    obtain ⟨v, -, hf⟩ := orRefused_eq_error.mp ho
    refine ⟨f, ?_, by rw [hf]; rfl⟩
    rw [tracedEvent] at ho
    rw [submitTraced, hlast.submits, ho]
    rfl

theorem stateFits_absent : P.StateFits ⟨"", ""⟩ := by
  intro span hspan
  rw [Propagator.extract, if_pos rfl] at hspan
  cases hspan

/-- Two submissions that come to their events end the same way when the database takes
both events or neither. -/
theorem EventLast.same_iff (hlast : EventLast env scope key req db finish) (h₁ h₂ : TraceHeaders) :
    SameEnding (submitTraced P T h₁ env scope key req db)
        (submitTraced P T h₂ env scope key req db) ↔
      (EventIDFree env db ∧ P.StateFits h₁ ↔ EventIDFree env db ∧ P.StateFits h₂) := by
  by_cases hfits₁ : EventIDFree env db ∧ P.StateFits h₁ <;>
    by_cases hfits₂ : EventIDFree env db ∧ P.StateFits h₂
  · obtain ⟨outbox₁, hok₁, hrows₁⟩ := hlast.accepted P T hfits₁
    obtain ⟨outbox₂, hok₂, hrows₂⟩ := hlast.accepted P T hfits₂
    rw [hok₁, hok₂]
    refine iff_of_true (.answered ⟨?_, ?_⟩) (iff_of_true hfits₁ hfits₂)
    · rw [hlast.outbox, hlast.others]
    · rw [hlast.outbox, hlast.outbox, hrows₁, hrows₂]
      simp only [List.map_append, List.map_cons, tracedEvent, untraced_workAvailableEvent]
  · obtain ⟨outbox₁, hok₁, -⟩ := hlast.accepted P T hfits₁
    obtain ⟨f, hf, -⟩ := hlast.refused P T hfits₂
    rw [hok₁, hf]
    exact iff_of_false (by rintro ⟨⟩) fun hiff => hfits₂ (hiff.mp hfits₁)
  · obtain ⟨f, hf, -⟩ := hlast.refused P T hfits₁
    obtain ⟨outbox₂, hok₂, -⟩ := hlast.accepted P T hfits₂
    rw [hok₂, hf]
    exact iff_of_false (by rintro ⟨⟩) fun hiff => hfits₁ (hiff.mpr hfits₂)
  · obtain ⟨f₁, hf₁, herror₁⟩ := hlast.refused P T hfits₁
    obtain ⟨f₂, hf₂, herror₂⟩ := hlast.refused P T hfits₂
    rw [hf₁, hf₂]
    exact iff_of_true (.failed (herror₁.trans herror₂.symm)) (iff_of_false hfits₁ hfits₂)

end Submissions

/-- Two choices of headers lead a submission to the same end exactly when it announces no
job, or what they carry on fits the column in both cases or in neither. -/
theorem traced_submit_same_iff (P : Propagator) (T : Tracer) (h₁ h₂ : TraceHeaders) (env : Env)
    (scope key : String) (req : NormalizedRequest) (db : DB) :
    SameEnding (submitTraced P T h₁ env scope key req db)
        (submitTraced P T h₂ env scope key req db) ↔
      (Announces env scope key req db → (P.StateFits h₁ ↔ P.StateFits h₂)) := by
  rcases submit_cases env scope key req db with ⟨⟨x, hx⟩, hnot⟩ | ⟨⟨finish, hlast⟩, hannounces⟩
  · -- The answer was decided before the event, whatever the trace.
    rw [submitTraced, submitTraced, hx, hx]
    exact iff_of_true (.refl x) fun hn => absurd hn hnot
  · rw [hlast.same_iff P T h₁ h₂, hannounces, and_congr_right_iff]

/-! ## A tracestate that is too long for its column -/

/-- A tracer that records nothing: the spans pass the caller's context through. -/
def noopTracer : Tracer where
  start := id
  child parent := ⟨parent, rfl, rfl⟩
  root := by rintro span ⟨⟩

/-- A propagator that knows the recommendation's example. -/
def examplePropagator : Propagator where
  parent s := if s = "00-4bf92f3577b34da6a3ce929d0e0e4736-00f067aa0ba902b7-01" then
    some (0x4bf92f3577b34da6a3ce929d0e0e4736, 0x00f067aa0ba902b7, 1) else none
  example_accepted := by decide

/-- Two list members, each with a value of the greatest length. -/
def longMembers : List Member :=
  [(['a'], List.replicate 256 'x'), (['b'], List.replicate 256 'x')]

/-- Headers the propagator accepts, with those two members. -/
def longHeaders : TraceHeaders :=
  ⟨"00-4bf92f3577b34da6a3ce929d0e0e4736-00f067aa0ba902b7-01", String.ofList (stateText longMembers)⟩

theorem extract_longHeaders :
    examplePropagator.extract longHeaders =
      some ⟨0x4bf92f3577b34da6a3ce929d0e0e4736, 0x00f067aa0ba902b7, 1, longMembers⟩ := by
  have hstate : parseTraceState (String.ofList (stateText longMembers)) = some longMembers := by
    unfold parseTraceState
    rw [String.toList_ofList]
    decide +kernel
  show some (SpanContext.mk _ _ _ ((parseTraceState (String.ofList (stateText longMembers))).getD []))
    = _
  rw [hstate]
  rfl

/-- The same submission to the same state: accepted without headers, refused with a
tracestate of 517 characters that the propagator accepts. -/
theorem long_tracestate_refused :
    examplePropagator.extract longHeaders ≠ none ∧
    (∃ p, submitTraced examplePropagator noopTracer ⟨"", ""⟩ (envAt 1 2 3) "tenant" "key"
      (sampleNormal "\x7b\x7d") quietDB = .ok p) ∧
    ∃ f, submitTraced examplePropagator noopTracer longHeaders (envAt 1 2 3) "tenant" "key"
      (sampleNormal "\x7b\x7d") quietDB = .error f ∧ f.error = .failed "insert outbox event" := by
  have hlong : ¬ examplePropagator.StateFits longHeaders := fun hfits =>
    absurd (hfits _ extract_longHeaders) (by decide +kernel)
  have hannounces : Announces (envAt 1 2 3) "tenant" "key" (sampleNormal "\x7b\x7d") quietDB :=
    ⟨by decide +kernel, ⟨by decide +kernel, List.forall_mem_nil _⟩, List.forall_mem_nil _,
      ⟨by decide +kernel, List.forall_mem_nil _⟩, by decide +kernel, List.forall_mem_nil _⟩
  refine ⟨by rw [extract_longHeaders]; rintro ⟨⟩, ?_⟩
  rcases submit_cases (envAt 1 2 3) "tenant" "key" (sampleNormal "\x7b\x7d") quietDB with
    ⟨-, hnot⟩ | ⟨⟨finish, hlast⟩, -⟩
  · exact absurd hannounces hnot
  · obtain ⟨outbox, hok, -⟩ := hlast.accepted examplePropagator noopTracer
      ⟨hannounces.event, stateFits_absent examplePropagator⟩
    exact ⟨⟨_, hok⟩, hlast.refused examplePropagator noopTracer fun h => hlong h.2⟩

end TaskForge

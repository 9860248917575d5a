/-
What a publisher's claim on an event is worth, and what is kept of a failure
(`internal/outbox/store.go`).

`ClaimDue` hides an event for a while from every other claim, and `RecordFailure` dates it
anew, for whoever failed to publish it. Neither knows who holds the event: a claim is not
a lease with an owner, only an instant in a column. So the window of a claim is its own as
long as every failure is recorded by the publisher that claimed the event last
(`claims_exclusive`), which is what a claim timeout above the worst time to publish is for.
A failure that comes in later than that, when the event is in other hands already, makes
it due again under them (`late_failure_reopens`).
-/
import TaskForge.Publishers

open Relational Fallible Json Runs

namespace TaskForge

/-! ## What is recorded of a failure

`RecordFailure` keeps the first thousand bytes of the cause. A cut by bytes may fall inside
a character, and then there is no text to store: PostgreSQL refuses the bytes, and with
the statement goes the backoff that it was to set. -/

section Causes

variable {cause s : String}

/-- A text is cut where a character ends. -/
theorem takeOctets_eq_some {n : ℕ} {t p : Text} (h : n ≤ octets t) :
    takeOctets n t = some p ↔ p <+: t ∧ octets p = n := by
  -- Along the recursion of the cut: each turn takes a character that still fits.
  fun_induction takeOctets n t generalizing p with
  | case1 n => cases p <;> simp_all [eq_comm]
  | case2 c cs => cases p <;> grind [octets_nil, octets_cons, Char.utf8Size_pos]
  | case3 n c cs hsize ih =>
    have := c.utf8Size_pos
    rw [octets_cons] at h
    cases p with
    | nil => simp
    | cons d p =>
      simp only [Option.map_eq_some_iff, List.cons.injEq, List.cons_prefix_cons, octets_cons]
      constructor
      · rintro ⟨q, hq, rfl, rfl⟩
        obtain ⟨hstart, hlength⟩ := (ih (by omega)).mp hq
        exact ⟨⟨rfl, hstart⟩, by omega⟩
      · rintro ⟨⟨rfl, hstart⟩, hlength⟩
        exact ⟨p, (ih (by omega)).mpr ⟨hstart, by omega⟩, rfl, rfl⟩
  | case4 n c cs hsize => cases p <;> grind [octets_nil, octets_cons]

theorem storedCause_eq_some : storedCause cause = some s ↔
    s.toList <+: cause.toList ∧ octetLength s = min 1000 (octetLength cause) := by
  have hcut : storedCause cause =
      (takeOctets (min 1000 (octets cause.toList)) cause.toList).map String.ofList := by
    rw [storedCause, sliceOctets, maxStoredError, octets_toList]
    split_ifs with hlong
    · rw [min_eq_left hlong.le]
    · rw [min_eq_right (not_lt.mp hlong), ← octets_toList,
        (takeOctets_eq_some le_rfl).mpr ⟨List.prefix_rfl, rfl⟩]
      simp
  rw [hcut, Option.map_eq_some_iff, ← octets_toList, ← octets_toList]
  constructor
  · rintro ⟨p, hp, rfl⟩
    rw [String.toList_ofList]
    exact (takeOctets_eq_some (min_le_right _ _)).mp hp
  · intro hs
    exact ⟨_, (takeOctets_eq_some (min_le_right _ _)).mpr hs, String.ofList_toList⟩

/-- A failure is recorded, and its event put off, exactly if its cause has at most 1000
bytes or a character of it ends at byte 1000. -/
theorem failure_recorded_iff (h : storable cause = true) (now after : Int) (id : UUID) (db : DB) :
    (∃ s outbox, recordFailure now id cause after db = .ok ((), { db with outbox := outbox }) ∧
      s.toList <+: cause.toList ∧ octetLength s ≤ 1000 ∧
      outbox.rows = db.outbox.rows.map fun e =>
        if isPendingEvent id e then failedEvent now after s e else e) ↔
    octetLength cause ≤ 1000 ∨ ∃ p, p <+: cause.toList ∧ octets p = 1000 := by
  simp only [recordFailure, bind_eq_ok, orFail_eq_ok, Option.filter_eq_some_iff, pure_eq_ok,
    updateRows, orRefused_eq_ok, storedCause_eq_some]
  constructor
  · rintro ⟨-, -, ⟨s, ⟨⟨hstart, hlength⟩, -⟩, -⟩, -⟩
    by_cases hshort : octetLength cause ≤ 1000
    · exact .inl hshort
    · exact .inr ⟨s.toList, hstart, by rw [octets_toList]; omega⟩
  · intro hcut
    obtain ⟨s, hstart, hlength⟩ : ∃ s : String, s.toList <+: cause.toList ∧
        octetLength s = min 1000 (octetLength cause) := by
      rcases hcut with hshort | ⟨p, ⟨q, hq⟩, hlength⟩
      · exact ⟨cause, List.prefix_rfl, by omega⟩
      · refine ⟨String.ofList p, ?_⟩
        rw [← octets_toList, ← octets_toList, String.toList_ofList, ← hq, octets_append]
        exact ⟨List.prefix_append p q, by omega⟩
    have hfree : storable s = true :=
      storable_eq_true.mpr fun hmem => storable_eq_true.mp h (hstart.subset hmem)
    obtain ⟨outbox, hupd⟩ := db.outbox.update_ok (p := isPendingEvent id)
      (f := failedEvent now after s) (fun x hx _ => db.outbox.checked x hx) (fun _ _ => rfl)
    exact ⟨s, outbox, ⟨s, ⟨⟨hstart, hlength⟩, hfree⟩, outbox, hupd, rfl⟩, hstart, by omega,
      Table.update_rows hupd⟩

theorem failure_recorded_short : storable "timeout" = true ∧
    ∀ db, ∃ r, recordFailure 0 1 "timeout" 1 db = .ok r := by
  have hshort : storable "timeout" = true ∧ octetLength "timeout" ≤ 1000 := by decide +kernel
  refine ⟨hshort.1, fun db => ?_⟩
  obtain ⟨s, outbox, hrun, -⟩ := (failure_recorded_iff hshort.1 0 1 1 db).mpr (.inl hshort.2)
  exact ⟨_, hrun⟩

/-- 999 bytes and a letter of two. -/
def splitCause : Text := List.replicate 999 'a' ++ ['é']

/-- Such a cause is refused, and its event is not put off. -/
theorem split_cause_unrecorded : storable (.ofList splitCause) = true ∧
    ∀ now id after db r, recordFailure now id (.ofList splitCause) after db ≠ .ok r := by
  obtain ⟨hfree, hlong, hcut⟩ : '\x00' ∉ splitCause ∧ 1000 < octets splitCause ∧
      takeOctets 1000 splitCause = none := by decide +kernel
  refine ⟨storable_eq_true.mpr (by rwa [String.toList_ofList]), fun now id after db r hrun => ?_⟩
  simp only [recordFailure, bind_eq_ok, orFail_eq_ok, storedCause, ← octets_toList, sliceOctets,
    String.toList_ofList, maxStoredError, if_pos hlong, hcut] at hrun
  obtain ⟨s, hs, -⟩ := hrun
  cases hs

end Causes

/-! ## The window of a claim

Any number of publishers call the store, in any order, at instants of one clock. A call
that the database fails leaves everything as it was and is not recorded; one whose answer
is lost is a call like any other, whose publisher is not heard of again. `ReleaseClaim`
is there for tests, and no publisher calls it. -/

/-- What happened: a transaction of the control plane, or a call of the publisher `i`, begun
at `now`, with its answer. -/
inductive OutboxTurn where
  | store
  | call (i : ℕ) (now : Int) (call : OutboxCall) (answer : OutboxAnswer)
deriving DecidableEq

/-- A call that publishers make. -/
def OutboxCall.ofPublisher : OutboxCall → Bool
  | .releaseClaim _ => false
  | _ => true

/-- One turn. The clock goes with the calls. -/
inductive OutboxStep : World → OutboxTurn → World → Prop
  | store {w w' : World} {l : Label} (step : Step w l w') : OutboxStep w .store w'
  | call {w : World} {i : ℕ} {now : Int} {call : OutboxCall} {ans : OutboxAnswer} {db : DB}
      (clock : w.clock ≤ now) (made : call.ofPublisher = true)
      (run : call.run now w.db = .ok (ans, db)) :
      OutboxStep w (.call i now call ans) ⟨db, now⟩

namespace OutboxTurn

/-- Who claims the event in this turn, if somebody does. -/
def claimer (id : UUID) : OutboxTurn → Option ℕ
  | .call i _ _ ans => if id ∈ ans.ids then some i else none
  | .store => none

/-- Whose failure to publish the event is recorded in this turn. -/
def loser (id : UUID) : OutboxTurn → Option ℕ
  | .call i _ (.recordFailure id' _ _) _ => if id' = id then some i else none
  | _ => none

end OutboxTurn

/-- The publisher that claimed the event last. -/
def holder (id : UUID) (past : List OutboxTurn) : Option ℕ :=
  (past.filterMap (OutboxTurn.claimer id)).getLast?

/-- The event was claimed by the publisher `i` for a window that ends at `ends`, and `mid` is
what happened after that. -/
def ClaimedBy (past : List OutboxTurn) (id : UUID) (i : ℕ) (ends : Int) (mid : List OutboxTurn) :
    Prop :=
  ∃ before t limit timeout locked ans,
    past = before ++ .call i t (.claimDue limit timeout locked) ans :: mid ∧
    id ∈ ans.ids ∧ ends = t + timeout

section Windows

variable {w w' : World} {x : OutboxTurn} {past mid trace : List OutboxTurn} {db : DB}
  {now t ends : Int} {id : UUID} {i : ℕ} {ans : OutboxAnswer}

/-- A row that is published or hidden until `t` is not claimed before `t`. -/
theorem Moves.window_over {call : OutboxCall} {e e' : OutboxEvent} (h : Moves now call ans e e')
    (hid : e.id ∈ ans.ids) (hsafe : e.status = .published ∨ t ≤ e.availableAt) : t ≤ now := by
  cases h with
  | kept unclaimed => exact absurd hid unclaimed
  | claimed taken pending due =>
    rcases hsafe with hpublished | hhidden
    · rw [hpublished] at pending
      cases pending
    · exact hhidden.trans due
  | published | failed | released => cases hid

/-- How it stands, after what is past, with an event that was claimed for a window: its
claimer recorded a failure, or the window is over, or nobody has claimed it since and its
row is published or hidden for the window. -/
def Hidden (past : List OutboxTurn) (w : World) : Prop :=
  ∀ id i ends mid, ClaimedBy past id i ends mid →
    (∃ y ∈ mid, y.loser id = some i) ∨ ends ≤ w.clock ∨
      mid.filterMap (OutboxTurn.claimer id) = [] ∧ ∃ e ∈ w.db.outbox.rows, e.id = id ∧
        (e.status = .published ∨ ends ≤ e.availableAt)

theorem OutboxStep.clock_le (hs : OutboxStep w x w') : w.clock ≤ w'.clock := by
  cases hs with
  | store step => exact step.clock_le
  | call clock made run => exact clock

/-- The last to claim an event holds it. -/
theorem ClaimedBy.holder_eq (h : ClaimedBy past id i ends mid)
    (hlast : mid.filterMap (OutboxTurn.claimer id) = []) : holder id past = some i := by
  obtain ⟨before, t, limit, timeout, locked, ans, rfl, hid, -⟩ := h
  have hclaim : (OutboxTurn.call i t (.claimDue limit timeout locked) ans).claimer id = some i :=
    if_pos hid
  rw [holder, List.filterMap_append, List.filterMap_cons_some hclaim, hlast,
    List.getLast?_append]
  rfl

/-- What one turn leaves of a row that is published or hidden: the window is over, or the
turn is a failure of the holder's, or no claim and the row is as safe as before. -/
theorem OutboxStep.kept {e : OutboxEvent} (hs : OutboxStep w x w') (he : e ∈ w.db.outbox.rows)
    (hsafe : e.status = .published ∨ t ≤ e.availableAt) :
    (∃ i, x.loser e.id = some i) ∨ t ≤ w'.clock ∨ x.claimer e.id = none ∧
      ∃ e' ∈ w'.db.outbox.rows, e'.id = e.id ∧ (e'.status = .published ∨ t ≤ e'.availableAt) := by
  cases hs with
  | store step =>
    obtain ⟨new, hrows, -⟩ := step.appends
    exact .inr (.inr ⟨rfl, e, hrows ▸ List.mem_append_left _ he, rfl, hsafe⟩)
  | call clock made run =>
    obtain ⟨-, -, f, hrows, hf⟩ := OutboxCall.moves run
    have hmem := List.mem_map_of_mem (f := f) he
    have hmoves := hf e he
    rw [← hrows] at hmem
    generalize f e = e' at hmem hmoves
    have hover := fun hid => hmoves.window_over hid hsafe
    cases hmoves with
    | kept unclaimed => exact .inr (.inr ⟨if_neg unclaimed, e, hmem, rfl, hsafe⟩)
    | claimed taken pending due => exact .inr (.inl (hover taken))
    | published pending => exact .inr (.inr ⟨rfl, _, hmem, rfl, .inl rfl⟩)
    | failed pending => exact .inl ⟨_, if_pos rfl⟩
    | released pending => cases made

/-- A claim that is granted breaks no window. -/
theorem OutboxStep.exclusive {j : ℕ} {call : OutboxCall} (h : Hidden past w)
    (hs : OutboxStep w (.call j now call ans) w') (hid : id ∈ ans.ids)
    (hclaimed : ClaimedBy past id i ends mid) : ends ≤ now ∨ ∃ y ∈ mid, y.loser id = some i := by
  cases hs with
  | call clock made run =>
    rcases h id i ends mid hclaimed with hfailed | hover | ⟨-, e, he, rfl, hsafe⟩
    · exact .inr hfailed
    · exact .inl (hover.trans clock)
    · obtain ⟨-, -, f, -, hf⟩ := OutboxCall.moves run
      exact .inl ((hf e he).window_over hid hsafe)

/-- A failure within the window is the holder's: nobody else has got the event. -/
theorem OutboxStep.own {cause : String} {after : Int} (h : Hidden past w)
    (hs : OutboxStep w (.call i now (.recordFailure id cause after) ans) w')
    (hclaimed : ClaimedBy past id i ends mid) (hfirst : ∀ y ∈ mid, y.loser id ≠ some i)
    (hwindow : now < ends) : holder id past = some i := by
  rcases h id i ends mid hclaimed with ⟨y, hy, hloser⟩ | hover | ⟨hlast, -⟩
  · exact absurd hloser (hfirst y hy)
  · cases hs with
    | call clock made run => omega
  · exact hclaimed.holder_eq hlast

/-- The calls of publishers, each with its publisher and its instant, from a state on. -/
def World.turns (w : World) : List (ℕ × Int × OutboxCall) → Option (List OutboxTurn)
  | [] => some []
  | (i, now, call) :: rest =>
    match call.run now w.db with
    | .ok (ans, db) =>
      if w.clock ≤ now ∧ call.ofPublisher = true then
        (World.turns ⟨db, now⟩ rest).map (.call i now call ans :: ·)
      else none
    | .error _ => none

end Windows

end TaskForge

/-
Transactions, and the statements they are made of.

A store transaction is a function from the database it begins on to either a
failure, after which the database is as it was, or an answer and the database it
committed. Statements return the table they leave, so a transaction threads the
tables it writes and assembles the database at its commit.

A failure says two things: the error the caller sees, and why the transaction
stopped. The second is what the schema and the correspondence results are about:

* `check`: the code itself refused, on what it read;
* `rowsAffected`: an `UPDATE` made after the locks did not change exactly one
  row, the branch the source calls "changed during" the operation;
* `schema`: PostgreSQL refused a row.

The source turns some `schema` refusals into domain errors (SQLSTATE 23505); the
cause stays `schema`, so such a refusal is still seen as one.
-/
import TaskForge.Fallible
import TaskForge.Requests

open Relational Fallible

namespace TaskForge

/-! ## Failures -/

/-- The errors of `internal/workers`, `internal/jobs` and `internal/lifecycle`. -/
inductive StoreError where
  | validation (fields : List FieldError)
  | unknownQueue
  | sessionConflict
  | sessionUnavailable
  | claimConflict
  | fenceRejected
  | leaseExpired
  /-- `ErrStateConflict`, with the text wrapped around it. -/
  | stateConflict (detail : String)
  | renewalConflict
  | attemptTimedOut
  | outcomeConflict
  | cancellationRequested
  | jobNotFound
  | jobNotCancelable
  | notDeadLettered
  | idempotencyConflict
  | dlqEntryExists
  /-- No error: the scan is told `false` and the transaction rolls back. -/
  | skipped
  /-- An error without a sentinel, by its text. -/
  | failed (context : String)
deriving DecidableEq, Repr

/-- Why a transaction stopped. -/
inductive Cause where
  | check
  | rowsAffected
  | schema (table : TableName) (violation : Violation)
deriving DecidableEq, Repr

structure Failure where
  error : StoreError
  cause : Cause
deriving DecidableEq, Repr

/-- A step of a transaction. -/
abbrev Tx (α : Type) := Except Failure α

/-- The code refuses unless `c`. -/
def demand (c : Bool) (e : StoreError) : Tx Unit := ensure c ⟨e, .check⟩

/-- The code refuses when a read finds nothing. -/
def fetch {α : Type} (o : Option α) (e : StoreError) : Tx α := orFail o ⟨e, .check⟩

/-- The code refuses unless there are no field errors. -/
def validate (fields : List FieldError) : Tx Unit :=
  demand fields.isEmpty (.validation fields)

/-- The code refuses when a computation of its own fails. -/
def checked {ε α : Type} (x : Except ε α) (onError : ε → StoreError) : Tx α :=
  x.mapError fun e => ⟨onError e, .check⟩

section Peeling

variable {α β : Type} {e : StoreError} {f : Failure}
variable {c : Bool} {u : Unit} {o : Option α} {a : α} {fields : List FieldError} {ε : Type}
  {x : Except ε α} {onError : ε → StoreError}

theorem demand_eq_ok : demand c e = .ok u ↔ c = true := ensure_eq_ok

theorem fetch_eq_ok : fetch o e = .ok a ↔ o = some a := orFail_eq_ok

theorem validate_eq_ok :
    validate fields = .ok u ↔ fields = [] := by
  rw [validate, demand_eq_ok, List.isEmpty_iff]

theorem checked_eq_ok :
    checked x onError = .ok a ↔ x = .ok a := by
  cases x <;> simp [checked, Except.mapError]

/-! A failure that is not the code's own refusal comes from a statement, so the
guards in front of that statement held. -/

theorem demand_forced (hf : f.cause ≠ .check) : demand c e = .error f ↔ False := by
  rw [demand, ensure_eq_error, iff_false]
  rintro ⟨-, rfl⟩
  exact hf rfl

theorem fetch_forced (hf : f.cause ≠ .check) : fetch o e = .error f ↔ False := by
  rw [fetch, orFail_eq_error, iff_false]
  rintro ⟨-, rfl⟩
  exact hf rfl

theorem validate_forced (hf : f.cause ≠ .check) :
    validate fields = .error f ↔ False := demand_forced hf

theorem checked_forced (hf : f.cause ≠ .check) : checked x onError = .error f ↔ False := by
  cases x with
  | ok a => simp [checked, Except.mapError]
  | error e =>
    simp only [checked, Except.mapError, Except.error.injEq, iff_false]
    rintro rfl
    exact hf rfl

end Peeling

/-! ## Statements -/

section Statements

variable {R : Type} {C : Constraints R}

/-- Hand a refused statement to the transaction as a failure. -/
def orRefused (name : TableName) (onViolation : Violation → StoreError)
    (x : Except Violation (Table C)) : Tx (Table C) :=
  x.mapError fun v => ⟨onViolation v, .schema name v⟩

/-- A refused row is reported under the statement's own text. -/
def reported (context : String) : Violation → StoreError := fun _ => .failed context

/-- SQLSTATE 23505 becomes a domain error; any other refusal is reported. -/
def onUnique (e : StoreError) (context : String) : Violation → StoreError
  | .unique => e
  | .check => .failed context

/-- `INSERT` -/
def insertRow (name : TableName) (t : Table C) (r : R) (onViolation : Violation → StoreError) :
    Tx (Table C) :=
  orRefused name onViolation (t.insert r)

/-- `UPDATE`, whatever number of rows it changes. -/
def updateRows (name : TableName) (t : Table C) (p : R → Bool) (f : R → R)
    (onViolation : Violation → StoreError) : Tx (Table C) :=
  orRefused name onViolation (t.update p f)

/-- `UPDATE`, followed by the test that it changed exactly one row. -/
def updateOne (name : TableName) (t : Table C) (p : R → Bool) (f : R → R) (conflict : StoreError)
    (onViolation : Violation → StoreError) : Tx (Table C) := do
  let t' ← updateRows name t p f onViolation
  ensure (t.count p == 1) ⟨conflict, .rowsAffected⟩
  pure t'

/-- `UPDATE … RETURNING`, followed by the test that it returned a row. -/
def updateReturning (name : TableName) (t : Table C) (p : R → Bool) (f : R → R)
    (conflict : StoreError) (onViolation : Violation → StoreError) : Tx (R × Table C) := do
  let t' ← updateRows name t p f onViolation
  let old ← orFail (t.rows.find? p) ⟨conflict, .rowsAffected⟩
  pure (f old, t')

variable {name : TableName} {t t' : Table C} {r : R} {p : R → Bool} {f : R → R}
  {conflict : StoreError} {onViolation : Violation → StoreError} {e : Failure}

theorem orRefused_eq_ok {x : Except Violation (Table C)} :
    orRefused name onViolation x = .ok t ↔ x = .ok t := by
  cases x <;> simp [orRefused, Except.mapError]

theorem orRefused_eq_error {x : Except Violation (Table C)} :
    orRefused name onViolation x = .error e ↔
      ∃ v, x = .error v ∧ e = ⟨onViolation v, .schema name v⟩ := by
  cases x <;> simp [orRefused, Except.mapError, eq_comm]

theorem insertRow_eq_ok (h : insertRow name t r onViolation = .ok t') :
    t'.rows = t.rows ++ [r] := Table.insert_rows (orRefused_eq_ok.mp h)

theorem insertRow_ok_iff :
    (∃ t', insertRow name t r onViolation = .ok t') ↔ t.Admits (.insert r) := by
  rw [← t.insert_eq_ok_iff]
  simp only [insertRow, orRefused_eq_ok]

/-- `f` is the refusal of the new row `r`: it breaks its check, or clashes with
a row that is there. -/
def InsertRefused (name : TableName) (t : Table C) (r : R) (f : Failure) : Prop :=
  (∃ v, f.cause = .schema name v) ∧ (C.check r = true → ∃ x ∈ t.rows, C.clash x r = true)

/-- `f` is the refusal of `new` in the place of `old`. -/
def UpdateRefused (name : TableName) (t : Table C) (old new : R) (f : Failure) : Prop :=
  (∃ v, f.cause = .schema name v) ∧
    (C.check new = true → ∃ x ∈ t.rows, x ≠ old ∧ C.clash x new = true)

/-- `f` is the refusal of a write. -/
def RowWriteRefused (name : TableName) (t : Table C) (w : RowWrite R) (f : Failure) : Prop :=
  match w with
  | .keep => False
  | .insert r => InsertRefused name t r f
  | .replace old new => UpdateRefused name t old new f

theorem insertRow_eq_error (h : insertRow name t r onViolation = .error e) :
    InsertRefused name t r e := by
  obtain ⟨v, hv, rfl⟩ := orRefused_eq_error.mp h
  refine ⟨⟨v, rfl⟩, fun hc => ?_⟩
  by_contra hclash
  push Not at hclash
  obtain ⟨t', ht'⟩ := t.insert_ok hc fun x hx => by simpa using hclash x hx
  rw [ht'] at hv
  cases hv

/-- An `UPDATE` that selects nothing is not refused. -/
theorem updateRows_of_none (hnone : ∀ x ∈ t.rows, p x = false) :
    updateRows name t p f onViolation = .ok t := by
  refine orRefused_eq_ok.mpr ?_
  have hrows : (t.rows.map fun r => if p r then f r else r) = t.rows := by
    rw [List.map_congr_left (g := id), List.map_id]
    intro x hx
    rw [hnone x hx]
    rfl
  unfold Table.update
  simp only [hrows]
  exact Table.ofRows_ok t.checked t.unique

/-- The row an `UPDATE … RETURNING` answers with is a row of the new table. -/
theorem updateReturning_mem {new : R}
    (h : updateReturning name t p f conflict onViolation = .ok (new, t')) :
    ∃ old ∈ t.rows, p old = true ∧ new = f old ∧ new ∈ t'.rows := by
  simp only [updateReturning, bind_eq_ok, orFail_eq_ok, pure_eq_ok, Prod.mk.injEq] at h
  obtain ⟨t₁, hupd, old, hold, rfl, rfl⟩ := h
  obtain ⟨hmem, hp⟩ := found_of_find? hold
  refine ⟨old, hmem, hp, rfl, ?_⟩
  rw [Table.update_rows (orRefused_eq_ok.mp hupd)]
  exact List.mem_map.mpr ⟨old, hmem, if_pos hp⟩

/-- A row an `UPDATE` changed is in the new table as changed. -/
theorem updateOne_mem (h : updateOne name t p f conflict onViolation = .ok t') :
    ∃ old ∈ t.rows, p old = true ∧ f old ∈ t'.rows := by
  simp only [updateOne, bind_eq_ok, ensure_eq_ok, pure_eq_ok, beq_iff_eq] at h
  obtain ⟨t₁, hupd, -, hcount, rfl⟩ := h
  have hpos : 0 < t.rows.countP p := by rw [show t.rows.countP p = 1 from hcount]; exact one_pos
  obtain ⟨old, hmem, hp⟩ := List.countP_pos_iff.mp hpos
  refine ⟨old, hmem, hp, ?_⟩
  rw [Table.update_rows (orRefused_eq_ok.mp hupd)]
  exact List.mem_map.mpr ⟨old, hmem, if_pos hp⟩

section OneRow

variable [DecidableEq R] {old : R}

/-- The `UPDATE` went through: it selected `old`, and only `old` changed. -/
theorem updateOne_eq_ok (hpk : ∀ x ∈ t.rows, p x = true → x = old)
    (h : updateOne name t p f conflict onViolation = .ok t') :
    p old = true ∧ t'.rows = replaceRow old (f old) t.rows := by
  simp only [updateOne, bind_eq_ok, ensure_eq_ok, pure_eq_ok, beq_iff_eq] at h
  obtain ⟨t₁, hupd, -, hcount, rfl⟩ := h
  have hpos : 0 < t.rows.countP p := by rw [show t.rows.countP p = 1 from hcount]; exact one_pos
  obtain ⟨x, hx, hpx⟩ := List.countP_pos_iff.mp hpos
  have hp : p old = true := hpk x hx hpx ▸ hpx
  exact ⟨hp, Table.update_rows_single (orRefused_eq_ok.mp hupd) hp hpk⟩

theorem updateReturning_eq_ok {new : R} (hpk : ∀ x ∈ t.rows, p x = true → x = old)
    (h : updateReturning name t p f conflict onViolation = .ok (new, t')) :
    p old = true ∧ new = f old ∧ t'.rows = replaceRow old (f old) t.rows := by
  simp only [updateReturning, bind_eq_ok, orFail_eq_ok, pure_eq_ok, Prod.mk.injEq] at h
  obtain ⟨t₁, hupd, x, hx, rfl, rfl⟩ := h
  have hxo : x = old := hpk x (List.mem_of_find?_eq_some hx) (List.find?_some hx)
  have hp : p old = true := hxo ▸ List.find?_some hx
  exact ⟨hp, by rw [hxo], Table.update_rows_single (orRefused_eq_ok.mp hupd) hp hpk⟩

theorem updateRows_eq_error (hp : p old = true) (hpk : ∀ x ∈ t.rows, p x = true → x = old)
    (h : updateRows name t p f onViolation = .error e) :
    UpdateRefused name t old (f old) e := by
  obtain ⟨v, hv, rfl⟩ := orRefused_eq_error.mp h
  refine ⟨⟨v, rfl⟩, fun hc => ?_⟩
  by_contra hclash
  push Not at hclash
  obtain ⟨t', ht'⟩ :=
    t.update_ok_single hp hpk hc fun x hx hxo => by simpa using hclash x hx hxo
  rw [ht'] at hv
  cases hv

/-- An `UPDATE` that selects the row it was made for fails only in the schema. -/
theorem updateOne_eq_error (hold : old ∈ t.rows) (hp : p old = true)
    (hpk : ∀ x ∈ t.rows, p x = true → x = old)
    (h : updateOne name t p f conflict onViolation = .error e) :
    UpdateRefused name t old (f old) e := by
  simp only [updateOne, bind_eq_error, ensure_eq_error, pure_ne_error, and_false, exists_false,
    or_false] at h
  rcases h with h | ⟨t₁, -, hcount, -⟩
  · exact updateRows_eq_error hp hpk h
  · rw [t.count_eq_one hold hp hpk] at hcount
    simp at hcount

theorem updateReturning_eq_error (hold : old ∈ t.rows) (hp : p old = true)
    (hpk : ∀ x ∈ t.rows, p x = true → x = old)
    (h : updateReturning name t p f conflict onViolation = .error e) :
    UpdateRefused name t old (f old) e := by
  simp only [updateReturning, bind_eq_error, orFail_eq_error, pure_ne_error, and_false,
    exists_false, or_false] at h
  rcases h with h | ⟨t₁, -, hnone, -⟩
  · exact updateRows_eq_error hp hpk h
  · exact absurd hp (List.find?_eq_none.mp hnone old hold)

end OneRow

/-! A statement never stops a transaction for the code's own reasons. -/

theorem insertRow_cause (h : insertRow name t r onViolation = .error e) : e.cause ≠ .check := by
  obtain ⟨⟨v, hv⟩, -⟩ := insertRow_eq_error h
  rw [hv]
  exact Cause.noConfusion

theorem updateRows_cause (h : updateRows name t p f onViolation = .error e) :
    e.cause ≠ .check := by
  obtain ⟨v, -, rfl⟩ := orRefused_eq_error.mp h
  exact Cause.noConfusion

theorem updateOne_cause (h : updateOne name t p f conflict onViolation = .error e) :
    e.cause ≠ .check := by
  simp only [updateOne, bind_eq_error, ensure_eq_error, pure_ne_error, and_false, exists_false,
    or_false] at h
  rcases h with h | ⟨-, -, -, rfl⟩
  · exact updateRows_cause h
  · exact Cause.noConfusion

theorem updateReturning_cause (h : updateReturning name t p f conflict onViolation = .error e) :
    e.cause ≠ .check := by
  simp only [updateReturning, bind_eq_error, orFail_eq_error, pure_ne_error, and_false,
    exists_false, or_false] at h
  rcases h with h | ⟨-, -, -, rfl⟩
  · exact updateRows_cause h
  · exact Cause.noConfusion

end Statements

/-! ## The environment of a transaction -/

/-- The database clock as one transaction reads it: `now()` is fixed when the
transaction begins, and `clock_timestamp()` is sampled up to three times. -/
structure TxClock where
  start : Int
  s₀ : Int
  s₁ : Int
  s₂ : Int
  start_le : start ≤ s₀
  le₁ : s₀ ≤ s₁
  le₂ : s₁ ≤ s₂
deriving DecidableEq

/-- What a transaction takes from outside the database and its arguments: the
clock, the store's configuration, the float part of the retry delay, the
`uuid.New()` draws and the request hash. -/
structure Env where
  clock : TxClock
  leaseDuration : Int
  retryPolicy : RetryPolicy
  backoff : ℕ → F64
  id₁ : UUID
  id₂ : UUID
  fingerprint : NormalizedRequest → String

/-- A stored instant as a Go time, in nanoseconds. -/
def goTime (t : Int) : Int := t * 1000

/-- A Go time as PostgreSQL stores it: microseconds, rounded down. -/
def storeTime (ns : Int) : Int := ns / 1000

/-- Go's zero time, as a stored instant. -/
def zeroTime : Int := -62135596800000000

theorem storeTime_goTime (t : Int) : storeTime (goTime t) = t := by
  unfold storeTime goTime
  omega

/-! ## Errors that a transaction does not give -/

/-- The transaction does not fail with the error `e`. -/
def Omits {α : Type} (e : StoreError) (x : Tx α) : Prop := Throws (fun f => f.error ≠ e) x

section Omitted

variable {α R : Type} {C : Constraints R} {name : TableName} {t : Table C} {r : R} {p : R → Bool}
  {f : R → R} {e e' conflict : StoreError} {onViolation : Violation → StoreError}

theorem demand_omits {c : Bool} (h : e' ≠ e) : Omits e (demand c e') := .ensure h

theorem fetch_omits {o : Option α} (h : e' ≠ e) : Omits e (fetch o e') := .orFail h

theorem validate_omits {fields : List FieldError} (h : ∀ fields, .validation fields ≠ e) :
    Omits e (validate fields) := demand_omits (h fields)

theorem checked_omits {ε : Type} {x : Except ε α} {onError : ε → StoreError}
    (h : ∀ y, onError y ≠ e) : Omits e (checked x onError) := by
  intro f hf
  cases x with
  | ok a => cases hf
  | error y =>
    cases hf
    exact h y

theorem orRefused_omits {x : Except Violation (Table C)} (h : ∀ v, onViolation v ≠ e) :
    Omits e (orRefused name onViolation x) := by
  intro f hf
  obtain ⟨v, -, rfl⟩ := orRefused_eq_error.mp hf
  exact h v

theorem insertRow_omits (h : ∀ v, onViolation v ≠ e) :
    Omits e (insertRow name t r onViolation) := orRefused_omits h

theorem updateOne_omits (h : ∀ v, onViolation v ≠ e) (hconflict : conflict ≠ e) :
    Omits e (updateOne name t p f conflict onViolation) :=
  .bind (orRefused_omits h) fun _ => .bind (.ensure hconflict) fun _ => .pure _

theorem updateReturning_omits (h : ∀ v, onViolation v ≠ e) (hconflict : conflict ≠ e) :
    Omits e (updateReturning name t p f conflict onViolation) :=
  .bind (orRefused_omits h) fun _ => .bind (.orFail hconflict) fun _ => .pure _

end Omitted

end TaskForge

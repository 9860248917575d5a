/-
Claims that overlap (`Claim`).

A claim is not one statement. It pre-reads its identity without a lock; it waits
for an advisory lock on the identity and for the rows of its queue and its session;
it reads the identity again; and only then does it count, select and write. Two
claims of one identity may name different queues and sessions, and then share no
row lock: what keeps them apart is the advisory lock, whose key is a hash of the
identity, and what the second one reads under it.

The race is a step relation over the database and the calls in flight. A call in
flight has pre-read, or holds its locks and has found its identity new. Between any
two of its steps other transactions commit and other claims take theirs; a call may
also be lost at any point. What a lock means is said where it matters: no two calls
hold locks that contend, and no transaction rewrites a session row that is held.

`RaceStep.serial` says that the race is no more than a run of whole transactions:
each step that answers is the transaction itself, at that moment.
-/
import TaskForge.ClaimIdentity
import TaskForge.Renewal

open Relational Fallible Runs

namespace TaskForge

/-! ## The race -/

/-- A claim in flight, and the rows it holds once it has its locks. -/
structure InFlight where
  env : Env
  scope : String
  req : ClaimRequest
  locked : Option (Queue × WorkerSession)

/-- The database, and the claims in flight. -/
structure Race where
  world : World
  procs : ℕ → Option InFlight

/-- Two claims want a lock in common: the advisory lock of their identities, whose
key is a 64-bit hash, their queue, or their session. -/
def Contend (key : UUID → BitVec 64) (p q : InFlight) : Prop :=
  key p.req.claimRequestID = key q.req.claimRequestID ∨ p.req.queue = q.req.queue ∨
    p.req.sessionID = q.req.sessionID

/-- The label of an answered claim. -/
def InFlight.label (p : InFlight) (outcome : Except Failure Answer) : Label :=
  ⟨⟨p.env, .claim p.scope p.req⟩, outcome⟩

/-- The locks `p` waits for are free. -/
def Race.free (key : UUID → BitVec 64) (r : Race) (p : InFlight) : Prop :=
  ∀ m q, r.procs m = some q → q.locked.isSome = true → ¬ Contend key p q

/-- One step of the race. -/
inductive RaceStep (key : UUID → BitVec 64) : Race → Option Label → Race → Prop where
  /-- The call is refused before it begins. -/
  | turnedAway {r : Race} {p : InFlight} {f : Failure} (clock : r.world.clock ≤ p.env.clock.s₀)
      (preflight : claimPreflight p.env p.scope p.req r.world.db = .error f) :
      RaceStep key r (some (p.label (.error f))) ⟨⟨r.world.db, p.env.clock.s₂⟩, r.procs⟩
  /-- It has pre-read, and begins. -/
  | begun {r : Race} {n : ℕ} {p : InFlight} (idle : r.procs n = none) (unlocked : p.locked = none)
      (preflight : claimPreflight p.env p.scope p.req r.world.db = .ok ()) :
      RaceStep key r none ⟨r.world, Function.update r.procs n (some p)⟩
  /-- Its queue or its session turns out not to be there. -/
  | rejected {r : Race} {n : ℕ} {p : InFlight} {f : Failure} (proc : r.procs n = some p)
      (unlocked : p.locked = none) (free : r.free key p) (clock : r.world.clock ≤ p.env.clock.s₀)
      (locks : claimLocks p.scope p.req r.world.db = .error f) :
      RaceStep key r (some (p.label (.error f)))
        ⟨⟨r.world.db, p.env.clock.s₂⟩, Function.update r.procs n none⟩
  /-- It has its locks, and finds that its identity has been answered. -/
  | answered {r : Race} {n : ℕ} {p : InFlight} {rows : Queue × WorkerSession} {x : Assignment}
      (proc : r.procs n = some p) (unlocked : p.locked = none) (free : r.free key p)
      (clock : r.world.clock ≤ p.env.clock.s₀)
      (locks : claimLocks p.scope p.req r.world.db = .ok rows)
      (found : lookupClaim r.world.db p.req.claimRequestID = some x) :
      RaceStep key r (some (p.label (claimOutcome
          (claimRead p.env p.scope p.req rows.1 rows.2 r.world.db (some x)))))
        ⟨⟨r.world.db, p.env.clock.s₂⟩, Function.update r.procs n none⟩
  /-- It has its locks, and finds its identity new. -/
  | locked {r : Race} {n : ℕ} {p : InFlight} {rows : Queue × WorkerSession}
      (proc : r.procs n = some p) (unlocked : p.locked = none) (free : r.free key p)
      (locks : claimLocks p.scope p.req r.world.db = .ok rows)
      (new : lookupClaim r.world.db p.req.claimRequestID = none) :
      RaceStep key r none
        ⟨r.world, Function.update r.procs n (some { p with locked := some rows })⟩
  /-- It decides on the rows it holds, and commits. -/
  | committed {r : Race} {n : ℕ} {p : InFlight} {rows : Queue × WorkerSession}
      {result : ClaimResult} {db : DB} (proc : r.procs n = some p) (held : p.locked = some rows)
      (clock : r.world.clock ≤ p.env.clock.s₀)
      (run : claimFresh p.env p.scope p.req rows.1 rows.2 r.world.db = .ok (result, db)) :
      RaceStep key r (some (p.label (.ok (.claimed result))))
        ⟨⟨db, p.env.clock.s₂⟩, Function.update r.procs n none⟩
  /-- It decides, and is rolled back. -/
  | failed {r : Race} {n : ℕ} {p : InFlight} {rows : Queue × WorkerSession} {f : Failure}
      (proc : r.procs n = some p) (held : p.locked = some rows)
      (clock : r.world.clock ≤ p.env.clock.s₀)
      (run : claimFresh p.env p.scope p.req rows.1 rows.2 r.world.db = .error f) :
      RaceStep key r (some (p.label (.error f)))
        ⟨⟨r.world.db, p.env.clock.s₂⟩, Function.update r.procs n none⟩
  /-- It is lost, and its locks with it. -/
  | crashed {r : Race} {n : ℕ} : RaceStep key r none ⟨r.world, Function.update r.procs n none⟩
  /-- Another transaction commits or is refused. It waits for the session rows that
  are held. -/
  | other {r : Race} {l : Label} {w : World} (step : Step r.world l w)
      (call : ∀ scope req, l.request.call ≠ .claim scope req)
      (waits : ∀ n p rows, r.procs n = some p → p.locked = some rows → rows.2 ∈ w.db.sessions.rows) :
      RaceStep key r (some l) ⟨w, r.procs⟩

/-! ## Claim identities in the tables -/

/-- The identities claimed so far. -/
def DB.claims (db : DB) : List UUID := db.leases.rows.map Lease.claimRequestID

/-- The call created the attempt and the lease of the identity. -/
def Label.assigns (claimID : UUID) (l : Label) : Bool :=
  match l.request.call, l.outcome with
  | .claim _ req, .ok (.claimed r) =>
    req.claimRequestID == claimID && (r.disposition == .claimed && !r.replayed)
  | _, _ => false

section Claims

variable {env : Env} {db db' : DB} {w w' : World} {l : Label} {claimID : UUID}

theorem Writes.Applied.claims_keep {writes : Writes} (h : writes.Applied db db')
    (hw : writes.lease = .keep) : db'.claims = db.claims := by
  unfold DB.claims
  rw [h.leases, hw]
  rfl

theorem Writes.Applied.claims_replace {writes : Writes} (h : writes.Applied db db') {m m' : Lease}
    (hw : writes.lease = .replace m m') (hid : m'.claimRequestID = m.claimRequestID) :
    db'.claims = db.claims := by
  unfold DB.claims
  rw [h.leases, hw]
  exact map_replaceRow Lease.claimRequestID hid _

theorem SessionsOnly.claims (h : SessionsOnly db db') : db'.claims = db.claims := by
  unfold DB.claims
  rw [h.leases]

theorem Verdict.claims {scope : String} {j : Job} {a : JobAttempt} {m : Lease} {writes : Writes}
    (h : Verdict env scope j a m writes) (happ : writes.Applied db db') :
    db'.claims = db.claims := by
  cases h with
  | canceled | timedOut | abandoned => exact happ.claims_replace rfl rfl

/-- A call other than a claim uses no identity. -/
theorem Commit.claims_of_not_claim {call : Call} (h : Commit env db db' call)
    (hcall : ∀ scope req, call ≠ .claim scope req) : db'.claims = db.claims := by
  cases h with
  | unchanged call same => rw [same]
  | registered scope registration reg wid valid only => exact only.claims
  | beat scope req s session scope_eq healthy moved => exact moved.only.claims
  | staled s staleAfter stale moved => exact moved.only.claims
  | wrote call id writes performs applied =>
    cases performs with
    | submit | replay | cancel | promote | renotify => exact applied.claims_keep rfl
    | claim scope req => exact absurd rfl (hcall scope req)
    | start => exact applied.claims_keep rfl
    | renew | succeed | fail | acknowledge | timeOut => exact applied.claims_replace rfl rfl
    | expire stats s j a m w binding lapsed verdict => exact verdict.claims applied

/-- **A step uses an identity exactly when it answers a claim of it with a new
assignment.** -/
theorem Step.claims_count (hs : Step w l w') :
    w'.db.claims.count claimID = w.db.claims.count claimID + if l.assigns claimID then 1 else 0 := by
  cases hs with
  | @refused req f clock run => simp [Label.assigns]
  | @committed req ans db clock run =>
    by_cases hcall : ∃ scope claimReq, req.call = .claim scope claimReq
    · obtain ⟨scope, claimReq, hclaim⟩ := hcall
      rw [hclaim] at run
      obtain ⟨r, hr, rfl⟩ := answering_eq_ok.mp run
      obtain ⟨-, ⟨rfl, hreplayed⟩ | ⟨s, j, hready, rfl, happ⟩⟩ := claim_eq_ok hr
      · -- Nothing written: the answer is not a new assignment.
        have hno : Label.assigns claimID ⟨req, .ok (.claimed r)⟩ = false := by
          unfold Label.assigns
          rw [hclaim]
          by_cases hd : r.disposition = .claimed
          · simp [hd, hreplayed hd]
          · simp [hd]
        rw [hno]
        rfl
      · have hclaims : db.claims = w.db.claims ++ [claimReq.claimRequestID] := by
          unfold DB.claims
          rw [happ.leases]
          exact List.map_append
        have hyes : Label.assigns claimID ⟨req, .ok (.claimed ⟨.claimed, some (claimedAssignment
            req.env scope claimReq (nextAttemptNumber w.db j.id) j), false⟩)⟩
            = (claimReq.claimRequestID == claimID) := by
          unfold Label.assigns
          rw [hclaim]
          simp
        rw [hyes]
        show db.claims.count claimID = _
        rw [hclaims, List.count_append, List.count_singleton]
    · have hno : Label.assigns claimID ⟨req, .ok ans⟩ = false := by
        unfold Label.assigns
        split
        · next scope claimReq r hreq _ => exact absurd ⟨scope, claimReq, hreq⟩ hcall
        · rfl
      rw [hno]
      show db.claims.count claimID = _
      rw [(Call.commit run).claims_of_not_claim fun scope claimReq heq => hcall ⟨scope, claimReq, heq⟩]
      rfl

/-- An identity is used at most once: the index on it is unique. -/
theorem claims_count_le (db : DB) (claimID : UUID) : db.claims.count claimID ≤ 1 := by
  unfold DB.claims
  rw [List.count_eq_countP, List.countP_map]
  refine db.leases.countP_le_one fun l m hl hm => ?_
  simp only [Function.comp_apply, beq_iff_eq] at hl hm
  have hclaim : sameKey Lease.claimKey l m = true :=
    sameKey_eq_true.mpr ⟨claimID, by rw [Lease.claimKey, hl], by rw [Lease.claimKey, hm]⟩
  simp [leases, hclaim]

/-- Nothing takes a lease out of its table, or rewrites whose it is and which
identity it answered. -/
theorem Step.lease_traced (hs : Step w l w') {m : Lease} (hm : m ∈ w.db.leases.rows) :
    ∃ m' ∈ w'.db.leases.rows, m'.id = m.id ∧ m'.binding = m.binding ∧
      m'.claimRequestID = m.claimRequestID := by
  obtain ⟨m', hm', rfl | ⟨status, rfl⟩ | ⟨id, rfl⟩⟩ := hs.lease_becomes hm
  all_goals exact ⟨_, hm', rfl, rfl, rfl⟩

end Claims

/-! ## The race is a run of transactions -/

/-- What holds of every state of the race. -/
structure RaceSound (key : UUID → BitVec 64) (r : Race) : Prop where
  sound : Sound r.world
  checked : ∀ {n p}, r.procs n = some p → validateClaim p.req = [] ∧ 0 < p.env.leaseDuration
  /-- The rows a call holds are as it read them, and its identity is still new. -/
  held : ∀ {n p rows}, r.procs n = some p → p.locked = some rows →
    claimLocks p.scope p.req r.world.db = .ok rows ∧
      lookupClaim r.world.db p.req.claimRequestID = none
  exclusive : ∀ {m n p q}, r.procs m = some p → r.procs n = some q → m ≠ n →
    p.locked.isSome = true → q.locked.isSome = true → ¬ Contend key p q

/-- Two outcomes that agree: the same answer, or two refusals. -/
def SameAnswer (x y : Except Failure Answer) : Prop :=
  x = y ∨ ((∃ f, x = .error f) ∧ ∃ f, y = .error f)

section Serial

variable {key : UUID → BitVec 64} {r r' : Race} {o : Option Label} {p : InFlight}
variable {db : DB} {rows : Queue × WorkerSession} {w : World}

/-- A call that passed its checks and is refused under its locks is refused as a
whole, though perhaps for another reason: the pre-read is made again. -/
theorem claim_refused {f : Failure} (hlocks : claimLocks p.scope p.req db = .error f) :
    ∃ f', claim p.env p.scope p.req db = .error f' := by
  rw [claim_eq]
  cases hpre : claimPreflight p.env p.scope p.req db with
  | error g => exact ⟨g, rfl⟩
  | ok u => exact ⟨f, by rw [ok_bind, hlocks]; rfl⟩

theorem claimPreflight_of_new (hvalid : validateClaim p.req = []) (hdur : 0 < p.env.leaseDuration)
    (hnew : lookupClaim db p.req.claimRequestID = none) :
    claimPreflight p.env p.scope p.req db = .ok () := by
  refine claimPreflight_eq_ok.mpr ⟨hvalid, hdur, fun x hx => ?_⟩
  rw [hnew] at hx
  cases hx

/-- The decision on a new identity is the transaction itself. -/
theorem claim_of_held (hvalid : validateClaim p.req = []) (hdur : 0 < p.env.leaseDuration)
    (hlocks : claimLocks p.scope p.req db = .ok rows)
    (hnew : lookupClaim db p.req.claimRequestID = none) :
    claim p.env p.scope p.req db = claimFresh p.env p.scope p.req rows.1 rows.2 db := by
  rw [claim_eq, claimPreflight_of_new hvalid hdur hnew, ok_bind, hlocks, ok_bind, hnew]
  rfl

/-- A serial step from the outcome of a claim that writes nothing. -/
theorem Step.of_claim {x : Tx (ClaimResult × DB)} (hclock : w.clock ≤ p.env.clock.s₀)
    (hrun : claim p.env p.scope p.req w.db = x)
    (hsame : (∃ result, x = .ok (result, w.db)) ∨ ∃ f, x = .error f) :
    Step w (p.label (claimOutcome x)) ⟨w.db, p.env.clock.s₂⟩ := by
  rcases hsame with ⟨result, rfl⟩ | ⟨f, rfl⟩
  · exact .committed hclock (answering_eq_ok.mpr ⟨result, hrun, rfl⟩)
  · exact .refused hclock (answering_eq_error.mpr hrun)

/-- A known identity answered under the locks: the transaction gives the same
answer, or refuses as well. -/
theorem RaceSound.answered_serial (h : RaceSound key r) {n : ℕ} (hproc : r.procs n = some p)
    (hclock : r.world.clock ≤ p.env.clock.s₀) {x : Assignment}
    (hlocks : claimLocks p.scope p.req r.world.db = .ok rows)
    (hfound : lookupClaim r.world.db p.req.claimRequestID = some x) :
    ∃ y, Step r.world (p.label y) ⟨r.world.db, p.env.clock.s₂⟩ ∧
      SameAnswer y (claimOutcome
        (claimRead p.env p.scope p.req rows.1 rows.2 r.world.db (some x))) := by
  obtain ⟨hvalid, hdur⟩ := h.checked hproc
  have hread := claimRead_some p.env p.scope p.req rows.1 rows.2 r.world.db x
  by_cases hmatch : x.scope = p.scope ∧ x.queue = p.req.queue
  · have hpre : claimPreflight p.env p.scope p.req r.world.db = .ok () := by
      refine claimPreflight_eq_ok.mpr ⟨hvalid, hdur, fun y hy => ?_⟩
      rw [hfound, Option.some.injEq] at hy
      exact hy ▸ hmatch
    have hrun : claim p.env p.scope p.req r.world.db
        = claimRead p.env p.scope p.req rows.1 rows.2 r.world.db (some x) := by
      rw [claim_eq, hpre, ok_bind, hlocks, ok_bind, hfound]
    refine ⟨_, Step.of_claim hclock hrun ?_, .inl rfl⟩
    rcases hread with hok | herr
    · exact .inl hok
    · exact .inr ⟨_, herr⟩
  · -- Another scope or queue: refused at the pre-read, and again under the locks.
    have hall : ((lookupClaim r.world.db p.req.claimRequestID).all fun existing =>
        existing.scope == p.scope && existing.queue == p.req.queue) = false := by
      rw [hfound]
      simpa using hmatch
    have hconflict : claim p.env p.scope p.req r.world.db = .error ⟨.claimConflict, .check⟩ := by
      simp only [claim, validate, demand, ensure, hvalid, hall, decide_eq_true hdur]
      rfl
    refine ⟨_, Step.of_claim hclock hconflict (.inr ⟨_, rfl⟩), .inr ⟨⟨_, rfl⟩, ?_⟩⟩
    have hread' : claimRead p.env p.scope p.req rows.1 rows.2 r.world.db (some x)
        = .error ⟨.claimConflict, .check⟩ := by
      rw [hfound, Option.all_some] at hall
      simp only [claimRead, demand, ensure, hall]
      rfl
    rw [hread']
    exact ⟨_, rfl⟩

/-- **Each step of the race is a transaction, or leaves the database alone.** -/
theorem RaceStep.serial (hs : RaceStep key r o r') (h : RaceSound key r) :
    (o = none ∧ r'.world = r.world) ∨
      ∃ x y, o = some x ∧ Step r.world y r'.world ∧ y.request = x.request ∧
        SameAnswer y.outcome x.outcome := by
  cases hs with
  | @turnedAway p f clock preflight =>
    have hrun : claim p.env p.scope p.req r.world.db = .error f := by
      rw [claim_eq, preflight, error_bind]
    exact .inr ⟨_, _, rfl, Step.of_claim clock hrun (.inr ⟨f, rfl⟩), rfl, .inl rfl⟩
  | begun => exact .inl ⟨rfl, rfl⟩
  | @rejected n p f proc unlocked free clock locks =>
    obtain ⟨f', hrun⟩ := claim_refused locks
    exact .inr ⟨_, _, rfl, Step.of_claim clock hrun (.inr ⟨f', rfl⟩), rfl,
      .inr ⟨⟨f', rfl⟩, f, rfl⟩⟩
  | @answered n p rows x proc unlocked free clock locks found =>
    obtain ⟨y, hstep, hsame⟩ := h.answered_serial proc clock locks found
    exact .inr ⟨_, _, rfl, hstep, rfl, hsame⟩
  | locked => exact .inl ⟨rfl, rfl⟩
  | @committed n p rows result db proc held clock run =>
    obtain ⟨hvalid, hdur⟩ := h.checked proc
    obtain ⟨hlocks, hnew⟩ := h.held proc held
    rw [← claim_of_held hvalid hdur hlocks hnew] at run
    have hstep : Step r.world (p.label (.ok (.claimed result))) ⟨db, p.env.clock.s₂⟩ :=
      .committed clock (answering_eq_ok.mpr ⟨result, run, rfl⟩)
    exact .inr ⟨_, _, rfl, hstep, rfl, .inl rfl⟩
  | @failed n p rows f proc held clock run =>
    obtain ⟨hvalid, hdur⟩ := h.checked proc
    obtain ⟨hlocks, hnew⟩ := h.held proc held
    rw [← claim_of_held hvalid hdur hlocks hnew] at run
    exact .inr ⟨_, _, rfl, Step.of_claim clock run (.inr ⟨f, rfl⟩), rfl, .inl rfl⟩
  | crashed => exact .inl ⟨rfl, rfl⟩
  | @other l w step call waits => exact .inr ⟨l, l, rfl, step, rfl, .inl rfl⟩

theorem RaceStep.sound (hs : RaceStep key r o r') (h : RaceSound key r) : Sound r'.world := by
  rcases hs.serial h with ⟨-, hsame⟩ | ⟨x, y, -, hstep, -⟩
  · rw [hsame]
    exact h.sound
  · exact hstep.sound h.sound

/-- What a held call read stays true in a database with the same queues, its session
row, and its identity still new. -/
theorem held_later {w' : World} (hsound : Sound w)
    (hlocks : claimLocks p.scope p.req w.db = .ok rows)
    (hnew : lookupClaim w.db p.req.claimRequestID = none) (hqueues : w'.db.queues = w.db.queues)
    (hsession : rows.2 ∈ w'.db.sessions.rows)
    (hclaims : ∀ id ∈ w'.db.claims, id ∈ w.db.claims ∨ id ≠ p.req.claimRequestID) :
    claimLocks p.scope p.req w'.db = .ok rows ∧
      lookupClaim w'.db p.req.claimRequestID = none := by
  obtain ⟨hq, hqn, -, hrest⟩ := claimLocks_eq_ok.mp hlocks
  refine ⟨claimLocks_eq_ok.mpr ⟨hqueues ▸ hq, hqn, hsession, hrest⟩, ?_⟩
  refine lookupClaim_eq_none fun l hl hid => ?_
  rcases hclaims l.claimRequestID (List.mem_map_of_mem hl) with hold | hne
  · obtain ⟨m, hm, hmid⟩ := List.mem_map.mp hold
    exact hsound.unclaimed hnew m hm (hmid.trans hid)
  · exact hne hid

/-- Giving up or answering a call leaves the others as they were. -/
theorem RaceSound.release (h : RaceSound key r) (n : ℕ) (hsound : Sound w)
    (hdb : w.db = r.world.db) : RaceSound key ⟨w, Function.update r.procs n none⟩ := by
  have hother : ∀ {m q}, Function.update r.procs n none m = some q → r.procs m = some q := by
    intro m q hq
    rcases update_eq_some.mp hq with ⟨-, hq⟩ | ⟨-, hq⟩
    · cases hq
    · exact hq
  refine ⟨hsound, fun hq => h.checked (hother hq), fun hq hl => ?_, fun hp hq hne hl hl' => ?_⟩
  · rw [hdb]
    exact h.held (hother hq) hl
  · exact h.exclusive (hother hp) (hother hq) hne hl hl'

/-- **Every step keeps what the locks promise.** -/
theorem RaceStep.raceSound (hs : RaceStep key r o r') (h : RaceSound key r) :
    RaceSound key r' := by
  have hsound := hs.sound h
  cases hs with
  | turnedAway => exact ⟨hsound, h.checked, h.held, h.exclusive⟩
  | @begun n p idle unlocked preflight =>
    obtain ⟨hvalid, hdur, -⟩ := claimPreflight_eq_ok.mp preflight
    -- The new call holds nothing, so whatever is held is held by another.
    have hheld : ∀ {m q}, Function.update r.procs n (some p) m = some q →
        q.locked.isSome = true → r.procs m = some q := by
      intro m q hq hl
      rcases update_eq_some.mp hq with ⟨-, hq⟩ | ⟨-, hq⟩
      · cases hq
        rw [unlocked] at hl
        cases hl
      · exact hq
    refine ⟨hsound, fun hq => ?_, fun hq hl => ?_, fun hp hq hne hl hl' => ?_⟩
    · rcases update_eq_some.mp hq with ⟨-, hq⟩ | ⟨-, hq⟩
      · cases hq
        exact ⟨hvalid, hdur⟩
      · exact h.checked hq
    · exact h.held (hheld hq (by rw [hl]; rfl)) hl
    · exact h.exclusive (hheld hp hl) (hheld hq hl') hne hl hl'
  | rejected | answered => exact h.release _ hsound rfl
  | @locked n p rows proc unlocked free locks new =>
    refine ⟨hsound, fun hq => ?_, fun hq hl => ?_, fun hp hq hne hl hl' => ?_⟩
    · rcases update_eq_some.mp hq with ⟨-, hq⟩ | ⟨-, hq⟩
      · cases hq
        obtain ⟨hvalid, hdur⟩ := h.checked proc
        exact ⟨hvalid, hdur⟩
      · exact h.checked hq
    · rcases update_eq_some.mp hq with ⟨-, hq⟩ | ⟨-, hq⟩
      · cases hq
        cases hl
        exact ⟨locks, new⟩
      · exact h.held hq hl
    · -- The locks it took were free of everyone who holds any.
      rcases update_eq_some.mp hp with ⟨hm, hp⟩ | ⟨-, hp⟩
      · rcases update_eq_some.mp hq with ⟨hn, -⟩ | ⟨-, hq⟩
        · exact absurd (hm.trans hn.symm) hne
        · cases hp
          exact free _ _ hq hl'
      · rcases update_eq_some.mp hq with ⟨-, hq⟩ | ⟨-, hq⟩
        · cases hq
          exact fun hc => free _ _ hp hl (hc.imp Eq.symm (Or.imp Eq.symm Eq.symm))
        · exact h.exclusive hp hq hne hl hl'
  | @committed n p rows result db proc held clock run =>
    obtain ⟨hvalid, hdur⟩ := h.checked proc
    obtain ⟨hlocks, hnew⟩ := h.held proc held
    rw [← claim_of_held hvalid hdur hlocks hnew] at run
    have hother : ∀ {m q}, Function.update r.procs n none m = some q →
        m ≠ n ∧ r.procs m = some q := by
      intro m q hq
      rcases update_eq_some.mp hq with ⟨-, hq⟩ | hq
      · cases hq
      · exact hq
    refine ⟨hsound, fun hq => h.checked (hother hq).2, fun {m q rows'} hq hl => ?_,
      fun hp hq hne hl hl' => h.exclusive (hother hp).2 (hother hq).2 hne hl hl'⟩
    obtain ⟨hmn, hq⟩ := hother hq
    obtain ⟨hlocks', hnew'⟩ := h.held hq hl
    -- It used its own identity, which is not one that another call holds.
    have hne : p.req.claimRequestID ≠ q.req.claimRequestID := by
      intro heq
      refine h.exclusive proc hq (Ne.symm hmn) (by rw [held]; rfl) (by rw [hl]; rfl) (.inl ?_)
      rw [heq]
    obtain ⟨-, ⟨rfl, -⟩ | ⟨s, j, hready, -, happ⟩⟩ := claim_eq_ok run
    · exact ⟨hlocks', hnew'⟩
    · refine held_later h.sound hlocks' hnew' happ.queues ?_ ?_
      · rw [happ.sessions]
        exact (claimLocks_eq_ok.mp hlocks').2.2.1
      · intro id hid
        have hclaims : db.claims = r.world.db.claims ++ [p.req.claimRequestID] := by
          unfold DB.claims
          rw [happ.leases]
          exact List.map_append
        rw [show DB.claims _ = _ from hclaims, List.mem_append, List.mem_singleton] at hid
        rcases hid with hid | rfl
        · exact .inl hid
        · exact .inr hne
  | failed | crashed => exact h.release _ hsound rfl
  | @other l w step call waits =>
    refine ⟨hsound, h.checked, fun {m q rows} hq hl => ?_, h.exclusive⟩
    obtain ⟨hlocks, hnew⟩ := h.held hq hl
    refine held_later h.sound hlocks hnew step.traceable.queues (waits m q rows hq hl) fun id hid => ?_
    rw [step.commit.claims_of_not_claim call] at hid
    exact .inl hid

end Serial

/-! ## Every run is a race -/

/-- No claim is in flight. -/
def idle : ℕ → Option InFlight := fun _ => none

section Runs

variable {key : UUID → BitVec 64} {w w' : World} {l : Label} {trace : List Label}

theorem Race.procs_update (w : World) (procs : ℕ → Option InFlight) (n : ℕ) (p : InFlight) :
    Race.procs ⟨w, Function.update procs n (some p)⟩ n = some p := by
  show Function.update procs n (some p) n = some p
  rw [Function.update_self]

theorem idle_release (n : ℕ) (p : Option InFlight) :
    Function.update (Function.update idle n p) n none = idle := by
  rw [Function.update_idem]
  exact Function.update_eq_self n idle

theorem idle_free (n : ℕ) {p : InFlight} (hp : p.locked = none) (w : World) :
    Race.free key ⟨w, Function.update idle n (some p)⟩ p := by
  intro m q hq hl
  rcases update_eq_some.mp hq with ⟨-, hq⟩ | ⟨-, hq⟩
  · cases hq
    rw [hp] at hl
    cases hl
  · cases hq

/-- A step of a claim, in terms of the transaction's value. -/
theorem Step.claim_value (hs : Step w l w') {scope : String} {req : ClaimRequest}
    (hcall : l.request.call = .claim scope req) :
    w.clock ≤ l.request.env.clock.s₀ ∧
      ((∃ result db, claim l.request.env scope req w.db = .ok (result, db) ∧
          l.outcome = .ok (.claimed result) ∧ w' = ⟨db, l.request.env.clock.s₂⟩) ∨
        ∃ f, claim l.request.env scope req w.db = .error f ∧ l.outcome = .error f ∧
          w' = ⟨w.db, l.request.env.clock.s₂⟩) := by
  cases hs with
  | @committed r ans db clock run =>
    rw [show r.call = .claim scope req from hcall] at run
    obtain ⟨result, hrun, rfl⟩ := answering_eq_ok.mp run
    exact ⟨clock, .inl ⟨result, db, hrun, rfl, rfl⟩⟩
  | @refused r f clock run =>
    rw [show r.call = .claim scope req from hcall] at run
    exact ⟨clock, .inr ⟨f, answering_eq_error.mp run, rfl, rfl⟩⟩

/-- A claim made while no other is in flight, phase by phase. -/
theorem Step.race_claim (hs : Step w l w') {scope : String} {req : ClaimRequest}
    (hcall : l.request.call = .claim scope req) :
    ∃ ls, Run (RaceStep key) ⟨w, idle⟩ ls ⟨w', idle⟩ ∧ ls.filterMap id = [l] := by
  obtain ⟨hclock, hvalue⟩ := hs.claim_value hcall
  obtain ⟨⟨env, call⟩, outcome⟩ := l
  cases hcall
  let p : InFlight := ⟨env, scope, req, none⟩
  -- The claim's value, and what the step makes of it.
  have hend : ∀ x, claim env scope req w.db = x → claimOutcome x = outcome ∧
      ((∃ result, x = .ok (result, w.db)) ∨ (∃ f, x = .error f) → w' = ⟨w.db, env.clock.s₂⟩) := by
    intro x hx
    rcases hvalue with ⟨result, db, hok, rfl, rfl⟩ | ⟨f, herr, rfl, rfl⟩
    · rw [hok] at hx
      subst hx
      refine ⟨rfl, ?_⟩
      rintro (⟨result', heq⟩ | ⟨f, heq⟩)
      · cases heq; rfl
      · cases heq
    · rw [herr] at hx
      subst hx
      exact ⟨rfl, fun _ => rfl⟩
  cases hpre : claimPreflight env scope req w.db with
  | error f =>
    have hrun : claim env scope req w.db = .error f := by rw [claim_eq, hpre, error_bind]
    obtain ⟨rfl, hw⟩ := hend _ hrun
    rw [hw (.inr ⟨f, rfl⟩)]
    exact ⟨[some (p.label (.error f))], .cons (.turnedAway hclock hpre) (.nil _), rfl⟩
  | ok u =>
    have hbegun : RaceStep key ⟨w, idle⟩ none ⟨w, Function.update idle 0 (some p)⟩ :=
      .begun rfl rfl hpre
    have hproc := Race.procs_update w idle 0 p
    have hfree : Race.free key ⟨w, Function.update idle 0 (some p)⟩ p := idle_free 0 rfl w
    cases hlocks : claimLocks scope req w.db with
    | error f =>
      have hrun : claim env scope req w.db = .error f := by
        rw [claim_eq, hpre, ok_bind, hlocks, error_bind]
      obtain ⟨rfl, hw⟩ := hend _ hrun
      have hstep := RaceStep.rejected hproc rfl hfree hclock hlocks
      rw [idle_release] at hstep
      rw [hw (.inr ⟨f, rfl⟩)]
      exact ⟨[none, some (p.label (.error f))], .cons hbegun (.cons hstep (.nil _)), rfl⟩
    | ok rows =>
      cases hfound : lookupClaim w.db req.claimRequestID with
      | some x =>
        have hrun : claim env scope req w.db
            = claimRead env scope req rows.1 rows.2 w.db (some x) := by
          rw [claim_eq, hpre, ok_bind, hlocks, ok_bind, hfound]
        obtain ⟨rfl, hw⟩ := hend _ hrun
        have hstep := RaceStep.answered hproc rfl hfree hclock hlocks hfound
        rw [idle_release] at hstep
        rw [hw ((claimRead_some env scope req rows.1 rows.2 w.db x).imp id fun h => ⟨_, h⟩)]
        exact ⟨[none, some _], .cons hbegun (.cons hstep (.nil _)), rfl⟩
      | none =>
        have hrun : claim env scope req w.db = claimFresh env scope req rows.1 rows.2 w.db := by
          rw [claim_eq, hpre, ok_bind, hlocks, ok_bind, hfound]
          rfl
        let q : InFlight := { p with locked := some rows }
        have hlocked : RaceStep key _ none
            ⟨w, Function.update (Function.update idle 0 (some p)) 0 (some q)⟩ :=
          .locked hproc rfl hfree hlocks hfound
        have hheld := Race.procs_update w (Function.update idle 0 (some p)) 0 q
        rcases hvalue with ⟨result, db, hok, rfl, rfl⟩ | ⟨f, herr, rfl, rfl⟩
        · have hstep : RaceStep key _ (some (q.label (.ok (.claimed result)))) _ :=
            .committed hheld rfl hclock (hrun.symm.trans hok)
          rw [Function.update_idem, idle_release] at hstep
          rw [Function.update_idem] at hlocked
          exact ⟨[none, none, some _], .cons hbegun (.cons hlocked (.cons hstep (.nil _))), rfl⟩
        · have hstep : RaceStep key _ (some (q.label (.error f))) _ :=
            .failed hheld rfl hclock (hrun.symm.trans herr)
          rw [Function.update_idem, idle_release] at hstep
          rw [Function.update_idem] at hlocked
          exact ⟨[none, none, some _], .cons hbegun (.cons hlocked (.cons hstep (.nil _))), rfl⟩

/-- **Every run of transactions is a race**, one in which no two claims overlap. -/
theorem race_of_run (hrun : Execution w trace w') :
    ∃ ls, Run (RaceStep key) ⟨w, idle⟩ ls ⟨w', idle⟩ ∧ ls.filterMap id = trace := by
  induction hrun with
  | nil w => exact ⟨[], .nil _, rfl⟩
  | @cons w w₁ w' l trace head tail ih =>
    obtain ⟨ls, hls, htrace⟩ := ih
    by_cases hcall : ∃ scope req, l.request.call = .claim scope req
    · obtain ⟨scope, req, hcall⟩ := hcall
      obtain ⟨ms, hms, hl⟩ := head.race_claim hcall
      refine ⟨ms ++ ls, hms.append hls, ?_⟩
      rw [List.filterMap_append, hl, htrace]
      rfl
    · refine ⟨some l :: ls, .cons (.other head (fun scope req h => hcall ⟨scope, req, h⟩) ?_) hls, ?_⟩
      · intro n p rows hp
        cases hp
      · rw [List.filterMap_cons, htrace]
        rfl

end Runs

/-! ## The result -/

/-- What a race did with a claim identity, and how it answers it from then on. -/
structure ClaimedOnce (key : UUID → BitVec 64) (trace : List (Option Label)) (r : Race)
    (claimID : UUID) : Prop where
  /-- At most one call created anything for it. -/
  created : trace.countP (Option.any (Label.assigns claimID)) ≤ 1
  lease : ∀ l ∈ r.world.db.leases.rows, ∀ m ∈ r.world.db.leases.rows,
    l.claimRequestID = claimID → m.claimRequestID = claimID → l = m
  attempt : ∀ l ∈ r.world.db.leases.rows, ∀ m ∈ r.world.db.leases.rows,
    l.claimRequestID = claimID → m.claimRequestID = claimID →
    ∀ a ∈ r.world.db.attempts.rows, ∀ b ∈ r.world.db.attempts.rows,
      l.attemptID = a.id → m.attemptID = b.id → a = b
  /-- Whatever happens after the lease was created, a claim of its identity changes
  no row, and an eligible one is answered from the lease. -/
  later : ∀ l ∈ r.world.db.leases.rows, l.claimRequestID = claimID →
    ∀ ls r₁, Run (RaceStep key) r ls r₁ → ∀ x r₂, RaceStep key r₁ (some x) r₂ →
    ∀ scope req, x.request.call = .claim scope req → req.claimRequestID = claimID →
      r₂.world.db = r₁.world.db ∧
        (Eligible scope req r₁.world.db → validateClaim req = [] →
          0 < x.request.env.leaseDuration → AnsweredFrom l scope req x.outcome)

section Result

variable {key : UUID → BitVec 64} {r₀ r r' : Race} {o : Option Label} {x : Label} {l : Lease}
  {scope : String} {req : ClaimRequest}

/-- A pre-read that refuses a valid claim of a known identity has found it under
another scope or queue. -/
theorem Sound.preflight_answered {w : World} (h : Sound w) (hl : l ∈ w.db.leases.rows) {env : Env}
    (hid : req.claimRequestID = l.claimRequestID) (hvalid : validateClaim req = [])
    (hdur : 0 < env.leaseDuration) {f : Failure}
    (hpre : claimPreflight env scope req w.db = .error f) :
    AnsweredFrom l scope req (.error f) := by
  obtain ⟨y, hy, hassigns⟩ := h.lookupClaim_of_lease hl
  rw [← hid] at hy
  have hmismatch : ¬ (scope = l.scope ∧ req.queue = l.queue) := by
    rintro ⟨hsc, hqu⟩
    have hok : claimPreflight env scope req w.db = .ok () := by
      refine claimPreflight_eq_ok.mpr ⟨hvalid, hdur, fun z hz => ?_⟩
      rw [hy, Option.some.injEq] at hz
      rw [← hz, hassigns.scope, hassigns.queue]
      exact ⟨hsc.symm, hqu.symm⟩
    rw [hpre] at hok
    cases hok
  have hf : f = ⟨.claimConflict, .check⟩ := by
    have hall : ((lookupClaim w.db req.claimRequestID).all fun existing =>
        existing.scope == scope && existing.queue == req.queue) = false := by
      rw [hy, Option.all_some, hassigns.scope, hassigns.queue, Bool.and_eq_false_iff]
      by_cases hsc : scope = l.scope
      · exact .inr (beq_eq_false_iff_ne.mpr fun hqu => hmismatch ⟨hsc, hqu.symm⟩)
      · exact .inl (beq_eq_false_iff_ne.mpr (Ne.symm hsc))
    simp only [claimPreflight, validate, demand, ensure, hvalid, hall, decide_eq_true hdur] at hpre
    cases hpre
    rfl
  exact ⟨fun hsc hqu _ => absurd ⟨hsc, hqu⟩ hmismatch, fun hsc hqu _ => absurd ⟨hsc, hqu⟩ hmismatch,
    fun _ => by rw [hf]⟩

/-- **A claim of a known identity writes nothing, whatever phase answers it.** -/
theorem RaceStep.known (hs : RaceStep key r (some x) r') (h : RaceSound key r)
    (hl : l ∈ r.world.db.leases.rows) (hcall : x.request.call = .claim scope req)
    (hid : req.claimRequestID = l.claimRequestID) :
    r'.world.db = r.world.db ∧
      (Eligible scope req r.world.db → validateClaim req = [] → 0 < x.request.env.leaseDuration →
        AnsweredFrom l scope req x.outcome) := by
  obtain ⟨y, hy, hassigns⟩ := h.sound.lookupClaim_of_lease hl
  rw [← hid] at hy
  cases hs with
  | turnedAway clock preflight =>
    cases hcall
    exact ⟨rfl, fun _ hvalid hdur => h.sound.preflight_answered hl hid hvalid hdur preflight⟩
  | rejected proc unlocked free clock locks =>
    cases hcall
    refine ⟨rfl, fun heligible => ?_⟩
    obtain ⟨rows, hrows⟩ := heligible.locks
    rw [locks] at hrows
    cases hrows
  | answered proc unlocked free clock locks found =>
    cases hcall
    refine ⟨rfl, fun _ _ _ => ?_⟩
    rw [hy] at found
    cases found
    exact h.sound.claimRead_answered hl hassigns locks
  | committed proc held clock run | failed proc held clock run =>
    cases hcall
    rw [(h.held proc held).2] at hy
    cases hy
  | other step call waits => exact absurd hcall (call scope req)

/-- A step of the race uses an identity when its label says so. -/
theorem RaceStep.claims_count (hs : RaceStep key r o r') (h : RaceSound key r) (claimID : UUID) :
    r'.world.db.claims.count claimID
      = r.world.db.claims.count claimID + if o.any (Label.assigns claimID) then 1 else 0 := by
  rcases hs.serial h with ⟨rfl, hsame⟩ | ⟨x, y, rfl, hstep, hreq, hans⟩
  · rw [hsame]
    rfl
  · have hassigns : y.assigns claimID = x.assigns claimID := by
      unfold Label.assigns
      rw [hreq]
      rcases hans with heq | ⟨⟨f, hf⟩, f', hf'⟩
      · rw [heq]
      · rw [hf, hf']
        cases x.request.call <;> rfl
    rw [hstep.claims_count, hassigns]
    rfl

/-- The lease of an identity, later in the race. -/
theorem lease_of_race {ls : List (Option Label)} (hrun : Run (RaceStep key) r ls r')
    (h : RaceSound key r) (hl : l ∈ r.world.db.leases.rows) :
    ∃ m ∈ r'.world.db.leases.rows, m.id = l.id ∧ m.binding = l.binding ∧
      m.claimRequestID = l.claimRequestID := by
  have hinv := hrun.invariant (P := fun r => RaceSound key r ∧ ∃ m ∈ r.world.db.leases.rows,
    m.id = l.id ∧ m.binding = l.binding ∧ m.claimRequestID = l.claimRequestID) ?_
    ⟨h, l, hl, rfl, rfl, rfl⟩
  · exact hinv.2
  · rintro r o r' ⟨hr, m, hm, hmid, hbinding, hclaim⟩ hs
    refine ⟨hs.raceSound hr, ?_⟩
    rcases hs.serial hr with ⟨-, hsame⟩ | ⟨x, y, -, hstep, -⟩
    · rw [hsame]
      exact ⟨m, hm, hmid, hbinding, hclaim⟩
    · obtain ⟨m', hm', hid', hbinding', hclaim'⟩ := hstep.lease_traced hm
      exact ⟨m', hm', hid'.trans hmid, hbinding'.trans hbinding, hclaim'.trans hclaim⟩

theorem AnsweredFrom.of_binding {m : Lease} {outcome : Except Failure Answer}
    (h : AnsweredFrom m scope req outcome) (hid : m.id = l.id) (hbinding : m.binding = l.binding) :
    AnsweredFrom l scope req outcome := by
  simp only [Lease.binding, Prod.mk.injEq] at hbinding
  obtain ⟨hattempt, hjob, hscope, hqueue, -, hsession⟩ := hbinding
  refine ⟨?_, ?_, ?_⟩
  · rw [← hscope, ← hqueue, ← hsession, ← hjob, ← hattempt, ← hid]
    exact h.owner
  · rw [← hscope, ← hqueue, ← hsession]
    exact h.duplicate
  · rw [← hscope, ← hqueue]
    exact h.conflict

/-- **Claim identity is global.** However claims overlap, an identity is used at
most once, and from then on it is answered from the lease it created. -/
theorem claim_identity_global (hinit : Initial r₀.world) (hidle : r₀.procs = idle)
    {trace : List (Option Label)} (hrun : Run (RaceStep key) r₀ trace r) (claimID : UUID) :
    ClaimedOnce key trace r claimID := by
  have hstart : RaceSound key r₀ := by
    refine ⟨hinit.sound, ?_, ?_, ?_⟩
    · intro n p hp
      rw [hidle] at hp
      cases hp
    · intro n p rows hp
      rw [hidle] at hp
      cases hp
    · intro m n p q hp
      rw [hidle] at hp
      cases hp
  have hsound : RaceSound key r := hrun.invariant (fun h hs => hs.raceSound h) hstart
  refine ⟨?_, ?_, ?_, ?_⟩
  · have hcount := hrun.count (P := RaceSound key) (f := fun r => r.world.db.claims.count claimID)
      (fun h hs => hs.raceSound h) (fun h hs => hs.claims_count h claimID) hstart
    have hle := claims_count_le r.world.db claimID
    omega
  · intro l hl m hm hlid hmid
    exact r.world.db.lease_eq_of_claim hl hm (hlid.trans hmid.symm)
  · intro l hl m hm hlid hmid a ha b hb hla hmb
    have hlm := r.world.db.lease_eq_of_claim hl hm (hlid.trans hmid.symm)
    rw [hlm] at hla
    exact r.world.db.attempt_eq_of_id ha hb (hla.symm.trans hmb)
  · intro l hl hlid ls r₁ hls x r₂ hstep scope req hcall hreq
    have hsound₁ : RaceSound key r₁ := hls.invariant (fun h hs => hs.raceSound h) hsound
    obtain ⟨m, hm, hmid, hbinding, hclaim⟩ := lease_of_race hls hsound hl
    obtain ⟨hsame, hanswer⟩ := hstep.known hsound₁ hm hcall
      (by rw [hreq, hclaim, hlid])
    exact ⟨hsame, fun he hv hd => (hanswer he hv hd).of_binding hmid hbinding⟩

end Result

/-- The sample claim, made twice by its owner. -/
def sampleReclaim : List Request :=
  sampleStart ++ [⟨envAt 5 12 13, .claim "tenant" ⟨1, 7, 6, "default"⟩⟩]

theorem claim_identity_global_sample :
    ∃ ls r, Run (RaceStep fun _ => 0) ⟨quiet, idle⟩ ls r ∧
      ls.filterMap id = (quiet.exec sampleReclaim).1 ∧
      (quiet.exec sampleReclaim).1.countP (Label.assigns 6) = 1 ∧
      ClaimedOnce (fun _ => 0) ls r 6 := by
  obtain ⟨ls, hls, htrace⟩ := race_of_run (World.exec_run
    (by decide +kernel : Clocked quiet.clock sampleReclaim))
  exact ⟨ls, _, hls, htrace, by decide +kernel, claim_identity_global quiet_initial rfl hls 6⟩

end TaskForge

/-
What a worker may conclude from the answers it gets.

A worker has no database. It takes a positive window in a claim's answer for authority
to execute, and the two errors of `isSessionLost` for the end of its process.

The second conclusion is sound. The rows a fence names stay where they are, whatever
becomes of the job, so the only thing that can stop matching is the health of the
session; and a session stops being healthy only when a registration replaces it or the
reconciler finds it stale (`session_loss_sound`).

The first is not. `RenewLease` validates current authority before it recognises a
replay; `Claim` reads the lease of a replay without its status, and answers with what is
left of `expires_at` even if the lease was completed, released or expired
(`claim_grants_live_iff`).
-/
import TaskForge.AuthoritySafety
import TaskForge.ClaimIdentity
import TaskForge.Recovery
import TaskForge.SessionLife

open Relational Fallible Runs

namespace TaskForge

/-! ## The window of a claim -/

/-- The lease of an assignment is active, and lasts as long as the assignment says. -/
structure GrantsLive (db : DB) (now : Int) (x : Assignment) : Prop where
  lease : ∃ m ∈ db.leases.rows, m.id = x.leaseID ∧ m.status = .active ∧
    x.leaseRemaining ≤ goTime m.expiresAt - goTime now

/-- A lease that was issued under the claim's identity is still active, and if there is
none, the duration of the one that is issued is a whole number of microseconds. -/
structure ClaimLive (env : Env) (req : ClaimRequest) (db : DB) : Prop where
  replayed : ∀ m ∈ db.leases.rows, m.claimRequestID = req.claimRequestID → m.status = .active
  fresh : (∀ m ∈ db.leases.rows, m.claimRequestID ≠ req.claimRequestID) →
    env.leaseDuration % 1000 = 0

section Grants

variable {db : DB} {env : Env} {w w' : World} {l : Label} {scope : String} {req : ClaimRequest}

/-- A replay grants what its lease still is. -/
theorem grantsLive_replayed {now : Int} {x : Assignment} {m : Lease} (hm : m ∈ db.leases.rows)
    (hid : x.leaseID = m.id) (hexpires : x.leaseExpiresAt = m.expiresAt)
    (hpos : 0 < remainingUntil x.leaseExpiresAt now) :
    GrantsLive db now { x with leaseRemaining := remainingUntil x.leaseExpiresAt now } ↔
      m.status = .active := by
  constructor
  · rintro ⟨m', hm', hid', hactive, -⟩
    exact db.lease_eq_of_id hm' hm (hid'.trans hid) ▸ hactive
  · intro hactive
    refine ⟨m, hm, hid.symm, hactive, ?_⟩
    show remainingUntil x.leaseExpiresAt now ≤ _
    rw [hexpires] at hpos ⊢
    unfold remainingUntil at hpos ⊢
    split_ifs at hpos ⊢
    · omega
    · exact le_rfl

/-- A new lease lasts as long as the answer says if storage can hold its expiry. -/
theorem grantsLive_fresh {number : ℕ} {j : Job}
    (hmem : claimedLease env scope req j ∈ db.leases.rows) :
    GrantsLive db env.clock.s₁ (claimedAssignment env scope req number j) ↔
      env.leaseDuration % 1000 = 0 := by
  have hwindow : env.leaseDuration ≤
      goTime (leaseExpiry env env.clock.s₁) - goTime env.clock.s₁ ↔ env.leaseDuration % 1000 = 0 := by
    unfold leaseExpiry goTime storeTime
    omega
  constructor
  · rintro ⟨m', hm', hid, -, hremaining⟩
    obtain rfl := db.lease_eq_of_id hm' hmem hid
    exact hwindow.mp hremaining
  · intro hwhole
    exact ⟨_, hmem, rfl, rfl, hwindow.mpr hwhole⟩

/-- **What a claim grants.** Whenever a claim is answered with an assignment and a
positive window, first-time or as a replay, the lease of the assignment is active at the
call's clock sample and lasts as long as the window exactly if a lease that was issued
under the claim's identity before is still active, and a new one has a duration of whole
microseconds. -/
theorem claim_grants_live_iff {r : ClaimResult} {x : Assignment} (hw : Reachable w)
    (hs : Step w l w') (hcall : l.request.call = .claim scope req)
    (hans : l.outcome = .ok (.claimed r)) (hassigned : r.assignment = some x)
    (hpos : 0 < x.leaseRemaining) :
    GrantsLive w'.db l.request.env.clock.s₁ x ↔ ClaimLive l.request.env req w.db := by
  obtain ⟨-, hclaiming⟩ := claim_answer (hs.claimed hcall hans)
  generalize w'.db = db' at hclaiming ⊢
  cases hclaiming with
  | replayed y found =>
    obtain ⟨m, hm, hmid, hid, hexpires, -⟩ := lookupClaim_eq_some found
    cases hassigned
    rw [grantsLive_replayed hm hid hexpires hpos]
    constructor
    · intro hactive
      refine ⟨fun m' hm' hid' => ?_, fun hnone => absurd hmid (hnone m hm)⟩
      exact w.db.lease_eq_of_claim hm' hm (hid'.trans hmid.symm) ▸ hactive
    · intro hlive
      exact hlive.replayed m hm hmid
  | assigned s j _ ready applied =>
    cases hassigned
    have hunclaimed := hw.sound.unclaimed ready.unclaimed
    have hmem : claimedLease l.request.env scope req j ∈ db'.leases.rows := by
      rw [applied.leases]
      exact List.mem_concat_self
    rw [grantsLive_fresh hmem]
    exact ⟨fun hwhole => ⟨fun m hm hid => absurd hid (hunclaimed m hm), fun _ => hwhole⟩,
      fun hlive => hlive.fresh hunclaimed⟩
  | _ => cases hassigned

end Grants

/-- The claim of the sample run, asked again. -/
def sampleSecondClaim : Request := ⟨envAt 6 0 0, .claim "tenant" ⟨1, 7, 6, "default"⟩⟩

/-- Its answer. -/
def sampleSecondClaimed : Assignment where
  scope := "tenant"
  jobID := 2
  queue := "default"
  jobType := "email"
  payload := "\x7b\x7d"
  priority := 5
  timeoutSeconds := 60
  requiredCapabilities := []
  attemptID := 4
  attemptNumber := 1
  leaseID := 5
  leaseExpiresAt := 30000003
  leaseRemaining := 29999997000
  workerID := 1
  sessionID := 7

/-- While the attempt runs, its claim is answered again with its live window. -/
theorem claim_grants_live_running :
    ((quiet.exec sampleStart).2.step sampleSecondClaim).1.outcome =
      .ok (.claimed ⟨.claimed, some sampleSecondClaimed, true⟩) ∧
    GrantsLive ((quiet.exec sampleStart).2.step sampleSecondClaim).2.db 6 sampleSecondClaimed := by
  obtain ⟨hclock, hout, hlive⟩ : (quiet.exec sampleStart).2.clock ≤ 6 ∧
      ((quiet.exec sampleStart).2.step sampleSecondClaim).1.outcome =
        .ok (.claimed ⟨.claimed, some sampleSecondClaimed, true⟩) ∧
      (quiet.exec sampleStart).2.db.leases.rows.all (fun m =>
        m.status == .active && m.claimRequestID == 6) = true ∧
        (quiet.exec sampleStart).2.db.leases.rows ≠ [] := by decide +kernel
  refine ⟨hout, ?_⟩
  have hgrants := claim_grants_live_iff (quiet_reachable (by decide)) (World.step_step _ hclock)
    (show _ = Call.claim "tenant" ⟨1, 7, 6, "default"⟩ by rw [World.step_request]; rfl) hout rfl
    (by decide)
  rw [World.step_request] at hgrants
  refine hgrants.mpr ⟨fun m hm _ => ?_, fun _ => rfl⟩
  have hm' := List.all_eq_true.mp hlive.1 m hm
  rw [Bool.and_eq_true, beq_iff_eq] at hm'
  exact hm'.1

/-- After the attempt has failed and its lease was released, its claim is answered again
as claimed, with almost the whole window. -/
theorem released_lease_granted :
    Reachable (quiet.exec (sampleStart ++ [sampleFail])).2 ∧
    ((quiet.exec (sampleStart ++ [sampleFail])).2.step sampleSecondClaim).1.outcome =
      .ok (.claimed ⟨.claimed, some sampleSecondClaimed, true⟩) ∧
    0 < sampleSecondClaimed.leaseRemaining ∧
    (∀ m ∈ ((quiet.exec (sampleStart ++ [sampleFail])).2.step sampleSecondClaim).2.db.leases.rows,
      m.id = sampleSecondClaimed.leaseID → m.status = .released) ∧
    ∃ j ∈ ((quiet.exec (sampleStart ++ [sampleFail])).2.step sampleSecondClaim).2.db.jobs.rows,
      j.id = 2 ∧ j.status = .retryWait :=
  ⟨quiet_reachable (by decide), by decide +kernel⟩

/-! ## The errors that end a process -/

/-- `isSessionLost`, on the errors of the store. -/
def isSessionLost (e : StoreError) : Bool := e == .sessionUnavailable || e == .fenceRejected

/-- The worker and the session a claim or a heartbeat is made by, with its scope. -/
def Call.session? : Call → Option (String × UUID × UUID)
  | .heartbeat scope req => some (scope, req.workerID, req.sessionID)
  | .claim scope req => some (scope, req.workerID, req.sessionID)
  | _ => none

section Omitted

variable {e e' : StoreError} {env : Env} {db : DB} {scope : String} {fence : Fence}

theorem ne_of_lost (h : isSessionLost e = true) (h' : isSessionLost e' = false) : e' ≠ e := by
  rintro rfl
  rw [h] at h'
  cases h'

theorem reported_ne (h : isSessionLost e = true) (context : String) (v : Violation) :
    reported context v ≠ e := ne_of_lost h rfl

theorem onUnique_ne (h : isSessionLost e = true) (h' : isSessionLost e' = false) (context : String) :
    ∀ v, onUnique e' context v ≠ e
  | .check => ne_of_lost h rfl
  | .unique => ne_of_lost h h'

theorem answering_omits {α : Type} {wrap : α → Answer} {x : Tx (α × DB)} (h : Omits e x) :
    Omits e (answering wrap x) := fun f hf => h f (answering_eq_error.mp hf)

theorem finalizeAttempt_omits (h : isSessionLost e = true) (state : FenceState)
    (outcome : AttemptOutcome) (decision : Decision) :
    Omits e (finalizeAttempt env db state fence outcome decision) := by
  have hconflict : ∀ text, StoreError.stateConflict text ≠ e := fun _ => ne_of_lost h rfl
  refine .bind (updateReturning_omits (onUnique_ne h rfl _) (hconflict _)) fun row => ?_
  refine .bind (updateOne_omits (reported_ne h _) (hconflict _)) fun leases => .ite (.ite ?_ ?_) ?_
  · exact .bind (updateOne_omits (reported_ne h _) (hconflict _)) fun jobs => .pure _
  · refine .bind (.bind (updateReturning_omits (reported_ne h _) (hconflict _)) fun _ => .pure _) ?_
    rintro ⟨generation, jobs⟩
    exact .bind (.bind (demand_omits (ne_of_lost h rfl)) fun _ => insertRow_omits (reported_ne h _))
      fun outbox => .pure _
  · refine .bind (updateOne_omits (reported_ne h _) (hconflict _)) fun jobs => ?_
    exact .bind (.bind (fetch_omits (ne_of_lost h rfl)) fun _ =>
      insertRow_omits (onUnique_ne h rfl _)) fun dlq => .pure _

theorem finalizeCancellation_omits (h : isSessionLost e = true) (state : FenceState)
    (outcomeRequestID : Option UUID) (status : LeaseStatus) :
    Omits e (finalizeCancellation db state fence outcomeRequestID status) := by
  have hconflict : ∀ text, StoreError.stateConflict text ≠ e := fun _ => ne_of_lost h rfl
  refine .bind (updateOne_omits (onUnique_ne h rfl _) (hconflict _)) fun attempts => ?_
  refine .bind (updateOne_omits (reported_ne h _) (hconflict _)) fun leases => ?_
  exact .bind (updateOne_omits (reported_ne h _) (hconflict _)) fun jobs => .pure _

theorem recordResult_omits (h : isSessionLost e = true) (t : Table results) (start : Int)
    (jobID attemptID : UUID) (result : Option ResultRef) :
    Omits e (recordResult t start scope jobID attemptID result) := by
  cases result with
  | none => exact .pure _
  | some ref => exact .bind (demand_omits (ne_of_lost h rfl)) fun _ => insertRow_omits (reported_ne h _)

section Bound

variable {s : WorkerSession} {j : Job} {a : JobAttempt} {m : Lease}

/-- Once the rows of a fence are found and the session is healthy, no check that is left
gives one of the two errors. -/
theorem Authority.omits {call : Call} (hA : Authority db scope fence s j a m)
    (hhealthy : s.status = .healthy) (hcall : call.report = some (scope, fence))
    (h : isSessionLost e = true) : Omits e (call.run env db) := by
  have hlock := hA.lock env.clock.s₀
  have hsession : (FenceState.ofRows scope s j a m env.clock.s₀).sessionHealthy = true :=
    beq_iff_eq.mpr hhealthy
  have hfence : lockFence db scope fence env.clock.s₀ =
      .ok (FenceState.ofRows scope s j a m env.clock.s₀) :=
    lockFence_eq_ok.mpr ⟨s, j, a, m, hA, hhealthy, rfl⟩
  have hconflict : ∀ text, StoreError.stateConflict text ≠ e := fun _ => ne_of_lost h rfl
  have hvalid : ∀ fields, Omits e (validate fields) := fun _ =>
    validate_omits fun _ => ne_of_lost h rfl
  have hdemand : ∀ {c e'}, isSessionLost e' = false → Omits e (demand c e') := fun h' =>
    demand_omits (ne_of_lost h h')
  -- The session's own check passes.
  have hpassed : Omits e (demand (FenceState.ofRows scope s j a m env.clock.s₀).sessionHealthy
      .fenceRejected) := by
    rw [hsession]
    exact .pure _
  cases call with
  | start scope' fence' =>
    cases hcall
    refine answering_omits (.bind (hvalid _) fun _ => ?_)
    rw [hfence, ok_bind]
    refine .bind (hdemand rfl) fun _ => .ite ?_ ?_
    · exact .bind (fetch_omits (ne_of_lost h rfl)) fun row => .bind (fetch_omits (ne_of_lost h rfl))
        fun startedAt => .bind (fetch_omits (hconflict _)) fun timeoutAt => .pure _
    · refine .bind (hdemand rfl) fun _ => .bind (hdemand rfl) fun _ => ?_
      refine .bind (fetch_omits (ne_of_lost h rfl)) fun job => ?_
      exact .bind (updateOne_omits (reported_ne h _) (hconflict _)) fun attempts =>
        .bind (updateOne_omits (reported_ne h _) (hconflict _)) fun jobs => .pure _
  | renewLease scope' req =>
    cases hcall
    refine answering_omits (.bind (hvalid _) fun _ => .bind (hdemand rfl) fun _ => ?_)
    rw [hfence, ok_bind]
    refine .bind (hdemand rfl) fun _ => .bind (hdemand rfl) fun _ => .bind (hdemand rfl) fun _ => ?_
    refine .ite (.bind (hdemand rfl) fun _ => .pure _) ?_
    refine .bind (hdemand rfl) fun _ => .bind (hdemand rfl) fun _ => ?_
    exact .bind (updateReturning_omits (onUnique_ne h rfl _) (ne_of_lost h rfl)) fun row => .pure _
  | succeed scope' fence' result =>
    cases hcall
    show Omits e (answering (fun _ => .succeeded) (succeed env scope fence result db))
    refine answering_omits (.bind (hvalid _) fun _ => ?_)
    rw [hlock, ok_bind]
    refine .ite (.pure _) (.bind hpassed fun _ => ?_)
    refine .bind (hdemand rfl) fun _ => .bind (hdemand rfl) fun _ => .bind (hdemand rfl) fun _ => ?_
    refine .bind (updateOne_omits (reported_ne h _) (hconflict _)) fun jobs =>
      .bind (updateOne_omits (reported_ne h _) (hconflict _)) fun attempts =>
        .bind (updateOne_omits (reported_ne h _) (hconflict _)) fun leases => ?_
    exact .bind (recordResult_omits h _ _ _ _ _) fun results => .pure _
  | fail scope' report =>
    cases hcall
    refine answering_omits (.bind (hvalid _) fun _ => ?_)
    rw [hlock, ok_bind]
    refine .ite (.bind ?_ fun _ => .pure _) ?_
    · exact .bind (hdemand rfl) fun _ => .bind (hdemand rfl) fun _ => .pure _
    · refine .bind (hdemand rfl) fun _ => .bind hpassed fun _ => ?_
      refine .bind (hdemand rfl) fun _ => .bind (hdemand rfl) fun _ => .bind (hdemand rfl) fun _ => ?_
      exact .bind (checked_omits fun _ => hconflict _) fun decision => finalizeAttempt_omits h _ _ _
  | acknowledgeCancellation scope' ack =>
    cases hcall
    refine answering_omits (.bind (hvalid _) fun _ => ?_)
    rw [hlock, ok_bind]
    refine .ite (.bind (hdemand rfl) fun _ => .pure _) ?_
    refine .bind (hdemand rfl) fun _ => .bind hpassed fun _ => ?_
    refine .bind (hdemand rfl) fun _ => .bind (hdemand rfl) fun _ => ?_
    exact finalizeCancellation_omits h _ _ _
  | _ => cases hcall

end Bound

section Sessions

variable {s : WorkerSession}

theorem find_sessionMatches (hs : s ∈ db.sessions.rows) :
    db.sessions.rows.find? (sessionMatches s.id s.workerID s.scope) = some s := by
  refine find?_eq_some_of_unique hs (by simp [sessionMatches]) fun x hx hp => ?_
  simp only [sessionMatches, Bool.and_eq_true, beq_iff_eq] at hp
  exact db.session_eq_of_id hx hs hp.1.1

theorem claimRead_omits (h : isSessionLost e = true) (req : ClaimRequest) (q : Queue)
    (found : Option Assignment) : Omits e (claimRead env scope req q s db found) := by
  cases found with
  | some x => exact .bind (demand_omits (ne_of_lost h rfl)) fun _ => .ite (.pure _) (.pure _)
  | none =>
    refine .ite (.pure _) (.ite (.pure _) (.ite (.pure _) ?_))
    cases selectJob db scope req.queue s env.clock.s₀ with
    | none => exact .ite (.pure _) (.pure _)
    | some j =>
      exact .bind (insertRow_omits (reported_ne h _)) fun attempts =>
        .bind (insertRow_omits (reported_ne h _)) fun leases =>
          .bind (updateOne_omits (reported_ne h _) (ne_of_lost h rfl)) fun jobs => .pure _

/-- Nor does a claim or a heartbeat of a healthy session give one of them. -/
theorem session_call_omits {call : Call} (hs : s ∈ db.sessions.rows)
    (hhealthy : s.status = .healthy) (hcall : call.session? = some (s.scope, s.workerID, s.id))
    (h : isSessionLost e = true) : Omits e (call.run env db) := by
  have hvalid : ∀ fields, Omits e (validate fields) := fun _ =>
    validate_omits fun _ => ne_of_lost h rfl
  have hpassed : demand (s.status == .healthy) .sessionUnavailable = .ok () := by
    rw [hhealthy]
    rfl
  have hfound : ∀ e', fetch (some s) e' = .ok s := fun _ => rfl
  cases call with
  | heartbeat scope' req =>
    obtain ⟨workerID, sessionID⟩ := req
    cases hcall
    refine answering_omits (.bind (hvalid _) fun _ => ?_)
    dsimp only
    rw [find_sessionMatches hs, hfound, ok_bind, hpassed, ok_bind]
    -- The row that was read is the row that is updated.
    have hupdated : (db.sessions.rows.find? fun x => x.id == s.id && x.status == .healthy) =
        some s := by
      refine find?_eq_some_of_unique hs (by simp [hhealthy]) fun x hx hp => ?_
      rw [Bool.and_eq_true, beq_iff_eq] at hp
      exact db.session_eq_of_id hx hs hp.1
    refine .bind (.bind (orRefused_omits (reported_ne h _)) fun _ => ?_) fun row => .pure _
    rw [hupdated]
    exact .pure _
  | claim scope' req =>
    obtain ⟨workerID, sessionID, claimRequestID, queue⟩ := req
    cases hcall
    refine answering_omits (.bind (hvalid _) fun _ => ?_)
    refine .bind (demand_omits (ne_of_lost h rfl)) fun _ => ?_
    refine .bind (demand_omits (ne_of_lost h rfl)) fun _ => ?_
    refine .bind (fetch_omits (ne_of_lost h rfl)) fun q => ?_
    dsimp only
    rw [find_sessionMatches hs, hfound, ok_bind, hpassed, ok_bind]
    exact claimRead_omits h _ q _
  | _ => cases hcall

end Sessions

end Omitted

/-! ## Sessions that are gone -/

/-- The step takes the health of a session: a registration replaces it, or it is marked
stale. -/
structure TakesHealth (w : World) (l : Label) (w' : World) (id : UUID) : Prop where
  before : ∃ s ∈ w.db.sessions.rows, s.id = id ∧ s.status = .healthy ∧
    ((∃ scope registration, l.request.call = .register scope registration ∧
        fencedSession l.request.env.clock.s₁ s ∈ w'.db.sessions.rows) ∨
      ∃ staleAfter, l.request.call = .markSessionStale id staleAfter ∧
        isStale staleAfter l.request.env.clock.s₀ s = true ∧
        staleSession l.request.env.clock.s₀ s ∈ w'.db.sessions.rows)

/-- The session is there, is not healthy, and one of the transactions took its health. -/
structure SessionGone (w₀ : World) (trace : List Label) (w : World) (id : UUID) : Prop where
  unhealthy : ∃ s ∈ w.db.sessions.rows, s.id = id ∧ s.status ≠ .healthy
  taken : ∃ pre l post w₁ w₂, trace = pre ++ l :: post ∧ Execution w₀ pre w₁ ∧ Step w₁ l w₂ ∧
    Execution w₂ post w ∧ TakesHealth w₁ l w₂ id

section Gone

variable {w₀ w w' : World} {l : Label} {trace : List Label} {s : WorkerSession}

/-- A healthy session stays healthy, or the step takes its health. -/
theorem Step.healthy_or_takes (hs : Step w l w') (hmem : s ∈ w.db.sessions.rows)
    (hhealthy : s.status = .healthy) :
    (∃ s' ∈ w'.db.sessions.rows, s'.id = s.id ∧ s'.status = .healthy) ∨
      TakesHealth w l w' s.id := by
  obtain ⟨s', hs', hb⟩ := hs.commit.becomes hmem
  revert hs' hb
  generalize hcall : l.request.call = call
  intro hs' hb
  cases hb with
  | same => exact .inl ⟨s, hs', rfl, hhealthy⟩
  | beat scope req session => exact .inl ⟨_, hs', rfl, hhealthy⟩
  | fenced scope registration =>
    exact .inr ⟨s, hmem, rfl, hhealthy, .inl ⟨scope, registration, hcall, hs'⟩⟩
  | staled staleAfter stale =>
    exact .inr ⟨s, hmem, rfl, hhealthy, .inr ⟨staleAfter, hcall, stale, hs'⟩⟩

/-- What has been healthy in a run and is not any more is gone. -/
theorem Execution.gone (hrun : Execution w₀ trace w) (hmem : s ∈ w₀.db.sessions.rows)
    (hhealthy : s.status = .healthy)
    (hnow : ∃ t ∈ w.db.sessions.rows, t.id = s.id ∧ t.status ≠ .healthy) :
    SessionGone w₀ trace w s.id := by
  refine ⟨hnow, ?_⟩
  induction hrun generalizing s with
  | nil w =>
    obtain ⟨t, ht, hid, hstatus⟩ := hnow
    exact absurd (w.db.session_eq_of_id ht hmem hid ▸ hhealthy) hstatus
  | @cons w₀ w₁ w l trace head tail ih =>
    rcases head.healthy_or_takes hmem hhealthy with ⟨s', hs', hid, hhealthy'⟩ | htakes
    · rw [← hid] at hnow ⊢
      obtain ⟨pre, m, post, w₂, w₃, rfl, hpre, hstep, hpost, htakes⟩ := ih hs' hhealthy' hnow
      exact ⟨l :: pre, m, post, w₂, w₃, rfl, .cons head hpre, hstep, hpost, htakes⟩
    · exact ⟨[], l, trace, w₀, w₁, rfl, .nil w₀, head, tail, htakes⟩

/-- A session that is gone in the second half of a run is gone in the whole. -/
theorem SessionGone.prepend {w₁ : World} {pre : List Label} {id : UUID}
    (h : SessionGone w₁ trace w id) (hpre : Execution w₀ pre w₁) :
    SessionGone w₀ (pre ++ trace) w id := by
  obtain ⟨before, l, post, w₂, w₃, rfl, hbefore, hstep, hpost, htakes⟩ := h.taken
  refine ⟨h.unhealthy, pre ++ before, l, post, w₂, w₃, ?_, hpre.append hbefore, hstep, hpost, htakes⟩
  rw [List.append_assoc]

end Gone

/-! ## Fences that were handed out -/

/-- The fence of an assignment. -/
def Assignment.fence (x : Assignment) : Fence :=
  ⟨x.jobID, x.attemptID, x.leaseID, x.workerID, x.sessionID⟩

section Fences

variable {w : World} {env : Env} {db db' : DB} {scope : String} {req : ClaimRequest}

/-- An assignment is answered to the session that asks, in its scope. -/
theorem claim_owner {r : ClaimResult} {x : Assignment} (h : claim env scope req db = .ok (r, db'))
    (hx : r.assignment = some x) :
    x.scope = scope ∧ x.workerID = req.workerID ∧ x.sessionID = req.sessionID := by
  obtain ⟨-, hclaiming⟩ := claim_answer h
  cases hclaiming with
  | replayed y found =>
    cases hx
    simp only [claim, bind_eq_ok, found, claimRead, noClaim, demand_eq_ok, Bool.and_eq_true,
      beq_iff_eq, ite_eq_ok, pure_eq_ok, Prod.mk.injEq, ClaimResult.mk.injEq, reduceCtorEq,
      false_and, and_false, false_or, not_or, not_not] at h
    obtain ⟨-, -, -, -, -, -, -, -, -, -, -, -, -, ⟨hscope, -⟩, ⟨hworker, hsession⟩, -⟩ := h
    exact ⟨hscope, hworker, hsession⟩
  | assigned s j _ ready applied =>
    cases hx
    exact ⟨rfl, rfl, rfl⟩
  | _ => cases hx

/-- What a claim answers with is a lease that is there, of a healthy session. -/
theorem Step.claimed_lease {w' : World} {l : Label} {r : ClaimResult} {x : Assignment}
    (hs : Step w l w') (hsound : Sound w) (hcall : l.request.call = .claim scope req)
    (hans : l.outcome = .ok (.claimed r)) (hx : r.assignment = some x) :
    (∃ m ∈ w'.db.leases.rows, m.scope = scope ∧ m.fence = x.fence) ∧
      ∃ s ∈ w'.db.sessions.rows, s.id = x.sessionID ∧ s.status = .healthy := by
  have hrun := hs.claimed hcall hans
  obtain ⟨⟨s, hmem, hsid, hhealthy⟩, hclaiming⟩ := claim_answer hrun
  obtain ⟨hscope, -, hsession⟩ := claim_owner hrun hx
  generalize w'.db = db' at hclaiming ⊢
  cases hclaiming with
  | replayed y found =>
    obtain ⟨m, hm, hmid, -⟩ := lookupClaim_eq_some found
    obtain ⟨y', hfound, hassigns⟩ := hsound.lookupClaim_of_lease hm
    rw [hmid, found] at hfound
    cases hfound
    cases hx
    refine ⟨⟨m, hm, hassigns.scope.symm.trans hscope, ?_⟩, s, hmem, hsid.trans hsession.symm,
      hhealthy⟩
    rw [Lease.fence, Assignment.fence, hassigns.job, hassigns.attempt, hassigns.lease,
      hassigns.worker, hassigns.session]
  | assigned s' j _ ready applied =>
    cases hx
    refine ⟨⟨claimedLease l.request.env scope req j, ?_, rfl, rfl⟩, s, ?_, hsid, hhealthy⟩
    · rw [applied.leases]
      exact List.mem_concat_self
    · rw [applied.sessions]
      exact hmem
  | _ => cases hx

/-- What a registration answers with is a healthy session of its worker, in its scope. -/
theorem Step.registered_session {w' : World} {l : Label} {registration : Registration}
    {session : Session} (hs : Step w l w') (hsound : Sound w)
    (hcall : l.request.call = .register scope registration)
    (hans : l.outcome = .ok (.registered session)) :
    ∃ s ∈ w'.db.sessions.rows, s.id = session.id ∧ s.workerID = session.workerID ∧
      s.scope = scope ∧ s.status = .healthy := by
  obtain ⟨reg, wid, -, hid, hworker, -, hupserted, hsessions⟩ :=
    register_eq_ok (hs.registered hcall hans)
  have hworkers := (hs.sound hsound).workers
  generalize w'.db = db' at hupserted hsessions hworkers ⊢
  cases hsessions with
  | replayed s mem id worker healthy same =>
    have hmem : s ∈ db'.sessions.rows := same ▸ mem
    refine ⟨s, hmem, id.trans hid.symm, worker.trans hworker.symm, ?_, healthy⟩
    -- The worker of the session is the worker that registers, and so is its scope.
    obtain ⟨x, hx, hxid, hxscope⟩ := hupserted.named
    obtain ⟨y, hy, hyid, hyscope⟩ := hworkers s hmem
    have hxy : x = y := db'.worker_eq_of_id hx hy (hxid.trans (worker.symm.trans hyid.symm))
    rw [← hyscope, ← hxy, hxscope]
  | fresh rows =>
    refine ⟨newSession scope wid reg l.request.env.clock.s₂, ?_, hid.symm, hworker.symm, rfl, rfl⟩
    rw [rows]
    exact List.mem_concat_self

end Fences

section Losses

variable {w₀ w w' : World} {trace : List Label} {l : Label} {f : Failure}

/-- A fenced call that is answered with one of the two errors, under a fence that was
handed out before, is of a session that is gone. -/
theorem fence_loss_sound (hinit : Initial w₀) (hrun : Execution w₀ trace w) (hs : Step w l w')
    (hout : l.outcome = .error f) (hlost : isSessionLost f.error = true) {c : Label} {scope : String}
    {req : ClaimRequest} {r : ClaimResult} {x : Assignment} (hc : c ∈ trace)
    (hclaim : c.request.call = .claim scope req) (hans : c.outcome = .ok (.claimed r))
    (hx : r.assignment = some x) (hfence : l.request.call.report = some (scope, x.fence)) :
    SessionGone w₀ trace w x.sessionID := by
  obtain ⟨pre, post, w₁, w₂, rfl, hpre, hstep, hpost⟩ := hrun.exists_step_of_mem hc
  have hsound₁ : Sound w₁ := Reachable.sound ⟨w₀, pre, hinit, hpre⟩
  have hsound : Sound w := Reachable.sound ⟨w₀, _, hinit, hrun⟩
  obtain ⟨⟨m, hm, hscope, hmfence⟩, t, ht, htid, hhealthy⟩ :=
    hstep.claimed_lease hsound₁ hclaim hans hx
  -- The lease of the assignment is still there, and binds the same rows.
  obtain ⟨m', hm', hid, hbinding⟩ := (traceable_of_run hpost).leases m hm
  simp only [Lease.binding, Prod.mk.injEq] at hbinding
  obtain ⟨hattempt, hjob, hscope', -, hworker, hsession⟩ := hbinding
  have hfence' : m'.fence = x.fence := by
    rw [← hmfence, Lease.fence, Lease.fence, hid, hattempt, hjob, hworker, hsession]
  obtain ⟨j, hj, a, ha, hbound⟩ := hsound.run_of_lease hm'
  obtain ⟨s, hA⟩ := hsound.authority_of_bound hj ha hm' hbound
  rw [hfence', hscope', hscope] at hA
  have hunhealthy : s.status ≠ .healthy := by
    intro hstatus
    exact hA.omits hstatus hfence hlost f (hs.failed rfl hout).1 rfl
  have hgone : SessionGone w₂ post w t.id :=
    Execution.gone hpost ht hhealthy ⟨s, hA.session_mem, hA.session_id.trans htid.symm, hunhealthy⟩
  rw [htid] at hgone
  have hwhole := hgone.prepend (hpre.append (.cons hstep (.nil _)))
  rwa [List.append_assoc] at hwhole

/-- And so is a claim or a heartbeat that is answered with one of them, of a session that
registered before. -/
theorem register_loss_sound (hinit : Initial w₀) (hrun : Execution w₀ trace w) (hs : Step w l w')
    (hout : l.outcome = .error f) (hlost : isSessionLost f.error = true) {c : Label} {scope : String}
    {registration : Registration} {session : Session} (hc : c ∈ trace)
    (hregister : c.request.call = .register scope registration)
    (hans : c.outcome = .ok (.registered session))
    (hcall : l.request.call.session? = some (scope, session.workerID, session.id)) :
    SessionGone w₀ trace w session.id := by
  obtain ⟨pre, post, w₁, w₂, rfl, hpre, hstep, hpost⟩ := hrun.exists_step_of_mem hc
  obtain ⟨t, ht, htid, htworker, htscope, hhealthy⟩ :=
    hstep.registered_session (Reachable.sound ⟨w₀, pre, hinit, hpre⟩) hregister hans
  obtain ⟨s, hmem, haged⟩ := Execution.aged hpost ht
  have hunhealthy : s.status ≠ .healthy := by
    intro hstatus
    have hcall' : l.request.call.session? = some (s.scope, s.workerID, s.id) := by
      rw [hcall, haged.scope, haged.worker, haged.id, htscope, htworker, htid]
    exact session_call_omits hmem hstatus hcall' hlost f (hs.failed rfl hout).1 rfl
  have hgone : SessionGone w₂ post w t.id :=
    Execution.gone hpost ht hhealthy ⟨s, hmem, haged.id, hunhealthy⟩
  rw [htid] at hgone
  have hwhole := hgone.prepend (hpre.append (.cons hstep (.nil _)))
  rwa [List.append_assoc] at hwhole

/-- **A lost session is gone.** In every run, a call answered with an error the worker
takes for the loss of its session, whether it presents a fence that a claim answered with
before or is a claim or a heartbeat of a session that registered before, is of a session
that is not healthy any more, and a transaction of the run took its health: a registration
that replaced it, or the reconciler that found it stale. -/
theorem session_loss_sound (hinit : Initial w₀) (hrun : Execution w₀ trace w) (hs : Step w l w')
    (hout : l.outcome = .error f) (hlost : isSessionLost f.error = true) :
    (∀ c ∈ trace, ∀ scope req r x, c.request.call = .claim scope req →
      c.outcome = .ok (.claimed r) → r.assignment = some x →
      l.request.call.report = some (scope, x.fence) → SessionGone w₀ trace w x.sessionID) ∧
    ∀ c ∈ trace, ∀ scope registration session, c.request.call = .register scope registration →
      c.outcome = .ok (.registered session) →
      l.request.call.session? = some (scope, session.workerID, session.id) →
      SessionGone w₀ trace w session.id :=
  ⟨fun _ hc _ _ _ _ hclaim hans hx hfence =>
    fence_loss_sound hinit hrun hs hout hlost hc hclaim hans hx hfence,
  fun _ hc _ _ _ hregister hans hcall =>
    register_loss_sound hinit hrun hs hout hlost hc hregister hans hcall⟩

end Losses

/-- The worker of the sample run registers again, under another session. -/
def sampleReplaced : Request :=
  ⟨envAt 5 1 0, .register "tenant" ⟨8, "worker", "host", "workers", 2, [], ["email"], none⟩⟩

/-- After that, a failure report of the running attempt is rejected, and the session it
was claimed by is gone. -/
theorem session_loss_replaced :
    ((quiet.exec (sampleStart ++ [sampleReplaced])).2.step
      ⟨envAt 6 0 0, .fail "tenant" sampleReport⟩).1.outcome = .error ⟨.fenceRejected, .check⟩ ∧
    SessionGone quiet (quiet.exec (sampleStart ++ [sampleReplaced])).1
      (quiet.exec (sampleStart ++ [sampleReplaced])).2 7 := by
  obtain ⟨hclock, hout, c, hc, hclaim, hans⟩ :
      (quiet.exec (sampleStart ++ [sampleReplaced])).2.clock ≤ 6 ∧
      ((quiet.exec (sampleStart ++ [sampleReplaced])).2.step
        ⟨envAt 6 0 0, .fail "tenant" sampleReport⟩).1.outcome = .error ⟨.fenceRejected, .check⟩ ∧
      ∃ c ∈ (quiet.exec (sampleStart ++ [sampleReplaced])).1,
        c.request.call = .claim "tenant" ⟨1, 7, 6, "default"⟩ ∧
        c.outcome = .ok (.claimed ⟨.claimed, some { sampleSecondClaimed with
          leaseRemaining := 30000000000 }, false⟩) := by decide +kernel
  refine ⟨hout, ?_⟩
  exact (session_loss_sound quiet_initial (World.exec_run (by decide)) (World.step_step _ hclock)
    hout rfl).1 c hc _ _ _ _ hclaim hans rfl (by rw [World.step_request]; rfl)

end TaskForge

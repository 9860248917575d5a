/-
No lost wake-up.

An event usually claims another job than the one it was written for, so what keeps
queued jobs reachable is a count: in a queue of one scope there are at least as
many work notifications that are not used up as there are `QUEUED` jobs. An entry
to `QUEUED` adds one of each; a claim takes one of each; and a notification that
is answered `QUEUE_EMPTY` is given up when there is no `QUEUED` job at all. A
notification that is not used up is not lost either: it is still to be published,
or the broker still holds a message of it.
-/
import TaskForge.ClaimRace
import TaskForge.Delivery
import TaskForge.Notifications

open Relational Fallible Runs

namespace TaskForge

/-! ## What is counted -/

/-- The identities that are used up: claimed with, or answered `QUEUE_EMPTY`. -/
def Traffic.spent (t : Traffic) : List UUID := t.world.db.claims ++ t.empties

/-- A work notification of the queue. -/
def isFor (queue : String) (e : OutboxEvent) : Bool :=
  e.eventType == eventWorkAvailable && e.payload.queue == queue

/-- How many work notifications of the queue are not used up. -/
def unspentIn (queue : String) (spent : List UUID) (rows : List OutboxEvent) : ℕ :=
  rows.countP fun e => isFor queue e && !spent.contains e.id

/-- A `QUEUED` job of the queue. -/
def isQueuedIn (queue : String) (j : Job) : Bool := j.queue == queue && j.status == .queued

/-- How many jobs of the queue are `QUEUED`. -/
def DB.queuedIn (db : DB) (queue : String) : ℕ := db.jobs.rows.countP (isQueuedIn queue)

/-- The jobs of the queue share one scope, and so do the sessions that may claim
from it, those of its worker group. -/
structure OneScope (queue scope : String) (db : DB) : Prop where
  jobs : ∀ j ∈ db.jobs.rows, j.queue = queue → j.scope = scope
  sessions : ∀ s ∈ db.sessions.rows, ∀ q ∈ db.queues.rows, q.name = queue →
    s.workerGroup = q.workerGroup → s.scope = scope

section Counting

variable {queue : String} {spent spent' : List UUID} {rows new : List OutboxEvent} {c : UUID}

/-- A publisher does not change the count. -/
theorem unspentIn_map {f : OutboxEvent → OutboxEvent} (hf : ∀ e ∈ rows, Delivered e (f e)) :
    unspentIn queue spent (rows.map f) = unspentIn queue spent rows := by
  unfold unspentIn
  rw [List.countP_map]
  refine List.countP_congr fun e he => ?_
  simp only [Function.comp_apply, isFor]
  rw [(hf e he).eventType, (hf e he).payload, (hf e he).id]

/-- New events of fresh ids all count. -/
theorem unspentIn_append (hnew : ∀ e ∈ new, e.id ∉ spent) :
    unspentIn queue spent (rows ++ new) = unspentIn queue spent rows + new.countP (isFor queue) := by
  unfold unspentIn
  rw [List.countP_append]
  congr 1
  refine List.countP_congr fun e he => ?_
  simp [hnew e he]

/-- Using up one identity costs at most the events that carry it. -/
theorem unspentIn_spend (queue : String) (rows : List OutboxEvent)
    (hspent : ∀ x ∈ spent', x ∈ spent ∨ x = c) :
    unspentIn queue spent rows
      ≤ unspentIn queue spent' rows + rows.countP (fun e => e.id == c && isFor queue e) := by
  induction rows with
  | nil => exact Nat.zero_le _
  | cons e rows ih =>
    unfold unspentIn at ih ⊢
    rw [List.countP_cons, List.countP_cons, List.countP_cons]
    -- An event that stops counting carries the identity that was used up.
    have hhead : (if (isFor queue e && !spent.contains e.id) = true then 1 else 0)
        ≤ (if (isFor queue e && !spent'.contains e.id) = true then 1 else 0)
          + (if (e.id == c && isFor queue e) = true then 1 else 0) := by
      by_cases hfor : isFor queue e = true
      · by_cases hmem : e.id ∈ spent
        · simp [hmem]
        · by_cases hmem' : e.id ∈ spent'
          · have hc : e.id = c := (hspent e.id hmem').resolve_left hmem
            rw [beq_iff_eq.mpr hc, hfor]
            split <;> split <;> simp
          · simp [hfor, hmem, hmem']
      · simp [hfor]
    omega

/-- An identity is carried by one event at most. -/
theorem countP_id_le (db : DB) (c : UUID) (p : OutboxEvent → Bool) :
    db.outbox.rows.countP (fun e => e.id == c && p e) ≤ 1 := by
  refine db.outbox.countP_le_one fun a b ha hb => ?_
  simp only [Bool.and_eq_true, beq_iff_eq] at ha hb
  show sameKey OutboxEvent.idKey a b = true
  refine sameKey_eq_true.mpr ⟨c, ?_, ?_⟩
  · rw [OutboxEvent.idKey, ha.1]
  · rw [OutboxEvent.idKey, hb.1]

end Counting

/-! ## Queued jobs -/

section Jobs

variable {env : Env} {db db' : DB} {id : UUID} {writes : Writes} {queue scope : String} {j j' : Job}
  {w w' : World} {l : Label}

/-- Replacing a job moves the count by what the two rows count for. -/
theorem Writes.Applied.queuedIn_replace (happ : writes.Applied db db') (queue : String)
    (hw : writes.job = .replace j j') (hj : j ∈ db.jobs.rows) :
    db'.queuedIn queue + (if isQueuedIn queue j then 1 else 0)
      = db.queuedIn queue + (if isQueuedIn queue j' then 1 else 0) := by
  unfold DB.queuedIn
  rw [happ.jobs, hw]
  exact countP_replaceRow _ db.jobs.nodup hj

theorem Writes.Applied.queuedIn_insert (happ : writes.Applied db db')
    (hw : writes.job = .insert j) :
    db'.queuedIn queue = db.queuedIn queue + (if isQueuedIn queue j then 1 else 0) := by
  unfold DB.queuedIn
  rw [happ.jobs, hw]
  rw [RowWrite.apply, List.countP_append, List.countP_singleton]

theorem Advertises.isFor_eq {e : OutboxEvent} (h : Advertises e j) :
    isFor queue e = (j.queue == queue) := by
  simp [isFor, h.eventType, h.payload]

/-- **An entry to `QUEUED` brings a notification of its queue.** -/
theorem Notice.queuedIn_le (hn : Notice env db id writes) (happ : writes.Applied db db') :
    db'.queuedIn queue ≤ db.queuedIn queue + writes.events.countP (isFor queue) := by
  cases hn with
  | kept job events =>
    unfold DB.queuedIn
    rw [happ.jobs, job]
    exact Nat.le_add_right _ _
  | delayed j unborn write events status =>
    rw [happ.queuedIn_insert write]
    simp [isQueuedIn, status]
  | born j e unborn write events status generation stamp advertises =>
    rw [happ.queuedIn_insert write, events, List.countP_singleton, advertises.isFor_eq]
    simp [isQueuedIn, status]
  | moved j j' job write events status =>
    have hcount := happ.queuedIn_replace queue write (caseFile_job_eq_some.mp job).1
    simp only [isQueuedIn, status, beq_iff_eq, Bool.and_eq_true, and_false, if_false] at hcount
    omega
  | entered j j' e job write events before status queue' generation stamp advertises =>
    have hcount := happ.queuedIn_replace queue write (caseFile_job_eq_some.mp job).1
    rw [events, List.countP_singleton, advertises.isFor_eq]
    simp only [isQueuedIn, status, before, beq_iff_eq, Bool.and_eq_true, and_false, and_true,
      if_false] at hcount ⊢
    omega
  | repeated j j' e job write events before status queue' generation stamp advertises silent =>
    have hcount := happ.queuedIn_replace queue write (caseFile_job_eq_some.mp job).1
    simp only [isQueuedIn, status, before, queue'] at hcount
    omega

theorem Notice.events_pending (hn : Notice env db id writes) :
    ∀ e ∈ writes.events, e.status = .pending := by
  intro e he
  cases hn with
  | kept job events => rw [events] at he; cases he
  | delayed j unborn write events => rw [events] at he; cases he
  | moved j j' job write events => rw [events] at he; cases he
  | born j e' unborn write events status generation stamp advertises
  | entered j j' e' job write events before status queue' generation stamp advertises
  | repeated j j' e' job write events before status queue' generation stamp advertises silent =>
    rw [events, List.mem_singleton] at he
    rw [he]
    exact advertises.pending

/-- What a store transaction adds to the outbox, and to the queues. -/
theorem Step.stock (hs : Step w l w') (h : Sound w) :
    ∃ new, w'.db.outbox.rows = w.db.outbox.rows ++ new ∧ (∀ e ∈ new, e.status = .pending) ∧
      ∀ queue, w'.db.queuedIn queue ≤ w.db.queuedIn queue + new.countP (isFor queue) := by
  cases hs.effect with
  | unchanged same =>
    rw [same]
    exact ⟨[], (List.append_nil _).symm, by simp, fun queue => Nat.le_add_right _ _⟩
  | sessions only kept workers owned =>
    refine ⟨[], ?_, by simp, fun queue => ?_⟩
    · rw [only.outbox, List.append_nil]
    · unfold DB.queuedIn
      rw [only.jobs]
      exact Nat.le_add_right _ _
  | move id writes lawful applied =>
    have hnotice := lawful.notice (h.cases id)
    exact ⟨writes.events, applied.outbox, hnotice.events_pending,
      fun queue => hnotice.queuedIn_le applied⟩

/-! ### Scopes of a queue -/

/-- Jobs stay, with their scope and queue. -/
theorem Step.tenant (hs : Step w l w') :
    ∀ j ∈ w.db.jobs.rows, ∃ j' ∈ w'.db.jobs.rows, j'.scope = j.scope ∧ j'.queue = j.queue := by
  intro j hj
  obtain ⟨⟨env, call⟩, outcome⟩ := l
  have hcommit : Commit env w.db w'.db call := hs.commit
  cases hcommit with
  | unchanged call same => exact ⟨j, by rw [same]; exact hj, rfl, rfl⟩
  | registered sc registration reg wid valid only =>
    exact ⟨j, by rw [only.jobs]; exact hj, rfl, rfl⟩
  | beat sc req s session scope_eq healthy moved | staled s staleAfter stale moved =>
    exact ⟨j, by rw [moved.only.jobs]; exact hj, rfl, rfl⟩
  | wrote call id writes performs applied =>
    rw [applied.jobs]
    rcases RowWrite.kept_or_replaced hj with hkept | ⟨j', hw, hmem⟩
    · exact ⟨j, hkept, rfl, rfl⟩
    · exact ⟨j', hmem, (performs.rewritten hw).2.2⟩

/-- A queue that is of one scope has always been. -/
theorem Step.oneScope (hs : Step w l w') (h : OneScope queue scope w'.db) :
    OneScope queue scope w.db := by
  refine ⟨?_, ?_⟩
  · intro j hj hqueue
    obtain ⟨j', hj', hscope, hq⟩ := hs.tenant j hj
    rw [← hscope]
    exact h.jobs j' hj' (hq.trans hqueue)
  · intro s hsession q hq hname hgroup
    obtain ⟨s', hs', houtlived⟩ : ∃ s' ∈ w'.db.sessions.rows, Outlived s s' := by
      cases hs.effect with
      | unchanged same => exact ⟨s, by rw [same]; exact hsession, .refl s⟩
      | sessions only kept workers owned => exact kept s hsession
      | move id writes lawful applied => exact ⟨s, by rw [applied.sessions]; exact hsession, .refl s⟩
    have hqueues : w'.db.queues = w.db.queues := by
      cases hs.effect with
      | unchanged same => rw [same]
      | sessions only kept workers owned => exact only.queues
      | move id writes lawful applied => exact applied.queues
    rw [← houtlived.scope]
    exact h.sessions s' hs' q (hqueues ▸ hq) hname (houtlived.group.trans hgroup)

end Jobs

/-! ## Claims -/

/-- What a claim did with its identity. -/
inductive Spending (w w' : World) (l : Label) (scope : String) (req : ClaimRequest) : Prop where
  /-- Nothing; if its receipt may go, the identity was used before. -/
  | none (same : w'.db = w.db) (emptied : l.emptied = [])
      (safe : safeAck l.outcome = true → req.claimRequestID ∈ w.db.claims)
  /-- It was answered that nothing is due. -/
  | empty (same : w'.db = w.db) (emptied : l.emptied = [req.claimRequestID])
      (scopes : ∀ sc, OneScope req.queue sc w.db → scope = sc)
      (due : ∀ j ∈ w.db.jobs.rows, isDue scope req.queue l.request.env.clock.s₁ j = false)
  /-- It took a job of its queue. -/
  | assigned (j : Job) (mem : j ∈ w.db.jobs.rows) (queued : isQueuedIn req.queue j = true)
      (jobs : ∀ queue, w'.db.queuedIn queue + (if isQueuedIn queue j then 1 else 0)
        = w.db.queuedIn queue)
      (outbox : w'.db.outbox.rows = w.db.outbox.rows)
      (claims : w'.db.claims = w.db.claims ++ [req.claimRequestID]) (emptied : l.emptied = [])

section Claims

variable {w w' : World} {l : Label} {scope : String} {req : ClaimRequest}

theorem lookupClaim_mem {db : DB} {c : UUID} {x : Assignment} (h : lookupClaim db c = some x) :
    c ∈ db.claims := by
  obtain ⟨m, hm, hc, -⟩ := lookupClaim_eq_some h
  exact List.mem_map.mpr ⟨m, hm, hc⟩

theorem claimWrites_queuedIn {env : Env} {db db' : DB} {number : ℕ} {j : Job}
    (happ : (claimWrites env scope req number j).Applied db db') (hj : j ∈ db.jobs.rows)
    (queue : String) :
    db'.queuedIn queue + (if isQueuedIn queue j then 1 else 0) = db.queuedIn queue := by
  have hcount := happ.queuedIn_replace queue rfl hj
  have hleased : isQueuedIn queue (leasedJob env.clock.s₁ j) = false := by
    simp [isQueuedIn, leasedJob]
  rw [hcount, hleased]
  rfl

theorem Step.spending (hs : Step w l w') (hcall : l.request.call = .claim scope req) :
    Spending w w' l scope req := by
  cases hs with
  | @refused request f clock run =>
    refine .none rfl ?_ ?_
    · simp [Label.emptied]
    · simp [safeAck]
  | @committed request ans db clock run =>
    obtain ⟨env, call⟩ := request
    obtain rfl : call = .claim scope req := hcall
    obtain ⟨r, hr, rfl⟩ := answering_eq_ok.mp run
    cases (claim_answer hr).2 with
    | replayed x found | duplicate x found => exact .none rfl rfl fun _ => lookupClaim_mem found
    | ineligible | exhausted =>
      exact .none rfl rfl (by simp [safeAck, ClaimResult.safeToAcknowledge])
    | empty s q session_mem session_scope queue_mem queue group none_due =>
      refine .empty rfl rfl (fun sc hone => ?_) fun j hj => ?_
      · rw [← session_scope]
        exact hone.sessions s session_mem q queue_mem queue group
      · simpa using List.any_eq_false.mp none_due j hj
    | assigned s j db' ready applied =>
      obtain ⟨⟨-, hqueue, hqueued, -⟩, -⟩ := isEligible_eq_true.mp ready.eligible
      refine .assigned j ready.job_mem ?_ (claimWrites_queuedIn applied ready.job_mem) ?_ ?_ rfl
      · simp [isQueuedIn, hqueue, hqueued]
      · rw [applied.outbox]
        exact List.append_nil _
      · unfold DB.claims
        rw [applied.leases]
        simp [claimWrites, RowWrite.apply, claimedLease]

/-- A message asks for a claim of its event's id, on its event's queue. -/
theorem claimFor_eq_some {workerID sessionID : UUID} {queue : String} {m : Envelope}
    (h : claimFor workerID sessionID queue m = some req) :
    req.claimRequestID = m.eventID ∧ req.queue = m.data.queue := by
  unfold claimFor decodeWorkNotification at h
  split at h
  · cases h
  · next note hnote =>
    split at hnote
    · cases hnote
    split at hnote
    · cases hnote
    split at hnote
    · cases hnote
    cases hnote
    split at h
    · cases h
    · cases h
      exact ⟨rfl, rfl⟩

end Claims

/-! ## The invariant -/

/-- The event that a message speaks of is in the outbox. -/
def Known (db : DB) (m : Envelope) : Prop :=
  ∃ e ∈ db.outbox.rows, e.id = m.eventID ∧ e.payload = m.data

/-- What holds of the traffic of a queue that is of one scope. -/
structure Wakeful (queue : String) (t : Traffic) : Prop where
  sound : Sound t.world
  /-- Identities, messages and deliveries are those of stored events. -/
  spent_known : ∀ c ∈ t.spent, ∃ e ∈ t.world.db.outbox.rows, e.id = c
  messages : ∀ m ∈ t.broker, Known t.world.db m
  held : ∀ n x, t.slots n = some x → Known t.world.db x.message
  /-- A receipt that may go is of an event that is used up. -/
  safe : ∀ n m, t.slots n = some (.decided m true) → m.eventID ∈ t.spent
  published : ∀ e ∈ t.world.db.outbox.rows, e.status = .published → e.id ∈ t.sent
  /-- What was sent is used up, or the broker still holds it. -/
  carried : ∀ c ∈ t.sent, c ∈ t.spent ∨ ∃ m ∈ t.broker, m.eventID = c
  enough : t.world.db.queuedIn queue ≤ unspentIn queue t.spent t.world.db.outbox.rows

section Invariant

variable {queue scope : String} {t t' : Traffic} {o : Option Label} {w : World} {l : Label}

theorem Opening.wakeful (h : Opening t) : Wakeful queue t := by
  have hclaims : t.world.db.claims = [] := by
    unfold DB.claims
    rw [h.initial.leases]
    rfl
  have hspent : t.spent = [] := by
    unfold Traffic.spent
    rw [hclaims, h.empties]
    rfl
  refine ⟨h.initial.sound, ?_, ?_, ?_, ?_, ?_, ?_, ?_⟩
  · rw [hspent]
    intro c hc
    cases hc
  · rw [h.broker]
    intro m hm
    cases hm
  · intro n x hx
    rw [h.slots] at hx
    cases hx
  · intro n m hm
    rw [h.slots] at hm
    cases hm
  · rw [h.outbox]
    intro e he
    cases he
  · rw [h.sent]
    intro c hc
    cases hc
  · unfold DB.queuedIn
    rw [h.initial.jobs]
    exact Nat.zero_le _

/-- New events carry identities that nobody has used. -/
theorem Wakeful.fresh_ids (h : Wakeful queue t) {new : List OutboxEvent}
    (hrows : w.db.outbox.rows = t.world.db.outbox.rows ++ new) : ∀ e ∈ new, e.id ∉ t.spent := by
  intro e he hspent
  obtain ⟨x, hx, hid⟩ := h.spent_known e.id hspent
  have hnodup := w.db.outbox.nodup
  rw [hrows, List.nodup_append'] at hnodup
  have hmem : ∀ y, y ∈ t.world.db.outbox.rows ++ new → y ∈ w.db.outbox.rows := by
    rw [hrows]
    exact fun y hy => hy
  have heq : x = e := w.db.event_eq_of_id (hmem x (List.mem_append_left _ hx))
    (hmem e (List.mem_append_right _ he)) hid
  rw [heq] at hx
  exact hnodup.2.2 hx he

/-- A store transaction that is no claim. -/
theorem Wakeful.store (h : Wakeful queue t) (hs : Step t.world l w)
    (hcall : ∀ sc req, l.request.call ≠ .claim sc req) :
    Wakeful queue { t with world := w } := by
  obtain ⟨new, hrows, hpending, hqueued⟩ := hs.stock h.sound
  have hclaims : w.db.claims = t.world.db.claims := hs.commit.claims_of_not_claim hcall
  have hspent : Traffic.spent { t with world := w } = t.spent := by
    unfold Traffic.spent
    rw [hclaims]
  have hmem : ∀ {e : OutboxEvent}, e ∈ t.world.db.outbox.rows → e ∈ w.db.outbox.rows := by
    intro e he
    rw [hrows]
    exact List.mem_append_left _ he
  have hknown : ∀ {m : Envelope}, Known t.world.db m → Known w.db m := by
    rintro m ⟨e, he, hid, hdata⟩
    exact ⟨e, hmem he, hid, hdata⟩
  refine ⟨hs.sound h.sound, ?_, ?_, ?_, ?_, ?_, ?_, ?_⟩
  · rw [hspent]
    intro c hc
    obtain ⟨e, he, hid⟩ := h.spent_known c hc
    exact ⟨e, hmem he, hid⟩
  · exact fun m hm => hknown (h.messages m hm)
  · exact fun n x hx => hknown (h.held n x hx)
  · rw [hspent]
    exact h.safe
  · intro e he hpub
    have he' : e ∈ t.world.db.outbox.rows ++ new := hrows ▸ he
    rcases List.mem_append.mp he' with hold | hnew
    · exact h.published e hold hpub
    · rw [hpending e hnew] at hpub
      cases hpub
  · rw [hspent]
    exact h.carried
  · rw [hspent]
    show w.db.queuedIn queue ≤ unspentIn queue t.spent w.db.outbox.rows
    rw [hrows, unspentIn_append (h.fresh_ids hrows)]
    have henough := h.enough
    have hmore := hqueued queue
    omega

/-- A publisher's transaction. -/
theorem Wakeful.outbox (h : Wakeful queue t) {now : Int} {call : OutboxCall}
    {ans : OutboxAnswer} {db : DB} (hrun : call.run now t.world.db = .ok (ans, db))
    (hmarked : ∀ id, call = .markPublished id → id ∈ t.sent) :
    Wakeful queue { t with world := ⟨db, t.world.clock⟩ } := by
  have hmoved := OutboxCall.moved hrun
  have honly := hmoved.only
  obtain ⟨f, hrows, hf⟩ := hmoved.rows
  have hclaims : db.claims = t.world.db.claims := by rw [honly]; rfl
  have hspent : Traffic.spent { t with world := ⟨db, t.world.clock⟩ } = t.spent := by
    unfold Traffic.spent
    rw [hclaims]
  have hkept := hmoved.kept
  have hknown : ∀ {m : Envelope}, Known t.world.db m → Known db m := by
    rintro m ⟨e, he, hid, hdata⟩
    obtain ⟨e', he', hdelivered⟩ := hkept e he
    exact ⟨e', he', hdelivered.id.trans hid, hdelivered.payload.trans hdata⟩
  have hsound : Sound ⟨db, t.world.clock⟩ := EventsMoved.sound hmoved rfl h.sound
  refine ⟨hsound, ?_, ?_, ?_, ?_, ?_, ?_, ?_⟩
  · rw [hspent]
    intro c hc
    obtain ⟨e, he, hid⟩ := h.spent_known c hc
    obtain ⟨e', he', hdelivered⟩ := hkept e he
    exact ⟨e', he', hdelivered.id.trans hid⟩
  · exact fun m hm => hknown (h.messages m hm)
  · exact fun n x hx => hknown (h.held n x hx)
  · rw [hspent]
    exact h.safe
  · intro e' he' hpub
    rcases OutboxCall.published hrun he' hpub with hcall | ⟨e, he, hid, hstatus⟩
    · exact hmarked e'.id hcall
    · rw [← hid]
      exact h.published e he hstatus
  · rw [hspent]
    exact h.carried
  · rw [hspent]
    show db.queuedIn queue ≤ unspentIn queue t.spent db.outbox.rows
    rw [hrows, unspentIn_map hf, show db.queuedIn queue = t.world.db.queuedIn queue by rw [honly]; rfl]
    exact h.enough

/-- Messages come and go; the database and the counts stay. -/
theorem Wakeful.traffic (h : Wakeful queue t) (hworld : t'.world = t.world)
    (hempties : t'.empties = t.empties) (hmessages : ∀ m ∈ t'.broker, Known t.world.db m)
    (hheld : ∀ n x, t'.slots n = some x → Known t.world.db x.message)
    (hsafe : ∀ n m, t'.slots n = some (.decided m true) → m.eventID ∈ t.spent)
    (hsent : ∀ c ∈ t.sent, c ∈ t'.sent)
    (hcarried : ∀ c ∈ t'.sent, c ∈ t.spent ∨ ∃ m ∈ t'.broker, m.eventID = c) :
    Wakeful queue t' := by
  have hspent : t'.spent = t.spent := by
    unfold Traffic.spent
    rw [hworld, hempties]
  refine ⟨hworld ▸ h.sound, ?_, ?_, ?_, ?_, ?_, ?_, ?_⟩
  · rw [hspent, hworld]
    exact h.spent_known
  · rw [hworld]
    exact hmessages
  · rw [hworld]
    exact hheld
  · rw [hspent]
    exact hsafe
  · rw [hworld]
    exact fun e he hpub => hsent e.id (h.published e he hpub)
  · rw [hspent]
    exact hcarried
  · rw [hspent, hworld]
    exact h.enough

/-- Whatever a slot is given, the others keep theirs. -/
theorem slots_update {slots : ℕ → Option Slot} {n k : ℕ} {x : Option Slot} {y : Slot}
    (h : Function.update slots n x k = some y) : x = some y ∨ slots k = some y := by
  by_cases hk : k = n
  · left
    rw [hk, Function.update_self] at h
    exact h
  · right
    rw [Function.update_of_ne hk] at h
    exact h

/-- A slot with a delivery that is known, and decided only if it may be. -/
theorem Wakeful.update (h : Wakeful queue t) (n : ℕ) {x : Option Slot}
    (hknown : ∀ y, x = some y → Known t.world.db y.message)
    (hsafe : ∀ m, x = some (.decided m true) → m.eventID ∈ t.spent) :
    Wakeful queue { t with slots := Function.update t.slots n x } := by
  refine h.traffic rfl rfl h.messages ?_ ?_ (fun c hc => hc) h.carried
  · intro k y hy
    rcases slots_update hy with hx | hslot
    · exact hknown y hx
    · exact h.held k y hslot
  · intro k m hm
    rcases slots_update hm with hx | hslot
    · exact hsafe m hx
    · exact h.safe k m hslot

/-- The events that carry a message's identity are of its queue. -/
theorem Known.countP_le {db : DB} {m : Envelope} (h : Known db m) (queue : String) :
    db.outbox.rows.countP (fun e => e.id == m.eventID && isFor queue e)
      ≤ if m.data.queue = queue then 1 else 0 := by
  by_cases hq : m.data.queue = queue
  · rw [if_pos hq]
    exact countP_id_le db m.eventID (isFor queue)
  · rw [if_neg hq, Nat.le_zero, List.countP_eq_zero]
    intro e he hcount
    obtain ⟨e₀, he₀, hid, hdata⟩ := h
    simp only [isFor, Bool.and_eq_true, beq_iff_eq] at hcount
    rw [db.event_eq_of_id he he₀ (hcount.1.trans hid.symm), hdata] at hcount
    exact hq hcount.2.2

/-- A queue of one scope that is answered empty has no `QUEUED` job: they are all
due. -/
theorem Wakeful.queuedIn_eq_zero (h : Wakeful queue t) {now : Int}
    (hclock : t.world.clock ≤ now) (hone : OneScope queue scope t.world.db)
    (hdue : ∀ j ∈ t.world.db.jobs.rows, isDue scope queue now j = false) :
    t.world.db.queuedIn queue = 0 := by
  rw [DB.queuedIn, List.countP_eq_zero]
  intro j hj hqueued
  simp only [isQueuedIn, Bool.and_eq_true, beq_iff_eq] at hqueued
  have hwaits := ((h.sound.cases j.id).phase (caseFile_job_of_mem hj)).waits (.inr (.inl hqueued.2))
  have havailable : j.availableAt ≤ now := (hwaits.due hqueued.2).1.trans hclock
  have hno := hdue j hj
  simp [isDue, hone.jobs j hj hqueued.1, hqueued.1, hqueued.2, havailable] at hno

/-- A claim leaves the outbox alone and uses up its own identity at most. -/
theorem Wakeful.spend (h : Wakeful queue t) {c : UUID} (hsound : Sound w)
    (houtbox : w.db.outbox.rows = t.world.db.outbox.rows)
    (hc : ∃ e ∈ t.world.db.outbox.rows, e.id = c) {empties : List UUID}
    (hmono : ∀ x ∈ t.spent, x ∈ w.db.claims ++ empties)
    (hspent : ∀ x ∈ w.db.claims ++ empties, x ∈ t.spent ∨ x = c)
    (henough : w.db.queuedIn queue
      ≤ unspentIn queue (w.db.claims ++ empties) t.world.db.outbox.rows) :
    Wakeful queue { t with world := w, empties := empties } := by
  have hknown : ∀ {m : Envelope}, Known t.world.db m → Known w.db m := by
    rintro m ⟨e, he, hid, hdata⟩
    exact ⟨e, houtbox ▸ he, hid, hdata⟩
  refine ⟨hsound, ?_, ?_, ?_, ?_, ?_, ?_, ?_⟩
  · show ∀ x ∈ w.db.claims ++ empties, ∃ e ∈ w.db.outbox.rows, e.id = x
    rw [houtbox]
    intro x hx
    rcases hspent x hx with hold | rfl
    · exact h.spent_known x hold
    · exact hc
  · exact fun m hm => hknown (h.messages m hm)
  · exact fun n x hx => hknown (h.held n x hx)
  · exact fun n m hm => hmono _ (h.safe n m hm)
  · show ∀ e ∈ w.db.outbox.rows, e.status = .published → e.id ∈ t.sent
    rw [houtbox]
    exact h.published
  · exact fun x hx => (h.carried x hx).imp_left (hmono x)
  · show w.db.queuedIn queue ≤ unspentIn queue (w.db.claims ++ empties) w.db.outbox.rows
    rw [houtbox]
    exact henough

/-- **A claim takes a notification and a job, or finds no job to take.** -/
theorem Wakeful.claimed (h : Wakeful queue t) {n : ℕ} {m : Envelope}
    {workerID sessionID : UUID} {q sc : String} {req : ClaimRequest}
    (hslot : t.slots n = some (.received m)) (hreq : claimFor workerID sessionID q m = some req)
    (hcall : l.request.call = .claim sc req) (hs : Step t.world l w)
    (hone : OneScope queue scope t.world.db) :
    Wakeful queue { t with world := w, empties := l.emptied ++ t.empties } ∧
      (safeAck l.outcome = true →
        m.eventID ∈ Traffic.spent { t with world := w, empties := l.emptied ++ t.empties }) := by
  obtain ⟨hid, hqueue⟩ := claimFor_eq_some hreq
  have hknown : Known t.world.db m := h.held n _ hslot
  have hc : ∃ e ∈ t.world.db.outbox.rows, e.id = req.claimRequestID := by
    obtain ⟨e, he, heid, -⟩ := hknown
    exact ⟨e, he, heid.trans hid.symm⟩
  have hcost := hknown.countP_le queue
  rw [← hid, ← hqueue] at hcost
  have hsound := hs.sound h.sound
  have henough := h.enough
  cases hs.spending hcall with
  | none same emptied safe =>
    have hspent : w.db.claims ++ (l.emptied ++ t.empties) = t.spent := by
      rw [same, emptied]
      rfl
    refine ⟨h.spend hsound (by rw [same]) hc ?_ ?_ ?_, fun hsafe => ?_⟩
    · exact fun x hx => hspent ▸ hx
    · exact fun x hx => .inl (hspent ▸ hx)
    · rw [hspent, same]
      exact henough
    · show m.eventID ∈ w.db.claims ++ (l.emptied ++ t.empties)
      rw [same, ← hid]
      exact List.mem_append_left _ (safe hsafe)
  | empty same emptied scopes due =>
    have hspent : ∀ x ∈ w.db.claims ++ (l.emptied ++ t.empties),
        x ∈ t.spent ∨ x = req.claimRequestID := by
      intro x hx
      simp only [same, emptied, List.mem_append, List.mem_singleton] at hx
      simp only [Traffic.spent, List.mem_append]
      tauto
    refine ⟨h.spend hsound (by rw [same]) hc ?_ hspent ?_, fun _ => ?_⟩
    · intro x hx
      simp only [Traffic.spent, List.mem_append] at hx
      simp only [same, List.mem_append]
      tauto
    · by_cases hq : req.queue = queue
      · -- The answer is right for this queue: nothing of it is queued.
        have hscope : sc = scope := scopes scope (hq ▸ hone)
        have hsample : t.world.clock ≤ l.request.env.clock.s₁ :=
          hs.clock_le_sample.trans l.request.env.clock.le₁
        rw [hscope, hq] at due
        rw [same, h.queuedIn_eq_zero hsample hone due]
        exact Nat.zero_le _
      · have hspend := unspentIn_spend queue t.world.db.outbox.rows hspent
        have hjobs : w.db.queuedIn queue = t.world.db.queuedIn queue := by rw [same]
        rw [if_neg hq] at hcost
        omega
    · show m.eventID ∈ w.db.claims ++ (l.emptied ++ t.empties)
      rw [emptied, ← hid]
      simp
  | assigned j mem queued jobs outbox claims emptied =>
    have hspent : ∀ x ∈ w.db.claims ++ (l.emptied ++ t.empties),
        x ∈ t.spent ∨ x = req.claimRequestID := by
      intro x hx
      simp only [claims, emptied, List.mem_append, List.mem_singleton, List.nil_append] at hx
      simp only [Traffic.spent, List.mem_append]
      tauto
    refine ⟨h.spend hsound outbox hc ?_ hspent ?_, fun _ => ?_⟩
    · intro x hx
      simp only [Traffic.spent, List.mem_append] at hx
      simp only [claims, List.mem_append]
      tauto
    · have hspend := unspentIn_spend queue t.world.db.outbox.rows hspent
      have hjobs := jobs queue
      -- The job it took is counted for the queue the notification was counted for.
      have hcounts : isQueuedIn queue j = true ↔ req.queue = queue := by
        simp only [isQueuedIn, Bool.and_eq_true, beq_iff_eq] at queued ⊢
        rw [queued.1]
        exact ⟨fun hx => hx.1, fun hx => ⟨hx, queued.2⟩⟩
      by_cases hq : req.queue = queue
      · rw [if_pos hq] at hcost
        rw [if_pos (hcounts.mpr hq)] at hjobs
        omega
      · rw [if_neg hq] at hcost
        omega
    · show m.eventID ∈ w.db.claims ++ (l.emptied ++ t.empties)
      rw [claims, ← hid]
      simp

theorem TrafficStep.oneScope (hs : TrafficStep t o t') (h : OneScope queue scope t'.world.db) :
    OneScope queue scope t.world.db := by
  cases hs with
  | store step call => exact step.oneScope h
  | claimed heard slot request call step => exact step.oneScope h
  | outbox run marked =>
    have honly := (OutboxCall.moved run).only
    rw [honly] at h
    exact ⟨h.jobs, h.sessions⟩
  | _ => exact h

/-- **Every step keeps the invariant.** -/
theorem TrafficStep.wakeful (hs : TrafficStep t o t') (h : Wakeful queue t)
    (hone : OneScope queue scope t.world.db) : Wakeful queue t' := by
  cases hs with
  | store step call => exact h.store step call
  | outbox run marked => exact h.outbox run marked
  | @sent e event =>
    refine h.traffic rfl rfl ?_ h.held h.safe (fun c hc => List.mem_cons_of_mem _ hc) ?_
    · intro m hm
      rcases List.mem_cons.mp hm with rfl | hold
      · exact ⟨e, event, rfl, rfl⟩
      · exact h.messages m hold
    · intro c hc
      rcases List.mem_cons.mp hc with rfl | hold
      · exact .inr ⟨_, List.mem_cons_self, rfl⟩
      · refine (h.carried c hold).imp_right ?_
        rintro ⟨m, hm, hid⟩
        exact ⟨m, List.mem_cons_of_mem _ hm, hid⟩
  | @duplicated m held =>
    refine h.traffic rfl rfl ?_ h.held h.safe (fun c hc => hc) ?_
    · intro x hx
      rcases List.mem_cons.mp hx with rfl | hold
      · exact h.messages x held
      · exact h.messages x hold
    · intro c hc
      refine (h.carried c hc).imp_right ?_
      rintro ⟨x, hx, hid⟩
      exact ⟨x, List.mem_cons_of_mem _ hx, hid⟩
  | @received n m held idle =>
    refine h.update n ?_ ?_
    · intro y hy
      cases hy
      exact h.messages m held
    · intro m' hm'
      cases hm'
  | @claimed n m workerID sessionID q sc req l w heard slot request call step =>
    obtain ⟨hworld, hsafe⟩ := h.claimed slot request call step hone
    cases heard with
    | false => exact hworld
    | true =>
      refine hworld.update n ?_ ?_
      · intro y hy
        cases hy
        exact hworld.held n (.received m) slot
      · intro m' hm'
        simp only [Option.some.injEq, Slot.decided.injEq] at hm'
        rw [← hm'.1]
        exact hsafe hm'.2
  | @followed n k m m' safe slot leader event =>
    refine h.update n ?_ ?_
    · intro y hy
      cases hy
      exact h.held n (.received m) slot
    · intro x hx
      simp only [Option.some.injEq, Slot.decided.injEq] at hx
      rw [← hx.1, ← event]
      exact h.safe k m' (by rw [leader, hx.2])
  | @acknowledged n m slot =>
    refine h.traffic rfl rfl (fun x hx => h.messages x (List.mem_of_mem_erase hx)) h.held h.safe
      (fun c hc => hc) ?_
    intro c hc
    rcases h.carried c hc with hspent | ⟨x, hx, hid⟩
    · exact .inl hspent
    · -- If the receipt that goes was the last of the event, the event is used up.
      by_cases hxm : x = m
      · rw [← hid, hxm]
        exact .inl (h.safe n m slot)
      · exact .inr ⟨x, (List.mem_erase_of_ne hxm).mpr hx, hid⟩
  | @released n => exact h.update n (fun y hy => by cases hy) (fun m hm => by cases hm)

end Invariant

/-! ## The result -/

/-- The queued jobs of a queue are covered by its notifications. -/
structure Covered (queue : String) (t : Traffic) : Prop where
  /-- There are at least as many notifications that are not used up as jobs. -/
  enough : t.world.db.queuedIn queue ≤ unspentIn queue t.spent t.world.db.outbox.rows
  /-- A notification that is not used up is to be published, or held by the broker. -/
  reachable : ∀ e ∈ t.world.db.outbox.rows, e.id ∉ t.spent →
    e.status = .pending ∨ ∃ m ∈ t.broker, m.eventID = e.id

/-- **No wake-up is lost in a queue of one scope.** Rows of jobs and sessions are
never removed, so it is enough to look at the last state. -/
theorem no_lost_wakeup {queue scope : String} {t₀ t : Traffic} {trace : List (Option Label)}
    (hopen : Opening t₀) (hrun : Run TrafficStep t₀ trace t)
    (hone : OneScope queue scope t.world.db) : Covered queue t := by
  have hwakeful : Wakeful queue t := by
    refine hrun.invariant (P := fun t => OneScope queue scope t.world.db → Wakeful queue t)
      (fun h hs hone => ?_) (fun _ => hopen.wakeful) hone
    exact hs.wakeful (h (hs.oneScope hone)) (hs.oneScope hone)
  refine ⟨hwakeful.enough, fun e he hspent => ?_⟩
  cases hs : e.status with
  | pending => exact .inl rfl
  | published =>
    exact .inr ((hwakeful.carried e.id (hwakeful.published e he hs)).resolve_left hspent)

/-! ### A run -/

/-- Store calls other than claims, made one after the other. -/
theorem Traffic.store_run (t : Traffic) {reqs : List Request} (hclock : Clocked t.world.clock reqs)
    (hcalls : ∀ r ∈ reqs, ∀ scope req, r.call ≠ .claim scope req) :
    Run TrafficStep t ((t.world.exec reqs).1.map some) { t with world := (t.world.exec reqs).2 } := by
  induction reqs generalizing t with
  | nil => exact .nil t
  | cons r rest ih =>
    have hstep := t.world.step_step hclock.1
    have hcall : ∀ scope req, (t.world.step r).1.request.call ≠ .claim scope req := by
      rw [World.step_request]
      exact hcalls r List.mem_cons_self
    refine .cons (.store hstep hcall) (ih { t with world := (t.world.step r).2 } ?_ ?_)
    · show Clocked (t.world.step r).2.clock rest
      rw [World.step_clock]
      exact hclock.2
    · exact fun x hx => hcalls x (List.mem_cons_of_mem r hx)

/-- The envelope of the sample job's event. -/
def sampleMessage : Envelope := (scanEvent (workAvailableEvent 3 2 2 "default" 1 none)).envelope

/-- The claim it asks the sample worker for. -/
def sampleWakeup : Request := ⟨envAt 4 10 11, .claim "tenant" ⟨1, 7, 3, "default"⟩⟩

/-- Another job of the tenant. -/
def sampleAnother : Request :=
  ⟨envAt 5 8 9, .submit "tenant" "other" ⟨"default", "email", "\x7b\x7d", 5, 3, 60, [], none⟩
    ⟨"", ""⟩⟩

/-- The sample job is submitted and claimed with its notification, and another is
submitted: one job is queued, and one notification is left. -/
theorem no_lost_wakeup_sample :
    ∃ trace t, Run TrafficStep ⟨quiet, [], fun _ => none, [], []⟩ trace t ∧
      t.world.db.queuedIn "default" = 1 ∧ Covered "default" t := by
  have hopen : Opening ⟨quiet, [], fun _ => none, [], []⟩ :=
    ⟨quiet_initial, by decide, rfl, fun _ => rfl, rfl, rfl⟩
  have hstores : Run TrafficStep ⟨quiet, [], fun _ => none, [], []⟩ _
      ⟨(quiet.exec (sampleStart.take 2)).2, [], fun _ => none, [], []⟩ :=
    Traffic.store_run _ (by decide : Clocked quiet.clock (sampleStart.take 2)) (by
      intro r hr scope req
      simp only [sampleStart, List.take_succ_cons, List.take_zero, List.mem_cons,
        List.not_mem_nil, or_false] at hr
      rcases hr with rfl | rfl <;> exact Call.noConfusion)
  obtain ⟨hevent, hclock, hlater, hjobs, hsessions, hqueued⟩ :
      workAvailableEvent 3 2 2 "default" 1 none
        ∈ (quiet.exec (sampleStart.take 2)).2.db.outbox.rows ∧
      (quiet.exec (sampleStart.take 2)).2.clock ≤ sampleWakeup.env.clock.s₀ ∧
      ((quiet.exec (sampleStart.take 2)).2.step sampleWakeup).2.clock
        ≤ sampleAnother.env.clock.s₀ ∧
      (∀ j ∈ (((quiet.exec (sampleStart.take 2)).2.step sampleWakeup).2.step
        sampleAnother).2.db.jobs.rows, j.queue = "default" → j.scope = "tenant") ∧
      (∀ s ∈ (((quiet.exec (sampleStart.take 2)).2.step sampleWakeup).2.step
        sampleAnother).2.db.sessions.rows, s.scope = "tenant") ∧
      (((quiet.exec (sampleStart.take 2)).2.step sampleWakeup).2.step sampleAnother).2.db.queuedIn
        "default" = 1 := by decide +kernel
  -- Nothing else is used of the state the submission leaves.
  generalize (quiet.exec (sampleStart.take 2)).2 = w at *
  have hcall : (w.step sampleWakeup).1.request.call = .claim "tenant" ⟨1, 7, 3, "default"⟩ :=
    congrArg Request.call (World.step_request _ _)
  have hother := World.step_request (w.step sampleWakeup).2 sampleAnother
  -- The event is sent, received by a slot, and claimed with; then the other job comes.
  have hrun := hstores.append (.cons (.sent hevent) (.cons
    (.received (n := 0) (m := sampleMessage) List.mem_cons_self rfl)
    (.cons (.claimed true (Function.update_self ..) (by decide +kernel :
      claimFor 1 7 "default" sampleMessage = some ⟨1, 7, 3, "default"⟩) hcall
      (World.step_step _ hclock))
    (.cons (.store (World.step_step _ hlater) (by rw [hother]; exact fun _ _ => Call.noConfusion))
      (.nil _)))))
  have hone : OneScope "default" "tenant" ((w.step sampleWakeup).2.step sampleAnother).2.db :=
    ⟨hjobs, fun s hs _ _ _ _ => hsessions s hs⟩
  exact ⟨_, _, hrun, hqueued, no_lost_wakeup hopen hrun hone⟩

end TaskForge

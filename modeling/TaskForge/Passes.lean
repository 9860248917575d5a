/-
The bounded passes of the scheduler and of the reconciler: `PromoteDueJobs`,
`RenotifyStrandedQueued` (`internal/jobs/schedule.go`), `ReconcileDueTimeouts` and
`ReconcileExpiredLeases` (`internal/workers/timeout.go`, `reconcile.go`).

Each pass reads a bounded, ordered list of candidate ids without a lock, and gives
every candidate a transaction of its own; the first one that fails ends the pass. A
pass takes what its transactions need from outside (`Env`) from a stream of draws,
one for each, and returns what is left of it.

A pass is an instance of a sweep (`Sweep.lean`): `Treated` is what one transaction
has to do for that, and `sweeps_of_passes` what passes in a row then leave.
-/
import TaskForge.Recovery
import TaskForge.Outbox
import TaskForge.Query
import TaskForge.Sweep

open Relational Fallible Sweeping

namespace TaskForge

/-! ## What the scans select -/

/-- `ORDER BY` an instant, then `id`. -/
def scanOrder : SortOrder (Int × UUID) :=
  .lex (.asc Int) ((SortOrder.asc ℕ).comap BitVec.toNat uuid_injective)

/-- `PromoteDueJobs`' scan, without its limit. -/
def dueJobs (now : Int) (db : DB) : List UUID :=
  scan scanOrder (isPromotable now) Job.availableAt Job.id db.jobs.rows

/-- An active lease that has run out. -/
def isLapsed (now : Int) (l : Lease) : Bool := l.status == .active && decide (l.expiresAt ≤ now)

/-- `ReconcileExpiredLeases`' scan, without its limit. -/
def lapsedLeases (now : Int) (db : DB) : List UUID :=
  scan scanOrder (isLapsed now) Lease.expiresAt Lease.id db.leases.rows

/-- A running attempt whose deadline has come. -/
def isOverdueRun (now : Int) (a : JobAttempt) : Bool :=
  a.status == .running && a.timeoutAt.any fun t => decide (t ≤ now)

/-- `ReconcileDueTimeouts`' scan, without its limit. -/
def overdueRuns (now : Int) (db : DB) : List UUID :=
  scan scanOrder (isOverdueRun now) (fun a => a.timeoutAt.getD 0) JobAttempt.id db.attempts.rows

/-- A queued job that was last advertised before the interval began. The interval is
what PostgreSQL makes of the configured duration, in microseconds. -/
def isQuietJob (interval now : Int) (j : Job) : Bool :=
  j.status == .queued && j.lastNotificationAt.any fun t => decide (t < now - interval)

/-- `RenotifyStrandedQueued`'s scan, without its limit. -/
def quietJobs (interval now : Int) (db : DB) : List UUID :=
  scan scanOrder (isQuietJob interval now) (fun j => j.lastNotificationAt.getD 0) Job.id
    db.jobs.rows

/-! ## The passes -/

/-- `jobs.SchedulerStats` -/
structure SchedulerStats where
  promotedJobs : ℕ
  renotified : ℕ
  skipped : ℕ
deriving DecidableEq, Repr

/-- How a pass ended: its counts, the database, the error it returned, and the draws
it did not use. -/
structure Pass (σ : Type) where
  stats : σ
  db : DB
  error : Option Failure
  envs : ℕ → Env

/-- `for _, id := range candidates`: a transaction for each, until one fails. -/
def forCandidates {σ : Type} (act : Env → UUID → σ → DB → Tx (σ × DB)) :
    List UUID → (ℕ → Env) → σ → DB → Pass σ
  | [], envs, stats, db => ⟨stats, db, none, envs⟩
  | id :: ids, envs, stats, db =>
    match act (envs 0) id stats db with
    | .ok (stats', db') => forCandidates act ids (fun k => envs (k + 1)) stats' db'
    | .error f => ⟨stats, db, some f, fun k => envs (k + 1)⟩

/-- The pass over at most `limit` of the rows a scan finds. -/
def boundedPass {σ : Type} (act : Env → UUID → σ → DB → Tx (σ × DB)) (due : DB → List UUID)
    (zero : σ) (limit : ℕ) (envs : ℕ → Env) (db : DB) : Pass σ :=
  if limit < 1 then ⟨zero, db, some ⟨.failed "scan limit must be positive", .check⟩, envs⟩
  else forCandidates act ((due db).take limit) envs zero db

/-- A scheduler transaction that found its row taken is told `false`, and writes
nothing. -/
def orSkipped (db : DB) : Tx (Bool × DB) → Tx (Bool × DB)
  | .ok r => .ok r
  | .error f => if f.error = .skipped then .ok (false, db) else .error f

/-- One candidate of `PromoteDueJobs`. -/
def promoteCandidate (env : Env) (id : UUID) (stats : SchedulerStats) (db : DB) :
    Tx (SchedulerStats × DB) := do
  let (promoted, db') ← orSkipped db (promoteDueJob env id db)
  if promoted then pure ({ stats with promotedJobs := stats.promotedJobs + 1 }, db')
  else pure ({ stats with skipped := stats.skipped + 1 }, db')

/-- One candidate of `RenotifyStrandedQueued`. -/
def renotifyCandidate (after : Int) (env : Env) (id : UUID) (stats : SchedulerStats) (db : DB) :
    Tx (SchedulerStats × DB) := do
  let (renotified, db') ← orSkipped db (renotifyStrandedJob env id after db)
  if renotified then pure ({ stats with renotified := stats.renotified + 1 }, db')
  else pure ({ stats with skipped := stats.skipped + 1 }, db')

/-- `PromoteDueJobs` -/
def promoteDueJobs (now : Int) (limit : ℕ) (envs : ℕ → Env) (db : DB) : Pass SchedulerStats :=
  boundedPass promoteCandidate (dueJobs now) ⟨0, 0, 0⟩ limit envs db

/-- `RenotifyStrandedQueued` -/
def renotifyStrandedQueued (after interval now : Int) (limit : ℕ) (envs : ℕ → Env) (db : DB) :
    Pass SchedulerStats :=
  if after ≤ 0 then
    ⟨⟨0, 0, 0⟩, db, some ⟨.failed "re-notification interval must be positive", .check⟩, envs⟩
  else boundedPass (renotifyCandidate after) (quietJobs interval now) ⟨0, 0, 0⟩ limit envs db

/-- Nothing counted yet. -/
def ReconcileStats.zero : ReconcileStats := ⟨0, 0, 0, 0, 0, 0, 0, 0⟩

/-- `ReconcileDueTimeouts` -/
def reconcileDueTimeouts (now : Int) (limit : ℕ) (envs : ℕ → Env) (db : DB) :
    Pass ReconcileStats :=
  boundedPass reconcileDueTimeout (overdueRuns now) .zero limit envs db

/-- `ReconcileExpiredLeases` -/
def reconcileExpiredLeases (now : Int) (limit : ℕ) (envs : ℕ → Env) (db : DB) :
    Pass ReconcileStats :=
  boundedPass reconcileExpiredLease (lapsedLeases now) .zero limit envs db

/-- Passes in a row, with nothing in between. -/
def inTurn {σ : Type} (pass : (ℕ → Env) → DB → Pass σ) : ℕ → (ℕ → Env) → DB → List (Pass σ) × DB
  | 0, _, db => ([], db)
  | k + 1, envs, db =>
    let first := pass envs db
    let rest := inTurn pass k first.envs first.db
    (first :: rest.1, rest.2)

/-! ## Passes as sweeps -/

/-- Two draws have no id in common. -/
def Env.Apart (x y : Env) : Prop :=
  x.id₁ ≠ y.id₁ ∧ x.id₁ ≠ y.id₂ ∧ x.id₂ ≠ y.id₁ ∧ x.id₂ ≠ y.id₂

instance (x y : Env) : Decidable (x.Apart y) :=
  inferInstanceAs (Decidable (x.id₁ ≠ y.id₁ ∧ x.id₁ ≠ y.id₂ ∧ x.id₂ ≠ y.id₁ ∧ x.id₂ ≠ y.id₂))

/-- The next `b` transactions are made at `t`, with ids that are new to the database
and to one another. -/
structure Draws (t : Int) (envs : ℕ → Env) (b : ℕ) (db : DB) : Prop where
  now : ∀ k < b, (envs k).clock.s₀ = t ∧ (envs k).clock.s₂ = t
  duration : ∀ k < b, 1000 ≤ (envs k).leaseDuration
  fresh : ∀ k < b, Fresh (envs k) db
  apart : ∀ k < b, ∀ m < b, k ≠ m → (envs k).Apart (envs m)

instance (t : Int) (envs : ℕ → Env) (b : ℕ) (db : DB) : Decidable (Draws t envs b db) :=
  decidable_of_iff ((∀ k < b, (envs k).clock.s₀ = t ∧ (envs k).clock.s₂ = t) ∧
      (∀ k < b, 1000 ≤ (envs k).leaseDuration) ∧ (∀ k < b, Fresh (envs k) db) ∧
      ∀ k < b, ∀ m < b, k ≠ m → (envs k).Apart (envs m))
    ⟨fun ⟨h₁, h₂, h₃, h₄⟩ => ⟨h₁, h₂, h₃, h₄⟩, fun ⟨h₁, h₂, h₃, h₄⟩ => ⟨h₁, h₂, h₃, h₄⟩⟩

/-- What is left of the draws after the first. -/
theorem Draws.next {t : Int} {envs : ℕ → Env} {b : ℕ} {db db' : DB} (h : Draws t envs (b + 1) db)
    (hfresh : ∀ other, (envs 0).Apart other → Fresh other db → Fresh other db') :
    Draws t (fun k => envs (k + 1)) b db' where
  now k hk := h.now (k + 1) (by omega)
  duration k hk := h.duration (k + 1) (by omega)
  fresh k hk := hfresh _ (h.apart 0 (by omega) (k + 1) (by omega) (by omega))
    (h.fresh (k + 1) (by omega))
  apart k hk m hm hne := h.apart (k + 1) (by omega) (m + 1) (by omega) (by omega)

/-- A bounded scan: the transaction of a candidate, the candidates in order, those
that qualify, where they and the others are counted, and what a transaction does to
the database. -/
structure ScanSpec (σ : Type) where
  act : Env → UUID → σ → DB → Tx (σ × DB)
  due : DB → List UUID
  qualifies : DB → UUID → Bool
  zero : σ
  done : σ → ℕ
  skipped : σ → ℕ
  Moved : DB → DB → Prop

/-- The invariant holds, as of some instant up to `t`. -/
def Standing (t : Int) (db : DB) : Prop := ∃ c ≤ t, Sound ⟨db, c⟩

theorem Standing.run {t : Int} {env : Env} {db db' : DB} {ans : Answer} (h : Standing t db)
    (call : Call) (h₀ : env.clock.s₀ = t) (h₂ : env.clock.s₂ = t)
    (hrun : call.run env db = .ok (ans, db')) : Standing t db' := by
  obtain ⟨c, hc, hsound⟩ := h
  have hstep : Step ⟨db, c⟩ ⟨⟨env, call⟩, .ok ans⟩ ⟨db', env.clock.s₂⟩ :=
    .committed (h₀ ▸ hc) hrun
  exact ⟨t, le_refl t, h₂ ▸ hstep.sound hsound⟩

/-- The write leaves the ids of the table as they are. -/
def KeepsIDs {R : Type} (id : R → UUID) : RowWrite R → Prop
  | .keep => True
  | .insert _ => False
  | .replace old new => id new = id old

theorem KeepsIDs.mem {R : Type} [DecidableEq R] {id : R → UUID} {w : RowWrite R} {rows : List R}
    {r : R} (h : KeepsIDs id w) (hr : r ∈ w.apply rows) : ∃ r₀ ∈ rows, id r = id r₀ := by
  rcases RowWrite.mem_apply hr with hr | rfl | ⟨old, hold, rfl⟩
  · exact ⟨r, hr, rfl⟩
  · exact False.elim h
  · exact ⟨old, hold, h⟩

/-- Ids that are new stay new while only a draw apart from them is used. -/
theorem Fresh.applied {env other : Env} {db db' : DB} {w : Writes} (h : Fresh other db)
    (happ : w.Applied db db') (hapart : env.Apart other) (hjob : KeepsIDs Job.id w.job)
    (hattempt : KeepsIDs JobAttempt.id w.attempt) (hlease : KeepsIDs Lease.id w.lease)
    (hevents : ∀ e ∈ w.events, e.id = env.id₁) (hdlq : ∀ d ∈ w.dlq, d.id = env.id₁)
    (hreplays : w.replays = []) : Fresh other db' where
  job j hj := by
    rw [happ.jobs] at hj
    obtain ⟨j₀, hj₀, he⟩ := hjob.mem hj
    exact he ▸ h.job j₀ hj₀
  attempt a ha := by
    rw [happ.attempts] at ha
    obtain ⟨a₀, ha₀, he⟩ := hattempt.mem ha
    exact he ▸ h.attempt a₀ ha₀
  lease l hl := by
    rw [happ.leases] at hl
    obtain ⟨l₀, hl₀, he⟩ := hlease.mem hl
    exact he ▸ h.lease l₀ hl₀
  dlqEntry d hd := by
    rw [happ.dlqEntries] at hd
    rcases List.mem_append.mp hd with hd | hd
    · exact h.dlqEntry d hd
    · rw [hdlq d hd]
      exact hapart.1
  event e he := by
    rw [happ.outbox] at he
    rcases List.mem_append.mp he with he | he
    · exact h.event e he
    · rw [hevents e he]
      exact ⟨hapart.1, hapart.2.1⟩
  worker x hx := by
    rw [happ.workers] at hx
    exact h.worker x hx
  replacement r hr := by
    rw [happ.dlqReplays, hreplays, List.append_nil] at hr
    exact h.replacement r hr

namespace ScanSpec

variable {σ : Type}

/-- What the transaction of one candidate did. -/
structure Treated (S : ScanSpec σ) (t : Int) (env : Env) (id : UUID) (stats stats' : σ)
    (db db' : DB) : Prop where
  standing : Standing t db'
  fresh : ∀ other, env.Apart other → Fresh other db → Fresh other db'
  due : S.due db' = (S.due db).filter fun k => !(k == id && S.qualifies db id)
  verdict : ∀ k ∈ S.due db', S.qualifies db' k = S.qualifies db k
  done : S.done stats' = S.done stats + if S.qualifies db id then 1 else 0
  skipped : S.skipped stats' = S.skipped stats + if S.qualifies db id then 0 else 1
  moved : S.Moved db db'

/-- Every candidate's transaction commits, and treats it. -/
structure Works (S : ScanSpec σ) (t : Int) : Prop where
  nodup : ∀ db, (S.due db).Nodup
  done_zero : S.done S.zero = 0
  skipped_zero : S.skipped S.zero = 0
  refl : ∀ db, S.Moved db db
  trans : ∀ {db₁ db₂ db₃}, S.Moved db₁ db₂ → S.Moved db₂ db₃ → S.Moved db₁ db₃
  treats : ∀ {env db id} (stats), Standing t db → env.clock.s₀ = t → env.clock.s₂ = t →
    1000 ≤ env.leaseDuration → Fresh env db → id ∈ S.due db →
    ∃ stats' db', S.act env id stats db = .ok (stats', db') ∧ S.Treated t env id stats stats' db db'

/-- A state of the loop: the database, the draws, and how many of them may be used. -/
structure State where
  db : DB
  envs : ℕ → Env
  left : ℕ

/-- One turn of the loop. -/
def Turn (S : ScanSpec σ) (s : State) (id : UUID) (s' : State) : Prop :=
  s.left = s'.left + 1 ∧ (s'.envs = fun k => s.envs (k + 1)) ∧
    ∃ stats stats', S.act (s.envs 0) id stats s.db = .ok (stats', s'.db)

/-- What holds between the turns. -/
def Ready (t : Int) (s : State) : Prop := Standing t s.db ∧ Draws t s.envs s.left s.db

section

variable {S : ScanSpec σ} {t : Int}
variable {db : DB} {envs : ℕ → Env} {b n : ℕ} {id : UUID}

/-- With a draw left, a candidate's transaction commits and treats it. -/
theorem Works.treat (h : S.Works t) (stats : σ) (hs : Ready t ⟨db, envs, b + 1⟩)
    (hid : id ∈ S.due db) :
    ∃ stats' db', S.act (envs 0) id stats db = .ok (stats', db') ∧
      S.Treated t (envs 0) id stats stats' db db' ∧
      Ready t ⟨db', fun k => envs (k + 1), b⟩ := by
  obtain ⟨hstand, hdraws⟩ := hs
  have hfirst : 0 < b + 1 := by omega
  obtain ⟨stats', db', hact, htreated⟩ := h.treats stats hstand (hdraws.now 0 hfirst).1
    (hdraws.now 0 hfirst).2 (hdraws.duration 0 hfirst) (hdraws.fresh 0 hfirst) hid
  exact ⟨stats', db', hact, htreated, htreated.standing, Draws.next hdraws htreated.fresh⟩

theorem Works.turn (h : S.Works t) {s s' : State} (hs : Ready t s) (hid : id ∈ S.due s.db)
    (hturn : S.Turn s id s') :
    Ready t s' ∧ ∃ stats stats', S.Treated t (s.envs 0) id stats stats' s.db s'.db := by
  obtain ⟨db, envs, left⟩ := s
  obtain ⟨db', envs', left'⟩ := s'
  obtain ⟨hleft, henvs, stats, stats', hact⟩ := hturn
  dsimp only at hleft henvs hact hid ⊢
  subst hleft henvs
  obtain ⟨stats₁, db₁, hact₁, htreated, hready⟩ := h.treat stats hs hid
  obtain ⟨rfl, rfl⟩ := Prod.mk.inj (Except.ok.inj (hact.symm.trans hact₁))
  exact ⟨hready, stats, stats', htreated⟩

/-- The loop is a system that is swept. -/
theorem Works.tidy (h : S.Works t) :
    Tidy (fun s : State => S.due s.db) (fun s => S.qualifies s.db) S.Turn (Ready t) where
  nodup s _ := h.nodup s.db
  kept hs hid hturn := (h.turn hs hid hturn).1
  due_eq hs hid hturn := by
    obtain ⟨-, _, _, htreated⟩ := h.turn hs hid hturn
    exact htreated.due
  verdict hs hid hturn hk := by
    obtain ⟨-, _, _, htreated⟩ := h.turn hs hid hturn
    exact htreated.verdict _ hk

/-- The loop over candidates does not fail, and counts what it treats. -/
theorem Works.loop (h : S.Works t) {ids : List UUID} (stats : σ)
    (hs : Ready t ⟨db, envs, b + ids.length⟩) (hids : ids.Nodup) (hsub : ∀ i ∈ ids, i ∈ S.due db) :
    (forCandidates S.act ids envs stats db).error = none ∧
      Runs.Run S.Turn ⟨db, envs, b + ids.length⟩ ids ⟨(forCandidates S.act ids envs stats db).db,
        (forCandidates S.act ids envs stats db).envs, b⟩ ∧
      S.done (forCandidates S.act ids envs stats db).stats
        = S.done stats + ids.countP (S.qualifies db) ∧
      S.skipped (forCandidates S.act ids envs stats db).stats
        = S.skipped stats + ids.countP (fun i => !S.qualifies db i) ∧
      S.Moved db (forCandidates S.act ids envs stats db).db := by
  induction ids generalizing envs stats db with
  | nil => exact ⟨rfl, .nil _, rfl, rfl, h.refl db⟩
  | cons id ids ih =>
    have hid := hsub id List.mem_cons_self
    obtain ⟨stats', db', hact, htreated, hready⟩ := h.treat stats hs hid
    obtain ⟨hnot, hnodup⟩ := List.nodup_cons.mp hids
    -- The others are still candidates, under the same verdicts.
    have hsub' : ∀ i ∈ ids, i ∈ S.due db' := by
      intro i hi
      rw [htreated.due, List.mem_filter]
      refine ⟨hsub i (List.mem_cons_of_mem id hi), ?_⟩
      have hne : i ≠ id := fun he => hnot (he ▸ hi)
      simp [hne]
    obtain ⟨herror, hrun, hdone, hskipped, hmoved⟩ := ih stats' hready hnodup hsub'
    have hloop : forCandidates S.act (id :: ids) envs stats db
        = forCandidates S.act ids (fun k => envs (k + 1)) stats' db' := by
      rw [forCandidates, hact]
    rw [hloop]
    have hverdict : ∀ i ∈ ids, S.qualifies db' i = S.qualifies db i :=
      fun i hi => htreated.verdict i (hsub' i hi)
    have hyes : ids.countP (S.qualifies db') = ids.countP (S.qualifies db) :=
      List.countP_congr fun i hi => by rw [hverdict i hi]
    have hno : ids.countP (fun i => !S.qualifies db' i) = ids.countP fun i => !S.qualifies db i :=
      List.countP_congr fun i hi => by rw [hverdict i hi]
    refine ⟨herror, .cons ⟨rfl, rfl, stats, stats', hact⟩ hrun, ?_, ?_, h.trans htreated.moved hmoved⟩
    · rw [hdone, htreated.done, hyes, List.countP_cons, Nat.add_right_comm, Nat.add_assoc]
    · rw [hskipped, htreated.skipped, hno, List.countP_cons]
      cases S.qualifies db id
      · simp only [Bool.not_false, if_true, Bool.false_eq_true, if_false]
        omega
      · simp

/-- A pass does not fail, and is one sweep. -/
theorem Works.pass (h : S.Works t) (hn : 1 ≤ n)
    (hs : Ready t ⟨db, envs, b + ((S.due db).take n).length⟩) :
    (boundedPass S.act S.due S.zero n envs db).error = none ∧
      Sweeping.Swept (fun s : State => S.due s.db) S.Turn n
        ⟨db, envs, b + ((S.due db).take n).length⟩ ((S.due db).take n)
        ⟨(boundedPass S.act S.due S.zero n envs db).db,
          (boundedPass S.act S.due S.zero n envs db).envs, b⟩ ∧
      S.done (boundedPass S.act S.due S.zero n envs db).stats
        = ((S.due db).take n).countP (S.qualifies db) ∧
      S.skipped (boundedPass S.act S.due S.zero n envs db).stats
        = ((S.due db).take n).countP (fun i => !S.qualifies db i) ∧
      S.Moved db (boundedPass S.act S.due S.zero n envs db).db := by
  have hpass : boundedPass S.act S.due S.zero n envs db
      = forCandidates S.act ((S.due db).take n) envs S.zero db := by
    rw [boundedPass, if_neg (by omega)]
  obtain ⟨herror, hrun, hdone, hskipped, hmoved⟩ := h.loop S.zero hs
    ((h.nodup db).sublist (List.take_sublist n _)) fun i hi => List.mem_of_mem_take hi
  rw [h.done_zero, Nat.zero_add] at hdone
  rw [h.skipped_zero, Nat.zero_add] at hskipped
  rw [hpass]
  exact ⟨herror, ⟨rfl, hrun⟩, hdone, hskipped, hmoved⟩

/-- What passes in a row have done. -/
structure Swept (S : ScanSpec σ) (t : Int) (n k : ℕ) (db : DB) (passes : List (Pass σ))
    (db' : DB) : Prop where
  ok : ∀ p ∈ passes, p.error = none
  standing : Standing t db'
  due : S.due db' = (sweep n (S.qualifies db))^[k] (S.due db)
  verdict : ∀ i ∈ S.due db', S.qualifies db' i = S.qualifies db i
  done : (passes.map fun p => S.done p.stats).sum + (S.due db').length = (S.due db).length
  skipped : ∀ p ∈ passes, S.skipped p.stats ≤ (S.due db).countP fun i => !S.qualifies db i
  moved : S.Moved db db'

/-- **Passes in a row are sweeps in a row.** None of them fails. -/
theorem Works.passes (h : S.Works t) (hn : 1 ≤ n) (k : ℕ) (hs : Ready t ⟨db, envs, b⟩)
    (hb : k * n ≤ b) :
    S.Swept t n k db (inTurn (boundedPass S.act S.due S.zero n) k envs db).1
      (inTurn (boundedPass S.act S.due S.zero n) k envs db).2 := by
  induction k generalizing envs b db with
  | zero => exact ⟨by simp [inTurn], hs.1, rfl, fun _ _ => rfl, by simp [inTurn],
      by simp [inTurn], h.refl db⟩
  | succ k ih =>
    have hlength : ((S.due db).take n).length ≤ n := List.length_take_le n _
    rw [Nat.succ_mul] at hb
    obtain ⟨left, rfl⟩ : ∃ left, b = left + ((S.due db).take n).length :=
      ⟨b - ((S.due db).take n).length, by omega⟩
    obtain ⟨herror, hswept, hdone, hskipped, hmoved⟩ := h.pass hn hs
    obtain ⟨hready, hdue, hverdict⟩ := h.tidy.swept hs hswept
    have hrest := ih hready (by omega)
    refine ⟨?_, hrest.standing, ?_, fun i hi => ?_, ?_, ?_, h.trans hmoved hrest.moved⟩
    · intro p hp
      rcases List.mem_cons.mp hp with rfl | hp
      · exact herror
      · exact hrest.ok p hp
    · have hnext := hrest.due
      rw [iterate_sweep_congr hverdict, hdue] at hnext
      exact hnext
    · have hi' : i ∈ S.due (boundedPass S.act S.due S.zero n envs db).db :=
        (iterate_sweep_sublist _ _ _ _).subset (hrest.due ▸ hi)
      exact (hrest.verdict i hi).trans (hverdict i hi')
    · have hcount := hrest.done
      have htaken : ((S.due db).take n).countP (S.qualifies db)
          + (S.due (boundedPass S.act S.due S.zero n envs db).db).length = (S.due db).length := by
        rw [hdue]
        exact countP_add_length_sweep
      simp only [inTurn, List.map_cons, List.sum_cons]
      omega
    · intro p hp
      rcases List.mem_cons.mp hp with rfl | hp
      · rw [hskipped]
        exact (List.take_sublist n _).countP_le
      · -- What a later pass skips was there, under the same verdict, from the start.
        refine (hrest.skipped p hp).trans ?_
        have hsame : (S.due (boundedPass S.act S.due S.zero n envs db).db).countP
              (fun i => !S.qualifies (boundedPass S.act S.due S.zero n envs db).db i)
            = (S.due (boundedPass S.act S.due S.zero n envs db).db).countP
              fun i => !S.qualifies db i :=
          List.countP_congr fun i hi => by rw [hverdict i hi]
        rw [hsame, hdue]
        exact (sweep_sublist n _ _).countP_le

end

end ScanSpec

end TaskForge

/-
Renewals (`RenewLease`).

A lease remembers one renewal, the last: its identity, and a version that counts
the renewals before it. Exactly-once is therefore not a matter of remembering
identities. An extension is written only at the version its caller expected, and
raises it; so a version is extended once, whoever asks, however often and in
whatever order, and a caller whose version has passed is told so or shown the
window it already has.

`Step.lease_step` is the inversion everything rests on: a transaction issues a
lease, closes one, leaves them alone, or is an extension, and then its label says
so.
-/
import TaskForge.Permanence

open Relational Fallible

namespace TaskForge

/-! ## Labels -/

/-- The renewal a call asks for. -/
def Label.renewal (l : Label) : Option RenewalRequest :=
  match l.request.call with
  | .renewLease _ req => some req
  | _ => none

/-- The call extended the lease. -/
def Label.extended (id : UUID) (l : Label) : Bool :=
  match l.request.call, l.outcome with
  | .renewLease _ req, .ok (.renewed r) => req.fence.leaseID == id && !r.replayed
  | _, _ => false

theorem Label.extended_of_answer {l : Label} {id : UUID} {scope : String} {req : RenewalRequest}
    {r : RenewalResult} (hcall : l.request.call = .renewLease scope req)
    (hout : l.outcome = .ok (.renewed r)) (hfresh : r.replayed = false) :
    l.extended id = (req.fence.leaseID == id) := by
  unfold Label.extended
  rw [hcall, hout]
  simp [hfresh]

/-- The call extended the lease, and expected this version. -/
def Label.extendedAt (id : UUID) (version : Int) (l : Label) : Bool :=
  l.extended id && l.renewal.any fun req => req.expectedVersion == version

/-- The call extended the lease, with this identity and this version. -/
def Label.extendedBy (id renewalID : UUID) (version : Int) (l : Label) : Bool :=
  l.extendedAt id version && l.renewal.any fun req => req.renewalRequestID == renewalID

/-! ## What a transaction does to the leases -/

/-- What a transaction other than an extension does to the leases. -/
inductive Reissue (env : Env) (rows rows' : List Lease) : Prop where
  | kept (same : rows' = rows)
  | issued (l : Lease) (version : l.renewalVersion = 0) (renewed : l.renewedAt = env.clock.s₁)
      (expiry : l.expiresAt = leaseExpiry env env.clock.s₁) (eq : rows' = rows ++ [l])
  | closed (l : Lease) (status : LeaseStatus) (mem : l ∈ rows)
      (eq : rows' = replaceRow l (closedLease status env.clock.s₀ l) rows)

section Inversion

variable {env : Env} {db db' : DB} {call : Call} {id : UUID} {w : Writes}

theorem Verdict.reissue {scope : String} {j : Job} {a : JobAttempt} {l : Lease}
    (h : Verdict env scope j a l w) (happ : w.Applied db db') (hl : l ∈ db.leases.rows) :
    Reissue env db.leases.rows db'.leases.rows := by
  cases h with
  | canceled | timedOut | abandoned => exact .closed l _ hl happ.leases

theorem Performs.reissue (h : Performs env db call id w) (happ : w.Applied db db')
    (hcall : ∀ scope req, call ≠ .renewLease scope req) :
    Reissue env db.leases.rows db'.leases.rows := by
  cases h with
  | submit | replay | cancel | promote | renotify => exact .kept happ.leases
  | claim scope req s j ready => exact .issued _ rfl rfl rfl happ.leases
  | start => exact .kept happ.leases
  | renew scope req => exact absurd rfl (hcall scope req)
  | succeed scope fence result s j a l binding | fail scope report s j a l d binding
  | acknowledge scope ack s j a l binding | timeOut stats s j a l d binding =>
    exact .closed l _ binding.lease_mem happ.leases
  | expire stats s j a l w binding lapsed verdict => exact verdict.reissue happ binding.lease_mem

theorem Commit.reissue (h : Commit env db db' call)
    (hcall : ∀ scope req, call ≠ .renewLease scope req) :
    Reissue env db.leases.rows db'.leases.rows := by
  cases h with
  | unchanged call same => exact .kept (by rw [same])
  | registered scope registration reg wid valid only => exact .kept (by rw [only.leases])
  | beat scope req s session scope_eq healthy moved | staled s staleAfter stale moved =>
    exact .kept (by rw [moved.only.leases])
  | wrote call id w performs applied => exact performs.reissue applied hcall

end Inversion

/-- What a step does to the leases, against what its label says. -/
inductive LeaseStep (w : World) (l : Label) (w' : World) : Prop where
  | other (silent : ∀ id, l.extended id = false)
      (leases : Reissue l.request.env w.db.leases.rows w'.db.leases.rows)
  | extended (scope : String) (req : RenewalRequest) (r : RenewalResult) (s : WorkerSession)
      (j : Job) (a : JobAttempt) (m : Lease) (call : l.request.call = .renewLease scope req)
      (outcome : l.outcome = .ok (.renewed r)) (fresh : r.replayed = false)
      (binding : Authority w.db scope req.fence s j a m)
      (ready : RenewReady l.request.env req w.db s j a m)
      (rows : w'.db.leases.rows = replaceRow m (renewedLease l.request.env.clock.s₀
        (leaseExpiry l.request.env l.request.env.clock.s₀) req.renewalRequestID m) w.db.leases.rows)

section Steps

variable {w w' : World} {l : Label}

/-- **Every step issues a lease, closes one, leaves them alone, or extends one.** -/
theorem Step.lease_step (hs : Step w l w') : LeaseStep w l w' := by
  cases hs with
  | @refused req f clock run =>
    refine .other (fun id => ?_) (.kept rfl)
    simp [Label.extended]
  | @committed req ans db clock run =>
    by_cases hcall : ∃ scope renewal, req.call = .renewLease scope renewal
    · obtain ⟨scope, renewal, hrenew⟩ := hcall
      rw [hrenew] at run
      obtain ⟨r, hr, rfl⟩ := answering_eq_ok.mp run
      obtain ⟨s, j, a, m, hA, -, -, hdone⟩ := renewLease_answer hr
      cases hdone with
      | replayed replayed version expiry identity expected same =>
        refine .other (fun id => ?_) (.kept (by rw [same]))
        simp [Label.extended, hrenew, replayed]
      | extended fresh version expiry ready applied =>
        exact .extended scope renewal r s j a m hrenew rfl fresh hA ready applied.leases
    · refine .other (fun id => ?_) ((Call.commit run).reissue fun scope renewal heq => ?_)
      · unfold Label.extended
        split
        · next scope renewal r hreq _ => exact absurd ⟨scope, renewal, hreq⟩ hcall
        · rfl
      · exact hcall ⟨scope, renewal, heq⟩

end Steps

/-! ## Versions -/

/-- The version of the lease, or zero while there is none. -/
def versionOf (db : DB) (id : UUID) : ℕ :=
  ((db.leases.rows.find? fun l => l.id == id).map Lease.renewalVersion).getD 0

section Versions

variable {w w' : World} {l : Label} {db : DB} {id : UUID} {m m' : Lease}

theorem lease_find (hm : m ∈ db.leases.rows) :
    (db.leases.rows.find? fun l => l.id == m.id) = some m := by
  refine find?_eq_some_of_unique hm (beq_self_eq_true m.id) fun x hx hid => ?_
  exact db.lease_eq_of_id hx hm (beq_iff_eq.mp hid)

theorem versionOf_of_mem (hm : m ∈ db.leases.rows) : versionOf db m.id = m.renewalVersion := by
  unfold versionOf
  rw [lease_find hm]
  rfl

/-- A lease that is rewritten under its id has the version written. -/
theorem versionOf_replace (hm : m ∈ w.db.leases.rows)
    (hrows : w'.db.leases.rows = replaceRow m m' w.db.leases.rows) (hid : m'.id = m.id) :
    versionOf w'.db id = if m.id = id then m'.renewalVersion else versionOf w.db id := by
  by_cases heq : m.id = id
  · rw [if_pos heq, ← heq, ← hid]
    refine versionOf_of_mem ?_
    rw [hrows]
    exact mem_replaceRow.mpr (.inr ⟨rfl, hm⟩)
  · rw [if_neg heq]
    unfold versionOf
    have hold : (m.id == id) = false := beq_eq_false_iff_ne.mpr heq
    have hnew : (m'.id == id) = false := by rw [hid]; exact hold
    rw [hrows, find?_replaceRow_of_neg (fun l : Lease => l.id == id) hold hnew]

/-- A transaction other than an extension leaves every version alone; a lease it
issues starts at zero. -/
theorem Reissue.versionOf {env : Env} (h : Reissue env w.db.leases.rows w'.db.leases.rows) :
    versionOf w'.db id = versionOf w.db id := by
  cases h with
  | kept same =>
    unfold TaskForge.versionOf
    rw [same]
  | issued m version renewed expiry eq =>
    unfold TaskForge.versionOf
    rw [eq, List.find?_append]
    cases hfind : w.db.leases.rows.find? fun l => l.id == id with
    | some x => rfl
    | none =>
      by_cases hm : m.id = id
      · simp [hm, version]
      · simp [hm]
  | closed m status mem eq =>
    rw [versionOf_replace mem eq rfl]
    by_cases hm : m.id = id
    · rw [if_pos hm, ← hm, versionOf_of_mem mem]
      rfl
    · rw [if_neg hm]

/-- An extension raises the version of its lease, which was the one it
expected. -/
theorem Step.versionOf (hs : Step w l w') :
    versionOf w'.db id = versionOf w.db id + if l.extended id then 1 else 0 := by
  cases hs.lease_step with
  | other silent leases => rw [leases.versionOf, silent id, if_neg (by simp), Nat.add_zero]
  | extended scope req r s j a m call outcome fresh binding ready rows =>
    have hext := (Label.extended_of_answer call outcome fresh).trans
      (congrArg (· == id) binding.lease_id.symm)
    rw [versionOf_replace binding.lease_mem rows rfl, hext]
    by_cases hm : m.id = id
    · rw [if_pos hm, ← hm, versionOf_of_mem binding.lease_mem]
      simp [renewedLease]
    · rw [if_neg hm]
      simp [hm]

/-- Whether a version has been extended. -/
def passed (version : Int) (db : DB) (id : UUID) : ℕ :=
  if 0 ≤ version ∧ version < versionOf db id then 1 else 0

/-- **A version is extended when it is passed, and it is passed once.** -/
theorem Step.passed (version : Int) (hs : Step w l w') :
    passed version w'.db id = passed version w.db id + if l.extendedAt id version then 1 else 0 := by
  have hversion : TaskForge.versionOf w'.db id
      = TaskForge.versionOf w.db id + if l.extended id then 1 else 0 := hs.versionOf
  cases hs.lease_step with
  | other silent leases =>
    have hno : l.extendedAt id version = false := by
      unfold Label.extendedAt
      rw [silent id, Bool.false_and]
    rw [silent id, if_neg (by simp), Nat.add_zero] at hversion
    unfold TaskForge.passed
    rw [hversion, hno]
    rfl
  | extended scope req r s j a m call outcome fresh binding ready rows =>
    have hext := (Label.extended_of_answer call outcome fresh).trans
      (congrArg (· == id) binding.lease_id.symm)
    have hat : l.extendedAt id version = (m.id == id && req.expectedVersion == version) := by
      unfold Label.extendedAt Label.renewal
      rw [hext, call]
      simp
    unfold TaskForge.passed
    rw [hversion, hext, hat]
    by_cases hm : m.id = id
    · have hexpected := ready.version
      rw [← versionOf_of_mem binding.lease_mem, hm] at hexpected
      -- The version it passes is the one it expected, and no other.
      by_cases hv : req.expectedVersion = version
      · simp only [hm, hv, beq_self_eq_true, Bool.and_self, if_true]
        rw [if_pos (by push_cast; omega), if_neg (by omega)]
      · have hbeq : (req.expectedVersion == version) = false := beq_eq_false_iff_ne.mpr hv
        simp only [hm, hbeq, beq_self_eq_true, Bool.and_false, if_true]
        by_cases hp : 0 ≤ version ∧ version < TaskForge.versionOf w.db id
        · rw [if_pos hp, if_pos (by push_cast; omega)]
          rfl
        · rw [if_neg hp, if_neg (by push_cast; omega)]
          rfl
    · simp [hm]

end Versions

/-! ## Windows -/

/-- Every lease expires one lease duration after it was last renewed. -/
def Windowed (duration : Int) (w : World) : Prop :=
  ∀ l ∈ w.db.leases.rows, l.expiresAt = storeTime (goTime l.renewedAt + duration) ∧
    l.renewedAt ≤ w.clock

/-- The leases of `w` are leases of `w'`, and none expires earlier there. -/
def NotShortened (w w' : World) : Prop :=
  ∀ l ∈ w.db.leases.rows, ∃ l' ∈ w'.db.leases.rows, l'.id = l.id ∧ l.expiresAt ≤ l'.expiresAt

section Windows

variable {w w' : World} {l : Label} {duration : Int}

theorem storeTime_mono {x y : Int} (h : x ≤ y) : storeTime x ≤ storeTime y :=
  Int.ediv_le_ediv (by decide) h

/-- A later renewal ends later. -/
theorem Windowed.expiry_le (h : Windowed duration w) {m : Lease} (hm : m ∈ w.db.leases.rows)
    {env : Env} (hd : env.leaseDuration = duration) {t : Int} (ht : w.clock ≤ t) :
    m.expiresAt ≤ leaseExpiry env t := by
  obtain ⟨hexp, hren⟩ := h m hm
  unfold leaseExpiry
  rw [hexp, hd]
  refine storeTime_mono ?_
  unfold goTime
  omega

theorem Step.windowed (hs : Step w l w') (hd : l.request.env.leaseDuration = duration)
    (h : Windowed duration w) : Windowed duration w' := by
  have hclock := hs.clock_le
  have hs₂ : l.request.env.clock.s₂ = w'.clock := by cases hs <;> rfl
  have hkept : ∀ m ∈ w.db.leases.rows, m.expiresAt = storeTime (goTime m.renewedAt + duration) ∧
      m.renewedAt ≤ w'.clock := fun m hm => ⟨(h m hm).1, (h m hm).2.trans hclock⟩
  intro m hm
  cases hs.lease_step with
  | other silent leases =>
    cases leases with
    | kept same => exact hkept m (same ▸ hm)
    | issued new version renewed expiry eq =>
      rw [eq, List.mem_append, List.mem_singleton] at hm
      rcases hm with hm | rfl
      · exact hkept m hm
      · refine ⟨?_, ?_⟩
        · rw [expiry, renewed, leaseExpiry, hd]
        · rw [renewed, ← hs₂]
          exact l.request.env.clock.le₂
    | closed old status mem eq =>
      rw [eq, mem_replaceRow] at hm
      rcases hm with ⟨hm, -⟩ | ⟨rfl, -⟩
      · exact hkept m hm
      · exact hkept old mem
  | extended scope req r s j a old call outcome fresh binding ready rows =>
    rw [rows, mem_replaceRow] at hm
    rcases hm with ⟨hm, -⟩ | ⟨rfl, -⟩
    · exact hkept m hm
    · refine ⟨?_, ?_⟩
      · show leaseExpiry l.request.env l.request.env.clock.s₀ = _
        rw [leaseExpiry, hd]
        rfl
      · rw [← hs₂]
        exact l.request.env.clock.s₀_le_s₂

/-- What a step makes of a stored lease. -/
theorem Step.lease_becomes (hs : Step w l w') {m : Lease} (hm : m ∈ w.db.leases.rows) :
    ∃ m' ∈ w'.db.leases.rows, m' = m ∨
      (∃ status, m' = closedLease status l.request.env.clock.s₀ m) ∨
      ∃ id, m' = renewedLease l.request.env.clock.s₀
        (leaseExpiry l.request.env l.request.env.clock.s₀) id m := by
  have hreplaced : ∀ {old new : Lease}, w'.db.leases.rows = replaceRow old new w.db.leases.rows →
      m ∈ w'.db.leases.rows ∨ m = old ∧ new ∈ w'.db.leases.rows := by
    intro old new hrows
    rw [hrows]
    by_cases heq : m = old
    · exact .inr ⟨heq, mem_replaceRow.mpr (.inr ⟨rfl, heq ▸ hm⟩)⟩
    · exact .inl (mem_replaceRow.mpr (.inl ⟨hm, heq⟩))
  cases hs.lease_step with
  | other silent leases =>
    cases leases with
    | kept same => exact ⟨m, same ▸ hm, .inl rfl⟩
    | issued new version renewed expiry eq =>
      rw [eq]
      exact ⟨m, List.mem_append_left _ hm, .inl rfl⟩
    | closed old status mem eq =>
      obtain hkept | ⟨rfl, hnew⟩ := hreplaced eq
      · exact ⟨m, hkept, .inl rfl⟩
      · exact ⟨_, hnew, .inr (.inl ⟨status, rfl⟩)⟩
  | extended scope req r s j a old call outcome fresh binding ready rows =>
    obtain hkept | ⟨rfl, hnew⟩ := hreplaced rows
    · exact ⟨m, hkept, .inl rfl⟩
    · exact ⟨_, hnew, .inr (.inr ⟨_, rfl⟩)⟩

/-- **No step shortens a lease.** -/
theorem Step.notShortened (hs : Step w l w') (hd : l.request.env.leaseDuration = duration)
    (h : Windowed duration w) : NotShortened w w' := by
  intro m hm
  obtain ⟨m', hm', rfl | ⟨status, rfl⟩ | ⟨id, rfl⟩⟩ := hs.lease_becomes hm
  · exact ⟨m', hm', rfl, le_rfl⟩
  · exact ⟨_, hm', rfl, le_rfl⟩
  · exact ⟨_, hm', rfl, h.expiry_le hm hd hs.clock_le_sample⟩

end Windows

/-! ## The end of a lease -/

/-- The lease can no longer be renewed: it is closed, or its window or its
attempt's deadline has passed. -/
def PastRenewal (db : DB) (now : Int) (l : Lease) : Prop :=
  l.status ≠ .active ∨ l.expiresAt ≤ now ∨
    ∃ a ∈ db.attempts.rows, a.id = l.attemptID ∧ ∃ t, a.timeoutAt = some t ∧ t ≤ now

/-- The lease stands where it stood, and cannot be renewed. -/
def Standstill (l : Lease) (w : World) : Prop :=
  ∃ m ∈ w.db.leases.rows, m.id = l.id ∧ m.attemptID = l.attemptID ∧ m.expiresAt = l.expiresAt ∧
    m.renewalVersion = l.renewalVersion ∧ PastRenewal w.db w.clock m

section Past

variable {w w' : World} {x : Label} {l : Lease}

theorem PastRenewal.mono {db : DB} {now t : Int} (h : PastRenewal db now l) (hle : now ≤ t) :
    PastRenewal db t l := by
  rcases h with h | h | ⟨a, ha, hid, u, hu, hle'⟩
  · exact .inl h
  · exact .inr (.inl (h.trans hle))
  · exact .inr (.inr ⟨a, ha, hid, u, hu, hle'.trans hle⟩)

/-- A call with a live lease and a deadline ahead is not on a lease that is past
renewal. -/
theorem PastRenewal.not_live {db : DB} {scope : String} {fence : Fence} {s : WorkerSession}
    {j : Job} {a : JobAttempt} {m : Lease} {now : Int} (h : PastRenewal db now l)
    (hl : l ∈ db.leases.rows) (hA : Authority db scope fence s j a m) (hid : fence.leaseID = l.id)
    (hlive : Live now s m) (htime : InTime now a) : False := by
  have hml : m = l := db.lease_eq_of_id hA.lease_mem hl (hA.lease_id.trans hid)
  rcases h with h | h | ⟨b, hb, hbid, t, ht, hle⟩
  · exact h (hml ▸ hlive.active)
  · have hexp := hlive.unexpired
    rw [hml] at hexp
    omega
  · have hba : b = a := db.attempt_eq_of_id hb hA.attempt_mem
      (by rw [hbid, ← hml, hA.lease_attempt, hA.attempt_id])
    have hlt := htime t (hba ▸ ht)
    omega

/-- **A renewal of such a lease is refused.** -/
theorem PastRenewal.refused (hs : Step w x w') (hl : l ∈ w.db.leases.rows)
    (h : PastRenewal w.db x.request.env.clock.s₀ l) {scope : String} {req : RenewalRequest}
    (hcall : x.request.call = .renewLease scope req) (hid : req.fence.leaseID = l.id) :
    ∃ f, x.outcome = .error f := by
  cases hout : x.outcome with
  | error f => exact ⟨f, rfl⟩
  | ok ans =>
    obtain ⟨r, hr, -⟩ := answering_eq_ok.mp (hs.ran hcall hout)
    obtain ⟨s, j, a, m, hA, hlive, htime, -⟩ := renewLease_answer hr
    exact (h.not_live hl hA hid hlive htime).elim

/-- A lease that is past renewal stays as it is, but for being closed. -/
theorem Standstill.step (hs : Step w x w') (hsound : Sound w) (h : Standstill l w) :
    Standstill l w' := by
  obtain ⟨m, hm, hid, hattempt, hexp, hver, hpast⟩ := h
  have hclock := hs.clock_le
  -- The deadline is stamped once, and the clock does not run backwards.
  have hkeep : ∀ {m' : Lease}, m'.attemptID = m.attemptID → m'.expiresAt = m.expiresAt →
      (m.status ≠ .active → m'.status ≠ .active) → PastRenewal w'.db w'.clock m' := by
    intro m' hatt hexp' hstatus
    rcases hpast with h | h | ⟨a, ha, haid, t, ht, hle⟩
    · exact .inl (hstatus h)
    · exact .inr (.inl (hexp' ▸ h.trans hclock))
    · obtain ⟨a', ha', hstamped⟩ := (hs.permanent hsound).stamps a ha
      have haid' : a'.id = a.id := (Prod.mk.inj hstamped.binding).1
      exact .inr (.inr ⟨a', ha', by rw [haid', haid, hatt], t, hstamped.timeout t ht,
        hle.trans hclock⟩)
  have hsame : m ∈ w'.db.leases.rows → Standstill l w' := fun hm' =>
    ⟨m, hm', hid, hattempt, hexp, hver, hkeep rfl rfl id⟩
  cases hs.lease_step with
  | other silent leases =>
    cases leases with
    | kept same => exact hsame (same ▸ hm)
    | issued new version renewed expiry eq =>
      rw [eq] at hsame
      exact hsame (List.mem_append_left _ hm)
    | closed old status mem eq =>
      by_cases heq : m = old
      · -- Closing it needs it active, and leaves it closed.
        have hmem : closedLease status x.request.env.clock.s₀ m ∈ w'.db.leases.rows := by
          rw [eq, heq]
          exact mem_replaceRow.mpr (.inr ⟨rfl, mem⟩)
        refine ⟨_, hmem, hid, hattempt, hexp, hver, hkeep rfl rfl fun hclosed => ?_⟩
        have hperm := (hs.permanent hsound).lease m hm hclosed
        rw [w'.db.lease_eq_of_id hmem hperm rfl]
        exact hclosed
      · rw [eq] at hsame
        exact hsame (mem_replaceRow.mpr (.inl ⟨hm, heq⟩))
  | extended scope req r s j a old call outcome fresh binding ready rows =>
    by_cases heq : m = old
    · have hlate := hpast.mono hs.clock_le_sample
      exact (hlate.not_live hm binding (by rw [heq, binding.lease_id]) ready.live
        ready.inTime).elim
    · rw [rows] at hsame
      exact hsame (mem_replaceRow.mpr (.inl ⟨hm, heq⟩))

end Past

/-! ## The result -/

/-- What a run from `w₀` to `w` did with the renewals of the lease `l` of `w`, and
what the calls after it can do. -/
structure RenewedOnce (w₀ : World) (trace : List Label) (w : World) (l : Lease) : Prop where
  /-- The version counts the extensions. -/
  counted : l.renewalVersion = trace.countP (Label.extended l.id)
  /-- A renewal identity at a version extended the lease at most once. -/
  once : ∀ renewalID version, trace.countP (Label.extendedBy l.id renewalID version) ≤ 1
  /-- The lease never expired later than it does now. -/
  expiry : ∀ before after w₁, trace = before ++ after → Execution w₀ before w₁ →
    Execution w₁ after w → ∀ m ∈ w₁.db.leases.rows, m.id = l.id → m.expiresAt ≤ l.expiresAt
  /-- A replay returns what is stored and writes nothing. -/
  replay : ∀ x w', Step w x w' → ∀ scope req r, x.request.call = .renewLease scope req →
    req.fence.leaseID = l.id → x.outcome = .ok (.renewed r) → r.replayed = true →
    r.expiresAt = l.expiresAt ∧ r.renewalVersion = l.renewalVersion ∧ w'.db = w.db
  /-- A call with another version than the lease's writes nothing. -/
  version : ∀ x w', Step w x w' → ∀ scope req, x.request.call = .renewLease scope req →
    req.fence.leaseID = l.id → (l.renewalVersion : Int) ≠ req.expectedVersion → w'.db = w.db
  /-- A call that comes too late is refused. -/
  late : ∀ x w', Step w x w' → ∀ scope req, x.request.call = .renewLease scope req →
    req.fence.leaseID = l.id → PastRenewal w.db x.request.env.clock.s₀ l →
    (∃ f, x.outcome = .error f) ∧ w'.db = w.db
  /-- Once it is too late, it stays so: every renewal is refused, and the window
  and the version stay. -/
  ended : PastRenewal w.db w.clock l → ∀ later w', Execution w later w' →
    (∀ x ∈ later, ∀ scope req, x.request.call = .renewLease scope req →
      req.fence.leaseID = l.id → ∃ f, x.outcome = .error f) ∧
    ∃ m ∈ w'.db.leases.rows, m.id = l.id ∧ m.expiresAt = l.expiresAt ∧
      m.renewalVersion = l.renewalVersion

section Result

variable {w₀ w w' : World} {trace : List Label} {duration : Int} {l : Lease} {x : Label}

/-- What an answered renewal of the lease did. -/
theorem Step.renewal_answered (hs : Step w x w') (hl : l ∈ w.db.leases.rows) {scope : String}
    {req : RenewalRequest} {r : RenewalResult} (hcall : x.request.call = .renewLease scope req)
    (hid : req.fence.leaseID = l.id) (hout : x.outcome = .ok (.renewed r)) :
    ∃ s j a, Renewal x.request.env req w.db w'.db s j a l r := by
  obtain ⟨s, j, a, m, hA, -, -, hdone⟩ := renewLease_answer (hs.renewed hcall hout)
  have hml : m = l := w.db.lease_eq_of_id hA.lease_mem hl (hA.lease_id.trans hid)
  exact ⟨s, j, a, hml ▸ hdone⟩

/-- A run with one lease duration keeps the windows and shortens none. -/
theorem notShortened_of_run (hrun : Execution w trace w') (hw : Windowed duration w)
    (hfixed : ∀ x ∈ trace, x.request.env.leaseDuration = duration) :
    NotShortened w w' ∧ Windowed duration w' := by
  have hrun' := hrun.restrict hfixed
  refine ⟨?_, ?_⟩
  · refine hrun'.related (P := Windowed duration) (R := NotShortened) ?_ ?_
      (fun h hs => hs.1.windowed hs.2 h) (fun h hs => hs.1.notShortened hs.2 h) hw
    · exact fun v m hm => ⟨m, hm, rfl, le_rfl⟩
    · intro u v z huv hvz m hm
      obtain ⟨m₁, hm₁, hid₁, hle₁⟩ := huv m hm
      obtain ⟨m₂, hm₂, hid₂, hle₂⟩ := hvz m₁ hm₁
      exact ⟨m₂, hm₂, hid₂.trans hid₁, hle₁.trans hle₂⟩
  · exact hrun'.invariant (P := Windowed duration) (fun h hs => hs.1.windowed hs.2 h) hw

theorem Standstill.run (hrun : Execution w trace w') (hsound : Sound w) (h : Standstill l w) :
    Standstill l w' := by
  have hinv := hrun.invariant (P := fun v => Sound v ∧ Standstill l v)
    (fun hI hs => ⟨hs.sound hI.1, Standstill.step hs hI.1 hI.2⟩) ⟨hsound, h⟩
  exact hinv.2

/-- **Renewal is exactly-once.** -/
theorem renewal_exactly_once (hinit : Initial w₀) (hrun : Execution w₀ trace w)
    (hfixed : ∀ x ∈ trace, x.request.env.leaseDuration = duration)
    (hl : l ∈ w.db.leases.rows) : RenewedOnce w₀ trace w l := by
  have hsound : Sound w := hrun.invariant (fun h hs => hs.sound h) hinit.sound
  have hstart : ∀ id, versionOf w₀.db id = 0 := by
    intro id
    simp [versionOf, hinit.leases]
  have hwindowed : Windowed duration w₀ := by
    intro m hm
    rw [hinit.leases] at hm
    cases hm
  refine ⟨?_, ?_, ?_, ?_, ?_, ?_, ?_⟩
  · have hcount := hrun.count (P := fun _ => True) (f := fun v => versionOf v.db l.id)
      (fun _ _ => trivial) (fun _ hs => hs.versionOf) trivial
    rw [hstart, versionOf_of_mem hl, Nat.zero_add] at hcount
    exact hcount
  · intro renewalID version
    have hcount := hrun.count (P := fun _ => True) (f := fun v => passed version v.db l.id)
      (fun _ _ => trivial) (fun _ hs => hs.passed version) trivial
    have hle : trace.countP (Label.extendedBy l.id renewalID version)
        ≤ trace.countP (Label.extendedAt l.id version) := by
      refine List.countP_mono_left fun x _ hx => ?_
      unfold Label.extendedBy at hx
      rw [Bool.and_eq_true] at hx
      exact hx.1
    have hend : passed version w.db l.id ≤ 1 := by
      unfold passed
      split <;> omega
    omega
  · intro before after w₁ htrace hbefore hafter m hm hid
    have hw₁ := (notShortened_of_run hbefore hwindowed fun x hx =>
      hfixed x (htrace ▸ List.mem_append_left _ hx)).2
    obtain ⟨m', hm', hid', hle⟩ := (notShortened_of_run hafter hw₁ fun x hx =>
      hfixed x (htrace ▸ List.mem_append_right _ hx)).1 m hm
    rw [w.db.lease_eq_of_id hm' hl (hid'.trans hid)] at hle
    exact hle
  · intro x w' hs scope req r hcall hid hout hreplayed
    obtain ⟨s, j, a, hdone⟩ := hs.renewal_answered hl hcall hid hout
    cases hdone with
    | replayed replayed version expiry identity expected same => exact ⟨expiry, version, same⟩
    | extended fresh =>
      rw [hreplayed] at fresh
      cases fresh
  · intro x w' hs scope req hcall hid hversion
    cases hs.lease_step with
    | extended scope' req' r s j a m call outcome fresh binding ready rows =>
      rw [hcall] at call
      cases call
      have hml : m = l := w.db.lease_eq_of_id binding.lease_mem hl (binding.lease_id.trans hid)
      exact absurd (hml ▸ ready.version) hversion
    | other silent leases =>
      -- Not an extension: it was refused, or it recognized a replay.
      cases hout : x.outcome with
      | error f => exact (hs.failed rfl hout).2
      | ok ans =>
        obtain ⟨r, -, rfl⟩ := answering_eq_ok.mp (hs.ran hcall hout)
        obtain ⟨s, j, a, hdone⟩ := hs.renewal_answered hl hcall hid hout
        cases hdone with
        | replayed replayed version expiry identity expected same => exact same
        | extended fresh version expiry ready applied => exact absurd ready.version hversion
  · intro x w' hs scope req hcall hid hpast
    obtain ⟨f, hf⟩ := PastRenewal.refused hs hl hpast hcall hid
    exact ⟨⟨f, hf⟩, (hs.failed rfl hf).2⟩
  · intro hpast later w' hlater
    have hstill : Standstill l w := ⟨l, hl, rfl, rfl, rfl, rfl, hpast⟩
    refine ⟨?_, ?_⟩
    · intro x hx scope req hcall hid
      obtain ⟨pre, post, w₁, w₂, -, hpre, hstep, -⟩ := hlater.exists_step_of_mem hx
      obtain ⟨m, hm, hmid, -, -, -, hmpast⟩ := Standstill.run hpre hsound hstill
      exact PastRenewal.refused hstep hm (hmpast.mono hstep.clock_le_sample) hcall
        (hid.trans hmid.symm)
    · obtain ⟨m, hm, hmid, -, hexp, hver, -⟩ := Standstill.run hlater hsound hstill
      exact ⟨m, hm, hmid, hexp, hver⟩

end Result

/-- The sample lease: extended, asked again for the same extension, extended
again, and asked for a version that has passed. -/
def sampleRenewals : List Request :=
  sampleStart ++
    [⟨envAt 5 0 0, .renewLease "tenant" ⟨sampleFence, 30, 0⟩⟩,
      ⟨envAt 6 0 0, .renewLease "tenant" ⟨sampleFence, 30, 0⟩⟩,
      ⟨envAt 7 0 0, .renewLease "tenant" ⟨sampleFence, 31, 1⟩⟩,
      ⟨envAt 8 0 0, .renewLease "tenant" ⟨sampleFence, 32, 1⟩⟩]

theorem renewal_exactly_once_sample :
    (quiet.exec sampleRenewals).1.countP (Label.extended 5) = 2 ∧
      ∃ l ∈ (quiet.exec sampleRenewals).2.db.leases.rows, l.id = 5 ∧ l.renewalVersion = 2 ∧
        RenewedOnce quiet (quiet.exec sampleRenewals).1 (quiet.exec sampleRenewals).2 l := by
  obtain ⟨hcount, l, hl, hid, hver⟩ : (quiet.exec sampleRenewals).1.countP (Label.extended 5) = 2 ∧
      ∃ l ∈ (quiet.exec sampleRenewals).2.db.leases.rows, l.id = 5 ∧ l.renewalVersion = 2 := by
    decide +kernel
  have hfixed : ∀ x ∈ (quiet.exec sampleRenewals).1,
      x.request.env.leaseDuration = 30000000000 := by
    intro x hx
    have hreq := World.mem_exec_requests hx
    have hall : ∀ r ∈ sampleRenewals, r.env.leaseDuration = 30000000000 := by decide
    exact hall x.request hreq
  exact ⟨hcount, l, hl, hid, hver, renewal_exactly_once quiet_initial
    (World.exec_run (by decide : Clocked 0 sampleRenewals)) hfixed hl⟩

end TaskForge

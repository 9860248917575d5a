/-
The first answer to a submission, and every later one.

`Submit` answers with the job it built in memory, of which it reads back only the two
timestamps that default to `now()`; a replay and `Get` answer with the row. What a
birth fixes stays as it is in every later state, and so does the instant a pending job
waits for (`JobsDescend`). So the first answer and the later ones differ in one way
only: the caller's instant has nanoseconds, and the column has microseconds
(`first_answer_kept_iff`).
-/
import TaskForge.Contest
import TaskForge.Fingerprint
import TaskForge.Permanence
import TaskForge.Storage

open Relational Fallible Runs

namespace TaskForge

/-! ## What later states keep of a job -/

/-- `j'` is `j` at a later time. -/
structure Descends (j j' : Job) : Prop where
  definition : j'.definition = j.definition
  scheduledAt : j'.scheduledAt = j.scheduledAt
  createdAt : j'.createdAt = j.createdAt
  /-- Nothing becomes pending again, and what is pending waits for the same instant. -/
  pending : j'.status = .pending → j.status = .pending ∧ j'.availableAt = j.availableAt

theorem Descends.refl (j : Job) : Descends j j := ⟨rfl, rfl, rfl, fun h => ⟨h, rfl⟩⟩

theorem Descends.trans {j j' j'' : Job} (h : Descends j j') (h' : Descends j' j'') :
    Descends j j'' where
  definition := h'.definition.trans h.definition
  scheduledAt := h'.scheduledAt.trans h.scheduledAt
  createdAt := h'.createdAt.trans h.createdAt
  pending hp := by
    obtain ⟨hp', hat'⟩ := h'.pending hp
    obtain ⟨hp'', hat⟩ := h.pending hp'
    exact ⟨hp'', hat'.trans hat⟩

section Moves

variable {env : Env} {db : DB} {id : UUID} {w : Writes}

/-- No move leaves a job pending. -/
theorem Lawful.not_pending (h : Lawful env db id w) {old new : Job}
    (hw : w.job = .replace old new) : new.status ≠ .pending := by
  cases h with
  | submit | replay | renew => cases hw
  | cancel j target job cancelable =>
    cases hw
    show target ≠ .pending
    rintro rfl
    cases hs : old.status <;> rw [hs] at cancelable <;> cases cancelable
  | renotify j after job stranded =>
    cases hw
    simp only [isStranded, Bool.and_eq_true, beq_iff_eq] at stranded
    show old.status ≠ .pending
    rw [stranded.1.1.1]
    decide
  | finalize scope o d j a l holds scope_eq ends decision identity =>
    cases hw
    unfold finalizedJob
    split_ifs <;> exact JobStatus.noConfusion
  | _ =>
    cases hw
    exact JobStatus.noConfusion

theorem Lawful.descends (h : Lawful env db id w) {old new : Job}
    (hw : w.job = .replace old new) : Descends old new where
  definition := (h.job_replaced hw).2
  scheduledAt := (h.birth_kept hw).1
  createdAt := (h.birth_kept hw).2.1
  pending hp := absurd hp (h.not_pending hw)

end Moves

/-- Jobs and idempotency records of `db` are in `db'`. -/
structure JobsDescend (db db' : DB) : Prop where
  jobs : ∀ j ∈ db.jobs.rows, ∃ j' ∈ db'.jobs.rows, Descends j j'
  records : ∀ r ∈ db.idempotency.rows, r ∈ db'.idempotency.rows

section Runs

variable {w w' : World} {l : Label} {trace : List Label}

theorem JobsDescend.refl (db : DB) : JobsDescend db db :=
  ⟨fun j hj => ⟨j, hj, .refl j⟩, fun _ hr => hr⟩

theorem JobsDescend.trans {db db' db'' : DB} (h : JobsDescend db db') (h' : JobsDescend db' db'') :
    JobsDescend db db'' where
  jobs j hj := by
    obtain ⟨j', hj', hd⟩ := h.jobs j hj
    obtain ⟨j'', hj'', hd'⟩ := h'.jobs j' hj'
    exact ⟨j'', hj'', hd.trans hd'⟩
  records r hr := h'.records r (h.records r hr)

theorem Step.jobsDescend (hs : Step w l w') : JobsDescend w.db w'.db := by
  cases hs.effect with
  | unchanged same =>
    rw [same]
    exact .refl _
  | sessions only kept workers owned =>
    refine ⟨?_, ?_⟩
    · rw [only.jobs]
      exact fun j hj => ⟨j, hj, .refl j⟩
    · rw [only.idempotency]
      exact fun _ hr => hr
  | move id writes lawful applied =>
    refine ⟨fun j hj => ?_, fun r hr => ?_⟩
    · rw [applied.jobs]
      rcases RowWrite.kept_or_replaced hj with hkept | ⟨new, hw, hmem⟩
      · exact ⟨j, hkept, .refl j⟩
      · exact ⟨new, hmem, lawful.descends hw⟩
    · rw [applied.idempotency]
      exact List.mem_append_left _ hr

theorem jobsDescend_of_run (hrun : Execution w trace w') : JobsDescend w.db w'.db :=
  hrun.related (P := fun _ => True) (R := fun v v' => JobsDescend v.db v'.db)
    (fun v => .refl v.db) JobsDescend.trans (fun _ _ => trivial)
    (fun _ hstep => hstep.jobsDescend) trivial

end Runs

/-! ## Answers -/

/-- The definition of a job in an answer, with the instant it waits for while it is
pending. -/
structure SameDefinition (first later : JobView) : Prop where
  queue : later.queue = first.queue
  type_ : later.type_ = first.type_
  payload : later.payload = first.payload
  priority : later.priority = first.priority
  maxAttempts : later.maxAttempts = first.maxAttempts
  timeoutSeconds : later.timeoutSeconds = first.timeoutSeconds
  requiredCapabilities : later.requiredCapabilities = first.requiredCapabilities
  scheduledAt : later.scheduledAt = first.scheduledAt
  createdAt : later.createdAt = first.createdAt
  availableAt : later.status = .pending → later.availableAt = first.availableAt

/-- The requested instant, if there is one, is one the column holds. -/
def WholeMicroseconds (req : NormalizedRequest) : Prop :=
  ∀ t, req.scheduledAt = some t → t % 1000 = 0

theorem goTime_storeTime {t : Int} : goTime (storeTime t) = t ↔ t % 1000 = 0 := by
  unfold goTime storeTime
  omega

section Answers

variable {env : Env} {scope : String} {req : NormalizedRequest} {j' : Job}

/-- The row of a submission at a later time, against the answer the submission got. -/
theorem sameDefinition_iff (h : Descends (submittedJob env scope req) j') :
    SameDefinition (submittedView env scope req) (scanJob j') ↔ WholeMicroseconds req := by
  have hdefinition := h.definition
  simp only [Job.definition, Prod.mk.injEq] at hdefinition
  obtain ⟨-, -, hqueue, htype, hpayload, hpriority, hattempts, htimeout, hcapabilities⟩ := hdefinition
  have hscheduled : (scanJob j').scheduledAt = (req.scheduledAt.map storeTime).map goTime := by
    show j'.scheduledAt.map goTime = _
    rw [h.scheduledAt]
    rfl
  constructor
  · intro hsame t ht
    have hinstant : (req.scheduledAt.map storeTime).map goTime = req.scheduledAt :=
      hscheduled.symm.trans hsame.scheduledAt
    rw [ht] at hinstant
    exact goTime_storeTime.mp (Option.some.inj hinstant)
  · intro hwhole
    refine ⟨hqueue, htype, hpayload, hpriority, hattempts, htimeout, hcapabilities, ?_,
      congrArg goTime h.createdAt, ?_⟩
    · rw [hscheduled]
      cases ht : req.scheduledAt with
      | none =>
        show none = req.scheduledAt
        rw [ht]
      | some t =>
        show some (goTime (storeTime t)) = req.scheduledAt
        rw [goTime_storeTime.mpr (hwhole t ht), ht]
    · intro hpending
      obtain ⟨hdelayed, hat⟩ := h.pending hpending
      show goTime j'.availableAt = _
      rw [hat]
      -- A pending row was delayed, and then has the requested instant.
      by_cases hd : isDelayed env.clock.s₀ req = true
      · cases ht : req.scheduledAt with
        | none => simp [isDelayed, ht] at hd
        | some t =>
          simp only [submittedJob, submittedView, if_pos hd, ht, Option.getD_some]
          exact goTime_storeTime.mpr (hwhole t ht)
      · rw [submittedJob, if_neg hd] at hdelayed
        cases hdelayed

end Answers

section Submissions

variable {w w' w'' : World} {l : Label} {later : List Label} {scope key : String}
  {req : NormalizedRequest} {trace : TraceContext} {r : SubmitResult}

/-- A submission under a key that is taken is answered with the job of its record. -/
theorem Step.submitted_again (hs : Step w l w')
    (hcall : l.request.call = .submit scope key req trace)
    (hans : l.outcome = .ok (.submitted r)) {x : IdempotencyRecord}
    (hx : x ∈ w.db.idempotency.rows) (hscope : x.scope = scope) (hkey : x.idempotencyKey = key) :
    r.replayed = true ∧ getByID w.db scope x.jobID = .ok r.job := by
  have hfind : (w.db.idempotency.rows.find? fun y => y.scope == scope && y.idempotencyKey == key) =
      some x := by
    refine find?_eq_some_of_unique hx (by rw [hscope, hkey, beq_self_eq_true, beq_self_eq_true]; rfl)
      fun y hy hp => ?_
    simp only [Bool.and_eq_true, beq_iff_eq] at hp
    have heq : Record.submission y = .submission x :=
      DB.record_eq_of_identity (mem_records_submission.mpr hy) (mem_records_submission.mpr hx)
        (by rw [Record.identity, Record.identity, hp.1, hp.2, hscope, hkey])
    exact Record.submission.inj heq
  have htaken : (w.db.idempotency.rows.any fun y => y.scope == scope && y.idempotencyKey == key) =
      true := List.any_eq_true.mpr ⟨x, hx, by
    rw [hscope, hkey, beq_self_eq_true, beq_self_eq_true]
    rfl⟩
  have hrun := hs.submitted hcall hans
  simp only [submit, bind_eq_ok, htaken, if_true, pure_eq_ok, Prod.mk.injEq,
    resolveExisting_found hfind] at hrun
  obtain ⟨-, -, -, -, r', hres, rfl, -⟩ := hrun
  split_ifs at hres
  cases hget : getByID w.db scope x.jobID with
  | error f =>
    rw [hget] at hres
    cases hres
  | ok v =>
    rw [hget] at hres
    cases hres
    exact ⟨rfl, rfl⟩

/-- **The first answer and every later one.** After a submission that made its job, in
every later state `Get` answers with the job, a further submission under its key is
answered as a replay, and each of these answers has the definition of the first one
exactly if the requested instant, if there is one, is a whole number of microseconds. -/
theorem first_answer_kept_iff (hs : Step w l w')
    (hcall : l.request.call = .submit scope key req trace)
    (hans : l.outcome = .ok (.submitted r)) (hfirst : r.replayed = false)
    (hrun : Execution w' later w'') :
    (∃ v, getByID w''.db scope r.job.id = .ok v ∧
      (SameDefinition r.job v ↔ WholeMicroseconds req)) ∧
    ∀ (l₂ : Label) (w₂ : World) (req₂ : NormalizedRequest) (trace₂ : TraceContext)
      (r₂ : SubmitResult), Step w'' l₂ w₂ → l₂.request.call = .submit scope key req₂ trace₂ →
      l₂.outcome = .ok (.submitted r₂) →
      r₂.replayed = true ∧ (SameDefinition r.job r₂.job ↔ WholeMicroseconds req) := by
  obtain ⟨hview, hjob, x, hx, hxscope, hxkey, hxjob⟩ := hs.submitted_first hcall hans hfirst
  have hdescend := jobsDescend_of_run hrun
  obtain ⟨j', hj', hd⟩ := hdescend.jobs _ hjob
  have hget : getByID w''.db scope l.request.env.id₁ = .ok (scanJob j') := by
    have hdefinition := hd.definition
    simp only [Job.definition, Prod.mk.injEq] at hdefinition
    rw [show scope = j'.scope from hdefinition.2.1.symm,
      show l.request.env.id₁ = j'.id from hdefinition.1.symm]
    exact getByID_of_mem hj'
  have hiff : SameDefinition r.job (scanJob j') ↔ WholeMicroseconds req := by
    rw [hview]
    exact sameDefinition_iff hd
  constructor
  · refine ⟨scanJob j', ?_, hiff⟩
    rw [hview]
    exact hget
  · intro l₂ w₂ req₂ trace₂ r₂ hs₂ hcall₂ hans₂
    obtain ⟨hreplayed, hget₂⟩ :=
      hs₂.submitted_again hcall₂ hans₂ (hdescend.records x hx) hxscope hxkey
    rw [hxjob, hget] at hget₂
    exact ⟨hreplayed, Except.ok.inj hget₂ ▸ hiff⟩

end Submissions

/-- A request for the given instant. -/
def instantSubmit (instant : String) : SubmitRequest :=
  { sampleSubmit "\x7b\x7d" with scheduledAt := some instant }

def instantNormal (t : Int) : NormalizedRequest :=
  { sampleNormal "\x7b\x7d" with scheduledAt := some t }

/-- A submission of it, under one key. -/
def instantRequest (t : Int) (clock : Int) (id₁ id₂ : UUID) : Request :=
  ⟨envAt clock id₁ id₂, .submit "tenant" "key" (instantNormal t) ⟨"", ""⟩⟩

/-- An instant of a whole microsecond. Its job is canceled, and read and submitted again
after that. -/
theorem first_answer_kept_sample :
    let t : Int := 1893456000000001000
    let first := submittedView (envAt 1 2 3) "tenant" (instantNormal t)
    WholeMicroseconds (instantNormal t) ∧
    ∃ w₁ w₂ w₃ l₁ l₂ l₃ v r, Step quiet l₁ w₁ ∧ l₁.outcome = .ok (.submitted ⟨first, false⟩) ∧
      Step w₁ l₂ w₂ ∧ l₂.request.call = .requestCancel "tenant" 2 ∧
      getByID w₂.db "tenant" 2 = .ok v ∧ v.status = .canceled ∧ SameDefinition first v ∧
      Step w₂ l₃ w₃ ∧ l₃.outcome = .ok (.submitted r) ∧ r.replayed = true ∧
      SameDefinition first r.job := by
  intro t first
  have hwhole : WholeMicroseconds (instantNormal t) := by
    rintro u ⟨⟩
    decide
  let w₁ := (quiet.step (instantRequest t 1 2 3)).2
  let w₂ := (w₁.step sampleCancel).2
  have hs₁ := @World.step_step quiet (instantRequest t 1 2 3) (by decide +kernel)
  have hs₂ := @World.step_step w₁ sampleCancel (by decide +kernel)
  have hs₃ := @World.step_step w₂ (instantRequest t 6 4 5) (by decide +kernel)
  obtain ⟨h₁, h₃, hstatus⟩ : (quiet.step (instantRequest t 1 2 3)).1.outcome =
        .ok (.submitted ⟨first, false⟩) ∧
      (w₂.step (instantRequest t 6 4 5)).1.outcome = .ok (.submitted ⟨scanJob
        (cancelledJob .canceled 5 (submittedJob (envAt 1 2 3) "tenant" (instantNormal t))), true⟩) ∧
      ((getByID w₂.db "tenant" 2).toOption.all fun v => v.status == .canceled) = true := by
    decide +kernel
  obtain ⟨⟨v, hget, hview⟩, hreplay⟩ :=
    first_answer_kept_iff hs₁ (by rw [World.step_request]; rfl) h₁ rfl (.cons hs₂ (.nil _))
  obtain ⟨hreplayed, hagain⟩ := hreplay _ _ _ _ _ hs₃ (by rw [World.step_request]; rfl) h₃
  rw [show getByID w₂.db "tenant" 2 = .ok v from hget] at hstatus
  exact ⟨hwhole, _, _, _, _, _, _, v, _, hs₁, h₁, hs₂, by rw [World.step_request]; rfl, hget,
    beq_iff_eq.mp hstatus, hview.mpr hwhole, hs₃, h₃, hreplayed, hagain.mpr hwhole⟩

/-- An instant with one nanosecond is accepted. The first answer has it, and the answer to
the same submission, repeated, and to a `Get` have the microsecond before. -/
theorem first_answer_truncated :
    (instantSubmit "2030-01-01T00:00:00.000000001Z").normalize (fun _ => "") =
      .ok (instantNormal 1893456000000000001) ∧
    ∃ w₁ w₂ l₁ l₂ r₁ r₂, Step quiet l₁ w₁ ∧ Step w₁ l₂ w₂ ∧
      l₁.request.call = .submit "tenant" "key" (instantNormal 1893456000000000001) ⟨"", ""⟩ ∧
      l₂.request.call = .submit "tenant" "key" (instantNormal 1893456000000000001) ⟨"", ""⟩ ∧
      l₁.outcome = .ok (.submitted r₁) ∧ l₂.outcome = .ok (.submitted r₂) ∧
      r₁.replayed = false ∧ r₂.replayed = true ∧ r₂.job.id = r₁.job.id ∧
      getByID w₁.db "tenant" r₁.job.id = .ok r₂.job ∧ r₂.job.status = .pending ∧
      r₁.job.scheduledAt = some 1893456000000000001 ∧
      r₂.job.scheduledAt = some 1893456000000000000 ∧
      r₁.job.availableAt = 1893456000000000001 ∧ r₂.job.availableAt = 1893456000000000000 := by
  refine ⟨by decide +kernel, _, _, _, _,
    ⟨submittedView (envAt 1 2 3) "tenant" (instantNormal 1893456000000000001), false⟩,
    ⟨scanJob (submittedJob (envAt 1 2 3) "tenant" (instantNormal 1893456000000000001)), true⟩,
    @World.step_step quiet (instantRequest 1893456000000000001 1 2 3) (by decide +kernel),
    @World.step_step _ (instantRequest 1893456000000000001 2 4 5) (by decide +kernel),
    by rw [World.step_request]; rfl, by rw [World.step_request]; rfl, ?_⟩
  decide +kernel

end TaskForge

/-
The attempt budget.

`Claim` spends one attempt, and nothing gives one back. The numbers of a job's
attempts are `1, …, n`, so the decision to retry, which looks at the number of
the attempt that ended, is a decision about the count; a job that waits has room
for another attempt, so the predicate by which `Claim` guards the count never
holds a queued job back. And `n` is the number of claims that were answered with
a new assignment, whatever else was sent, repeated or delayed.
-/
import TaskForge.Correspondence

open Relational Fallible

namespace TaskForge

/-! ## Claims that were answered -/

/-- The step answered a claim with a new assignment of the job. -/
def Label.claims (id : UUID) (l : Label) : Bool :=
  match l.outcome with
  | .ok (.claimed r) =>
    r.disposition == .claimed && !r.replayed && (r.assignment.any fun x => x.jobID == id)
  | _ => false

section Count

variable {env : Env} {db db' : DB} {w : Writes}

/-- Which job each attempt belongs to, in the order the attempts were made. -/
def DB.spent (db : DB) : List UUID := db.attempts.rows.map JobAttempt.jobID

theorem spent_count (db : DB) (id : UUID) :
    db.spent.count id = (db.caseFile id).attempts.length := by
  unfold DB.spent DB.caseFile
  rw [List.count, List.countP_map, ← List.countP_eq_length_filter]
  refine List.countP_congr fun a _ => ?_
  simp

theorem Writes.Applied.spent_keep (h : w.Applied db db') (hw : w.attempt = .keep) :
    db'.spent = db.spent := by
  unfold DB.spent
  rw [h.attempts, hw]
  rfl

theorem Writes.Applied.spent_replace (h : w.Applied db db') {a a' : JobAttempt}
    (hw : w.attempt = .replace a a') (hjob : a'.jobID = a.jobID) : db'.spent = db.spent := by
  unfold DB.spent
  rw [h.attempts, hw]
  exact map_replaceRow JobAttempt.jobID hjob _

theorem SessionsOnly.spent (h : SessionsOnly db db') : db'.spent = db.spent := by
  unfold DB.spent
  rw [h.attempts]

theorem Verdict.spent {scope : String} {j : Job} {a : JobAttempt} {l : Lease}
    (h : Verdict env scope j a l w) (happ : w.Applied db db') : db'.spent = db.spent := by
  cases h with
  | canceled | timedOut | abandoned => exact happ.spent_replace rfl rfl

/-- A call other than a claim spends no attempt. -/
theorem Commit.spent_of_not_claim {call : Call} (h : Commit env db db' call)
    (hcall : ∀ scope req, call ≠ .claim scope req) : db'.spent = db.spent := by
  cases h with
  | unchanged call same => rw [same]
  | registered scope registration reg wid valid only workers sessions => exact only.spent
  | beat scope req s session scope_eq healthy moved => exact moved.only.spent
  | staled s staleAfter stale moved => exact moved.only.spent
  | wrote call id w performs applied =>
    cases performs with
    | submit | replay | cancel | promote | renotify => exact applied.spent_keep rfl
    | claim scope req => exact absurd rfl (hcall scope req)
    | start | succeed | fail | acknowledge | timeOut => exact applied.spent_replace rfl rfl
    | renew => exact applied.spent_keep rfl
    | expire stats s j a l w binding lapsed verdict => exact verdict.spent applied

/-- A claim spends one attempt of the job it assigns anew, and none otherwise. -/
theorem claim_spent {scope : String} {req : ClaimRequest} {r : ClaimResult}
    (h : claim env scope req db = .ok (r, db')) :
    (db'.spent = db.spent ∧ (r.disposition = .claimed → r.replayed = true)) ∨
      ∃ x, r = ⟨.claimed, some x, false⟩ ∧ db'.spent = db.spent ++ [x.jobID] := by
  obtain ⟨-, ⟨same, hreplayed⟩ | ⟨s, j, hready, rfl, happ⟩⟩ := claim_eq_ok h
  · exact .inl ⟨by rw [same], hreplayed⟩
  · refine .inr ⟨_, rfl, ?_⟩
    unfold DB.spent
    rw [happ.attempts]
    exact List.map_append

end Count

section Runs

variable {w w' : World} {l : Label} {trace : List Label} {id : UUID}

/-- **A step adds an attempt to a job exactly when it answers a claim with a new
assignment of it.** -/
theorem Step.attempts_length (hs : Step w l w') :
    (w'.db.caseFile id).attempts.length
      = (w.db.caseFile id).attempts.length + if l.claims id then 1 else 0 := by
  rw [← spent_count, ← spent_count]
  cases hs with
  | refused clock run => simp [Label.claims]
  | @committed req ans db clock run =>
    by_cases hans : ∀ r, ans ≠ .claimed r
    · have hno : Label.claims id ⟨req, .ok ans⟩ = false := by
        unfold Label.claims
        split
        · next r heq => exact absurd (Except.ok.inj heq) (hans r)
        · rfl
      have hcall : ∀ scope creq, req.call ≠ .claim scope creq := by
        intro scope creq hcall
        rw [hcall] at run
        obtain ⟨r, -, rfl⟩ := answering_eq_ok.mp run
        exact hans r rfl
      rw [(Call.commit run).spent_of_not_claim hcall, hno]
      rfl
    · push Not at hans
      obtain ⟨r, rfl⟩ := hans
      cases hcall : req.call with
      | claim scope creq =>
        rw [hcall] at run
        obtain ⟨r', hr, hans⟩ := answering_eq_ok.mp run
        cases hans
        rcases claim_spent hr with ⟨hsame, hreplayed⟩ | ⟨x, rfl, hnew⟩
        · have hno : Label.claims id ⟨req, .ok (.claimed r)⟩ = false := by
            unfold Label.claims
            by_cases hd : r.disposition = .claimed
            · simp [hreplayed hd]
            · simp [hd]
          rw [hsame, hno]
          rfl
        · rw [hnew, List.count_append, List.count_singleton]
          simp [Label.claims]
      | succeed scope fence result =>
        rw [hcall] at run
        have hrun : answering (fun _ => .succeeded)
            (TaskForge.succeed req.env scope fence result w.db) = .ok (.claimed r, db) := run
        obtain ⟨u, -, hans⟩ := answering_eq_ok.mp hrun
        cases hans
      | _ =>
        rw [hcall] at run
        obtain ⟨r', -, hans⟩ := answering_eq_ok.mp run
        cases hans

theorem attempts_length_of_run (hrun : Execution w trace w') :
    (w'.db.caseFile id).attempts.length
      = (w.db.caseFile id).attempts.length + trace.countP (Label.claims id) :=
  hrun.count (P := fun _ => True) (f := fun v => (v.db.caseFile id).attempts.length)
    (fun _ _ => trivial) (fun _ hstep => hstep.attempts_length) trivial

/-- The attempts of a job never exceed its budget. -/
theorem Phase.within_budget {now : Int} {j : Job} {cf : CaseFile} (h : Phase now j cf) :
    (cf.attempts.length : Int) ≤ j.maxAttempts := by
  cases h with
  | waiting status waits => exact waits.room.le
  | executing past pastLeases a l run =>
    have hroom := run.room
    rw [run.attempts, List.length_append, List.length_singleton]
    push_cast
    omega
  | ended history final room => exact room

/-- A job dead-lettered for want of attempts has used them all. -/
theorem Phase.exhausted {now : Int} {j : Job} {cf : CaseFile} (h : Phase now j cf) {e : DLQEntry}
    (he : e ∈ cf.dlq) (hreason : e.reason = .attemptsExhausted) :
    (cf.attempts.length : Int) = j.maxAttempts := by
  cases h with
  | waiting status waits =>
    rw [waits.dlq] at he
    cases he
  | executing past pastLeases a l run =>
    rw [run.dlq] at he
    cases he
  | ended history final room =>
    cases final with
    | succeeded status past a attempts retried last dlq results =>
      rw [dlq] at he
      cases he
    | canceled status closed dlq results =>
      rw [dlq] at he
      cases he
    | dead status past a e' attempts retried last dlq entry results =>
      rw [dlq, List.mem_singleton] at he
      rw [he] at hreason
      exact entry.exhausted hreason

/-- In every state a run reaches, a job's attempts are numbered `1, …, n`, where `n`
is the number of claims the run answered with a new assignment of the job; `n` is
within the budget, below it while the job waits, and all of it once the job is
dead-lettered as exhausted. -/
theorem attempt_budget {w₀ : World} (hinit : Initial w₀) (hrun : Execution w₀ trace w) {j : Job}
    (hj : j ∈ w.db.jobs.rows) :
    ∃ n : ℕ, (attemptsOf w.db j.id).map JobAttempt.attemptNumber = List.range' 1 n ∧
      (n : Int) ≤ j.maxAttempts ∧
      (j.status = .pending ∨ j.status = .queued ∨ j.status = .retryWait → (n : Int) < j.maxAttempts) ∧
      (∀ s : WorkerSession, ∀ now, j.status = .queued → j.availableAt ≤ now →
        (∀ c ∈ j.requiredCapabilities, c ∈ s.capabilities) → j.jobType ∈ s.supportedJobTypes →
        isEligible w.db j.scope j.queue s now j = true) ∧
      (∀ e ∈ w.db.dlqEntries.rows, e.jobID = j.id → e.reason = .attemptsExhausted →
        (n : Int) = j.maxAttempts) ∧
      n = trace.countP (Label.claims j.id) := by
  have hphase := (Reachable.sound ⟨w₀, trace, hinit, hrun⟩).phase hj
  refine ⟨(w.db.caseFile j.id).attempts.length, hphase.numbered, hphase.within_budget, ?_, ?_, ?_, ?_⟩
  · intro hs
    exact (hphase.waits hs).room
  · intro s now hq hdue hcap htype
    exact isEligible_eq_true.mpr ⟨⟨rfl, rfl, hq, hdue⟩, hcap, htype,
      (hphase.waits (.inr (.inl hq))).room⟩
  · intro e he hjob hreason
    exact hphase.exhausted (mem_caseFile_dlq.mpr ⟨he, hjob⟩) hreason
  · have hstart : (w₀.db.caseFile j.id).attempts = [] := by simp [DB.caseFile, hinit.attempts]
    rw [attempts_length_of_run hrun, hstart, List.length_nil, Nat.zero_add]

end Runs

/-- The sample job, failed once, with the failure reported twice, and claimed again. -/
def sampleTwice : List Request := sampleStart ++ [sampleFail, sampleFail] ++ sampleRetry

theorem attempt_budget_retry :
    (quiet.exec sampleTwice).1.countP (Label.claims 2) = 2 ∧
      ∃ n : ℕ, (attemptsOf (quiet.exec sampleTwice).2.db 2).map JobAttempt.attemptNumber
          = List.range' 1 n ∧ n = (quiet.exec sampleTwice).1.countP (Label.claims 2) := by
  obtain ⟨hclaims, hids⟩ : (quiet.exec sampleTwice).1.countP (Label.claims 2) = 2 ∧
      (quiet.exec sampleTwice).2.db.jobs.rows.map Job.id = [2] := by decide +kernel
  obtain ⟨j, hj, hid⟩ := List.map_eq_singleton_iff.mp hids
  refine ⟨hclaims, ?_⟩
  obtain ⟨n, hnumbers, -, -, -, -, hn⟩ := attempt_budget quiet_initial
    (World.exec_run (by decide : Clocked 0 sampleTwice))
    (by rw [hj]; exact List.mem_singleton.mpr rfl : j ∈ (quiet.exec sampleTwice).2.db.jobs.rows)
  rw [hid] at hnumbers hn
  exact ⟨n, hnumbers, hn⟩

end TaskForge

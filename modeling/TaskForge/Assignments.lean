/-
The claims that assign a job.

A request that finds an eligible job under free capacity is given one: the checks of the
three tables stand in the way of no claim (`Sound.claimJob_ok`).
-/
import TaskForge.Budget
import TaskForge.ClaimIdentity

open Relational Fallible Runs

namespace TaskForge

section Success

variable {env : Env} {scope : String} {req : ClaimRequest} {w : World} {s : WorkerSession} {j : Job}

/-- A queued job's next attempt is numbered after those it has had. -/
theorem Sound.nextAttemptNumber_eq (h : Sound w) (hj : j ∈ w.db.jobs.rows)
    (hqueued : j.status = .queued) :
    nextAttemptNumber w.db j.id = (attemptsOf w.db j.id).length + 1 :=
  congrArg (· + 1) ((h.phase hj).waits (.inr (.inl hqueued))).history.numbers.foldr_max

/-- An eligible job, so one is selected. -/
theorem selectJob_isSome (hj : j ∈ w.db.jobs.rows) {queue : String} {now : Int}
    (h : isEligible w.db scope queue s now j = true) :
    ∃ k, selectJob w.db scope queue s now = some k := by
  have hmem : j ∈
      (w.db.jobs.rows.filter (isEligible w.db scope queue s now)).mergeSort claimedBefore :=
    List.mem_mergeSort.mpr (List.mem_filter.mpr ⟨hj, h⟩)
  exact Option.isSome_iff_exists.mp (List.isSome_head?.mpr (List.ne_nil_of_mem hmem))

/-- The writes of a claim that may assign are admitted. -/
theorem Sound.claimJob_ok (h : Sound w) (hfresh : Fresh env w.db)
    (hduration : 1000 ≤ env.leaseDuration) (ready : ClaimReady env scope req w.db s j) :
    ∃ db', claimJob env scope req w.db j = .ok (⟨.claimed,
        some (claimedAssignment env scope req (nextAttemptNumber w.db j.id) j), false⟩, db') ∧
      (claimWrites env scope req (nextAttemptNumber w.db j.id) j).Applied w.db db' := by
  cases hrun : claimJob env scope req w.db j with
  | ok p =>
    obtain ⟨r, db'⟩ := p
    obtain ⟨rfl, happlied⟩ := claimJob_eq_ok ready.job_mem hrun
    exact ⟨db', rfl, happlied⟩
  | error f =>
    -- What the tables would refuse, they admit.
    obtain ⟨⟨hscope, -, hqueued, -⟩, -⟩ := isEligible_eq_true.mp ready.eligible
    have hrefused := claimJob_forced ready.job_mem hscope hqueued hrun
    have hadmitted := claim_admitted h hfresh hduration (caseFile_job_of_mem ready.job_mem) ready
    obtain ⟨r, hr, -⟩ := hrefused.of_admitted hadmitted rfl
    cases hr

end Success

end TaskForge

/-
One job for each identity.

However the statements of concurrent submissions and replays interleave with each
other and with the rest of the service, at most one job is made under an identity,
and whoever returns a job returns that one. A call that lost, or that failed before
its `COMMIT`, has left nothing behind. A call that is told it failed may all the same
have made the job: nothing in its answer tells the two apart, but whoever repeats the
request gets that job. Nobody waits for ever: a call waits only for one that is
further than itself, so whatever is under way can be brought to its end.
-/
import TaskForge.Contest

open Relational Fallible Runs

namespace TaskForge

/-! ## What the steps add -/

namespace Deed

/-- A job is made under the identity. -/
def makes (i : Identity) (t : Deed) : Bool :=
  match t.actor with
  | .call _ (.committed b _) => decide (b.creation.identity = i)
  | _ => false

/-- The job is made. -/
def bears (id : UUID) (t : Deed) : Bool :=
  match t.actor with
  | .call _ (.committed b _) => decide (b.job.id = id)
  | _ => false

/-- A call that is under way goes on. -/
def advances (t : Deed) : Bool :=
  match t.actor with
  | .call _ .statement | .call _ (.committed _ _) => true
  | _ => false

end Deed

def Outcome.isMade : Outcome → Bool
  | .made _ => true
  | _ => false

/-- The call has returned the job it made. -/
def Stage.isMade : Stage → Bool
  | .returned _ o => o.isMade
  | _ => false

section Steps

variable {s s' : Contest} {t : Deed} {n : ℕ} {db db' : DB}

/-- A step commits what a call made, or makes no job. -/
theorem ContestStep.cases (hs : ContestStep s t s') :
    t.before = s.world ∧ t.after = s'.world ∧
      ((∃ n b told, t.actor = .call n (.committed b told) ∧
          b.writes.Applied s.world.db s'.world.db) ∨
        ((∀ n b told, t.actor ≠ .call n (.committed b told)) ∧
          Spared s.world.db s'.world.db)) := by
  cases hs with
  | called | statement | failed => exact ⟨rfl, rfl, .inr ⟨by simp, Spared.refl _⟩⟩
  | @committed n b db told call run =>
    exact ⟨rfl, rfl, .inl ⟨n, b, told, rfl, Birth.commit_eq_ok run⟩⟩
  | service step other free => exact ⟨rfl, rfl, .inr ⟨by simp, step.spared other⟩⟩

/-- What is not a commit adds nothing. -/
theorem Deed.adds_none (h : ∀ n b told, t.actor ≠ .call n (.committed b told)) :
    (∀ i, t.makes i = false) ∧ ∀ id, t.bears id = false := by
  unfold Deed.makes Deed.bears
  split
  · next n b told hb => exact absurd hb (h n b told)
  · exact ⟨fun _ => rfl, fun _ => rfl⟩

/-- Records of an identity are added by those who make a job under it. -/
theorem ContestStep.makes_count (hs : ContestStep s t s') (i : Identity) :
    s'.world.db.records.countP (fun r => decide (r.identity = i))
      = s.world.db.records.countP (fun r => decide (r.identity = i)) +
        (if t.makes i then 1 else 0) := by
  obtain ⟨-, -, ⟨n, b, told, hactor, happ⟩ | ⟨hother, hspared⟩⟩ := hs.cases
  · rw [Birth.records_countP happ, b.record_identity]
    simp [Deed.makes, hactor]
  · rw [hspared.records, (Deed.adds_none hother).1 i]
    rfl

theorem Spared.countP_jobs (h : Spared db db') (id : UUID) :
    db'.jobs.rows.countP (fun j => decide (j.id = id))
      = db.jobs.rows.countP (fun j => decide (j.id = id)) := by
  obtain ⟨f, hrows, hf⟩ := h.jobs
  rw [hrows, List.countP_map]
  refine List.countP_congr fun j hj => ?_
  rw [Function.comp_apply, (hf j hj).1]

/-- And jobs by those who make them. -/
theorem ContestStep.bears_count (hs : ContestStep s t s') (id : UUID) :
    s'.world.db.jobs.rows.countP (fun j => decide (j.id = id))
      = s.world.db.jobs.rows.countP (fun j => decide (j.id = id)) +
        (if t.bears id then 1 else 0) := by
  obtain ⟨-, -, ⟨n, b, told, hactor, happ⟩ | ⟨hother, hspared⟩⟩ := hs.cases
  · rw [happ.jobs]
    simp [Birth.writes, RowWrite.apply, Deed.bears, hactor, List.countP_append, List.countP_cons]
  · rw [hspared.countP_jobs, (Deed.adds_none hother).2 id]
    rfl

theorem ContestStep.later (hs : ContestStep s t s') : Later s.world.db s'.world.db := by
  obtain ⟨-, -, ⟨n, b, told, -, happ⟩ | ⟨-, hspared⟩⟩ := hs.cases
  · exact Birth.later happ
  · exact hspared.later

/-- A call that has returned does nothing more. -/
theorem ContestStep.of_returned (hs : ContestStep s t s') {c : Creation} {o : Outcome}
    (h : s.calls[n]? = some (.returned c o)) :
    s'.calls[n]? = some (.returned c o) ∧ ∀ act, t.actor ≠ .call n act := by
  -- Whoever moves is another call, for there is no statement left to this one.
  have hset : ∀ {m : ℕ} {p q : Stage} {act : Act}, s.calls[m]? = some p → p.isReturned = false →
      (s.calls.set m q)[n]? = some (.returned c o) ∧ ∀ act', Actor.call m act ≠ .call n act' := by
    intro m p q act hp hlive
    have hne : m ≠ n := by
      rintro rfl
      rw [h, Option.some.injEq] at hp
      rw [← hp] at hlive
      cases hlive
    rw [List.getElem?_set_ne hne]
    exact ⟨h, fun act' hact => hne (Actor.call.inj hact).1⟩
  cases hs with
  | called c' =>
    have hlt := (List.getElem?_eq_some_iff.mp h).1
    rw [List.getElem?_append_left hlt]
    exact ⟨h, fun act hact => (Nat.ne_of_gt hlt) (Actor.call.inj hact).1⟩
  | @statement m p call running free =>
    exact hset call (by cases p <;> first | rfl | cases running)
  | committed told call run => exact hset call rfl
  | failed call live => exact hset call live
  | service step other free => exact ⟨h, by simp⟩

theorem returned_of_run {trace : List Deed} (hrun : Run ContestStep s trace s') {c : Creation}
    {o : Outcome} (h : s.calls[n]? = some (.returned c o)) :
    s'.calls[n]? = some (.returned c o) ∧ ∀ t ∈ trace, ∀ act, t.actor ≠ .call n act := by
  induction hrun with
  | nil => exact ⟨h, fun t ht => absurd ht List.not_mem_nil⟩
  | cons hstep _ ih =>
    obtain ⟨hnext, hidle⟩ := hstep.of_returned h
    obtain ⟨hend, hrest⟩ := ih hnext
    exact ⟨hend, List.forall_mem_cons.mpr ⟨hidle, hrest⟩⟩

end Steps

/-! ## Nobody waits for ever -/

/-- How many statements a call has before it at most. -/
def Stage.remaining : Stage → ℕ
  | .beginReplay _ => 13
  | .route _ => 12
  | .lockQueue _ _ => 11
  | .lockOriginal _ => 10
  | .readEntry _ _ => 9
  | .readReplayTime _ _ => 8
  | .checkQueue _ => 10
  | .beginSubmit _ => 9
  | .readSubmissionTime _ => 8
  | .insertJob _ => 7
  | .insertRecord _ => 6
  | .insertEvent _ => 2
  | .commit _ => 1
  | .rollback _ => 4
  | .readRecord _ => 3
  | .readJob _ _ => 2
  | .returned _ _ => 0

/-- How far a call is among those that wait for each other. -/
def Stage.rank : Stage → ℕ
  | .insertJob _ | .returned _ _ => 0
  | .insertRecord _ => 1
  | .insertEvent _ => 2
  | _ => 3

def Contest.remaining (s : Contest) : ℕ := (s.calls.map Stage.remaining).sum

section Progress

variable {s s' : Contest} {n : ℕ} {p q : Stage} {db : DB}

theorem Stage.remaining_next (h : p.isRunning = true) :
    (p.next db).remaining < p.remaining := by
  have hgo : ∀ {α : Type} {c : Creation} {x : Tx α} {next : α → Stage} {k : ℕ}, 0 < k →
      (∀ a, (next a).remaining < k) → (goOn c x next).remaining < k :=
    fun {_ _ _ _ k} hk hnext =>
      goOn_cases (P := fun p => p.remaining < k) (fun a _ => hnext a) fun _ _ => hk
  cases p with
  | beginSubmit | readSubmissionTime | beginReplay | readReplayTime | rollback =>
    simp [Stage.next, Stage.remaining]
  | insertRecord b =>
    rw [Stage.next]
    split_ifs
    · simp [Stage.remaining]
    · exact hgo (by simp [Stage.remaining]) fun _ => by simp [Stage.remaining]
  | commit | returned => cases h
  | _ => exact hgo (by simp [Stage.remaining]) fun _ => by simp [Stage.remaining]

/-- A call waits for none that is not further than itself. -/
theorem Stage.passes_of_rank_le (h : q.rank ≤ p.rank) : p.passes q = true := by
  cases p with
  | insertJob | insertRecord | insertEvent => cases q <;> first | rfl | simp [Stage.rank] at h
  | _ => rfl

theorem sum_set_lt {l : List ℕ} {n a b : ℕ} (h : l[n]? = some a) (hb : b < a) :
    (l.set n b).sum < l.sum := by
  induction l generalizing n with
  | nil => cases h
  | cons x l ih =>
    cases n with
    | zero =>
      cases h
      simp only [List.set_cons_zero, List.sum_cons]
      omega
    | succ n =>
      have hlt := ih (n := n) h
      simp only [List.set_cons_succ, List.sum_cons]
      omega

theorem Contest.remaining_set {w : World} (hcall : s.calls[n]? = some p)
    (h : q.remaining < p.remaining) :
    Contest.remaining ⟨w, s.calls.set n q⟩ < s.remaining := by
  unfold Contest.remaining
  rw [List.map_set]
  refine sum_set_lt (a := p.remaining) ?_ h
  rw [List.getElem?_map, hcall]
  rfl

/-- A call that waits for none takes a step. -/
theorem Coherent.move (h : Coherent s) (hcall : s.calls[n]? = some p) (hlive : p.isReturned = false)
    (hfirst : ∀ q ∈ s.calls, q.rank ≤ p.rank) :
    ∃ t s', ContestStep s t s' ∧ t.advances = true ∧ s'.remaining < s.remaining := by
  by_cases hrunning : p.isRunning = true
  · refine ⟨_, _, .statement hcall hrunning ?_, rfl, ?_⟩
    · rw [List.all_eq_true]
      exact fun q hq => Stage.passes_of_rank_le (hfirst q (List.mem_of_mem_eraseIdx hq))
    · exact Contest.remaining_set hcall (Stage.remaining_next hrunning)
  · obtain ⟨b, rfl⟩ : ∃ b, p = .commit b := by
      cases p with
      | commit b => exact ⟨b, rfl⟩
      | returned c o => cases hlive
      | _ => exact absurd rfl hrunning
    have hadm := h.admitted _ (List.mem_of_getElem? hcall)
    obtain ⟨db, hcommit⟩ := Birth.commit_ok (hadm.job _ rfl) (hadm.record _ rfl) hadm.event
    exact ⟨_, _, .committed true hcall hcommit, rfl, Contest.remaining_set hcall Nat.zero_lt_one⟩

/-- While some call has not returned, some call can go on. -/
theorem Coherent.exists_move (h : Coherent s) (hcall : s.calls[n]? = some p)
    (hlive : p.isReturned = false) :
    ∃ t s', ContestStep s t s' ∧ t.advances = true ∧ s'.remaining < s.remaining := by
  -- By induction on how many ranks are above the call's.
  have key : ∀ (k n : ℕ) (p : Stage), s.calls[n]? = some p → p.isReturned = false →
      3 ≤ p.rank + k →
      ∃ t s', ContestStep s t s' ∧ t.advances = true ∧ s'.remaining < s.remaining := by
    have hmax : ∀ q : Stage, q.rank ≤ 3 := by
      intro q
      cases q <;> simp [Stage.rank]
    intro k
    induction k with
    | zero =>
      intro n p hcall hlive hrank
      exact h.move hcall hlive fun q _ => (hmax q).trans hrank
    | succ k ih =>
      intro n p hcall hlive hrank
      by_cases hfirst : ∀ q ∈ s.calls, q.rank ≤ p.rank
      · exact h.move hcall hlive hfirst
      · push Not at hfirst
        obtain ⟨q, hq, hlt⟩ := hfirst
        obtain ⟨m, hm⟩ := List.mem_iff_getElem?.mp hq
        have hqlive : q.isReturned = false := by
          cases q with
          | returned c o => simp [Stage.rank] at hlt
          | _ => rfl
        exact ih m q hm hqlive (by omega)
  exact key 3 n p hcall hlive (by omega)

/-- **Whatever is under way can be brought to its end.** -/
theorem Coherent.returns (h : Coherent s) :
    ∃ more s', Run ContestStep s more s' ∧ (∀ t ∈ more, t.advances = true) ∧
      ∀ p ∈ s'.calls, p.isReturned = true := by
  induction hk : s.remaining using Nat.strong_induction_on generalizing s with
  | _ k ih =>
    by_cases hdone : ∀ p ∈ s.calls, p.isReturned = true
    · exact ⟨[], s, .nil s, by simp, hdone⟩
    · push Not at hdone
      obtain ⟨p, hp, hlive⟩ := hdone
      obtain ⟨n, hn⟩ := List.mem_iff_getElem?.mp hp
      obtain ⟨t, s₁, hstep, hadvances, hlt⟩ := h.exists_move hn (by simpa using hlive)
      obtain ⟨more, s', hrun, hmore, hreturned⟩ := ih s₁.remaining (hk ▸ hlt) (hstep.coherent h) rfl
      refine ⟨t :: more, s', .cons hstep hrun, ?_, hreturned⟩
      intro u hu
      rcases List.mem_cons.mp hu with rfl | hu
      · exact hadvances
      · exact hmore u hu

end Progress

/-! ## Replays of a dead letter -/

/-- The call is not turned away for its arguments. -/
def Stage.Unhindered (db : DB) : Stage → Prop
  | .lockQueue _ queue => ∃ q ∈ db.queues.rows, q.name = queue
  | .returned _ (.refused f) => f.cause ≠ .check
  | _ => True

/-- The call `n` replays a dead letter. -/
structure ReadyFor (r : Replaying) (n : ℕ) (s : Contest) : Prop where
  coherent : Coherent s
  ready : ∃ original, ReplayReady r.scope r.originalJobID s.world.db original
  call : ∃ p, s.calls[n]? = some p ∧ p.creation = .replay r ∧ p.Unhindered s.world.db

section Replays

variable {s s' : Contest} {t : Deed} {n : ℕ} {p : Stage} {db db' : DB} {r : Replaying}

theorem Stage.next_creation (p : Stage) (db : DB) : (p.next db).creation = p.creation := by
  have hgo : ∀ {α : Type} {c : Creation} {x : Tx α} {next : α → Stage},
      (∀ a, (next a).creation = c) → (goOn c x next).creation = c :=
    fun {_ c _ _} hnext =>
      goOn_cases (P := fun p => p.creation = c) (fun a _ => hnext a) fun _ _ => rfl
  cases p with
  | beginSubmit | readSubmissionTime | beginReplay | readReplayTime | rollback | commit | returned =>
    rfl
  | insertRecord b =>
    rw [Stage.next]
    split_ifs
    · rfl
    · exact hgo fun _ => rfl
  | _ => exact hgo fun _ => rfl

/-- A dead letter stays one, with its entry. -/
theorem Spared.replayReady (h : Spared db db') {original : Job}
    (hready : ReplayReady r.scope r.originalJobID db original) :
    ReplayReady r.scope r.originalJobID db' original := by
  obtain ⟨f, hrows, hf⟩ := h.jobs
  have hsame : f original = original := (hf original hready.mem).2.2 hready.dead
  obtain ⟨d, hd, hdid⟩ := hready.entry
  refine { hready with mem := ?_, entry := ⟨d, h.entries d hd, hdid⟩, queue := ?_ }
  · rw [hrows, ← hsame]
    exact List.mem_map_of_mem hready.mem
  · rw [h.queues]
    exact hready.queue

theorem Birth.replayReady {b : Birth} (h : b.writes.Applied db db') {original : Job}
    (hready : ReplayReady r.scope r.originalJobID db original) :
    ReplayReady r.scope r.originalJobID db' original := by
  refine { hready with mem := (Birth.mem_jobs h).mpr (.inl hready.mem), entry := ?_, queue := ?_ }
  · rw [h.dlqEntries]
    obtain ⟨d, hd, hdid⟩ := hready.entry
    exact ⟨d, List.mem_append_left _ hd, hdid⟩
  · rw [h.queues]
    exact hready.queue

theorem Stage.Unhindered.of_queues (hq : db'.queues = db.queues) (h : p.Unhindered db) :
    p.Unhindered db' := by
  cases p with
  | lockQueue x queue =>
    show ∃ q ∈ db'.queues.rows, q.name = queue
    rw [hq]
    exact h
  | returned c o => cases o <;> exact h
  | _ => trivial

/-- Every statement of a replay of a dead letter finds what it looks for. -/
theorem Stage.next_unhindered {original : Job}
    (hready : ReplayReady r.scope r.originalJobID db original)
    (hnamed : ∀ r ∈ db.records, ∃ j ∈ db.jobs.rows, j.id = r.jobID ∧ j.scope = r.scope)
    (hinformed : p.Informed db) (hc : p.creation = .replay r) (h : p.Unhindered db) :
    (p.next db).Unhindered db := by
  have hfind : jobInScope db r.scope r.originalJobID = some original := by
    rw [← hready.scope_eq, ← hready.id]
    exact jobInScope_of_mem hready.mem
  cases p with
  | checkQueue | beginSubmit | readSubmissionTime => cases hc
  | beginReplay | rollback => trivial
  | route r' =>
    cases hc
    rw [Stage.next, hfind]
    exact hready.queue
  | lockQueue r' queue =>
    obtain ⟨q, hq, hname⟩ := h
    cases hlock : TaskForge.lockQueue db queue "lock queue for replay" with
    | ok x =>
      rw [Stage.next, hlock]
      trivial
    | error f =>
      rw [TaskForge.lockQueue, fetch, orFail_eq_error] at hlock
      exact absurd (beq_iff_eq.mpr hname) (List.find?_eq_none.mp hlock.1 q hq)
  | lockOriginal r' =>
    cases hc
    have hread : (do
        let original ← fetch (jobInScope db r.scope r.originalJobID) .jobNotFound
        demand (original.status == .deadLettered) .notDeadLettered
        pure original : Tx Job) = .ok original := by
      simp only [bind_eq_ok, fetch_eq_ok, demand_eq_ok, pure_eq_ok, beq_iff_eq]
      exact ⟨original, hfind, (), hready.dead, rfl⟩
    rw [Stage.next, hread]
    trivial
  | readEntry r' original' =>
    cases hc
    obtain ⟨d, hd, hdid⟩ := hready.entry
    have hentry : (db.dlqEntries.rows.any fun d => d.jobID == r.originalJobID) = true :=
      List.any_eq_true.mpr ⟨d, hd, beq_iff_eq.mpr hdid⟩
    rw [Stage.next, hentry]
    trivial
  | readReplayTime => trivial
  | insertJob b => exact goOn_cases (fun _ _ => trivial) fun f hf => insertRow_cause hf
  | insertRecord b =>
    rw [Stage.next]
    split_ifs
    · trivial
    · exact goOn_cases (fun _ _ => trivial) fun f hf => Birth.insertRecord_cause hf
  | insertEvent b => exact goOn_cases (fun _ _ => trivial) fun f hf => Birth.insertEvent_cause hf
  | commit => trivial
  | readRecord c =>
    rcases Creation.readRecord_found hinformed with ⟨jobID, hread, -⟩ | ⟨⟨x, rfl⟩, -⟩
    · rw [Stage.next, hread]
      trivial
    · cases hc
  | readJob c jobID =>
    obtain ⟨x, hx, hid, rfl, -⟩ := hinformed
    obtain ⟨j, hread, -⟩ := getByID_of_identity hnamed hx hid
    rw [Stage.next, hread]
    trivial
  | returned c o => exact h

theorem ContestStep.readyFor (hs : ContestStep s t s') (h : ReadyFor r n s) : ReadyFor r n s' := by
  obtain ⟨original, hready⟩ := h.ready
  obtain ⟨p, hp, hc, hu⟩ := h.call
  have hlen : n < s.calls.length := (List.getElem?_eq_some_iff.mp hp).1
  have hcoherent := hs.coherent h.coherent
  -- The call is either the one that moved, or is where it was.
  have hset : ∀ {m : ℕ} {q q' : Stage} {db : DB}, s.calls[m]? = some q →
      (q = p → q'.creation = .replay r ∧ q'.Unhindered db) → p.Unhindered db →
      ∃ x, (s.calls.set m q')[n]? = some x ∧ x.creation = .replay r ∧ x.Unhindered db := by
    intro m q q' db hq hmoved hstays
    rw [List.getElem?_set]
    by_cases hmn : m = n
    · rw [hmn, hp, Option.some.injEq] at hq
      rw [if_pos hmn, if_pos (hmn ▸ hlen)]
      exact ⟨q', rfl, hmoved hq.symm⟩
    · rw [if_neg hmn]
      exact ⟨p, hp, hc, hstays⟩
  cases hs with
  | called c =>
    refine ⟨hcoherent, h.ready, p, ?_, hc, hu⟩
    rw [List.getElem?_append_left hlen]
    exact hp
  | @statement m q call running free =>
    refine ⟨hcoherent, h.ready, hset call ?_ hu⟩
    rintro rfl
    refine ⟨(Stage.next_creation q _).trans hc, ?_⟩
    exact Stage.next_unhindered hready h.coherent.named
      (h.coherent.informed q (List.mem_of_getElem? hp)) hc hu
  | @committed m b db told call run =>
    have happ := Birth.commit_eq_ok run
    refine ⟨hcoherent, ⟨original, Birth.replayReady happ hready⟩, hset call ?_ ?_⟩
    · rintro rfl
      exact ⟨hc, by cases told <;> trivial⟩
    · exact hu.of_queues happ.queues
  | @failed m q call live =>
    refine ⟨hcoherent, h.ready, hset call ?_ hu⟩
    rintro rfl
    exact ⟨hc, trivial⟩
  | service step other free =>
    have hspared := step.spared other
    exact ⟨hcoherent, ⟨original, hspared.replayReady hready⟩, p, hp, hc,
      hu.of_queues hspared.queues⟩

end Replays

/-! ## The result -/

/-- The job a call returns. -/
def Outcome.job : Outcome → Option JobView
  | .made v | .found v => some v
  | _ => none

/-- The database failed the call, or refused one of its rows. -/
def Outcome.databaseFailure : Outcome → Bool
  | .broken => true
  | .refused f => decide (f.cause ≠ .check)
  | _ => false

/-- What a run of concurrent submissions and replays has come to. -/
structure CreatedOnce (trace : List Deed) (s : Contest) : Prop where
  /-- At most one job is ever made under an identity. -/
  once : ∀ i, trace.countP (Deed.makes i) ≤ 1
  /-- Whoever returns a job returns the one made under its identity. -/
  returned : ∀ c o v, .returned c o ∈ s.calls → o.job = some v →
    ∃ r ∈ s.world.db.records, r.identity = c.identity ∧ r.jobID = v.id ∧
      (∀ r' ∈ s.world.db.records, r'.identity = c.identity → r' = r) ∧
      ∃ j ∈ s.world.db.jobs.rows, j.id = v.id ∧ j.scope = c.scope
  /-- A submission to a queue that exists returns it exactly when its fingerprint is the
  recorded one, and reports a conflict exactly when it is not. -/
  submitted : ∀ x o, .returned (.submit x) o ∈ s.calls → o.databaseFailure = false →
    (∃ q ∈ s.world.db.queues.rows, q.name = x.req.queue) →
    ∃ r ∈ s.world.db.idempotency.rows, r.scope = x.scope ∧ r.idempotencyKey = x.key ∧
      (o.job.isSome = true ↔ r.requestFingerprint = x.fingerprint) ∧
      (o = .refused ⟨.idempotencyConflict, .check⟩ ↔ r.requestFingerprint ≠ x.fingerprint)
  /-- A replay of what was a dead letter when it was called returns its replacement. -/
  replayed : ∀ t ∈ trace, ∀ n x, t.actor = .call n (.called (.replay x)) →
    (∃ original, ReplayReady x.scope x.originalJobID t.before.db original) →
    ∀ c o, s.calls[n]? = some (.returned c o) → o.databaseFailure = false → o.job.isSome = true
  /-- The database refuses rows that break their checks, and ids that name a row. -/
  refused : ∀ c f, .returned c (.refused f) ∈ s.calls → f.cause ≠ .check → c.valid = true →
    c.Taken s.world.db
  /-- A call that returns no job of its making leaves nothing behind, unless it is told
  that it failed and no failure of the run is its own. -/
  discarded : ∀ n p, s.calls[n]? = some p → p.isMade = false →
    ((∃ c, p = .returned c .broken) → ∃ t ∈ trace, t.actor = .call n .failed) →
    ∀ t ∈ trace, ∀ act, t.actor = .call n act → t.after = t.before
  /-- A call whose `COMMIT` takes effect and is told that it failed has made its job. -/
  lost : ∀ t ∈ trace, ∀ n b, t.actor = .call n (.committed b false) →
    s.calls[n]? = some (.returned b.creation .broken) ∧
      ∃ r ∈ s.world.db.records, r.identity = b.creation.identity ∧ r.jobID = b.job.id
  /-- Every job is referenced by one record, and was made once. -/
  born : ∀ j ∈ s.world.db.jobs.rows,
    s.world.db.records.countP (fun r => decide (r.jobID = j.id)) = 1 ∧
      trace.countP (Deed.bears j.id) = 1
  /-- The transaction that makes a job writes one event for it if it is created `QUEUED`,
  and none otherwise. -/
  notified : ∀ t ∈ trace, ∀ n b told, t.actor = .call n (.committed b told) →
    b.writes.Applied t.before.db t.after.db ∧
      (b.job.status = .queued → ∃ e, b.writes.events = [e] ∧ e.jobID = some b.job.id) ∧
      (b.job.status ≠ .queued → b.writes.events = [])
  /-- Every call can be brought to its end. -/
  returns : ∃ more s', Run ContestStep s more s' ∧ (∀ t ∈ more, t.advances = true) ∧
    ∀ p ∈ s'.calls, p.isReturned = true

section Result

variable {s₀ s : Contest} {trace : List Deed} {c : Creation} {o : Outcome} {db : DB} {b : Birth}
variable {v : JobView} {t : Deed} {n : ℕ} {told : Bool}

/-- A job that is returned is named by the record of the identity. -/
theorem Answered.named (h : Answered db c o) (hv : o.job = some v) :
    ∃ r ∈ db.records, r.identity = c.identity ∧ r.jobID = v.id ∧ c.Agrees r := by
  cases h with
  | made r mem identity job agrees | found r mem identity job agrees =>
    cases hv
    exact ⟨r, mem, identity, job, agrees⟩
  | _ => cases hv

/-- What a submission that the database did not fail tells about its record. -/
theorem Answered.submitted {x : Submission} (h : Answered db (.submit x) o)
    (hok : o.databaseFailure = false) (hqueue : ∃ q ∈ db.queues.rows, q.name = x.req.queue) :
    ∃ r ∈ db.idempotency.rows, r.scope = x.scope ∧ r.idempotencyKey = x.key ∧
      (o.job.isSome = true ↔ r.requestFingerprint = x.fingerprint) ∧
      (o = .refused ⟨.idempotencyConflict, .check⟩ ↔ r.requestFingerprint ≠ x.fingerprint) := by
  cases hv : o.job with
  | some v =>
    -- A record that answers the submission is one of its own table, with its fingerprint.
    obtain ⟨r, hr, hid, -, hagrees⟩ := h.named hv
    have hne : o ≠ .refused ⟨.idempotencyConflict, .check⟩ := by
      rintro rfl
      cases hv
    cases r with
    | replay y => cases hid
    | submission y =>
      have hfp : y.requestFingerprint = x.fingerprint := hagrees
      simp only [Record.identity, Creation.identity, Identity.submission.injEq] at hid
      exact ⟨y, mem_records_submission.mp hr, hid.1, hid.2, by simp [hfp], by simp [hne, hfp]⟩
  | none =>
    cases h with
    | made | found => cases hv
    | conflict r mem scope key differs =>
      exact ⟨r, mem, scope, key, by simp [differs], by simp [differs]⟩
    | unknownQueue none =>
      obtain ⟨q, hq, hname⟩ := hqueue
      exact absurd hname (none q hq)
    | schema forced taken => simp [Outcome.databaseFailure, forced] at hok
    | broken => cases hok

theorem Birth.events_eq (b : Birth) :
    (b.job.status = .queued → ∃ e, b.writes.events = [e] ∧ e.jobID = some b.job.id) ∧
      (b.job.status ≠ .queued → b.writes.events = []) := by
  have hsome := b.event_isSome
  cases he : b.event with
  | none =>
    rw [he] at hsome
    refine ⟨fun hq => absurd (hsome.mpr hq) (by simp), fun _ => ?_⟩
    simp [Birth.writes, he]
  | some e =>
    rw [he] at hsome
    refine ⟨fun _ => ⟨e, by simp [Birth.writes, he], (Birth.event_eq_some he).2⟩, fun hq => ?_⟩
    exact absurd (hsome.mp rfl) hq

theorem Contest.Opening.run_coherent (hopen : s₀.Opening) (hrun : Run ContestStep s₀ trace s) :
    Coherent s :=
  hrun.invariant (fun h hs => hs.coherent h) hopen.coherent

/-! ### One job for an identity -/

theorem made_once (hopen : s₀.Opening) (hrun : Run ContestStep s₀ trace s) (i : Identity) :
    trace.countP (Deed.makes i) ≤ 1 := by
  have hcount := hrun.count (P := Coherent)
    (f := fun s => s.world.db.records.countP fun r => decide (r.identity = i))
    (fun h hs => hs.coherent h) (fun _ hs => hs.makes_count i) hopen.coherent
  have hle := s.world.db.records_countP_le i
  omega

theorem Coherent.returned (h : Coherent s) (hreturned : .returned c o ∈ s.calls)
    (hv : o.job = some v) :
    ∃ r ∈ s.world.db.records, r.identity = c.identity ∧ r.jobID = v.id ∧
      (∀ r' ∈ s.world.db.records, r'.identity = c.identity → r' = r) ∧
      ∃ j ∈ s.world.db.jobs.rows, j.id = v.id ∧ j.scope = c.scope := by
  obtain ⟨r, hr, hid, hjob, -⟩ := Answered.named (h.informed _ hreturned) hv
  obtain ⟨j, hj, hjid, hscope⟩ := h.named r hr
  refine ⟨r, hr, hid, hjob, fun r' hr' hid' => ?_, j, hj, hjid.trans hjob, ?_⟩
  · exact DB.record_eq_of_identity hr' hr (hid'.trans hid.symm)
  · rw [hscope, Record.scope_eq hid]

theorem Coherent.refused (h : Coherent s) {f : Failure}
    (hreturned : .returned c (.refused f) ∈ s.calls) (hforced : f.cause ≠ .check)
    (hvalid : c.valid = true) : c.Taken s.world.db := by
  have hanswer := h.informed _ hreturned
  cases hanswer with
  | schema forced taken => exact taken hvalid
  | conflict | unknownQueue => exact absurd rfl hforced
  | unready own => exact absurd own hforced

theorem replay_returns (hopen : s₀.Opening) (hrun : Run ContestStep s₀ trace s) {x : Replaying}
    (ht : t ∈ trace) (hactor : t.actor = .call n (.called (.replay x)))
    (hready : ∃ original, ReplayReady x.scope x.originalJobID t.before.db original)
    (hreturned : s.calls[n]? = some (.returned c o)) (hok : o.databaseFailure = false) :
    o.job.isSome = true := by
  obtain ⟨pre, post, s₁, s₂, -, hpre, hstep, hpost⟩ := hrun.exists_step_of_mem ht
  -- From the call on, every state is one in which the call finds its original.
  have hready₂ : ReadyFor x n s₂ := by
    have hcoherent₂ := hstep.coherent (hopen.run_coherent hpre)
    cases hstep with
    | called c' =>
      cases hactor
      refine ⟨hcoherent₂, hready, .beginReplay x, ?_, rfl, trivial⟩
      show (s₁.calls ++ [Stage.beginReplay x])[s₁.calls.length]? = some (.beginReplay x)
      simp
    | _ => cases hactor
  have hready' : ReadyFor x n s := hpost.invariant (fun h hs => hs.readyFor h) hready₂
  obtain ⟨p, hp, hc, hu⟩ := hready'.call
  rw [hreturned, Option.some.injEq] at hp
  rw [← hp] at hu
  cases o with
  | made | found => rfl
  | refused f =>
    have hforced : f.cause ≠ .check := hu
    simp [Outcome.databaseFailure, hforced] at hok
  | broken => cases hok

theorem born_once (hopen : s₀.Opening) (hrun : Run ContestStep s₀ trace s) {j : Job}
    (hj : j ∈ s.world.db.jobs.rows) : trace.countP (Deed.bears j.id) = 1 := by
  have hcount := hrun.count (P := Coherent)
    (f := fun s => s.world.db.jobs.rows.countP fun k => decide (k.id = j.id))
    (fun h hs => hs.coherent h) (fun _ hs => hs.bears_count j.id) hopen.coherent
  have hone : s.world.db.jobs.rows.countP (fun k => decide (k.id = j.id)) = 1 :=
    s.world.db.jobs.count_eq_one hj (decide_eq_true rfl) fun k hk hid =>
      s.world.db.job_eq_of_id hk hj (of_decide_eq_true hid)
  rw [hopen.initial.jobs] at hcount
  simp only [List.countP_nil] at hcount
  omega

/-! ### What a call leaves behind

Only a `COMMIT` leaves anything, and it is the last thing its call does. So is a failure,
and a call that had the one cannot have had the other. -/

/-- What holds after a `COMMIT`, to the end of the run. -/
theorem committed_of_run (hrun : Run ContestStep s₀ trace s) (ht : t ∈ trace)
    (hactor : t.actor = .call n (.committed b told)) :
    b.writes.Applied t.before.db t.after.db ∧
      s.calls[n]? = some (.returned b.creation (b.outcome told)) ∧ b.record ∈ s.world.db.records := by
  obtain ⟨pre, post, s₁, s₂, -, -, hstep, hpost⟩ := hrun.exists_step_of_mem ht
  cases hstep with
  | committed told' call run =>
    cases hactor
    have happ := Birth.commit_eq_ok run
    refine ⟨happ, (returned_of_run hpost ?_).1, ?_⟩
    · exact List.getElem?_set_self (List.getElem?_eq_some_iff.mp call).1
    · exact hpost.invariant (P := fun s => b.record ∈ s.world.db.records)
        (fun hr hs => hs.later.records _ hr) ((Birth.mem_records happ).mpr (.inr rfl))
  | _ => cases hactor

/-- A call that failed before its `COMMIT` has none. -/
theorem not_committed_of_failed (hrun : Run ContestStep s₀ trace s) {t' : Deed} (ht : t ∈ trace)
    (hactor : t.actor = .call n .failed) (ht' : t' ∈ trace) :
    t'.actor ≠ .call n (.committed b told) := by
  intro hcommitted
  obtain ⟨pre, post, s₁, s₂, rfl, hpre, hstep, hpost⟩ := hrun.exists_step_of_mem ht
  rcases List.mem_append.mp ht' with hmem | hmem
  · -- The call had returned when it failed.
    obtain ⟨-, hreturned, -⟩ := committed_of_run hpre hmem hcommitted
    exact (hstep.of_returned hreturned).2 _ hactor
  · rcases List.mem_cons.mp hmem with rfl | hpast
    · rw [hactor] at hcommitted
      cases hcommitted
    · cases hstep with
      | @failed m p call live =>
        cases hactor
        have hreturned := List.getElem?_set_self (a := Stage.returned p.creation .broken)
          (List.getElem?_eq_some_iff.mp call).1
        exact (returned_of_run hpost hreturned).2 t' hpast _ hcommitted
      | _ => cases hactor

theorem discarded_of_run (hrun : Run ContestStep s₀ trace s) {p : Stage}
    (hp : s.calls[n]? = some p) (hmade : p.isMade = false)
    (hfailed : (∃ c, p = .returned c .broken) → ∃ t ∈ trace, t.actor = .call n .failed)
    (ht : t ∈ trace) {act : Act} (hactor : t.actor = .call n act) :
    t.after = t.before := by
  cases act with
  | committed b told =>
    obtain ⟨-, hreturned, -⟩ := committed_of_run hrun ht hactor
    rw [hp, Option.some.injEq] at hreturned
    subst hreturned
    cases told with
    | true => cases hmade
    | false =>
      obtain ⟨t', ht', hactor'⟩ := hfailed ⟨_, rfl⟩
      exact absurd hactor (not_committed_of_failed hrun ht' hactor' ht)
  | _ =>
    obtain ⟨pre, post, s₁, s₂, -, -, hstep, -⟩ := hrun.exists_step_of_mem ht
    cases hstep with
    | committed | service => cases hactor
    | _ => rfl

/-- **Submission and replay are idempotent, however their statements interleave.** -/
theorem creation_idempotent (hopen : s₀.Opening) (hrun : Run ContestStep s₀ trace s) :
    CreatedOnce trace s := by
  have hcoherent := hopen.run_coherent hrun
  exact {
    once := made_once hopen hrun
    returned := fun _ _ _ => hcoherent.returned
    submitted := fun _ _ hreturned => Answered.submitted (hcoherent.informed _ hreturned)
    replayed := fun _ ht _ _ hactor hready _ _ => replay_returns hopen hrun ht hactor hready
    refused := fun _ _ => hcoherent.refused
    discarded := fun _ _ hp hmade hfailed _ ht _ => discarded_of_run hrun hp hmade hfailed ht
    lost := fun _ ht _ b hactor =>
      have ⟨_, hreturned, hr⟩ := committed_of_run hrun ht hactor
      ⟨hreturned, b.record, hr, b.record_identity, b.record_jobID⟩
    born := fun j hj => ⟨hcoherent.born j hj, born_once hopen hrun hj⟩
    notified := fun _ ht _ b _ hactor => ⟨(committed_of_run hrun ht hactor).1, b.events_eq⟩
    returns := hcoherent.returns }

end Result

/-! ### A run -/

/-- Somebody calls, a call goes on, or it commits and its reply is lost. -/
inductive Move where
  | call (c : Creation)
  | go (n : ℕ)
  | lose (n : ℕ)

/-- The `COMMIT` of a call that has come to it. -/
def Contest.commit (s : Contest) (n : ℕ) (b : Birth) (told : Bool) : Option (Deed × Contest) :=
  match b.commit s.world.db with
  | .ok db => some (⟨s.world, .call n (.committed b told), ⟨db, s.world.clock⟩⟩,
      ⟨⟨db, s.world.clock⟩, s.calls.set n (.returned b.creation (b.outcome told))⟩)
  | .error _ => none

/-- The step a move leads to, if the call need not wait. -/
def Contest.move (s : Contest) : Move → Option (Deed × Contest)
  | .call c =>
    some (⟨s.world, .call s.calls.length (.called c), s.world⟩, ⟨s.world, s.calls ++ [c.start]⟩)
  | .go n =>
    match s.calls[n]? with
    | none => none
    | some (.commit b) => s.commit n b true
    | some p =>
      if p.isRunning && (s.calls.eraseIdx n).all p.passes then
        some (⟨s.world, .call n .statement, s.world⟩, ⟨s.world, s.calls.set n (p.next s.world.db)⟩)
      else none
  | .lose n =>
    match s.calls[n]? with
    | some (.commit b) => s.commit n b false
    | _ => none

def Contest.play (s : Contest) : List Move → Option (List Deed × Contest)
  | [] => some ([], s)
  | m :: moves =>
    (s.move m).bind fun (t, s₁) => (s₁.play moves).map fun (trace, s') => (t :: trace, s')

theorem Contest.commit_step {s s' : Contest} {n : ℕ} {b : Birth} {told : Bool} {t : Deed}
    (hcall : s.calls[n]? = some (.commit b)) (h : s.commit n b told = some (t, s')) :
    ContestStep s t s' := by
  unfold Contest.commit at h
  split at h
  · next db hcommit =>
    cases h
    exact .committed told hcall hcommit
  · cases h

theorem Contest.move_step {s s' : Contest} {m : Move} {t : Deed} (h : s.move m = some (t, s')) :
    ContestStep s t s' := by
  cases m with
  | call c =>
    cases h
    exact .called c
  | go n =>
    rw [Contest.move] at h
    split at h
    · cases h
    · next b hcall => exact Contest.commit_step hcall h
    · next p hother hcall =>
      split_ifs at h with hgo
      cases h
      rw [Bool.and_eq_true] at hgo
      exact .statement hcall hgo.1 hgo.2
  | lose n =>
    rw [Contest.move] at h
    split at h
    · next b hcall => exact Contest.commit_step hcall h
    · cases h

theorem Contest.play_run {s s' : Contest} {moves : List Move} {trace : List Deed}
    (h : s.play moves = some (trace, s')) : Run ContestStep s trace s' := by
  induction moves generalizing s trace with
  | nil =>
    cases h
    exact .nil _
  | cons m moves ih =>
    simp only [Contest.play, Option.bind_eq_some_iff, Option.map_eq_some_iff, Prod.exists,
      Prod.mk.injEq] at h
    obtain ⟨t, s₁, hmove, rest, s₂, hplay, rfl, rfl⟩ := h
    exact .cons (Contest.move_step hmove) (ih hplay)

theorem Contest.run_of_play (s : Contest) (moves : List Move) (P : Contest → Bool)
    (h : ((s.play moves).any fun played => P played.2) = true) :
    ∃ trace s', Run ContestStep s trace s' ∧ P s' = true := by
  obtain ⟨⟨trace, s'⟩, hplay, hP⟩ := (Option.any_eq_true _ _).mp h
  exact ⟨trace, s', Contest.play_run hplay, hP⟩

/-- A submission of the sample job under the sample key. -/
def sampleSubmission (id₁ id₂ : UUID) (fingerprint : String) : Creation :=
  .submit ⟨{ envAt 2 id₁ id₂ with fingerprint := fun _ => fingerprint }, "tenant", "key",
    ⟨"default", "email", "\x7b\x7d", 5, 3, 60, [], none⟩, ⟨"", ""⟩⟩

def sampleFingerprint : String :=
  "0123456789abcdef0123456789abcdef0123456789abcdef0123456789abcdef"

/-- Three submissions under one key, the last of another request. The first two insert
their jobs, the first records the identity and commits, and the others find it. -/
def sampleContest : List Move :=
  let other := "fedcba9876543210fedcba9876543210fedcba9876543210fedcba9876543210"
  [.call (sampleSubmission 2 3 sampleFingerprint), .call (sampleSubmission 4 5 sampleFingerprint),
    .call (sampleSubmission 6 7 other), .go 0, .go 1, .go 0, .go 1, .go 0, .go 1, .go 1, .go 0,
    .go 0, .go 2, .go 2, .go 2, .go 0, .go 2, .go 0, .go 1, .go 2, .go 2, .go 1, .go 1, .go 1, .go 2]

theorem creation_idempotent_sample :
    ∃ trace s, Run ContestStep ⟨quiet, []⟩ trace s ∧ s.calls.map Stage.isMade = [true, false, false] ∧
      s.calls.map Stage.isReturned = [true, true, true] ∧ s.world.db.jobs.rows.length = 1 ∧
      CreatedOnce trace s := by
  have hopen : Contest.Opening ⟨quiet, []⟩ := ⟨quiet_initial, rfl⟩
  obtain ⟨trace, s, hrun, hend⟩ := Contest.run_of_play ⟨quiet, []⟩ sampleContest
    (fun s => s.calls.map Stage.isMade == [true, false, false] &&
      s.calls.map Stage.isReturned == [true, true, true] && s.world.db.jobs.rows.length == 1)
    (by decide +kernel)
  simp only [Bool.and_eq_true, beq_iff_eq] at hend
  exact ⟨trace, s, hrun, hend.1.1, hend.1.2, hend.2, creation_idempotent hopen hrun⟩

/-- A submission whose reply is lost, and the same request again. -/
def lostReply : List Move :=
  [.call (sampleSubmission 2 3 sampleFingerprint), .go 0, .go 0, .go 0, .go 0, .go 0, .go 0, .lose 0,
    .call (sampleSubmission 4 5 sampleFingerprint), .go 1, .go 1, .go 1, .go 1, .go 1, .go 1, .go 1,
    .go 1]

/-- The caller of the first is told that it failed, and the second gets the job. -/
def Contest.repaired (s : Contest) : Bool :=
  match s.calls with
  | [.returned c .broken, .returned c' (.found v)] =>
    decide (c'.identity = c.identity) && s.world.db.jobs.rows.map Job.id == [v.id] &&
      s.world.db.records.length == 1 && s.world.db.outbox.rows.length == 1
  | _ => false

/-- A call that is told it failed leaves its job, its record and its event. -/
theorem lost_commit_leaves_job :
    ∃ trace s c c' v, Run ContestStep ⟨quiet, []⟩ trace s ∧
      s.calls = [.returned c .broken, .returned c' (.found v)] ∧ c'.identity = c.identity ∧
      s.world.db.jobs.rows.map Job.id = [v.id] ∧ s.world.db.records.length = 1 ∧
      s.world.db.outbox.rows.length = 1 := by
  obtain ⟨trace, s, hrun, hend⟩ := Contest.run_of_play ⟨quiet, []⟩ lostReply Contest.repaired
    (by decide +kernel)
  unfold Contest.repaired at hend
  split at hend
  · next c c' v hcalls =>
    simp only [Bool.and_eq_true, decide_eq_true_eq, beq_iff_eq] at hend
    exact ⟨trace, s, c, c', v, hrun, hcalls, hend.1.1.1, hend.1.1.2, hend.1.2, hend.2⟩
  · cases hend

end TaskForge

import Lecrev.Execution.System

/-!
# No stranded job

A job that is assigned or running has a live attempt with a lease, so that some component will
pick it up again: the scheduler a claimable job, `recoverStaleScheduling` a stale claim, lease
recovery everything else. The invariant survives reports in any order, late, duplicated and about
superseded attempts, as long as each report names the job its attempt belongs to.
-/

namespace Lecrev

/-- Attempt `attemptID` of the job is stored, live, and has a lease that is not the zero time. -/
def Store.Leased (s : Store) (jobID attemptID : String) : Prop :=
  ∃ a, s.attempts.get attemptID = some a ∧ a.jobID = jobID ∧ a.state.terminal = false ∧
    a.leaseExpiresAt ≠ 0

variable {s : Store}

theorem Store.Leased.setAttempt {jobID attemptID : String} (h : s.Leased jobID attemptID)
    {a a' : Attempt} (ha : s.attempts.get a'.id = some a) (hne : a.jobID ≠ jobID) :
    (s.setAttempt a').Leased jobID attemptID := by
  obtain ⟨b, hb, hjob, hlive, hlease⟩ := h
  refine ⟨b, ?_, hjob, hlive, hlease⟩
  have hid : attemptID ≠ a'.id := by
    rintro rfl
    cases ha.symm.trans hb
    exact hne hjob
  rw [Store.getAttempt_setAttempt, if_neg hid]
  exact hb

namespace Execution

/-- The states in which a job waits for an attempt. -/
def active : List JobState := [.assigned, .running]

/-- Every job that waits for an attempt has a leased one. -/
def Held (s : Store) : Prop :=
  ∀ k j, s.executionJobs.get k = some j → j.state ∈ active → ∃ id, s.Leased k id

/-- The component that will take a job further, or the end of the job. -/
inductive Attended (s : Store) (j : ExecutionJob) : Prop
  /-- The job is over. -/
  | over (done : j.state = .succeeded ∨ j.state = .failed)
  /-- The job is claimable, so that a scheduling step claims a job. -/
  | claimable (queued : j.state = .queued ∨ j.state = .retrying)
      (claims : nextClaim claimable s.executionJobs.values ≠ none)
  /-- The job is claimed, and requeued once the claim is stale. -/
  | scheduling (claimed : j.state = .scheduling)
      (requeues : ∀ staleBefore now error, (j.updatedAt : ℤ) ≤ staleBefore →
        (requeueIfStale .scheduling .queued staleBefore now error j).state = .queued)
  /-- The job has a live attempt with a lease, listed as expired once the lease has passed. -/
  | leased (active : j.state = .assigned ∨ j.state = .running) (a : Attempt)
      (attempt : s.attempts.get a.id = some a) (own : a.jobID = j.id)
      (live : a.state.terminal = false) (lease : a.leaseExpiresAt ≠ 0)
      (listed : ∀ before, a.leaseExpiresAt ≤ before → a ∈ s.listExpiredAttempts before)

theorem Held.of_sameView {s' : Store} (h : Held s) (hsame : s.SameView s') : Held s' := by
  intro k j hj hactive
  obtain ⟨id, a, ha, hrest⟩ := h k j ((hsame.jobs k).symm.trans hj) hactive
  exact ⟨id, a, (hsame.attempts id).trans ha, hrest⟩

theorem held_setJob {j' : ExecutionJob}
    (hothers : ∀ k j, k ≠ j'.id → s.executionJobs.get k = some j → j.state ∈ active →
      ∃ id, s.Leased k id)
    (hown : j'.state ∈ active → ∃ id, s.Leased j'.id id) : Held (s.setJob j') := by
  intro k j hj hactive
  rw [Store.getJob_setJob] at hj
  split_ifs at hj with hk
  · cases hj
    subst hk
    exact hown hactive
  · exact hothers k j hk hj hactive

theorem Held.setJob_of_idle (hs : Held s) {j' : ExecutionJob} (hidle : j'.state ∉ active) :
    Held (s.setJob j') :=
  held_setJob (fun k j _ hj hactive => hs k j hj hactive) fun hactive => absurd hactive hidle

/-- A report for its own job keeps it attended. -/
theorem held_reported {c : UpdateContext} {now : Time} {msg : AssignmentUpdate} {a : Attempt}
    {j : ExecutionJob} (hs : Held s) (h : Reports c msg s a j) (hown : a.jobID = msg.jobID) :
    Held ((s.setAttempt (a.afterUpdate msg now)).setJob
      (j.afterUpdate c.retry a.startedAt msg now)) := by
  have hjid : j.id = msg.jobID := Store.jobID_of_get h.job
  have haid : a.id = msg.attemptID := Store.attemptID_of_get h.attempt
  have hread : (s.setAttempt (a.afterUpdate msg now)).attempts.get msg.attemptID =
      some (a.afterUpdate msg now) := by simp [haid]
  refine held_setJob (fun k j' hk hj' hactive => ?_) fun hactive => ?_
  · obtain ⟨id, hleased⟩ := hs k j' hj' hactive
    refine ⟨id, hleased.setAttempt (a := a) (by simpa [haid] using h.attempt) ?_⟩
    rw [hown, ← hjid]
    simpa [eq_comm] using hk
  · rw [ExecutionJob.id_afterUpdate, hjid]
    cases hstate : msg.state with
    | unspecified =>
      -- the attempt keeps its state and its lease
      have hbefore : j.state ∈ active := by simpa [ExecutionJob.afterUpdate, hstate] using hactive
      obtain ⟨id, b, hb, hbjob, hlive, hlease⟩ := hs msg.jobID j h.job hbefore
      by_cases hid : id = msg.attemptID
      · subst hid
        cases h.attempt.symm.trans hb
        refine ⟨_, _, hread, by simpa using hbjob, ?_, ?_⟩
        · simpa [Attempt.afterUpdate, hstate] using hlive
        · simpa [Attempt.afterUpdate, hstate] using hlease
      · exact ⟨id, b, by simpa [haid, hid] using hb, hbjob, hlive, hlease⟩
    | starting | running =>
      -- the reported attempt is revived with a new lease, even one that was terminal before
      refine ⟨_, _, hread, by simpa using hown, ?_, ?_⟩
      · simp [Attempt.afterUpdate, hstate, AttemptState.terminal]
      · simpa [Attempt.afterUpdate, hstate] using add_leaseTTL_ne_zero now
    -- a final report takes the job out of the states that wait for an attempt
    | succeeded => simp [ExecutionJob.afterUpdate, hstate, active] at hactive
    | failed =>
      simp only [ExecutionJob.afterUpdate, hstate, ExecutionJob.stateAfterFailure] at hactive
      split_ifs at hactive <;> simp [active] at hactive

theorem held_recovered {clock : ℕ → Time} {attempt : Attempt} {a : Attempt} {j : ExecutionJob}
    (hs : Held s) (h : Recovers clock attempt s a j) (hown : a.jobID = attempt.jobID) :
    Held ((s.setAttempt (a.expired (clock 1))).setJob (j.recovered clock)) := by
  have hjid : j.id = attempt.jobID := Store.jobID_of_get h.job
  have haid : a.id = attempt.id := Store.attemptID_of_get h.attempt
  refine held_setJob (fun k j' hk hj' hactive => ?_) fun hactive => ?_
  · obtain ⟨id, hleased⟩ := hs k j' hj' hactive
    refine ⟨id, hleased.setAttempt (a := a) (by simpa [Attempt.expired, haid] using h.attempt) ?_⟩
    rw [hown, ← hjid]
    simpa [eq_comm] using hk
  · rw [ExecutionJob.state_recovered] at hactive
    split_ifs at hactive <;> simp [active] at hactive

theorem held_offered {uuid : ℕ → String} {job : ExecutionJob} {taken : Option Assignment}
    {s' : Store} (hs : Held s) (hfresh : ∀ n, s.attempts.get (uuid n) = none)
    (h : Offered uuid 0 job taken s s') : Held s' := by
  intro k j hj hactive
  by_cases hk : k = job.id
  · subst hk
    obtain ⟨j', hj', -, hnone, -⟩ := h.own
    cases hj'.symm.trans hj
    cases taken with
    | none => simp [(hnone rfl).1, active] at hactive
    | some assignment =>
      obtain ⟨-, a, ha, hjob, hlive, hlease⟩ := h.live assignment rfl
      exact ⟨_, a, ha, hjob, by rw [hlive]; rfl, hlease⟩
  · obtain ⟨id, a, ha, hrest⟩ := hs k j ((h.otherJobs k hk).symm.trans hj) hactive
    -- an offer writes attempts only under identifiers that were fresh when it began
    refine ⟨id, a, h.kept id a ha fun n _ hid => ?_, hrest⟩
    simp [hid, hfresh n] at ha

/-- **Every event keeps the jobs held** whose report, if it is one, names the job of its
attempt. -/
theorem Effect.held {s : State} {s' : Store} {e : Event} (h : Effect s.store e s')
    (hbelongs : Belongs s e) (hs : Held s.store) : Held s' := by
  cases h with
  | same hsame => exact hs.of_sameView hsame
  | created _ => exact hs.setJob_of_idle (by simp [newExecutionJob, active])
  | scheduled job hfresh hstored hclaim hscheduled =>
    cases hscheduled with
    | abandoned error now hsame =>
      exact (hs.setJob_of_idle (by simp [ExecutionJob.abandoned, active])).of_sameView hsame
    | offered hbudget taken hoffered => exact held_offered hs hfresh hoffered
  | reported a j hreports hsame =>
    exact (held_reported hs hreports (hbelongs a hreports.attempt)).of_sameView hsame
  | retried j hstored =>
    refine hs.setJob_of_idle ?_
    rw [ExecutionJob.state_afterRetry]
    split_ifs <;> simp [active]
  | recovered a j hrecovers hown hsame => exact (held_recovered hs hrecovers hown).of_sameView hsame
  | requeued =>
    intro k j' hj' hactive
    rw [Store.getJob_requeueStale] at hj'
    obtain ⟨j, hj, rfl⟩ := Option.map_eq_some_iff.mp hj'
    -- a requeued job is queued, so one that waits for an attempt was left alone
    refine hs k j hj ?_
    unfold requeueIfStale at hactive
    split_ifs at hactive
    · exact hactive
    · exact hactive
    · simp [active] at hactive

theorem Held.attended (hs : Held s) {k : String} {j : ExecutionJob}
    (hj : s.executionJobs.get k = some j) : Attended s j := by
  have hid : j.id = k := Store.jobID_of_get hj
  have hmem : j ∈ s.executionJobs.values := Table.mem_values_of_get hj
  -- a job that waits for an attempt has a leased one
  have hleased : j.state = .assigned ∨ j.state = .running → Attended s j := by
    intro hactive
    obtain ⟨id, a, ha, hjob, hlive, hlease⟩ := hs k j hj (by simpa [active] using hactive)
    have haid : a.id = id := Store.attemptID_of_get ha
    subst haid
    exact .leased hactive a ha (hjob.trans hid.symm) hlive hlease fun before hbefore =>
      (s.mem_listExpiredAttempts_iff a before).mpr ⟨ha, hlive, hlease, hbefore⟩
  cases hstate : j.state with
  | succeeded => exact .over (.inl hstate)
  | failed => exact .over (.inr hstate)
  | queued =>
    exact .claimable (.inl hstate) (nextClaim_ne_none hmem (by simp [Lecrev.claimable, hstate]))
  | retrying =>
    exact .claimable (.inr hstate) (nextClaim_ne_none hmem (by simp [Lecrev.claimable, hstate]))
  | scheduling =>
    refine .scheduling hstate fun staleBefore now error hstale => ?_
    simp [requeueIfStale, hstate, not_lt.mpr hstale]
  | assigned => exact hleased (.inl hstate)
  | running => exact hleased (.inr hstate)

/-- **No stranded job.** In every state reached by any events whose reports name the job of their
attempt, every stored job is over, or claimable, or claimed, or has a live attempt with a lease
that lease recovery will find. -/
theorem job_attended {s : State} (hs : Initial s) {es : List Event}
    (hruns : system.EveryStep (fun t e => Enabled t e ∧ Belongs t e) s es) {k : String}
    {j : ExecutionJob} (hj : (system.exec s es).store.executionJobs.get k = some j) :
    Attended (system.exec s es).store j := by
  have hheld : Held (system.exec s es).store := by
    refine hruns.invariant (P := fun t => Held t.store) ?_ fun t e he ht =>
      (effect_step he.1).held he.2 ht
    intro k j hj
    simp [hs.jobs] at hj
  exact hheld.attended hj

theorem job_attended_sample :
    ∃ j, (system.exec Sample.start [Sample.enqueue, Sample.schedule (.ok ()) 20 "attempt-1",
        Sample.report 30 "attempt-1" .starting]).store.executionJobs.get "job" = some j ∧
      j.state = .assigned ∧
      Attended (system.exec Sample.start [Sample.enqueue, Sample.schedule (.ok ()) 20 "attempt-1",
        Sample.report 30 "attempt-1" .starting]).store j := by
  refine ⟨_, rfl, rfl, job_attended (k := "job") Sample.initial_start ?_ rfl⟩
  refine ⟨⟨rfl, trivial⟩, ⟨fun _ => rfl, trivial⟩, ⟨trivial, fun a ha => ?_⟩, trivial⟩
  cases ha
  rfl

end Execution

end Lecrev

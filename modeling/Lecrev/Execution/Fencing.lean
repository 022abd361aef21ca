import Lecrev.Execution.System

/-!
# Superseded attempts

`LastAttemptID` is written by the scheduler and read by nobody: a report about a superseded
attempt, and the recovery of one, rewrite the job like those of the current attempt. The results
here say exactly which of them leave the job alone.
-/

namespace Lecrev

namespace Execution

/-- What a fenced attempt must not change in its job: state, result, error and attempt count. -/
def fenced (j : ExecutionJob) : JobState × Option JobResult × String × ℤ :=
  (j.state, j.result, j.error, j.attemptCount)

/-- From `s` to `s'` the job keeps its state, result, error and attempt count. -/
def JobKept (jobID : String) (s s' : Store) : Prop :=
  (s'.executionJobs.get jobID).map fenced = (s.executionJobs.get jobID).map fenced

/-- From `s` to `s'` the attempt stays in its state. -/
def AttemptKept (attemptID : String) (s s' : Store) : Prop :=
  (s'.attempts.get attemptID).map (·.state) = (s.attempts.get attemptID).map (·.state)

/-- The report repeats what the job says already. -/
def ReportRepeats (retry : Bool) (a : Attempt) (j : ExecutionJob) (now : Time)
    (msg : AssignmentUpdate) : Prop :=
  match msg.state with
  | .unspecified => True
  | .starting => j.state = .assigned
  | .running => j.state = .running
  | .succeeded =>
    j.state = .succeeded ∧ j.result = some (reportedResult msg a.startedAt now) ∧ j.error = ""
  | .failed =>
    j.state = j.stateAfterFailure retry ∧
      j.result = some (reportedResult msg a.startedAt now) ∧ j.error = msg.errorMessage

/-- The recovery of `a` does not act, or leaves the job as it is already. -/
def RecoveryRepeats (clock : ℕ → Time) (a : Attempt) (j : ExecutionJob) : Prop :=
  a.state.terminal = true ∨ clock 0 < a.leaseExpiresAt ∨
    (j.hasBudget = true ∧ j.state = .retrying ∧ j.error = "") ∨
    (j.hasBudget = false ∧ j.state = .failed ∧ j.error = leaseExpiredError)

/-- The state a report names is the terminal state the attempt is in, or none. -/
def SameEnd (a : Attempt) (msg : AssignmentUpdate) : Prop :=
  msg.state = .unspecified ∨ (msg.state = .succeeded ∧ a.state = .succeeded) ∨
    (msg.state = .failed ∧ a.state = .failed)

section Records

variable {retry : Bool} {a : Attempt} {j : ExecutionJob} {now : Time} {msg : AssignmentUpdate}

theorem fenced_afterUpdate_iff :
    fenced (j.afterUpdate retry a.startedAt msg now) = fenced j ↔
      ReportRepeats retry a j now msg := by
  unfold ExecutionJob.afterUpdate ReportRepeats fenced
  cases msg.state <;> simp [@eq_comm _ _ j.state, @eq_comm _ _ j.result, @eq_comm _ _ j.error]

theorem fenced_recovered_iff {clock : ℕ → Time} :
    fenced (j.recovered clock) = fenced j ↔
      (j.hasBudget = true ∧ j.state = .retrying ∧ j.error = "") ∨
        (j.hasBudget = false ∧ j.state = .failed ∧ j.error = leaseExpiredError) := by
  unfold ExecutionJob.recovered
  cases hbudget : j.hasBudget with
  | true =>
    simp [fenced, ExecutionJob.retried, ExecutionJob.lapsed, @eq_comm _ _ j.state,
      @eq_comm _ _ j.error]
  | false =>
    simp [fenced, ExecutionJob.abandoned, @eq_comm _ _ j.state, @eq_comm _ _ j.error]

theorem state_afterUpdate_iff (hterminal : a.state.terminal = true) :
    (a.afterUpdate msg now).state = a.state ↔ SameEnd a msg := by
  have hend : a.state = .succeeded ∨ a.state = .failed := by
    simpa [AttemptState.terminal] using hterminal
  unfold Attempt.afterUpdate SameEnd
  cases msg.state <;> rcases hend with hend | hend <;> simp [hend]

end Records

section Handlers

variable {s : Store} {a : Attempt} {j : ExecutionJob}

theorem jobKept_iff_of_get {jobID : String} {s' : Store} {j' : ExecutionJob}
    (hj : s.executionJobs.get jobID = some j) (hj' : s'.executionJobs.get jobID = some j') :
    JobKept jobID s s' ↔ fenced j' = fenced j := by
  rw [JobKept, hj, hj', Option.map_some, Option.map_some, Option.some_inj]

theorem run_handleAssignmentUpdate_of_direct {c : UpdateContext} {now : Time}
    {msg : AssignmentUpdate} (hdirect : c.directInvokes.contains msg.attemptID = true) :
    ((handleAssignmentUpdate c now msg).run s).2 = s := by
  refine run_handleAssignmentUpdate_of_not fun a j h => ?_
  rw [h.direct] at hdirect
  cases hdirect

theorem jobKept_update_iff {c : UpdateContext} {now : Time} {msg : AssignmentUpdate}
    (ha : s.attempts.get msg.attemptID = some a) (hj : s.executionJobs.get msg.jobID = some j) :
    JobKept msg.jobID s ((handleAssignmentUpdate c now msg).run s).2 ↔
      c.directInvokes.contains msg.attemptID = true ∨ ReportRepeats c.retry a j now msg := by
  cases hdirect : c.directInvokes.contains msg.attemptID with
  | true =>
    rw [run_handleAssignmentUpdate_of_direct hdirect]
    exact iff_of_true rfl (.inl rfl)
  | false =>
    have hreports : Reports c msg s a j := ⟨hdirect, ha, hj⟩
    have hread := (hreports.sameView now).jobs msg.jobID
    rw [Store.getJob_setJob, if_pos (by simp [Store.jobID_of_get hj])] at hread
    rw [jobKept_iff_of_get hj hread, fenced_afterUpdate_iff]
    simp

theorem attemptKept_update_iff {c : UpdateContext} {now : Time} {msg : AssignmentUpdate}
    (ha : s.attempts.get msg.attemptID = some a) (hj : s.executionJobs.get msg.jobID = some j)
    (hterminal : a.state.terminal = true) :
    AttemptKept msg.attemptID s ((handleAssignmentUpdate c now msg).run s).2 ↔
      c.directInvokes.contains msg.attemptID = true ∨ SameEnd a msg := by
  cases hdirect : c.directInvokes.contains msg.attemptID with
  | true =>
    rw [run_handleAssignmentUpdate_of_direct hdirect]
    exact iff_of_true rfl (.inl rfl)
  | false =>
    have hreports : Reports c msg s a j := ⟨hdirect, ha, hj⟩
    have hread := (hreports.sameView now).attempts msg.attemptID
    rw [Store.attempts_setJob, Store.getAttempt_setAttempt,
      if_pos (by simp [Store.attemptID_of_get ha])] at hread
    rw [AttemptKept, hread, ha, Option.map_some, Option.map_some, Option.some_inj,
      state_afterUpdate_iff hterminal]
    simp

theorem jobKept_recover_iff {clock : ℕ → Time} (ha : s.attempts.get a.id = some a)
    (hj : s.executionJobs.get a.jobID = some j) :
    JobKept a.jobID s ((recoverAttempt clock a).run s).2 ↔ RecoveryRepeats clock a j := by
  by_cases hacts : a.state.terminal = false ∧ a.leaseExpiresAt ≤ clock 0
  · have hrecovers : Recovers clock a s a j := ⟨hj, ha, hacts.1, hacts.2⟩
    have hread := hrecovers.sameView.jobs a.jobID
    rw [Store.getJob_setJob, if_pos (by simp [Store.jobID_of_get hj])] at hread
    rw [jobKept_iff_of_get hj hread, fenced_recovered_iff]
    simp [RecoveryRepeats, hacts.1, not_lt.mpr hacts.2]
  · have hnot : ∀ a' j', ¬ Recovers clock a s a' j' := by
      intro a' j' h
      cases ha.symm.trans h.attempt
      exact hacts ⟨h.live, h.passed⟩
    rw [run_recoverAttempt_of_not hnot]
    refine iff_of_true rfl ?_
    rw [not_and_or, Bool.not_eq_false, not_le] at hacts
    exact hacts.elim .inl fun h => .inr (.inl h)

/-- **Which messages about an attempt its job withstands.** For every attempt of a stored job,
superseded or not: a report keeps the job's state, result, error and attempt count exactly when it
repeats them; a recovery exactly when it does not act or repeats them; and a report that finds the
job it names keeps a finished attempt in its state exactly when it names that state. -/
theorem attempt_fenced_iff (hj : s.executionJobs.get j.id = some j)
    (ha : s.attempts.get a.id = some a) (hown : a.jobID = j.id) :
    (∀ c now msg, msg.attemptID = a.id → msg.jobID = j.id →
      (JobKept j.id s ((handleAssignmentUpdate c now msg).run s).2 ↔
        c.directInvokes.contains a.id = true ∨ ReportRepeats c.retry a j now msg)) ∧
    (∀ clock, JobKept j.id s ((recoverAttempt clock a).run s).2 ↔ RecoveryRepeats clock a j) ∧
    (∀ c now msg, msg.attemptID = a.id → (∃ j', s.executionJobs.get msg.jobID = some j') →
      a.state.terminal = true →
      (AttemptKept a.id s ((handleAssignmentUpdate c now msg).run s).2 ↔
        c.directInvokes.contains a.id = true ∨ SameEnd a msg)) := by
  refine ⟨fun c now msg hattempt hjob => ?_, fun clock => ?_,
    fun c now msg hattempt ⟨j', hj'⟩ hterminal => ?_⟩
  · rw [← hattempt, ← hjob]
    exact jobKept_update_iff (hattempt ▸ ha) (hjob ▸ hj)
  · rw [← hown]
    exact jobKept_recover_iff ha (hown ▸ hj)
  · rw [← hattempt]
    exact attemptKept_update_iff (hattempt ▸ ha) hj' hterminal

end Handlers

/-- The store of the small deployment after the first attempt lost its lease and was replaced. -/
def Sample.superseded : Store :=
  (system.exec Sample.start [Sample.enqueue, Sample.schedule (.ok ()) 20 "attempt-1",
    Sample.recover (100 * second) "attempt-1",
    Sample.schedule (.ok ()) (101 * second) "attempt-2"]).store

/-- The job in that store; its current attempt is the second one. -/
def Sample.dispatchedAgain : ExecutionJob where
  id := "job"
  functionVersionID := "version"
  projectID := "project"
  targetRegion := "region"
  state := .assigned
  payload := []
  maxRetries := 2
  attemptCount := 2
  lastAttemptID := "attempt-2"
  createdAt := 10
  updatedAt := 101 * second

/-- The first attempt in that store. -/
def Sample.replaced : Attempt where
  id := "attempt-1"
  jobID := "job"
  functionVersionID := "version"
  region := "region"
  state := .failed
  leaseExpiresAt := 100 * second
  error := leaseExpiredError
  createdAt := 20
  updatedAt := 100 * second

theorem attempt_fenced_iff_sample :
    Sample.replaced.id ≠ Sample.dispatchedAgain.lastAttemptID ∧
      JobKept "job" Sample.superseded
        ((recoverAttempt (fun _ => 200 * second) Sample.replaced).run Sample.superseded).2 := by
  refine ⟨by decide, ?_⟩
  exact ((attempt_fenced_iff (s := Sample.superseded) (a := Sample.replaced)
    (j := Sample.dispatchedAgain) rfl rfl rfl).2.1 _).mpr (.inl rfl)

/-- Superseded attempts are not fenced: a heartbeat of the replaced attempt sets the job running
and brings the failed attempt back. -/
theorem not_attempt_fenced :
    ¬ ∀ (s : Store) (j : ExecutionJob) (a : Attempt), s.executionJobs.get j.id = some j →
      s.attempts.get a.id = some a → a.jobID = j.id → a.id ≠ j.lastAttemptID →
      (∀ c now msg, msg.attemptID = a.id → msg.jobID = j.id →
        JobKept j.id s ((handleAssignmentUpdate c now msg).run s).2) ∧
      (∀ clock, JobKept j.id s ((recoverAttempt clock a).run s).2) ∧
      (∀ c now msg, msg.attemptID = a.id → a.state.terminal = true →
        AttemptKept a.id s ((handleAssignmentUpdate c now msg).run s).2) := by
  intro h
  have hkept := (h Sample.superseded Sample.dispatchedAgain Sample.replaced rfl rfl rfl
    (by decide)).1 { retry := true } (102 * second)
    { hostID := "host", region := "region", attemptID := "attempt-1", jobID := "job",
      state := .running } rfl rfl
  cases hkept

end Execution

end Lecrev

import Lecrev.Scheduler.Service

/-!
# Assignment updates

`handleAssignmentUpdate` of `internal/coordinator`: an agent's report about an attempt is written
into the attempt and into the job the report names. Both records are read, changed and written
back as a whole; neither the state of the attempt nor the state of the job is consulted.

A report of failure with budget left also starts a goroutine that calls `RetryExecution`. The
handler returns the job that goroutine was started for; `retryGoroutine` is its body.
-/

namespace Lecrev

/-- `ExecutionLogsKey` of `internal/artifact`. -/
def executionLogsKey (jobID attemptID : String) : String :=
  "executions/" ++ jobID ++ "/" ++ attemptID ++ "/logs.txt"

/-- `ExecutionOutputKey` of `internal/artifact`. -/
def executionOutputKey (jobID attemptID : String) : String :=
  "executions/" ++ jobID ++ "/" ++ attemptID ++ "/output.json"

/-- The start of an attempt, if it is known. -/
def startTimeOr (fallback startedAt : Time) : Time :=
  if startedAt = 0 then fallback else startedAt

/-- The result that a terminal report leaves in the job. -/
def reportedResult (msg : AssignmentUpdate) (startedAt now : Time) : JobResult where
  exitCode := msg.exitCode
  logs := msg.logs
  logsKey := executionLogsKey msg.jobID msg.attemptID
  output := msg.outputJson
  outputKey := executionOutputKey msg.jobID msg.attemptID
  hostID := msg.hostID
  region := msg.region
  startedAt := startTimeOr now startedAt
  finishedAt := now

/-- The attempt that `handleAssignmentUpdate` writes back. -/
def Attempt.afterUpdate (attempt : Attempt) (msg : AssignmentUpdate) (now : Time) : Attempt :=
  let attempt := { attempt with updatedAt := now, hostID := msg.hostID }
  match msg.state with
  | .unspecified => attempt
  | .starting =>
    { attempt with
      state := .starting
      startedAt := startTimeOr now attempt.startedAt
      leaseExpiresAt := now + leaseTTL }
  | .running =>
    { attempt with
      state := .running
      startedAt := startTimeOr now attempt.startedAt
      leaseExpiresAt := now + leaseTTL }
  | .succeeded => { attempt with state := .succeeded, leaseExpiresAt := now }
  | .failed =>
    { attempt with state := .failed, leaseExpiresAt := now, error := msg.errorMessage }

@[simp]
theorem Attempt.id_afterUpdate (attempt : Attempt) (msg : AssignmentUpdate) (now : Time) :
    (attempt.afterUpdate msg now).id = attempt.id := by
  unfold Attempt.afterUpdate
  split <;> rfl

@[simp]
theorem Attempt.jobID_afterUpdate (attempt : Attempt) (msg : AssignmentUpdate) (now : Time) :
    (attempt.afterUpdate msg now).jobID = attempt.jobID := by
  unfold Attempt.afterUpdate
  split <;> rfl

/-- The state a report of failure puts the job in; `retry` says whether a retryer is set. -/
def ExecutionJob.stateAfterFailure (job : ExecutionJob) (retry : Bool) : JobState :=
  if job.hasBudget && retry then .retrying else .failed

/-- The job that `handleAssignmentUpdate` writes back; `startedAt` is the attempt's. -/
def ExecutionJob.afterUpdate (job : ExecutionJob) (retry : Bool) (startedAt : Time)
    (msg : AssignmentUpdate) (now : Time) : ExecutionJob :=
  match msg.state with
  | .unspecified => { job with updatedAt := now }
  | .starting => { job with state := .assigned, updatedAt := now }
  | .running => { job with state := .running, updatedAt := now }
  | .succeeded =>
    { job with
      state := .succeeded
      error := ""
      result := some (reportedResult msg startedAt now)
      updatedAt := now }
  | .failed =>
    { job with
      state := job.stateAfterFailure retry
      error := msg.errorMessage
      result := some (reportedResult msg startedAt now)
      updatedAt := now }

@[simp]
theorem ExecutionJob.id_afterUpdate (job : ExecutionJob) (retry : Bool) (startedAt : Time)
    (msg : AssignmentUpdate) (now : Time) :
    (job.afterUpdate retry startedAt msg now).id = job.id := by
  unfold ExecutionJob.afterUpdate
  split <;> rfl

/-- The record `recordCost` writes for an attempt with a result. -/
def newCostRecord (now : Time) (version : FunctionVersion) (project : Project)
    (attempt : Attempt) (job : ExecutionJob) (result : JobResult) : CostRecord :=
  let startedAt := startTimeOr result.finishedAt attempt.startedAt
  -- a negative run time counts as zero, as the truncated subtraction does
  let runtime := result.finishedAt - startedAt
  let runtimeMs :=
    if runtime / 1000000 = 0 ∧ result.finishedAt ≠ 0 ∧ startedAt ≠ 0 ∧
        startedAt ≤ result.finishedAt then 1
    else runtime / 1000000
  { id := attempt.id
    tenantID := project.tenantID
    projectID := project.id
    jobID := job.id
    attemptID := attempt.id
    hostID := result.hostID
    region := result.region
    startMode := attempt.startMode
    cpuMs := runtimeMs
    memoryMBMs := version.memoryMB * runtimeMs
    warmInstanceMs :=
      if attempt.startMode = .blankWarm ∨ attempt.startMode = .functionWarm then runtimeMs else 0
    dataEgressBytes := result.logs.length + result.output.length
    createdAt := now }

/-- `recordCost`. -/
def recordCost (now : Time) (attempt : Attempt) (job : ExecutionJob) : StoreM Unit :=
  match job.result with
  | none => pure ()
  | some result => do
    let version ← getFunctionVersion job.functionVersionID
    let project ← getProject job.projectID
    putCostRecord (newCostRecord now version project attempt job result)

/-- What `handleAssignmentUpdate` reads of its coordinator: whether a retryer is set, and the
attempts of direct invocations, whose reports go to a waiting caller and not to the store. -/
structure UpdateContext where
  retry : Bool
  directInvokes : List String := []

/-- The report ends its attempt. -/
def AssignmentState.terminal (state : AssignmentState) : Bool :=
  state == .succeeded || state == .failed

/-- The part of `handleAssignmentUpdate` that reaches the store. It returns the job for which a
retry goroutine was started. -/
def applyAssignmentUpdate (retry : Bool) (now : Time) (msg : AssignmentUpdate) :
    StoreM (Option String) := do
  let attempt ← getAttempt msg.attemptID
  let job ← getExecutionJob msg.jobID
  let attempt' := attempt.afterUpdate msg now
  let job' := job.afterUpdate retry attempt.startedAt msg now
  updateAttempt attempt'
  updateExecutionJob job'
  if msg.state.terminal then
    recordCost now attempt' job'
  if msg.state = .failed ∧ job'.state = .retrying then pure (some job'.id) else pure none

/-- `handleAssignmentUpdate`: reports of direct invocations go to their waiter. -/
def handleAssignmentUpdate (c : UpdateContext) (now : Time) (msg : AssignmentUpdate) :
    StoreM (Option String) :=
  if c.directInvokes.contains msg.attemptID then pure none
  else applyAssignmentUpdate c.retry now msg

/-- The goroutine that `handleAssignmentUpdate` starts after a report of failure. -/
def retryGoroutine (clock : ℕ → Time) (jobID : String) : StoreM Unit := do
  match ← (retryExecution (clock 0) jobID).result with
  | .ok _ => pure ()
  | .error e =>
    match ← (getExecutionJob jobID).result with
    | .error _ => pure ()
    | .ok latest =>
      let _ ← (updateExecutionJob (latest.abandoned e.text (clock 1))).result
      pure ()

/-! ## What a report writes -/

theorem keeps_recordCost (now : Time) (attempt : Attempt) (job : ExecutionJob) (s : Store) :
    (recordCost now attempt job).Keeps s.SameView fun _ _ _ => True := by
  unfold recordCost
  cases job.result with
  | none => exact Prog.keeps_pure ()
  | some result =>
    refine .bind_of (Prog.keeps_query fun _ _ => trivial) fun version => ?_
    refine .bind_of (Prog.keeps_query fun _ _ => trivial) fun project => ?_
    exact Prog.keeps_modify fun t ht => ⟨⟨ht.jobs, ht.attempts, ht.accepted⟩, trivial⟩

theorem sameView_applyAssignmentUpdate (retry : Bool) (now : Time) (msg : AssignmentUpdate)
    {s : Store} {a : Attempt} {j : ExecutionJob}
    (ha : s.attempts.get msg.attemptID = some a) (hj : s.executionJobs.get msg.jobID = some j) :
    ((s.setAttempt (a.afterUpdate msg now)).setJob
      (j.afterUpdate retry a.startedAt msg now)).SameView
      ((applyAssignmentUpdate retry now msg).run s).2 := by
  simp only [applyAssignmentUpdate, Prog.run_bind, run_getAttempt, run_getExecutionJob,
    run_updateAttempt, run_updateExecutionJob, find_of_get _ ha, find_of_get _ hj]
  refine Prog.Keeps.run (G := fun _ _ _ => True) ?_ (.refl _)
  split_ifs
  · exact .bind_of (keeps_recordCost _ _ _ _) fun _ => Prog.keeps_pure _
  · exact .bind_of (keeps_recordCost _ _ _ _) fun _ => Prog.keeps_pure _
  · exact Prog.keeps_pure _
  · exact Prog.keeps_pure _

/-- The report `msg` reaches the store, and finds its attempt `a` and its job `j` there. -/
structure Reports (c : UpdateContext) (msg : AssignmentUpdate) (s : Store) (a : Attempt)
    (j : ExecutionJob) : Prop where
  direct : c.directInvokes.contains msg.attemptID = false
  attempt : s.attempts.get msg.attemptID = some a
  job : s.executionJobs.get msg.jobID = some j

theorem Reports.sameView {c : UpdateContext} {msg : AssignmentUpdate} {s : Store} {a : Attempt}
    {j : ExecutionJob} (h : Reports c msg s a j) (now : Time) :
    ((s.setAttempt (a.afterUpdate msg now)).setJob
      (j.afterUpdate c.retry a.startedAt msg now)).SameView
      ((handleAssignmentUpdate c now msg).run s).2 := by
  rw [handleAssignmentUpdate, h.direct]
  exact sameView_applyAssignmentUpdate c.retry now msg h.attempt h.job

theorem run_handleAssignmentUpdate_of_not {c : UpdateContext} {now : Time}
    {msg : AssignmentUpdate} {s : Store} (h : ∀ a j, ¬ Reports c msg s a j) :
    ((handleAssignmentUpdate c now msg).run s).2 = s := by
  unfold handleAssignmentUpdate
  split_ifs with hdirect
  · rfl
  cases ha : s.attempts.get msg.attemptID with
  | none => simp [applyAssignmentUpdate, find_of_get_none _ ha]
  | some a =>
    cases hj : s.executionJobs.get msg.jobID with
    | none => simp [applyAssignmentUpdate, find_of_get _ ha, find_of_get_none _ hj]
    | some j => exact absurd ⟨by simpa using hdirect, ha, hj⟩ (h a j)

/-- The job as the retry goroutine leaves it: back in the queue, or failed when its budget is used
up. -/
def ExecutionJob.afterRetry (job : ExecutionJob) (clock : ℕ → Time) : ExecutionJob :=
  if job.hasBudget then job.retried (clock 0)
  else job.abandoned (retryBudgetExceeded job).text (clock 1)

@[simp]
theorem ExecutionJob.id_afterRetry (job : ExecutionJob) (clock : ℕ → Time) :
    (job.afterRetry clock).id = job.id := by
  unfold ExecutionJob.afterRetry
  split_ifs <;> rfl

theorem ExecutionJob.state_afterRetry (job : ExecutionJob) (clock : ℕ → Time) :
    (job.afterRetry clock).state = if job.hasBudget then .retrying else .failed := by
  unfold ExecutionJob.afterRetry
  split_ifs <;> rfl

theorem ExecutionJob.result_afterRetry (job : ExecutionJob) (clock : ℕ → Time) :
    (job.afterRetry clock).result = job.result := by
  unfold ExecutionJob.afterRetry
  split_ifs <;> rfl

theorem run_retryGoroutine {clock : ℕ → Time} {jobID : String} {s : Store} {j : ExecutionJob}
    (hj : s.executionJobs.get jobID = some j) :
    ((retryGoroutine clock jobID).run s).2 = s.setJob (j.afterRetry clock) := by
  unfold ExecutionJob.afterRetry
  by_cases hbudget : j.hasBudget = true
  · simp [retryGoroutine, run_retryExecution _ hj, hbudget]
  · simp [retryGoroutine, run_retryExecution _ hj, hbudget, find_of_get _ hj]

theorem run_retryGoroutine_of_none {clock : ℕ → Time} {jobID : String} {s : Store}
    (hj : s.executionJobs.get jobID = none) : ((retryGoroutine clock jobID).run s).2 = s := by
  simp [retryGoroutine, retryExecution, find_of_get_none _ hj]

end Lecrev

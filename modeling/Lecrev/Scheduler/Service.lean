import Mathlib.Data.List.Sort
import Lecrev.Store.Memory

/-!
# The scheduler

`internal/scheduler`: a claimed job is offered to the regions of its function version, best region
first, until a dispatcher accepts an attempt of it.

A regional dispatcher is any implementation of `RegionDispatcher`; `RegionDispatcher.frame` says
what it may do to the store when it is handed an assignment. The clock and `uuid.NewString` are
arguments: `clock i` is the reading after the `i`-th step of a call, `uuid i` the identifier of
the attempt for the `i`-th candidate.
-/

namespace Lecrev

/-! ## Regional dispatchers -/

/-- `s'` differs from `s` at most in the host, the start mode and the update time of the attempt
`id`, and in tables that hold neither jobs nor attempts. -/
structure HostFieldsOnly (id : String) (s s' : Store) : Prop where
  jobs : ∀ k, s'.executionJobs.get k = s.executionJobs.get k
  others : ∀ k, k ≠ id → s'.attempts.get k = s.attempts.get k
  own : ∀ a, s.attempts.get id = some a → ∃ host mode time,
    s'.attempts.get id = some { a with hostID := host, startMode := mode, updatedAt := time }
  accepted : s'.accepted = s.accepted

theorem HostFieldsOnly.refl (id : String) (s : Store) : HostFieldsOnly id s s where
  jobs _ := rfl
  others _ _ := rfl
  own a ha := ⟨a.hostID, a.startMode, a.updatedAt, ha⟩
  accepted := rfl

/-- A call that a dispatcher may make for the attempt `id`: it writes no job, and no attempt but
`id`, which it may overwrite as a whole. -/
structure HostCall (id : String) (l : StoreCall) (s s' : Store) : Prop where
  jobs : ∀ k, s'.executionJobs.get k = s.executionJobs.get k
  noJob : ∀ k, l.writesJob k = false
  attempts : ∀ k, l.writesAttempt k = false → s'.attempts.get k = s.attempts.get k
  own : ∀ k, l.writesAttempt k = true → k = id ∧ ∃ a, s'.attempts.get k = some a

/-- `scheduler.RegionDispatcher`: a region's name, its statistics, and `EnqueueExecution`. -/
structure RegionDispatcher where
  region : String
  stats : RegionStats
  /-- `EnqueueExecution`: `ok` is acceptance, an error is a refusal. -/
  enqueueExecution : Assignment → StoreM Unit
  /-- Handing an assignment over writes at most the host fields of its attempt. -/
  frame : ∀ a s, HostFieldsOnly a.attemptID s ((enqueueExecution a).run s).2
  /-- In an interleaving, too, it makes only calls about its attempt. -/
  calls : ∀ a, (enqueueExecution a).Keeps (fun _ => True) (HostCall a.attemptID)

/-- A dispatcher that publishes the assignment on an execution bus; `answer` is the bus's. -/
def RegionDispatcher.ofBus (region : String) (stats : RegionStats) (answer : Except Err Unit) :
    RegionDispatcher where
  region := region
  stats := stats
  enqueueExecution _ := .query .publish fun _ => answer
  frame a s := HostFieldsOnly.refl a.attemptID s
  calls _ := Prog.keeps_query fun _ _ => ⟨fun _ => rfl, fun _ => rfl, fun _ _ => rfl, nofun⟩

/-- The configuration of a `scheduler.Service`. -/
structure Scheduler where
  /-- `dispatchers`, by region. -/
  dispatchers : String → Option RegionDispatcher
  schedulingTimeout : Time := 10 * second
  healthyWithin : Time := 15 * second
  maxActiveExecutionJobsPerProject : ℤ := 200

/-! ## Ranking the regions -/

/-- A dispatcher, with what it is ranked by. -/
structure Candidate where
  region : String
  dispatcher : RegionDispatcher
  stats : RegionStats
  backlog : ℕ
  healthy : Bool
  artifactLocal : Bool
  lastHeartbeat : Time

/-- `regionHealthy`, for a region that is stored. -/
def regionHealthy (region : Region) (now maxHeartbeatAge : Time) : Bool :=
  if region.state ≠ "active" then false
  else if maxHeartbeatAge = 0 ∨ region.lastHeartbeatAt = 0 then true
  else decide ((now : ℤ) - region.lastHeartbeatAt ≤ maxHeartbeatAge)

/-- `artifactRegionIndex`, with a missing artifact read as an empty index as its caller does. -/
def artifactRegionIndex (digest : String) : StoreM (List String) :=
  if digest = "" then pure []
  else do
    match ← (getArtifact digest).result with
    | .ok artifact => pure (artifact.regions.map Prod.fst)
    | .error (.notFound _) => pure []
    | .error e => .throw e

/-- The comparison of `rankDispatchers`. -/
def Candidate.before (a b : Candidate) : Bool :=
  if a.healthy ≠ b.healthy then a.healthy
  else if a.artifactLocal ≠ b.artifactLocal then a.artifactLocal
  else if a.backlog ≠ b.backlog then a.backlog < b.backlog
  else if a.stats.functionWarm ≠ b.stats.functionWarm then
    a.stats.functionWarm > b.stats.functionWarm
  else if a.stats.blankWarm ≠ b.stats.blankWarm then a.stats.blankWarm > b.stats.blankWarm
  else if a.stats.availableHosts ≠ b.stats.availableHosts then
    a.stats.availableHosts > b.stats.availableHosts
  else if a.lastHeartbeat ≠ b.lastHeartbeat then a.lastHeartbeat > b.lastHeartbeat
  else a.region < b.region

/-- What `rankDispatchers` learns about one region that has a dispatcher. -/
def rankRegion (s : Scheduler) (now : Time) (artifactRegions : List String) (region : String)
    (dispatcher : RegionDispatcher) : StoreM Candidate := do
  let backlog ← countActiveExecutionJobsByRegion region
  let candidate : Candidate :=
    { region, dispatcher, backlog
      stats := dispatcher.stats
      healthy := true
      artifactLocal := artifactRegions.contains region
      lastHeartbeat := 0 }
  match ← (getRegion region).result with
  | .ok snapshot =>
    pure { candidate with
      stats :=
        { availableHosts := snapshot.stats.availableHosts
          blankWarm := snapshot.stats.blankWarm
          functionWarm := snapshot.stats.functionWarm }
      lastHeartbeat := snapshot.lastHeartbeatAt
      healthy := regionHealthy snapshot now s.healthyWithin }
  | .error (.notFound _) => pure candidate
  | .error e => .throw e

/-- The loop of `rankDispatchers` over the regions of the version. The clock is read for each
region: `now region` is the instant of its health check. -/
def rankRegions (s : Scheduler) (now : String → Time) (artifactRegions : List String) :
    List String → StoreM (List Candidate)
  | [] => pure []
  | region :: regions =>
    match s.dispatchers region with
    | none => rankRegions s now artifactRegions regions
    | some dispatcher => do
      let candidate ← rankRegion s (now region) artifactRegions region dispatcher
      let candidates ← rankRegions s now artifactRegions regions
      pure (candidate :: candidates)

/-- `rankDispatchers`. -/
def rankDispatchers (s : Scheduler) (now : String → Time) (version : FunctionVersion) :
    StoreM (List Candidate) := do
  let artifactRegions ← artifactRegionIndex version.artifactDigest
  let candidates ← rankRegions s now artifactRegions version.regions
  if candidates.isEmpty then
    .throw (.other ("no dispatcher available for [" ++ " ".intercalate version.regions ++ "]"))
  else
    pure (candidates.insertionSort fun a b => b.before a = false)

/-! ## Dispatching an attempt -/

/-- The lease of a fresh attempt, renewed by every report of its agent. -/
def leaseTTL : Time := 30 * second

/-- The attempt created for a candidate region. -/
def newAttempt (id region : String) (version : FunctionVersion) (job : ExecutionJob)
    (now : Time) : Attempt where
  id := id
  jobID := job.id
  functionVersionID := version.id
  region := region
  state := .assigned
  leaseExpiresAt := now + leaseTTL
  createdAt := now
  updatedAt := now

/-- The assignment offered to a candidate region. -/
def newAssignment (attempt : Attempt) (version : FunctionVersion) (artifactMeta : Artifact)
    (job : ExecutionJob) : Assignment where
  attemptID := attempt.id
  jobID := job.id
  functionVersionID := version.id
  artifactDigest := version.artifactDigest
  artifactBundleKey := artifactMeta.bundleKey
  entrypoint := version.entrypoint
  envVars := version.envVars
  envRefs := version.envRefs
  payload := job.payload
  networkPolicy := version.networkPolicy
  timeoutSec := version.timeoutSec
  memoryMB := version.memoryMB

/-- The job as `dispatchJobAttempt` returns it to the queue. -/
def ExecutionJob.requeued (job : ExecutionJob) (error : String) (now : Time) : ExecutionJob :=
  { job with state := .queued, targetRegion := "", error := error, updatedAt := now }

/-- The job while it is offered to a candidate region. -/
def ExecutionJob.offered (job : ExecutionJob) (attemptID region : String) (now : Time) :
    ExecutionJob :=
  { job with
    lastAttemptID := attemptID
    targetRegion := region
    state := .assigned
    error := ""
    updatedAt := now }

/-- The attempt after its dispatcher refused it. -/
def Attempt.refused (attempt : Attempt) (error : String) (now : Time) : Attempt :=
  { attempt with state := .failed, error := error, leaseExpiresAt := now, updatedAt := now }

/-- `EnqueueExecution`, with the acceptance recorded in the history. -/
def enqueueAssignment (dispatcher : RegionDispatcher) (assignment : Assignment) : StoreM Unit := do
  dispatcher.enqueueExecution assignment
  .modify .accept fun s => { s with accepted := assignment :: s.accepted }

/-- The loop of `dispatchJobAttempt` over the ranked candidates: `i` counts the candidates seen,
`dispatchErrors` collects the refusals for other reasons than capacity. -/
def offerCandidates (clock : ℕ → Time) (uuid : ℕ → String) (version : FunctionVersion)
    (artifactMeta : Artifact) (now : Time) :
    ℕ → List Candidate → List String → ExecutionJob → StoreM Unit
  | i, [], dispatchErrors, job => do
    let job := job.requeued ("; ".intercalate dispatchErrors) (clock i)
    let _ ← (updateExecutionJob job).result
    .throw (.other job.error)
  | i, candidate :: candidates, dispatchErrors, job => do
    let attempt := newAttempt (uuid i) candidate.region version job now
    let job := job.offered attempt.id candidate.region now
    putAttempt attempt
    updateExecutionJob job
    -- from here on the agent may report, while `job` is the copy written above
    let assignment := newAssignment attempt version artifactMeta job
    match ← (enqueueAssignment candidate.dispatcher assignment).result with
    | .ok () =>
      updateExecutionJob
        { job with attemptCount := job.attemptCount + 1, updatedAt := clock i }
    | .error e =>
      let _ ← (updateAttempt (attempt.refused e.text (clock i))).result
      if e.isCapacity then
        -- the other candidates are not tried
        let _ ← (updateExecutionJob (job.requeued "" (clock i))).result
        .throw e
      else
        offerCandidates clock uuid version artifactMeta now (i + 1) candidates
          (dispatchErrors ++ [candidate.region ++ ": " ++ e.text]) job

/-- `dispatchJobAttempt`. The first two readings of the clock are the start of the call and the
health checks of the ranking. -/
def dispatchJobAttempt (s : Scheduler) (clock : ℕ → Time) (uuid : ℕ → String)
    (version : FunctionVersion) (job : ExecutionJob) : StoreM Unit := do
  let now := clock 0
  match ← (getArtifact version.artifactDigest).result with
  | .error e =>
    let _ ← (updateExecutionJob (job.requeued e.text now)).result
    .throw e
  | .ok artifactMeta =>
    match ← (rankDispatchers s (fun _ => clock 1) version).result with
    | .error e =>
      let _ ← (updateExecutionJob (job.requeued e.text now)).result
      .throw e
    | .ok candidates =>
      offerCandidates (fun i => clock (i + 2)) uuid version artifactMeta now 0 candidates [] job

/-- The states of a job that can be claimed. -/
def claimable : List JobState := [.queued, .retrying]

/-- A job given up by `scheduleNext`. -/
def ExecutionJob.abandoned (job : ExecutionJob) (error : String) (now : Time) : ExecutionJob :=
  { job with state := .failed, error := error, updatedAt := now }

/-- `scheduleNext`: claim a job and dispatch an attempt of it. The result says whether the caller's
loop goes on. -/
def scheduleNext (s : Scheduler) (clock : ℕ → Time) (uuid : ℕ → String) : StoreM Bool := do
  match ← (claimNextExecutionJob claimable .scheduling (clock 0)).result with
  | .error (.notFound _) => pure false
  | .error e => .throw e
  | .ok job =>
    if job.attemptCount > job.maxRetries then
      updateExecutionJob
        (job.abandoned ("job " ++ job.id ++ " exceeded retry budget") (clock 1))
      pure true
    else
      match ← (getFunctionVersion job.functionVersionID).result with
      | .error e =>
        updateExecutionJob (job.abandoned e.text (clock 1))
        pure true
      | .ok version =>
        match ← (dispatchJobAttempt s (fun i => clock (i + 1)) uuid version job).result with
        | .error e => pure (!e.isCapacity)
        | .ok () => pure true

/-! ## Enqueueing, retrying, requeueing -/

/-- The job still has an attempt left (`job.AttemptCount <= job.MaxRetries`). -/
def ExecutionJob.hasBudget (job : ExecutionJob) : Bool :=
  decide (job.attemptCount ≤ job.maxRetries)

/-- The job states that count against a project's quota. -/
def activeJobStates : List JobState := [.queued, .scheduling, .assigned, .running, .retrying]

/-- `enforceExecutionQuota`. -/
def enforceExecutionQuota (s : Scheduler) (projectID : String) : StoreM Unit := do
  if s.maxActiveExecutionJobsPerProject ≤ 0 then pure ()
  else
    let count ← countExecutionJobsByProjectStates projectID activeJobStates
    if (count : ℤ) ≥ s.maxActiveExecutionJobsPerProject then
      .throw (.projectExecutionQuota (": project " ++ projectID ++ " already has " ++
        toString count ++ " active execution jobs (limit " ++
        toString s.maxActiveExecutionJobsPerProject ++ ")"))
    else pure ()

/-- The job that `enqueueExecution` creates. -/
def newExecutionJob (id : String) (version : FunctionVersion) (payload : Bytes) (now : Time) :
    ExecutionJob where
  id := id
  functionVersionID := version.id
  projectID := version.projectID
  state := .queued
  payload := payload
  maxRetries := version.maxRetries
  createdAt := now
  updatedAt := now

/-- `enqueueExecution`; `id` is the result of `uuid.NewString`. -/
def enqueueExecution (s : Scheduler) (now : Time) (id : String) (version : FunctionVersion)
    (payload : Bytes) : StoreM ExecutionJob := do
  enforceExecutionQuota s version.projectID
  let job := newExecutionJob id version payload now
  putExecutionJob job
  pure job

/-- The job as `RetryExecution` leaves it. -/
def ExecutionJob.retried (job : ExecutionJob) (now : Time) : ExecutionJob :=
  { job with state := .retrying, error := "", targetRegion := "", updatedAt := now }

/-- The refusal of `RetryExecution`. -/
def retryBudgetExceeded (job : ExecutionJob) : Err :=
  .other ("job " ++ job.id ++ " exceeded retry budget")

/-- `RetryExecution`. -/
def retryExecution (now : Time) (jobID : String) : StoreM ExecutionJob := do
  let job ← getExecutionJob jobID
  if job.attemptCount > job.maxRetries then
    .throw (retryBudgetExceeded job)
  else
    updateExecutionJob (job.retried now)
    pure (job.retried now)

theorem run_retryExecution (now : Time) {s : Store} {jobID : String} {j : ExecutionJob}
    (hj : s.executionJobs.get jobID = some j) :
    (retryExecution now jobID).run s =
      if j.hasBudget then (.ok (j.retried now), s.setJob (j.retried now))
      else (.error (retryBudgetExceeded j), s) := by
  simp only [retryExecution, Prog.run_bind, run_getExecutionJob, find_of_get _ hj,
    ExecutionJob.hasBudget, decide_eq_true_eq, gt_iff_lt, ← not_le]
  split_ifs <;> simp

/-- `recoverStaleScheduling`. -/
def recoverStaleScheduling (s : Scheduler) (now : Time) : StoreM ℕ :=
  if s.schedulingTimeout = 0 then pure 0
  else
    requeueStaleExecutionJobs .scheduling .queued ((now : ℤ) - s.schedulingTimeout) now
      "scheduling claim expired before dispatch"

end Lecrev

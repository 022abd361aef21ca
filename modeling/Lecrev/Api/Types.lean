import Mathlib.Algebra.Group.Nat.Defs
import Mathlib.Algebra.Ring.Int.Defs
import Lecrev.Build.Service

/-!
# Requests and responses of the HTTP API

The request bodies and the responses of `internal/httpapi`, and the functions that compute a
response from records without reaching the store: summaries, latencies, limits and the translation
of errors into status codes.

A body arrives as the outcome of decoding it; what `encoding/json` accepts is not modelled, and the
handlers treat every outcome.
-/

namespace Lecrev

namespace Api

/-- The body of `createProject`. -/
structure CreateProjectRequest where
  id : String := ""
  name : String

/-- `createFunctionRequest`; the source is the outcome of decoding it. -/
structure CreateFunctionRequest where
  name : String
  environment : String := ""
  runtime : String := ""
  entrypoint : String := ""
  memoryMB : ℤ := 0
  timeoutSec : ℤ := 0
  networkPolicy : NetworkPolicy := .unset
  regions : List String := []
  envVars : List (String × String) := []
  envRefs : List String := []
  maxRetries : ℤ := 0
  idempotencyKey : String := ""
  source : Except String DeploySource

/-- The body of `invokeFunction`. -/
structure InvokeRequest where
  payload : Bytes := []
  idempotencyKey : String := ""

/-- `createWebhookTriggerRequest`; the defaults are what an empty body decodes to. -/
structure CreateWebhookTriggerRequest where
  description : String := ""
  token : String := ""

/-- `createHTTPTriggerRequest`; the defaults are what an empty body decodes to. -/
structure CreateHTTPTriggerRequest where
  description : String := ""
  token : String := ""
  authMode : String := ""

/-- `drainHostRequest`; the default is what an empty body decodes to. -/
structure DrainHostRequest where
  reason : String := ""

/-! ## Response bodies -/

/-- `functionVersionSummary`. -/
structure FunctionVersionSummary where
  id : String
  name : String
  runtime : String
  state : FunctionState
  entrypoint : String
  memoryMB : ℤ
  timeoutSec : ℤ
  networkPolicy : NetworkPolicy
  regions : List String
  buildJobID : String
  artifactDigest : String
  createdAt : Time

/-- `buildJobSummary`. -/
structure BuildJobSummary where
  id : String
  functionVersionID : String
  targetRegion : String
  state : BuildState
  error : String
  logsReady : Bool
  createdAt : Time
  updatedAt : Time

/-- `executionResultSummary`. -/
structure ExecutionResultSummary where
  exitCode : ℤ
  hostID : String
  region : String
  startedAt : Time
  finishedAt : Time
  latencyMs : ℕ
  logsReady : Bool
  outputReady : Bool

/-- `executionJobSummary`. -/
structure ExecutionJobSummary where
  id : String
  functionVersionID : String
  targetRegion : String
  state : JobState
  maxRetries : ℤ
  attemptCount : ℤ
  lastAttemptID : String
  error : String
  result : Option ExecutionResultSummary
  createdAt : Time
  updatedAt : Time

/-- The status of a deployment, a string in the source. -/
inductive DeploymentStatus
  | failed | active | ready | building
  deriving DecidableEq, Repr

/-- The text of a status. -/
def DeploymentStatus.text : DeploymentStatus → String
  | .failed => "failed"
  | .active => "active"
  | .ready => "ready"
  | .building => "building"

/-- `deploymentSummary`. -/
structure DeploymentSummary where
  id : String
  projectID : String
  projectName : String
  functionVersionID : String
  name : String
  runtime : String
  sourceType : SourceType
  environment : String
  branch : String
  commitSHA : String
  gitURL : String
  status : DeploymentStatus
  functionState : FunctionState
  regions : List String
  build : Option BuildJobSummary
  lastJob : Option ExecutionJobSummary
  createdAt : Time
  updatedAt : Time

/-- `projectOverviewResponse`, with its totals; a map from states to counts is a function. -/
structure ProjectOverviewResponse where
  project : Project
  functions : ℕ
  buildsByState : BuildState → ℕ
  jobsByState : JobState → ℕ
  recentFunctions : List FunctionVersionSummary
  recentBuildJobs : List BuildJobSummary
  recentJobs : List ExecutionJobSummary

/-- `httpTriggerResponse`. -/
structure HTTPTriggerResponse where
  token : String
  projectID : String
  functionVersionID : String
  description : String
  authMode : HTTPTriggerAuthMode
  enabled : Bool
  url : String
  createdAt : Time

/-- `build.WebsiteManifest`. -/
structure WebsiteManifest where
  framework : String
  functionVersionID : String
  staticPrefix : String
  dynamicEntrypoint : String
  createdAt : Time

/-- `functionSiteResponse`. -/
structure FunctionSiteResponse where
  functionVersionID : String
  framework : String
  dynamicEntrypoint : String
  staticPrefix : String
  previewURL : String
  functionURL : String
  createdAt : Time

/-- `functionWarmRegionStatus`. -/
structure FunctionWarmRegionStatus where
  region : String
  state : String := "degraded"
  availableHosts : ℤ := 0
  availableFullNetworkSlots : ℤ := 0
  blankWarm : ℤ := 0
  functionWarm : ℤ := 0
  ready : Bool := false
  updatedAt : Time := 0

/-- `functionWarmStatusResponse`. -/
structure FunctionWarmStatusResponse where
  functionVersionID : String
  ready : Bool
  regions : List FunctionWarmRegionStatus

/-- What a response carries: the text of `http.Error`, the bytes of `writeRaw` with their content
type, or the value that `writeJSON` encodes. A latency stands next to the record it is added to. -/
inductive Body
  | text (message : String)
  | raw (contentType : String) (data : Bytes)
  | project (project : Project)
  | projects (projects : List Project)
  | overview (overview : ProjectOverviewResponse)
  | deployment (deployment : DeploymentSummary)
  | deployments (deployments : List DeploymentSummary)
  | version (version : FunctionVersion)
  | versions (versions : List FunctionVersionSummary)
  | buildJob (job : BuildJob)
  | buildJobs (jobs : List BuildJobSummary)
  | job (job : ExecutionJob) (latencyMs : ℕ)
  | jobs (jobs : List ExecutionJobSummary)
  | attempts (attempts : List (Attempt × ℕ))
  | costs (records : List CostRecord)
  | site (site : FunctionSiteResponse)
  | warmStatus (status : FunctionWarmStatusResponse)
  | prepared (functionVersionID : String)
  | httpTrigger (trigger : HTTPTriggerResponse)
  | httpTriggers (triggers : List HTTPTriggerResponse)
  | webhookTrigger (trigger : WebhookTrigger)
  | webhookTriggers (triggers : List WebhookTrigger)
  | regions (regions : List Region)
  | warmPools (pools : List WarmPool)
  | hosts (hosts : List Host)
  | draining (region hostID reason : String)

/-- The response of a handler. -/
structure Response where
  status : ℕ
  body : Body

/-- The status is a 2xx. -/
def Response.success (response : Response) : Bool := 200 ≤ response.status && response.status < 300

/-- The status of `writeServiceError`. -/
def errorStatus (e : Err) : ℕ :=
  match e.root with
  | .deadlineExceeded => 504
  | .artifactNotFound _ => 404
  | .accessDenied => 403
  | .projectBuildQuota _ | .projectExecutionQuota _ => 429
  | .noExecutionCapacity _ | .directInvokeUnavailable => 503
  | .notFound _ => 404
  | .functionVersionNotReady | .buildLogsNotReady | .executionResultNotReady => 409
  | .idempotencyConflict | .idempotencyInProgress | .alreadyExists _ => 409
  | _ => 400

/-- `http.Error`. -/
def httpError (message : String) (status : ℕ) : Response := ⟨status, .text (message ++ "\n")⟩

/-- `writeServiceError`. -/
def writeServiceError (e : Err) : Response := httpError e.text (errorStatus e)

theorem writeServiceError_not_success (e : Err) : (writeServiceError e).success = false := by
  change (decide (200 ≤ errorStatus e) && decide (errorStatus e < 300)) = false
  unfold errorStatus
  split <;> rfl

/-! ## Latencies and limits -/

/-- The largest `time.Duration`, in nanoseconds. -/
def maxDuration : ℕ := 2 ^ 63 - 1

/-- `computeLatencyMs`: what has taken any time takes a millisecond at least. -/
def computeLatencyMs (startedAt finishedAt : Time) : ℕ :=
  if startedAt = 0 ∨ finishedAt = 0 ∨ finishedAt < startedAt then 0
  else
    let latencyMs := min (finishedAt - startedAt) maxDuration / 1000000
    if latencyMs = 0 ∧ startedAt < finishedAt then 1 else latencyMs

/-- `jobLatencyMs`; `withJobLatency` puts the same number into the result of the job. -/
def jobLatencyMs (job : ExecutionJob) : ℕ :=
  match job.result with
  | some result => computeLatencyMs result.startedAt result.finishedAt
  | none => 0

/-- `withAttemptLatency`. -/
def withAttemptLatency (attempts : List Attempt) : List (Attempt × ℕ) :=
  attempts.map fun attempt =>
    (attempt,
      if attempt.state.terminal then computeLatencyMs attempt.startedAt attempt.updatedAt else 0)

/-- The value of a non-empty string of decimal digits. -/
def parseDigits (digits : List Char) : Option ℕ :=
  if digits ≠ [] ∧ digits.all Char.isDigit then
    some (digits.foldl (fun n c => 10 * n + (c.toNat - '0'.toNat)) 0)
  else none

/-- `strconv.Atoi`: decimal digits with an optional sign, in the range of a 64-bit `int`. -/
def atoi (text : String) : Option ℤ :=
  let value : Option ℤ :=
    match text.toList with
    | '-' :: digits => (parseDigits digits).map fun n => -(n : ℤ)
    | '+' :: digits => (parseDigits digits).map fun n => (n : ℤ)
    | digits => (parseDigits digits).map fun n => (n : ℤ)
  value.filter fun n => -(2 ^ 63) ≤ n ∧ n < 2 ^ 63

/-- The limit of a list when the request has none. -/
def defaultProjectListLimit : ℕ := 50

/-- The limit of the lists of an overview. -/
def defaultOverviewItemLimit : ℕ := 8

/-- The largest limit of a list. -/
def maxListLimit : ℕ := 200

/-- `queryLimit`, of the raw query parameter. -/
def queryLimit (raw : String) (fallback : ℕ) : Except String ℕ :=
  let raw := trimSpace raw
  if raw = "" then .ok fallback
  else
    match atoi raw with
    | none => .error ("invalid limit " ++ raw.quote)
    | some limit =>
      if limit < 1 ∨ (maxListLimit : ℤ) < limit then
        .error ("limit must be between 1 and " ++ toString maxListLimit)
      else .ok limit.toNat

/-! ## Summaries -/

/-- One iteration of `summarizeFunctionVersions`. -/
def summarizeFunctionVersion (item : FunctionVersion) : FunctionVersionSummary where
  id := item.id
  name := item.name
  runtime := item.runtime
  state := item.state
  entrypoint := item.entrypoint
  memoryMB := item.memoryMB
  timeoutSec := item.timeoutSec
  networkPolicy := item.networkPolicy
  regions := item.regions
  buildJobID := item.buildJobID
  artifactDigest := item.artifactDigest
  createdAt := item.createdAt

/-- One iteration of `summarizeBuildJobs`. -/
def summarizeBuildJob (item : BuildJob) : BuildJobSummary where
  id := item.id
  functionVersionID := item.functionVersionID
  targetRegion := item.targetRegion
  state := item.state
  error := item.error
  logsReady := trimSpace item.logsKey ≠ ""
  createdAt := item.createdAt
  updatedAt := item.updatedAt

/-- The summary of a result. -/
def summarizeResult (result : JobResult) : ExecutionResultSummary where
  exitCode := result.exitCode
  hostID := result.hostID
  region := result.region
  startedAt := result.startedAt
  finishedAt := result.finishedAt
  latencyMs := computeLatencyMs result.startedAt result.finishedAt
  logsReady := trimSpace result.logsKey ≠ ""
  outputReady := trimSpace result.outputKey ≠ ""

/-- One iteration of `summarizeExecutionJobs`. -/
def summarizeExecutionJob (item : ExecutionJob) : ExecutionJobSummary where
  id := item.id
  functionVersionID := item.functionVersionID
  targetRegion := item.targetRegion
  state := item.state
  maxRetries := item.maxRetries
  attemptCount := item.attemptCount
  lastAttemptID := item.lastAttemptID
  error := item.error
  result := item.result.map summarizeResult
  createdAt := item.createdAt
  updatedAt := item.updatedAt

/-- `deploymentStatus`. -/
def deploymentStatus (version : FunctionVersion) (build : Option BuildJobSummary)
    (job : Option ExecutionJobSummary) : DeploymentStatus :=
  if version.state = .failed then .failed
  else if build.any fun b => b.state = .failed ∨ trimSpace b.error ≠ "" then .failed
  else if job.any fun j => j.state = .failed ∨ trimSpace j.error ≠ "" then .failed
  else if job.any fun j => j.state = .succeeded then .active
  else if version.state = .ready then .ready
  else .building

/-- The first of two texts that is not empty. -/
def orElse (text fallback : String) : String := if text = "" then fallback else text

/-- One iteration of `summarizeDeployments`, over the versions of a project. The maps of the source
keep the first build job and the first job of a version. A stored request always decodes. -/
def summarizeDeployment (project : Project) (buildJobs : List BuildJob) (jobs : List ExecutionJob)
    (version : FunctionVersion) : DeploymentSummary :=
  let buildJob := buildJobs.find? fun job => job.functionVersionID == version.id
  let job := jobs.find? fun job => job.functionVersionID == version.id
  let build := buildJob.map summarizeBuildJob
  let lastJob := job.map summarizeExecutionJob
  let metadata (key : String) : String :=
    match buildJob with
    | some buildJob => trimSpace (lookupText buildJob.metadata key)
    | none => ""
  let requested (field : DeploySource → String) : String :=
    match buildJob with
    | some buildJob => field buildJob.request.source
    | none => ""
  { id := version.id
    projectID := project.id
    projectName := project.name
    functionVersionID := version.id
    name := version.name
    runtime := version.runtime
    sourceType := version.sourceType
    environment := orElse (metadata "environment") (requested deploymentEnvironment)
    branch := orElse (metadata "branch") (requested fun source => trimSpace source.gitRef)
    commitSHA := metadata "commitSha"
    gitURL := orElse (metadata "gitUrl") (requested fun source => trimSpace source.gitURL)
    status := deploymentStatus version build lastJob
    functionState := version.state
    regions := version.regions
    build
    lastJob
    createdAt := version.createdAt
    updatedAt :=
      max (max version.createdAt ((buildJob.map (·.updatedAt)).getD 0))
        ((job.map (·.updatedAt)).getD 0) }

/-- `summarizeDeployments`: one deployment for each version. -/
def summarizeDeployments (project : Project) (versions : List FunctionVersion)
    (buildJobs : List BuildJob) (jobs : List ExecutionJob) : List DeploymentSummary :=
  versions.map (summarizeDeployment project buildJobs jobs)

/-- `filterDeploymentSummaries`; `toLower` is `strings.ToLower`. -/
def filterDeploymentSummaries (toLower : String → String) (items : List DeploymentSummary)
    (statusFilter environmentFilter : String) : List DeploymentSummary :=
  items.filter fun item =>
    (statusFilter = "" ∨ toLower item.status.text = statusFilter) ∧
      (environmentFilter = "" ∨ toLower (trimSpace item.environment) = environmentFilter)

/-- `sortDeployments`: the newest first. -/
def sortDeployments (items : List DeploymentSummary) : List DeploymentSummary :=
  newestFirst DeploymentSummary.createdAt DeploymentSummary.id items

/-- `latestExecutionJobForVersion`: the first one in the list. -/
def latestExecutionJobForVersion (versionID : String) (jobs : List ExecutionJob) :
    Option ExecutionJob :=
  jobs.find? fun job => job.functionVersionID == versionID

/-- `httpTriggerToResponse`. -/
def httpTriggerToResponse (trigger : HTTPTrigger) (url : String) : HTTPTriggerResponse where
  token := trigger.token
  projectID := trigger.projectID
  functionVersionID := trigger.functionVersionID
  description := trigger.description
  authMode := trigger.authMode
  enabled := trigger.enabled
  url := url
  createdAt := trigger.createdAt

/-- The loop of `normalizeProjectID`: letters and digits are kept, everything else becomes a dash,
but neither the first character nor two in a row. `written` is what was written so far, backwards.
-/
def writeProjectID (written : List Char) : List Char → List Char
  | [] => written
  | c :: cs =>
    if ('a' ≤ c ∧ c ≤ 'z') ∨ ('0' ≤ c ∧ c ≤ '9') then writeProjectID (c :: written) cs
    else if written = [] ∨ written.head? = some '-' then writeProjectID written cs
    else writeProjectID ('-' :: written) cs

/-- `normalizeProjectID`; `toLower` is `strings.ToLower`. -/
def normalizeProjectID (toLower : String → String) (rawID name : String) : String :=
  let source := if trimSpace rawID = "" then name else trimSpace rawID
  let written := writeProjectID [] (toLower source).toList
  .ofList ((written.dropWhile (· == '-')).reverse.dropWhile (· == '-'))

/-- `idempotencyKey`: the header goes before the body. -/
def idempotencyKey (headerValue bodyValue : String) : String :=
  if trimSpace headerValue ≠ "" then trimSpace headerValue else trimSpace bodyValue

/-- `normalizeHTTPTriggerAuthMode`; `toLower` is `strings.ToLower`. -/
def normalizeHTTPTriggerAuthMode (toLower : String → String) (raw : String) :
    Except String HTTPTriggerAuthMode :=
  let mode := toLower (trimSpace raw)
  if mode = "" ∨ mode = "none" then .ok .none
  else if mode = "api_key" then .ok .apiKey
  else .error ("unsupported http trigger authMode " ++ raw.quote)

/-- `strings.TrimRight(s, "/")`. -/
def trimSlashes (s : String) : String := .ofList (s.toList.reverse.dropWhile (· == '/')).reverse

end Api

end Lecrev

import Lecrev.Api.Types
import Lecrev.Idempotency.Service
import Lecrev.Store.Listing

/-!
# The handlers of the HTTP API

The handlers of the authenticated `/v1` group of `internal/httpapi`, as programs of store calls. A
handler that the source leaves through `writeServiceError(w, err); return` throws the error here,
and `answered` writes the response; a handler that it leaves through `http.Error` returns that
response.

Everything a handler draws from outside (clock readings, generated identifiers and tokens) comes
with the request.
-/

namespace Lecrev

namespace Api

/-- A `httpapi.Server`, and what it calls outside the repository. -/
structure Server where
  builder : Builder
  scheduler : Scheduler
  invokeHash : InvokeHash
  /-- `PrepareFunctionWarm` of the dispatchers that offer it, by region. -/
  warmers : String → Option (FunctionVersion → StoreM Unit) := fun _ => none
  /-- `DrainHost` of the coordinator of a region, if there is one. -/
  admins : String → Option (String → String → StoreM Unit) := fun _ => none
  /-- `apikey.Hash`. -/
  keyHash : String → String
  toLower : String → String
  /-- `json.Unmarshal` of a site manifest. -/
  decodeManifest : Bytes → Except Err WebsiteManifest
  /-- `LECREV_PUBLIC_BASE_URL`. -/
  publicBaseURL : String := ""
  /-- `LECREV_PUBLIC_WEBSITE_BASE_URL`. -/
  publicWebsiteBaseURL : String := ""

/-- The routes of the `/v1` group, with the parameters of their paths and their bodies. -/
inductive Route
  | createProject (body : Except String CreateProjectRequest)
  | listDeployments
  | getDeployment (deploymentID : String)
  | getDeploymentLogs (deploymentID : String)
  | getDeploymentOutput (deploymentID : String)
  | listProjects
  | getProject (projectID : String)
  | getProjectOverview (projectID : String)
  | listProjectDeployments (projectID : String)
  | listProjectFunctions (projectID : String)
  | listProjectBuildJobs (projectID : String)
  | listProjectJobs (projectID : String)
  | createFunction (projectID : String) (body : Except String CreateFunctionRequest)
  | getBuildJob (jobID : String)
  | getBuildJobLogs (jobID : String)
  | invokeFunction (versionID : String) (body : Except String InvokeRequest)
  | getJob (jobID : String)
  | getJobLogs (jobID : String)
  | getJobOutput (jobID : String)
  | getFunction (versionID : String)
  | getFunctionSite (versionID : String)
  | getFunctionWarmStatus (versionID : String)
  | prepareFunction (versionID : String)
  | createHTTPTrigger (versionID : String) (body : Except String CreateHTTPTriggerRequest)
  | listHTTPTriggers (versionID : String)
  | createWebhookTrigger (versionID : String) (body : Except String CreateWebhookTriggerRequest)
  | listWebhookTriggers (versionID : String)
  | listRegions
  | listWarmPools (region : String)
  | listRegionHosts (region : String)
  | listJobAttempts (jobID : String)
  | listJobCosts (jobID : String)
  | drainHost (region hostID : String) (body : Except String DrainHostRequest)

/-- A request: its headers, its query parameters, its route, and what its handler draws from
outside. -/
structure Request where
  /-- The header `X-API-Key`. -/
  apiKey : String := ""
  /-- The header `Authorization`. -/
  authorization : String := ""
  /-- The header `Idempotency-Key`. -/
  idempotencyKey : String := ""
  limit : String := ""
  status : String := ""
  environment : String := ""
  /-- `publicBaseURL`: scheme and host. -/
  baseURL : String := ""
  route : Route
  clock : ℕ → Time
  /-- `uuid.NewString`. -/
  uuid : String
  run : BuildRun
  /-- `generateTriggerToken`. -/
  token : Except String String

/-- `authContext`: who has authenticated. -/
structure AuthContext where
  tenantID : String
  isAdmin : Bool

/-- The errors of `authenticateAPIKey`. -/
inductive AuthErr
  | missing
  | invalid
  | other (e : Err)

/-- The key of the header `X-API-Key`, or the bearer token. -/
def apiKeyFromRequest (req : Request) : String :=
  if trimSpace req.apiKey ≠ "" then trimSpace req.apiKey
  else
    let authz := (trimSpace req.authorization).toList
    if equalFold (.ofList (authz.take 7)) "bearer " then trimSpace (.ofList (authz.drop 7)) else ""

/-- `authenticateAPIKey`: the tenant of a stored key that is not disabled. -/
def authenticateAPIKey (srv : Server) (rawKey : String) (now : Time) :
    StoreM (Except AuthErr AuthContext) := do
  if trimSpace rawKey = "" then pure (.error .missing)
  else
    let keyHash := srv.keyHash (trimSpace rawKey)
    match ← (getAPIKeyByHash keyHash).result with
    | .error e =>
      match e.root with
      | .notFound _ => pure (.error .invalid)
      | _ => pure (.error (.other e))
    | .ok record =>
      if record.disabled ∨ record.keyHash ≠ keyHash then pure (.error .invalid)
      else
        let _ ← (touchAPIKeyLastUsed keyHash now).result
        pure (.ok { tenantID := record.tenantID, isAdmin := record.isAdmin })

/-! ## Authorization -/

/-- `authorizedProject`: the project, for its tenant and for administrators. -/
def authorizedProject (auth : AuthContext) (projectID : String) : StoreM Project := do
  let project ← Lecrev.getProject projectID
  if auth.isAdmin = false ∧ project.tenantID ≠ auth.tenantID then .throw .accessDenied
  else pure project

/-- `authorizeProject`. -/
def authorizeProject (auth : AuthContext) (projectID : String) : StoreM Unit := do
  let _ ← authorizedProject auth projectID

/-- `ensureAuthorizedProject`: a project that is not stored is created for the tenant. -/
def ensureAuthorizedProject (auth : AuthContext) (projectID defaultName : String) (now : Time) :
    StoreM Project := do
  match ← (Lecrev.getProject projectID).result with
  | .ok project =>
    if auth.isAdmin = false ∧ project.tenantID ≠ auth.tenantID then .throw .accessDenied
    else pure project
  | .error e =>
    match e.root with
    | .notFound _ => ensureProject projectID auth.tenantID defaultName now
    | _ => .throw e

/-- `authorizedJob`: the job, if its project is authorized. -/
def authorizedJob (auth : AuthContext) (jobID : String) : StoreM ExecutionJob := do
  let job ← getExecutionJob jobID
  authorizeProject auth job.projectID
  pure job

/-- `authorizedBuildJob`: the build and its version, if the project is authorized. -/
def authorizedBuildJob (auth : AuthContext) (jobID : String) :
    StoreM (BuildJob × FunctionVersion) := do
  let job ← Lecrev.getBuildJob jobID
  let version ← getFunctionVersion job.functionVersionID
  authorizeProject auth version.projectID
  pure (job, version)

/-- The version that most handlers of a version start with. -/
def authorizedVersion (auth : AuthContext) (versionID : String) : StoreM FunctionVersion := do
  let version ← getFunctionVersion versionID
  authorizeProject auth version.projectID
  pure version

/-- `requireAdmin`. -/
def requireAdmin (auth : AuthContext) : StoreM Unit :=
  if auth.isAdmin then pure () else .throw .accessDenied

/-- The build job that `loadAuthorizedDeployment` finds; that it is missing is no error. -/
def deploymentBuildJob (version : FunctionVersion) : StoreM (Option BuildJob) := do
  if trimSpace version.buildJobID = "" then pure none
  else
    match ← (Lecrev.getBuildJob version.buildJobID).result with
    | .ok job => pure (some job)
    | .error e =>
      match e.root with
      | .notFound _ => pure none
      | _ => .throw e

/-- `loadAuthorizedDeployment`; the summary of one version is never missing. -/
def loadAuthorizedDeployment (auth : AuthContext) (deploymentID : String) :
    StoreM (DeploymentSummary × Option BuildJob × Option ExecutionJob) := do
  let version ← getFunctionVersion deploymentID
  let project ← authorizedProject auth version.projectID
  let buildJob ← deploymentBuildJob version
  let jobs ← listExecutionJobsByProject version.projectID
  let latestJob := latestExecutionJobForVersion version.id jobs
  pure (summarizeDeployment project buildJob.toList latestJob.toList version, buildJob, latestJob)

/-! ## Projects -/

/-- `POST /projects`. -/
def createProject (srv : Server) (auth : AuthContext) (req : Request)
    (body : Except String CreateProjectRequest) : StoreM Response := do
  match body with
  | .error e => return httpError ("decode request: " ++ e) 400
  | .ok body =>
    let name := trimSpace body.name
    if name = "" then return httpError "name is required" 400
    let projectID := normalizeProjectID srv.toLower (trimSpace body.id) name
    if projectID = "" then return httpError "project id is required" 400
    let project ← ensureProject projectID auth.tenantID name (req.clock 1)
    return ⟨201, .project project⟩

/-- The limit of a list, or the response that refuses it. -/
def withLimit (req : Request) (fallback : ℕ) (next : ℕ → StoreM Response) : StoreM Response :=
  match queryLimit req.limit fallback with
  | .error e => pure (httpError e 400)
  | .ok limit => next limit

/-- `GET /projects`. -/
def listProjects (auth : AuthContext) (req : Request) : StoreM Response :=
  withLimit req defaultProjectListLimit fun limit => do
    let projects ← listProjectsByTenant auth.tenantID
    return ⟨200, .projects (projects.take limit)⟩

/-- The loop of `listDeploymentsForProjects`. -/
def collectDeployments : List Project → StoreM (List DeploymentSummary)
  | [] => pure []
  | project :: projects => do
    let versions ← listFunctionVersionsByProject project.id
    let buildJobs ← listBuildJobsByProject project.id
    let jobs ← listExecutionJobsByProject project.id
    let deployments ← collectDeployments projects
    return summarizeDeployments project versions buildJobs jobs ++ deployments

/-- The deployments of projects, filtered, sorted and cut to the limit. -/
def listDeploymentsForProjects (srv : Server) (req : Request) (projects : List Project) :
    StoreM Response :=
  withLimit req defaultProjectListLimit fun limit => do
    let deployments ← collectDeployments projects
    let filtered := filterDeploymentSummaries srv.toLower deployments
      (srv.toLower (trimSpace req.status)) (srv.toLower (trimSpace req.environment))
    return ⟨200, .deployments ((sortDeployments filtered).take limit)⟩

/-- `GET /deployments`. -/
def listDeployments (srv : Server) (auth : AuthContext) (req : Request) : StoreM Response := do
  let projects ← listProjectsByTenant auth.tenantID
  listDeploymentsForProjects srv req projects

/-- `GET /projects/{projectID}/deployments`. -/
def listProjectDeployments (srv : Server) (auth : AuthContext) (req : Request)
    (projectID : String) : StoreM Response := do
  let project ← authorizedProject auth projectID
  listDeploymentsForProjects srv req [project]

/-- `GET /projects/{projectID}`. -/
def getProject (auth : AuthContext) (projectID : String) : StoreM Response := do
  let project ← authorizedProject auth projectID
  return ⟨200, .project project⟩

/-- `GET /projects/{projectID}/overview`. -/
def getProjectOverview (auth : AuthContext) (req : Request) (projectID : String) :
    StoreM Response := do
  let project ← authorizedProject auth projectID
  withLimit req defaultOverviewItemLimit fun limit => do
    let versions ← listFunctionVersionsByProject project.id
    let buildJobs ← listBuildJobsByProject project.id
    let jobs ← listExecutionJobsByProject project.id
    return ⟨200, .overview
      { project
        functions := versions.length
        buildsByState := fun state => buildJobs.countP fun job => job.state == state
        jobsByState := fun state => jobs.countP fun job => job.state == state
        recentFunctions := (versions.take limit).map summarizeFunctionVersion
        recentBuildJobs := (buildJobs.take limit).map summarizeBuildJob
        recentJobs := (jobs.take limit).map summarizeExecutionJob }⟩

/-- `listProjectFunctions`, `listProjectBuildJobs` and `listProjectJobs`: the same handler for
different records. -/
def listProjectRecords {α : Type} (auth : AuthContext) (req : Request) (projectID : String)
    (list : String → StoreM (List α)) (body : List α → Body) : StoreM Response := do
  let project ← authorizedProject auth projectID
  withLimit req defaultProjectListLimit fun limit => do
    let records ← list project.id
    return ⟨200, body (records.take limit)⟩

/-- `GET /projects/{projectID}/functions`. -/
def listProjectFunctions (auth : AuthContext) (req : Request) (projectID : String) :
    StoreM Response :=
  listProjectRecords auth req projectID listFunctionVersionsByProject fun versions =>
    .versions (versions.map summarizeFunctionVersion)

/-- `GET /projects/{projectID}/build-jobs`. -/
def listProjectBuildJobs (auth : AuthContext) (req : Request) (projectID : String) :
    StoreM Response :=
  listProjectRecords auth req projectID listBuildJobsByProject fun jobs =>
    .buildJobs (jobs.map summarizeBuildJob)

/-- `GET /projects/{projectID}/jobs`. -/
def listProjectJobs (auth : AuthContext) (req : Request) (projectID : String) : StoreM Response :=
  listProjectRecords auth req projectID listExecutionJobsByProject fun jobs =>
    .jobs (jobs.map summarizeExecutionJob)

/-- The request that the handler passes to the build service. -/
def CreateFunctionRequest.deployRequest (body : CreateFunctionRequest) (toLower : String → String)
    (projectID : String) (source : DeploySource) : DeployRequest :=
  let environment := toLower (trimSpace body.environment)
  { projectID
    name := body.name
    runtime := body.runtime
    entrypoint := body.entrypoint
    memoryMB := body.memoryMB
    timeoutSec := body.timeoutSec
    networkPolicy := body.networkPolicy
    regions := body.regions
    envVars := body.envVars
    envRefs := body.envRefs
    maxRetries := body.maxRetries
    idempotencyKey := body.idempotencyKey
    source := { source with metadata := setUnlessEmpty source.metadata "environment" environment } }

/-- `POST /projects/{projectID}/functions`. -/
def createFunction (srv : Server) (auth : AuthContext) (req : Request) (projectID : String)
    (body : Except String CreateFunctionRequest) : StoreM Response := do
  if projectID = "" then return httpError "missing projectID" 400
  let _ ← ensureAuthorizedProject auth projectID projectID (req.clock 1)
  match body with
  | .error e => return httpError ("decode request: " ++ e) 400
  | .ok body =>
    match body.source with
    | .error e => return httpError ("decode source: " ++ e) 400
    | .ok source =>
      let version ← srv.builder.createFunctionVersion req.run
        (body.deployRequest srv.toLower projectID source)
      return ⟨201, .version version⟩

/-! ## Deployments, jobs and build jobs -/

/-- The content type of logs. -/
def plainText : String := "text/plain; charset=utf-8"

/-- The content type of outputs. -/
def applicationJSON : String := "application/json"

/-- The object of a result; that it is missing is no error. -/
def archivedObject (key : String) : StoreM (Option Bytes) := do
  if trimSpace key = "" then pure none
  else
    match ← (getObject (trimSpace key)).result with
    | .ok data => pure (some data)
    | .error e =>
      match e.root with
      | .artifactNotFound _ => pure none
      | _ => .throw e

/-- The archived logs of a job, or those of its result. -/
def executionLogsData (job : ExecutionJob) : StoreM Bytes := do
  match job.result with
  | none => .throw .executionResultNotReady
  | some result => return (← archivedObject result.logsKey).getD result.logs

/-- The archived output of a job, or that of its result. -/
def executionOutputData (job : ExecutionJob) : StoreM Bytes := do
  match job.result with
  | none => .throw .executionResultNotReady
  | some result =>
    return (← archivedObject result.outputKey).getD
      (if result.output = [] then textBytes "null" else result.output)

/-- `GET /deployments/{deploymentID}`. -/
def getDeployment (auth : AuthContext) (deploymentID : String) : StoreM Response := do
  let (deployment, _, _) ← loadAuthorizedDeployment auth deploymentID
  return ⟨200, .deployment deployment⟩

/-- `getDeploymentLogs`: the logs of the latest job that has a result, else those of the build. -/
def getDeploymentLogs (auth : AuthContext) (deploymentID : String) : StoreM Response := do
  let (_, buildJob, latestJob) ← loadAuthorizedDeployment auth deploymentID
  match latestJob.filter fun job => job.result.isSome with
  | some job => return ⟨200, .raw plainText (← executionLogsData job)⟩
  | none =>
    match buildJob.filter fun job => trimSpace job.logsKey ≠ "" with
    | some job => return ⟨200, .raw plainText (← getObject job.logsKey)⟩
    | none =>
      if latestJob.isSome then .throw .executionResultNotReady else .throw .buildLogsNotReady

/-- `GET /deployments/{deploymentID}/output`. -/
def getDeploymentOutput (auth : AuthContext) (deploymentID : String) : StoreM Response := do
  let (_, _, latestJob) ← loadAuthorizedDeployment auth deploymentID
  match latestJob with
  | none => .throw .executionResultNotReady
  | some job => return ⟨200, .raw applicationJSON (← executionOutputData job)⟩

/-- `GET /build-jobs/{jobID}`. -/
def getBuildJob (auth : AuthContext) (jobID : String) : StoreM Response := do
  let (job, _) ← authorizedBuildJob auth jobID
  return ⟨200, .buildJob job⟩

/-- `GET /build-jobs/{jobID}/logs`. -/
def getBuildJobLogs (auth : AuthContext) (jobID : String) : StoreM Response := do
  let (job, _) ← authorizedBuildJob auth jobID
  if trimSpace job.logsKey = "" then .throw .buildLogsNotReady
  else return ⟨200, .raw plainText (← getObject job.logsKey)⟩

/-- `GET /jobs/{jobID}`. -/
def getJob (auth : AuthContext) (jobID : String) : StoreM Response := do
  let job ← authorizedJob auth jobID
  return ⟨200, .job job (jobLatencyMs job)⟩

/-- `GET /jobs/{jobID}/attempts`. -/
def listJobAttempts (auth : AuthContext) (jobID : String) : StoreM Response := do
  let _ ← authorizedJob auth jobID
  let attempts ← listAttemptsByJob jobID
  return ⟨200, .attempts (withAttemptLatency attempts)⟩

/-- `GET /jobs/{jobID}/costs`. -/
def listJobCosts (auth : AuthContext) (jobID : String) : StoreM Response := do
  let _ ← authorizedJob auth jobID
  let records ← listCostRecordsByJob jobID
  return ⟨200, .costs records⟩

/-- `GET /jobs/{jobID}/logs`. -/
def getJobLogs (auth : AuthContext) (jobID : String) : StoreM Response := do
  let job ← authorizedJob auth jobID
  return ⟨200, .raw plainText (← executionLogsData job)⟩

/-- `GET /jobs/{jobID}/output`. -/
def getJobOutput (auth : AuthContext) (jobID : String) : StoreM Response := do
  let job ← authorizedJob auth jobID
  return ⟨200, .raw applicationJSON (← executionOutputData job)⟩

/-! ## Function versions -/

/-- `invokeFunction`: whether the version is ready is looked at before whose it is. -/
def invokeFunction (srv : Server) (auth : AuthContext) (req : Request) (versionID : String)
    (body : Except String InvokeRequest) : StoreM Response := do
  if versionID = "" then return httpError "missing versionID" 400
  let version ← getFunctionVersion versionID
  if version.state ≠ .ready then .throw .functionVersionNotReady
  authorizeProject auth version.projectID
  match body with
  | .error e => return httpError ("decode request: " ++ e) 400
  | .ok body =>
    let job ← dispatchExecutionIdempotent srv.scheduler srv.invokeHash req.clock req.uuid versionID
      body.payload (idempotencyKey req.idempotencyKey body.idempotencyKey)
    return ⟨202, .job job (jobLatencyMs job)⟩

/-- The loop of `PrepareFunctionVersion`: the number of regions that were prepared, and the errors
of the others. -/
def prepareRegions (srv : Server) (version : FunctionVersion) :
    List String → StoreM (ℕ × List String)
  | [] => pure (0, [])
  | region :: regions => do
    match srv.scheduler.dispatchers region, srv.warmers region with
    | none, _ =>
      let (successes, errs) ← prepareRegions srv version regions
      return (successes, (region ++ ": missing dispatcher") :: errs)
    | some _, none => prepareRegions srv version regions
    | some _, some prepareFunctionWarm =>
      match ← (prepareFunctionWarm version).result with
      | .ok () =>
        let (successes, errs) ← prepareRegions srv version regions
        return (successes + 1, errs)
      | .error e =>
        let (successes, errs) ← prepareRegions srv version regions
        return (successes, (region ++ ": " ++ e.text) :: errs)

/-- `PrepareFunctionVersion` of the scheduler: one prepared region is enough. -/
def prepareFunctionVersion (srv : Server) (version : FunctionVersion) : StoreM Unit := do
  let (successes, errs) ← prepareRegions srv version version.regions
  if successes > 0 ∨ errs = [] then pure ()
  else
    .throw (.other ("prepare function version " ++ version.id ++ ": " ++ "; ".intercalate errs))

/-- `POST /functions/{versionID}/prepare`, for administrators. -/
def prepareFunction (srv : Server) (auth : AuthContext) (versionID : String) :
    StoreM Response := do
  requireAdmin auth
  if versionID = "" then return httpError "missing versionID" 400
  let version ← getFunctionVersion versionID
  if version.state ≠ .ready then .throw .functionVersionNotReady
  prepareFunctionVersion srv version
  return ⟨202, .prepared version.id⟩

/-- `GET /functions/{versionID}`. -/
def getFunction (auth : AuthContext) (versionID : String) : StoreM Response := do
  let version ← authorizedVersion auth versionID
  return ⟨200, .version version⟩

/-- The URL of a trigger. -/
def publicFunctionURL (srv : Server) (req : Request) (token : String) : String :=
  trimSlashes (orElse (trimSpace srv.publicBaseURL) req.baseURL) ++ "/f/" ++ token

/-- The URL of the website of a version. -/
def publicWebsiteURL (srv : Server) (req : Request) (versionID : String) : String :=
  trimSlashes (orElse (trimSpace srv.publicWebsiteBaseURL) req.baseURL) ++ "/w/" ++ versionID

/-- The stored manifest of the website of a version. -/
def websiteManifest (srv : Server) (version : FunctionVersion) : StoreM WebsiteManifest := do
  let data ← getObject (siteManifestKey version.artifactDigest)
  match srv.decodeManifest data with
  | .ok manifest => pure manifest
  | .error e => .throw (.wrapped "decode site manifest: " e "")

/-- `getFunctionSite`; an error of the trigger list only leaves the URL out. -/
def getFunctionSite (srv : Server) (auth : AuthContext) (req : Request) (versionID : String) :
    StoreM Response := do
  let version ← authorizedVersion auth versionID
  let manifest ← websiteManifest srv version
  let triggers ← (listHTTPTriggersByFunctionVersion version.id).result
  let functionURL :=
    match triggers with
    | .ok triggers =>
      ((triggers.find? (·.enabled)).map fun trigger =>
        publicFunctionURL srv req trigger.token).getD ""
    | .error _ => ""
  return ⟨200, .site
    { functionVersionID := version.id
      framework := manifest.framework
      dynamicEntrypoint := manifest.dynamicEntrypoint
      staticPrefix := manifest.staticPrefix
      previewURL := publicWebsiteURL srv req version.id
      functionURL
      createdAt := manifest.createdAt }⟩

/-- The status of a region before its pools are counted. -/
def regionStatus (regions : List Region) (name : String) : FunctionWarmRegionStatus :=
  match regions.find? fun region => region.name == name with
  | none => { region := name }
  | some region =>
    { region := name
      state := region.state
      availableHosts := region.stats.availableHosts
      availableFullNetworkSlots := region.stats.availableFullNetworkSlots }

/-- One iteration of the loop over the pools of a region. -/
def addPool (versionID : String) (status : FunctionWarmRegionStatus) (pool : WarmPool) :
    FunctionWarmRegionStatus :=
  let status := { status with blankWarm := status.blankWarm + pool.blankWarm }
  if pool.functionVersionID ≠ versionID then status
  else
    { status with
      functionWarm := status.functionWarm + pool.functionWarm
      updatedAt := max status.updatedAt pool.updatedAt }

/-- The loop of `getFunctionWarmStatus` over the regions of the version. -/
def warmRegions (versionID : String) (regions : List Region) :
    List String → StoreM (List FunctionWarmRegionStatus)
  | [] => pure []
  | name :: names => do
    let pools ← listWarmPoolsByRegion name
    let status := pools.foldl (addPool versionID) (regionStatus regions name)
    let rest ← warmRegions versionID regions names
    return { status with ready := status.state = "active" ∧ status.functionWarm > 0 } :: rest

/-- `GET /functions/{versionID}/warm-status`. -/
def getFunctionWarmStatus (auth : AuthContext) (versionID : String) : StoreM Response := do
  let version ← authorizedVersion auth versionID
  let regions ← Lecrev.listRegions
  let statuses ← warmRegions version.id regions version.regions
  return ⟨200, .warmStatus
    { functionVersionID := version.id, ready := statuses.any (·.ready), regions := statuses }⟩

/-! ## Triggers -/

/-- The token of a trigger: the one that was asked for, or a generated one. -/
def triggerToken (requested : String) (generated : Except String String) : Except String String :=
  if trimSpace requested = "" then generated else .ok (trimSpace requested)

/-- `POST /functions/{versionID}/triggers/webhook`. -/
def createWebhookTrigger (auth : AuthContext) (req : Request) (versionID : String)
    (body : Except String CreateWebhookTriggerRequest) : StoreM Response := do
  let version ← authorizedVersion auth versionID
  match body with
  | .error e => return httpError ("decode request: " ++ e) 400
  | .ok body =>
    match triggerToken body.token req.token with
    | .error e => return httpError e 500
    | .ok token =>
      let trigger : WebhookTrigger :=
        { token
          projectID := version.projectID
          functionVersionID := version.id
          description := trimSpace body.description
          enabled := true
          createdAt := req.clock 1 }
      putWebhookTrigger trigger
      return ⟨201, .webhookTrigger trigger⟩

/-- `POST /functions/{versionID}/triggers/http`. -/
def createHTTPTrigger (srv : Server) (auth : AuthContext) (req : Request) (versionID : String)
    (body : Except String CreateHTTPTriggerRequest) : StoreM Response := do
  let version ← authorizedVersion auth versionID
  if version.state ≠ .ready then .throw .functionVersionNotReady
  match body with
  | .error e => return httpError ("decode request: " ++ e) 400
  | .ok body =>
    match triggerToken body.token req.token with
    | .error e => return httpError e 500
    | .ok token =>
      match normalizeHTTPTriggerAuthMode srv.toLower body.authMode with
      | .error e => return httpError e 400
      | .ok authMode =>
        let trigger : HTTPTrigger :=
          { token
            projectID := version.projectID
            functionVersionID := version.id
            description := trimSpace body.description
            authMode
            enabled := true
            createdAt := req.clock 1 }
        putHTTPTrigger trigger
        return ⟨201, .httpTrigger (httpTriggerToResponse trigger (publicFunctionURL srv req token))⟩

/-- `GET /functions/{versionID}/triggers/http`. -/
def listHTTPTriggers (srv : Server) (auth : AuthContext) (req : Request) (versionID : String) :
    StoreM Response := do
  let _ ← authorizedVersion auth versionID
  let triggers ← listHTTPTriggersByFunctionVersion versionID
  return ⟨200, .httpTriggers (triggers.map fun trigger =>
    httpTriggerToResponse trigger (publicFunctionURL srv req trigger.token))⟩

/-- `GET /functions/{versionID}/triggers/webhook`. -/
def listWebhookTriggers (auth : AuthContext) (versionID : String) : StoreM Response := do
  let _ ← authorizedVersion auth versionID
  let triggers ← listWebhookTriggersByFunctionVersion versionID
  return ⟨200, .webhookTriggers triggers⟩

/-- `GET /regions`. -/
def listRegions : StoreM Response := do
  let regions ← Lecrev.listRegions
  return ⟨200, .regions regions⟩

/-- `GET /regions/{region}/hosts`, for administrators. -/
def listRegionHosts (auth : AuthContext) (region : String) : StoreM Response := do
  requireAdmin auth
  let hosts ← listHostsByRegion region
  return ⟨200, .hosts hosts⟩

/-- `GET /regions/{region}/warm-pools`, for administrators. -/
def listWarmPools (auth : AuthContext) (region : String) : StoreM Response := do
  requireAdmin auth
  let pools ← listWarmPoolsByRegion region
  return ⟨200, .warmPools pools⟩

/-- `POST /regions/{region}/hosts/{hostID}/drain`, for administrators. -/
def drainHost (srv : Server) (auth : AuthContext) (region hostID : String)
    (body : Except String DrainHostRequest) : StoreM Response := do
  requireAdmin auth
  match srv.admins region with
  | none => return httpError ("no coordinator admin available for region " ++ region) 404
  | some drain =>
    match body with
    | .error e => return httpError ("decode request: " ++ e) 400
    | .ok body =>
      drain hostID (trimSpace body.reason)
      return ⟨202, .draining region hostID (trimSpace body.reason)⟩

/-! ## Serving a request -/

/-- The handler of a route, once the request is authenticated. -/
def handler (srv : Server) (auth : AuthContext) (req : Request) : Route → StoreM Response
  | .createProject body => createProject srv auth req body
  | .listDeployments => listDeployments srv auth req
  | .getDeployment deploymentID => getDeployment auth deploymentID
  | .getDeploymentLogs deploymentID => getDeploymentLogs auth deploymentID
  | .getDeploymentOutput deploymentID => getDeploymentOutput auth deploymentID
  | .listProjects => listProjects auth req
  | .getProject projectID => getProject auth projectID
  | .getProjectOverview projectID => getProjectOverview auth req projectID
  | .listProjectDeployments projectID => listProjectDeployments srv auth req projectID
  | .listProjectFunctions projectID => listProjectFunctions auth req projectID
  | .listProjectBuildJobs projectID => listProjectBuildJobs auth req projectID
  | .listProjectJobs projectID => listProjectJobs auth req projectID
  | .createFunction projectID body => createFunction srv auth req projectID body
  | .getBuildJob jobID => getBuildJob auth jobID
  | .getBuildJobLogs jobID => getBuildJobLogs auth jobID
  | .invokeFunction versionID body => invokeFunction srv auth req versionID body
  | .getJob jobID => getJob auth jobID
  | .getJobLogs jobID => getJobLogs auth jobID
  | .getJobOutput jobID => getJobOutput auth jobID
  | .getFunction versionID => getFunction auth versionID
  | .getFunctionSite versionID => getFunctionSite srv auth req versionID
  | .getFunctionWarmStatus versionID => getFunctionWarmStatus auth versionID
  | .prepareFunction versionID => prepareFunction srv auth versionID
  | .createHTTPTrigger versionID body => createHTTPTrigger srv auth req versionID body
  | .listHTTPTriggers versionID => listHTTPTriggers srv auth req versionID
  | .createWebhookTrigger versionID body => createWebhookTrigger auth req versionID body
  | .listWebhookTriggers versionID => listWebhookTriggers auth versionID
  | .listRegions => listRegions
  | .listWarmPools region => listWarmPools auth region
  | .listRegionHosts region => listRegionHosts auth region
  | .listJobAttempts jobID => listJobAttempts auth jobID
  | .listJobCosts jobID => listJobCosts auth jobID
  | .drainHost region hostID body => drainHost srv auth region hostID body

/-- A handler answers an error of a service with its status. -/
def answered (p : StoreM Response) : StoreM Response := do
  match ← p.result with
  | .ok response => pure response
  | .error e => pure (writeServiceError e)

/-- A request of the `/v1` group: `authMiddleware`, then the handler. -/
def serve (srv : Server) (req : Request) : StoreM Response := do
  match ← authenticateAPIKey srv (apiKeyFromRequest req) (req.clock 0) with
  | .error .missing => return httpError "missing X-API-Key" 401
  | .error .invalid => return httpError "invalid X-API-Key" 401
  | .error (.other e) => return httpError e.text 500
  | .ok auth => answered (handler srv auth req req.route)

end Api

end Lecrev

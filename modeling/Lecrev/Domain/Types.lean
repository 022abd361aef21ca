import Lecrev.ToMathlib.Table

/-!
# Domain records

The records that the control plane keeps in its metadata store and that travel between the
scheduler, the regional coordinators and the node agents (`internal/domain`, and the messages of
`proto/lecrev/region/v1`). Fields that no modelled function reads or writes are left out.

Clock readings are natural numbers of nanoseconds since Go's zero time, so `0` is the zero
`time.Time` and `time.Time.After` is `>`.
-/

namespace Lecrev

/-- A clock reading, in nanoseconds since the zero `time.Time`. -/
abbrev Time := ℕ

/-- A second, in the nanoseconds of `time.Duration`. -/
def second : Time := 1000000000

/-- A byte string (`[]byte`, `json.RawMessage`). -/
abbrev Bytes := List UInt8

/-- `domain.JobState`. -/
inductive JobState
  | queued | scheduling | assigned | running | retrying | succeeded | failed
  deriving DecidableEq, Repr

/-- `domain.AttemptState`. -/
inductive AttemptState
  | assigned | starting | running | succeeded | failed
  deriving DecidableEq, Repr

/-- The attempt has ended. -/
def AttemptState.terminal (a : AttemptState) : Bool :=
  a == .succeeded || a == .failed

/-- `domain.StartMode`; `unset` is the empty string an attempt carries before a host is picked. -/
inductive StartMode
  | unset | cold | blankWarm | functionWarm
  deriving DecidableEq, Repr

/-- `domain.HostState`. -/
inductive HostState
  | active | draining | down
  deriving DecidableEq, Repr

/-- `domain.NetworkPolicy`. A deploy request carries an arbitrary string, of which only the three
named values and the empty one are told apart. -/
inductive NetworkPolicy
  | none | allowlist | full | unset | unsupported (name : String)
  deriving DecidableEq, Repr

/-- `domain.FunctionState`. -/
inductive FunctionState
  | building | ready | failed
  deriving DecidableEq, Repr

/-- `domain.IdempotencyStatus`. -/
inductive IdempotencyStatus
  | pending | completed
  deriving DecidableEq, Repr

/-- `regionv1.AssignmentState`, the state an agent reports for an attempt. -/
inductive AssignmentState
  | unspecified | starting | running | succeeded | failed
  deriving DecidableEq, Repr

/-- `domain.SourceType`; a deploy request carries an arbitrary string. -/
inductive SourceType
  | bundle | git | unsupported (name : String)
  deriving DecidableEq, Repr

/-- The states of a build job, strings in the source. -/
inductive BuildState
  | queued | running | succeeded | failed
  deriving DecidableEq, Repr

/-- `domain.HTTPTriggerAuthMode`. -/
inductive HTTPTriggerAuthMode
  | none | apiKey
  deriving DecidableEq, Repr

/-! ## Records -/

/-- `domain.APIKey`: a key, stored by its hash, and the tenant it belongs to. -/
structure APIKey where
  keyHash : String
  tenantID : String
  description : String := ""
  isAdmin : Bool := false
  disabled : Bool := false
  createdAt : Time
  lastUsedAt : Time := 0
  deriving DecidableEq, Repr

/-- Keyed by the hash. -/
instance : Keyed APIKey String where
  key v := v.keyHash

/-- `domain.Project`. -/
structure Project where
  id : String
  tenantID : String
  name : String := ""
  createdAt : Time := 0
  deriving DecidableEq, Repr

/-- Keyed by the identifier. -/
instance : Keyed Project String where
  key v := v.id

/-- `domain.DeploySource`: a bundle, files, or a repository. -/
structure DeploySource where
  type : SourceType
  bundleBase64 : String := ""
  inlineFiles : List (String × String) := []
  gitURL : String := ""
  gitRef : String := ""
  subPath : String := ""
  labels : List (String × String) := []
  metadata : List (String × String) := []
  deriving DecidableEq, Repr

/-- `domain.DeployRequest`. -/
structure DeployRequest where
  projectID : String
  name : String
  runtime : String := ""
  entrypoint : String := ""
  memoryMB : ℤ := 0
  timeoutSec : ℤ := 0
  networkPolicy : NetworkPolicy := .unset
  regions : List String := []
  envVars : List (String × String) := []
  envRefs : List String := []
  maxRetries : ℤ := 0
  idempotencyKey : String := ""
  source : DeploySource
  deriving DecidableEq, Repr

/-- `domain.Artifact`: the stored bundle of a build. -/
structure Artifact where
  digest : String
  sizeBytes : ℕ
  bundleKey : String
  startupKey : String
  /-- The regions that hold a replica, with the time of the replication. -/
  regions : List (String × Time)
  createdAt : Time
  deriving DecidableEq, Repr

/-- Keyed by the digest. -/
instance : Keyed Artifact String where
  key v := v.digest

/-- `domain.FunctionVersion`. -/
structure FunctionVersion where
  id : String
  projectID : String
  name : String
  runtime : String
  entrypoint : String
  memoryMB : ℤ
  timeoutSec : ℤ
  networkPolicy : NetworkPolicy
  regions : List String
  envVars : List (String × String)
  envRefs : List String
  maxRetries : ℤ
  buildJobID : String
  sourceType : SourceType
  artifactDigest : String
  state : FunctionState
  createdAt : Time
  deriving DecidableEq, Repr

/-- Keyed by the identifier. -/
instance : Keyed FunctionVersion String where
  key v := v.id

/-- `domain.BuildJob`. The request is kept as the value that its JSON encoding decodes to. -/
structure BuildJob where
  id : String
  functionVersionID : String
  targetRegion : String
  metadata : List (String × String)
  state : BuildState
  error : String := ""
  logsKey : String
  request : DeployRequest
  createdAt : Time
  updatedAt : Time
  deriving DecidableEq, Repr

/-- Keyed by the identifier. -/
instance : Keyed BuildJob String where
  key v := v.id

/-- `domain.HTTPTrigger`: the URL of a version. -/
structure HTTPTrigger where
  token : String
  projectID : String
  functionVersionID : String
  description : String
  authMode : HTTPTriggerAuthMode
  enabled : Bool
  createdAt : Time
  deriving DecidableEq, Repr

/-- Keyed by the token. -/
instance : Keyed HTTPTrigger String where
  key v := v.token

/-- `domain.WebhookTrigger`. -/
structure WebhookTrigger where
  token : String
  projectID : String
  functionVersionID : String
  description : String
  enabled : Bool
  createdAt : Time
  deriving DecidableEq, Repr

/-- Keyed by the token. -/
instance : Keyed WebhookTrigger String where
  key v := v.token

/-- `domain.JobResult`: what an execution has returned. -/
structure JobResult where
  exitCode : ℤ
  /-- The bytes of the string: the agent may have cut it within a character. -/
  logs : Bytes
  logsKey : String
  output : Bytes
  outputKey : String
  hostID : String
  region : String
  startedAt : Time
  finishedAt : Time
  deriving DecidableEq, Repr

/-- `domain.ExecutionJob`: an execution that was asked for. -/
structure ExecutionJob where
  id : String
  functionVersionID : String
  projectID : String
  targetRegion : String := ""
  state : JobState
  payload : Bytes
  maxRetries : ℤ
  attemptCount : ℤ := 0
  lastAttemptID : String := ""
  error : String := ""
  result : Option JobResult := none
  createdAt : Time
  updatedAt : Time
  deriving DecidableEq, Repr

/-- Keyed by the identifier. -/
instance : Keyed ExecutionJob String where
  key v := v.id

/-- `domain.Attempt`: one attempt to execute a job on a host. -/
structure Attempt where
  id : String
  jobID : String
  functionVersionID : String
  hostID : String := ""
  region : String
  state : AttemptState
  startMode : StartMode := .unset
  startedAt : Time := 0
  leaseExpiresAt : Time
  error : String := ""
  createdAt : Time
  updatedAt : Time
  deriving DecidableEq, Repr

/-- Keyed by the identifier. -/
instance : Keyed Attempt String where
  key v := v.id

/-- `domain.Host`. -/
structure Host where
  id : String
  region : String
  driver : String
  state : HostState
  availableSlots : ℤ
  availableFullNetworkSlots : ℤ
  blankWarm : ℤ
  functionWarm : AList (fun _ : String => ℤ)
  lastHeartbeat : Time
  deriving DecidableEq

/-- Keyed by the identifier. -/
instance : Keyed Host String where
  key v := v.id

/-- `domain.RegionStats`: what the hosts of a region offer. -/
structure RegionStats where
  availableHosts : ℤ := 0
  availableFullNetworkSlots : ℤ := 0
  blankWarm : ℤ := 0
  functionWarm : ℤ := 0
  deriving DecidableEq, Repr

/-- `domain.Region`. -/
structure Region where
  name : String
  state : String
  stats : RegionStats
  lastHeartbeatAt : Time
  lastError : String := ""
  deriving DecidableEq, Repr

/-- Keyed by the name. -/
instance : Keyed Region String where
  key v := v.name

/-- `domain.WarmPool`: the warm microVMs of a host, blank or for one version. -/
structure WarmPool where
  region : String
  hostID : String
  functionVersionID : String := ""
  blankWarm : ℤ := 0
  functionWarm : ℤ := 0
  updatedAt : Time
  deriving DecidableEq, Repr

/-- The key of the memory store, joined without escaping. -/
def warmPoolKey (region hostID functionVersionID : String) : String :=
  region ++ ":" ++ hostID ++ ":" ++ functionVersionID

/-- Keyed by `warmPoolKey`. -/
instance : Keyed WarmPool String where
  key v := warmPoolKey v.region v.hostID v.functionVersionID

/-- `domain.CostRecord`: what an attempt is billed. -/
structure CostRecord where
  id : String
  tenantID : String
  projectID : String
  jobID : String
  attemptID : String
  hostID : String
  region : String
  startMode : StartMode
  cpuMs : ℕ
  memoryMBMs : ℤ
  warmInstanceMs : ℕ
  dataEgressBytes : ℕ
  createdAt : Time
  deriving DecidableEq, Repr

/-- Keyed by the identifier. -/
instance : Keyed CostRecord String where
  key v := v.id

/-- `domain.IdempotencyRecord`: the resource that a request with a key has led to. -/
structure IdempotencyRecord where
  scope : String
  projectID : String
  key : String
  requestHash : String
  resourceID : String := ""
  resource : String
  status : IdempotencyStatus
  createdAt : Time
  updatedAt : Time
  deriving DecidableEq, Repr

/-- `idempotencyKey` of `internal/store/memory`. -/
def idempotencyKey (scope projectID key : String) : String :=
  scope ++ ":" ++ projectID ++ ":" ++ key

/-- Keyed by `idempotencyKey`. -/
instance : Keyed IdempotencyRecord String where
  key r := idempotencyKey r.scope r.projectID r.key

/-- `domain.Assignment`, the unit of work handed to a regional dispatcher. -/
structure Assignment where
  attemptID : String
  jobID : String
  functionVersionID : String
  artifactDigest : String
  artifactBundleKey : String
  entrypoint : String
  envVars : List (String × String)
  envRefs : List String
  payload : Bytes
  networkPolicy : NetworkPolicy
  timeoutSec : ℤ
  memoryMB : ℤ
  deriving DecidableEq, Repr

/-- `regionv1.AssignmentUpdate`, an agent's report about one attempt. -/
structure AssignmentUpdate where
  hostID : String
  region : String
  attemptID : String
  jobID : String
  state : AssignmentState
  /-- The bytes of the string: the agent may have cut it within a character. -/
  logs : Bytes := []
  outputJson : Bytes := []
  errorMessage : String := ""
  exitCode : ℤ := 0
  deriving DecidableEq, Repr

/-! ## Errors -/

/-- The errors that the modelled functions tell apart. A description wraps the sentinel errors of
`internal/store` and `internal/domain` as `fmt.Errorf("%w: ...")` does. -/
inductive Err
  /-- `store.ErrNotFound`. -/
  | notFound (detail : String)
  /-- `store.ErrAlreadyExists`. -/
  | alreadyExists (detail : String)
  /-- `domain.ErrNoExecutionCapacity`. -/
  | noExecutionCapacity (detail : String)
  /-- `domain.ErrIdempotencyConflict`. -/
  | idempotencyConflict
  /-- `domain.ErrIdempotencyInProgress`. -/
  | idempotencyInProgress
  /-- `domain.ErrProjectExecutionQuota`. -/
  | projectExecutionQuota (detail : String)
  /-- `domain.ErrProjectBuildQuota`. -/
  | projectBuildQuota (detail : String)
  /-- `domain.ErrFunctionVersionNotReady`. -/
  | functionVersionNotReady
  /-- `domain.ErrDirectInvokeUnavailable`. -/
  | directInvokeUnavailable
  /-- `domain.ErrBuildLogsNotReady`. -/
  | buildLogsNotReady
  /-- `domain.ErrExecutionResultNotReady`. -/
  | executionResultNotReady
  /-- `store.ErrAccessDenied`. -/
  | accessDenied
  /-- `artifact.ErrNotFound`. -/
  | artifactNotFound (detail : String)
  | canceled
  | deadlineExceeded
  /-- Any other error, by its text. -/
  | other (text : String)
  /-- An error with text before and after it, as `fmt.Errorf("... %w ...")` wraps it. -/
  | wrapped (before : String) (inner : Err) (after : String)
  deriving DecidableEq, Repr

/-- The text of an error (`err.Error()`). -/
def Err.text : Err → String
  | .notFound detail => "record not found" ++ detail
  | .alreadyExists detail => "record already exists" ++ detail
  | .noExecutionCapacity detail => "no execution capacity available" ++ detail
  | .idempotencyConflict => "idempotency key reused with different request"
  | .idempotencyInProgress => "idempotent request already in progress"
  | .projectExecutionQuota detail => "project execution quota exceeded" ++ detail
  | .projectBuildQuota detail => "project build quota exceeded" ++ detail
  | .functionVersionNotReady => "function version not ready"
  | .directInvokeUnavailable => "direct invoke unavailable"
  | .buildLogsNotReady => "build logs not ready"
  | .executionResultNotReady => "execution result not ready"
  | .accessDenied => "access denied"
  | .artifactNotFound detail => "artifact not found" ++ detail
  | .canceled => "context canceled"
  | .deadlineExceeded => "context deadline exceeded"
  | .other text => text
  | .wrapped before inner after => before ++ inner.text ++ after

/-- The error at the end of the chain that `errors.Is` follows. -/
def Err.root : Err → Err
  | .wrapped _ inner _ => inner.root
  | e => e

/-- `errors.Is(err, domain.ErrNoExecutionCapacity)`. -/
def Err.isCapacity (e : Err) : Bool :=
  match e.root with
  | .noExecutionCapacity _ => true
  | _ => false

/-! ## Sample records -/

namespace DomainSample

def project : Project where
  id := "project"
  tenantID := "tenant"

def version : FunctionVersion where
  id := "version"
  projectID := "project"
  name := "hello"
  runtime := "node22"
  entrypoint := "index.js"
  memoryMB := 128
  timeoutSec := 30
  networkPolicy := .none
  regions := ["region"]
  envVars := []
  envRefs := []
  maxRetries := 2
  buildJobID := "build"
  sourceType := .bundle
  artifactDigest := "digest"
  state := .ready
  createdAt := 1

def artifact : Artifact where
  digest := "digest"
  sizeBytes := 1
  bundleKey := "bundle"
  startupKey := "startup"
  regions := []
  createdAt := 1

def assignment : Assignment where
  attemptID := "attempt"
  jobID := "job"
  functionVersionID := "version"
  artifactDigest := "digest"
  artifactBundleKey := "key"
  entrypoint := "index.js"
  envVars := []
  envRefs := []
  payload := []
  networkPolicy := .none
  timeoutSec := 30
  memoryMB := 128

end DomainSample

end Lecrev

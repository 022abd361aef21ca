import Lecrev.Build.Service
import Lecrev.Scheduler.Service

/-!
# Idempotency keys

`DispatchExecutionIdempotent` of the scheduler and `createFunctionVersionIdempotent` of the build
service follow one pattern. A request with a key first inserts a pending record under the key. The
request whose insertion succeeds creates the resource and completes the record, or deletes the
record when it could not create the resource; every other request replays the record. `idempotently`
and `replay` are the pattern, and the functions of the two services are written with them.
-/

namespace Lecrev

/-- The pending record of a request. -/
def newIdempotencyRecord (scope projectID key requestHash resource : String) (now : Time) :
    IdempotencyRecord where
  scope := scope
  projectID := projectID
  key := key
  requestHash := requestHash
  resource := resource
  status := .pending
  createdAt := now
  updatedAt := now

/-- The record of a request whose resource exists. -/
def IdempotencyRecord.completedWith (record : IdempotencyRecord) (resourceID : String)
    (now : Time) : IdempotencyRecord :=
  { record with resourceID := resourceID, status := .completed, updatedAt := now }

/-- Answer a request from the record of an earlier one. -/
def replay {α : Type} (scope projectID key requestHash : String) (load : String → StoreM α) :
    StoreM α := do
  let record ← getIdempotencyRecord scope projectID key
  if record.requestHash ≠ requestHash then .throw .idempotencyConflict
  else if record.status ≠ .completed ∨ record.resourceID = "" then .throw .idempotencyInProgress
  else load record.resourceID

/-- Create a resource under the key of a pending record, or answer from the record that is there.
A deletion that fails is ignored; a completion that fails is returned, and the record stays
pending. -/
def idempotently {α : Type} (record : IdempotencyRecord) (completedAt : Time) (create : StoreM α)
    (resourceID : α → String) (replayed : StoreM α) : StoreM α := do
  match ← (createIdempotencyRecord record).result with
  | .error (.alreadyExists _) => replayed
  | .error e => .throw e
  | .ok () =>
    match ← create.result with
    | .error e =>
      let _ ← (deleteIdempotencyRecord record.scope record.projectID record.key).result
      .throw e
    | .ok a =>
      updateIdempotencyRecord (record.completedWith (resourceID a) completedAt)
      pure a

/-! ## Invocations -/

/-- `idempotency.NormalizeJSON`; `compact` is `json.Compact`, where it accepts its input. -/
def normalizeJSON (compact : Bytes → Option Bytes) (raw : Bytes) : Bytes :=
  if raw = [] then textBytes "null" else (compact raw).getD raw

/-- What the hash of an invocation needs from outside. -/
structure InvokeHash where
  /-- `json.Compact`, where it accepts its input. -/
  compact : Bytes → Option Bytes
  /-- `idempotency.Hash` of a version and a normalized payload. -/
  hash : String → Bytes → Except Err String

/-- No two requests have the same hash. -/
def InvokeHash.CollisionFree (h : InvokeHash) : Prop :=
  ∀ versionID payload versionID' payload' digest, h.hash versionID payload = .ok digest →
    h.hash versionID' payload' = .ok digest → (versionID, payload) = (versionID', payload')

/-- `invokeRequestHash`. -/
def invokeRequestHash (h : InvokeHash) (versionID : String) (payload : Bytes) :
    Except Err String :=
  h.hash versionID (normalizeJSON h.compact payload)

/-- `replayExecution`. -/
def replayExecution (projectID key requestHash : String) : StoreM ExecutionJob :=
  replay "invoke" projectID key requestHash getExecutionJob

/-- `DispatchExecutionIdempotent`; `id` is the result of `uuid.NewString`. -/
def dispatchExecutionIdempotent (s : Scheduler) (h : InvokeHash) (clock : ℕ → Time) (id : String)
    (versionID : String) (payload : Bytes) (idempotencyKey : String) : StoreM ExecutionJob := do
  let version ← getFunctionVersion versionID
  if idempotencyKey ≠ "" then
    let requestHash ← .ret (invokeRequestHash h versionID payload)
    idempotently
      (newIdempotencyRecord "invoke" version.projectID idempotencyKey requestHash "execution_job"
        (clock 0))
      (clock 2) (enqueueExecution s (clock 1) id version payload) ExecutionJob.id
      (replayExecution version.projectID idempotencyKey requestHash)
  else enqueueExecution s (clock 1) id version payload

/-- `deployRequestHash`: every field but the key counts, and of the Git URL what is stored. -/
def deployRequestHash (b : Builder) (req : DeployRequest) : Except Err String :=
  b.hash { sanitizeDeployRequestForStorage b req with idempotencyKey := "" }

/-- `replayFunctionVersion`. -/
def replayFunctionVersion (projectID key requestHash : String) : StoreM FunctionVersion :=
  replay "deploy" projectID key requestHash getFunctionVersion

/-- `createFunctionVersionIdempotent`. -/
def createFunctionVersionIdempotent (b : Builder) (run : BuildRun) (req : DeployRequest) :
    StoreM FunctionVersion := do
  let requestHash ← .ret (deployRequestHash b req)
  idempotently
    (newIdempotencyRecord "deploy" req.projectID req.idempotencyKey requestHash "function_version"
      (run.clock 10))
    (run.clock 11) (createFunctionVersion b run req) FunctionVersion.id
    (replayFunctionVersion req.projectID req.idempotencyKey requestHash)

/-- The exported `CreateFunctionVersion`. -/
def Builder.createFunctionVersion (b : Builder) (run : BuildRun) (req : DeployRequest) :
    StoreM FunctionVersion :=
  if req.idempotencyKey ≠ "" then createFunctionVersionIdempotent b run req
  else Lecrev.createFunctionVersion b run req

end Lecrev

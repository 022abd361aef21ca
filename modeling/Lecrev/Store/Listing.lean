import Lecrev.Store.Memory

/-!
# API keys, projects and listings

The methods of `internal/store/memory` that only the HTTP API calls: the lookup of an API key, the
creation of projects, and the listings. A listing walks over a whole table, keeps what matches and
sorts it; the identifiers are the keys of the table, so the order does not depend on the walk.
-/

namespace Lecrev

/-- `Store.GetAPIKeyByHash`. -/
def getAPIKeyByHash (keyHash : String) : StoreM APIKey :=
  .query .getAPIKeyByHash fun s => find "api key" s.apiKeys keyHash

/-- `Store.TouchAPIKeyLastUsed`. -/
def touchAPIKeyLastUsed (keyHash : String) (usedAt : Time) : StoreM Unit :=
  .action .touchAPIKeyLastUsed fun s =>
    match s.apiKeys.get keyHash with
    | some key => (.ok (), { s with apiKeys := s.apiKeys.put { key with lastUsedAt := usedAt } })
    | none => (.error (missing "api key" keyHash), s)

/-- `Store.EnsureProject`: a project is created unless there is one with the identifier, which is
then returned to its own tenant only. `now` is the clock reading of the creation. -/
def ensureProject (projectID tenantID name : String) (now : Time) : StoreM Project :=
  .action .ensureProject fun s =>
    match s.projects.get projectID with
    | none =>
      let project : Project := { id := projectID, tenantID, name, createdAt := now }
      (.ok project, { s with projects := s.projects.put project })
    | some project =>
      if project.tenantID ≠ tenantID then (.error .accessDenied, s) else (.ok project, s)

/-- `Store.ListProjectsByTenant`. -/
def listProjectsByTenant (tenantID : String) : StoreM (List Project) :=
  .query .listProjectsByTenant fun s =>
    .ok (newestFirst Project.createdAt Project.id
      (s.projects.values.filter fun project => project.tenantID == tenantID))

/-- `Store.ListFunctionVersionsByProject`. -/
def listFunctionVersionsByProject (projectID : String) : StoreM (List FunctionVersion) :=
  .query .listFunctionVersionsByProject fun s =>
    .ok (newestFirst FunctionVersion.createdAt FunctionVersion.id
      (s.functions.values.filter fun version => version.projectID == projectID))

/-- `Store.ListBuildJobsByProject`: a build job is of the project of its version. -/
def listBuildJobsByProject (projectID : String) : StoreM (List BuildJob) :=
  .query .listBuildJobsByProject fun s =>
    .ok (newestFirst BuildJob.createdAt BuildJob.id
      (s.buildJobs.values.filter fun job =>
        (s.functions.get job.functionVersionID).map (·.projectID) == some projectID))

/-- `Store.ListExecutionJobsByProject`. -/
def listExecutionJobsByProject (projectID : String) : StoreM (List ExecutionJob) :=
  .query .listExecutionJobsByProject fun s =>
    .ok (newestFirst ExecutionJob.createdAt ExecutionJob.id
      (s.executionJobs.values.filter fun job => job.projectID == projectID))

/-! ## Records of a job, of a version, of a region -/

/-- `Store.ListAttemptsByJob`. -/
def listAttemptsByJob (jobID : String) : StoreM (List Attempt) :=
  .query .listAttemptsByJob fun s =>
    .ok (oldestFirst Attempt.createdAt Attempt.id
      (s.attempts.values.filter fun attempt => attempt.jobID == jobID))

/-- `Store.ListCostRecordsByJob`. -/
def listCostRecordsByJob (jobID : String) : StoreM (List CostRecord) :=
  .query .listCostRecordsByJob fun s =>
    .ok (oldestFirst CostRecord.createdAt CostRecord.id
      (s.costRecords.values.filter fun record => record.jobID == jobID))

/-- `Store.PutWebhookTrigger`: a token is never overwritten. -/
def putWebhookTrigger (trigger : WebhookTrigger) : StoreM Unit :=
  .action .putWebhookTrigger fun s =>
    match s.webhookTriggers.get trigger.token with
    | some _ => (.error (.alreadyExists (": webhook trigger " ++ trigger.token)), s)
    | none => (.ok (), { s with webhookTriggers := s.webhookTriggers.put trigger })

/-- `Store.GetWebhookTrigger`. -/
def getWebhookTrigger (token : String) : StoreM WebhookTrigger :=
  .query .getWebhookTrigger fun s => find "webhook trigger" s.webhookTriggers token

/-- `Store.GetHTTPTrigger`. -/
def getHTTPTrigger (token : String) : StoreM HTTPTrigger :=
  .query .getHTTPTrigger fun s => find "http trigger" s.httpTriggers token

/-- `Store.ListWebhookTriggersByFunctionVersion`, which does not sort: the order of a walk over a Go
map is left to the table. -/
def listWebhookTriggersByFunctionVersion (versionID : String) : StoreM (List WebhookTrigger) :=
  .query .listWebhookTriggersByFunctionVersion fun s =>
    .ok (s.webhookTriggers.values.filter fun trigger => trigger.functionVersionID == versionID)

/-- `Store.GetHost`. -/
def getHost (hostID : String) : StoreM Host :=
  .query .getHost fun s => find "host" s.hosts hostID

/-- `Store.ListRegions`, in the order of the table. -/
def listRegions : StoreM (List Region) :=
  .query .listRegions fun s => .ok s.regions.values

/-- `Store.ListWarmPoolsByRegion`, by host, then by version. -/
def listWarmPoolsByRegion (region : String) : StoreM (List WarmPool) :=
  .query .listWarmPoolsByRegion fun s =>
    .ok ((s.warmPools.values.filter fun pool => pool.region == region).insertionSort fun a b =>
      a.hostID < b.hostID ∨ a.hostID = b.hostID ∧ a.functionVersionID ≤ b.functionVersionID)

/-- `artifact.Store.Get`. -/
def getObject (key : String) : StoreM Bytes :=
  .query .getObject fun s =>
    match s.objects.lookup key with
    | some data => .ok data
    | none => .error (.artifactNotFound (": " ++ key.quote))

end Lecrev

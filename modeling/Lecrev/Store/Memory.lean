import Lecrev.Concurrency.Program
import Lecrev.Domain.Text
import Mathlib.Data.List.MinMax
import Mathlib.Data.List.Sort
import Mathlib.Data.Prod.Lex
import Mathlib.Data.String.Basic

/-!
# The metadata store

The tables of `internal/store/memory` and the methods of the `store.Store` interface that the
modelled services call. Every method is one atomic call of a `StoreM` program: the memory store
holds its mutex for the whole method, the Postgres store runs one statement.

Records are copied on the way in and out (`cloneExecutionJob` and its siblings), so a caller
never shares a record with the store; values have no identity here, and the copies disappear.
Idempotency records are stored under scope, project and key joined by colons.

A call that fails for a reason of its own (a lost connection, a cancelled context) is the failure
branch of `Prog.call`: it returns an error and has no effect.
-/

namespace Lecrev

/-- The tables of the metadata store, and the objects of the artifact store. -/
structure Store where
  apiKeys : Table APIKey
  projects : Table Project
  idempotency : Table IdempotencyRecord
  artifacts : Table Artifact
  functions : Table FunctionVersion
  buildJobs : Table BuildJob
  executionJobs : Table ExecutionJob
  attempts : Table Attempt
  costRecords : Table CostRecord
  httpTriggers : Table HTTPTrigger
  webhookTriggers : Table WebhookTrigger
  hosts : Table Host
  warmPools : Table WarmPool
  regions : Table Region
  objects : AList (fun _ : String => Bytes)
  /-- The assignments that regional dispatchers have accepted, most recent first. This is the
  history the properties speak about; no function of the program reads it. -/
  accepted : List Assignment

/-- The empty store (`memory.New`). -/
def Store.new : Store where
  apiKeys := .empty
  projects := .empty
  idempotency := .empty
  artifacts := .empty
  functions := .empty
  buildJobs := .empty
  executionJobs := .empty
  attempts := .empty
  costRecords := .empty
  httpTriggers := .empty
  webhookTriggers := .empty
  hosts := .empty
  warmPools := .empty
  regions := .empty
  objects := ∅
  accepted := []

/-- The calls that can be told apart in an interleaving: the methods of `store.Store`, the puts
of the artifact store, the publication on a bus, the acceptance of an assignment, and the steps of a
regional coordinator that do not reach the store. Writes of jobs and attempts say which record they
write. -/
inductive StoreCall
  | ensureProject | getProject | listProjectsByTenant
  | putAPIKey | getAPIKeyByHash | touchAPIKeyLastUsed
  | createIdempotencyRecord | updateIdempotencyRecord | deleteIdempotencyRecord
  | getIdempotencyRecord
  | putArtifact | getArtifact
  | putFunctionVersion | getFunctionVersion | listFunctionVersionsByProject
  | putBuildJob | getBuildJob | listBuildJobsByProject | countBuildJobsByProjectStates
  | countBuildJobsByStates
  | putExecutionJob (id : String) | updateExecutionJob (id : String) | getExecutionJob
  | listExecutionJobsByProject | countExecutionJobsByProjectStates | countExecutionJobsByStates
  | claimNextExecutionJob | requeueStaleExecutionJobs | countActiveExecutionJobsByRegion
  | putAttempt (id : String) | updateAttempt (id : String) | getAttempt | listAttemptsByJob
  | listExpiredAttempts
  | putCostRecord | listCostRecordsByJob
  | putHTTPTrigger | getHTTPTrigger | listHTTPTriggersByFunctionVersion
  | putWebhookTrigger | getWebhookTrigger | listWebhookTriggersByFunctionVersion
  | putHost | updateHost | getHost | listHostsByRegion | replaceWarmPoolsForHost
  | listWarmPoolsByRegion
  | putRegion | getRegion | listRegions
  | putObject | getObject | publish | accept
  | region
  deriving DecidableEq, Repr

/-- The call writes the job `jobID` as a whole. -/
def StoreCall.writesJob (jobID : String) : StoreCall → Bool
  | .putExecutionJob id | .updateExecutionJob id => id == jobID
  | _ => false

/-- The call writes the attempt `attemptID` as a whole. -/
def StoreCall.writesAttempt (attemptID : String) : StoreCall → Bool
  | .putAttempt id | .updateAttempt id => id == attemptID
  | _ => false

/-- Programs of store calls. -/
abbrev StoreM (α : Type) := Prog StoreCall Store Err α

/-- The description `fmt.Errorf` appends for a missing record: its kind and quoted key. -/
def missing (kind key : String) : Err := .notFound (": " ++ kind ++ " " ++ key.quote)

/-- Look a record up, or fail with `store.ErrNotFound`. -/
def find {α : Type} [Keyed α String] (kind : String) (t : Table α) (key : String) : Except Err α :=
  match t.get key with
  | some v => .ok v
  | none => .error (missing kind key)

@[simp]
theorem find_eq_ok_iff {α : Type} [Keyed α String] {kind : String} {t : Table α} {key : String}
    {v : α} : find kind t key = .ok v ↔ t.get key = some v := by
  rw [find]
  cases t.get key <;> simp

theorem find_of_get {α : Type} [Keyed α String] (kind : String) {t : Table α} {key : String}
    {v : α} (h : t.get key = some v) : find kind t key = .ok v :=
  find_eq_ok_iff.mpr h

theorem find_of_get_none {α : Type} [Keyed α String] (kind : String) {t : Table α}
    {key : String} (h : t.get key = none) : find kind t key = .error (missing kind key) := by
  rw [find, h]

section Order

variable {α : Type} (createdAt : α → Time) (id : α → String)

/-- `sort.SliceStable` by creation time, then by identifier, both ascending. -/
def oldestFirst (l : List α) : List α :=
  l.insertionSort fun a b =>
    createdAt a < createdAt b ∨ createdAt a = createdAt b ∧ id a ≤ id b

/-- `sort.SliceStable` by creation time, then by identifier, both descending. -/
def newestFirst (l : List α) : List α :=
  l.insertionSort fun a b =>
    createdAt b < createdAt a ∨ createdAt b = createdAt a ∧ id b ≤ id a

@[simp]
theorem mem_oldestFirst {l : List α} {a : α} : a ∈ oldestFirst createdAt id l ↔ a ∈ l :=
  List.mem_insertionSort _

@[simp]
theorem mem_newestFirst {l : List α} {a : α} : a ∈ newestFirst createdAt id l ↔ a ∈ l :=
  List.mem_insertionSort _

end Order

/-! ## Projects, artifacts, versions, build jobs, triggers, hosts, regions -/

/-- `Store.GetProject`. -/
def getProject (projectID : String) : StoreM Project :=
  .query .getProject fun s => find "project" s.projects projectID

/-- `Store.PutArtifact`. -/
def putArtifact (artifact : Artifact) : StoreM Unit :=
  .modify .putArtifact fun s =>
    { s with artifacts := s.artifacts.put artifact }

/-- `Store.GetArtifact`. -/
def getArtifact (digest : String) : StoreM Artifact :=
  .query .getArtifact fun s => find "artifact" s.artifacts digest

/-- `Store.PutFunctionVersion`. -/
def putFunctionVersion (version : FunctionVersion) : StoreM Unit :=
  .modify .putFunctionVersion fun s =>
    { s with functions := s.functions.put version }

/-- `Store.GetFunctionVersion`. -/
def getFunctionVersion (versionID : String) : StoreM FunctionVersion :=
  .query .getFunctionVersion fun s => find "function version" s.functions versionID

/-- `Store.PutBuildJob`. -/
def putBuildJob (job : BuildJob) : StoreM Unit :=
  .modify .putBuildJob fun s => { s with buildJobs := s.buildJobs.put job }

/-- `Store.GetBuildJob`. -/
def getBuildJob (jobID : String) : StoreM BuildJob :=
  .query .getBuildJob fun s => find "build job" s.buildJobs jobID

/-- The builds of the versions of a project that are in one of the states. -/
def Store.countBuildJobs (s : Store) (projectID : String) (states : List BuildState) : ℕ :=
  s.buildJobs.values.countP fun job =>
    states.contains job.state &&
      ((s.functions.get job.functionVersionID).map (·.projectID) == some projectID)

/-- `Store.CountBuildJobsByProjectStates`. -/
def countBuildJobsByProjectStates (projectID : String) (states : List BuildState) : StoreM ℕ :=
  .query .countBuildJobsByProjectStates fun s => .ok (s.countBuildJobs projectID states)

/-- `Store.PutHTTPTrigger`: a token is never overwritten. -/
def putHTTPTrigger (trigger : HTTPTrigger) : StoreM Unit :=
  .action .putHTTPTrigger fun s =>
    match s.httpTriggers.get trigger.token with
    | some _ => (.error (.alreadyExists (": http trigger " ++ trigger.token)), s)
    | none => (.ok (), { s with httpTriggers := s.httpTriggers.put trigger })

/-- `Store.ListHTTPTriggersByFunctionVersion`. -/
def listHTTPTriggersByFunctionVersion (versionID : String) : StoreM (List HTTPTrigger) :=
  .query .listHTTPTriggersByFunctionVersion fun s =>
    .ok (oldestFirst HTTPTrigger.createdAt HTTPTrigger.token
      (s.httpTriggers.values.filter fun trigger => trigger.functionVersionID == versionID))

/-- `Store.PutHost`. -/
def putHost (host : Host) : StoreM Unit :=
  .modify .putHost fun s => { s with hosts := s.hosts.put host }

/-- `Store.UpdateHost`: the whole record is overwritten, whatever is stored. -/
def updateHost (host : Host) : StoreM Unit :=
  .modify .updateHost fun s => { s with hosts := s.hosts.put host }

/-- `Store.ListHostsByRegion`; the order of the list is left to the table. -/
def listHostsByRegion (region : String) : StoreM (List Host) :=
  .query .listHostsByRegion fun s => .ok (s.hosts.values.filter fun host => host.region == region)

/-- `Store.ReplaceWarmPoolsForHost`: every pool whose key starts with the key of the host is
dropped, then the given pools are stored. -/
def replaceWarmPoolsForHost (region hostID : String) (pools : List WarmPool) : StoreM Unit :=
  .modify .replaceWarmPoolsForHost fun s => { s with
    warmPools := pools.foldl .put (s.warmPools.filter fun pool =>
      !(Keyed.key pool).startsWith (warmPoolKey region hostID "")) }

/-- `Store.PutRegion`. -/
def putRegion (region : Region) : StoreM Unit :=
  .modify .putRegion fun s => { s with regions := s.regions.put region }

/-- `Store.GetRegion`. -/
def getRegion (region : String) : StoreM Region :=
  .query .getRegion fun s => find "region" s.regions region

/-- `artifact.Store.Put`. -/
def putObject (key : String) (data : Bytes) : StoreM Unit :=
  .modify .putObject fun s => { s with objects := s.objects.insert key data }

/-- `Store.CreateIdempotencyRecord`: insert if absent. -/
def createIdempotencyRecord (record : IdempotencyRecord) : StoreM Unit :=
  .action .createIdempotencyRecord fun s =>
    match s.idempotency.get (idempotencyKey record.scope record.projectID record.key) with
    | some _ =>
      (.error (.alreadyExists (": idempotency record " ++
        idempotencyKey record.scope record.projectID record.key)), s)
    | none =>
      (.ok (), { s with
        idempotency := s.idempotency.put record })

/-- `Store.UpdateIdempotencyRecord`. -/
def updateIdempotencyRecord (record : IdempotencyRecord) : StoreM Unit :=
  .modify .updateIdempotencyRecord fun s => { s with
    idempotency := s.idempotency.put record }

/-- `Store.DeleteIdempotencyRecord`. -/
def deleteIdempotencyRecord (scope projectID key : String) : StoreM Unit :=
  .modify .deleteIdempotencyRecord fun s => { s with
    idempotency := s.idempotency.erase (idempotencyKey scope projectID key) }

/-- `Store.GetIdempotencyRecord`. -/
def getIdempotencyRecord (scope projectID key : String) : StoreM IdempotencyRecord :=
  .query .getIdempotencyRecord fun s =>
    find "idempotency record" s.idempotency (idempotencyKey scope projectID key)

/-! ## Execution jobs -/

/-- Write a job under its own identifier. -/
def Store.setJob (s : Store) (job : ExecutionJob) : Store :=
  { s with executionJobs := s.executionJobs.put job }

/-- `Store.PutExecutionJob`. -/
def putExecutionJob (job : ExecutionJob) : StoreM Unit :=
  .modify (.putExecutionJob job.id) (·.setJob job)

/-- `Store.UpdateExecutionJob`: the whole record is overwritten, whatever is stored. -/
def updateExecutionJob (job : ExecutionJob) : StoreM Unit :=
  .modify (.updateExecutionJob job.id) (·.setJob job)

/-- `Store.GetExecutionJob`. -/
def getExecutionJob (jobID : String) : StoreM ExecutionJob :=
  .query .getExecutionJob fun s => find "job" s.executionJobs jobID

/-- The jobs of a project that are in one of the states. -/
def Store.countExecutionJobs (s : Store) (projectID : String) (states : List JobState) : ℕ :=
  s.executionJobs.values.countP fun job =>
    job.projectID == projectID && states.contains job.state

/-- `Store.CountExecutionJobsByProjectStates`. -/
def countExecutionJobsByProjectStates (projectID : String) (states : List JobState) : StoreM ℕ :=
  .query .countExecutionJobsByProjectStates fun s =>
    .ok (s.countExecutionJobs projectID states)

/-- `Store.CountActiveExecutionJobsByRegion`. -/
def countActiveExecutionJobsByRegion (region : String) : StoreM ℕ :=
  .query .countActiveExecutionJobsByRegion fun s =>
    .ok (s.executionJobs.values.countP fun job =>
      job.targetRegion == region && job.state != .succeeded && job.state != .failed)

/-- The comparison with the best candidate so far in `ClaimNextExecutionJob`: oldest update,
then oldest creation, then least identifier. -/
def claimsBefore (candidate chosen : ExecutionJob) : Bool :=
  candidate.updatedAt < chosen.updatedAt ||
    (candidate.updatedAt == chosen.updatedAt && candidate.createdAt < chosen.createdAt) ||
    (candidate.updatedAt == chosen.updatedAt && candidate.createdAt == chosen.createdAt &&
      candidate.id < chosen.id)

/-- One iteration of the scan of `ClaimNextExecutionJob`: keep the better of the chosen job and a
stored job in one of the wanted states. -/
def preferClaim (fromStates : List JobState) (chosen : Option ExecutionJob)
    (job : ExecutionJob) : Option ExecutionJob :=
  if fromStates.contains job.state then
    match chosen with
    | none => some job
    | some best => if claimsBefore job best then some job else some best
  else chosen

/-- The scan of `ClaimNextExecutionJob` over the stored jobs. -/
def nextClaim (fromStates : List JobState) (jobs : List ExecutionJob) : Option ExecutionJob :=
  jobs.foldl (preferClaim fromStates) none

/-- The job, claimed. -/
def ExecutionJob.claimed (job : ExecutionJob) (toState : JobState) (now : Time) : ExecutionJob :=
  { job with state := toState, updatedAt := now }

/-- `Store.ClaimNextExecutionJob`: the first job to be claimed, as it is stored then. -/
def claimNextExecutionJob (fromStates : List JobState) (toState : JobState) (now : Time) :
    StoreM ExecutionJob :=
  .action .claimNextExecutionJob fun s =>
    match nextClaim fromStates s.executionJobs.values with
    | none => (.error (.notFound ""), s)
    | some job => (.ok (job.claimed toState now), s.setJob (job.claimed toState now))

/-- The error of a job that `RequeueStaleExecutionJobs` rewrites: a blank message leaves it. -/
def requeueError (errorMessage : String) (job : ExecutionJob) : String :=
  if trimSpace errorMessage ≠ "" then trimSpace errorMessage else job.error

/-- The rewrite of one job in `RequeueStaleExecutionJobs`. `staleBefore` is an offset of a clock
reading and may lie before the zero time. -/
def requeueIfStale (fromState toState : JobState) (staleBefore : ℤ) (now : Time)
    (errorMessage : String) (job : ExecutionJob) : ExecutionJob :=
  if job.state ≠ fromState then job
  else if (job.updatedAt : ℤ) > staleBefore then job
  else
    { job with
      state := toState
      targetRegion := ""
      error := requeueError errorMessage job
      updatedAt := now }

theorem key_requeueIfStale (fromState toState : JobState) (staleBefore : ℤ) (now : Time)
    (errorMessage : String) (job : ExecutionJob) :
    Keyed.key (requeueIfStale fromState toState staleBefore now errorMessage job) =
      Keyed.key job := by
  unfold requeueIfStale
  split_ifs <;> rfl

/-- The store after every stale job was requeued. -/
def Store.requeueStale (s : Store) (fromState toState : JobState) (staleBefore : ℤ) (now : Time)
    (errorMessage : String) : Store :=
  { s with
    executionJobs := s.executionJobs.map
      (requeueIfStale fromState toState staleBefore now errorMessage)
      (key_requeueIfStale fromState toState staleBefore now errorMessage) }

/-- `Store.RequeueStaleExecutionJobs`; the count of the requeued jobs is returned. -/
def requeueStaleExecutionJobs (fromState toState : JobState) (staleBefore : ℤ) (now : Time)
    (errorMessage : String) : StoreM ℕ :=
  .action .requeueStaleExecutionJobs fun s =>
    (.ok (s.executionJobs.values.countP fun job =>
        job.state == fromState && decide ((job.updatedAt : ℤ) ≤ staleBefore)),
      s.requeueStale fromState toState staleBefore now errorMessage)

/-- Write an attempt under its own identifier. -/
def Store.setAttempt (s : Store) (attempt : Attempt) : Store :=
  { s with attempts := s.attempts.put attempt }

/-- `Store.PutAttempt`. -/
def putAttempt (attempt : Attempt) : StoreM Unit :=
  .modify (.putAttempt attempt.id) (·.setAttempt attempt)

/-- `Store.UpdateAttempt`: the whole record is overwritten, whatever is stored. -/
def updateAttempt (attempt : Attempt) : StoreM Unit :=
  .modify (.updateAttempt attempt.id) (·.setAttempt attempt)

/-- `Store.GetAttempt`. -/
def getAttempt (attemptID : String) : StoreM Attempt :=
  .query .getAttempt fun s => find "attempt" s.attempts attemptID

/-- `Store.ListExpiredAttempts`: live attempts with a lease that has passed. -/
def Store.listExpiredAttempts (s : Store) (before : Time) : List Attempt :=
  s.attempts.values.filter fun attempt =>
    !attempt.state.terminal && attempt.leaseExpiresAt != 0 &&
      decide (attempt.leaseExpiresAt ≤ before)

/-- `Store.PutCostRecord`. -/
def putCostRecord (record : CostRecord) : StoreM Unit :=
  .modify .putCostRecord fun s =>
    { s with costRecords := s.costRecords.put record }

namespace Store

variable (s : Store) (job : ExecutionJob) (attempt : Attempt)

@[simp]
theorem getJob_setJob (k : String) :
    (s.setJob job).executionJobs.get k =
      if k = job.id then some job else s.executionJobs.get k :=
  Table.get_put _ _ _

@[simp]
theorem attempts_setJob : (s.setJob job).attempts = s.attempts := rfl

@[simp]
theorem accepted_setJob : (s.setJob job).accepted = s.accepted := rfl

@[simp]
theorem getAttempt_setAttempt (k : String) :
    (s.setAttempt attempt).attempts.get k =
      if k = attempt.id then some attempt else s.attempts.get k :=
  Table.get_put _ _ _

@[simp]
theorem executionJobs_setAttempt :
    (s.setAttempt attempt).executionJobs = s.executionJobs := rfl

@[simp]
theorem accepted_setAttempt : (s.setAttempt attempt).accepted = s.accepted := rfl

@[simp]
theorem getJob_requeueStale (fromState toState : JobState) (staleBefore : ℤ) (now : Time)
    (errorMessage k : String) :
    (s.requeueStale fromState toState staleBefore now errorMessage).executionJobs.get k =
      (s.executionJobs.get k).map
        (requeueIfStale fromState toState staleBefore now errorMessage) :=
  Table.get_map _ _ (key_requeueIfStale _ _ _ _ _) _

theorem mem_listExpiredAttempts_iff (before : Time) :
    attempt ∈ s.listExpiredAttempts before ↔
      s.attempts.get attempt.id = some attempt ∧ attempt.state.terminal = false ∧
        attempt.leaseExpiresAt ≠ 0 ∧ attempt.leaseExpiresAt ≤ before := by
  have hvalues : attempt ∈ s.attempts.values ↔ s.attempts.get attempt.id = some attempt :=
    Table.mem_values _ _
  simp [listExpiredAttempts, hvalues, and_assoc]

end Store

/-! ## Uninterrupted runs of the calls -/

section Run

variable (s : Store)

@[simp]
theorem run_getArtifact (digest : String) :
    (getArtifact digest).run s = (find "artifact" s.artifacts digest, s) := rfl

@[simp]
theorem run_getFunctionVersion (versionID : String) :
    (getFunctionVersion versionID).run s =
      (find "function version" s.functions versionID, s) := rfl

@[simp]
theorem run_getExecutionJob (jobID : String) :
    (getExecutionJob jobID).run s = (find "job" s.executionJobs jobID, s) := rfl

@[simp]
theorem run_updateExecutionJob (job : ExecutionJob) :
    (updateExecutionJob job).run s = (.ok (), s.setJob job) := rfl

@[simp]
theorem run_getAttempt (attemptID : String) :
    (getAttempt attemptID).run s = (find "attempt" s.attempts attemptID, s) := rfl

@[simp]
theorem run_putAttempt (attempt : Attempt) :
    (putAttempt attempt).run s = (.ok (), s.setAttempt attempt) := rfl

@[simp]
theorem run_updateAttempt (attempt : Attempt) :
    (updateAttempt attempt).run s = (.ok (), s.setAttempt attempt) := rfl

end Run

namespace Store

theorem jobID_of_get {s : Store} {k : String} {job : ExecutionJob}
    (h : s.executionJobs.get k = some job) : job.id = k :=
  Table.key_of_get h

theorem attemptID_of_get {s : Store} {k : String} {attempt : Attempt}
    (h : s.attempts.get k = some attempt) : attempt.id = k :=
  Table.key_of_get h

end Store

theorem returns_getExecutionJob (jobID : String) :
    (getExecutionJob jobID).Returns fun job => job.id = jobID :=
  Prog.returns_query fun _ _ h => Store.jobID_of_get (find_eq_ok_iff.mp h)

theorem returns_getAttempt (attemptID : String) :
    (getAttempt attemptID).Returns fun attempt => attempt.id = attemptID :=
  Prog.returns_query fun _ _ h => Store.attemptID_of_get (find_eq_ok_iff.mp h)

/-- `s` and `s'` agree on jobs, attempts and the history of accepted assignments. -/
structure Store.SameView (s s' : Store) : Prop where
  jobs : ∀ k, s'.executionJobs.get k = s.executionJobs.get k
  attempts : ∀ k, s'.attempts.get k = s.attempts.get k
  accepted : s'.accepted = s.accepted

theorem Store.SameView.refl (s : Store) : s.SameView s := ⟨fun _ => rfl, fun _ => rfl, rfl⟩

theorem Store.SameView.trans {s t u : Store} (hst : s.SameView t) (htu : t.SameView u) :
    s.SameView u where
  jobs k := (htu.jobs k).trans (hst.jobs k)
  attempts k := (htu.attempts k).trans (hst.attempts k)
  accepted := htu.accepted.trans hst.accepted

/-- What jobs are claimed by, most important first: oldest update, oldest creation, least
identifier. -/
def ExecutionJob.claimKey (job : ExecutionJob) : Time ×ₗ Time ×ₗ String :=
  toLex (job.updatedAt, toLex (job.createdAt, job.id))

theorem claimsBefore_eq_true_iff (a b : ExecutionJob) :
    claimsBefore a b = true ↔ a.claimKey < b.claimKey := by
  simp only [claimsBefore, ExecutionJob.claimKey, Prod.Lex.toLex_lt_toLex, Bool.or_eq_true,
    Bool.and_eq_true, decide_eq_true_eq, beq_iff_eq]
  tauto

theorem nextClaim_eq_argmin (fromStates : List JobState) (jobs : List ExecutionJob) :
    nextClaim fromStates jobs =
      (jobs.filter fun job => fromStates.contains job.state).argmin ExecutionJob.claimKey := by
  unfold nextClaim List.argmin
  rw [List.foldl_filter]
  congr 1
  funext chosen job
  unfold preferClaim
  split_ifs with hstate
  · cases chosen with
    | none => rfl
    | some best => simp only [List.argAux, claimsBefore_eq_true_iff]
  · rfl

theorem mem_filter_state {fromStates : List JobState} {jobs : List ExecutionJob}
    {job : ExecutionJob} :
    job ∈ jobs.filter (fun job => fromStates.contains job.state) ↔
      job ∈ jobs ∧ job.state ∈ fromStates := by
  rw [List.mem_filter, List.contains_iff_mem]

theorem nextClaim_mem {fromStates : List JobState} {jobs : List ExecutionJob}
    {job : ExecutionJob} (h : nextClaim fromStates jobs = some job) :
    job ∈ jobs ∧ job.state ∈ fromStates := by
  rw [nextClaim_eq_argmin] at h
  exact mem_filter_state.mp (List.argmin_mem h)

theorem nextClaim_ne_none {fromStates : List JobState} {jobs : List ExecutionJob}
    {job : ExecutionJob} (hmem : job ∈ jobs) (hstate : job.state ∈ fromStates) :
    nextClaim fromStates jobs ≠ none := by
  rw [nextClaim_eq_argmin, ne_eq, List.argmin_eq_none]
  exact List.ne_nil_of_mem (mem_filter_state.mpr ⟨hmem, hstate⟩)

end Lecrev

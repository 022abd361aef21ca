import Lecrev.Build.Request
import Lecrev.Store.Memory

/-!
# The build service

`internal/build`: a deploy request becomes a function version in state `building` and a build job;
`ProcessBuildJob` turns the job's source into an immutable artifact, publishes the version as
`ready`, and gives it a default HTTP trigger. The job runs in the request, or the job's identifier
goes to a build bus and a worker of the target region runs it.

What the service gets from outside are the fields of a `Builder`: the bus, the warm preparer and the
replicator, the commands of `prepareBuildOutput` (`git`, `npm`, the file system) with the lines they
log, SHA-256, JSON and URL parsing. The clock, `uuid.NewString` and `crypto/rand` are the fields of
a `BuildRun`.
-/

namespace Lecrev

/-! ## What the service depends on -/

/-- `nextStaticAsset`: a file of a website. -/
structure NextStaticAsset where
  path : String
  data : Bytes

/-- `preparedBuildOutput`; of the site only the static assets are used. -/
structure PreparedBuildOutput where
  bundle : Bytes
  startup : Bytes
  metadata : List (String × String)
  entrypoint : String
  site : Option (List NextStaticAsset)

/-- `ArtifactReplicationRequest`. -/
structure ArtifactReplicationRequest where
  bundleKey : String
  bundle : Bytes
  startupKey : String
  startup : Bytes
  regions : List String

/-- `s` and `s'` agree on the tables that a build reads and writes, and on the idempotency
records. -/
structure Store.SameBuilds (s s' : Store) : Prop where
  idempotency : s'.idempotency = s.idempotency
  functions : s'.functions = s.functions
  buildJobs : s'.buildJobs = s.buildJobs
  artifacts : s'.artifacts = s.artifacts
  httpTriggers : s'.httpTriggers = s.httpTriggers
  objects : s'.objects = s.objects

/-- `WarmPreparer`: it talks to the hosts of a region, and leaves builds alone. -/
structure WarmPreparer where
  prepareFunctionVersion : FunctionVersion → StoreM Unit
  calls : ∀ version,
    (prepareFunctionVersion version).Keeps (fun _ => True) fun _ => Store.SameBuilds

/-- The configuration of a `build.Service`, and what it calls outside the repository. -/
structure Builder where
  /-- `PublishBuild`, by region and build job, if there is a bus. -/
  bus : Option (String → String → Except Err Unit) := none
  warmer : Option WarmPreparer := none
  /-- `Replicate`, if there is a replicator. -/
  replica : Option (ArtifactReplicationRequest → Except Err (List (String × Time))) := none
  maxActiveBuildJobsPerProject : ℤ := 20
  /-- `prepareBuildOutput`, with the lines it logs. -/
  prepareBuildOutput : DeployRequest → List String × Except Err PreparedBuildOutput
  encodeWebsiteManifest : String → String → String → Time → Except Err Bytes
  /-- The SHA-256 of a bundle, in hexadecimal. -/
  digest : Bytes → String
  /-- `idempotency.Hash` of a deploy request without its key. -/
  hash : DeployRequest → Except Err String
  /-- `time.Time.Format(time.RFC3339)`. -/
  rfc3339 : Time → String
  /-- A URL without its user information, when `url.Parse` accepts it. -/
  withoutUser : String → Option String

/-- The identifiers, clock readings and tokens of one run of the service. -/
structure BuildRun where
  versionID : String
  buildJobID : String
  clock : ℕ → Time
  /-- The clock readings of the log lines. -/
  stamp : ℕ → Time
  /-- `generateHTTPTriggerToken`. -/
  token : ℕ → Except Err String

/-- The key of the logs of a build. -/
def buildLogsKey (buildJobID : String) : String := "builds/" ++ buildJobID ++ "/logs.txt"

/-- The key of the manifest of a website. -/
def siteManifestKey (digest : String) : String := "artifacts/" ++ digest ++ "/site-manifest.json"

/-- What the keys of the assets of a website start with. -/
def siteAssetsPrefix (digest : String) : String := "sites/" ++ digest ++ "/assets"

/-- `SiteAssetObjectKey`. -/
def siteAssetObjectKey (digest assetPath : String) : String :=
  if assetPath = "" ∨ assetPath = "/" then siteAssetsPrefix digest ++ "/index.html"
  else if assetPath.toList.head? = some '/' then siteAssetsPrefix digest ++ assetPath
  else siteAssetsPrefix digest ++ "/" ++ assetPath

/-- The key of a bundle. -/
def bundleKey (digest : String) : String := "artifacts/" ++ digest ++ "/bundle.tgz"

/-- The key of the startup metadata of a bundle. -/
def startupKey (digest : String) : String := "artifacts/" ++ digest ++ "/startup.json"

/-- `buildRecorder`: the log so far, and the object that every update writes. -/
structure Recorder where
  onUpdate : Option String
  text : String := ""
  /-- The lines so far. -/
  lines : ℕ := 0

/-- `buildRecorder.Printf`, for formats that do not end in a newline. An update that fails is
ignored. -/
def Recorder.printf (b : Builder) (run : BuildRun) (recorder : Recorder) (line : String) :
    StoreM Recorder := do
  let recorder := { recorder with
    text := recorder.text ++ "[" ++ b.rfc3339 (run.stamp recorder.lines) ++ "] " ++ line ++ "\n"
    lines := recorder.lines + 1 }
  match recorder.onUpdate with
  | none => pure recorder
  | some key =>
    let _ ← (putObject key (textBytes recorder.text)).result
    pure recorder

/-- Several lines, one after the other. -/
def Recorder.printAll (b : Builder) (run : BuildRun) (recorder : Recorder) :
    List String → StoreM Recorder
  | [] => pure recorder
  | line :: lines => do
    let recorder ← recorder.printf b run line
    recorder.printAll b run lines

/-- `archiveBuildLogs`. -/
def archiveBuildLogs (buildJob : BuildJob) (recorder : Recorder) : StoreM BuildJob := do
  putObject (buildLogsKey buildJob.id) (textBytes recorder.text)
  pure { buildJob with logsKey := buildLogsKey buildJob.id }

/-! ## Metadata of a build -/

/-- `deploymentEnvironment`: from the metadata or the labels. -/
def deploymentEnvironment (source : DeploySource) : String :=
  if trimSpace (lookupText source.metadata "environment") ≠ "" then
    trimSpace (lookupText source.metadata "environment")
  else trimSpace (lookupText source.labels "environment")

/-- `sanitizeGitURL`: the URL without its credentials. -/
def sanitizeGitURL (b : Builder) (raw : String) : String :=
  if trimSpace raw = "" then "" else (b.withoutUser (trimSpace raw)).getD (trimSpace raw)

/-- `sanitizeDeployRequestForStorage`. -/
def sanitizeDeployRequestForStorage (b : Builder) (req : DeployRequest) : DeployRequest :=
  { req with source := { req.source with gitURL := sanitizeGitURL b req.source.gitURL } }

/-- Write an entry of a map of strings. -/
def setEntry (m : List (String × String)) (key value : String) : List (String × String) :=
  m.filter (fun entry => entry.1 != key) ++ [(key, value)]

/-- Write an entry of a map of strings, unless its value is empty. -/
def setUnlessEmpty (m : List (String × String)) (key value : String) : List (String × String) :=
  if value = "" then m else setEntry m key value

/-- `buildMetadataForRequest`. -/
def buildMetadataForRequest (b : Builder) (req : DeployRequest) : List (String × String) :=
  let metadata := setUnlessEmpty [] "environment" (deploymentEnvironment req.source)
  let metadata := setUnlessEmpty metadata "branch" (trimSpace req.source.gitRef)
  if trimSpace req.source.gitURL = "" then metadata
  else setEntry metadata "gitUrl" (sanitizeGitURL b (trimSpace req.source.gitURL))

/-- `mergeBuildMetadata`. -/
def mergeBuildMetadata (base extra : List (String × String)) : List (String × String) :=
  extra.foldl (fun merged entry =>
    if trimSpace entry.2 = "" then merged else setEntry merged entry.1 entry.2) base

/-- `pickBuildRegion`: the first region of the request. -/
def pickBuildRegion (targetRegions : List String) : String :=
  targetRegions.head?.getD defaultPrimary

/-- `markBuildFailed`: the version and the build job are stored as failed, and the error is
returned. -/
def markBuildFailed (now : Time) (version : FunctionVersion) (buildJob : BuildJob) (e : Err) :
    StoreM Unit := do
  putFunctionVersion { version with state := .failed }
  putBuildJob { buildJob with state := .failed, error := e.text, updatedAt := now }
  .throw e

/-- `markBuildFailedWithLogs`. -/
def markBuildFailedWithLogs (b : Builder) (run : BuildRun) (version : FunctionVersion)
    (buildJob : BuildJob) (recorder : Recorder) (e : Err) : StoreM Unit := do
  let recorder ← recorder.printf b run ("build job " ++ buildJob.id ++ " failed: " ++ e.text)
  match ← (archiveBuildLogs buildJob recorder).result with
  | .ok archived => markBuildFailed (run.clock 9) version archived e
  | .error archiveErr =>
    markBuildFailed (run.clock 9) version buildJob
      (.wrapped "" e (" (build log archival failed: " ++ archiveErr.text ++ ")"))

/-- Go on with the value of a program, or handle its error. -/
def orFail {α : Type} (p : StoreM α) (fail : Err → StoreM Unit) (next : α → StoreM Unit) :
    StoreM Unit := do
  match ← p.result with
  | .ok a => next a
  | .error e => fail e

/-! ## Processing a build job -/

/-- The trigger that every version gets. -/
def defaultHTTPTrigger (token : String) (version : FunctionVersion) (now : Time) : HTTPTrigger where
  token := token
  projectID := version.projectID
  functionVersionID := version.id
  description := "default public function url"
  authMode := .none
  enabled := true
  createdAt := now

/-- The loop of `ensureDefaultHTTPTrigger`: a token that is taken is drawn again, as long as there
are attempts left. -/
def createDefaultHTTPTrigger (b : Builder) (run : BuildRun) (version : FunctionVersion)
    (recorder : Recorder) : ℕ → StoreM Recorder
  | 0 =>
    .throw (.other ("create default http trigger for function version " ++ version.id ++
      ": exhausted token retries"))
  | left + 1 =>
    match run.token left with
    | .error e => .throw (.wrapped "generate default http trigger token: " e "")
    | .ok token => do
      match ← (putHTTPTrigger (defaultHTTPTrigger token version (run.clock (3 + left)))).result with
      | .ok () =>
        recorder.printf b run
          ("created default public http trigger for function version " ++ version.id)
      | .error (.alreadyExists _) => createDefaultHTTPTrigger b run version recorder left
      | .error e =>
        .throw (.wrapped
          ("create default http trigger for function version " ++ version.id ++ ": ") e "")

/-- `ensureDefaultHTTPTrigger`. -/
def ensureDefaultHTTPTrigger (b : Builder) (run : BuildRun) (version : FunctionVersion)
    (recorder : Recorder) : StoreM Recorder := do
  match ← (listHTTPTriggersByFunctionVersion version.id).result with
  | .error e =>
    .throw (.wrapped ("list http triggers for function version " ++ version.id ++ ": ") e "")
  | .ok [] => createDefaultHTTPTrigger b run version recorder 3
  | .ok (_ :: _) =>
    recorder.printf b run
      ("default public http trigger already exists for function version " ++ version.id)

/-- The warm preparation at the end of `ProcessBuildJob`; an error is only logged. -/
def warmVersion (b : Builder) (run : BuildRun) (version : FunctionVersion) (recorder : Recorder) :
    StoreM Recorder :=
  match b.warmer with
  | none => pure recorder
  | some warmer =>
    if version.envRefs = [] then do
      match ← (warmer.prepareFunctionVersion version).result with
      | .ok () =>
        recorder.printf b run
          ("function warm preparation ready for function version " ++ version.id)
      | .error e =>
        recorder.printf b run
          ("warm preparation deferred for function version " ++ version.id ++ ": " ++ e.text)
    else
      recorder.printf b run ("warm preparation skipped for function version " ++ version.id ++
        " because envRefs are configured")

/-- The end of `ProcessBuildJob`: archive the log and store the job as succeeded. -/
def completeBuild (b : Builder) (run : BuildRun) (buildJob : BuildJob) (recorder : Recorder) :
    StoreM Unit := do
  let recorder ← recorder.printf b run ("build job " ++ buildJob.id ++ " completed successfully")
  let succeeded (buildJob : BuildJob) : BuildJob :=
    { buildJob with state := .succeeded, error := "", updatedAt := run.clock 8 }
  match ← (archiveBuildLogs buildJob recorder).result with
  | .ok archived => putBuildJob (succeeded archived)
  | .error e =>
    let _ ← recorder.printf b run ("build log archival failed: " ++ e.text)
    putBuildJob (succeeded buildJob)

/-- `ProcessBuildJob` from the stored artifact on: the version becomes ready. -/
def publishVersion (b : Builder) (run : BuildRun) (version : FunctionVersion) (buildJob : BuildJob)
    (recorder : Recorder) (digest entrypoint : String) : StoreM Unit :=
  let version :=
    { version with artifactDigest := digest, entrypoint := entrypoint, state := .ready }
  let fail := markBuildFailedWithLogs b run version buildJob recorder
  orFail (putFunctionVersion version) fail fun _ =>
  orFail (ensureDefaultHTTPTrigger b run version recorder) fail fun recorder => do
    let recorder ← warmVersion b run version recorder
    completeBuild b run buildJob recorder

/-- The loop of `ProcessBuildJob` over the static assets of a site. -/
def uploadAssets (digest : String) : List NextStaticAsset → StoreM Unit
  | [] => pure ()
  | asset :: assets => do
    putObject (siteAssetObjectKey digest asset.path) asset.data
    uploadAssets digest assets

/-- The upload of a site: its assets, then its manifest. -/
def uploadSite (b : Builder) (versionID digest entrypoint : String) (now : Time)
    (assets : List NextStaticAsset) : StoreM Unit := do
  uploadAssets digest assets
  let manifest ← .ret (b.encodeWebsiteManifest versionID (siteAssetsPrefix digest) entrypoint now)
  putObject (siteManifestKey digest) manifest

/-- The regions that hold the artifact, and the word that the log has for it. -/
def replicate (b : Builder) (now : Time) (req : ArtifactReplicationRequest) :
    Except Err (List (String × Time)) × String :=
  match b.replica with
  | some replica => (replica req, "replicated artifact into region ")
  | none => (.ok (req.regions.map fun region => (region, now)),
      "marked artifact available in region ")

/-- `ProcessBuildJob` from the prepared output on: upload the bundle and the site, and store the
artifact. -/
def uploadArtifact (b : Builder) (run : BuildRun) (req : DeployRequest) (version : FunctionVersion)
    (buildJob : BuildJob) (recorder : Recorder) (prepared : PreparedBuildOutput) :
    StoreM Unit := do
  let fail := markBuildFailedWithLogs b run version buildJob
  let digest := b.digest prepared.bundle
  let recorder ← recorder.printf b run ("prepared immutable bundle digest=" ++ digest ++
    " sizeBytes=" ++ toString prepared.bundle.length)
  orFail (putObject (bundleKey digest) prepared.bundle) (fail recorder) fun _ =>
  orFail (putObject (startupKey digest) prepared.startup) (fail recorder) fun _ => do
    let recorder ← recorder.printf b run ("uploaded bundle to " ++ bundleKey digest ++
      " and startup metadata to " ++ startupKey digest)
    let now := run.clock 2
    let (replicated, word) := replicate b now
      { bundleKey := bundleKey digest
        bundle := prepared.bundle
        startupKey := startupKey digest
        startup := prepared.startup
        regions := req.regions }
    orFail (.ret replicated) (fail recorder) fun regions => do
      let recorder ← recorder.printAll b run (req.regions.map (word ++ ·))
      let stored (recorder : Recorder) : StoreM Unit :=
        orFail
          (putArtifact
            { digest
              sizeBytes := prepared.bundle.length
              bundleKey := bundleKey digest
              startupKey := startupKey digest
              regions
              createdAt := now })
          (fail recorder) fun _ =>
        publishVersion b run version buildJob recorder digest prepared.entrypoint
      match prepared.site with
      | none => stored recorder
      | some assets =>
        orFail (uploadSite b version.id digest prepared.entrypoint now assets)
          (fail recorder) fun _ => do
        let recorder ← recorder.printAll b run
          ["uploaded next.js site manifest to " ++ siteManifestKey digest,
            "uploaded " ++ toString assets.length ++ " next.js static assets to " ++
              siteAssetsPrefix digest]
        stored recorder

/-- The largest bundle. -/
def maxArtifactSizeBytes : ℕ := 67108864

/-- `ProcessBuildJob` from the first line of the log on: prepare the output of the build. -/
def prepareVersion (b : Builder) (run : BuildRun) (req : DeployRequest) (version : FunctionVersion)
    (buildJob : BuildJob) : StoreM Unit := do
  let recorder : Recorder :=
    { onUpdate := if trimSpace buildJob.logsKey = "" then none else some buildJob.logsKey }
  let recorder ← recorder.printAll b run
    ["build job " ++ buildJob.id ++ " started for function version " ++ version.id ++
        " in region " ++ buildJob.targetRegion,
      "source type=" ++ req.source.type.text ++ " runtime=" ++ req.runtime ++ " entrypoint=" ++
        req.entrypoint]
  let (lines, prepared) := b.prepareBuildOutput req
  let recorder ← recorder.printAll b run lines
  orFail (.ret prepared) (markBuildFailedWithLogs b run version buildJob recorder) fun prepared =>
    let buildJob :=
      { buildJob with metadata := mergeBuildMetadata buildJob.metadata prepared.metadata }
    if prepared.bundle.length > maxArtifactSizeBytes then
      markBuildFailedWithLogs b run version buildJob recorder
        (.other ("artifact size " ++ toString prepared.bundle.length ++ " exceeds limit of " ++
          toString maxArtifactSizeBytes ++ " bytes"))
    else uploadArtifact b run req version buildJob recorder prepared

/-- The build job while it runs. -/
def BuildJob.started (buildJob : BuildJob) (request : DeployRequest) (now : Time) : BuildJob :=
  { buildJob with
    request := request
    state := .running
    error := ""
    logsKey :=
      if trimSpace buildJob.logsKey = "" then buildLogsKey buildJob.id else buildJob.logsKey
    updatedAt := now }

/-- The version while its build job runs. -/
def FunctionVersion.rebuilding (version : FunctionVersion) : FunctionVersion :=
  { version with state := .building, artifactDigest := "", entrypoint := "" }

/-- `ProcessBuildJob`. The only guard against a second run is the state `succeeded`. -/
def processBuildJob (b : Builder) (run : BuildRun) (buildJobID : String) : StoreM Unit := do
  let buildJob ← getBuildJob buildJobID
  if buildJob.state = .succeeded then pure ()
  else
    let version ← getFunctionVersion buildJob.functionVersionID
    match normalizeDeployRequest buildJob.request with
    | .error e => markBuildFailed (run.clock 9) version buildJob e
    | .ok req =>
      let buildJob := buildJob.started (sanitizeDeployRequestForStorage b req) (run.clock 1)
      -- the credentials of the request are gone from the store, but the build still has them
      putFunctionVersion version.rebuilding
      putBuildJob buildJob
      prepareVersion b run req version.rebuilding buildJob

/-! ## Creating a function version -/

/-- `enforceBuildQuota`. -/
def enforceBuildQuota (b : Builder) (projectID : String) : StoreM Unit := do
  if b.maxActiveBuildJobsPerProject ≤ 0 then pure ()
  else
    let count ← countBuildJobsByProjectStates projectID [.queued, .running]
    if (count : ℤ) ≥ b.maxActiveBuildJobsPerProject then
      .throw (.projectBuildQuota (": project " ++ projectID ++ " already has " ++
        toString count ++ " active build jobs (limit " ++
        toString b.maxActiveBuildJobsPerProject ++ ")"))
    else pure ()

/-- The version that `initializeBuild` creates. -/
def newFunctionVersion (run : BuildRun) (req : DeployRequest) : FunctionVersion where
  id := run.versionID
  projectID := req.projectID
  name := req.name
  runtime := req.runtime
  entrypoint := req.entrypoint
  memoryMB := req.memoryMB
  timeoutSec := req.timeoutSec
  networkPolicy := req.networkPolicy
  regions := req.regions
  envVars := req.envVars
  envRefs := req.envRefs
  maxRetries := req.maxRetries
  buildJobID := run.buildJobID
  sourceType := req.source.type
  artifactDigest := ""
  state := .building
  createdAt := run.clock 0

/-- The build job that `initializeBuild` creates. The request is stored as it is. -/
def newBuildJob (b : Builder) (run : BuildRun) (req : DeployRequest) : BuildJob where
  id := run.buildJobID
  functionVersionID := run.versionID
  targetRegion := pickBuildRegion req.regions
  metadata := buildMetadataForRequest b req
  state := .queued
  logsKey := buildLogsKey run.buildJobID
  request := req
  createdAt := run.clock 0
  updatedAt := run.clock 0

/-- `initializeBuild`: the version and the build are stored. -/
def initializeBuild (b : Builder) (run : BuildRun) (req : DeployRequest) :
    StoreM (FunctionVersion × BuildJob) := do
  let version := newFunctionVersion run req
  putFunctionVersion version
  let buildJob := newBuildJob b run req
  putBuildJob buildJob
  putObject buildJob.logsKey (textBytes ("[" ++ b.rfc3339 (run.clock 0) ++ "] build job " ++
    buildJob.id ++ " queued for function version " ++ version.id ++ " in region " ++
    buildJob.targetRegion ++ "\n"))
  pure (version, buildJob)

/-- The unexported `createFunctionVersion`, which knows of no key. -/
def createFunctionVersion (b : Builder) (run : BuildRun) (req : DeployRequest) :
    StoreM FunctionVersion := do
  let req ← .ret (normalizeDeployRequest req)
  enforceBuildQuota b req.projectID
  let (version, buildJob) ← initializeBuild b run req
  match b.bus with
  | some publishBuild =>
    match ← (.query .publish fun _ =>
        publishBuild buildJob.targetRegion buildJob.id : StoreM Unit).result with
    | .ok () => pure version
    | .error e =>
      -- the caller sees the bare error, the build job the wrapped one
      let _ ← (markBuildFailed (run.clock 9) version buildJob
        (.wrapped "publish build job: " e "")).result
      .throw e
  | none =>
    processBuildJob b run buildJob.id
    getFunctionVersion version.id

/-- No call of the program touches an idempotency record. -/
structure LeavesRecords {α : Type} (p : StoreM α) : Prop where
  keeps : p.Keeps (fun _ => True) fun _ s s' => s'.idempotency = s.idempotency

/-! ## A sample build service -/

namespace BuildSample

/-- The SHA-256 of the bundle of the samples and of the empty one. -/
def digest (bundle : Bytes) : String :=
  if bundle = [1] then "4bf5122f344554c53bde2ebb8cd2b7e3d1600ad631c385a5d7cce23c7785459a"
  else "e3b0c44298fc1c149afbf4c8996fb92427ae41e4649b934ca495991b7852b855"

def builder : Builder where
  prepareBuildOutput _ := ([], .ok
    { bundle := [1], startup := [2], metadata := [], entrypoint := "index.js", site := none })
  encodeWebsiteManifest _ _ _ _ := .ok []
  digest := digest
  hash _ := .ok "deploy"
  rfc3339 _ := ""
  withoutUser := some

def run : BuildRun where
  versionID := "version"
  buildJobID := "build"
  clock _ := 1
  stamp _ := 1
  token _ := .ok "token"

def request : DeployRequest where
  projectID := "project"
  name := "hello"
  entrypoint := "index.js"
  regions := ["ap-south-1"]
  source := { type := .bundle, inlineFiles := [("index.js", "")] }

end BuildSample

end Lecrev

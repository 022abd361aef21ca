import Lecrev.Build.Service

/-!
# What a build writes

Every call of the build service is a read, writes one version, one build job, one artifact or one
object, or touches none of these. A `BuildScope` says which records and objects may be written, and
`Within` that a program stays inside a scope; there is one lemma for each function of the service.
What the properties need to know about the calls of a build is read off a scope.
-/

namespace Lecrev

/-- Which records and objects a program may write. -/
structure BuildScope where
  version : FunctionVersion → Prop
  job : BuildJob → Prop
  artifact : Artifact → Prop
  object : String → Bytes → Prop

namespace BuildScope

/-- Anything may be written. -/
def all : BuildScope := ⟨fun _ => True, fun _ => True, fun _ => True, fun _ _ => True⟩

/-- What a call does to the tables of a build. -/
inductive Write (S : BuildScope) : StoreCall → Store → Store → Prop
  | version {s : Store} (v : FunctionVersion) (h : S.version v) :
    S.Write .putFunctionVersion s { s with functions := s.functions.put v }
  | job {s : Store} (j : BuildJob) (h : S.job j) :
    S.Write .putBuildJob s { s with buildJobs := s.buildJobs.put j }
  | artifact {s : Store} (a : Artifact) (h : S.artifact a) :
    S.Write .putArtifact s { s with artifacts := s.artifacts.put a }
  | object {s : Store} (key : String) (data : Bytes) (h : S.object key data) :
    S.Write .putObject s { s with objects := s.objects.insert key data }
  /-- A read, a trigger, or a call that is not about builds. -/
  | other {l : StoreCall} {s s' : Store} (hfunctions : s'.functions = s.functions)
      (hbuildJobs : s'.buildJobs = s.buildJobs) (hartifacts : s'.artifacts = s.artifacts)
      (hobjects : s'.objects = s.objects) (hidempotency : s'.idempotency = s.idempotency) :
    S.Write l s s'

theorem Write.refl (S : BuildScope) (l : StoreCall) (s : Store) : S.Write l s s :=
  .other rfl rfl rfl rfl rfl

theorem Write.idempotency_eq {S : BuildScope} {l : StoreCall} {s s' : Store}
    (h : S.Write l s s') : s'.idempotency = s.idempotency := by
  cases h with
  | version v _ => rfl
  | job j _ => rfl
  | artifact a _ => rfl
  | object key data _ => rfl
  | other _ _ _ _ h => exact h

theorem Write.functions_eq {S : BuildScope} {l : StoreCall} {s s' : Store} (h : S.Write l s s')
    (hl : l ≠ .putFunctionVersion) : s'.functions = s.functions := by
  cases h with
  | version v _ => exact absurd rfl hl
  | job j _ => rfl
  | artifact a _ => rfl
  | object key data _ => rfl
  | other h _ _ _ _ => exact h

end BuildScope

/-- A record of a build job that has ended. -/
structure BuildJob.Ending (buildJob j : BuildJob) : Prop where
  id : j.id = buildJob.id
  functionVersionID : j.functionVersionID = buildJob.functionVersionID
  request : j.request = buildJob.request
  metadata : j.metadata = buildJob.metadata
  state : j.state = .failed ∨ j.state = .succeeded
  logsKey : j.logsKey = buildJob.logsKey ∨ j.logsKey = buildLogsKey buildJob.id

namespace BuildScope

/-- What a failed build of a version writes is in the scope: the version as failed, the build job in
a final state, and the log. -/
structure Covers (S : BuildScope) (version : FunctionVersion) (buildJob : BuildJob) : Prop where
  failed : ∀ v : FunctionVersion, v.id = version.id → v.projectID = version.projectID →
    v.state = .failed → S.version v
  job : ∀ j : BuildJob, buildJob.Ending j → S.job j
  logs : ∀ data, S.object (buildLogsKey buildJob.id) data

/-- What a successful build writes besides is in the scope, too. -/
structure CoversOutput (S : BuildScope) (version : FunctionVersion) (buildJob : BuildJob) : Prop
    extends S.Covers version buildJob where
  ready : ∀ v : FunctionVersion, v.id = version.id → v.projectID = version.projectID →
    v.state = .ready → S.version v
  artifact : ∀ a, S.artifact a
  object : ∀ key data, S.object key data

theorem coversOutput_all (version : FunctionVersion) (buildJob : BuildJob) :
    all.CoversOutput version buildJob where
  failed _ _ _ _ := trivial
  job _ _ := trivial
  logs _ := trivial
  ready _ _ _ _ := trivial
  artifact _ := trivial
  object _ _ := trivial

/-- The object that the recorder updates is in the scope. -/
def Logs (S : BuildScope) (recorder : Recorder) : Prop :=
  ∀ key, recorder.onUpdate = some key → ∀ data, S.object key data

end BuildScope

/-- The calls of a program stay inside a scope, and what it returns is in `Q`. -/
structure Within {α : Type} (S : BuildScope) (Q : α → Prop) (p : StoreM α) : Prop where
  keeps : p.Keeps (fun _ => True) S.Write
  returns : p.Returns Q

namespace Within

variable {α β : Type} {S : BuildScope} {Q : α → Prop} {R : β → Prop}

theorem bind {p : StoreM α} {f : α → StoreM β} (hp : Within S Q p)
    (hf : ∀ a, Q a → Within S R (f a)) : Within S R (p >>= f) :=
  ⟨hp.keeps.bind hp.returns fun a ha => (hf a ha).keeps,
    hp.returns.bind fun a ha => (hf a ha).returns⟩

theorem result {p : StoreM α} (hp : Within S Q p) :
    Within S (fun r => ∀ a, r = .ok a → Q a) p.result :=
  ⟨hp.keeps.result, hp.returns.result⟩

theorem pure {a : α} (h : Q a) : Within S Q (pure a) := ⟨trivial, h⟩

theorem ret (r : Except Err α) : Within S (fun _ => True) (.ret r) := ⟨trivial, Prog.returns_true _⟩

theorem throw (e : Err) : Within S Q (.throw e) := ⟨trivial, trivial⟩

theorem query (l : StoreCall) (f : Store → Except Err α) :
    Within S (fun _ => True) (.query l f) :=
  ⟨Prog.keeps_query fun s _ => .refl S l s, Prog.returns_true _⟩

theorem modify {l : StoreCall} {f : Store → Store} (h : ∀ s, S.Write l s (f s)) :
    Within S (fun _ => True) (.modify l f) :=
  ⟨Prog.keeps_modify fun s _ => ⟨trivial, h s⟩, Prog.returns_true _⟩

theorem putFunctionVersion {version : FunctionVersion} (h : S.version version) :
    Within S (fun _ => True) (putFunctionVersion version) := modify fun _ => .version version h

theorem putBuildJob {job : BuildJob} (h : S.job job) :
    Within S (fun _ => True) (putBuildJob job) := modify fun _ => .job job h

theorem putArtifact {artifact : Artifact} (h : S.artifact artifact) :
    Within S (fun _ => True) (putArtifact artifact) := modify fun _ => .artifact artifact h

theorem putObject {key : String} {data : Bytes} (h : S.object key data) :
    Within S (fun _ => True) (putObject key data) := modify fun _ => .object key data h

theorem putHTTPTrigger (trigger : HTTPTrigger) :
    Within S (fun _ => True) (putHTTPTrigger trigger) := by
  refine ⟨Prog.keeps_action fun s _ => ⟨trivial, ?_⟩, Prog.returns_true _⟩
  cases s.httpTriggers.get trigger.token with
  | none => exact .other rfl rfl rfl rfl rfl
  | some _ => exact .refl S _ s

theorem orFail {p : StoreM α} {fail : Err → StoreM Unit} {next : α → StoreM Unit}
    (hp : Within S Q p) (hfail : ∀ e, Within S (fun _ => True) (fail e))
    (hnext : ∀ a, Q a → Within S (fun _ => True) (next a)) :
    Within S (fun _ => True) (orFail p fail next) := by
  refine hp.result.bind fun r hr => ?_
  cases r with
  | ok a => exact hnext a (hr a rfl)
  | error e => exact hfail e

variable (b : Builder) (run : BuildRun) {recorder : Recorder} {version : FunctionVersion}
  {buildJob : BuildJob}

theorem printf (hlogs : S.Logs recorder) (line : String) :
    Within S S.Logs (recorder.printf b run line) := by
  unfold Recorder.printf
  cases hkey : recorder.onUpdate with
  | none => exact pure fun key h => by cases h
  | some key =>
    refine (putObject (hlogs key hkey _)).result.bind fun _ _ => pure fun key' h => ?_
    cases h
    exact hlogs key hkey

theorem printAll (hlogs : S.Logs recorder) (lines : List String) :
    Within S S.Logs (recorder.printAll b run lines) := by
  induction lines generalizing recorder with
  | nil => exact pure hlogs
  | cons line lines ih => exact (printf b run hlogs line).bind fun _ h => ih h

theorem archiveBuildLogs (h : S.Covers version buildJob) (recorder : Recorder) :
    Within S (· = { buildJob with logsKey := buildLogsKey buildJob.id })
      (archiveBuildLogs buildJob recorder) :=
  (putObject (h.logs _)).bind fun _ _ => pure rfl

theorem markBuildFailed (h : S.Covers version buildJob) (now : Time) (e : Err) :
    Within S (fun _ => True) (markBuildFailed now version buildJob e) := by
  have hversion : S.version { version with state := .failed } := h.failed _ rfl rfl rfl
  have hjob : S.job { buildJob with state := .failed, error := e.text, updatedAt := now } :=
    h.job _ ⟨rfl, rfl, rfl, rfl, .inl rfl, .inl rfl⟩
  exact (putFunctionVersion hversion).bind fun _ _ => (putBuildJob hjob).bind fun _ _ => throw e

theorem markBuildFailedWithLogs (h : S.Covers version buildJob) (hlogs : S.Logs recorder)
    (e : Err) :
    Within S (fun _ => True) (markBuildFailedWithLogs b run version buildJob recorder e) := by
  refine (printf b run hlogs _).bind fun recorder _ => ?_
  refine (archiveBuildLogs h recorder).result.bind fun r hr => ?_
  cases r with
  | ok archived =>
    obtain rfl := hr archived rfl
    -- the archived job is covered as well: its log lies at the key of the job
    have harchived : S.Covers version { buildJob with logsKey := buildLogsKey buildJob.id } :=
      ⟨h.failed, fun j hj => h.job j
        ⟨hj.id, hj.functionVersionID, hj.request, hj.metadata, hj.state,
          .inr (hj.logsKey.elim id id)⟩, h.logs⟩
    exact markBuildFailed harchived _ _
  | error e => exact markBuildFailed h _ _

theorem createDefaultHTTPTrigger (version : FunctionVersion) (hlogs : S.Logs recorder) (left : ℕ) :
    Within S S.Logs (createDefaultHTTPTrigger b run version recorder left) := by
  induction left with
  | zero => exact throw _
  | succ left ih =>
    unfold Lecrev.createDefaultHTTPTrigger
    split
    · exact throw _
    · refine (putHTTPTrigger _).result.bind fun r _ => ?_
      split
      · exact printf b run hlogs _
      · exact ih
      · exact throw _

theorem ensureDefaultHTTPTrigger (version : FunctionVersion) (hlogs : S.Logs recorder) :
    Within S S.Logs (ensureDefaultHTTPTrigger b run version recorder) := by
  refine (query _ _).result.bind fun r _ => ?_
  split
  · exact throw _
  · exact createDefaultHTTPTrigger b run version hlogs 3
  · exact printf b run hlogs _

theorem warmVersion (version : FunctionVersion) (hlogs : S.Logs recorder) :
    Within S S.Logs (warmVersion b run version recorder) := by
  unfold Lecrev.warmVersion
  split
  · exact pure hlogs
  · next warmer _ =>
    split
    · have hwarm : Within S (fun _ => True) (warmer.prepareFunctionVersion version) := by
        refine ⟨(warmer.calls version).mono fun l s s' _ h => ?_, Prog.returns_true _⟩
        exact .other h.functions h.buildJobs h.artifacts h.objects h.idempotency
      refine hwarm.result.bind fun r _ => ?_
      cases r with
      | ok _ => exact printf b run hlogs _
      | error e => exact printf b run hlogs _
    · exact printf b run hlogs _

theorem completeBuild (h : S.Covers version buildJob) (hlogs : S.Logs recorder) :
    Within S (fun _ => True) (completeBuild b run buildJob recorder) := by
  refine (printf b run hlogs _).bind fun recorder hlogs => ?_
  refine (archiveBuildLogs h recorder).result.bind fun r hr => ?_
  cases r with
  | ok archived =>
    obtain rfl := hr archived rfl
    exact putBuildJob (h.job _ ⟨rfl, rfl, rfl, rfl, .inr rfl, .inr rfl⟩)
  | error e =>
    refine (printf b run hlogs _).bind fun _ _ => ?_
    exact putBuildJob (h.job _ ⟨rfl, rfl, rfl, rfl, .inr rfl, .inl rfl⟩)

theorem finishVersion (h : S.Covers version buildJob) (hlogs : S.Logs recorder) :
    Within S (fun _ => True)
      (Lecrev.orFail (Lecrev.ensureDefaultHTTPTrigger b run version recorder)
        (Lecrev.markBuildFailedWithLogs b run version buildJob recorder) fun recorder => do
        let recorder ← Lecrev.warmVersion b run version recorder
        Lecrev.completeBuild b run buildJob recorder) := by
  refine orFail (ensureDefaultHTTPTrigger b run _ hlogs)
    (fun e => markBuildFailedWithLogs b run h hlogs e) fun recorder hlogs => ?_
  exact (warmVersion b run _ hlogs).bind fun recorder hlogs => completeBuild b run h hlogs

theorem publishVersion (h : S.CoversOutput version buildJob) (hlogs : S.Logs recorder)
    (digest entrypoint : String) :
    Within S (fun _ => True)
      (publishVersion b run version buildJob recorder digest entrypoint) := by
  have hcovers : S.Covers { version with
      artifactDigest := digest, entrypoint := entrypoint, state := .ready } buildJob :=
    ⟨h.failed, h.job, h.logs⟩
  refine orFail (putFunctionVersion (h.ready _ rfl rfl rfl))
    (fun e => markBuildFailedWithLogs b run hcovers hlogs e) fun _ _ => ?_
  exact finishVersion b run hcovers hlogs

theorem uploadAssets {digest : String} {assets : List NextStaticAsset}
    (h : ∀ asset ∈ assets, S.object (siteAssetObjectKey digest asset.path) asset.data) :
    Within S (fun _ => True) (uploadAssets digest assets) := by
  induction assets with
  | nil => exact pure trivial
  | cons asset assets ih =>
    refine (putObject (h asset List.mem_cons_self)).bind fun _ _ => ?_
    exact ih fun asset' hmem => h asset' (List.mem_cons_of_mem _ hmem)

theorem uploadSite {digest : String} {assets : List NextStaticAsset}
    (hassets : ∀ asset ∈ assets, S.object (siteAssetObjectKey digest asset.path) asset.data)
    (hmanifest : ∀ data, S.object (siteManifestKey digest) data) (versionID entrypoint : String)
    (now : Time) :
    Within S (fun _ => True) (uploadSite b versionID digest entrypoint now assets) :=
  (uploadAssets hassets).bind fun _ _ => (ret _).bind fun _ _ => putObject (hmanifest _)

theorem uploadArtifact (h : S.CoversOutput version buildJob) (hlogs : S.Logs recorder)
    (req : DeployRequest) (prepared : PreparedBuildOutput) :
    Within S (fun _ => True) (uploadArtifact b run req version buildJob recorder prepared) := by
  have hfail {recorder : Recorder} (hlogs : S.Logs recorder) (e : Err) :
      Within S (fun _ => True) (Lecrev.markBuildFailedWithLogs b run version buildJob recorder e) :=
    markBuildFailedWithLogs b run h.toCovers hlogs e
  refine (printf b run hlogs _).bind fun recorder hlogs => ?_
  refine orFail (putObject (h.object _ _)) (hfail hlogs) fun _ _ => ?_
  refine orFail (putObject (h.object _ _)) (hfail hlogs) fun _ _ => ?_
  refine (printf b run hlogs _).bind fun recorder hlogs => ?_
  refine orFail (ret _) (hfail hlogs) fun regions _ => ?_
  refine (printAll b run hlogs _).bind fun recorder hlogs => ?_
  -- with or without a site, the artifact is stored and the version published
  have hstored {recorder : Recorder} (hlogs : S.Logs recorder) (artifact : Artifact)
      (digest : String) : Within S (fun _ => True)
        (Lecrev.orFail (Lecrev.putArtifact artifact)
          (Lecrev.markBuildFailedWithLogs b run version buildJob recorder) fun _ =>
          Lecrev.publishVersion b run version buildJob recorder digest prepared.entrypoint) :=
    orFail (putArtifact (h.artifact _)) (hfail hlogs) fun _ _ => publishVersion b run h hlogs _ _
  split
  · exact hstored hlogs _ _
  · refine orFail (uploadSite b (fun _ _ => h.object _ _) (fun _ => h.object _ _) _ _ _)
      (hfail hlogs) fun _ _ => ?_
    exact (printAll b run hlogs _).bind fun recorder hlogs => hstored hlogs _ _

theorem prepareVersion {req : DeployRequest} (hobject : ∀ key data, S.object key data)
    (hfailed : ∀ e, (b.prepareBuildOutput req).2 = .error e → S.Covers version buildJob)
    (hprepared : ∀ prepared, (b.prepareBuildOutput req).2 = .ok prepared → S.CoversOutput version
      { buildJob with metadata := mergeBuildMetadata buildJob.metadata prepared.metadata }) :
    Within S (fun _ => True) (prepareVersion b run req version buildJob) := by
  have hlogs {recorder : Recorder} : S.Logs recorder := fun key _ data => hobject key data
  refine (printAll b run hlogs _).bind fun recorder _ => ?_
  refine (printAll b run hlogs _).bind fun recorder _ => ?_
  cases hout : (b.prepareBuildOutput req).2 with
  | error e => exact markBuildFailedWithLogs b run (hfailed e hout) hlogs e
  | ok prepared =>
    have hmerged := hprepared prepared hout
    change Within S _ (if _ then _ else _)
    split
    · exact markBuildFailedWithLogs b run hmerged.toCovers hlogs _
    · exact uploadArtifact b run hmerged hlogs _ _

theorem processBuildJob (buildJobID : String) :
    Within .all (fun _ => True) (processBuildJob b run buildJobID) := by
  refine (query _ _).bind fun buildJob _ => ?_
  split
  · exact pure trivial
  · refine (query _ _).bind fun version _ => ?_
    have hcovers := BuildScope.coversOutput_all
    split
    · exact markBuildFailed (hcovers version buildJob).toCovers _ _
    · next req _ =>
      refine (putFunctionVersion trivial).bind fun _ _ => ?_
      exact (putBuildJob trivial).bind fun _ _ => prepareVersion b run (fun _ _ => trivial)
        (fun _ _ => (hcovers _ _).toCovers) fun _ _ => hcovers _ _

theorem enforceBuildQuota (projectID : String) :
    Within S (fun _ => True) (enforceBuildQuota b projectID) := by
  unfold Lecrev.enforceBuildQuota
  split
  · exact pure trivial
  · refine (query _ _).bind fun count _ => ?_
    split
    · exact throw _
    · exact pure trivial

theorem initializeBuild (req : DeployRequest) :
    Within .all (fun _ => True) (initializeBuild b run req) :=
  (putFunctionVersion trivial).bind fun _ _ => (putBuildJob trivial).bind fun _ _ =>
    (putObject trivial).bind fun _ _ => pure trivial

theorem createFunctionVersion (req : DeployRequest) :
    Within .all (fun _ => True) (createFunctionVersion b run req) := by
  refine (ret _).bind fun req _ => ?_
  refine (enforceBuildQuota b _).bind fun _ _ => ?_
  refine (initializeBuild b run req).bind fun (version, buildJob) _ => ?_
  dsimp only
  split
  · refine (query _ _).result.bind fun r _ => ?_
    cases r with
    | ok _ => exact pure trivial
    | error e =>
      have hcovers := (BuildScope.coversOutput_all version buildJob).toCovers
      exact (markBuildFailed hcovers _ _).result.bind fun _ _ => throw _
  · exact (processBuildJob b run _).bind fun _ _ => query _ _

end Within

/-- **A deploy that knows of no key touches no idempotency record**, whether it succeeds or
fails. -/
theorem LeavesRecords.createFunctionVersion (b : Builder) (run : BuildRun) (req : DeployRequest) :
    LeavesRecords (createFunctionVersion b run req) :=
  ⟨(Within.createFunctionVersion b run req).keeps.mono fun _ _ _ _ h => h.idempotency_eq⟩

end Lecrev

import Lecrev.Build.FailedDeploy

/-!
# Deliveries of a build job

A delivery of a build job stores the job as running, with a request that is fit for storage, and
hands the request it has read to `prepareBuildOutput`. From then on the record of the job stays as
it is until the build ends it (`Proceeds`).

A worker that crashes on the way leaves the job unfinished, and the next delivery starts over from
the stored record. It builds the same request only if the first delivery has not changed it, which
it does exactly when the git URL carries something that `sanitizeGitURL` takes away
(`crashed_build_repeats_iff`): the credentials are gone with the first write of a delivery.
-/

namespace Lecrev

/-- The build job has ended. -/
def BuildState.Terminal (state : BuildState) : Prop := state = .succeeded ∨ state = .failed

instance (state : BuildState) : Decidable state.Terminal := inferInstanceAs (Decidable (_ ∨ _))

/-! ## The record of the job during a delivery -/

/-- The metadata of a build job once its output has been prepared, or could not be prepared. -/
def Builder.metadataAfter (b : Builder) (req : DeployRequest) (metadata : List (String × String)) :
    List (String × String) :=
  match (b.prepareBuildOutput req).2 with
  | .error _ => metadata
  | .ok prepared => mergeBuildMetadata metadata prepared.metadata

/-- The build job is stored as it was when the build began, or it has ended with the given
metadata; its version is stored. -/
structure Proceeds (job : BuildJob) (metadata : List (String × String)) (s : Store) : Prop where
  stored : ∃ j, s.buildJobs.get job.id = some j ∧ (j = job ∨ { job with metadata }.Ending j)
  version : (s.functions.get job.functionVersionID).isSome

variable {version : FunctionVersion} {job : BuildJob} {F : StoreCall → Prop} {s : Store}

namespace BuildDelivery

variable (b : Builder) (run : BuildRun)

/-- A build writes the record of its own job, and only to end it. -/
def scope (job : BuildJob) (metadata : List (String × String)) : BuildScope :=
  ⟨fun _ => True, { job with metadata }.Ending, fun _ => True, fun _ _ => True⟩

theorem coversOutput_scope (version : FunctionVersion) (job : BuildJob)
    (metadata : List (String × String)) :
    (scope job metadata).CoversOutput version { job with metadata } where
  failed _ _ _ _ := trivial
  job _ h := h
  logs _ := trivial
  ready _ _ _ _ := trivial
  artifact _ := trivial
  object _ _ := trivial

theorem proceeds_of_write {metadata : List (String × String)} {l : StoreCall} {t : Store}
    (hs : Proceeds job metadata s) (h : (scope job metadata).Write l s t) :
    Proceeds job metadata t := by
  cases h with
  | version v _ =>
    refine ⟨hs.stored, ?_⟩
    change ((s.functions.put v).get _).isSome
    rw [Table.get_put]
    split_ifs with hid
    · rfl
    · exact hs.version
  | job j hj =>
    refine ⟨⟨j, ?_, .inr hj⟩, hs.version⟩
    exact Table.get_put_of_key _ hj.id
  | artifact a _ => exact ⟨hs.stored, hs.version⟩
  | object key data _ => exact ⟨hs.stored, hs.version⟩
  | other hfunctions hbuildJobs _ _ _ =>
    refine ⟨?_, ?_⟩
    · rw [hbuildJobs]
      exact hs.stored
    · rw [hfunctions]
      exact hs.version

section Within

variable {metadata : List (String × String)} {α : Type} {Q : α → Prop}
  {p : StoreM α}

theorem keeps_of_within (hp : Within (scope job metadata) Q p) :
    p.Keeps (Proceeds job metadata) fun _ _ _ => True :=
  hp.keeps.of_calls fun _ _ _ hs h => ⟨proceeds_of_write hs h, trivial⟩

theorem throughout_of_within (hp : Within (scope job metadata) Q p) (hs : Proceeds job metadata s) :
    p.Throughout (Proceeds job metadata) s :=
  (keeps_of_within hp).throughout hs

theorem ends_of_within (hp : Within (scope job metadata) Q p) (hs : Proceeds job metadata s) :
    p.Ends F (fun _ => Proceeds job metadata) s :=
  (keeps_of_within hp).ends hs

end Within

theorem within_prepareVersion (req : DeployRequest) (version : FunctionVersion) (job : BuildJob) :
    Within (scope job (b.metadataAfter req job.metadata)) (fun _ => True)
      (prepareVersion b run req version job) := by
  refine Within.prepareVersion b run (fun _ _ => trivial) (fun e he => ?_) fun prepared he => ?_
  · have hmetadata : b.metadataAfter req job.metadata = job.metadata := by
      rw [Builder.metadataAfter, he]
    rw [hmetadata]
    exact (coversOutput_scope version job job.metadata).toCovers
  · have hmetadata : b.metadataAfter req job.metadata =
        mergeBuildMetadata job.metadata prepared.metadata := by
      rw [Builder.metadataAfter, he]
    rw [hmetadata]
    exact coversOutput_scope version job _

/-- The store in which the build begins. -/
def begun (version : FunctionVersion) (job : BuildJob) (s : Store) : Store :=
  { s with functions := s.functions.put version, buildJobs := s.buildJobs.put job }

theorem get_begun (version : FunctionVersion) (job : BuildJob) (s : Store) :
    (begun version job s).buildJobs.get job.id = some job := Table.get_put_of_key _ rfl

theorem proceeds_begun (hversion : version.id = job.functionVersionID)
    (metadata : List (String × String)) (s : Store) :
    Proceeds job metadata (begun version job s) := by
  refine ⟨⟨job, get_begun version job s, .inl rfl⟩, ?_⟩
  change ((s.functions.put version).get _).isSome
  rw [Table.get_put_of_key _ hversion, Option.isSome_some]

end BuildDelivery

/-- The next delivery of the build job calls `prepareBuildOutput` with the given request. -/
def Store.Rebuilds (s : Store) (buildJobID : String) (req : DeployRequest) : Prop :=
  ∃ job version, s.buildJobs.get buildJobID = some job ∧ job.state ≠ .succeeded ∧
    s.functions.get job.functionVersionID = some version ∧
    normalizeDeployRequest job.request = .ok req

variable {req : DeployRequest}

theorem Store.Rebuilds.putFunctionVersion {buildJobID : String} (h : s.Rebuilds buildJobID req)
    (version : FunctionVersion) :
    { s with functions := s.functions.put version }.Rebuilds buildJobID req := by
  obtain ⟨job, stored, hjob, hstate, hstored, hreq⟩ := h
  by_cases hid : job.functionVersionID = version.id
  · exact ⟨job, version, hjob, hstate, Table.get_put_of_key _ hid.symm, hreq⟩
  · exact ⟨job, stored, hjob, hstate, (Table.get_put_of_ne _ hid).trans hstored, hreq⟩

/-! ## Accepted requests -/

/-- The records of a deploy that has been accepted are stored as they were created. -/
structure Store.Accepted (s : Store) (b : Builder) (run : BuildRun) (r : DeployRequest) :
    Prop where
  version : s.functions.get run.versionID = some (newFunctionVersion run r)
  job : s.buildJobs.get run.buildJobID = some (newBuildJob b run r)

theorem ends_initializeBuild (b : Builder) (run : BuildRun) (r : DeployRequest) (s : Store) :
    (initializeBuild b run r).Ends F (fun result t =>
      (∀ records, result = .ok records →
        records = (newFunctionVersion run r, newBuildJob b run r)) ∧
      ((∃ records, result = .ok records) ∨ (¬ F .putFunctionVersion ∧ ¬ F .putBuildJob) →
        t.Accepted b run r)) s := by
  have haccepted {objects : AList fun _ : String => Bytes} :
      { s with
        functions := s.functions.put (newFunctionVersion run r)
        buildJobs := s.buildJobs.put (newBuildJob b run r)
        objects }.Accepted b run r :=
    ⟨Table.get_put_of_key _ rfl, Table.get_put_of_key _ rfl⟩
  unfold initializeBuild
  simp only [Prog.ends_bind, putFunctionVersion, putBuildJob, putObject, Prog.ends_modify,
    Prog.after_ok, Prog.after_error, Prog.ends_pure]
  refine ⟨⟨⟨⟨fun _ h => (Except.ok.inj h).symm, fun _ => haccepted⟩, fun _ e => ?_⟩,
    fun hF e => ?_⟩, fun hF e => ?_⟩
  · exact ⟨fun _ h => (by cases h), fun _ => haccepted⟩
  · refine ⟨fun _ h => (by cases h), ?_⟩
    rintro (⟨_, h⟩ | h)
    · cases h
    · exact absurd hF h.2
  · refine ⟨fun _ h => (by cases h), ?_⟩
    rintro (⟨_, h⟩ | h)
    · cases h
    · exact absurd hF h.1

theorem reads_enforceBuildQuota (b : Builder) (projectID : String) (s : Store) :
    (enforceBuildQuota b projectID).Reads F (fun _ => True) s := by
  unfold enforceBuildQuota
  split_ifs
  · exact Prog.reads_pure trivial
  · refine (Prog.reads_query fun _ _ => trivial : (countBuildJobsByProjectStates projectID
      [.queued, .running]).Reads F (fun _ => True) s).bind fun count _ => ?_
    split_ifs
    · exact Prog.reads_throw _
    · exact Prog.reads_pure trivial

theorem ends_createFunctionVersion {b : Builder} {run : BuildRun}
    {r : DeployRequest} (hr : normalizeDeployRequest req = .ok r)
    {Q : Except Err FunctionVersion → Store → Prop}
    (hrefused : ∀ e, Q (.error e) s)
    (hfailed : ∀ e t, (¬ F .putFunctionVersion ∧ ¬ F .putBuildJob → t.Accepted b run r) →
      Q (.error e) t)
    (hrest : ∀ t, t.Accepted b run r → (FailedDeploy.afterAnnouncement b run
      (newFunctionVersion run r) (newBuildJob b run r)).Ends F Q t) :
    (createFunctionVersion b run req).Ends F Q s := by
  rw [FailedDeploy.createFunctionVersion_eq, hr, Prog.ends_bind, Prog.ends_ret, Prog.after_ok,
    Prog.ends_bind]
  refine (reads_enforceBuildQuota b r.projectID s).ends.mono fun quota t ⟨ht, _⟩ => ?_
  cases quota with
  | error e =>
    rw [ht]
    exact hrefused e
  | ok _ =>
    rw [Prog.after_ok, Prog.ends_bind]
    refine (ends_initializeBuild b run r t).mono fun records t ⟨hrecords, haccepted⟩ => ?_
    cases records with
    | error e => exact hfailed e t fun hF => haccepted (.inr hF)
    | ok records =>
      rw [hrecords records rfl, Prog.after_ok]
      exact hrest t (haccepted (.inl ⟨records, rfl⟩))

theorem accepted_createFunctionVersion {b : Builder} {run : BuildRun}
    {publish : String → String → Except Err Unit} (hbus : b.bus = some publish) {r : DeployRequest}
    (hr : normalizeDeployRequest req = .ok r) (s : Store) :
    (createFunctionVersion b run req).Ends F
      (fun result t => ∀ version, result = .ok version → t.Accepted b run r) s := by
  refine ends_createFunctionVersion hr (fun _ _ h => by cases h) (fun _ _ _ _ h => by cases h)
    fun t ht => ?_
  unfold FailedDeploy.afterAnnouncement
  rw [hbus]
  -- the deploy fails when the job cannot be published
  have hrefused (e : Err) :
      (do
        let _ ← (markBuildFailed (run.clock 9) (newFunctionVersion run r) (newBuildJob b run r)
          (.wrapped "publish build job: " e "")).result
        .throw e : StoreM FunctionVersion).Ends F
        (fun result t => ∀ version, result = .ok version → t.Accepted b run r) t := by
    refine Prog.ends_bind.mpr (Prog.ends_result.mpr ((Prog.ends_true _ t).mono fun _ _ _ => ?_))
    exact Prog.after_ok.mpr (Prog.ends_throw.mpr fun _ h => by cases h)
  refine Prog.ends_bind.mpr (Prog.ends_result.mpr (Prog.ends_query.mpr ⟨?_, fun _ e => ?_⟩))
  · refine Prog.after_ok.mpr ?_
    cases publish (newBuildJob b run r).targetRegion (newBuildJob b run r).id with
    | ok _ => exact Prog.ends_pure.mpr fun _ _ => ht
    | error e => exact hrefused e
  · exact hrefused e

namespace BuildDelivery

theorem newBuildJob_state_ne {b : Builder} {run : BuildRun} {r : DeployRequest} :
    (newBuildJob b run r).state ≠ .succeeded := by
  simp [newBuildJob]

theorem not_terminal_started (job : BuildJob) (request : DeployRequest) (now : Time) :
    ¬ (job.started request now).state.Terminal := by
  simp [BuildJob.started, BuildState.Terminal]

theorem throughout_find {α β : Type} [Keyed α String] {l : StoreCall} {kind key : String} {v : α}
    {table : Store → Table α} {f : α → StoreM β} {I : Store → Prop}
    (hget : (table s).get key = some v) :
    ((Prog.query l fun s => find kind (table s) key : StoreM α) >>= f).Throughout I s ↔
      (f v).Throughout I s :=
  Prog.throughout_query_bind (find_of_get _ hget)

theorem throughout_processBuildJob (b : Builder) (run : BuildRun) {buildJobID : String}
    {I : Store → Prop} (hjob : s.buildJobs.get buildJobID = some job)
    (hstate : job.state ≠ .succeeded)
    (hversion : s.functions.get job.functionVersionID = some version)
    (hreq : normalizeDeployRequest job.request = .ok req) :
    (processBuildJob b run buildJobID).Throughout I s ↔
      I s ∧ I { s with functions := s.functions.put version.rebuilding } ∧
        (prepareVersion b run req version.rebuilding
          (job.started (sanitizeDeployRequestForStorage b req) (run.clock 1))).Throughout I
          (begun version.rebuilding
            (job.started (sanitizeDeployRequestForStorage b req) (run.clock 1)) s) := by
  refine (throughout_find hjob).trans ?_
  rw [if_neg hstate]
  refine (throughout_find hversion).trans ?_
  rw [hreq]
  dsimp only
  rw [putFunctionVersion, Prog.throughout_modify_bind, putBuildJob, Prog.throughout_modify_bind]
  rfl

theorem rebuilds_of_accepted {b : Builder} {run : BuildRun} {r : DeployRequest}
    (hr : normalizeDeployRequest req = .ok r) (hs : s.Accepted b run r) :
    s.Rebuilds run.buildJobID r := by
  have hrequest : (newBuildJob b run r).request = r := rfl
  refine ⟨newBuildJob b run r, newFunctionVersion run r, hs.job, newBuildJob_state_ne,
    hs.version, ?_⟩
  rw [hrequest]
  exact normalizeDeployRequest_of_normalized hr

theorem rebuilds_of_proceeds {metadata : List (String × String)} {r : DeployRequest}
    (hr : normalizeDeployRequest job.request = .ok r) (hs : Proceeds job metadata s)
    (hrunning : ∀ j, s.buildJobs.get job.id = some j → ¬ j.state.Terminal) :
    s.Rebuilds job.id r := by
  obtain ⟨j, hget, hj⟩ := hs.stored
  obtain ⟨version, hversion⟩ := Option.isSome_iff_exists.mp hs.version
  have hterminal := hrunning j hget
  obtain rfl | hending := hj
  · exact ⟨j, version, hget, fun h => hterminal (.inl h), hversion, hr⟩
  · exact absurd (hending.state.symm) hterminal

theorem throughout_prepareVersion (b : Builder) (run : BuildRun) (s : Store)
    (hversion : version.id = job.functionVersionID)
    (hreq : normalizeDeployRequest job.request = .ok req) :
    (prepareVersion b run req version job).Throughout (fun t =>
      (∀ j, t.buildJobs.get job.id = some j → ¬ j.state.Terminal) → t.Rebuilds job.id req)
      (begun version job s) := by
  have hbuild := within_prepareVersion b run req version job
  have hbegun := proceeds_begun hversion (b.metadataAfter req job.metadata) s
  exact (throughout_of_within hbuild hbegun).mono fun t ht => rebuilds_of_proceeds hreq ht

end BuildDelivery

theorem gitURL_sanitizeDeployRequestForStorage (b : Builder) (req : DeployRequest) :
    (sanitizeDeployRequestForStorage b req).source.gitURL = sanitizeGitURL b req.source.gitURL := by
  simp only [sanitizeDeployRequestForStorage]

theorem sanitizeDeployRequestForStorage_eq_self {b : Builder}
    (h : sanitizeGitURL b req.source.gitURL = req.source.gitURL) :
    sanitizeDeployRequestForStorage b req = req := by
  rw [sanitizeDeployRequestForStorage, h]

namespace BuildDelivery

/-- The job can be built again throughout exactly if its URL needs no cleaning. -/
theorem throughout_rebuilds_iff (b : Builder) (run : BuildRun) {buildJobID : String}
    (hjob : s.buildJobs.get buildJobID = some job) (hstate : job.state ≠ .succeeded)
    (hversion : s.functions.get job.functionVersionID = some version)
    (hreq : normalizeDeployRequest job.request = .ok req) :
    (processBuildJob b run buildJobID).Throughout (fun t =>
        (∀ j, t.buildJobs.get buildJobID = some j → ¬ j.state.Terminal) →
          t.Rebuilds buildJobID req) s ↔
      sanitizeGitURL b req.source.gitURL = req.source.gitURL := by
  have hrebuilds : s.Rebuilds buildJobID req := ⟨job, version, hjob, hstate, hversion, hreq⟩
  have hid : job.id = buildJobID := Table.key_of_get hjob
  have hversionID : version.id = job.functionVersionID := Table.key_of_get hversion
  rw [throughout_processBuildJob b run hjob hstate hversion hreq]
  generalize hrunning : job.started (sanitizeDeployRequestForStorage b req) (run.clock 1) = running
  have hrunningID : running.id = buildJobID := by rw [← hrunning, ← hid, BuildJob.started]
  have hrunningVersion : version.rebuilding.id = running.functionVersionID := by
    rw [← hrunning, BuildJob.started, ← hversionID, FunctionVersion.rebuilding]
  have hrequest : running.request = sanitizeDeployRequestForStorage b req := by
    rw [← hrunning, BuildJob.started]
  constructor
  · -- stopped right after the job was stored as running
    rintro ⟨-, -, hbuild⟩
    have hget := get_begun version.rebuilding running s
    rw [hrunningID] at hget
    obtain ⟨j, -, hj, -, -, hbuilt⟩ := hbuild.start fun j hj => by
      rw [← Option.some.inj (hget.symm.trans hj), ← hrunning]
      exact not_terminal_started _ _ _
    obtain rfl := Option.some.inj (hget.symm.trans hj)
    rw [hrequest] at hbuilt
    have hsource := (normalized_of_normalizeDeployRequest hbuilt).source
    have hgitURL := congrArg DeploySource.gitURL hsource
    rw [gitURL_sanitizeDeployRequestForStorage] at hgitURL
    exact hgitURL.symm
  · intro hsame
    refine ⟨fun _ => hrebuilds, fun _ => hrebuilds.putFunctionVersion _, ?_⟩
    have hnormal : normalizeDeployRequest running.request = .ok req := by
      rw [hrequest, sanitizeDeployRequestForStorage_eq_self hsame]
      exact normalizeDeployRequest_of_normalized hreq
    have hbuild := throughout_prepareVersion b run s hrunningVersion hnormal
    rwa [hrunningID] at hbuild

end BuildDelivery

/-- **A crashed build is repeated with the same request exactly when storing the request does not
change it.** The first delivery of an accepted deploy builds the request of the deploy. Wherever it
stops before it has ended the build job, and whichever of its calls have failed, the next delivery
builds the same request if and only if `sanitizeGitURL` leaves the git URL as it is. -/
theorem crashed_build_repeats_iff (b worker : Builder) (run run' : BuildRun) {req r : DeployRequest}
    (hr : normalizeDeployRequest req = .ok r) {s : Store} (hs : s.Accepted b run r) :
    s.Rebuilds run.buildJobID r ∧
      ((processBuildJob worker run' run.buildJobID).Throughout (fun t =>
          (∀ job, t.buildJobs.get run.buildJobID = some job → ¬ job.state.Terminal) →
            t.Rebuilds run.buildJobID r) s ↔
        sanitizeGitURL worker r.source.gitURL = r.source.gitURL) := by
  have hrebuilds := BuildDelivery.rebuilds_of_accepted hr hs
  refine ⟨hrebuilds, ?_⟩
  obtain ⟨job, version, hjob, hstate, hversion, hreq⟩ := hrebuilds
  exact BuildDelivery.throughout_rebuilds_iff worker run' hjob hstate hversion hreq

namespace BuildDelivery.Sample

open BuildSample (run)

/-- A git URL with credentials, and the URL without them. -/
def withToken : String := "https://token@git/app"

def bare : String := "https://git/app"

/-- A build service with a bus, whose builds succeed. -/
def builder : Builder :=
  { BuildSample.builder with
    bus := some fun _ _ => .ok ()
    withoutUser := fun url => if url = withToken then some bare else some url }

/-- A deploy from a git repository to one region. -/
def request (gitURL : String) : DeployRequest where
  projectID := "project"
  name := "hello"
  runtime := "node22"
  memoryMB := 128
  timeoutSec := 30
  networkPolicy := .full
  entrypoint := "index.js"
  regions := ["ap-south-1"]
  source := { type := .git, gitURL }

/-- The store after the deploy. -/
def store (gitURL : String) : Store :=
  ((createFunctionVersion builder run (request gitURL)).run Store.new).2

theorem accepted_store {gitURL : String}
    (hnormal : normalizeDeployRequest (request gitURL) = .ok (request gitURL))
    (hcreated : ((createFunctionVersion builder run (request gitURL)).run Store.new).1 =
      .ok (newFunctionVersion run (request gitURL))) :
    (store gitURL).Accepted builder run (request gitURL) := by
  have hends : (createFunctionVersion builder run (request gitURL)).Ends (fun _ => True)
      (fun result t => ∀ version, result = .ok version →
        t.Accepted builder run (request gitURL)) Store.new :=
    accepted_createFunctionVersion rfl hnormal Store.new
  exact hends.run _ hcreated

end BuildDelivery.Sample

open BuildDelivery.Sample in
open BuildSample (run) in
theorem crashed_build_repeats_bare :
    (store bare).Rebuilds "build" (request bare) ∧
      (processBuildJob builder run "build").Throughout (fun t =>
        (∀ job, t.buildJobs.get "build" = some job → ¬ job.state.Terminal) →
          t.Rebuilds "build" (request bare)) (store bare) := by
  have hnormal : normalizeDeployRequest (request bare) = .ok (request bare) := by rfl
  have haccepted := accepted_store hnormal (by rfl)
  have h := crashed_build_repeats_iff builder builder run run hnormal haccepted
  exact ⟨h.1, h.2.mpr (by decide +kernel)⟩

open BuildDelivery.Sample in
open BuildSample (run) in
/-- A deploy with credentials is not: a delivery that stops after it has stored the job as running
leaves the URL without them. -/
theorem not_crashed_build_repeats :
    ¬ ∀ (b worker : Builder) (run run' : BuildRun) (req r : DeployRequest) (s : Store),
      normalizeDeployRequest req = .ok r → req.source.type = .git → s.Accepted b run r →
        (processBuildJob worker run' run.buildJobID).Throughout (fun t =>
          (∀ job, t.buildJobs.get run.buildJobID = some job → ¬ job.state.Terminal) →
            t.Rebuilds run.buildJobID r) s := by
  intro h
  have hnormal : normalizeDeployRequest (request withToken) = .ok (request withToken) := by rfl
  have haccepted := accepted_store hnormal (by rfl)
  have hrepeats := h builder builder run run _ _ _ hnormal rfl haccepted
  obtain ⟨job, version, hjob, hstate, hversion, hreq⟩ :=
    BuildDelivery.rebuilds_of_accepted hnormal haccepted
  have hsame := (BuildDelivery.throughout_rebuilds_iff builder run hjob hstate hversion hreq).mp
    hrepeats
  revert hsame
  decide +kernel

end Lecrev

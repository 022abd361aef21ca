import Lecrev.Build.Effects
import Lecrev.Concurrency.Sequential

/-!
# What a failed deploy leaves behind

The build service creates a version and a build job before it knows whether the deploy will succeed.
Here the metadata store answers every call, while the object store and the bus may fail at any
call, and the build may fail as well. Every error that is found after the records were announced in
the log goes through `markBuildFailed`, so that both records end as failed (`Settles`).

The one exception is the announcement itself: when the object store refuses the line that says that
the job is queued, the deploy returns the error at once, and the job stays queued for ever.
-/

namespace Lecrev

variable {version : FunctionVersion} {buildJob : BuildJob}

namespace FailedDeploy

/-- The calls that may fail: the puts of the object store and the publication on the bus. -/
def MayFail (l : StoreCall) : Prop := l = .putObject ∨ l = .publish

/-! ## Programs that mark the records before they return an error -/

/-- The version and the build are marked as failed. -/
structure Marked (versionID buildJobID : String) (s : Store) : Prop where
  version : ∃ version, s.functions.get versionID = some version ∧ version.state = .failed
  job : ∃ job, s.buildJobs.get buildJobID = some job ∧ job.state = .failed

/-- Whenever the program returns an error, the records are marked. -/
structure Settles {α : Type} (versionID buildJobID : String) (p : StoreM α) : Prop where
  ends : ∀ s, p.Ends MayFail (fun r s' => ∀ e, r = .error e → Marked versionID buildJobID s') s

/-- The program returns no error. -/
structure Finishes {α : Type} (p : StoreM α) : Prop where
  ends : ∀ s, p.Ends MayFail (fun r _ => ∃ a, r = .ok a) s

section Settles

variable {α β : Type} {versionID buildJobID : String}

theorem Finishes.pure (a : α) : Finishes (pure a) := ⟨fun _ => Prog.ends_pure.mpr ⟨a, rfl⟩⟩

theorem Finishes.result (p : StoreM α) : Finishes p.result :=
  ⟨fun s => Prog.ends_result.mpr ((p.ends_true s).mono fun r _ _ => ⟨r, rfl⟩)⟩

theorem Finishes.bind {p : StoreM α} {f : α → StoreM β} (hp : Finishes p)
    (hf : ∀ a, Finishes (f a)) : Finishes (p >>= f) := by
  refine ⟨fun s => Prog.ends_bind.mpr ((hp.ends s).mono fun r s' hr => ?_)⟩
  obtain ⟨a, rfl⟩ := hr
  exact (hf a).ends s'

theorem Finishes.settles {p : StoreM α} (hp : Finishes p) : Settles versionID buildJobID p := by
  refine ⟨fun s => (hp.ends s).mono fun r _ hr e he => ?_⟩
  obtain ⟨a, rfl⟩ := hr
  cases he

theorem Settles.bind {p : StoreM α} {f : α → StoreM β} (hp : Finishes p)
    (hf : ∀ a, Settles versionID buildJobID (f a)) : Settles versionID buildJobID (p >>= f) := by
  refine ⟨fun s => Prog.ends_bind.mpr ((hp.ends s).mono fun r s' hr => ?_)⟩
  obtain ⟨a, rfl⟩ := hr
  exact (hf a).ends s'

theorem Settles.orFail {p : StoreM α} {fail : Err → StoreM Unit} {next : α → StoreM Unit}
    (hfail : ∀ e, Settles versionID buildJobID (fail e))
    (hnext : ∀ a, Settles versionID buildJobID (next a)) :
    Settles versionID buildJobID (orFail p fail next) := by
  refine Settles.bind (Finishes.result p) fun r => ?_
  cases r with
  | ok a => exact hnext a
  | error e => exact hfail e

end Settles

/-! ## The build service -/

section Service

variable (b : Builder) (run : BuildRun)

theorem finishes_printf (recorder : Recorder) (line : String) :
    Finishes (recorder.printf b run line) := by
  unfold Recorder.printf
  dsimp only
  split
  · exact .pure _
  · exact (Finishes.result _).bind fun _ => .pure _

theorem finishes_printAll (recorder : Recorder) (lines : List String) :
    Finishes (recorder.printAll b run lines) := by
  induction lines generalizing recorder with
  | nil => exact .pure recorder
  | cons line lines ih => exact (finishes_printf b run recorder line).bind fun _ => ih _

theorem finishes_putBuildJob (job : BuildJob) : Finishes (putBuildJob job) := by
  refine ⟨fun s => Prog.ends_modify.mpr ⟨⟨(), rfl⟩, fun h => ?_⟩⟩
  obtain h | h := h <;> cases h

variable {versionID buildJobID : String}
  (hversion : version.id = versionID) (hjob : buildJob.id = buildJobID)

include hversion hjob

theorem marked_markBuildFailed (now : Time) (e : Err) (s : Store) :
    (markBuildFailed now version buildJob e).Ends MayFail
      (fun _ => Marked versionID buildJobID) s := by
  have hfail {l : StoreCall} (hl : l = .putFunctionVersion ∨ l = .putBuildJob) : ¬ MayFail l := by
    rintro (rfl | rfl) <;> obtain h | h := hl <;> cases h
  -- both puts are made, the version first
  refine Prog.ends_bind.mpr (Prog.ends_modify.mpr ⟨?_, fun h => absurd h (hfail (.inl rfl))⟩)
  rw [Prog.after_ok]
  refine Prog.ends_bind.mpr (Prog.ends_modify.mpr ⟨?_, fun h => absurd h (hfail (.inr rfl))⟩)
  rw [Prog.after_ok]
  refine Prog.ends_throw.mpr ⟨⟨_, Table.get_put_of_key _ hversion, rfl⟩, ?_⟩
  exact ⟨_, Table.get_put_of_key _ hjob, rfl⟩

theorem settles_markBuildFailed (now : Time) (e : Err) :
    Settles versionID buildJobID (markBuildFailed now version buildJob e) :=
  ⟨fun s => (marked_markBuildFailed hversion hjob now e s).mono fun _ _ h _ _ => h⟩

theorem settles_markBuildFailedWithLogs (recorder : Recorder) (e : Err) :
    Settles versionID buildJobID
      (markBuildFailedWithLogs b run version buildJob recorder e) := by
  refine Settles.bind (finishes_printf b run recorder _) fun recorder => ?_
  have hreturns : (archiveBuildLogs buildJob recorder).Returns (·.id = buildJob.id) :=
    (Prog.returns_true _).bind fun _ _ => rfl
  constructor
  intro s
  refine Prog.ends_bind.mpr (Prog.ends_result.mpr ((hreturns.ends s).mono fun r s' hr => ?_))
  cases r with
  | ok archived =>
    have hid : archived.id = buildJobID := (hr archived rfl).trans hjob
    exact (settles_markBuildFailed hversion hid _ _).ends s'
  | error archiveErr => exact (settles_markBuildFailed hversion hjob _ _).ends s'

omit hversion hjob in
theorem finishes_completeBuild (buildJob : BuildJob) (recorder : Recorder) :
    Finishes (completeBuild b run buildJob recorder) := by
  refine (finishes_printf b run recorder _).bind fun recorder => ?_
  refine (Finishes.result _).bind fun r => ?_
  cases r with
  | ok archived => exact finishes_putBuildJob _
  | error e => exact (finishes_printf b run recorder _).bind fun _ => finishes_putBuildJob _

omit hversion hjob in
theorem finishes_warmVersion (version : FunctionVersion) (recorder : Recorder) :
    Finishes (warmVersion b run version recorder) := by
  unfold warmVersion
  split
  · exact .pure _
  · split
    · refine (Finishes.result _).bind fun r => ?_
      cases r with
      | ok _ => exact finishes_printf b run recorder _
      | error e => exact finishes_printf b run recorder _
    · exact finishes_printf b run recorder _

theorem settles_publishVersion (recorder : Recorder) (digest entrypoint : String) :
    Settles versionID buildJobID
      (publishVersion b run version buildJob recorder digest entrypoint) := by
  have hfail (recorder : Recorder) (e : Err) : Settles versionID buildJobID
      (markBuildFailedWithLogs b run { version with
        artifactDigest := digest, entrypoint := entrypoint, state := .ready } buildJob recorder
        e) :=
    settles_markBuildFailedWithLogs b run (by exact hversion) hjob recorder e
  refine Settles.orFail (hfail recorder) fun _ => ?_
  refine Settles.orFail (hfail recorder) fun recorder => ?_
  exact Settles.bind (finishes_warmVersion b run _ recorder) fun recorder =>
    (finishes_completeBuild b run buildJob recorder).settles

theorem settles_uploadArtifact (req : DeployRequest) (recorder : Recorder)
    (prepared : PreparedBuildOutput) :
    Settles versionID buildJobID
      (uploadArtifact b run req version buildJob recorder prepared) := by
  have hfail (recorder : Recorder) (e : Err) : Settles versionID buildJobID
      (markBuildFailedWithLogs b run version buildJob recorder e) :=
    settles_markBuildFailedWithLogs b run hversion hjob recorder e
  refine Settles.bind (finishes_printf b run recorder _) fun recorder => ?_
  refine Settles.orFail (hfail recorder) fun _ => ?_
  refine Settles.orFail (hfail recorder) fun _ => ?_
  refine Settles.bind (finishes_printf b run recorder _) fun recorder => ?_
  refine Settles.orFail (hfail recorder) fun regions => ?_
  refine Settles.bind (finishes_printAll b run recorder _) fun recorder => ?_
  have hstored (recorder : Recorder) (artifact : Artifact) (digest : String) :
      Settles versionID buildJobID
        (orFail (putArtifact artifact) (markBuildFailedWithLogs b run version buildJob recorder)
          fun _ => publishVersion b run version buildJob recorder digest prepared.entrypoint) :=
    Settles.orFail (hfail recorder) fun _ => settles_publishVersion b run hversion hjob recorder _ _
  split
  · exact hstored recorder _ _
  · refine Settles.orFail (hfail recorder) fun _ => ?_
    exact Settles.bind (finishes_printAll b run recorder _) fun recorder => hstored recorder _ _

theorem settles_prepareVersion (req : DeployRequest) :
    Settles versionID buildJobID (prepareVersion b run req version buildJob) := by
  refine Settles.bind (finishes_printAll b run _ _) fun recorder => ?_
  refine Settles.bind (finishes_printAll b run recorder _) fun recorder => ?_
  refine Settles.orFail (fun e => settles_markBuildFailedWithLogs b run hversion hjob recorder e)
    fun prepared => ?_
  dsimp only
  split
  · exact settles_markBuildFailedWithLogs b run hversion (by exact hjob) recorder _
  · exact settles_uploadArtifact b run hversion (by exact hjob) req recorder prepared

end Service

/-! ## The records of other deploys -/

/-- Only the version and the build job of the deploy may have changed, and the version has not gone
away. -/
structure OnlyOwn (versionID buildJobID : String) (s s' : Store) : Prop where
  versions : ∀ id, id ≠ versionID → s'.functions.get id = s.functions.get id
  jobs : ∀ id, id ≠ buildJobID → s'.buildJobs.get id = s.buildJobs.get id
  present : (s.functions.get versionID).isSome → (s'.functions.get versionID).isSome

/-- The writes on one version and one build. -/
def scope (versionID buildJobID : String) : BuildScope :=
  ⟨(·.id = versionID), (·.id = buildJobID), fun _ => True, fun _ _ => True⟩

section OnlyOwn

variable {versionID buildJobID : String} {s t u : Store}

theorem OnlyOwn.refl (s : Store) : OnlyOwn versionID buildJobID s s :=
  ⟨fun _ _ => rfl, fun _ _ => rfl, id⟩

theorem OnlyOwn.trans (hst : OnlyOwn versionID buildJobID s t)
    (htu : OnlyOwn versionID buildJobID t u) : OnlyOwn versionID buildJobID s u where
  versions id hid := (htu.versions id hid).trans (hst.versions id hid)
  jobs id hid := (htu.jobs id hid).trans (hst.jobs id hid)
  present h := htu.present (hst.present h)

theorem onlyOwn_putVersion (h : version.id = versionID) (s : Store) :
    OnlyOwn versionID buildJobID s { s with functions := s.functions.put version } where
  versions _ hid := Table.get_put_of_ne _ fun heq => hid (heq.trans h)
  jobs _ _ := rfl
  present _ := by rw [Table.get_put_of_key _ h, Option.isSome_some]

theorem onlyOwn_putJob {job : BuildJob} (h : job.id = buildJobID) (s : Store) :
    OnlyOwn versionID buildJobID s { s with buildJobs := s.buildJobs.put job } where
  versions _ _ := rfl
  jobs _ hid := Table.get_put_of_ne _ fun heq => hid (heq.trans h)
  present h := h

theorem onlyOwn_of_write {l : StoreCall} (h : (scope versionID buildJobID).Write l s t) :
    OnlyOwn versionID buildJobID s t := by
  cases h with
  | version v h => exact onlyOwn_putVersion h s
  | job j h => exact onlyOwn_putJob h s
  | artifact a _ => exact ⟨fun _ _ => rfl, fun _ _ => rfl, id⟩
  | object key data _ => exact ⟨fun _ _ => rfl, fun _ _ => rfl, id⟩
  | other hfunctions hbuildJobs _ _ _ =>
    exact ⟨fun _ _ => by rw [hfunctions], fun _ _ => by rw [hbuildJobs],
      fun h => by rwa [hfunctions]⟩

theorem ends_onlyOwn {α : Type} {Q : α → Prop} {p : StoreM α}
    (hp : Within (scope versionID buildJobID) Q p) (s : Store) :
    p.Ends MayFail (fun _ => OnlyOwn versionID buildJobID s) s :=
  (hp.keeps.mono fun _ _ _ _ h => onlyOwn_of_write h).ends_rel .refl .trans trivial

theorem coversOutput_scope (hversion : version.id = versionID) (hjob : buildJob.id = buildJobID) :
    (scope versionID buildJobID).CoversOutput version buildJob where
  failed _ h _ _ := h.trans hversion
  job _ h := h.id.trans hjob
  logs _ := trivial
  ready _ h _ _ := h.trans hversion
  artifact _ := trivial
  object _ _ := trivial

end OnlyOwn

/-! ## After the announcement -/

/-- What holds when the part of a deploy that follows the announcement has returned. -/
structure Settled (versionID buildJobID : String) (s : Store) (failed : Prop) (s' : Store) :
    Prop where
  own : OnlyOwn versionID buildJobID s s'
  marked : failed → Marked versionID buildJobID s'

section Rest

variable (b : Builder) (run : BuildRun) {versionID buildJobID : String} {s : Store}

theorem ends_markBuildFailed (hversion : version.id = versionID) (hjob : buildJob.id = buildJobID)
    (now : Time) (e : Err) :
    (markBuildFailed now version buildJob e).Ends MayFail
      (fun _ s' => ∀ failed, Settled versionID buildJobID s failed s') s := by
  have hcovers := (coversOutput_scope hversion hjob).toCovers
  have hown := ends_onlyOwn (Within.markBuildFailed hcovers now e) s
  refine (hown.and (marked_markBuildFailed hversion hjob now e s)).mono fun _ s' h failed => ?_
  exact ⟨h.1, fun _ => h.2⟩

theorem ends_prepareVersion (hversion : version.id = versionID) (hjob : buildJob.id = buildJobID)
    (req : DeployRequest) :
    (prepareVersion b run req version buildJob).Ends MayFail
      (fun r s' => Settled versionID buildJobID s (∃ e, r = .error e) s') s := by
  have hwithin : Within (scope versionID buildJobID) (fun _ => True)
      (prepareVersion b run req version buildJob) :=
    Within.prepareVersion b run (fun _ _ => trivial)
      (fun _ _ => (coversOutput_scope hversion hjob).toCovers) fun _ _ =>
        coversOutput_scope hversion hjob
  have hown := ends_onlyOwn hwithin s
  refine (hown.and ((settles_prepareVersion b run hversion hjob req).ends s)).mono
    fun r s' h => ?_
  exact ⟨h.1, fun ⟨e, he⟩ => h.2 e he⟩

theorem ends_find {α β : Type} [Keyed α String] {l : StoreCall} {kind key : String} {v : α}
    {table : Store → Table α} {f : α → StoreM β} {Q : Except Err β → Store → Prop}
    {F : StoreCall → Prop} (hl : ¬ F l) (hget : (table s).get key = some v)
    (hf : (f v).Ends F Q s) :
    ((Prog.query l fun s => find kind (table s) key : StoreM α) >>= f).Ends F Q s := by
  refine Prog.ends_bind.mpr (Prog.ends_query.mpr ⟨?_, fun h => absurd h hl⟩)
  rw [find_of_get _ hget]
  exact Prog.after_ok.mpr hf

/-- A failed delivery marks version and job, and touches no others. -/
theorem ends_processBuildJob {job : BuildJob}
    (hjob : s.buildJobs.get buildJobID = some job) (hstate : job.state ≠ .succeeded)
    (hversion : s.functions.get job.functionVersionID = some version)
    (hid : version.id = versionID) :
    (processBuildJob b run buildJobID).Ends MayFail
      (fun r s' => Settled versionID buildJobID s (∃ e, r = .error e) s') s := by
  have hfail {l : StoreCall} (hl : l ≠ .putObject) (hl' : l ≠ .publish) : ¬ MayFail l :=
    fun h => h.elim hl hl'
  have hjobID : job.id = buildJobID := Table.key_of_get hjob
  refine ends_find (hfail (by decide) (by decide)) hjob ?_
  rw [if_neg hstate]
  refine ends_find (hfail (by decide) (by decide)) hversion ?_
  split
  · exact (ends_markBuildFailed hid hjobID _ _).mono fun _ _ h => h _
  · next req _ =>
    refine Prog.ends_bind.mpr (Prog.ends_modify.mpr
      ⟨?_, fun h => absurd h (hfail (by decide) (by decide))⟩)
    rw [Prog.after_ok]
    refine Prog.ends_bind.mpr (Prog.ends_modify.mpr
      ⟨?_, fun h => absurd h (hfail (by decide) (by decide))⟩)
    rw [Prog.after_ok]
    -- the two puts are of the own records, and then the build takes over
    refine (ends_prepareVersion b run (by exact hid) (by exact hjobID) req).mono fun r s' h => ?_
    have hrebuilding : version.rebuilding.id = versionID := hid
    have hputVersion : OnlyOwn versionID buildJobID s _ := onlyOwn_putVersion hrebuilding s
    exact ⟨(hputVersion.trans (onlyOwn_putJob (by exact hjobID) _)).trans h.own, h.marked⟩

/-- `createFunctionVersion` once the build is stored: it is published, or processed at once. -/
def afterAnnouncement (version : FunctionVersion) (buildJob : BuildJob) : StoreM FunctionVersion :=
  match b.bus with
  | some publishBuild => do
    match ← (.query .publish fun _ =>
        publishBuild buildJob.targetRegion buildJob.id : StoreM Unit).result with
    | .ok () => pure version
    | .error e =>
      let _ ← (markBuildFailed (run.clock 9) version buildJob
        (.wrapped "publish build job: " e "")).result
      .throw e
  | none => do
    processBuildJob b run buildJob.id
    getFunctionVersion version.id

theorem createFunctionVersion_eq (req : DeployRequest) :
    createFunctionVersion b run req = (do
      let req ← .ret (normalizeDeployRequest req)
      enforceBuildQuota b req.projectID
      let (version, buildJob) ← initializeBuild b run req
      afterAnnouncement b run version buildJob) := by
  unfold createFunctionVersion afterAnnouncement
  cases b.bus <;> rfl

/-- **After the announcement**, an error means that both records are stored as failed. -/
theorem ends_afterAnnouncement (hversion : s.functions.get version.id = some version)
    (hjob : s.buildJobs.get buildJob.id = some buildJob) (hstate : buildJob.state = .queued)
    (href : buildJob.functionVersionID = version.id) :
    (afterAnnouncement b run version buildJob).Ends MayFail
      (fun r s' => Settled version.id buildJob.id s (∃ e, r = .error e) s') s := by
  unfold afterAnnouncement
  split
  · next publishBuild _ =>
    -- whether the bus answers with an error or does not answer, the records are marked
    have hmark (e : Err) : ((do
          let _ ← (markBuildFailed (run.clock 9) version buildJob
            (.wrapped "publish build job: " e "")).result
          .throw e) : StoreM FunctionVersion).Ends MayFail
        (fun r s' => Settled version.id buildJob.id s (∃ e, r = .error e) s') s := by
      refine Prog.ends_bind.mpr (Prog.ends_result.mpr ?_)
      refine (ends_markBuildFailed rfl rfl _ _).mono fun _ s' h => ?_
      exact Prog.after_ok.mpr (Prog.ends_throw.mpr (h _))
    refine Prog.ends_bind.mpr (Prog.ends_result.mpr (Prog.ends_query.mpr ⟨?_, fun _ e => hmark e⟩))
    cases publishBuild buildJob.targetRegion buildJob.id with
    | ok _ => exact Prog.ends_pure.mpr ⟨.refl s, fun ⟨_, h⟩ => by cases h⟩
    | error e => exact hmark e
  · refine Prog.ends_bind.mpr ?_
    have hget : s.functions.get buildJob.functionVersionID = some version := by rw [href, hversion]
    refine (ends_processBuildJob b run hjob (by rw [hstate]; decide) hget rfl).mono
      fun r s' h => ?_
    cases r with
    | error e => exact ⟨h.own, fun _ => h.marked ⟨e, rfl⟩⟩
    | ok _ =>
      -- the version is still there, so reading it succeeds
      have hpresent := h.own.present (by rw [hversion, Option.isSome_some])
      obtain ⟨stored, hstored⟩ := Option.isSome_iff_exists.mp hpresent
      refine Prog.after_ok.mpr (Prog.ends_query.mpr ⟨?_, fun hl => ?_⟩)
      · rw [find_of_get _ hstored]
        exact ⟨h.own, fun ⟨_, h⟩ => by cases h⟩
      · obtain hl | hl := hl <;> cases hl

end Rest

/-! ## A whole deploy -/

/-- Of the calls that were made, only those that may fail have failed. -/
def OnlyMayFail (calls : List (StoreCall × Option Err)) : Prop :=
  ∀ l e, (l, some e) ∈ calls → MayFail l

/-- The object store took the announcement of the job, which is the first put of a deploy. -/
def Announced (calls : List (StoreCall × Option Err)) : Prop :=
  (calls.find? fun call => call.1 == .putObject).all fun call => call.2.isNone

instance (calls : List (StoreCall × Option Err)) : Decidable (Announced calls) :=
  inferInstanceAs (Decidable (_ = true))

/-- No build job and no version that a deploy created is active. -/
structure NothingActive (s s' : Store) : Prop where
  jobs : ∀ id job, s.buildJobs.get id = none → s'.buildJobs.get id = some job →
    job.state ≠ .queued ∧ job.state ≠ .running
  versions : ∀ id version, s.functions.get id = none → s'.functions.get id = some version →
    version.state ≠ .building

/-- The generated identifiers are new. -/
structure Fresh (run : BuildRun) (s : Store) : Prop where
  job : s.buildJobs.get run.buildJobID = none
  version : s.functions.get run.versionID = none
  unreferenced : ∀ id job, s.buildJobs.get id = some job → job.functionVersionID ≠ run.versionID

section Deploy

variable {b : Builder} {run : BuildRun} {s s' : Store}

theorem nothingActive_refl (s : Store) : NothingActive s s where
  jobs _ _ hnone hsome := by cases hnone.symm.trans hsome
  versions _ _ hnone hsome := by cases hnone.symm.trans hsome

theorem nothingActive_of_marked (hown : OnlyOwn run.versionID run.buildJobID s s')
    (hmarked : Marked run.versionID run.buildJobID s') : NothingActive s s' where
  jobs id job hnone hsome := by
    by_cases hid : id = run.buildJobID
    · obtain ⟨marked, hget, hstate⟩ := hmarked.job
      rw [hid, hget] at hsome
      cases hsome
      rw [hstate]
      decide
    · rw [hown.jobs id hid, hnone] at hsome
      cases hsome
  versions id version hnone hsome := by
    by_cases hid : id = run.versionID
    · obtain ⟨marked, hget, hstate⟩ := hmarked.version
      rw [hid, hget] at hsome
      cases hsome
      rw [hstate]
      decide
    · rw [hown.versions id hid, hnone] at hsome
      cases hsome

theorem countBuildJobs_le_of_marked (hfresh : Fresh run s)
    (hown : OnlyOwn run.versionID run.buildJobID s s')
    (hmarked : Marked run.versionID run.buildJobID s') (projectID : String) :
    s'.countBuildJobs projectID [.queued, .running] ≤
      s.countBuildJobs projectID [.queued, .running] := by
  refine Table.countP_le_of_get fun job hget hcounts => ?_
  rw [Bool.and_eq_true] at hcounts
  have hid : job.id ≠ run.buildJobID := by
    -- the own job is marked, so it is not counted
    intro hid
    obtain ⟨marked, hstored, hstate⟩ := hmarked.job
    have heq : job = marked := by
      have hget' : s'.buildJobs.get job.id = some job := hget
      rw [hid] at hget'
      exact Option.some.inj (hget'.symm.trans hstored)
    rw [heq, hstate] at hcounts
    exact absurd hcounts.1 (by decide)
  have hjob : s.buildJobs.get job.id = some job := (hown.jobs job.id hid).symm.trans hget
  refine ⟨hjob, ?_⟩
  rw [Bool.and_eq_true, ← hown.versions _ (hfresh.unreferenced job.id job hjob)]
  exact hcounts

/-- The store after the version and the build job were created. -/
def created (b : Builder) (run : BuildRun) (req : DeployRequest) (s : Store) : Store :=
  { s with
    functions := s.functions.put (newFunctionVersion run req)
    buildJobs := s.buildJobs.put (newBuildJob b run req) }

theorem not_nothingActive_created (hfresh : Fresh run s) (req : DeployRequest) :
    ¬ NothingActive s (created b run req s) := by
  intro h
  have hstored :
      (created b run req s).buildJobs.get run.buildJobID = some (newBuildJob b run req) :=
    Table.get_put_of_key _ rfl
  exact (h.jobs run.buildJobID _ hfresh.job hstored).1 rfl

theorem runWith_enforceBuildQuota (b : Builder) (projectID : String) (faults : ℕ → Option Err)
    (s : Store) :
    ∃ r calls, (enforceBuildQuota b projectID).runWith faults s = ⟨r, s, calls⟩ ∧
      ∀ call ∈ calls, call.1 = .countBuildJobsByProjectStates := by
  unfold enforceBuildQuota
  split
  · exact ⟨_, _, rfl, fun _ h => absurd h List.not_mem_nil⟩
  · rw [Prog.runWith_bind]
    cases hfault : faults 0 with
    | some e =>
      refine ⟨.error e, [(.countBuildJobsByProjectStates, some e)], ?_, by simp⟩
      rw [countBuildJobsByProjectStates, Prog.query, Prog.runWith_call_of_some hfault]
      rfl
    | none =>
      rw [countBuildJobsByProjectStates, Prog.query, Prog.runWith_call_of_none hfault]
      dsimp only [Prog.runWith, id_eq]
      split
      · exact ⟨_, [(.countBuildJobsByProjectStates, none)], rfl, by simp⟩
      · exact ⟨_, [(.countBuildJobsByProjectStates, none)], rfl, by simp⟩

theorem runWith_initializeBuild {req : DeployRequest} {faults : ℕ → Option Err}
    (honly : OnlyMayFail ((initializeBuild b run req).runWith faults s).calls) :
    (∃ e, (initializeBuild b run req).runWith faults s =
      ⟨.error e, created b run req s,
        [(.putFunctionVersion, none), (.putBuildJob, none), (.putObject, some e)]⟩) ∨
    ∃ objects, (initializeBuild b run req).runWith faults s =
      ⟨.ok (newFunctionVersion run req, newBuildJob b run req),
        { created b run req s with objects := objects },
        [(.putFunctionVersion, none), (.putBuildJob, none), (.putObject, none)]⟩ := by
  unfold initializeBuild putFunctionVersion putBuildJob putObject at *
  dsimp only at *
  -- the two calls of the metadata store do not fail
  cases h0 : faults 0 with
  | some e =>
    rw [Prog.runWith_modify_bind_of_some h0] at honly
    obtain h | h := honly _ _ List.mem_cons_self <;> cases h
  | none =>
    rw [Prog.runWith_modify_bind_of_none h0] at honly ⊢
    cases h1 : faults (0 + 1) with
    | some e =>
      rw [Prog.runWith_modify_bind_of_some h1] at honly
      obtain h | h := honly _ _ (List.mem_cons_of_mem _ List.mem_cons_self) <;> cases h
    | none =>
      rw [Prog.runWith_modify_bind_of_none h1]
      cases h2 : faults (0 + 1 + 1) with
      | some e =>
        rw [Prog.runWith_modify_bind_of_some h2]
        exact .inl ⟨e, rfl⟩
      | none =>
        rw [Prog.runWith_modify_bind_of_none h2]
        exact .inr ⟨_, rfl⟩

theorem announced_of_no_put {calls : List (StoreCall × Option Err)}
    (h : ∀ call ∈ calls, call.1 ≠ .putObject) : Announced calls := by
  have hfind : (calls.find? fun call => call.1 == .putObject) = none :=
    List.find?_eq_none.mpr fun call hcall heq => h call hcall (eq_of_beq heq)
  rw [Announced, hfind]
  rfl

theorem announced_append_iff {before : List (StoreCall × Option Err)}
    (h : ∀ call ∈ before, call.1 ≠ .putObject) (outcome : Option Err)
    (after : List (StoreCall × Option Err)) :
    Announced (before ++ (.putObject, outcome) :: after) ↔ outcome = none := by
  have hfind : (before.find? fun call => call.1 == .putObject) = none :=
    List.find?_eq_none.mpr fun call hcall heq => h call hcall (eq_of_beq heq)
  rw [Announced, List.find?_append, hfind]
  cases outcome <;> simp

/-- What a deploy that returned an error left behind: nothing, or the records as they were created
because the announcement failed, or marked records. -/
inductive Left (b : Builder) (run : BuildRun) (s : Store) (state : Store)
    (calls : List (StoreCall × Option Err)) : Prop
  | nothing (hstate : state = s) (h : Announced calls)
  | asCreated (req : DeployRequest) (hstate : state = created b run req s) (h : ¬ Announced calls)
  | marked (hown : OnlyOwn run.versionID run.buildJobID s state)
      (hmarked : Marked run.versionID run.buildJobID state) (h : Announced calls)

/-- What a deploy that fails while announcing leaves behind. -/
theorem left_of_initializeBuild {req : DeployRequest} {faults : ℕ → Option Err} {e : Err}
    {before : List (StoreCall × Option Err)} {x : Prog.Outcome StoreCall Store Err FunctionVersion}
    (hbefore : ∀ call ∈ before, call.1 ≠ .putObject)
    (hx : (do
      let (version, buildJob) ← initializeBuild b run req
      afterAnnouncement b run version buildJob : StoreM FunctionVersion).runWith faults s = x)
    (honly : OnlyMayFail x.calls) (herror : x.result = .error e) :
    Left b run s x.state (before ++ x.calls) := by
  have hinit : OnlyMayFail ((initializeBuild b run req).runWith faults s).calls := fun l e hmem =>
    honly l e (hx ▸ Prog.mem_calls_runWith_bind hmem)
  rw [Prog.runWith_bind] at hx
  have hputs : ∀ call ∈ before ++ [(.putFunctionVersion, none), (.putBuildJob, none)],
      call.1 ≠ StoreCall.putObject := by
    intro call hcall
    obtain hcall | hcall := List.mem_append.mp hcall
    · exact hbefore call hcall
    · simp only [List.mem_cons, List.not_mem_nil, or_false] at hcall
      obtain rfl | rfl := hcall <;> decide
  obtain ⟨e', heq⟩ | ⟨objects, heq⟩ := runWith_initializeBuild hinit
  · -- the announcement fails
    rw [heq] at hx
    subst hx
    refine .asCreated req rfl ?_
    have hiff := announced_append_iff hputs (some e') []
    rw [List.append_assoc] at hiff
    exact fun h => by cases hiff.mp h
  · rw [heq] at hx
    subst hx
    have hiff (after : List (StoreCall × Option Err)) :=
      announced_append_iff hputs none after
    simp only [List.append_assoc, iff_true] at hiff
    -- what follows ends with marked records, since it returns an error
    have hcreated : OnlyOwn run.versionID run.buildJobID s
        { created b run req s with objects := objects } := by
      have hid : (newFunctionVersion run req).id = run.versionID := rfl
      have hjobID : (newBuildJob b run req).id = run.buildJobID := rfl
      have hjob : OnlyOwn run.versionID run.buildJobID s _ := onlyOwn_putJob hjobID s
      exact (onlyOwn_putVersion hid s).trans ⟨fun _ _ => rfl, hjob.jobs, fun h => h⟩
    have hversion : (created b run req s).functions.get (newFunctionVersion run req).id =
      some (newFunctionVersion run req) := Table.get_put_of_key _ rfl
    have hjob : (created b run req s).buildJobs.get (newBuildJob b run req).id =
      some (newBuildJob b run req) := Table.get_put_of_key _ rfl
    have hends := (ends_afterAnnouncement b run
      (s := { created b run req s with objects := objects }) hversion hjob rfl rfl).runWith
      (fun l e h => honly l e (List.mem_append_right _ h))
    exact .marked (hcreated.trans hends.own) (hends.marked ⟨e, herror⟩) (hiff _)

/-- What a failed deploy leaves behind. -/
theorem left_of_error {req : DeployRequest} {faults : ℕ → Option Err} {e : Err}
    {x : Prog.Outcome StoreCall Store Err FunctionVersion}
    (hx : (createFunctionVersion b run req).runWith faults s = x) (honly : OnlyMayFail x.calls)
    (herror : x.result = .error e) :
    Left b run s x.state x.calls := by
  rw [createFunctionVersion_eq, Prog.runWith_bind] at hx
  dsimp only [Prog.runWith] at hx
  cases hnormalize : normalizeDeployRequest req with
  | error e =>
    rw [hnormalize] at hx
    subst hx
    exact .nothing rfl rfl
  | ok req =>
    rw [hnormalize] at hx
    dsimp only [List.nil_append] at hx
    rw [Prog.runWith_bind] at hx
    -- the quota makes no put
    obtain ⟨r, quotaCalls, hquota, hcount⟩ :=
      runWith_enforceBuildQuota b req.projectID (fun n => faults (n + 0)) s
    have hnoPut : ∀ call ∈ quotaCalls, call.1 ≠ .putObject := fun call hcall => by
      rw [hcount call hcall]
      decide
    erw [hquota] at hx
    cases r with
    | error e =>
      subst hx
      exact .nothing rfl (announced_of_no_put hnoPut)
    | ok _ =>
      subst hx
      exact left_of_initializeBuild hnoPut rfl
        (fun l e h => honly l e (List.mem_append_right _ h)) herror

/-- **A failed deploy leaves nothing active exactly when the object store took the announcement of
its job**; the deploy then does not count against the quota either. This holds for every request and
every pattern of failures of the object store, the bus and the build. -/
theorem nothing_active_iff (b : Builder) (run : BuildRun) (req : DeployRequest)
    (faults : ℕ → Option Err) (s : Store) (e : Err) (hfresh : Fresh run s)
    (honly : OnlyMayFail ((createFunctionVersion b run req).runWith faults s).calls)
    (herror : ((createFunctionVersion b run req).runWith faults s).result = .error e) :
    (NothingActive s ((createFunctionVersion b run req).runWith faults s).state ↔
      Announced ((createFunctionVersion b run req).runWith faults s).calls) ∧
    (Announced ((createFunctionVersion b run req).runWith faults s).calls → ∀ projectID,
      ((createFunctionVersion b run req).runWith faults s).state.countBuildJobs projectID
        [.queued, .running] ≤ s.countBuildJobs projectID [.queued, .running]) := by
  cases left_of_error rfl honly herror with
  | nothing hstate hannounced =>
    rw [hstate]
    exact ⟨iff_of_true (nothingActive_refl s) hannounced, fun _ _ => le_rfl⟩
  | asCreated req' hstate hannounced =>
    rw [hstate]
    exact ⟨iff_of_false (not_nothingActive_created hfresh req') hannounced,
      fun h => absurd h hannounced⟩
  | marked hown hmarked hannounced =>
    exact ⟨iff_of_true (nothingActive_of_marked hown hmarked) hannounced,
      fun _ projectID => countBuildJobs_le_of_marked hfresh hown hmarked projectID⟩

end Deploy

/-! ## Two failed deploys -/

namespace Sample

open BuildSample (run request)

def builder : Builder :=
  { BuildSample.builder with
    prepareBuildOutput := fun _ => ([], .error (.other "no such file")) }

def refused : Err := .other "object store unavailable"

def faults (n : ℕ) : Option Err := if n = 3 then some refused else none

theorem fresh : Fresh run .new where
  job := rfl
  version := rfl
  unreferenced _ _ h := by cases h

theorem calls_eq : ((createFunctionVersion builder run request).runWith faults .new).calls =
    [(.countBuildJobsByProjectStates, none), (.putFunctionVersion, none), (.putBuildJob, none),
      (.putObject, some refused)] := by
  decide +kernel

theorem faultless : ∀ call ∈
    ((createFunctionVersion builder run request).runWith (fun _ => none) .new).calls,
    call.2 = none := by
  decide +kernel

end Sample

open Sample in
open BuildSample (run request) in
theorem nothing_active_iff_sample :
    Announced ((createFunctionVersion builder run request).runWith
        (fun _ => none) .new).calls ∧
      NothingActive .new ((createFunctionVersion builder run request).runWith
        (fun _ => none) .new).state := by
  have hiff := nothing_active_iff builder run request (fun _ => none) .new
    (.other "no such file") fresh (fun l e h => by cases faultless _ h)
    (by decide +kernel)
  have hannounced : Announced ((createFunctionVersion builder run
      request).runWith (fun _ => none) .new).calls := by
    decide +kernel
  exact ⟨hannounced, hiff.1.mpr hannounced⟩

open Sample in
open BuildSample (run request) in
/-- When the object store refuses the announcement, the job stays queued although the deploy has
failed. -/
theorem not_nothing_active : ¬ ∀ (b : Builder) (run : BuildRun) (req : DeployRequest)
    (faults : ℕ → Option Err) (s : Store) (e : Err), Fresh run s →
    OnlyMayFail ((createFunctionVersion b run req).runWith faults s).calls →
    ((createFunctionVersion b run req).runWith faults s).result = .error e →
    NothingActive s ((createFunctionVersion b run req).runWith faults s).state := by
  intro h
  have honly : OnlyMayFail ((createFunctionVersion builder run
      request).runWith faults .new).calls := by
    intro l e hmem
    rw [calls_eq] at hmem
    simp only [List.mem_cons, Prod.mk.injEq, reduceCtorEq, and_false, false_or,
      List.not_mem_nil, or_false] at hmem
    exact .inl hmem.1
  have hnothing := h builder run request faults .new refused
    fresh honly (by decide +kernel)
  have hqueued : (((createFunctionVersion builder run request).runWith
      faults .new).state.buildJobs.get "build").map (·.state) = some .queued := by
    decide +kernel
  obtain ⟨job, hjob, hstate⟩ := Option.map_eq_some_iff.mp hqueued
  exact (hnothing.jobs "build" job rfl hjob).1 hstate

end FailedDeploy

end Lecrev

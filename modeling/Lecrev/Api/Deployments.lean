import Lecrev.Api.Isolation

/-!
# The list and the detail of deployments

`listProjectDeployments` looks up the build and the latest job of a version in lists over the whole
project; `getDeployment` follows the identifier in the version and scans the jobs for the first one
of the version. Both show the same summary of a version, as long as the records refer to each other
as `initializeBuild` and the scheduler create them.
-/

namespace Lecrev

section Newest

variable {α : Type} {createdAt : α → Time} {id : α → String}

/-- The second is not newer than the first. -/
def NotNewer (createdAt : α → Time) (id : α → String) (a b : α) : Prop :=
  createdAt b < createdAt a ∨ createdAt b = createdAt a ∧ id b ≤ id a

theorem notNewer_iff {a b : α} :
    NotNewer createdAt id a b ↔
      toLex (createdAt b, id b) ≤ toLex (createdAt a, id a) := by
  rw [Prod.Lex.le_iff]
  rfl

instance : DecidableRel (NotNewer createdAt id) := fun _ _ => inferInstanceAs (Decidable (_ ∨ _))

theorem pairwise_newestFirst (createdAt : α → Time) (id : α → String) (l : List α) :
    (newestFirst createdAt id l).Pairwise (NotNewer createdAt id) := by
  have : Std.Total (NotNewer createdAt id) :=
    ⟨fun a b => by rw [notNewer_iff, notNewer_iff]; exact le_total _ _⟩
  have : IsTrans α (NotNewer createdAt id) :=
    ⟨fun a b c hab hbc => by rw [notNewer_iff] at *; exact hbc.trans hab⟩
  exact List.pairwise_insertionSort (NotNewer createdAt id) l

theorem notNewer_of_find {l : List α} {p : α → Bool} {a b : α}
    (h : (newestFirst createdAt id l).find? p = some a) (hb : b ∈ l) (hp : p b = true) :
    NotNewer createdAt id a b := by
  obtain ⟨-, before, after, happend, hbefore⟩ := List.find?_eq_some_iff_append.mp h
  have hmem : b ∈ before ++ a :: after := happend ▸ (mem_newestFirst createdAt id).mpr hb
  have hsorted := pairwise_newestFirst createdAt id l
  rw [happend] at hsorted
  rcases List.mem_append.mp hmem with hb | hb
  · have hnot := hbefore b hb
    rw [hp] at hnot
    cases hnot
  · rcases List.mem_cons.mp hb with rfl | hb
    · exact .inr ⟨rfl, le_refl _⟩
    · exact (List.pairwise_cons.mp (List.pairwise_append.mp hsorted).2.1).1 b hb

end Newest

namespace Api

/-! ## Records that refer to each other -/

/-- A version and its build job name each other, and every job is of the project of its version. -/
structure Linked (s : Store) : Prop where
  build : ∀ job ∈ s.buildJobs.values, ∀ version ∈ s.functions.values,
    job.functionVersionID = version.id ↔ version.buildJobID = job.id
  named : ∀ job ∈ s.buildJobs.values, trimSpace job.id ≠ ""
  project : ∀ job ∈ s.executionJobs.values, ∀ version ∈ s.functions.values,
    job.functionVersionID = version.id → job.projectID = version.projectID

/-- A build of the version, or none if there is none. -/
def IsBuildJob (s : Store) (versionID : String) : Option BuildJob → Prop
  | none => ∀ job ∈ s.buildJobs.values, job.functionVersionID ≠ versionID
  | some job => job ∈ s.buildJobs.values ∧ job.functionVersionID = versionID

/-- The job of a version with the greatest creation time and identifier, if there is one. -/
def IsLastJob (s : Store) (versionID : String) : Option ExecutionJob → Prop
  | none => ∀ job ∈ s.executionJobs.values, job.functionVersionID ≠ versionID
  | some job => job ∈ s.executionJobs.values ∧ job.functionVersionID = versionID ∧
      ∀ other ∈ s.executionJobs.values, other.functionVersionID = versionID →
        toLex (other.createdAt, other.id) ≤ toLex (job.createdAt, job.id)

/-- The summary of a build shows the build job, field by field. -/
structure BuildJobSummary.Shows (summary : BuildJobSummary) (job : BuildJob) : Prop where
  id : summary.id = job.id
  version : summary.functionVersionID = job.functionVersionID
  region : summary.targetRegion = job.targetRegion
  state : summary.state = job.state
  error : summary.error = job.error
  logs : summary.logsReady = true ↔ trimSpace job.logsKey ≠ ""
  createdAt : summary.createdAt = job.createdAt
  updatedAt : summary.updatedAt = job.updatedAt

/-- The summary of a result shows the result. -/
structure ExecutionResultSummary.Shows (summary : ExecutionResultSummary) (result : JobResult) :
    Prop where
  exitCode : summary.exitCode = result.exitCode
  host : summary.hostID = result.hostID
  region : summary.region = result.region
  startedAt : summary.startedAt = result.startedAt
  finishedAt : summary.finishedAt = result.finishedAt
  latency : summary.latencyMs = computeLatencyMs result.startedAt result.finishedAt
  logs : summary.logsReady = true ↔ trimSpace result.logsKey ≠ ""
  output : summary.outputReady = true ↔ trimSpace result.outputKey ≠ ""

/-- The summary of a job shows the job, field by field, and its result, if it has one. -/
structure ExecutionJobSummary.Shows (summary : ExecutionJobSummary) (job : ExecutionJob) :
    Prop where
  id : summary.id = job.id
  version : summary.functionVersionID = job.functionVersionID
  region : summary.targetRegion = job.targetRegion
  state : summary.state = job.state
  retries : summary.maxRetries = job.maxRetries
  attempts : summary.attemptCount = job.attemptCount
  lastAttempt : summary.lastAttemptID = job.lastAttemptID
  error : summary.error = job.error
  result : Option.Rel ExecutionResultSummary.Shows summary.result job.result
  createdAt : summary.createdAt = job.createdAt
  updatedAt : summary.updatedAt = job.updatedAt

theorem rel_map_left {α β : Type} {r : β → α → Prop} {f : α → β} (h : ∀ a, r (f a) a) :
    ∀ o : Option α, Option.Rel r (o.map f) o
  | none => .none
  | some a => .some (h a)

theorem shows_summarizeBuildJob (job : BuildJob) : (summarizeBuildJob job).Shows job :=
  ⟨rfl, rfl, rfl, rfl, rfl, decide_eq_true_iff, rfl, rfl⟩

theorem shows_summarizeExecutionJob (job : ExecutionJob) :
    (summarizeExecutionJob job).Shows job := by
  refine ⟨rfl, rfl, rfl, rfl, rfl, rfl, rfl, rfl, rel_map_left (fun result => ?_) _, rfl, rfl⟩
  exact ⟨rfl, rfl, rfl, rfl, rfl, rfl, decide_eq_true_iff, decide_eq_true_iff⟩

section Lookups

variable {s : Store} {version : FunctionVersion}

theorem eq_of_find {α : Type} {l : List α} {key : α → String} {k : String} {a : α}
    (h : l.find? (fun a => key a == k) = some a) : key a = k :=
  beq_iff_eq.mp (List.find?_some (p := fun a => key a == k) h)

/-- The builds of a project, the newest first. -/
def projectBuildJobs (s : Store) (projectID : String) : List BuildJob :=
  newestFirst BuildJob.createdAt BuildJob.id (s.buildJobs.values.filter fun job =>
    (s.functions.get job.functionVersionID).map (·.projectID) == some projectID)

/-- The jobs of a project, the newest first. -/
def projectJobs (s : Store) (projectID : String) : List ExecutionJob :=
  newestFirst ExecutionJob.createdAt ExecutionJob.id
    (s.executionJobs.values.filter fun job => job.projectID == projectID)

/-- The versions of a project, the newest first. -/
def projectVersions (s : Store) (projectID : String) : List FunctionVersion :=
  newestFirst FunctionVersion.createdAt FunctionVersion.id
    (s.functions.values.filter fun version => version.projectID == projectID)

theorem mem_projectBuildJobs (hversion : s.functions.get version.id = some version)
    {job : BuildJob} (hof : job.functionVersionID = version.id) :
    job ∈ projectBuildJobs s version.projectID ↔ job ∈ s.buildJobs.values := by
  rw [projectBuildJobs, mem_newestFirst, List.mem_filter, hof, hversion]
  exact and_iff_left (beq_self_eq_true _)

theorem mem_projectJobs (hs : Linked s) (hversion : s.functions.get version.id = some version)
    {job : ExecutionJob} (hof : job.functionVersionID = version.id) :
    job ∈ projectJobs s version.projectID ↔ job ∈ s.executionJobs.values := by
  rw [projectJobs, mem_newestFirst, List.mem_filter]
  refine and_iff_left_of_imp fun hmem => beq_iff_eq.mpr ?_
  exact hs.project job hmem version (Table.mem_values_of_get hversion) hof

theorem isBuildJob_find (hversion : s.functions.get version.id = some version) :
    IsBuildJob s version.id ((projectBuildJobs s version.projectID).find?
      fun job => job.functionVersionID == version.id) := by
  cases hfind : (projectBuildJobs s version.projectID).find?
      fun job => job.functionVersionID == version.id with
  | none =>
    intro job hmem hof
    exact List.find?_eq_none.mp hfind job ((mem_projectBuildJobs hversion hof).mpr hmem)
      (beq_iff_eq.mpr hof)
  | some job =>
    have hof : job.functionVersionID = version.id := eq_of_find hfind
    exact ⟨(mem_projectBuildJobs hversion hof).mp (List.mem_of_find?_eq_some hfind), hof⟩

theorem isLastJob_find (hs : Linked s) (hversion : s.functions.get version.id = some version) :
    IsLastJob s version.id ((projectJobs s version.projectID).find?
      fun job => job.functionVersionID == version.id) := by
  cases hfind : (projectJobs s version.projectID).find?
      fun job => job.functionVersionID == version.id with
  | none =>
    intro job hmem hof
    exact List.find?_eq_none.mp hfind job ((mem_projectJobs hs hversion hof).mpr hmem)
      (beq_iff_eq.mpr hof)
  | some job =>
    have hof : job.functionVersionID = version.id := eq_of_find hfind
    refine ⟨(mem_projectJobs hs hversion hof).mp (List.mem_of_find?_eq_some hfind), hof, ?_⟩
    intro other hother hotherOf
    have hlisted := (mem_projectJobs hs hversion hotherOf).mpr hother
    rw [projectJobs, mem_newestFirst] at hlisted
    exact notNewer_iff.mp (notNewer_of_find hfind hlisted (beq_iff_eq.mpr hotherOf))

/-- The lookup by the identifier in the version. -/
def namedBuildJob (s : Store) (version : FunctionVersion) : Option BuildJob :=
  if trimSpace version.buildJobID = "" then none else s.buildJobs.get version.buildJobID

theorem namedBuildJob_eq_find (hs : Linked s)
    (hversion : s.functions.get version.id = some version) :
    namedBuildJob s version = (projectBuildJobs s version.projectID).find?
      fun job => job.functionVersionID == version.id := by
  have hmem := Table.mem_values_of_get hversion
  have hbuild := isBuildJob_find hversion
  cases hfind : (projectBuildJobs s version.projectID).find?
      fun job => job.functionVersionID == version.id with
  | none =>
    rw [hfind] at hbuild
    unfold namedBuildJob
    split_ifs
    · rfl
    · -- a build job with the identifier in the version would be one of the version
      refine Option.eq_none_iff_forall_ne_some.mpr fun job hjob => ?_
      have hstored := Table.mem_values_of_get hjob
      exact hbuild job hstored
        ((hs.build job hstored version hmem).mpr (Table.key_of_get hjob).symm)
  | some job =>
    rw [hfind] at hbuild
    have hid := (hs.build job hbuild.1 version hmem).mp hbuild.2
    rw [namedBuildJob, hid, if_neg (hs.named job hbuild.1)]
    exact (Table.mem_values _ _).mp hbuild.1

end Lookups

/-! ## The handlers -/

section Handlers

variable {s : Store} {auth : AuthContext} {project : Project} {version : FunctionVersion}

/-- The deployment of a version in the list of its project. -/
def listedSummary (s : Store) (project : Project) (version : FunctionVersion) : DeploymentSummary :=
  summarizeDeployment project (projectBuildJobs s project.id) (projectJobs s project.id) version

/-- The list of a project before it is cut. -/
def projectDeployments (s : Store) (project : Project) : List DeploymentSummary :=
  sortDeployments ((projectVersions s project.id).map (listedSummary s project))

theorem run_authorizedProject (hget : s.projects.get project.id = some project)
    (hauth : auth.isAdmin = true ∨ project.tenantID = auth.tenantID) :
    (authorizedProject auth project.id).run s = (.ok project, s) := by
  unfold authorizedProject Lecrev.getProject
  rw [Prog.run_bind, Prog.run_query, find_of_get _ hget]
  dsimp only
  rw [if_neg, Prog.run_pure]
  rintro ⟨hadmin, htenant⟩
  rcases hauth with h | h
  · rw [hadmin] at h
    cases h
  · exact htenant h

theorem run_collectDeployments (s : Store) (project : Project) :
    (collectDeployments [project]).run s =
      (.ok ((projectVersions s project.id).map (listedSummary s project)), s) := by
  change (Except.ok ((projectVersions s project.id).map (listedSummary s project) ++ []), s) = _
  rw [List.append_nil]

theorem filterDeploymentSummaries_nil (toLower : String → String) (items : List DeploymentSummary) :
    filterDeploymentSummaries toLower items "" "" = items :=
  List.filter_eq_self.mpr fun _ _ => decide_eq_true ⟨.inl rfl, .inl rfl⟩

theorem run_listProjectDeployments (hget : s.projects.get project.id = some project)
    (hauth : auth.isAdmin = true ∨ project.tenantID = auth.tenantID) {srv : Server} {req : Request}
    (hlower : srv.toLower "" = "") (hstatus : trimSpace req.status = "")
    (henvironment : trimSpace req.environment = "") {limit : ℕ}
    (hlimit : queryLimit req.limit defaultProjectListLimit = .ok limit) :
    (listProjectDeployments srv auth req project.id).run s =
      (.ok ⟨200, .deployments ((projectDeployments s project).take limit)⟩, s) := by
  unfold listProjectDeployments listDeploymentsForProjects withLimit
  rw [Prog.run_bind, run_authorizedProject hget hauth, hlimit]
  dsimp only
  rw [Prog.run_bind, run_collectDeployments]
  dsimp only
  rw [hstatus, henvironment, hlower, filterDeploymentSummaries_nil]
  rfl

theorem run_deploymentBuildJob (s : Store) (version : FunctionVersion) :
    (deploymentBuildJob version).run s = (.ok (namedBuildJob s version), s) := by
  unfold deploymentBuildJob namedBuildJob
  split_ifs
  · rfl
  · rw [Prog.run_bind, Prog.run_result]
    unfold Lecrev.getBuildJob
    rw [Prog.run_query]
    cases hget : s.buildJobs.get version.buildJobID with
    | none =>
      rw [find_of_get_none _ hget]
      rfl
    | some job =>
      rw [find_of_get _ hget]
      rfl

theorem run_getDeployment (hget : s.projects.get project.id = some project)
    (hauth : auth.isAdmin = true ∨ project.tenantID = auth.tenantID)
    (hversion : s.functions.get version.id = some version) (hof : version.projectID = project.id) :
    (getDeployment auth version.id).run s =
      (.ok ⟨200, .deployment (summarizeDeployment project (namedBuildJob s version).toList
        (latestExecutionJobForVersion version.id (projectJobs s project.id)).toList version)⟩,
        s) := by
  unfold getDeployment loadAuthorizedDeployment getFunctionVersion
  rw [Prog.run_bind, Prog.run_bind, Prog.run_query, find_of_get _ hversion]
  dsimp only
  rw [Prog.run_bind, hof, run_authorizedProject hget hauth]
  dsimp only
  rw [Prog.run_bind, run_deploymentBuildJob]
  rfl

end Handlers

/-! ## The summaries -/

section Summaries

variable {s : Store} {auth : AuthContext} {project : Project} {version : FunctionVersion}

theorem find_toList_find {α : Type} (p : α → Bool) (l : List α) :
    (l.find? p).toList.find? p = l.find? p := by
  cases h : l.find? p with
  | none => rfl
  | some a =>
    rw [Option.toList_some, List.find?_singleton, if_pos (List.find?_some h)]

theorem summarizeDeployment_congr {buildJobs buildJobs' : List BuildJob}
    {jobs jobs' : List ExecutionJob}
    (hbuild : buildJobs'.find? (fun job => job.functionVersionID == version.id) =
      buildJobs.find? fun job => job.functionVersionID == version.id)
    (hjob : jobs'.find? (fun job => job.functionVersionID == version.id) =
      jobs.find? fun job => job.functionVersionID == version.id) :
    summarizeDeployment project buildJobs' jobs' version =
      summarizeDeployment project buildJobs jobs version := by
  unfold summarizeDeployment
  rw [hbuild, hjob]

theorem ids_projectDeployments (s : Store) (project : Project) :
    ((projectDeployments s project).map DeploymentSummary.id).Nodup := by
  have hperm : (projectDeployments s project).Perm
      ((projectVersions s project.id).map (listedSummary s project)) :=
    List.perm_insertionSort _ _
  have hversions : (projectVersions s project.id).Perm
      (s.functions.values.filter fun version => version.projectID == project.id) :=
    List.perm_insertionSort _ _
  rw [(hperm.map _).nodup_iff, List.map_map]
  change ((projectVersions s project.id).map FunctionVersion.id).Nodup
  rw [(hversions.map _).nodup_iff]
  exact s.functions.map_key_values_nodup.sublist ((List.filter_sublist).map _)

theorem filter_eq_singleton {α : Type} {key : α → String} {l : List α} {a : α}
    (hnodup : (l.map key).Nodup) (ha : a ∈ l) : l.filter (fun b => key b == key a) = [a] := by
  refine List.perm_singleton.mp ((List.perm_ext_iff_of_nodup (hnodup.of_map.filter _)
    (List.nodup_singleton a)).mpr fun b => ?_)
  rw [List.mem_filter, List.mem_singleton, beq_iff_eq]
  constructor
  · rintro ⟨hb, hkey⟩
    exact List.inj_on_of_nodup_map hnodup hb ha hkey
  · rintro rfl
    exact ⟨ha, rfl⟩

theorem summary_getDeployment (hs : Linked s)
    (hversion : s.functions.get version.id = some version) (hof : version.projectID = project.id) :
    summarizeDeployment project (namedBuildJob s version).toList
        (latestExecutionJobForVersion version.id (projectJobs s project.id)).toList version =
      listedSummary s project version := by
  refine summarizeDeployment_congr ?_ (find_toList_find _ _)
  rw [namedBuildJob_eq_find hs hversion, hof]
  exact find_toList_find _ _

theorem updatedAt_summarizeDeployment (buildJobs : List BuildJob) (jobs : List ExecutionJob) :
    (summarizeDeployment project buildJobs jobs version).updatedAt =
      (((buildJobs.find? fun job => job.functionVersionID == version.id).map
          BuildJob.updatedAt).toList ++
        ((jobs.find? fun job => job.functionVersionID == version.id).map
          ExecutionJob.updatedAt).toList).foldl max version.createdAt := by
  unfold summarizeDeployment
  cases buildJobs.find? fun job => job.functionVersionID == version.id <;>
    cases jobs.find? fun job => job.functionVersionID == version.id <;>
    simp

end Summaries

/-- **List and detail.** Without filters, the list of an accessible project is cut from one in which
each version of the project has exactly one summary. It is the summary that the detail returns. It
shows the build job of the version and, as its last job, the job of the version with the greatest
creation time and identifier; and it was updated when the version was created or its build or its
last job were updated, whichever came last. -/
theorem deployment_list_agrees {s : Store} (hs : Linked s) (srv : Server)
    (hlower : srv.toLower "" = "") (auth : AuthContext) (project : Project)
    (hget : s.projects.get project.id = some project)
    (hauth : auth.isAdmin = true ∨ project.tenantID = auth.tenantID) :
    ∃ deployments : List DeploymentSummary,
      (∀ req limit, trimSpace req.status = "" → trimSpace req.environment = "" →
        queryLimit req.limit defaultProjectListLimit = .ok limit →
        (listProjectDeployments srv auth req project.id).run s =
          (.ok ⟨200, .deployments (deployments.take limit)⟩, s)) ∧
      ∀ version, s.functions.get version.id = some version → version.projectID = project.id →
        ∃ summary build last,
          deployments.filter (fun deployment => deployment.id == version.id) = [summary] ∧
          (getDeployment auth version.id).run s = (.ok ⟨200, .deployment summary⟩, s) ∧
          IsBuildJob s version.id build ∧ Option.Rel BuildJobSummary.Shows summary.build build ∧
          IsLastJob s version.id last ∧ Option.Rel ExecutionJobSummary.Shows summary.lastJob last ∧
          summary.updatedAt = ((build.map BuildJob.updatedAt).toList ++
            (last.map ExecutionJob.updatedAt).toList).foldl max version.createdAt := by
  refine ⟨projectDeployments s project, fun req limit hstatus henvironment hlimit =>
    run_listProjectDeployments hget hauth hlower hstatus henvironment hlimit, ?_⟩
  intro version hversion hof
  have hlisted : listedSummary s project version ∈ projectDeployments s project := by
    refine (mem_newestFirst _ _).mpr (List.mem_map.mpr ⟨version, ?_, rfl⟩)
    refine (mem_newestFirst _ _).mpr (List.mem_filter.mpr ⟨?_, beq_iff_eq.mpr hof⟩)
    exact Table.mem_values_of_get hversion
  have hdetail := run_getDeployment hget hauth hversion hof
  rw [summary_getDeployment hs hversion hof] at hdetail
  have hbuild := isBuildJob_find hversion
  have hlast := isLastJob_find hs hversion
  rw [hof] at hbuild hlast
  exact ⟨listedSummary s project version, _, _,
    filter_eq_singleton (ids_projectDeployments s project) hlisted, hdetail,
    hbuild, rel_map_left shows_summarizeBuildJob _, hlast,
    rel_map_left shows_summarizeExecutionJob _, updatedAt_summarizeDeployment _ _⟩

namespace Sample

def built : BuildJob where
  id := "build"
  functionVersionID := "version"
  targetRegion := "region"
  metadata := []
  state := .succeeded
  logsKey := "logs"
  request := BuildSample.request
  createdAt := 1
  updatedAt := 3

def job (id : String) : ExecutionJob where
  id := id
  functionVersionID := "version"
  projectID := "project"
  state := .succeeded
  payload := []
  maxRetries := 0
  createdAt := 4
  updatedAt := 5

def deployed : Store :=
  { Execution.Sample.store with
    buildJobs := Table.empty.put built
    executionJobs := (Table.empty.put (job "a")).put (job "b") }

theorem linked_deployed : Linked deployed where
  build := by decide +kernel
  named := by decide +kernel
  project := by decide +kernel

end Sample

theorem deployment_list_agrees_sample :
    Linked Sample.deployed ∧ ∃ (deployments : List DeploymentSummary) (summary : DeploymentSummary),
      (listProjectDeployments Sample.server ⟨"tenant", false⟩ (Sample.request .listDeployments)
        "project").run Sample.deployed =
          (.ok ⟨200, .deployments (deployments.take defaultProjectListLimit)⟩, Sample.deployed) ∧
      (getDeployment ⟨"tenant", false⟩ "version").run Sample.deployed =
        (.ok ⟨200, .deployment summary⟩, Sample.deployed) ∧
      deployments.filter (fun deployment => deployment.id == "version") = [summary] := by
  obtain ⟨deployments, hlist, hdetail⟩ := deployment_list_agrees Sample.linked_deployed
    Sample.server (by decide +kernel) ⟨"tenant", false⟩ DomainSample.project rfl (.inr rfl)
  obtain ⟨summary, _, _, hfilter, hget, -⟩ := hdetail DomainSample.version rfl rfl
  refine ⟨Sample.linked_deployed, deployments, summary, ?_, hget, hfilter⟩
  exact hlist _ _ (by decide +kernel) (by decide +kernel) (by decide +kernel)

end Api

end Lecrev

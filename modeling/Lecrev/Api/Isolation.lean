import Lecrev.Api.Handlers
import Lecrev.Concurrency.Sequential
import Lecrev.Execution.System

/-!
# Tenants are isolated

A request of the `/v1` group that is authenticated with a tenant's key and addresses something of
another tenant is refused before it has an effect, and a list shows only what is the tenant's own.

Everything belongs to a project, along the path that the handlers follow as well: a build job
through its version, an attempt through its job, a trigger through its version (`Resource.owner`).
`Route.addresses` says what a route addresses. A handler looks up the owner before it does anything
else, so that it only reads (`Prog.Reads`) until the tenants have been compared. -/

namespace Lecrev

variable {tenantID projectID : String}

namespace Api

/-! ## Who owns what -/

/-- A record that a request can address or a response can show, by its identifier. -/
inductive Resource
  | project (id : String)
  | version (id : String)
  | buildJob (id : String)
  | job (id : String)
  | attempt (id : String)
  | costRecord (id : String)
  | httpTrigger (token : String)
  | webhookTrigger (token : String)
  deriving DecidableEq, Repr

/-- The project of a version. -/
def versionOwner (s : Store) (versionID : String) : Option Project :=
  (s.functions.get versionID).bind fun version => s.projects.get version.projectID

/-- The project of an execution job. -/
def jobOwner (s : Store) (jobID : String) : Option Project :=
  (s.executionJobs.get jobID).bind fun job => s.projects.get job.projectID

/-- The project that a record belongs to. -/
def Resource.owner (s : Store) : Resource → Option Project
  | .project id => s.projects.get id
  | .version id => versionOwner s id
  | .buildJob id => (s.buildJobs.get id).bind fun job => versionOwner s job.functionVersionID
  | .job id => jobOwner s id
  | .attempt id => (s.attempts.get id).bind fun attempt => jobOwner s attempt.jobID
  | .costRecord id => (s.costRecords.get id).bind fun record => jobOwner s record.jobID
  | .httpTrigger token =>
    (s.httpTriggers.get token).bind fun trigger => versionOwner s trigger.functionVersionID
  | .webhookTrigger token =>
    (s.webhookTriggers.get token).bind fun trigger => versionOwner s trigger.functionVersionID

/-- The record belongs to a project of the tenant. -/
def Resource.OwnedBy (s : Store) (tenantID : String) (resource : Resource) : Prop :=
  ∃ project, resource.owner s = some project ∧ project.tenantID = tenantID

/-- The record belongs to a project of another tenant. -/
def Resource.Foreign (s : Store) (tenantID : String) (resource : Resource) : Prop :=
  ∃ project, resource.owner s = some project ∧ project.tenantID ≠ tenantID

theorem Resource.Foreign.not_ownedBy {s : Store} {resource : Resource}
    (h : resource.Foreign s tenantID) : ¬ resource.OwnedBy s tenantID := by
  rintro ⟨project, hproject, htenant⟩
  obtain ⟨project', hproject', htenant'⟩ := h
  rw [Option.some.inj (hproject.symm.trans hproject')] at htenant
  exact htenant' htenant

/-- What a route addresses, if it addresses a record of a project. A deployment is a version. -/
def Route.addresses (srv : Server) : Route → Option Resource
  | .createProject (.ok body) =>
    some (.project (normalizeProjectID srv.toLower (trimSpace body.id) (trimSpace body.name)))
  | .getDeployment id | .getDeploymentLogs id | .getDeploymentOutput id => some (.version id)
  | .getProject id | .getProjectOverview id | .listProjectDeployments id
  | .listProjectFunctions id | .listProjectBuildJobs id | .listProjectJobs id
  | .createFunction id _ => some (.project id)
  | .getBuildJob id | .getBuildJobLogs id => some (.buildJob id)
  | .invokeFunction id _ | .getFunction id | .getFunctionSite id | .getFunctionWarmStatus id
  | .prepareFunction id | .createHTTPTrigger id _ | .listHTTPTriggers id
  | .createWebhookTrigger id _ | .listWebhookTriggers id => some (.version id)
  | .getJob id | .getJobLogs id | .getJobOutput id | .listJobAttempts id | .listJobCosts id =>
    some (.job id)
  | .createProject (.error _) | .listDeployments | .listProjects | .listRegions
  | .listWarmPools _ | .listRegionHosts _ | .drainHost _ _ _ => none

/-- The routes that list records of projects. -/
def Route.isList : Route → Bool
  | .listDeployments | .listProjects | .getProjectOverview _ | .listProjectDeployments _
  | .listProjectFunctions _ | .listProjectBuildJobs _ | .listProjectJobs _
  | .listHTTPTriggers _ | .listWebhookTriggers _ | .listJobAttempts _ | .listJobCosts _ => true
  | _ => false

/-- What a deployment shows: the version, its build and its last job. -/
def DeploymentSummary.items (deployment : DeploymentSummary) : List Resource :=
  .version deployment.id :: (deployment.build.map fun build => .buildJob build.id).toList ++
    (deployment.lastJob.map fun job => .job job.id).toList

/-- The resources that a body tells about. -/
def Body.items : Body → List Resource
  | .projects l => l.map fun project => .project project.id
  | .overview o =>
    .project o.project.id :: (o.recentFunctions.map fun version => .version version.id) ++
      (o.recentBuildJobs.map fun job => .buildJob job.id) ++
      o.recentJobs.map fun job => .job job.id
  | .deployments l => l.flatMap DeploymentSummary.items
  | .versions l => l.map fun version => .version version.id
  | .buildJobs l => l.map fun job => .buildJob job.id
  | .jobs l => l.map fun job => .job job.id
  | .attempts l => l.map fun attempt => .attempt attempt.1.id
  | .costs l => l.map fun record => .costRecord record.id
  | .httpTriggers l => l.map fun trigger => .httpTrigger trigger.token
  | .webhookTriggers l => l.map fun trigger => .webhookTrigger trigger.token
  | _ => []

/-! ## What the checks establish -/

section Checks

variable {F : StoreCall → Prop} {auth : AuthContext} {s : Store}

theorem reads_find {α : Type} [Keyed α String] {l : StoreCall} {kind key : String}
    {table : Store → Table α} :
    (Prog.query l fun s => find kind (table s) key : StoreM α).Reads F
      (fun v => (table s).get key = some v) s :=
  Prog.reads_query fun _ h => find_eq_ok_iff.mp h

theorem reads_authorizedProject (hadmin : auth.isAdmin = false) (projectID : String) :
    (authorizedProject auth projectID).Reads F
      (fun project => s.projects.get projectID = some project ∧
        project.tenantID = auth.tenantID) s := by
  refine Prog.Reads.bind reads_find fun project hproject => ?_
  split
  next => exact Prog.reads_throw _
  next htenant =>
    refine Prog.reads_pure ⟨hproject, ?_⟩
    by_contra hne
    exact htenant ⟨hadmin, hne⟩

theorem reads_authorizeProject (hadmin : auth.isAdmin = false) (projectID : String) :
    (authorizeProject auth projectID).Reads F
      (fun _ => ∃ project, s.projects.get projectID = some project ∧
        project.tenantID = auth.tenantID) s :=
  (reads_authorizedProject hadmin projectID).bind fun project hproject =>
    Prog.reads_pure ⟨project, hproject⟩

theorem reads_authorizedJob (hadmin : auth.isAdmin = false) (jobID : String) :
    (authorizedJob auth jobID).Reads F
      (fun _ => (Resource.job jobID).OwnedBy s auth.tenantID) s := by
  refine Prog.Reads.bind reads_find fun job hjob => ?_
  refine (reads_authorizeProject hadmin job.projectID).bind fun _ hproject => ?_
  obtain ⟨project, hproject, htenant⟩ := hproject
  refine Prog.reads_pure ⟨project, ?_, htenant⟩
  rw [Resource.owner, jobOwner, hjob, Option.bind_some, hproject]

theorem versionOwner_eq {versionID : String} {version : FunctionVersion}
    (h : s.functions.get versionID = some version) :
    versionOwner s versionID = s.projects.get version.projectID := by
  rw [versionOwner, h, Option.bind_some]

theorem ownedBy_version {versionID : String} {version : FunctionVersion} {project : Project}
    (hversion : s.functions.get versionID = some version)
    (hproject : s.projects.get version.projectID = some project)
    (htenant : project.tenantID = tenantID) : (Resource.version versionID).OwnedBy s tenantID := by
  refine ⟨project, ?_, htenant⟩
  rw [Resource.owner, versionOwner_eq hversion, hproject]

theorem reads_authorizedVersion (hadmin : auth.isAdmin = false) (versionID : String) :
    (authorizedVersion auth versionID).Reads F
      (fun _ => (Resource.version versionID).OwnedBy s auth.tenantID) s := by
  refine Prog.Reads.bind reads_find fun version hversion => ?_
  refine (reads_authorizeProject hadmin version.projectID).bind fun _ hproject => ?_
  obtain ⟨project, hproject, htenant⟩ := hproject
  exact Prog.reads_pure (ownedBy_version hversion hproject htenant)

theorem reads_authorizedBuildJob (hadmin : auth.isAdmin = false) (jobID : String) :
    (authorizedBuildJob auth jobID).Reads F
      (fun _ => (Resource.buildJob jobID).OwnedBy s auth.tenantID) s := by
  refine Prog.Reads.bind reads_find fun job hjob => ?_
  refine Prog.Reads.bind reads_find fun version hversion => ?_
  refine (reads_authorizeProject hadmin version.projectID).bind fun _ hproject => ?_
  obtain ⟨project, hproject, htenant⟩ := hproject
  refine Prog.reads_pure ⟨project, ?_, htenant⟩
  rw [Resource.owner, hjob, Option.bind_some, versionOwner_eq hversion, hproject]

theorem reads_loadAuthorizedDeployment (hadmin : auth.isAdmin = false) {deploymentID : String}
    (hforeign : ¬ (Resource.version deploymentID).OwnedBy s auth.tenantID) :
    (loadAuthorizedDeployment auth deploymentID).Reads F (fun _ => False) s := by
  refine Prog.Reads.bind reads_find fun version hversion => ?_
  refine (reads_authorizedProject hadmin version.projectID).bind fun project hproject => ?_
  have howned := ownedBy_version hversion hproject.1 hproject.2
  have hfalse := hforeign howned
  exact hfalse.elim

theorem reads_requireAdmin (hadmin : auth.isAdmin = false) :
    (requireAdmin auth).Reads F (fun _ => False) s := by
  rw [requireAdmin, if_neg (by rw [hadmin]; exact Bool.false_ne_true)]
  exact Prog.reads_throw _

end Checks

/-! ## Refusals -/

section Refusals

variable {F : StoreCall → Prop} {auth : AuthContext} {s : Store} {srv : Server} {req : Request}

/-- The request is refused and has no effect. -/
def Refused (F : StoreCall → Prop) (p : StoreM Response) (s : Store) : Prop :=
  p.Reads F (fun response => response.success = false) s

theorem refused_of_check {α : Type} {p : StoreM α} {f : α → StoreM Response}
    (hp : p.Reads F (fun _ => False) s) : Refused F (p >>= f) s :=
  hp.bind fun _ h => h.elim

theorem refused_httpError {message : String} {status : ℕ}
    (h : (httpError message status).success = false) :
    Refused F (pure (httpError message status)) s :=
  Prog.reads_pure h

theorem reads_ensureProject {name : String} {now : Time}
    (hforeign : (Resource.project projectID).Foreign s auth.tenantID) :
    (ensureProject projectID auth.tenantID name now).Reads F (fun _ => False) s := by
  obtain ⟨project, hproject, htenant⟩ := hforeign
  rw [Resource.owner] at hproject
  rw [ensureProject]
  refine ⟨Prog.ends_action.mpr ⟨?_, fun _ _ => ⟨rfl, fun _ h => by cases h⟩⟩⟩
  simp only [hproject]
  rw [if_pos htenant]
  exact ⟨rfl, fun _ h => by cases h⟩

theorem reads_ensureAuthorizedProject (hadmin : auth.isAdmin = false) {name : String} {now : Time}
    (hforeign : (Resource.project projectID).Foreign s auth.tenantID) :
    (ensureAuthorizedProject auth projectID name now).Reads F (fun _ => False) s := by
  refine Prog.Reads.result_bind reads_find fun r hr => ?_
  cases r with
  | ok project =>
    obtain ⟨stored, hstored, htenant⟩ := hforeign
    have heq : project = stored := Option.some.inj ((hr project rfl).symm.trans hstored)
    dsimp only
    rw [heq, if_pos ⟨hadmin, htenant⟩]
    exact Prog.reads_throw _
  | error e =>
    dsimp only
    split
    · exact reads_ensureProject hforeign
    · exact Prog.reads_throw _

theorem refused_of_foreign {α : Type} {p : StoreM α} {f : α → StoreM Response} {resource : Resource}
    (hp : p.Reads F (fun _ => resource.OwnedBy s auth.tenantID) s)
    (hforeign : resource.Foreign s auth.tenantID) : Refused F (p >>= f) s :=
  refused_of_check (hp.mono fun _ => hforeign.not_ownedBy)

theorem refused_createProject {body : CreateProjectRequest}
    (hforeign : (Resource.project (normalizeProjectID srv.toLower (trimSpace body.id)
      (trimSpace body.name))).Foreign s auth.tenantID) :
    Refused F (createProject srv auth req (.ok body)) s := by
  unfold createProject
  dsimp only
  by_cases hname : trimSpace body.name = ""
  · rw [if_pos hname]
    exact refused_httpError rfl
  · rw [if_neg hname]
    by_cases hid : normalizeProjectID srv.toLower (trimSpace body.id) (trimSpace body.name) = ""
    · rw [if_pos hid]
      exact refused_httpError rfl
    · rw [if_neg hid]
      exact refused_of_check (reads_ensureProject hforeign)

theorem refused_createFunction (hadmin : auth.isAdmin = false)
    {body : Except String CreateFunctionRequest}
    (hforeign : (Resource.project projectID).Foreign s auth.tenantID) :
    Refused F (createFunction srv auth req projectID body) s := by
  unfold createFunction
  by_cases hid : projectID = ""
  · rw [if_pos hid]
    exact refused_httpError rfl
  · rw [if_neg hid]
    exact refused_of_check (reads_ensureAuthorizedProject hadmin hforeign)

theorem refused_invokeFunction (hadmin : auth.isAdmin = false) {versionID : String}
    {body : Except String InvokeRequest}
    (hforeign : (Resource.version versionID).Foreign s auth.tenantID) :
    Refused F (invokeFunction srv auth req versionID body) s := by
  unfold invokeFunction
  by_cases hid : versionID = ""
  · rw [if_pos hid]
    exact refused_httpError rfl
  · rw [if_neg hid]
    -- the state of the version is looked at first; this reads, too
    refine Prog.Reads.bind reads_find fun version hversion => ?_
    by_cases hready : version.state ≠ .ready
    · rw [if_pos hready]
      exact refused_of_check (Prog.reads_throw _)
    · rw [if_neg hready]
      refine (reads_authorizeProject hadmin version.projectID).bind fun _ hproject => ?_
      obtain ⟨project, hproject, htenant⟩ := hproject
      have howned := ownedBy_version hversion hproject htenant
      have hfalse := hforeign.not_ownedBy howned
      exact hfalse.elim

/-- **Refusal.** A handler whose route addresses a record of another tenant's project refuses the
request, whichever store calls fail, and leaves the store as it is. -/
theorem handler_refused (hadmin : auth.isAdmin = false) {route : Route} {resource : Resource}
    (haddr : route.addresses srv = some resource) (hforeign : resource.Foreign s auth.tenantID) :
    Refused F (handler srv auth req route) s := by
  have hproject (id : String) : (authorizedProject auth id).Reads F
      (fun _ => (Resource.project id).OwnedBy s auth.tenantID) s :=
    (reads_authorizedProject hadmin id).mono fun project h => ⟨project, h.1, h.2⟩
  have hversion (id : String) := reads_authorizedVersion (F := F) (s := s) hadmin id
  have hjob (id : String) := reads_authorizedJob (F := F) (s := s) hadmin id
  have hbuildJob (id : String) := reads_authorizedBuildJob (F := F) (s := s) hadmin id
  cases route with
  | createProject body =>
    cases body with
    | error e => cases haddr
    | ok body =>
      cases haddr
      exact refused_createProject hforeign
  | createFunction projectID body =>
    cases haddr
    exact refused_createFunction hadmin hforeign
  | invokeFunction versionID body =>
    cases haddr
    exact refused_invokeFunction hadmin hforeign
  | prepareFunction versionID => exact refused_of_check (reads_requireAdmin hadmin)
  | getDeployment id | getDeploymentLogs id | getDeploymentOutput id =>
    cases haddr
    exact refused_of_check (reads_loadAuthorizedDeployment hadmin hforeign.not_ownedBy)
  | getProject id | getProjectOverview id | listProjectDeployments id | listProjectFunctions id
  | listProjectBuildJobs id | listProjectJobs id =>
    cases haddr
    exact refused_of_foreign (hproject id) hforeign
  | getBuildJob id | getBuildJobLogs id =>
    cases haddr
    exact refused_of_foreign (hbuildJob id) hforeign
  | getFunction id | getFunctionSite id | getFunctionWarmStatus id | listHTTPTriggers id
  | listWebhookTriggers id =>
    cases haddr
    exact refused_of_foreign (hversion id) hforeign
  | createHTTPTrigger id body | createWebhookTrigger id body =>
    cases haddr
    exact refused_of_foreign (hversion id) hforeign
  | getJob id | getJobLogs id | getJobOutput id | listJobAttempts id | listJobCosts id =>
    cases haddr
    exact refused_of_foreign (hjob id) hforeign
  | listDeployments | listProjects | listRegions => cases haddr
  | listWarmPools region | listRegionHosts region => cases haddr
  | drainHost region hostID body => cases haddr

end Refusals

/-! ## Lists -/

section Lists

variable {F : StoreCall → Prop} {auth : AuthContext} {s : Store} {srv : Server} {req : Request}

/-- The list shows only what is the tenant's own. -/
def Lists (F : StoreCall → Prop) (tenantID : String) (p : StoreM Response) (s : Store) : Prop :=
  p.Reads F (fun response => ∀ item ∈ response.body.items, item.OwnedBy s tenantID) s

theorem lists_withLimit {fallback : ℕ} {next : ℕ → StoreM Response}
    (h : ∀ limit, Lists F tenantID (next limit) s) :
    Lists F tenantID (withLimit req fallback next) s := by
  unfold withLimit
  split
  · exact Prog.reads_pure fun item hitem => absurd hitem List.not_mem_nil
  · exact h _

theorem reads_listFunctionVersions (projectID : String) :
    (listFunctionVersionsByProject projectID).Reads F
      (fun versions => ∀ version ∈ versions,
        s.functions.get version.id = some version ∧ version.projectID = projectID) s := by
  refine Prog.reads_query fun versions h version hmem => ?_
  cases h
  rw [mem_newestFirst, List.mem_filter, Table.mem_values] at hmem
  exact ⟨hmem.1, eq_of_beq hmem.2⟩

theorem reads_listBuildJobs (projectID : String) :
    (listBuildJobsByProject projectID).Reads F
      (fun jobs => ∀ job ∈ jobs, s.buildJobs.get job.id = some job ∧
        ∃ version, s.functions.get job.functionVersionID = some version ∧
          version.projectID = projectID) s := by
  refine Prog.reads_query fun jobs h job hmem => ?_
  cases h
  rw [mem_newestFirst, List.mem_filter, Table.mem_values] at hmem
  exact ⟨hmem.1, Option.map_eq_some_iff.mp (eq_of_beq hmem.2)⟩

theorem reads_listExecutionJobs (projectID : String) :
    (listExecutionJobsByProject projectID).Reads F
      (fun jobs => ∀ job ∈ jobs,
        s.executionJobs.get job.id = some job ∧ job.projectID = projectID) s := by
  refine Prog.reads_query fun jobs h job hmem => ?_
  cases h
  rw [mem_newestFirst, List.mem_filter, Table.mem_values] at hmem
  exact ⟨hmem.1, eq_of_beq hmem.2⟩

/-- The versions, build jobs and jobs of a project of the tenant are the tenant's own. -/
structure OwnProject (s : Store) (tenantID : String) (project : Project) : Prop where
  stored : s.projects.get project.id = some project
  tenant : project.tenantID = tenantID

namespace OwnProject

variable {project : Project}

theorem of_get (hget : s.projects.get projectID = some project)
    (htenant : project.tenantID = tenantID) :
    OwnProject s tenantID project ∧ project.id = projectID := by
  have hid : project.id = projectID := Table.key_of_get hget
  exact ⟨⟨by rw [hid]; exact hget, htenant⟩, hid⟩

theorem version (h : OwnProject s tenantID project) {version : FunctionVersion}
    (hversion : s.functions.get version.id = some version)
    (hproject : version.projectID = project.id) :
    (Resource.version version.id).OwnedBy s tenantID :=
  ownedBy_version hversion (by rw [hproject]; exact h.stored) h.tenant

theorem buildJob (h : OwnProject s tenantID project) {job : BuildJob}
    (hjob : s.buildJobs.get job.id = some job)
    (hversion : ∃ version, s.functions.get job.functionVersionID = some version ∧
      version.projectID = project.id) :
    (Resource.buildJob job.id).OwnedBy s tenantID := by
  obtain ⟨version, hversion, hproject⟩ := hversion
  refine ⟨project, ?_, h.tenant⟩
  rw [Resource.owner, hjob, Option.bind_some, versionOwner_eq hversion, hproject, h.stored]

theorem job (h : OwnProject s tenantID project) {job : ExecutionJob}
    (hjob : s.executionJobs.get job.id = some job) (hproject : job.projectID = project.id) :
    (Resource.job job.id).OwnedBy s tenantID := by
  refine ⟨project, ?_, h.tenant⟩
  rw [Resource.owner, jobOwner, hjob, Option.bind_some, hproject, h.stored]

end OwnProject

theorem reads_authorizedProject_own (hadmin : auth.isAdmin = false) (projectID : String) :
    (authorizedProject auth projectID).Reads F (OwnProject s auth.tenantID) s :=
  (reads_authorizedProject hadmin projectID).mono fun _ h => (OwnProject.of_get h.1 h.2).1

theorem reads_listProjectsByTenant (tenantID : String) :
    (listProjectsByTenant tenantID).Reads F
      (fun projects => ∀ project ∈ projects, OwnProject s tenantID project) s := by
  refine Prog.reads_query fun projects h project hmem => ?_
  cases h
  rw [mem_newestFirst, List.mem_filter, Table.mem_values] at hmem
  exact ⟨hmem.1, eq_of_beq hmem.2⟩

theorem lists_listProjects : Lists F auth.tenantID (listProjects auth req) s := by
  refine lists_withLimit fun limit => ?_
  refine (reads_listProjectsByTenant auth.tenantID).bind fun projects hown => ?_
  refine Prog.reads_pure fun item hitem => ?_
  obtain ⟨project, hmem, rfl⟩ := List.mem_map.mp hitem
  have hproject := hown project (List.mem_of_mem_take hmem)
  exact ⟨project, hproject.stored, hproject.tenant⟩

theorem summarizeDeployment_items {project : Project} {buildJobs : List BuildJob}
    {jobs : List ExecutionJob} {version : FunctionVersion} {item : Resource}
    (h : item ∈ (summarizeDeployment project buildJobs jobs version).items) :
    item = .version version.id ∨ (∃ job ∈ buildJobs, item = .buildJob job.id) ∨
      ∃ job ∈ jobs, item = .job job.id := by
  simp only [DeploymentSummary.items, summarizeDeployment, List.cons_append, List.mem_cons,
    List.mem_append, Option.mem_toList, Option.map_map, Option.map_eq_some_iff] at h
  obtain rfl | ⟨job, hjob, rfl⟩ | ⟨job, hjob, rfl⟩ := h
  · exact .inl rfl
  · exact .inr (.inl ⟨job, List.mem_of_find?_eq_some hjob, rfl⟩)
  · exact .inr (.inr ⟨job, List.mem_of_find?_eq_some hjob, rfl⟩)

theorem reads_collectDeployments {projects : List Project}
    (hown : ∀ project ∈ projects, OwnProject s tenantID project) :
    (collectDeployments projects).Reads F
      (fun deployments => ∀ deployment ∈ deployments, ∀ item ∈ deployment.items,
        item.OwnedBy s tenantID) s := by
  induction projects with
  | nil => exact Prog.reads_pure fun deployment h => absurd h List.not_mem_nil
  | cons project projects ih =>
    have hproject := hown project List.mem_cons_self
    refine (reads_listFunctionVersions project.id).bind fun versions hversions => ?_
    refine (reads_listBuildJobs project.id).bind fun buildJobs hbuildJobs => ?_
    refine (reads_listExecutionJobs project.id).bind fun jobs hjobs => ?_
    refine (ih fun p hp => hown p (List.mem_cons_of_mem _ hp)).bind fun deployments hrest => ?_
    refine Prog.reads_pure fun deployment hmem item hitem => ?_
    obtain hmem | hmem := List.mem_append.mp hmem
    · obtain ⟨version, hversion, rfl⟩ := List.mem_map.mp hmem
      obtain rfl | ⟨job, hjob, rfl⟩ | ⟨job, hjob, rfl⟩ := summarizeDeployment_items hitem
      · exact hproject.version (hversions version hversion).1 (hversions version hversion).2
      · exact hproject.buildJob (hbuildJobs job hjob).1 (hbuildJobs job hjob).2
      · exact hproject.job (hjobs job hjob).1 (hjobs job hjob).2
    · exact hrest deployment hmem item hitem

theorem lists_deploymentsForProjects {projects : List Project}
    (hown : ∀ project ∈ projects, OwnProject s tenantID project) :
    Lists F tenantID (listDeploymentsForProjects srv req projects) s := by
  refine lists_withLimit fun limit => ?_
  refine (reads_collectDeployments hown).bind fun deployments hdeployments => ?_
  refine Prog.reads_pure fun item hitem => ?_
  -- filtering, sorting and cutting off only drop deployments
  obtain ⟨deployment, hmem, hitem⟩ := List.mem_flatMap.mp hitem
  have hsorted := List.mem_of_mem_take hmem
  rw [sortDeployments, mem_newestFirst] at hsorted
  exact hdeployments deployment (List.mem_of_mem_filter hsorted) item hitem

theorem lists_projectRecords {α : Type} (hadmin : auth.isAdmin = false)
    {list : String → StoreM (List α)} {body : List α → Body} {R : Project → α → Prop}
    (hlist : ∀ project, (list project.id).Reads F (fun l => ∀ a ∈ l, R project a) s)
    (hitems : ∀ project l, OwnProject s auth.tenantID project → (∀ a ∈ l, R project a) →
      ∀ item ∈ (body l).items, item.OwnedBy s auth.tenantID) :
    Lists F auth.tenantID (listProjectRecords auth req projectID list body) s := by
  refine (reads_authorizedProject_own hadmin projectID).bind fun project hproject => ?_
  refine lists_withLimit fun limit => ?_
  refine (hlist project).bind fun records hrecords => ?_
  exact Prog.reads_pure (hitems project _ hproject fun a ha => hrecords a (List.mem_of_mem_take ha))

theorem lists_projectFunctions (hadmin : auth.isAdmin = false) (projectID : String) :
    Lists F auth.tenantID (listProjectFunctions auth req projectID) s := by
  unfold listProjectFunctions
  refine lists_projectRecords hadmin (fun project => reads_listFunctionVersions project.id) ?_
  intro project l hproject hl item hitem
  simp only [Body.items, List.map_map, List.mem_map] at hitem
  obtain ⟨version, hmem, rfl⟩ := hitem
  exact hproject.version (hl version hmem).1 (hl version hmem).2

theorem lists_projectBuildJobs (hadmin : auth.isAdmin = false) (projectID : String) :
    Lists F auth.tenantID (listProjectBuildJobs auth req projectID) s := by
  unfold listProjectBuildJobs
  refine lists_projectRecords hadmin (fun project => reads_listBuildJobs project.id) ?_
  intro project l hproject hl item hitem
  simp only [Body.items, List.map_map, List.mem_map] at hitem
  obtain ⟨job, hmem, rfl⟩ := hitem
  exact hproject.buildJob (hl job hmem).1 (hl job hmem).2

theorem lists_projectJobs (hadmin : auth.isAdmin = false) (projectID : String) :
    Lists F auth.tenantID (listProjectJobs auth req projectID) s := by
  unfold listProjectJobs
  refine lists_projectRecords hadmin (fun project => reads_listExecutionJobs project.id) ?_
  intro project l hproject hl item hitem
  simp only [Body.items, List.map_map, List.mem_map] at hitem
  obtain ⟨job, hmem, rfl⟩ := hitem
  exact hproject.job (hl job hmem).1 (hl job hmem).2

theorem lists_overview (hadmin : auth.isAdmin = false) (projectID : String) :
    Lists F auth.tenantID (getProjectOverview auth req projectID) s := by
  refine (reads_authorizedProject_own hadmin projectID).bind fun project hproject => ?_
  refine lists_withLimit fun limit => ?_
  refine (reads_listFunctionVersions project.id).bind fun versions hversions => ?_
  refine (reads_listBuildJobs project.id).bind fun buildJobs hbuildJobs => ?_
  refine (reads_listExecutionJobs project.id).bind fun jobs hjobs => ?_
  refine Prog.reads_pure fun item hitem => ?_
  simp only [Body.items, List.map_map, List.cons_append, List.mem_cons, List.mem_append,
    List.mem_map] at hitem
  obtain rfl | (⟨version, hmem, rfl⟩ | ⟨job, hmem, rfl⟩) | ⟨job, hmem, rfl⟩ := hitem
  · exact ⟨project, hproject.stored, hproject.tenant⟩
  · have hversion := hversions version (List.mem_of_mem_take hmem)
    exact hproject.version hversion.1 hversion.2
  · have hjob := hbuildJobs job (List.mem_of_mem_take hmem)
    exact hproject.buildJob hjob.1 hjob.2
  · have hjob := hjobs job (List.mem_of_mem_take hmem)
    exact hproject.job hjob.1 hjob.2

theorem ownedBy_bind {α : Type} {v : α} {o : Option α} {f : α → Option Project} (ho : o = some v)
    (h : ∃ project, f v = some project ∧ project.tenantID = tenantID) :
    ∃ project, o.bind f = some project ∧ project.tenantID = tenantID := by
  rw [ho]
  exact h

theorem lists_jobAttempts (hadmin : auth.isAdmin = false) (jobID : String) :
    Lists F auth.tenantID (listJobAttempts auth jobID) s := by
  refine (reads_authorizedJob hadmin jobID).bind fun _ hjob => ?_
  refine Prog.Reads.bind (R := fun attempts : List Attempt => ∀ attempt ∈ attempts,
    s.attempts.get attempt.id = some attempt ∧ attempt.jobID = jobID) ?_
      fun attempts hattempts => ?_
  · refine Prog.reads_query fun attempts h attempt hmem => ?_
    cases h
    rw [mem_oldestFirst, List.mem_filter, Table.mem_values] at hmem
    exact ⟨hmem.1, eq_of_beq hmem.2⟩
  · refine Prog.reads_pure fun item hitem => ?_
    simp only [Body.items, withAttemptLatency, List.map_map, List.mem_map] at hitem
    obtain ⟨attempt, hmem, rfl⟩ := hitem
    obtain ⟨hget, rfl⟩ := hattempts attempt hmem
    exact ownedBy_bind hget hjob

theorem lists_jobCosts (hadmin : auth.isAdmin = false) (jobID : String) :
    Lists F auth.tenantID (listJobCosts auth jobID) s := by
  refine (reads_authorizedJob hadmin jobID).bind fun _ hjob => ?_
  refine Prog.Reads.bind (R := fun records : List CostRecord => ∀ record ∈ records,
    s.costRecords.get record.id = some record ∧ record.jobID = jobID) ?_ fun records hrecords => ?_
  · refine Prog.reads_query fun records h record hmem => ?_
    cases h
    rw [mem_oldestFirst, List.mem_filter, Table.mem_values] at hmem
    exact ⟨hmem.1, eq_of_beq hmem.2⟩
  · refine Prog.reads_pure fun item hitem => ?_
    obtain ⟨record, hmem, rfl⟩ := List.mem_map.mp hitem
    obtain ⟨hget, rfl⟩ := hrecords record hmem
    exact ownedBy_bind hget hjob

theorem lists_httpTriggers (hadmin : auth.isAdmin = false) (versionID : String) :
    Lists F auth.tenantID (listHTTPTriggers srv auth req versionID) s := by
  refine (reads_authorizedVersion hadmin versionID).bind fun _ hversion => ?_
  refine Prog.Reads.bind (R := fun triggers : List HTTPTrigger => ∀ trigger ∈ triggers,
    s.httpTriggers.get trigger.token = some trigger ∧ trigger.functionVersionID = versionID) ?_
    fun triggers htriggers => ?_
  · refine Prog.reads_query fun triggers h trigger hmem => ?_
    cases h
    rw [mem_oldestFirst, List.mem_filter, Table.mem_values] at hmem
    exact ⟨hmem.1, eq_of_beq hmem.2⟩
  · refine Prog.reads_pure fun item hitem => ?_
    simp only [Body.items, List.map_map, List.mem_map] at hitem
    obtain ⟨trigger, hmem, rfl⟩ := hitem
    obtain ⟨hget, rfl⟩ := htriggers trigger hmem
    exact ownedBy_bind hget hversion

theorem lists_webhookTriggers (hadmin : auth.isAdmin = false) (versionID : String) :
    Lists F auth.tenantID (listWebhookTriggers auth versionID) s := by
  refine (reads_authorizedVersion hadmin versionID).bind fun _ hversion => ?_
  refine Prog.Reads.bind (R := fun triggers : List WebhookTrigger => ∀ trigger ∈ triggers,
    s.webhookTriggers.get trigger.token = some trigger ∧ trigger.functionVersionID = versionID) ?_
    fun triggers htriggers => ?_
  · refine Prog.reads_query fun triggers h trigger hmem => ?_
    cases h
    rw [List.mem_filter, Table.mem_values] at hmem
    exact ⟨hmem.1, eq_of_beq hmem.2⟩
  · refine Prog.reads_pure fun item hitem => ?_
    obtain ⟨trigger, hmem, rfl⟩ := List.mem_map.mp hitem
    obtain ⟨hget, rfl⟩ := htriggers trigger hmem
    exact ownedBy_bind hget hversion

/-- **Lists.** A list route shows only records of projects of the tenant. -/
theorem handler_lists (hadmin : auth.isAdmin = false) {route : Route} (hlist : route.isList) :
    Lists F auth.tenantID (handler srv auth req route) s := by
  cases route with
  | listDeployments =>
    exact (reads_listProjectsByTenant auth.tenantID).bind fun projects hown =>
      lists_deploymentsForProjects hown
  | listProjects => exact lists_listProjects
  | getProjectOverview id => exact lists_overview hadmin id
  | listProjectDeployments id =>
    refine (reads_authorizedProject_own hadmin id).bind fun project hproject => ?_
    refine lists_deploymentsForProjects fun p hp => ?_
    rw [List.mem_singleton.mp hp]
    exact hproject
  | listProjectFunctions id => exact lists_projectFunctions hadmin id
  | listProjectBuildJobs id => exact lists_projectBuildJobs hadmin id
  | listProjectJobs id => exact lists_projectJobs hadmin id
  | listHTTPTriggers id => exact lists_httpTriggers hadmin id
  | listWebhookTriggers id => exact lists_webhookTriggers hadmin id
  | listJobAttempts id => exact lists_jobAttempts hadmin id
  | listJobCosts id => exact lists_jobCosts hadmin id
  | _ => cases hlist

end Lists

/-! ## A request -/

section Serve

variable {F : StoreCall → Prop} {s : Store} {srv : Server} {req : Request}

theorem Resource.owner_apiKeys (keys : Table APIKey) (resource : Resource) :
    resource.owner { s with apiKeys := keys } = resource.owner s := by
  cases resource <;> rfl

theorem ends_authenticateAPIKey {rawKey : String} {now : Time} {key : APIKey}
    (hkey : s.apiKeys.get (srv.keyHash (trimSpace rawKey)) = some key) :
    (authenticateAPIKey srv rawKey now).Ends F (fun r s' =>
      (∃ keys, s' = { s with apiKeys := keys }) ∧ ∃ outcome, r = .ok outcome ∧
        ∀ auth, outcome = .ok auth → auth = ⟨key.tenantID, key.isAdmin⟩) s := by
  have hunchanged : ∃ keys, s = { s with apiKeys := keys } := ⟨s.apiKeys, rfl⟩
  unfold authenticateAPIKey
  by_cases hempty : trimSpace rawKey = ""
  · rw [if_pos hempty]
    exact Prog.ends_pure.mpr ⟨hunchanged, _, rfl, fun _ h => by cases h⟩
  · rw [if_neg hempty]
    refine Prog.ends_bind.mpr (Prog.ends_result.mpr (Prog.ends_query.mpr ⟨?_, fun _ e => ?_⟩))
    · rw [find_of_get _ hkey, Prog.after_ok]
      dsimp only
      by_cases hinvalid : key.disabled ∨ key.keyHash ≠ srv.keyHash (trimSpace rawKey)
      · rw [if_pos hinvalid]
        exact Prog.ends_pure.mpr ⟨hunchanged, _, rfl, fun _ h => by cases h⟩
      · rw [if_neg hinvalid]
        refine Prog.ends_bind.mpr (Prog.ends_result.mpr (Prog.ends_action.mpr ⟨?_, fun _ e => ?_⟩))
        · rw [hkey]
          exact Prog.ends_pure.mpr ⟨⟨_, rfl⟩, _, rfl, fun _ h => by cases h; rfl⟩
        · exact Prog.ends_pure.mpr ⟨hunchanged, _, rfl, fun _ h => by cases h; rfl⟩
    · rw [Prog.after_ok]
      dsimp only
      split
      · exact Prog.ends_pure.mpr ⟨hunchanged, _, rfl, fun _ h => by cases h⟩
      · exact Prog.ends_pure.mpr ⟨hunchanged, _, rfl, fun _ h => by cases h⟩

/-- The response to what a handler returns. -/
def answer : Except Err Response → Response
  | .ok response => response
  | .error e => writeServiceError e

theorem ends_answered {p : StoreM Response} {Q : Except Err Response → Store → Prop} :
    (answered p).Ends F Q s ↔ p.Ends F (fun r => Q (.ok (answer r))) s := by
  rw [answered, Prog.ends_bind, Prog.ends_result]
  constructor
  · intro h
    refine h.mono fun r s' hr => ?_
    cases r <;> exact Prog.ends_pure.mp hr
  · intro h
    refine h.mono fun r s' hr => ?_
    cases r <;> exact Prog.ends_pure.mpr hr

theorem answer_not_success {r : Except Err Response}
    (h : ∀ response, r = .ok response → response.success = false) : (answer r).success = false := by
  cases r with
  | ok response => exact h response rfl
  | error e => exact writeServiceError_not_success e

theorem answer_items {r : Except Err Response} {P : Resource → Prop}
    (h : ∀ response, r = .ok response → ∀ item ∈ response.body.items, P item) :
    ∀ item ∈ (answer r).body.items, P item := by
  cases r with
  | ok response => exact h response rfl
  | error e => exact fun item hitem => absurd hitem List.not_mem_nil

/-- What the two parts of isolation say about the response to a request of a tenant. -/
structure Isolated (srv : Server) (req : Request) (s : Store) (tenantID : String)
    (response : Response) (s' : Store) : Prop where
  /-- What belongs to another tenant is refused, and nothing but the time a key was last used has
  changed. -/
  refused : ∀ resource, req.route.addresses srv = some resource → resource.Foreign s tenantID →
    response.success = false ∧ ∃ keys, s' = { s with apiKeys := keys }
  lists : req.route.isList → ∀ item ∈ response.body.items, item.OwnedBy s tenantID

theorem isolated_httpError {message : String} {status : ℕ} {s' : Store}
    (hstatus : (httpError message status).success = false)
    (hs' : ∃ keys, s' = { s with apiKeys := keys }) :
    Isolated srv req s tenantID (httpError message status) s' where
  refused _ _ _ := ⟨hstatus, hs'⟩
  lists _ _ hitem := absurd hitem List.not_mem_nil

/-- Every handler keeps tenants apart. -/
theorem ends_handler (keys : Table APIKey) :
    (answered (handler srv ⟨tenantID, false⟩ req req.route)).Ends F (fun r s' =>
      ∃ response, r = .ok response ∧ Isolated srv req s tenantID response s')
      { s with apiKeys := keys } := by
  rw [ends_answered]
  have hrefused : (handler srv ⟨tenantID, false⟩ req req.route).Ends F (fun r s' =>
      (∃ resource, req.route.addresses srv = some resource ∧ resource.Foreign s tenantID) →
        s' = { s with apiKeys := keys } ∧ ∀ response, r = .ok response → response.success = false)
      { s with apiKeys := keys } := by
    refine Prog.ends_of_imp ?_
    rintro ⟨resource, haddr, project, howner, htenant⟩
    refine (handler_refused rfl haddr ⟨project, ?_, htenant⟩).ends
    rw [Resource.owner_apiKeys, howner]
  have hlists : (handler srv ⟨tenantID, false⟩ req req.route).Ends F (fun r _ =>
      req.route.isList → ∀ response, r = .ok response →
        ∀ item ∈ response.body.items, item.OwnedBy { s with apiKeys := keys } tenantID)
      { s with apiKeys := keys } :=
    Prog.ends_of_imp fun hlist => (handler_lists rfl hlist).ends.mono fun _ _ h => h.2
  refine (hrefused.and hlists).mono fun r s' h => ⟨answer r, rfl, ?_, ?_⟩
  · intro resource haddr hforeign
    obtain ⟨hs', hr⟩ := h.1 ⟨resource, haddr, hforeign⟩
    exact ⟨answer_not_success hr, keys, hs'⟩
  · intro hlist item hitem
    obtain ⟨project, howner, htenant⟩ := answer_items (h.2 hlist) item hitem
    exact ⟨project, (Resource.owner_apiKeys keys item).symm.trans howner, htenant⟩

/-- **Tenant isolation.** From every store, a request that carries the key of a tenant and not an
administrator's is answered: what it addresses of another tenant's project is refused without an
effect, and what it lists is the tenant's own. This holds whichever store calls fail. -/
theorem tenants_isolated (srv : Server) (req : Request) (s : Store) (key : APIKey)
    (hkey : s.apiKeys.get (srv.keyHash (trimSpace (apiKeyFromRequest req))) = some key)
    (hadmin : key.isAdmin = false) :
    (serve srv req).Ends (fun _ => True) (fun r s' => ∃ response, r = .ok response ∧
      Isolated srv req s key.tenantID response s') s := by
  refine Prog.ends_bind.mpr ((ends_authenticateAPIKey hkey).mono fun r s' h => ?_)
  obtain ⟨⟨keys, rfl⟩, outcome, rfl, hauth⟩ := h
  rw [Prog.after_ok]
  cases outcome with
  | error e =>
    cases e with
    | missing => exact Prog.ends_pure.mpr ⟨_, rfl, isolated_httpError rfl ⟨keys, rfl⟩⟩
    | invalid => exact Prog.ends_pure.mpr ⟨_, rfl, isolated_httpError rfl ⟨keys, rfl⟩⟩
    | other e => exact Prog.ends_pure.mpr ⟨_, rfl, isolated_httpError rfl ⟨keys, rfl⟩⟩
  | ok auth =>
    rw [hauth auth rfl, hadmin]
    exact ends_handler keys

end Serve

namespace Sample

def other : Project where
  id := "other"
  tenantID := "other-tenant"

def key : APIKey where
  keyHash := "hash of key"
  tenantID := "tenant"
  createdAt := 1

def store : Store :=
  { Execution.Sample.store with
    apiKeys := Table.empty.put key
    projects := Execution.Sample.store.projects.put other }

def server : Server where
  builder :=
    { BuildSample.builder with
      prepareBuildOutput := fun _ => ([], .error (.other "not here")) }
  scheduler := Execution.Sample.scheduler (.ok ())
  invokeHash := { compact := some, hash := fun _ _ => .ok "invoke" }
  keyHash raw := "hash of " ++ raw
  toLower := String.toLower
  decodeManifest _ := .error (.other "not here")

def request (route : Route) : Request where
  apiKey := "key"
  route := route
  clock _ := 2
  uuid := "job"
  run := { BuildSample.run with versionID := "v1", buildJobID := "b1" }
  token := .ok "token"

end Sample

theorem tenants_isolated_sample :
    (Resource.project "other").Foreign Sample.store "tenant" ∧
      (serve Sample.server (Sample.request (.getProject "other"))).Ends (fun _ => True) (fun r s' =>
        ∃ response, r = .ok response ∧ Isolated Sample.server (Sample.request (.getProject "other"))
          Sample.store "tenant" response s') Sample.store :=
  ⟨⟨Sample.other, rfl, by decide⟩,
    tenants_isolated Sample.server (Sample.request (.getProject "other")) Sample.store Sample.key
      (by decide +kernel) rfl⟩

end Api

end Lecrev

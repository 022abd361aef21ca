import Lecrev.Api.Isolation
import Lecrev.Concurrency.Lockstep

/-!
# What a refusal reveals

Two stores hold the same keys, and the same records belong to the same tenants; in everything else
they may differ. A tenant asks for a record of another tenant, once in each store. Most handlers
find out whose record it is before they look at anything else of it, so that both requests are
refused with the same response, whichever store calls fail.

`invokeFunction` asks first whether the version is ready, and then whose it is: the two refusals are
the same if and only if the version is ready in both stores or in neither.
-/

namespace Lecrev

variable {tenantID id : String}

namespace Api

/-- The same keys are valid, and the same records exist and belong to the same tenants. -/
structure SameOwnership (s s' : Store) : Prop where
  apiKeys : s'.apiKeys = s.apiKeys
  tenants : ∀ resource : Resource,
    (resource.owner s').map (·.tenantID) = (resource.owner s).map (·.tenantID)

theorem SameOwnership.foreign {s s' : Store} (h : SameOwnership s s') {resource : Resource}
    (hforeign : resource.Foreign s tenantID) :
    resource.Foreign s' tenantID := by
  obtain ⟨project, howner, htenant⟩ := hforeign
  have htenants := h.tenants resource
  rw [howner, Option.map_some] at htenants
  obtain ⟨project', howner', heq⟩ := Option.map_eq_some_iff.mp htenants
  exact ⟨project', howner', by rwa [heq]⟩

/-- The version is stored and ready. -/
def isReady (s : Store) (versionID : String) : Bool :=
  (s.functions.get versionID).any (·.state = .ready)

/-! ## Checks that fail alike -/

/-- Both programs make the same calls and return the same error. -/
def Denied {α α' : Type} (p : StoreM α) (s : Store) (p' : StoreM α') (s' : Store) : Prop :=
  p.Lockstep (fun r _ r' _ => ∃ e, r = .error e ∧ r' = .error e) s p' s'

section Checks

variable {α α' β β' : Type} {s s' : Store} {auth : AuthContext}

theorem denied_throw (e : Err) : Denied (.throw e : StoreM α) s (.throw e : StoreM α') s' :=
  Prog.lockstep_throw.mpr ⟨e, rfl, rfl⟩

theorem Denied.bind {p : StoreM α} {p' : StoreM α'} (h : Denied p s p' s') (f : α → StoreM β)
    (f' : α' → StoreM β') : Denied (p >>= f) s (p' >>= f') s' := by
  refine Prog.Lockstep.bind (Prog.Lockstep.mono h fun r t r' t' hr => ?_)
  obtain ⟨e, rfl, rfl⟩ := hr
  exact Prog.lockstep_ret.mpr ⟨e, rfl, rfl⟩

theorem denied_find {γ : Type} [Keyed γ String] {l : StoreCall} {kind key : String} {v v' : γ}
    {table : Store → Table γ} {f : γ → StoreM α} {f' : γ → StoreM α'}
    (hv : (table s).get key = some v) (hv' : (table s').get key = some v')
    (h : Denied (f v) s (f' v') s') :
    Denied ((Prog.query l fun s => find kind (table s) key : StoreM γ) >>= f) s
      ((Prog.query l fun s => find kind (table s) key : StoreM γ) >>= f') s' := by
  refine Prog.Lockstep.bind (Prog.lockstep_query.mpr ⟨?_, fun e => ?_⟩)
  · rw [find_of_get _ hv, find_of_get _ hv']
    exact h
  · exact Prog.lockstep_ret.mpr ⟨e, rfl, rfl⟩

theorem denied_authorizedProject (hadmin : auth.isAdmin = false) {id' : String}
    (h : (Resource.project id).Foreign s auth.tenantID)
    (h' : (Resource.project id').Foreign s' auth.tenantID) :
    Denied (authorizedProject auth id) s (authorizedProject auth id') s' := by
  obtain ⟨project, hproject, htenant⟩ := h
  obtain ⟨project', hproject', htenant'⟩ := h'
  refine Prog.Lockstep.bind (Prog.lockstep_query.mpr ⟨?_, fun e => ?_⟩)
  · rw [find_of_get _ hproject, find_of_get _ hproject']
    dsimp only [Prog.andThen]
    rw [if_pos ⟨hadmin, htenant⟩, if_pos ⟨hadmin, htenant'⟩]
    exact denied_throw _
  · exact Prog.lockstep_ret.mpr ⟨e, rfl, rfl⟩

theorem denied_authorizeProject (hadmin : auth.isAdmin = false) {id' : String}
    (h : (Resource.project id).Foreign s auth.tenantID)
    (h' : (Resource.project id').Foreign s' auth.tenantID) :
    Denied (authorizeProject auth id) s (authorizeProject auth id') s' :=
  (denied_authorizedProject hadmin h h').bind _ _

theorem exists_version_of_foreign {versionID : String}
    (h : (Resource.version versionID).Foreign s tenantID) :
    ∃ version, s.functions.get versionID = some version ∧
      (Resource.project version.projectID).Foreign s tenantID := by
  obtain ⟨project, howner, htenant⟩ := h
  obtain ⟨version, hversion, hproject⟩ := Option.bind_eq_some_iff.mp howner
  exact ⟨version, hversion, project, hproject, htenant⟩

theorem exists_job_of_foreign {jobID : String} (h : (Resource.job jobID).Foreign s tenantID) :
    ∃ job, s.executionJobs.get jobID = some job ∧
      (Resource.project job.projectID).Foreign s tenantID := by
  obtain ⟨project, howner, htenant⟩ := h
  obtain ⟨job, hjob, hproject⟩ := Option.bind_eq_some_iff.mp howner
  exact ⟨job, hjob, project, hproject, htenant⟩

theorem exists_buildJob_of_foreign {jobID : String}
    (h : (Resource.buildJob jobID).Foreign s tenantID) :
    ∃ job, s.buildJobs.get jobID = some job ∧
      (Resource.version job.functionVersionID).Foreign s tenantID := by
  obtain ⟨project, howner, htenant⟩ := h
  obtain ⟨job, hjob, hproject⟩ := Option.bind_eq_some_iff.mp howner
  exact ⟨job, hjob, project, hproject, htenant⟩

theorem denied_authorizedVersion (hadmin : auth.isAdmin = false)
    (h : (Resource.version id).Foreign s auth.tenantID)
    (h' : (Resource.version id).Foreign s' auth.tenantID) :
    Denied (authorizedVersion auth id) s (authorizedVersion auth id) s' := by
  obtain ⟨version, hversion, hforeign⟩ := exists_version_of_foreign h
  obtain ⟨version', hversion', hforeign'⟩ := exists_version_of_foreign h'
  exact denied_find hversion hversion'
    ((denied_authorizeProject hadmin hforeign hforeign').bind _ _)

theorem denied_authorizedJob (hadmin : auth.isAdmin = false)
    (h : (Resource.job id).Foreign s auth.tenantID)
    (h' : (Resource.job id).Foreign s' auth.tenantID) :
    Denied (authorizedJob auth id) s (authorizedJob auth id) s' := by
  obtain ⟨job, hjob, hforeign⟩ := exists_job_of_foreign h
  obtain ⟨job', hjob', hforeign'⟩ := exists_job_of_foreign h'
  exact denied_find hjob hjob' ((denied_authorizeProject hadmin hforeign hforeign').bind _ _)

theorem denied_authorizedBuildJob (hadmin : auth.isAdmin = false)
    (h : (Resource.buildJob id).Foreign s auth.tenantID)
    (h' : (Resource.buildJob id).Foreign s' auth.tenantID) :
    Denied (authorizedBuildJob auth id) s (authorizedBuildJob auth id) s' := by
  obtain ⟨job, hjob, hforeign⟩ := exists_buildJob_of_foreign h
  obtain ⟨job', hjob', hforeign'⟩ := exists_buildJob_of_foreign h'
  obtain ⟨version, hversion, hproject⟩ := exists_version_of_foreign hforeign
  obtain ⟨version', hversion', hproject'⟩ := exists_version_of_foreign hforeign'
  refine denied_find hjob hjob' ?_
  -- the two build jobs may be of different versions
  refine Prog.Lockstep.bind (Prog.lockstep_query.mpr ⟨?_, fun e => ?_⟩)
  · rw [find_of_get _ hversion, find_of_get _ hversion']
    exact (denied_authorizeProject hadmin hproject hproject').bind _ _
  · exact Prog.lockstep_ret.mpr ⟨e, rfl, rfl⟩

theorem denied_loadAuthorizedDeployment (hadmin : auth.isAdmin = false)
    (h : (Resource.version id).Foreign s auth.tenantID)
    (h' : (Resource.version id).Foreign s' auth.tenantID) :
    Denied (loadAuthorizedDeployment auth id) s (loadAuthorizedDeployment auth id) s' := by
  obtain ⟨version, hversion, hforeign⟩ := exists_version_of_foreign h
  obtain ⟨version', hversion', hforeign'⟩ := exists_version_of_foreign h'
  exact denied_find hversion hversion'
    ((denied_authorizedProject hadmin hforeign hforeign').bind _ _)

theorem denied_requireAdmin (hadmin : auth.isAdmin = false) :
    Denied (requireAdmin auth) s (requireAdmin auth) s' := by
  rw [requireAdmin, if_neg (by rw [hadmin]; exact Bool.false_ne_true)]
  exact denied_throw _

theorem denied_ensureProject {projectID name : String} {now : Time}
    (h : (Resource.project projectID).Foreign s tenantID)
    (h' : (Resource.project projectID).Foreign s' tenantID) :
    Denied (ensureProject projectID tenantID name now) s
      (ensureProject projectID tenantID name now) s' := by
  obtain ⟨project, hproject, htenant⟩ := h
  obtain ⟨project', hproject', htenant'⟩ := h'
  rw [Resource.owner] at hproject hproject'
  refine Prog.lockstep_action.mpr ⟨?_, fun e => ⟨e, rfl, rfl⟩⟩
  simp only [hproject, hproject']
  rw [if_pos htenant, if_pos htenant']
  exact ⟨_, rfl, rfl⟩

theorem denied_ensureAuthorizedProject (hadmin : auth.isAdmin = false) {projectID name : String}
    {now : Time} (h : (Resource.project projectID).Foreign s auth.tenantID)
    (h' : (Resource.project projectID).Foreign s' auth.tenantID) :
    Denied (ensureAuthorizedProject auth projectID name now) s
      (ensureAuthorizedProject auth projectID name now) s' := by
  have hensure : Denied (ensureProject projectID auth.tenantID name now) s
      (ensureProject projectID auth.tenantID name now) s' := denied_ensureProject h h'
  obtain ⟨project, hproject, htenant⟩ := h
  obtain ⟨project', hproject', htenant'⟩ := h'
  refine Prog.Lockstep.bind (Prog.Lockstep.result (Prog.lockstep_query.mpr ⟨?_, fun e => ?_⟩))
  · rw [find_of_get _ hproject, find_of_get _ hproject']
    dsimp only [Prog.andThen]
    rw [if_pos ⟨hadmin, htenant⟩, if_pos ⟨hadmin, htenant'⟩]
    exact denied_throw _
  · dsimp only [Prog.andThen]
    split
    · exact hensure
    · exact denied_throw _

end Checks

/-! ## Handlers -/

section Handlers

variable {s s' : Store} {auth : AuthContext} {srv : Server} {req : Request}

/-- The two requests are answered alike. -/
def SameAnswer (p : StoreM Response) (s s' : Store) : Prop :=
  p.Lockstep (fun r _ r' _ => answer r = answer r') s p s'

theorem Denied.sameAnswer {p : StoreM Response} (h : Denied p s p s') : SameAnswer p s s' := by
  refine Prog.Lockstep.mono h fun r _ r' _ hr => ?_
  obtain ⟨e, rfl, rfl⟩ := hr
  rfl

theorem sameAnswer_pure (response : Response) : SameAnswer (pure response) s s' :=
  Prog.lockstep_pure.mpr rfl

theorem sameAnswer_createProject {body : CreateProjectRequest}
    (hid : id = normalizeProjectID srv.toLower (trimSpace body.id) (trimSpace body.name))
    (h : (Resource.project id).Foreign s auth.tenantID)
    (h' : (Resource.project id).Foreign s' auth.tenantID) :
    SameAnswer (createProject srv auth req (.ok body)) s s' := by
  subst hid
  unfold createProject
  dsimp only
  split_ifs
  · exact sameAnswer_pure _
  · exact sameAnswer_pure _
  · exact ((denied_ensureProject h h').bind _ _).sameAnswer

theorem sameAnswer_createFunction (hadmin : auth.isAdmin = false) {projectID : String}
    {body : Except String CreateFunctionRequest}
    (h : (Resource.project projectID).Foreign s auth.tenantID)
    (h' : (Resource.project projectID).Foreign s' auth.tenantID) :
    SameAnswer (createFunction srv auth req projectID body) s s' := by
  unfold createFunction
  split_ifs
  · exact sameAnswer_pure _
  · exact ((denied_ensureAuthorizedProject hadmin h h').bind _ _).sameAnswer

theorem sameAnswer_invokeFunction (hadmin : auth.isAdmin = false) {versionID : String}
    {body : Except String InvokeRequest} (h : (Resource.version versionID).Foreign s auth.tenantID)
    (h' : (Resource.version versionID).Foreign s' auth.tenantID)
    (hready : versionID ≠ "" → isReady s versionID = isReady s' versionID) :
    SameAnswer (invokeFunction srv auth req versionID body) s s' := by
  obtain ⟨version, hversion, hforeign⟩ := exists_version_of_foreign h
  obtain ⟨version', hversion', hforeign'⟩ := exists_version_of_foreign h'
  unfold invokeFunction
  split_ifs with hid
  · exact sameAnswer_pure _
  · have hstate : version.state = .ready ↔ version'.state = .ready := by
      have heq := hready hid
      rw [isReady, hversion, isReady, hversion'] at heq
      simpa using heq
    refine Denied.sameAnswer (denied_find hversion hversion' ?_)
    by_cases hv : version.state = .ready
    · rw [if_neg (not_not.mpr hv), if_neg (not_not.mpr (hstate.mp hv))]
      exact (denied_authorizeProject hadmin hforeign hforeign').bind _ _
    · rw [if_pos hv, if_pos fun hv' => hv (hstate.mpr hv')]
      exact (denied_throw _).bind _ _

/-- **Refusals alike.** A handler whose route addresses a record of another tenant answers alike in
both stores. -/
theorem sameAnswer_handler (hadmin : auth.isAdmin = false) {route : Route} {resource : Resource}
    (haddr : route.addresses srv = some resource) (h : resource.Foreign s auth.tenantID)
    (h' : resource.Foreign s' auth.tenantID)
    (hready : ∀ versionID body, route = .invokeFunction versionID body → versionID ≠ "" →
      isReady s versionID = isReady s' versionID) :
    SameAnswer (handler srv auth req route) s s' := by
  cases route with
  | createProject body =>
    cases body with
    | error e => cases haddr
    | ok body =>
      cases haddr
      exact sameAnswer_createProject rfl h h'
  | createFunction projectID body =>
    cases haddr
    exact sameAnswer_createFunction hadmin h h'
  | invokeFunction versionID body =>
    cases haddr
    exact sameAnswer_invokeFunction hadmin h h' (hready versionID body rfl)
  | prepareFunction versionID => exact ((denied_requireAdmin hadmin).bind _ _).sameAnswer
  | getDeployment id | getDeploymentLogs id | getDeploymentOutput id =>
    cases haddr
    exact ((denied_loadAuthorizedDeployment hadmin h h').bind _ _).sameAnswer
  | getProject id | getProjectOverview id | listProjectDeployments id | listProjectFunctions id
  | listProjectBuildJobs id | listProjectJobs id =>
    cases haddr
    exact ((denied_authorizedProject hadmin h h').bind _ _).sameAnswer
  | getBuildJob id | getBuildJobLogs id =>
    cases haddr
    exact ((denied_authorizedBuildJob hadmin h h').bind _ _).sameAnswer
  | getFunction id | getFunctionSite id | getFunctionWarmStatus id | listHTTPTriggers id
  | listWebhookTriggers id =>
    cases haddr
    exact ((denied_authorizedVersion hadmin h h').bind _ _).sameAnswer
  | createHTTPTrigger id body | createWebhookTrigger id body =>
    cases haddr
    exact ((denied_authorizedVersion hadmin h h').bind _ _).sameAnswer
  | getJob id | getJobLogs id | getJobOutput id | listJobAttempts id | listJobCosts id =>
    cases haddr
    exact ((denied_authorizedJob hadmin h h').bind _ _).sameAnswer
  | listDeployments | listProjects | listRegions => cases haddr
  | listWarmPools region | listRegionHosts region => cases haddr
  | drainHost region hostID body => cases haddr

end Handlers

/-! ## Requests -/

section Serve

variable {s s' : Store} {srv : Server} {req : Request}

theorem exists_key_of_authenticated {rawKey : String} {now : Time} {auth : AuthContext}
    (hauth : ((authenticateAPIKey srv rawKey now).run s).1 = .ok (.ok auth)) :
    trimSpace rawKey ≠ "" ∧ ∃ key, s.apiKeys.get (srv.keyHash (trimSpace rawKey)) = some key ∧
      ¬ (key.disabled ∨ key.keyHash ≠ srv.keyHash (trimSpace rawKey)) ∧
      auth = ⟨key.tenantID, key.isAdmin⟩ := by
  unfold authenticateAPIKey at hauth
  by_cases hempty : trimSpace rawKey = ""
  · rw [if_pos hempty] at hauth
    cases hauth
  · rw [if_neg hempty, Prog.run_bind, Prog.run_result, getAPIKeyByHash, Prog.run_query] at hauth
    cases hget : s.apiKeys.get (srv.keyHash (trimSpace rawKey)) with
    | none =>
      rw [find, hget] at hauth
      cases hauth
    | some key =>
      rw [find_of_get _ hget] at hauth
      dsimp only at hauth
      refine ⟨hempty, key, rfl, ?_⟩
      split_ifs at hauth with hinvalid
      · cases hauth
      · refine ⟨hinvalid, ?_⟩
        rw [touchAPIKeyLastUsed, Prog.run_bind, Prog.run_result, Prog.run_action, hget] at hauth
        cases hauth
        rfl

theorem run_authenticateAPIKey {rawKey : String} {now : Time} {key : APIKey}
    (hempty : trimSpace rawKey ≠ "")
    (hkey : s.apiKeys.get (srv.keyHash (trimSpace rawKey)) = some key)
    (hvalid : ¬ (key.disabled ∨ key.keyHash ≠ srv.keyHash (trimSpace rawKey))) :
    ((authenticateAPIKey srv rawKey now).run s).1 = .ok (.ok ⟨key.tenantID, key.isAdmin⟩) := by
  rw [authenticateAPIKey, if_neg hempty, Prog.run_bind, Prog.run_result, getAPIKeyByHash,
    Prog.run_query, find_of_get _ hkey]
  dsimp only
  rw [if_neg hvalid, touchAPIKeyLastUsed, Prog.run_bind, Prog.run_result, Prog.run_action, hkey]
  rfl

theorem lockstep_authenticateAPIKey {rawKey : String} {now : Time} {auth : AuthContext}
    (hauth : ((authenticateAPIKey srv rawKey now).run s).1 = .ok (.ok auth))
    (hkeys : s'.apiKeys = s.apiKeys) :
    (authenticateAPIKey srv rawKey now).Lockstep (fun r t r' t' => r' = r ∧
      (∃ keys, t = { s with apiKeys := keys } ∧ t' = { s' with apiKeys := keys }) ∧
        ∃ outcome, r = .ok outcome ∧ ∀ auth', outcome = .ok auth' → auth' = auth) s
      (authenticateAPIKey srv rawKey now) s' := by
  obtain ⟨hempty, key, hkey, hvalid, rfl⟩ := exists_key_of_authenticated hauth
  have hkey' : s'.apiKeys.get (srv.keyHash (trimSpace rawKey)) = some key := by rw [hkeys, hkey]
  have hunchanged : ∃ keys, s = { s with apiKeys := keys } ∧ s' = { s' with apiKeys := keys } :=
    ⟨s.apiKeys, rfl, by rw [← hkeys]⟩
  unfold authenticateAPIKey
  rw [if_neg hempty]
  refine Prog.Lockstep.bind (Prog.Lockstep.result (Prog.lockstep_query.mpr ⟨?_, fun e => ?_⟩))
  · rw [find_of_get _ hkey, find_of_get _ hkey']
    dsimp only [Prog.andThen]
    rw [if_neg hvalid]
    refine Prog.Lockstep.bind (Prog.Lockstep.result (Prog.lockstep_action.mpr ⟨?_, fun e => ?_⟩))
    · rw [hkey, hkey']
      refine Prog.lockstep_pure.mpr ⟨rfl, ⟨_, rfl, ?_⟩, _, rfl, fun _ h => ?_⟩
      · rw [hkeys]
      · exact (Except.ok.inj h).symm
    · exact Prog.lockstep_pure.mpr ⟨rfl, hunchanged, _, rfl, fun _ h => (Except.ok.inj h).symm⟩
  · dsimp only [Prog.andThen]
    split
    · exact Prog.lockstep_pure.mpr ⟨rfl, hunchanged, _, rfl, fun _ h => by cases h⟩
    · exact Prog.lockstep_pure.mpr ⟨rfl, hunchanged, _, rfl, fun _ h => by cases h⟩

/-- A foreign resource is answered alike in both stores. -/
theorem lockstep_serve
    (hauth : ((authenticateAPIKey srv (apiKeyFromRequest req) (req.clock 0)).run s).1 =
      .ok (.ok ⟨tenantID, false⟩))
    (hsame : SameOwnership s s') {resource : Resource}
    (haddr : req.route.addresses srv = some resource) (hforeign : resource.Foreign s tenantID)
    (hready : ∀ versionID body, req.route = .invokeFunction versionID body → versionID ≠ "" →
      isReady s versionID = isReady s' versionID) :
    (serve srv req).Lockstep (fun r _ r' _ => r = r') s (serve srv req) s' := by
  refine Prog.Lockstep.bind ((lockstep_authenticateAPIKey hauth hsame.apiKeys).mono
    fun r t r' t' h => ?_)
  obtain ⟨rfl, ⟨keys, rfl, rfl⟩, outcome, rfl, houtcome⟩ := h
  cases outcome with
  | error e => cases e <;> exact Prog.lockstep_pure.mpr rfl
  | ok auth =>
    obtain rfl := houtcome auth rfl
    have hs : resource.Foreign { s with apiKeys := keys } tenantID := by
      unfold Resource.Foreign
      rwa [Resource.owner_apiKeys]
    have hs' : resource.Foreign { s' with apiKeys := keys } tenantID := by
      unfold Resource.Foreign
      rw [Resource.owner_apiKeys]
      exact hsame.foreign hforeign
    have hanswer : SameAnswer (handler srv ⟨tenantID, false⟩ req req.route)
        { s with apiKeys := keys } { s' with apiKeys := keys } :=
      sameAnswer_handler rfl haddr hs hs' hready
    refine Prog.Lockstep.bind (Prog.Lockstep.result (Prog.Lockstep.mono hanswer
      fun r _ r' _ hr => ?_))
    cases r <;> cases r' <;> exact Prog.lockstep_pure.mpr (congrArg Except.ok hr)

theorem run_serve {auth : AuthContext}
    (hauth : ((authenticateAPIKey srv (apiKeyFromRequest req) (req.clock 0)).run s).1 =
      .ok (.ok auth)) :
    ∃ keys, ((serve srv req).run s).1 =
      .ok (answer ((handler srv auth req req.route).run { s with apiKeys := keys }).1) := by
  obtain ⟨-, key, hkey, -, rfl⟩ := exists_key_of_authenticated hauth
  have hends : (authenticateAPIKey srv (apiKeyFromRequest req) (req.clock 0)).Ends (fun _ => False)
      _ s := ends_authenticateAPIKey hkey
  obtain ⟨⟨keys, hkeys⟩, -⟩ := hends.run
  refine ⟨keys, ?_⟩
  have hrun : (authenticateAPIKey srv (apiKeyFromRequest req) (req.clock 0)).run s =
      (.ok (.ok ⟨key.tenantID, key.isAdmin⟩), { s with apiKeys := keys }) :=
    Prod.ext hauth hkeys
  rw [serve, Prog.run_bind, hrun]
  dsimp only
  rw [answered, Prog.run_bind, Prog.run_result]
  dsimp only
  cases ((handler srv ⟨key.tenantID, key.isAdmin⟩ req req.route).run
    { s with apiKeys := keys }).1 <;> rfl

theorem run_invokeFunction_of_foreign {auth : AuthContext} (hadmin : auth.isAdmin = false)
    {versionID : String} {body : Except String InvokeRequest} (hid : versionID ≠ "")
    (hforeign : (Resource.version versionID).Foreign s auth.tenantID) :
    ((invokeFunction srv auth req versionID body).run s).1 =
      .error (if isReady s versionID then .accessDenied else .functionVersionNotReady) := by
  obtain ⟨version, hversion, project, hproject, htenant⟩ := exists_version_of_foreign hforeign
  unfold invokeFunction
  rw [if_neg hid, Prog.run_bind, getFunctionVersion, Prog.run_query, find_of_get _ hversion]
  dsimp only
  by_cases hready : version.state = .ready
  · have hready' : isReady s versionID = true := by
      rw [isReady, hversion]
      simpa using hready
    rw [if_neg (not_not.mpr hready), hready', if_pos rfl, authorizeProject, authorizedProject]
    simp only [Prog.run_bind, Lecrev.getProject, Prog.run_query, find_of_get _ hproject]
    rw [if_pos ⟨hadmin, htenant⟩]
    rfl
  · have hready' : ¬ isReady s versionID := by
      rw [isReady, hversion]
      simpa using hready
    rw [if_pos hready, if_neg hready']
    rfl

end Serve

/-- **A refusal reveals nothing about the record** unless it is the readiness of a version that is
invoked. For every caller who is authenticated as a tenant and not an administrator, every request
that addresses a record of another tenant, and any two stores with the same keys, the same records
and the same owners: the response is the same in both stores, whichever store calls fail, if and
only if the request does not invoke a version that is ready in only one of them. -/
theorem refusal_reveals_nothing_iff (srv : Server) (req : Request) (s s' : Store)
    (tenantID : String)
    (hauth : ((authenticateAPIKey srv (apiKeyFromRequest req) (req.clock 0)).run s).1 =
      .ok (.ok ⟨tenantID, false⟩))
    (hsame : SameOwnership s s') (resource : Resource)
    (haddr : req.route.addresses srv = some resource) (hforeign : resource.Foreign s tenantID) :
    (∀ faults, ((serve srv req).runWith faults s).result =
      ((serve srv req).runWith faults s').result) ↔
      ∀ versionID body, req.route = .invokeFunction versionID body → versionID ≠ "" →
        isReady s versionID = isReady s' versionID := by
  constructor
  · intro h versionID body hroute hid
    -- compare the two responses when no call fails
    have hauth' : ((authenticateAPIKey srv (apiKeyFromRequest req) (req.clock 0)).run s').1 =
        .ok (.ok ⟨tenantID, false⟩) := by
      have heq := ((lockstep_authenticateAPIKey hauth hsame.apiKeys).runWith fun _ => none).1
      rw [(Prog.runWith_none _ s).1, (Prog.runWith_none _ s').1] at heq
      rw [heq, hauth]
    have hresource : resource = .version versionID := by
      rw [hroute] at haddr
      exact (Option.some.inj haddr).symm
    subst hresource
    obtain ⟨keys, hresponse⟩ := run_serve hauth
    obtain ⟨keys', hresponse'⟩ := run_serve hauth'
    have hanswer (s : Store) (keys : Table APIKey)
        (hforeign : (Resource.version versionID).Foreign s tenantID) :
        ((handler srv ⟨tenantID, false⟩ req req.route).run { s with apiKeys := keys }).1 =
          .error (if isReady s versionID then .accessDenied else .functionVersionNotReady) := by
      rw [hroute]
      refine run_invokeFunction_of_foreign rfl hid ?_
      unfold Resource.Foreign
      rwa [Resource.owner_apiKeys]
    have heq := h fun _ => none
    rw [(Prog.runWith_none _ s).1, (Prog.runWith_none _ s').1, hresponse, hresponse',
      hanswer s keys hforeign, hanswer s' keys' (hsame.foreign hforeign)] at heq
    have hstatus := congrArg Response.status (Except.ok.inj heq)
    cases hready : isReady s versionID <;> cases hready' : isReady s' versionID <;>
      rw [hready, hready'] at hstatus
    · cases hstatus
    · cases hstatus
  · intro hready faults
    exact (lockstep_serve hauth hsame haddr hforeign hready).runWith faults

theorem sameOwnership_putVersion (s : Store) {version version' : FunctionVersion}
    (hid : version'.id = version.id) (hproject : version'.projectID = version.projectID) :
    SameOwnership { s with functions := s.functions.put version }
      { s with functions := s.functions.put version' } := by
  have howner (id : String) : versionOwner { s with functions := s.functions.put version' } id =
      versionOwner { s with functions := s.functions.put version } id := by
    unfold versionOwner
    by_cases h : id = version.id
    · rw [Table.get_put_of_key _ (hid.trans h.symm), Table.get_put_of_key _ h.symm,
        Option.bind_some, Option.bind_some, hproject]
    · rw [Table.get_put_of_ne _ fun h' => h (h'.trans hid), Table.get_put_of_ne _ h]
  refine ⟨rfl, fun resource => congrArg _ ?_⟩
  cases resource with
  | version id => exact howner id
  | buildJob id => exact Option.bind_congr fun job _ => howner job.functionVersionID
  | httpTrigger token => exact Option.bind_congr fun trigger _ => howner trigger.functionVersionID
  | webhookTrigger token =>
    exact Option.bind_congr fun trigger _ => howner trigger.functionVersionID
  | project _ | job _ | attempt _ | costRecord _ => rfl

namespace Sample

def foreign (state : FunctionState) : FunctionVersion :=
  { DomainSample.version with id := "foreign", projectID := "other", state }

def foreignStore (state : FunctionState) : Store :=
  { store with functions := store.functions.put (foreign state) }

theorem authenticated_foreignStore (state : FunctionState) (route : Route) :
    ((authenticateAPIKey server (apiKeyFromRequest (request route))
      ((request route).clock 0)).run (foreignStore state)).1 = .ok (.ok ⟨"tenant", false⟩) := by
  have hraw : apiKeyFromRequest (request route) = "key" := by
    have htrim : trimSpace "key" = "key" ∧ "key" ≠ "" := by decide +kernel
    simp only [apiKeyFromRequest, request, htrim.1, ne_eq, htrim.2, not_false_eq_true, if_true]
  have hkey : (Table.empty.put key).get (server.keyHash (trimSpace "key")) = some key := by
    decide +kernel
  have hempty : trimSpace "key" ≠ "" := by decide +kernel
  have hvalid : ¬ (key.disabled ∨ key.keyHash ≠ server.keyHash (trimSpace "key")) := by
    decide +kernel
  rw [hraw]
  exact run_authenticateAPIKey hempty hkey hvalid

theorem foreign_foreignStore (state : FunctionState) :
    (Resource.version "foreign").Foreign (foreignStore state) "tenant" :=
  ⟨other, rfl, by decide⟩

end Sample

open Sample in
theorem refusal_reveals_nothing_getFunction :
    ((serve server (request (.getFunction "foreign"))).runWith (fun _ => none)
        (foreignStore .building)).result =
      ((serve server (request (.getFunction "foreign"))).runWith (fun _ => none)
        (foreignStore .ready)).result :=
  (refusal_reveals_nothing_iff server (request (.getFunction "foreign")) _ _ "tenant"
    (authenticated_foreignStore .building _) (sameOwnership_putVersion store rfl rfl) _ rfl
    (foreign_foreignStore .building)).mpr (fun _ _ h => by cases h) _

open Sample in
/-- The tenant invokes it: the answer is 409 while it is being built and 403 when it is ready. -/
theorem refusal_reveals_readiness :
    ¬ ∀ (srv : Server) (req : Request) (s s' : Store) (tenantID : String),
      ((authenticateAPIKey srv (apiKeyFromRequest req) (req.clock 0)).run s).1 =
        .ok (.ok ⟨tenantID, false⟩) → SameOwnership s s' →
      ∀ resource, req.route.addresses srv = some resource → resource.Foreign s tenantID →
        ((serve srv req).run s).1 = ((serve srv req).run s').1 := by
  intro h
  have heq := h server (request (.invokeFunction "foreign" (.ok {}))) (foreignStore .building)
    (foreignStore .ready) "tenant" (authenticated_foreignStore .building _)
    (sameOwnership_putVersion store rfl rfl) _ rfl (foreign_foreignStore .building)
  have hstatus : (((serve server (request (.invokeFunction "foreign" (.ok {})))).run
      (foreignStore .building)).1).map (·.status) = .ok 409 := by rfl
  have hstatus' : (((serve server (request (.invokeFunction "foreign" (.ok {})))).run
      (foreignStore .ready)).1).map (·.status) = .ok 403 := by rfl
  rw [heq, hstatus'] at hstatus
  cases hstatus

end Api

end Lecrev

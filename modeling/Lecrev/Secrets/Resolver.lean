import Lecrev.Build.Service
import Lecrev.NodeAgent.Service
import Lecrev.Store.Listing

/-!
# Secrets of an execution

`internal/secrets`: a host asks for the secrets of an assignment, and the resolver lets it have
those that the version names, in the regions of the version. References are checked when a version
is deployed and trimmed when they are resolved. -/

namespace Lecrev.Secrets

/-- The loop of `normalizeSecretRefs`; `out` holds the references seen so far, which are the keys of
the source's `seen`. -/
def collectRefs (out : List String) : List String → List String
  | [] => out
  | ref :: refs =>
    let trimmed := trimSpace ref
    if trimmed = "" then collectRefs out refs
    else if trimmed ∈ out then collectRefs out refs
    else collectRefs (out ++ [trimmed]) refs

/-- `normalizeSecretRefs`. -/
def normalizeSecretRefs (refs : List String) : List String := collectRefs [] refs

/-- The references the provider is asked for by `ResolveExecution`; none when it is not asked. -/
def authorizeRefs (req : SecretsRequest) : StoreM (List String) :=
  if trimSpace req.hostID = "" then .throw (.other "hostId is required")
  else if trimSpace req.region = "" then .throw (.other "region is required")
  else if trimSpace req.functionVersionID = "" then .throw (.other "functionVersionId is required")
  else
    let refs := normalizeSecretRefs req.secretRefs
    if refs = [] then pure []
    else do
      let host ← getHost req.hostID
      if host.region ≠ req.region then .throw .accessDenied
      else
        let version ← getFunctionVersion req.functionVersionID
        if req.region ∉ version.regions then .throw .accessDenied
        else if ∃ ref ∈ refs, ref ∉ version.envRefs then .throw .accessDenied
        else pure refs

/-- `ScopedResolver.ResolveExecution`, for a provider of secrets. -/
def resolveExecution (provider : List String → Except Err Env) (req : SecretsRequest) :
    StoreM Env := do
  let refs ← authorizeRefs req
  if refs = [] then pure ∅ else .ret (provider refs)

/-! ## References -/

section References

variable {out refs : List String} {name : String}

/-- Which references are collected. -/
theorem mem_collectRefs : name ∈ collectRefs out refs ↔
    name ∈ out ∨ name ≠ "" ∧ ∃ ref ∈ refs, trimSpace ref = name := by
  induction refs generalizing out with
  | nil => simp [collectRefs]
  | cons ref refs ih =>
    unfold collectRefs
    dsimp only
    split_ifs with hblank hseen
    · rw [ih]
      refine or_congr_right (and_congr_right fun hne => ?_)
      have hnot : trimSpace ref ≠ name := fun h => hne (h ▸ hblank)
      simp [hnot]
    · rw [ih]
      constructor
      · rintro (h | ⟨hne, r, hr, hname⟩)
        · exact .inl h
        · exact .inr ⟨hne, r, List.mem_cons_of_mem _ hr, hname⟩
      · rintro (h | ⟨hne, r, hr, rfl⟩)
        · exact .inl h
        · obtain rfl | hr := List.mem_cons.mp hr
          · exact .inl hseen
          · exact .inr ⟨hne, r, hr, rfl⟩
    · rw [ih, List.mem_append, List.mem_singleton]
      constructor
      · rintro ((h | rfl) | ⟨hne, r, hr, hname⟩)
        · exact .inl h
        · exact .inr ⟨hblank, ref, List.mem_cons_self, rfl⟩
        · exact .inr ⟨hne, r, List.mem_cons_of_mem _ hr, hname⟩
      · rintro (h | ⟨hne, r, hr, rfl⟩)
        · exact .inl (.inl h)
        · obtain rfl | hr := List.mem_cons.mp hr
          · exact .inl (.inr rfl)
          · exact .inr ⟨hne, r, hr, rfl⟩

theorem mem_normalizeSecretRefs (hrefs : ∀ ref ∈ refs, trimSpace ref ≠ "") :
    name ∈ normalizeSecretRefs refs ↔ ∃ ref ∈ refs, trimSpace ref = name := by
  rw [normalizeSecretRefs, mem_collectRefs, or_iff_right List.not_mem_nil, and_iff_right_iff_imp]
  rintro ⟨ref, hmem, rfl⟩
  exact hrefs ref hmem

theorem normalizeSecretRefs_subset_iff (hrefs : ∀ ref ∈ refs, trimSpace ref ≠ "") :
    (∀ name, name ∈ normalizeSecretRefs refs ↔ name ∈ refs) ↔
      ∀ ref ∈ refs, trimSpace ref = ref := by
  simp only [mem_normalizeSecretRefs hrefs]
  constructor
  · intro h ref hmem
    obtain ⟨other, -, rfl⟩ := (h ref).mpr hmem
    exact trimSpace_trimSpace other
  · intro h name
    constructor
    · rintro ⟨ref, hmem, rfl⟩
      rw [h ref hmem]
      exact hmem
    · exact fun hmem => ⟨name, hmem, h name hmem⟩

end References

/-! ## Admission and resolution -/

/-- The version is stored for the request. -/
structure Deployed (r : DeployRequest) (version : FunctionVersion) : Prop where
  regions : version.regions = r.regions
  envVars : version.envVars = r.envVars
  envRefs : version.envRefs = r.envRefs

/-- The version that `createFunctionVersion` stores, in whatever state its build has left it. -/
theorem deployed_newFunctionVersion (run : BuildRun) (r : DeployRequest)
    (artifactDigest entrypoint : String) (state : FunctionState) :
    Deployed r { newFunctionVersion run r with artifactDigest, entrypoint, state } :=
  ⟨rfl, rfl, rfl⟩

/-- The provider returns a secret for each name it is asked for, and no other. -/
def Exact (provider : List String → Except Err Env) : Prop :=
  ∀ refs, ∃ env, provider refs = .ok env ∧ ∀ name, name ∈ env ↔ name ∈ refs

/-- The names that the provider is asked for. -/
def asked (s : Store) (req : SecretsRequest) : List String :=
  match ((authorizeRefs req).run s).1 with
  | .ok refs => refs
  | .error _ => []

/-- The resolver does not refuse the request, asks for the names of the version, and returns none of
its variables. -/
structure Agrees (provider : List String → Except Err Env) (s : Store) (req : SecretsRequest)
    (version : FunctionVersion) : Prop where
  allowed : ((resolveExecution provider req).run s).1 ≠ .error .accessDenied
  asks : ∀ name, name ∈ asked s req ↔ name ∈ version.envRefs
  disjoint : ∀ env, ((resolveExecution provider req).run s).1 = .ok env →
    ∀ name, name ∈ env → version.envVars.lookup name = none

/-- A host of the store asks for the secrets of a stored version in one of its regions. -/
structure Asks (s : Store) (n : Node) (version : FunctionVersion) : Prop where
  host : ∃ host, s.hosts.get n.hostID = some host ∧ host.region = n.region
  stored : s.functions.get version.id = some version
  named : trimSpace version.id ≠ ""
  region : n.region ∈ version.regions

section Resolution

variable {provider : List String → Except Err Env} {s : Store} {n : Node}
  {version : FunctionVersion} {attempt : Attempt} {artifactMeta : Artifact} {job : ExecutionJob}
  {req : SecretsRequest}

theorem secretsRequest_newAssignment :
    secretsRequest n (newAssignment attempt version artifactMeta job) =
      ⟨n.hostID, n.region, version.id, version.envRefs⟩ := rfl

theorem run_authorizeRefs (h : Asks s n version) (hhost : trimSpace n.hostID ≠ "")
    (hregion : trimSpace n.region ≠ "") :
    ((authorizeRefs ⟨n.hostID, n.region, version.id, version.envRefs⟩).run s).1 =
      if normalizeSecretRefs version.envRefs = [] then .ok []
      else if ∃ ref ∈ normalizeSecretRefs version.envRefs, ref ∉ version.envRefs then
        .error .accessDenied
      else .ok (normalizeSecretRefs version.envRefs) := by
  obtain ⟨host, hget, hsame⟩ := h.host
  simp only [authorizeRefs, if_neg hhost, if_neg hregion, if_neg h.named]
  split_ifs with hempty hforeign
  · rfl
  · simp only [getHost, getFunctionVersion, Prog.run_bind, Prog.run_query, find_of_get _ hget,
      find_of_get _ h.stored, hsame, ne_eq, not_true_eq_false, if_false,
      not_not.mpr h.region, if_pos hforeign]
    rfl
  · simp only [getHost, getFunctionVersion, Prog.run_bind, Prog.run_query, find_of_get _ hget,
      find_of_get _ h.stored, hsame, ne_eq, not_true_eq_false, if_false,
      not_not.mpr h.region, if_neg hforeign]
    rfl

variable (s req) in
theorem run_authorizeRefs_of_blank (h : trimSpace req.hostID = "") :
    (authorizeRefs req).run s = (.error (.other "hostId is required"), s) := by
  rw [authorizeRefs, if_pos h]
  rfl

variable (s req) in
theorem run_resolveExecution (hexact : Exact provider) :
    (∃ e, ((authorizeRefs req).run s).1 = .error e ∧
      ((resolveExecution provider req).run s).1 = .error e) ∨
    ∃ refs env, ((authorizeRefs req).run s).1 = .ok refs ∧
      ((resolveExecution provider req).run s).1 = .ok env ∧ ∀ name, name ∈ env ↔ name ∈ refs := by
  rw [resolveExecution, Prog.run_bind]
  rcases (authorizeRefs req).run s with ⟨e | refs, t⟩
  · exact .inl ⟨e, rfl, rfl⟩
  · by_cases hempty : refs = []
    · subst hempty
      exact .inr ⟨[], ∅, rfl, rfl, fun _ => iff_of_false Finmap.notMem_empty List.not_mem_nil⟩
    · obtain ⟨env, henv, hnames⟩ := hexact refs
      refine .inr ⟨refs, env, rfl, ?_, hnames⟩
      simp only [if_neg hempty, Prog.run_ret, henv]

theorem agrees_of_asks (hexact : Exact provider)
    (hallowed : ((authorizeRefs req).run s).1 ≠ .error .accessDenied)
    (hasks : ∀ name, name ∈ asked s req ↔ name ∈ version.envRefs)
    (hvars : ∀ ref ∈ version.envRefs, version.envVars.lookup ref = none) :
    Agrees provider s req version := by
  obtain ⟨e, hauth, hrun⟩ | ⟨refs, env, hauth, hrun, hnames⟩ :=
    run_resolveExecution s req hexact
  · refine ⟨fun h => ?_, hasks, fun env h => ?_⟩
    · rw [hrun] at h
      obtain rfl := Except.error.inj h
      exact hallowed hauth
    · rw [hrun] at h
      cases h
  · refine ⟨fun h => ?_, hasks, fun env' h name hname => hvars name ((hasks name).mp ?_)⟩
    · rw [hrun] at h
      cases h
    · rw [hrun] at h
      obtain rfl := Except.ok.inj h
      rw [asked, hauth]
      exact (hnames name).mp hname

theorem Deployed.refs {request r : DeployRequest} (h : Deployed r version)
    (hr : normalizeDeployRequest request = .ok r) :
    ∀ ref ∈ version.envRefs, trimSpace ref ≠ "" ∧ version.envVars.lookup ref = none := by
  intro ref hmem
  rw [h.envRefs] at hmem
  rw [h.envVars]
  exact of_validateEnvRef
    (validateEnvRef_of_valid (normalized_of_normalizeDeployRequest hr).valid ref hmem)

theorem Deployed.region {request r : DeployRequest} (h : Deployed r version)
    (hr : normalizeDeployRequest request = .ok r) :
    ∀ region ∈ version.regions, trimSpace region ≠ "" := by
  have hnamed : ∀ region ∈ defaultExecutionRegions, trimSpace region ≠ "" := by decide +kernel
  intro region hmem
  rw [h.regions] at hmem
  exact hnamed region (mem_of_normalizeExecutionRegions
    (normalized_of_normalizeDeployRequest hr).regions region hmem)

end Resolution

/-- **The resolver agrees with the admission of a deploy** exactly when the version has no
references, or the host has an identifier and no reference has blanks around it. -/
theorem agrees_iff {provider : List String → Except Err Env} {s : Store} {n : Node}
    {request r : DeployRequest} {version : FunctionVersion} (attempt : Attempt)
    (artifactMeta : Artifact) (job : ExecutionJob) (hexact : Exact provider)
    (hr : normalizeDeployRequest request = .ok r) (hdeployed : Deployed r version)
    (hasks : Asks s n version) :
    Agrees provider s (secretsRequest n (newAssignment attempt version artifactMeta job)) version ↔
      version.envRefs = [] ∨
        trimSpace n.hostID ≠ "" ∧ ∀ ref ∈ version.envRefs, trimSpace ref = ref := by
  rw [secretsRequest_newAssignment]
  have hrefs : ∀ ref ∈ version.envRefs, trimSpace ref ≠ "" :=
    fun ref hmem => (hdeployed.refs hr ref hmem).1
  have hvars : ∀ ref ∈ version.envRefs, version.envVars.lookup ref = none :=
    fun ref hmem => (hdeployed.refs hr ref hmem).2
  have hregion := hdeployed.region hr _ hasks.region
  by_cases hhost : trimSpace n.hostID = ""
  · -- nothing is asked for
    have hrun := run_authorizeRefs_of_blank s
      ⟨n.hostID, n.region, version.id, version.envRefs⟩ hhost
    have hasked : asked s ⟨n.hostID, n.region, version.id, version.envRefs⟩ = [] := by
      rw [asked, hrun]
    simp only [hhost, ne_eq, not_true_eq_false, false_and, or_false]
    constructor
    · intro h
      refine List.eq_nil_iff_forall_not_mem.mpr fun name hmem => ?_
      have hname := (h.asks name).mpr hmem
      rw [hasked] at hname
      exact List.not_mem_nil hname
    · intro hempty
      refine agrees_of_asks hexact ?_ (fun name => ?_) hvars
      · rw [hrun]
        simp
      · rw [hasked, hempty]
  · have hrun := run_authorizeRefs hasks hhost hregion
    rw [and_iff_right hhost, ← normalizeSecretRefs_subset_iff hrefs]
    by_cases hempty : normalizeSecretRefs version.envRefs = []
    · -- there are no references
      have hnil : version.envRefs = [] := by
        refine List.eq_nil_iff_forall_not_mem.mpr fun ref hmem => ?_
        have hname := (mem_normalizeSecretRefs hrefs).mpr ⟨ref, hmem, rfl⟩
        rw [hempty] at hname
        exact List.not_mem_nil hname
      rw [if_pos hempty] at hrun
      refine iff_of_true (agrees_of_asks hexact ?_ (fun name => ?_) hvars) (.inl hnil)
      · rw [hrun]
        simp
      · rw [asked, hrun, hnil]
    · have hne : version.envRefs ≠ [] := by
        rintro hnil
        rw [hnil] at hempty
        exact hempty rfl
      rw [if_neg hempty] at hrun
      rw [or_iff_right hne]
      constructor
      · intro h
        split_ifs at hrun with hforeign
        · -- the request is refused
          obtain ⟨e, hauth, hres⟩ | ⟨refs, env, hauth, -⟩ := run_resolveExecution s
            ⟨n.hostID, n.region, version.id, version.envRefs⟩ hexact
          · rw [hauth] at hrun
            rw [Except.error.inj hrun] at hres
            exact absurd hres h.allowed
          · rw [hauth] at hrun
            cases hrun
        · intro name
          rw [← h.asks name, asked, hrun]
      · intro hsame
        have hforeign : ¬ ∃ ref ∈ normalizeSecretRefs version.envRefs, ref ∉ version.envRefs := by
          rintro ⟨ref, hmem, hnot⟩
          exact hnot ((hsame ref).mp hmem)
        rw [if_neg hforeign] at hrun
        refine agrees_of_asks hexact ?_ (fun name => ?_) hvars
        · rw [hrun]
          simp
        · rw [asked, hrun]
          exact hsame name

namespace Sample

def request (ref : String) : DeployRequest := { BuildSample.request with envRefs := [ref] }

def normalized (ref : String) : DeployRequest :=
  { request ref with
    runtime := "node22"
    memoryMB := 128
    timeoutSec := 30
    networkPolicy := .full }

def version (ref : String) : FunctionVersion :=
  { newFunctionVersion BuildSample.run (normalized ref) with
    artifactDigest := "digest", state := .ready }

def host : Host where
  id := "host"
  region := "ap-south-1"
  driver := "firecracker"
  state := .active
  availableSlots := 1
  availableFullNetworkSlots := 0
  blankWarm := 0
  functionWarm := ∅
  lastHeartbeat := 0

def node : Node where
  hostID := "host"
  region := "ap-south-1"
  driverName := "firecracker"
  maxSlots := 1
  maxFullNetwork := 0
  warmer := false
  inventoryForSlots := none
  inventory := none

def store (ref : String) : Store :=
  { Store.new with
    functions := Table.empty.put (version ref)
    hosts := Table.empty.put host }

def provider (refs : List String) : Except Err Env :=
  .ok (.ofList (refs.map fun ref => (ref, "secret")))

def job (ref : String) : ExecutionJob := newExecutionJob "job" (version ref) [] 0

def attempt (ref : String) : Attempt := newAttempt "attempt" "ap-south-1" (version ref) (job ref) 0

theorem exact_provider : Exact provider := by
  intro refs
  refine ⟨_, rfl, fun name => ?_⟩
  rw [Env.ofList, Finmap.mem_list_toFinmap]
  simp

theorem deployed (ref : String) : Deployed (normalized ref) (version ref) :=
  deployed_newFunctionVersion BuildSample.run (normalized ref) _ _ _

theorem asks (ref : String) : Asks (store ref) node (version ref) where
  host := ⟨host, Table.get_put_of_key _ rfl, rfl⟩
  stored := Table.get_put_of_key _ rfl
  named := by
    change trimSpace "version" ≠ ""
    decide +kernel
  region := List.mem_singleton_self _

end Sample

theorem agrees_iff_sample : Agrees Sample.provider (Sample.store "TOKEN")
    (secretsRequest Sample.node (newAssignment (Sample.attempt "TOKEN") (Sample.version "TOKEN")
      DomainSample.artifact (Sample.job "TOKEN"))) (Sample.version "TOKEN") :=
  have hnormalized : normalizeDeployRequest (Sample.request "TOKEN") =
      .ok (Sample.normalized "TOKEN") := by decide +kernel
  (agrees_iff (Sample.attempt "TOKEN") DomainSample.artifact (Sample.job "TOKEN")
    Sample.exact_provider hnormalized (Sample.deployed "TOKEN") (Sample.asks "TOKEN")).mpr
    (.inr (by decide +kernel))

/-- A reference with a blank in front passes the checks of the deploy, is stored as it was sent, and
its trimmed name is refused by the resolver. -/
theorem not_agrees : ¬ ∀ (provider : List String → Except Err Env) (s : Store) (n : Node)
    (request r : DeployRequest) (version : FunctionVersion) (attempt : Attempt)
    (artifactMeta : Artifact) (job : ExecutionJob), Exact provider →
    normalizeDeployRequest request = .ok r → Deployed r version → Asks s n version →
      Agrees provider s (secretsRequest n (newAssignment attempt version artifactMeta job))
        version := by
  intro h
  have hagrees := h Sample.provider (Sample.store " TOKEN") Sample.node (Sample.request " TOKEN")
    (Sample.normalized " TOKEN") (Sample.version " TOKEN") (Sample.attempt " TOKEN")
    DomainSample.artifact (Sample.job " TOKEN") Sample.exact_provider (by decide +kernel)
    (Sample.deployed " TOKEN") (Sample.asks " TOKEN")
  have hrefused : ((resolveExecution Sample.provider
      ⟨"host", "ap-south-1", "version", [" TOKEN"]⟩).run (Sample.store " TOKEN")).1 =
      .error .accessDenied := by
    decide +kernel
  exact hagrees.allowed hrefused

end Lecrev.Secrets

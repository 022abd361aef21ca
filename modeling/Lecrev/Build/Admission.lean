import Lecrev.Build.Request

/-!
# What an accepted deploy request looks like

`normalizeDeployRequest` runs twice on a request: before the build job is stored, and again when a
builder processes the job. A request that it has returned is one that it returns unchanged, and it
keeps the limits of the platform (`Admitted`).

The names of environment variables are trimmed for their check only, and stored as they came. An
accepted name is therefore a well-formed one between blanks (`validateEnvVar_eq_ok_iff`). As no
blank is an equals sign, the entries that `envVarList` makes can still be taken apart. -/

namespace Lecrev

/-! ## Limits -/

/-- The regions that a request names, each where it occurs first. -/
def namedRegions (requested : List String) : List String :=
  ((requested.map trimSpace).filter (· ≠ "")).eraseDups

theorem eq_of_collectRegions {normalized requested regions : List String}
    (h : collectRegions normalized requested = .ok regions) :
    regions = normalized ++
      (((requested.map trimSpace).filter (· ≠ "")).filter (· ∉ normalized)).eraseDups := by
  induction requested generalizing normalized with
  | nil =>
    obtain rfl := Except.ok.inj h
    rw [List.map_nil, List.filter_nil, List.filter_nil, List.eraseDups_nil, List.append_nil]
  | cons region requested ih =>
    unfold collectRegions at h
    dsimp only at h
    split_ifs at h with hblank hunknown hseen
    · rw [ih h, List.map_cons, List.filter_cons_of_neg (by simp [hblank])]
    · rw [ih h, List.map_cons, List.filter_cons_of_pos (by simp [hblank]),
        List.filter_cons_of_neg (by simp [hseen])]
    · rw [ih h, List.map_cons, List.filter_cons_of_pos (by simp [hblank]),
        List.filter_cons_of_pos (by simp [hseen]), List.eraseDups_cons, List.append_assoc,
        List.singleton_append]
      -- a later occurrence is dropped on both sides: as seen, and as a duplicate
      congr 3
      rw [List.filter_filter (q := fun x => decide (x ∉ normalized))]
      refine List.filter_congr fun other _ => ?_
      simp only [List.mem_append, List.mem_singleton, not_or, Bool.decide_and, Bool.and_comm,
        decide_not]
      rfl

theorem eq_of_normalizeExecutionRegions {requested regions : List String}
    (h : normalizeExecutionRegions requested = .ok regions) :
    regions = if requested = [] then defaultExecutionRegions else namedRegions requested := by
  unfold normalizeExecutionRegions at h
  split_ifs at h ⊢
  · exact (Except.ok.inj h).symm
  · obtain ⟨normalized, hcollect, h⟩ := Except.bind_eq_ok_iff.mp h
    split_ifs at h
    obtain rfl := Except.ok.inj h
    rw [eq_of_collectRegions hcollect, List.nil_append, namedRegions]
    congr 1
    exact List.filter_eq_self.mpr fun _ _ => by simp

/-- What the platform asks of a request `r` that it has accepted as `req`. -/
structure Admitted (req r : DeployRequest) : Prop where
  memory : minMemoryMB ≤ r.memoryMB ∧ r.memoryMB ≤ maxMemoryMB
  timeout : 1 ≤ r.timeoutSec ∧ r.timeoutSec ≤ maxTimeoutSec
  retries : 0 ≤ r.maxRetries ∧ r.maxRetries ≤ maxRetries
  policy : r.networkPolicy = .none ∨ r.networkPolicy = .full
  regions_ne_nil : r.regions ≠ []
  regions_nodup : r.regions.Nodup
  regions_supported : r.regions ⊆ defaultExecutionRegions
  regions_eq : r.regions =
    if req.regions = [] then defaultExecutionRegions else namedRegions req.regions
  website : isWebsiteDeploy r.source → websiteMemoryMB ≤ r.memoryMB ∧
    websiteTimeoutSec ≤ r.timeoutSec ∧ r.networkPolicy ≠ .none
  envRefs : ∀ ref ∈ r.envRefs, ∀ entry ∈ r.envVars, ref ≠ entry.1

theorem validateNetworkPolicy_eq_ok_iff {policy : NetworkPolicy} :
    validateNetworkPolicy policy = .ok () ↔ policy = .none ∨ policy = .full := by
  cases policy <;> simp [validateNetworkPolicy]

theorem filledPolicy_website_ne_none (policy : NetworkPolicy) :
    filledPolicy true policy ≠ .none := by
  cases policy <;> simp [filledPolicy, websiteNetworkPolicy, defaultNetworkPolicy]

theorem ne_of_lookup_eq_none {envVars : List (String × String)} {name : String}
    (h : envVars.lookup name = none) : ∀ entry ∈ envVars, name ≠ entry.1 := by
  intro entry hentry hname
  have hne := List.lookup_eq_none_iff.mp h entry hentry
  simp [hname] at hne

theorem admitted_of_normalizeDeployRequest {req r : DeployRequest}
    (h : normalizeDeployRequest req = .ok r) : Admitted req r := by
  have hkept := normalized_of_normalizeDeployRequest h
  obtain ⟨⟨-, -, -, -, hretries⟩, regions, -, hvalid, rfl⟩ := normalizeDeployRequest_eq_ok_iff.mp h
  obtain ⟨-, -, hmemory, htimeout, hmax, -, -, -, hrefs, hpolicy, -⟩ :=
    validateDeployRequest_eq_ok_iff.mp hvalid
  obtain ⟨hnodup, hne⟩ := nodup_of_normalizeExecutionRegions hkept.regions
  exact {
    memory := hmemory
    timeout := htimeout
    retries := ⟨hretries, hmax⟩
    policy := validateNetworkPolicy_eq_ok_iff.mp hpolicy
    regions_ne_nil := hne
    regions_nodup := hnodup
    regions_supported := mem_of_normalizeExecutionRegions hkept.regions
    regions_eq := eq_of_normalizeExecutionRegions hkept.regions
    website := by
      intro hwebsite
      have hsource : isWebsiteDeploy req.source = true := hwebsite
      simp only [DeployRequest.inRegions, DeployRequest.filled, hsource]
      exact ⟨le_filledNumber _ _ _, le_filledNumber _ _ _, filledPolicy_website_ne_none _⟩
    envRefs := fun ref href => ne_of_lookup_eq_none (of_validateEnvRef (hrefs ref href)).2 }

/-- **Normalization is stable and sound**: what it returns it returns again, when the builder
normalizes the stored request, and that keeps the limits. -/
theorem normalization_stable {req r : DeployRequest} (h : normalizeDeployRequest req = .ok r) :
    normalizeDeployRequest r = .ok r ∧ Admitted req r :=
  ⟨normalizeDeployRequest_of_normalized h, admitted_of_normalizeDeployRequest h⟩

namespace AdmissionSample

def request : DeployRequest where
  projectID := "p"
  name := "shop"
  entrypoint := "index.mjs"
  regions := [" ap-south-2 ", "ap-south-1", "", "ap-south-2"]
  envVars := [(" A", "1=2")]
  envRefs := ["B"]
  source := {
    type := .bundle
    inlineFiles := [("index.mjs", "")]
    metadata := [("framework", " NextJS ")] }

def normalized : DeployRequest :=
  { request with
    runtime := defaultRuntime
    memoryMB := 2048
    timeoutSec := 180
    networkPolicy := .full
    regions := ["ap-south-2", "ap-south-1"] }

theorem normalizeDeployRequest_request : normalizeDeployRequest request = .ok normalized := by
  rfl

end AdmissionSample

theorem normalization_stable_sample :
    normalizeDeployRequest AdmissionSample.request = .ok AdmissionSample.normalized ∧
      normalizeDeployRequest AdmissionSample.normalized = .ok AdmissionSample.normalized :=
  ⟨AdmissionSample.normalizeDeployRequest_request,
    (normalization_stable AdmissionSample.normalizeDeployRequest_request).1⟩

/-! ## Environment variables -/

/-- A name of the form `[A-Za-z_][A-Za-z0-9_]*`. -/
def IsEnvName (name : String) : Prop :=
  match name.toList with
  | [] => False
  | c :: rest => (c.isAlpha ∨ c = '_') ∧ ∀ d ∈ rest, d.isAlphanum ∨ d = '_'

/-- `dst[key] = value`, on the entries of a map. -/
def setEnvVar (dst : List (String × String)) (key value : String) : List (String × String) :=
  if (dst.lookup key).isSome then dst.map fun entry => if entry.1 = key then (key, value) else entry
  else dst ++ [(key, value)]

/-- `cloneEnvVars`, for an iteration that meets the entries of the map in the given order. -/
def cloneEnvVars (src : List (String × String)) : List (String × String) :=
  src.foldl (fun dst entry => setEnvVar dst entry.1 entry.2) []

/-- `envVarList`, for an iteration that meets the entries of the map in the given order. -/
def envVarList (envVars : List (String × String)) : List String :=
  envVars.map fun entry => entry.1 ++ "=" ++ entry.2

/-- An entry of an environment, split at its first equals sign. -/
def splitEnvEntry (entry : String) : String × String :=
  (.ofList (entry.toList.takeWhile (· ≠ '=')), .ofList ((entry.toList.dropWhile (· ≠ '=')).drop 1))

theorem foldl_setEnvVar {dst src : List (String × String)}
    (hnodup : ((dst ++ src).map Prod.fst).Nodup) :
    src.foldl (fun dst entry => setEnvVar dst entry.1 entry.2) dst = dst ++ src := by
  induction src generalizing dst with
  | nil => rw [List.foldl_nil, List.append_nil]
  | cons entry src ih =>
    have hfresh : dst.lookup entry.1 = none := by
      refine List.lookup_eq_none_iff.mpr fun other hother => ?_
      rw [List.map_append] at hnodup
      have hne := (List.nodup_append.mp hnodup).2.2 other.1 (List.mem_map_of_mem hother) entry.1
        (List.mem_map_of_mem List.mem_cons_self)
      simpa using hne.symm
    rw [List.foldl_cons, setEnvVar, hfresh]
    rw [Option.isSome_none, if_neg Bool.false_ne_true, ih, List.append_assoc,
      List.singleton_append]
    rwa [List.append_assoc, List.singleton_append]

theorem cloneEnvVars_eq_self {src : List (String × String)} (hnodup : (src.map Prod.fst).Nodup) :
    cloneEnvVars src = src :=
  foldl_setEnvVar (by rwa [List.nil_append])

theorem isEnvLetter_eq_isAlpha (c : Char) : isEnvLetter c = c.isAlpha := by
  delta Char.isAlpha Char.isUpper
  rw [Bool.decide_and]
  rfl

theorem isEnvDigit_eq_isDigit (c : Char) : isEnvDigit c = c.isDigit := rfl

theorem checkEnvRest_eq_ok_iff (key : String) {rest : List Char} :
    checkEnvRest key rest = .ok () ↔ ∀ d ∈ rest, d.isAlphanum ∨ d = '_' := by
  induction rest with
  | nil => simp [checkEnvRest]
  | cons c rest ih =>
    unfold checkEnvRest
    rw [List.forall_mem_cons, ← ih, isEnvLetter_eq_isAlpha, isEnvDigit_eq_isDigit, Char.isAlphanum]
    cases c.isAlpha <;> cases c.isDigit <;> by_cases hc : c = '_' <;> simp [hc]

theorem validateEnvVar_eq_ok_iff {key value : String} :
    validateEnvVar key value = .ok () ↔
      IsEnvName (trimSpace key) ∧ value.utf8ByteSize ≤ maxEnvValueBytes := by
  unfold validateEnvVar IsEnvName
  cases (trimSpace key).toList with
  | nil => simp
  | cons c rest =>
    dsimp only
    rw [isEnvLetter_eq_isAlpha, ← checkEnvRest_eq_ok_iff key]
    have hsize : (if value.utf8ByteSize > maxEnvValueBytes then
          .error (.other ("envVars value for " ++ key.quote ++ " exceeds 16384 bytes"))
        else .ok () : Except Err Unit) = .ok () ↔ value.utf8ByteSize ≤ maxEnvValueBytes := by
      rw [← Nat.not_lt]
      exact refuseIf_eq_ok_iff
    by_cases hc : c.isAlpha ∨ c = '_'
    · rw [if_neg (by simpa [or_iff_not_imp_left] using hc), Except.bind_eq_ok_iff]
      simp only [Unique.exists_iff, PUnit.default_eq_unit, hsize, hc, true_and]
    · rw [if_pos (by simpa using hc)]
      simp only [hc, false_and, reduceCtorEq]

/-- No blank or equals sign is in a name. -/
theorem IsEnvName.not_isSpace {name : String} (h : IsEnvName name) :
    ∀ c ∈ name.toList, isSpace c = false ∧ c ≠ '=' := by
  have hletter : ∀ c : Char, c.isAlphanum ∨ c = '_' → isSpace c = false ∧ c ≠ '=' := by
    intro c hc
    have hrange : 48 ≤ c.toNat ∧ c.toNat ≤ 122 := by
      obtain hc | rfl := hc
      · delta Char.isAlphanum Char.isAlpha Char.isUpper Char.isLower at hc
        simp only [Char.isDigit, Bool.or_eq_true, Bool.and_eq_true, decide_eq_true_eq, ge_iff_le,
          UInt32.le_iff_toNat_le] at hc
        change ((65 ≤ c.toNat ∧ c.toNat ≤ 90) ∨ (97 ≤ c.toNat ∧ c.toNat ≤ 122)) ∨
          (48 ≤ c.toNat ∧ c.toNat ≤ 57) at hc
        omega
      · decide
    refine ⟨?_, ?_⟩
    · simp only [isSpace, List.mem_cons, List.not_mem_nil, Bool.or_eq_false_iff,
        Bool.and_eq_false_iff, decide_eq_false_iff_not, or_false]
      omega
    · rintro rfl
      exact absurd hc (by decide)
  unfold IsEnvName at h
  intro c hc
  cases hname : name.toList with
  | nil =>
    rw [hname] at hc
    exact absurd hc List.not_mem_nil
  | cons first rest =>
    rw [hname] at h hc
    obtain ⟨hfirst, hrest⟩ := h
    obtain rfl | hmem := List.mem_cons.mp hc
    · refine hletter c (hfirst.imp_left fun halpha => ?_)
      rw [Char.isAlphanum, halpha, Bool.true_or]
    · exact hletter c (hrest c hmem)

theorem isEnvName_iff_of_valid {key value : String} (h : validateEnvVar key value = .ok ()) :
    IsEnvName key ↔ trimSpace key = key := by
  obtain ⟨hname, -⟩ := validateEnvVar_eq_ok_iff.mp h
  constructor
  · exact fun hkey => trimSpace_eq_self fun c hc => (hkey.not_isSpace c hc).1
  · intro hkey
    rwa [hkey] at hname

theorem not_mem_of_valid {key value : String} (h : validateEnvVar key value = .ok ()) :
    '=' ∉ key.toList := by
  obtain ⟨hname, -⟩ := validateEnvVar_eq_ok_iff.mp h
  intro hmem
  obtain hspace | hmem := isSpace_or_mem_trimSpace hmem
  · exact absurd hspace (by decide)
  · exact (hname.not_isSpace _ hmem).2 rfl

theorem splitEnvEntry_of_not_mem {key : String} (hkey : '=' ∉ key.toList) (value : String) :
    splitEnvEntry (key ++ "=" ++ value) = (key, value) := by
  have hall : ∀ c ∈ key.toList, decide (c ≠ '=') = true := fun c hc =>
    decide_eq_true fun heq => hkey (heq ▸ hc)
  have hentry : (key ++ "=" ++ value).toList = key.toList ++ '=' :: value.toList := by simp
  rw [splitEnvEntry, hentry, List.takeWhile_append_of_pos hall, List.dropWhile_append_of_pos hall]
  simp

/-- What becomes of the variables of an accepted request. Their names are well formed exactly if the
request has no name with blanks around it. However the map is iterated over, the entries that a
build gets can be split into the variables again. -/
theorem env_names_iff {req r : DeployRequest} (hmap : (req.envVars.map Prod.fst).Nodup)
    (h : normalizeDeployRequest req = .ok r) :
    ((∀ entry ∈ cloneEnvVars r.envVars, IsEnvName entry.1) ↔
      ∀ entry ∈ req.envVars, trimSpace entry.1 = entry.1) ∧
    ∀ iteration listed, iteration.Perm r.envVars → listed.Perm (cloneEnvVars iteration) →
      ((envVarList listed).map splitEnvEntry).Perm r.envVars := by
  have hkept := normalized_of_normalizeDeployRequest h
  have hchecked : ∀ entry ∈ r.envVars, validateEnvVar entry.1 entry.2 = .ok () := by
    obtain ⟨-, -, -, -, -, -, -, hvars, -⟩ := validateDeployRequest_eq_ok_iff.mp hkept.valid
    exact hvars
  have hnodup : (r.envVars.map Prod.fst).Nodup := by rwa [hkept.envVars]
  constructor
  · rw [cloneEnvVars_eq_self hnodup, ← hkept.envVars]
    exact forall₂_congr fun entry hentry => isEnvName_iff_of_valid (hchecked entry hentry)
  · intro iteration listed hiteration hlisted
    rw [cloneEnvVars_eq_self ((hiteration.map _).nodup_iff.mpr hnodup)] at hlisted
    have hperm : listed.Perm r.envVars := hlisted.trans hiteration
    have hsplit : (envVarList listed).map splitEnvEntry = listed := by
      rw [envVarList, List.map_map]
      refine (List.map_congr_left fun entry hentry => ?_).trans (List.map_id _)
      have hvalid := hchecked entry (hperm.mem_iff.mp hentry)
      exact splitEnvEntry_of_not_mem (not_mem_of_valid hvalid) entry.2
    rwa [hsplit]

theorem env_names_iff_sample :
    normalizeDeployRequest AdmissionSample.request = .ok AdmissionSample.normalized ∧
      (envVarList (cloneEnvVars AdmissionSample.normalized.envVars)).map splitEnvEntry =
        [(" A", "1=2")] := by
  refine ⟨AdmissionSample.normalizeDeployRequest_request, ?_⟩
  have hsplit := (env_names_iff (by decide) AdmissionSample.normalizeDeployRequest_request).2
    AdmissionSample.normalized.envVars _ (.refl _) (.refl _)
  exact List.perm_singleton.mp hsplit

/-- A name with a blank in front is accepted and stored. -/
theorem not_env_names : ¬ ∀ req r : DeployRequest, (req.envVars.map Prod.fst).Nodup →
    normalizeDeployRequest req = .ok r →
      ∀ entry ∈ cloneEnvVars r.envVars, IsEnvName entry.1 := by
  intro hall
  have hname : IsEnvName " A" := hall AdmissionSample.request AdmissionSample.normalized (by decide)
    AdmissionSample.normalizeDeployRequest_request (" A", "1=2") (by decide)
  have hblank := (hname.not_isSpace ' ' (by decide)).1
  exact absurd hblank (by decide)

end Lecrev

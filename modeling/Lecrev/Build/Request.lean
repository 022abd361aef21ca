import Mathlib.Logic.Unique
import Lecrev.Domain.Text
import Lecrev.ToMathlib.List

/-!
# Deploy requests

`normalizeDeployRequest` of `internal/build` fills in the defaults of a deploy request and refuses
what the platform does not run; `regions.NormalizeExecutionRegions` does the same for the list of
regions. A Go map is the list of its entries, in the order of an iteration over it, so the first
offending entry decides which error is returned.
-/

namespace Lecrev

/-- The value of a key of a map of strings; the empty string if there is none. -/
def lookupText (m : List (String × String)) (key : String) : String := (m.lookup key).getD ""

/-- The text of a policy. -/
def NetworkPolicy.text : NetworkPolicy → String
  | .none => "none"
  | .allowlist => "allowlist"
  | .full => "full"
  | .unset => ""
  | .unsupported name => name

/-- The text of a type. -/
def SourceType.text : SourceType → String
  | .bundle => "bundle"
  | .git => "git"
  | .unsupported name => name

/-- The only runtime. -/
def defaultRuntime : String := "node22"

/-- The memory of a function that asks for none. -/
def defaultMemoryMB : ℤ := 128

/-- The timeout of a function that asks for none. -/
def defaultTimeoutSec : ℤ := 30

/-- The policy of a function that asks for none. -/
def defaultNetworkPolicy : NetworkPolicy := .full

/-- The policy of a website that asks for none. -/
def websiteNetworkPolicy : NetworkPolicy := .full

/-- The memory of a website that asks for none. -/
def websiteMemoryMB : ℤ := 2048

/-- The timeout of a website that asks for none. -/
def websiteTimeoutSec : ℤ := 180

/-- The least memory. -/
def minMemoryMB : ℤ := 64

/-- The largest memory. -/
def maxMemoryMB : ℤ := 4096

/-- The longest timeout. -/
def maxTimeoutSec : ℤ := 900

/-- The most retries. -/
def maxRetries : ℤ := 10

/-- The most variables. -/
def maxEnvVars : ℕ := 128

/-- The most references to secrets. -/
def maxEnvRefs : ℕ := 128

/-- The largest value of an environment variable, in bytes. -/
def maxEnvValueBytes : ℕ := 16384

/-- `regions.DefaultExecutionRegions`. -/
def defaultExecutionRegions : List String := ["ap-south-1", "ap-south-2", "ap-southeast-1"]

/-- `regions.DefaultPrimary`. -/
def defaultPrimary : String := "ap-south-1"

/-- The loop of `NormalizeExecutionRegions`; `normalized` holds the regions seen so far, which are
the keys of the source's `seen`. -/
def collectRegions (normalized : List String) : List String → Except Err (List String)
  | [] => .ok normalized
  | region :: requested =>
    let trimmed := trimSpace region
    if trimmed = "" then collectRegions normalized requested
    else if trimmed ∉ defaultExecutionRegions then
      .error (.other ("unsupported region " ++ trimmed.quote ++
        ": only APAC execution regions are enabled (" ++
        ", ".intercalate defaultExecutionRegions ++ ")"))
    else if trimmed ∈ normalized then collectRegions normalized requested
    else collectRegions (normalized ++ [trimmed]) requested

/-- `regions.NormalizeExecutionRegions`. -/
def normalizeExecutionRegions (requested : List String) : Except Err (List String) :=
  if requested = [] then .ok defaultExecutionRegions
  else do
    let normalized ← collectRegions [] requested
    if normalized = [] then .error (.other "at least one APAC execution region is required")
    else .ok normalized

/-! ## Checks -/

/-- `isWebsiteDeploy`. -/
def isWebsiteDeploy (source : DeploySource) : Bool :=
  equalFold (trimSpace (lookupText source.metadata "deliveryKind")) "website" ||
    equalFold (trimSpace (lookupText source.metadata "framework")) "nextjs"

/-- A letter, in the sense of `validateEnvVar`. -/
def isEnvLetter (c : Char) : Bool := ('A' ≤ c && c ≤ 'Z') || ('a' ≤ c && c ≤ 'z')

/-- A digit, in the sense of `validateEnvVar`. -/
def isEnvDigit (c : Char) : Bool := '0' ≤ c && c ≤ '9'

/-- The check of `validateEnvVar` for the characters after the first one. -/
def checkEnvRest (key : String) : List Char → Except Err Unit
  | [] => .ok ()
  | c :: rest =>
    if !isEnvLetter c && !isEnvDigit c && c != '_' then
      .error (.other ("envVars key " ++ key.quote ++ " contains unsupported character " ++
        (String.singleton c).quote))
    else checkEnvRest key rest

/-- `validateEnvVar`. The name is trimmed for the check only. -/
def validateEnvVar (key value : String) : Except Err Unit :=
  match (trimSpace key).toList with
  | [] => .error (.other "envVars cannot contain empty keys")
  | c :: rest =>
    if !isEnvLetter c && c != '_' then
      .error (.other ("envVars key " ++ key.quote ++ " must start with a letter or underscore"))
    else do
      checkEnvRest key rest
      if value.utf8ByteSize > maxEnvValueBytes then
        .error (.other ("envVars value for " ++ key.quote ++ " exceeds 16384 bytes"))
      else .ok ()

/-- The loop of `validateDeployRequest` over the references. -/
def validateEnvRef (envVars : List (String × String)) (ref : String) : Except Err Unit :=
  if trimSpace ref = "" then .error (.other "envRefs cannot contain empty values")
  else if (envVars.lookup ref).isSome then
    .error (.other ("envRefs cannot overlap envVars key " ++ ref.quote))
  else .ok ()

/-- The switch of `validateDeployRequest` over the network policy. -/
def validateNetworkPolicy : NetworkPolicy → Except Err Unit
  | .none | .full => .ok ()
  | .allowlist =>
    .error (.other ("network policy " ++ NetworkPolicy.allowlist.text.quote ++
      " is not yet supported"))
  | policy => .error (.other ("unsupported network policy " ++ policy.text.quote))

/-- The switch of `validateDeployRequest` over the source. -/
def validateSource (source : DeploySource) : Except Err Unit :=
  match source.type with
  | .bundle =>
    if source.bundleBase64 = "" ∧ source.inlineFiles = [] then
      .error (.other "bundle source requires bundleBase64 or inlineFiles")
    else .ok ()
  | .git =>
    if trimSpace source.gitURL = "" then .error (.other "gitUrl is required for git source")
    else .ok ()
  | type => .error (.other ("unsupported source type " ++ type.text.quote))

/-- Refuse with a message when a condition holds. -/
def refuseIf (condition : Prop) [Decidable condition] (message : String) : Except Err Unit :=
  if condition then .error (.other message) else .ok ()

/-- `validateDeployRequest`. -/
def validateDeployRequest (req : DeployRequest) : Except Err Unit := do
  refuseIf (trimSpace req.entrypoint = "" ∧ req.source.type ≠ .git) "entrypoint is required"
  refuseIf (req.runtime ≠ defaultRuntime)
    ("unsupported runtime " ++ req.runtime.quote ++ ": only " ++ defaultRuntime ++
      " is supported")
  refuseIf (req.memoryMB < minMemoryMB ∨ req.memoryMB > maxMemoryMB)
    ("memoryMb must be between " ++ toString minMemoryMB ++ " and " ++ toString maxMemoryMB)
  refuseIf (req.timeoutSec < 1 ∨ req.timeoutSec > maxTimeoutSec)
    ("timeoutSec must be between 1 and " ++ toString maxTimeoutSec)
  refuseIf (req.maxRetries > maxRetries)
    ("maxRetries must be between 0 and " ++ toString maxRetries)
  refuseIf (req.envRefs.length > maxEnvRefs)
    ("envRefs cannot exceed " ++ toString maxEnvRefs ++ " entries")
  refuseIf (req.envVars.length > maxEnvVars)
    ("envVars cannot exceed " ++ toString maxEnvVars ++ " entries")
  req.envVars.forM fun entry => validateEnvVar entry.1 entry.2
  req.envRefs.forM (validateEnvRef req.envVars)
  validateNetworkPolicy req.networkPolicy
  validateSource req.source

/-! ## Normalization -/

/-- What a website gets at least: memory, time, and the network. -/
def DeployRequest.forWebsite (req : DeployRequest) : DeployRequest :=
  { req with
    memoryMB := max req.memoryMB websiteMemoryMB
    timeoutSec := max req.timeoutSec websiteTimeoutSec
    networkPolicy :=
      if req.networkPolicy = .unset ∨ req.networkPolicy = .none then websiteNetworkPolicy
      else req.networkPolicy }

/-- `normalizeDeployRequest`: the defaults, and the checks. -/
def normalizeDeployRequest (req : DeployRequest) : Except Err DeployRequest := do
  refuseIf (req.projectID = "") "projectId is required"
  refuseIf (trimSpace req.name = "") "name is required"
  let req := if req.runtime = "" then { req with runtime := defaultRuntime } else req
  refuseIf (req.timeoutSec < 0) "timeoutSec must be positive"
  let req := if req.timeoutSec = 0 then { req with timeoutSec := defaultTimeoutSec } else req
  refuseIf (req.memoryMB < 0) "memoryMb must be positive"
  let req := if req.memoryMB = 0 then { req with memoryMB := defaultMemoryMB } else req
  let req := if isWebsiteDeploy req.source then req.forWebsite else req
  let req :=
    if req.networkPolicy = .unset then { req with networkPolicy := defaultNetworkPolicy } else req
  refuseIf (req.maxRetries < 0) "maxRetries must be zero or greater"
  let regions ← normalizeExecutionRegions req.regions
  let req := { req with regions }
  validateDeployRequest req
  .ok req

theorem refuseIf_eq_ok_iff {c : Prop} [Decidable c] {message : String} {u : Unit} :
    refuseIf c message = .ok u ↔ ¬ c := by
  unfold refuseIf
  split_ifs with h <;> simp [h]

variable {req : DeployRequest}

theorem validateDeployRequest_eq_ok_iff :
    validateDeployRequest req = .ok () ↔
      ¬ (trimSpace req.entrypoint = "" ∧ req.source.type ≠ .git) ∧
      req.runtime = defaultRuntime ∧
      (minMemoryMB ≤ req.memoryMB ∧ req.memoryMB ≤ maxMemoryMB) ∧
      (1 ≤ req.timeoutSec ∧ req.timeoutSec ≤ maxTimeoutSec) ∧
      req.maxRetries ≤ maxRetries ∧ req.envRefs.length ≤ maxEnvRefs ∧
      req.envVars.length ≤ maxEnvVars ∧
      (∀ entry ∈ req.envVars, validateEnvVar entry.1 entry.2 = .ok ()) ∧
      (∀ ref ∈ req.envRefs, validateEnvRef req.envVars ref = .ok ()) ∧
      validateNetworkPolicy req.networkPolicy = .ok () ∧ validateSource req.source = .ok () := by
  unfold validateDeployRequest
  simp only [Except.bind_eq_ok_iff, Unique.exists_iff, PUnit.default_eq_unit, refuseIf_eq_ok_iff,
    List.forM_eq_ok_iff, not_or, Int.not_lt, not_not, gt_iff_lt, Nat.not_lt, ne_eq]

/-- The runtime of a request, with its default. -/
def filledRuntime (runtime : String) : String := if runtime = "" then defaultRuntime else runtime

/-- A number of a request, with its default and, for a website, the least a website gets. -/
def filledNumber (website : Bool) (fallback least n : ℤ) : ℤ :=
  let n := if n = 0 then fallback else n
  if website then max n least else n

/-- The network policy of a request, with its default and the one of a website. -/
def filledPolicy (website : Bool) (policy : NetworkPolicy) : NetworkPolicy :=
  if website ∧ policy = .none then websiteNetworkPolicy
  else if policy = .unset then defaultNetworkPolicy
  else policy

/-- The request with its defaults and with the settings of a website; the regions are as they
were. -/
def DeployRequest.filled (req : DeployRequest) : DeployRequest :=
  { req with
    runtime := filledRuntime req.runtime
    timeoutSec := filledNumber (isWebsiteDeploy req.source) defaultTimeoutSec websiteTimeoutSec
      req.timeoutSec
    memoryMB := filledNumber (isWebsiteDeploy req.source) defaultMemoryMB websiteMemoryMB
      req.memoryMB
    networkPolicy := filledPolicy (isWebsiteDeploy req.source) req.networkPolicy }

theorem filledNumber_eq_self {website : Bool} {fallback least n : ℤ} (hn : n ≠ 0)
    (hleast : website → least ≤ n) : filledNumber website fallback least n = n := by
  unfold filledNumber
  rw [if_neg hn]
  dsimp only
  split_ifs with hwebsite
  · exact Int.max_eq_left (hleast hwebsite)
  · rfl

theorem le_filledNumber (fallback least n : ℤ) : least ≤ filledNumber true fallback least n :=
  Int.le_max_right _ _

theorem filledPolicy_filledPolicy (website : Bool) (policy : NetworkPolicy) :
    filledPolicy website (filledPolicy website policy) = filledPolicy website policy := by
  cases website <;> cases policy <;> rfl

/-- The request for other regions. -/
def DeployRequest.inRegions (req : DeployRequest) (regions : List String) : DeployRequest :=
  { req with regions }

variable {r : DeployRequest}

/-- Which requests are accepted, and as what. -/
theorem normalizeDeployRequest_eq_ok_iff :
    normalizeDeployRequest req = .ok r ↔
      (req.projectID ≠ "" ∧ trimSpace req.name ≠ "" ∧ 0 ≤ req.timeoutSec ∧ 0 ≤ req.memoryMB ∧
        0 ≤ req.maxRetries) ∧
      ∃ regions, normalizeExecutionRegions req.regions = .ok regions ∧
        validateDeployRequest (req.filled.inRegions regions) = .ok () ∧
          req.filled.inRegions regions = r := by
  unfold normalizeDeployRequest
  extract_lets req₁ req₂ req₃ req₄ req₅
  -- the chain of defaults, one field after the other
  have h₁ : req₁ = { req with runtime := req.filled.runtime } := by
    by_cases h : req.runtime = "" <;>
      simp only [req₁, h, DeployRequest.filled, filledRuntime, if_true, if_false]
  have h₂ : req₂ = { req with
      runtime := req.filled.runtime
      timeoutSec := if req.timeoutSec = 0 then defaultTimeoutSec else req.timeoutSec } := by
    by_cases h : req.timeoutSec = 0 <;> simp only [req₂, h₁, h, if_true, if_false]
  have h₃ : req₃ = { req with
      runtime := req.filled.runtime
      timeoutSec := if req.timeoutSec = 0 then defaultTimeoutSec else req.timeoutSec
      memoryMB := if req.memoryMB = 0 then defaultMemoryMB else req.memoryMB } := by
    by_cases h : req.memoryMB = 0 <;> simp only [req₃, h₂, h, if_true, if_false]
  have h₄ : req₄ = { req.filled with
      networkPolicy := if isWebsiteDeploy req.source ∧ (req.networkPolicy = .unset ∨
        req.networkPolicy = .none) then websiteNetworkPolicy else req.networkPolicy } := by
    by_cases h : isWebsiteDeploy req.source <;>
      simp only [req₄, h₃, h, DeployRequest.forWebsite, DeployRequest.filled, filledNumber, if_true,
        if_false, true_and, false_and, Bool.false_eq_true]
  have h₅ : req₅ = req.filled := by
    simp only [req₅, h₄, DeployRequest.filled, filledPolicy]
    by_cases h : isWebsiteDeploy req.source <;> cases req.networkPolicy <;>
      simp [h, websiteNetworkPolicy, defaultNetworkPolicy]
  have hkept : req.filled.maxRetries = req.maxRetries ∧ req.filled.regions = req.regions :=
    ⟨rfl, rfl⟩
  rw [h₅, h₂, h₁]
  simp only [Except.bind_eq_ok_iff, Unique.exists_iff, PUnit.default_eq_unit, refuseIf_eq_ok_iff,
    hkept.1, hkept.2, Int.not_lt, Except.ok.injEq, and_assoc, ne_eq, DeployRequest.inRegions]

/-- What normalization keeps of a request, and what it guarantees. -/
structure Normalized (req r : DeployRequest) : Prop where
  projectID : r.projectID = req.projectID
  name : r.name = req.name
  source : r.source = req.source
  envVars : r.envVars = req.envVars
  envRefs : r.envRefs = req.envRefs
  regions : normalizeExecutionRegions req.regions = .ok r.regions
  valid : validateDeployRequest r = .ok ()

theorem normalized_of_normalizeDeployRequest (h : normalizeDeployRequest req = .ok r) :
    Normalized req r := by
  obtain ⟨-, regions, hregions, hvalid, rfl⟩ := normalizeDeployRequest_eq_ok_iff.mp h
  exact ⟨rfl, rfl, rfl, rfl, rfl, hregions, hvalid⟩

theorem validateEnvRef_of_valid (h : validateDeployRequest r = .ok ()) :
    ∀ ref ∈ r.envRefs, validateEnvRef r.envVars ref = .ok () := by
  obtain ⟨-, -, -, -, -, -, -, -, hrefs, -⟩ := validateDeployRequest_eq_ok_iff.mp h
  exact hrefs

theorem of_validateEnvRef {envVars : List (String × String)} {ref : String}
    (h : validateEnvRef envVars ref = .ok ()) : trimSpace ref ≠ "" ∧ envVars.lookup ref = none := by
  unfold validateEnvRef at h
  split_ifs at h with hblank hoverlap
  exact ⟨hblank, Option.not_isSome_iff_eq_none.mp hoverlap⟩

variable {requested regions : List String}

theorem mem_of_collectRegions {normalized : List String}
    (h : collectRegions normalized requested = .ok regions)
    (hnormalized : ∀ region ∈ normalized, region ∈ defaultExecutionRegions) :
    ∀ region ∈ regions, region ∈ defaultExecutionRegions := by
  induction requested generalizing normalized with
  | nil =>
    obtain rfl := Except.ok.inj h
    exact hnormalized
  | cons next requested ih =>
    unfold collectRegions at h
    dsimp only at h
    split_ifs at h with hblank hunknown hseen
    · exact ih h hnormalized
    · exact ih h hnormalized
    · refine ih h fun region hregion => ?_
      obtain hmem | hmem := List.mem_append.mp hregion
      · exact hnormalized region hmem
      · rw [List.mem_singleton.mp hmem]
        exact hunknown

theorem mem_of_normalizeExecutionRegions (h : normalizeExecutionRegions requested = .ok regions) :
    ∀ region ∈ regions, region ∈ defaultExecutionRegions := by
  unfold normalizeExecutionRegions at h
  split_ifs at h
  · obtain rfl := Except.ok.inj h
    exact fun _ hmem => hmem
  · obtain ⟨normalized, hcollect, h⟩ := Except.bind_eq_ok_iff.mp h
    split_ifs at h
    obtain rfl := Except.ok.inj h
    exact mem_of_collectRegions hcollect fun _ hmem => absurd hmem List.not_mem_nil

theorem nodup_of_collectRegions {normalized : List String}
    (h : collectRegions normalized requested = .ok regions) (hnodup : normalized.Nodup) :
    regions.Nodup := by
  induction requested generalizing normalized with
  | nil =>
    obtain rfl := Except.ok.inj h
    exact hnodup
  | cons next requested ih =>
    unfold collectRegions at h
    dsimp only at h
    split_ifs at h with hblank hunknown hseen
    · exact ih h hnodup
    · exact ih h hnodup
    · refine ih h (List.nodup_append.mpr ⟨hnodup, List.nodup_singleton _, ?_⟩)
      rintro region hregion _ hmem rfl
      rw [List.mem_singleton.mp hmem] at hregion
      exact hseen hregion

theorem collectRegions_of_nodup {normalized : List String}
    (hnodup : (normalized ++ requested).Nodup)
    (henabled : ∀ region ∈ requested, region ∈ defaultExecutionRegions) :
    collectRegions normalized requested = .ok (normalized ++ requested) := by
  induction requested generalizing normalized with
  | nil => rw [collectRegions, List.append_nil]
  | cons region requested ih =>
    have hregion := henabled region List.mem_cons_self
    have htrim : ∀ region ∈ defaultExecutionRegions, trimSpace region = region ∧ region ≠ "" := by
      decide
    have hfresh : region ∉ normalized := fun hmem =>
      (List.nodup_append.mp hnodup).2.2 region hmem region List.mem_cons_self rfl
    unfold collectRegions
    rw [(htrim region hregion).1]
    simp only [(htrim region hregion).2, hregion, hfresh, if_false, not_true_eq_false]
    rw [ih]
    · rw [List.append_assoc, List.singleton_append]
    · rwa [List.append_assoc, List.singleton_append]
    · exact fun other hmem => henabled other (List.mem_cons_of_mem _ hmem)

theorem nodup_of_normalizeExecutionRegions (h : normalizeExecutionRegions requested = .ok regions) :
    regions.Nodup ∧ regions ≠ [] := by
  unfold normalizeExecutionRegions at h
  split_ifs at h with hnil
  · obtain rfl := Except.ok.inj h
    decide
  · obtain ⟨normalized, hcollect, h⟩ := Except.bind_eq_ok_iff.mp h
    split_ifs at h with hempty
    obtain rfl := Except.ok.inj h
    exact ⟨nodup_of_collectRegions hcollect List.nodup_nil, hempty⟩

theorem normalizeExecutionRegions_of_normalized
    (h : normalizeExecutionRegions requested = .ok regions) :
    normalizeExecutionRegions regions = .ok regions := by
  have henabled := mem_of_normalizeExecutionRegions h
  have hnodup := nodup_of_normalizeExecutionRegions h
  unfold normalizeExecutionRegions
  have hcollect : collectRegions [] regions = .ok ([] ++ regions) :=
    collectRegions_of_nodup hnodup.1 henabled
  rw [if_neg hnodup.2, hcollect]
  exact if_neg hnodup.2

theorem DeployRequest.filled_eq_self (hruntime : r.runtime ≠ "")
    (htimeout : r.timeoutSec ≠ 0) (hmemory : r.memoryMB ≠ 0)
    (hpolicy : filledPolicy (isWebsiteDeploy r.source) r.networkPolicy = r.networkPolicy)
    (hwebsite : isWebsiteDeploy r.source →
      websiteTimeoutSec ≤ r.timeoutSec ∧ websiteMemoryMB ≤ r.memoryMB) : r.filled = r := by
  unfold DeployRequest.filled
  rw [filledRuntime, if_neg hruntime, hpolicy,
    filledNumber_eq_self htimeout fun h => (hwebsite h).1,
    filledNumber_eq_self hmemory fun h => (hwebsite h).2]

/-- Normalizing again changes nothing. -/
theorem normalizeDeployRequest_of_normalized (h : normalizeDeployRequest req = .ok r) :
    normalizeDeployRequest r = .ok r := by
  obtain ⟨⟨hproject, hname, -, -, hretries⟩, regions, hregions, hvalid, hr⟩ :=
    normalizeDeployRequest_eq_ok_iff.mp h
  rw [hr] at hvalid
  obtain ⟨-, hruntime, ⟨hmin, -⟩, ⟨htime, -⟩, -, -, -, -, -, -, -⟩ :=
    validateDeployRequest_eq_ok_iff.mp hvalid
  have hmemory : 0 < r.memoryMB := Int.lt_of_lt_of_le (show 0 < minMemoryMB by decide) hmin
  have hkept : r.projectID = req.projectID ∧ r.name = req.name ∧ r.maxRetries = req.maxRetries ∧
      r.regions = regions := by
    rw [← hr]
    exact ⟨rfl, rfl, rfl, rfl⟩
  have hset : r.networkPolicy = filledPolicy (isWebsiteDeploy r.source) req.networkPolicy ∧
      r.timeoutSec = filledNumber (isWebsiteDeploy r.source) defaultTimeoutSec websiteTimeoutSec
        req.timeoutSec ∧
      r.memoryMB = filledNumber (isWebsiteDeploy r.source) defaultMemoryMB websiteMemoryMB
        req.memoryMB := by
    rw [← hr]
    simp only [DeployRequest.inRegions, DeployRequest.filled, and_self]
  obtain ⟨hpolicy, htimeoutSec, hmemoryMB⟩ := hset
  have hfilled : r.filled = r := by
    refine DeployRequest.filled_eq_self ?_ (Int.ne_of_gt htime) (Int.ne_of_gt hmemory) ?_ ?_
    · rw [hruntime]
      decide
    · rw [hpolicy, filledPolicy_filledPolicy]
    · intro hwebsite
      rw [htimeoutSec, hmemoryMB, hwebsite]
      exact ⟨le_filledNumber _ _ _, le_filledNumber _ _ _⟩
  obtain ⟨hsameProject, hsameName, hsameRetries, hsameRegions⟩ := hkept
  refine normalizeDeployRequest_eq_ok_iff.mpr ⟨⟨?_, ?_, ?_, ?_, ?_⟩, regions, ?_, ?_⟩
  · rwa [hsameProject]
  · rwa [hsameName]
  · exact Int.le_trans (by decide) htime
  · exact Int.le_of_lt hmemory
  · rwa [hsameRetries]
  · rw [hsameRegions]
    exact normalizeExecutionRegions_of_normalized hregions
  · rw [hfilled, ← hsameRegions]
    exact ⟨hvalid, rfl⟩

/-- The request for another git URL. -/
def DeployRequest.withGitURL (req : DeployRequest) (gitURL : String) : DeployRequest :=
  { req with source := { req.source with gitURL } }

theorem validateDeployRequest_withGitURL (req : DeployRequest) {gitURL : String}
    (hblank : trimSpace gitURL = "" ↔ trimSpace req.source.gitURL = "") :
    validateDeployRequest (req.withGitURL gitURL) = validateDeployRequest req := by
  have hsource : validateSource { req.source with gitURL } = validateSource req.source := by
    unfold validateSource
    simp only [hblank]
  unfold validateDeployRequest DeployRequest.withGitURL
  simp only [hsource]

theorem DeployRequest.filled_withGitURL (req : DeployRequest) (gitURL : String)
    (regions : List String) : (req.withGitURL gitURL).filled.inRegions regions =
      (req.filled.inRegions regions).withGitURL gitURL := by
  have hwebsite : isWebsiteDeploy (req.withGitURL gitURL).source = isWebsiteDeploy req.source := rfl
  unfold DeployRequest.filled
  rw [hwebsite]
  simp only [DeployRequest.inRegions, DeployRequest.withGitURL]

theorem normalizeDeployRequest_withGitURL {gitURL : String}
    (hblank : trimSpace gitURL = "" ↔ trimSpace req.source.gitURL = "")
    (h : normalizeDeployRequest req = .ok r) :
    normalizeDeployRequest (req.withGitURL gitURL) = .ok (r.withGitURL gitURL) := by
  obtain ⟨hchecks, regions, hregions, hvalid, rfl⟩ := normalizeDeployRequest_eq_ok_iff.mp h
  refine normalizeDeployRequest_eq_ok_iff.mpr ⟨hchecks, regions, hregions, ?_⟩
  rw [DeployRequest.filled_withGitURL]
  have hsame := validateDeployRequest_withGitURL (req.filled.inRegions regions) hblank
  exact ⟨hsame.trans hvalid, rfl⟩

end Lecrev

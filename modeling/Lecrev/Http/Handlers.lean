import Lecrev.Api.Handlers
import Lecrev.Direct.Failover
import Lecrev.Http.Request

/-!
# The handlers of function URLs, websites and webhooks

The handlers of `internal/httpapi` outside the `/v1` group, as programs of calls. They reach the
store, the static assets of websites and the scheduler; a function is invoked directly, and over the
queue when no host can take it directly. A handler writes its response as it goes, so the response
writer is passed along.

Everything a handler draws from outside comes with the request; what it calls outside the repository
is in the `Gateway`. The routes `/healthz`, `/metrics` and the preflight requests reach no function
and are left out.
-/

namespace Lecrev.Http

open Direct (CallState DirectExecutionResult)

/-- `strings.HasPrefix`. -/
def hasPrefix (text start : String) : Bool := start.toList.isPrefixOf text.toList

/-- `strings.TrimPrefix`. -/
def trimStart (text start : String) : String :=
  if hasPrefix text start then .ofList (text.toList.drop start.toList.length) else text

/-! ## Programs of handlers -/

/-- The calls of a handler. Those that serve a version carry its identifier. -/
inductive HttpCall
  | store (call : StoreCall)
  /-- A static asset of a version is looked for, under its key. -/
  | asset (versionID key : String)
  /-- A direct invocation of a version, with its payload. -/
  | executeDirectStream (versionID : String) (payload : Bytes)
  /-- A call of `DispatchExecutionIdempotent` for a version. -/
  | dispatch (versionID : String) (call : StoreCall)
  /-- A call of an authenticated handler of the `/v1` group. -/
  | api (call : StoreCall)
  deriving DecidableEq

/-- Programs of handlers, on the store and the direct executions that were started. -/
abbrev HttpM (α : Type) := Prog HttpCall CallState Err α

/-- Call the store. -/
def ofStore {α : Type} (p : StoreM α) : HttpM α := p.zoom CallState.storePart .store

/-- What a direct invocation does: the callbacks it makes, what it returns, and the state it
leaves. -/
abbrev DirectInvocation :=
  CallState → (List Signal × Except Err DirectExecutionResult) × CallState

/-- The server, and what it calls outside the repository. -/
structure Gateway where
  server : Api.Server
  codec : Codec
  /-- `ExecuteDirectStream` of the scheduler, of a version and a payload. -/
  direct : String → Bytes → DirectInvocation
  /-- The path of the URL that `url.Parse` reads, where it reads one. -/
  urlPath : String → Except Err String
  /-- `mime.TypeByExtension` of `path.Ext`. -/
  typeByExtension : String → String
  detectContentType : Bytes → String
  /-- The text of the cookie of a version, and whether it is secure. -/
  cookieText : String → Bool → String
  /-- The JSON value of a job, with its latency. -/
  jobJSON : ExecutionJob → ℕ → Json

/-- The callbacks of the executions that a direct invocation has started: for each of them `onMeta`,
whose arguments come from outside, and then its events. -/
def executionSignals (picked : Direct.Execution → String × StartMode)
    (executions : List Direct.Execution) : List Signal :=
  executions.flatMap fun x => .picked (picked x).1 (picked x).2 :: x.passed.map .event

/-- The direct invocations of a scheduler, each run as a whole. -/
def directOf (s : Scheduler) (dispatchers : String → Direct.Dispatcher) (uuid : ℕ → String)
    (now : Time) (picked : Direct.Execution → String × StartMode) (versionID : String)
    (payload : Bytes) : DirectInvocation := fun state =>
  let (outcome, after) := (Direct.executeDirectStream s dispatchers uuid now versionID payload).run
    { state with executions := [] }
  ((executionSignals picked after.executions, outcome),
    { after with executions := state.executions ++ after.executions })

/-- How a handler ends. -/
inductive Reply
  | answered (w : ResponseWriter)
  /-- `WriteHeader` panicked. -/
  | panicked (w : ResponseWriter)
  /-- A field of a job that is nil was read. -/
  | nilJob (w : ResponseWriter)
  /-- The response of a handler of the `/v1` group. -/
  | api (response : Api.Response)

/-- Answer with what was written. -/
def respond (w : ResponseWriter) : HttpM Reply := pure (.answered w)

/-- `http.NotFound`. -/
def notFound (w : ResponseWriter) : ResponseWriter := httpError w "404 page not found" 404

/-- `ExecuteDirectStream` of the scheduler. Where it fails before it reaches a dispatcher it makes
no callback. -/
def executeDirectStream (g : Gateway) (versionID : String) (payload : Bytes) :
    HttpM (List Signal × Except Err DirectExecutionResult) := do
  match ← (Prog.action (.executeDirectStream versionID payload) fun s =>
      (.ok (g.direct versionID payload s).1, (g.direct versionID payload s).2)).result with
  | .ok outcome => pure outcome
  | .error e => pure ([], .error e)

/-- `newHTTPDirectStreamWriter`. -/
def newHTTPDirectStreamWriter (w : ResponseWriter) (method token versionID : String) :
    StreamWriter where
  writer := w
  method := method
  token := token
  versionID := versionID

/-- A direct invocation, its callbacks and its result. After an error the handler goes on with the
writer that the stream may have written to. -/
def answerDirect (g : Gateway) (sw : StreamWriter) (versionID : String) (payload : Bytes)
    (failed : ResponseWriter → Err → HttpM Reply) : HttpM Reply := do
  let (signals, outcome) ← executeDirectStream g versionID payload
  match sw.deliver signals with
  | .error w => pure (.panicked w)
  | .ok sw =>
    match outcome with
    | .ok result => respond (returnDirectHTTPResult g.codec sw (some result))
    | .error e => failed sw.writer e

/-- `DispatchExecutionIdempotent` of the scheduler, with the key of the request. -/
def dispatchExecution (g : Gateway) (r : Request) (versionID : String) (payload : Bytes) :
    HttpM ExecutionJob :=
  (dispatchExecutionIdempotent g.server.scheduler g.server.invokeHash r.clock r.jobID versionID
    payload (Api.idempotencyKey (r.header "Idempotency-Key") "")).zoom CallState.storePart
      (.dispatch versionID)

/-- The job is done. -/
def finished (job : ExecutionJob) : Bool := job.state = .succeeded ∨ job.state = .failed

/-- `waitForExecutionJob`, which looks again `polls` times before its context is done. An error of
the store leaves no job. -/
def waitForExecutionJob (jobID : String) (done : Err) :
    ℕ → HttpM (Option ExecutionJob × Option Err)
  | 0 => do
    match ← (ofStore (getExecutionJob jobID)).result with
    | .error e => pure (none, some e)
    | .ok job => pure (some job, if finished job then none else some done)
  | polls + 1 => do
    match ← (ofStore (getExecutionJob jobID)).result with
    | .error e => pure (none, some e)
    | .ok job =>
      if finished job then pure (some job, none) else waitForExecutionJob jobID done polls

/-- `apiKeyFromRequest`: the key of the header `X-API-Key`, or the bearer token. -/
def apiKeyFromRequest (r : Request) : String :=
  if trimSpace (r.header "X-Api-Key") ≠ "" then trimSpace (r.header "X-Api-Key")
  else
    let authz := (trimSpace (r.header "Authorization")).toList
    if equalFold (.ofList (authz.take 7)) "bearer " then trimSpace (.ofList (authz.drop 7)) else ""

/-- `authContextForHTTPTrigger`; a trigger without authentication has no context. -/
def authContextForHTTPTrigger (g : Gateway) (r : Request) (trigger : HTTPTrigger) :
    StoreM (Except Api.AuthErr (Option Api.AuthContext)) :=
  match trigger.authMode with
  | .none => pure (.ok none)
  | .apiKey => do
    match ← Api.authenticateAPIKey g.server (apiKeyFromRequest r) (r.clock 0) with
    | .ok auth => pure (.ok (some auth))
    | .error e => pure (.error e)

/-- The message of a failed authentication. -/
def authMessage : Api.AuthErr → String
  | .missing => "missing X-API-Key"
  | .invalid => "invalid X-API-Key"
  | .other e => e.text

/-! ## The website of a request -/

/-- `websiteRequestPath`. -/
def websiteRequestPath (r : Request) : String :=
  if trimSpace r.wildcard = "" then "/" else "/" ++ trimStart (trimSpace r.wildcard) "/"

/-- `pathSegmentAfterPrefix`. -/
def pathSegmentAfterPrefix (fullPath start : String) : String :=
  if hasPrefix fullPath start then
    trimSpace (.ofList ((trimStart fullPath start).toList.takeWhile (· ≠ '/')))
  else ""

/-- `loadWebsiteContextVersion`: a version that is ready and has a manifest. -/
def loadWebsiteContextVersion (g : Gateway) (versionID : String) :
    StoreM (FunctionVersion × Api.WebsiteManifest) := do
  if trimSpace versionID = "" then .throw (.notFound "")
  else
    let version ← getFunctionVersion versionID
    if version.state ≠ .ready then .throw .functionVersionNotReady
    else
      let manifest ← Api.websiteManifest g.server version
      pure (version, manifest)

/-- `resolveWebsiteContextVersionFromReferer`: a trigger is taken as it is stored, whether it is
enabled or not and whatever its authentication mode. -/
def resolveWebsiteContextVersionFromReferer (g : Gateway) (referer : String) :
    StoreM (FunctionVersion × Api.WebsiteManifest) := do
  if trimSpace referer = "" then .throw (.notFound "")
  else
    match g.urlPath (trimSpace referer) with
    | .error e => .throw e
    | .ok path =>
      let refererPath := normalizedWebsitePath path
      let versionID := pathSegmentAfterPrefix refererPath "/w/"
      let token := pathSegmentAfterPrefix refererPath "/f/"
      if versionID ≠ "" then loadWebsiteContextVersion g versionID
      else if token ≠ "" then
        let trigger ← getHTTPTrigger token
        loadWebsiteContextVersion g trigger.functionVersionID
      else .throw (.notFound "")

/-- `resolveWebsiteContextVersion`: from the referer, or else from the cookie. -/
def resolveWebsiteContextVersion (g : Gateway) (r : Request) :
    StoreM (FunctionVersion × Api.WebsiteManifest) := do
  match ← (resolveWebsiteContextVersionFromReferer g (r.header "Referer")).result with
  | .ok found => pure found
  | .error _ =>
    match r.websiteCookie with
    | none => .throw (.notFound "")
    | some value => loadWebsiteContextVersion g (trimSpace value)

/-- `attachWebsiteContextCookie`. -/
def attachWebsiteContextCookie (g : Gateway) (r : Request) (w : ResponseWriter)
    (versionID : String) : ResponseWriter :=
  if trimSpace versionID = "" then w
  else
    w.modifyHeader
      (·.add "Set-Cookie" (g.cookieText versionID (equalFold (requestScheme r) "https")))

/-- `attachWebsiteContextCookieIfWebsite`. -/
def attachWebsiteContextCookieIfWebsite (g : Gateway) (r : Request) (w : ResponseWriter)
    (version : FunctionVersion) : HttpM ResponseWriter := do
  match ← (ofStore (Api.websiteManifest g.server version)).result with
  | .error _ => pure w
  | .ok _ => pure (attachWebsiteContextCookie g r w version.id)

/-- The response with a static asset. -/
def assetResponse (g : Gateway) (r : Request) (w : ResponseWriter) (requestPath : String)
    (data : Bytes) : ResponseWriter :=
  let contentType :=
    if g.typeByExtension requestPath = "" then g.detectContentType data
    else g.typeByExtension requestPath
  let cacheControl :=
    if hasPrefix requestPath "/_next/static/" then "public, max-age=31536000, immutable"
    else "public, max-age=300"
  let w := w.modifyHeader fun h =>
    (h.set "Cache-Control" cacheControl).set "Content-Type" contentType
  if r.method ≠ "HEAD" then (w.writeHeader 200).write data else w.writeHeader 200

/-- `serveWebsiteStaticAsset`, with the version that the digest is from; nothing is written when
there is no such asset. -/
def serveWebsiteStaticAsset (g : Gateway) (r : Request) (w : ResponseWriter)
    (version : FunctionVersion) (requestPath : String) : HttpM (Option ResponseWriter) := do
  if trimSpace version.artifactDigest = "" ∨ trimSpace requestPath = "" ∨ requestPath = "/" then
    pure none
  else
    let key := siteAssetObjectKey version.artifactDigest requestPath
    match ← ((getObject key).zoom CallState.storePart
        fun _ => HttpCall.asset version.id key).result with
    | .error _ => pure none
    | .ok data => pure (some (assetResponse g r w requestPath data))

/-- The method is `GET` or `HEAD`. -/
def readsOnly (r : Request) : Bool := r.method = "GET" ∨ r.method = "HEAD"

/-- The body of a response that tells how a job ended. -/
def jobReport (jobID versionID : String) (state : JobState) (error : String) :
    List (String × Json) :=
  [jsonText "jobId" jobID, jsonText "functionVersionId" versionID,
    jsonText "state" (jobStateText state), jsonText "error" error]

/-! ## Websites -/

/-- The message of a website whose deadline has passed. -/
def previewTimeout : String := "website preview did not complete before the response deadline"

/-- The end of `serveWebsiteRequest`: the function is invoked over the queue. -/
def serveWebsiteQueued (g : Gateway) (r : Request) (w : ResponseWriter) (version : FunctionVersion)
    (payload : Bytes) : HttpM Reply := do
  match ← (dispatchExecution g r version.id payload).result with
  | .error e => respond (writeServiceError w e)
  | .ok job =>
    match ← waitForExecutionJob job.id r.done r.polls with
    | (job, some e) =>
      if Direct.cancellation e then
        match job with
        | none => pure (.nilJob w)
        | some job =>
          respond (writeJSON g.codec w 504 (.obj
            [jsonText "jobId" job.id,
              jsonText "functionVersionId" version.id,
              jsonText "state" "timeout",
              jsonText "message" previewTimeout]))
      else respond (writeServiceError w e)
    | (none, none) => pure (.nilJob w)
    | (some job, none) =>
      match job.state, job.result with
      | .succeeded, some result =>
        match writeHTTPFunctionResult g.codec w r.method result.output (Api.jobLatencyMs job) with
        | .ok w => respond w
        | .error error =>
          respond (writeJSON g.codec w 502 (.obj (jobReport job.id version.id .failed error)))
      | _, _ =>
        respond (writeJSON g.codec w 502 (.obj (jobReport job.id version.id job.state job.error)))

/-- The error exits of `serveWebsiteRequest` after the direct invocation. -/
def serveWebsiteFailed (g : Gateway) (r : Request) (version : FunctionVersion)
    (manifest : Api.WebsiteManifest) (payload : Bytes) (w : ResponseWriter) (e : Err) :
    HttpM Reply :=
  match e.root with
  | .noExecutionCapacity _ | .directInvokeUnavailable => serveWebsiteQueued g r w version payload
  | .deadlineExceeded | .canceled =>
    respond (writeJSON g.codec w 504 (.obj
      [jsonText "functionVersionId" version.id,
        jsonText "state" "timeout",
        jsonText "message" previewTimeout,
        jsonText "framework" manifest.framework]))
  | _ => respond (writeServiceError w e)

/-- `serveWebsiteRequest` after the static assets: the function is invoked directly. -/
def serveWebsiteDirect (g : Gateway) (r : Request) (w : ResponseWriter) (version : FunctionVersion)
    (manifest : Api.WebsiteManifest) (sitePath : String) : HttpM Reply :=
  match buildHTTPPayloadForPath g.codec r "" sitePath with
  | .error e => respond (httpError w e 400)
  | .ok payload =>
    answerDirect g (newHTTPDirectStreamWriter w r.method "" version.id) version.id payload
      (serveWebsiteFailed g r version manifest payload)

/-- `serveWebsiteRequest`; its callers pass a version and a manifest. -/
def serveWebsiteRequest (g : Gateway) (r : Request) (w : ResponseWriter) (version : FunctionVersion)
    (manifest : Api.WebsiteManifest) (sitePath : String) : HttpM Reply := do
  if readsOnly r then
    match ← serveWebsiteStaticAsset g r w version sitePath with
    | some w => respond w
    | none => serveWebsiteDirect g r w version manifest sitePath
  else serveWebsiteDirect g r w version manifest sitePath

/-- Serve a path of the website that the request names in its referer or its cookie; without one the
caller goes on. -/
def serveContext (g : Gateway) (r : Request) (w : ResponseWriter) (sitePath : String)
    (otherwise : HttpM Reply) : HttpM Reply := do
  match ← (ofStore (resolveWebsiteContextVersion g r)).result with
  | .error _ => otherwise
  | .ok (version, manifest) =>
    serveWebsiteRequest g r (attachWebsiteContextCookie g r w version.id) version manifest sitePath

/-- `serveWebsiteContextRequest`. -/
def serveWebsiteContextRequest (g : Gateway) (r : Request) (w : ResponseWriter) :
    HttpM Reply → HttpM Reply :=
  serveContext g r w (normalizedWebsitePath r.path)

/-- `serveWebsitePrefixedFallback`. -/
def serveWebsitePrefixedFallback (g : Gateway) (r : Request) (w : ResponseWriter)
    (start : String) : HttpM Reply → HttpM Reply :=
  serveContext g r w (normalizedWebsitePath (trimStart (normalizedWebsitePath r.path) start))

/-- `handleWebsiteContextFallback`, which leaves the paths of the API alone. -/
def handleWebsiteContextFallback (g : Gateway) (r : Request) (w : ResponseWriter) : HttpM Reply :=
  if ["/v1/", "/api/", "/healthz", "/metrics"].any (hasPrefix (normalizedWebsitePath r.path)) then
    respond (notFound w)
  else serveWebsiteContextRequest g r w (respond (notFound w))

/-- `serveWebsite`. -/
def serveWebsite (g : Gateway) (r : Request) (w : ResponseWriter) (versionID : String) :
    HttpM Reply := do
  if versionID = "" then respond (httpError w "missing versionID" 400)
  else
    match ← (ofStore (getFunctionVersion versionID)).result with
    | .error e =>
      if readsOnly r then serveWebsitePrefixedFallback g r w "/w" (respond (writeServiceError w e))
      else respond (writeServiceError w e)
    | .ok version =>
      if version.state ≠ .ready then respond (httpError w "website preview not ready" 503)
      else
        match ← (ofStore (Api.websiteManifest g.server version)).result with
        | .error e => respond (writeServiceError w e)
        | .ok manifest =>
          serveWebsiteRequest g r (attachWebsiteContextCookie g r w version.id) version manifest
            (websiteRequestPath r)

/-! ## Function URLs -/

/-- The message of a function URL whose deadline has passed. -/
def invokeTimeout : String := "function url execution did not complete before the response deadline"

/-- The time since the request arrived. -/
def sinceStartMs (r : Request) : ℕ := Api.computeLatencyMs (r.clock 1) (r.clock 2)

/-- The header with the latency of the response. -/
def withLatency (w : ResponseWriter) (latencyMs : ℕ) : ResponseWriter :=
  w.modifyHeader (·.set latencyTrailerHeader (toString latencyMs))

/-- The response to a job that was waited for. -/
def answerJob (g : Gateway) (r : Request) (w : ResponseWriter) (version : FunctionVersion)
    (job : ExecutionJob) : ResponseWriter :=
  let latencyMs := if Api.jobLatencyMs job = 0 then sinceStartMs r else Api.jobLatencyMs job
  let w := withLatency (w.modifyHeader fun h =>
    ((h.set "X-Lecrev-Job-Id" job.id).set "X-Lecrev-Function-Version-Id" version.id).set
      "X-Lecrev-Function-Url-Token" r.token) latencyMs
  match job.state, job.result with
  | .succeeded, some result =>
    match writeHTTPFunctionResult g.codec w r.method result.output latencyMs with
    | .ok w => w
    | .error error =>
      writeJSON g.codec w 502
        (.obj (jobReport job.id version.id job.state error ++ [("latencyMs", .num latencyMs)]))
  | _, _ =>
    writeJSON g.codec w 502
      (.obj (jobReport job.id version.id job.state job.error ++ [("latencyMs", .num latencyMs)]))

/-- The end of `invokeHTTPTrigger`: the function is invoked over the queue. -/
def invokeQueued (g : Gateway) (r : Request) (w : ResponseWriter) (trigger : HTTPTrigger)
    (version : FunctionVersion) (payload : Bytes) : HttpM Reply := do
  match ← (dispatchExecution g r trigger.functionVersionID payload).result with
  | .error e => respond (writeServiceError w e)
  | .ok job =>
    match ← waitForExecutionJob job.id r.done r.polls with
    | (job, some e) =>
      if Direct.cancellation e then
        match job with
        | none => pure (.nilJob (withLatency w (sinceStartMs r)))
        | some job =>
          respond (writeJSON g.codec (withLatency w (sinceStartMs r)) 504 (.obj
            [jsonText "jobId" job.id,
              jsonText "functionVersionId" version.id,
              jsonText "state" "timeout",
              jsonText "message" invokeTimeout,
              ("latencyMs", .num (sinceStartMs r))]))
      else respond (writeServiceError w e)
    | (none, none) => pure (.nilJob w)
    | (some job, none) => respond (answerJob g r w version job)

/-- The error exits of `invokeHTTPTrigger` after the direct invocation. -/
def invokeFailed (g : Gateway) (r : Request) (trigger : HTTPTrigger) (version : FunctionVersion)
    (payload : Bytes) (w : ResponseWriter) (e : Err) : HttpM Reply :=
  match e.root with
  | .noExecutionCapacity _ | .directInvokeUnavailable => invokeQueued g r w trigger version payload
  | .deadlineExceeded | .canceled =>
    respond (writeJSON g.codec (withLatency w (sinceStartMs r)) 504 (.obj
      [jsonText "functionVersionId" version.id,
        jsonText "state" "timeout",
        jsonText "message" invokeTimeout,
        ("latencyMs", .num (sinceStartMs r))]))
  | _ => respond (writeServiceError w e)

/-- `invokeHTTPTrigger` once the version is known to be ready: the function is invoked directly. -/
def invokeDirect (g : Gateway) (r : Request) (w : ResponseWriter) (trigger : HTTPTrigger)
    (version : FunctionVersion) : HttpM Reply :=
  match buildHTTPPayload g.codec r with
  | .error e => respond (httpError w e 400)
  | .ok payload =>
    answerDirect g (newHTTPDirectStreamWriter w r.method r.token version.id)
      trigger.functionVersionID payload (invokeFailed g r trigger version payload)

/-- The check of `invokeHTTPTrigger` that the key belongs to the project of the version. -/
def authorizeTrigger (auth : Option Api.AuthContext) (version : FunctionVersion) : StoreM Unit :=
  match auth with
  | none => pure ()
  | some auth => Api.authorizeProject auth version.projectID

/-- `invokeHTTPTrigger` after a trigger was found that is enabled. -/
def invokeTrigger (g : Gateway) (r : Request) (w : ResponseWriter) (trigger : HTTPTrigger) :
    HttpM Reply := do
  match ← ofStore (authContextForHTTPTrigger g r trigger) with
  | .error e => respond (httpError w (authMessage e) 401)
  | .ok auth =>
    match ← (ofStore (getFunctionVersion trigger.functionVersionID)).result with
    | .error e => respond (writeServiceError w e)
    | .ok version =>
      match ← (ofStore (authorizeTrigger auth version)).result with
      | .error e => respond (writeServiceError w e)
      | .ok () =>
        if version.state ≠ .ready then respond (httpError w "function url not ready" 503)
        else
          let w ← attachWebsiteContextCookieIfWebsite g r w version
          invokeDirect g r w trigger version

/-- `invokeHTTPTrigger` without a trigger that is enabled. -/
def triggerNotFound (g : Gateway) (r : Request) (w : ResponseWriter) : HttpM Reply :=
  if readsOnly r then
    serveWebsitePrefixedFallback g r w "/f" (respond (httpError w "http trigger not found" 404))
  else respond (httpError w "http trigger not found" 404)

/-- `invokeHTTPTrigger`. -/
def invokeHTTPTrigger (g : Gateway) (r : Request) (w : ResponseWriter) : HttpM Reply := do
  match ← (ofStore (getHTTPTrigger r.token)).result with
  | .error _ => triggerNotFound g r w
  | .ok trigger =>
    if trigger.enabled then invokeTrigger g r w trigger else triggerNotFound g r w

/-! ## Webhooks -/

/-- The map that `buildWebhookPayload` encodes. A body that is valid JSON is passed on as the value
it denotes (`json.RawMessage`). -/
def webhookPayload (c : Codec) (r : Request) : Except String Json := do
  let body ← r.body
  let body := body.take maxBodyBytes
  let payloadBody : Json :=
    if trimSpace (c.text body) = "" then .null
    else (c.parse body).getD (.str (trimSpace (c.text body)))
  .ok (.obj
    [jsonText "trigger" "webhook",
      jsonText "token" r.token,
      jsonText "method" r.method,
      jsonText "path" r.path,
      ("query", allValues r.query),
      ("headers", allValues r.headers),
      ("body", payloadBody)])

/-- `buildWebhookPayload`. -/
def buildWebhookPayload (c : Codec) (r : Request) : Except String Bytes :=
  (webhookPayload c r).map c.marshal

/-- `invokeWebhook`. The version of the trigger may be in any state. -/
def invokeWebhook (g : Gateway) (r : Request) (w : ResponseWriter) : HttpM Reply := do
  match ← (ofStore (getWebhookTrigger r.token)).result with
  | .error _ => respond (httpError w "webhook trigger not found" 404)
  | .ok trigger =>
    if !trigger.enabled then respond (httpError w "webhook trigger not found" 404)
    else
      match buildWebhookPayload g.codec r with
      | .error e => respond (httpError w e 400)
      | .ok payload =>
        match ← (dispatchExecution g r trigger.functionVersionID payload).result with
        | .error e => respond (writeServiceError w e)
        | .ok job => respond (writeJSON g.codec w 202 (g.jobJSON job (Api.jobLatencyMs job)))

/-- Where the router sends a request, with the parameters of its path that the request does not
carry. -/
inductive Endpoint
  /-- `/f/{token}` and `/f/{token}/*`. -/
  | functionURL
  /-- `/w/{versionID}` and `/w/{versionID}/*`. -/
  | website (versionID : String)
  /-- `/v1/triggers/webhook/{token}`. -/
  | webhook
  /-- The other routes under `/v1`. -/
  | api (req : Api.Request)
  /-- Every other path, with `GET` or `HEAD`. -/
  | fallback
  /-- No route matches. -/
  | unmatched

/-- The handler of an endpoint. -/
def serve (g : Gateway) (r : Request) (w : ResponseWriter) : Endpoint → HttpM Reply
  | .functionURL => invokeHTTPTrigger g r w
  | .website versionID => serveWebsite g r w versionID
  | .webhook => invokeWebhook g r w
  | .api req => do
    match ← ofStore (Api.authenticateAPIKey g.server (apiKeyFromRequest r) (r.clock 0)) with
    | .error (.other e) => respond (httpError w e.text 500)
    | .error e => respond (httpError w (authMessage e) 401)
    | .ok auth =>
      let response ← (Api.answered (Api.handler g.server auth req req.route)).zoom
        CallState.storePart .api
      pure (.api response)
  | .fallback => handleWebsiteContextFallback g r w
  | .unmatched => respond (notFound w)

end Lecrev.Http

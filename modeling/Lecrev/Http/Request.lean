import Lecrev.Http.Response

/-!
# The payload of a function URL

`buildHTTPPayloadForPath` of `internal/httpapi` turns an HTTP request into the JSON payload of the
invocation. The payload holds everything the function may look at, also the address of the client,
which differs between two connections.
-/

namespace Lecrev.Http

/-- An `http.Request` as far as the handlers of function URLs read it, with what they draw from
outside while they answer it. -/
structure Request where
  method : String
  /-- The URL parameter `token`. -/
  token : String := ""
  /-- The rest of the path (the URL parameter `*`). -/
  wildcard : String := ""
  path : String
  rawQuery : String := ""
  query : List (String × List String) := []
  requestURI : String
  /-- `r.URL.Scheme`. -/
  urlScheme : String := ""
  /-- `r.URL.Host`. -/
  urlHost : String := ""
  host : String := ""
  /-- `r.Header`; the keys are canonical and distinct. -/
  headers : List (String × List String) := []
  /-- What reading the body yields. -/
  body : Except String Bytes := .ok []
  remoteAddr : String := ""
  /-- The value of the cookie `lecrev_website_version`. -/
  websiteCookie : Option String := none
  clock : ℕ → Time := fun _ => 0
  uuid : ℕ → String := fun _ => ""
  /-- The identifier of a job that the request creates. -/
  jobID : String := ""
  /-- How often `waitForExecutionJob` looks again before its context is done. -/
  polls : ℕ := 0
  /-- The error of that context. -/
  done : Err := .deadlineExceeded

/-- `r.Header.Get`, of a canonical key. -/
def Request.header (r : Request) (key : String) : String :=
  ((r.headers.lookup key).getD []).headD ""

/-- `requestScheme`. -/
def requestScheme (r : Request) : String :=
  if trimSpace (r.header "X-Forwarded-Proto") ≠ "" then trimSpace (r.header "X-Forwarded-Proto")
  else if trimSpace r.urlScheme ≠ "" then r.urlScheme
  else "http"

/-- `requestHost`. -/
def requestHost (r : Request) : String :=
  if trimSpace (r.header "X-Forwarded-Host") ≠ "" then trimSpace (r.header "X-Forwarded-Host")
  else if trimSpace r.host ≠ "" then r.host
  else if trimSpace r.urlHost ≠ "" then r.urlHost
  else "localhost"

/-- `publicBaseURL`. -/
def publicBaseURL (r : Request) : String := requestScheme r ++ "://" ++ requestHost r

/-- `fullRequestURL`. -/
def fullRequestURL (r : Request) : String := publicBaseURL r ++ r.requestURI

/-- The path with a slash before it, unless it starts with one. -/
def rooted (path : String) : String :=
  match path.toList with
  | '/' :: _ => path
  | _ => "/" ++ path

/-- `triggerRequestPath`. -/
def triggerRequestPath (r : Request) : String :=
  if trimSpace r.wildcard = "" then "/" else rooted (trimSpace r.wildcard)

/-- `normalizedWebsitePath`. -/
def normalizedWebsitePath (rawPath : String) : String :=
  if trimSpace rawPath = "" then "/" else rooted rawPath

/-- The fields of the payload that `decodeHTTPPayloadBody` computes from the body. A text that is
valid and cannot be decoded is refused. The body is never reported as encoded. -/
def decodeHTTPPayloadBody (c : Codec) (body : Bytes) : Except String (List (String × Json)) :=
  let fields (payload : Json) : List (String × Json) :=
    [("body", payload), jsonText "bodyText" (c.text body),
      jsonText "bodyBase64" (c.base64Encode body), ("isBase64Encoded", .bool false)]
  if body = [] then
    .ok [("body", .null), jsonText "bodyText" "", jsonText "bodyBase64" "",
      ("isBase64Encoded", .bool false)]
  else if (c.parse body).isSome then
    match c.unmarshal body with
    | some payload => .ok (fields payload)
    | none => .error (c.unmarshalError body)
  else .ok (fields (.str (c.text body)))

/-- The first values of a multi-valued map, as a JSON object. -/
def firstValues (m : List (String × List String)) : Json :=
  .obj (m.filterMap fun entry => entry.2.head?.map fun value => jsonText entry.1 value)

/-- A multi-valued map, as a JSON object. -/
def allValues (m : List (String × List String)) : Json :=
  .obj (m.map fun entry => (entry.1, .arr (entry.2.map .str)))

/-- The largest body that is read. -/
def maxBodyBytes : ℕ := 1024 * 1024

/-- The map that `buildHTTPPayloadForPath` encodes. -/
def httpPayload (c : Codec) (r : Request) (token functionPath : String) : Except String Json := do
  let body ← r.body
  let bodyFields ← decodeHTTPPayloadBody c (body.take maxBodyBytes)
  .ok (.obj
    [jsonText "trigger" "http",
      jsonText "token" token,
      ("request", .obj (
        [jsonText "method" r.method,
          jsonText "scheme" (requestScheme r),
          jsonText "host" (requestHost r),
          jsonText "url" (fullRequestURL r),
          jsonText "path" functionPath,
          jsonText "rawPath" r.path,
          jsonText "rawQuery" r.rawQuery,
          ("headers", firstValues r.headers),
          ("multiValueHeaders", allValues r.headers),
          ("query", firstValues r.query),
          ("multiValueQuery", allValues r.query),
          jsonText "remoteAddr" r.remoteAddr] ++ bodyFields))])

/-- `buildHTTPPayloadForPath`. -/
def buildHTTPPayloadForPath (c : Codec) (r : Request) (token functionPath : String) :
    Except String Bytes :=
  (httpPayload c r token functionPath).map c.marshal

/-- `buildHTTPPayload`. -/
def buildHTTPPayload (c : Codec) (r : Request) : Except String Bytes :=
  buildHTTPPayloadForPath c r r.token (triggerRequestPath r)

end Lecrev.Http

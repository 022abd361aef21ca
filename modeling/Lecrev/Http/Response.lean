import Mathlib.Data.Rat.Defs
import Lecrev.Api.Types
import Lecrev.Direct.Stream

/-!
# Responses of function URLs

How `internal/httpapi` answers a request to a function: through `httpDirectStreamWriter`, which
passes on the events of a direct invocation as they arrive, or at once from a result
(`writeHTTPFunctionResult`), an error (`http.Error`) or a JSON value (`writeJSON`).

A `ResponseWriter` records the calls that were made on it. `WriteHeader` of `net/http` panics on a
status outside 100..999; the panic unwinds the handler, so nothing is written after it.
-/

namespace Lecrev.Http

/-- The characters of a header field name. -/
def isTokenChar (c : Char) : Bool := c.isAlphanum || "!#$%&'*+-.^_`|~".toList.contains c

/-- The letters of a name in upper case at its start and after a dash, in lower case elsewhere. -/
def capitalizeFrom : Bool → List Char → List Char
  | _, [] => []
  | upper, c :: cs => (if upper then c.toUpper else c.toLower) :: capitalizeFrom (c == '-') cs

/-- `http.CanonicalHeaderKey`. -/
def canonicalHeaderKey (key : String) : String :=
  if key.toList.all isTokenChar then .ofList (capitalizeFrom true key.toList) else key

/-- An `http.Header`: the values of each key. No key has an empty list of values. -/
abbrev Header := String → List String

namespace Header

/-- The header without fields. -/
def empty : Header := fun _ => []

/-- The values of a field. -/
def values (h : Header) (key : String) : List String := h (canonicalHeaderKey key)

/-- The first value of a field. -/
def get (h : Header) (key : String) : String := (h.values key).headD ""

/-- Set a field to one value. -/
def set (h : Header) (key value : String) : Header :=
  Function.update h (canonicalHeaderKey key) [value]

/-- Add a value to a field. -/
def add (h : Header) (key value : String) : Header :=
  Function.update h (canonicalHeaderKey key) (h.values key ++ [value])

/-- Remove a field. -/
def del (h : Header) (key : String) : Header := Function.update h (canonicalHeaderKey key) []

end Header

/-- A call on a response writer. -/
inductive WriterCall
  /-- `WriteHeader`, with the header of that moment. -/
  | writeHeader (status : ℤ) (header : Header)
  | write (data : Bytes)
  | flush

/-- `http.ResponseWriter`: the header, and the calls that were made. -/
structure ResponseWriter where
  header : Header
  /-- The calls so far, in their order. -/
  calls : List WriterCall := []
  /-- The writer is an `http.Flusher`. -/
  flusher : Bool

namespace ResponseWriter

/-- Change the header. -/
def modifyHeader (w : ResponseWriter) (f : Header → Header) : ResponseWriter :=
  { w with header := f w.header }

/-- `WriteHeader`. -/
def writeHeader (w : ResponseWriter) (status : ℤ) : ResponseWriter :=
  { w with calls := w.calls ++ [.writeHeader status w.header] }

/-- `Write`. -/
def write (w : ResponseWriter) (data : Bytes) : ResponseWriter :=
  { w with calls := w.calls ++ [.write data] }

/-- `Flush`, where there is one. -/
def flush (w : ResponseWriter) : ResponseWriter :=
  if w.flusher then { w with calls := w.calls ++ [.flush] } else w

end ResponseWriter

/-- `WriteHeader` of `net/http` panics on this status. -/
def invalidStatus (status : ℤ) : Bool := status < 100 || 999 < status

/-- A decoded JSON value. An object is a map, so its keys are distinct. -/
inductive Json
  | null
  | bool (b : Bool)
  | num (n : ℚ)
  | str (s : String)
  | arr (items : List Json)
  | obj (fields : List (String × Json))

/-- The field of an object; nothing in any other value. -/
def Json.field? : Json → String → Option Json
  | .obj fields, key => fields.lookup key
  | _, _ => none

/-- The name that `%T` prints for a decoded value. -/
def Json.goType : Json → String
  | .null => "<nil>"
  | .bool _ => "bool"
  | .num _ => "float64"
  | .str _ => "string"
  | .arr _ => "[]interface \x7b\x7d"
  | .obj _ => "map[string]interface \x7b\x7d"

/-- What the handlers call outside the repository to encode and decode. -/
structure Codec where
  marshal : Json → Bytes
  /-- `json.Unmarshal`, where it succeeds. -/
  unmarshal : Bytes → Option Json
  /-- The text of the error of `json.Unmarshal`, where it fails. -/
  unmarshalError : Bytes → String
  /-- The value that a JSON text denotes, with its exact numbers; `json.Valid` says whether there is
  one. -/
  parse : Bytes → Option Json
  /-- `fmt.Sprint` of a decoded value. -/
  sprint : Json → String
  /-- The text that `json.Marshal` writes for the string of some bytes. -/
  text : Bytes → String
  /-- `base64.StdEncoding.EncodeToString`. -/
  base64Encode : Bytes → String
  /-- `base64.StdEncoding.DecodeString`. -/
  base64Decode : String → Except String Bytes

/-- `withLatencyValue`. -/
def withLatencyValue (value : Json) (latencyMs : ℕ) : Json :=
  match value with
  | .obj fields =>
    .obj (fields.filter (·.1 ≠ "latencyMs") ++ [("latencyMs", .num latencyMs)])
  | value => value

/-- `withLatencyJSON`. -/
def withLatencyJSON (c : Codec) (output : Bytes) (latencyMs : ℕ) : Bytes :=
  match c.unmarshal output with
  | none => output
  | some value => c.marshal (withLatencyValue value latencyMs)

/-! ## Buffered responses -/

/-- `writeJSON`; `json.Encoder` ends the value with a newline. -/
def writeJSON (c : Codec) (w : ResponseWriter) (status : ℤ) (value : Json) : ResponseWriter :=
  let w := w.modifyHeader (·.set "Content-Type" "application/json")
  (w.writeHeader status).write (c.marshal value ++ textBytes "\n")

/-- `http.Error`. -/
def httpError (w : ResponseWriter) (message : String) (status : ℤ) : ResponseWriter :=
  let w := w.modifyHeader fun h =>
    ((h.del "Content-Length").set "Content-Type" "text/plain; charset=utf-8").set
      "X-Content-Type-Options" "nosniff"
  (w.writeHeader status).write (textBytes (message ++ "\n"))

/-- `writeServiceError`. -/
def writeServiceError (w : ResponseWriter) (e : Err) : ResponseWriter :=
  httpError w e.text (Api.errorStatus e)

/-- `toInt` of a decoded value. -/
def toInt : Json → Except String ℤ
  | .num n => .ok (n.num.tdiv n.den)
  | value => .error ("invalid integer value " ++ value.goType)

/-- `toBool` of a decoded value. -/
def toBool : Json → Except String Bool
  | .null => .ok false
  | .bool b => .ok b
  | value => .error ("invalid boolean value " ++ value.goType)

/-- One iteration of the loop of `toHTTPHeader`. -/
def addHeaderField (c : Codec) (headers : Header) (key : String) : Json → Header
  | .str value => headers.add key value
  | .arr items => items.foldl (fun headers item => headers.add key (c.sprint item)) headers
  | value => headers.add key (c.sprint value)

/-- `toHTTPHeader`, with the fields of the map in the order of the loop. -/
def toHTTPHeader (c : Codec) : Json → Except String Header
  | .null => .ok .empty
  | .obj fields =>
    .ok (fields.foldl (fun headers field => addHeaderField c headers field.1 field.2) .empty)
  | _ => .error "invalid headers in http function output"

/-- The header with the type, unless it has one. -/
def Header.defaultContentType (headers : Header) (contentType : String) : Header :=
  if headers.get "Content-Type" = "" then headers.set "Content-Type" contentType else headers

/-- `encodeHTTPResponseBody`, with the header that it changes. -/
def encodeHTTPResponseBody (c : Codec) (value : Json) (headers : Header) (rawBase64Flag : Json) :
    Except String (Header × Bytes) := do
  let isBase64Encoded ← toBool rawBase64Flag
  match value with
  | .null => .ok (headers, [])
  | .str text =>
    if isBase64Encoded then
      let body ← c.base64Decode text
      .ok (headers, body)
    else .ok (headers.defaultContentType "text/plain; charset=utf-8", textBytes text)
  | value => .ok (headers.defaultContentType "application/json", c.marshal value)

/-- A result of a function: the response that it describes, or a value. -/
inductive Decoded
  | unstructured
  | structured (statusCode : ℤ) (headers : Header) (body : Bytes)

/-- `decodeHTTPFunctionResult`. A field that is missing reads as nil. -/
def decodeHTTPFunctionResult (c : Codec) (output : Bytes) (latencyMs : ℕ) :
    Except String Decoded :=
  match c.unmarshal output with
  | some (.obj payload) =>
    match (Json.obj payload).field? "statusCode" with
    | none => .ok .unstructured
    | some rawStatus =>
      match toInt rawStatus with
      | .error _ => .error "invalid statusCode in http function output"
      | .ok statusCode =>
        if invalidStatus statusCode then .error "invalid statusCode in http function output"
        else do
          let headers ← toHTTPHeader c (((Json.obj payload).field? "headers").getD .null)
          let body := withLatencyValue (((Json.obj payload).field? "body").getD .null) latencyMs
          let (headers, body) ← encodeHTTPResponseBody c body headers
            (((Json.obj payload).field? "isBase64Encoded").getD .null)
          .ok (.structured statusCode headers body)
  | _ => .ok .unstructured

/-- `streamThreshold` of `writeHTTPResponseBody`. -/
def streamThreshold : ℕ := 64 * 1024

/-- `streamChunkSize` of `writeHTTPResponseBody`. -/
def streamChunkSize : ℕ := 256 * 1024

/-- `writeHTTPResponseBody`: a long body is written in slices and flushed after the first. -/
def writeHTTPResponseBody (w : ResponseWriter) (body : Bytes) : ResponseWriter :=
  if body = [] then w
  else if !w.flusher ∨ body.length < streamThreshold then w.write body
  else
    match body.slices streamChunkSize with
    | [] => w
    | first :: rest => rest.foldl .write (w.write first).flush

/-- The header after the fields of another one were added to it. Every key keeps the order of its
values, so the order of the keys does not matter. -/
def Header.addAll (h headers : Header) : Header := fun key => h key ++ headers key

/-- `writeHTTPFunctionResult`; an error is returned before anything is written. -/
def writeHTTPFunctionResult (c : Codec) (w : ResponseWriter) (method : String) (output : Bytes)
    (latencyMs : ℕ) : Except String ResponseWriter := do
  match ← decodeHTTPFunctionResult c output latencyMs with
  | .unstructured =>
    let w := (w.modifyHeader (·.set "Content-Type" "application/json")).writeHeader 200
    .ok (if method ≠ "HEAD" then writeHTTPResponseBody w (withLatencyJSON c output latencyMs)
      else w)
  | .structured statusCode headers body =>
    let w := (w.modifyHeader (·.addAll headers)).writeHeader statusCode
    .ok (if method ≠ "HEAD" ∧ body ≠ [] then writeHTTPResponseBody w body else w)

/-! ## Streamed responses -/

/-- The text of a start mode. -/
def startModeText : StartMode → String
  | .unset => ""
  | .cold => "cold"
  | .blankWarm => "blank-warm"
  | .functionWarm => "function-warm"

/-- The text of a state. -/
def jobStateText : JobState → String
  | .queued => "queued"
  | .scheduling => "scheduling"
  | .assigned => "assigned"
  | .running => "running"
  | .retrying => "retrying"
  | .succeeded => "succeeded"
  | .failed => "failed"

/-- The field with the latency. -/
def latencyTrailerHeader : String := "X-Lecrev-Latency-Ms"

/-- `httpDirectStreamWriter`. -/
structure StreamWriter where
  writer : ResponseWriter
  method : String
  token : String
  versionID : String
  started : Bool := false
  closed : Bool := false
  status : ℤ := 200
  jobID : String := ""
  startMode : StartMode := .unset

namespace StreamWriter

/-- Set a field of the header of the response. -/
def setHeader (sw : StreamWriter) (key value : String) : StreamWriter :=
  { sw with writer := sw.writer.modifyHeader (·.set key value) }

/-- One of the names in the values of the field `Trailer` is that of the latency trailer. -/
def declaresLatencyTrailer (values : List String) : Bool :=
  values.any fun value => (value.toList.splitOn ',').any fun name =>
    equalFold (trimSpace (.ofList name)) "x-lecrev-latency-ms"

/-- The latency is announced as a trailer, once. -/
def declareLatencyTrailer (sw : StreamWriter) : StreamWriter :=
  if declaresLatencyTrailer (sw.writer.header.values "Trailer") then sw
  else { sw with writer := sw.writer.modifyHeader (·.add "Trailer" latencyTrailerHeader) }

/-- `SetMeta`: the fields about the job, before the response has started. -/
def setMeta (sw : StreamWriter) (jobID : String) (startMode : StartMode) : StreamWriter :=
  if sw.started then sw
  else
    let sw :=
      if trimSpace jobID ≠ "" then { sw.setHeader "X-Lecrev-Job-Id" jobID with jobID } else sw
    let sw := sw.setHeader "X-Lecrev-Function-Version-Id" sw.versionID
    let sw :=
      if trimSpace sw.token ≠ "" then sw.setHeader "X-Lecrev-Function-Url-Token" sw.token else sw
    if startMode ≠ .unset then
      { sw.setHeader "X-Lecrev-Start-Mode" (startModeText startMode) with startMode }
    else sw

/-- `SetLatency`: a field of the header, or the trailer once the header is written. -/
def setLatency (sw : StreamWriter) (latencyMs : ℕ) : StreamWriter :=
  if latencyMs = 0 then sw else sw.setHeader latencyTrailerHeader (toString latencyMs)

/-- Flush the writer, if it can be flushed. -/
def flush (sw : StreamWriter) : StreamWriter := { sw with writer := sw.writer.flush }

/-- Write the header. The error is the panic of `WriteHeader`, with what was written. -/
def begin (sw : StreamWriter) : Except ResponseWriter StreamWriter :=
  let writer := sw.writer.writeHeader sw.status
  if invalidStatus sw.status then .error writer else .ok { sw with writer, started := true }

/-- The start of the response, where the first event is not the start event. -/
def ensureStarted (sw : StreamWriter) : Except ResponseWriter StreamWriter :=
  if sw.started then .ok sw else sw.declareLatencyTrailer.begin

/-- The loop over the header fields of a start event, in its order. -/
def setEventHeaders (sw : StreamWriter) (headers : List (String × String)) : StreamWriter :=
  headers.foldl (fun sw field => if field.1 = "" then sw else sw.setHeader field.1 field.2) sw

/-- `HandleEvent`. The error of `Write`, which it returns, reaches the handler only through what
`ExecuteDirectStream` returns. -/
def handleEvent (sw : StreamWriter) (event : HTTPStreamEvent) :
    Except ResponseWriter StreamWriter :=
  if sw.closed then .ok sw
  else
    match event.type with
    | .start =>
      if sw.started then .ok sw
      else do
        let sw := sw.declareLatencyTrailer
        let sw := if 0 < event.statusCode then { sw with status := event.statusCode } else sw
        let sw ← (sw.setEventHeaders event.headers).begin
        .ok sw.flush
    | .chunk => do
      let sw ← sw.ensureStarted
      let sw :=
        if sw.method ≠ "HEAD" ∧ event.chunk ≠ [] then
          { sw with writer := sw.writer.write event.chunk }
        else sw
      .ok sw.flush
    | .end => do
      let sw ← sw.ensureStarted
      .ok { sw.flush with closed := true }
    | .unknown => .ok sw

/-- `Close`: no event is handled any more. -/
def close (sw : StreamWriter) : StreamWriter := { sw.flush with closed := true }

end StreamWriter

/-- What `ExecuteDirectStream` tells the handler while it runs. -/
inductive Signal
  /-- The callback `onMeta`: a host was picked. -/
  | picked (jobID : String) (startMode : StartMode)
  /-- The callback `onHTTPEvent`. -/
  | event (event : HTTPStreamEvent)

/-- One callback. -/
def StreamWriter.handle (sw : StreamWriter) : Signal → Except ResponseWriter StreamWriter
  | .picked jobID startMode => .ok (sw.setMeta jobID startMode)
  | .event event => sw.handleEvent event

/-- The callbacks of a direct invocation, in their order, up to a panic. -/
def StreamWriter.deliver : StreamWriter → List Signal → Except ResponseWriter StreamWriter
  | sw, [] => .ok sw
  | sw, signal :: signals => do
    let sw ← sw.handle signal
    sw.deliver signals

/-- A text field of a JSON object. -/
def jsonText (key value : String) : String × Json := (key, .str value)

/-- The latency that `returnDirectHTTPResult` reports. -/
def directLatencyMs (result : Direct.DirectExecutionResult) : ℕ :=
  let latencyMs :=
    if result.latencyMs = 0 ∧ result.finishedAt ≠ 0 then
      Api.computeLatencyMs result.startedAt result.finishedAt
    else result.latencyMs
  max latencyMs 1

/-- `returnDirectHTTPResult`. The dispatchers return a result in every `DirectExecutionResult`, so
the case that there is none is left out. -/
def returnDirectHTTPResult (c : Codec) (sw : StreamWriter) :
    Option Direct.DirectExecutionResult → ResponseWriter
  | none =>
    writeJSON c sw.writer 502 (.obj
      [jsonText "functionVersionId" sw.versionID,
        jsonText "state" (jobStateText .failed),
        jsonText "error" "direct execution returned no result"])
  | some result =>
    let latencyMs := directLatencyMs result
    let sw := (sw.setMeta result.jobID result.startMode).setLatency latencyMs
    let failure (state : JobState) (error : String) : Json :=
      .obj
        [jsonText "jobId" result.jobID,
          jsonText "functionVersionId" sw.versionID,
          jsonText "state" (jobStateText state),
          jsonText "error" error,
          ("latencyMs", .num latencyMs)]
    if result.state ≠ .succeeded then
      if sw.started then sw.writer
      else writeJSON c sw.writer 502 (failure result.state result.error)
    else if sw.started then sw.close.writer
    else
      match writeHTTPFunctionResult c sw.writer sw.method result.result.output latencyMs with
      | .ok writer => writer
      | .error error => writeJSON c sw.writer 502 (failure .failed error)

end Lecrev.Http

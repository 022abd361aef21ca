import Lecrev.Build.Request
import Lecrev.Coordinator.Hosts
import Lecrev.Firecracker.Types

/-!
# The node agent

The service that runs on a host (`internal/nodeagent`): it takes assignments from the coordinator,
has the microVM driver execute them, reports what happens to them, and keeps count of its free
slots.

The goroutines of an agent share an `Agent`. What the outside answers to one run of
`executeAssignment` (the object store, the resolver of secrets and the driver) is a record `Outside`
of arbitrary answers. The updates and the requests for a function snapshot that were made are
recorded in the state as a history.
-/

namespace Lecrev

/-! ## The agent and its surroundings -/

/-- The fields of a `nodeagent.Service` that never change, with the interfaces that its driver
implements besides `Driver`. -/
structure Node where
  hostID : String
  region : String
  driverName : String
  maxSlots : ℤ
  maxFullNetwork : ℤ
  /-- The driver is a `PostExecutionWarmer`. -/
  warmer : Bool
  /-- The driver is a `SlotWarmInventoryProvider`. -/
  inventoryForSlots : Option (ℤ → WarmInventory)
  /-- The driver is an `InventoryProvider`. -/
  inventory : Option WarmInventory

/-- The state that the goroutines of an agent share, with what belongs to one assignment. -/
structure Agent where
  availableSlots : ℤ
  availableFull : ℤ
  blankWarm : ℤ := 1
  functionWarm : AList (fun _ : String => ℤ) := ∅
  bundleCache : AList (fun _ : String => Bytes) := ∅
  /-- The context of the agent is done. -/
  ctxDone : Bool := false
  /-- The goroutine that reports a running assignment was started. -/
  beating : Bool := false
  /-- `stopRunningHeartbeats` was called. -/
  stopped : Bool := false
  /-- The updates passed to `sendUpdate`, in their order. -/
  updates : List AssignmentUpdate := []
  /-- The requests passed to `PrepareFunctionWarm`, in their order. -/
  prepared : List ExecuteRequest := []

/-- `nodeagent.Config`, as far as it is read. -/
structure Config where
  maxConcurrentAssignments : ℤ := 0
  maxConcurrentFullNetworkJobs : ℤ := 0
  deriving DecidableEq, Repr

/-- `Config.withDefaults` on a host with the given number of CPUs, as `runtime.NumCPU` says. -/
def Config.withDefaults (hostCPUs : ℤ) (c : Config) : Config :=
  let maxAssignments :=
    if c.maxConcurrentAssignments ≤ 0 then 4 else c.maxConcurrentAssignments
  let hostCPUs := if hostCPUs ≤ 0 then 1 else hostCPUs
  let maxFullNetwork :=
    if c.maxConcurrentFullNetworkJobs ≤ 0 then hostCPUs else c.maxConcurrentFullNetworkJobs
  { maxConcurrentAssignments := maxAssignments
    maxConcurrentFullNetworkJobs :=
      if maxFullNetwork > maxAssignments then maxAssignments else maxFullNetwork }

/-- The service has the capacities that `NewWithConfig` gives it. -/
def Node.Configured (n : Node) (hostCPUs : ℤ) (c : Config) : Prop :=
  n.maxSlots = (c.withDefaults hostCPUs).maxConcurrentAssignments ∧
    n.maxFullNetwork = (c.withDefaults hostCPUs).maxConcurrentFullNetworkJobs

theorem Node.Configured.pos {n : Node} {hostCPUs : ℤ} {c : Config} (h : n.Configured hostCPUs c) :
    0 < n.maxSlots ∧ 0 < n.maxFullNetwork := by
  obtain ⟨hslots, hfull⟩ := h
  rw [hslots, hfull, Config.withDefaults]
  dsimp only
  constructor
  · split <;> omega
  · split_ifs <;> omega

/-- A new agent (`NewWithConfig`). -/
def Agent.new (n : Node) : Agent where
  availableSlots := n.maxSlots
  availableFull := n.maxFullNetwork

/-- `runCtx.Done()`: the context of a running assignment ends with the context of the agent. -/
def Agent.runDone (a : Agent) : Bool := a.stopped || a.ctxDone

/-- `secrets.ExecutionRequest`. -/
structure SecretsRequest where
  hostID : String
  region : String
  functionVersionID : String
  secretRefs : List String
  deriving DecidableEq, Repr

/-- What the driver does with a request: the events it passes to `HTTPStream`, and what it
returns. -/
structure DriverRun where
  events : List HTTPStreamEvent := []
  result : Option ExecuteResult
  err : Option Err := none
  /-- The function that `ExecuteDeferred` returns to clean up is not nil. -/
  deferredClean : Bool := false

/-- What the outside answers to one run of `executeAssignment`. -/
structure Outside where
  /-- `objects.Get`. -/
  getObject : String → Except Err Bytes
  resolveExecution : SecretsRequest → Except Err Env
  /-- `driver.Execute`, or `ExecuteDeferred`. -/
  execute : ExecuteRequest → DriverRun
  /-- `json.Marshal` of an event. -/
  marshal : HTTPStreamEvent → Bytes
  /-- The time that loading the bundle, resolving the secrets and the driver took: an `int64`,
  which a `timetrace.Recorder` reports as zero when it is negative. -/
  bundleLoadMs : Fin (2 ^ 63)
  secretsLoadMs : Fin (2 ^ 63)
  driverExecuteMs : Fin (2 ^ 63)

/-- What a `select` between `ctx.Done()` and the ticker picks. -/
inductive Select
  | done | tick
  deriving DecidableEq, Repr

/-- The calls of an agent that can be told apart in an interleaving. -/
inductive AgentCall
  /-- A critical section of `s.mu`. -/
  | critical
  /-- The critical section of `reserveAssignmentSlots`. -/
  | reserve (policy : NetworkPolicy)
  /-- The critical section of `releaseAssignmentSlots`. -/
  | release (policy : NetworkPolicy)
  /-- A critical section of `s.bundleMu`. -/
  | bundleCache
  | sendUpdate (update : AssignmentUpdate)
  | sendHeartbeat (heartbeat : HostHeartbeat)
  /-- The start of a goroutine. -/
  | go
  /-- A context is cancelled. -/
  | cancel
  /-- A `select` between `ctx.Done()` and a ticker, which picks the given branch. -/
  | select (branch : Select)
  /-- `driver.Execute`, or `ExecuteDeferred`. -/
  | execute (req : ExecuteRequest)
  /-- The function `deferredClean` that the driver has returned. -/
  | deferredClean
  | prepareFunctionWarm (req : ExecuteRequest)
  deriving DecidableEq

/-- Programs of an agent. -/
abbrev AgentM (α : Type) := Prog AgentCall Agent Err α

/-- A critical section of `s.mu` that writes. -/
def Agent.locked (f : Agent → Agent) : AgentM Unit := .modify .critical f

/-- `isFullNetworkPolicy`. -/
def isFullNetworkPolicy (policy : NetworkPolicy) : Bool :=
  equalFold (trimSpace policy.text) "full"

/-- The state after `reserveAssignmentSlots`. -/
def Agent.reserved (a : Agent) (policy : NetworkPolicy) : Agent :=
  { a with
    availableSlots := if a.availableSlots > 0 then a.availableSlots - 1 else a.availableSlots
    availableFull :=
      if isFullNetworkPolicy policy ∧ a.availableFull > 0 then a.availableFull - 1
      else a.availableFull }

/-- The state after `releaseAssignmentSlots`. -/
def Agent.released (a : Agent) (n : Node) (policy : NetworkPolicy) : Agent :=
  { a with
    availableSlots :=
      if a.availableSlots < n.maxSlots then a.availableSlots + 1 else a.availableSlots
    availableFull :=
      if isFullNetworkPolicy policy ∧ a.availableFull < n.maxFullNetwork then a.availableFull + 1
      else a.availableFull }

/-- `reserveAssignmentSlots`. -/
def reserveAssignmentSlots (policy : NetworkPolicy) : AgentM Unit :=
  .modify (.reserve policy) fun a => a.reserved policy

/-- `releaseAssignmentSlots`. -/
def releaseAssignmentSlots (n : Node) (policy : NetworkPolicy) : AgentM Unit :=
  .modify (.release policy) fun a => a.released n policy

/-- `applyDrain`: the agent offers nothing any more. -/
def applyDrain : AgentM Unit :=
  Agent.locked fun a =>
    { a with availableSlots := 0, availableFull := 0, blankWarm := 0, functionWarm := ∅ }

/-! ## Registration and heartbeats -/

/-- `warmInventory`. The slots are read once to ask the driver, and once more otherwise. -/
def warmInventory (n : Node) : AgentM WarmInventory := do
  let slots ← .query .critical fun a => .ok a.availableSlots
  match n.inventoryForSlots, n.inventory with
  | some provider, _ => pure (provider slots)
  | none, some inventory => pure inventory
  | none, none =>
    .query .critical fun a => .ok
      { blankWarm := min a.blankWarm a.availableSlots
        functionWarm := a.functionWarm.entries.map fun e => (e.1, min e.2 a.availableSlots) }

/-- The conversion of an `int` to an `int32`. -/
def int32 (i : ℤ) : ℤ := i.bmod (2 ^ 32)

/-- `warmMetrics`: the counts of the function snapshots in a message. -/
def warmMetrics (input : List (String × ℤ)) : List (String × ℤ) :=
  input.map fun metric => (metric.1, int32 metric.2)

/-- `heartbeatMessage`: the counters go into the message as `int32`. -/
def heartbeatMessage (n : Node) : AgentM HostHeartbeat := do
  let inventory ← warmInventory n
  let (slots, full) ← .query .critical fun a => .ok (a.availableSlots, a.availableFull)
  pure
    { hostID := n.hostID
      availableSlots := int32 slots
      availableFullNetworkSlots := int32 full
      blankWarm := int32 inventory.blankWarm
      functionWarm := warmMetrics inventory.functionWarm }

theorem run_warmInventory (n : Node) (a : Agent) :
    ∃ inventory, (warmInventory n).run a = (.ok inventory, a) := by
  rw [warmInventory, Prog.run_bind]
  dsimp only [Prog.run_query]
  split
  · exact ⟨_, rfl⟩
  · exact ⟨_, rfl⟩
  · exact ⟨_, rfl⟩

theorem run_heartbeatMessage (n : Node) (a : Agent) :
    ∃ msg, (heartbeatMessage n).run a = (.ok msg, a) ∧ msg.hostID = n.hostID ∧
      msg.availableSlots = int32 a.availableSlots ∧
      msg.availableFullNetworkSlots = int32 a.availableFull := by
  obtain ⟨inventory, hrun⟩ := run_warmInventory n a
  simp only [heartbeatMessage, Prog.run_bind, hrun, Prog.run_query]
  exact ⟨_, rfl, rfl, rfl, rfl⟩

/-- The function `sendHeartbeat` that `executeAssignment` is given. -/
def sendHeartbeat (n : Node) : AgentM Unit := do
  let heartbeat ← heartbeatMessage n
  .modify (.sendHeartbeat heartbeat) id

/-- A bundle from the cache. -/
def cachedBundle (bundleKey : String) : AgentM (Option Bytes) :=
  .query .bundleCache fun a => .ok (a.bundleCache.lookup bundleKey)

/-- Put a bundle into the cache, unless another assignment has put one there in the meantime. -/
def cacheBundle (bundleKey : String) (bundle : Bytes) : AgentM Bytes :=
  .action .bundleCache fun a =>
    match a.bundleCache.lookup bundleKey with
    | some existing => (.ok existing, a)
    | none => (.ok bundle, { a with bundleCache := a.bundleCache.insert bundleKey bundle })

/-- `loadBundle`: from the cache, or else from the object store. -/
def loadBundle (o : Outside) (bundleKey : String) : AgentM Bytes := do
  let bundleKey := trimSpace bundleKey
  if bundleKey = "" then .throw (.other "artifact bundle key is required")
  else
    match ← cachedBundle bundleKey with
    | some cached => pure cached
    | none =>
      match o.getObject bundleKey with
      | .error e => .throw e
      | .ok bundle => cacheBundle bundleKey bundle

/-! ## Results -/

/-- A line of a `timetrace.Recorder`; the steps of the agent have names without spaces. -/
def traceLine (step : String) (durationMs : ℕ) : String :=
  "[platform] step=" ++ step ++ " durationMs=" ++ toString durationMs

/-- `Recorder.String` of a `timetrace.Recorder` with the given lines. -/
def traceText (lines : List String) : String := trimSpace ("\n".intercalate lines)

/-- `timetrace.Combine`. -/
def combineTrace (trace logs : String) : String :=
  if trimSpace trace = "" then trimSpace logs
  else if trimSpace logs = "" then trimSpace trace
  else trimSpace trace ++ "\n" ++ trimSpace logs

/-- The most logs of an execution. -/
def maxExecutionLogBytes : ℕ := 8 <<< 20

/-- The largest output of an execution. -/
def maxExecutionOutputBytes : ℕ := 32 <<< 20

/-- `enforceExecutionResultLimits`: the logs, the output, and what was exceeded. -/
def enforceExecutionResultLimits (logs : String) (output : Bytes) :
    Bytes × Bytes × Option Err :=
  let normalizedLogs := textBytes logs
  let logsExceeded := decide (normalizedLogs.length > maxExecutionLogBytes)
  let outputExceeded := decide (output.length > maxExecutionOutputBytes)
  let errs :=
    (if logsExceeded then
      ["execution logs exceeded limit of " ++ toString maxExecutionLogBytes ++ " bytes"]
    else []) ++
    if outputExceeded then
      ["execution output exceeded limit of " ++ toString maxExecutionOutputBytes ++ " bytes"]
    else []
  -- the logs are cut after a byte, not after a character
  (if logsExceeded then normalizedLogs.take maxExecutionLogBytes else normalizedLogs,
    if outputExceeded then [] else output,
    if errs.isEmpty then none else some (.other ("; ".intercalate errs)))

/-- `combineErrorMessages`. -/
def combineErrorMessages : Option Err → Option Err → String
  | none, none => ""
  | none, some secondary => secondary.text
  | some primary, none => primary.text
  | some primary, some secondary => primary.text ++ "; " ++ secondary.text

/-- `terminalExitCode`: an execution that failed has not exited with 0. -/
def terminalExitCode (exitCode : ℤ) : ℤ := if exitCode = 0 then 1 else exitCode

/-! ## Assignments -/

/-- An update that ends an assignment. -/
def AssignmentUpdate.terminal (u : AssignmentUpdate) : Bool :=
  u.state == .succeeded || u.state == .failed

/-- The update that `emitUpdate` makes. -/
def newUpdate (n : Node) (msg : Assignment) (state : AssignmentState) (logs : Bytes)
    (output : Bytes) (errMsg : String) (exitCode : ℤ) : AssignmentUpdate where
  hostID := n.hostID
  region := n.region
  attemptID := msg.attemptID
  jobID := msg.jobID
  state := state
  logs := logs
  outputJson := output
  errorMessage := errMsg
  exitCode := int32 exitCode

/-- The call `sendUpdate(u)`. -/
def sendUpdate (u : AssignmentUpdate) : AgentM Unit :=
  .modify (.sendUpdate u) fun a => { a with updates := a.updates ++ [u] }

/-- `emitUpdate` of `executeAssignment`. -/
def emitUpdate (n : Node) (msg : Assignment) (state : AssignmentState) (logs : Bytes)
    (output : Bytes) (errMsg : String) (exitCode : ℤ) : AgentM Unit :=
  sendUpdate (newUpdate n msg state logs output errMsg exitCode)

/-- The report that an assignment is running. -/
def emitRunning (n : Node) (msg : Assignment) : AgentM Unit := emitUpdate n msg .running [] [] "" 0

/-- The first turns of `assignmentHeartbeatLoop`, a turn for each branch that its `select` picks.
The branch of the ticker may be picked also when the context is done, as both are ready then; the
branch of `ctx.Done()` only when it is. Before the goroutine is started nothing is picked. -/
def assignmentHeartbeatLoop (n : Node) (msg : Assignment) : List Select → AgentM Unit
  | [] => pure ()
  | .done :: turns => do
    if ← .query (.select .done) fun a => .ok (a.beating && a.runDone) then pure ()
    else assignmentHeartbeatLoop n msg turns
  | .tick :: turns => do
    if ← .query (.select .tick) fun a => .ok a.beating then emitRunning n msg
    assignmentHeartbeatLoop n msg turns

/-- `isDirectStreamAttempt`. -/
def isDirectStreamAttempt (attemptID : String) : Bool :=
  "direct-attempt-".toList.isPrefixOf (trimSpace attemptID).toList

/-- The request to resolve the secrets of an assignment. -/
def secretsRequest (n : Node) (msg : Assignment) : SecretsRequest where
  hostID := n.hostID
  region := n.region
  functionVersionID := msg.functionVersionID
  secretRefs := msg.envRefs

/-- The environment of an assignment: `cloneStringMap` of its variables, with the secrets written
over them. The clone of an empty map is nil, and a write to a nil map panics. -/
def mergeSecrets (msg : Assignment) (resolved : Env) : Option Env :=
  if msg.envVars = [] then if resolved = ∅ then some ∅ else none
  else some (resolved ∪ .ofList msg.envVars)

/-- The panic of a write to a nil map. -/
def assignmentToNilMap : Err := .other "assignment to entry in nil map"

/-- The request of `executeAssignment` to the driver. -/
def newExecuteRequest (n : Node) (msg : Assignment) (bundle : Bytes) (env : Env) :
    ExecuteRequest where
  attemptID := msg.attemptID
  jobID := msg.jobID
  functionID := msg.functionVersionID
  entrypoint := msg.entrypoint
  artifactBundle := bundle
  payload := msg.payload
  env := env
  timeout := msg.timeoutSec * second
  memoryMB := msg.memoryMB
  networkPolicy := msg.networkPolicy
  region := n.region
  hostID := n.hostID
  enableStreaming := isDirectStreamAttempt msg.attemptID
  streamKind := if isDirectStreamAttempt msg.attemptID then .http else .none
  httpStream := isDirectStreamAttempt msg.attemptID

/-- The function `HTTPStream` of the request, for each of the events. -/
def streamEvents (n : Node) (o : Outside) (msg : Assignment) : List HTTPStreamEvent → AgentM Unit
  | [] => pure ()
  | event :: events => do
    emitUpdate n msg .running [] (o.marshal event) "" 0
    streamEvents n o msg events

/-- `shouldHoldSlotDuringWarmPrepare`, which is never so. -/
def shouldHoldSlotDuringWarmPrepare (_req : ExecuteRequest) : Bool := false

/-- `prepareWarmAsync`. Its goroutine is the last thing an assignment does; `releaseSlot` is what is
left to do with the slot. -/
def prepareWarmAsync (n : Node) (req : ExecuteRequest) (functionVersionID : String)
    (releaseSlot : AgentM Unit) : AgentM Unit := do
  if n.warmer then
    -- the request of the execution is passed on as it is
    .modify (.prepareFunctionWarm req) fun a => { a with prepared := a.prepared ++ [req] }
  else
    Agent.locked fun a => { a with functionWarm := a.functionWarm.insert functionVersionID 1 }
  releaseSlot
  sendHeartbeat n

/-- The lines of the trace when the driver has returned. -/
def Outside.trace (o : Outside) : List String :=
  [traceLine "load_bundle" o.bundleLoadMs, traceLine "resolve_secrets" o.secretsLoadMs,
    traceLine "driver_execute" o.driverExecuteMs]

/-- The logs, the output and the exceeded limits of what the driver returned. -/
def Outside.limited (o : Outside) (run : DriverRun) : Bytes × Bytes × Option Err :=
  match run.result with
  | some result =>
    enforceExecutionResultLimits
      (combineTrace (traceText o.trace) (combineTrace result.platformTrace result.logs))
      result.output
  | none => enforceExecutionResultLimits (traceText o.trace) []

/-- The exit code of what the driver returned. -/
def DriverRun.exitCode (run : DriverRun) : ℤ :=
  match run.result with
  | some result => result.exitCode
  | none => 1

/-- The variables `released` and `holdDeferredRelease` of `executeAssignment`. -/
structure SlotFlags where
  released : Bool := false
  holdDeferredRelease : Bool := false
  deriving DecidableEq, Repr

/-- The function `releaseSlot` of `executeAssignment`. -/
def releaseSlot (n : Node) (msg : Assignment) (flags : SlotFlags) : AgentM SlotFlags := do
  if flags.released then pure flags
  else
    releaseAssignmentSlots n msg.networkPolicy
    pure { flags with released := true }

/-- The function that `executeAssignment` defers. -/
def deferredRelease (n : Node) (msg : Assignment) (flags : SlotFlags) : AgentM Unit := do
  if flags.holdDeferredRelease then pure ()
  else
    let _ ← releaseSlot n msg flags
    pure ()

/-- The call of `deferredClean`, if it is not nil. -/
def cleanUp (run : DriverRun) : AgentM Unit := do
  if run.deferredClean then .modify .deferredClean id

/-- `executeAssignment` from the return of the driver on. -/
def finishAssignment (n : Node) (o : Outside) (msg : Assignment) (req : ExecuteRequest)
    (run : DriverRun) (flags : SlotFlags) : AgentM SlotFlags := do
  let logs := (o.limited run).1
  let output := (o.limited run).2.1
  let limitErr := (o.limited run).2.2
  -- `stopRunningHeartbeats` cancels the goroutine and does not wait for it
  .modify .cancel fun a => { a with stopped := true }
  if run.err.isSome || limitErr.isSome then
    emitUpdate n msg .failed logs output (combineErrorMessages run.err limitErr)
      (terminalExitCode run.exitCode)
    cleanUp run
    let flags ← releaseSlot n msg flags
    sendHeartbeat n
    pure flags
  else
    emitUpdate n msg .succeeded logs output "" run.exitCode
    cleanUp run
    if shouldHoldSlotDuringWarmPrepare req then
      prepareWarmAsync n req msg.functionVersionID do
        let _ ← releaseSlot n msg flags
        pure ()
      pure { flags with holdDeferredRelease := true }
    else
      let flags ← releaseSlot n msg flags
      sendHeartbeat n
      prepareWarmAsync n req msg.functionVersionID (pure ())
      pure flags

/-- A failure before the driver is called. -/
def failAssignment (n : Node) (msg : Assignment) (trace : List String) (errMsg : String)
    (flags : SlotFlags) : AgentM SlotFlags := do
  emitUpdate n msg .failed (textBytes (traceText trace)) [] errMsg 1
  pure flags

/-- `executeAssignment` from the environment of the function on. -/
def runAssignment (n : Node) (o : Outside) (msg : Assignment) (req : ExecuteRequest)
    (flags : SlotFlags) : AgentM SlotFlags := do
  emitRunning n msg
  .modify .go fun a => { a with beating := true }
  let run ← .query (.execute req) fun _ => .ok (o.execute req)
  if req.httpStream then streamEvents n o msg run.events
  finishAssignment n o msg req run flags

/-- `executeAssignment` from the secrets on. -/
def resolveAssignment (n : Node) (o : Outside) (msg : Assignment) (bundle : Bytes)
    (flags : SlotFlags) : AgentM SlotFlags := do
  match o.resolveExecution (secretsRequest n msg) with
  | .error e =>
    failAssignment n msg [traceLine "load_bundle" o.bundleLoadMs,
      traceLine "resolve_secrets" o.secretsLoadMs] e.text flags
  | .ok resolved =>
    match mergeSecrets msg resolved with
    | none => .throw assignmentToNilMap
    | some env => runAssignment n o msg (newExecuteRequest n msg bundle env) flags

/-- `executeAssignment` from the bundle on. -/
def loadAssignment (n : Node) (o : Outside) (msg : Assignment) (flags : SlotFlags) :
    AgentM SlotFlags := do
  let bundleKey := trimSpace msg.artifactBundleKey
  if bundleKey = "" then failAssignment n msg [] "assignment missing artifact_bundle_key" flags
  else
    match ← (loadBundle o bundleKey).result with
    | .error e => failAssignment n msg [traceLine "load_bundle" o.bundleLoadMs] e.text flags
    | .ok bundle => resolveAssignment n o msg bundle flags

/-- The end of `executeAssignment`. The deferred function is called also when the body panics, which
it does only before it has changed the flags. -/
def endAssignment (n : Node) (msg : Assignment) : Except Err SlotFlags → AgentM Unit
  | .ok flags => deferredRelease n msg flags
  | .error e => do
    deferredRelease n msg {}
    .throw e

/-- `executeAssignment`. -/
def executeAssignment (n : Node) (o : Outside) (msg : Assignment) : AgentM Unit := do
  reserveAssignmentSlots msg.networkPolicy
  emitUpdate n msg .starting [] [] "" 0
  let ended ← (loadAssignment n o msg {}).result
  endAssignment n msg ended

end Lecrev

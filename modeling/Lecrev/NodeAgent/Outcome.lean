import Mathlib.Data.Nat.Digits.Defs
import Lecrev.Concurrency.Interference
import Lecrev.NodeAgent.Updates

/-!
# How an assignment ends

`executeAssignment` has many exits, which share the flags of its slot and its deferred function.
This module follows the calls that settle an assignment (those for its slot, the execution, the
terminal update and the clean-up of the driver) through every exit, whatever states the calls meet.
-/

namespace Lecrev.NodeAgent

/-! ## The settling calls -/

/-- The calls that settle an assignment. -/
def settling : AgentCall → Bool
  | .reserve _ | .release _ | .execute _ | .deferredClean => true
  | .sendUpdate u => u.terminal
  | _ => false

/-- The driver returned an error, or what it returned exceeds a limit. -/
def rejected (o : Outside) (run : DriverRun) : Bool :=
  run.err.isSome || (o.limited run).2.2.isSome

/-- The terminal update for what the driver returned. -/
def finalUpdate (n : Node) (o : Outside) (msg : Assignment) (run : DriverRun) : AssignmentUpdate :=
  if rejected o run then
    newUpdate n msg .failed (o.limited run).1 (o.limited run).2.1
      (combineErrorMessages run.err (o.limited run).2.2) (terminalExitCode run.exitCode)
  else newUpdate n msg .succeeded (o.limited run).1 (o.limited run).2.1 "" run.exitCode

/-- The terminal update of a failure before the driver is called. -/
def earlyUpdate (n : Node) (msg : Assignment) (trace : List String) (errMsg : String) :
    AssignmentUpdate :=
  newUpdate n msg .failed (textBytes (traceText trace)) [] errMsg 1

/-- The clean-up after what the driver returned. -/
def cleanUps (run : DriverRun) : List AgentCall :=
  if run.deferredClean then [.deferredClean] else []

/-- The failures before the driver is called, with the lines of the trace and the message that are
reported. -/
inductive Early (E : Environment AgentCall Agent Err) (n : Node) (o : Outside) (msg : Assignment) :
    List String → String → Prop
  | noKey (h : trimSpace msg.artifactBundleKey = "") :
      Early E n o msg [] "assignment missing artifact_bundle_key"
  | noBundle {a : Agent} {e : Err} (ha : E.meets .bundleCache a)
      (h : foundBundle o a (trimSpace msg.artifactBundleKey) = .error e) :
      Early E n o msg [traceLine "load_bundle" o.bundleLoadMs] e.text
  | noSecrets {e : Err} (h : o.resolveExecution (secretsRequest n msg) = .error e) :
      Early E n o msg
        [traceLine "load_bundle" o.bundleLoadMs, traceLine "resolve_secrets" o.secretsLoadMs] e.text

/-- The settling calls between the reservation and the release. -/
inductive Body (E : Environment AgentCall Agent Err) (n : Node) (o : Outside) (msg : Assignment) :
    List AgentCall → Prop
  | early {trace : List String} {errMsg : String} (h : Early E n o msg trace errMsg) :
      Body E n o msg [.sendUpdate (earlyUpdate n msg trace errMsg)]
  | executed {bundle : Bytes} {resolved env : Env}
      (hresolve : o.resolveExecution (secretsRequest n msg) = .ok resolved)
      (hmerge : mergeSecrets msg resolved = some env) :
      Body E n o msg
        ([.execute (newExecuteRequest n msg bundle env),
          .sendUpdate (finalUpdate n o msg (o.execute (newExecuteRequest n msg bundle env)))] ++
          cleanUps (o.execute (newExecuteRequest n msg bundle env)))

/-- What `executeAssignment` has done when its body ends: the slot is released after the execution
only, and is left to the deferred function otherwise. -/
inductive BodyEnds (E : Environment AgentCall Agent Err) (n : Node) (o : Outside)
    (msg : Assignment) : List AgentCall → Except Err SlotFlags → Prop
  | early {body : List AgentCall} (h : Body E n o msg body) : BodyEnds E n o msg body (.ok {})
  | late {body : List AgentCall} (h : Body E n o msg body) :
      BodyEnds E n o msg (body ++ [.release msg.networkPolicy]) (.ok { released := true })
  | panicked (h : Unwritable n o msg) : BodyEnds E n o msg [] (.error assignmentToNilMap)

/-- The settling calls of `executeAssignment`, and its result. -/
inductive Outcome (E : Environment AgentCall Agent Err) (n : Node) (o : Outside)
    (msg : Assignment) : List AgentCall → Except Err Unit → Prop
  | returned {body : List AgentCall} (h : Body E n o msg body) :
      Outcome E n o msg
        (.reserve msg.networkPolicy :: (body ++ [.release msg.networkPolicy])) (.ok ())
  | panicked (h : Unwritable n o msg) :
      Outcome E n o msg [.reserve msg.networkPolicy, .release msg.networkPolicy]
        (.error assignmentToNilMap)

variable {req : ExecuteRequest} {errMsg : String}

/-! ## The calls of each part -/

section Parts

variable {E : Environment AgentCall Agent Err} (hE : ∀ l e, ¬ E.fails l e) {n : Node} {o : Outside}
  {msg : Assignment}

include hE

theorem shows_call {l : AgentCall} {f : Agent → Agent} :
    (.modify l f : AgentM Unit).Shows E settling fun calls r =>
      calls = [l].filter settling ∧ r = .ok () :=
  Prog.shows_modify ⟨rfl, rfl⟩ fun e he => absurd he (hE _ e)

theorem shows_critical {α : Type} {f : Agent → α} :
    (.query .critical fun a => .ok (f a) : AgentM α).Shows E settling fun calls r =>
      calls = [] ∧ ∃ x, r = .ok x :=
  Prog.shows_query (fun a _ => ⟨rfl, f a, rfl⟩) fun e he => absurd he (hE _ e)

theorem shows_sendHeartbeat :
    (sendHeartbeat n).Shows E settling fun calls r => calls = [] ∧ r = .ok () := by
  have hinventory : (warmInventory n).Shows E settling fun calls r =>
      calls = [] ∧ ∃ x, r = .ok x := by
    refine (shows_critical hE).bind (fun calls slots h => ?_) fun calls e h => ?_
    · obtain ⟨rfl, -⟩ := h
      split
      · exact Prog.shows_pure ⟨rfl, _, rfl⟩
      · exact Prog.shows_pure ⟨rfl, _, rfl⟩
      · exact shows_critical hE
    · obtain ⟨-, x, hx⟩ := h
      cases hx
  have hmessage : (heartbeatMessage n).Shows E settling fun calls r =>
      calls = [] ∧ ∃ x, r = .ok x := by
    refine hinventory.bind (fun calls inventory h => ?_) fun calls e h => ?_
    · obtain ⟨rfl, -⟩ := h
      refine (shows_critical hE).bind (fun calls counts h => ?_) fun calls e h => ?_
      · obtain ⟨rfl, -⟩ := h
        exact Prog.shows_pure ⟨rfl, _, rfl⟩
      · obtain ⟨-, x, hx⟩ := h
        cases hx
    · obtain ⟨-, x, hx⟩ := h
      cases hx
  refine hmessage.bind (fun calls heartbeat h => ?_) fun calls e h => ?_
  · obtain ⟨rfl, -⟩ := h
    exact (shows_call hE).mono fun _ _ h => h
  · obtain ⟨-, x, hx⟩ := h
    cases hx

theorem shows_update {state : AssignmentState} {logs output : Bytes} {exitCode : ℤ} :
    (emitUpdate n msg state logs output errMsg exitCode).Shows E settling fun calls r =>
      calls = [AgentCall.sendUpdate (newUpdate n msg state logs output errMsg exitCode)].filter
        settling ∧ r = .ok () :=
  shows_call hE

theorem shows_releaseSlot {flags : SlotFlags} :
    (releaseSlot n msg flags).Shows E settling fun calls r =>
      calls = (if flags.released then [] else [.release msg.networkPolicy]) ∧
        r = .ok { flags with released := true } := by
  unfold releaseSlot
  obtain ⟨released, hold⟩ := flags
  cases released with
  | true => exact Prog.shows_pure ⟨rfl, rfl⟩
  | false => exact (shows_call hE).then (Prog.shows_pure ⟨rfl, rfl⟩)

theorem shows_deferredRelease {released : Bool} :
    (deferredRelease n msg { released }).Shows E settling fun calls r =>
      calls = (if released then [] else [.release msg.networkPolicy]) ∧ r = .ok () := by
  refine (shows_releaseSlot hE).then (Prog.shows_pure ⟨?_, rfl⟩)
  exact List.append_nil _

theorem shows_cleanUp {run : DriverRun} :
    (cleanUp run).Shows E settling fun calls r => calls = cleanUps run ∧ r = .ok () := by
  unfold cleanUp cleanUps
  split
  · exact (shows_call hE).mono fun _ _ h => h
  · exact Prog.shows_pure ⟨rfl, rfl⟩

theorem shows_prepareWarmAsync {functionVersionID : String} :
    (prepareWarmAsync n req functionVersionID (pure ())).Shows E settling fun calls r =>
      calls = [] ∧ r = .ok () := by
  unfold prepareWarmAsync
  split
  · exact (shows_call hE).then (shows_sendHeartbeat hE)
  · exact (shows_call hE).then (shows_sendHeartbeat hE)

theorem shows_streamEvents {events : List HTTPStreamEvent} :
    (streamEvents n o msg events).Shows E settling fun calls r => calls = [] ∧ r = .ok () := by
  induction events with
  | nil => exact Prog.shows_pure ⟨rfl, rfl⟩
  | cons event events ih => exact (shows_update hE).then ih

/-! ## The calls of a run -/

theorem shows_finishAssignment {run : DriverRun} :
    (finishAssignment n o msg req run {}).Shows E settling fun calls r =>
      calls = .sendUpdate (finalUpdate n o msg run) ::
        (cleanUps run ++ [.release msg.networkPolicy]) ∧ r = .ok { released := true } := by
  unfold finishAssignment finalUpdate rejected
  refine (shows_call hE).then ?_
  split
  · refine (shows_update hE).then ((shows_cleanUp hE).then ((shows_releaseSlot hE).then ?_))
    refine (shows_sendHeartbeat hE).then (Prog.shows_pure ⟨?_, rfl⟩)
    simp [settling, newUpdate, AssignmentUpdate.terminal]
  · -- the branch that holds the slot is not taken
    refine (shows_update hE).then ((shows_cleanUp hE).then ?_)
    refine Prog.Shows.then (shows_releaseSlot hE) ?_
    refine (shows_sendHeartbeat hE).then ((shows_prepareWarmAsync hE).then ?_)
    refine Prog.shows_pure ⟨?_, rfl⟩
    simp [settling, newUpdate, AssignmentUpdate.terminal]

theorem shows_failAssignment {trace : List String} {flags : SlotFlags} :
    (failAssignment n msg trace errMsg flags).Shows E settling fun calls r =>
      calls = [.sendUpdate (earlyUpdate n msg trace errMsg)] ∧ r = .ok flags :=
  (shows_update hE).then (Prog.shows_pure ⟨rfl, rfl⟩)

theorem shows_runAssignment :
    (runAssignment n o msg req {}).Shows E settling fun calls r =>
      calls = [.execute req, .sendUpdate (finalUpdate n o msg (o.execute req))] ++
        cleanUps (o.execute req) ++ [.release msg.networkPolicy] ∧
        r = .ok { released := true } := by
  have hexecute : (.query (.execute req) fun _ => .ok (o.execute req) : AgentM DriverRun).Shows E
      settling fun calls r => calls = [.execute req] ∧ r = .ok (o.execute req) :=
    Prog.shows_query (fun _ _ => ⟨rfl, rfl⟩) fun e he => absurd he (hE _ e)
  refine (shows_update hE).then ((shows_call hE).then (hexecute.then ?_))
  have hfinish : (finishAssignment n o msg req (o.execute req) {}).Shows E settling fun calls r =>
      [.execute req] ++ calls = [.execute req, .sendUpdate (finalUpdate n o msg (o.execute req))] ++
        cleanUps (o.execute req) ++ [.release msg.networkPolicy] ∧
        r = .ok { released := true } := by
    refine (shows_finishAssignment hE).mono fun calls r h => ?_
    obtain ⟨rfl, rfl⟩ := h
    exact ⟨rfl, rfl⟩
  split
  · exact (shows_streamEvents hE).then hfinish
  · exact hfinish

theorem shows_loadBundle {key : String} :
    (loadBundle o key).Shows E settling fun calls r =>
      calls = [] ∧ ((∃ bundle, r = .ok bundle) ∨ trimSpace key = "" ∨
        ∃ a e, E.meets .bundleCache a ∧ r = .error e ∧ foundBundle o a key = .error e) := by
  unfold loadBundle foundBundle
  generalize trimSpace key = key
  dsimp only
  split
  · exact Prog.shows_throw ⟨rfl, .inr (.inl ‹_›)⟩
  · have hcached : (cachedBundle key).Shows E settling fun calls r =>
        calls = [] ∧ ∃ a, E.meets .bundleCache a ∧ r = .ok (a.bundleCache.lookup key) :=
      Prog.shows_query (fun a ha => ⟨rfl, a, ha, rfl⟩) fun e he => absurd he (hE _ e)
    refine hcached.bind (fun calls cached h => ?_) fun calls e h => ?_
    · obtain ⟨rfl, a, ha, hlookup⟩ := h
      cases hlookup
      cases hcache : a.bundleCache.lookup key with
      | some bundle => exact Prog.shows_pure ⟨rfl, .inl ⟨bundle, rfl⟩⟩
      | none =>
        cases hget : o.getObject key with
        | error e =>
          refine Prog.shows_throw ⟨rfl, .inr (.inr ⟨a, e, ha, rfl, ?_⟩)⟩
          rw [hcache]
        | ok bundle =>
          refine Prog.shows_action (fun a' _ => ⟨rfl, .inl ?_⟩) fun e he => absurd he (hE _ e)
          split
          · exact ⟨_, rfl⟩
          · exact ⟨_, rfl⟩
    · obtain ⟨-, a, -, hlookup⟩ := h
      cases hlookup

theorem shows_resolveAssignment {bundle : Bytes} :
    (resolveAssignment n o msg bundle {}).Shows E settling (BodyEnds E n o msg) := by
  unfold resolveAssignment
  cases hresolve : o.resolveExecution (secretsRequest n msg) with
  | error e =>
    refine (shows_failAssignment hE).mono fun calls r h => ?_
    obtain ⟨rfl, rfl⟩ := h
    exact .early (.early (.noSecrets hresolve))
  | ok resolved =>
    dsimp only
    cases hmerge : mergeSecrets msg resolved with
    | none =>
      refine Prog.shows_throw (.panicked ?_)
      unfold mergeSecrets at hmerge
      split_ifs at hmerge with hvars hresolved
      exact ⟨hvars, resolved, hresolve, hresolved⟩
    | some env =>
      refine (shows_runAssignment hE).mono fun calls r h => ?_
      obtain ⟨rfl, rfl⟩ := h
      exact .late (.executed hresolve hmerge)

theorem shows_loadAssignment :
    (loadAssignment n o msg {}).Shows E settling (BodyEnds E n o msg) := by
  unfold loadAssignment
  dsimp only
  split
  · refine (shows_failAssignment hE).mono fun calls r h => ?_
    obtain ⟨rfl, rfl⟩ := h
    exact .early (.early (.noKey ‹_›))
  · refine (shows_loadBundle hE).result_bind fun calls r h => ?_
    obtain ⟨rfl, ⟨bundle, rfl⟩ | hkey | ⟨a, e, ha, rfl, hfound⟩⟩ := h
    · exact shows_resolveAssignment hE
    · rw [trimSpace_trimSpace] at hkey
      contradiction
    · refine (shows_failAssignment hE).mono fun calls r h => ?_
      obtain ⟨rfl, rfl⟩ := h
      exact .early (.early (.noBundle ha hfound))

theorem shows_executeAssignment :
    (executeAssignment n o msg).Shows E settling (Outcome E n o msg) := by
  refine (shows_call hE).then ((shows_update hE).then ?_)
  refine (shows_loadAssignment hE).result_bind fun calls r h => ?_
  cases h with
  | early hbody =>
    refine (shows_deferredRelease hE).mono fun calls' r h => ?_
    obtain ⟨rfl, rfl⟩ := h
    exact .returned hbody
  | late hbody =>
    refine (shows_deferredRelease hE).mono fun calls' r h => ?_
    obtain ⟨rfl, rfl⟩ := h
    rw [List.append_assoc]
    exact .returned hbody
  | panicked hunwritable =>
    refine (shows_deferredRelease hE).then (Prog.shows_throw ?_)
    exact .panicked hunwritable

end Parts

/-! ## Limits -/

/-- The logs before they are cut: the trace of the agent, that of the platform, and the logs. -/
def combinedLogs (o : Outside) (run : DriverRun) : String :=
  match run.result with
  | some result =>
    combineTrace (traceText o.trace) (combineTrace result.platformTrace result.logs)
  | none => traceText o.trace

/-- The output that the driver returned. -/
def runOutput (run : DriverRun) : Bytes :=
  match run.result with
  | some result => result.output
  | none => []

theorem limited_eq (o : Outside) (run : DriverRun) :
    o.limited run = enforceExecutionResultLimits (combinedLogs o run) (runOutput run) := by
  unfold Outside.limited combinedLogs runOutput
  cases run.result with
  | none => rfl
  | some result => rfl

theorem limited_logs (o : Outside) (run : DriverRun) :
    (o.limited run).1 = (textBytes (combinedLogs o run)).take maxExecutionLogBytes := by
  rw [limited_eq]
  unfold enforceExecutionResultLimits
  dsimp only
  split
  · rfl
  · rename_i h
    exact (List.take_of_length_le (by simpa using h)).symm

theorem limited_output (o : Outside) (run : DriverRun) :
    (o.limited run).2.1 =
      if (runOutput run).length ≤ maxExecutionOutputBytes then runOutput run else [] := by
  rw [limited_eq]
  unfold enforceExecutionResultLimits
  dsimp only
  split_ifs with hexceeded hlimit hlimit
  · exact absurd hlimit (Nat.not_le_of_gt (of_decide_eq_true hexceeded))
  · rfl
  · rfl
  · exact absurd (Nat.lt_of_not_le hlimit) (by simpa using hexceeded)

theorem limited_ok_iff (o : Outside) (run : DriverRun) :
    (o.limited run).2.2 = none ↔
      (combinedLogs o run).utf8ByteSize ≤ maxExecutionLogBytes ∧
        (runOutput run).length ≤ maxExecutionOutputBytes := by
  rw [limited_eq]
  unfold enforceExecutionResultLimits
  simp only [length_textBytes]
  by_cases hlogs : (combinedLogs o run).utf8ByteSize ≤ maxExecutionLogBytes <;>
    by_cases houtput : (runOutput run).length ≤ maxExecutionOutputBytes <;>
      simp [hlogs, houtput]

theorem length_limited_logs_le (o : Outside) (run : DriverRun) :
    (o.limited run).1.length ≤ maxExecutionLogBytes := by
  rw [limited_logs]
  exact List.length_take_le _ _

theorem length_limited_output_le (o : Outside) (run : DriverRun) :
    (o.limited run).2.1.length ≤ maxExecutionOutputBytes := by
  rw [limited_output]
  split
  · assumption
  · exact Nat.zero_le _

theorem utf8ByteSize_traceLine_le {step : String} (hstep : step.utf8ByteSize ≤ 16)
    (durationMs : Fin (2 ^ 63)) : (traceLine step durationMs).utf8ByteSize ≤ 120 := by
  have hdigits : (toString durationMs.val).utf8ByteSize ≤ 4 * 19 := by
    refine (String.utf8ByteSize_le_four_mul_length _).trans (Nat.mul_le_mul_left 4 ?_)
    have hlt : durationMs.val < 10 ^ 19 := durationMs.isLt.trans (by norm_num)
    exact Nat.repr_length _ 19 (by norm_num) hlt
  -- the texts of the line stay variables: comparing literals would unfold them
  have hsum (opening middle digits : String) (hopening : opening.utf8ByteSize = 16)
      (hmiddle : middle.utf8ByteSize = 12) (hdigits : digits.utf8ByteSize ≤ 4 * 19) :
      (opening ++ step ++ middle ++ digits).utf8ByteSize ≤ 120 := by
    simp only [String.utf8ByteSize_append]
    omega
  exact hsum _ _ _ (by decide +kernel) (by decide +kernel) hdigits

theorem utf8ByteSize_trace_le (o : Outside) : (traceText o.trace).utf8ByteSize ≤ 362 := by
  have hload := utf8ByteSize_traceLine_le (by decide +kernel : "load_bundle".utf8ByteSize ≤ 16)
    o.bundleLoadMs
  have hsecrets := utf8ByteSize_traceLine_le
    (by decide +kernel : "resolve_secrets".utf8ByteSize ≤ 16) o.secretsLoadMs
  have hexecute := utf8ByteSize_traceLine_le
    (by decide +kernel : "driver_execute".utf8ByteSize ≤ 16) o.driverExecuteMs
  have hbreak : ("\n" : String).utf8ByteSize ≤ 1 := by decide +kernel
  refine (utf8ByteSize_trimSpace_le _).trans ?_
  unfold Outside.trace
  generalize traceLine "load_bundle" o.bundleLoadMs = load at hload ⊢
  generalize traceLine "resolve_secrets" o.secretsLoadMs = secrets at hsecrets ⊢
  generalize traceLine "driver_execute" o.driverExecuteMs = execute at hexecute ⊢
  generalize "\n" = lineBreak at hbreak ⊢
  change (load ++ lineBreak ++ secrets ++ lineBreak ++ execute).utf8ByteSize ≤ 362
  simp only [String.utf8ByteSize_append]
  omega

theorem Early.utf8ByteSize_trace_le {E : Environment AgentCall Agent Err} {n : Node} {o : Outside}
    {msg : Assignment} {trace : List String} (h : Early E n o msg trace errMsg) :
    (traceText trace).utf8ByteSize ≤ maxExecutionLogBytes := by
  have hload := utf8ByteSize_traceLine_le (by decide +kernel : "load_bundle".utf8ByteSize ≤ 16)
    o.bundleLoadMs
  have hsecrets := utf8ByteSize_traceLine_le
    (by decide +kernel : "resolve_secrets".utf8ByteSize ≤ 16) o.secretsLoadMs
  refine (utf8ByteSize_trimSpace_le _).trans ?_
  cases h with
  | noKey => exact Nat.zero_le _
  | noBundle => exact hload.trans (by decide)
  | noSecrets =>
    generalize traceLine "load_bundle" o.bundleLoadMs = load at hload ⊢
    generalize traceLine "resolve_secrets" o.secretsLoadMs = secrets at hsecrets ⊢
    have hbreak : ("\n" : String).utf8ByteSize ≤ 1 := by decide +kernel
    generalize "\n" = lineBreak at hbreak ⊢
    change (load ++ lineBreak ++ secrets).utf8ByteSize ≤ 8388608
    rw [String.utf8ByteSize_append, String.utf8ByteSize_append]
    omega

theorem int32_eq_zero_iff (i : ℤ) : int32 i = 0 ↔ (2 ^ 32 : ℤ) ∣ i :=
  Int.dvd_iff_bmod_eq_zero.symm

theorem int32_terminalExitCode_ne_zero_iff (exitCode : ℤ) :
    int32 (terminalExitCode exitCode) ≠ 0 ↔ exitCode = 0 ∨ ¬ (2 ^ 32 : ℤ) ∣ exitCode := by
  unfold terminalExitCode
  split
  · exact iff_of_true (by decide) (.inl ‹_›)
  · rw [ne_eq, int32_eq_zero_iff, or_iff_right ‹_›]

/-! ## Settled once -/

/-- The call reserves or releases a slot. -/
def forSlot : AgentCall → Bool
  | .reserve _ | .release _ => true
  | _ => false

/-- The terminal updates and the clean-ups. -/
def atEnd : AgentCall → Bool
  | .sendUpdate u => u.terminal
  | .deferredClean => true
  | _ => false

/-- The request of a call to the driver. -/
def driverRequest : AgentCall → Option ExecuteRequest
  | .execute req => some req
  | _ => none

/-- The requests that the driver was called with. -/
def ran (log : CallLog AgentCall Agent) : List ExecuteRequest :=
  (log.map Prod.fst).filterMap driverRequest

/-- The driver returned no error, and what it returned is within both limits. -/
structure Accepted (o : Outside) (run : DriverRun) : Prop where
  err : run.err = none
  logs : (combinedLogs o run).utf8ByteSize ≤ maxExecutionLogBytes
  output : (runOutput run).length ≤ maxExecutionOutputBytes

/-- The calls of `executeAssignment` settle the assignment once, with the terminal update `u`. -/
structure SettledOnce (o : Outside) (msg : Assignment) (log : CallLog AgentCall Agent)
    (u : AssignmentUpdate) : Prop where
  /-- One reservation and one release, for the same policy. -/
  slot : Prog.shown forSlot log = [.reserve msg.networkPolicy, .release msg.networkPolicy]
  /-- One terminal update, and after it the clean-up that the driver has asked for. -/
  ending : Prog.shown atEnd log =
    .sendUpdate u :: (ran log).flatMap fun req => cleanUps (o.execute req)
  once : (ran log).length ≤ 1
  succeeded_iff : u.state = .succeeded ↔ ∃ req ∈ ran log, Accepted o (o.execute req)
  logs : u.logs.length ≤ maxExecutionLogBytes
  output : u.outputJson.length ≤ maxExecutionOutputBytes

/-- The exit codes of the runs that are reported as failed survive the conversion. -/
def ExitCodesFit (o : Outside) (log : CallLog AgentCall Agent) : Prop :=
  ∀ req ∈ ran log, ¬ Accepted o (o.execute req) →
    (o.execute req).exitCode = 0 ∨ ¬ (2 ^ 32 : ℤ) ∣ (o.execute req).exitCode

theorem rejected_eq_false_iff (o : Outside) (run : DriverRun) :
    rejected o run = false ↔ Accepted o run := by
  rw [rejected, Bool.or_eq_false_iff, Option.isSome_eq_false_iff, Option.isSome_eq_false_iff,
    Option.isNone_iff_eq_none, Option.isNone_iff_eq_none, limited_ok_iff]
  exact ⟨fun h => ⟨h.1, h.2.1, h.2.2⟩, fun h => ⟨h.err, h.logs, h.output⟩⟩

section Settled

variable {E : Environment AgentCall Agent Err} {n : Node} {o : Outside} {msg : Assignment}
  {log : CallLog AgentCall Agent}

theorem shown_forSlot (log : CallLog AgentCall Agent) :
    Prog.shown forSlot log = (Prog.shown settling log).filter forSlot :=
  Prog.shown_of_imp (fun l h => by cases l <;> first | rfl | cases h) log

theorem shown_atEnd (log : CallLog AgentCall Agent) :
    Prog.shown atEnd log = (Prog.shown settling log).filter atEnd :=
  Prog.shown_of_imp (fun l h => by cases l <;> first | exact h | rfl) log

theorem ran_eq (log : CallLog AgentCall Agent) :
    ran log = (Prog.shown settling log).filterMap driverRequest := by
  rw [ran, Prog.shown, List.filterMap_filter]
  congr 1
  funext l
  cases l <;> first | rfl | (dsimp only [driverRequest]; split <;> rfl)

theorem terminal_finalUpdate (run : DriverRun) : (finalUpdate n o msg run).terminal = true := by
  unfold finalUpdate
  split
  · rfl
  · rfl

theorem settledOnce_early {trace : List String}
    (h : Early E n o msg trace errMsg)
    (hlog : Prog.shown settling log = [.reserve msg.networkPolicy,
      .sendUpdate (earlyUpdate n msg trace errMsg), .release msg.networkPolicy]) :
    SettledOnce o msg log (earlyUpdate n msg trace errMsg) := by
  have hran : ran log = [] := by
    rw [ran_eq, hlog]
    rfl
  constructor
  · rw [shown_forSlot, hlog]
    rfl
  · rw [shown_atEnd, hlog, hran]
    rfl
  · rw [hran]
    exact Nat.zero_le _
  · rw [hran]
    exact iff_of_false (fun h => by cases h) fun ⟨_, h, _⟩ => by cases h
  · change (textBytes (traceText trace)).length ≤ _
    rw [length_textBytes]
    exact h.utf8ByteSize_trace_le
  · exact Nat.zero_le _

/-- An executed assignment is settled once. -/
theorem settledOnce_executed
    (hlog : Prog.shown settling log = .reserve msg.networkPolicy ::
      ([.execute req, .sendUpdate (finalUpdate n o msg (o.execute req))] ++
        cleanUps (o.execute req) ++ [.release msg.networkPolicy])) :
    ran log = [req] ∧ SettledOnce o msg log (finalUpdate n o msg (o.execute req)) := by
  have hran : ran log = [req] := by
    rw [ran_eq, hlog, cleanUps]
    split
    · rfl
    · rfl
  refine ⟨hran, ?_, ?_, ?_, ?_, ?_, ?_⟩
  · rw [shown_forSlot, hlog, cleanUps]
    split
    · rfl
    · rfl
  · have hends : atEnd (.sendUpdate (finalUpdate n o msg (o.execute req))) = true :=
      terminal_finalUpdate _
    have hclean : (cleanUps (o.execute req)).filter atEnd = cleanUps (o.execute req) := by
      unfold cleanUps
      split
      · rfl
      · rfl
    rw [shown_atEnd, hlog, hran]
    change List.filter atEnd (.sendUpdate (finalUpdate n o msg (o.execute req)) ::
      (cleanUps (o.execute req) ++ [.release msg.networkPolicy])) = _
    rw [List.filter_cons_of_pos hends, List.filter_append, hclean]
    rfl
  · rw [hran]
    exact Nat.le_refl 1
  · simp only [hran, List.mem_singleton, exists_eq_left]
    rw [← rejected_eq_false_iff, finalUpdate]
    cases rejected o (o.execute req) with
    | true => exact iff_of_false (fun h => by cases h) Bool.false_ne_true.symm
    | false => exact iff_of_true rfl rfl
  · unfold finalUpdate
    split
    · exact length_limited_logs_le _ _
    · exact length_limited_logs_le _ _
  · unfold finalUpdate
    split
    · exact length_limited_output_le _ _
    · exact length_limited_output_le _ _

theorem settledOnce_of_mem_ran (hE : ∀ l e, ¬ E.fails l e) {r : Except Err Unit}
    (hexec : (executeAssignment n o msg).Exec E log r) (hreq : req ∈ ran log) :
    SettledOnce o msg log (finalUpdate n o msg (o.execute req)) := by
  have houtcome := (shows_executeAssignment hE).exec hexec
  generalize hlog : Prog.shown settling log = calls at houtcome
  cases houtcome with
  | panicked =>
    rw [ran_eq, hlog] at hreq
    cases hreq
  | returned hbody =>
    cases hbody with
    | early =>
      rw [ran_eq, hlog] at hreq
      cases hreq
    | executed =>
      obtain ⟨hran, hsettled⟩ := settledOnce_executed hlog
      rw [hran, List.mem_singleton] at hreq
      rw [hreq]
      exact hsettled

theorem SettledOnce.eq_of_sent {u u' : AssignmentUpdate} (h : SettledOnce o msg log u)
    (hterminal : u'.terminal = true) (hsent : AgentCall.sendUpdate u' ∈ log.map Prod.fst) :
    u' = u := by
  have hmem : AgentCall.sendUpdate u' ∈ Prog.shown atEnd log :=
    List.mem_filter.mpr ⟨hsent, hterminal⟩
  rw [h.ending, List.mem_cons, List.mem_flatMap] at hmem
  obtain heq | ⟨req, -, hclean⟩ := hmem
  · exact AgentCall.sendUpdate.inj heq
  · unfold cleanUps at hclean
    split at hclean
    · cases List.mem_singleton.mp hclean
    · cases hclean

theorem not_early (hkey : trimSpace msg.artifactBundleKey ≠ "")
    (hload : ∀ a, E.meets .bundleCache a →
      ∃ bundle, foundBundle o a (trimSpace msg.artifactBundleKey) = .ok bundle)
    {resolved : Env} (hresolve : o.resolveExecution (secretsRequest n msg) = .ok resolved)
    {trace : List String} : ¬ Early E n o msg trace errMsg := by
  intro h
  cases h with
  | noKey h => exact hkey h
  | noBundle ha h =>
    obtain ⟨bundle, hbundle⟩ := hload _ ha
    rw [hbundle] at h
    cases h
  | noSecrets h =>
    rw [hresolve] at h
    cases h

/-- With a bundle that can be loaded and secrets that are resolved, the driver is called if the
secrets can be merged, and the assignment panics otherwise. -/
theorem executed_of_exec (hE : ∀ l e, ¬ E.fails l e) {r : Except Err Unit}
    (hexec : (executeAssignment n o msg).Exec E log r)
    (hkey : trimSpace msg.artifactBundleKey ≠ "")
    (hload : ∀ a, E.meets .bundleCache a →
      ∃ bundle, foundBundle o a (trimSpace msg.artifactBundleKey) = .ok bundle)
    {resolved : Env} (hresolve : o.resolveExecution (secretsRequest n msg) = .ok resolved) :
    (r = .error assignmentToNilMap ∧ mergeSecrets msg resolved = none) ∨
      (r = .ok () ∧ ∃ req, mergeSecrets msg resolved = some req.env ∧ ran log = [req] ∧
        SettledOnce o msg log (finalUpdate n o msg (o.execute req))) := by
  have houtcome := (shows_executeAssignment hE).exec hexec
  generalize hlog : Prog.shown settling log = calls at houtcome
  cases houtcome with
  | panicked hunwritable =>
    obtain ⟨hvars, resolved', hresolve', hne⟩ := hunwritable
    rw [hresolve] at hresolve'
    cases hresolve'
    exact .inl ⟨rfl, by rw [mergeSecrets, if_pos hvars, if_neg hne]⟩
  | returned hbody =>
    cases hbody with
    | early hearly => exact absurd hearly (not_early hkey hload hresolve)
    | executed hresolve' hmerge =>
      rw [hresolve] at hresolve'
      cases hresolve'
      exact .inr ⟨rfl, _, hmerge, settledOnce_executed hlog⟩

theorem exitCode_finalUpdate_iff (run : DriverRun) :
    ((finalUpdate n o msg run).state = .failed → (finalUpdate n o msg run).exitCode ≠ 0) ↔
      (¬ Accepted o run → run.exitCode = 0 ∨ ¬ (2 ^ 32 : ℤ) ∣ run.exitCode) := by
  rw [← rejected_eq_false_iff, finalUpdate]
  cases rejected o run with
  | true =>
    refine imp_congr (iff_of_true rfl Bool.false_ne_true.symm) ?_
    exact int32_terminalExitCode_ne_zero_iff _
  | false =>
    exact iff_of_true (fun h => by cases h) fun h => absurd rfl h

end Settled

/-- **Everything is released exactly once.** Whatever `executeAssignment` meets on the way, and
whatever the driver returns: when it returns without a panic it has reserved and released its slot
once and with the same policy, and has sent one terminal update, after which it has called the
clean-up of the driver, if there is one, once. The update says that the assignment succeeded exactly
when the driver was called, returned no error and respected both limits, and it respects the limits
itself. A failed update carries an exit code other than zero exactly when the exit code of the run
is not one of the multiples of `2 ^ 32` that the conversion to 32 bits maps to zero. -/
theorem assignment_settled_once (n : Node) (o : Outside) (msg : Assignment)
    {E : Environment AgentCall Agent Err} (hE : ∀ l e, ¬ E.fails l e)
    {log : CallLog AgentCall Agent} {r : Except Err Unit}
    (hexec : (executeAssignment n o msg).Exec E log r) (hr : r ≠ .error assignmentToNilMap) :
    ∃ u, SettledOnce o msg log u ∧ ((u.state = .failed → u.exitCode ≠ 0) ↔ ExitCodesFit o log) := by
  have houtcome := (shows_executeAssignment hE).exec hexec
  generalize hlog : Prog.shown settling log = calls at houtcome
  cases houtcome with
  | panicked => exact absurd rfl hr
  | returned hbody =>
    cases hbody with
    | early h =>
      refine ⟨_, settledOnce_early h hlog, iff_of_true (fun _ => ?_) fun req hreq => ?_⟩
      · change int32 1 ≠ 0
        decide
      · rw [ran_eq, hlog] at hreq
        cases hreq
    | executed =>
      obtain ⟨hran, hsettled⟩ := settledOnce_executed hlog
      refine ⟨_, hsettled, (exitCode_finalUpdate_iff _).trans ?_⟩
      simp only [ExitCodesFit, hran, List.mem_singleton, forall_eq]

namespace Sample

def largeExitCode : Outside :=
  { outside ∅ (some (.other "exit")) with
    execute := fun _ =>
      { result := some { exitCode := 2 ^ 32, logs := "", output := [], platformTrace := "" }
        err := some (.other "exit") } }

def reported : AgentCall → Option (AssignmentState × ℤ)
  | .sendUpdate u => some (u.state, u.exitCode)
  | _ => none

end Sample

section Examples

open Sample

theorem assignment_settled_once_sample :
    ∃ u, SettledOnce (outside ∅ (some (.other "exit"))) (assignment [("NAME", "value")])
        ((executeAssignment node (outside ∅ (some (.other "exit")))
          (assignment [("NAME", "value")])).trace (.new node)) u ∧
      (u.state = .failed → u.exitCode ≠ 0) := by
  obtain ⟨u, hsettled, hexit⟩ := assignment_settled_once node (outside ∅ (some (.other "exit")))
    (assignment [("NAME", "value")]) (E := .faultless _ _ _) (fun _ _ => id)
    (Prog.exec_trace _ (.new node) fun _ _ _ => trivial) (by decide +kernel)
  exact ⟨u, hsettled, hexit.mpr fun _ _ _ => .inl rfl⟩

/-- A failed update may carry the exit code zero: that of the driver need not fit into 32 bits. -/
theorem not_failed_exitCode_ne_zero :
    ¬ ∀ (n : Node) (o : Outside) (msg : Assignment) (E : Environment AgentCall Agent Err)
        (log : CallLog AgentCall Agent) (r : Except Err Unit), (∀ l e, ¬ E.fails l e) →
        (executeAssignment n o msg).Exec E log r → r ≠ .error assignmentToNilMap →
        ∃ u, SettledOnce o msg log u ∧ (u.state = .failed → u.exitCode ≠ 0) := by
  intro h
  obtain ⟨u, hsettled, hexit⟩ := h node largeExitCode (assignment [("NAME", "value")])
    (.faultless _ _ _) _ _ (fun _ _ => id)
    (Prog.exec_trace _ (.new node) fun _ _ _ => trivial) (by decide +kernel)
  have hreported : (Prog.shown atEnd ((executeAssignment node largeExitCode
      (assignment [("NAME", "value")])).trace (.new node))).map reported = [some (.failed, 0)] := by
    decide +kernel
  rw [hsettled.ending, List.map_cons] at hreported
  obtain ⟨hu, -⟩ := List.cons.inj hreported
  obtain ⟨hstate, hcode⟩ := Prod.mk.inj (Option.some.inj hu)
  exact hexit hstate hcode

end Examples

end Lecrev.NodeAgent

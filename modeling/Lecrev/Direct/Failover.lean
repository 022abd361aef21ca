import Lecrev.Direct.Stream
import Lecrev.Scheduler.Dispatch

/-!
# Direct invocations over several regions

`ExecuteDirectStream` of `internal/scheduler` offers a direct invocation to the dispatchers of the
ranked regions, one after the other, until one of them returns a result or the caller's context is
done. Every other error sends the invocation on to the next region, also an error that a dispatcher
returns after a host had got the assignment and the caller had received events of the response.
-/

namespace Lecrev.Direct

/-! ## The dispatchers -/

/-- What a dispatcher does with the assignment of a direct invocation. -/
inductive Behaviour
  /-- No host gets the assignment. -/
  | refuse (e : Err)
  /-- A host gets the assignment, and `onHTTPEvent` the given events, before the dispatcher
  returns. -/
  | handOver (passed : List HTTPStreamEvent) (outcome : Except Err DirectExecutionResult)

/-- The behaviour without events, as `ExecuteDirect` has it. -/
def Behaviour.silent : Behaviour → Behaviour
  | .refuse e => .refuse e
  | .handOver _ outcome => .handOver [] outcome

/-- The direct invocations of a dispatcher: its methods as a `DirectDispatcher` and as a
`DirectStreamDispatcher`, if it is one. -/
structure Dispatcher where
  executeDirect : Option (Assignment → Behaviour)
  executeDirectStream : Option (Assignment → Behaviour)

/-- The method that the loop calls. A dispatcher that is no `DirectDispatcher` is skipped, even if
it is a `DirectStreamDispatcher`. -/
def Dispatcher.method (d : Dispatcher) : Option (Assignment → Behaviour) :=
  match d.executeDirect, d.executeDirectStream with
  | none, _ => none
  | some _, some executeDirectStream => some executeDirectStream
  | some executeDirect, none => some fun assignment => (executeDirect assignment).silent

/-- An execution that a call has started, with the events it has passed to `onHTTPEvent`. -/
structure Execution where
  attemptID : String
  passed : List HTTPStreamEvent
  deriving DecidableEq

/-- The state of a direct invocation. -/
structure CallState where
  store : Store
  /-- The executions in the order in which they were started. This is the history the properties
  speak about; no function of the program reads it. -/
  executions : List Execution

/-- The events that were passed to `onHTTPEvent`. The dispatchers are called one after the other. -/
def CallState.passed (w : CallState) : List HTTPStreamEvent := w.executions.flatMap (·.passed)

/-- The calls of `ExecuteDirectStream`. -/
inductive DirectCall
  | store (call : StoreCall)
  | dispatch (region : String)
  deriving DecidableEq, Repr

/-- Programs of `ExecuteDirectStream`. -/
abbrev DirectM (α : Type) := Prog DirectCall CallState Err α

/-- The store in the state. -/
def CallState.storePart : Prog.Part CallState Store where
  get w := w.store
  set w s := { w with store := s }
  get_set _ _ := rfl
  set_get _ := rfl
  set_set _ _ _ := rfl

/-- Call the store. -/
def fromStore {α : Type} (p : StoreM α) : DirectM α := p.zoom CallState.storePart .store

/-- A dispatcher is offered an assignment. -/
def dispatchDirect (region attemptID : String) (behaviour : Behaviour) :
    DirectM DirectExecutionResult :=
  .action (.dispatch region) fun w =>
    match behaviour with
    | .refuse e => (.error e, w)
    | .handOver passed outcome =>
      (outcome, { w with executions := w.executions ++ [{ attemptID, passed }] })

/-! ## The loop -/

/-- The errors of the regions so far. -/
structure Failures where
  sawDirect : Bool := false
  capacityErrors : List String := []
  dispatchErrors : List String := []

/-- What the call returns when no region is left. -/
def Failures.error (f : Failures) : Err :=
  if !f.sawDirect then .directInvokeUnavailable
  else if f.capacityErrors ≠ [] ∧ f.dispatchErrors = [] then
    .noExecutionCapacity (": " ++ "; ".intercalate f.capacityErrors)
  else if f.dispatchErrors ≠ [] then
    .other ("direct invoke failed: " ++ "; ".intercalate f.dispatchErrors)
  else .directInvokeUnavailable

/-- The assignment for the `i`-th dispatcher. -/
def newDirectAssignment (uuid : ℕ → String) (version : FunctionVersion) (artifactMeta : Artifact)
    (payload : Bytes) (i : ℕ) : Assignment where
  attemptID := "direct-attempt-" ++ uuid (2 * i)
  jobID := "direct-job-" ++ uuid (2 * i + 1)
  functionVersionID := version.id
  artifactDigest := version.artifactDigest
  artifactBundleKey := artifactMeta.bundleKey
  entrypoint := version.entrypoint
  envVars := version.envVars
  envRefs := version.envRefs
  payload := payload
  networkPolicy := version.networkPolicy
  timeoutSec := version.timeoutSec
  memoryMB := version.memoryMB

/-- The error says that the caller's context is done. -/
def cancellation (e : Err) : Bool := e.root = .canceled ∨ e.root = .deadlineExceeded

/-- The failure of a region, under the error of its dispatcher. -/
def Failures.add (f : Failures) (region : String) (e : Err) : Failures :=
  match e.root with
  | .noExecutionCapacity _ =>
    { f with sawDirect := true, capacityErrors := f.capacityErrors ++ [region ++ ": " ++ e.text] }
  | _ =>
    { f with sawDirect := true, dispatchErrors := f.dispatchErrors ++ [region ++ ": " ++ e.text] }

/-- The loop over the candidates; `newAssignment i` is the assignment for the `i`-th dispatcher. -/
def failover (direct : String → Dispatcher) (newAssignment : ℕ → Assignment) :
    ℕ → List Candidate → Failures → DirectM DirectExecutionResult
  | _, [], f => .throw f.error
  | i, candidate :: candidates, f =>
    match (direct candidate.region).method with
    | none => failover direct newAssignment i candidates f
    | some method => do
      match ← (dispatchDirect candidate.region (newAssignment i).attemptID
          (method (newAssignment i))).result with
      | .ok result => pure result
      | .error e =>
        if cancellation e then .throw e
        else failover direct newAssignment (i + 1) candidates (f.add candidate.region e)

/-- `hasDirectDispatcher`. -/
def hasDirectDispatcher (s : Scheduler) (direct : String → Dispatcher) (version : FunctionVersion) :
    Bool :=
  version.regions.any fun region =>
    (s.dispatchers region).isSome &&
      ((direct region).executeDirect.isSome || (direct region).executeDirectStream.isSome)

/-- `ExecuteDirectStream` of the scheduler. -/
def executeDirectStream (s : Scheduler) (direct : String → Dispatcher) (uuid : ℕ → String)
    (now : Time) (versionID : String) (payload : Bytes) : DirectM DirectExecutionResult := do
  let version ← fromStore (getFunctionVersion versionID)
  if version.state ≠ .ready then .throw .functionVersionNotReady
  else if !hasDirectDispatcher s direct version then .throw .directInvokeUnavailable
  else
    let artifactMeta ← fromStore (getArtifact version.artifactDigest)
    let candidates ← fromStore (rankDispatchers s (fun _ => now) version)
    failover direct (newDirectAssignment uuid version artifactMeta payload) 0 candidates {}

/-! ## The executions of a call -/

/-- What a dispatcher returns for the assignment of a direct invocation. -/
def Behaviour.outcome : Behaviour → Except Err DirectExecutionResult
  | .refuse e => .error e
  | .handOver _ outcome => outcome

/-- The dispatcher hands the assignment to a host. -/
def Behaviour.handsOver : Behaviour → Bool
  | .refuse _ => false
  | .handOver _ _ => true

/-- The dispatcher returns an error other than that of the caller's context, so the next region is
tried. -/
def Behaviour.Inconclusive (b : Behaviour) : Prop :=
  ∃ e, b.outcome = .error e ∧ cancellation e = false

/-- What a dispatcher's call returns, and the executions that were started by then. -/
def Behaviour.attempt (attemptID : String) (executions : List Execution) :
    Behaviour → Except Err DirectExecutionResult × List Execution
  | .refuse e => (.error e, executions)
  | .handOver passed outcome => (outcome, executions ++ [{ attemptID, passed }])

/-- What the dispatchers of the candidates would do, one after the other. -/
def offers (direct : String → Dispatcher) (newAssignment : ℕ → Assignment) :
    ℕ → List Candidate → List Behaviour
  | _, [] => []
  | i, candidate :: candidates =>
    match (direct candidate.region).method with
    | none => offers direct newAssignment i candidates
    | some method =>
      method (newAssignment i) :: offers direct newAssignment (i + 1) candidates

/-- The loop reaches a dispatcher that hands the assignment over: those before it return errors
other than the context's. -/
def HandsOver (bs : List Behaviour) : Prop :=
  ∃ before b after, bs = before ++ b :: after ∧ b.handsOver = true ∧ ∀ b' ∈ before, b'.Inconclusive

/-- The loop reaches two dispatchers that hand the assignment over. -/
def HandsOverTwice (bs : List Behaviour) : Prop :=
  ∃ before b after, bs = before ++ b :: after ∧ b.handsOver = true ∧
    (∀ b' ∈ before, b'.Inconclusive) ∧ b.Inconclusive ∧ HandsOver after

theorem run_dispatchDirect (region attemptID : String) (behaviour : Behaviour) (w : CallState) :
    (dispatchDirect region attemptID behaviour).run w =
      ((behaviour.attempt attemptID w.executions).1,
        { w with executions := (behaviour.attempt attemptID w.executions).2 }) := by
  cases behaviour <;> rfl

theorem Behaviour.fst_attempt (b : Behaviour) (attemptID : String) (executions : List Execution) :
    (b.attempt attemptID executions).1 = b.outcome := by
  cases b <;> rfl

theorem Behaviour.length_snd_attempt (b : Behaviour) (attemptID : String)
    (executions : List Execution) :
    (b.attempt attemptID executions).2.length = executions.length + b.handsOver.toNat := by
  cases b with
  | refuse e => rfl
  | handOver passed outcome => exact List.length_append

instance Behaviour.decidableInconclusive (b : Behaviour) : Decidable b.Inconclusive :=
  match h : b.outcome with
  | .ok _ => .isFalse fun ⟨_, he, _⟩ => nomatch h.symm.trans he
  | .error e =>
    if hcancellation : cancellation e = false then .isTrue ⟨e, h, hcancellation⟩
    else .isFalse fun ⟨_, he, hc⟩ => hcancellation (Except.error.inj (h.symm.trans he) ▸ hc)

/-- The number of hand-overs of the loop. -/
def handOvers : List Behaviour → ℕ
  | [] => 0
  | b :: bs => b.handsOver.toNat + if b.Inconclusive then handOvers bs else 0

/-- The first dispatcher hands over, or the loop goes on past it. -/
theorem handsOver_cons_iff {b : Behaviour} {bs : List Behaviour} :
    HandsOver (b :: bs) ↔ b.handsOver = true ∨ b.Inconclusive ∧ HandsOver bs := by
  constructor
  · rintro ⟨before, b', after, heq, hhands, hbefore⟩
    cases before with
    | nil =>
      obtain ⟨rfl, rfl⟩ := List.cons.inj heq
      exact .inl hhands
    | cons c before =>
      obtain ⟨rfl, rfl⟩ := List.cons.inj heq
      obtain ⟨hc, hrest⟩ := List.forall_mem_cons.mp hbefore
      exact .inr ⟨hc, before, b', after, rfl, hhands, hrest⟩
  · rintro (hhands | ⟨hb, before, b', after, rfl, hhands, hbefore⟩)
    · exact ⟨[], b, bs, rfl, hhands, nofun⟩
    · exact ⟨b :: before, b', after, rfl, hhands, List.forall_mem_cons.mpr ⟨hb, hbefore⟩⟩

theorem handsOverTwice_cons_iff {b : Behaviour} {bs : List Behaviour} :
    HandsOverTwice (b :: bs) ↔
      b.Inconclusive ∧ (b.handsOver = true ∧ HandsOver bs ∨ HandsOverTwice bs) := by
  constructor
  · rintro ⟨before, b', after, heq, hhands, hbefore, hb', hafter⟩
    cases before with
    | nil =>
      obtain ⟨rfl, rfl⟩ := List.cons.inj heq
      exact ⟨hb', .inl ⟨hhands, hafter⟩⟩
    | cons c before =>
      obtain ⟨rfl, rfl⟩ := List.cons.inj heq
      obtain ⟨hc, hrest⟩ := List.forall_mem_cons.mp hbefore
      exact ⟨hc, .inr ⟨before, b', after, rfl, hhands, hrest, hb', hafter⟩⟩
  · rintro ⟨hb, ⟨hhands, hafter⟩ | ⟨before, b', after, rfl, hhands, hbefore, hb', hafter⟩⟩
    · exact ⟨[], b, bs, rfl, hhands, nofun, hb, hafter⟩
    · exact ⟨b :: before, b', after, rfl, hhands, List.forall_mem_cons.mpr ⟨hb, hbefore⟩, hb',
        hafter⟩

theorem one_le_handOvers_iff (bs : List Behaviour) : 1 ≤ handOvers bs ↔ HandsOver bs := by
  induction bs with
  | nil => exact iff_of_false (by simp [handOvers]) fun ⟨_, _, _, h, _⟩ => by simp at h
  | cons b bs ih =>
    rw [handsOver_cons_iff, ← ih, handOvers]
    cases hhands : b.handsOver <;> by_cases hb : b.Inconclusive <;> simp [hb]

/-- The number of hand-overs is two or more exactly when the loop reaches two of them. -/
theorem two_le_handOvers_iff (bs : List Behaviour) : 2 ≤ handOvers bs ↔ HandsOverTwice bs := by
  induction bs with
  | nil => exact iff_of_false (by simp [handOvers]) fun ⟨_, _, _, h, _⟩ => by simp at h
  | cons b bs ih =>
    rw [handsOverTwice_cons_iff, ← ih, handOvers]
    by_cases hb : b.Inconclusive
    · rw [if_pos hb, and_iff_right hb, ← one_le_handOvers_iff]
      cases b.handsOver with
      | true =>
        simp only [Bool.toNat_true, true_and]
        omega
      | false => simp
    · rw [if_neg hb]
      refine iff_of_false ?_ fun h => hb h.1
      cases b.handsOver <;> simp

/-- **The loop.** It starts as many executions as the dispatchers it reaches hand over. -/
theorem length_executions_failover (direct : String → Dispatcher) (newAssignment : ℕ → Assignment)
    (i : ℕ) (candidates : List Candidate) (f : Failures) (w : CallState) :
    ((failover direct newAssignment i candidates f).run w).2.executions.length =
      w.executions.length + handOvers (offers direct newAssignment i candidates) := by
  induction candidates generalizing i f w with
  | nil => rfl
  | cons candidate candidates ih =>
    unfold failover offers
    cases (direct candidate.region).method with
    | none => exact ih i f w
    | some method =>
      have hlength := (method (newAssignment i)).length_snd_attempt (newAssignment i).attemptID
        w.executions
      simp only [Prog.run_bind, Prog.run_result, run_dispatchDirect, Behaviour.fst_attempt,
        handOvers]
      cases houtcome : (method (newAssignment i)).outcome with
      | ok result =>
        have hfinal : ¬ (method (newAssignment i)).Inconclusive :=
          fun ⟨e, he, _⟩ => nomatch houtcome.symm.trans he
        rw [if_neg hfinal]
        exact hlength
      | error e =>
        dsimp only
        cases hcancellation : cancellation e with
        | true =>
          have hfinal : ¬ (method (newAssignment i)).Inconclusive := by
            rintro ⟨e', he', hc⟩
            rw [← Except.error.inj (houtcome.symm.trans he'), hcancellation] at hc
            cases hc
          rw [if_neg hfinal]
          exact hlength
        | false =>
          have hagain : (method (newAssignment i)).Inconclusive := ⟨e, houtcome, hcancellation⟩
          rw [if_pos hagain]
          simp only [Bool.false_eq_true, if_false]
          rw [ih, hlength, Nat.add_assoc]

theorem run_fromStore {α : Type} (p : StoreM α) (w : CallState) :
    (fromStore p).run w = ((p.run w.store).1, { w with store := (p.run w.store).2 }) :=
  Prog.run_zoom _ _ _ _

/-- The behaviours `bs` are those of the dispatchers that a call may reach: the version is stored
and ready, there is a direct dispatcher and an artifact, and the candidates are ranked. -/
def Offered (s : Scheduler) (direct : String → Dispatcher) (uuid : ℕ → String) (now : Time)
    (versionID : String) (payload : Bytes) (store : Store) (bs : List Behaviour) : Prop :=
  ∃ version artifactMeta candidates, store.functions.get versionID = some version ∧
    version.state = .ready ∧ hasDirectDispatcher s direct version = true ∧
    store.artifacts.get version.artifactDigest = some artifactMeta ∧
    ((rankDispatchers s (fun _ => now) version).run store).1 = .ok candidates ∧
    bs = offers direct (newDirectAssignment uuid version artifactMeta payload) 0 candidates

theorem length_executions_of_offered {s : Scheduler} {direct : String → Dispatcher}
    {uuid : ℕ → String} {now : Time} {versionID : String} {payload : Bytes} {w : CallState}
    {bs : List Behaviour} (h : Offered s direct uuid now versionID payload w.store bs) :
    ((executeDirectStream s direct uuid now versionID payload).run w).2.executions.length =
      w.executions.length + handOvers bs := by
  obtain ⟨version, artifactMeta, candidates, hversion, hready, hdirect, hartifact, hrank, rfl⟩ := h
  have hrun : (rankDispatchers s (fun _ => now) version).run w.store = (.ok candidates, w.store) :=
    Prod.ext hrank (run_rankDispatchers_snd _ _ _ _)
  simp only [executeDirectStream, Prog.run_bind, run_fromStore, run_getFunctionVersion,
    find_of_get _ hversion, hready, ne_eq, not_true_eq_false, if_false, hdirect, Bool.not_true,
    Bool.false_eq_true, run_getArtifact, find_of_get _ hartifact, hrun]
  exact length_executions_failover _ _ _ _ _ _

/-- A call that does not come to the loop starts no execution. -/
theorem executions_of_not_offered {s : Scheduler} {direct : String → Dispatcher}
    {uuid : ℕ → String} {now : Time} {versionID : String} {payload : Bytes} {w : CallState}
    (h : ∀ bs, ¬ Offered s direct uuid now versionID payload w.store bs) :
    ((executeDirectStream s direct uuid now versionID payload).run w).2.executions =
      w.executions := by
  simp only [executeDirectStream, Prog.run_bind, run_fromStore, run_getFunctionVersion]
  cases hversion : w.store.functions.get versionID with
  | none => rw [find_of_get_none _ hversion]
  | some version =>
    rw [find_of_get _ hversion]
    dsimp only
    split_ifs with hready hdirect
    · rfl
    · rfl
    · simp only [Prog.run_bind, run_fromStore, run_getArtifact]
      cases hartifact : w.store.artifacts.get version.artifactDigest with
      | none => rw [find_of_get_none _ hartifact]
      | some artifactMeta =>
        rw [find_of_get _ hartifact]
        dsimp only
        rcases hrank : (rankDispatchers s (fun _ => now) version).run w.store with
          ⟨e | candidates, t⟩
        · rfl
        · exact absurd ⟨version, artifactMeta, candidates, hversion, not_not.mp hready,
            by simpa using hdirect, hartifact, congrArg Prod.fst hrank, rfl⟩ (h _)

/-! ## At most one execution -/

/-- At most one dispatcher has handed the assignment to a host, and all events stem from one
execution. -/
structure AtMostOnce (w : CallState) : Prop where
  handed : w.executions.length ≤ 1
  events : ∀ x ∈ w.executions, x.passed ≠ [] → w.passed = x.passed

theorem atMostOnce_iff {w : CallState} : AtMostOnce w ↔ w.executions.length ≤ 1 := by
  refine ⟨AtMostOnce.handed, fun h => ⟨h, fun x hx _ => ?_⟩⟩
  obtain ⟨y, hy⟩ | hnil := (Nat.le_one_iff_eq_zero_or_eq_one.mp h).symm.imp
    List.length_eq_one_iff.mp List.length_eq_zero_iff.mp
  · rw [hy] at hx
    rw [CallState.passed, hy, List.mem_singleton.mp hx]
    exact List.append_nil _
  · rw [hnil] at hx
    cases hx

/-- What a coordinator's dispatcher did, once its call has returned. -/
def Invocation.behaviour (s : Invocation) : Option Behaviour :=
  s.loop.outcome.map (.handOver s.loop.passed)

/-! ## Two regions -/

namespace Sample

def version : FunctionVersion :=
  { DomainSample.version with id := "v", regions := ["r1", "r2"], artifactDigest := "d" }

def artifactMeta : Artifact := { DomainSample.artifact with digest := "d" }

def state : CallState where
  store :=
    { Store.new with
      functions := Table.empty.put version
      artifacts := Table.empty.put artifactMeta }
  executions := []

def scheduler : Scheduler where
  dispatchers region :=
    some (.ofBus region { availableHosts := 1, blankWarm := 0, functionWarm := 0 } (.ok ()))

/-- The dispatchers of two regions. -/
def dispatchers (first second : Behaviour) (region : String) : Dispatcher where
  executeDirect := some fun _ => if region = "r1" then first else second
  executeDirectStream := some fun _ => if region = "r1" then first else second

theorem offered (first second : Behaviour) :
    Offered scheduler (dispatchers first second) (fun _ => "u") 0 "v" [] state.store
      [first, second] :=
  ⟨version, artifactMeta, _, rfl, rfl, rfl, rfl, rfl, rfl⟩

def brokenPipe : Err := .other "write: broken pipe"

/-- The caller's function fails at the first chunk, as `HandleEvent` does when the `Write` of the
response fails. -/
def brokenCall : Call := { call with onHTTPEvent := some fun _ _ => .error brokenPipe }

def broken : Behaviour := .handOver [{ type := .chunk, chunk := [0] }] (.error brokenPipe)

end Sample

/-! ## The result -/

/-- **When a direct invocation runs at most once.** For every scheduler, dispatchers, store and
payload: within a call at most one dispatcher hands the assignment to a host, and all events stem
from one execution, exactly when the loop does not come to a second dispatcher that hands over: of
the dispatchers it may reach, in the order of their regions, none hands over after one that has
handed over and returned an error other than the context's, with only such errors before. -/
theorem at_most_once_iff (s : Scheduler) (direct : String → Dispatcher) (uuid : ℕ → String)
    (now : Time) (versionID : String) (payload : Bytes) {w : CallState} (hw : w.executions = []) :
    AtMostOnce ((executeDirectStream s direct uuid now versionID payload).run w).2 ↔
      ∀ bs, Offered s direct uuid now versionID payload w.store bs → ¬ HandsOverTwice bs := by
  rw [atMostOnce_iff]
  by_cases hoffered : ∃ bs, Offered s direct uuid now versionID payload w.store bs
  · have hlength {bs : List Behaviour}
        (h : Offered s direct uuid now versionID payload w.store bs) :
        ((executeDirectStream s direct uuid now versionID payload).run w).2.executions.length =
          handOvers bs := by
      rw [length_executions_of_offered h, hw, List.length_nil, Nat.zero_add]
    constructor
    · intro honce bs hbs htwice
      rw [hlength hbs] at honce
      exact absurd ((two_le_handOvers_iff bs).mpr htwice) (by omega)
    · intro hall
      obtain ⟨bs, hbs⟩ := hoffered
      have htwice := mt (two_le_handOvers_iff bs).mp (hall bs hbs)
      rw [hlength hbs]
      omega
  · rw [not_exists] at hoffered
    refine iff_of_true ?_ fun bs hbs => absurd hbs (hoffered bs)
    rw [executions_of_not_offered hoffered, hw]
    exact Nat.zero_le 1

open Sample in
/-- The first region has no capacity; the second hands over, and its error ends the loop. -/
theorem at_most_once_iff_sample :
    AtMostOnce ((executeDirectStream scheduler
      (dispatchers (.refuse (.noExecutionCapacity "")) broken) (fun _ => "u") 0 "v" []).run
        state).2 := by
  refine (at_most_once_iff _ _ _ _ _ _ rfl).mpr ?_
  rintro bs ⟨version, artifactMeta, candidates, ⟨⟩, -, -, ⟨⟩, ⟨⟩, rfl⟩
  rw [← two_le_handOvers_iff]
  decide

open Sample in
/-- The write of the first chunk to the client fails, so the coordinator of the first region returns
an error; the function is then run in the second region as well. -/
theorem not_at_most_once :
    ((system brokenCall).exec (.start brokenCall ["a"] (reports 1))
        (handle 1 ++ receive 1)).behaviour = some broken ∧
    ¬ ∀ (s : Scheduler) (direct : String → Dispatcher) (uuid : ℕ → String) (now : Time)
      (versionID : String) (payload : Bytes) (w : CallState), w.executions = [] →
      AtMostOnce ((executeDirectStream s direct uuid now versionID payload).run w).2 := by
  refine ⟨rfl, fun h => ?_⟩
  have honce := h scheduler (dispatchers broken broken) (fun _ => "u") 0 "v" [] state rfl
  have htwo := length_executions_of_offered (w := state) (offered broken broken)
  rw [atMostOnce_iff, htwo] at honce
  revert honce
  decide

end Lecrev.Direct

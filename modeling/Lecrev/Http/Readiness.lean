import Lecrev.Build.Runnable
import Lecrev.Http.TriggerTokens

/-!
# Only ready versions are executed

A direct invocation reads the version and goes on only if it is ready. A job from the queue is
dispatched with the version that the scheduler reads when it takes the job, and its state is not
looked at: what stops a version that is not ready is that it has no artifact yet. A build that fails
after it has stored its artifact leaves a version that has failed and has an artifact, and a webhook
gets it executed.
-/

namespace Lecrev

open Direct (CallState DirectCall)

/-! ## Hand-overs of the scheduler -/

/-- The calls of `dispatchJobAttempt` once it has picked a region: the attempt is made, published
and accepted. -/
def StoreCall.handsOver : StoreCall → Bool
  | .putAttempt _ | .publish | .accept => true
  | _ => false

/-- The step has claimed a job and read the version of the job, which was ready. -/
def ReadReady (clock : ℕ → Time) (log : CallLog StoreCall Store) : Prop :=
  ∃ job version s t, (.claimNextExecutionJob, some s) ∈ log ∧
    ((claimNextExecutionJob claimable .scheduling (clock 0)).run s).1 = .ok job ∧
    (.getFunctionVersion, some t) ∈ log ∧
    t.functions.get job.functionVersionID = some version ∧ version.state = .ready

/-- When the version of the claimed job is not ready, the step finds no artifact for it. -/
def Unbuilt (E : Environment StoreCall Store Err) (clock : ℕ → Time) : Prop :=
  ∀ s job t version u, E.meets .claimNextExecutionJob s →
    ((claimNextExecutionJob claimable .scheduling (clock 0)).run s).1 = .ok job →
    E.meets .getFunctionVersion t → t.functions.get job.functionVersionID = some version →
    version.state ≠ .ready → E.meets .getArtifact u → u.artifacts.get version.artifactDigest = none

section Scheduler

variable {sch : Scheduler} {clock : ℕ → Time} {uuid : ℕ → String}
  {E : Environment StoreCall Store Err} {log : CallLog StoreCall Store}

/-- A call hands a version over only after a ready one was read. -/
def AfterReady (clock : ℕ → Time) (log : CallLog StoreCall Store) (call : StoreCall) : Prop :=
  call.handsOver = true → ReadReady clock log

theorem ReadReady.append (h : ReadReady clock log) (entry : StoreCall × Option Store) :
    ReadReady clock (log ++ [entry]) := by
  obtain ⟨job, version, s, t, hclaim, hjob, hread, hversion⟩ := h
  exact ⟨job, version, s, t, List.mem_append_left _ hclaim, hjob, List.mem_append_left _ hread,
    hversion⟩

theorem obeys_updateExecutionJob (job : ExecutionJob) :
    (updateExecutionJob job).Obeys E (AfterReady clock) (fun _ _ => True) log :=
  Prog.obeys_modify.mpr ⟨(fun h => by cases h), fun _ _ => trivial, fun _ _ => trivial⟩

theorem obeys_dispatchJobAttempt {version : FunctionVersion} (job : ExecutionJob)
    (clock' : ℕ → Time) (hready : version.state = .ready → ReadReady clock log)
    (hunbuilt : version.state ≠ .ready → ∀ u, E.meets .getArtifact u →
      u.artifacts.get version.artifactDigest = none) :
    (dispatchJobAttempt sch clock' uuid version job).Obeys E (AfterReady clock) (fun _ _ => True)
      log := by
  by_cases hstate : version.state = .ready
  · exact Prog.obeys_of_lasting _ (hready hstate) (fun _ entry h => h.append entry) fun _ _ h _ => h
  · refine Prog.obeys_result_bind.mpr
      (Prog.obeys_query.mpr ⟨(fun h => by cases h), fun s hs => ?_, fun e _ => ?_⟩)
    · rw [find_of_get_none _ (hunbuilt hstate s hs)]
      exact (obeys_updateExecutionJob _).result_bind fun _ _ _ => Prog.obeys_throw.mpr trivial
    · exact (obeys_updateExecutionJob _).result_bind fun _ _ _ => Prog.obeys_throw.mpr trivial

/-- What a step knows of the job it has claimed. -/
def Claimed (E : Environment StoreCall Store Err) (clock : ℕ → Time)
    (log : CallLog StoreCall Store) (job : ExecutionJob) : Prop :=
  ∃ s, E.meets .claimNextExecutionJob s ∧ (.claimNextExecutionJob, some s) ∈ log ∧
    ((claimNextExecutionJob claimable .scheduling (clock 0)).run s).1 = .ok job

/-- A step hands over after a ready version only. -/
theorem obeys_scheduleNext (hE : Unbuilt E clock) :
    (scheduleNext sch clock uuid).Obeys E (AfterReady clock) (fun _ _ => True) [] := by
  have hclaim : (claimNextExecutionJob claimable .scheduling (clock 0)).Obeys E (AfterReady clock)
      (fun log result => ∀ job, result = .ok job → Claimed E clock log job) [] := by
    refine Prog.obeys_action.mpr ⟨(fun h => by cases h), fun s hs job hjob => ?_, ?_⟩
    · exact ⟨s, hs, List.mem_singleton_self _, hjob⟩
    · intro e _ job hjob
      cases hjob
  refine hclaim.result_bind fun log result hresult => ?_
  cases result with
  | error e => cases e <;> exact Prog.obeys_ret.mpr trivial
  | ok job =>
    obtain ⟨s, hmeets, hs, hjob⟩ := hresult job rfl
    dsimp only
    split_ifs
    · exact (obeys_updateExecutionJob _).bind (fun _ _ _ => Prog.obeys_pure.mpr trivial)
        fun _ _ _ => trivial
    · refine Prog.obeys_result_bind.mpr
        (Prog.obeys_query.mpr ⟨(fun h => by cases h), fun t ht => ?_, fun e _ => ?_⟩)
      · cases hversion : find "function version" t.functions job.functionVersionID with
        | error e =>
          exact (obeys_updateExecutionJob _).bind (fun _ _ _ => Prog.obeys_pure.mpr trivial)
            fun _ _ _ => trivial
        | ok version =>
          have hget := find_eq_ok_iff.mp hversion
          refine (obeys_dispatchJobAttempt job _ (fun hready => ?_) fun hstate u =>
            hE s job t version u hmeets hjob ht hget hstate).result_bind fun log r _ => ?_
          · exact ⟨job, version, s, t, List.mem_append_left _ hs, hjob, by simp, hget, hready⟩
          · cases r <;> exact Prog.obeys_pure.mpr trivial
      · exact (obeys_updateExecutionJob _).bind (fun _ _ _ => Prog.obeys_pure.mpr trivial)
          fun _ _ _ => trivial

end Scheduler

/-- The version was read and found ready. -/
def DirectReady (versionID : String) (log : CallLog DirectCall CallState) : Prop :=
  ∃ s version, (.store .getFunctionVersion, some s) ∈ log ∧
    s.store.functions.get versionID = some version ∧ version.state = .ready

theorem DirectReady.append {versionID : String} {log : CallLog DirectCall CallState}
    (h : DirectReady versionID log) (entry : DirectCall × Option CallState) :
    DirectReady versionID (log ++ [entry]) := by
  obtain ⟨s, version, hread, hversion⟩ := h
  exact ⟨s, version, List.mem_append_left _ hread, hversion⟩

theorem obeys_executeDirectStream {E : Environment DirectCall CallState Err} (sch : Scheduler)
    (direct : String → Direct.Dispatcher) (uuid : ℕ → String) (now : Time) (versionID : String)
    (payload : Bytes) :
    (Direct.executeDirectStream sch direct uuid now versionID payload).Obeys E
      (fun log call => (∃ region, call = .dispatch region) → DirectReady versionID log)
      (fun _ _ => True) [] := by
  have hread : (Direct.fromStore (getFunctionVersion versionID)).Obeys E
      (fun log call => (∃ region, call = .dispatch region) → DirectReady versionID log)
      (fun log result => ∀ version, result = .ok version → version.state = .ready →
        DirectReady versionID log) [] := by
    refine Prog.obeys_zoom_query.mpr ⟨?_, fun s _ version hversion hready => ?_, ?_⟩
    · rintro ⟨region, h⟩
      cases h
    · exact ⟨s, version, List.mem_singleton_self _, find_eq_ok_iff.mp hversion, hready⟩
    · intro e _ version h
      cases h
  refine hread.bind (fun log version hversion => ?_) fun _ _ _ => trivial
  by_cases hready : version.state = .ready
  · exact Prog.obeys_of_lasting _ (hversion version rfl hready) (fun _ entry h => h.append entry)
      fun _ _ h _ => h
  · rw [if_pos hready]
    exact Prog.obeys_throw.mpr trivial

/-! ## The result -/

/-- **Only ready versions are handed over.** Whatever states the calls of a step meet and whichever
of them fail, a direct invocation reaches a dispatcher only after it has read a ready version. A
step of the scheduler does so if it finds no artifact for a version that is not ready. -/
theorem ready_executed (sch : Scheduler) :
    (∀ (E : Environment StoreCall Store Err) clock, Unbuilt E clock →
      ∀ uuid log result, (scheduleNext sch clock uuid).Exec E log result →
        ∀ earlier entry later, log = earlier ++ entry :: later → entry.1.handsOver = true →
          ReadReady clock earlier) ∧
      ∀ (E : Environment DirectCall CallState Err) direct uuid now versionID payload log result,
        (Direct.executeDirectStream sch direct uuid now versionID payload).Exec E log result →
          ∀ earlier entry later, log = earlier ++ entry :: later →
            (∃ region, entry.1 = .dispatch region) → DirectReady versionID earlier := by
  constructor
  · intro E clock hE uuid log result hexec
    exact ((obeys_scheduleNext hE).exec hexec).2
  · intro E direct uuid now versionID payload log result hexec
    exact ((obeys_executeDirectStream sch direct uuid now versionID payload).exec hexec).2

namespace ReadinessSample

def readyLog : CallLog StoreCall Store :=
  (scheduleNext Direct.Sample.scheduler (fun _ => 5) fun _ => "attempt").trace
    { Direct.Sample.state.store with
      executionJobs := Table.empty.put (newExecutionJob "job" Direct.Sample.version [] 1) }

theorem unbuilt : Unbuilt ⟨fun l s => (l, some s) ∈ readyLog, fun _ _ => False⟩ fun _ => 5 := by
  intro s job t version u _ _ ht hget hstate
  have hall : (readyLog.all fun entry => entry.2.all fun s =>
      s.functions.values.all fun version => version.state = .ready) = true := by decide +kernel
  have hentry := List.all_eq_true.mp hall _ ht
  simp only [Option.all_some, List.all_eq_true] at hentry
  exact absurd (of_decide_eq_true (hentry version (Table.mem_values_of_get hget))) hstate

end ReadinessSample

open ReadinessSample in
theorem ready_executed_sample :
    ∃ earlier entry later, readyLog = earlier ++ entry :: later ∧ entry.1 = .accept ∧
      ReadReady (fun _ => 5) earlier := by
  have haccepted : .accept ∈ readyLog.map Prod.fst := by decide +kernel
  obtain ⟨entry, hentry, haccept⟩ := List.mem_map.mp haccepted
  obtain ⟨earlier, later, hlog⟩ := List.append_of_mem hentry
  refine ⟨earlier, entry, later, hlog, haccept, ?_⟩
  refine (ready_executed Direct.Sample.scheduler).1
    _ _ unbuilt (fun _ => "attempt") readyLog _
    (Prog.exec_trace _ _ fun _ _ hs => hs) earlier entry later hlog ?_
  rw [haccept]
  rfl

/-! ## A build that fails at its end -/

open Http

/-- What goes on at the same time: builds, requests, and steps of the scheduler. -/
inductive Activity
  | build (t : BuildThread)
  | request (r : Http.Request) (w : ResponseWriter) (endpoint : Endpoint)
  | schedule (clock : ℕ → Time) (uuid : ℕ → String)

/-- The program of an activity. -/
def Activity.calls (g : Gateway) : Activity → HttpM Unit
  | build t => ofStore t.calls
  | request r w endpoint => do
    let _ ← serve g r w endpoint
    pure ()
  | schedule clock uuid => do
    let _ ← ofStore (scheduleNext g.server.scheduler clock uuid)
    pure ()

/-- Activities side by side, from a store that holds API keys only. -/
def activity (g : Gateway) (keys : Table APIKey) (activities : ℕ → Activity) :
    Pool ℕ HttpCall CallState Err Unit :=
  .start ⟨{ Store.new with apiKeys := keys }, []⟩ fun i => (activities i).calls g

/-- A store that activities lead to, with calls that fail with or without an effect. -/
def Reached (g : Gateway) (s : Store) : Prop :=
  ∃ keys activities moves,
    (Pool.faulty.exec (activity g keys activities) moves).state.store = s

theorem exists_exec_of_mem_trace {α β : Type} {i : ℕ} {p : StoreM α} {f : α → HttpM β}
    {c : Pool ℕ HttpCall CallState Err β} (hprog : c.progs i = ofStore p >>= f) {l : StoreCall}
    {s : Store} (h : (l, some s) ∈ p.trace c.state.store) :
    ∃ moves, (Pool.faulty.exec c moves).state.store = s := by
  induction p generalizing c with
  | ret r => cases h
  | call l' eff next fail ihnext ihfail =>
    obtain h | h := List.mem_cons.mp h
    · cases h
      exact ⟨[], rfl⟩
    · have hstep : c.step (.run i) =
          { state := { c.state with store := eff c.state.store }
            progs := Function.update c.progs i (ofStore (next c.state.store) >>= f)
            log := (i, .store l') :: c.log } := Pool.step_run hprog
      obtain ⟨moves, hmoves⟩ := ihnext c.state.store (c := c.step (.run i))
        (by rw [hstep]; exact Function.update_self _ _ _) (by rw [hstep]; exact h)
      exact ⟨.run i :: moves, hmoves⟩

namespace ReadinessSample

def gateway : Gateway :=
  { GatewaySample.streaming with
    server :=
      { GatewaySample.streaming.server with
        builder := { RunnableSample.builder with bus := none } } }

def run : BuildRun := { BuildSample.run with token := fun _ => .error (.other "no entropy") }

def call (route : Api.Route) : Activity :=
  .request
    { method := "POST", path := "", requestURI := "", headers := [("X-Api-Key", ["key"])] }
    GatewaySample.writer (.api { Api.Sample.request route with run })

def activities : ℕ → Activity
  | 0 => call (.createFunction "project" (.ok
      { name := "hello"
        entrypoint := "index.js"
        regions := ["ap-south-1"]
        source := .ok { type := .bundle, inlineFiles := [("index.js", "")] } }))
  | 1 => call (.createWebhookTrigger "version" (.ok { token := "hook" }))
  | 2 =>
    .request { method := "POST", token := "hook", path := "", requestURI := "", jobID := "job" }
      GatewaySample.writer .webhook
  | _ => .schedule (fun _ => 5) fun _ => "attempt"

def moves : List (Pool.Fault ℕ Err) :=
  List.replicate 40 (.run 0) ++ List.replicate 10 (.run 1) ++ List.replicate 10 (.run 2)

def answered : Pool ℕ HttpCall CallState Err Unit :=
  Pool.faulty.exec (activity gateway (Table.empty.put Api.Sample.key) activities) moves

def log : CallLog StoreCall Store :=
  (scheduleNext gateway.server.scheduler (fun _ => 5) fun _ => "attempt").trace answered.state.store

theorem reached_of_mem_log {l : StoreCall} {s : Store} (h : (l, some s) ∈ log) :
    Reached gateway s := by
  have hprog : answered.progs 3 = (activities 3).calls gateway := by
    rw [answered, moves, Transition.System.exec_append, Transition.System.exec_append,
      Pool.progs_faulty_exec_run (by decide), Pool.progs_faulty_exec_run (by decide),
      Pool.progs_faulty_exec_run (by decide)]
    rfl
  obtain ⟨more, hmore⟩ := exists_exec_of_mem_trace hprog h
  refine ⟨Table.empty.put Api.Sample.key, activities, moves ++ more, ?_⟩
  rw [Transition.System.exec_append]
  exact hmore

theorem not_readReady {earlier later : CallLog StoreCall Store} (h : log = earlier ++ later) :
    ¬ ReadReady (fun _ => 5) earlier := by
  rintro ⟨job, version, s, t, -, -, hread, hversion, hready⟩
  have hall : (log.all fun entry => entry.1 ≠ .getFunctionVersion || entry.2.all fun t =>
      t.functions.values.all fun version => version.state ≠ .ready) = true := by decide +kernel
  have hentry := List.all_eq_true.mp hall _ (by rw [h]; exact List.mem_append_left _ hread)
  simp only [ne_eq, not_true_eq_false, decide_false, Bool.false_or, Option.all_some,
    List.all_eq_true] at hentry
  exact of_decide_eq_true (hentry version (Table.mem_values_of_get hversion)) hready

end ReadinessSample

open ReadinessSample in
/-- The deploy fails because its trigger cannot be made, and leaves a failed version with an
artifact. A request to a webhook of the version gets it dispatched and accepted. -/
theorem not_ready_executed :
    ¬ ∀ (g : Gateway) (E : Environment StoreCall Store Err),
      (∀ call s, E.meets call s → Reached g s) → ∀ clock uuid log result,
        (scheduleNext g.server.scheduler clock uuid).Exec E log result →
          ∀ earlier entry later, log = earlier ++ entry :: later → entry.1.handsOver = true →
            ReadReady clock earlier := by
  intro h
  have haccepted : .accept ∈ log.map Prod.fst := by decide +kernel
  obtain ⟨entry, hentry, haccept⟩ := List.mem_map.mp haccepted
  obtain ⟨earlier, later, hlog⟩ := List.append_of_mem hentry
  refine not_readReady hlog (h gateway ⟨fun _ s => Reached gateway s, fun _ _ => False⟩
    (fun _ _ hs => hs) (fun _ => 5) (fun _ => "attempt") log _
    (Prog.exec_trace _ _ fun l s hs => reached_of_mem_log hs) earlier entry later hlog ?_)
  rw [haccept]
  rfl

end Lecrev

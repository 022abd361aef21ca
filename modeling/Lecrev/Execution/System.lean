import Lecrev.Concurrency.Transition
import Lecrev.Recovery.Service
import Lecrev.Scheduler.Dispatch

/-!
# The execution path as a transition system

The handlers that write jobs and attempts, run one after the other in any order: a job is
enqueued, claimed and dispatched, reported on, retried and recovered. Every event is one handler
run to its end with store calls that do not fail.
-/

namespace Lecrev

namespace Execution

/-- The metadata store, and the jobs of the retry goroutines that were started by a report of
failure and have not run yet. -/
structure State where
  store : Store
  retries : List String

/-- One handler, with the clock readings, identifiers and answers it meets. -/
inductive Event
  /-- Another component writes tables of the store that hold neither jobs nor attempts. -/
  | metadata (tables : Store)
  /-- `enqueueExecution`. -/
  | enqueue (sch : Scheduler) (now : Time) (id : String) (version : FunctionVersion)
      (payload : Bytes)
  /-- `scheduleNext`; the dispatchers are those of this call. -/
  | scheduleNext (sch : Scheduler) (clock : ℕ → Time) (uuid : ℕ → String)
  /-- `handleAssignmentUpdate`. -/
  | update (c : UpdateContext) (now : Time) (msg : AssignmentUpdate)
  /-- A retry goroutine that an earlier report of failure started. -/
  | retry (clock : ℕ → Time) (jobID : String)
  /-- `recoverAttempt`. -/
  | recover (clock : ℕ → Time) (attempt : Attempt)
  /-- `recoverStaleScheduling`. -/
  | recoverStale (sch : Scheduler) (now : Time)

/-- `tables` with the jobs, the attempts and the accepted assignments of `s`. -/
def withMetadata (s tables : Store) : Store :=
  { tables with
    executionJobs := s.executionJobs
    attempts := s.attempts
    accepted := s.accepted }

/-- The retry goroutines after a report: a report of failure may have started one. -/
def startRetry (retries : List String) : Except Err (Option String) → List String
  | .ok (some jobID) => jobID :: retries
  | _ => retries

/-- Run the handler of an event. -/
def step (s : State) : Event → State
  | .metadata tables => { s with store := withMetadata s.store tables }
  | .enqueue sch now id version payload =>
    { s with store := ((enqueueExecution sch now id version payload).run s.store).2 }
  | .scheduleNext sch clock uuid =>
    { s with store := ((scheduleNext sch clock uuid).run s.store).2 }
  | .update c now msg =>
    { store := ((handleAssignmentUpdate c now msg).run s.store).2
      retries := startRetry s.retries ((handleAssignmentUpdate c now msg).run s.store).1 }
  | .retry clock jobID =>
    { store := ((retryGoroutine clock jobID).run s.store).2
      retries := s.retries.erase jobID }
  | .recover clock attempt => { s with store := ((recoverAttempt clock attempt).run s.store).2 }
  | .recoverStale sch now => { s with store := ((recoverStaleScheduling sch now).run s.store).2 }

/-- The events that may occur: identifiers made up by `uuid.NewString` are fresh, a retry
goroutine was started before, and a recovery is called with an attempt of the store, whose job
never changes. -/
def Enabled (s : State) : Event → Prop
  | .enqueue _ _ id _ _ => s.store.executionJobs.get id = none
  | .scheduleNext _ _ uuid => ∀ n, s.store.attempts.get (uuid n) = none
  | .retry _ jobID => jobID ∈ s.retries
  | .recover _ attempt =>
    ∃ a, s.store.attempts.get attempt.id = some a ∧ a.jobID = attempt.jobID
  | _ => True

/-- The execution path. -/
def system : Transition.System State Event where
  step := step
  enabled := Enabled

/-- The store before the first job: no jobs, no attempts and no history. -/
structure Initial (s : State) : Prop where
  jobs : ∀ k, s.store.executionJobs.get k = none
  attempts : ∀ k, s.store.attempts.get k = none
  accepted : s.store.accepted = []
  retries : s.retries = []

/-- The reports of an event are about an attempt of the job they name. -/
def Belongs (s : State) : Event → Prop
  | .update _ _ msg => ∀ a, s.store.attempts.get msg.attemptID = some a → a.jobID = msg.jobID
  | _ => True

/-- The states reported about an attempt, in the order of their delivery. -/
def reportsOf (attemptID : String) (es : List Event) : List AssignmentState :=
  es.filterMap fun e =>
    match e with
    | .update _ _ msg => if msg.attemptID = attemptID then some msg.state else none
    | _ => none

/-- An agent's reports about one attempt: starting, then running any number of times, then one
final report. The list may be cut short. -/
def inOrder : List AssignmentState → Bool
  | [] => true
  | .starting :: rest =>
    match rest.dropWhile (· == .running) with
    | [] => true
    | [last] => last.terminal
    | _ => false
  | _ => false

/-- A report is about an attempt that a dispatcher accepted for the job it names. -/
def Dispatched (s : State) : Event → Prop
  | .update _ _ msg =>
    ∃ assignment ∈ s.store.accepted,
      assignment.attemptID = msg.attemptID ∧ assignment.jobID = msg.jobID
  | _ => True

/-! ## What an event does -/

/-- What an event makes of the store `s`, as far as jobs, attempts and accepted assignments go. -/
inductive Effect (s : Store) : Event → Store → Prop
  /-- Nothing changed. -/
  | same {e : Event} {s' : Store} (same : s.SameView s') : Effect s e s'
  /-- A new job was stored. -/
  | created {sch : Scheduler} {now : Time} {id : String} {version : FunctionVersion}
      {payload : Bytes} (fresh : s.executionJobs.get id = none) :
      Effect s (.enqueue sch now id version payload)
        (s.setJob (newExecutionJob id version payload now))
  /-- A job was claimed, and given up or offered. -/
  | scheduled {sch : Scheduler} {clock : ℕ → Time} {uuid : ℕ → String} {s' : Store}
      (job : ExecutionJob) (fresh : ∀ n, s.attempts.get (uuid n) = none)
      (stored : s.executionJobs.get job.id = some job) (claim : job.state ∈ claimable)
      (scheduled : Scheduled uuid job s s') : Effect s (.scheduleNext sch clock uuid) s'
  /-- A report was written into its attempt and its job. -/
  | reported {c : UpdateContext} {now : Time} {msg : AssignmentUpdate} {s' : Store}
      (a : Attempt) (j : ExecutionJob) (reports : Reports c msg s a j)
      (same : ((s.setAttempt (a.afterUpdate msg now)).setJob
        (j.afterUpdate c.retry a.startedAt msg now)).SameView s') :
      Effect s (.update c now msg) s'
  /-- A retry goroutine put a job back in the queue, or failed it. -/
  | retried {clock : ℕ → Time} {jobID : String} (j : ExecutionJob)
      (stored : s.executionJobs.get jobID = some j) :
      Effect s (.retry clock jobID) (s.setJob (j.afterRetry clock))
  /-- An expired attempt was failed and its job requeued or failed. -/
  | recovered {clock : ℕ → Time} {attempt : Attempt} {s' : Store} (a : Attempt)
      (j : ExecutionJob) (recovers : Recovers clock attempt s a j)
      (own : a.jobID = attempt.jobID)
      (same : ((s.setAttempt (a.expired (clock 1))).setJob (j.recovered clock)).SameView s') :
      Effect s (.recover clock attempt) s'
  /-- Stale claims were returned to the queue. -/
  | requeued {sch : Scheduler} {now : Time} {staleBefore : ℤ} {error : String} :
      Effect s (.recoverStale sch now) (s.requeueStale .scheduling .queued staleBefore now error)

/-- What an enabled event does to the store. -/
theorem effect_step {s : State} {e : Event} (he : Enabled s e) :
    Effect s.store e (step s e).store := by
  cases e with
  | metadata tables => exact .same ⟨fun _ => rfl, fun _ => rfl, rfl⟩
  | enqueue sch now id version payload =>
    obtain ⟨e, hrun⟩ | hrun := enqueueExecution_cases sch now id version payload s.store
    · simpa only [step, hrun] using .same (.refl s.store)
    · simpa only [step, hrun] using .created he
  | scheduleNext sch clock uuid =>
    obtain hsame | ⟨job, hstored, hclaim, hscheduled⟩ := scheduleNext_cases sch clock uuid s.store
    · simpa only [step, hsame] using .same (.refl s.store)
    · exact .scheduled job he hstored hclaim hscheduled
  | update c now msg =>
    by_cases hreports : ∃ a j, Reports c msg s.store a j
    · obtain ⟨a, j, hreports⟩ := hreports
      exact .reported a j hreports (hreports.sameView now)
    · push Not at hreports
      simpa only [step, run_handleAssignmentUpdate_of_not hreports] using .same (.refl s.store)
  | retry clock jobID =>
    cases hj : s.store.executionJobs.get jobID with
    | none => simpa only [step, run_retryGoroutine_of_none hj] using .same (.refl s.store)
    | some j => simpa only [step, run_retryGoroutine hj] using .retried j hj
  | recover clock attempt =>
    by_cases hrecovers : ∃ a j, Recovers clock attempt s.store a j
    · obtain ⟨a, j, hrecovers⟩ := hrecovers
      -- the listed attempt named the job that the stored one has
      obtain ⟨a', ha', hown⟩ := he
      cases hrecovers.attempt.symm.trans ha'
      exact .recovered a j hrecovers hown hrecovers.sameView
    · push Not at hrecovers
      simpa only [step, run_recoverAttempt_of_not hrecovers] using .same (.refl s.store)
  | recoverStale sch now =>
    simp only [step, run_recoverStaleScheduling_snd]
    split_ifs
    · exact .same (.refl s.store)
    · exact .requeued

/-! ## A small deployment

One function version in one region, for concrete runs. -/

namespace Sample

open DomainSample (project version artifact)

def store : Store :=
  { Store.new with
    projects := Table.empty.put project
    functions := Table.empty.put version
    artifacts := Table.empty.put artifact }

def start : State := ⟨store, []⟩

def scheduler (answer : Except Err Unit) : Scheduler where
  dispatchers region :=
    if region = "region" then some (.ofBus "region" {} answer) else none

def enqueue : Event := .enqueue (scheduler (.ok ())) 10 "job" version []

def schedule (answer : Except Err Unit) (now : Time) (attemptID : String) : Event :=
  .scheduleNext (scheduler answer) (fun _ => now) fun _ => attemptID

def report (now : Time) (attemptID : String) (state : AssignmentState) : Event :=
  .update { retry := true } now
    { hostID := "host", region := "region", attemptID, jobID := "job", state }

def recover (now : Time) (attemptID : String) : Event :=
  .recover (fun _ => now)
    { id := attemptID, jobID := "job", functionVersionID := "version", region := "region"
      state := .assigned, leaseExpiresAt := 1, createdAt := 1, updatedAt := 1 }

theorem initial_start : Initial start where
  jobs _ := rfl
  attempts _ := rfl
  accepted := rfl
  retries := rfl

end Sample

end Execution

end Lecrev

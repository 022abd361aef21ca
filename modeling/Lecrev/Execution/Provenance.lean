import Lecrev.Concurrency.Faults
import Lecrev.Execution.System

/-!
# What runs is what was enqueued

The handlers of the execution path read a job, change some of its fields and write the whole record
back, so a write can undo the write of another handler. The fields that say what the job is about
are never among those that change. So whatever gets lost, every stored job is still about what it
was enqueued for, and an assignment carries the payload and the version of a request. -/

namespace Lecrev

/-- The job when it was enqueued: the fields that handlers write have their first values. -/
def ExecutionJob.enqueued (job : ExecutionJob) : ExecutionJob :=
  { job with
    targetRegion := "", state := .queued, attemptCount := 0, lastAttemptID := "", error := ""
    result := none, updatedAt := job.createdAt }

/-- The assignment runs what the job is about. -/
structure Assignment.IsFor (a : Assignment) (job : ExecutionJob) : Prop where
  jobID : a.jobID = job.id
  version : a.functionVersionID = job.functionVersionID
  payload : a.payload = job.payload

/-- The jobs in the store, and those of the assignments that were accepted, were enqueued as jobs in
`R`. -/
structure Store.Genuine (R : ExecutionJob → Prop) (s : Store) : Prop where
  jobs : ∀ k j, s.executionJobs.get k = some j → R j.enqueued
  accepted : ∀ a ∈ s.accepted, ∃ job, R job ∧ a.IsFor job

/-- A dispatcher writes neither jobs nor the history: with a bus, `EnqueueExecution` writes nothing,
and without one `assignExecution` writes the attempt, the host and its region. -/
def Scheduler.Quiet (sch : Scheduler) : Prop :=
  ∀ region d, sch.dispatchers region = some d → ∀ a, (d.enqueueExecution a).Keeps (fun _ => True)
    fun _ s s' => (∀ k, s'.executionJobs.get k = s.executionJobs.get k) ∧ s'.accepted = s.accepted

namespace Provenance

/-- Every call of the program keeps the jobs genuine. -/
def Keeps {α : Type} (R : ExecutionJob → Prop) (p : StoreM α) : Prop :=
  p.Keeps (Store.Genuine R) fun _ _ _ => True

section Calls

variable {α : Type} {R : ExecutionJob → Prop} {job j : ExecutionJob}

theorem keeps_setJob (l : StoreCall) (h : R j.enqueued) :
    Keeps R (.modify l (·.setJob j) : StoreM Unit) := by
  refine Prog.keeps_modify fun s hs => ⟨⟨fun k j' hj' => ?_, hs.accepted⟩, trivial⟩
  by_cases hk : k = j.id
  · obtain rfl : j = j' := by simpa [hk] using hj'
    exact h
  · exact hs.jobs k j' (by simpa [hk] using hj')

theorem keeps_update (h : R job.enqueued) (hsame : j.enqueued = job.enqueued) :
    Keeps R (updateExecutionJob j) :=
  keeps_setJob _ (hsame ▸ h)

theorem keeps_same {l : StoreCall} {f : Store → Store}
    (hjobs : ∀ s, (f s).executionJobs = s.executionJobs)
    (haccepted : ∀ s, (f s).accepted = s.accepted) : Keeps R (.modify l f : StoreM Unit) := by
  refine Prog.keeps_modify fun s hs => ⟨⟨?_, ?_⟩, trivial⟩
  · rw [hjobs s]
    exact hs.jobs
  · rw [haccepted s]
    exact hs.accepted

theorem keeps_updateAttempt (a : Attempt) : Keeps R (updateAttempt a) :=
  keeps_same (fun _ => rfl) fun _ => rfl

theorem keeps_query (l : StoreCall) (f : Store → Except Err α) : Keeps R (.query l f) :=
  Prog.keeps_query fun _ _ => trivial

theorem keeps_getExecutionJob_bind {id : String} {f : ExecutionJob → StoreM α}
    (hf : ∀ j, R j.enqueued → Keeps R (f j)) : Keeps R (getExecutionJob id >>= f) := by
  refine ⟨fun s hs => ⟨hs, trivial, ?_⟩, fun _ => trivial⟩
  change (Prog.bind (.ret (find "job" s.executionJobs id)) f).Keeps _ _
  cases hfind : find "job" s.executionJobs id with
  | error e => trivial
  | ok j => exact hf j (hs.jobs id j (find_eq_ok_iff.mp hfind))

theorem keeps_claim_bind {states : List JobState} {now : Time}
    {f : Except Err ExecutionJob → StoreM α} (hf : ∀ j, R j.enqueued → Keeps R (f (.ok j)))
    (herror : ∀ e, Keeps R (f (.error e))) :
    Keeps R ((claimNextExecutionJob states .scheduling now).result >>= f) := by
  refine ⟨fun s hs => ?_, herror⟩
  cases hclaim : nextClaim states s.executionJobs.values with
  | none => simpa only [hclaim] using ⟨hs, trivial, herror _⟩
  | some j =>
    have hj : R j.enqueued := hs.jobs _ j ((Table.mem_values _ _).mp (nextClaim_mem hclaim).1)
    simp only [hclaim]
    exact ⟨((keeps_setJob (j := j.claimed .scheduling now) .claimNextExecutionJob hj).1 s hs).1,
      trivial, hf _ hj⟩

end Calls

section Handlers

variable {R : ExecutionJob → Prop} {sch : Scheduler} {clock : ℕ → Time} {uuid : ℕ → String}
  {version : FunctionVersion} {job : ExecutionJob}

/-- The loop over the candidates passes the job on unchanged. -/
theorem keeps_offerCandidates (hsch : sch.Quiet) (artifactMeta : Artifact) (now : Time)
    (candidates : List Candidate)
    (hcandidates : ∀ c ∈ candidates, ∃ region, sch.dispatchers region = some c.dispatcher)
    (i : ℕ) (errors : List String) (hjob : R job.enqueued)
    (hversion : version.id = job.functionVersionID) :
    Keeps R (offerCandidates clock uuid version artifactMeta now i candidates errors job) := by
  induction candidates generalizing i errors job with
  | nil => exact .bind_of (Prog.Keeps.result (keeps_update hjob rfl)) fun _ => Prog.keeps_throw _
  | cons candidate candidates ih =>
    obtain ⟨region, hregion⟩ := hcandidates candidate List.mem_cons_self
    -- the assignment is made of the job that is written just before
    have haccept (a : Assignment) (ha : a.IsFor job.enqueued) :
        Keeps R (enqueueAssignment candidate.dispatcher a) := by
      refine .bind_of ((hsch region _ hregion a).of_calls fun _ s t hs hcall => ?_) fun _ => ?_
      · exact ⟨⟨fun k j hj => hs.jobs k j (hcall.1 k ▸ hj), hcall.2 ▸ hs.accepted⟩, trivial⟩
      · refine Prog.keeps_modify fun s hs => ⟨⟨hs.jobs, fun b hb => ?_⟩, trivial⟩
        rcases List.mem_cons.mp hb with rfl | hb
        · exact ⟨_, hjob, ha⟩
        · exact hs.accepted b hb
    refine .bind_of (keeps_same (fun _ => rfl) fun _ => rfl) fun _ => ?_
    refine .bind_of (keeps_update hjob rfl) fun _ => ?_
    refine .bind_of (haccept _ ⟨rfl, hversion, rfl⟩).result fun answer => ?_
    split
    · exact keeps_update hjob rfl
    · refine .bind_of (keeps_updateAttempt _).result fun _ => ?_
      split_ifs
      · exact .bind_of (Prog.Keeps.result (keeps_update hjob rfl)) fun _ => Prog.keeps_throw _
      · exact ih (fun c hc => hcandidates c (List.mem_cons_of_mem _ hc)) _ _ hjob hversion

theorem keeps_dispatchJobAttempt (hsch : sch.Quiet) (hjob : R job.enqueued)
    (hversion : version.id = job.functionVersionID) :
    Keeps R (dispatchJobAttempt sch clock uuid version job) := by
  have hrequeue (error : String) (now : Time) (e : Err) : Keeps R (do
      let _ ← (updateExecutionJob (job.requeued error now)).result
      .throw e : StoreM Unit) :=
    .bind_of (Prog.Keeps.result (keeps_update hjob rfl)) fun _ => Prog.keeps_throw e
  refine .bind_of (keeps_query _ _).result fun found => ?_
  split
  · exact hrequeue _ _ _
  · refine (keeps_rankDispatchers sch (fun _ => clock 1) version
      fun _ _ _ _ _ => trivial).result.bind
      (returns_rankDispatchers sch (fun _ => clock 1) version).result fun ranked hranked => ?_
    split
    · exact hrequeue _ _ _
    · next candidates =>
      exact keeps_offerCandidates hsch _ _ _ (hranked candidates rfl) _ _ hjob hversion

theorem keeps_enqueueExecution {now : Time} {id : String} {payload : Bytes}
    (h : R (newExecutionJob id version payload now)) :
    Keeps R (enqueueExecution sch now id version payload) := by
  have hquota : Keeps R (enforceExecutionQuota sch version.projectID) := by
    unfold enforceExecutionQuota
    split_ifs
    · trivial
    · refine .bind_of (keeps_query _ _) fun count => ?_
      split_ifs <;> trivial
  exact .bind_of hquota fun _ => .bind_of (keeps_setJob _ h) fun _ => Prog.keeps_pure _

theorem keeps_recoverStaleScheduling (now : Time) : Keeps R (recoverStaleScheduling sch now) := by
  unfold recoverStaleScheduling
  split_ifs
  · trivial
  refine Prog.keeps_action fun s hs => ⟨⟨fun k j hj => ?_, hs.accepted⟩, trivial⟩
  rw [Store.getJob_requeueStale] at hj
  obtain ⟨job, hjob, rfl⟩ := Option.map_eq_some_iff.mp hj
  have hsame (staleBefore : ℤ) (error : String) :
      (requeueIfStale .scheduling .queued staleBefore now error job).enqueued = job.enqueued := by
    unfold requeueIfStale
    split_ifs <;> rfl
  rw [hsame]
  exact hs.jobs k job hjob

theorem keeps_scheduleNext (hsch : sch.Quiet) : Keeps R (scheduleNext sch clock uuid) := by
  refine keeps_claim_bind (fun j hj => ?_) fun e => ?_
  · dsimp only
    split_ifs
    · exact .bind_of (keeps_update hj rfl) fun _ => Prog.keeps_pure _
    · have hgiveUp (e : Err) : Keeps R (do
          updateExecutionJob (j.abandoned e.text (clock 1))
          pure true) :=
        .bind_of (keeps_update hj rfl) fun _ => Prog.keeps_pure _
      refine Prog.Keeps.query_bind (fun _ _ => trivial) (fun s _ => ?_) hgiveUp
      cases hfind : find "function version" s.functions j.functionVersionID with
      | error e => exact hgiveUp e
      | ok version =>
        have hversion := Table.key_of_get (find_eq_ok_iff.mp hfind)
        refine .bind_of (keeps_dispatchJobAttempt hsch hj hversion).result fun r => ?_
        split <;> trivial
  · split <;> trivial

theorem keeps_retryExecution (now : Time) (jobID : String) :
    Keeps R (retryExecution now jobID) := by
  refine keeps_getExecutionJob_bind fun j hj => ?_
  split_ifs
  · trivial
  · exact .bind_of (keeps_update hj rfl) fun _ => Prog.keeps_pure _

theorem keeps_handleAssignmentUpdate (c : UpdateContext) (now : Time) (msg : AssignmentUpdate) :
    Keeps R (handleAssignmentUpdate c now msg) := by
  have hcost (attempt : Attempt) (job : ExecutionJob) : Keeps R (recordCost now attempt job) := by
    unfold recordCost
    split
    · trivial
    · refine .bind_of (keeps_query _ _) fun version => .bind_of (keeps_query _ _) fun project => ?_
      exact keeps_same (fun _ => rfl) fun _ => rfl
  unfold handleAssignmentUpdate
  split_ifs
  · trivial
  refine .bind_of (keeps_query _ _) fun attempt => keeps_getExecutionJob_bind fun job hjob => ?_
  have hsame : (job.afterUpdate c.retry attempt.startedAt msg now).enqueued = job.enqueued := by
    unfold ExecutionJob.afterUpdate
    split <;> rfl
  refine .bind_of (keeps_updateAttempt _) fun _ => .bind_of (keeps_update hjob hsame) fun _ => ?_
  split_ifs
  all_goals first
    | exact .bind_of (hcost _ _) fun _ => Prog.keeps_pure _
    | trivial

theorem keeps_retryGoroutine (jobID : String) : Keeps R (retryGoroutine clock jobID) := by
  refine .bind_of (keeps_retryExecution _ _).result fun r => ?_
  split
  · trivial
  · refine Prog.Keeps.query_bind (fun _ _ => trivial) (fun s hs => ?_) fun _ => trivial
    cases hfind : find "job" s.executionJobs jobID with
    | error e => trivial
    | ok j =>
      have hj := hs.jobs jobID j (find_eq_ok_iff.mp hfind)
      exact .bind_of (Prog.Keeps.result (keeps_update hj rfl)) fun _ => Prog.keeps_pure _

theorem keeps_recoverAttempt (attempt : Attempt) : Keeps R (recoverAttempt clock attempt) := by
  refine keeps_getExecutionJob_bind fun job hjob => .bind_of (keeps_query _ _) fun latest => ?_
  split_ifs
  · trivial
  · refine .bind_of (keeps_updateAttempt _) fun _ => .bind_of (keeps_update hjob rfl) fun _ => ?_
    refine .bind_of (keeps_retryExecution _ _).result fun r => ?_
    split
    · trivial
    · exact keeps_update hjob rfl
  · exact .bind_of (keeps_updateAttempt _) fun _ => keeps_update hjob rfl

end Handlers

end Provenance

namespace Execution

open Provenance

/-- The calls of a handler. -/
def Event.calls : Event → StoreM Unit
  | .metadata tables => .modify .putRegion (withMetadata · tables)
  | .enqueue sch now id version payload => enqueueExecution sch now id version payload *> pure ()
  | .scheduleNext sch clock uuid => Lecrev.scheduleNext sch clock uuid *> pure ()
  | .update c now msg => handleAssignmentUpdate c now msg *> pure ()
  | .retry clock jobID => retryGoroutine clock jobID
  | .recover clock attempt => recoverAttempt clock attempt
  | .recoverStale sch now => recoverStaleScheduling sch now *> pure ()

/-- The event enqueues the job. -/
def Event.Enqueues : Event → ExecutionJob → Prop
  | .enqueue _ now id version payload, job => job = newExecutionJob id version payload now
  | _, _ => False

/-- The dispatchers of the event are quiet. -/
def Event.Quiet : Event → Prop
  | .scheduleNext sch _ _ => sch.Quiet
  | _ => True

theorem Event.keeps_calls {R : ExecutionJob → Prop} {e : Event} (hquiet : e.Quiet)
    (henqueues : ∀ job, e.Enqueues job → R job) : Keeps R e.calls := by
  have hignore {α : Type} {p : StoreM α} (hp : Keeps R p) : Keeps R (p *> pure ()) :=
    .bind_of hp fun _ => Prog.keeps_pure _
  cases e with
  | metadata tables => exact keeps_same (fun _ => rfl) fun _ => rfl
  | enqueue sch now id version payload => exact hignore (keeps_enqueueExecution (henqueues _ rfl))
  | scheduleNext sch clock uuid => exact hignore (keeps_scheduleNext hquiet)
  | update c now msg => exact hignore (keeps_handleAssignmentUpdate c now msg)
  | retry clock jobID => exact keeps_retryGoroutine jobID
  | recover clock attempt => exact keeps_recoverAttempt attempt
  | recoverStale sch now => exact hignore (keeps_recoverStaleScheduling now)

/-- **What runs is what was enqueued.** Any number of handlers of the execution path run side by
side from a store without jobs, every call to the store may fail with or without an effect, and
every handler may stop at any point. Every job that is stored is still about what some request has
enqueued it for: its version, project, payload, retries and time of creation are those of the
request. Every assignment that was accepted has the version and the payload of such a request. -/
theorem accepted_as_enqueued {ι : Type} [DecidableEq ι] (events : ι → Event)
    (hquiet : ∀ i, (events i).Quiet) {s : Store} (hjobs : ∀ k, s.executionJobs.get k = none)
    (haccepted : s.accepted = []) (ms : List (Pool.Fault ι Err)) :
    let t := (Pool.faulty.exec (.start s fun i => (events i).calls) ms).state
    (∀ k j, t.executionJobs.get k = some j → ∃ i, (events i).Enqueues j.enqueued) ∧
      ∀ a ∈ t.accepted, ∃ job, (∃ i, (events i).Enqueues job) ∧ a.IsFor job := by
  have hstart : s.Genuine fun job => ∃ i, (events i).Enqueues job :=
    ⟨fun k j hj => by simp [hjobs] at hj, by simp [haccepted]⟩
  have hkeeps := Pool.faulty_exec_keeps
    (fun i => (events i).keeps_calls (hquiet i) fun _ h => ⟨i, h⟩)
    hstart ms
  exact ⟨hkeeps.jobs, hkeeps.accepted⟩

namespace Sample

def handlers : Bool → Event
  | false => enqueue
  | true => schedule (.ok ()) 20 "attempt-1"

/-- The job is enqueued before the loop of the scheduler claims it. -/
def served : Store :=
  (Pool.faulty.exec (.start store fun i => (handlers i).calls)
    (.replicate 2 (.run false) ++ .replicate 12 (.run true))).state

theorem quiet_handlers (i : Bool) : (handlers i).Quiet := by
  cases i with
  | false => trivial
  | true =>
    intro region d hd a
    obtain ⟨rfl, rfl⟩ : region = "region" ∧ .ofBus "region" {} (.ok ()) = d := by
      simpa [scheduler] using hd
    exact Prog.keeps_query fun _ _ => ⟨fun _ => rfl, rfl⟩

end Sample

theorem accepted_as_enqueued_sample :
    Sample.served.accepted ≠ [] ∧ ∀ a ∈ Sample.served.accepted, ∃ job,
      (∃ i, (Sample.handlers i).Enqueues job) ∧ a.IsFor job :=
  ⟨List.cons_ne_nil _ _,
    (accepted_as_enqueued Sample.handlers Sample.quiet_handlers (fun _ => rfl) rfl _).2⟩

end Execution

end Lecrev

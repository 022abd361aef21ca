import Lecrev.Concurrency.Pool
import Lecrev.Execution.System

/-!
# Read-modify-write races on one attempt

The scheduler dispatches an attempt, its agent reports `STARTING`, `RUNNING` and `SUCCEEDED`, and
lease recovery looks at the attempt, all at the same time. Each of them reads the job and the
attempt, and later writes back the whole records, so that a success can be overwritten by a
component that read the records before.
-/

namespace Lecrev

namespace Race

/-! ## What a component leaves in the records -/

/-- The call leaves in the job `jobID` a record in `P`, and in the attempt `attemptID` a record in
`Q`, if it writes them at all. -/
structure Leaves (jobID attemptID : String) (P : ExecutionJob → Prop) (Q : Attempt → Prop)
    (l : StoreCall) (s s' : Store) : Prop where
  job : Pool.Writes (StoreCall.writesJob jobID) (·.executionJobs.get jobID)
    (fun o => ∃ j, o = some j ∧ P j) l s s'
  attempt : Pool.Writes (StoreCall.writesAttempt attemptID) (·.attempts.get attemptID)
    (fun o => ∃ a, o = some a ∧ Q a) l s s'

section Calls

variable {jobID attemptID : String} {P : ExecutionJob → Prop} {Q : Attempt → Prop}

theorem leaves_of_same {l : StoreCall} {s s' : Store} (hjob : l.writesJob jobID = false)
    (hattempt : l.writesAttempt attemptID = false)
    (hjobs : s'.executionJobs.get jobID = s.executionJobs.get jobID)
    (hattempts : s'.attempts.get attemptID = s.attempts.get attemptID) :
    Leaves jobID attemptID P Q l s s' where
  job := by
    rw [Pool.Writes, hjob]
    exact hjobs
  attempt := by
    rw [Pool.Writes, hattempt]
    exact hattempts

theorem keeps_updateExecutionJob {job : ExecutionJob} (hP : P job) :
    (updateExecutionJob job).Keeps (fun _ => True) (Leaves jobID attemptID P Q) := by
  refine Prog.keeps_modify fun s _ => ⟨trivial, ?_, ?_⟩
  · -- the write is to this job exactly when the identifiers agree
    rw [Pool.Writes]
    by_cases hid : job.id = jobID
    · subst hid
      rw [if_pos (by simp [StoreCall.writesJob])]
      exact ⟨job, by simp, hP⟩
    · rw [if_neg (by simpa [StoreCall.writesJob] using hid), Store.getJob_setJob,
        if_neg (Ne.symm hid)]
  · rw [Pool.Writes, if_neg (by simp [StoreCall.writesAttempt]), Store.attempts_setJob]

theorem keeps_setAttempt {l : StoreCall} {attempt : Attempt} (hQ : Q attempt)
    (hl : l = .putAttempt attempt.id ∨ l = .updateAttempt attempt.id) :
    (Prog.modify l (·.setAttempt attempt) : StoreM Unit).Keeps (fun _ => True)
      (Leaves jobID attemptID P Q) := by
  have hjob : l.writesJob jobID = false := by
    rcases hl with rfl | rfl <;> rfl
  have hattempt : l.writesAttempt attemptID = (attempt.id == attemptID) := by
    rcases hl with rfl | rfl <;> rfl
  refine Prog.keeps_modify fun s _ => ⟨trivial, ?_, ?_⟩
  · rw [Pool.Writes, hjob, if_neg (by simp), Store.executionJobs_setAttempt]
  · rw [Pool.Writes, hattempt]
    by_cases hid : attempt.id = attemptID
    · subst hid
      rw [if_pos (by simp)]
      exact ⟨attempt, by simp, hQ⟩
    · rw [if_neg (by simpa using hid), Store.getAttempt_setAttempt, if_neg (Ne.symm hid)]

theorem keeps_putAttempt {attempt : Attempt} (hQ : Q attempt) :
    (putAttempt attempt).Keeps (fun _ => True) (Leaves jobID attemptID P Q) :=
  keeps_setAttempt hQ (.inl rfl)

theorem keeps_updateAttempt {attempt : Attempt} (hQ : Q attempt) :
    (updateAttempt attempt).Keeps (fun _ => True) (Leaves jobID attemptID P Q) :=
  keeps_setAttempt hQ (.inr rfl)

theorem keeps_read {α : Type} {l : StoreCall} {f : Store → Except Err α}
    (hjob : l.writesJob jobID = false) (hattempt : l.writesAttempt attemptID = false) :
    (Prog.query l f : StoreM α).Keeps (fun _ => True) (Leaves jobID attemptID P Q) :=
  Prog.keeps_query fun _ _ => leaves_of_same hjob hattempt rfl rfl

end Calls

section Components

variable {jobID attemptID : String} {P : ExecutionJob → Prop} {Q : Attempt → Prop}

theorem keeps_handleAssignmentUpdate {c : UpdateContext} {now : Time} {msg : AssignmentUpdate}
    (hP : ∀ (j : ExecutionJob) startedAt, P (j.afterUpdate c.retry startedAt msg now))
    (hQ : ∀ a : Attempt, Q (a.afterUpdate msg now)) :
    (handleAssignmentUpdate c now msg).Keeps (fun _ => True) (Leaves jobID attemptID P Q) := by
  have hcost : ∀ attempt job, (recordCost now attempt job).Keeps (fun _ => True)
      (Leaves jobID attemptID P Q) := by
    intro attempt job
    unfold recordCost
    split
    · exact Prog.keeps_pure _
    · refine .bind_of (keeps_read rfl rfl) fun version => ?_
      refine .bind_of (keeps_read rfl rfl) fun project => ?_
      exact Prog.keeps_modify fun s _ => ⟨trivial, leaves_of_same rfl rfl rfl rfl⟩
  by_cases hdirect : c.directInvokes.contains msg.attemptID = true
  · rw [handleAssignmentUpdate, if_pos hdirect]
    exact Prog.keeps_pure _
  rw [handleAssignmentUpdate, if_neg hdirect]
  refine .bind_of (keeps_read rfl rfl) fun attempt => ?_
  refine .bind_of (keeps_read rfl rfl) fun job => ?_
  refine .bind_of (keeps_updateAttempt (hQ attempt)) fun _ => ?_
  refine .bind_of (keeps_updateExecutionJob (hP job attempt.startedAt)) fun _ => ?_
  -- the cost of a final report is recorded, then the handler returns
  split_ifs
  all_goals first
    | exact .bind_of (hcost _ _) fun _ => Prog.keeps_pure _
    | exact Prog.keeps_pure _

theorem keeps_recoverAttempt {clock : ℕ → Time} {attempt : Attempt}
    (hP : ∀ j : ExecutionJob, j.state = .retrying ∨ j.state = .failed → P j)
    (hQ : ∀ a : Attempt, a.state = .failed → Q a) :
    (recoverAttempt clock attempt).Keeps (fun _ => True) (Leaves jobID attemptID P Q) := by
  have hretry : ∀ now id, (retryExecution now id).Keeps (fun _ => True)
      (Leaves jobID attemptID P Q) := by
    intro now id
    refine .bind_of (keeps_read rfl rfl) fun job => ?_
    split_ifs
    · exact Prog.keeps_throw _
    · exact .bind_of (keeps_updateExecutionJob (hP _ (.inl rfl))) fun _ => Prog.keeps_pure _
  refine .bind_of (keeps_read rfl rfl) fun job => ?_
  refine .bind_of (keeps_read rfl rfl) fun latestAttempt => ?_
  split_ifs
  · exact Prog.keeps_pure _
  · refine .bind_of (keeps_updateAttempt (hQ _ rfl)) fun _ => ?_
    refine .bind_of (keeps_updateExecutionJob (hP _ (.inl rfl))) fun _ => ?_
    refine .bind_of (hretry _ _).result fun r => ?_
    split
    · exact Prog.keeps_pure _
    · exact keeps_updateExecutionJob (hP _ (.inr rfl))
  · refine .bind_of (keeps_updateAttempt (hQ _ rfl)) fun _ => ?_
    exact keeps_updateExecutionJob (hP _ (.inr rfl))

theorem keeps_dispatchJobAttempt {sch : Scheduler} {clock : ℕ → Time} {uuid : ℕ → String}
    {version : FunctionVersion} {job : ExecutionJob}
    (hP : ∀ j : ExecutionJob, j.state = .assigned ∨ j.state = .queued → P j)
    (hQ : ∀ a : Attempt, a.state = .assigned ∨ a.state = .failed → Q a)
    (hdispatch : ∀ region dispatcher, sch.dispatchers region = some dispatcher → ∀ a,
      (dispatcher.enqueueExecution a).Keeps (fun _ => True) (Leaves jobID attemptID P Q)) :
    (dispatchJobAttempt sch clock uuid version job).Keeps (fun _ => True)
      (Leaves jobID attemptID P Q) := by
  refine DispatchWrites.keeps_dispatchJobAttempt ⟨?_, ?_, ?_, ?_, ?_⟩ fun region d hd _ a _ =>
    hdispatch region d hd a
  · exact fun l s hjob hattempt _ => leaves_of_same (hjob _) (hattempt _) rfl rfl
  · exact fun j _ hj => keeps_updateExecutionJob (hP j hj)
  · exact fun _ a _ ha => keeps_putAttempt (hQ a (.inl ha))
  · exact fun _ a _ ha => keeps_updateAttempt (hQ a (.inr ha))
  · exact fun _ => Prog.keeps_modify fun s _ => ⟨trivial, leaves_of_same rfl rfl rfl rfl⟩

end Components

/-! ## The race -/

/-- The components that work on one attempt at the same time. -/
inductive Thread
  | dispatch | starting | running | succeeded | recover
  deriving DecidableEq, Repr

end Race

open Race in
/-- One job with one current attempt: the dispatch of the attempt, its agent's three reports, and
one recovery. The reports and the recovery are about this attempt of this job. -/
structure Race where
  sch : Scheduler
  clock : ℕ → Time
  uuid : ℕ → String
  version : FunctionVersion
  job : ExecutionJob
  attemptID : String
  /-- What the reports find in their coordinator. -/
  context : UpdateContext
  /-- The agent's report of each state, and the time it is handled. -/
  report : AssignmentState → AssignmentUpdate
  handledAt : AssignmentState → Time
  /-- The attempt as lease recovery listed it, and the clock of the recovery. -/
  listed : Attempt
  recoveryClock : ℕ → Time
  report_state : ∀ state, (report state).state = state
  report_attempt : ∀ state, (report state).attemptID = attemptID
  report_job : ∀ state, (report state).jobID = job.id
  listed_attempt : listed.id = attemptID
  listed_job : listed.jobID = job.id
  /-- The attempt was made by the scheduler, not by a direct invocation. -/
  indirect : context.directInvokes.contains attemptID = false

namespace Race

variable (r : Race)

/-- `handleAssignmentUpdate` for one of the reports. -/
def handle (state : AssignmentState) : StoreM Unit := do
  let _ ← handleAssignmentUpdate r.context (r.handledAt state) (r.report state)

/-- The programs that run side by side. -/
def progs : Thread → StoreM Unit
  | .dispatch => dispatchJobAttempt r.sch r.clock r.uuid r.version r.job
  | .starting => r.handle .starting
  | .running => r.handle .running
  | .succeeded => r.handle .succeeded
  | .recover => recoverAttempt r.recoveryClock r.listed

/-- The success is stored: the job has succeeded with the reported result, and so has the
attempt. -/
def Kept (s : Store) : Prop :=
  (∃ j, s.executionJobs.get r.job.id = some j ∧ j.state = .succeeded ∧ ∃ startedAt,
    j.result = some (reportedResult (r.report .succeeded) startedAt (r.handledAt .succeeded))) ∧
  ∃ a, s.attempts.get r.attemptID = some a ∧ a.state = .succeeded

/-- No other component is the last to write the job or the attempt. -/
def LastWord (log : List (Thread × StoreCall)) : Prop :=
  (∀ t, Pool.lastWriter (StoreCall.writesJob r.job.id) log = some t → t = .succeeded) ∧
  ∀ t, Pool.lastWriter (StoreCall.writesAttempt r.attemptID) log = some t → t = .succeeded

/-- The dispatchers only publish: handing an assignment over writes no attempt. -/
def Publishes : Prop :=
  ∀ region dispatcher, r.sch.dispatchers region = some dispatcher → ∀ a,
    (dispatcher.enqueueExecution a).Keeps (fun _ => True) fun l s s' =>
      HostCall a.attemptID l s s' ∧ ∀ k, l.writesAttempt k = false

/-- What a component leaves in the job. -/
def leavesJob : Thread → ExecutionJob → Prop
  | .succeeded, j => j.state = .succeeded ∧ ∃ startedAt,
      j.result = some (reportedResult (r.report .succeeded) startedAt (r.handledAt .succeeded))
  | _, j => j.state ≠ .succeeded

/-- What a component leaves in the attempt. A dispatcher in the scheduler's process may write back
an attempt it read before. -/
def leavesAttempt : Thread → Attempt → Prop
  | .succeeded, a => a.state = .succeeded
  | .dispatch, a => r.Publishes → a.state ≠ .succeeded
  | _, a => a.state ≠ .succeeded

/-- What each thread writes to job and attempt. -/
theorem keeps_progs (t : Thread) : (r.progs t).Keeps (fun _ => True)
    (Leaves r.job.id r.attemptID (r.leavesJob t) (r.leavesAttempt t)) := by
  cases t with
  | dispatch =>
    refine keeps_dispatchJobAttempt ?_ ?_ fun region dispatcher hdispatcher a => ?_
    · rintro j (hstate | hstate) <;> simp [leavesJob, hstate]
    · rintro a (hstate | hstate) _ <;> simp [hstate]
    · by_cases hpublishes : r.Publishes
      · refine (hpublishes region dispatcher hdispatcher a).mono fun l s s' _ h => ?_
        exact leaves_of_same (h.1.noJob _) (h.2 _) (h.1.jobs _) (h.1.attempts _ (h.2 _))
      · -- a host in the scheduler's process may leave any state in the attempt
        refine (dispatcher.calls a).mono fun l s s' _ h => ⟨?_, ?_⟩
        · rw [Pool.Writes, h.noJob, if_neg (by simp)]
          exact h.jobs _
        · rw [Pool.Writes]
          split_ifs with hwrites
          · obtain ⟨-, a', ha'⟩ := h.own _ hwrites
            exact ⟨a', ha', fun hyes => absurd hyes hpublishes⟩
          · exact h.attempts _ (by simpa using hwrites)
  | starting | running =>
    refine .bind_of (keeps_handleAssignmentUpdate (fun j startedAt => ?_) fun a => ?_) fun _ =>
      Prog.keeps_pure _
    · simp [leavesJob, ExecutionJob.afterUpdate, r.report_state]
    · simp [leavesAttempt, Attempt.afterUpdate, r.report_state]
  | succeeded =>
    refine .bind_of (keeps_handleAssignmentUpdate (fun j startedAt => ?_) fun a => ?_) fun _ =>
      Prog.keeps_pure _
    · simp only [leavesJob, ExecutionJob.afterUpdate, r.report_state]
      exact ⟨trivial, startedAt, rfl⟩
    · simp [leavesAttempt, Attempt.afterUpdate, r.report_state]
  | recover =>
    refine keeps_recoverAttempt ?_ ?_
    · rintro j (hstate | hstate) <;> simp [leavesJob, hstate]
    · intro a hstate
      simp [leavesAttempt, hstate]

theorem performs_handle (state : AssignmentState) :
    (r.handle state).Performs (.updateAttempt r.attemptID) ∧
      (r.handle state).Performs (.updateExecutionJob r.job.id) := by
  have happly : handleAssignmentUpdate r.context (r.handledAt state) (r.report state) =
      applyAssignmentUpdate r.context.retry (r.handledAt state) (r.report state) := by
    rw [handleAssignmentUpdate, r.report_attempt, r.indirect]
    rfl
  unfold handle
  rw [happly]
  constructor
  · refine .bind_left (.bind_right (returns_getAttempt _) fun attempt hattempt => ?_)
    refine .bind_right (Prog.returns_true _) fun job _ => .bind_left ?_
    rw [r.report_attempt] at hattempt
    rw [← hattempt, ← Attempt.id_afterUpdate attempt (r.report state) (r.handledAt state)]
    exact Prog.performs_modify _ _
  · refine .bind_left (.bind_right (Prog.returns_true _) fun attempt _ => ?_)
    refine .bind_right (returns_getExecutionJob _) fun job hjob => ?_
    refine .bind_right (Prog.returns_true _) fun _ _ => .bind_left ?_
    rw [r.report_job] at hjob
    rw [← hjob, ← ExecutionJob.id_afterUpdate job r.context.retry attempt.startedAt
      (r.report state) (r.handledAt state)]
    exact Prog.performs_modify _ _

/-- **When a reported success is kept.** Take any interleaving, also one in which store calls fail,
in which `handleAssignmentUpdate(SUCCEEDED)` has returned `nil`. If no other component was the last
to write the job or the attempt, the success is stored; and when the dispatchers only publish, it
is stored only then. -/
theorem success_kept_iff (s : Store) (ms : List (Pool.Move Thread Err))
    (hret : (Pool.system.exec (Pool.start s r.progs) ms).progs .succeeded = .ret (.ok ())) :
    (r.LastWord (Pool.system.exec (Pool.start s r.progs) ms).log →
      r.Kept (Pool.system.exec (Pool.start s r.progs) ms).state) ∧
    (r.Publishes → (r.Kept (Pool.system.exec (Pool.start s r.progs) ms).state ↔
      r.LastWord (Pool.system.exec (Pool.start s r.progs) ms).log)) := by
  -- the records hold what their last writers leave in them
  have hjob := fun t => Pool.lastWriter_spec (s := s)
    (P := fun t o => ∃ j, o = some j ∧ r.leavesJob t j)
    (fun t => (r.keeps_progs t).mono fun _ _ _ _ h => h.job) ms (i := t)
  have hattempt := fun t => Pool.lastWriter_spec (s := s)
    (P := fun t o => ∃ a, o = some a ∧ r.leavesAttempt t a)
    (fun t => (r.keeps_progs t).mono fun _ _ _ _ h => h.attempt) ms (i := t)
  -- both records were written, by the handler of the success if by nobody else
  have hwrites : (r.progs .succeeded).Performs (.updateAttempt r.attemptID) ∧
      (r.progs .succeeded).Performs (.updateExecutionJob r.job.id) :=
    r.performs_handle .succeeded
  obtain ⟨t, ht⟩ := Pool.exists_lastWriter (w := StoreCall.writesJob r.job.id)
    (Pool.mem_log_of_performs hwrites.2 ms hret)
    (by simp [StoreCall.writesJob])
  obtain ⟨u, hu⟩ := Pool.exists_lastWriter (w := StoreCall.writesAttempt r.attemptID)
    (Pool.mem_log_of_performs hwrites.1 ms hret)
    (by simp [StoreCall.writesAttempt])
  have hsufficient : r.LastWord (Pool.system.exec (Pool.start s r.progs) ms).log →
      r.Kept (Pool.system.exec (Pool.start s r.progs) ms).state := by
    intro hlast
    rw [hlast.1 t ht] at ht
    rw [hlast.2 u hu] at hu
    exact ⟨hjob .succeeded ht, hattempt .succeeded hu⟩
  refine ⟨hsufficient, fun hpublishes => ⟨fun hkept => ⟨fun t ht => ?_, fun u hu => ?_⟩,
    hsufficient⟩⟩
  · -- a last writer other than the success handler leaves a job that has not succeeded
    obtain ⟨⟨j, hj, hstate, -⟩, -⟩ := hkept
    obtain ⟨j', hj', hleaves⟩ := hjob t ht
    obtain rfl := Option.some.inj (hj.symm.trans hj')
    cases t with
    | succeeded => rfl
    | _ => exact absurd hstate hleaves
  · obtain ⟨-, a, ha, hstate⟩ := hkept
    obtain ⟨a', ha', hleaves⟩ := hattempt u hu
    obtain rfl := Option.some.inj (ha.symm.trans ha')
    cases u with
    | succeeded => rfl
    | dispatch => exact absurd hstate (hleaves hpublishes)
    | _ => exact absurd hstate hleaves

/-! ## A lost success -/

/-- The small deployment, with the job claimed. -/
def sample : Race where
  sch := Execution.Sample.scheduler (.ok ())
  clock _ := 20
  uuid _ := "attempt-1"
  version := DomainSample.version
  job := (newExecutionJob "job" DomainSample.version [] 10).claimed .scheduling 20
  attemptID := "attempt-1"
  context := { retry := true }
  report state :=
    { hostID := "host", region := "region", attemptID := "attempt-1", jobID := "job", state }
  handledAt _ := 30
  listed :=
    { id := "attempt-1", jobID := "job", functionVersionID := "version", region := "region"
      state := .assigned, leaseExpiresAt := 1, createdAt := 1, updatedAt := 1 }
  recoveryClock _ := 100 * second
  report_state _ := rfl
  report_attempt _ := rfl
  report_job _ := rfl
  listed_attempt := rfl
  listed_job := rfl
  indirect := rfl

/-- The store of the small deployment with the claimed job. -/
def sampleStore : Store := Execution.Sample.store.setJob sample.job

/-- The given number of calls of a thread, none of which fails. -/
def calls (n : ℕ) (t : Thread) : List (Pool.Move Thread Err) := List.replicate n (.run t)

theorem success_kept_iff_sample :
    sample.Kept (Pool.system.exec (Pool.start sampleStore sample.progs)
      (calls 9 .dispatch ++ calls 4 .starting ++ calls 4 .running ++ calls 7 .succeeded ++
        calls 2 .recover)).state := by
  refine (sample.success_kept_iff sampleStore _ rfl).1 ⟨fun t ht => ?_, fun t ht => ?_⟩
  · exact (Option.some.inj ht).symm
  · exact (Option.some.inj ht).symm

/-- A reported success can be lost although no store call fails: the scheduler hands the assignment
over, the agent reports to the end, and only then `dispatchJobAttempt` writes the job it has held
since before. -/
theorem not_success_kept :
    ¬ ∀ (r : Race) (s : Store) (schedule : List Thread),
      (∀ t, ∃ result, (Pool.system.exec (Pool.start s r.progs)
        (schedule.map .run)).progs t = .ret result) →
      (Pool.system.exec (Pool.start s r.progs) (schedule.map .run)).progs .succeeded =
        .ret (.ok ()) →
      r.Kept (Pool.system.exec (Pool.start s r.progs) (schedule.map .run)).state := by
  intro h
  -- the ninth call of the dispatch is its second `updateExecutionJob`, with the job as assigned
  obtain ⟨⟨j, hj, hstate, -⟩, -⟩ := h sample sampleStore
    (List.replicate 8 .dispatch ++ List.replicate 4 .starting ++ List.replicate 4 .running ++
      List.replicate 7 .succeeded ++ List.replicate 2 .recover ++ [.dispatch])
    (by rintro (_ | _ | _ | _ | _) <;> exact ⟨_, rfl⟩) rfl
  obtain rfl := Option.some.inj hj
  cases hstate

end Race

end Lecrev

import Lecrev.Execution.System

/-!
# When terminal jobs are absorbing

No handler looks at the state of the job before it overwrites it, so a job that is over can be
moved again: by a late heartbeat, by a report about another attempt, by the recovery of an older
attempt or by a retry goroutine.
-/

namespace Lecrev

/-- The job is over. -/
def JobState.terminal (state : JobState) : Bool := state == .succeeded || state == .failed

theorem JobState.terminal_iff {state : JobState} :
    state.terminal = true ↔ state = .succeeded ∨ state = .failed := by
  simp [JobState.terminal]

theorem JobState.terminal_of_mem_claimable {state : JobState} (h : state ∈ claimable) :
    state.terminal = false := by
  simp only [claimable, List.mem_cons, List.not_mem_nil, or_false] at h
  rcases h with rfl | rfl <;> rfl

namespace Execution

/-- From `s` to `t` a job that is over keeps its state, and its result if it has succeeded. -/
def Absorbs (jobID : String) (s t : State) : Prop :=
  ∀ j, s.store.executionJobs.get jobID = some j → j.state.terminal = true →
    ∃ j', t.store.executionJobs.get jobID = some j' ∧ j'.state = j.state ∧
      (j.state = .succeeded → j'.result = j.result)

theorem Absorbs.refl (jobID : String) (s : State) : Absorbs jobID s s :=
  fun j hj _ => ⟨j, hj, rfl, fun _ => rfl⟩

theorem Absorbs.trans {jobID : String} {s t u : State} (hst : Absorbs jobID s t)
    (htu : Absorbs jobID t u) : Absorbs jobID s u := by
  intro j hj hterminal
  obtain ⟨j', hj', hstate, hresult⟩ := hst j hj hterminal
  obtain ⟨j'', hj'', hstate', hresult'⟩ := htu j' hj' (hstate ▸ hterminal)
  refine ⟨j'', hj'', hstate'.trans hstate, fun hsucceeded => ?_⟩
  exact (hresult' (hstate.trans hsucceeded)).trans (hresult hsucceeded)

theorem absorbs_iff_of_get {jobID : String} {s t : State} {j j' : ExecutionJob}
    (hj : s.store.executionJobs.get jobID = some j)
    (hj' : t.store.executionJobs.get jobID = some j') :
    Absorbs jobID s t ↔ (j.state.terminal = true →
      j'.state = j.state ∧ (j.state = .succeeded → j'.result = j.result)) := by
  constructor
  · intro h hterminal
    obtain ⟨k, hk, hstate, hresult⟩ := h j hj hterminal
    cases hj'.symm.trans hk
    exact ⟨hstate, hresult⟩
  · intro h i hi hterminal
    cases hj.symm.trans hi
    exact ⟨j', hj', h hterminal⟩

theorem absorbs_of_get {jobID : String} {s t : State}
    (h : ∀ j, s.store.executionJobs.get jobID = some j → j.state.terminal = true →
      t.store.executionJobs.get jobID = some j) : Absorbs jobID s t :=
  fun j hj hterminal => ⟨j, h j hj hterminal, rfl, fun _ => rfl⟩

theorem absorbs_rewrite_iff {jobID : String} {s t : State} {j j' : ExecutionJob}
    (hj : s.store.executionJobs.get j.id = some j)
    (hjobs : ∀ k, t.store.executionJobs.get k =
      if k = j.id then some j' else s.store.executionJobs.get k) :
    Absorbs jobID s t ↔ (j.id = jobID → j.state.terminal = true →
      j'.state = j.state ∧ (j.state = .succeeded → j'.result = j.result)) := by
  by_cases hjob : j.id = jobID
  · subst hjob
    rw [absorbs_iff_of_get hj (by rw [hjobs, if_pos rfl])]
    exact ⟨fun h _ => h, fun h => h rfl⟩
  · refine iff_of_true (absorbs_of_get fun i hi _ => ?_) fun h => absurd h hjob
    rw [hjobs, if_neg (Ne.symm hjob)]
    exact hi

/-- A report about attempt `a` agrees with the finished job `j` it names: it says nothing, or
repeats a success with the very result that is stored, or reports a failure to a job that has
failed and will not be retried. -/
def ReportAgrees (retry : Bool) (a : Attempt) (j : ExecutionJob) (now : Time)
    (msg : AssignmentUpdate) : Prop :=
  match msg.state with
  | .unspecified => True
  | .starting | .running => False
  | .succeeded => j.state = .succeeded ∧ j.result = some (reportedResult msg a.startedAt now)
  | .failed => j.state = .failed ∧ ¬ (j.hasBudget = true ∧ retry = true)

/-- The condition under which an event leaves a finished job alone. Reports must agree with it;
retry goroutines and recoveries of expired attempts may only meet a job that has failed with its
budget used up. -/
def LeavesTerminal (jobID : String) (s : State) : Event → Prop
  | .update c now msg => msg.jobID = jobID → ∀ a j, Reports c msg s.store a j →
      j.state.terminal = true → ReportAgrees c.retry a j now msg
  | .retry _ retried => retried = jobID → ∀ j, s.store.executionJobs.get jobID = some j →
      j.state.terminal = true → j.state = .failed ∧ j.hasBudget = false
  | .recover clock attempt => attempt.jobID = jobID → ∀ a j, Recovers clock attempt s.store a j →
      j.state.terminal = true → j.state = .failed ∧ j.hasBudget = false
  | _ => True

section Steps

variable {jobID : String} {s : State}

/-- Other events keep a terminal job terminal. -/
theorem absorbs_of_effect {e : Event} {t : State} (h : Effect s.store e t.store)
    (hupdate : ∀ c now msg, e ≠ .update c now msg) (hretry : ∀ clock k, e ≠ .retry clock k)
    (hrecover : ∀ clock attempt, e ≠ .recover clock attempt) : Absorbs jobID s t := by
  refine absorbs_of_get fun j hj hterminal => ?_
  have hid : j.id = jobID := Store.jobID_of_get hj
  generalize t.store = s' at h
  cases h with
  | same hsame => exact (hsame.jobs jobID).trans hj
  | @created _ _ id _ _ hfresh =>
    have hne : jobID ≠ id := by
      rintro rfl
      simp [hfresh] at hj
    simpa [newExecutionJob, hne] using hj
  | scheduled job hfresh hstored hclaim hscheduled =>
    have hne : jobID ≠ job.id := by
      rintro rfl
      cases hstored.symm.trans hj
      simp [JobState.terminal_of_mem_claimable hclaim] at hterminal
    cases hscheduled with
    | abandoned error now hsame =>
      rw [hsame.jobs]
      simpa [ExecutionJob.abandoned, hne] using hj
    | offered hbudget taken hoffered => exact (hoffered.otherJobs jobID hne).trans hj
  | reported => exact absurd rfl (hupdate _ _ _)
  | retried => exact absurd rfl (hretry _ _)
  | recovered => exact absurd rfl (hrecover _ _)
  | requeued =>
    have hstate : j.state ≠ .scheduling := by
      intro hscheduling
      simp [hscheduling, JobState.terminal] at hterminal
    simp [hj, requeueIfStale, hstate]

theorem afterUpdate_keeps_iff {j : ExecutionJob} (hterminal : j.state.terminal = true)
    (retry : Bool) (a : Attempt) (now : Time) (msg : AssignmentUpdate) :
    ((j.afterUpdate retry a.startedAt msg now).state = j.state ∧
      (j.state = .succeeded → (j.afterUpdate retry a.startedAt msg now).result = j.result)) ↔
      ReportAgrees retry a j now msg := by
  unfold ExecutionJob.afterUpdate ReportAgrees
  obtain hstate | hstate := JobState.terminal_iff.mp hterminal
  · cases msg.state with
    | unspecified | starting | running => simp [hstate]
    | succeeded => simp [hstate, @eq_comm _ (some _)]
    | failed =>
      simp only [hstate, ExecutionJob.stateAfterFailure]
      split_ifs <;> simp
  · cases msg.state with
    | unspecified | starting | running | succeeded => simp [hstate]
    | failed => simp [hstate, ExecutionJob.stateAfterFailure]

theorem absorbs_update_iff (c : UpdateContext) (now : Time) (msg : AssignmentUpdate) :
    Absorbs jobID s (step s (.update c now msg)) ↔ LeavesTerminal jobID s (.update c now msg) := by
  by_cases hreports : ∃ a j, Reports c msg s.store a j
  swap
  · push Not at hreports
    refine iff_of_true (absorbs_of_get fun j hj _ => ?_) fun _ a j h => absurd h (hreports a j)
    simpa only [step, run_handleAssignmentUpdate_of_not hreports] using hj
  obtain ⟨a, j, hreports⟩ := hreports
  have hid : j.id = msg.jobID := Store.jobID_of_get hreports.job
  have hjobs : ∀ k, (step s (.update c now msg)).store.executionJobs.get k =
      if k = j.id then some (j.afterUpdate c.retry a.startedAt msg now)
      else s.store.executionJobs.get k := by
    intro k
    rw [step, (hreports.sameView now).jobs, Store.getJob_setJob, ExecutionJob.id_afterUpdate,
      Store.executionJobs_setAttempt]
  rw [absorbs_rewrite_iff (hid ▸ hreports.job) hjobs, hid]
  refine forall_congr' fun _ => ⟨fun h a' j' h' hterminal => ?_, fun h hterminal => ?_⟩
  · cases hreports.attempt.symm.trans h'.attempt
    cases hreports.job.symm.trans h'.job
    exact (afterUpdate_keeps_iff hterminal _ _ _ _).mp (h hterminal)
  · exact (afterUpdate_keeps_iff hterminal _ _ _ _).mpr (h a j hreports hterminal)

theorem requeue_keeps_iff {j j' : ExecutionJob} (hterminal : j.state.terminal = true)
    (hstate : j'.state = if j.hasBudget then .retrying else .failed)
    (hresult : j'.result = j.result) :
    (j'.state = j.state ∧ (j.state = .succeeded → j'.result = j.result)) ↔
      j.state = .failed ∧ j.hasBudget = false := by
  rw [hstate, hresult]
  obtain hj | hj := JobState.terminal_iff.mp hterminal <;> cases j.hasBudget <;> simp [hj]

theorem absorbs_retry_iff (clock : ℕ → Time) (retried : String) :
    Absorbs jobID s (step s (.retry clock retried)) ↔
      LeavesTerminal jobID s (.retry clock retried) := by
  cases hj : s.store.executionJobs.get retried with
  | none =>
    refine iff_of_true (absorbs_of_get fun j hj' _ => ?_) fun h j hj' => ?_
    · simpa only [step, run_retryGoroutine_of_none hj] using hj'
    · subst h
      simp [hj] at hj'
  | some j =>
    have hid : j.id = retried := Store.jobID_of_get hj
    have hjobs : ∀ k, (step s (.retry clock retried)).store.executionJobs.get k =
        if k = j.id then some (j.afterRetry clock) else s.store.executionJobs.get k := by
      intro k
      rw [step, run_retryGoroutine hj, Store.getJob_setJob, ExecutionJob.id_afterRetry]
    rw [absorbs_rewrite_iff (hid ▸ hj) hjobs, hid]
    refine forall_congr' fun hjob => ⟨fun h j' hj' hterminal => ?_, fun h hterminal => ?_⟩
    · subst hjob
      cases hj.symm.trans hj'
      exact (requeue_keeps_iff hterminal (j.state_afterRetry clock)
        (j.result_afterRetry clock)).mp (h hterminal)
    · exact (requeue_keeps_iff hterminal (j.state_afterRetry clock)
        (j.result_afterRetry clock)).mpr (h j (hjob ▸ hj) hterminal)

theorem absorbs_recover_iff (clock : ℕ → Time) (attempt : Attempt) :
    Absorbs jobID s (step s (.recover clock attempt)) ↔
      LeavesTerminal jobID s (.recover clock attempt) := by
  by_cases hrecovers : ∃ a j, Recovers clock attempt s.store a j
  swap
  · push Not at hrecovers
    refine iff_of_true (absorbs_of_get fun j hj _ => ?_) fun _ a j h => absurd h (hrecovers a j)
    simpa only [step, run_recoverAttempt_of_not hrecovers] using hj
  obtain ⟨a, j, hrecovers⟩ := hrecovers
  have hid : j.id = attempt.jobID := Store.jobID_of_get hrecovers.job
  have hjobs : ∀ k, (step s (.recover clock attempt)).store.executionJobs.get k =
      if k = j.id then some (j.recovered clock) else s.store.executionJobs.get k := by
    intro k
    rw [step, hrecovers.sameView.jobs, Store.getJob_setJob, ExecutionJob.id_recovered,
      Store.executionJobs_setAttempt]
  rw [absorbs_rewrite_iff (hid ▸ hrecovers.job) hjobs, hid]
  refine forall_congr' fun _ => ⟨fun h a' j' h' hterminal => ?_, fun h hterminal => ?_⟩
  · cases hrecovers.job.symm.trans h'.job
    exact (requeue_keeps_iff hterminal (j.state_recovered clock)
      (j.result_recovered clock)).mp (h hterminal)
  · exact (requeue_keeps_iff hterminal (j.state_recovered clock)
      (j.result_recovered clock)).mpr (h a j hrecovers hterminal)

/-- **One event.** An enabled event leaves a finished job alone exactly when it meets the
condition. -/
theorem absorbs_step_iff {e : Event} (he : Enabled s e) :
    Absorbs jobID s (step s e) ↔ LeavesTerminal jobID s e := by
  cases e with
  | update c now msg => exact absorbs_update_iff c now msg
  | retry clock retried => exact absorbs_retry_iff clock retried
  | recover clock attempt => exact absorbs_recover_iff clock attempt
  | _ =>
    exact iff_of_true (absorbs_of_effect (effect_step he) (by simp) (by simp) (by simp)) trivial

end Steps

/-- **When terminal jobs are absorbing.** In a run, a job that is over keeps its state from then
on, and a job that has succeeded its result, exactly when every event meets the condition. -/
theorem terminal_absorbing_iff (jobID : String) {s : State} {es : List Event}
    (hruns : system.Runs s es) :
    system.Ordered (Absorbs jobID) s es ↔ system.EveryStep (LeavesTerminal jobID) s es := by
  rw [← Transition.System.everyStep_iff_ordered (Absorbs.refl jobID) fun _ _ _ => Absorbs.trans]
  exact hruns.congr fun t e he => absorbs_step_iff he

/-- The events of a job that succeeds. -/
def Sample.finishing : List Event :=
  [schedule (.ok ()) 20 "attempt-1", report 30 "attempt-1" .starting,
    report 40 "attempt-1" .succeeded]

/-- The report of the success may arrive a second time. -/
theorem terminal_absorbing_iff_sample :
    system.Ordered (Absorbs "job") (step Sample.start Sample.enqueue)
      (Sample.finishing ++ [Sample.report 40 "attempt-1" .succeeded]) := by
  have hruns : system.Runs (step Sample.start Sample.enqueue)
      (Sample.finishing ++ [Sample.report 40 "attempt-1" .succeeded]) :=
    ⟨fun _ => rfl, trivial, trivial, trivial, trivial⟩
  refine (terminal_absorbing_iff "job" hruns).mpr ?_
  refine ⟨trivial, fun _ a j h hterminal => ?_, fun _ a j h hterminal => ?_,
    fun _ a j h hterminal => ?_, trivial⟩
  · cases h.job
    cases hterminal
  · cases h.job
    cases hterminal
  · cases h.attempt
    cases h.job
    exact ⟨rfl, rfl⟩

/-- Terminal jobs are not absorbing, even if every agent sends its reports once and in order, each
about an attempt that was accepted for the job, and only heartbeats are overtaken: a heartbeat
sent before the success and delivered after it sets the finished job running. -/
theorem not_terminal_absorbing :
    ¬ ∀ (jobID : String) (s₀ : State) (es : List Event) (sch : Scheduler) (now : Time)
        (version : FunctionVersion) (payload : Bytes), Initial s₀ →
      system.Runs s₀ (.enqueue sch now jobID version payload :: es) →
      system.EveryStep Dispatched (step s₀ (.enqueue sch now jobID version payload)) es →
      (∀ attemptID, inOrder ((reportsOf attemptID es).filter (· != .running)) = true) →
      system.Ordered (Absorbs jobID) (step s₀ (.enqueue sch now jobID version payload)) es := by
  intro h
  have hordered := h "job" Sample.start
    (Sample.finishing ++ [Sample.report 50 "attempt-1" .running])
    (Sample.scheduler (.ok ())) 10 DomainSample.version [] Sample.initial_start
    ⟨rfl, fun _ => rfl, trivial, trivial, trivial, trivial⟩
    ⟨trivial, ⟨_, .head _, rfl, rfl⟩, ⟨_, .head _, rfl, rfl⟩, ⟨_, .head _, rfl, rfl⟩, trivial⟩
    (fun attemptID => by
      by_cases hid : "attempt-1" = attemptID <;>
        simp [reportsOf, Sample.finishing, Sample.schedule, Sample.report, hid, inOrder,
          AssignmentState.terminal])
  obtain ⟨j', hj', hstate, -⟩ := hordered Sample.finishing
    [Sample.report 50 "attempt-1" .running] [] rfl _ rfl rfl
  cases hj'
  cases hstate

end Execution

end Lecrev

import Lecrev.Execution.System

/-!
# The retry budget

Along every run of the execution path the stored attempt count of a job is the number of
assignments of the job that a dispatcher accepted, and it stays within the budget of the job:
`MaxRetries + 1`. Reports, recoveries and retries never touch the count, and neither does an
attempt that is refused.
-/

namespace Lecrev

/-- The number of accepted assignments of a job. -/
def Store.acceptedOf (s : Store) (jobID : String) : ℕ :=
  s.accepted.countP (·.jobID == jobID)

/-- What the budget depends on in a job: the attempts counted and the retries allowed. -/
def ExecutionJob.budget (job : ExecutionJob) : ℤ × ℤ := (job.attemptCount, job.maxRetries)

namespace Execution

/-- The budgets of all jobs and the history are unchanged. -/
structure SameBudgets (s s' : Store) : Prop where
  jobs : ∀ k, (s'.executionJobs.get k).map (·.budget) = (s.executionJobs.get k).map (·.budget)
  accepted : s'.accepted = s.accepted

theorem sameBudgets_of_setJob {s t s' : Store} {k : String} {j j' : ExecutionJob}
    (hsame : (t.setJob j').SameView s') (hjobs : t.executionJobs = s.executionJobs)
    (haccepted : t.accepted = s.accepted) (hj : s.executionJobs.get k = some j)
    (hid : j'.id = j.id) (hbudget : j'.budget = j.budget) : SameBudgets s s' where
  jobs k' := by
    have hk : j'.id = k := hid.trans (Store.jobID_of_get hj)
    by_cases hk' : k' = k
    · subst hk'
      simp [hsame.jobs, hk, hj, hbudget]
    · simp [hsame.jobs, hk, hk', hjobs]
  accepted := hsame.accepted.trans haccepted

theorem budget_afterUpdate (j : ExecutionJob) (retry : Bool) (startedAt : Time)
    (msg : AssignmentUpdate) (now : Time) :
    (j.afterUpdate retry startedAt msg now).budget = j.budget := by
  unfold ExecutionJob.afterUpdate
  split <;> rfl

theorem budget_afterRetry (j : ExecutionJob) (clock : ℕ → Time) :
    (j.afterRetry clock).budget = j.budget := by
  unfold ExecutionJob.afterRetry
  split_ifs <;> rfl

theorem budget_recovered (j : ExecutionJob) (clock : ℕ → Time) :
    (j.recovered clock).budget = j.budget := by
  unfold ExecutionJob.recovered
  split_ifs <;> rfl

theorem budget_requeueIfStale (fromState toState : JobState) (staleBefore : ℤ) (now : Time)
    (error : String) (j : ExecutionJob) :
    (requeueIfStale fromState toState staleBefore now error j).budget = j.budget := by
  unfold requeueIfStale
  split_ifs <;> rfl

/-- An effect keeps the budgets, adds a job or spends one attempt. -/
theorem Effect.budgets {s s' : Store} {e : Event} (h : Effect s e s') :
    SameBudgets s s' ∨
    (∃ job, s.executionJobs.get job.id = none ∧ job.attemptCount = 0 ∧ s' = s.setJob job) ∨
    ∃ job j' assignment, s.executionJobs.get job.id = some job ∧ job.hasBudget = true ∧
      assignment.jobID = job.id ∧
      (∀ k, k ≠ job.id → s'.executionJobs.get k = s.executionJobs.get k) ∧
      s'.executionJobs.get job.id = some j' ∧ j'.maxRetries = job.maxRetries ∧
      j'.attemptCount = job.attemptCount + 1 ∧ s'.accepted = assignment :: s.accepted := by
  cases h with
  | same hsame => exact .inl ⟨fun k => by rw [hsame.jobs], hsame.accepted⟩
  | created hfresh => exact .inr (.inl ⟨_, hfresh, rfl, rfl⟩)
  | scheduled job hfresh hstored hclaim hscheduled =>
    cases hscheduled with
    | abandoned error now hsame =>
      exact .inl (sameBudgets_of_setJob hsame rfl rfl hstored rfl rfl)
    | offered hbudget taken hoffered =>
      obtain ⟨j', hj', hmax, hnone, hsome⟩ := hoffered.own
      cases taken with
      | none =>
        -- no region took the job: `scheduleNext` requeues it with the count it had
        refine .inl ⟨fun k => ?_, hoffered.accepted⟩
        by_cases hk : k = job.id
        · subst hk
          simp [hj', hstored, ExecutionJob.budget, hmax, (hnone rfl).2]
        · rw [hoffered.otherJobs k hk]
      | some assignment =>
        exact .inr (.inr ⟨_, j', assignment, hstored, hbudget, (hoffered.live _ rfl).1,
          hoffered.otherJobs, hj', hmax, (hsome nofun).2, hoffered.accepted⟩)
  | reported a j hreports hsame =>
    exact .inl (sameBudgets_of_setJob hsame rfl rfl hreports.job (by simp)
      (budget_afterUpdate _ _ _ _ _))
  | retried j hstored =>
    exact .inl (sameBudgets_of_setJob (.refl _) rfl rfl hstored (by simp) (budget_afterRetry _ _))
  | recovered a j hrecovers _ hsame =>
    exact .inl (sameBudgets_of_setJob hsame rfl rfl hrecovers.job (by simp)
      (budget_recovered _ _))
  | requeued =>
    refine .inl ⟨fun k => ?_, rfl⟩
    simp [Function.comp_def, budget_requeueIfStale]

/-- The counting invariant: only stored jobs have accepted assignments, and the attempt count of a
stored job is the number of its accepted assignments, within the budget. -/
structure Counted (s : Store) : Prop where
  known : ∀ k, s.executionJobs.get k = none → s.acceptedOf k = 0
  count : ∀ k j, s.executionJobs.get k = some j → j.attemptCount = s.acceptedOf k
  bound : ∀ k j, s.executionJobs.get k = some j → 0 ≤ j.maxRetries →
    j.attemptCount ≤ j.maxRetries + 1

theorem SameBudgets.counted {s s' : Store} (h : SameBudgets s s') (hs : Counted s) :
    Counted s' := by
  have hof : ∀ k, s'.acceptedOf k = s.acceptedOf k := by
    intro k
    rw [Store.acceptedOf, h.accepted, Store.acceptedOf]
  -- a job of `s'` has the budget of the job of `s` with its identifier
  have hback : ∀ k j', s'.executionJobs.get k = some j' → ∃ j, s.executionJobs.get k = some j ∧
      j'.attemptCount = j.attemptCount ∧ j'.maxRetries = j.maxRetries := by
    intro k j' hj'
    have hk := h.jobs k
    rw [hj', Option.map_some] at hk
    obtain ⟨j, hj, hbudget⟩ := Option.map_eq_some_iff.mp hk.symm
    exact ⟨j, hj, (congrArg Prod.fst hbudget).symm, (congrArg Prod.snd hbudget).symm⟩
  refine ⟨fun k hk => ?_, fun k j' hj' => ?_, fun k j' hj' hm => ?_⟩
  · have := h.jobs k
    rw [hk, Option.map_none] at this
    rw [hof]
    exact hs.known k (Option.map_eq_none_iff.mp this.symm)
  · obtain ⟨j, hj, hcount, -⟩ := hback k j' hj'
    rw [hcount, hof]
    exact hs.count k j hj
  · obtain ⟨j, hj, hcount, hmax⟩ := hback k j' hj'
    rw [hmax] at hm ⊢
    rw [hcount]
    exact hs.bound k j hj hm

/-- Every effect keeps the count of accepted attempts. -/
theorem Effect.counted {s s' : Store} {e : Event} (h : Effect s e s') (hs : Counted s) :
    Counted s' := by
  obtain hsame | ⟨job, hfresh, hzero, rfl⟩ |
    ⟨job, j', assignment, hstored, hbudget, howner, hothers, hj', hmax, hcount, haccepted⟩ :=
    h.budgets
  · exact hsame.counted hs
  · -- a new job has no accepted assignments and counts none
    have hof : ∀ k, (s.setJob job).acceptedOf k = s.acceptedOf k := fun _ => rfl
    refine ⟨fun k hk => ?_, fun k j hj => ?_, fun k j hj hm => ?_⟩
    · rw [Store.getJob_setJob] at hk
      split_ifs at hk with hid
      exact hs.known k hk
    · rw [Store.getJob_setJob] at hj
      split_ifs at hj with hid
      · cases hj
        rw [hzero, hof, hid, hs.known _ hfresh]
        rfl
      · exact hs.count k j hj
    · rw [Store.getJob_setJob] at hj
      split_ifs at hj with hid
      · cases hj
        omega
      · exact hs.bound k j hj hm
  · -- the history and the count of the offered job grow together
    have hof : ∀ k, s'.acceptedOf k = s.acceptedOf k + if k = job.id then 1 else 0 := by
      intro k
      rw [Store.acceptedOf, haccepted, List.countP_cons, howner, Store.acceptedOf]
      simp only [beq_iff_eq, @eq_comm _ job.id]
    refine ⟨fun k hk => ?_, fun k j hj => ?_, fun k j hj hm => ?_⟩
    · have hne : k ≠ job.id := by
        rintro rfl
        simp [hj'] at hk
      rw [hof, if_neg hne, hs.known k ((hothers k hne).symm.trans hk)]
    · by_cases hid : k = job.id
      · subst hid
        cases hj'.symm.trans hj
        rw [hof, if_pos rfl, hcount, hs.count _ _ hstored]
        rfl
      · rw [hof, if_neg hid, hs.count k j ((hothers k hid).symm.trans hj)]
        rfl
    · by_cases hid : k = job.id
      · subst hid
        cases hj'.symm.trans hj
        -- `scheduleNext` checks the budget before it offers, so the count was within it
        simp only [ExecutionJob.hasBudget, decide_eq_true_eq] at hbudget
        omega
      · exact hs.bound k j ((hothers k hid).symm.trans hj) hm

theorem Effect.maxRetries {s s' : Store} {e : Event} (h : Effect s e s') {k : String}
    {j : ExecutionJob} (hj : s.executionJobs.get k = some j) :
    ∃ j', s'.executionJobs.get k = some j' ∧ j'.maxRetries = j.maxRetries := by
  obtain hsame | ⟨job, hfresh, -, rfl⟩ | ⟨job, j', -, hstored, -, -, hothers, hj', hmax, -, -⟩ :=
    h.budgets
  · have hk := hsame.jobs k
    rw [hj, Option.map_some] at hk
    obtain ⟨j', hj', hbudget⟩ := Option.map_eq_some_iff.mp hk
    exact ⟨j', hj', congrArg Prod.snd hbudget⟩
  · refine ⟨j, ?_, rfl⟩
    have hne : k ≠ job.id := by
      rintro rfl
      simp [hfresh] at hj
    simp [hne, hj]
  · by_cases hid : k = job.id
    · subst hid
      cases hstored.symm.trans hj
      exact ⟨j', hj', hmax⟩
    · exact ⟨j, (hothers k hid).trans hj, rfl⟩

/-- Every run keeps the count. -/
theorem counted_exec {s : State} (hs : Initial s) {es : List Event} (hruns : system.Runs s es) :
    Counted (system.exec s es).store := by
  refine hruns.invariant (P := fun t => Counted t.store) ?_ fun t e he ht =>
    (effect_step he).counted ht
  have hnone : ∀ k, s.store.acceptedOf k = 0 := by simp [Store.acceptedOf, hs.accepted]
  exact ⟨fun k _ => hnone k, fun k j hj => by simp [hs.jobs] at hj,
    fun k j hj _ => by simp [hs.jobs] at hj⟩

theorem maxRetries_exec {s : State} {es : List Event} (hruns : system.Runs s es) {k : String}
    {j : ExecutionJob} (hj : s.store.executionJobs.get k = some j) :
    ∃ j', (system.exec s es).store.executionJobs.get k = some j' ∧
      j'.maxRetries = j.maxRetries := by
  refine hruns.invariant (P := fun t => ∃ j', t.store.executionJobs.get k = some j' ∧
    j'.maxRetries = j.maxRetries) ⟨j, hj, rfl⟩ ?_
  rintro t e he ⟨j', hj', hmax⟩
  obtain ⟨j'', hj'', hmax'⟩ := (effect_step he).maxRetries hj'
  exact ⟨j'', hj'', hmax'.trans hmax⟩

/-- **Retry budget.** After any run that created a job with allowance `m ≥ 0`, the stored attempt
count is the number of assignments of the job that a dispatcher accepted, which is at most
`m + 1`; and an event that accepts no assignment of the job leaves the count alone. -/
theorem attemptCount_eq_acceptedOf {s : State} (hs : Initial s) {before after : List Event}
    {sch : Scheduler} {now : Time} {id : String} {version : FunctionVersion} {payload : Bytes}
    {job : ExecutionJob}
    (hruns : system.Runs s (before ++ .enqueue sch now id version payload :: after))
    (hcreated : ((enqueueExecution sch now id version payload).run
      (system.exec s before).store).1 = .ok job)
    (hm : 0 ≤ version.maxRetries) :
    let t := system.exec s (before ++ .enqueue sch now id version payload :: after)
    ∃ j, t.store.executionJobs.get id = some j ∧ j.maxRetries = version.maxRetries ∧
      j.attemptCount = t.store.acceptedOf id ∧
      (t.store.acceptedOf id : ℤ) ≤ version.maxRetries + 1 ∧
      ∀ e, Enabled t e → (step t e).store.acceptedOf id = t.store.acceptedOf id →
        ∃ j', (step t e).store.executionJobs.get id = some j' ∧
          j'.attemptCount = j.attemptCount := by
  intro t
  have hcounted : Counted t.store := counted_exec hs hruns
  -- the job is stored by the enqueueing step and from then on
  obtain ⟨j, hj, hmax⟩ : ∃ j, t.store.executionJobs.get id = some j ∧
      j.maxRetries = version.maxRetries := by
    have hafter := ((system.everyStep_append _ _ _ _).mp hruns).2.2
    obtain ⟨e, hrun⟩ | hrun :=
      enqueueExecution_cases sch now id version payload (system.exec s before).store
    · rw [hrun] at hcreated
      cases hcreated
    · have hstored : (system.step (system.exec s before)
          (.enqueue sch now id version payload)).store.executionJobs.get id =
          some (newExecutionJob id version payload now) := by
        change ((enqueueExecution sch now id version payload).run
          (system.exec s before).store).2.executionJobs.get id = _
        rw [hrun, Store.getJob_setJob]
        exact if_pos rfl
      have hexec : t = system.exec (system.step (system.exec s before)
          (.enqueue sch now id version payload)) after := system.exec_append _ _ _
      rw [hexec]
      exact maxRetries_exec hafter hstored
  have hcount := hcounted.count id j hj
  refine ⟨j, hj, hmax, hcount, ?_, fun e he hsame => ?_⟩
  · rw [← hcount, ← hmax]
    exact hcounted.bound id j hj (hmax ▸ hm)
  · obtain ⟨j', hj', -⟩ := (effect_step he).maxRetries hj
    exact ⟨j', hj', by rw [((effect_step he).counted hcounted).count id j' hj', hsame, hcount]⟩

theorem attemptCount_eq_acceptedOf_sample :
    ∃ j, (system.exec Sample.start ([] ++ Sample.enqueue ::
        [Sample.schedule (.error (.other "bus down")) 20 "attempt-1",
          Sample.schedule (.ok ()) 30 "attempt-2"])).store.executionJobs.get "job" = some j ∧
      j.attemptCount = 1 := by
  have hruns : system.Runs Sample.start ([] ++ Sample.enqueue ::
      [Sample.schedule (.error (.other "bus down")) 20 "attempt-1",
        Sample.schedule (.ok ()) 30 "attempt-2"]) :=
    ⟨rfl, fun _ => rfl, fun _ => rfl, trivial⟩
  have hcreated : ((enqueueExecution (Sample.scheduler (.ok ())) 10 "job" DomainSample.version
      []).run (system.exec Sample.start []).store).1 =
      .ok (newExecutionJob "job" DomainSample.version [] 10) := rfl
  obtain ⟨j, hj, -, hcount, -, -⟩ :=
    attemptCount_eq_acceptedOf Sample.initial_start hruns hcreated (by decide)
  exact ⟨j, hj, hcount⟩

end Execution

end Lecrev

import Lecrev.Scheduler.Ranking

/-!
# What scheduling leaves behind

The effect of one `scheduleNext` on the jobs, the attempts and the accepted assignments, whatever
the dispatchers answer.
-/

namespace Lecrev

/-! ## Ranking only reads -/

section Ranking

variable {I : Store → Prop} {G : StoreCall → Store → Store → Prop}

theorem keeps_rankDispatchers (s : Scheduler) (now : String → Time) (version : FunctionVersion)
    (hG : ∀ l t, (∀ k, l.writesJob k = false) → (∀ k, l.writesAttempt k = false) → I t →
      G l t t) : (rankDispatchers s now version).Keeps I G := by
  have hindex : (artifactRegionIndex version.artifactDigest).Keeps I G := by
    unfold artifactRegionIndex
    split_ifs
    · exact Prog.keeps_pure _
    · refine .bind_of
        (Prog.keeps_query fun t => hG _ t (fun _ => rfl) fun _ => rfl).result fun r => ?_
      split <;> trivial
  have hregion : ∀ now artifactRegions region dispatcher,
      (rankRegion s now artifactRegions region dispatcher).Keeps I G := by
    intro now artifactRegions region dispatcher
    refine .bind_of (Prog.keeps_query fun t => hG _ t (fun _ => rfl) fun _ => rfl) fun backlog => ?_
    refine .bind_of
      (Prog.keeps_query fun t => hG _ t (fun _ => rfl) fun _ => rfl).result fun r => ?_
    split <;> trivial
  have hregions : ∀ artifactRegions regions,
      (rankRegions s now artifactRegions regions).Keeps I G := by
    intro artifactRegions regions
    induction regions with
    | nil => exact Prog.keeps_pure _
    | cons region regions ih =>
      unfold rankRegions
      split
      · exact ih
      · exact .bind_of (hregion _ _ _ _) fun _ => .bind_of ih fun _ => Prog.keeps_pure _
  refine .bind_of hindex fun artifactRegions => .bind_of (hregions _ _) fun candidates => ?_
  split_ifs <;> trivial

theorem returns_rankDispatchers (sch : Scheduler) (now : String → Time)
    (version : FunctionVersion) :
    (rankDispatchers sch now version).Returns fun candidates =>
      ∀ candidate ∈ candidates, ∃ region, sch.dispatchers region = some candidate.dispatcher := by
  have hregion : ∀ now artifactRegions region dispatcher,
      (rankRegion sch now artifactRegions region dispatcher).Returns
        fun candidate => candidate.dispatcher = dispatcher := by
    intro now artifactRegions region dispatcher
    refine (Prog.returns_true _).bind fun backlog _ => ?_
    refine (Prog.returns_true _).bind fun r _ => ?_
    split
    · rfl
    · rfl
    · trivial
  have hregions : ∀ artifactRegions regions,
      (rankRegions sch now artifactRegions regions).Returns fun candidates =>
        ∀ candidate ∈ candidates, ∃ region, sch.dispatchers region = some candidate.dispatcher := by
    intro artifactRegions regions
    induction regions with
    | nil => exact fun candidate hmem => nomatch hmem
    | cons region regions ih =>
      unfold rankRegions
      split
      · exact ih
      · next dispatcher hdispatcher =>
        refine (hregion _ _ _ _).bind fun candidate hcandidate => ?_
        refine ih.bind fun candidates hcandidates other hmem => ?_
        obtain rfl | hmem := List.mem_cons.mp hmem
        · exact ⟨region, hcandidate ▸ hdispatcher⟩
        · exact hcandidates other hmem
  refine (Prog.returns_true _).bind fun artifactRegions _ => ?_
  refine (hregions _ _).bind fun candidates hcandidates => ?_
  split_ifs
  · trivial
  · exact fun candidate hmem => hcandidates candidate ((List.mem_insertionSort _).mp hmem)

end Ranking

/-! ## The calls of a dispatch -/

section Calls

variable {I : Store → Prop} {G : StoreCall → Store → Store → Prop} {uuid : ℕ → String}
  {jobID : String}

/-- The calls that the scheduler makes itself while it dispatches the job keep an invariant and
respect a relation: it reads, it writes the job as assigned or queued, and it writes attempts with
identifiers of its own as assigned or failed. -/
structure DispatchWrites (I : Store → Prop) (G : StoreCall → Store → Store → Prop)
    (uuid : ℕ → String) (jobID : String) : Prop where
  read : ∀ l t, (∀ k, l.writesJob k = false) → (∀ k, l.writesAttempt k = false) → I t → G l t t
  job : ∀ j : ExecutionJob, j.id = jobID → j.state = .assigned ∨ j.state = .queued →
    (updateExecutionJob j).Keeps I G
  offered : ∀ n (a : Attempt), a.id = uuid n → a.state = .assigned → (putAttempt a).Keeps I G
  refused : ∀ n (a : Attempt), a.id = uuid n → a.state = .failed → (updateAttempt a).Keeps I G
  accepted : ∀ assignment, (Prog.modify .accept fun s =>
    { s with accepted := assignment :: s.accepted } : StoreM Unit).Keeps I G

theorem DispatchWrites.keeps_offerCandidates {clock : ℕ → Time} {version : FunctionVersion}
    {artifactMeta : Artifact} {now : Time} (h : DispatchWrites I G uuid jobID)
    (candidates : List Candidate)
    (hdispatch : ∀ candidate ∈ candidates, ∀ n a, a.attemptID = uuid n →
      (candidate.dispatcher.enqueueExecution a).Keeps I G)
    (i : ℕ) (dispatchErrors : List String) (job : ExecutionJob) (hjob : job.id = jobID) :
    (offerCandidates clock uuid version artifactMeta now i candidates dispatchErrors job).Keeps
      I G := by
  induction candidates generalizing i dispatchErrors job with
  | nil =>
    refine .bind_of (h.job (job.requeued _ _) hjob (.inr rfl)).result fun _ => ?_
    exact Prog.keeps_throw _
  | cons candidate candidates ih =>
    have haccept (a : Assignment) (ha : a.attemptID = uuid i) :
        (enqueueAssignment candidate.dispatcher a).Keeps I G :=
      .bind_of (hdispatch candidate List.mem_cons_self i a ha) fun _ => h.accepted a
    have hrest := ih fun candidate hmem => hdispatch candidate (List.mem_cons_of_mem _ hmem)
    have hrequeue := h.job ((job.offered (uuid i) candidate.region now).requeued "" (clock i)) hjob
      (.inr rfl)
    refine .bind_of (h.offered i _ rfl rfl) fun _ => ?_
    refine .bind_of (h.job _ hjob (.inl rfl)) fun _ => ?_
    refine .bind_of (haccept _ rfl).result fun answer => ?_
    split
    · -- accepted: the job is written once more, now with the attempt counted
      exact h.job _ hjob (.inl rfl)
    · refine .bind_of (h.refused i _ rfl rfl).result fun _ => ?_
      split_ifs
      · -- a region without capacity ends the loop
        exact .bind_of hrequeue.result fun _ => Prog.keeps_throw _
      · -- after any other error the next candidate is tried
        exact hrest _ _ _ hjob

theorem DispatchWrites.keeps_dispatchJobAttempt {sch : Scheduler} {clock : ℕ → Time}
    {version : FunctionVersion} {job : ExecutionJob} (h : DispatchWrites I G uuid job.id)
    (hdispatch : ∀ region dispatcher, sch.dispatchers region = some dispatcher → ∀ n a,
      a.attemptID = uuid n → (dispatcher.enqueueExecution a).Keeps I G) :
    (dispatchJobAttempt sch clock uuid version job).Keeps I G := by
  have hrequeue (error : String) (now : Time) (e : Err) : (do
      let _ ← (updateExecutionJob (job.requeued error now)).result
      .throw e : StoreM Unit).Keeps I G :=
    .bind_of (h.job (job.requeued error now) rfl (.inr rfl)).result fun _ => Prog.keeps_throw e
  have hartifact : (getArtifact version.artifactDigest).Keeps I G :=
    Prog.keeps_query fun t ht => h.read _ t (fun _ => rfl) (fun _ => rfl) ht
  refine .bind_of hartifact.result fun found => ?_
  split
  · exact hrequeue _ _ _
  · -- ranking reads; the candidates then carry dispatchers of the scheduler
    have hrank := keeps_rankDispatchers sch (fun _ => clock 1) version h.read
    refine hrank.result.bind (returns_rankDispatchers sch (fun _ => clock 1) version).result
      fun ranked hranked => ?_
    split
    · exact hrequeue _ _ _
    · next candidates =>
      refine h.keeps_offerCandidates candidates (fun candidate hmem n a ha => ?_) _ _ _ rfl
      obtain ⟨region, hregion⟩ := hranked candidates rfl candidate hmem
      exact hdispatch region _ hregion n a ha

end Calls

/-! ## Offering a job -/

/-- What offering `job` to candidate regions makes of the store `s`. The attempts made on the way
are `uuid i`, `uuid (i + 1)` and so on; `taken` is the assignment that was accepted, if any. -/
structure Offered (uuid : ℕ → String) (i : ℕ) (job : ExecutionJob) (taken : Option Assignment)
    (s s' : Store) : Prop where
  /-- Other jobs are untouched. -/
  otherJobs : ∀ k, k ≠ job.id → s'.executionJobs.get k = s.executionJobs.get k
  /-- The job is assigned and counts an accepted attempt, or is back in the queue. -/
  own : ∃ j', s'.executionJobs.get job.id = some j' ∧ j'.maxRetries = job.maxRetries ∧
    (taken = none → j'.state = .queued ∧ j'.attemptCount = job.attemptCount) ∧
    (taken ≠ none → j'.state = .assigned ∧ j'.attemptCount = job.attemptCount + 1)
  /-- Attempts with other identifiers are untouched. -/
  kept : ∀ k a, s.attempts.get k = some a → (∀ n, i ≤ n → k ≠ uuid n) →
    s'.attempts.get k = some a
  /-- Every new attempt belongs to the job; it has failed unless it is the accepted one. -/
  made : ∀ k a, s'.attempts.get k = some a → s.attempts.get k = some a ∨
    a.jobID = job.id ∧
      (a.state = .failed ∨ ∃ assignment, taken = some assignment ∧ assignment.attemptID = k)
  /-- The accepted attempt is live and has a lease. -/
  live : ∀ assignment, taken = some assignment → assignment.jobID = job.id ∧
    ∃ a, s'.attempts.get assignment.attemptID = some a ∧ a.jobID = job.id ∧
      a.state = .assigned ∧ a.leaseExpiresAt ≠ 0
  /-- The history grows by the accepted assignment. -/
  accepted : s'.accepted = taken.toList ++ s.accepted

theorem add_leaseTTL_ne_zero (now : Time) : now + leaseTTL ≠ 0 := by
  simp [leaseTTL, second]

section Offer

variable {clock : ℕ → Time} {uuid : ℕ → String} {i : ℕ} {job : ExecutionJob} {s s' t : Store}

theorem offered_requeued (error : String) (now : Time) :
    Offered uuid i job none s (s.setJob (job.requeued error now)) where
  otherJobs k hk := by simp [ExecutionJob.requeued, hk]
  own := ⟨job.requeued error now, by simp [ExecutionJob.requeued]⟩
  kept k a ha _ := ha
  made k a ha := .inl ha
  live _ h := by cases h
  accepted := rfl

/-- The store in which a candidate's dispatcher answers: the fresh attempt and the offered job are
written, and the dispatcher has touched at most the host fields of the attempt. -/
structure Answered (attempt : Attempt) (job : ExecutionJob) (s t : Store) : Prop where
  jobs : ∀ k, t.executionJobs.get k = if k = job.id then some job else s.executionJobs.get k
  others : ∀ k, k ≠ attempt.id → t.attempts.get k = s.attempts.get k
  own : ∃ host mode time, t.attempts.get attempt.id =
    some { attempt with hostID := host, startMode := mode, updatedAt := time }
  accepted : t.accepted = s.accepted

theorem answered_of_hostFieldsOnly {attempt : Attempt}
    (h : HostFieldsOnly attempt.id ((s.setAttempt attempt).setJob job) t) :
    Answered attempt job s t where
  jobs k := by rw [h.jobs]; simp
  others k hk := by rw [h.others k hk]; simp [hk]
  own := h.own attempt (by simp)
  accepted := h.accepted

variable {region : String} {version : FunctionVersion} {artifactMeta : Artifact} {now : Time}

theorem Answered.offered_accepted (time : Time)
    (h : Answered (newAttempt (uuid i) region version job now)
      (job.offered (uuid i) region now) s t) :
    let assignment := newAssignment (newAttempt (uuid i) region version job now) version
      artifactMeta (job.offered (uuid i) region now)
    Offered uuid i job (some assignment) s
      (Store.setJob { t with accepted := assignment :: t.accepted }
        { job.offered (uuid i) region now with
          attemptCount := (job.offered (uuid i) region now).attemptCount + 1
          updatedAt := time }) := by
  intro assignment
  obtain ⟨host, mode, updated, hown⟩ := h.own
  constructor
  case otherJobs =>
    intro k hk
    simpa [ExecutionJob.offered, hk] using h.jobs k
  case own =>
    exact ⟨_, (Store.getJob_setJob _ _ _).trans (if_pos rfl), rfl, nofun, fun _ => ⟨rfl, rfl⟩⟩
  case kept =>
    intro k a ha hk
    exact (h.others k (hk i le_rfl)).trans ha
  case made =>
    intro k a ha
    by_cases hk : k = uuid i
    · subst hk
      cases hown.symm.trans ha
      exact .inr ⟨rfl, .inr ⟨assignment, rfl, rfl⟩⟩
    · exact .inl ((h.others k hk).symm.trans ha)
  case live =>
    rintro _ ⟨⟩
    exact ⟨rfl, _, hown, rfl, rfl, add_leaseTTL_ne_zero now⟩
  case accepted => simp [h.accepted]

theorem Answered.get_refused (error : String) (time : Time)
    (h : Answered (newAttempt (uuid i) region version job now)
      (job.offered (uuid i) region now) s t) (k : String) :
    (t.setAttempt ((newAttempt (uuid i) region version job now).refused error time)).attempts.get k
      = if k = uuid i then
          some ((newAttempt (uuid i) region version job now).refused error time)
        else s.attempts.get k := by
  by_cases hk : k = uuid i
  · subst hk
    simp [newAttempt, Attempt.refused]
  · rw [if_neg hk, ← h.others k hk]
    simp [newAttempt, Attempt.refused, hk]

theorem Answered.offered_next {taken : Option Assignment} (error : String) (time : Time)
    (h : Answered (newAttempt (uuid i) region version job now)
      (job.offered (uuid i) region now) s t)
    (hrest : Offered uuid (i + 1) (job.offered (uuid i) region now) taken
      (t.setAttempt ((newAttempt (uuid i) region version job now).refused error time)) s') :
    Offered uuid i job taken s s' where
  otherJobs k hk := by
    rw [hrest.otherJobs k hk]
    simpa [ExecutionJob.offered, hk] using h.jobs k
  own := hrest.own
  kept k a ha hk := by
    refine hrest.kept k a ?_ fun n hn => hk n (by omega)
    rw [h.get_refused, if_neg (hk i le_rfl)]
    exact ha
  made k a ha := by
    refine (hrest.made k a ha).elim (fun hold => ?_) .inr
    rw [h.get_refused] at hold
    split_ifs at hold with hk
    · cases hold
      exact .inr ⟨rfl, .inl rfl⟩
    · exact .inl hold
  live := hrest.live
  accepted := by
    rw [hrest.accepted, Store.accepted_setAttempt, h.accepted]

@[simp]
theorem id_newAttempt (id : String) : (newAttempt id region version job now).id = id := rfl

/-- The assignment that is offered to a region. -/
def offeredAssignment (id region : String) (version : FunctionVersion) (artifactMeta : Artifact)
    (job : ExecutionJob) (now : Time) : Assignment :=
  newAssignment (newAttempt id region version job now) version artifactMeta
    (job.offered id region now)

/-- The store in which an offer is made. -/
def Store.offering (s : Store) (id region : String) (version : FunctionVersion)
    (job : ExecutionJob) (now : Time) : Store :=
  (s.setAttempt (newAttempt id region version job now)).setJob (job.offered id region now)

section Turn

variable {candidate : Candidate} {e : Err}

theorem answered_of_run {r : Except Err Unit}
    (h : (candidate.dispatcher.enqueueExecution
      (offeredAssignment (uuid i) candidate.region version artifactMeta job now)).run
        (s.offering (uuid i) candidate.region version job now) = (r, t)) :
    Answered (newAttempt (uuid i) candidate.region version job now)
      (job.offered (uuid i) candidate.region now) s t := by
  have hframe := candidate.dispatcher.frame
    (offeredAssignment (uuid i) candidate.region version artifactMeta job now)
    (s.offering (uuid i) candidate.region version job now)
  rw [h] at hframe
  exact answered_of_hostFieldsOnly hframe

theorem run_enqueueAssignment_of_accepted {d : RegionDispatcher} {a : Assignment}
    (h : (d.enqueueExecution a).run s = (.ok (), t)) :
    (enqueueAssignment d a).run s = (.ok (), { t with accepted := a :: t.accepted }) := by
  rw [enqueueAssignment, Prog.run_bind, h]
  rfl

theorem run_enqueueAssignment_of_refused {d : RegionDispatcher} {a : Assignment}
    (h : (d.enqueueExecution a).run s = (.error e, t)) :
    (enqueueAssignment d a).run s = (.error e, t) := by
  rw [enqueueAssignment, Prog.run_bind, h]

theorem run_offerCandidates_of_accepted (candidates : List Candidate) (dispatchErrors : List String)
    (h : (candidate.dispatcher.enqueueExecution
      (offeredAssignment (uuid i) candidate.region version artifactMeta job now)).run
        (s.offering (uuid i) candidate.region version job now) = (.ok (), t)) :
    (offerCandidates clock uuid version artifactMeta now i (candidate :: candidates) dispatchErrors
      job).run s = (.ok (), Store.setJob
        { t with accepted :=
            offeredAssignment (uuid i) candidate.region version artifactMeta job now :: t.accepted }
        { job.offered (uuid i) candidate.region now with
          attemptCount := (job.offered (uuid i) candidate.region now).attemptCount + 1
          updatedAt := clock i }) := by
  simp only [offerCandidates, enqueueAssignment, Prog.run_bind, Prog.run_result, run_putAttempt,
    run_updateExecutionJob, Prog.run_modify, id_newAttempt]
  simp only [offeredAssignment, Store.offering] at h
  rw [h]
  rfl

theorem run_offerCandidates_of_refused (candidates : List Candidate) (dispatchErrors : List String)
    (h : (candidate.dispatcher.enqueueExecution
      (offeredAssignment (uuid i) candidate.region version artifactMeta job now)).run
        (s.offering (uuid i) candidate.region version job now) = (.error e, t)) :
    (offerCandidates clock uuid version artifactMeta now i (candidate :: candidates) dispatchErrors
      job).run s =
        let refused := t.setAttempt
          ((newAttempt (uuid i) candidate.region version job now).refused e.text (clock i))
        if e.isCapacity then
          (.error e, refused.setJob
            ((job.offered (uuid i) candidate.region now).requeued "" (clock i)))
        else
          (offerCandidates clock uuid version artifactMeta now (i + 1) candidates
            (dispatchErrors ++ [candidate.region ++ ": " ++ e.text])
            (job.offered (uuid i) candidate.region now)).run refused := by
  simp only [offerCandidates, enqueueAssignment, Prog.run_bind, Prog.run_result, run_putAttempt,
    run_updateExecutionJob, id_newAttempt]
  simp only [offeredAssignment, Store.offering] at h
  rw [h]
  simp only [Prog.run_bind, Prog.run_result, run_updateAttempt]
  split_ifs <;> rfl

end Turn

/-- What the loop over the candidates does. -/
theorem offered_offerCandidates (clock : ℕ → Time) (uuid : ℕ → String)
    (version : FunctionVersion) (artifactMeta : Artifact) (now : Time) (i : ℕ)
    (candidates : List Candidate) (dispatchErrors : List String) (job : ExecutionJob)
    (s : Store) :
    ∃ taken, Offered uuid i job taken s
      ((offerCandidates clock uuid version artifactMeta now i candidates dispatchErrors job).run
        s).2 := by
  induction candidates generalizing i dispatchErrors job s with
  | nil =>
    refine ⟨none, ?_⟩
    simpa [offerCandidates] using offered_requeued _ _
  | cons candidate candidates ih =>
    rcases hrun : (candidate.dispatcher.enqueueExecution
      (offeredAssignment (uuid i) candidate.region version artifactMeta job now)).run
        (s.offering (uuid i) candidate.region version job now) with ⟨e | ⟨⟩, t⟩
    · have hans := answered_of_run hrun
      rw [run_offerCandidates_of_refused candidates dispatchErrors hrun]
      dsimp only
      split_ifs
      · exact ⟨none, hans.offered_next e.text (clock i) (offered_requeued _ _)⟩
      · obtain ⟨taken, htaken⟩ :=
          ih (i + 1) (dispatchErrors ++ [candidate.region ++ ": " ++ e.text])
          (job.offered (uuid i) candidate.region now)
          (t.setAttempt ((newAttempt (uuid i) candidate.region version job now).refused
            e.text (clock i)))
        exact ⟨taken, hans.offered_next e.text (clock i) htaken⟩
    · have hans := answered_of_run hrun
      rw [run_offerCandidates_of_accepted candidates dispatchErrors hrun]
      exact ⟨_, hans.offered_accepted (clock i)⟩

end Offer

/-- **Dispatching an attempt**: the job is offered, or returned to the queue when its artifact or
its regions are missing. -/
theorem offered_dispatchJobAttempt (sch : Scheduler) (clock : ℕ → Time) (uuid : ℕ → String)
    (version : FunctionVersion) (job : ExecutionJob) (s : Store) :
    ∃ taken, Offered uuid 0 job taken s
      ((dispatchJobAttempt sch clock uuid version job).run s).2 := by
  simp only [dispatchJobAttempt, Prog.run_bind, Prog.run_result, run_getArtifact]
  cases find "artifact" s.artifacts version.artifactDigest with
  | error e => exact ⟨none, offered_requeued _ _⟩
  | ok artifactMeta =>
    simp only [Prog.run_bind, Prog.run_result, run_rankDispatchers_snd]
    cases ((rankDispatchers sch (fun _ => clock 1) version).run s).1 with
    | error e => exact ⟨none, offered_requeued _ _⟩
    | ok candidates =>
      exact offered_offerCandidates _ uuid version artifactMeta _ 0 candidates [] job s

/-- What one scheduling step does to a job it claimed: the job is given up, or it has budget left
and is offered. -/
inductive Scheduled (uuid : ℕ → String) (job : ExecutionJob) (s s' : Store) : Prop
  | abandoned (error : String) (now : Time)
      (same : (s.setJob (job.abandoned error now)).SameView s') : Scheduled uuid job s s'
  | offered (budget : job.hasBudget = true) (taken : Option Assignment)
      (offered : Offered uuid 0 job taken s s') : Scheduled uuid job s s'

theorem Offered.of_claimed {uuid : ℕ → String} {i : ℕ} {job : ExecutionJob} {now : Time}
    {taken : Option Assignment} {s s' : Store}
    (h : Offered uuid i (job.claimed .scheduling now) taken
      (s.setJob (job.claimed .scheduling now)) s') :
    Offered uuid i job taken s s' where
  otherJobs k hk := by
    rw [h.otherJobs k hk]
    simp [ExecutionJob.claimed, hk]
  own := h.own
  kept := h.kept
  made := h.made
  live := h.live
  accepted := h.accepted

theorem scheduleNext_of_no_claim (sch : Scheduler) (clock : ℕ → Time) (uuid : ℕ → String)
    {s : Store} (h : nextClaim claimable s.executionJobs.values = none) :
    (scheduleNext sch clock uuid).run s = (.ok false, s) := by
  simp only [scheduleNext, Prog.run_bind, Prog.run_result, claimNextExecutionJob,
    Prog.run_action, h]
  rfl

/-- What a step does with the job it claims. -/
theorem scheduleNext_of_claim (sch : Scheduler) (clock : ℕ → Time) (uuid : ℕ → String) {s : Store}
    {job : ExecutionJob} (h : nextClaim claimable s.executionJobs.values = some job) :
    Scheduled uuid job s ((scheduleNext sch clock uuid).run s).2 := by
  simp only [scheduleNext, Prog.run_bind, Prog.run_result, claimNextExecutionJob,
    Prog.run_action, h]
  have habandoned : ∀ error now, Scheduled uuid job s
      ((s.setJob (job.claimed .scheduling (clock 0))).setJob
        ((job.claimed .scheduling (clock 0)).abandoned error now)) := by
    intro error now
    refine .abandoned error now ⟨fun k => ?_, fun _ => rfl, rfl⟩
    by_cases hk : k = job.id <;> simp [ExecutionJob.abandoned, ExecutionJob.claimed, hk]
  split_ifs with hspent
  · simpa using habandoned _ _
  · simp only [Prog.run_bind, Prog.run_result, run_getFunctionVersion]
    cases find "function version" (s.setJob (job.claimed .scheduling (clock 0))).functions
        (job.claimed .scheduling (clock 0)).functionVersionID with
    | error e => simpa using habandoned _ _
    | ok version =>
      obtain ⟨taken, htaken⟩ := offered_dispatchJobAttempt sch (fun i => clock (i + 1)) uuid
        version (job.claimed .scheduling (clock 0))
        (s.setJob (job.claimed .scheduling (clock 0)))
      have hbudget : job.hasBudget = true := by
        simpa [ExecutionJob.hasBudget, ExecutionJob.claimed] using hspent
      simp only [Prog.run_bind, Prog.run_result]
      split
      · exact .offered hbudget taken htaken.of_claimed
      · exact .offered hbudget taken htaken.of_claimed

/-- **What a scheduling step does.** Nothing, or it claims a stored job that is queued or
retrying. -/
theorem scheduleNext_cases (sch : Scheduler) (clock : ℕ → Time) (uuid : ℕ → String) (s : Store) :
    ((scheduleNext sch clock uuid).run s).2 = s ∨
    ∃ job, s.executionJobs.get job.id = some job ∧ job.state ∈ claimable ∧
      Scheduled uuid job s ((scheduleNext sch clock uuid).run s).2 := by
  cases hclaim : nextClaim claimable s.executionJobs.values with
  | none =>
    rw [scheduleNext_of_no_claim sch clock uuid hclaim]
    exact .inl rfl
  | some job =>
    obtain ⟨hmem, hstate⟩ := nextClaim_mem hclaim
    exact .inr ⟨job, (Table.mem_values _ _).mp hmem, hstate, scheduleNext_of_claim _ _ _ hclaim⟩

theorem run_enforceExecutionQuota_snd (sch : Scheduler) (projectID : String) (s : Store) :
    ((enforceExecutionQuota sch projectID).run s).2 = s := by
  unfold enforceExecutionQuota
  split_ifs
  · rfl
  · simp only [countExecutionJobsByProjectStates, Prog.run_bind, Prog.run_query]
    split_ifs <;> rfl

/-- **What `enqueueExecution` does.** It is refused, or it stores the new job and returns it. -/
theorem enqueueExecution_cases (sch : Scheduler) (now : Time) (id : String)
    (version : FunctionVersion) (payload : Bytes) (s : Store) :
    (∃ e, (enqueueExecution sch now id version payload).run s = (.error e, s)) ∨
    (enqueueExecution sch now id version payload).run s =
      (.ok (newExecutionJob id version payload now),
        s.setJob (newExecutionJob id version payload now)) := by
  have hread := run_enforceExecutionQuota_snd sch version.projectID s
  simp only [enqueueExecution, Prog.run_bind]
  rcases hquota : (enforceExecutionQuota sch version.projectID).run s with ⟨r, t⟩
  rw [hquota] at hread
  subst hread
  cases r with
  | error e => exact .inl ⟨e, rfl⟩
  | ok u => exact .inr rfl

/-- **What `recoverStaleScheduling` does.** Nothing when it is switched off; otherwise stale
claims go back to the queue. -/
theorem run_recoverStaleScheduling_snd (sch : Scheduler) (now : Time) (s : Store) :
    ((recoverStaleScheduling sch now).run s).2 =
      if sch.schedulingTimeout = 0 then s
      else s.requeueStale .scheduling .queued ((now : ℤ) - sch.schedulingTimeout) now
        "scheduling claim expired before dispatch" := by
  unfold recoverStaleScheduling
  split_ifs <;> rfl

end Lecrev

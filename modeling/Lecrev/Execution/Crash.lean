import Lecrev.Concurrency.Sequential
import Lecrev.Coordinator.Assign
import Lecrev.Execution.Progress

/-!
# Handlers that stop halfway

A job that waits for an attempt is picked up again by lease recovery, as long as one of its attempts
is live and has a lease. `Held` says so for all jobs, and every handler that runs to its end keeps
it (`Execution.Effect.held`). Attempt and job are two records, and a handler that fails or is
stopped between the two writes leaves only the first of them behind.

All three handlers that end an attempt write the attempt first. A stop at the write of the job then
leaves a job that waits for an attempt that has ended, and nothing picks that job up again.
-/

namespace Lecrev

/-- Wherever a dispatcher is stopped, it has written at most the host fields of its attempt. -/
def RegionDispatcher.Steady (d : RegionDispatcher) : Prop :=
  ∀ a s, (d.enqueueExecution a).StopsIn (HostFieldsOnly a.attemptID s) s

theorem RegionDispatcher.steady_ofBus (region : String) (stats : RegionStats)
    (answer : Except Err Unit) : (RegionDispatcher.ofBus region stats answer).Steady :=
  fun a s => Prog.stopsIn_query.mpr (.refl a.attemptID s)

section Reads

variable {α : Type} {I : Store → Prop} {s : Store}

theorem stopsIn_getExecutionJob_bind {id : String} {f : ExecutionJob → StoreM α} :
    (getExecutionJob id >>= f).StopsIn I s ↔
      I s ∧ ∀ j, s.executionJobs.get id = some j → (f j).StopsIn I s := by
  rw [getExecutionJob, Prog.stopsIn_query_bind]
  simp only [find_eq_ok_iff]

theorem stopsIn_getAttempt_bind {id : String} {f : Attempt → StoreM α} :
    (getAttempt id >>= f).StopsIn I s ↔
      I s ∧ ∀ a, s.attempts.get id = some a → (f a).StopsIn I s := by
  rw [getAttempt, Prog.stopsIn_query_bind]
  simp only [find_eq_ok_iff]

end Reads

namespace Execution

/-! ## Writes that keep the jobs held -/

/-- The job of the attempt does not depend on it: the job does not wait for an attempt, or another
attempt of it is live and has a lease. -/
def Spare (s : Store) (a : Attempt) : Prop :=
  ∀ j, s.executionJobs.get a.jobID = some j → j.state ∈ active →
    ∃ id, id ≠ a.id ∧ s.Leased a.jobID id

section Writes

variable {s t : Store}

theorem held_setAttempt_of_ended {a a' : Attempt} (hs : Held s)
    (ha : s.attempts.get a.id = some a) (hid : a'.id = a.id) (hended : a'.state.terminal = true) :
    Held (s.setAttempt a') ↔ Spare s a := by
  have hget (k : String) : (s.setAttempt a').attempts.get k =
      if k = a.id then some a' else s.attempts.get k := by
    rw [Store.getAttempt_setAttempt, hid]
  constructor
  · intro h j hj hactive
    obtain ⟨id, b, hb, hjob, hlive, hlease⟩ := h a.jobID j hj hactive
    rw [hget] at hb
    split_ifs at hb with hown
    · obtain rfl := Option.some.inj hb
      rw [hended] at hlive
      cases hlive
    · exact ⟨id, hown, b, hb, hjob, hlive, hlease⟩
  · intro h k j hj hactive
    by_cases hk : k = a.jobID
    · subst hk
      obtain ⟨id, hne, b, hb, hrest⟩ := h j hj hactive
      exact ⟨id, b, (hget id).trans ((if_neg hne).trans hb), hrest⟩
    · obtain ⟨id, hleased⟩ := hs k j hj hactive
      exact ⟨id, hleased.setAttempt (hid ▸ ha) (Ne.symm hk)⟩

/-- The attempt is leased if the stored one that it replaces is, and belongs to the same job. -/
def Renews (s : Store) (a' : Attempt) : Prop :=
  ∀ b, s.attempts.get a'.id = some b → b.state.terminal = false → b.leaseExpiresAt ≠ 0 →
    a'.jobID = b.jobID ∧ a'.state.terminal = false ∧ a'.leaseExpiresAt ≠ 0

theorem Renews.leased {a' : Attempt} (h : Renews s a') {jobID id : String}
    (hleased : s.Leased jobID id) : (s.setAttempt a').Leased jobID id := by
  obtain ⟨b, hb, hjob, hlive, hlease⟩ := hleased
  by_cases hid : id = a'.id
  · subst hid
    obtain ⟨hown, hlive', hlease'⟩ := h b hb hlive hlease
    refine ⟨a', ?_, hown.trans hjob, hlive', hlease'⟩
    rw [Store.getAttempt_setAttempt, if_pos rfl]
  · refine ⟨b, ?_, hjob, hlive, hlease⟩
    rw [Store.getAttempt_setAttempt, if_neg hid]
    exact hb

theorem Renews.held {a' : Attempt} (h : Renews s a') (hs : Held s) : Held (s.setAttempt a') := by
  intro k j hj hactive
  obtain ⟨id, hleased⟩ := hs k j hj hactive
  exact ⟨id, h.leased hleased⟩

theorem Held.of_hostFieldsOnly {id : String} (hs : Held s) (h : HostFieldsOnly id s t) :
    Held t := by
  intro k j hj hactive
  obtain ⟨id', b, hb, hrest⟩ := hs k j ((h.jobs k).symm.trans hj) hactive
  by_cases hid : id' = id
  · subst hid
    obtain ⟨host, mode, time, hown⟩ := h.own b hb
    exact ⟨id', _, hown, hrest⟩
  · exact ⟨id', b, (h.others id' hid).trans hb, hrest⟩

theorem Held.setJob_of_leased {j' : ExecutionJob} (hs : Held s) (h : ∃ id, s.Leased j'.id id) :
    Held (s.setJob j') :=
  held_setJob (fun k j _ hj hactive => hs k j hj hactive) fun _ => h

end Writes

/-! ## Lease recovery -/

section Recovery

theorem keeps_held_updateExecutionJob {j : ExecutionJob} (hidle : j.state ∉ active) :
    (updateExecutionJob j).Keeps Held fun _ _ _ => True :=
  Prog.keeps_modify fun _ hs => ⟨hs.setJob_of_idle hidle, trivial⟩

theorem keeps_held_retryExecution (now : Time) (jobID : String) :
    (retryExecution now jobID).Keeps Held fun _ _ _ => True := by
  refine .bind_of (Prog.keeps_query fun _ _ => trivial) fun job => ?_
  split_ifs
  · exact Prog.keeps_throw _
  · exact .bind_of (keeps_held_updateExecutionJob (by simp [ExecutionJob.retried, active]))
      fun _ => Prog.keeps_pure _

/-- A recovery may stop anywhere exactly if the job can spare the attempt. -/
theorem stopsIn_recoverAttempt_iff {s : Store} (hs : Held s) (clock : ℕ → Time)
    (attempt : Attempt) : (recoverAttempt clock attempt).StopsIn Held s ↔
      ∀ a j, Recovers clock attempt s a j → Spare s a := by
  have hended {a : Attempt} (ha : s.attempts.get attempt.id = some a) :
      Held (s.setAttempt (a.expired (clock 1))) ↔ Spare s a :=
    held_setAttempt_of_ended hs (Store.attemptID_of_get ha ▸ ha) rfl rfl
  unfold recoverAttempt
  simp only [stopsIn_getExecutionJob_bind, stopsIn_getAttempt_bind]
  constructor
  · intro h a j hr
    have hact := (h.2 j hr.job).2 a hr.attempt
    rw [if_neg (by simp [hr.live, hr.passed]), updateAttempt, Prog.stopsIn_modify_bind] at hact
    exact (hended hr.attempt).mp hact.2.start
  · refine fun h => ⟨hs, fun j hj => ⟨hs, fun a ha => ?_⟩⟩
    by_cases hskip : (a.state.terminal || decide (a.leaseExpiresAt > clock 0)) = true
    · rw [if_pos hskip]
      exact Prog.stopsIn_pure.mpr hs
    have hpassed := hskip
    simp only [Bool.or_eq_true, decide_eq_true_eq, not_or, Bool.not_eq_true, not_lt] at hpassed
    rw [if_neg hskip, updateAttempt, Prog.stopsIn_modify_bind]
    -- the job is only written as retrying or failed, so the write of the attempt decides
    refine ⟨hs, Prog.Keeps.stopsIn (G := fun _ _ _ => True) ?_ ((hended ha).mpr ?_)⟩
    · split_ifs
      · refine .bind_of (keeps_held_updateExecutionJob (by simp [ExecutionJob.lapsed, active]))
          fun _ => .bind_of (keeps_held_retryExecution _ _).result fun r => ?_
        split
        · exact Prog.keeps_pure _
        · exact keeps_held_updateExecutionJob (by simp [ExecutionJob.abandoned, active])
      · exact keeps_held_updateExecutionJob (by simp [ExecutionJob.abandoned, active])
    · exact h a j ⟨hj, ha, hpassed.1, hpassed.2⟩

end Recovery

/-! ## Reports -/

section Reports

/-- What a report about the attempt needs, for the jobs to stay held wherever the handler is
stopped. -/
def SafeReport (s : Store) (msg : AssignmentUpdate) (a : Attempt) : Prop :=
  match msg.state with
  | .unspecified => True
  | .starting | .running => a.jobID = msg.jobID ∨ ∃ id, s.Leased msg.jobID id
  | .succeeded | .failed => Spare s a

variable {s : Store} {msg : AssignmentUpdate} {a : Attempt} {j : ExecutionJob} {now : Time}

theorem renews_afterUpdate (ha : s.attempts.get msg.attemptID = some a)
    (hlasting : msg.state.terminal = false) : Renews s (a.afterUpdate msg now) := by
  intro b hb hlive hlease
  rw [Attempt.id_afterUpdate, Store.attemptID_of_get ha, ha] at hb
  obtain rfl := Option.some.inj hb
  refine ⟨Attempt.jobID_afterUpdate _ _ _, ?_⟩
  unfold Attempt.afterUpdate
  cases hstate : msg.state with
  | unspecified => exact ⟨hlive, hlease⟩
  | starting | running => exact ⟨rfl, add_leaseTTL_ne_zero now⟩
  | succeeded | failed =>
    rw [hstate] at hlasting
    cases hlasting

theorem held_reported_active_iff (hs : Held s) (ha : s.attempts.get msg.attemptID = some a)
    (hj : s.executionJobs.get msg.jobID = some j) (retry : Bool)
    (hstate : msg.state = .starting ∨ msg.state = .running) :
    Held ((s.setAttempt (a.afterUpdate msg now)).setJob (j.afterUpdate retry a.startedAt msg now)) ↔
      a.jobID = msg.jobID ∨ ∃ id, s.Leased msg.jobID id := by
  have hjid : j.id = msg.jobID := Store.jobID_of_get hj
  have haid : a.id = msg.attemptID := Store.attemptID_of_get ha
  have hactive : (j.afterUpdate retry a.startedAt msg now).state ∈ active := by
    rcases hstate with h | h <;> simp [ExecutionJob.afterUpdate, h, active]
  have hlive : (a.afterUpdate msg now).state.terminal = false ∧
      (a.afterUpdate msg now).leaseExpiresAt ≠ 0 := by
    rcases hstate with h | h <;>
      exact ⟨by simp [Attempt.afterUpdate, h, AttemptState.terminal],
        by simpa [Attempt.afterUpdate, h] using add_leaseTTL_ne_zero now⟩
  have hrenews : Renews s (a.afterUpdate msg now) :=
    renews_afterUpdate ha (by rcases hstate with h | h <;> rw [h] <;> rfl)
  have hget (id : String) : (s.setAttempt (a.afterUpdate msg now)).attempts.get id =
      if id = msg.attemptID then some (a.afterUpdate msg now) else s.attempts.get id := by
    rw [Store.getAttempt_setAttempt, Attempt.id_afterUpdate, haid]
  constructor
  · intro h
    have hwritten := h msg.jobID _ ((Store.getJob_setJob _ _ _).trans (if_pos (by simp [hjid])))
      hactive
    obtain ⟨id, b, hb, hjob, hrest⟩ := hwritten
    rw [Store.attempts_setJob, hget] at hb
    split_ifs at hb
    · obtain rfl := Option.some.inj hb
      exact .inl ((Attempt.jobID_afterUpdate a msg now).symm.trans hjob)
    · exact .inr ⟨id, b, hb, hjob, hrest⟩
  · intro h
    refine (hrenews.held hs).setJob_of_leased ?_
    rw [ExecutionJob.id_afterUpdate, hjid]
    obtain hown | ⟨id, hleased⟩ := h
    · exact ⟨msg.attemptID, _, (hget _).trans (if_pos rfl),
        (Attempt.jobID_afterUpdate a msg now).trans hown, hlive⟩
    · exact ⟨id, hrenews.leased hleased⟩

theorem held_reported_ended_iff (hs : Held s) (ha : s.attempts.get msg.attemptID = some a)
    (hended : msg.state.terminal = true) : Held (s.setAttempt (a.afterUpdate msg now)) ↔
      Spare s a := by
  refine held_setAttempt_of_ended hs (Store.attemptID_of_get ha ▸ ha)
    (Attempt.id_afterUpdate _ _ _) ?_
  unfold Attempt.afterUpdate
  revert hended
  cases msg.state <;> simp [AssignmentState.terminal, AttemptState.terminal]

theorem afterUpdate_not_active {retry : Bool} {startedAt : Time}
    (hended : msg.state.terminal = true) :
    (j.afterUpdate retry startedAt msg now).state ∉ active := by
  cases hstate : msg.state with
  | succeeded => simp [ExecutionJob.afterUpdate, hstate, active]
  | failed =>
    simp only [ExecutionJob.afterUpdate, hstate, ExecutionJob.stateAfterFailure]
    split_ifs <;> simp [active]
  | unspecified | starting | running =>
    rw [hstate] at hended
    cases hended

/-- Both writes of a report keep the job attended exactly if the report is safe. -/
theorem held_reported_iff (hs : Held s) (ha : s.attempts.get msg.attemptID = some a)
    (hj : s.executionJobs.get msg.jobID = some j) (retry : Bool) :
    (Held (s.setAttempt (a.afterUpdate msg now)) ∧
      Held ((s.setAttempt (a.afterUpdate msg now)).setJob
        (j.afterUpdate retry a.startedAt msg now))) ↔ SafeReport s msg a := by
  unfold SafeReport
  cases hstate : msg.state with
  | unspecified =>
    have hheld : Held (s.setAttempt (a.afterUpdate msg now)) :=
      (renews_afterUpdate ha (by rw [hstate]; rfl)).held hs
    refine iff_of_true ⟨hheld, held_setJob (fun k j' _ hj' => hheld k j' hj') fun hactive => ?_⟩
      trivial
    -- the job keeps its state
    rw [ExecutionJob.id_afterUpdate, Store.jobID_of_get hj]
    refine hheld msg.jobID j hj ?_
    simpa [ExecutionJob.afterUpdate, hstate] using hactive
  | starting | running =>
    rw [held_reported_active_iff hs ha hj retry (by simp [hstate])]
    refine and_iff_right ((renews_afterUpdate ha ?_).held hs)
    rw [hstate]
    rfl
  | succeeded | failed =>
    rw [held_reported_ended_iff hs ha (by rw [hstate]; rfl)]
    refine and_iff_left_of_imp fun hspare => ?_
    refine ((held_reported_ended_iff hs ha (by rw [hstate]; rfl)).mpr hspare).setJob_of_idle ?_
    exact afterUpdate_not_active (by rw [hstate]; rfl)

theorem keeps_held_recordCost (now : Time) (attempt : Attempt) (job : ExecutionJob) :
    (recordCost now attempt job).Keeps Held fun _ _ _ => True := by
  unfold recordCost
  split
  · exact Prog.keeps_pure _
  · refine .bind_of (Prog.keeps_query fun _ _ => trivial) fun version => ?_
    refine .bind_of (Prog.keeps_query fun _ _ => trivial) fun project => ?_
    exact Prog.keeps_modify fun _ hs => ⟨hs, trivial⟩

theorem stopsIn_handleAssignmentUpdate_iff (hs : Held s) (c : UpdateContext) (now : Time)
    (msg : AssignmentUpdate) : (handleAssignmentUpdate c now msg).StopsIn Held s ↔
      ∀ a j, Reports c msg s a j → SafeReport s msg a := by
  unfold handleAssignmentUpdate
  split_ifs with hdirect
  · refine iff_of_true (Prog.stopsIn_pure.mpr hs) fun a j h => ?_
    cases hdirect.symm.trans h.direct
  unfold applyAssignmentUpdate
  simp only [stopsIn_getAttempt_bind, stopsIn_getExecutionJob_bind]
  simp only [updateAttempt, updateExecutionJob, Prog.stopsIn_modify_bind]
  constructor
  · intro h a j hr
    obtain ⟨-, hattempt, hrest⟩ := (h.2 a hr.attempt).2 j hr.job
    exact (held_reported_iff hs hr.attempt hr.job c.retry).mp ⟨hattempt, hrest.start⟩
  · refine fun h => ⟨hs, fun a ha => ⟨hs, fun j hj => ⟨hs, ?_⟩⟩⟩
    have hsafe := h a j ⟨by simpa using hdirect, ha, hj⟩
    obtain ⟨hattempt, hjob⟩ := (held_reported_iff hs ha hj c.retry).mpr hsafe
    refine ⟨hattempt, Prog.Keeps.stopsIn (G := fun _ _ _ => True) ?_ hjob⟩
    split_ifs
    all_goals first
      | exact .bind_of (keeps_held_recordCost _ _ _) fun _ => Prog.keeps_pure _
      | exact Prog.keeps_pure _

end Reports

/-! ## Dispatching -/

/-- The dispatcher that is asked first accepts the attempt. -/
def FirstAccepts (sch : Scheduler) (clock : ℕ → Time) (uuid : ℕ → String)
    (version : FunctionVersion) (job : ExecutionJob) (s : Store) : Prop :=
  ∀ artifactMeta candidate candidates,
    s.artifacts.get version.artifactDigest = some artifactMeta →
    ((rankDispatchers sch (fun _ => clock 1) version).run s).1 = .ok (candidate :: candidates) →
    ((candidate.dispatcher.enqueueExecution
      (offeredAssignment (uuid 0) candidate.region version artifactMeta job (clock 0))).run
        (s.offering (uuid 0) candidate.region version job (clock 0))).1 = .ok ()

section Backed

variable {uuid : ℕ → String} {jobID : String} {s t : Store}

/-- The job, and every other one that waits for an attempt, has a leased attempt that the dispatch
has not made. -/
def Backed (uuid : ℕ → String) (jobID : String) (s : Store) : Prop :=
  ∀ k, (k = jobID ∨ ∃ j, s.executionJobs.get k = some j ∧ j.state ∈ active) →
    ∃ id, (∀ n, id ≠ uuid n) ∧ s.Leased k id

theorem Backed.held (h : Backed uuid jobID s) : Held s := by
  intro k j hj hactive
  obtain ⟨id, -, hleased⟩ := h k (.inr ⟨j, hj, hactive⟩)
  exact ⟨id, hleased⟩

theorem Backed.of_others (h : Backed uuid jobID s)
    (hjobs : ∀ k, k ≠ jobID → t.executionJobs.get k = s.executionJobs.get k)
    (hattempts : ∀ id, (∀ n, id ≠ uuid n) → t.attempts.get id = s.attempts.get id) :
    Backed uuid jobID t := by
  intro k hk
  have hbefore : k = jobID ∨ ∃ j, s.executionJobs.get k = some j ∧ j.state ∈ active := by
    by_cases hown : k = jobID
    · exact .inl hown
    · rw [hjobs k hown] at hk
      exact hk
  obtain ⟨id, hid, a, ha, hrest⟩ := h k hbefore
  exact ⟨id, hid, a, (hattempts id hid).trans ha, hrest⟩

theorem Held.backed (hs : Held s) (hfresh : ∀ n, s.attempts.get (uuid n) = none)
    (h : ∃ id, s.Leased jobID id) : Backed uuid jobID s := by
  intro k hk
  obtain ⟨id, a, ha, hrest⟩ : ∃ id, s.Leased k id := by
    obtain rfl | ⟨j, hj, hactive⟩ := hk
    · exact h
    · exact hs k j hj hactive
  refine ⟨id, ?_, a, ha, hrest⟩
  rintro n rfl
  rw [hfresh n] at ha
  cases ha

theorem dispatchWrites_backed :
    DispatchWrites (Backed uuid jobID) (fun _ _ _ => True) uuid jobID where
  read _ _ _ _ _ := trivial
  job j hj _ := Prog.keeps_modify fun s hs => by
    refine ⟨hs.of_others (fun k hk => ?_) fun _ _ => rfl, trivial⟩
    rw [Store.getJob_setJob, if_neg (hj ▸ hk)]
  offered n a ha _ := Prog.keeps_modify fun s hs => by
    refine ⟨hs.of_others (fun _ _ => rfl) fun id hid => ?_, trivial⟩
    rw [Store.getAttempt_setAttempt, if_neg (ha ▸ hid n)]
  refused n a ha _ := Prog.keeps_modify fun s hs => by
    refine ⟨hs.of_others (fun _ _ => rfl) fun id hid => ?_, trivial⟩
    rw [Store.getAttempt_setAttempt, if_neg (ha ▸ hid n)]
  accepted _ := Prog.keeps_modify fun s hs => ⟨hs, trivial⟩

theorem keeps_backed_dispatchJobAttempt (sch : Scheduler) (clock : ℕ → Time) (uuid : ℕ → String)
    (version : FunctionVersion) (job : ExecutionJob) :
    (dispatchJobAttempt sch clock uuid version job).Keeps (Backed uuid job.id)
      fun _ _ _ => True := by
  refine dispatchWrites_backed.keeps_dispatchJobAttempt fun region d _ n a ha => ?_
  refine (d.calls a).of_calls fun l s t hs hcall => ⟨?_, trivial⟩
  refine hs.of_others (fun k _ => hcall.jobs k) fun id hid => ?_
  refine hcall.attempts id (Bool.eq_false_iff.mpr fun hwrites => ?_)
  exact hid n ((hcall.own id hwrites).1.trans ha)

end Backed

/-- The end of a dispatch that finds no region to offer the job to. -/
def backToQueue (job : ExecutionJob) (e : Err) (now : Time) : StoreM Unit := do
  let _ ← (updateExecutionJob (job.requeued e.text now)).result
  .throw e

theorem keeps_held_backToQueue (job : ExecutionJob) (e : Err) (now : Time) :
    (backToQueue job e now).Keeps Held fun _ _ _ => True := by
  have hidle : (job.requeued e.text now).state ∉ active := by simp [ExecutionJob.requeued, active]
  exact .bind_of (keeps_held_updateExecutionJob hidle).result fun _ => Prog.keeps_throw _

section Dispatch

variable {clock : ℕ → Time} {uuid : ℕ → String} {version : FunctionVersion}
  {artifactMeta : Artifact} {now : Time} {candidate : Candidate} {candidates : List Candidate}
  {job : ExecutionJob} {s t : Store}

variable (version job now) in
theorem held_offering (hs : Held s) {id : String} (hfresh : s.attempts.get id = none)
    (region : String) : Held (s.setAttempt (newAttempt id region version job now)) ∧
      Held (s.offering id region version job now) := by
  have hattempt : Held (s.setAttempt (newAttempt id region version job now)) := by
    refine Renews.held (fun b hb => ?_) hs
    cases hfresh.symm.trans hb
  refine ⟨hattempt, hattempt.setJob_of_leased ⟨id, newAttempt id region version job now, ?_⟩⟩
  exact ⟨(Store.getAttempt_setAttempt _ _ _).trans (if_pos rfl), rfl, rfl, add_leaseTTL_ne_zero now⟩

variable (candidates) in
theorem stopsIn_offerCandidates_of_accepted (hs : Held s) (hfresh : s.attempts.get (uuid 0) = none)
    (hsteady : candidate.dispatcher.Steady)
    (hrun : (candidate.dispatcher.enqueueExecution
      (offeredAssignment (uuid 0) candidate.region version artifactMeta job now)).run
        (s.offering (uuid 0) candidate.region version job now) = (.ok (), t)) :
    (offerCandidates clock uuid version artifactMeta now 0 (candidate :: candidates) []
      job).StopsIn Held s := by
  obtain ⟨hattempt, hoffering⟩ := held_offering version now job hs hfresh candidate.region
  have hanswer : (candidate.dispatcher.enqueueExecution
      (offeredAssignment (uuid 0) candidate.region version artifactMeta job now)).StopsIn Held
        (s.offering (uuid 0) candidate.region version job now) :=
    (hsteady _ _).mono fun t ht => hoffering.of_hostFieldsOnly ht
  have ht : Held t := by
    have hend := hanswer.run
    rwa [hrun] at hend
  have henqueue : (enqueueAssignment candidate.dispatcher
      (offeredAssignment (uuid 0) candidate.region version artifactMeta job now)).StopsIn Held
        (s.offering (uuid 0) candidate.region version job now) := by
    refine Prog.stopsIn_bind.mpr ⟨hanswer, fun _ _ => ?_⟩
    rw [hrun]
    exact Prog.stopsIn_modify.mpr ⟨ht, ht⟩
  obtain ⟨host, mode, time, hown⟩ := (answered_of_run hrun).own
  refine Prog.stopsIn_modify_bind.mpr ⟨hs, Prog.stopsIn_modify_bind.mpr ⟨hattempt, ?_⟩⟩
  refine (Prog.stopsIn_result_bind (run_enqueueAssignment_of_accepted hrun)).mpr ⟨henqueue, ?_⟩
  refine Prog.stopsIn_modify.mpr ⟨ht, Held.setJob_of_leased ht ⟨uuid 0, _, hown, rfl, rfl, ?_⟩⟩
  exact add_leaseTTL_ne_zero now

theorem leased_of_stopsIn_offerCandidates {e : Err}
    (hrun : (candidate.dispatcher.enqueueExecution
      (offeredAssignment (uuid 0) candidate.region version artifactMeta job now)).run
        (s.offering (uuid 0) candidate.region version job now) = (.error e, t))
    (h : (offerCandidates clock uuid version artifactMeta now 0 (candidate :: candidates) []
      job).StopsIn Held s) : ∃ id, s.Leased job.id id := by
  have hanswered := answered_of_run hrun
  have hoffered := (Prog.stopsIn_modify_bind.mp (Prog.stopsIn_modify_bind.mp h).2).2
  have hrefused :=
    ((Prog.stopsIn_result_bind (run_enqueueAssignment_of_refused hrun)).mp hoffered).2
  have hheld : Held (t.setAttempt
      ((newAttempt (uuid 0) candidate.region version job now).refused e.text (clock 0))) :=
    (Prog.stopsIn_modify.mp ((Prog.stopsIn_result_bind rfl).mp hrefused).1).2
  obtain ⟨id, b, hb, hjob, hlive, hlease⟩ := hheld job.id _ ((hanswered.jobs _).trans (if_pos rfl))
    (by simp [ExecutionJob.offered, active])
  rw [hanswered.get_refused] at hb
  split_ifs at hb
  · obtain rfl := Option.some.inj hb
    cases hlive
  · exact ⟨id, b, hb, hjob, hlive, hlease⟩

theorem stopsIn_dispatchJobAttempt {sch : Scheduler} {I : Store → Prop} (hs : I s) :
    (dispatchJobAttempt sch clock uuid version job).StopsIn I s ↔
      match find "artifact" s.artifacts version.artifactDigest with
      | .error e => (backToQueue job e (clock 0)).StopsIn I s
      | .ok artifactMeta =>
        match ((rankDispatchers sch (fun _ => clock 1) version).run s).1 with
        | .error e => (backToQueue job e (clock 0)).StopsIn I s
        | .ok candidates =>
          (offerCandidates (fun i => clock (i + 2)) uuid version artifactMeta (clock 0) 0 candidates
            [] job).StopsIn I s := by
  have hread : (getArtifact version.artifactDigest).StopsIn I s := Prog.stopsIn_query.mpr hs
  refine (Prog.stopsIn_result_bind (run_getArtifact s version.artifactDigest)).trans ?_
  refine (and_iff_right hread).trans ?_
  cases find "artifact" s.artifacts version.artifactDigest with
  | error e => exact Iff.rfl
  | ok artifactMeta =>
    have hrank : (rankDispatchers sch (fun _ => clock 1) version).StopsIn I s :=
      Prog.Keeps.stopsIn (G := fun _ _ _ => True)
        (keeps_rankDispatchers sch (fun _ => clock 1) version fun _ _ _ _ _ => trivial) hs
    have hrun : (rankDispatchers sch (fun _ => clock 1) version).run s =
        (((rankDispatchers sch (fun _ => clock 1) version).run s).1, s) :=
      Prod.ext rfl (run_rankDispatchers_snd _ _ _ _)
    refine (Prog.stopsIn_result_bind hrun).trans ?_
    refine (and_iff_right hrank).trans ?_
    cases ((rankDispatchers sch (fun _ => clock 1) version).run s).1 with
    | error e => exact Iff.rfl
    | ok candidates => exact Iff.rfl

/-- A dispatch may stop anywhere exactly if the first region accepts or a lease is left. -/
theorem stopsIn_dispatchJobAttempt_iff (hs : Held s) (hfresh : ∀ n, s.attempts.get (uuid n) = none)
    {sch : Scheduler} (hsteady : ∀ region d, sch.dispatchers region = some d → d.Steady) :
    (dispatchJobAttempt sch clock uuid version job).StopsIn Held s ↔
      (∃ id, s.Leased job.id id) ∨ FirstAccepts sch clock uuid version job s := by
  constructor
  · intro h
    by_contra hnot
    rw [not_or] at hnot
    refine hnot.2 fun artifactMeta candidate candidates hartifact hrank => ?_
    rw [stopsIn_dispatchJobAttempt hs, find_of_get _ hartifact] at h
    simp only [hrank] at h
    rcases hrun : (candidate.dispatcher.enqueueExecution
      (offeredAssignment (uuid 0) candidate.region version artifactMeta job (clock 0))).run
        (s.offering (uuid 0) candidate.region version job (clock 0)) with ⟨e | ⟨⟩, t⟩
    · exact absurd (leased_of_stopsIn_offerCandidates hrun h) hnot.1
    · rfl
  · rintro (hleased | haccepts)
    · have hbacked : Backed uuid job.id s := hs.backed hfresh hleased
      exact ((keeps_backed_dispatchJobAttempt sch clock uuid version job).stopsIn hbacked).mono
        fun t ht => ht.held
    rw [stopsIn_dispatchJobAttempt hs]
    -- without an artifact or a region to offer it to, the job goes back to the queue
    have hqueue (e : Err) : (backToQueue job e (clock 0)).StopsIn Held s :=
      (keeps_held_backToQueue job e (clock 0)).stopsIn hs
    split
    · exact hqueue _
    · next artifactMeta hartifact =>
      split
      · exact hqueue _
      · next ranked hrank =>
        cases ranked with
        | nil =>
          obtain ⟨hne, hsorted⟩ := rankDispatchers_eq_ok_iff.mp hrank
          have hlength := congrArg List.length hsorted
          rw [List.length_insertionSort] at hlength
          exact absurd (List.eq_nil_of_length_eq_zero hlength) hne
        | cons candidate candidates =>
          have haccepted := haccepts artifactMeta candidate candidates
            (find_eq_ok_iff.mp hartifact) hrank
          have hmem := mem_candidatesOf_of_ranked List.mem_cons_self hrank
          exact stopsIn_offerCandidates_of_accepted candidates hs (hfresh 0)
            (hsteady _ _ (mem_candidatesOf hmem).2) (Prod.ext haccepted rfl)

end Dispatch

/-! ## The three handlers -/

/-- **When a handler may stop halfway.** From every state in which all jobs are held, the jobs stay
held wherever the handler is stopped

* for a dispatch: if and only if the job has another leased attempt, or the dispatcher that is asked
  first accepts;
* for a report: if and only if the report does not end an attempt that its job depends on, and does
  not say of a job without a leased attempt that an attempt of another job is active;
* for a recovery: if and only if it does not end an attempt that its job depends on. -/
theorem crash_consistent_iff {s : Store} (hs : Held s) :
    (∀ (sch : Scheduler) (clock : ℕ → Time) (uuid : ℕ → String) (version : FunctionVersion)
      (job : ExecutionJob), (∀ region d, sch.dispatchers region = some d → d.Steady) →
      (∀ n, s.attempts.get (uuid n) = none) →
      ((dispatchJobAttempt sch clock uuid version job).StopsIn Held s ↔
        (∃ id, s.Leased job.id id) ∨ FirstAccepts sch clock uuid version job s)) ∧
    (∀ (c : UpdateContext) (now : Time) (msg : AssignmentUpdate),
      (handleAssignmentUpdate c now msg).StopsIn Held s ↔
        ∀ a j, Reports c msg s a j → SafeReport s msg a) ∧
    ∀ (clock : ℕ → Time) (attempt : Attempt), (recoverAttempt clock attempt).StopsIn Held s ↔
      ∀ a j, Recovers clock attempt s a j → Spare s a :=
  ⟨fun _ _ _ _ _ hsteady hfresh => stopsIn_dispatchJobAttempt_iff hs hfresh hsteady,
    stopsIn_handleAssignmentUpdate_iff hs, stopsIn_recoverAttempt_iff hs⟩

namespace Halfway

/-- A job with an attempt that a host works on. -/
def assigned : ExecutionJob :=
  { newExecutionJob "job" DomainSample.version [] 1 with state := .assigned }

/-- An attempt that was stored. -/
def attempt : Attempt := newAttempt "attempt" "region" DomainSample.version assigned 1

/-- A job that was just claimed. -/
def claimed : ExecutionJob :=
  { newExecutionJob "next" DomainSample.version [] 1 with state := .scheduling }

/-- A store with the attempt. -/
def store : Store := ((Sample.store.setJob assigned).setJob claimed).setAttempt attempt

theorem held_store : Held store := by
  intro k j hj hactive
  simp only [store, Store.executionJobs_setAttempt, Store.getJob_setJob] at hj
  split_ifs at hj with hnext hjob
  · obtain rfl := Option.some.inj hj
    cases List.mem_pair.mp hactive with
    | inl h => cases h
    | inr h => cases h
  · subst hjob
    exact ⟨"attempt", attempt, rfl, rfl, rfl, add_leaseTTL_ne_zero 1⟩
  · cases hj

theorem dispatcher_eq {region : String} {d : RegionDispatcher}
    (h : (Sample.scheduler (.ok ())).dispatchers region = some d) :
    d = .ofBus "region" {} (.ok ()) := by
  unfold Sample.scheduler at h
  dsimp only at h
  split_ifs at h
  exact (Option.some.inj h).symm

theorem steady_scheduler (region : String) (d : RegionDispatcher)
    (h : (Sample.scheduler (.ok ())).dispatchers region = some d) : d.Steady := by
  obtain rfl := dispatcher_eq h
  exact RegionDispatcher.steady_ofBus _ _ _

theorem firstAccepts (clock : ℕ → Time) (uuid : ℕ → String) :
    FirstAccepts (Sample.scheduler (.ok ())) clock uuid DomainSample.version claimed store := by
  intro artifactMeta candidate candidates _ hrank
  have hmem := mem_candidatesOf_of_ranked List.mem_cons_self hrank
  rw [dispatcher_eq (mem_candidatesOf hmem).2]
  rfl

/-- The report that the attempt is running. -/
def running : AssignmentUpdate where
  hostID := "host"
  region := "region"
  attemptID := "attempt"
  jobID := "job"
  state := .running

end Halfway

open Halfway in
theorem crash_consistent_sample :
    (dispatchJobAttempt (Sample.scheduler (.ok ())) (fun _ => 2) (fun _ => "new")
        DomainSample.version claimed).StopsIn Held store ∧
      (handleAssignmentUpdate { retry := true } 2 running).StopsIn Held store ∧
      (recoverAttempt (fun _ => 2) attempt).StopsIn Held store := by
  obtain ⟨hdispatch, hreport, hrecover⟩ := crash_consistent_iff held_store
  refine ⟨(hdispatch _ _ _ _ _ steady_scheduler fun _ => rfl).mpr (.inr (firstAccepts _ _)),
    (hreport _ _ _).mpr fun a j h => .inl ?_, (hrecover _ _).mpr fun a j h => ?_⟩
  · obtain rfl := Option.some.inj h.attempt
    rfl
  · obtain rfl := Option.some.inj h.attempt
    exact absurd h.passed (by decide)

open Halfway in
/-- The lease of the attempt has passed. Recovery writes it as failed and is stopped at the write of
the job: the job is still assigned, it has no other attempt, and nothing picks it up again. -/
theorem not_crash_consistent :
    ¬ ∀ s : Store, Held s →
      (∀ (sch : Scheduler) (clock : ℕ → Time) (uuid : ℕ → String) (version : FunctionVersion)
        (job : ExecutionJob), (∀ region d, sch.dispatchers region = some d → d.Steady) →
        (∀ n, s.attempts.get (uuid n) = none) → s.executionJobs.get job.id = some job →
        job.state = .scheduling → (dispatchJobAttempt sch clock uuid version job).StopsIn Held s) ∧
      (∀ (c : UpdateContext) (now : Time) (msg : AssignmentUpdate),
        (handleAssignmentUpdate c now msg).StopsIn Held s) ∧
      ∀ (clock : ℕ → Time) (attempt : Attempt), (recoverAttempt clock attempt).StopsIn Held s := by
  intro h
  obtain ⟨-, -, hrecover⟩ := h store held_store
  have hspare := (stopsIn_recoverAttempt_iff held_store (fun _ => 1 + leaseTTL) attempt).mp
    (hrecover _ _) attempt assigned ⟨rfl, rfl, rfl, le_refl _⟩
  obtain ⟨id, hne, a, ha, -⟩ := hspare assigned rfl (by decide)
  rw [store, Store.getAttempt_setAttempt, if_neg hne] at ha
  cases ha

end Execution

end Lecrev

import Lecrev.Execution.System

/-!
# At most one live attempt per job

Scheduling only offers jobs that can be claimed, and a job that can be claimed has no live attempt
as long as late messages do not interfere. Two kinds of events can make a second attempt live:

* a report that brings its attempt back to life, or makes its job claimable, while another attempt
  of the job is live;
* a retry goroutine that runs after the job was dispatched again.

`atMostOneLive_of_exclusive` shows that nothing else does: when no event of these kinds occurs, the
invariant `Sole` holds in every state reached.
-/

namespace Lecrev

/-- The attempt `attemptID` of the job is stored and in a non-terminal state. -/
def Store.Live (s : Store) (jobID attemptID : String) : Prop :=
  ∃ a, s.attempts.get attemptID = some a ∧ a.jobID = jobID ∧ a.state.terminal = false

theorem Store.live_setAttempt_iff (s : Store) (a : Attempt) (jobID attemptID : String) :
    (s.setAttempt a).Live jobID attemptID ↔
      (attemptID = a.id ∧ a.jobID = jobID ∧ a.state.terminal = false) ∨
        (attemptID ≠ a.id ∧ s.Live jobID attemptID) := by
  by_cases hid : attemptID = a.id
  · simp [Store.Live, hid]
  · simp [Store.Live, hid]

theorem Store.SameView.live_iff {s s' : Store} (h : s.SameView s') (jobID attemptID : String) :
    s'.Live jobID attemptID ↔ s.Live jobID attemptID := by
  simp only [Store.Live, h.attempts]

namespace Execution

/-- Each job has at most one attempt in a non-terminal state. -/
def AtMostOneLive (s : Store) : Prop :=
  ∀ jobID x y, s.Live jobID x → s.Live jobID y → x = y

/-- The states of a job that waits for the scheduler. -/
def waiting : List JobState := [.queued, .scheduling, .retrying]

/-- The invariant behind `AtMostOneLive`: jobs that wait for the scheduler have no live attempt. -/
structure Sole (s : Store) : Prop where
  one : AtMostOneLive s
  idle : ∀ k j, s.executionJobs.get k = some j → j.state ∈ waiting → ∀ x, ¬ s.Live k x
  known : ∀ k x, s.Live k x → s.executionJobs.get k ≠ none

/-- The report brings its attempt back to life or makes its job claimable. -/
def Revives (retry : Bool) (j : ExecutionJob) (msg : AssignmentUpdate) : Prop :=
  msg.state = .starting ∨ msg.state = .running ∨
    msg.state = .failed ∧ j.hasBudget = true ∧ retry = true

/-- The condition on an event: a report that revives does so while no other attempt of its job is
live, and a retry goroutine that requeues a job runs while no attempt of it is live. -/
def Exclusive (s : State) : Event → Prop
  | .update c _ msg => ∀ a j, Reports c msg s.store a j → Revives c.retry j msg →
      ∀ x, x ≠ msg.attemptID → ¬ s.store.Live msg.jobID x
  | .retry _ jobID => ∀ j, s.store.executionJobs.get jobID = some j → j.hasBudget = true →
      ∀ x, ¬ s.store.Live jobID x
  | _ => True

theorem Sole.of_live_imp {s s' : Store} (hs : Sole s)
    (hlive : ∀ k x, s'.Live k x → s.Live k x)
    (hstored : ∀ k, s.executionJobs.get k ≠ none → s'.executionJobs.get k ≠ none)
    (hidle : ∀ k j', s'.executionJobs.get k = some j' → j'.state ∈ waiting →
      (∃ j, s.executionJobs.get k = some j ∧ j.state ∈ waiting) ∨ ∀ x, ¬ s'.Live k x) :
    Sole s' where
  one jobID x y hx hy := hs.one jobID x y (hlive _ _ hx) (hlive _ _ hy)
  idle k j' hj' hwaiting x hx := by
    obtain ⟨j, hj, hw⟩ | hnone := hidle k j' hj' hwaiting
    · exact hs.idle k j hj hw x (hlive k x hx)
    · exact hnone x hx
  known k x hx := hstored k (hs.known k x (hlive k x hx))

theorem Sole.of_sameView {s s' : Store} (hs : Sole s) (hsame : s.SameView s') : Sole s' := by
  refine hs.of_live_imp (fun k x => (hsame.live_iff k x).mp) (fun k hk => ?_)
    fun k j' hj' hwaiting => .inl ⟨j', (hsame.jobs k).symm.trans hj', hwaiting⟩
  rwa [hsame.jobs]

theorem Sole.setJob {s t : Store} (hs : Sole s) {j' : ExecutionJob}
    (hjobs : t.executionJobs = s.executionJobs) (hlive : ∀ k x, t.Live k x → s.Live k x)
    (hown : j'.state ∈ waiting → ∀ x, ¬ t.Live j'.id x) : Sole (t.setJob j') := by
  have hget : ∀ k, (t.setJob j').executionJobs.get k =
      if k = j'.id then some j' else s.executionJobs.get k := by
    intro k
    rw [Store.getJob_setJob, hjobs]
  refine hs.of_live_imp hlive (fun k hk => ?_) fun k j hj hwaiting => ?_
  · rw [hget]
    split_ifs
    · simp
    · exact hk
  · rw [hget] at hj
    split_ifs at hj with hid
    · cases hj
      subst hid
      exact .inr (hown hwaiting)
    · exact .inl ⟨j, hj, hwaiting⟩

section Reported

variable {c : UpdateContext} {now : Time} {msg : AssignmentUpdate} {s : Store} {a : Attempt}
  {j : ExecutionJob}

theorem live_reported_iff (h : Reports c msg s a j) (hown : a.jobID = msg.jobID) (now : Time)
    (k x : String) :
    (s.setAttempt (a.afterUpdate msg now)).Live k x ↔
      (x = msg.attemptID ∧ msg.jobID = k ∧ (a.afterUpdate msg now).state.terminal = false) ∨
        (x ≠ msg.attemptID ∧ s.Live k x) := by
  have hid : a.id = msg.attemptID := Store.attemptID_of_get h.attempt
  rw [Store.live_setAttempt_iff, Attempt.id_afterUpdate, Attempt.jobID_afterUpdate, hid, hown]

/-- A live report is harmless if no other attempt is live. -/
theorem sole_reported_live (hs : Sole s) (h : Reports c msg s a j) (hown : a.jobID = msg.jobID)
    (hstate : msg.state = .starting ∨ msg.state = .running)
    (hothers : ∀ x, x ≠ msg.attemptID → ¬ s.Live msg.jobID x) :
    Sole ((s.setAttempt (a.afterUpdate msg now)).setJob
      (j.afterUpdate c.retry a.startedAt msg now)) := by
  have hjid : j.id = msg.jobID := Store.jobID_of_get h.job
  have hlive := live_reported_iff h hown now
  have hactive : (j.afterUpdate c.retry a.startedAt msg now).state ∉ waiting := by
    rcases hstate with hstate | hstate <;> simp [ExecutionJob.afterUpdate, hstate, waiting]
  constructor
  case one =>
    intro k x y hx hy
    -- in the job of the report only the reported attempt is live
    obtain ⟨rfl, -, -⟩ | ⟨hxne, hx⟩ := (hlive k x).mp hx <;>
      obtain ⟨rfl, hk, -⟩ | ⟨hyne, hy⟩ := (hlive k y).mp hy
    · rfl
    · obtain ⟨-, hk, -⟩ | ⟨hne, -⟩ := (hlive k msg.attemptID).mp ‹_›
      · subst hk
        exact absurd hy (hothers y hyne)
      · exact absurd rfl hne
    · subst hk
      exact absurd hx (hothers x hxne)
    · exact hs.one k x y hx hy
  case idle =>
    intro k j' hj' hwaiting x hx
    rw [Store.getJob_setJob, ExecutionJob.id_afterUpdate, hjid] at hj'
    split_ifs at hj' with hk
    · cases hj'
      exact hactive hwaiting
    · obtain ⟨-, hk', -⟩ | ⟨-, hx⟩ := (hlive k x).mp hx
      · exact hk hk'.symm
      · exact hs.idle k j' hj' hwaiting x hx
  case known =>
    intro k x hx
    rw [Store.getJob_setJob, ExecutionJob.id_afterUpdate, hjid]
    split_ifs with hk
    · simp
    · obtain ⟨-, hk', -⟩ | ⟨-, hx⟩ := (hlive k x).mp hx
      · exact absurd hk'.symm hk
      · exact hs.known k x hx

/-- **A report keeps the invariant** when it revives only while no other attempt is live. -/
theorem sole_reported (hs : Sole s) (h : Reports c msg s a j) (hown : a.jobID = msg.jobID)
    (hothers : Revives c.retry j msg → ∀ x, x ≠ msg.attemptID → ¬ s.Live msg.jobID x) :
    Sole ((s.setAttempt (a.afterUpdate msg now)).setJob
      (j.afterUpdate c.retry a.startedAt msg now)) := by
  have hjid : j.id = msg.jobID := Store.jobID_of_get h.job
  have hlive := live_reported_iff h hown now
  -- a final report ends its attempt
  have hover : msg.state = .succeeded ∨ msg.state = .failed → ∀ k x,
      (s.setAttempt (a.afterUpdate msg now)).Live k x → x ≠ msg.attemptID ∧ s.Live k x := by
    intro hfinal k x hx
    obtain ⟨-, -, hx⟩ | hx := (hlive k x).mp hx
    · rcases hfinal with hstate | hstate <;>
        simp [Attempt.afterUpdate, hstate, AttemptState.terminal] at hx
    · exact hx
  cases hstate : msg.state with
  | starting => exact sole_reported_live hs h hown (.inl hstate) (hothers (.inl hstate))
  | running => exact sole_reported_live hs h hown (.inr hstate) (hothers (.inr (.inl hstate)))
  | unspecified =>
    -- the attempt keeps its state, and so does the job
    have hsame : ∀ k x, (s.setAttempt (a.afterUpdate msg now)).Live k x → s.Live k x := by
      intro k x hx
      obtain ⟨rfl, rfl, hsame⟩ | ⟨-, hx⟩ := (hlive k x).mp hx
      · exact ⟨a, h.attempt, hown, by simpa [Attempt.afterUpdate, hstate] using hsame⟩
      · exact hx
    refine hs.setJob rfl hsame fun hwaiting x hx => ?_
    rw [ExecutionJob.id_afterUpdate, hjid] at hx
    have hbefore : j.state ∈ waiting := by
      simpa [ExecutionJob.afterUpdate, hstate] using hwaiting
    exact hs.idle _ j h.job hbefore x (hsame _ x hx)
  | succeeded =>
    refine hs.setJob rfl (fun k x hx => (hover (.inl hstate) k x hx).2) fun hwaiting => ?_
    simp [ExecutionJob.afterUpdate, hstate, waiting] at hwaiting
  | failed =>
    have hlost := hover (.inr hstate)
    refine hs.setJob rfl (fun k x hx => (hlost k x hx).2) fun hwaiting x hx => ?_
    rw [ExecutionJob.id_afterUpdate, hjid] at hx
    -- the job waits again only if the failure made it retry
    have hrevives : Revives c.retry j msg := by
      simp only [ExecutionJob.afterUpdate, hstate, ExecutionJob.stateAfterFailure] at hwaiting
      by_cases hretry : (j.hasBudget && c.retry) = true
      · simpa [Revives, hstate] using hretry
      · simp [hretry, waiting] at hwaiting
    exact hothers hrevives x (hlost _ x hx).1 (hlost _ x hx).2

end Reported

theorem sole_recovered {clock : ℕ → Time} {attempt : Attempt} {s : Store} {a : Attempt}
    {j : ExecutionJob} (hs : Sole s) (h : Recovers clock attempt s a j)
    (hown : a.jobID = attempt.jobID) :
    Sole ((s.setAttempt (a.expired (clock 1))).setJob (j.recovered clock)) := by
  have hjid : j.id = attempt.jobID := Store.jobID_of_get h.job
  have haid : a.id = attempt.id := Store.attemptID_of_get h.attempt
  have hlive : ∀ k x, (s.setAttempt (a.expired (clock 1))).Live k x →
      x ≠ attempt.id ∧ s.Live k x := by
    intro k x hx
    rw [Store.live_setAttempt_iff] at hx
    obtain ⟨-, -, hx⟩ | ⟨hne, hx⟩ := hx
    · simp [Attempt.expired, AttemptState.terminal] at hx
    · exact ⟨haid ▸ hne, hx⟩
  refine hs.setJob rfl (fun k x hx => (hlive k x hx).2) fun _ x hx => ?_
  rw [ExecutionJob.id_recovered, hjid] at hx
  obtain ⟨hne, hx⟩ := hlive _ x hx
  exact hne (hs.one _ x attempt.id hx ⟨a, h.attempt, hown, h.live⟩)

/-- Offering an idle job makes one attempt live. -/
theorem sole_offered {uuid : ℕ → String} {job : ExecutionJob} {taken : Option Assignment}
    {s s' : Store} (hs : Sole s) (hidle : ∀ x, ¬ s.Live job.id x)
    (h : Offered uuid 0 job taken s s') : Sole s' := by
  obtain ⟨j', hj', -, hnone, hsome⟩ := h.own
  -- a live attempt was live before or is the accepted one
  have hlive : ∀ k x, s'.Live k x → (k ≠ job.id ∧ s.Live k x) ∨
      (k = job.id ∧ ∃ assignment, taken = some assignment ∧ assignment.attemptID = x) := by
    rintro k x ⟨a, ha, rfl, hlive⟩
    obtain hold | ⟨hjob, hfailed | haccepted⟩ := h.made x a ha
    · have hlive' : s.Live a.jobID x := ⟨a, hold, rfl, hlive⟩
      refine .inl ⟨fun hk => hidle x (hk ▸ hlive'), hlive'⟩
    · simp [hfailed, AttemptState.terminal] at hlive
    · exact .inr ⟨hjob, haccepted⟩
  constructor
  case one =>
    intro k x y hx hy
    obtain ⟨hk, hx⟩ | ⟨hk, assignment, htaken, rfl⟩ := hlive k x hx <;>
      obtain ⟨hk', hy⟩ | ⟨hk', assignment', htaken', rfl⟩ := hlive k y hy
    · exact hs.one k x y hx hy
    · exact absurd hk' hk
    · exact absurd hk hk'
    · cases htaken.symm.trans htaken'
      rfl
  case idle =>
    intro k j hj hwaiting x hx
    obtain ⟨hk, hx⟩ | ⟨rfl, assignment, htaken, -⟩ := hlive k x hx
    · exact hs.idle k j ((h.otherJobs k hk).symm.trans hj) hwaiting x hx
    · cases hj'.symm.trans hj
      simp [(hsome (by simp [htaken])).1, waiting] at hwaiting
  case known =>
    intro k x hx
    obtain ⟨hk, hx⟩ | ⟨rfl, -⟩ := hlive k x hx
    · rw [h.otherJobs k hk]
      exact hs.known k x hx
    · simp [hj']

/-- An exclusive event keeps one live attempt per job. -/
theorem Effect.sole {s : State} {s' : Store} {e : Event} (h : Effect s.store e s')
    (hbelongs : Belongs s e) (hexclusive : Exclusive s e) (hs : Sole s.store) : Sole s' := by
  cases h with
  | same hsame => exact hs.of_sameView hsame
  | @created _ _ id _ _ hfresh =>
    exact hs.setJob rfl (fun _ _ hx => hx) fun _ x hx => hs.known id x hx hfresh
  | scheduled job hfresh hstored hclaim hscheduled =>
    have hwaiting : job.state ∈ waiting := by
      simp only [claimable, List.mem_cons, List.not_mem_nil, or_false] at hclaim
      rcases hclaim with hclaim | hclaim <;> simp [hclaim, waiting]
    cases hscheduled with
    | abandoned error now hsame =>
      refine Sole.of_sameView (hs.setJob rfl (fun _ _ hx => hx) fun hstate => ?_) hsame
      simp [ExecutionJob.abandoned, waiting] at hstate
    | offered hbudget taken hoffered =>
      exact sole_offered hs (hs.idle _ _ hstored hwaiting) hoffered
  | reported a j hreports hsame =>
    exact (sole_reported hs hreports (hbelongs a hreports.attempt)
      (hexclusive a j hreports)).of_sameView hsame
  | retried j hstored =>
    refine hs.setJob rfl (fun _ _ hx => hx) fun hwaiting => ?_
    rw [ExecutionJob.id_afterRetry, Store.jobID_of_get hstored]
    -- without budget the retry goroutine fails the job, which then waits for nothing
    refine hexclusive j hstored ?_
    rw [ExecutionJob.state_afterRetry] at hwaiting
    by_contra hspent
    simp [hspent, waiting] at hwaiting
  | recovered a j hrecovers hown hsame =>
    exact (sole_recovered hs hrecovers hown).of_sameView hsame
  | requeued =>
    refine hs.of_live_imp (fun _ _ hx => hx) (fun k hk => by simpa using hk)
      fun k j' hj' hwaiting => .inl ?_
    rw [Store.getJob_requeueStale] at hj'
    obtain ⟨j, hj, rfl⟩ := Option.map_eq_some_iff.mp hj'
    refine ⟨j, hj, ?_⟩
    -- only claimed jobs are requeued, and a claimed job waits already
    by_cases hstate : j.state = .scheduling
    · simp [hstate, waiting]
    · simpa [requeueIfStale, hstate] using hwaiting

/-- **At most one live attempt per job** in every state reached by events that all meet the
condition, from a store without jobs. -/
theorem atMostOneLive_of_exclusive {s : State} (hs : Initial s) {es : List Event}
    (hruns : system.EveryStep (fun t e => Enabled t e ∧ Belongs t e ∧ Exclusive t e) s es) :
    AtMostOneLive (system.exec s es).store := by
  have hnone : ∀ k x, ¬ s.store.Live k x := by
    rintro k x ⟨a, ha, -⟩
    simp [hs.attempts] at ha
  have hsole : Sole (system.exec s es).store := by
    refine hruns.invariant (P := fun t => Sole t.store) ?_ fun t e he ht =>
      (effect_step he.1).sole he.2.1 he.2.2 ht
    exact ⟨fun k x _ hx _ => absurd hx (hnone k x), fun k _ _ _ x => hnone k x,
      fun k x hx => absurd hx (hnone k x)⟩
  exact hsole.one

theorem not_live_of_values {s : Store} {id : String}
    (h : ∀ a ∈ s.attempts.values, a.state.terminal = false → a.id = id) {x : String} (hx : x ≠ id)
    (jobID : String) : ¬ s.Live jobID x := by
  rintro ⟨a, ha, -, hlive⟩
  exact hx ((Store.attemptID_of_get ha).symm.trans (h a (Table.mem_values_of_get ha) hlive))

/-- The first attempt starts and loses its lease; only then does the second one start. -/
theorem atMostOneLive_of_exclusive_sample :
    AtMostOneLive (system.exec Sample.start [Sample.enqueue,
      Sample.schedule (.ok ()) 20 "attempt-1", Sample.report 30 "attempt-1" .starting,
      Sample.recover (100 * second) "attempt-1",
      Sample.schedule (.ok ()) (101 * second) "attempt-2",
      Sample.report (102 * second) "attempt-2" .starting]).store := by
  refine atMostOneLive_of_exclusive Sample.initial_start ?_
  refine ⟨⟨rfl, trivial, trivial⟩, ⟨fun _ => rfl, trivial, trivial⟩,
    ⟨trivial, fun a ha => ?_, fun _ _ _ _ x hx => not_live_of_values (by decide +kernel) hx _⟩,
    ⟨⟨_, rfl, rfl⟩, trivial, trivial⟩, ⟨fun _ => rfl, trivial, trivial⟩,
    ⟨trivial, fun a ha => ?_, fun _ _ _ _ x hx => not_live_of_values (by decide +kernel) hx _⟩,
    trivial⟩
  · cases ha
    rfl
  · cases ha
    rfl

/-- The bound fails although every agent sends its reports once and in order: the first attempt
loses its lease, a second one is dispatched, and then the first agent's heartbeat arrives. -/
theorem not_atMostOneLive :
    ¬ ∀ (s : State) (es : List Event), Initial s →
      system.EveryStep (fun t e => Enabled t e ∧ Belongs t e ∧ Dispatched t e) s es →
      (∀ attemptID, inOrder (reportsOf attemptID es) = true) →
      AtMostOneLive (system.exec s es).store := by
  intro h
  have hone := h Sample.start [Sample.enqueue, Sample.schedule (.ok ()) 20 "attempt-1",
      Sample.report 30 "attempt-1" .starting, Sample.recover (100 * second) "attempt-1",
      Sample.schedule (.ok ()) (101 * second) "attempt-2",
      Sample.report (102 * second) "attempt-1" .running] Sample.initial_start
    (by
      refine ⟨⟨rfl, trivial, trivial⟩, ⟨fun _ => rfl, trivial, trivial⟩,
        ⟨trivial, fun a ha => ?_, _, .head _, rfl, rfl⟩, ⟨⟨_, rfl, rfl⟩, trivial, trivial⟩,
        ⟨fun _ => rfl, trivial, trivial⟩,
        ⟨trivial, fun a ha => ?_, _, .tail _ (.head _), rfl, rfl⟩, trivial⟩
      · cases ha
        rfl
      · cases ha
        rfl)
    (fun attemptID => by
      by_cases hid : "attempt-1" = attemptID <;>
        simp [reportsOf, Sample.enqueue, Sample.schedule, Sample.recover, Sample.report, hid,
          inOrder])
  have hsame := hone "job" "attempt-1" "attempt-2" ⟨_, rfl, rfl, rfl⟩ ⟨_, rfl, rfl, rfl⟩
  exact absurd hsame (by decide)

end Execution

end Lecrev

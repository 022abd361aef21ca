import Lecrev.Direct.Failover

/-!
# The first region that accepts

`dispatchJobAttempt` offers a job to the ranked regions one after the other. Its purpose is stated
by `ReachesFirstAccepting`: the job goes to the first region whose dispatcher accepts it, and back
to the queue if there is none.

The loop does so for refusals of any other kind, but a region without capacity ends it
(`run_offerCandidates_of_refused`). So the job reaches the first accepting region exactly when no
region before it reports missing capacity. The loop of a direct invocation goes on after such a
report (`result_failover`).
-/

namespace Lecrev

/-! ## The purpose of the loop -/

/-- The dispatcher of the `n`-th candidate answers the attempt `uuid (i + n)`, which is made for it,
with `answers (i + n)`, in every state of the store. -/
def Answers (uuid : ℕ → String) (answers : ℕ → Except Err Unit) (i : ℕ)
    (candidates : List Candidate) : Prop :=
  ∀ n candidate, candidates[n]? = some candidate → ∀ a t, a.attemptID = uuid (i + n) →
    ((candidate.dispatcher.enqueueExecution a).run t).1 = answers (i + n)

/-- An attempt of the job is stored, in the given region and state. -/
def Store.HasAttempt (t : Store) (id jobID region : String) (state : AttemptState) : Prop :=
  ∃ a, t.attempts.get id = some a ∧ a.jobID = jobID ∧ a.region = region ∧ a.state = state

/-- The job is assigned to the `n`-th candidate, after the candidates before it have refused. -/
structure AssignedTo (uuid : ℕ → String) (i : ℕ) (candidates : List Candidate) (n : ℕ)
    (region : String) (job : ExecutionJob) (t : Store) : Prop where
  own : ∃ job', t.executionJobs.get job.id = some job' ∧ job'.state = .assigned ∧
    job'.targetRegion = region ∧ job'.lastAttemptID = uuid (i + n) ∧
    job'.attemptCount = job.attemptCount + 1
  attempt : t.HasAttempt (uuid (i + n)) job.id region .assigned
  refused : ∀ m < n, ∀ candidate, candidates[m]? = some candidate →
    t.HasAttempt (uuid (i + m)) job.id candidate.region .failed

/-- The job is back in the queue, and whatever attempts were made of it have failed. -/
structure BackInQueue (job : ExecutionJob) (s t : Store) : Prop where
  own : ∃ job', t.executionJobs.get job.id = some job' ∧ job'.state = .queued ∧
    job'.targetRegion = "" ∧ job'.attemptCount = job.attemptCount
  made : ∀ id a, t.attempts.get id = some a →
    s.attempts.get id = some a ∨ a.jobID = job.id ∧ a.state = .failed

/-- **The purpose of the loop over the candidates**, for dispatchers with the given answers: the
first one that accepts gets the job; if there is none the job goes back to the queue. -/
structure ReachesFirstAccepting (uuid : ℕ → String) (answers : ℕ → Except Err Unit)
    (candidates : List Candidate) (job : ExecutionJob) (s t : Store) : Prop where
  accepted : ∀ n candidate, candidates[n]? = some candidate → answers n = .ok () →
    (∀ m < n, answers m ≠ .ok ()) → AssignedTo uuid 0 candidates n candidate.region job t
  refused : (∀ n < candidates.length, answers n ≠ .ok ()) → BackInQueue job s t

/-- The answer reports missing capacity. -/
def LacksCapacity (answer : Except Err Unit) : Prop := ∃ e, answer = .error e ∧ e.isCapacity = true

/-! ## What the loop does -/

section Loop

variable {clock : ℕ → Time} {uuid : ℕ → String} {answers : ℕ → Except Err Unit}
  {version : FunctionVersion} {artifactMeta : Artifact} {now : Time} {i : ℕ}
  {candidate : Candidate} {candidates : List Candidate} {dispatchErrors : List String}
  {job : ExecutionJob} {s t : Store}

theorem Answers.head (h : Answers uuid answers i (candidate :: candidates)) {a : Assignment}
    {r : Except Err Unit} (hid : a.attemptID = uuid i)
    (hrun : (candidate.dispatcher.enqueueExecution a).run s = (r, t)) : r = answers i := by
  have hanswer := h 0 candidate rfl a s hid
  rw [hrun] at hanswer
  exact hanswer

theorem Answers.tail (h : Answers uuid answers i (candidate :: candidates)) :
    Answers uuid answers (i + 1) candidates := by
  intro n c hc a t ha
  rw [Nat.add_right_comm, Nat.add_assoc] at ha ⊢
  exact h (n + 1) c hc a t ha

variable (job) in
theorem hasAttempt_offerCandidates {id region : String} {state : AttemptState}
    (h : s.HasAttempt id job.id region state) (hid : ∀ n, i ≤ n → id ≠ uuid n) :
    Store.HasAttempt ((offerCandidates clock uuid version artifactMeta now i candidates
      dispatchErrors job).run s).2 id job.id region state := by
  obtain ⟨a, hget, ha⟩ := h
  obtain ⟨taken, hoffered⟩ :=
    offered_offerCandidates clock uuid version artifactMeta now i candidates dispatchErrors job s
  exact ⟨a, hoffered.kept id a hget hid, ha⟩

variable (dispatchErrors job s) in
/-- The job is assigned to the first region that accepts it. -/
theorem assignedTo_offerCandidates (huuid : Function.Injective uuid) {n : ℕ}
    (hanswers : Answers uuid answers i candidates) (hn : candidates[n]? = some candidate)
    (haccepts : answers (i + n) = .ok ())
    (hbefore : ∀ m < n, answers (i + m) ≠ .ok () ∧ ¬ LacksCapacity (answers (i + m))) :
    AssignedTo uuid i candidates n candidate.region job
      ((offerCandidates clock uuid version artifactMeta now i candidates dispatchErrors job).run
        s).2 := by
  induction candidates generalizing n i dispatchErrors job s with
  | nil => simp at hn
  | cons first candidates ih =>
    rcases hrun : (first.dispatcher.enqueueExecution
      (offeredAssignment (uuid i) first.region version artifactMeta job now)).run
        (s.offering (uuid i) first.region version job now) with ⟨e | ⟨⟩, t⟩
    · have hfirst : .error e = answers i := hanswers.head rfl hrun
      have hans := answered_of_run hrun
      cases n with
      | zero =>
        rw [Nat.add_zero, ← hfirst] at haccepts
        cases haccepts
      | succ n =>
        have hother : ¬ e.isCapacity = true := by
          intro hcapacity
          exact (hbefore 0 n.succ_pos).2 ⟨e, hfirst.symm, hcapacity⟩
        rw [run_offerCandidates_of_refused candidates dispatchErrors hrun]
        simp only [if_neg hother]
        have hshift (m : ℕ) : i + (m + 1) = i + 1 + m := by omega
        rw [hshift] at haccepts
        have hrest := ih (dispatchErrors ++ [first.region ++ ": " ++ e.text])
          (job.offered (uuid i) first.region now)
          (t.setAttempt
            ((newAttempt (uuid i) first.region version job now).refused e.text (clock i)))
          hanswers.tail hn haccepts fun m hm => by
            rw [← hshift]
            exact hbefore (m + 1) (Nat.succ_lt_succ hm)
        refine ⟨?_, ?_, ?_⟩
        · rw [hshift n]
          exact hrest.own
        · rw [hshift n]
          exact hrest.attempt
        · intro m hm c hc
          cases m with
          | zero =>
            -- the refused attempt is written before the loop goes on, under an identifier of its
            -- own
            obtain rfl := Option.some.inj hc
            refine hasAttempt_offerCandidates (job.offered (uuid i) first.region now)
              ⟨_, (hans.get_refused e.text (clock i) _).trans (if_pos rfl), rfl, rfl, rfl⟩ ?_
            intro k hk heq
            have := huuid heq
            omega
          | succ m =>
            rw [hshift m]
            exact hrest.refused m (Nat.lt_of_succ_lt_succ hm) c hc
    · have hfirst : .ok () = answers i := hanswers.head rfl hrun
      obtain ⟨host, mode, time, hown⟩ := (answered_of_run hrun).own
      rw [run_offerCandidates_of_accepted candidates dispatchErrors hrun]
      cases n with
      | zero =>
        obtain rfl := Option.some.inj hn
        exact ⟨⟨_, (Store.getJob_setJob _ _ _).trans (if_pos rfl), rfl, rfl, rfl, rfl⟩,
          ⟨_, hown, rfl, rfl, rfl⟩, fun m hm => absurd hm m.not_lt_zero⟩
      | succ n => exact absurd hfirst.symm (hbefore 0 n.succ_pos).1

variable (clock version artifactMeta now dispatchErrors job s) in
/-- A job that no region takes is back in the queue. -/
theorem requeued_offerCandidates (hanswers : Answers uuid answers i candidates)
    (hrefused : ∀ n < candidates.length, answers (i + n) = .ok () →
      ∃ m < n, LacksCapacity (answers (i + m))) :
    ∃ job', ((offerCandidates clock uuid version artifactMeta now i candidates dispatchErrors
      job).run s).2.executionJobs.get job.id = some job' ∧ job'.state = .queued ∧
      job'.targetRegion = "" := by
  induction candidates generalizing i dispatchErrors job s with
  | nil => exact ⟨_, (Store.getJob_setJob _ _ _).trans (if_pos rfl), rfl, rfl⟩
  | cons first candidates ih =>
    rcases hrun : (first.dispatcher.enqueueExecution
      (offeredAssignment (uuid i) first.region version artifactMeta job now)).run
        (s.offering (uuid i) first.region version job now) with ⟨e | ⟨⟩, t⟩
    · have hfirst : .error e = answers i := hanswers.head rfl hrun
      rw [run_offerCandidates_of_refused candidates dispatchErrors hrun]
      dsimp only
      split_ifs with hcapacity
      · exact ⟨_, (Store.getJob_setJob _ _ _).trans (if_pos rfl), rfl, rfl⟩
      · refine ih _ (job.offered (uuid i) first.region now) _ hanswers.tail fun n hn haccepts => ?_
        have hshift (m : ℕ) : i + (m + 1) = i + 1 + m := by omega
        rw [← hshift] at haccepts
        obtain ⟨m, hm, hlacks⟩ := hrefused (n + 1) (Nat.succ_lt_succ hn) haccepts
        -- it is not the first candidate that lacks capacity
        cases m with
        | zero =>
          rw [Nat.add_zero, ← hfirst] at hlacks
          obtain ⟨e', he', hcapacity'⟩ := hlacks
          cases he'
          exact absurd hcapacity' hcapacity
        | succ m =>
          rw [hshift] at hlacks
          exact ⟨m, Nat.lt_of_succ_lt_succ hm, hlacks⟩
    · have hfirst : .ok () = answers i := hanswers.head rfl hrun
      obtain ⟨m, hm, -⟩ := hrefused 0 (Nat.succ_pos _) hfirst.symm
      exact absurd hm m.not_lt_zero

theorem backInQueue_offerCandidates (hanswers : Answers uuid answers i candidates)
    (hrefused : ∀ n < candidates.length, answers (i + n) = .ok () →
      ∃ m < n, LacksCapacity (answers (i + m))) :
    BackInQueue job s ((offerCandidates clock uuid version artifactMeta now i candidates
      dispatchErrors job).run s).2 := by
  obtain ⟨job', hget, hqueued, hregion⟩ := requeued_offerCandidates clock version artifactMeta
    now dispatchErrors job s hanswers hrefused
  obtain ⟨taken, hoffered⟩ :=
    offered_offerCandidates clock uuid version artifactMeta now i candidates dispatchErrors job s
  obtain ⟨own, hown, -, hnone, hsome⟩ := hoffered.own
  obtain rfl := Option.some.inj (hget.symm.trans hown)
  have htaken : taken = none := by
    by_contra hne
    rw [(hsome hne).1] at hqueued
    cases hqueued
  refine ⟨⟨job', hget, hqueued, hregion, (hnone htaken).2⟩, fun id a ha => ?_⟩
  refine (hoffered.made id a ha).imp_right fun ⟨hjob, hstate⟩ => ⟨hjob, ?_⟩
  refine hstate.resolve_right ?_
  rintro ⟨assignment, hassignment, -⟩
  rw [htaken] at hassignment
  cases hassignment

end Loop

/-! ## The loop of a direct invocation -/

section Direct

open Direct

variable {direct : String → Dispatcher} {newAssignment : ℕ → Assignment}
  {before after : List Candidate} {candidate : Candidate} {method : Assignment → Behaviour}
  {result : DirectExecutionResult}

theorem not_cancellation_of_isCapacity {e : Err} (h : e.isCapacity = true) :
    cancellation e = false := by
  unfold Err.isCapacity at h
  unfold cancellation
  split at h
  · next detail hroot => simp [hroot]
  · cases h

/-- The first result ends the loop. -/
theorem result_failover (hmethod : (direct candidate.region).method = some method)
    (hresult : ∀ a, (method a).outcome = .ok result)
    (hbefore : ∀ c ∈ before, ∀ m, (direct c.region).method = some m →
      ∀ a, ∃ e, (m a).outcome = .error e ∧ e.isCapacity = true)
    (i : ℕ) (f : Failures) (w : CallState) :
    ((failover direct newAssignment i (before ++ candidate :: after) f).run w).1 = .ok result := by
  induction before generalizing i f w with
  | nil =>
    rw [List.nil_append]
    unfold failover
    rw [hmethod]
    have houtcome : ((method (newAssignment i)).attempt (newAssignment i).attemptID
        w.executions).1 = .ok result := by rw [Behaviour.fst_attempt, hresult]
    simp only [Prog.run_bind, Prog.run_result, run_dispatchDirect, houtcome, Prog.run_pure]
  | cons c before ih =>
    obtain ⟨hc, hrest⟩ := List.forall_mem_cons.mp hbefore
    rw [List.cons_append]
    unfold failover
    cases hm : (direct c.region).method with
    | none => exact ih hrest i f w
    | some m =>
      obtain ⟨e, houtcome, hcapacity⟩ := hc m hm (newAssignment i)
      have hattempt : ((m (newAssignment i)).attempt (newAssignment i).attemptID
          w.executions).1 = .error e := by rw [Behaviour.fst_attempt, houtcome]
      simp only [Prog.run_bind, Prog.run_result, run_dispatchDirect, hattempt,
        not_cancellation_of_isCapacity hcapacity, Bool.false_eq_true, if_false]
      exact ih hrest _ _ _

theorem result_executeDirectStream {sch : Scheduler} {uuid : ℕ → String} {now : Time}
    {versionID : String} {payload : Bytes} {w : CallState} {version : FunctionVersion}
    {artifactMeta : Artifact}
    (hversion : w.store.functions.get versionID = some version) (hready : version.state = .ready)
    (hartifact : w.store.artifacts.get version.artifactDigest = some artifactMeta)
    (hrank : ((rankDispatchers sch (fun _ => now) version).run w.store).1 =
      .ok (before ++ candidate :: after))
    (hmethod : (direct candidate.region).method = some method)
    (hresult : ∀ a, (method a).outcome = .ok result)
    (hbefore : ∀ c ∈ before, ∀ m, (direct c.region).method = some m →
      ∀ a, ∃ e, (m a).outcome = .error e ∧ e.isCapacity = true) :
    ((executeDirectStream sch direct uuid now versionID payload).run w).1 = .ok result := by
  have hmem : candidate ∈ before ++ candidate :: after := by simp
  obtain ⟨hregion, hdispatcher⟩ := mem_candidatesOf (mem_candidatesOf_of_ranked hmem hrank)
  have hdirect : hasDirectDispatcher sch direct version = true := by
    refine List.any_eq_true.mpr ⟨candidate.region, hregion, ?_⟩
    have hexecute : (direct candidate.region).executeDirect.isSome = true := by
      unfold Dispatcher.method at hmethod
      cases hd : (direct candidate.region).executeDirect with
      | none => simp [hd] at hmethod
      | some f => rfl
    simp [hdispatcher, hexecute]
  have hrun : (rankDispatchers sch (fun _ => now) version).run w.store =
      (.ok (before ++ candidate :: after), w.store) :=
    Prod.ext hrank (run_rankDispatchers_snd _ _ _ _)
  simp only [executeDirectStream, Prog.run_bind, run_fromStore, run_getFunctionVersion,
    find_of_get _ hversion, hready, ne_eq, not_true_eq_false, if_false, hdirect, Bool.not_true,
    Bool.false_eq_true, run_getArtifact, find_of_get _ hartifact, hrun]
  exact result_failover hmethod hresult hbefore _ _ _

end Direct

/-! ## Dispatching an attempt -/

theorem run_dispatchJobAttempt {sch : Scheduler} {clock : ℕ → Time} {version : FunctionVersion}
    {artifactMeta : Artifact} {candidates : List Candidate} {s : Store} (uuid : ℕ → String)
    (job : ExecutionJob) (hartifact : s.artifacts.get version.artifactDigest = some artifactMeta)
    (hrank : ((rankDispatchers sch (fun _ => clock 1) version).run s).1 = .ok candidates) :
    (dispatchJobAttempt sch clock uuid version job).run s =
      (offerCandidates (fun i => clock (i + 2)) uuid version artifactMeta (clock 0) 0 candidates []
        job).run s := by
  have hrun : (rankDispatchers sch (fun _ => clock 1) version).run s = (.ok candidates, s) :=
    Prod.ext hrank (run_rankDispatchers_snd _ _ _ _)
  simp only [dispatchJobAttempt, Prog.run_bind, Prog.run_result, run_getArtifact,
    find_of_get _ hartifact, hrun]

/-- **The job reaches the first region that accepts it** if and only if no region before that one
reports missing capacity. A direct invocation reaches it past such reports. -/
theorem dispatch_reaches_first_accepting_iff {sch : Scheduler} {clock : ℕ → Time}
    {uuid : ℕ → String} {version : FunctionVersion} {artifactMeta : Artifact}
    {candidates : List Candidate} {answers : ℕ → Except Err Unit} {s : Store} (job : ExecutionJob)
    (huuid : Function.Injective uuid)
    (hartifact : s.artifacts.get version.artifactDigest = some artifactMeta)
    (hrank : ((rankDispatchers sch (fun _ => clock 1) version).run s).1 = .ok candidates)
    (hanswers : Answers uuid answers 0 candidates) :
    (ReachesFirstAccepting uuid answers candidates job s
        ((dispatchJobAttempt sch clock uuid version job).run s).2 ↔
      ∀ n < candidates.length, answers n = .ok () → (∀ m < n, answers m ≠ .ok ()) →
        ∀ m < n, ¬ LacksCapacity (answers m)) ∧
    ∀ (direct : String → Direct.Dispatcher) (versionID : String) (payload : Bytes)
      (executions : List Direct.Execution) (before after : List Candidate) (candidate : Candidate)
      (method : Assignment → Direct.Behaviour) (result : Direct.DirectExecutionResult),
      s.functions.get versionID = some version → version.state = .ready →
      candidates = before ++ candidate :: after →
      (direct candidate.region).method = some method → (∀ a, (method a).outcome = .ok result) →
      (∀ c ∈ before, ∀ m, (direct c.region).method = some m →
        ∀ a, ∃ e, (m a).outcome = .error e ∧ e.isCapacity = true) →
      ((Direct.executeDirectStream sch direct uuid (clock 1) versionID payload).run
        ⟨s, executions⟩).1 = .ok result := by
  rw [run_dispatchJobAttempt uuid job hartifact hrank]
  refine ⟨⟨fun h n hn haccepts hfirst m hm hlacks => ?_, fun h => ⟨?_, ?_⟩⟩, ?_⟩
  · -- the loop has ended at the report, and the job is in the queue
    obtain ⟨candidate, hcandidate⟩ : ∃ candidate, candidates[n]? = some candidate :=
      ⟨candidates[n], List.getElem?_eq_getElem hn⟩
    obtain ⟨job', hassigned, hstate, -⟩ := (h.accepted n candidate hcandidate haccepts hfirst).own
    obtain ⟨queued, hqueued, hstate', -⟩ :=
      requeued_offerCandidates (fun i => clock (i + 2)) version
      artifactMeta (clock 0) [] job s hanswers fun k _ hk => by
        rw [Nat.zero_add] at hk
        have hle : n ≤ k := by
          by_contra hlt
          exact hfirst k (not_le.mp hlt) hk
        exact ⟨m, hm.trans_le hle, by rwa [Nat.zero_add]⟩
    rw [hassigned] at hqueued
    obtain rfl := Option.some.inj hqueued
    rw [hstate] at hstate'
    cases hstate'
  · intro n candidate hcandidate haccepts hfirst
    obtain ⟨hn, -⟩ := List.getElem?_eq_some_iff.mp hcandidate
    refine assignedTo_offerCandidates [] job s huuid hanswers hcandidate ?_ ?_
    · rwa [Nat.zero_add]
    · intro m hm
      rw [Nat.zero_add]
      exact ⟨hfirst m hm, h n hn haccepts hfirst m hm⟩
  · intro hnone
    refine backInQueue_offerCandidates hanswers fun n hn haccepts => ?_
    rw [Nat.zero_add] at haccepts
    exact absurd haccepts (hnone n hn)
  · intro direct versionID payload executions before after candidate method result hversion hready
      hsplit hmethod hresult hbefore
    rw [hsplit] at hrank
    exact result_executeDirectStream hversion hready hartifact hrank hmethod hresult hbefore

/-! ### Two regions, the first of them without capacity -/

namespace TwoRegions

open Direct.Sample (version artifactMeta state)

/-- Distinct identifiers. -/
def uuid (n : ℕ) : String := String.ofList (List.replicate n 'u')

theorem uuid_injective : Function.Injective uuid := by
  intro m n h
  have hlength := congrArg (fun u => u.toList.length) h
  simpa [uuid] using hlength

/-- The job that was claimed. -/
def job : ExecutionJob := newExecutionJob "j" version [] 1

/-- The answer of the first region; the second region accepts. -/
def answers (first : Except Err Unit) : ℕ → Except Err Unit
  | 0 => first
  | _ => .ok ()

/-- A scheduler whose dispatchers give these answers. -/
def scheduler (first : Except Err Unit) : Scheduler where
  dispatchers region := some (.ofBus region {} (if region = "r2" then .ok () else first))

/-- The candidates, in their order. -/
def candidates (first : Except Err Unit) : List Candidate :=
  (((rankDispatchers (scheduler first) (fun _ => 0) version).run state.store).1.toOption.getD [])

theorem rankDispatchers_eq (first : Except Err Unit) :
    ((rankDispatchers (scheduler first) (fun _ => 0) version).run state.store).1 =
      .ok (candidates first) := rfl

theorem answers_of_regions {first : Except Err Unit}
    (hregions : (candidates first).map (·.region) = ["r1", "r2"]) :
    Answers uuid (answers first) 0 (candidates first) := by
  intro n candidate hcandidate a t _
  have hregion : ["r1", "r2"][n]? = some candidate.region := by
    rw [← hregions, List.getElem?_map, hcandidate]
    rfl
  have hmem := mem_candidatesOf_of_ranked (List.mem_of_getElem? hcandidate)
    (rankDispatchers_eq first)
  rw [← Option.some.inj (mem_candidatesOf hmem).2]
  -- the first candidate is not `r2`
  match n with
  | 0 =>
    rw [← Option.some.inj hregion, if_neg (by decide)]
    rfl
  | 1 =>
    rw [← Option.some.inj hregion]
    rfl

/-- The first region has no capacity. -/
def full : Except Err Unit := .error (.noExecutionCapacity "")

/-- The first region cannot be reached. -/
def unreachable : Except Err Unit := .error (.other "publish: no responders")

end TwoRegions

open TwoRegions Direct.Sample in
theorem dispatch_reaches_second_region :
    ReachesFirstAccepting uuid (answers unreachable) (candidates unreachable) job state.store
      ((dispatchJobAttempt (TwoRegions.scheduler unreachable) (fun _ => 0) uuid version job).run
        state.store).2 := by
  have hartifact : state.store.artifacts.get version.artifactDigest = some artifactMeta := rfl
  refine (dispatch_reaches_first_accepting_iff job uuid_injective hartifact
    (rankDispatchers_eq unreachable) (answers_of_regions (by decide +kernel))).1.mpr ?_
  intro n _ _ _ m _ hlacks
  obtain ⟨e, he, hcapacity⟩ := hlacks
  cases m with
  | zero =>
    cases he
    cases hcapacity
  | succ m => cases he

open TwoRegions Direct.Sample in
/-- A job that the first region has no capacity for goes back to the queue, although the second
region would accept it. -/
theorem not_dispatch_reaches_first_accepting :
    ¬ ∀ (sch : Scheduler) (clock : ℕ → Time) (uuid : ℕ → String) (version : FunctionVersion)
      (candidates : List Candidate) (answers : ℕ → Except Err Unit) (s : Store)
      (job : ExecutionJob), Function.Injective uuid →
      (s.artifacts.get version.artifactDigest).isSome = true →
      ((rankDispatchers sch (fun _ => clock 1) version).run s).1 = .ok candidates →
      Answers uuid answers 0 candidates →
      ReachesFirstAccepting uuid answers candidates job s
        ((dispatchJobAttempt sch clock uuid version job).run s).2 := by
  intro h
  have hreaches := h (TwoRegions.scheduler full) (fun _ => 0) uuid version (candidates full)
    (answers full) state.store job uuid_injective rfl (rankDispatchers_eq full)
    (answers_of_regions (by decide +kernel))
  obtain ⟨job', hjob', hstate, -⟩ := (hreaches.accepted 1 _ rfl rfl (by decide)).own
  cases hjob'
  cases hstate

end Lecrev

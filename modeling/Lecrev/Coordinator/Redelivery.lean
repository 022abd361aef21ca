import Lecrev.Coordinator.Update

/-!
# A terminal report that is delivered twice

An agent's stream may deliver a report again. `handleAssignmentUpdate` does not look at the state
of the attempt, so the second delivery writes the attempt, the job and the cost record once more,
with the time of the second delivery. The state of the job comes out the same
(`Reports.state_delivered_twice`). The times do not: the attempt always changes, and the time that
is billed grows with the time between the deliveries (`Reports.bill_delivered_twice`). -/

namespace Lecrev

/-- The run time that is billed to an attempt, in milliseconds. A run that took no time is billed
one millisecond. -/
def billedMs (startedAt finishedAt : Time) : ℕ :=
  let startedAt := startTimeOr finishedAt startedAt
  let runtime := finishedAt - startedAt
  if runtime / 1000000 = 0 ∧ finishedAt ≠ 0 ∧ startedAt ≠ 0 ∧ startedAt ≤ finishedAt then 1
  else runtime / 1000000

/-- The quantities of a cost record that are billed. -/
structure Bill where
  cpuMs : ℕ
  memoryMBMs : ℤ
  warmInstanceMs : ℕ
  dataEgressBytes : ℕ
  deriving DecidableEq

/-- What is billed. -/
def CostRecord.bill (record : CostRecord) : Bill where
  cpuMs := record.cpuMs
  memoryMBMs := record.memoryMBMs
  warmInstanceMs := record.warmInstanceMs
  dataEgressBytes := record.dataEgressBytes

/-- What an attempt is billed for, after it ran for `ms` milliseconds. -/
def billFor (version : FunctionVersion) (startMode : StartMode) (egress ms : ℕ) : Bill where
  cpuMs := ms
  memoryMBMs := version.memoryMB * ms
  warmInstanceMs := if startMode = .blankWarm ∨ startMode = .functionWarm then ms else 0
  dataEgressBytes := egress

theorem bill_newCostRecord (now : Time) (version : FunctionVersion) (project : Project)
    (attempt : Attempt) (job : ExecutionJob) (result : JobResult) :
    (newCostRecord now version project attempt job result).bill =
      billFor version attempt.startMode (result.logs.length + result.output.length)
        (billedMs attempt.startedAt result.finishedAt) := rfl

theorem billFor_inj {version : FunctionVersion} {startMode : StartMode} {egress ms ms' : ℕ} :
    billFor version startMode egress ms = billFor version startMode egress ms' ↔ ms = ms' :=
  ⟨congrArg Bill.cpuMs, congrArg _⟩

/-! ## One delivery -/

/-- Who pays for a job: its version and its project, if both are stored. -/
def Store.payer (s : Store) (job : ExecutionJob) : Option (FunctionVersion × Project) :=
  (s.functions.get job.functionVersionID).bind fun version =>
    (s.projects.get job.projectID).map fun project => (version, project)

/-- The store after the cost of an attempt was recorded. -/
def Store.charge (s : Store) (now : Time) (attempt : Attempt) (job : ExecutionJob)
    (result : JobResult) : Store :=
  match s.payer job with
  | some (version, project) =>
    { s with costRecords :=
        s.costRecords.put (newCostRecord now version project attempt job result) }
  | none => s

theorem run_recordCost {now : Time} {attempt : Attempt} {job : ExecutionJob} {result : JobResult}
    (hresult : job.result = some result) (s : Store) :
    ((recordCost now attempt job).run s).2 = s.charge now attempt job result := by
  unfold recordCost Store.charge Store.payer getProject putCostRecord
  rw [hresult]
  cases hversion : s.functions.get job.functionVersionID with
  | none => simp [find_of_get_none _ hversion]
  | some version =>
    cases hproject : s.projects.get job.projectID with
    | none => simp [find_of_get _ hversion, find_of_get_none _ hproject]
    | some project => simp [find_of_get _ hversion, find_of_get _ hproject]

section Charge

variable (s : Store) (now : Time) (attempt : Attempt) (job : ExecutionJob) (result : JobResult)

@[simp]
theorem Store.executionJobs_charge :
    (s.charge now attempt job result).executionJobs = s.executionJobs := by
  unfold Store.charge
  split <;> rfl

@[simp]
theorem Store.attempts_charge : (s.charge now attempt job result).attempts = s.attempts := by
  unfold Store.charge
  split <;> rfl

@[simp]
theorem Store.payer_charge (other : ExecutionJob) :
    (s.charge now attempt job result).payer other = s.payer other := by
  unfold Store.charge
  split <;> rfl

theorem Store.bill_charge :
    ((s.charge now attempt job result).costRecords.get attempt.id).map CostRecord.bill =
      match s.payer job with
      | some (version, _) =>
        some (billFor version attempt.startMode (result.logs.length + result.output.length)
          (billedMs attempt.startedAt result.finishedAt))
      | none => (s.costRecords.get attempt.id).map CostRecord.bill := by
  unfold Store.charge
  cases s.payer job with
  | none => rfl
  | some payer =>
    dsimp only
    have hkey : Keyed.key (newCostRecord now payer.1 payer.2 attempt job result) = attempt.id := rfl
    rw [Table.get_put_of_key _ hkey, Option.map_some, bill_newCostRecord]

end Charge

section Delivery

variable {c : UpdateContext} {now : Time} {msg : AssignmentUpdate} {s : Store} {a : Attempt}
  {j : ExecutionJob}

theorem AssignmentState.terminal_iff {state : AssignmentState} :
    state.terminal = true ↔ state = .succeeded ∨ state = .failed := by
  rw [AssignmentState.terminal, Bool.or_eq_true, beq_iff_eq, beq_iff_eq]

theorem Attempt.afterUpdate_of_terminal (a : Attempt) (now : Time)
    (hterminal : msg.state.terminal = true) :
    (a.afterUpdate msg now).startedAt = a.startedAt ∧
      (a.afterUpdate msg now).startMode = a.startMode ∧
      (a.afterUpdate msg now).updatedAt = now := by
  unfold Attempt.afterUpdate
  obtain hstate | hstate := AssignmentState.terminal_iff.mp hterminal <;> rw [hstate] <;>
    exact ⟨rfl, rfl, rfl⟩

theorem ExecutionJob.afterUpdate_of_terminal (j : ExecutionJob) (retry : Bool)
    (startedAt now : Time) (hterminal : msg.state.terminal = true) :
    (j.afterUpdate retry startedAt msg now).result = some (reportedResult msg startedAt now) ∧
      (j.afterUpdate retry startedAt msg now).functionVersionID = j.functionVersionID ∧
      (j.afterUpdate retry startedAt msg now).projectID = j.projectID ∧
      (j.afterUpdate retry startedAt msg now).hasBudget = j.hasBudget := by
  unfold ExecutionJob.afterUpdate
  obtain hstate | hstate := AssignmentState.terminal_iff.mp hterminal <;> rw [hstate] <;>
    exact ⟨rfl, rfl, rfl, rfl⟩

theorem ExecutionJob.state_afterUpdate_of_terminal {j' : ExecutionJob} {retry : Bool}
    {startedAt startedAt' now' : Time} (hterminal : msg.state.terminal = true)
    (hbudget : j'.hasBudget = j.hasBudget) :
    (j'.afterUpdate retry startedAt' msg now').state =
      (j.afterUpdate retry startedAt msg now).state := by
  unfold ExecutionJob.afterUpdate ExecutionJob.stateAfterFailure
  obtain hstate | hstate := AssignmentState.terminal_iff.mp hterminal <;> rw [hstate]
  simp only [hbudget]

/-- The store after a terminal report about the attempt `a` of the job `j`. -/
def Store.afterReport (s : Store) (retry : Bool) (now : Time) (msg : AssignmentUpdate) (a : Attempt)
    (j : ExecutionJob) : Store :=
  ((s.setAttempt (a.afterUpdate msg now)).setJob (j.afterUpdate retry a.startedAt msg now)).charge
    now (a.afterUpdate msg now) (j.afterUpdate retry a.startedAt msg now)
    (reportedResult msg a.startedAt now)

theorem Reports.run_terminal (h : Reports c msg s a j) (now : Time)
    (hterminal : msg.state.terminal = true) :
    ((handleAssignmentUpdate c now msg).run s).2 = s.afterReport c.retry now msg a j := by
  obtain ⟨hresult, -⟩ := j.afterUpdate_of_terminal c.retry a.startedAt now hterminal
  rw [handleAssignmentUpdate, h.direct, Store.afterReport, ← run_recordCost hresult]
  simp only [applyAssignmentUpdate, Prog.run_bind, run_getAttempt, run_getExecutionJob,
    run_updateAttempt, run_updateExecutionJob, find_of_get _ h.attempt, find_of_get _ h.job,
    hterminal, if_true, Bool.false_eq_true, if_false]
  -- whether a retry goroutine is started does not matter for the store
  split <;> rename_i heq <;> rw [heq]
  split_ifs <;> rfl

theorem Reports.again (h : Reports c msg s a j) (now : Time) :
    Reports c msg (s.afterReport c.retry now msg a j) (a.afterUpdate msg now)
      (j.afterUpdate c.retry a.startedAt msg now) where
  direct := h.direct
  attempt := by
    have hid : a.id = msg.attemptID := Table.key_of_get h.attempt
    rw [Store.afterReport, Store.attempts_charge]
    exact Table.get_put_of_key _ ((Attempt.id_afterUpdate a msg now).trans hid)
  job := by
    have hid : j.id = msg.jobID := Table.key_of_get h.job
    rw [Store.afterReport, Store.executionJobs_charge]
    exact Table.get_put_of_key _ ((ExecutionJob.id_afterUpdate j _ _ msg now).trans hid)

theorem Store.payer_afterReport (s : Store) (a : Attempt) (j : ExecutionJob) (retry : Bool)
    (startedAt now now' : Time) (hterminal : msg.state.terminal = true) :
    (s.afterReport retry now msg a j).payer (j.afterUpdate retry startedAt msg now') =
      s.payer j := by
  obtain ⟨-, hversion, hproject, -⟩ := j.afterUpdate_of_terminal retry startedAt now' hterminal
  rw [Store.afterReport, Store.payer_charge, Store.payer, hversion, hproject]
  rfl

theorem Reports.bill_afterReport (h : Reports c msg s a j) (now : Time)
    (hterminal : msg.state.terminal = true) :
    ((s.afterReport c.retry now msg a j).costRecords.get msg.attemptID).map CostRecord.bill =
      match s.payer j with
      | some (version, _) =>
        some (billFor version a.startMode (msg.logs.length + msg.outputJson.length)
          (billedMs a.startedAt now))
      | none => (s.costRecords.get msg.attemptID).map CostRecord.bill := by
  have hid : (a.afterUpdate msg now).id = msg.attemptID :=
    (Attempt.id_afterUpdate a msg now).trans (Table.key_of_get h.attempt)
  obtain ⟨hstarted, hmode, -⟩ := a.afterUpdate_of_terminal now hterminal
  have hpayer := s.payer_afterReport a j c.retry a.startedAt now now hterminal
  rw [Store.afterReport, Store.payer_charge] at hpayer
  rw [Store.afterReport, ← hid, Store.bill_charge, hpayer, hstarted, hmode]
  rfl

end Delivery

/-! ## Two deliveries -/

/-- What a second delivery of `msg` should leave as it was. -/
structure Undisturbed (msg : AssignmentUpdate) (s t : Store) : Prop where
  state : (t.executionJobs.get msg.jobID).map (·.state) =
    (s.executionJobs.get msg.jobID).map (·.state)
  result : (t.executionJobs.get msg.jobID).map (·.result) =
    (s.executionJobs.get msg.jobID).map (·.result)
  attempt : t.attempts.get msg.attemptID = s.attempts.get msg.attemptID
  bill : (t.costRecords.get msg.attemptID).map CostRecord.bill =
    (s.costRecords.get msg.attemptID).map CostRecord.bill

/-- The store after `msg` was processed at the time `now`. -/
def delivered (c : UpdateContext) (msg : AssignmentUpdate) (now : Time) (s : Store) : Store :=
  ((handleAssignmentUpdate c now msg).run s).2

/-- The context after `msg` was processed: `handleDirectInvokeUpdate` deletes the waiter of an
attempt at its terminal report. -/
def UpdateContext.after (c : UpdateContext) (msg : AssignmentUpdate) : UpdateContext :=
  if msg.state.terminal then
    { c with directInvokes := c.directInvokes.filter (· ≠ msg.attemptID) }
  else c

section TwoDeliveries

variable {c : UpdateContext} {msg : AssignmentUpdate} {s : Store} {a : Attempt} {j : ExecutionJob}
  {t₁ t₂ : Time}

theorem delivered_after (hdirect : c.directInvokes.contains msg.attemptID = false) (now : Time)
    (s : Store) : delivered (c.after msg) msg now s = delivered c msg now s := by
  unfold delivered handleAssignmentUpdate UpdateContext.after
  rw [hdirect]
  split
  · simp
  · rw [hdirect]

/-- Without a waiter the first delivery changes nothing here. -/
theorem reports_after_iff (hdirect : c.directInvokes.contains msg.attemptID = false) :
    Reports (c.after msg) msg s a j ↔ Reports c msg s a j := by
  refine ⟨fun h => ⟨hdirect, h.attempt, h.job⟩, fun h => ⟨?_, h.attempt, h.job⟩⟩
  unfold UpdateContext.after
  split
  · simp
  · exact hdirect

theorem Reports.delivered_twice (h : Reports c msg s a j) (hterminal : msg.state.terminal = true) :
    delivered c msg t₂ (delivered c msg t₁ s) =
      (s.afterReport c.retry t₁ msg a j).afterReport c.retry t₂ msg (a.afterUpdate msg t₁)
        (j.afterUpdate c.retry a.startedAt msg t₁) := by
  unfold delivered
  rw [h.run_terminal t₁ hterminal, (h.again t₁).run_terminal t₂ hterminal]

theorem Reports.state_delivered_twice (h : Reports c msg s a j)
    (hterminal : msg.state.terminal = true) :
    ((delivered c msg t₂ (delivered c msg t₁ s)).executionJobs.get msg.jobID).map (·.state) =
      ((delivered c msg t₁ s).executionJobs.get msg.jobID).map (·.state) := by
  have hagain := h.again t₁
  rw [h.delivered_twice hterminal, (hagain.again t₂).job, delivered, h.run_terminal t₁ hterminal,
    hagain.job, Option.map_some, Option.map_some]
  obtain ⟨-, -, -, hbudget⟩ := j.afterUpdate_of_terminal c.retry a.startedAt t₁ hterminal
  exact congrArg some (ExecutionJob.state_afterUpdate_of_terminal hterminal hbudget)

theorem Reports.attempt_delivered_twice (h : Reports c msg s a j)
    (hterminal : msg.state.terminal = true) :
    (delivered c msg t₂ (delivered c msg t₁ s)).attempts.get msg.attemptID =
      (delivered c msg t₁ s).attempts.get msg.attemptID → t₁ = t₂ := by
  have hagain := h.again t₁
  rw [h.delivered_twice hterminal, (hagain.again t₂).attempt, delivered,
    h.run_terminal t₁ hterminal, hagain.attempt]
  intro heq
  have hupdated := congrArg Attempt.updatedAt (Option.some.inj heq)
  rw [((a.afterUpdate msg t₁).afterUpdate_of_terminal t₂ hterminal).2.2,
    (a.afterUpdate_of_terminal t₁ hterminal).2.2] at hupdated
  exact hupdated.symm

theorem Reports.bill_delivered_twice (h : Reports c msg s a j)
    (hterminal : msg.state.terminal = true) :
    ((delivered c msg t₂ (delivered c msg t₁ s)).costRecords.get msg.attemptID).map
        CostRecord.bill =
      ((delivered c msg t₁ s).costRecords.get msg.attemptID).map CostRecord.bill ↔
    ∀ payer ∈ s.payer j, billedMs a.startedAt t₁ = billedMs a.startedAt t₂ := by
  obtain ⟨hstarted, hmode, -⟩ := a.afterUpdate_of_terminal t₁ hterminal
  rw [h.delivered_twice hterminal, (h.again t₁).bill_afterReport t₂ hterminal,
    s.payer_afterReport a j c.retry a.startedAt t₁ t₁ hterminal, delivered,
    h.run_terminal t₁ hterminal, h.bill_afterReport t₁ hterminal, hstarted, hmode]
  cases s.payer j with
  | none => simp
  | some payer =>
    dsimp only
    rw [Option.some_inj, billFor_inj]
    exact ⟨fun heq _ _ => heq.symm, fun heq => (heq payer rfl).symm⟩

end TwoDeliveries

/-- What a second delivery of a terminal report changes. It leaves everything as it was exactly if
it does not reach the store, or if the first one went to a waiting caller and the store already is
as the report leaves it. If both reach the store, then the state of the job stays, and the bill
stays exactly if nobody is billed or the same number of milliseconds is. -/
theorem terminal_update_idempotent_iff (c : UpdateContext) (msg : AssignmentUpdate) (s : Store)
    {t₁ t₂ : Time} (hterminal : msg.state.terminal = true) (hlater : t₁ < t₂) :
    let once := delivered c msg t₁ s
    let twice := delivered (c.after msg) msg t₂ once
    (Undisturbed msg once twice ↔ ∀ a j, Reports (c.after msg) msg s a j →
      c.directInvokes.contains msg.attemptID = true ∧
        Undisturbed msg s (s.afterReport c.retry t₂ msg a j)) ∧
    ∀ a j, Reports c msg s a j →
      (twice.executionJobs.get msg.jobID).map (·.state) =
          (once.executionJobs.get msg.jobID).map (·.state) ∧
        ((twice.costRecords.get msg.attemptID).map CostRecord.bill =
          (once.costRecords.get msg.attemptID).map CostRecord.bill ↔
        ∀ payer ∈ s.payer j, billedMs a.startedAt t₁ = billedMs a.startedAt t₂) := by
  intro once twice
  cases hdirect : c.directInvokes.contains msg.attemptID with
  | false =>
    have htwice : twice = delivered c msg t₂ once := delivered_after hdirect t₂ once
    rw [htwice]
    simp only [reports_after_iff hdirect, Bool.false_eq_true, false_and, imp_false]
    refine ⟨⟨fun hsame a j hreports => ?_, fun hnone => ?_⟩, fun a j hreports => ?_⟩
    · exact Nat.ne_of_lt hlater (hreports.attempt_delivered_twice hterminal hsame.attempt)
    · have honce : once = s := run_handleAssignmentUpdate_of_not hnone
      rw [honce, show delivered c msg t₂ s = s from run_handleAssignmentUpdate_of_not hnone]
      exact ⟨rfl, rfl, rfl, rfl⟩
    · exact ⟨hreports.state_delivered_twice hterminal, hreports.bill_delivered_twice hterminal⟩
  | true =>
    have hcaller (a : Attempt) (j : ExecutionJob) : ¬ Reports c msg s a j := fun h =>
      nomatch h.direct.symm.trans hdirect
    have honce : once = s := run_handleAssignmentUpdate_of_not hcaller
    have hretry : (c.after msg).retry = c.retry := by
      rw [UpdateContext.after, if_pos hterminal]
    have hreaches {a : Attempt} {j : ExecutionJob} (h : Reports (c.after msg) msg s a j) :
        twice = s.afterReport c.retry t₂ msg a j := by
      rw [← hretry, ← h.run_terminal t₂ hterminal, ← honce]
      rfl
    refine ⟨⟨fun hsame a j h => ⟨rfl, ?_⟩, fun hsame => ?_⟩, fun a j h => absurd h (hcaller a j)⟩
    · rwa [hreaches h, honce] at hsame
    · by_cases hreports : ∃ a j, Reports (c.after msg) msg s a j
      · obtain ⟨a, j, h⟩ := hreports
        rw [hreaches h, honce]
        exact (hsame a j h).2
      · push Not at hreports
        have htwice : twice = once := by
          dsimp only [twice]
          rw [honce]
          exact run_handleAssignmentUpdate_of_not hreports
        rw [htwice]
        exact ⟨rfl, rfl, rfl, rfl⟩

namespace RedeliverySample

open DomainSample (project version)

def job : ExecutionJob where
  id := "job"
  functionVersionID := "version"
  projectID := "project"
  state := .running
  payload := []
  maxRetries := 0
  attemptCount := 1
  lastAttemptID := "attempt"
  createdAt := 1
  updatedAt := 1

def attempt : Attempt where
  id := "attempt"
  jobID := "job"
  functionVersionID := "version"
  region := "region"
  state := .running
  startedAt := 1000000000
  leaseExpiresAt := 31000000000
  createdAt := 1
  updatedAt := 1000000000

def store : Store :=
  { Store.new with
    projects := Table.empty.put project
    functions := Table.empty.put version
    executionJobs := Table.empty.put job
    attempts := Table.empty.put attempt }

def context : UpdateContext := { retry := true }

def report : AssignmentUpdate :=
  { hostID := "host", region := "region", attemptID := "attempt", jobID := "job"
    state := .succeeded }

theorem reports : Reports context report store attempt job := ⟨rfl, rfl, rfl⟩

end RedeliverySample

open RedeliverySample in
theorem terminal_update_idempotent_iff_sample :
    report.state.terminal = true ∧ Reports context report store attempt job ∧
      ¬ Undisturbed report (delivered context report 2000000000 store)
        (delivered (context.after report) report 3000000000
          (delivered context report 2000000000 store)) := by
  have hiff := (terminal_update_idempotent_iff context report store
    (show report.state.terminal = true by decide)
    (show (2000000000 : Time) < 3000000000 by decide)).1
  exact ⟨by decide, reports, fun hsame => nomatch (hiff.mp hsame attempt job reports).1⟩

open RedeliverySample in
/-- A report that is delivered again after a second makes the attempt a second longer. -/
theorem not_terminal_update_idempotent :
    ¬ ∀ (c : UpdateContext) (msg : AssignmentUpdate) (s : Store) (t₁ t₂ : Time),
      msg.state.terminal = true → t₁ < t₂ →
        Undisturbed msg (delivered c msg t₁ s)
          (delivered (c.after msg) msg t₂ (delivered c msg t₁ s)) := by
  intro hall
  have hbill := (hall context report store 2000000000 3000000000 (by decide) (by decide)).bill
  rw [delivered_after rfl] at hbill
  have hms : billedMs attempt.startedAt 2000000000 = billedMs attempt.startedAt 3000000000 :=
    (reports.bill_delivered_twice (by decide)).mp hbill
      (DomainSample.version, DomainSample.project) (by decide)
  exact absurd hms (by decide)

end Lecrev

import Lecrev.Coordinator.Update

/-!
# Lease recovery

`recoverAttempt` of `internal/recovery`: an attempt whose lease has passed is failed, and its job
is returned to the queue or, with no budget left, failed.
-/

namespace Lecrev

/-- The error text of an attempt whose lease has passed. -/
def leaseExpiredError : String := "lease expired before completion"

/-- The attempt as `recoverAttempt` fails it. -/
def Attempt.expired (attempt : Attempt) (now : Time) : Attempt :=
  { attempt with
    state := .failed
    error := leaseExpiredError
    leaseExpiresAt := now
    updatedAt := now }

/-- The job of a lapsed attempt, as `recoverAttempt` writes it before it calls the retryer. -/
def ExecutionJob.lapsed (job : ExecutionJob) (now : Time) : ExecutionJob :=
  { job with state := .retrying, error := leaseExpiredError, updatedAt := now }

/-- `recoverAttempt` for an attempt that `ListExpiredAttempts` returned earlier. The attempt is
read again; it is left alone when it has ended or its lease was renewed in the meantime. -/
def recoverAttempt (clock : ℕ → Time) (attempt : Attempt) : StoreM Unit := do
  let job ← getExecutionJob attempt.jobID
  let latestAttempt ← getAttempt attempt.id
  if latestAttempt.state.terminal || decide (latestAttempt.leaseExpiresAt > clock 0) then
    pure ()
  else
    let now := clock 1
    updateAttempt (latestAttempt.expired now)
    if job.hasBudget then
      updateExecutionJob (job.lapsed now)
      match ← (retryExecution (clock 2) job.id).result with
      | .ok _ => pure ()
      | .error e => updateExecutionJob (job.abandoned e.text (clock 3))
    else
      updateExecutionJob (job.abandoned leaseExpiredError now)

/-! ## What a recovery writes -/

/-- The job after the recovery of one of its attempts; with budget left, the retryer has written
it last. -/
def ExecutionJob.recovered (job : ExecutionJob) (clock : ℕ → Time) : ExecutionJob :=
  if job.hasBudget then (job.lapsed (clock 1)).retried (clock 2)
  else job.abandoned leaseExpiredError (clock 1)

@[simp]
theorem ExecutionJob.id_recovered (job : ExecutionJob) (clock : ℕ → Time) :
    (job.recovered clock).id = job.id := by
  unfold ExecutionJob.recovered
  split_ifs <;> rfl

theorem ExecutionJob.state_recovered (job : ExecutionJob) (clock : ℕ → Time) :
    (job.recovered clock).state = if job.hasBudget then .retrying else .failed := by
  unfold ExecutionJob.recovered
  split_ifs <;> rfl

theorem ExecutionJob.result_recovered (job : ExecutionJob) (clock : ℕ → Time) :
    (job.recovered clock).result = job.result := by
  unfold ExecutionJob.recovered
  split_ifs <;> rfl

/-- `recoverAttempt` finds the job `j` and the attempt `a`, live and with its lease passed. -/
structure Recovers (clock : ℕ → Time) (attempt : Attempt) (s : Store) (a : Attempt)
    (j : ExecutionJob) : Prop where
  job : s.executionJobs.get attempt.jobID = some j
  attempt : s.attempts.get attempt.id = some a
  live : a.state.terminal = false
  passed : a.leaseExpiresAt ≤ clock 0

/-- **What a recovery does** when it finds its job and its attempt, live and expired. -/
theorem Recovers.sameView {clock : ℕ → Time} {attempt : Attempt} {s : Store} {a : Attempt}
    {j : ExecutionJob} (h : Recovers clock attempt s a j) :
    ((s.setAttempt (a.expired (clock 1))).setJob (j.recovered clock)).SameView
      ((recoverAttempt clock attempt).run s).2 := by
  have hact : (a.state.terminal || decide (a.leaseExpiresAt > clock 0)) = false := by
    simp [h.live, h.passed]
  by_cases hbudget : j.hasBudget = true
  · -- the retryer reads the job written just before and finds the same budget
    have hread : ((s.setAttempt (a.expired (clock 1))).setJob
        (j.lapsed (clock 1))).executionJobs.get j.id = some (j.lapsed (clock 1)) := by
      simp [ExecutionJob.lapsed]
    have hagain : (j.lapsed (clock 1)).hasBudget = true := hbudget
    simp only [recoverAttempt, Prog.run_bind, Prog.run_result, run_getExecutionJob,
      run_getAttempt, run_updateAttempt, run_updateExecutionJob, find_of_get _ h.job,
      find_of_get _ h.attempt, hact, Bool.false_eq_true, if_false, hbudget, if_true,
      run_retryExecution _ hread, hagain, ExecutionJob.recovered]
    constructor <;> simp +contextual [ExecutionJob.retried, ExecutionJob.lapsed]
  · simp only [recoverAttempt, Prog.run_bind, run_getExecutionJob, run_getAttempt,
      run_updateAttempt, run_updateExecutionJob, find_of_get _ h.job, find_of_get _ h.attempt,
      hact, Bool.false_eq_true, if_false, hbudget, ExecutionJob.recovered]
    exact .refl _

theorem run_recoverAttempt_of_not {clock : ℕ → Time} {attempt : Attempt} {s : Store}
    (h : ∀ a j, ¬ Recovers clock attempt s a j) :
    ((recoverAttempt clock attempt).run s).2 = s := by
  cases hj : s.executionJobs.get attempt.jobID with
  | none => simp [recoverAttempt, find_of_get_none _ hj]
  | some j =>
    cases ha : s.attempts.get attempt.id with
    | none => simp [recoverAttempt, find_of_get _ hj, find_of_get_none _ ha]
    | some a =>
      have hskip : (a.state.terminal || decide (a.leaseExpiresAt > clock 0)) = true := by
        by_contra hact
        rw [Bool.not_eq_true, Bool.or_eq_false_iff, decide_eq_false_iff_not, not_lt] at hact
        exact h a j ⟨hj, ha, hact.1, hact.2⟩
      simp only [recoverAttempt, Prog.run_bind, run_getExecutionJob, run_getAttempt,
        find_of_get _ hj, find_of_get _ ha, hskip]
      rfl

end Lecrev

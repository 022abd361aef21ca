import Lecrev.Concurrency.SessionLock
import Lecrev.Concurrency.Transition
import Lecrev.Domain.Types

/-!
# Leadership

`leadership.Run` executes a function while it holds an advisory lock of the database. Any number of
processes run it with the same key. A process that has the lock starts `fn` in a goroutine of its
own and watches its context, the result of `fn` and its connection, until one of them makes it give
the lock back. When the context is cancelled or a ping failed, `fn` is told so through its context;
how long it goes on is up to `fn`. -/

namespace Lecrev.Leadership

/-- Where `Run` is. A connection is named by its number in the pool of the process. -/
inductive Phase
  /-- The check of `ctx.Err()` at the head of the loop. -/
  | head
  | acquire
  | tryAcquire (conn : ℕ)
  /-- `sleepContext`. -/
  | sleep
  /-- The select loop, with the lock held on a connection. -/
  | watch (conn : ℕ)
  /-- `waitForTaskExit`, after a ping that failed. -/
  | waitForTaskExit (conn : ℕ)
  /-- `unlock`; with the result of the loop, unless the leadership was lost. -/
  | unlock (conn : ℕ) (taskErr : Option (Option Err))
  /-- The deferred `pool.Close`. -/
  | close (err : Option Err)
  | returned (err : Option Err)
  deriving DecidableEq

/-- The goroutine of `fn`, and its channel `taskErrCh`. -/
inductive Task
  /-- Nothing runs, and the channel is empty. -/
  | idle
  | running
  /-- The result of `fn` is in the channel. -/
  | sent (err : Option Err)
  deriving DecidableEq

/-- A process that executes `Run`. -/
structure Process where
  /-- `ctx.Err()`. -/
  ctxErr : Option Err := none
  phase : Phase := .head
  /-- The task of the current term. -/
  task : Task := .idle
  /-- How many tasks of earlier terms are still running. -/
  abandoned : ℕ := 0
  deriving DecidableEq

/-- What may happen in a process. -/
inductive Event
  /-- The context of the process is done. -/
  | cancel (err : Err)
  /-- `ctx.Err()` is read. -/
  | check
  /-- `pool.Acquire` returns. -/
  | acquire (result : Except Err ℕ)
  /-- `tryAcquire` returns. -/
  | tryAcquire (result : Except Err Unit)
  /-- The timer of `sleepContext` fires, or its context is done. -/
  | sleep (fired : Bool)
  /-- The select loop receives from `ctx.Done()`. -/
  | done
  /-- The select loop receives from `taskErrCh`. -/
  | result
  /-- The select loop receives from `heartbeat.C`, and the connection is pinged. -/
  | heartbeat (ok : Bool)
  /-- `waitForTaskExit` receives from `taskErrCh`, or its timer fires. -/
  | exit (received : Bool)
  /-- `unlock` returns. -/
  | unlock (ok : Bool)
  /-- `pool.Close` returns. -/
  | close
  /-- `fn` returns. -/
  | taskReturns (err : Option Err)
  /-- `fn` of an earlier term returns. -/
  | abandonedReturns
  deriving DecidableEq

/-- The advisory lock. A session is a connection of a process. -/
abbrev Lock (ι : Type) := SessionLock (ι × ℕ)

/-- What `Run` returns after a term. -/
def Process.outcome (p : Process) (taskErr : Option Err) : Option Err :=
  match taskErr, p.ctxErr with
  | some err, some ctxErr => if err.root = .canceled then some ctxErr else some err
  | taskErr, _ => taskErr

/-- Nobody listens to the task any more. -/
def Process.abandon (p : Process) : Process :=
  { p with task := .idle, abandoned := p.abandoned + if p.task = .running then 1 else 0 }

section Next

variable {ι : Type} [DecidableEq ι]

/-- One step of the process `i`, if it can take it. -/
def Process.next (i : ι) (lock : Lock ι) (p : Process) : Event → Option (Process × Lock ι)
  | .cancel err =>
    if p.ctxErr.isSome then none else some ({ p with ctxErr := some err }, lock)
  | .check =>
    match p.phase, p.ctxErr with
    | .head, none => some ({ p with phase := .acquire }, lock)
    | .head, some err => some ({ p with phase := .close (some err) }, lock)
    | _, _ => none
  | .acquire result =>
    match p.phase, result with
    | .acquire, .ok conn => some ({ p with phase := .tryAcquire conn }, lock)
    | .acquire, .error err => some ({ p with phase := .close (some err) }, lock)
    | _, _ => none
  | .tryAcquire result =>
    match p.phase, result with
    | .tryAcquire _, .error err => some ({ p with phase := .close (some err) }, lock)
    | .tryAcquire conn, .ok () =>
      let (acquired, lock) := lock.tryLock (i, conn)
      if acquired then some ({ p with phase := .watch conn, task := .running }, lock)
      else some ({ p with phase := .sleep }, lock)
    | _, _ => none
  | .sleep fired =>
    match p.phase, fired, p.ctxErr with
    | .sleep, true, _ => some ({ p with phase := .head }, lock)
    | .sleep, false, some err => some ({ p with phase := .close (some err) }, lock)
    | _, _, _ => none
  | .done =>
    match p.phase, p.ctxErr with
    -- the loop is left at once: nothing waits for the task
    | .watch conn, some err => some ({ p with phase := .unlock conn (some (some err)) }, lock)
    | _, _ => none
  | .result =>
    match p.phase, p.task with
    | .watch conn, .sent err =>
      some ({ p with phase := .unlock conn (some err), task := .idle }, lock)
    | _, _ => none
  | .heartbeat ok =>
    match p.phase with
    | .watch conn =>
      if ok then some (p, lock) else some ({ p with phase := .waitForTaskExit conn }, lock)
    | _ => none
  | .exit received =>
    match p.phase, received, p.task with
    | .waitForTaskExit conn, true, .sent _ =>
      some ({ p with phase := .unlock conn none, task := .idle }, lock)
    | .waitForTaskExit conn, false, _ => some ({ p with phase := .unlock conn none }, lock)
    | _, _, _ => none
  | .unlock ok =>
    match p.phase with
    | .unlock conn taskErr =>
      -- an error of `unlock` is ignored or logged
      let lock := if ok then (lock.unlock (i, conn)).2 else lock
      match taskErr with
      | none => some ({ p.abandon with phase := .sleep }, lock)
      | some taskErr => some ({ p.abandon with phase := .close (p.outcome taskErr) }, lock)
    | _ => none
  | .close =>
    match p.phase with
    | .close err => some ({ p with phase := .returned err }, lock.endSessions (·.1 = i))
    | _ => none
  | .taskReturns err =>
    if p.task = .running then some ({ p with task := .sent err }, lock) else none
  | .abandonedReturns =>
    match p.abandoned with
    | 0 => none
    | abandoned + 1 => some ({ p with abandoned }, lock)

/-- The processes, and the lock they compete for. -/
structure State (ι : Type) where
  process : ι → Process
  lock : Lock ι

/-- The processes run side by side. -/
def system : Transition.System (State ι) (ι × Event) where
  step s := fun (i, e) =>
    match (s.process i).next i s.lock e with
    | none => s
    | some (p, lock) => { process := Function.update s.process i p, lock }
  enabled s := fun (i, e) => ((s.process i).next i s.lock e).isSome

/-- No process has begun, and the lock is free. -/
def start : State ι := ⟨fun _ => {}, .free⟩

/-- The process executes `fn`. -/
def Process.Executing (p : Process) : Prop := p.task = .running ∨ 0 < p.abandoned

/-- When a process gives the lock back, its task has returned. -/
def Waits (s : State ι) : ι × Event → Prop
  | (i, .unlock _) => (s.process i).task ≠ .running
  | _ => True

end Next

/-! ## The lock and the task -/

/-- The connection that the lock was taken on. -/
def Phase.conn? : Phase → Option ℕ
  | .watch conn | .waitForTaskExit conn | .unlock conn _ => some conn
  | _ => none

/-- What a step of the process `i` did to its tasks and to the lock. -/
inductive Moved {ι : Type} [DecidableEq ι] (i : ι) (p : Process) (lock : Lock ι) (e : Event) :
    Process → Lock ι → Prop
  /-- No task was started, and the lock is as it was. -/
  | kept (p' : Process) (habandoned : p'.abandoned ≤ p.abandoned)
      (htask : p'.task = .running → p.task = .running ∧ p'.phase.conn? = p.phase.conn?) :
    Moved i p lock e p' lock
  | acquired (conn : ℕ) (hphase : p.phase = .tryAcquire conn)
      (h : (lock.tryLock (i, conn)).1 = true) :
    Moved i p lock e { p with phase := .watch conn, task := .running } (lock.tryLock (i, conn)).2
  | refused (conn : ℕ) (hphase : p.phase = .tryAcquire conn) :
    Moved i p lock e { p with phase := .sleep } (lock.tryLock (i, conn)).2
  | unlocked (ok : Bool) (conn : ℕ) (phase : Phase) (he : e = .unlock ok)
      (hphase : phase.conn? = none) :
    Moved i p lock e { p.abandon with phase } (if ok then (lock.unlock (i, conn)).2 else lock)
  | closed (err : Option Err) (hphase : p.phase = .close err) :
    Moved i p lock e { p with phase := .returned err } (lock.endSessions (·.1 = i))

section Sound

variable {ι : Type} [DecidableEq ι] {i j : ι} {p p' : Process} {lock lock' : Lock ι} {e : Event}

theorem Moved.phase {phase phase' : Phase} (hphase : p.phase = phase)
    (h : phase'.conn? = phase.conn?) : Moved i p lock e { p with phase := phase' } lock := by
  refine .kept _ le_rfl fun hrunning => ⟨hrunning, ?_⟩
  rw [hphase]
  exact h

/-- What a step of a process can do. -/
theorem moved_of_next (hnext : p.next i lock e = some (p', lock')) : Moved i p lock e p' lock' := by
  cases e with
  | cancel err =>
    unfold Process.next at hnext
    dsimp only at hnext
    split_ifs at hnext
    cases hnext
    exact .kept _ le_rfl fun hrunning => ⟨hrunning, rfl⟩
  | check =>
    unfold Process.next at hnext
    dsimp only at hnext
    split at hnext <;> cases hnext <;> exact .phase ‹p.phase = _› (by rfl)
  | acquire result =>
    unfold Process.next at hnext
    dsimp only at hnext
    split at hnext <;> cases hnext <;> exact .phase ‹p.phase = _› (by rfl)
  | tryAcquire result =>
    unfold Process.next at hnext
    dsimp only at hnext
    split at hnext
    · cases hnext
      exact .phase ‹p.phase = _› (by rfl)
    · rename_i conn hphase
      split_ifs at hnext with hacquired <;> cases hnext
      · exact .acquired conn hphase hacquired
      · exact .refused conn hphase
    · cases hnext
  | sleep fired =>
    unfold Process.next at hnext
    dsimp only at hnext
    split at hnext <;> cases hnext <;> exact .phase ‹p.phase = _› (by rfl)
  | done =>
    unfold Process.next at hnext
    dsimp only at hnext
    split at hnext <;> cases hnext
    exact .phase ‹p.phase = _› (by rfl)
  | result =>
    unfold Process.next at hnext
    dsimp only at hnext
    split at hnext <;> cases hnext
    exact .kept _ le_rfl fun hrunning => by cases hrunning
  | heartbeat ok =>
    unfold Process.next at hnext
    dsimp only at hnext
    split at hnext
    · split_ifs at hnext <;> cases hnext
      · exact .phase rfl rfl
      · exact .phase ‹p.phase = _› (by rfl)
    · cases hnext
  | exit received =>
    unfold Process.next at hnext
    dsimp only at hnext
    split at hnext <;> cases hnext
    · exact .kept _ le_rfl fun hrunning => by cases hrunning
    · exact .phase ‹p.phase = _› (by rfl)
  | unlock ok =>
    unfold Process.next at hnext
    dsimp only at hnext
    split at hnext
    · split at hnext <;> cases hnext <;> exact .unlocked ok _ _ rfl rfl
    · cases hnext
  | close =>
    unfold Process.next at hnext
    dsimp only at hnext
    split at hnext <;> cases hnext
    exact .closed _ ‹p.phase = _›
  | taskReturns err =>
    unfold Process.next at hnext
    dsimp only at hnext
    split_ifs at hnext
    cases hnext
    exact .kept _ le_rfl fun hrunning => by cases hrunning
  | abandonedReturns =>
    unfold Process.next at hnext
    dsimp only at hnext
    split at hnext <;> cases hnext
    refine .kept _ ?_ fun hrunning => ⟨hrunning, rfl⟩
    dsimp only
    omega

/-- A process runs its task only while it has the lock, and it runs no other task. -/
structure Sound (i : ι) (p : Process) (lock : Lock ι) : Prop where
  task : p.task = .running → ∃ conn, p.phase.conn? = some conn ∧ lock.Holds (i, conn)
  abandoned : p.abandoned = 0

omit [DecidableEq ι] in
theorem Sound.not_running (h : Sound i p lock) (hconn : p.phase.conn? = none) :
    p.task ≠ .running := by
  intro hrunning
  obtain ⟨conn, hsome, -⟩ := h.task hrunning
  rw [hconn] at hsome
  cases hsome

theorem Sound.moved (h : Sound i p lock) (hmoved : Moved i p lock e p' lock')
    (hwaits : ∀ ok, e = .unlock ok → p.task ≠ .running) : Sound i p' lock' := by
  cases hmoved with
  | kept _ habandoned htask =>
    refine ⟨fun hrunning => ?_, Nat.le_zero.mp (h.abandoned ▸ habandoned)⟩
    obtain ⟨hp, hconn⟩ := htask hrunning
    rw [hconn]
    exact h.task hp
  | acquired conn _ hacquired =>
    exact ⟨fun _ => ⟨conn, rfl, SessionLock.holds_of_tryLock hacquired⟩, h.abandoned⟩
  | refused conn hphase =>
    have hnot := h.not_running (by rw [hphase]; rfl)
    exact ⟨fun hrunning => absurd hrunning hnot, h.abandoned⟩
  | unlocked ok _ phase he _ =>
    refine ⟨fun hrunning => (by cases hrunning), ?_⟩
    rw [Process.abandon, if_neg (hwaits ok he)]
    exact h.abandoned
  | closed err hphase =>
    have hnot := h.not_running (by rw [hphase]; rfl)
    exact ⟨fun hrunning => absurd hrunning hnot, h.abandoned⟩

theorem Moved.holds (hmoved : Moved i p lock e p' lock') (hne : j ≠ i) {conn : ℕ}
    (h : lock.Holds (j, conn)) : lock'.Holds (j, conn) := by
  cases hmoved with
  | kept => exact h
  | acquired conn' | refused conn' => exact h.tryLock (i, conn')
  | unlocked ok conn' =>
    split_ifs
    · exact h.unlock fun heq => hne (congrArg Prod.fst heq)
    · exact h
  | closed => exact h.endSessions (decide_eq_false hne)

theorem step_of_next {s : State ι} (hnext : (s.process i).next i s.lock e = some (p', lock')) :
    system.step s (i, e) = ⟨Function.update s.process i p', lock'⟩ := by
  simp only [system, hnext]

/-- A step that waits for its task keeps every process sound. -/
theorem sound_step {s : State ι} (h : ∀ i, Sound i (s.process i) s.lock) {l : ι × Event}
    (hwaits : Waits s l) (j : ι) :
    Sound j ((system.step s l).process j) (system.step s l).lock := by
  obtain ⟨i, e⟩ := l
  cases hnext : (s.process i).next i s.lock e with
  | none =>
    have hstep : system.step s (i, e) = s := by
      simp only [system, hnext]
    rw [hstep]
    exact h j
  | some result =>
    obtain ⟨p, lock⟩ := result
    rw [step_of_next hnext]
    have hmoved := moved_of_next hnext
    dsimp only
    by_cases hji : j = i
    · subst hji
      rw [Function.update_self]
      refine (h j).moved hmoved fun ok he => ?_
      subst he
      exact hwaits
    · rw [Function.update_of_ne hji]
      refine ⟨fun hrunning => ?_, (h j).abandoned⟩
      obtain ⟨conn, hconn, hholds⟩ := (h j).task hrunning
      exact ⟨conn, hconn, hmoved.holds hji hholds⟩

/-- **Single leader.** At most one process executes `fn`, if a process gives the lock back only when
its task has returned. -/
theorem single_leader (ls : List (ι × Event)) (hwaits : system.EveryStep Waits start ls) (i j : ι)
    (hi : ((system.exec start ls).process i).Executing)
    (hj : ((system.exec start ls).process j).Executing) : i = j := by
  have hsound : ∀ i, Sound i ((system.exec start ls).process i) (system.exec start ls).lock :=
    hwaits.invariant (P := fun s => ∀ i, Sound i (s.process i) s.lock)
      (fun i => ⟨fun hrunning => (by cases hrunning), rfl⟩) fun s l hl h => sound_step h hl
  have hholds : ∀ i, ((system.exec start ls).process i).Executing →
      ∃ conn, (system.exec start ls).lock.Holds (i, conn) := by
    rintro i (hrunning | habandoned)
    · obtain ⟨conn, -, hconn⟩ := (hsound i).task hrunning
      exact ⟨conn, hconn⟩
    · rw [(hsound i).abandoned] at habandoned
      exact absurd habandoned (lt_irrefl 0)
  obtain ⟨conn, hconn⟩ := hholds i hi
  obtain ⟨conn', hconn'⟩ := hholds j hj
  exact congrArg Prod.fst (hconn.unique hconn')

end Sound

namespace Sample

def leads (i : ℕ) : List (ℕ × Event) :=
  [(i, .check), (i, .acquire (.ok 0)), (i, .tryAcquire (.ok ()))]

def ordered : List (ℕ × Event) :=
  leads 0 ++ [(0, .taskReturns none), (0, .result), (0, .unlock true), (0, .close)] ++ leads 1

def canceled : List (ℕ × Event) :=
  leads 0 ++ [(0, .cancel .canceled), (0, .done), (0, .unlock true)] ++ leads 1

end Sample

theorem single_leader_sample : ((system.exec start Sample.ordered).process 1).Executing ∧
    ∀ i, ((system.exec start Sample.ordered).process i).Executing → i = 1 := by
  refine ⟨.inl rfl, fun i hi => single_leader Sample.ordered ?_ i 1 hi (.inl rfl)⟩
  exact ⟨trivial, trivial, trivial, trivial, trivial, fun h => (by cases h), trivial, trivial,
    trivial, trivial, trivial⟩

/-- The task of a process that was cancelled runs beside that of the next leader. -/
theorem not_single_leader : ¬ ∀ ls : List (ℕ × Event), system.Runs start ls →
    ∀ i j, ((system.exec start ls).process i).Executing →
      ((system.exec start ls).process j).Executing → i = j := by
  intro h
  have hruns : system.Runs start Sample.canceled :=
    ⟨rfl, rfl, rfl, rfl, rfl, rfl, rfl, rfl, rfl, trivial⟩
  have heq := h Sample.canceled hruns 0 1 (.inr (by decide)) (.inl rfl)
  cases heq

end Lecrev.Leadership

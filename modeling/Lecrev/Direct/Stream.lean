import Lecrev.Concurrency.Fifo
import Lecrev.Concurrency.Transition
import Lecrev.Coordinator.Control
import Lecrev.Firecracker.Types

/-!
# The reports of a direct invocation

`ExecuteDirectStream` of `internal/coordinator` hands an assignment to a host and then waits for the
host's reports in a loop. `handleDirectInvokeUpdate` passes them to the loop through a channel with
room for sixteen; it never waits. When the channel is full a report is dropped, unless it is the
final one, which a goroutine of its own then sends. A report that is dropped may carry an event of
the HTTP response.
-/

namespace Lecrev.Direct

/-! ## The call -/

/-- `domain.DirectExecutionResult`. The field `LatencyMs` of its result stands beside the result. -/
structure DirectExecutionResult where
  jobID : String
  attemptID : String
  state : JobState
  error : String
  startMode : StartMode
  startedAt : Time
  finishedAt : Time
  result : JobResult
  latencyMs : ℕ
  deriving DecidableEq

/-- A call of `ExecuteDirectStream` whose assignment a host has. -/
structure Call where
  attemptID : String
  jobID : String
  startMode : StartMode
  startedAt : Time
  /-- `json.Unmarshal` into an `HTTPStreamEvent`. -/
  unmarshal : Bytes → Except Err HTTPStreamEvent
  /-- The function `onHTTPEvent` of the caller, if it is not nil: what it returns for an event may
  depend on the events before it. -/
  onHTTPEvent : Option (List HTTPStreamEvent → HTTPStreamEvent → Except Err Unit)

/-- The state of the loop. -/
structure Loop where
  resultStartedAt : Time
  /-- The events that `onHTTPEvent` was called with. -/
  passed : List HTTPStreamEvent := []
  /-- What the call has returned, once it has. -/
  outcome : Option (Except Err DirectExecutionResult) := none

/-- What the call returns for the final report. -/
def Call.result (call : Call) (resultStartedAt finishedAt : Time) (update : AssignmentUpdate) :
    DirectExecutionResult :=
  let resultStartedAt := startTimeOr call.startedAt resultStartedAt
  -- a clock that went back counts as zero, as the truncated subtraction does
  let latencyMs := (finishedAt - resultStartedAt) / 1000000
  { jobID := call.jobID
    attemptID := call.attemptID
    state := if update.state = .failed then .failed else .succeeded
    error := update.errorMessage
    startMode := call.startMode
    startedAt := resultStartedAt
    finishedAt
    result :=
      { exitCode := update.exitCode
        logs := update.logs
        logsKey := ""
        output := update.outputJson
        outputKey := ""
        hostID := update.hostID
        region := update.region
        startedAt := resultStartedAt
        finishedAt }
    latencyMs := if latencyMs = 0 then 1 else latencyMs }

/-- The event of a report is passed to the caller. -/
def Call.passEvent (call : Call) (loop : Loop) (update : AssignmentUpdate) : Loop :=
  match call.onHTTPEvent with
  | none => loop
  | some onHTTPEvent =>
    if update.outputJson = [] then loop
    else
      match call.unmarshal update.outputJson with
      | .error e => { loop with outcome := some (.error e) }
      | .ok event =>
        { loop with
          passed := loop.passed ++ [event]
          outcome :=
            match onHTTPEvent loop.passed event with
            | .error e => some (.error e)
            | .ok () => loop.outcome }

/-- The loop receives a report. -/
def Call.consume (call : Call) (now : Time) (loop : Loop) (update : AssignmentUpdate) : Loop :=
  match update.state with
  | .starting | .running =>
    call.passEvent { loop with resultStartedAt := startTimeOr now loop.resultStartedAt } update
  | .succeeded | .failed =>
    { loop with outcome := some (.ok (call.result loop.resultStartedAt now update)) }
  | .unspecified => loop

/-! ## The invocation -/

/-- The capacity of `waiter.updates`. -/
def updatesCapacity : ℕ := 16

/-- A direct invocation on the coordinator: what its goroutines share, and where they are. -/
structure Invocation where
  /-- The reports that the host has emitted and the coordinator has not handled. -/
  pending : List AssignmentUpdate
  /-- The attempts with an entry in `s.directInvokes`. -/
  directInvokes : List String
  /-- The field `canceled` of the waiter; its channel is set to nil with it. -/
  canceled : Bool := false
  /-- The report that `handleDirectInvokeUpdate` has looked up the channel for. -/
  inHand : Option AssignmentUpdate := none
  /-- The channel of the waiter. -/
  updates : Fifo AssignmentUpdate updatesCapacity := .empty
  /-- The final reports whose goroutines wait for room in the channel. -/
  waiting : List AssignmentUpdate := []
  loop : Loop

/-- The invocation when the host has the assignment; the host will emit the given reports. -/
def Invocation.start (call : Call) (directInvokes : List String) (reports : List AssignmentUpdate) :
    Invocation where
  pending := reports
  directInvokes := directInvokes
  loop := { resultStartedAt := call.startedAt }

/-- What happens to an invocation. -/
inductive Event
  /-- `handleDirectInvokeUpdate` looks up the waiter of the next report. -/
  | lookup
  /-- `handleDirectInvokeUpdate` sends the report. -/
  | send
  /-- A goroutine sends its final report. -/
  | wake (k : ℕ)
  /-- The loop receives a report. -/
  | receive (now : Time)
  /-- The loop finds the context done, with the given `ctx.Err()`. -/
  | done (e : Err)

/-- The entries after the lookup for a report: a final report removes its entry. -/
def remaining (directInvokes : List String) (msg : AssignmentUpdate) : List String :=
  if msg.state.terminal then directInvokes.filter (· ≠ msg.attemptID) else directInvokes

/-- The critical section of `handleDirectInvokeUpdate`. A report without an entry is not one of a
direct invocation; a report to a cancelled waiter is dropped. -/
def Invocation.lookup (s : Invocation) : Invocation :=
  match s.inHand, s.pending with
  | none, msg :: pending =>
    { s with
      pending
      directInvokes := remaining s.directInvokes msg
      inHand :=
        if s.directInvokes.contains msg.attemptID && !s.canceled then some msg else none }
  | _, _ => s

/-- The send of `handleDirectInvokeUpdate`. -/
def Invocation.send (s : Invocation) : Invocation :=
  match s.inHand with
  | none => s
  | some msg =>
    match s.updates.offer msg with
    | some updates => { s with inHand := none, updates }
    | none =>
      if msg.state.terminal then { s with inHand := none, waiting := s.waiting ++ [msg] }
      else { s with inHand := none }

/-- A goroutine that waits to send a final report finds room in the channel. -/
def Invocation.wake (s : Invocation) (k : ℕ) : Invocation :=
  match s.waiting[k]? with
  | none => s
  | some msg =>
    match s.updates.offer msg with
    | none => s
    | some updates => { s with waiting := s.waiting.eraseIdx k, updates }

/-- The loop receives a report, if there is one. -/
def Invocation.receive (call : Call) (now : Time) (s : Invocation) : Invocation :=
  match s.loop.outcome, s.updates.take with
  | none, some (msg, updates) => { s with updates, loop := call.consume now s.loop msg }
  | _, _ => s

/-- The loop returns because the context is done (`cancelDirectInvoke`). -/
def Invocation.done (call : Call) (e : Err) (s : Invocation) : Invocation :=
  match s.loop.outcome with
  | some _ => s
  | none =>
    { s with
      canceled := s.canceled || s.directInvokes.contains call.attemptID
      loop := { s.loop with outcome := some (.error e) } }

/-- The invocation after an event; an event that is not possible changes nothing. -/
def step (call : Call) (s : Invocation) : Event → Invocation
  | .lookup => s.lookup
  | .send => s.send
  | .wake k => s.wake k
  | .receive now => s.receive call now
  | .done e => s.done call e

/-- The invocation as a transition system: every relative speed of the handler, the goroutines and
the loop is a run. -/
def system (call : Call) : Transition.System Invocation Event where
  step := step call
  enabled _ _ := True

/-! ## The reports and their events -/

/-- The reports of a host about an attempt: the last one, and no other, is final. -/
inductive Reports (attemptID : String) : List AssignmentUpdate → Prop
  | last {msg : AssignmentUpdate} (id : msg.attemptID = attemptID)
      (final : msg.state.terminal = true) : Reports attemptID [msg]
  | more {msg : AssignmentUpdate} {l : List AssignmentUpdate} (id : msg.attemptID = attemptID)
      (notFinal : msg.state.terminal = false) (rest : Reports attemptID l) :
      Reports attemptID (msg :: l)

namespace Reports

variable {attemptID : String} {msg : AssignmentUpdate} {l before after : List AssignmentUpdate}

theorem id_of_mem (h : Reports attemptID l) (hmem : msg ∈ l) : msg.attemptID = attemptID := by
  induction h with
  | last id _ =>
    rw [List.mem_singleton.mp hmem]
    exact id
  | more id _ _ ih =>
    rcases List.mem_cons.mp hmem with rfl | hrest
    · exact id
    · exact ih hrest

theorem of_cons_append (h : Reports attemptID (msg :: (before ++ l)))
    (hl : l ≠ []) : msg.attemptID = attemptID ∧ msg.state.terminal = false ∧
      Reports attemptID (before ++ l) := by
  generalize hrest : before ++ l = rest at h
  cases h with
  | last => exact absurd (List.append_eq_nil_iff.mp hrest).2 hl
  | more id notFinal rest => exact ⟨id, notFinal, rest⟩

theorem eq_nil_of_final (h : Reports attemptID (before ++ msg :: after))
    (hfinal : msg.state.terminal = true) : after = [] := by
  induction before with
  | nil =>
    cases h with
    | last => rfl
    | more _ notFinal _ => exact absurd hfinal (by rw [notFinal]; decide)
  | cons first before ih => exact ih (h.of_cons_append (List.cons_ne_nil _ _)).2.2

theorem drop (h : Reports attemptID (before ++ msg :: after))
    (hfinal : msg.state.terminal = false) : Reports attemptID (before ++ after) := by
  induction before with
  | nil =>
    cases h with
    | last _ final => exact absurd final (by rw [hfinal]; decide)
    | more _ _ rest => exact rest
  | cons first before ih =>
    obtain ⟨id, notFinal, rest⟩ := h.of_cons_append (List.cons_ne_nil _ _)
    exact .more id notFinal (ih rest)

end Reports

/-- The HTTP event that a report carries. -/
def Call.eventOf (call : Call) (msg : AssignmentUpdate) : Option HTTPStreamEvent :=
  if (msg.state = .starting ∨ msg.state = .running) ∧ msg.outputJson ≠ [] then
    (call.unmarshal msg.outputJson).toOption
  else none

/-- The HTTP events of reports. -/
def Call.events (call : Call) (l : List AssignmentUpdate) : List HTTPStreamEvent :=
  l.filterMap call.eventOf

theorem Call.eventOf_of_final (call : Call) {msg : AssignmentUpdate}
    (h : msg.state.terminal = true) : call.eventOf msg = none := by
  refine if_neg fun hevent => ?_
  rcases hevent.1 with hstate | hstate <;> rw [hstate] at h <;> cases h

theorem Call.passed_consume {call : Call}
    {onHTTPEvent : List HTTPStreamEvent → HTTPStreamEvent → Except Err Unit}
    (hcall : call.onHTTPEvent = some onHTTPEvent) (now : Time) (loop : Loop)
    (msg : AssignmentUpdate) :
    (call.consume now loop msg).passed = loop.passed ++ (call.eventOf msg).toList := by
  have hpass (loop : Loop) (hstate : msg.state = .starting ∨ msg.state = .running) :
      (call.passEvent loop msg).passed = loop.passed ++ (call.eventOf msg).toList := by
    rw [passEvent, hcall, eventOf]
    dsimp only
    by_cases hoctets : msg.outputJson = []
    · rw [if_pos hoctets, if_neg fun h => h.2 hoctets]
      exact (List.append_nil _).symm
    · rw [if_neg hoctets, if_pos ⟨hstate, hoctets⟩]
      cases call.unmarshal msg.outputJson with
      | error e => exact (List.append_nil _).symm
      | ok event => rfl
  rw [consume]
  split
  case h_1 hstate => exact hpass _ (.inl hstate)
  case h_2 hstate => exact hpass _ (.inr hstate)
  all_goals
    rename_i hstate
    rw [eventOf, if_neg (by simp [hstate])]
    exact (List.append_nil _).symm

/-- The call has returned a result. -/
def Loop.succeeded (loop : Loop) : Bool :=
  match loop.outcome with
  | some (.ok _) => true
  | _ => false

theorem Loop.exists_result {loop : Loop} (h : loop.succeeded = true) :
    ∃ r, loop.outcome = some (.ok r) := by
  unfold succeeded at h
  split at h
  · exact ⟨_, by assumption⟩
  · cases h

theorem Call.succeeded_passEvent (call : Call) (loop : Loop) (h : loop.outcome = none)
    (msg : AssignmentUpdate) : (call.passEvent loop msg).succeeded = false := by
  have hloop : loop.succeeded = false := by rw [Loop.succeeded, h]
  unfold passEvent
  split
  · exact hloop
  · split
    · exact hloop
    · split
      · rfl
      · rename_i onHTTPEvent _ _ _ event _
        rw [Loop.succeeded, h]
        cases onHTTPEvent loop.passed event <;> rfl

theorem Call.succeeded_consume (call : Call) (now : Time) {loop : Loop} (h : loop.outcome = none)
    (msg : AssignmentUpdate) : (call.consume now loop msg).succeeded = msg.state.terminal := by
  have hloop : loop.succeeded = false := by rw [Loop.succeeded, h]
  rw [consume]
  cases msg.state with
  | starting | running =>
    exact call.succeeded_passEvent
      { loop with resultStartedAt := startTimeOr now loop.resultStartedAt } h msg
  | succeeded | failed => rfl
  | unspecified => exact hloop

/-! ## What an event does -/

/-- The reports on their way to the loop, in the order in which it receives them. -/
def Invocation.queue (s : Invocation) : List AssignmentUpdate :=
  s.updates.toList ++ (s.waiting ++ (s.inHand.toList ++ s.pending))

/-- The events that were passed to the caller, and those on their way. -/
def Invocation.outlook (call : Call) (s : Invocation) : List HTTPStreamEvent :=
  s.loop.passed ++ call.events s.queue

/-- A report with an event is sent only when the channel has room. -/
def Fits (call : Call) (s : Invocation) : Event → Prop
  | .send => ∀ msg ∈ s.inHand, call.eventOf msg ≠ none → s.updates.HasRoom
  | _ => True

instance (call : Call) (s : Invocation) : (e : Event) → Decidable (Fits call s e)
  | .send =>
    inferInstanceAs (Decidable (∀ msg ∈ s.inHand, call.eventOf msg ≠ none → s.updates.HasRoom))
  | .lookup | .wake _ | .receive _ | .done _ => .isTrue trivial

/-- The final report is still on its way, or the call has returned it. -/
structure Inv (call : Call) (s : Invocation) : Prop where
  queue : s.loop.succeeded = false ∧ Reports call.attemptID s.queue ∨
    s.loop.succeeded = true ∧ s.queue = []
  registered : s.pending ≠ [] → call.attemptID ∈ s.directInvokes
  waiting : ∀ msg ∈ s.waiting, msg.state.terminal = true

/-- What an event did to the reports on their way. -/
inductive Moved (call : Call) (s : Invocation) (e : Event) (s' : Invocation) : Prop
  | kept (queue : s'.queue = s.queue) (passed : s'.loop.passed = s.loop.passed)
      (succeeded : s'.loop.succeeded = s.loop.succeeded) (fits : Fits call s e)
  /-- A report met a full channel. -/
  | dropped {msg : AssignmentUpdate} {before after : List AssignmentUpdate}
      (queue : s.queue = before ++ msg :: after) (dropped : s'.queue = before ++ after)
      (notFinal : msg.state.terminal = false) (loop : s'.loop = s.loop)
      (fits : Fits call s e ↔ call.eventOf msg = none)
  | received {msg : AssignmentUpdate} {now : Time} (queue : s.queue = msg :: s'.queue)
      (running : s.loop.outcome = none) (loop : s'.loop = call.consume now s.loop msg)
      (fits : Fits call s e)

theorem directInvokes_tryHandOver (c : Coordinator) (session : HostSession)
    (assignment : Assignment) (done : Bool) :
    (c.tryHandOver session assignment done).2.directInvokes = c.directInvokes := by
  unfold Coordinator.tryHandOver Coordinator.trySend
  split_ifs
  · rfl
  · rfl
  · split
    · rfl
    · dsimp only
      split_ifs <;> rfl

theorem eq_sent_of_run_afterSend {hostID : String} {restore : CoordM Unit} {outcome : Sent}
    {w w' : World} (h : (afterSend hostID restore outcome).run w = (.ok (), w')) :
    outcome = .sent ∧ w' = w := by
  cases outcome with
  | sent =>
    cases h
    exact ⟨rfl, rfl⟩
  | panicked => cases h
  | cancelled | full =>
    simp only [afterSend, Prog.run_bind] at h
    split at h <;> cases h

theorem registered_of_startDirectExecution {clock : ℕ → Time} {order : MapOrder HostSession}
    {done : Bool} {assignment : Assignment} {w w' : World}
    (h : (startDirectExecution clock order done assignment).run w = (.ok (), w')) :
    assignment.attemptID ∈ w'.coordinator.directInvokes := by
  rcases hrun : (pickHost clock order assignment).run w with ⟨e | ⟨session, mode⟩, w₁⟩
  · simp [startDirectExecution, hrun] at h
  · simp only [startDirectExecution, Prog.run_bind, Prog.run_result, hrun, locked, handOver,
      Prog.run_action] at h
    have hentries := directInvokes_tryHandOver
      { w₁.coordinator with directInvokes := assignment.attemptID :: w₁.coordinator.directInvokes }
      session assignment done
    generalize Coordinator.tryHandOver _ _ _ _ = out at h hentries
    obtain ⟨-, rfl⟩ := eq_sent_of_run_afterSend h
    rw [hentries]
    exact List.mem_cons_self

section Events

variable {call : Call} {s : Invocation}

theorem Inv.id_of_mem (h : Inv call s) {msg : AssignmentUpdate} (hmem : msg ∈ s.queue) :
    msg.attemptID = call.attemptID := by
  obtain ⟨-, hreports⟩ | ⟨-, hnil⟩ := h.queue
  · exact hreports.id_of_mem hmem
  · rw [hnil] at hmem
    cases hmem

theorem Inv.waiting_cases (h : Inv call s) :
    s.waiting = [] ∨ ∃ msg, s.waiting = [msg] ∧ s.inHand.toList ++ s.pending = [] := by
  cases hwaiting : s.waiting with
  | nil => exact .inl rfl
  | cons msg others =>
    have hfinal : msg.state.terminal = true := by
      refine h.waiting msg ?_
      rw [hwaiting]
      exact List.mem_cons_self
    obtain ⟨-, hreports⟩ | ⟨-, hnil⟩ := h.queue
    · rw [Invocation.queue, hwaiting] at hreports
      obtain ⟨rfl, hrest⟩ := List.append_eq_nil_iff.mp (hreports.eq_nil_of_final hfinal)
      exact .inr ⟨msg, rfl, hrest⟩
    · rw [Invocation.queue, hwaiting] at hnil
      simp at hnil

theorem loop_lookup : s.lookup.loop = s.loop := by
  unfold Invocation.lookup
  split <;> rfl

/-- A send moves a report, and nothing else. -/
structure Sending (s s' : Invocation) : Prop where
  pending : s'.pending = s.pending
  directInvokes : s'.directInvokes = s.directInvokes
  canceled : s'.canceled = s.canceled
  loop : s'.loop = s.loop

theorem sending_send : Sending s s.send := by
  unfold Invocation.send
  split
  · exact ⟨rfl, rfl, rfl, rfl⟩
  · split
    · exact ⟨rfl, rfl, rfl, rfl⟩
    · split <;> exact ⟨rfl, rfl, rfl, rfl⟩

theorem sending_wake (k : ℕ) : Sending s (s.wake k) := by
  unfold Invocation.wake
  split
  · exact ⟨rfl, rfl, rfl, rfl⟩
  · split <;> exact ⟨rfl, rfl, rfl, rfl⟩

theorem Sending.kept {s' : Invocation} {e : Event} (h : Sending s s') (hqueue : s'.queue = s.queue)
    (hfits : Fits call s e) : Moved call s e s' := by
  exact .kept hqueue (by rw [h.loop]) (by rw [h.loop]) hfits

theorem Inv.queue_lookup (h : Inv call s) (hcanceled : s.canceled = false) :
    s.lookup.queue = s.queue := by
  unfold Invocation.lookup
  split
  · rename_i msg pending hinHand hpending
    have hid : msg.attemptID = call.attemptID := by
      refine h.id_of_mem ?_
      simp [Invocation.queue, hpending]
    have hregistered : s.directInvokes.contains msg.attemptID = true := by
      rw [hid, List.contains_iff_mem]
      exact h.registered (by simp [hpending])
    simp only [Invocation.queue, hregistered, hcanceled, hinHand, hpending]
    rfl
  · rfl

theorem Inv.moved_lookup (h : Inv call s) (hcanceled : s.canceled = false) :
    Moved call s .lookup s.lookup :=
  .kept (h.queue_lookup hcanceled) (by rw [loop_lookup]) (by rw [loop_lookup]) trivial

/-- What a send does to the reports. -/
theorem Inv.moved_send (h : Inv call s) : Moved call s .send s.send := by
  cases hinHand : s.inHand with
  | none =>
    have hsend : s.send = s := by rw [Invocation.send, hinHand]
    rw [hsend]
    refine .kept rfl rfl rfl ?_
    intro msg hmsg
    rw [hinHand] at hmsg
    cases hmsg
  | some msg =>
    have hwaiting : s.waiting = [] := by
      obtain hnil | ⟨_, -, hrest⟩ := h.waiting_cases
      · exact hnil
      · simp [hinHand] at hrest
    have hqueue : s.queue = s.updates.toList ++ msg :: s.pending := by
      rw [Invocation.queue, hwaiting, hinHand]
      rfl
    have hfits (hroom : s.updates.HasRoom) : Fits call s .send := fun _ _ _ => hroom
    cases hoffer : s.updates.offer msg with
    | some updates =>
      refine sending_send.kept ?_ (hfits (Fifo.hasRoom_of_offer hoffer))
      rw [hqueue]
      simp [Invocation.send, Invocation.queue, hinHand, hoffer, hwaiting,
        Fifo.toList_of_offer hoffer]
    | none =>
      have hroom : ¬ s.updates.HasRoom := Fifo.offer_eq_none_iff.mp hoffer
      have hfits : Fits call s .send ↔ call.eventOf msg = none := by
        simp [Fits, hinHand, hroom]
      cases hfinal : msg.state.terminal with
      | true =>
        refine sending_send.kept ?_ (hfits.mpr (call.eventOf_of_final hfinal))
        rw [hqueue]
        simp [Invocation.send, Invocation.queue, hinHand, hoffer, hwaiting, hfinal]
      | false =>
        refine .dropped hqueue ?_ hfinal sending_send.loop hfits
        simp [Invocation.send, Invocation.queue, hinHand, hoffer, hwaiting, hfinal]

theorem Inv.moved_wake (h : Inv call s) (k : ℕ) : Moved call s (.wake k) (s.wake k) := by
  refine (sending_wake k).kept ?_ trivial
  unfold Invocation.wake
  split
  · rfl
  · rename_i msg hmsg
    split
    · rfl
    · rename_i updates hoffer
      obtain hnil | ⟨last, hwaiting, hrest⟩ := h.waiting_cases
      · simp [hnil] at hmsg
      · -- the only goroutine is the first
        rw [hwaiting, List.getElem?_singleton] at hmsg
        split_ifs at hmsg with hk
        cases hmsg
        simp [Invocation.queue, hwaiting, hk, hrest, Fifo.toList_of_offer hoffer]

theorem moved_receive (now : Time) : Moved call s (.receive now) (s.receive call now) := by
  unfold Invocation.receive
  split
  · rename_i msg updates houtcome htake
    refine .received ?_ houtcome rfl trivial
    simp [Invocation.queue, Fifo.toList_of_take htake]
  · exact .kept rfl rfl rfl trivial

theorem moved_done (e : Err) : Moved call s (.done e) (s.done call e) := by
  unfold Invocation.done
  split
  · exact .kept rfl rfl rfl trivial
  · rename_i houtcome
    refine .kept rfl rfl ?_ trivial
    simp only [Loop.succeeded, houtcome]

theorem Inv.moved (h : Inv call s) (hcanceled : s.canceled = false) (e : Event) :
    Moved call s e (step call s e) := by
  cases e with
  | lookup => exact h.moved_lookup hcanceled
  | send => exact h.moved_send
  | wake k => exact h.moved_wake k
  | receive now => exact moved_receive now
  | done e => exact moved_done e

/-! ## Invariants -/

theorem Inv.queue_step (h : Inv call s) (hcanceled : s.canceled = false) (e : Event) :
    (step call s e).loop.succeeded = false ∧ Reports call.attemptID (step call s e).queue ∨
      (step call s e).loop.succeeded = true ∧ (step call s e).queue = [] := by
  obtain ⟨hrunning, hreports⟩ | ⟨hresult, hnil⟩ := h.queue
  · cases h.moved hcanceled e with
    | kept queue _ succeeded _ =>
      rw [queue, succeeded]
      exact .inl ⟨hrunning, hreports⟩
    | dropped queue dropped notFinal loop _ =>
      rw [queue] at hreports
      rw [dropped, loop]
      exact .inl ⟨hrunning, hreports.drop notFinal⟩
    | received queue running loop _ =>
      rw [queue] at hreports
      rw [loop, call.succeeded_consume _ running]
      generalize (step call s e).queue = rest at hreports ⊢
      cases hreports with
      | last _ final => exact .inr ⟨final, rfl⟩
      | more _ notFinal rest => exact .inl ⟨notFinal, rest⟩
  · -- nothing is on its way, and the result stays
    cases h.moved hcanceled e with
    | kept queue _ succeeded _ => exact .inr ⟨succeeded.trans hresult, queue.trans hnil⟩
    | dropped queue _ _ _ _ => simp [hnil] at queue
    | received queue _ _ _ => simp [hnil] at queue

theorem Inv.registered_lookup (h : Inv call s) (hpending : s.lookup.pending ≠ []) :
    call.attemptID ∈ s.lookup.directInvokes := by
  unfold Invocation.lookup at hpending ⊢
  split at hpending
  · rename_i msg pending hinHand hmsg
    have hregistered : call.attemptID ∈ s.directInvokes := h.registered (by simp [hmsg])
    dsimp only at hpending ⊢
    cases hfinal : msg.state.terminal with
    | false =>
      rw [remaining, hfinal]
      exact hregistered
    | true =>
      -- nothing is pending behind the final report
      obtain ⟨-, hreports⟩ | ⟨-, hnil⟩ := h.queue
      · rw [Invocation.queue, hinHand, hmsg, ← List.append_assoc, ← List.append_assoc] at hreports
        exact absurd (hreports.eq_nil_of_final hfinal) hpending
      · simp [Invocation.queue, hmsg] at hnil
  · exact h.registered hpending

theorem Inv.registered_step (h : Inv call s) (e : Event)
    (hpending : (step call s e).pending ≠ []) :
    call.attemptID ∈ (step call s e).directInvokes := by
  cases e with
  | lookup => exact h.registered_lookup hpending
  | send =>
    rw [step, sending_send.pending] at hpending
    rw [step, sending_send.directInvokes]
    exact h.registered hpending
  | wake k =>
    rw [step, (sending_wake k).pending] at hpending
    rw [step, (sending_wake k).directInvokes]
    exact h.registered hpending
  | receive now =>
    unfold step Invocation.receive at hpending ⊢
    dsimp only at hpending ⊢
    split at hpending <;> exact h.registered hpending
  | done e =>
    unfold step Invocation.done at hpending ⊢
    dsimp only at hpending ⊢
    split at hpending <;> exact h.registered hpending

theorem Inv.waiting_send (h : Inv call s) :
    ∀ msg ∈ s.send.waiting, msg.state.terminal = true := by
  unfold Invocation.send
  split
  · exact h.waiting
  · split
    · exact h.waiting
    · split
      · rename_i hfinal
        intro msg hmem
        rcases List.mem_append.mp hmem with hwaiting | hnew
        · exact h.waiting msg hwaiting
        · rw [List.mem_singleton.mp hnew]
          exact hfinal
      · exact h.waiting

theorem Inv.waiting_step (h : Inv call s) (e : Event) :
    ∀ msg ∈ (step call s e).waiting, msg.state.terminal = true := by
  cases e with
  | lookup =>
    unfold step Invocation.lookup
    dsimp only
    split <;> exact h.waiting
  | send => exact h.waiting_send
  | wake k =>
    unfold step Invocation.wake
    dsimp only
    split
    · exact h.waiting
    · split
      · exact h.waiting
      · exact fun msg hmem => h.waiting msg (List.mem_of_mem_eraseIdx hmem)
  | receive now =>
    unfold step Invocation.receive
    dsimp only
    split <;> exact h.waiting
  | done e =>
    unfold step Invocation.done
    dsimp only
    split <;> exact h.waiting

/-- Until it is cancelled, every event keeps the invariant. -/
theorem Inv.step (h : Inv call s) (hcanceled : s.canceled = false) (e : Event) :
    Inv call (step call s e) :=
  ⟨h.queue_step hcanceled e, h.registered_step e, h.waiting_step e⟩

theorem Inv.outlook_step (h : Inv call s) (hcanceled : s.canceled = false)
    {onHTTPEvent : List HTTPStreamEvent → HTTPStreamEvent → Except Err Unit}
    (hcall : call.onHTTPEvent = some onHTTPEvent) (e : Event) :
    ((Direct.step call s e).outlook call).Sublist (s.outlook call) ∧
      ((Direct.step call s e).outlook call = s.outlook call ↔ Fits call s e) := by
  cases h.moved hcanceled e with
  | kept queue passed _ fits =>
    have heq : (Direct.step call s e).outlook call = s.outlook call := by
      rw [Invocation.outlook, Invocation.outlook, queue, passed]
    rw [heq]
    exact ⟨.refl _, iff_of_true rfl fits⟩
  | dropped queue dropped _ loop fits =>
    rw [Invocation.outlook, Invocation.outlook, queue, dropped, loop, fits]
    cases hevent : call.eventOf _ with
    | none => simp [Call.events, hevent]
    | some event => simp [Call.events, hevent]
  | received queue _ loop fits =>
    have heq : (Direct.step call s e).outlook call = s.outlook call := by
      rw [Invocation.outlook, Invocation.outlook, queue, loop, call.passed_consume hcall,
        List.append_assoc]
      congr 1
      cases hevent : call.eventOf _ <;> simp [Call.events, hevent]
    rw [heq]
    exact ⟨.refl _, iff_of_true rfl fits⟩

/-- What is cancelled stays cancelled. -/
theorem canceled_step (hcanceled : s.canceled = true) (e : Event) :
    (Direct.step call s e).canceled = true := by
  cases e with
  | lookup =>
    unfold Direct.step Invocation.lookup
    dsimp only
    split <;> exact hcanceled
  | send => exact sending_send.canceled.trans hcanceled
  | wake k => exact (sending_wake k).canceled.trans hcanceled
  | receive now =>
    unfold Direct.step Invocation.receive
    dsimp only
    split <;> exact hcanceled
  | done e =>
    unfold Direct.step Invocation.done
    dsimp only
    split
    · exact hcanceled
    · simp [hcanceled]

/-- A loop that a step cancels has ended with an error. -/
theorem error_of_canceled_step
    (h : s.canceled = true → ∃ e, s.loop.outcome = some (.error e)) (e : Event)
    (hcanceled : (step call s e).canceled = true) :
    ∃ e', (step call s e).loop.outcome = some (.error e') := by
  cases e with
  | lookup =>
    rw [step, loop_lookup]
    refine h ?_
    unfold step Invocation.lookup at hcanceled
    dsimp only at hcanceled
    split at hcanceled <;> exact hcanceled
  | send =>
    rw [step, sending_send.loop]
    exact h (sending_send.canceled.symm.trans hcanceled)
  | wake k =>
    rw [step, (sending_wake k).loop]
    exact h ((sending_wake k).canceled.symm.trans hcanceled)
  | receive now =>
    unfold step Invocation.receive at hcanceled ⊢
    dsimp only at hcanceled ⊢
    split at hcanceled
    · -- the loop is still running
      rename_i houtcome _
      obtain ⟨e, he⟩ := h hcanceled
      rw [houtcome] at he
      cases he
    · exact h hcanceled
  | done e =>
    unfold step Invocation.done at hcanceled ⊢
    dsimp only at hcanceled ⊢
    split at hcanceled
    · exact h hcanceled
    · exact ⟨e, rfl⟩

end Events

/-! ## The events that are passed on -/

theorem inv_start (call : Call) {directInvokes : List String}
    (hregistered : call.attemptID ∈ directInvokes) {reports : List AssignmentUpdate}
    (hreports : Reports call.attemptID reports) :
    Inv call (.start call directInvokes reports) where
  queue := .inl ⟨rfl, hreports⟩
  registered _ := hregistered
  waiting _ hmem := by cases hmem

theorem not_canceled_of_result {call : Call} {directInvokes : List String}
    {reports : List AssignmentUpdate} {schedule : List Event} {r : DirectExecutionResult}
    (hresult : ((system call).exec (.start call directInvokes reports) schedule).loop.outcome =
      some (.ok r)) :
    (system call).EveryStep (fun s _ => ¬ s.canceled = true) (.start call directInvokes reports)
      schedule := by
  refine Transition.System.everyStep_not_of_exec (fun hcanceled => ?_)
    fun _ e hcanceled => canceled_step hcanceled e
  have hstart (h : (Invocation.start call directInvokes reports).canceled = true) :
      ∃ e, (Invocation.start call directInvokes reports).loop.outcome = some (.error e) := by
    cases h
  obtain ⟨e, he⟩ := (system call).exec_invariant
    (P := fun s => s.canceled = true → ∃ e, s.loop.outcome = some (.error e)) schedule hstart
    (fun _ e h => error_of_canceled_step h e) hcanceled
  rw [hresult] at he
  cases he

/-- **Streamed events.** A direct invocation that returns a result has called `onHTTPEvent` with
exactly the events of the host's reports, in their order, if and only if every report with an event
found room in the channel. -/
theorem events_passed_iff (call : Call)
    {onHTTPEvent : List HTTPStreamEvent → HTTPStreamEvent → Except Err Unit}
    (hcall : call.onHTTPEvent = some onHTTPEvent) {directInvokes : List String}
    (hregistered : call.attemptID ∈ directInvokes) {reports : List AssignmentUpdate}
    (hreports : Reports call.attemptID reports) (schedule : List Event) {r : DirectExecutionResult}
    (hresult : ((system call).exec (.start call directInvokes reports) schedule).loop.outcome =
      some (.ok r)) :
    ((system call).exec (.start call directInvokes reports) schedule).loop.passed =
        call.events reports ↔
      (system call).EveryStep (Fits call) (.start call directInvokes reports) schedule := by
  have hinv := (not_canceled_of_result hresult).and_invariant (P := Inv call)
    (inv_start call hregistered hreports) fun s e hcanceled h =>
      h.step (Bool.eq_false_iff.mpr hcanceled) e
  have hstep (s : Invocation) (e : Event) (h : ¬ s.canceled = true ∧ Inv call s) :=
    h.2.outlook_step (Bool.eq_false_iff.mpr h.1) hcall e
  -- nothing is on its way when the result is there
  have hlast : ((system call).exec (.start call directInvokes reports) schedule).queue = [] := by
    have h := (not_canceled_of_result hresult).invariant (P := Inv call)
      (inv_start call hregistered hreports) fun s e hcanceled h =>
        h.step (Bool.eq_false_iff.mpr hcanceled) e
    rcases h.queue with ⟨hrunning, -⟩ | ⟨-, hnil⟩
    · rw [Loop.succeeded, hresult] at hrunning
      cases hrunning
    · exact hnil
  have hpassed : ((system call).exec (.start call directInvokes reports) schedule).loop.passed =
      ((system call).exec (.start call directInvokes reports) schedule).outlook call := by
    rw [Invocation.outlook, hlast]
    exact (List.append_nil _).symm
  rw [hpassed]
  refine (hinv.observed_eq_iff (f := Invocation.outlook call) (R := List.Sublist) List.Sublist.refl
    (fun _ _ _ => List.Sublist.trans) (fun _ _ => List.Sublist.antisymm)
    fun s e h => (hstep s e h).1).trans ?_
  exact hinv.congr fun s e h => (hstep s e h).2

/-! ## A stream of chunks -/

namespace Sample

def call : Call where
  attemptID := "a"
  jobID := "j"
  startMode := .cold
  startedAt := 1
  unmarshal bytes := .ok { type := .chunk, chunk := bytes }
  onHTTPEvent := some fun _ _ => .ok ()

def report (state : AssignmentState) (outputJson : Bytes) : AssignmentUpdate where
  hostID := "h"
  region := "r"
  attemptID := "a"
  jobID := "j"
  state := state
  outputJson := outputJson

def reports : ℕ → List AssignmentUpdate
  | 0 => [report .succeeded []]
  | n + 1 => report .running [0] :: reports n

theorem reports_reports (n : ℕ) : Reports call.attemptID (reports n) := by
  induction n with
  | zero => exact .last rfl rfl
  | succ n ih => exact .more rfl rfl ih

def handle (n : ℕ) : List Event := (List.replicate n [Event.lookup, Event.send]).flatten

def receive (n : ℕ) : List Event := List.replicate n (.receive 2)

end Sample

open Sample in
theorem events_passed_iff_sample :
    ((system call).exec (.start call ["a"] (reports 2))
        (handle 1 ++ receive 1 ++ handle 1 ++ receive 1 ++ handle 1 ++ receive 1)).loop.passed =
      call.events (reports 2) :=
  (events_passed_iff call rfl (List.mem_singleton.mpr rfl) (reports_reports 2) _ rfl).mpr
    (by decide +kernel)

open Sample in
/-- The host emits seventeen chunks before the loop receives the first: the last chunk is lost, and
the call returns a result. -/
theorem not_events_passed :
    ¬ ∀ (call : Call) (onHTTPEvent : List HTTPStreamEvent → HTTPStreamEvent → Except Err Unit),
      call.onHTTPEvent = some onHTTPEvent → ∀ (directInvokes : List String),
      call.attemptID ∈ directInvokes → ∀ (reports : List AssignmentUpdate),
      Reports call.attemptID reports → ∀ (schedule : List Event) (r : DirectExecutionResult),
      ((system call).exec (.start call directInvokes reports) schedule).loop.outcome =
        some (.ok r) →
      ((system call).exec (.start call directInvokes reports) schedule).loop.passed =
        call.events reports := by
  intro h
  let schedule := handle 18 ++ receive 1 ++ [.wake 0] ++ receive 16
  have hresult : ((system call).exec (.start call ["a"] (reports 17)) schedule).loop.succeeded =
      true := by
    decide +kernel
  obtain ⟨r, hr⟩ := Loop.exists_result hresult
  have hpassed := h call _ rfl ["a"] (List.mem_singleton.mpr rfl) (reports 17) (reports_reports 17)
    schedule r hr
  exact absurd hpassed (by decide +kernel)

end Lecrev.Direct

import Lecrev.Coordinator.Hosts

/-!
# Work for hosts

The functions of a coordinator that send messages to hosts: `assignExecution` hands an execution to
a host, `ExecuteDirectStream` does so for a direct invocation, `PrepareFunctionWarm` asks a host for
a function snapshot, and `DrainHost` takes a host out of service.

A send is a `select` with a default branch: it never waits. When the channel is full, or the
caller's context is done, the reservation is given back. A send on a closed channel panics; the
program ends there with the error of the panic.
-/

namespace Lecrev

/-! ## Sending -/

/-- What a `select` with a send, `ctx.Done()` and a default does. -/
inductive Sent
  | sent | full | cancelled | panicked
  deriving DecidableEq, Repr

/-- A `select` that sends on a channel; `done` says that it takes the branch of `ctx.Done()`. A
`nil` channel is never ready. -/
def Coordinator.trySend (c : Coordinator) (sendCh : Option StreamID) (msg : CoordinatorMessage)
    (done : Bool) : Sent × Coordinator :=
  if done then (.cancelled, c)
  else
    match sendCh with
    | none => (.full, c)
    | some stream =>
      let channel := c.channels stream
      if channel.closed then (.panicked, c)
      else if channel.buffer.length < sendChCapacity then
        (.sent, { c with
          channels := Function.update c.channels stream
            { channel with buffer := channel.buffer ++ [msg] } })
      else (.full, c)

/-- Send a message to a host. -/
def sendMessage (sendCh : Option StreamID) (msg : CoordinatorMessage) (done : Bool) :
    CoordM Sent :=
  .action .send fun w =>
    (.ok (w.coordinator.trySend sendCh msg done).1,
      { w with coordinator := (w.coordinator.trySend sendCh msg done).2 })

/-- The history after an assignment was sent to a host, or not. -/
def World.afterHandOver (w : World) (hostID attemptID : String) : Sent → List HandOver
  | .sent =>
    { attemptID, hostID, state := (w.store.attempts.get attemptID).map (·.state) } :: w.handed
  | _ => w.handed

/-- An assignment goes to the executor of a host, or on its channel. -/
def Coordinator.tryHandOver (c : Coordinator) (session : HostSession) (assignment : Assignment)
    (done : Bool) : Sent × Coordinator :=
  if session.executor then (.sent, c)
  else c.trySend session.sendCh (.assignment assignment) done

/-- The send of an assignment to a session. -/
def handOver (session : HostSession) (assignment : Assignment) (done : Bool) : CoordM Sent :=
  .action .send fun w =>
    (.ok (w.coordinator.tryHandOver session assignment done).1,
      { store := w.store
        coordinator := (w.coordinator.tryHandOver session assignment done).2
        handed := w.afterHandOver session.host.id assignment.attemptID
          (w.coordinator.tryHandOver session assignment done).1 })

/-- `ctx.Err()` of a cancelled context. -/
def contextCanceled : Err := .canceled

/-- The error for a channel that is full. -/
def channelFull (hostID : String) : Err := .other ("host " ++ hostID ++ " control channel full")

/-- The panic of a send on a closed channel. -/
def sendOnClosedChannel : Err := .other "send on closed channel"

/-- What a sender does next: it gives its reservation back unless the message was sent. -/
def afterSend (hostID : String) (restore : CoordM Unit) : Sent → CoordM Unit
  | .sent => pure ()
  | .cancelled => do
    restore
    .throw contextCanceled
  | .full => do
    restore
    .throw (channelFull hostID)
  | .panicked => .throw sendOnClosedChannel

/-! ## The senders -/

/-- The only error of `pickHost` means that there is no capacity. -/
def noCapacity (e : Err) : Err := .noExecutionCapacity (": " ++ e.text)

/-- The attempt as `assignExecution` writes it: the state it was read with is written back. -/
def Attempt.placed (attempt : Attempt) (hostID : String) (mode : StartMode) (now : Time) :
    Attempt :=
  { attempt with hostID := hostID, startMode := mode, updatedAt := now }

@[simp]
theorem Attempt.id_placed (attempt : Attempt) (hostID : String) (mode : StartMode) (now : Time) :
    (attempt.placed hostID mode now).id = attempt.id := rfl

/-- `assignExecution`. The attempt is loaded, but its state is not looked at. -/
def assignExecution (clock : ℕ → Time) (order : MapOrder HostSession) (done : Bool)
    (assignment : Assignment) : CoordM Unit := do
  match ← (pickHost clock order assignment).result with
  | .error e => .throw (noCapacity e)
  | .ok (session, mode) =>
    -- an error of the store leaves the slot taken
    let attempt ← onStore (getAttempt assignment.attemptID)
    onStore (updateAttempt (attempt.placed session.host.id mode (clock 2)))
    let outcome ← handOver session assignment done
    afterSend session.host.id
      (restoreHostReservation (fun i => clock (i + 3)) session.host.id
        assignment.functionVersionID mode assignment.networkPolicy) outcome

/-- `ExecuteDirectStream` up to the point where the host has the assignment; what follows is the
wait for its reports. The identifiers of the assignment are set. -/
def startDirectExecution (clock : ℕ → Time) (order : MapOrder HostSession) (done : Bool)
    (assignment : Assignment) : CoordM Unit := do
  match ← (pickHost clock order assignment).result with
  | .error e => .throw (noCapacity e)
  | .ok (session, mode) =>
    locked fun c =>
      (.ok (), { c with directInvokes := assignment.attemptID :: c.directInvokes })
    let outcome ← handOver session assignment done
    let restore : CoordM Unit := do
      locked fun c =>
        (.ok (), { c with directInvokes := c.directInvokes.filter (· ≠ assignment.attemptID) })
      restoreHostReservation (fun i => clock (i + 3)) session.host.id
        assignment.functionVersionID mode assignment.networkPolicy
    afterSend session.host.id restore outcome

/-- The message of `PrepareFunctionWarm`. -/
def newPrepareSnapshot (hostID : String) (version : FunctionVersion) (artifactMeta : Artifact) :
    PrepareSnapshot where
  hostID := hostID
  functionVersionID := version.id
  artifactBundleKey := artifactMeta.bundleKey
  entrypoint := version.entrypoint
  envVars := version.envVars
  networkPolicy := version.networkPolicy
  timeoutSec := version.timeoutSec
  memoryMB := version.memoryMB

/-- `PrepareFunctionWarm`. An embedded preparer is started in a goroutine of its own. -/
def prepareFunctionWarm (clock : ℕ → Time) (order : MapOrder HostSession) (done : Bool)
    (version : FunctionVersion) : CoordM Unit := do
  let artifactMeta ← onStore (getArtifact version.artifactDigest)
  let (session, alreadyWarm) ← pickWarmHost clock order version.id version.networkPolicy
  if alreadyWarm || session.preparer then pure ()
  else
    let outcome ← sendMessage session.sendCh
      (.prepare (newPrepareSnapshot session.host.id version artifactMeta)) done
    afterSend session.host.id
      (restorePreparationReservation (fun i => clock (i + 2)) session.host.id
        version.networkPolicy) outcome

/-- `DrainHost`. -/
def drainHost (now : Time) (hostID reason : String) (done : Bool) : CoordM Unit := do
  let session ← locked fun c =>
    match c.hosts.get hostID with
    | none =>
      (.error (.other ("host " ++ hostID ++ " not registered in region " ++ c.region)), c)
    | some session =>
      let session := { session with host := session.host.drained }
      (.ok session, { c with hosts := c.hosts.put session })
  onStore (updateHost session.host)
  onStore (replaceWarmPoolsForHost session.host.region session.host.id [])
  persistRegion now
  if session.sendCh.isNone then pure ()
  else
    let outcome ← sendMessage session.sendCh (.drain hostID reason) done
    afterSend hostID (pure ()) outcome

/-! ## What `assignExecution` does -/

/-- What `assignExecution` did to the world `w`, and its result. -/
inductive Assigned (assignment : Assignment) (w : World) : Except Err Unit × World → Prop
  /-- An error was returned, and no host has the assignment. -/
  | refused {e : Err} {w' : World}
      (frame : HostFieldsOnly assignment.attemptID w.store w'.store)
      (handed : w'.handed = w.handed) : Assigned assignment w (.error e, w')
  /-- A host has the assignment, whatever state the attempt is in. -/
  | handed {a : Attempt} {w' : World} (hostID : String)
      (stored : w.store.attempts.get assignment.attemptID = some a)
      (frame : HostFieldsOnly assignment.attemptID w.store w'.store)
      (handed : w'.handed =
        { attemptID := assignment.attemptID, hostID, state := some a.state } :: w.handed) :
      Assigned assignment w (.ok (), w')

theorem hostFieldsOnly_setAttempt {id : String} {s t u : Store} {a : Attempt} {hostID : String}
    {mode : StartMode} {now : Time} (hst : s.SameView t) (ha : t.attempts.get id = some a)
    (htu : (t.setAttempt (a.placed hostID mode now)).SameView u) : HostFieldsOnly id s u where
  jobs k := (htu.jobs k).trans (hst.jobs k)
  others k hk := by
    have hid : a.id = id := Store.attemptID_of_get ha
    rw [htu.attempts, Store.getAttempt_setAttempt, Attempt.id_placed, hid, if_neg hk,
      hst.attempts]
  own a' ha' := by
    have hid : a.id = id := Store.attemptID_of_get ha
    rw [hst.attempts, ha'] at ha
    obtain rfl := Option.some.inj ha
    refine ⟨hostID, mode, now, ?_⟩
    rw [htu.attempts, Store.getAttempt_setAttempt, Attempt.id_placed, hid, if_pos rfl,
      Attempt.placed, hid]
  accepted := htu.accepted.trans hst.accepted

theorem HostFieldsOnly.of_sameView {id : String} {s t : Store} (h : s.SameView t) :
    HostFieldsOnly id s t where
  jobs := h.jobs
  others k _ := h.attempts k
  own a ha := ⟨a.hostID, a.startMode, a.updatedAt, (h.attempts id).trans ha⟩
  accepted := h.accepted

theorem run_afterSend {restore : CoordM Unit} (hrestore : OnTable restore) (hostID : String)
    (outcome : Sent) (w : World) :
    (outcome = .sent ∧ (afterSend hostID restore outcome).run w = (.ok (), w)) ∨
      (outcome ≠ .sent ∧ ∃ e w', (afterSend hostID restore outcome).run w = (.error e, w') ∧
        TableCall w w') := by
  have hrun := hrestore.run w
  cases outcome with
  | sent => exact .inl ⟨rfl, rfl⟩
  | panicked => exact .inr ⟨nofun, _, _, rfl, .refl w⟩
  | full | cancelled =>
    refine .inr ⟨nofun, ?_⟩
    simp only [afterSend, Prog.run_bind]
    generalize restore.run w = r at hrun
    obtain ⟨e | _, w'⟩ := r
    · exact ⟨_, _, rfl, hrun⟩
    · exact ⟨_, _, rfl, hrun⟩

/-- **What `assignExecution` does**, for every host table and every stored attempt. -/
theorem assigned_assignExecution (clock : ℕ → Time) (order : MapOrder HostSession) (done : Bool)
    (assignment : Assignment) (w : World) :
    Assigned assignment w ((assignExecution clock order done assignment).run w) := by
  have hpick := (onTable_pickHost clock order assignment).run w
  simp only [assignExecution, Prog.run_bind, Prog.run_result]
  generalize (pickHost clock order assignment).run w = r at hpick
  obtain ⟨e | ⟨session, mode⟩, w₁⟩ := r
  · exact .refused (.of_sameView hpick.view) hpick.handed
  have hhanded : w₁.handed = w.handed := hpick.handed
  -- the attempt is the one stored before, since picking a host does not touch attempts
  cases ha : w₁.store.attempts.get assignment.attemptID with
  | none =>
    simp only [onStore, Prog.run_zoom, Prog.run_bind, World.storePart, run_getAttempt,
      find_of_get_none _ ha]
    exact .refused (.of_sameView hpick.view) hpick.handed
  | some a =>
    have hstored : w.store.attempts.get assignment.attemptID = some a :=
      (hpick.view.attempts _).symm.trans ha
    have hid : a.id = assignment.attemptID := Store.attemptID_of_get ha
    simp only [onStore, Prog.run_zoom, Prog.run_bind, World.storePart, run_getAttempt,
      find_of_get _ ha, run_updateAttempt, handOver, Prog.run_action]
    generalize w₁.coordinator.tryHandOver session assignment done = sent
    obtain ⟨outcome, c⟩ := sent
    obtain ⟨rfl, hrun⟩ | ⟨hne, e, w', hrun, hrestore⟩ := run_afterSend
      (onTable_restoreHostReservation (fun i => clock (i + 3)) session.host.id
        assignment.functionVersionID mode assignment.networkPolicy) session.host.id outcome
      { store := w₁.store.setAttempt (a.placed session.host.id mode (clock 2))
        coordinator := c
        handed := _ }
    · rw [hrun]
      refine .handed session.host.id hstored (hostFieldsOnly_setAttempt hpick.view ha (.refl _)) ?_
      simp [World.afterHandOver, Attempt.placed, hid, hhanded]
    · -- not sent: the attempt keeps the host it was meant for, and the slot is given back
      rw [hrun]
      refine .refused (hostFieldsOnly_setAttempt hpick.view ha hrestore.view) ?_
      rw [hrestore.handed, ← hhanded]
      cases outcome with
      | sent => exact absurd rfl hne
      | _ => rfl

end Lecrev

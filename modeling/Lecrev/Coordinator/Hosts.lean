import Mathlib.Algebra.Ring.Int.Defs
import Mathlib.Data.List.Sort
import Lecrev.Coordinator.Update

/-!
# Host sessions

The host table of a regional coordinator (`internal/coordinator`) and the functions that work on
it: registration and heartbeats of hosts, reservation of slots, and the removal of hosts that are
gone.

The table is protected by the mutex `s.mu`. What a function does to the table while it holds the
mutex is one atomic call; the store calls it makes are calls of their own, also those that it makes
before it gives the mutex back. Go iterates over a map in any order, so a function that does so
takes the order as an argument.

Sessions are values here. The source shares a `*hostSession` between the table and a caller of
`pickHost`, but the caller only reads the fields that never change.
-/

namespace Lecrev

/-- A control stream. The channel `sendCh` that `Control` makes for it has the same number. -/
abbrev StreamID := ℕ

/-- `RegisterHost`: the first message of a stream. -/
structure RegisterHost where
  hostID : String
  region : String
  driver : String
  availableSlots : ℤ
  availableFullNetworkSlots : ℤ := 0
  blankWarm : ℤ := 0
  functionWarm : List (String × ℤ) := []
  deriving DecidableEq, Repr

/-- `HostHeartbeat`. -/
structure HostHeartbeat where
  hostID : String
  availableSlots : ℤ
  availableFullNetworkSlots : ℤ := 0
  blankWarm : ℤ := 0
  functionWarm : List (String × ℤ) := []
  deriving DecidableEq, Repr

/-- `regionv1.PrepareSnapshot`, for a function snapshot. -/
structure PrepareSnapshot where
  hostID : String
  functionVersionID : String
  artifactBundleKey : String
  entrypoint : String
  envVars : List (String × String)
  networkPolicy : NetworkPolicy
  timeoutSec : ℤ
  memoryMB : ℤ
  deriving DecidableEq, Repr

/-- `regionv1.CoordinatorMessage`. An `ExecutionAssignment` has the fields of the assignment it is
made from. -/
inductive CoordinatorMessage
  | registered (hostID : String)
  | assignment (assignment : Assignment)
  | prepare (msg : PrepareSnapshot)
  | drain (hostID reason : String)
  deriving DecidableEq, Repr

/-- A channel that carries messages to an agent. -/
structure Channel where
  buffer : List CoordinatorMessage := []
  closed : Bool := false
  deriving DecidableEq, Repr

/-- The buffer of the channel of a stream. -/
def sendChCapacity : ℕ := 32

/-! ## The coordinator -/

/-- `hostSession`. An embedded host has an executor, and a preparer, in the coordinator's process;
any other host has a channel. -/
structure HostSession where
  host : Host
  sendCh : Option StreamID
  executor : Bool
  preparer : Bool

/-- Keyed by the host. -/
instance : Keyed HostSession String where
  key session := session.host.id

/-- The state of a `coordinator.Service`, with the channels of its control streams. -/
structure Coordinator where
  region : String
  hosts : Table HostSession
  /-- The attempts of direct invocations that wait for reports. -/
  directInvokes : List String
  channels : StreamID → Channel

/-- The coordinator of a region at its start. -/
def Coordinator.new (region : String) : Coordinator where
  region := region
  hosts := .empty
  directInvokes := []
  channels _ := {}

/-- An assignment that reached a host: its attempt, the host, and the state the store had for the
attempt at that moment. -/
structure HandOver where
  attemptID : String
  hostID : String
  state : Option AttemptState
  deriving DecidableEq, Repr

/-- A coordinator and the metadata store. -/
structure World where
  store : Store
  coordinator : Coordinator
  /-- The assignments that reached a host, most recent first. This is the history the properties
  speak about; no function of the program reads it. -/
  handed : List HandOver

/-- The calls of a coordinator that can be told apart in an interleaving. -/
inductive CoordCall
  /-- A call to the store. -/
  | store (call : StoreCall)
  /-- A critical section of `s.mu`. -/
  | critical
  /-- A send on a channel, or the start of an embedded executor. -/
  | send
  /-- A handler of `Control` has returned an error. -/
  | handlerError (stream : StreamID)
  /-- The deferred `close(sendCh)` of `Control`. -/
  | close (stream : StreamID)
  deriving DecidableEq, Repr

/-- Programs of a coordinator. -/
abbrev CoordM (α : Type) := Prog CoordCall World Err α

/-- The store in the world of a coordinator. -/
def World.storePart : Prog.Part World Store where
  get w := w.store
  set w s := { w with store := s }
  get_set _ _ := rfl
  set_get _ := rfl
  set_set _ _ _ := rfl

/-- Call the store. -/
def onStore {α : Type} (p : StoreM α) : CoordM α := p.zoom World.storePart .store

/-- Call the store and ignore the error. -/
def tryStore (p : StoreM Unit) : CoordM Unit := do
  let _ ← (onStore p).result

/-- A critical section of `s.mu`. -/
def locked {α : Type} (f : Coordinator → Except Err α × Coordinator) : CoordM α :=
  .action .critical fun w => ((f w.coordinator).1, { w with coordinator := (f w.coordinator).2 })

/-- An order in which Go may iterate over a map with values in `α`. -/
structure MapOrder (α : Type) where
  toFun : List α → List α
  perm : ∀ l, (toFun l).Perm l

/-- The order of the table. -/
def MapOrder.table {α : Type} : MapOrder α := ⟨id, .refl⟩

/-! ## Hosts -/

/-- `warmMap`: a later metric of a version replaces an earlier one. -/
def warmMap (metrics : List (String × ℤ)) : AList (fun _ : String => ℤ) :=
  metrics.foldl (fun m metric => m.insert metric.1 metric.2) ∅

/-- `host.FunctionWarm[functionVersionID]`, zero when there is no entry. -/
def Host.warmFor (host : Host) (functionVersionID : String) : ℤ :=
  (host.functionWarm.lookup functionVersionID).getD 0

/-- `classifyStartMode`. -/
def classifyStartMode (host : Host) (functionVersionID : String) : StartMode :=
  if host.warmFor functionVersionID > 0 then .functionWarm
  else if host.blankWarm > 0 then .blankWarm
  else .cold

/-- The pools of function snapshots of a host, in the order of the versions. -/
def functionPools (host : Host) (updatedAt : Time) : List WarmPool :=
  let functionIDs := (host.functionWarm.entries.filter fun e => 0 < e.2).map Sigma.fst
  (functionIDs.insertionSort (· ≤ ·)).map fun functionID =>
    { region := host.region, hostID := host.id, functionVersionID := functionID
      functionWarm := host.warmFor functionID, updatedAt }

/-- `warmPoolsForHost`. -/
def warmPoolsForHost (host : Host) (updatedAt : Time) : List WarmPool :=
  if host.state ≠ .active then []
  else
    let blank : List WarmPool :=
      if host.blankWarm > 0 then
        [{ region := host.region, hostID := host.id, blankWarm := host.blankWarm, updatedAt }]
      else []
    blank ++ functionPools host updatedAt

/-- The record of a host that registers. -/
def newHost (msg : RegisterHost) (now : Time) : Host where
  id := msg.hostID
  region := msg.region
  driver := msg.driver
  state := .active
  availableSlots := msg.availableSlots
  availableFullNetworkSlots := msg.availableFullNetworkSlots
  blankWarm := msg.blankWarm
  functionWarm := warmMap msg.functionWarm
  lastHeartbeat := now

/-- The host after a heartbeat; its state stays as it is. -/
def Host.afterHeartbeat (host : Host) (msg : HostHeartbeat) (now : Time) : Host :=
  { host with
    availableSlots := msg.availableSlots
    availableFullNetworkSlots := msg.availableFullNetworkSlots
    blankWarm := msg.blankWarm
    functionWarm := warmMap msg.functionWarm
    lastHeartbeat := now }

/-- A host that is gone. -/
def Host.markedDown (host : Host) : Host :=
  { host with
    state := .down
    availableSlots := 0
    availableFullNetworkSlots := 0
    blankWarm := 0
    functionWarm := ∅ }

/-- A host that takes no new work. -/
def Host.drained (host : Host) : Host :=
  { host with state := .draining, availableSlots := 0, availableFullNetworkSlots := 0 }

/-- One for an assignment that needs a full-network slot, zero for any other. -/
def fullNetworkSlots (policy : NetworkPolicy) : ℤ := if policy = .full then 1 else 0

/-- The host with a slot less. -/
def Host.takeSlot (host : Host) (policy : NetworkPolicy) : Host :=
  { host with
    availableSlots := host.availableSlots - 1
    availableFullNetworkSlots := host.availableFullNetworkSlots - fullNetworkSlots policy }

/-- Give a slot of a host back. -/
def Host.giveSlot (host : Host) (policy : NetworkPolicy) : Host :=
  { host with
    availableSlots := host.availableSlots + 1
    availableFullNetworkSlots := host.availableFullNetworkSlots + fullNetworkSlots policy }

/-- The warm instance that `pickHost` takes. -/
def Host.takeWarm (host : Host) (functionVersionID : String) (mode : StartMode) : Host :=
  match mode with
  | .functionWarm =>
    if host.warmFor functionVersionID > 0 then
      { host with functionWarm :=
          host.functionWarm.insert functionVersionID (host.warmFor functionVersionID - 1) }
    else host
  | .blankWarm =>
    if host.blankWarm > 0 then { host with blankWarm := host.blankWarm - 1 } else host
  | _ => host

/-- The warm instance that `restoreHostReservation` gives back. -/
def Host.giveWarm (host : Host) (functionVersionID : String) (mode : StartMode) : Host :=
  match mode with
  | .functionWarm =>
    { host with functionWarm :=
        host.functionWarm.insert functionVersionID (host.warmFor functionVersionID + 1) }
  | .blankWarm => { host with blankWarm := host.blankWarm + 1 }
  | _ => host

/-- A host that can take an assignment with the given network policy. -/
def Host.hasSlot (host : Host) (policy : NetworkPolicy) : Bool :=
  host.state == .active && decide (host.availableSlots > 0) &&
    (policy != .full || decide (host.availableFullNetworkSlots > 0))

/-- The record of the region that `persistRegionLocked` stores. -/
def Coordinator.regionRecord (c : Coordinator) (now : Time) : Region :=
  let hosts := (c.hosts.values.map (·.host)).filter (·.region = c.region)
  let active := hosts.filter (·.state = .active)
  let free := active.filter fun host => decide (host.availableSlots > 0)
  let lastHeartbeat := (hosts.map (·.lastHeartbeat)).foldl max 0
  { name := c.region
    state := if active.isEmpty then "degraded" else "active"
    stats :=
      { availableHosts := free.length
        availableFullNetworkSlots := (active.map (·.availableFullNetworkSlots)).sum
        blankWarm := (active.map (·.blankWarm)).sum
        functionWarm := (active.map fun host => (host.functionWarm.entries.map (·.2)).sum).sum }
    lastHeartbeatAt := if lastHeartbeat = 0 then now else lastHeartbeat
    lastError := if active.isEmpty then "no active hosts connected" else "" }

/-- `persistRegion`. -/
def persistRegion (now : Time) : CoordM Unit := do
  let region ← locked fun c => (.ok (c.regionRecord now), c)
  onStore (putRegion region)

/-- The store calls at the end of a critical section; their errors are ignored. -/
def saveHost (host : Host) (pools : List WarmPool) (region : Region) : CoordM Unit := do
  tryStore (updateHost host)
  tryStore (replaceWarmPoolsForHost host.region host.id pools)
  tryStore (putRegion region)

/-- `registerHostSession`. -/
def registerHostSession (clock : ℕ → Time) (msg : RegisterHost) (sendCh : Option StreamID)
    (executor preparer : Bool) : CoordM Unit := do
  let host := newHost msg (clock 0)
  -- an earlier session of the host is replaced, whichever stream it belongs to
  locked fun c =>
    (.ok (), { c with hosts := c.hosts.put { host, sendCh, executor, preparer } })
  onStore (putHost host)
  onStore (replaceWarmPoolsForHost host.region host.id (warmPoolsForHost host (clock 1)))
  persistRegion (clock 2)

/-- `registerHost`: the session of a control stream. -/
def registerHost (clock : ℕ → Time) (msg : RegisterHost) (sendCh : StreamID) : CoordM Unit :=
  registerHostSession clock msg (some sendCh) false false

/-- `RegisterEmbeddedHost`: a host of the same process, without a stream. -/
def registerEmbeddedHost (clock : ℕ → Time) (msg : RegisterHost) (preparer : Bool) :
    CoordM Unit :=
  registerHostSession clock msg none true preparer

/-- `updateHeartbeatContext`. -/
def updateHeartbeat (clock : ℕ → Time) (msg : HostHeartbeat) : CoordM Unit := do
  let host ← locked fun c =>
    match c.hosts.get msg.hostID with
    | none => (.error (.other ("heartbeat for unknown host " ++ msg.hostID)), c)
    | some session =>
      let host := session.host.afterHeartbeat msg (clock 0)
      (.ok host, { c with hosts := c.hosts.put { session with host } })
  onStore (updateHost host)
  onStore (replaceWarmPoolsForHost host.region host.id (warmPoolsForHost host (clock 1)))
  persistRegion (clock 2)

/-! ## Reservations -/

/-- The session with the best score; of several, the first in the order of the iteration. -/
def bestSession (score : Host → ℤ) (sessions : List HostSession) : Option HostSession :=
  (sessions.insertionSort fun a b => score b.host ≤ score a.host).head?

/-- The score of `pickHost`. -/
def Host.executionScore (host : Host) (functionVersionID : String) : ℤ :=
  host.warmFor functionVersionID * 1000 + host.blankWarm * 100 + host.availableSlots

/-- The session that `pickHost` chooses. -/
def Coordinator.chooseHost (c : Coordinator) (order : MapOrder HostSession)
    (assignment : Assignment) : Option HostSession :=
  bestSession (·.executionScore assignment.functionVersionID)
    ((order.toFun c.hosts.values).filter (·.host.hasSlot assignment.networkPolicy))

/-- `pickHost`: a host is chosen, and a slot of it reserved. -/
def pickHost (clock : ℕ → Time) (order : MapOrder HostSession) (assignment : Assignment) :
    CoordM (HostSession × StartMode) := do
  let (session, mode, region) ← locked fun c =>
    match c.chooseHost order assignment with
    | none => (.error (.other ("no active hosts available in region " ++ c.region)), c)
    | some session =>
      let mode := classifyStartMode session.host assignment.functionVersionID
      let host := (session.host.takeSlot assignment.networkPolicy).takeWarm
        assignment.functionVersionID mode
      let c' := { c with hosts := c.hosts.put { session with host } }
      (.ok ({ session with host }, mode, c'.regionRecord (clock 1)), c')
  saveHost session.host (warmPoolsForHost session.host (clock 0)) region
  pure (session, mode)

/-- The score of `pickWarmHost`. -/
def Host.preparationScore (host : Host) : ℤ := host.blankWarm * 100 + host.availableSlots

/-- `pickWarmHost`. The flag says that a host is warm already, in which case nothing is reserved. -/
def pickWarmHost (clock : ℕ → Time) (order : MapOrder HostSession) (functionVersionID : String)
    (policy : NetworkPolicy) : CoordM (HostSession × Bool) := do
  let (session, alreadyWarm, region) ← locked fun c =>
    let sessions := order.toFun c.hosts.values
    match sessions.find? fun session =>
        session.host.state == .active && decide (session.host.warmFor functionVersionID > 0) with
    | some session => (.ok (session, true, none), c)
    | none =>
      match bestSession Host.preparationScore (sessions.filter (·.host.hasSlot policy)) with
      | none =>
        (.error (.other ("no active hosts available in region " ++ c.region ++
          " for function warm prep")), c)
      | some session =>
        let host := session.host.takeSlot policy
        let c' := { c with hosts := c.hosts.put { session with host } }
        (.ok ({ session with host }, false, some (c'.regionRecord (clock 1))), c')
  match region with
  | none => pure (session, alreadyWarm)
  | some region =>
    saveHost session.host (warmPoolsForHost session.host (clock 0)) region
    pure (session, alreadyWarm)

/-- Change the host of a session that is still registered, and save it. -/
def changeHost (clock : ℕ → Time) (hostID : String) (change : Host → Host) : CoordM Unit := do
  let saved ← locked fun c =>
    match c.hosts.get hostID with
    | none => (.ok none, c)
    | some session =>
      let c' := { c with hosts := c.hosts.put { session with host := change session.host } }
      (.ok (some (change session.host, c'.regionRecord (clock 1))), c')
  match saved with
  | none => pure ()
  | some (host, region) => saveHost host (warmPoolsForHost host (clock 0)) region

/-- `restoreHostReservation`. -/
def restoreHostReservation (clock : ℕ → Time) (hostID functionVersionID : String)
    (mode : StartMode) (policy : NetworkPolicy) : CoordM Unit :=
  changeHost clock hostID fun host => (host.giveSlot policy).giveWarm functionVersionID mode

/-- `restorePreparationReservation`. -/
def restorePreparationReservation (clock : ℕ → Time) (hostID : String) (policy : NetworkPolicy) :
    CoordM Unit :=
  changeHost clock hostID fun host => host.giveSlot policy

/-- `markHostDown`. -/
def markHostDown (now : Time) (hostID : String) : CoordM Unit := do
  let saved ← locked fun c =>
    match c.hosts.get hostID with
    | none => (.ok none, c)
    | some session =>
      -- the session is not compared with the stream that ends
      let c' := { c with hosts := c.hosts.erase hostID }
      (.ok (some (session.host.markedDown, c'.regionRecord now)), c')
  match saved with
  | none => pure ()
  | some (host, region) => saveHost host [] region

/-- `markStoredHostDown`, of a host that has been silent since the cutoff. -/
def markStoredHostDown (now : Time) (host : Host) (cutoff : ℤ) : CoordM Unit := do
  let gone ← locked fun c =>
    match c.hosts.get host.id with
    | none => (.ok (some host.markedDown), c)
    | some session =>
      -- the stored record may be older than the session
      if (session.host.lastHeartbeat : ℤ) > cutoff then (.ok none, c)
      else (.ok (some session.host.markedDown), { c with hosts := c.hosts.erase host.id })
  match gone with
  | none => pure ()
  | some host =>
    onStore (updateHost host)
    onStore (replaceWarmPoolsForHost host.region host.id [])
    persistRegion now

/-- The loop of `reapStaleHosts` over the stored hosts. -/
def reapHosts (clock : ℕ → Time) (cutoff : ℤ) : List Host → CoordM Unit
  | [] => pure ()
  | host :: hosts => do
    if host.state = .down ∨ (host.lastHeartbeat : ℤ) > cutoff then pure ()
    else markStoredHostDown (clock (hosts.length + 1)) host cutoff
    reapHosts clock cutoff hosts

/-- `reapStaleHosts`, for a positive `staleHostAfter`. -/
def reapStaleHosts (clock : ℕ → Time) (region : String) (staleHostAfter : Time) :
    CoordM Unit := do
  let hosts ← onStore (listHostsByRegion region)
  reapHosts clock ((clock 0 : ℤ) - staleHostAfter) hosts

/-! ## What the table functions leave alone -/

/-- What a function that works on registered sessions may do in one call: sessions may change or go,
but they keep their channel; channels, jobs, attempts and the history stay as they are. -/
structure TableCall (w w' : World) : Prop where
  view : w.store.SameView w'.store
  handed : w'.handed = w.handed
  channels : w'.coordinator.channels = w.coordinator.channels
  sessions : ∀ id session', w'.coordinator.hosts.get id = some session' →
    ∃ session, w.coordinator.hosts.get id = some session ∧
      session'.sendCh = session.sendCh ∧ session'.executor = session.executor

theorem TableCall.refl (w : World) : TableCall w w where
  view := .refl w.store
  handed := rfl
  channels := rfl
  sessions _ session h := ⟨session, h, rfl, rfl⟩

theorem TableCall.trans {u v w : World} (huv : TableCall u v) (hvw : TableCall v w) :
    TableCall u w where
  view := huv.view.trans hvw.view
  handed := hvw.handed.trans huv.handed
  channels := hvw.channels.trans huv.channels
  sessions id session'' h'' := by
    obtain ⟨session', h', hch', hex'⟩ := hvw.sessions id session'' h''
    obtain ⟨session, h, hch, hex⟩ := huv.sessions id session' h'
    exact ⟨session, h, hch'.trans hch, hex'.trans hex⟩

variable {session : HostSession}

theorem TableCall.put {w : World} {host : Host}
    (hget : w.coordinator.hosts.get session.host.id = some session)
    (hid : host.id = session.host.id) :
    TableCall w { w with
      coordinator.hosts := w.coordinator.hosts.put { session with host } } where
  view := .refl w.store
  handed := rfl
  channels := rfl
  sessions id session' h := by
    have hkey : Keyed.key { session with host := host } = session.host.id := hid
    rw [Table.get_put, hkey] at h
    split_ifs at h with heq
    · obtain rfl := Option.some.inj h
      exact ⟨session, heq ▸ hget, rfl, rfl⟩
    · exact ⟨session', h, rfl, rfl⟩

theorem TableCall.erase (w : World) (hostID : String) :
    TableCall w { w with coordinator.hosts := w.coordinator.hosts.erase hostID } where
  view := .refl w.store
  handed := rfl
  channels := rfl
  sessions id session' h := by
    rw [Table.get_erase] at h
    split_ifs at h
    exact ⟨session', h, rfl, rfl⟩

/-- The store's label of a call. -/
def CoordCall.storeCall : CoordCall → StoreCall
  | .store call => call
  | _ => .region

/-- A call that writes neither jobs nor attempts. -/
def StoreCall.Quiet (l : StoreCall) : Prop :=
  ∀ k, l.writesJob k = false ∧ l.writesAttempt k = false

/-- Every call of the program works on the table only. -/
abbrev OnTable {α : Type} (p : CoordM α) : Prop :=
  p.Keeps (fun _ => True) fun l w w' => l.storeCall.Quiet ∧ TableCall w w'

theorem OnTable.run {α : Type} {p : CoordM α} (hp : OnTable p) (w : World) :
    TableCall w (p.run w).2 :=
  (hp.mono fun _ _ _ _ h => h.2).run_rel .refl .trans trivial

theorem onTable_onStore {α : Type} {p : StoreM α}
    (hp : p.Keeps (fun _ => True) fun l s s' => l.Quiet ∧ s.SameView s') :
    OnTable (onStore p) := by
  refine hp.zoom fun l w s _ hcall => ⟨trivial, hcall.1, hcall.2, rfl, rfl, ?_⟩
  exact fun _ session h => ⟨session, h, rfl, rfl⟩

theorem onTable_modify {l : StoreCall} {f : Store → Store} (hl : l.Quiet)
    (hf : ∀ s : Store, s.SameView (f s)) : OnTable (onStore (.modify l f)) :=
  onTable_onStore (Prog.keeps_modify fun s _ => ⟨trivial, hl, hf s⟩)

theorem onTable_updateHost (host : Host) : OnTable (onStore (updateHost host)) :=
  onTable_modify (fun _ => ⟨rfl, rfl⟩) fun _ => ⟨fun _ => rfl, fun _ => rfl, rfl⟩

theorem onTable_replaceWarmPoolsForHost (region hostID : String) (pools : List WarmPool) :
    OnTable (onStore (replaceWarmPoolsForHost region hostID pools)) :=
  onTable_modify (fun _ => ⟨rfl, rfl⟩) fun _ => ⟨fun _ => rfl, fun _ => rfl, rfl⟩

theorem onTable_putRegion (region : Region) : OnTable (onStore (putRegion region)) :=
  onTable_modify (fun _ => ⟨rfl, rfl⟩) fun _ => ⟨fun _ => rfl, fun _ => rfl, rfl⟩

theorem onTable_locked {α : Type} {f : Coordinator → Except Err α × Coordinator}
    (h : ∀ w : World, TableCall w { w with coordinator := (f w.coordinator).2 }) :
    OnTable (locked f) :=
  Prog.keeps_action fun w _ => ⟨trivial, fun _ => ⟨rfl, rfl⟩, h w⟩

theorem onTable_persistRegion (now : Time) : OnTable (persistRegion now) :=
  .bind_of (onTable_locked fun w => .refl w) fun region => onTable_putRegion region

theorem onTable_saveHost (host : Host) (pools : List WarmPool) (region : Region) :
    OnTable (saveHost host pools region) := by
  refine .bind_of (.bind_of (onTable_updateHost host).result fun _ => Prog.keeps_pure _) fun _ => ?_
  refine .bind_of (.bind_of (onTable_replaceWarmPoolsForHost _ _ _).result fun _ =>
    Prog.keeps_pure _) fun _ => ?_
  exact .bind_of (onTable_putRegion region).result fun _ => Prog.keeps_pure _

theorem mem_of_bestSession {score : Host → ℤ} {sessions : List HostSession}
    (h : bestSession score sessions = some session) :
    session ∈ sessions :=
  (List.mem_insertionSort _).mp (List.mem_of_head? h)

theorem Coordinator.get_of_mem {c : Coordinator} {order : MapOrder HostSession}
    (h : session ∈ order.toFun c.hosts.values) :
    c.hosts.get session.host.id = some session :=
  (Table.mem_values _ _).mp ((order.perm _).mem_iff.mp h)

theorem Coordinator.chooseHost_spec {c : Coordinator} {order : MapOrder HostSession}
    {assignment : Assignment} (h : c.chooseHost order assignment = some session) :
    c.hosts.get session.host.id = some session ∧
      session.host.hasSlot assignment.networkPolicy = true := by
  have hmem := List.mem_filter.mp (mem_of_bestSession h)
  exact ⟨get_of_mem hmem.1, hmem.2⟩

@[simp]
theorem Host.id_takeWarm (host : Host) (functionVersionID : String) (mode : StartMode) :
    (host.takeWarm functionVersionID mode).id = host.id := by
  unfold takeWarm
  split
  · split_ifs <;> rfl
  · split_ifs <;> rfl
  · rfl

@[simp]
theorem Host.id_giveWarm (host : Host) (functionVersionID : String) (mode : StartMode) :
    (host.giveWarm functionVersionID mode).id = host.id := by
  unfold giveWarm
  split <;> rfl

theorem onTable_pickHost (clock : ℕ → Time) (order : MapOrder HostSession)
    (assignment : Assignment) : OnTable (pickHost clock order assignment) := by
  refine .bind_of (onTable_locked fun w => ?_) fun _ =>
    .bind_of (onTable_saveHost _ _ _) fun _ => Prog.keeps_pure _
  split
  · exact .refl w
  · next session hchoice =>
    exact .put (Coordinator.chooseHost_spec hchoice).1 (Host.id_takeWarm _ _ _)

theorem onTable_pickWarmHost (clock : ℕ → Time) (order : MapOrder HostSession)
    (functionVersionID : String) (policy : NetworkPolicy) :
    OnTable (pickWarmHost clock order functionVersionID policy) := by
  refine .bind_of (onTable_locked fun w => ?_) fun r => ?_
  · dsimp only
    split
    · exact .refl w
    · split
      · exact .refl w
      · next session hchoice =>
        have hmem := List.mem_of_mem_filter (mem_of_bestSession hchoice)
        exact .put (Coordinator.get_of_mem hmem) rfl
  · obtain ⟨session, alreadyWarm, region⟩ := r
    cases region with
    | none => exact Prog.keeps_pure _
    | some region => exact .bind_of (onTable_saveHost _ _ _) fun _ => Prog.keeps_pure _

theorem onTable_changeHost (clock : ℕ → Time) (hostID : String) {change : Host → Host}
    (hid : ∀ host, (change host).id = host.id) : OnTable (changeHost clock hostID change) := by
  refine .bind_of (onTable_locked fun w => ?_) fun saved => ?_
  · split
    · exact .refl w
    · next session hget =>
      have hkey : session.host.id = hostID := Table.key_of_get hget
      exact .put (hkey ▸ hget) (hid _)
  · cases saved with
    | none => exact Prog.keeps_pure _
    | some saved => exact onTable_saveHost _ _ _

theorem onTable_restoreHostReservation (clock : ℕ → Time) (hostID functionVersionID : String)
    (mode : StartMode) (policy : NetworkPolicy) :
    OnTable (restoreHostReservation clock hostID functionVersionID mode policy) :=
  onTable_changeHost clock hostID fun host => Host.id_giveWarm (host.giveSlot policy) _ _

theorem onTable_restorePreparationReservation (clock : ℕ → Time) (hostID : String)
    (policy : NetworkPolicy) : OnTable (restorePreparationReservation clock hostID policy) :=
  onTable_changeHost clock hostID fun _ => rfl

theorem onTable_updateHeartbeat (clock : ℕ → Time) (msg : HostHeartbeat) :
    OnTable (updateHeartbeat clock msg) := by
  refine .bind_of (onTable_locked fun w => ?_) fun host => ?_
  · split
    · exact .refl w
    · next session hget =>
      have hkey : session.host.id = msg.hostID := Table.key_of_get hget
      exact .put (hkey ▸ hget) rfl
  · refine .bind_of (onTable_updateHost host) fun _ => ?_
    refine .bind_of (onTable_replaceWarmPoolsForHost _ _ _) fun _ => ?_
    exact onTable_persistRegion _

theorem onTable_markHostDown (now : Time) (hostID : String) :
    OnTable (markHostDown now hostID) := by
  refine .bind_of (onTable_locked fun w => ?_) fun saved => ?_
  · split
    · exact .refl w
    · exact .erase w hostID
  · cases saved with
    | none => exact Prog.keeps_pure _
    | some saved => exact onTable_saveHost _ _ _

theorem onTable_markStoredHostDown (now : Time) (host : Host) (cutoff : ℤ) :
    OnTable (markStoredHostDown now host cutoff) := by
  refine .bind_of (onTable_locked fun w => ?_) fun gone => ?_
  · split
    · exact .refl w
    · split_ifs
      · exact .refl w
      · exact .erase w host.id
  · cases gone with
    | none => exact Prog.keeps_pure _
    | some host =>
      refine .bind_of (onTable_updateHost host) fun _ => ?_
      refine .bind_of (onTable_replaceWarmPoolsForHost _ _ _) fun _ => ?_
      exact onTable_persistRegion _

theorem onTable_reapHosts (clock : ℕ → Time) (cutoff : ℤ) (hosts : List Host) :
    OnTable (reapHosts clock cutoff hosts) := by
  induction hosts with
  | nil => exact Prog.keeps_pure _
  | cons host hosts ih =>
    unfold reapHosts
    split_ifs
    · exact ih
    · exact .bind_of (onTable_markStoredHostDown _ _ _) fun _ => ih

theorem onTable_reapStaleHosts (clock : ℕ → Time) (region : String) (staleHostAfter : Time) :
    OnTable (reapStaleHosts clock region staleHostAfter) := by
  have hlist : OnTable (onStore (listHostsByRegion region)) :=
    onTable_onStore (Prog.keeps_query fun s _ => ⟨fun _ => ⟨rfl, rfl⟩, .refl s⟩)
  exact .bind_of hlist fun hosts => onTable_reapHosts clock _ hosts

end Lecrev

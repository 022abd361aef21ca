import Lecrev.Concurrency.RelyGuarantee
import Lecrev.Coordinator.Control

/-!
# Open channels of registered sessions

A coordinator serves any number of control streams while schedulers, operators and timers call its
functions. A send on a closed channel panics, so every session in the host table should have an open
channel, or an executor.

`Control` closes the channel of its stream whenever it returns, but it removes a session from the
table only when the stream itself has ended, and then only the session of the host registered last.
So the channels stay open if a stream registers one host and no handler fails on it.
-/

namespace Lecrev

variable {w : World}

namespace Sessions

/-- The session has an embedded executor, or a channel that is not closed. -/
def Open (c : Coordinator) (session : HostSession) : Prop :=
  session.executor = true ∨
    ∃ stream, session.sendCh = some stream ∧ (c.channels stream).closed = false

/-- As `Open`, and an embedded executor has no channel besides. -/
def Wired (c : Coordinator) (session : HostSession) : Prop :=
  (session.executor = true ∧ session.sendCh = none) ∨
    ∃ stream, session.sendCh = some stream ∧ (c.channels stream).closed = false

/-- Every session in the table is wired. -/
def AllWired (w : World) : Prop :=
  ∀ id session, w.coordinator.hosts.get id = some session → Wired w.coordinator session

theorem Wired.open {c : Coordinator} {session : HostSession} (h : Wired c session) :
    Open c session :=
  h.imp And.left id

theorem Wired.trySend_ne_panicked {c : Coordinator} {session : HostSession} (h : Wired c session)
    (msg : CoordinatorMessage) (done : Bool) :
    (c.trySend session.sendCh msg done).1 ≠ .panicked := by
  unfold Coordinator.trySend
  rcases h with ⟨-, hnone⟩ | ⟨stream, hsome, hopen⟩
  · rw [hnone]
    cases done <;> simp
  · rw [hsome]
    cases done
    · dsimp only
      rw [hopen]
      split_ifs <;> simp_all
    · simp

/-! ## Calls that close no channel and register no stream -/

/-- What all functions but `Control` do in one call: no channel is closed, and a session in the
table was there before with the same channel, or is embedded. -/
structure Calm (w w' : World) : Prop where
  closed : ∀ stream,
    (w'.coordinator.channels stream).closed = (w.coordinator.channels stream).closed
  sessions : ∀ id session', w'.coordinator.hosts.get id = some session' →
    (∃ session, w.coordinator.hosts.get id = some session ∧
      session'.sendCh = session.sendCh ∧ session'.executor = session.executor) ∨
    (session'.executor = true ∧ session'.sendCh = none)

/-- Every call of the program is calm. -/
abbrev IsCalm {α : Type} (p : CoordM α) : Prop := p.Keeps (fun _ => True) fun _ => Calm

theorem Calm.of_same {w' : World} (hhosts : w'.coordinator.hosts = w.coordinator.hosts)
    (hclosed : ∀ stream,
      (w'.coordinator.channels stream).closed = (w.coordinator.channels stream).closed) :
    Calm w w' where
  closed := hclosed
  sessions _ session h := .inl ⟨session, hhosts ▸ h, rfl, rfl⟩

theorem isCalm_of_onTable {α : Type} {p : CoordM α} (hp : OnTable p) : IsCalm p :=
  hp.mono fun _ _ _ _ h =>
    ⟨fun stream => by rw [h.2.channels], fun id session hget => .inl (h.2.sessions id session hget)⟩

theorem isCalm_onStore {α : Type} (p : StoreM α) : IsCalm (onStore p) :=
  p.keeps_true.zoom fun _ _ _ _ _ => ⟨trivial, .of_same rfl fun _ => rfl⟩

theorem isCalm_locked {α : Type} {f : Coordinator → Except Err α × Coordinator}
    (hhosts : ∀ c, (f c).2.hosts = c.hosts) (hchannels : ∀ c, (f c).2.channels = c.channels) :
    IsCalm (locked f) :=
  Prog.keeps_action fun w _ => ⟨trivial, .of_same (hhosts _) fun stream => by rw [hchannels]⟩

theorem hosts_trySend (c : Coordinator) (sendCh : Option StreamID) (msg : CoordinatorMessage)
    (done : Bool) : (c.trySend sendCh msg done).2.hosts = c.hosts := by
  unfold Coordinator.trySend
  split_ifs
  · rfl
  · cases sendCh with
    | none => rfl
    | some stream =>
      dsimp only
      split_ifs <;> rfl

theorem closed_trySend (c : Coordinator) (sendCh : Option StreamID) (msg : CoordinatorMessage)
    (done : Bool) (stream : StreamID) :
    ((c.trySend sendCh msg done).2.channels stream).closed = (c.channels stream).closed := by
  unfold Coordinator.trySend
  split_ifs
  · rfl
  · cases sendCh with
    | none => rfl
    | some stream' =>
      dsimp only
      split_ifs
      · rfl
      · by_cases h : stream = stream'
        · subst h
          simp
        · simp [Function.update_of_ne h]
      · rfl

theorem isCalm_sendMessage (sendCh : Option StreamID) (msg : CoordinatorMessage) (done : Bool) :
    IsCalm (sendMessage sendCh msg done) :=
  Prog.keeps_action fun _ _ =>
    ⟨trivial, .of_same (hosts_trySend _ _ _ _) fun stream => closed_trySend _ _ _ _ stream⟩

theorem isCalm_handOver (session : HostSession) (assignment : Assignment) (done : Bool) :
    IsCalm (handOver session assignment done) := by
  refine Prog.keeps_action fun w _ => ⟨trivial, .of_same ?_ fun stream => ?_⟩
  · dsimp only
    unfold Coordinator.tryHandOver
    split_ifs
    · rfl
    · exact hosts_trySend _ _ _ _
  · dsimp only
    unfold Coordinator.tryHandOver
    split_ifs
    · rfl
    · exact closed_trySend _ _ _ _ stream

theorem isCalm_afterSend {restore : CoordM Unit} (hrestore : IsCalm restore) (hostID : String)
    (outcome : Sent) : IsCalm (afterSend hostID restore outcome) := by
  cases outcome with
  | sent => exact Prog.keeps_pure _
  | panicked => exact Prog.keeps_throw _
  | full | cancelled => exact .bind_of hrestore fun _ => Prog.keeps_throw _

theorem isCalm_assignExecution (clock : ℕ → Time) (order : MapOrder HostSession) (done : Bool)
    (assignment : Assignment) : IsCalm (assignExecution clock order done assignment) := by
  have hpick := isCalm_of_onTable (onTable_pickHost clock order assignment)
  refine .bind_of hpick.result fun picked => ?_
  split
  · exact Prog.keeps_throw _
  · refine .bind_of (isCalm_onStore _) fun _ => .bind_of (isCalm_onStore _) fun _ => ?_
    refine .bind_of (isCalm_handOver _ _ _) fun outcome => ?_
    exact isCalm_afterSend (isCalm_of_onTable (onTable_restoreHostReservation _ _ _ _ _)) _ outcome

theorem isCalm_startDirectExecution (clock : ℕ → Time) (order : MapOrder HostSession) (done : Bool)
    (assignment : Assignment) :
    IsCalm (startDirectExecution clock order done assignment) := by
  have hpick := isCalm_of_onTable (onTable_pickHost clock order assignment)
  refine .bind_of hpick.result fun picked => ?_
  split
  · exact Prog.keeps_throw _
  · refine .bind_of (isCalm_locked (fun _ => rfl) fun _ => rfl) fun _ => ?_
    refine .bind_of (isCalm_handOver _ _ _) fun outcome => isCalm_afterSend ?_ _ outcome
    exact .bind_of (isCalm_locked (fun _ => rfl) fun _ => rfl) fun _ =>
      isCalm_of_onTable (onTable_restoreHostReservation _ _ _ _ _)

theorem isCalm_prepareFunctionWarm (clock : ℕ → Time) (order : MapOrder HostSession) (done : Bool)
    (version : FunctionVersion) :
    IsCalm (prepareFunctionWarm clock order done version) := by
  refine .bind_of (isCalm_onStore _) fun artifactMeta => ?_
  refine .bind_of (isCalm_of_onTable (onTable_pickWarmHost _ _ _ _)) fun picked => ?_
  obtain ⟨session, alreadyWarm⟩ := picked
  dsimp only
  split_ifs
  · exact Prog.keeps_pure _
  · refine .bind_of (isCalm_sendMessage _ _ _) fun outcome => ?_
    exact isCalm_afterSend
      (isCalm_of_onTable (onTable_restorePreparationReservation _ _ _)) _ outcome

theorem isCalm_drainHost (now : Time) (hostID reason : String) (done : Bool) :
    IsCalm (drainHost now hostID reason done) := by
  refine .bind_of (isCalm_of_onTable (onTable_locked fun w => ?_)) fun session => ?_
  · split
    · exact .refl w
    · next session hget =>
      have hkey : session.host.id = hostID := Table.key_of_get hget
      exact .put (hkey ▸ hget) rfl
  · refine .bind_of (isCalm_onStore _) fun _ => .bind_of (isCalm_onStore _) fun _ => ?_
    refine .bind_of (isCalm_of_onTable (onTable_persistRegion now)) fun _ => ?_
    split_ifs
    · exact Prog.keeps_pure _
    · refine .bind_of (isCalm_sendMessage _ _ _) fun outcome => ?_
      exact isCalm_afterSend (Prog.keeps_pure _) _ outcome

theorem isCalm_registerEmbeddedHost (clock : ℕ → Time) (msg : RegisterHost) (preparer : Bool) :
    IsCalm (registerEmbeddedHost clock msg preparer) := by
  refine .bind_of (Prog.keeps_action fun w _ => ⟨trivial, fun _ => rfl, ?_⟩) fun _ => ?_
  · intro id session hget
    rw [Table.get_put] at hget
    split_ifs at hget
    · obtain rfl := Option.some.inj hget
      exact .inr ⟨rfl, rfl⟩
    · exact .inl ⟨session, hget, rfl, rfl⟩
  · refine .bind_of (isCalm_onStore _) fun _ => .bind_of (isCalm_onStore _) fun _ => ?_
    exact isCalm_of_onTable (onTable_persistRegion _)

theorem isCalm_handleUpdate (retry : Bool) (now : Time) (msg : AssignmentUpdate) :
    IsCalm (handleUpdate retry now msg) := by
  refine .bind_of (isCalm_locked ?_ ?_) fun _ => .bind_of (isCalm_onStore _) fun _ =>
    Prog.keeps_pure _
  · intro c
    dsimp only
    split_ifs <;> rfl
  · intro c
    dsimp only
    split_ifs <;> rfl

theorem isCalm_buffer (l : CoordCall) (stream : StreamID)
    (f : List CoordinatorMessage → List CoordinatorMessage) :
    IsCalm (.modify l fun w =>
      { w with
        coordinator.channels := Function.update w.coordinator.channels stream
          { w.coordinator.channels stream with
            buffer := f (w.coordinator.channels stream).buffer } }) := by
  refine Prog.keeps_modify fun w _ => ⟨trivial, .of_same rfl fun stream' => ?_⟩
  by_cases h : stream' = stream
  · subst h
    simp
  · simp [Function.update_of_ne h]

theorem isCalm_sendRegistered (stream : StreamID) (hostID : String) :
    IsCalm (sendRegistered stream hostID) :=
  isCalm_buffer .send stream fun buffer => buffer ++ [CoordinatorMessage.registered hostID]

/-! ## The functions that run side by side -/

/-- A call of a function of the coordinator. -/
inductive Task
  | control (retry : Bool) (messages : List (AgentMessage × (ℕ → Time))) (ending : StreamEnd)
      (leftAt : Time)
  | takeMessage (stream : StreamID)
  | registerEmbeddedHost (clock : ℕ → Time) (msg : RegisterHost) (preparer : Bool)
  | updateEmbeddedHeartbeat (clock : ℕ → Time) (msg : HostHeartbeat)
  | applyAssignmentUpdate (retry : Bool) (now : Time) (msg : AssignmentUpdate)
  | assignExecution (clock : ℕ → Time) (order : MapOrder HostSession) (done : Bool)
      (assignment : Assignment)
  | executeDirectStream (clock : ℕ → Time) (order : MapOrder HostSession) (done : Bool)
      (assignment : Assignment)
  | prepareFunctionWarm (clock : ℕ → Time) (order : MapOrder HostSession) (done : Bool)
      (version : FunctionVersion)
  | drainHost (now : Time) (hostID reason : String) (done : Bool)
  | reapStaleHosts (clock : ℕ → Time) (region : String) (staleHostAfter : Time)

/-- The program of a task. A control stream has the number of its task. -/
def Task.prog (n : StreamID) : Task → CoordM Unit
  | .control retry messages ending leftAt => Lecrev.control retry n messages ending leftAt
  | .takeMessage stream => Lecrev.takeMessage stream
  | .registerEmbeddedHost clock msg preparer => Lecrev.registerEmbeddedHost clock msg preparer
  | .updateEmbeddedHeartbeat clock msg => updateHeartbeat clock msg
  | .applyAssignmentUpdate retry now msg => handleUpdate retry now msg
  | .assignExecution clock order done assignment =>
    Lecrev.assignExecution clock order done assignment
  | .executeDirectStream clock order done assignment =>
    startDirectExecution clock order done assignment
  | .prepareFunctionWarm clock order done version =>
    Lecrev.prepareFunctionWarm clock order done version
  | .drainHost now hostID reason done => Lecrev.drainHost now hostID reason done
  | .reapStaleHosts clock region staleHostAfter =>
    Lecrev.reapStaleHosts clock region staleHostAfter

/-- A control stream. -/
def Task.isControl : Task → Bool
  | .control .. => true
  | _ => false

/-- The hosts that the messages of a stream register. -/
def hosts (messages : List (AgentMessage × (ℕ → Time))) : List String :=
  messages.filterMap fun message => message.1.registers

/-- The hosts that a task registers over a stream. -/
def Task.hosts : Task → List String
  | .control _ messages _ _ => Sessions.hosts messages
  | _ => []

/-- **The condition on the messages**: those of a stream register one host at most, and not under
an empty identifier. -/
def Task.OneHost (t : Task) : Prop := ∃ host, host ≠ "" ∧ ∀ id ∈ t.hosts, id = host

theorem Task.isCalm (n : StreamID) {t : Task} (h : t.isControl = false) : IsCalm (t.prog n) := by
  cases t with
  | control => cases h
  | takeMessage stream => exact isCalm_buffer .send stream List.tail
  | registerEmbeddedHost => exact isCalm_registerEmbeddedHost _ _ _
  | updateEmbeddedHeartbeat => exact isCalm_of_onTable (onTable_updateHeartbeat _ _)
  | applyAssignmentUpdate => exact isCalm_handleUpdate _ _ _
  | assignExecution => exact isCalm_assignExecution _ _ _ _
  | executeDirectStream => exact isCalm_startDirectExecution _ _ _ _
  | prepareFunctionWarm => exact isCalm_prepareFunctionWarm _ _ _ _
  | drainHost => exact isCalm_drainHost _ _ _ _
  | reapStaleHosts => exact isCalm_of_onTable (onTable_reapStaleHosts _ _ _)

/-! ## The protocol of a control stream -/

/-- What the other tasks do to the stream `n`: they neither close nor reopen its channel, and they
register no session for it. -/
structure Rely (n : StreamID) (w w' : World) : Prop where
  closed : (w'.coordinator.channels n).closed = (w.coordinator.channels n).closed
  sessions : ∀ id session', w'.coordinator.hosts.get id = some session' →
    session'.sendCh = some n →
    ∃ session, w.coordinator.hosts.get id = some session ∧ session.sendCh = some n

/-- What the task `n` guarantees in return. -/
structure Guarantee (n : StreamID) (w w' : World) : Prop where
  others : ∀ m, m ≠ n → Rely m w w'
  wired : AllWired w → AllWired w'

/-- A handler returns an error only on a stream that registers no host. -/
def RefusesUnregistered (tasks : StreamID → Task) (l : CoordCall) : Prop :=
  ∀ stream, l = .handlerError stream → (tasks stream).hosts = []

/-- The calls that may fail are those to the store. -/
def FailsOnStore (l : CoordCall) : Prop := ∃ call, l = .store call

/-- The protocol of the task `n`. -/
def protocol (tasks : StreamID → Task) (n : StreamID) : Protocol CoordCall World Unit where
  rely _ w _ w' := Rely n w w'
  guar _ _ w _ w' := Guarantee n w w'
  meets l _ := RefusesUnregistered tasks l
  fallible := FailsOnStore
  rely_refl _ _ := ⟨rfl, fun _ session h hch => ⟨session, h, hch⟩⟩
  rely_trans h h' := by
    refine ⟨h'.closed.trans h.closed, fun id session'' hget'' hch'' => ?_⟩
    obtain ⟨session', hget', hch'⟩ := h'.sessions id session'' hget'' hch''
    exact h.sessions id session' hget' hch'

theorem compatible_protocol (tasks : StreamID → Task) : Pool.Compatible (protocol tasks) :=
  fun _ m hne _ _ _ _ _ h => h.others m (Ne.symm hne)

theorem Calm.rely {w' : World} (h : Calm w w') (m : StreamID) : Rely m w w' where
  closed := h.closed m
  sessions id session' hget' hch' := by
    rcases h.sessions id session' hget' with ⟨session, hget, hch, -⟩ | ⟨-, hnone⟩
    · exact ⟨session, hget, hch ▸ hch'⟩
    · rw [hnone] at hch'
      cases hch'

theorem Calm.allWired {w' : World} (h : Calm w w') (hw : AllWired w) : AllWired w' := by
  intro id session' hget'
  rcases h.sessions id session' hget' with ⟨session, hget, hch, hex⟩ | hembedded
  · rcases hw id session hget with ⟨hexec, hnone⟩ | ⟨stream, hsome, hopen⟩
    · exact .inl ⟨hex.trans hexec, hch.trans hnone⟩
    · exact .inr ⟨stream, hch.trans hsome, (h.closed stream).trans hopen⟩
  · exact .inl hembedded

theorem Calm.guarantee {w' : World} (h : Calm w w') (n : StreamID) : Guarantee n w w' :=
  ⟨fun m _ => h.rely m, h.allWired⟩

/-- The channel of the stream `n` is open. -/
def ChannelOpen (n : StreamID) (w : World) : Prop := (w.coordinator.channels n).closed = false

/-- The table has no session of the stream `n`, but that of the host `down`. -/
def OnlySession (n : StreamID) (down : Option String) (w : World) : Prop :=
  ∀ id session, w.coordinator.hosts.get id = some session → session.sendCh = some n →
    down = some id

theorem Rely.channelOpen {n : StreamID} {w' : World} (h : Rely n w w') (hopen : ChannelOpen n w) :
    ChannelOpen n w' :=
  h.closed.trans hopen

theorem Rely.onlySession {n : StreamID} {down : Option String} {w' : World} (h : Rely n w w')
    (hw : OnlySession n down w) : OnlySession n down w' := by
  intro id session' hget' hch'
  obtain ⟨session, hget, hch⟩ := h.sessions id session' hget' hch'
  exact hw id session hget hch

/-- A stream that has no session has no other session than that of any host. -/
theorem OnlySession.of_none {n : StreamID} (hw : OnlySession n none w) (down : Option String) :
    OnlySession n down w :=
  fun id session hget hch => nomatch hw id session hget hch

section Stream

variable {tasks : StreamID → Task} {n : StreamID}

theorem IsCalm.safe {α : Type} {p : CoordM α} (hp : IsCalm p) {I : World → Prop}
    (hI : ∀ {w w'}, Rely n w w' → I w → I w') (hw : I w) :
    p.Safe (protocol tasks n) (fun _ _ w => I w) () w :=
  Prog.Keeps.safe (J := fun _ => I) hp hw (fun _ => trivial) hI
    fun hw _ h => ⟨h.guarantee n, hI (h.rely n) hw⟩

/-- A handler registers a session for the host of its message only. -/
theorem keeps_handleMessage (retry : Bool) (clock : ℕ → Time) (n : StreamID) {msg : AgentMessage}
    {down : Option String} (hmsg : ∀ hostID, msg.registers = some hostID → down = some hostID) :
    (handleMessage retry clock n msg).Keeps (fun w => ChannelOpen n w ∧ OnlySession n down w)
      fun _ => Guarantee n := by
  have hcalm : ∀ {α : Type} {p : CoordM α}, IsCalm p →
      p.Keeps (fun w => ChannelOpen n w ∧ OnlySession n down w) fun _ => Guarantee n :=
    fun hp => hp.of_calls fun _ _ _ hw h =>
      ⟨⟨(h.rely n).channelOpen hw.1, (h.rely n).onlySession hw.2⟩, h.guarantee n⟩
  cases msg with
  | heartbeat msg => exact hcalm (isCalm_of_onTable (onTable_updateHeartbeat clock msg))
  | assignmentUpdate msg => exact hcalm (isCalm_handleUpdate retry (clock 0) msg)
  | unknown => exact Prog.keeps_throw _
  | register msg =>
    refine .bind_of (.bind_of ?_ fun _ => ?_) fun _ =>
      hcalm (isCalm_sendRegistered n msg.hostID)
    · -- the new session: it is of this stream, so the other streams do not mind
      refine Prog.keeps_action fun w hw => ⟨⟨hw.1, ?_⟩, fun m hm => ⟨rfl, ?_⟩, fun hwired => ?_⟩
      · intro id session hget hch
        rw [Table.get_put] at hget
        split_ifs at hget with hid
        · exact (hmsg msg.hostID rfl).trans (congrArg some hid.symm)
        · exact hw.2 id session hget hch
      · intro id session hget hch
        rw [Table.get_put] at hget
        split_ifs at hget
        · obtain rfl := Option.some.inj hget
          exact absurd (Option.some.inj hch).symm hm
        · exact ⟨session, hget, hch⟩
      · intro id session hget
        rw [Table.get_put] at hget
        split_ifs at hget
        · obtain rfl := Option.some.inj hget
          exact .inr ⟨n, rfl, hw.1⟩
        · exact hwired id session hget
    · refine .bind_of (hcalm (isCalm_onStore _)) fun _ => ?_
      refine .bind_of (hcalm (isCalm_onStore _)) fun _ => ?_
      exact hcalm (isCalm_of_onTable (onTable_persistRegion _))

/-- The loop of `Control` ends with no session of the stream but that of the host it marks down.
`hostID` is the variable of the loop: it is empty, or the one host of the stream. -/
theorem safe_controlLoop (retry : Bool) (ending : StreamEnd) {host hostID : String}
    {messages : List (AgentMessage × (ℕ → Time))} (hhost : host ≠ "")
    (hmessages : ∀ id ∈ hosts messages, id = host) (hid : hostID = "" ∨ hostID = host)
    (hquiet : (tasks n).hosts = [] → hostID = "" ∧ hosts messages = []) (hopen : ChannelOpen n w)
    (honly : OnlySession n (hostDown hostID) w) :
    (controlLoop retry n ending hostID messages).Safe (protocol tasks n)
      (fun r _ w => ∀ exit, r = .ok exit → OnlySession n exit.down w) () w := by
  induction messages generalizing hostID w with
  | nil =>
    rintro _ w' hrely exit ⟨⟩
    exact hrely.onlySession honly
  | cons message messages ih =>
    obtain ⟨msg, clock⟩ := message
    -- the host that is marked down after this message
    have hafter : (msg.hostAfter hostID = "" ∨ msg.hostAfter hostID = host) ∧
        OnlySession n (hostDown (msg.hostAfter hostID)) w ∧
        ∀ id, msg.registers = some id → hostDown (msg.hostAfter hostID) = some id := by
      cases msg with
      | register msg =>
        have hmsg : msg.hostID = host :=
          hmessages msg.hostID (List.mem_filterMap.mpr ⟨_, List.mem_cons_self, rfl⟩)
        have hdown : hostDown msg.hostID = some host := by rw [hmsg, hostDown, if_neg hhost]
        refine ⟨.inr hmsg, ?_, ?_⟩
        · show OnlySession n (hostDown msg.hostID) w
          rw [hdown]
          rcases hid with rfl | rfl
          · exact honly.of_none _
          · rwa [hostDown, if_neg hhost] at honly
        · rintro id ⟨⟩
          exact hdown.trans (congrArg some hmsg.symm)
      | _ => exact ⟨hid, honly, nofun⟩
    have hquiet' : (tasks n).hosts = [] → msg.hostAfter hostID = "" ∧ hosts messages = [] := by
      intro hnone
      obtain ⟨hempty, hrest⟩ := hquiet hnone
      cases msg with
      | register msg => cases hrest
      | _ => exact ⟨hempty, hrest⟩
    refine Prog.Safe.result_bind (Prog.Keeps.safe
      (J := fun _ w => ChannelOpen n w ∧ OnlySession n (hostDown (msg.hostAfter hostID)) w)
      (keeps_handleMessage retry clock n hafter.2.2) ⟨hopen, hafter.2.1⟩ id
      (fun hrely h => ⟨hrely.channelOpen h.1, hrely.onlySession h.2⟩)
      fun _ hw h => ⟨h, hw⟩) fun r _ w' hw' => ?_
    cases r with
    | error e =>
      intro _ w'' hrely
      refine ⟨fun hmeets => ⟨(), (Calm.of_same rfl fun _ => rfl).guarantee n, ?_⟩, ?_⟩
      · rintro _ w₃ hrely' exit ⟨⟩
        -- no host was registered on the stream, so there is no session of it
        have honly' := hw'.2
        rw [(hquiet' (hmeets n rfl)).1] at honly'
        exact hrely'.onlySession (hrely.onlySession honly')
      · rintro ⟨call, hcall⟩
        cases hcall
    | ok _ =>
      refine ih (fun id hmem => hmessages id ?_) hafter.1 hquiet' hw'.1 hw'.2
      obtain ⟨message, hmem, hregisters⟩ := List.mem_filterMap.mp hmem
      exact List.mem_filterMap.mpr ⟨message, List.mem_cons_of_mem _ hmem, hregisters⟩

/-- The deferred `close` is safe once the table has no session of the stream. -/
theorem safe_closeChannel (hw : OnlySession n none w) :
    (closeChannel n).Safe (protocol tasks n) (fun _ _ _ => True) () w := by
  intro _ w' hrely
  refine ⟨fun _ => ⟨(), ⟨fun m hm => ⟨?_, ?_⟩, ?_⟩, fun _ _ _ => trivial⟩, ?_⟩
  · simp [Function.update_of_ne hm]
  · exact fun id session hget hch => ⟨session, hget, hch⟩
  · -- a wired session has another channel, which stays open
    intro hwired id session hget
    rcases hwired id session hget with hembedded | ⟨stream, hsome, hopen⟩
    · exact .inl hembedded
    · have hne : stream ≠ n := by
        rintro rfl
        exact nomatch hrely.onlySession hw id session hget hsome
      refine .inr ⟨stream, hsome, ?_⟩
      rw [← hopen]
      simp [Function.update_of_ne hne]
  · rintro ⟨call, hcall⟩
    cases hcall

/-- `markHostDown` removes the last session of the stream. -/
theorem safe_markHostDown {now : Time} {hostID : String} (hw : OnlySession n (some hostID) w) :
    (markHostDown now hostID).Safe (protocol tasks n) (fun _ _ w => OnlySession n none w) () w := by
  refine Prog.Safe.bind (Q := fun _ _ w => OnlySession n none w) ?_ ?_ fun _ _ _ h => h
  · intro _ w' hrely
    -- the first call of `markHostDown` is the critical section that removes the session
    have htable := ((onTable_markHostDown now hostID).1 w' trivial).2.1.2
    have hcalm : Calm w' _ :=
      ⟨fun stream => by rw [htable.channels], fun id s h => .inl (htable.sessions id s h)⟩
    refine ⟨fun _ => ⟨(), hcalm.guarantee n, fun _ w'' hrely' => hrely'.onlySession ?_⟩, ?_⟩
    · -- the only entry that could carry the channel is gone
      intro id session hget hch
      obtain ⟨session', hget', hch', -⟩ := htable.sessions id session hget
      obtain rfl := Option.some.inj (hrely.onlySession hw id session' hget' (hch' ▸ hch))
      simp only [hget', Table.get_erase, if_pos] at hget
      cases hget
    · rintro ⟨call, hcall⟩
      cases hcall
  · intro saved _ w' hw'
    cases saved with
    | none => exact IsCalm.safe (Prog.keeps_pure _) Rely.onlySession hw'
    | some saved =>
      exact IsCalm.safe (isCalm_of_onTable (onTable_saveHost _ _ _)) Rely.onlySession hw'

theorem safe_leave (now : Time) {down : Option String} (hw : OnlySession n down w) :
    (leave now n down).Safe (protocol tasks n) (fun _ _ _ => True) () w := by
  cases down with
  | none => exact safe_closeChannel hw
  | some hostID =>
    exact (safe_markHostDown hw).bind (fun _ _ _ h => safe_closeChannel h) fun _ _ _ _ => trivial

/-- A stream whose messages register one host at most keeps to the protocol. -/
theorem safe_control {retry : Bool} {messages : List (AgentMessage × (ℕ → Time))}
    {ending : StreamEnd} {leftAt : Time} (htask : tasks n = .control retry messages ending leftAt)
    (hone : (tasks n).OneHost) (hopen : ChannelOpen n w) (hnone : OnlySession n none w) :
    (control retry n messages ending leftAt).Safe (protocol tasks n) (fun _ _ _ => True) () w := by
  obtain ⟨host, hhost, hmessages⟩ := hone
  rw [htask] at hmessages
  refine (safe_controlLoop retry ending hhost hmessages (.inl rfl) ?_ hopen hnone).bind
    (fun exit _ w' hw' => ?_) fun _ _ _ _ => trivial
  · intro hhosts
    rw [htask] at hhosts
    exact ⟨rfl, hhosts⟩
  · exact (safe_leave leftAt (hw' exit rfl)).bind (fun _ _ _ _ _ _ _ => trivial) fun _ _ _ _ =>
      trivial

theorem safe_task (hone : (tasks n).OneHost) (hopen : ChannelOpen n w)
    (hnone : OnlySession n none w) :
    ((tasks n).prog n).Safe (protocol tasks n) (fun _ _ _ => True) () w := by
  cases hcontrol : (tasks n).isControl with
  | false => exact (Task.isCalm n hcontrol).safe (fun _ _ => trivial) trivial
  | true =>
    cases htask : tasks n with
    | control retry messages ending leftAt => exact safe_control htask hone hopen hnone
    | _ =>
      rw [htask] at hcontrol
      cases hcontrol

end Stream

/-! ## Every interleaving -/

/-- The state of the tasks, some calls into their programs. -/
abbrev Tasks := Pool StreamID CoordCall World Err Unit

/-- A call that fails is one of the store. -/
def OnlyStoreFails (c : Tasks) : Pool.Move StreamID Err → Prop
  | .run _ => True
  | .fail n _ => ∀ l eff next fail, c.progs n = .call l eff next fail → FailsOnStore l

/-- **The condition on the errors**: a handler returns an error, or meets an unknown message, only
on a stream whose messages register no host. -/
def ErrorsUnregistered (tasks : StreamID → Task) (c : Tasks) : Pool.Move StreamID Err → Prop
  | .run n => ∀ l eff next fail, c.progs n = .call l eff next fail → RefusesUnregistered tasks l
  | .fail _ _ => True

/-- The tasks before their first calls. -/
def start (w : World) (tasks : StreamID → Task) : Tasks := Pool.start w fun n => (tasks n).prog n

/-- **Open-channel invariant.** If the messages of a stream register one host at most, and no
handler returns an error on a stream that registers one, then in every interleaving every session in
the table has an executor or an open channel, and no send to it panics. The streams may end in any
way, and the calls to the store may fail. -/
theorem sessions_open (region : String) (w : World) (hnew : w.coordinator = .new region)
    (tasks : StreamID → Task) (hone : ∀ n, (tasks n).OneHost)
    (ms : List (Pool.Move StreamID Err))
    (hfails : Pool.system.EveryStep OnlyStoreFails (start w tasks) ms)
    (herrors : Pool.system.EveryStep (ErrorsUnregistered tasks) (start w tasks) ms)
    (id : String) (session : HostSession)
    (hget : (Pool.system.exec (start w tasks) ms).state.coordinator.hosts.get id = some session) :
    Open (Pool.system.exec (start w tasks) ms).state.coordinator session ∧
      ∀ msg done, ((Pool.system.exec (start w tasks) ms).state.coordinator.trySend
        session.sendCh msg done).1 ≠ .panicked := by
  have hempty : ∀ id, w.coordinator.hosts.get id = none := by
    intro id
    rw [hnew]
    rfl
  have hstart : Pool.AllSafe (protocol tasks) (fun _ _ _ _ => True) (fun _ w _ => AllWired w)
      (start w tasks) := by
    have hnone (id : String) (session : HostSession) :
        w.coordinator.hosts.get id ≠ some session := by simp [hempty id]
    refine ⟨(), fun id session h => absurd h (hnone id session), fun n => ?_⟩
    refine safe_task (hone n) ?_ fun id session h => absurd h (hnone id session)
    change (w.coordinator.channels n).closed = false
    rw [hnew]
    rfl
  have hadmits : Pool.system.EveryStep (Pool.Admits (protocol tasks)) (start w tasks) ms := by
    refine (Transition.System.everyStep_and.mpr ⟨hfails, herrors⟩).mono fun c m hm => ?_
    cases m with
    | run n => exact hm.2
    | fail n e => exact hm.1
  obtain ⟨_, hwired, -⟩ :=
    Pool.exec_safe (compatible_protocol tasks) (fun _ _ _ _ _ _ _ h => h.wired) hstart hadmits
  exact ⟨(hwired id session hget).open, (hwired id session hget).trySend_ne_panicked⟩

/-! ## A session with a closed channel -/

namespace Sample

def world : World := { store := .new, coordinator := .new "region", handed := [] }

def register : AgentMessage :=
  .register { hostID := "host", region := "region", driver := "microvm", availableSlots := 2 }

def report : AgentMessage :=
  .assignmentUpdate
    { hostID := "host", region := "region", attemptID := "attempt", jobID := "job"
      state := .running }

def tasks (messages : List AgentMessage) : StreamID → Task
  | 0 => .control true (messages.map fun msg => (msg, fun _ => 10)) .eof 20
  | _ => .takeMessage 0

end Sample

open Sample in
theorem sessions_open_sample :
    ∃ session, (Pool.system.exec (start world (tasks [register]))
        (List.replicate 6 (.run 0))).state.coordinator.hosts.get "host" = some session ∧
      Open (Pool.system.exec (start world (tasks [register]))
        (List.replicate 6 (.run 0))).state.coordinator session := by
  refine ⟨_, rfl, (sessions_open "region" world rfl (tasks [register]) ?_ _ ?_ ?_ "host" _ rfl).1⟩
  · rintro (_ | n)
    · refine ⟨"host", by decide, fun id hid => ?_⟩
      exact List.mem_singleton.mp hid
    · exact ⟨"host", by decide, nofun⟩
  · exact ⟨trivial, trivial, trivial, trivial, trivial, trivial, trivial⟩
  · refine ⟨?_, ?_, ?_, ?_, ?_, ?_, trivial⟩
    all_goals rintro l eff next fail ⟨⟩ stream ⟨⟩

open Sample in
/-- A session can outlive its channel: the handler of a report about an unknown attempt returns an
error, `Control` returns and closes the channel, and the session stays in the table. -/
theorem not_sessions_open :
    ¬ ∀ (region : String) (w : World) (tasks : StreamID → Task)
      (ms : List (Pool.Move StreamID Err)), w.coordinator = .new region →
      Pool.system.EveryStep OnlyStoreFails (start w tasks) ms →
      ∀ id session,
        (Pool.system.exec (start w tasks) ms).state.coordinator.hosts.get id = some session →
        Open (Pool.system.exec (start w tasks) ms).state.coordinator session := by
  intro h
  have hopen := h "region" world (tasks [register, report]) (List.replicate 10 (.run 0)) rfl
    ⟨trivial, trivial, trivial, trivial, trivial, trivial, trivial, trivial, trivial, trivial,
      trivial⟩ "host" _ rfl
  rcases hopen with hembedded | ⟨stream, hsome, hopen⟩
  · cases hembedded
  · obtain rfl := Option.some.inj hsome
    cases hopen

end Sessions

end Lecrev

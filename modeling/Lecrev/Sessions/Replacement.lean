import Lecrev.Concurrency.Transition
import Lecrev.Coordinator.Control

/-!
# Replacement of host sessions

An agent that loses its connection opens a new control stream and registers again, possibly before
the coordinator has noticed the end of the old stream. The host table is keyed by the host alone, so
the new session replaces the old one; the end of the old stream then removes whatever session the
table has for the host.
-/

namespace Lecrev

variable {hostID : String} {s : State}

namespace Replacement

/-! ## The streams of one host -/

/-- A coordinator and its control streams. -/
structure State where
  world : World
  /-- The host registered last on a stream (`hostID` in `Control`). -/
  hostOf : StreamID → String

/-- A stream that has not returned. -/
def State.isOpen (s : State) (n : StreamID) : Prop :=
  (s.world.coordinator.channels n).closed = false

/-- What happens on a stream. -/
inductive Event
  | register (n : StreamID) (clock : ℕ → Time) (msg : RegisterHost)
  | heartbeat (n : StreamID) (clock : ℕ → Time) (msg : HostHeartbeat)
  /-- The stream ends: `io.EOF`, or an error of `Recv` or `Send`. -/
  | finish (n : StreamID) (now : Time)

/-- One turn of the loop of `Control` for a message: an error of the handler ends the stream. -/
def receive (s : State) (n : StreamID) (clock : ℕ → Time) (msg : AgentMessage) : State :=
  let r := (handleMessage true clock n msg).run s.world
  match r.1 with
  | .ok () =>
    { s with
      world := r.2
      hostOf := Function.update s.hostOf n (msg.hostAfter (s.hostOf n)) }
  | .error _ => { s with world := ((leave (clock 3) n none).run r.2).2 }

/-- What an event does to the coordinator and to the variables of its stream. -/
def step (s : State) : Event → State
  | .register n clock msg => receive s n clock (.register msg)
  | .heartbeat n clock msg => receive s n clock (.heartbeat msg)
  | .finish n now =>
    { s with world := ((leave now n (hostDown (s.hostOf n))).run s.world).2 }

/-- Messages arrive on open streams, and all carry the host `hostID`. -/
def Enabled (hostID : String) (s : State) : Event → Prop
  | .register n _ msg => s.isOpen n ∧ msg.hostID = hostID
  | .heartbeat n _ msg => s.isOpen n ∧ msg.hostID = hostID
  | .finish n _ => s.isOpen n

/-- The streams of the host `hostID`. -/
def system (hostID : String) : Transition.System State Event where
  step := step
  enabled := Enabled hostID

/-- No stream has registered yet. -/
def Initial (s : State) : Prop := ∀ n, s.hostOf n = ""

/-- The stream that an event registers. -/
def Event.registers : Event → Option StreamID
  | .register n _ _ => some n
  | .heartbeat .. | .finish .. => none

/-- The stream that an event ends. -/
def Event.ends : Event → Option StreamID
  | .finish n _ => some n
  | .register .. | .heartbeat .. => none

/-- The streams that registered the host. -/
def registered (es : List Event) : List StreamID := es.filterMap Event.registers

/-- The streams that ended. -/
def ended (es : List Event) : List StreamID := es.filterMap Event.ends

/-! ## What the handlers do -/

theorem run_register (clock : ℕ → Time) (n : StreamID) (msg : RegisterHost) (w : World) :
    ((handleMessage true clock n (.register msg)).run w).1 = .ok () ∧
      ((handleMessage true clock n (.register msg)).run w).2.coordinator.hosts =
        w.coordinator.hosts.put
          { host := newHost msg (clock 0), sendCh := some n, executor := false
            preparer := false } ∧
      ∀ m, (((handleMessage true clock n (.register msg)).run w).2.coordinator.channels m).closed =
        (w.coordinator.channels m).closed := by
  refine ⟨rfl, rfl, fun m => ?_⟩
  show (Function.update w.coordinator.channels n
    { w.coordinator.channels n with
      buffer := (w.coordinator.channels n).buffer ++ [.registered msg.hostID] } m).closed = _
  by_cases hm : m = n
  · subst hm
    rw [Function.update_self]
  · rw [Function.update_of_ne hm]

theorem run_updateHeartbeat_of_get (clock : ℕ → Time) {msg : HostHeartbeat} {w : World}
    {session : HostSession} (hget : w.coordinator.hosts.get msg.hostID = some session) :
    ((updateHeartbeat clock msg).run w).1 = .ok () ∧
      ((updateHeartbeat clock msg).run w).2.coordinator =
        { w.coordinator with
          hosts := w.coordinator.hosts.put
            { session with host := session.host.afterHeartbeat msg (clock 0) } } := by
  simp only [updateHeartbeat, locked, Prog.run_bind, Prog.run_action, hget]
  exact ⟨rfl, rfl⟩

theorem run_updateHeartbeat_of_none (clock : ℕ → Time) {msg : HostHeartbeat} {w : World}
    (hget : w.coordinator.hosts.get msg.hostID = none) :
    (updateHeartbeat clock msg).run w =
      (.error (.other ("heartbeat for unknown host " ++ msg.hostID)), w) := by
  simp only [updateHeartbeat, locked, Prog.run_bind, Prog.run_action, hget]

theorem run_leave (now : Time) (n : StreamID) (down : Option String) (w : World) :
    (∀ id, ((leave now n down).run w).2.coordinator.hosts.get id =
      if down = some id then none else w.coordinator.hosts.get id) ∧
    ((leave now n down).run w).2.coordinator.channels =
      Function.update w.coordinator.channels n
        { w.coordinator.channels n with closed := true } := by
  cases down with
  | none => exact ⟨fun id => rfl, rfl⟩
  | some hostID =>
    cases hget : w.coordinator.hosts.get hostID with
    | none =>
      simp only [leave, markHostDown, locked, Prog.run_bind, Prog.run_action, hget]
      refine ⟨fun id => ?_, rfl⟩
      show w.coordinator.hosts.get id = _
      split_ifs with hid
      · obtain rfl := Option.some.inj hid
        exact hget
      · rfl
    | some session =>
      simp only [leave, markHostDown, locked, Prog.run_bind, Prog.run_action, hget]
      refine ⟨fun id => ?_, rfl⟩
      show (w.coordinator.hosts.erase hostID).get id = _
      rw [Table.get_erase]
      simp only [Option.some.injEq, eq_comm]

/-! ## The streams -/

theorem hostDown_eq_some_iff {id : String} :
    hostDown hostID = some id ↔ id ≠ "" ∧ hostID = id := by
  unfold hostDown
  split_ifs with hid
  · exact iff_of_false nofun fun h => h.1 (h.2.symm.trans hid)
  · rw [Option.some.injEq]
    exact ⟨fun h => ⟨h ▸ hid, h⟩, And.right⟩

/-- A closed stream stays closed, and a stream that ends is closed. -/
theorem isOpen_of_leave {n m : StreamID} {now : Time} {down : Option String}
    (hm : State.isOpen { s with world := ((leave now n down).run s.world).2 } m) :
    m ≠ n ∧ s.isOpen m := by
  unfold State.isOpen at hm
  rw [(run_leave now n down s.world).2] at hm
  by_cases hmn : m = n
  · subst hmn
    rw [Function.update_self] at hm
    cases hm
  · rw [Function.update_of_ne hmn] at hm
    exact ⟨hmn, hm⟩

/-- A stream that is open after an event was open before it, and is not the one that ended. -/
theorem isOpen_of_step {e : Event} {m : StreamID} (hm : (step s e).isOpen m) :
    s.isOpen m ∧ e.ends ≠ some m := by
  cases e with
  | register n clock msg =>
    obtain ⟨hok, -, hclosed⟩ := run_register clock n msg s.world
    simp only [step, receive, hok] at hm
    exact ⟨(hclosed m).symm.trans hm, nofun⟩
  | heartbeat n clock msg =>
    refine ⟨?_, nofun⟩
    cases hget : s.world.coordinator.hosts.get msg.hostID with
    | some session =>
      obtain ⟨hok, hcoord⟩ := run_updateHeartbeat_of_get clock hget
      simp only [step, receive, handleMessage, hok] at hm
      unfold State.isOpen at hm
      rwa [hcoord] at hm
    | none =>
      simp only [step, receive, handleMessage, run_updateHeartbeat_of_none clock hget] at hm
      exact (isOpen_of_leave hm).2
  | finish n now =>
    obtain ⟨hmn, hopen⟩ := isOpen_of_leave hm
    exact ⟨hopen, fun hn => hmn (Option.some.inj hn).symm⟩

/-- A stream that is open at the end of a run did not end during it. -/
theorem notMem_ended_of_isOpen {es : List Event} {m : StreamID}
    (hm : ((system hostID).exec s es).isOpen m) : s.isOpen m ∧ m ∉ ended es := by
  induction es generalizing s with
  | nil => exact ⟨hm, List.not_mem_nil⟩
  | cons e es ih =>
    obtain ⟨hopen, hlater⟩ := ih hm
    obtain ⟨hbefore, hends⟩ := isOpen_of_step hopen
    refine ⟨hbefore, fun hmem => ?_⟩
    obtain ⟨e', he', hm'⟩ := List.mem_filterMap.mp hmem
    obtain rfl | he' := List.mem_cons.mp he'
    · exact hends hm'
    · exact hlater (List.mem_filterMap.mpr ⟨e', he', hm'⟩)

/-- An event sets the host of the stream it registers, and of no other. -/
theorem hostOf_step {e : Event} (he : Enabled hostID s e) (m : StreamID) :
    (step s e).hostOf m = if e.registers = some m then hostID else s.hostOf m := by
  cases e with
  | register n clock msg =>
    obtain ⟨hok, -, -⟩ := run_register clock n msg s.world
    simp only [step, receive, hok, Event.registers, Option.some.injEq, AgentMessage.hostAfter,
      he.2, Function.update_apply, eq_comm]
  | heartbeat n clock msg =>
    have hsame : Function.update s.hostOf n (s.hostOf n) m = s.hostOf m := by
      rw [Function.update_eq_self]
    simp only [step, receive, Event.registers, reduceCtorEq, if_false]
    split
    · exact hsame
    · rfl
  | finish n now => rfl

/-- The host of a stream after a run is that of its registration. -/
theorem hostOf_exec {es : List Event} (hruns : (system hostID).Runs s es) (m : StreamID) :
    ((system hostID).exec s es).hostOf m =
      if m ∈ registered es then hostID else s.hostOf m := by
  induction es generalizing s with
  | nil => rfl
  | cons e es ih =>
    have hstep : (step s e).hostOf m = _ := hostOf_step hruns.1 m
    rw [Transition.System.exec_cons, ih hruns.2]
    show (if m ∈ registered es then hostID else (step s e).hostOf m) = _
    rw [hstep, registered, registered, List.filterMap_cons]
    cases e.registers with
    | none => simp
    | some n =>
      by_cases hnm : n = m
      · simp [hnm]
      · simp [hnm, Ne.symm hnm]

/-! ## The session of the last registration -/

/-- The host is registered with the session of the stream `n`, and is active. -/
def HasSession (hostID : String) (n : StreamID) (s : State) : Prop :=
  ∃ session, s.world.coordinator.hosts.get hostID = some session ∧
    session.sendCh = some n ∧ session.host.state = .active

/-- A registration makes the session of its stream that of the host. -/
theorem HasSession.register (s : State) (n : StreamID) (clock : ℕ → Time) {msg : RegisterHost}
    (hmsg : msg.hostID = hostID) :
    HasSession hostID n (step s (.register n clock msg)) := by
  obtain ⟨hok, hhosts, -⟩ := run_register clock n msg s.world
  simp only [step, receive, hok]
  refine ⟨⟨newHost msg (clock 0), some n, false, false⟩, ?_, rfl, rfl⟩
  show ((handleMessage true clock n (.register msg)).run s.world).2.coordinator.hosts.get
    hostID = _
  rw [hhosts]
  exact Table.get_put_of_key _ hmsg

/-- A heartbeat, from whichever stream, leaves the host its session. -/
theorem HasSession.heartbeat {n : StreamID} (m : StreamID) (clock : ℕ → Time) {msg : HostHeartbeat}
    (h : HasSession hostID n s) (hmsg : msg.hostID = hostID) :
    HasSession hostID n (step s (.heartbeat m clock msg)) := by
  subst hmsg
  obtain ⟨session, hget, hch, hstate⟩ := h
  obtain ⟨hok, hcoord⟩ := run_updateHeartbeat_of_get clock hget
  simp only [step, receive, handleMessage, hok]
  refine ⟨{ session with host := session.host.afterHeartbeat msg (clock 0) }, ?_, hch, hstate⟩
  have hkey : session.host.id = msg.hostID := Table.key_of_get hget
  show ((updateHeartbeat clock msg).run s.world).2.coordinator.hosts.get msg.hostID = _
  rw [hcoord]
  exact Table.get_put_of_key _ hkey

/-- The end of a stream of another host, or of none, leaves the host its session. -/
theorem HasSession.finish {n m : StreamID} {now : Time} (h : HasSession hostID n s)
    (hdown : hostDown (s.hostOf m) ≠ some hostID) :
    HasSession hostID n (step s (.finish m now)) := by
  obtain ⟨session, hget, hsession⟩ := h
  refine ⟨session, ?_, hsession⟩
  show ((leave now m (hostDown (s.hostOf m))).run s.world).2.coordinator.hosts.get hostID = _
  rw [(run_leave now m _ s.world).1, if_neg hdown]
  exact hget

/-- A host without a session has none until its next registration. -/
theorem get_step_of_none {e : Event} (he : Enabled hostID s e) (hregisters : e.registers = none)
    (hget : s.world.coordinator.hosts.get hostID = none) :
    (step s e).world.coordinator.hosts.get hostID = none := by
  cases e with
  | register n clock msg => cases hregisters
  | heartbeat n clock msg =>
    obtain rfl := he.2
    simp only [step, receive, handleMessage, run_updateHeartbeat_of_none clock hget]
    rw [(run_leave (clock 3) n none s.world).1]
    exact hget
  | finish n now =>
    show ((leave now n (hostDown (s.hostOf n))).run s.world).2.coordinator.hosts.get hostID = _
    rw [(run_leave now n _ s.world).1, hget, ite_self]

/-- Without a registration a run leaves the host its session exactly when no stream of the host
ends: the end of a stream removes the session of the host, whichever stream it is of. -/
theorem hasSession_exec_iff {es : List Event} {n : StreamID} (hruns : (system hostID).Runs s es)
    (hnone : registered es = []) (h : HasSession hostID n s) :
    HasSession hostID n ((system hostID).exec s es) ↔
      ∀ m ∈ ended es, hostDown (s.hostOf m) ≠ some hostID := by
  induction es generalizing s with
  | nil => exact iff_of_true h (by simp [ended])
  | cons e es ih =>
    have hlater : registered es = [] := List.filterMap_eq_nil_iff.mpr fun e' he' =>
      List.filterMap_eq_nil_iff.mp hnone e' (List.mem_cons_of_mem _ he')
    have hfirst : e.registers = none := List.filterMap_eq_nil_iff.mp hnone e List.mem_cons_self
    have hhost (m : StreamID) : (step s e).hostOf m = s.hostOf m := by
      rw [hostOf_step hruns.1, hfirst, if_neg nofun]
    rw [Transition.System.exec_cons]
    cases e with
    | register m clock msg => cases hfirst
    | heartbeat m clock msg =>
      refine (ih hruns.2 hlater (h.heartbeat m clock hruns.1.2)).trans ?_
      exact forall₂_congr fun m' _ => by rw [← hhost m']; rfl
    | finish m now =>
      have hended : ended (.finish m now :: es) = m :: ended es := rfl
      rw [hended, List.forall_mem_cons]
      by_cases hdown : hostDown (s.hostOf m) = some hostID
      · -- the session is gone, and no later registration brings one back
        refine iff_of_false ?_ (fun hall => hall.1 hdown)
        have hgone : (step s (.finish m now)).world.coordinator.hosts.get hostID = none := by
          show ((leave now m (hostDown (s.hostOf m))).run s.world).2.coordinator.hosts.get hostID =
            _
          rw [(run_leave now m _ s.world).1, if_pos hdown]
        have hquiet : (system hostID).EveryStep (fun _ e => e.registers = none)
            (step s (.finish m now)) es :=
          (system hostID).everyStep_of_forall_mem _ (List.filterMap_eq_nil_iff.mp hlater)
        have hnever := (Transition.System.everyStep_and.mpr ⟨hruns.2, hquiet⟩).invariant
          (P := fun s => s.world.coordinator.hosts.get hostID = none) hgone
          fun s e he hget => get_step_of_none he.1 he.2 hget
        rintro ⟨session, hget, -⟩
        exact nomatch hnever.symm.trans hget
      · rw [and_iff_right hdown]
        exact ih hruns.2 hlater (h.finish hdown)

/-- **When the session of the last registration is kept.** In every run of registrations,
heartbeats and ends of the streams of a host: while the stream `n` that registered last is open,
the host is registered with its session, is active, and its heartbeats are accepted, exactly when
no stream that had registered before ends after the registration of `n` (a host with an empty
identifier is never marked down). -/
theorem session_kept_iff (hostID : String) {s : State} {before after : List Event} {n : StreamID}
    {clock : ℕ → Time} {msg : RegisterHost} (hinit : Initial s)
    (hruns : (system hostID).Runs s (before ++ .register n clock msg :: after))
    (hlast : registered after = [])
    (hopen : ((system hostID).exec s (before ++ .register n clock msg :: after)).isOpen n) :
    ((∃ session,
        ((system hostID).exec s
            (before ++ .register n clock msg :: after)).world.coordinator.hosts.get
          hostID = some session ∧ session.sendCh = some n ∧ session.host.state = .active) ∧
      ∀ clock' msg', msg'.hostID = hostID →
        ((updateHeartbeat clock' msg').run
          ((system hostID).exec s (before ++ .register n clock msg :: after)).world).1 = .ok ()) ↔
    hostID = "" ∨ ∀ m ∈ registered before, m ∉ ended after := by
  have hexec : (system hostID).exec s (before ++ .register n clock msg :: after) =
      (system hostID).exec ((system hostID).exec s (before ++ [.register n clock msg])) after := by
    rw [List.append_cons, Transition.System.exec_append]
  rw [List.append_cons] at hruns
  rw [hexec] at hopen ⊢
  obtain ⟨hbefore, hafter⟩ := (Transition.System.everyStep_append ..).mp hruns
  have hnew : HasSession hostID n ((system hostID).exec s (before ++ [.register n clock msg])) := by
    rw [Transition.System.exec_append]
    exact .register _ n clock ((Transition.System.everyStep_append ..).mp hbefore).2.1.2
  have hn : n ∉ ended after := (notMem_ended_of_isOpen hopen).2
  constructor
  · rintro ⟨hkept, -⟩
    by_cases hid : hostID = ""
    · exact .inl hid
    · refine .inr fun m hm hend => (hasSession_exec_iff hafter hlast hnew).mp hkept m hend ?_
      have hmem : m ∈ registered (before ++ [.register n clock msg]) := by
        rw [registered, List.filterMap_append]
        exact List.mem_append_left _ hm
      rw [hostOf_exec hbefore, if_pos hmem, hostDown, if_neg hid]
  · intro hearlier
    have hkept := (hasSession_exec_iff hafter hlast hnew).mpr fun m hend hdown => by
      -- a stream whose end marks the host down has registered it
      obtain ⟨hid, hhost⟩ := hostDown_eq_some_iff.mp hdown
      rw [hostOf_exec hbefore, hinit m] at hhost
      have hmem : m ∈ registered (before ++ [.register n clock msg]) := by
        by_contra hmem
        rw [if_neg hmem] at hhost
        exact hid hhost.symm
      rw [registered, List.filterMap_append, List.mem_append] at hmem
      rcases hmem with hmem | hmem
      · exact (hearlier.resolve_left hid) m hmem hend
      · obtain rfl : m = n := List.mem_singleton.mp hmem
        exact hn hend
    obtain ⟨session, hget, hsession⟩ := hkept
    refine ⟨⟨session, hget, hsession⟩, ?_⟩
    rintro clock' msg' rfl
    exact (run_updateHeartbeat_of_get clock' hget).1

/-! ## An old stream that ends late -/

namespace Sample

def start : State where
  world := { store := .new, coordinator := .new "region", handed := [] }
  hostOf _ := ""

theorem initial_start : Initial start := fun _ => rfl

def register (n : StreamID) : Event :=
  .register n (fun _ => 10)
    { hostID := "host", region := "region", driver := "microvm", availableSlots := 2 }

def heartbeat (n : StreamID) : Event :=
  .heartbeat n (fun _ => 20) { hostID := "host", availableSlots := 1 }

end Sample

open Sample in
theorem session_kept_iff_sample :
    ((∃ session, ((system "host").exec start ([register 0, .finish 0 15] ++ register 1 ::
        [heartbeat 1])).world.coordinator.hosts.get "host" = some session ∧
      session.sendCh = some 1 ∧ session.host.state = .active) ∧
    ∀ clock msg, msg.hostID = "host" → ((updateHeartbeat clock msg).run
      ((system "host").exec start ([register 0, .finish 0 15] ++ register 1 ::
        [heartbeat 1])).world).1 = .ok ()) := by
  refine (session_kept_iff "host" initial_start ?_ ?_ ?_).mpr (.inr ?_)
  · exact ⟨⟨rfl, rfl⟩, rfl, ⟨rfl, rfl⟩, ⟨rfl, rfl⟩, trivial⟩
  · rfl
  · rfl
  · exact fun m _ => List.not_mem_nil

open Sample in
/-- A host that has reconnected can lose its session: the old stream ends after the new
registration, removes the new session, and the next heartbeat on the new stream is refused. -/
theorem not_session_kept :
    ¬ ∀ (hostID : String) (s : State) (before after : List Event) (n : StreamID)
        (clock : ℕ → Time) (msg : RegisterHost), Initial s →
      (system hostID).Runs s (before ++ .register n clock msg :: after) → registered after = [] →
      ((system hostID).exec s (before ++ .register n clock msg :: after)).isOpen n →
      (∃ session,
        ((system hostID).exec s
            (before ++ .register n clock msg :: after)).world.coordinator.hosts.get
          hostID = some session ∧ session.sendCh = some n ∧ session.host.state = .active) ∧
      ∀ clock' msg', msg'.hostID = hostID →
        ((updateHeartbeat clock' msg').run
          ((system hostID).exec s (before ++ .register n clock msg :: after)).world).1 =
        .ok () := by
  intro h
  obtain ⟨⟨session, hget, -⟩, -⟩ := h "host" start [register 0] [.finish 0 15] 1 (fun _ => 10)
    { hostID := "host", region := "region", driver := "microvm", availableSlots := 2 }
    initial_start ⟨⟨rfl, rfl⟩, ⟨rfl, rfl⟩, rfl, trivial⟩ rfl rfl
  cases hget

end Replacement

end Lecrev

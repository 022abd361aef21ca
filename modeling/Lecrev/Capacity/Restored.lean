import Lecrev.Capacity.Reservations
import Lecrev.Coordinator.Assign

/-!
# Hand-overs that fail

`assignExecution`, `ExecuteDirectStream` and `PrepareFunctionWarm` reserve a slot of a host before
they hand work to it. When the hand-over fails the reservation is to be given back: all counters of
all hosts are as before (`RestoresOnError`).

The two that do not use the store between the reservation and the send keep to this, whatever the
store and the channel do. `assignExecution` loads and writes the attempt in between and returns the
errors of these two calls as they are, with the slot still taken. So it keeps to it exactly when
there is no free host, or neither of the two calls can fail (`failed_handOver_restores_iff`).
-/

namespace Lecrev.Reservations

/-! ## Counters -/

/-- The counters of the two hosts agree. -/
structure SameCounters (host host' : Host) : Prop where
  availableSlots : host'.availableSlots = host.availableSlots
  availableFullNetworkSlots : host'.availableFullNetworkSlots = host.availableFullNetworkSlots
  blankWarm : host'.blankWarm = host.blankWarm
  functionWarm : ∀ functionVersionID, host'.warmFor functionVersionID =
    host.warmFor functionVersionID

/-- The same hosts are registered, with the same counters. -/
structure Undone (c c' : Coordinator) : Prop where
  present : ∀ id, (c'.hosts.get id).isSome = (c.hosts.get id).isSome
  counters : ∀ id session session', c.hosts.get id = some session →
    c'.hosts.get id = some session' → SameCounters session.host session'.host

theorem Accounted.undone {c c' : Coordinator} (h : Accounted c [] c') : Undone c c' where
  present := h.present
  counters id session session' hsession hsession' := by
    obtain ⟨-, hslots, hfull, hblank, hwarm⟩ := h.balanced id session session' hsession hsession'
    exact ⟨by simpa [held] using hslots, by simpa [held] using hfull, by simpa [held] using hblank,
      fun v => by simpa [held] using hwarm v⟩

theorem Took.not_undone {r : Reservation} {c : Coordinator} {session : HostSession} {host : Host}
    (h : Took r session.host host) (hget : c.hosts.get session.host.id = some session) :
    ¬ Undone c (setHost c session host) := by
  intro hundone
  have hafter :
      (setHost c session host).hosts.get session.host.id = some { session with host } := by
    rw [get_setHost h.id, if_pos rfl]
  have hslots : host.availableSlots = session.host.availableSlots :=
    (hundone.counters _ _ _ hget hafter).availableSlots
  have htook := h.availableSlots
  omega

/-- In every run from `w` in which the calls of `F` may fail: if an error is returned and no host
has got an assignment, then all counters are as before. -/
def RestoresOnError (F : CoordCall → Prop) (p : CoordM Unit) (w : World) : Prop :=
  p.Ends F (fun r w' => ∀ e, r = .error e → w'.handed = w.handed →
    Undone w.coordinator w'.coordinator) w

/-- The channels of the registered hosts are open. -/
def ChannelsOpen (c : Coordinator) : Prop :=
  ∀ id session stream, c.hosts.get id = some session → session.sendCh = some stream →
    (c.channels stream).closed = false

section Sending

variable {F : CoordCall → Prop} {w : World}

theorem trySend_of_ne_sent {c : Coordinator} {sendCh : Option StreamID} {msg : CoordinatorMessage}
    {done : Bool} (h : (c.trySend sendCh msg done).1 ≠ .sent) :
    (c.trySend sendCh msg done).2 = c := by
  unfold Coordinator.trySend at h ⊢
  split_ifs at h ⊢
  · rfl
  · split at h
    · rfl
    · dsimp only at h ⊢
      split_ifs at h ⊢
      · rfl
      · exact absurd rfl h
      · rfl

theorem trySend_ne_panicked {c : Coordinator} {sendCh : Option StreamID} {msg : CoordinatorMessage}
    {done : Bool} (h : ∀ stream, sendCh = some stream → (c.channels stream).closed = false) :
    (c.trySend sendCh msg done).1 ≠ .panicked := by
  unfold Coordinator.trySend
  split_ifs
  · simp
  · split
    · simp
    · next stream =>
      have hopen := h stream rfl
      dsimp only
      rw [hopen]
      split_ifs <;> simp_all

/-- A host holds the reservation `r`, made since the world `w`, and nothing else has happened. -/
structure Reserved (w : World) (r : Reservation) (session : HostSession) (w₁ : World) : Prop where
  books : Accounted w.coordinator [r] w₁.coordinator
  registered : w₁.coordinator.hosts.get session.host.id = some session
  hostID : r.hostID = session.host.id
  channel : ∀ stream, session.sendCh = some stream →
    (w₁.coordinator.channels stream).closed = false

theorem Reserved.of_same {w w₁ w₂ : World} {r : Reservation} {session : HostSession}
    (h : Reserved w r session w₁) (hhosts : w₂.coordinator.hosts = w₁.coordinator.hosts)
    (hchannels : w₂.coordinator.channels = w₁.coordinator.channels) : Reserved w r session w₂ where
  books := h.books.of_hosts hhosts
  registered := by rw [hhosts, h.registered]
  hostID := h.hostID
  channel stream hstream := by rw [hchannels, h.channel stream hstream]

theorem reserved_of_took {w₁ : World} {session : HostSession} {host : Host} {r : Reservation}
    (hopen : ChannelsOpen w.coordinator)
    (hget : w.coordinator.hosts.get session.host.id = some session)
    (htook : Took r session.host host) (hr : r.hostID = host.id)
    (hw₁ : w₁.coordinator = setHost w.coordinator session host) :
    Reserved w r { session with host } w₁ where
  books := by
    rw [hw₁]
    exact (Accounted.refl _).take hget (hr.trans htook.id) htook
  registered := by
    rw [hw₁, get_setHost htook.id, if_pos htook.id]
  hostID := hr
  channel stream hstream := by
    rw [hw₁]
    exact hopen _ _ stream hget hstream

theorem Reserved.ends_restore {w₁ : World} {r : Reservation} {session : HostSession}
    (h : Reserved w r session w₁) (clock : ℕ → Time) :
    (restore clock r).Ends IsStoreCall (fun _ w' => Undone w.coordinator w'.coordinator) w₁ := by
  refine (Reservations.ends_restore h.registered h.hostID).mono ?_
  rintro _ w' ⟨host, htook, hw'⟩
  have hgive := h.books.give (List.mem_singleton_self r) h.registered h.hostID htook
  rw [List.erase_cons_head] at hgive
  rw [hw']
  exact hgive.undone

theorem ends_afterSend {initial : Coordinator} {restore : CoordM Unit} {outcome : Sent}
    (hpanicked : outcome ≠ .panicked)
    (hrestore : outcome ≠ .sent → restore.Ends IsStoreCall
      (fun _ w' => Undone initial w'.coordinator) w) (hostID : String) :
    (afterSend hostID restore outcome).Ends IsStoreCall
      (fun result w' => ∀ e, result = .error e → Undone initial w'.coordinator) w := by
  have hthen (e : Err) (hne : outcome ≠ .sent) :
      (restore >>= fun _ => (.throw e : CoordM Unit)).Ends IsStoreCall
        (fun result w' => ∀ e, result = .error e → Undone initial w'.coordinator) w := by
    refine Prog.ends_bind.mpr ((hrestore hne).mono fun result w' hundone => ?_)
    cases result with
    | error e => exact fun _ _ => hundone
    | ok _ => exact Prog.after_ok.mpr (Prog.ends_throw.mpr fun _ _ => hundone)
  cases outcome with
  | sent =>
    refine Prog.ends_pure.mpr ?_
    rintro e ⟨⟩
  | cancelled => exact hthen contextCanceled (by simp)
  | full => exact hthen (channelFull hostID) (by simp)
  | panicked => exact absurd rfl hpanicked

theorem Reserved.ends_handOver {w₁ : World} {r : Reservation} {session : HostSession}
    {restore : CoordM Unit} (h : Reserved w r session w₁) (assignment : Assignment) (done : Bool)
    (hostID : String)
    (hrestore : ∀ w₂, Reserved w r session w₂ → restore.Ends IsStoreCall
      (fun _ w' => Undone w.coordinator w'.coordinator) w₂) :
    (handOver session assignment done >>= afterSend hostID restore).Ends IsStoreCall
      (fun result w' => ∀ e, result = .error e → Undone w.coordinator w'.coordinator) w₁ := by
  refine Prog.ends_bind.mpr (Prog.ends_action.mpr ⟨Prog.after_ok.mpr ?_, fun hF => by cases hF⟩)
  unfold Coordinator.tryHandOver
  split_ifs
  · exact ends_afterSend (by simp) (fun hne => absurd rfl hne) hostID
  · refine ends_afterSend (trySend_ne_panicked h.channel) (fun hne => hrestore _ ?_) hostID
    refine h.of_same ?_ ?_
    · exact congrArg Coordinator.hosts (trySend_of_ne_sent hne)
    · exact congrArg Coordinator.channels (trySend_of_ne_sent hne)

theorem ends_pickHost (clock : ℕ → Time) (order : MapOrder HostSession) (assignment : Assignment) :
    (pickHost clock order assignment).Ends IsStoreCall (fun result w' => TableCall w w' ∧
      ((∃ e, result = .error e ∧ w.coordinator.chooseHost order assignment = none ∧
          w'.coordinator = w.coordinator) ∨
        ∃ session host mode, w.coordinator.chooseHost order assignment = some session ∧
          result = .ok ({ session with host }, mode) ∧
          w'.coordinator = setHost w.coordinator session host ∧
          Took ⟨host.id, assignment.networkPolicy, some (assignment.functionVersionID, mode)⟩
            session.host host)) w := by
  have htable : (pickHost clock order assignment).Ends IsStoreCall (fun _ => TableCall w) w :=
    (Prog.Keeps.mono (onTable_pickHost clock order assignment) fun _ _ _ _ h => h.2).ends_rel
      .refl .trans trivial
  refine htable.and ?_
  refine Prog.ends_bind.mpr (ends_locked ?_)
  cases hchoice : w.coordinator.chooseHost order assignment with
  | none => exact .inl ⟨_, rfl, rfl, rfl⟩
  | some session =>
    refine Prog.after_ok.mpr (ends_saveHost_bind fun w' hw' => Prog.ends_pure.mpr (.inr ?_))
    have htook := took_pickHost session.host assignment.networkPolicy assignment.functionVersionID
    rw [← htook.id] at htook
    exact ⟨session, _, _, rfl, rfl, hw', htook⟩

end Sending

/-! ## The three functions -/

theorem ends_onStore {F : CoordCall → Prop} {α : Type} {Q : Except Err α → World → Prop}
    {p : StoreM α} {w : World} :
    (onStore p).Ends F Q w ↔
      p.Ends (fun l => F (.store l)) (fun r s => Q r { w with store := s }) w.store :=
  Prog.ends_zoom

theorem undone_refl (c : Coordinator) : Undone c c := (Accounted.refl c).undone

section Functions

variable {F : CoordCall → Prop} {w : World}

theorem restoresOnError_startDirectExecution (hopen : ChannelsOpen w.coordinator)
    (clock : ℕ → Time) (order : MapOrder HostSession) (done : Bool) (assignment : Assignment) :
    RestoresOnError IsStoreCall (startDirectExecution clock order done assignment) w := by
  refine Prog.ends_bind.mpr (Prog.ends_result.mpr ((ends_pickHost clock order assignment).mono ?_))
  rintro result w₁ ⟨-, ⟨e, rfl, -, hw₁⟩ | ⟨session, host, mode, hchoice, rfl, hw₁, htook⟩⟩
  · refine Prog.after_ok.mpr (Prog.ends_throw.mpr fun _ _ _ => ?_)
    rw [hw₁]
    exact undone_refl _
  obtain ⟨hget, -⟩ := Coordinator.chooseHost_spec hchoice
  have hreserved := reserved_of_took hopen hget htook rfl hw₁
  refine Prog.after_ok.mpr (Prog.ends_bind.mpr (ends_locked (Prog.after_ok.mpr ?_)))
  have hregistered : Reserved w ⟨host.id, assignment.networkPolicy,
      some (assignment.functionVersionID, mode)⟩ { session with host }
      { w₁ with coordinator.directInvokes :=
        assignment.attemptID :: w₁.coordinator.directInvokes } := hreserved.of_same rfl rfl
  refine (hregistered.ends_handOver assignment done host.id fun w₂ h₂ => ?_).mono
    fun _ _ h e he _ => h e he
  -- the invocation is forgotten before the slot is given back
  refine Prog.ends_bind.mpr (ends_locked (Prog.after_ok.mpr ?_))
  have hforgotten : Reserved w ⟨host.id, assignment.networkPolicy,
      some (assignment.functionVersionID, mode)⟩ { session with host }
      { w₂ with coordinator.directInvokes :=
        w₂.coordinator.directInvokes.filter (· ≠ assignment.attemptID) } := h₂.of_same rfl rfl
  exact hforgotten.ends_restore fun i => clock (i + 3)

theorem ends_pickWarmHost (clock : ℕ → Time) (order : MapOrder HostSession)
    (functionVersionID : String) (policy : NetworkPolicy) :
    (pickWarmHost clock order functionVersionID policy).Ends IsStoreCall (fun result w' =>
      (∃ e, result = .error e ∧ w'.coordinator = w.coordinator) ∨
      (∃ session, result = .ok (session, true)) ∨
      ∃ session host, w.coordinator.hosts.get session.host.id = some session ∧
        result = .ok ({ session with host }, false) ∧
        w'.coordinator = setHost w.coordinator session host ∧
        Took ⟨host.id, policy, none⟩ session.host host) w := by
  refine Prog.ends_bind.mpr (ends_locked ?_)
  dsimp only
  split
  · exact Prog.after_ok.mpr (Prog.ends_pure.mpr (.inr (.inl ⟨_, rfl⟩)))
  · split
    · exact .inl ⟨_, rfl, rfl⟩
    · next session hchoice =>
      obtain ⟨hget, -⟩ := free_of_bestSession hchoice
      refine Prog.after_ok.mpr (ends_saveHost_bind fun w' hw' => Prog.ends_pure.mpr ?_)
      exact .inr (.inr ⟨session, _, hget, rfl, hw', took_takeSlot session.host policy⟩)

/-- A failed preparation is undone. -/
theorem restoresOnError_prepareFunctionWarm (hopen : ChannelsOpen w.coordinator)
    (clock : ℕ → Time) (order : MapOrder HostSession) (done : Bool) (version : FunctionVersion) :
    RestoresOnError IsStoreCall (prepareFunctionWarm clock order done version) w := by
  have hartifact : (onStore (getArtifact version.artifactDigest)).Ends IsStoreCall
      (fun _ w' => w' = w) w :=
    ends_onStore.mpr (Prog.ends_query.mpr ⟨rfl, fun _ _ => rfl⟩)
  refine Prog.ends_bind.mpr (hartifact.mono ?_)
  rintro result _ rfl
  cases result with
  | error e => exact fun _ _ _ => undone_refl _
  | ok artifactMeta =>
    refine Prog.after_ok.mpr (Prog.ends_bind.mpr ((ends_pickWarmHost clock order version.id
      version.networkPolicy).mono ?_))
    rintro _ w₁ (⟨e, rfl, hw₁⟩ | ⟨session, rfl⟩ | ⟨session, host, hget, rfl, hw₁, htook⟩)
    · intro _ _ _
      rw [hw₁]
      exact undone_refl _
    · refine Prog.after_ok.mpr (Prog.ends_pure.mpr ?_)
      rintro e ⟨⟩
    · have hreserved := reserved_of_took hopen hget htook rfl hw₁
      refine Prog.after_ok.mpr ?_
      dsimp only
      split_ifs
      · refine Prog.ends_pure.mpr ?_
        rintro e ⟨⟩
      · refine Prog.ends_bind.mpr (Prog.ends_action.mpr ⟨Prog.after_ok.mpr ?_,
          fun hF => by cases hF⟩)
        refine (ends_afterSend (trySend_ne_panicked hreserved.channel) (fun hne => ?_)
          host.id).mono fun _ _ h e he _ => h e he
        refine Reserved.ends_restore (hreserved.of_same ?_ ?_) fun i => clock (i + 2)
        · exact congrArg Coordinator.hosts (trySend_of_ne_sent hne)
        · exact congrArg Coordinator.channels (trySend_of_ne_sent hne)

/-- The attempt is stored, and the two store calls of `assignExecution` do not fail. -/
structure AttemptReachable (F : CoordCall → Prop) (s : Store) (attemptID : String) : Prop where
  stored : (s.attempts.get attemptID).isSome = true
  read : ¬ F (.store .getAttempt)
  written : ¬ F (.store (.updateAttempt attemptID))

/-- A failed assignment is undone if its attempt can be reached. -/
theorem restoresOnError_assignExecution (hF : ∀ l, F l → IsStoreCall l)
    (hopen : ChannelsOpen w.coordinator) (clock : ℕ → Time) (order : MapOrder HostSession)
    (done : Bool) (assignment : Assignment)
    (h : w.coordinator.chooseHost order assignment = none ∨
      AttemptReachable F w.store assignment.attemptID) :
    RestoresOnError F (assignExecution clock order done assignment) w := by
  refine Prog.ends_bind.mpr (Prog.ends_result.mpr
    (((ends_pickHost clock order assignment).anti hF).mono ?_))
  rintro result w₁ ⟨htable, ⟨e, rfl, -, hw₁⟩ | ⟨session, host, mode, hchoice, rfl, hw₁, htook⟩⟩
  · refine Prog.after_ok.mpr (Prog.ends_throw.mpr fun _ _ _ => ?_)
    rw [hw₁]
    exact undone_refl _
  obtain ⟨hget, -⟩ := Coordinator.chooseHost_spec hchoice
  have hreserved := reserved_of_took hopen hget htook rfl hw₁
  have hreachable : AttemptReachable F w.store assignment.attemptID := by
    refine h.resolve_left ?_
    rw [hchoice]
    simp
  obtain ⟨a, ha⟩ := Option.isSome_iff_exists.mp hreachable.stored
  have ha₁ : w₁.store.attempts.get assignment.attemptID = some a :=
    (htable.view.attempts _).trans ha
  have hid : a.id = assignment.attemptID := Store.attemptID_of_get ha
  refine Prog.after_ok.mpr (Prog.ends_bind.mpr (ends_onStore.mpr (Prog.ends_query.mpr
    ⟨?_, fun hfails => absurd hfails hreachable.read⟩)))
  rw [find_of_get _ ha₁]
  refine Prog.after_ok.mpr (Prog.ends_bind.mpr (ends_onStore.mpr (Prog.ends_modify.mpr
    ⟨Prog.after_ok.mpr ?_, fun hfails => ?_⟩)))
  · have hplaced : Reserved w ⟨host.id, assignment.networkPolicy,
        some (assignment.functionVersionID, mode)⟩ { session with host }
        { w₁ with store := w₁.store.setAttempt (a.placed host.id mode (clock 2)) } :=
      hreserved.of_same rfl rfl
    have hsend := hplaced.ends_handOver assignment done host.id
      fun w₂ h₂ => h₂.ends_restore fun i => clock (i + 3)
    exact (hsend.anti hF).mono fun _ _ h e he _ => h e he
  · rw [Attempt.id_placed, hid] at hfails
    exact absurd hfails hreachable.written

theorem RestoresOnError.attemptReachable (hF : ∀ l, F l → IsStoreCall l) {clock : ℕ → Time}
    {order : MapOrder HostSession} {done : Bool} {assignment : Assignment} {session : HostSession}
    (hchoice : w.coordinator.chooseHost order assignment = some session)
    (h : RestoresOnError F (assignExecution clock order done assignment) w) :
    AttemptReachable F w.store assignment.attemptID := by
  -- one way for `pickHost` to end
  obtain ⟨hcontinue, htable, hpicked⟩ := ((Prog.ends_result.mp (Prog.ends_bind.mp h)).and
    ((ends_pickHost clock order assignment).anti hF)).run
  generalize (pickHost clock order assignment).run w = out at hcontinue htable hpicked
  obtain ⟨result, w₁⟩ := out
  obtain ⟨-, -, hnone, -⟩ | ⟨_, host, mode, hchosen, rfl, hw₁, htook⟩ := hpicked
  · rw [hchoice] at hnone
    cases hnone
  obtain rfl := Option.some.inj (hchoice.symm.trans hchosen)
  obtain ⟨hget, -⟩ := Coordinator.chooseHost_spec hchoice
  -- an error at this point is returned with the slot taken
  have htaken : ¬ Undone w.coordinator w₁.coordinator := by
    rw [hw₁]
    exact htook.not_undone hget
  have hread := Prog.ends_query.mp (ends_onStore.mp (Prog.ends_bind.mp
    (Prog.after_ok.mp hcontinue)))
  have hstored : ∃ a, w.store.attempts.get assignment.attemptID = some a := by
    cases ha : w.store.attempts.get assignment.attemptID with
    | some a => exact ⟨a, rfl⟩
    | none =>
      have hmissing := hread.1
      rw [find_of_get_none _ ((htable.view.attempts _).trans ha)] at hmissing
      exact absurd (hmissing _ rfl htable.handed) htaken
  obtain ⟨a, ha⟩ := hstored
  refine ⟨by rw [ha]; rfl, fun hfails => ?_, fun hfails => ?_⟩
  · exact htaken (hread.2 hfails (.other "") _ rfl htable.handed)
  · have hwrite := hread.1
    rw [find_of_get _ ((htable.view.attempts _).trans ha)] at hwrite
    have hid : a.id = assignment.attemptID := Store.attemptID_of_get ha
    rw [← hid] at hfails
    have hwritten := Prog.ends_modify.mp (ends_onStore.mp (Prog.ends_bind.mp
      (Prog.after_ok.mp hwrite)))
    exact htaken (hwritten.2 hfails (.other "") _ rfl htable.handed)

end Functions

/-! ## The result -/

/-- **A failed hand-over restores the reservation** in `ExecuteDirectStream` and in
`PrepareFunctionWarm`, whatever calls to the store fail and whatever the channel does. In
`assignExecution` it does so if and only if no host is free, or the attempt is stored and can be
read and written. -/
theorem failed_handOver_restores_iff {F : CoordCall → Prop} {w : World}
    (hF : ∀ l, F l → IsStoreCall l) (hopen : ChannelsOpen w.coordinator) (clock : ℕ → Time)
    (order : MapOrder HostSession) (done : Bool) (assignment : Assignment) :
    (RestoresOnError F (assignExecution clock order done assignment) w ↔
      w.coordinator.chooseHost order assignment = none ∨
        AttemptReachable F w.store assignment.attemptID) ∧
    RestoresOnError F (startDirectExecution clock order done assignment) w ∧
    ∀ version, RestoresOnError F (prepareFunctionWarm clock order done version) w := by
  refine ⟨⟨fun h => ?_, restoresOnError_assignExecution hF hopen clock order done assignment⟩,
    (restoresOnError_startDirectExecution hopen clock order done assignment).anti hF,
    fun version => (restoresOnError_prepareFunctionWarm hopen clock order done version).anti hF⟩
  cases hchoice : w.coordinator.chooseHost order assignment with
  | none => exact .inl rfl
  | some session => exact .inr (h.attemptReachable hF hchoice)

namespace Sample

theorem channelsOpen : ChannelsOpen world.coordinator := by
  intro id session' stream hget hstream
  obtain rfl : session' = session := List.mem_singleton.mp (Table.mem_values_of_get hget)
  cases hstream

theorem chooseHost_eq : world.coordinator.chooseHost .table assignment = some session := rfl

/-- The host is behind a stream whose buffer is full. -/
def full : World :=
  { world with
    coordinator.hosts := Table.empty.put
      { session with sendCh := some 0, executor := false, preparer := false }
    coordinator.channels := fun _ =>
      { buffer := .replicate sendChCapacity (.drain "host" "") } }

end Sample

open Sample in
theorem failed_handOver_restores_sample :
    let out := (startDirectExecution (fun _ => 1) .table false assignment).run full
    (∃ e, out.1 = .error e) ∧ out.2.handed = [] ∧
      Undone full.coordinator out.2.coordinator := by
  intro out
  obtain ⟨e, he⟩ : ∃ e, out.1 = .error e := ⟨_, rfl⟩
  have hhanded : out.2.handed = full.handed := rfl
  have hrestores := (failed_handOver_restores_iff (F := fun _ => False) (w := full)
    (fun _ h => h.elim) (fun _ _ _ _ _ => rfl) (fun _ => 1) .table false assignment).2.1.run
  exact ⟨⟨e, he⟩, hhanded, hrestores e he hhanded⟩

open Sample in
/-- The attempt of the assignment is not stored: `assignExecution` returns the error of
`GetAttempt`, and the slot and the blank instance that it has reserved stay taken. -/
theorem not_failed_handOver_restores :
    ¬ ∀ (F : CoordCall → Prop) (w : World) (clock : ℕ → Time) (order : MapOrder HostSession)
      (done : Bool) (assignment : Assignment), (∀ l, F l → IsStoreCall l) →
      ChannelsOpen w.coordinator →
      RestoresOnError F (assignExecution clock order done assignment) w := by
  intro h
  have hrestores := h (fun _ => False) world (fun _ => 1) .table false assignment
    (fun _ hfails => hfails.elim) channelsOpen
  have hstored := (hrestores.attemptReachable (fun _ hfails => hfails.elim) chooseHost_eq).stored
  cases hstored

end Lecrev.Reservations

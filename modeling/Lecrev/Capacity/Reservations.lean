import Lecrev.Concurrency.Sequential
import Lecrev.Concurrency.Transition
import Lecrev.Coordinator.Hosts

/-!
# Reservation accounting

A coordinator reserves a slot of a host before it hands work to it (`pickHost` for an execution,
`pickWarmHost` for a preparation) and gives the slot back when the hand-over fails
(`restoreHostReservation`, `restorePreparationReservation`). Each of these functions changes up to
four counters of one host, and which ones depends on the start mode that `classifyStartMode` read
from the counters before.

A `Reservation` is what a pick returned: the host, the network policy, and for an execution the
version and the start mode. `Took r host host'` says that `host'` is `host` without what `r` takes;
a pick goes from `host` to `host'` and the restore of `r` goes back (`took_pickHost`,
`took_restoreHost`). So the books of one host (`Balanced`) are kept by one argument for both
directions, and `reservations_accounted` states them for every sequence of picks and restores, in
which the store calls may fail and every iteration over the table may take any order.
-/

namespace Lecrev.Reservations

/-! ## Reservations -/

/-- What a pick reserved. -/
structure Reservation where
  hostID : String
  policy : NetworkPolicy
  /-- The version and the start mode of an execution; none for a preparation. -/
  execution : Option (String × StartMode)
  deriving DecidableEq, Repr

/-- The reservation holds a blank instance. -/
def Reservation.isBlankWarm (r : Reservation) : Bool :=
  r.execution.any fun execution => execution.2 == .blankWarm

/-- The reservation holds an instance of the version. -/
def Reservation.isFunctionWarm (r : Reservation) (functionVersionID : String) : Bool :=
  r.execution.any fun execution =>
    execution.1 == functionVersionID && execution.2 == .functionWarm

/-- The number of reservations of a host that satisfy `p`. -/
def held (outstanding : List Reservation) (hostID : String) (p : Reservation → Bool) : ℤ :=
  outstanding.countP fun r => r.hostID == hostID && p r

/-- The books of one host: its counters are the initial ones without what is held. -/
structure Balanced (outstanding : List Reservation) (initial host : Host) : Prop where
  state : host.state = initial.state
  availableSlots :
    host.availableSlots = initial.availableSlots - held outstanding initial.id fun _ => true
  availableFullNetworkSlots : host.availableFullNetworkSlots =
    initial.availableFullNetworkSlots - held outstanding initial.id (·.policy == .full)
  blankWarm : host.blankWarm = initial.blankWarm - held outstanding initial.id (·.isBlankWarm)
  functionWarm : ∀ functionVersionID, host.warmFor functionVersionID =
    initial.warmFor functionVersionID -
      held outstanding initial.id (·.isFunctionWarm functionVersionID)

/-- The books of all hosts: the same hosts are registered, and each is balanced. -/
structure Accounted (initial : Coordinator) (outstanding : List Reservation) (c : Coordinator) :
    Prop where
  present : ∀ id, (c.hosts.get id).isSome = (initial.hosts.get id).isSome
  balanced : ∀ id before session, initial.hosts.get id = some before →
    c.hosts.get id = some session → Balanced outstanding before.host session.host

/-- No counter of the host is negative. -/
structure NonNegative (host : Host) : Prop where
  availableSlots : 0 ≤ host.availableSlots
  availableFullNetworkSlots : 0 ≤ host.availableFullNetworkSlots
  blankWarm : 0 ≤ host.blankWarm
  functionWarm : ∀ functionVersionID, 0 ≤ host.warmFor functionVersionID

/-- No counter of a registered host is negative. -/
def AllNonNegative (c : Coordinator) : Prop :=
  ∀ id session, c.hosts.get id = some session → NonNegative session.host

/-- The host is active and has a free slot, and a free full-network slot if one is needed. -/
def Free (host : Host) (policy : NetworkPolicy) : Prop :=
  host.state = .active ∧ 0 < host.availableSlots ∧
    (policy = .full → 0 < host.availableFullNetworkSlots)

variable {policy : NetworkPolicy} {host : Host}

theorem hasSlot_iff_free :
    host.hasSlot policy = true ↔ Free host policy := by
  unfold Host.hasSlot Free
  cases policy <;> simp [and_assoc]

/-! ## What a reservation takes from a host -/

/-- `host'` is `host` without what the reservation takes. -/
structure Took (r : Reservation) (host host' : Host) : Prop where
  id : host'.id = host.id
  state : host'.state = host.state
  availableSlots : host.availableSlots = host'.availableSlots + 1
  availableFullNetworkSlots : host.availableFullNetworkSlots =
    host'.availableFullNetworkSlots + (if r.policy == .full then 1 else 0)
  blankWarm : host.blankWarm = host'.blankWarm + (if r.isBlankWarm then 1 else 0)
  functionWarm : ∀ functionVersionID, host.warmFor functionVersionID =
    host'.warmFor functionVersionID + (if r.isFunctionWarm functionVersionID then 1 else 0)

theorem fullNetworkSlots_eq (policy : NetworkPolicy) :
    fullNetworkSlots policy = if policy == .full then 1 else 0 := by
  cases policy <;> rfl

theorem warmFor_insert (host : Host) (functionVersionID : String) (count : ℤ) (v : String) :
    Host.warmFor { host with functionWarm := host.functionWarm.insert functionVersionID count } v =
      if v = functionVersionID then count else host.warmFor v := by
  unfold Host.warmFor
  split_ifs with h
  · rw [h, AList.lookup_insert, Option.getD_some]
  · rw [AList.lookup_insert_ne h]

theorem took_takeSlot (host : Host) (policy : NetworkPolicy) :
    Took ⟨host.id, policy, none⟩ host (host.takeSlot policy) where
  id := rfl
  state := rfl
  availableSlots := (sub_add_cancel _ _).symm
  availableFullNetworkSlots := by
    rw [← fullNetworkSlots_eq]
    exact (sub_add_cancel _ _).symm
  blankWarm := (add_zero _).symm
  functionWarm _ := (add_zero _).symm

theorem took_giveSlot (host : Host) (hostID : String) (policy : NetworkPolicy) :
    Took ⟨hostID, policy, none⟩ (host.giveSlot policy) host where
  id := rfl
  state := rfl
  availableSlots := rfl
  availableFullNetworkSlots := by
    rw [← fullNetworkSlots_eq]
    rfl
  blankWarm := (add_zero _).symm
  functionWarm _ := (add_zero _).symm

theorem Took.warm {slotless host' : Host} {hostID : String}
    {functionVersionID : String} {mode : StartMode} (h : Took ⟨hostID, policy, none⟩ host slotless)
    (hid : host'.id = slotless.id) (hstate : host'.state = slotless.state)
    (hslots : slotless.availableSlots = host'.availableSlots)
    (hfull : slotless.availableFullNetworkSlots = host'.availableFullNetworkSlots)
    (hblank : slotless.blankWarm = host'.blankWarm + (if mode = .blankWarm then 1 else 0))
    (hwarm : ∀ v, slotless.warmFor v = host'.warmFor v +
      (if functionVersionID = v ∧ mode = .functionWarm then 1 else 0)) :
    Took ⟨hostID, policy, some (functionVersionID, mode)⟩ host host' where
  id := hid.trans h.id
  state := hstate.trans h.state
  availableSlots := hslots ▸ h.availableSlots
  availableFullNetworkSlots := hfull ▸ h.availableFullNetworkSlots
  blankWarm := by
    rw [h.blankWarm, hblank]
    cases mode <;> simp [Reservation.isBlankWarm]
  functionWarm v := by
    rw [h.functionWarm, hwarm]
    cases mode <;> simp [Reservation.isFunctionWarm]

theorem took_pickHost (host : Host) (policy : NetworkPolicy) (functionVersionID : String) :
    Took ⟨host.id, policy, some (functionVersionID, classifyStartMode host functionVersionID)⟩ host
      ((host.takeSlot policy).takeWarm functionVersionID
        (classifyStartMode host functionVersionID)) := by
  have hslot := took_takeSlot host policy
  unfold classifyStartMode
  split_ifs with hwarm hblank
  · -- an instance of the version is there, and its count goes down
    have hwarm' : (host.takeSlot policy).warmFor functionVersionID > 0 := hwarm
    rw [Host.takeWarm, if_pos hwarm']
    refine hslot.warm rfl rfl rfl rfl (add_zero _).symm fun v => ?_
    rw [warmFor_insert]
    by_cases hv : functionVersionID = v
    · subst hv
      simp
    · rw [if_neg (Ne.symm hv), if_neg fun h => hv h.1, add_zero]
  · have hblank' : (host.takeSlot policy).blankWarm > 0 := hblank
    rw [Host.takeWarm, if_pos hblank']
    refine hslot.warm rfl rfl rfl rfl (sub_add_cancel _ _).symm fun v => ?_
    rw [if_neg (by simp), add_zero]
    rfl
  · exact hslot.warm rfl rfl rfl rfl (add_zero _).symm fun v => by simp [Host.takeWarm]

theorem took_restoreHost (host : Host) (hostID : String) (policy : NetworkPolicy)
    (functionVersionID : String) (mode : StartMode) :
    Took ⟨hostID, policy, some (functionVersionID, mode)⟩
      ((host.giveSlot policy).giveWarm functionVersionID mode) host := by
  have hslot := took_giveSlot host hostID policy
  cases mode with
  | functionWarm =>
    refine ⟨hslot.id, hslot.state, hslot.availableSlots, hslot.availableFullNetworkSlots,
      hslot.blankWarm, fun v => ?_⟩
    rw [Host.giveWarm, warmFor_insert]
    by_cases hv : functionVersionID = v
    · subst hv
      simp [Reservation.isFunctionWarm, Host.warmFor, Host.giveSlot]
    · simp [Reservation.isFunctionWarm, Host.warmFor, Host.giveSlot, hv, Ne.symm hv]
  | blankWarm =>
    refine ⟨hslot.id, hslot.state, hslot.availableSlots, hslot.availableFullNetworkSlots,
      rfl, fun v => ?_⟩
    simp [Reservation.isFunctionWarm, Host.warmFor, Host.giveSlot, Host.giveWarm]
  | unset | cold =>
    refine ⟨hslot.id, hslot.state, hslot.availableSlots, hslot.availableFullNetworkSlots,
      hslot.blankWarm, fun v => ?_⟩
    simp [Reservation.isFunctionWarm, Host.warmFor, Host.giveSlot, Host.giveWarm]

/-! ## The books -/

section Books

variable {r : Reservation} {outstanding outstanding' : List Reservation} {initial host' : Host}

theorem held_cons (r : Reservation) (outstanding : List Reservation) (hostID : String)
    (p : Reservation → Bool) : held (r :: outstanding) hostID p =
      held outstanding hostID p + if r.hostID == hostID && p r then 1 else 0 := by
  rw [held, List.countP_cons, held]
  push_cast
  rfl

theorem held_cons_of_eq {hostID : String} (h : r.hostID = hostID) (p : Reservation → Bool) :
    held (r :: outstanding) hostID p = held outstanding hostID p + if p r then 1 else 0 := by
  simp [held_cons, h]

theorem held_cons_of_ne {hostID : String} (h : r.hostID ≠ hostID) (p : Reservation → Bool) :
    held (r :: outstanding) hostID p = held outstanding hostID p := by
  simp [held_cons, h]

theorem held_of_perm (h : outstanding.Perm outstanding') (hostID : String)
    (p : Reservation → Bool) : held outstanding hostID p = held outstanding' hostID p := by
  rw [held, h.countP_eq, held]

theorem Balanced.of_perm (h : Balanced outstanding initial host)
    (hperm : outstanding.Perm outstanding') : Balanced outstanding' initial host where
  state := h.state
  availableSlots := held_of_perm hperm _ _ ▸ h.availableSlots
  availableFullNetworkSlots := held_of_perm hperm _ _ ▸ h.availableFullNetworkSlots
  blankWarm := held_of_perm hperm _ _ ▸ h.blankWarm
  functionWarm v := held_of_perm hperm _ _ ▸ h.functionWarm v

theorem balanced_cons_of_ne (h : r.hostID ≠ initial.id) :
    Balanced (r :: outstanding) initial host ↔ Balanced outstanding initial host := by
  constructor <;> rintro ⟨hstate, hslots, hfull, hblank, hwarm⟩
  · simp only [held_cons_of_ne h] at hslots hfull hblank hwarm
    exact ⟨hstate, hslots, hfull, hblank, hwarm⟩
  · refine ⟨hstate, ?_, ?_, ?_, fun v => ?_⟩ <;> rw [held_cons_of_ne h]
    · exact hslots
    · exact hfull
    · exact hblank
    · exact hwarm v

/-- A reservation balances what it took. -/
theorem Took.balanced_iff (h : Took r host host') (hid : r.hostID = initial.id) :
    Balanced (r :: outstanding) initial host' ↔ Balanced outstanding initial host := by
  have hslots := h.availableSlots
  have hfull := h.availableFullNetworkSlots
  have hblank := h.blankWarm
  constructor <;> intro hb
  · have hbslots := hb.availableSlots
    have hbfull := hb.availableFullNetworkSlots
    have hbblank := hb.blankWarm
    rw [held_cons_of_eq hid] at hbslots hbfull hbblank
    refine ⟨h.state ▸ hb.state, ?_, ?_, ?_, fun v => ?_⟩
    · rw [if_pos rfl] at hbslots
      omega
    · omega
    · omega
    · have hwarm := h.functionWarm v
      have hbwarm := hb.functionWarm v
      rw [held_cons_of_eq hid] at hbwarm
      omega
  · have hbslots := hb.availableSlots
    have hbfull := hb.availableFullNetworkSlots
    have hbblank := hb.blankWarm
    refine ⟨h.state.trans hb.state, ?_, ?_, ?_, fun v => ?_⟩ <;> rw [held_cons_of_eq hid]
    · rw [if_pos rfl]
      omega
    · omega
    · omega
    · have hwarm := h.functionWarm v
      have hbwarm := hb.functionWarm v
      omega

end Books

/-- Another host record for a registered session. -/
abbrev setHost (c : Coordinator) (session : HostSession) (host : Host) : Coordinator :=
  { c with hosts := c.hosts.put { session with host } }

section Table

variable {r : Reservation} {outstanding : List Reservation} {initial c : Coordinator}
  {session : HostSession}

theorem get_setHost (hid : host.id = session.host.id) (id : String) :
    (setHost c session host).hosts.get id =
      if id = session.host.id then some { session with host } else c.hosts.get id := by
  have hkey : Keyed.key { session with host := host } = session.host.id := hid
  rw [Table.get_put, hkey]

theorem Accounted.setHost {outstanding' : List Reservation}
    (h : Accounted initial outstanding c) (hget : c.hosts.get session.host.id = some session)
    (hid : host.id = session.host.id)
    (hother : ∀ i k : Host, i.id ≠ session.host.id → Balanced outstanding i k →
      Balanced outstanding' i k)
    (hhost : ∀ i : Host, i.id = session.host.id → Balanced outstanding i session.host →
      Balanced outstanding' i host) :
    Accounted initial outstanding' (setHost c session host) where
  present id := by
    rw [get_setHost hid, ← h.present id]
    split_ifs with heq
    · rw [heq, hget, Option.isSome_some, Option.isSome_some]
    · rfl
  balanced id before session' hbefore hsession' := by
    have hbeforeID : before.host.id = id := Table.key_of_get hbefore
    rw [get_setHost hid] at hsession'
    split_ifs at hsession' with heq
    · obtain rfl := Option.some.inj hsession'
      exact hhost _ (hbeforeID.trans heq) (h.balanced id before session hbefore (heq ▸ hget))
    · exact hother _ _ (hbeforeID ▸ heq) (h.balanced id before session' hbefore hsession')

theorem Accounted.refl (c : Coordinator) : Accounted c [] c where
  present _ := rfl
  balanced id before session hbefore hsession := by
    obtain rfl := Option.some.inj (hbefore.symm.trans hsession)
    exact ⟨rfl, (sub_zero _).symm, (sub_zero _).symm, (sub_zero _).symm, fun _ => (sub_zero _).symm⟩

theorem Accounted.of_hosts {c' : Coordinator} (h : Accounted initial outstanding c)
    (hhosts : c'.hosts = c.hosts) : Accounted initial outstanding c' where
  present id := by rw [hhosts, h.present]
  balanced id before session hbefore hsession := by
    rw [hhosts] at hsession
    exact h.balanced id before session hbefore hsession

theorem Accounted.take (h : Accounted initial outstanding c)
    (hget : c.hosts.get session.host.id = some session) (hr : r.hostID = session.host.id)
    (htook : Took r session.host host) :
    Accounted initial (r :: outstanding) (Reservations.setHost c session host) :=
  h.setHost hget htook.id
    (fun _ _ hne hb => (balanced_cons_of_ne fun heq => hne (heq.symm.trans hr)).mpr hb)
    (fun _ heq hb => (htook.balanced_iff (hr.trans heq.symm)).mpr hb)

theorem Accounted.give (h : Accounted initial outstanding c) (hmem : r ∈ outstanding)
    (hget : c.hosts.get session.host.id = some session) (hr : r.hostID = session.host.id)
    (htook : Took r host session.host) :
    Accounted initial (outstanding.erase r) (Reservations.setHost c session host) := by
  have hperm := List.perm_cons_erase hmem
  refine h.setHost hget htook.id.symm (fun _ _ hne hb => ?_) (fun _ heq hb => ?_)
  · exact (balanced_cons_of_ne fun heq => hne (heq.symm.trans hr)).mp (hb.of_perm hperm)
  · exact (htook.balanced_iff (hr.trans heq.symm)).mp (hb.of_perm hperm)

end Table

/-! ## Counters stay non-negative -/

/-- The host has what the reservation takes. -/
structure Affords (r : Reservation) (host : Host) : Prop where
  availableSlots : 0 < host.availableSlots
  availableFullNetworkSlots : r.policy = .full → 0 < host.availableFullNetworkSlots
  blankWarm : r.isBlankWarm = true → 0 < host.blankWarm
  functionWarm : ∀ v, r.isFunctionWarm v = true → 0 < host.warmFor v

theorem NonNegative.take {r : Reservation} {host' : Host} (h : NonNegative host)
    (hafford : Affords r host) (htook : Took r host host') : NonNegative host' := by
  have hslots := hafford.availableSlots
  have hslots' := htook.availableSlots
  have hfull' := htook.availableFullNetworkSlots
  have hblank' := htook.blankWarm
  refine ⟨by omega, ?_, ?_, fun v => ?_⟩
  · split_ifs at hfull' with hpolicy
    · have := hafford.availableFullNetworkSlots (eq_of_beq hpolicy)
      omega
    · have := h.availableFullNetworkSlots
      omega
  · split_ifs at hblank' with hmode
    · have := hafford.blankWarm hmode
      omega
    · have := h.blankWarm
      omega
  · have hwarm' := htook.functionWarm v
    split_ifs at hwarm' with hmode
    · have := hafford.functionWarm v hmode
      omega
    · have := h.functionWarm v
      omega

theorem NonNegative.give {r : Reservation} {host' : Host} (h : NonNegative host')
    (htook : Took r host host') : NonNegative host where
  availableSlots := by
    have := h.availableSlots
    have := htook.availableSlots
    omega
  availableFullNetworkSlots := by
    have := h.availableFullNetworkSlots
    rw [htook.availableFullNetworkSlots]
    split_ifs <;> omega
  blankWarm := by
    have := h.blankWarm
    rw [htook.blankWarm]
    split_ifs <;> omega
  functionWarm v := by
    have := h.functionWarm v
    rw [htook.functionWarm v]
    split_ifs <;> omega

theorem affords_pickHost (hfree : Free host policy) (hostID functionVersionID : String) :
    Affords ⟨hostID, policy, some (functionVersionID, classifyStartMode host functionVersionID)⟩
      host where
  availableSlots := hfree.2.1
  availableFullNetworkSlots := hfree.2.2
  blankWarm hmode := by
    unfold classifyStartMode at hmode
    split_ifs at hmode with hwarm hblank
    · simp [Reservation.isBlankWarm] at hmode
    · exact hblank
    · simp [Reservation.isBlankWarm] at hmode
  functionWarm v hmode := by
    unfold classifyStartMode at hmode
    split_ifs at hmode with hwarm hblank
    · simp only [Reservation.isFunctionWarm, Option.any_some, beq_self_eq_true, Bool.and_true,
        beq_iff_eq] at hmode
      exact hmode ▸ hwarm
    · simp [Reservation.isFunctionWarm] at hmode
    · simp [Reservation.isFunctionWarm] at hmode

theorem affords_pickWarmHost (hfree : Free host policy) (hostID : String) :
    Affords ⟨hostID, policy, none⟩ host where
  availableSlots := hfree.2.1
  availableFullNetworkSlots := hfree.2.2
  blankWarm hmode := by cases hmode
  functionWarm _ hmode := by cases hmode

theorem AllNonNegative.setHost {c : Coordinator} {session : HostSession} (h : AllNonNegative c)
    (hid : host.id = session.host.id) (hhost : NonNegative host) :
    AllNonNegative (setHost c session host) := by
  intro id session' hget
  rw [get_setHost hid] at hget
  split_ifs at hget
  · obtain rfl := Option.some.inj hget
    exact hhost
  · exact h id session' hget

/-! ## The four functions -/

/-- The call goes to the store. -/
def isStoreCall : CoordCall → Bool
  | .store _ => true
  | _ => false

/-- The calls that may fail. -/
abbrev IsStoreCall (l : CoordCall) : Prop := isStoreCall l = true

section Functions

variable {w : World}

theorem ends_locked {α : Type} {f : Coordinator → Except Err α × Coordinator}
    {Q : Except Err α → World → Prop}
    (h : Q (f w.coordinator).1 { w with coordinator := (f w.coordinator).2 }) :
    (locked f).Ends IsStoreCall Q w :=
  Prog.ends_action.mpr ⟨h, fun hstore => by cases hstore⟩

theorem ends_tryStore (p : StoreM Unit) : (tryStore p).Ends IsStoreCall
    (fun r w' => r = .ok () ∧ w'.coordinator = w.coordinator) w := by
  have hkeeps : (onStore p).Keeps (fun _ => True) fun _ w w' => w'.coordinator = w.coordinator :=
    (Prog.keeps_true p).zoom fun _ _ _ _ _ => ⟨trivial, rfl⟩
  have hends : (onStore p).Ends IsStoreCall (fun _ w' => w'.coordinator = w.coordinator) w :=
    hkeeps.ends_rel (R := fun w w' : World => w'.coordinator = w.coordinator) (fun _ => rfl)
      (fun hst htu => htu.trans hst) trivial
  refine Prog.ends_bind.mpr (Prog.ends_result.mpr (hends.mono fun _ _ h => ?_))
  exact Prog.after_ok.mpr (Prog.ends_pure.mpr ⟨rfl, h⟩)

theorem ends_saveHost (host : Host) (pools : List WarmPool) (region : Region) :
    (saveHost host pools region).Ends IsStoreCall
      (fun r w' => r = .ok () ∧ w'.coordinator = w.coordinator) w := by
  refine Prog.ends_bind.mpr ((ends_tryStore _).mono ?_)
  rintro _ w₁ ⟨rfl, h₁⟩
  refine Prog.after_ok.mpr (Prog.ends_bind.mpr ((ends_tryStore _).mono ?_))
  rintro _ w₂ ⟨rfl, h₂⟩
  refine Prog.after_ok.mpr ((ends_tryStore _).mono ?_)
  rintro _ w₃ ⟨rfl, h₃⟩
  exact ⟨rfl, h₃.trans (h₂.trans h₁)⟩

theorem ends_saveHost_bind {α : Type} {pools : List WarmPool} {region : Region}
    {f : Unit → CoordM α} {Q : Except Err α → World → Prop}
    (h : ∀ w' : World, w'.coordinator = w.coordinator → (f ()).Ends IsStoreCall Q w') :
    (saveHost host pools region >>= f).Ends IsStoreCall Q w := by
  refine Prog.ends_bind.mpr ((ends_saveHost _ _ _).mono ?_)
  rintro _ w' ⟨rfl, hw'⟩
  exact Prog.after_ok.mpr (h w' hw')

/-- What a function did to the table, with the reservation it returned. -/
inductive Picked (c : Coordinator) (policy : NetworkPolicy) :
    Except Err (Option Reservation) → Coordinator → Prop
  /-- No host is free. -/
  | refused (e : Err)
      (h : ∀ id session, c.hosts.get id = some session → ¬ Free session.host policy) :
    Picked c policy (.error e) c
  /-- A host is warm already, and nothing is reserved. -/
  | alreadyWarm : Picked c policy (.ok none) c
  /-- A free host gave what it could afford. -/
  | took (r : Reservation) (session : HostSession) (host : Host)
      (hget : c.hosts.get session.host.id = some session) (hfree : Free session.host policy)
      (hr : r.hostID = session.host.id) (hafford : Affords r session.host)
      (htook : Took r session.host host) : Picked c policy (.ok (some r)) (setHost c session host)

theorem not_free_of_bestSession {c : Coordinator} {order : MapOrder HostSession}
    {score : Host → ℤ}
    (h : bestSession score ((order.toFun c.hosts.values).filter (·.host.hasSlot policy)) = none)
    (id : String) (session : HostSession) (hget : c.hosts.get id = some session) :
    ¬ Free session.host policy := by
  intro hfree
  have hmem : session ∈ (order.toFun c.hosts.values).filter (·.host.hasSlot policy) :=
    List.mem_filter.mpr ⟨(order.perm _).mem_iff.mpr (Table.mem_values_of_get hget),
      hasSlot_iff_free.mpr hfree⟩
  have hsorted := List.head?_eq_none_iff.mp h
  rw [← List.mem_insertionSort (r := fun a b : HostSession => score b.host ≤ score a.host),
    hsorted] at hmem
  cases hmem

theorem free_of_bestSession {c : Coordinator} {order : MapOrder HostSession}
    {score : Host → ℤ} {session : HostSession}
    (h : bestSession score ((order.toFun c.hosts.values).filter (·.host.hasSlot policy)) =
      some session) :
    c.hosts.get session.host.id = some session ∧ Free session.host policy := by
  have hmem := List.mem_filter.mp (mem_of_bestSession h)
  exact ⟨Coordinator.get_of_mem hmem.1, hasSlot_iff_free.mp hmem.2⟩

/-- `pickHost`, with its answer read as a reservation. -/
def pickExecution (clock : ℕ → Time) (order : MapOrder HostSession) (assignment : Assignment) :
    CoordM (Option Reservation) := do
  let (session, mode) ← pickHost clock order assignment
  pure (some ⟨session.host.id, assignment.networkPolicy,
    some (assignment.functionVersionID, mode)⟩)

/-- `pickWarmHost`, with its answer read as a reservation. -/
def pickPreparation (clock : ℕ → Time) (order : MapOrder HostSession) (functionVersionID : String)
    (policy : NetworkPolicy) : CoordM (Option Reservation) := do
  let (session, alreadyWarm) ← pickWarmHost clock order functionVersionID policy
  pure (if alreadyWarm then none else some ⟨session.host.id, policy, none⟩)

/-- What the coordinator does to give a reservation back. -/
def restore (clock : ℕ → Time) (r : Reservation) : CoordM Unit :=
  match r.execution with
  | some (functionVersionID, mode) =>
    restoreHostReservation clock r.hostID functionVersionID mode r.policy
  | none => restorePreparationReservation clock r.hostID r.policy

theorem ends_pickExecution (clock : ℕ → Time) (order : MapOrder HostSession)
    (assignment : Assignment) : (pickExecution clock order assignment).Ends IsStoreCall
      (fun r w' => Picked w.coordinator assignment.networkPolicy r w'.coordinator) w := by
  refine Prog.ends_bind.mpr (Prog.ends_bind.mpr (ends_locked ?_))
  cases hchoice : w.coordinator.chooseHost order assignment with
  | none => exact .refused _ (not_free_of_bestSession hchoice)
  | some session =>
    obtain ⟨hget, hfree⟩ := free_of_bestSession hchoice
    refine Prog.after_ok.mpr (ends_saveHost_bind fun w' hw' => Prog.ends_pure.mpr ?_)
    refine Prog.after_ok.mpr (Prog.ends_pure.mpr ?_)
    dsimp only
    rw [hw']
    have htook := took_pickHost session.host assignment.networkPolicy assignment.functionVersionID
    rw [htook.id]
    exact .took _ session _ hget hfree rfl (affords_pickHost hfree _ _) htook

theorem ends_pickPreparation (clock : ℕ → Time) (order : MapOrder HostSession)
    (functionVersionID : String) (policy : NetworkPolicy) :
    (pickPreparation clock order functionVersionID policy).Ends IsStoreCall
      (fun r w' => Picked w.coordinator policy r w'.coordinator) w := by
  refine Prog.ends_bind.mpr (Prog.ends_bind.mpr (ends_locked ?_))
  dsimp only
  split
  · exact Prog.after_ok.mpr
      (Prog.ends_pure.mpr (Prog.after_ok.mpr (Prog.ends_pure.mpr .alreadyWarm)))
  · split
    · next hchoice => exact .refused _ (not_free_of_bestSession hchoice)
    · next session hchoice =>
      obtain ⟨hget, hfree⟩ := free_of_bestSession hchoice
      refine Prog.after_ok.mpr (ends_saveHost_bind fun w' hw' => Prog.ends_pure.mpr ?_)
      refine Prog.after_ok.mpr (Prog.ends_pure.mpr ?_)
      dsimp only
      rw [hw']
      exact .took _ session _ hget hfree rfl (affords_pickWarmHost hfree _)
        (took_takeSlot session.host policy)

theorem ends_changeHost (clock : ℕ → Time) {session : HostSession} (change : Host → Host)
    (hget : w.coordinator.hosts.get session.host.id = some session) :
    (changeHost clock session.host.id change).Ends IsStoreCall
      (fun _ w' => w'.coordinator = setHost w.coordinator session (change session.host)) w := by
  refine Prog.ends_bind.mpr (ends_locked ?_)
  rw [hget]
  exact Prog.after_ok.mpr ((ends_saveHost _ _ _).mono fun _ _ h => h.2)

theorem ends_restore {clock : ℕ → Time} {session : HostSession} {r : Reservation}
    (hget : w.coordinator.hosts.get session.host.id = some session)
    (hr : r.hostID = session.host.id) : (restore clock r).Ends IsStoreCall (fun _ w' => ∃ host,
      Took r host session.host ∧ w'.coordinator = setHost w.coordinator session host) w := by
  obtain ⟨hostID, policy, execution⟩ := r
  obtain rfl : hostID = session.host.id := hr
  cases execution with
  | none =>
    refine (ends_changeHost clock (·.giveSlot policy) hget).mono fun _ _ h => ?_
    exact ⟨_, took_giveSlot session.host _ policy, h⟩
  | some execution =>
    refine (ends_changeHost clock (fun host => (host.giveSlot policy).giveWarm execution.1
      execution.2) hget).mono fun _ _ h => ?_
    exact ⟨_, took_restoreHost session.host _ policy execution.1 execution.2, h⟩

end Functions

/-! ## Sequences of picks and restores -/

/-- A coordinator with the reservations that have not been restored. -/
structure Ledger where
  world : World
  outstanding : List Reservation

/-- The call of one of the four functions. -/
inductive Event
  | pickHost (clock : ℕ → Time) (order : MapOrder HostSession) (assignment : Assignment)
  | pickWarmHost (clock : ℕ → Time) (order : MapOrder HostSession) (functionVersionID : String)
    (policy : NetworkPolicy)
  | restore (clock : ℕ → Time) (r : Reservation)

/-- The program of an event. -/
def Event.program : Event → CoordM (Option Reservation)
  | .pickHost clock order assignment => pickExecution clock order assignment
  | .pickWarmHost clock order functionVersionID policy =>
    pickPreparation clock order functionVersionID policy
  | .restore clock r => do
    Reservations.restore clock r
    pure none

/-- The outstanding reservations after a pick with the given result. -/
def enterPick (outstanding : List Reservation) :
    Except Err (Option Reservation) → List Reservation
  | .ok (some r) => r :: outstanding
  | _ => outstanding

/-- The outstanding reservations after an event with the given result. -/
def Event.enter (outstanding : List Reservation) (event : Event)
    (result : Except Err (Option Reservation)) : List Reservation :=
  match event with
  | .restore _ r => outstanding.erase r
  | .pickHost .. | .pickWarmHost .. => enterPick outstanding result

/-- A reservation is restored at most once, after the pick that made it. -/
def Event.Licensed (outstanding : List Reservation) : Event → Prop
  | .restore _ r => r ∈ outstanding
  | _ => True

instance (outstanding : List Reservation) (event : Event) :
    Decidable (event.Licensed outstanding) :=
  match event with
  | .restore _ r => inferInstanceAs (Decidable (r ∈ outstanding))
  | .pickHost .. | .pickWarmHost .. => .isTrue trivial

/-- Every call that failed is one to the store. -/
def OnlyStoreCallsFail (calls : List (CoordCall × Option Err)) : Prop :=
  ∀ call ∈ calls, call.2.isSome = true → isStoreCall call.1 = true

instance (calls : List (CoordCall × Option Err)) : Decidable (OnlyStoreCallsFail calls) :=
  inferInstanceAs (Decidable (∀ call ∈ calls, _))

/-- Picks and restores, one after the other; the calls to the store fail as the second component
says. -/
def system : Transition.System Ledger (Event × (ℕ → Option Err)) where
  step s event :=
    let outcome := event.1.program.runWith event.2 s.world
    ⟨outcome.state, event.1.enter s.outstanding outcome.result⟩
  enabled s event :=
    event.1.Licensed s.outstanding ∧
      OnlyStoreCallsFail (event.1.program.runWith event.2 s.world).calls

instance (s : Ledger) (event : Event × (ℕ → Option Err)) :
    Decidable (system.enabled s event) :=
  inferInstanceAs (Decidable (_ ∧ _))

/-- What holds after every event: the books are right, no counter is negative, and a reservation is
one of a registered host. -/
structure Sound (initial : Coordinator) (s : Ledger) : Prop where
  accounted : Accounted initial s.outstanding s.world.coordinator
  nonNegative : AllNonNegative s.world.coordinator
  registered : ∀ r ∈ s.outstanding, (s.world.coordinator.hosts.get r.hostID).isSome = true

section Runs

variable {initial : Coordinator} {s : Ledger}

theorem sound_start {w : World} (h : AllNonNegative w.coordinator) :
    Sound w.coordinator ⟨w, []⟩ where
  accounted := .refl w.coordinator
  nonNegative := h
  registered _ h := by cases h

theorem isSome_get_setHost {c : Coordinator} {session : HostSession}
    (hid : host.id = session.host.id) {id : String} (h : (c.hosts.get id).isSome = true) :
    ((setHost c session host).hosts.get id).isSome = true := by
  rw [get_setHost hid]
  split_ifs
  · rfl
  · exact h

theorem Sound.pick (h : Sound initial s) {result : Except Err (Option Reservation)} {w' : World}
    (hpicked : Picked s.world.coordinator policy result w'.coordinator) :
    Sound initial ⟨w', enterPick s.outstanding result⟩ := by
  generalize hc : w'.coordinator = c' at hpicked
  cases hpicked with
  | refused e _ => exact ⟨hc ▸ h.accounted, hc ▸ h.nonNegative, hc ▸ h.registered⟩
  | alreadyWarm => exact ⟨hc ▸ h.accounted, hc ▸ h.nonNegative, hc ▸ h.registered⟩
  | took r session host hget hfree hr hafford htook =>
    refine ⟨hc ▸ h.accounted.take hget hr htook, hc ▸ h.nonNegative.setHost htook.id
      ((h.nonNegative _ _ hget).take hafford htook), fun r' hr' => ?_⟩
    dsimp only
    rw [hc]
    refine isSome_get_setHost htook.id ?_
    obtain rfl | hmem := List.mem_cons.mp hr'
    · rw [hr, hget, Option.isSome_some]
    · exact h.registered r' hmem

theorem Sound.restore (h : Sound initial s) {r : Reservation} (hmem : r ∈ s.outstanding)
    {session : HostSession} {w' : World}
    (hget : s.world.coordinator.hosts.get session.host.id = some session)
    (hr : r.hostID = session.host.id) (htook : Took r host session.host)
    (hc : w'.coordinator = setHost s.world.coordinator session host) :
    Sound initial ⟨w', s.outstanding.erase r⟩ where
  accounted := hc ▸ h.accounted.give hmem hget hr htook
  nonNegative := hc ▸ h.nonNegative.setHost htook.id.symm ((h.nonNegative _ _ hget).give htook)
  registered r' hr' := by
    dsimp only
    rw [hc]
    exact isSome_get_setHost htook.id.symm (h.registered r' (List.mem_of_mem_erase hr'))

theorem runWith_of_onlyStoreCallsFail {α : Type} {p : CoordM α} {Q : Except Err α → World → Prop}
    {w : World} {faults : ℕ → Option Err} (h : p.Ends IsStoreCall Q w)
    (hfaults : OnlyStoreCallsFail (p.runWith faults w).calls) :
    Q (p.runWith faults w).result (p.runWith faults w).state :=
  h.runWith fun l e hmem => hfaults (l, some e) hmem rfl

/-- Every event keeps the books. -/
theorem Sound.step (event : Event × (ℕ → Option Err)) (henabled : system.enabled s event)
    (h : Sound initial s) : Sound initial (system.step s event) := by
  obtain ⟨event, faults⟩ := event
  obtain ⟨hlicensed, hfaults⟩ := henabled
  cases event with
  | pickHost clock order assignment =>
    have hpicked :=
      runWith_of_onlyStoreCallsFail (ends_pickExecution clock order assignment) hfaults
    exact h.pick hpicked
  | pickWarmHost clock order functionVersionID policy =>
    have hpicked := runWith_of_onlyStoreCallsFail
      (ends_pickPreparation clock order functionVersionID policy) hfaults
    exact h.pick hpicked
  | restore clock r =>
    obtain ⟨session, hget⟩ := Option.isSome_iff_exists.mp (h.registered r hlicensed)
    have hr : r.hostID = session.host.id := (Table.key_of_get hget).symm
    have hends : (Event.restore clock r).program.Ends IsStoreCall (fun _ w' => ∃ host,
        Took r host session.host ∧ w'.coordinator = setHost s.world.coordinator session host)
        s.world := by
      refine Prog.ends_bind.mpr ((ends_restore (hr ▸ hget) hr).mono fun result w' hw' => ?_)
      cases result with
      | ok _ => exact Prog.after_ok.mpr (Prog.ends_pure.mpr hw')
      | error e => exact Prog.after_error.mpr hw'
    obtain ⟨host, htook, hc⟩ := runWith_of_onlyStoreCallsFail hends hfaults
    exact h.restore hlicensed (hr ▸ hget) hr htook hc

theorem ends_pickHost_error_iff {w : World} (clock : ℕ → Time) (order : MapOrder HostSession)
    (assignment : Assignment) : (pickHost clock order assignment).Ends IsStoreCall (fun r _ =>
      (∃ e, r = .error e) ↔ ∀ id session, w.coordinator.hosts.get id = some session →
        ¬ Free session.host assignment.networkPolicy) w := by
  refine Prog.ends_bind.mpr (ends_locked ?_)
  cases hchoice : w.coordinator.chooseHost order assignment with
  | none => exact iff_of_true ⟨_, rfl⟩ (not_free_of_bestSession hchoice)
  | some session =>
    obtain ⟨hget, hfree⟩ := free_of_bestSession hchoice
    refine Prog.after_ok.mpr (ends_saveHost_bind fun w' hw' => Prog.ends_pure.mpr ?_)
    exact iff_of_false (fun ⟨e, he⟩ => by cases he) fun h => h _ session hget hfree

end Runs

/-- After any sequence of picks and restores, every counter of every host is its initial value
without the outstanding reservations that hold it, no counter is negative, and `pickHost` fails
exactly when no host is free. -/
theorem reservations_accounted (w : World) (h : AllNonNegative w.coordinator)
    (events : List (Event × (ℕ → Option Err))) (hruns : system.Runs ⟨w, []⟩ events) :
    Accounted w.coordinator (system.exec ⟨w, []⟩ events).outstanding
        (system.exec ⟨w, []⟩ events).world.coordinator ∧
      AllNonNegative (system.exec ⟨w, []⟩ events).world.coordinator ∧
      ∀ (clock : ℕ → Time) (order : MapOrder HostSession) (assignment : Assignment)
        (faults : ℕ → Option Err),
        OnlyStoreCallsFail ((pickHost clock order assignment).runWith faults
          (system.exec ⟨w, []⟩ events).world).calls →
        ((∃ e, ((pickHost clock order assignment).runWith faults
            (system.exec ⟨w, []⟩ events).world).result = .error e) ↔
          ∀ id session, (system.exec ⟨w, []⟩ events).world.coordinator.hosts.get id =
            some session → ¬ Free session.host assignment.networkPolicy) := by
  have hsound : Sound w.coordinator (system.exec ⟨w, []⟩ events) :=
    hruns.invariant (sound_start h) fun _ event henabled hs => hs.step event henabled
  refine ⟨hsound.accounted, hsound.nonNegative, fun clock order assignment faults hfaults => ?_⟩
  exact runWith_of_onlyStoreCallsFail (ends_pickHost_error_iff clock order assignment) hfaults

namespace Sample

def session : HostSession where
  host :=
    { id := "host", region := "region", driver := "driver", state := .active, availableSlots := 2
      availableFullNetworkSlots := 1, blankWarm := 1, functionWarm := ∅, lastHeartbeat := 1 }
  sendCh := none
  executor := true
  preparer := true

def world : World where
  store := .new
  coordinator := { Coordinator.new "region" with hosts := Table.empty.put session }
  handed := []

def assignment : Assignment := { DomainSample.assignment with networkPolicy := .full }

def events : List (Event × (ℕ → Option Err)) :=
  [(.pickHost (fun _ => 1) .table assignment,
      fun n => if n = 0 then none else some (.other "unreachable")),
    (.pickWarmHost (fun _ => 2) .table "version" .none, fun _ => none),
    (.restore (fun _ => 3) ⟨"host", .none, none⟩, fun _ => none)]

theorem allNonNegative : AllNonNegative world.coordinator := by
  intro id session' hget
  have hvalues : session' ∈ world.coordinator.hosts.values := Table.mem_values_of_get hget
  obtain rfl : session' = session := List.mem_singleton.mp hvalues
  exact ⟨by decide, by decide, by decide, fun _ => le_refl 0⟩

end Sample

theorem reservations_accounted_sample :
    (system.exec ⟨Sample.world, []⟩ Sample.events).outstanding =
        [⟨"host", .full, some ("version", .blankWarm)⟩] ∧
      Accounted Sample.world.coordinator [⟨"host", .full, some ("version", .blankWarm)⟩]
        (system.exec ⟨Sample.world, []⟩ Sample.events).world.coordinator := by
  have hruns : system.Runs ⟨Sample.world, []⟩ Sample.events := by
    unfold Transition.System.Runs
    decide +kernel
  have houtstanding : (system.exec ⟨Sample.world, []⟩ Sample.events).outstanding =
      [⟨"host", .full, some ("version", .blankWarm)⟩] := by
    decide +kernel
  have haccounted := reservations_accounted Sample.world Sample.allNonNegative Sample.events hruns
  exact ⟨houtstanding, houtstanding ▸ haccounted.1⟩

end Lecrev.Reservations

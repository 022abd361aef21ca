import Lecrev.Concurrency.Transition
import Lecrev.Microvm.Driver

/-!
# Leases of tap devices

Any number of goroutines acquire devices from a pool and release their leases, in any order. A step
is a critical section of `networkPool.mu`: a round of `acquire` or `acquireSpecific`, or the section
in which `release` gives a device back. A lease holds a `sync.Once`, so that of all the calls of
`Release` on it a single one reaches that section (`Once`).

The invariant ties the pool to the leases: a device is in use exactly if it has a holder, and its
holder is the one lease of it that has not been released (`Leasing.Inv`).
-/

namespace Lecrev.Microvm

/-- How far the `sync.Once` of a lease has come. -/
inductive Once
  | fresh
  /-- A call of `Release` has been let through, and has not been in its critical section. -/
  | entered
  | done
  deriving DecidableEq, Repr

/-- `networkLease`. -/
structure Lease where
  cfg : NetworkConfig
  once : Once
  deriving DecidableEq, Repr

/-- The device of a lease. -/
def Lease.tap (lease : Lease) : String := trimSpace lease.cfg.tapDevice

/-- The device of the lease was not given back. -/
def Lease.Unreleased (lease : Lease) : Prop := lease.once ≠ .done

/-- A call of `Release`: the first one is let through. -/
def Lease.enter (lease : Lease) : Lease :=
  if lease.once = .fresh then { lease with once := .entered } else lease

theorem Lease.tap_enter (lease : Lease) : lease.enter.tap = lease.tap := by
  unfold Lease.enter
  split_ifs <;> rfl

theorem Lease.unreleased_enter (lease : Lease) : lease.enter.Unreleased ↔ lease.Unreleased := by
  obtain ⟨cfg, once⟩ := lease
  cases once <;> simp [Lease.enter, Lease.Unreleased]

namespace Leasing

/-- A pool and all leases that it has granted, in the order in which it did. A lease is named by its
place in this list. -/
structure State where
  world : World ℕ
  leases : List Lease

/-- What a goroutine asks the pool for. -/
inductive Request
  /-- `acquire`. -/
  | next
  /-- `acquireSpecific`. -/
  | specific (tapDevice : String)

/-- What happens to a pool. -/
inductive Event
  /-- A critical section of `acquire` or `acquireSpecific`. -/
  | acquire (request : Request)
  /-- A call of `Release` on a lease. -/
  | callRelease (lease : ℕ)
  /-- The critical section of `Release`. -/
  | release (lease : ℕ)

/-- What a critical section of `acquire` or `acquireSpecific` answers and does. -/
def poll (s : State) : Request → Except Err (Option NetworkConfig) × World ℕ
  | .next => (pollNext s.leases.length).run s.world
  | .specific tapDevice => (pollSpecific s.leases.length (trimSpace tapDevice)).run s.world

/-- The device that the section grants a lease of. -/
def granted (s : State) (request : Request) : Option NetworkConfig :=
  (poll s request).1.toOption.join

/-- The steps of the goroutines. -/
def step (s : State) : Event → State
  | .acquire request =>
    { world := (poll s request).2
      leases := s.leases ++ ((granted s request).map fun cfg => ⟨cfg, .fresh⟩).toList }
  | .callRelease i => { s with leases := s.leases.modify i .enter }
  | .release i =>
    match s.leases[i]? with
    | none => s
    | some lease =>
      if lease.once = .entered then
        { world := ((releaseLease lease.cfg).run s.world).2
          leases := s.leases.set i { lease with once := .done } }
      else s

/-- The goroutines that share a pool. -/
def system : Transition.System State Event where
  step := step
  enabled _ _ := True

/-- A pool of the given devices before its first lease. -/
structure Initial (configs : List NetworkConfig) (s : State) : Prop where
  pool : newNetworkPool configs = .ok s.world.pool
  holder : ∀ t, s.world.holder t = none
  leases : s.leases = []

/-- The lease `i` holds the device `t`. -/
def Holds (s : State) (i : ℕ) (t : String) : Prop :=
  ∃ lease, s.leases[i]? = some lease ∧ lease.Unreleased ∧ lease.tap = t

/-- What ties the pool to the leases. -/
structure Inv (configs : List NetworkConfig) (s : State) : Prop where
  named : ∀ cfg ∈ configs, trimSpace cfg.tapDevice ≠ ""
  unconfigured : s.world.pool = none → configs = []
  order : ∀ p ∈ s.world.pool, p.order = configs.map fun cfg => trimSpace cfg.tapDevice
  cfgs : ∀ p ∈ s.world.pool, p.cfgs = configs.foldl .put .empty
  inUse : ∀ p ∈ s.world.pool, ∀ t, p.inUse t = true ↔ s.world.holder t ≠ none
  holder : ∀ t i, s.world.holder t = some i ↔ Holds s i t
  known : ∀ lease ∈ s.leases, ∃ p ∈ s.world.pool, (p.cfgs.get lease.tap).isSome

variable {configs : List NetworkConfig} {s : State} {p : NetworkPool} {t : String}
  {cfg : NetworkConfig}

/-- The invariant holds at the start. -/
theorem Initial.inv (h : Initial configs s) : Inv configs s := by
  have hholds : ∀ i t, ¬ Holds s i t := by
    rintro i t ⟨lease, hlease, -⟩
    rw [h.leases] at hlease
    cases hlease
  have hpool : ∀ p ∈ s.world.pool, p = .ofConfigs configs := by
    intro p hp
    obtain ⟨-, hnone⟩ | ⟨-, hsome⟩ := of_newNetworkPool h.pool
    · rw [hnone] at hp
      cases hp
    · rw [hsome] at hp
      exact (Option.some.inj hp).symm
  refine ⟨ne_of_newNetworkPool h.pool, fun hnone => ?_, fun p hp => ?_, fun p hp => ?_,
    fun p hp t => ?_,
    fun t i => ?_, ?_⟩
  · obtain ⟨hnil, -⟩ | ⟨-, hsome⟩ := of_newNetworkPool h.pool
    · exact hnil
    · rw [hsome] at hnone
      cases hnone
  · rw [hpool p hp]
    rfl
  · rw [hpool p hp]
    rfl
  · rw [hpool p hp, h.holder t]
    exact iff_of_false Bool.false_ne_true fun hne => hne rfl
  · rw [h.holder t]
    exact iff_of_false (fun heq => by cases heq) (hholds i t)
  · rw [h.leases]
    exact fun lease hlease => absurd hlease List.not_mem_nil

/-- No lease holds the device. -/
def Free (s : State) (t : String) : Prop := ∀ i, ¬ Holds s i t

theorem Inv.free_iff (h : Inv configs s) (hp : p ∈ s.world.pool) :
    Free s t ↔ p.inUse t = false := by
  rw [← Bool.not_eq_true, h.inUse p hp t, not_not, Option.eq_none_iff_forall_ne_some]
  exact forall_congr' fun i => not_congr (h.holder t i).symm

theorem Inv.isSome_get_iff (h : Inv configs s) (hp : p ∈ s.world.pool) :
    (p.cfgs.get t).isSome ↔ ∃ cfg ∈ configs, trimSpace cfg.tapDevice = t := by
  rw [h.cfgs p hp]
  constructor
  · intro hsome
    obtain ⟨cfg, hcfg⟩ := Option.isSome_iff_exists.mp hsome
    obtain hmem | hempty := Table.of_get_foldl_put hcfg
    · exact ⟨cfg, hmem, Table.key_of_get hcfg⟩
    · cases hempty
  · rintro ⟨cfg, hmem, hkey⟩
    exact Table.isSome_get_foldl_put (.inl ⟨cfg, hmem, hkey⟩)

/-! ## Grants -/

/-- The world after a device was taken for a lease. -/
def handOver (w : World ℕ) (p : NetworkPool) (t : String) (next owner : ℕ) : World ℕ :=
  { w with
    pool := some { p.take t with next }
    holder := Function.update w.holder t (some owner) }

/-- A section grants the device `t` of the pool `p`. -/
structure Grants (s : State) (request : Request) (p : NetworkPool) (t : String)
    (cfg : NetworkConfig)
    (next : ℕ) : Prop where
  pool : p ∈ s.world.pool
  free : p.inUse t = false
  config : p.cfgs.get t = some cfg
  poll : poll s request = (.ok (some cfg), handOver s.world p t next s.leases.length)

theorem Grants.step {request : Request} {next : ℕ} (h : Grants s request p t cfg next) :
    Leasing.step s (.acquire request) =
      ⟨handOver s.world p t next s.leases.length, s.leases ++ [⟨cfg, .fresh⟩]⟩ := by
  simp [Leasing.step, granted, h.poll, Except.toOption]

/-- A section does not grant a device. -/
structure Refuses (s : State) (request : Request) : Prop where
  granted : granted s request = none
  poll : (poll s request).2 = s.world

theorem Refuses.step {request : Request} (h : Refuses s request) :
    Leasing.step s (.acquire request) = s := by
  rw [Leasing.step, h.granted, h.poll, Option.map_none, Option.toList_none, List.append_nil]

/-- **A section of `acquire`** grants a device exactly if a configured one is free. -/
theorem Inv.acquire_cases (h : Inv configs s) :
    (∃ p t cfg next, Grants s .next p t cfg next) ∧
        (∃ cfg ∈ configs, Free s (trimSpace cfg.tapDevice)) ∨
      Refuses s .next ∧ ∀ cfg ∈ configs, ¬ Free s (trimSpace cfg.tapDevice) := by
  cases hpool : s.world.pool with
  | none =>
    refine .inr ⟨⟨?_, ?_⟩, ?_⟩
    · simp [granted, poll, pollNext, hpool, Except.toOption]
    · simp [poll, pollNext, hpool]
    · rw [h.unconfigured hpool]
      exact fun cfg hcfg => absurd hcfg List.not_mem_nil
  | some p =>
    have hp : p ∈ s.world.pool := hpool
    have hmem : ∀ t, t ∈ p.order ↔ ∃ cfg ∈ configs, trimSpace cfg.tapDevice = t := by
      intro t
      rw [h.order p hp]
      exact List.mem_map
    cases hnext : p.acquireNextLocked with
    | none =>
      refine .inr ⟨⟨?_, ?_⟩, fun cfg hcfg => ?_⟩
      · simp [granted, poll, pollNext, hpool, hnext, Except.toOption]
      · simp [poll, pollNext, hpool, hnext]
      · rw [h.free_iff hp, Bool.not_eq_false]
        exact NetworkPool.acquireNextLocked_eq_none_iff.mp hnext _ ((hmem _).mpr ⟨cfg, hcfg, rfl⟩)
    | some grant =>
      have horder : ∀ t ∈ p.order, (p.cfgs.get t).isSome := fun t ht =>
        (h.isSome_get_iff hp).mpr ((hmem t).mp ht)
      obtain ⟨cfg, p'⟩ := grant
      obtain ⟨t, next, hfree, hcfg, rfl⟩ := NetworkPool.of_acquireNextLocked horder hnext
      have hkey : trimSpace cfg.tapDevice = t := Table.key_of_get hcfg
      refine .inl ⟨⟨p, t, cfg, next, hp, hfree, hcfg, ?_⟩, ?_⟩
      · simp [poll, pollNext, hpool, hnext, handOver, hkey]
      · obtain ⟨cfg', hcfg', hkey'⟩ := (h.isSome_get_iff hp).mp (Option.isSome_of_mem hcfg)
        exact ⟨cfg', hcfg', by rwa [hkey', h.free_iff hp]⟩

/-- **A section of `acquireSpecific`** grants the device exactly if it is configured and free. -/
theorem Inv.acquireSpecific_cases (h : Inv configs s) (tapDevice : String) :
    (∃ p cfg next, Grants s (.specific tapDevice) p (trimSpace tapDevice) cfg next) ∧
        ((∃ cfg ∈ configs, trimSpace cfg.tapDevice = trimSpace tapDevice) ∧
          Free s (trimSpace tapDevice)) ∨
      Refuses s (.specific tapDevice) ∧
        ¬ ((∃ cfg ∈ configs, trimSpace cfg.tapDevice = trimSpace tapDevice) ∧
          Free s (trimSpace tapDevice)) := by
  cases hpool : s.world.pool with
  | none =>
    refine .inr ⟨⟨?_, ?_⟩, ?_⟩
    · simp [granted, poll, pollSpecific, hpool, Except.toOption]
    · simp [poll, pollSpecific, hpool]
    · rintro ⟨⟨cfg, hcfg, -⟩, -⟩
      rw [h.unconfigured hpool] at hcfg
      cases hcfg
  | some p =>
    have hp : p ∈ s.world.pool := hpool
    rw [← h.isSome_get_iff hp, h.free_iff hp]
    by_cases hname : trimSpace tapDevice = ""
    · refine .inr ⟨⟨?_, ?_⟩, ?_⟩
      · simp [granted, poll, pollSpecific, hpool, hname, Except.toOption]
      · simp [poll, pollSpecific, hpool, hname]
      · rintro ⟨hsome, -⟩
        obtain ⟨cfg, hcfg, hkey⟩ := (h.isSome_get_iff hp).mp hsome
        exact h.named cfg hcfg (hkey.trans hname)
    cases hcfg : p.cfgs.get (trimSpace tapDevice) with
    | none =>
      refine .inr ⟨⟨?_, ?_⟩, fun hand => Bool.false_ne_true hand.1⟩
      · simp [granted, poll, pollSpecific, hpool, hname, hcfg, Except.toOption]
      · simp [poll, pollSpecific, hpool, hname, hcfg]
    | some cfg =>
      cases hused : p.inUse (trimSpace tapDevice) with
      | false =>
        refine .inl ⟨⟨p, cfg, p.next, hp, hused, hcfg, ?_⟩, rfl, rfl⟩
        simp [poll, pollSpecific, hpool, hname, hcfg, hused, handOver, NetworkPool.take]
      | true =>
        refine .inr ⟨⟨?_, ?_⟩, fun hand => Bool.false_ne_true hand.2.symm⟩
        · simp [granted, poll, pollSpecific, hpool, hname, hcfg, hused, Except.toOption]
        · simp [poll, pollSpecific, hpool, hname, hcfg, hused]

/-! ## The invariant -/

theorem holds_append {w : World ℕ} {lease : Lease} {i : ℕ} :
    Holds ⟨w, s.leases ++ [lease]⟩ i t ↔
      Holds s i t ∨ i = s.leases.length ∧ lease.Unreleased ∧ lease.tap = t := by
  unfold Holds
  obtain hlt | rfl | hgt := Nat.lt_trichotomy i s.leases.length
  · simp only [List.getElem?_append_left hlt, hlt.ne, false_and, or_false]
  · simp
  · have hnone : (s.leases ++ [lease])[i]? = none := by
      rw [List.getElem?_eq_none_iff, List.length_append]
      exact hgt
    simp [hnone, hgt.ne', hgt.le]

theorem holds_set_done {w : World ℕ} {i j : ℕ} :
    Holds ⟨w, s.leases.set i ⟨cfg, .done⟩⟩ j t ↔ j ≠ i ∧ Holds s j t := by
  unfold Holds
  by_cases hj : j = i
  · subst hj
    refine iff_of_false ?_ fun hand => hand.1 rfl
    rintro ⟨lease, hlease, hunreleased, -⟩
    obtain ⟨_, -, rfl⟩ := Option.map_eq_some_iff.mp (List.getElem?_set_self'.symm.trans hlease)
    exact hunreleased rfl
  · simp only [List.getElem?_set_ne (Ne.symm hj), ne_eq, hj, not_false_eq_true, true_and]

theorem holds_callRelease {i j : ℕ} : Holds (step s (.callRelease i)) j t ↔ Holds s j t := by
  unfold Holds step
  dsimp only
  rw [List.getElem?_modify]
  by_cases hij : i = j
  · simp [hij, Lease.tap_enter, Lease.unreleased_enter]
  · simp [hij]

theorem Inv.update (h : Inv configs s) (hp : p ∈ s.world.pool) {p' : NetworkPool} {w : World ℕ}
    {leases : List Lease} {o : Option ℕ} (hpool : w.pool = some p') (horder : p'.order = p.order)
    (hcfgs : p'.cfgs = p.cfgs) (hinUse : p'.inUse = Function.update p.inUse t o.isSome)
    (hholder : w.holder = Function.update s.world.holder t o)
    (hholds : ∀ i, Holds ⟨w, leases⟩ i t ↔ o = some i)
    (hothers : ∀ t' i, t' ≠ t → (Holds ⟨w, leases⟩ i t' ↔ Holds s i t'))
    (hknown : ∀ lease ∈ leases, (p.cfgs.get lease.tap).isSome) : Inv configs ⟨w, leases⟩ := by
  refine ⟨h.named, fun hnone => ?_, fun q hq => ?_, fun q hq => ?_, fun q hq t' => ?_,
    fun t' i => ?_, fun lease hlease => ?_⟩
  · exact absurd (hpool.symm.trans hnone) (Option.some_ne_none p')
  · obtain rfl : p' = q := Option.some.inj (hpool.symm.trans hq)
    exact horder.trans (h.order p hp)
  · obtain rfl : p' = q := Option.some.inj (hpool.symm.trans hq)
    exact hcfgs.trans (h.cfgs p hp)
  · obtain rfl : p' = q := Option.some.inj (hpool.symm.trans hq)
    rw [hinUse, hholder]
    by_cases ht : t' = t
    · subst ht
      rw [Function.update_self, Function.update_self]
      exact Option.isSome_iff_ne_none
    · rw [Function.update_of_ne ht, Function.update_of_ne ht]
      exact h.inUse p hp t'
  · rw [hholder]
    by_cases ht : t' = t
    · subst ht
      rw [Function.update_self, hholds]
    · rw [Function.update_of_ne ht, h.holder t' i, hothers t' i ht]
  · exact ⟨p', hpool, hcfgs ▸ hknown lease hlease⟩

theorem Inv.isSome_get_tap (h : Inv configs s) (hp : p ∈ s.world.pool) {lease : Lease}
    (hlease : lease ∈ s.leases) : (p.cfgs.get lease.tap).isSome := by
  obtain ⟨p', hp', hsome⟩ := h.known lease hlease
  obtain rfl : p' = p := Option.mem_unique hp' hp
  exact hsome

theorem Inv.step_of_grants (h : Inv configs s) {request : Request} {next : ℕ}
    (hgrants : Grants s request p t cfg next) : Inv configs (step s (.acquire request)) := by
  have hkey : trimSpace cfg.tapDevice = t := Table.key_of_get hgrants.config
  have hfree : Free s t := (h.free_iff hgrants.pool).mpr hgrants.free
  rw [hgrants.step]
  refine h.update hgrants.pool (t := t) (o := some s.leases.length) rfl rfl rfl rfl rfl
    (fun i => ?_) (fun t' i ht => ?_) fun lease hlease => ?_
  · rw [holds_append, Option.some_inj]
    constructor
    · rintro (hholds | ⟨heq, -⟩)
      · exact absurd hholds (hfree i)
      · exact heq.symm
    · exact fun heq => .inr ⟨heq.symm, Once.noConfusion, hkey⟩
  · rw [holds_append]
    refine or_iff_left ?_
    rintro ⟨-, -, htap⟩
    exact ht (htap.symm.trans hkey)
  · obtain hlease | hlease := List.mem_append.mp hlease
    · exact h.isSome_get_tap hgrants.pool hlease
    · rw [List.mem_singleton.mp hlease, Lease.tap, hkey, hgrants.config]
      rfl

/-- **A critical section of `Release`** gives the device back, if the lease has let it through. -/
theorem step_release_cases (s : State) (i : ℕ) :
    (∃ lease, s.leases[i]? = some lease ∧ lease.once = .entered ∧
      step s (.release i) = ⟨((releaseLease lease.cfg).run s.world).2,
        s.leases.set i { lease with once := .done }⟩) ∨
      step s (.release i) = s := by
  cases hlease : s.leases[i]? with
  | none => exact .inr (by simp [step, hlease])
  | some lease =>
    by_cases honce : lease.once = .entered
    · exact .inl ⟨lease, rfl, honce, by simp [step, hlease, honce]⟩
    · exact .inr (by simp [step, hlease, honce])

/-- A release keeps leases exclusive. -/
theorem Inv.step_release (h : Inv configs s) (i : ℕ) : Inv configs (step s (.release i)) := by
  obtain ⟨lease, hlease, honce, hstep⟩ | hstep := step_release_cases s i
  · rw [hstep]
    have hholds : Holds s i lease.tap := by
      refine ⟨lease, hlease, ?_, rfl⟩
      rw [Lease.Unreleased, honce]
      decide
    have hunique : ∀ j t, Holds s j t → (j = i ↔ t = lease.tap) := by
      intro j t hj
      have hholder : s.world.holder lease.tap = some i := (h.holder lease.tap i).mpr hholds
      constructor
      · rintro rfl
        obtain ⟨other, hother, -, rfl⟩ := hj
        rw [Option.some.inj (hother.symm.trans hlease)]
      · rintro rfl
        exact Option.some.inj (((h.holder lease.tap j).mpr hj).symm.trans hholder)
    obtain ⟨p, hp, hsome⟩ := h.known lease (List.mem_of_getElem? hlease)
    have hrelease : p.release lease.tap =
        { p with inUse := Function.update p.inUse lease.tap false } := if_pos hsome
    refine h.update hp (t := lease.tap) (o := none) (congrArg (Option.map _) hp) ?_ ?_ ?_ rfl
      (fun j => ?_) (fun t' j ht => ?_) fun other hother => ?_
    · change (p.release lease.tap).order = p.order
      rw [hrelease]
    · change (p.release lease.tap).cfgs = p.cfgs
      rw [hrelease]
    · exact congrArg NetworkPool.inUse hrelease
    · rw [holds_set_done]
      refine iff_of_false ?_ (Option.some_ne_none j).symm
      rintro ⟨hne, hj⟩
      exact hne ((hunique j _ hj).mpr rfl)
    · rw [holds_set_done]
      exact and_iff_right_of_imp fun hj heq => ht ((hunique j t' hj).mp heq)
    · obtain hother | rfl := List.mem_or_eq_of_mem_set hother
      · exact h.isSome_get_tap hp hother
      · exact hsome
  · rwa [hstep]

theorem Inv.step_callRelease (h : Inv configs s) (i : ℕ) :
    Inv configs (step s (.callRelease i)) := by
  refine ⟨h.named, h.unconfigured, h.order, h.cfgs, h.inUse, fun t j => ?_, fun lease hlease => ?_⟩
  · rw [holds_callRelease]
    exact h.holder t j
  · obtain ⟨j, hj⟩ := List.mem_iff_getElem?.mp hlease
    change (s.leases.modify i Lease.enter)[j]? = some lease at hj
    rw [List.getElem?_modify] at hj
    obtain ⟨before, hbefore, rfl⟩ := Option.map_eq_some_iff.mp hj
    have hknown := h.known before (List.mem_of_getElem? hbefore)
    split_ifs
    · rwa [Lease.tap_enter]
    · exact hknown

/-- Every event keeps the invariant. -/
theorem Inv.step (h : Inv configs s) (e : Event) : Inv configs (Leasing.step s e) := by
  cases e with
  | acquire request =>
    cases request with
    | next =>
      obtain ⟨⟨p, t, cfg, next, hgrants⟩, -⟩ | ⟨hrefuses, -⟩ := h.acquire_cases
      · exact h.step_of_grants hgrants
      · rwa [hrefuses.step]
    | specific tapDevice =>
      obtain ⟨⟨p, cfg, next, hgrants⟩, -⟩ | ⟨hrefuses, -⟩ := h.acquireSpecific_cases tapDevice
      · exact h.step_of_grants hgrants
      · rwa [hrefuses.step]
  | callRelease i => exact h.step_callRelease i
  | release i => exact h.step_release i

/-! ## Mutual exclusion -/

/-- What the goroutines may rely on. -/
structure Exclusive (configs : List NetworkConfig) (s : State) : Prop where
  distinct : ∀ i j t, Holds s i t → Holds s j t → i = j
  inUse : ∀ p ∈ s.world.pool, ∀ t, p.inUse t = true ↔ ∃ i, Holds s i t
  acquire : (granted s .next).isSome ↔ ∃ cfg ∈ configs, Free s (trimSpace cfg.tapDevice)
  acquireSpecific : ∀ tapDevice, (granted s (.specific tapDevice)).isSome ↔
    (∃ cfg ∈ configs, trimSpace cfg.tapDevice = trimSpace tapDevice) ∧ Free s (trimSpace tapDevice)
  specific : ∀ tapDevice, ∀ cfg ∈ granted s (.specific tapDevice),
    trimSpace cfg.tapDevice = trimSpace tapDevice
  release : ∀ i j t, j ≠ i → Holds s j t → Holds (step s (.release i)) j t ∧
    ∀ p ∈ (step s (.release i)).world.pool, p.inUse t = true

theorem Grants.granted {request : Request} {next : ℕ} (h : Grants s request p t cfg next) :
    granted s request = some cfg := by
  rw [Leasing.granted, h.poll]
  rfl

theorem Inv.inUse_iff (h : Inv configs s) (hp : p ∈ s.world.pool) :
    p.inUse t = true ↔ ∃ i, Holds s i t := by
  rw [h.inUse p hp t, Option.ne_none_iff_exists']
  exact exists_congr fun i => h.holder t i

theorem Holds.step_release {i j : ℕ} (h : Holds s j t) (hne : j ≠ i) :
    Holds (step s (.release i)) j t := by
  obtain ⟨lease, -, -, hstep⟩ | hstep := step_release_cases s i
  · rw [hstep, holds_set_done]
    exact ⟨hne, h⟩
  · rwa [hstep]

theorem Inv.exclusive (h : Inv configs s) : Exclusive configs s where
  distinct i j t hi hj :=
    Option.some.inj (((h.holder t i).mpr hi).symm.trans ((h.holder t j).mpr hj))
  inUse p hp t := h.inUse_iff hp
  acquire := by
    obtain ⟨⟨p, t, cfg, next, hgrants⟩, hfree⟩ | ⟨hrefuses, hused⟩ := h.acquire_cases
    · rw [hgrants.granted]
      exact iff_of_true rfl hfree
    · rw [hrefuses.granted]
      exact iff_of_false Bool.false_ne_true fun ⟨cfg, hcfg, hfree⟩ => hused cfg hcfg hfree
  acquireSpecific tapDevice := by
    obtain ⟨⟨p, cfg, next, hgrants⟩, hfree⟩ | ⟨hrefuses, hused⟩ := h.acquireSpecific_cases tapDevice
    · rw [hgrants.granted]
      exact iff_of_true rfl hfree
    · rw [hrefuses.granted]
      exact iff_of_false Bool.false_ne_true hused
  specific tapDevice cfg' hcfg' := by
    obtain ⟨⟨p, cfg, next, hgrants⟩, -⟩ | ⟨hrefuses, -⟩ := h.acquireSpecific_cases tapDevice
    · obtain rfl : cfg = cfg' := Option.some.inj (hgrants.granted.symm.trans hcfg')
      exact Table.key_of_get hgrants.config
    · exact absurd (hrefuses.granted.symm.trans hcfg') (Option.some_ne_none cfg').symm
  release i j t hne hholds :=
    have hkept := hholds.step_release hne
    ⟨hkept, fun _ hp => ((h.step_release i).inUse_iff hp).mpr ⟨j, hkept⟩⟩

/-- **Mutual exclusion of the tap devices**, after every interleaving of critical sections. -/
theorem tap_pool_exclusive {configs : List NetworkConfig} {s : State} (h : Initial configs s)
    (events : List Event) : Exclusive configs (system.exec s events) :=
  (system.exec_invariant events h.inv fun _ e hinv => hinv.step e).exclusive

/-- A pool of two devices, one of them named twice. -/
def sampleConfigs : List NetworkConfig :=
  ["tap0", " tap1", "tap0 "].map fun tapDevice =>
    { tapDevice, guestIP := "172.16.0.2", gatewayIP := "172.16.0.1", netmask := "255.255.255.252" }

def sampleStart : State where
  world := { pool := some (.ofConfigs sampleConfigs), holder := fun _ => none }
  leases := []

/-- Both devices are granted, the first one is released twice and granted again in between. -/
def sampleEvents : List Event :=
  [.acquire .next, .acquire .next, .callRelease 0, .release 0, .acquire (.specific "tap0"),
    .callRelease 0, .release 0]

theorem tap_pool_exclusive_sample :
    Initial sampleConfigs sampleStart ∧
      (system.exec sampleStart sampleEvents).leases.map (fun lease => (lease.tap, lease.once)) =
        [("tap0", .done), ("tap1", .fresh), ("tap0", .fresh)] ∧
      Exclusive sampleConfigs (system.exec sampleStart sampleEvents) := by
  have hinitial : Initial sampleConfigs sampleStart := ⟨rfl, fun _ => rfl, rfl⟩
  exact ⟨hinitial, by decide +kernel, tap_pool_exclusive hinitial sampleEvents⟩

end Leasing

end Lecrev.Microvm

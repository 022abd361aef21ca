import Lecrev.Build.Request
import Lecrev.Concurrency.Program
import Lecrev.Firecracker.Types

/-!
# The microVM driver

The driver boots microVMs and restores them from snapshots (`internal/firecracker/microvm`). A
function with full network access is given a tap device, which the driver leases from a pool.

The state is what the operations of a driver share of the network. Of an operation the critical
sections of the pool are modelled; what it does on files and with its microVM in between reads
nothing of the pool. The holder of a lease is kept in the state as well; no operation reads it.
-/

namespace Lecrev.Microvm

/-! ## The pool of tap devices -/

/-- `networkConfig`: a tap device and the addresses of a guest on it. -/
structure NetworkConfig where
  tapDevice : String := ""
  guestMAC : String := ""
  guestIP : String := ""
  gatewayIP : String := ""
  netmask : String := ""
  deriving DecidableEq, Repr

/-- Keyed by the name of the device. -/
instance : Keyed NetworkConfig String where
  key cfg := trimSpace cfg.tapDevice

/-- `networkPool`: the devices in their order, the configuration of each, which are in use, and
where the search for a free one starts. -/
structure NetworkPool where
  order : List String
  cfgs : Table NetworkConfig
  inUse : String → Bool
  next : ℕ

/-- What `newNetworkPool` checks of a device. -/
def NetworkConfig.check (cfg : NetworkConfig) : Except Err Unit :=
  if trimSpace cfg.tapDevice = "" then
    .error (.other "network pool entry missing tap device")
  else if trimSpace cfg.guestIP = "" ∨ trimSpace cfg.gatewayIP = "" ∨
      trimSpace cfg.netmask = "" then
    .error (.other ("network pool entry " ++ cfg.tapDevice ++ " missing guest network tuple"))
  else .ok ()

/-- The pool of the given devices. -/
def NetworkPool.ofConfigs (configs : List NetworkConfig) : NetworkPool where
  order := configs.map fun cfg => trimSpace cfg.tapDevice
  cfgs := configs.foldl .put .empty
  inUse _ := false
  next := 0

/-- The devices of a pool that is configured by a count (`buildTapPoolConfigs`): the addresses come
from the network, the names are numbered. -/
def tapPoolConfigs (devicePrefix : String) (count : ℕ) (address : ℕ → NetworkConfig) :
    List NetworkConfig :=
  (List.range count).map fun i => { address i with tapDevice := devicePrefix ++ toString i }

/-- `newNetworkPool`; without devices there is no pool. -/
def newNetworkPool (configs : List NetworkConfig) : Except Err (Option NetworkPool) :=
  if configs = [] then .ok none
  else do
    configs.forM NetworkConfig.check
    return some (.ofConfigs configs)

/-- Without devices there is no pool; otherwise it is the pool of the devices. -/
theorem of_newNetworkPool {configs : List NetworkConfig} {pool : Option NetworkPool}
    (h : newNetworkPool configs = .ok pool) :
    configs = [] ∧ pool = none ∨ configs ≠ [] ∧ pool = some (.ofConfigs configs) := by
  unfold newNetworkPool at h
  split_ifs at h with hnil
  · exact .inl ⟨hnil, (Except.ok.inj h).symm⟩
  · obtain ⟨-, -, hpool⟩ := Except.bind_eq_ok_iff.mp h
    exact .inr ⟨hnil, (Except.ok.inj hpool).symm⟩

/-- A pool is made of devices with a name only. -/
theorem ne_of_newNetworkPool {configs : List NetworkConfig} {pool : Option NetworkPool}
    (h : newNetworkPool configs = .ok pool) : ∀ cfg ∈ configs, trimSpace cfg.tapDevice ≠ "" := by
  unfold newNetworkPool at h
  split_ifs at h with hnil
  · rw [hnil]
    exact fun cfg hcfg => absurd hcfg List.not_mem_nil
  · obtain ⟨_, hcheck, -⟩ := Except.bind_eq_ok_iff.mp h
    intro cfg hcfg hblank
    have hok := List.forM_eq_ok_iff.mp hcheck cfg hcfg
    rw [NetworkConfig.check, if_pos hblank] at hok
    cases hok

namespace NetworkPool

/-- The configuration of a device; the zero value if there is none. -/
def config (p : NetworkPool) (tapDevice : String) : NetworkConfig := (p.cfgs.get tapDevice).getD {}

/-- Mark a device as in use. -/
def take (p : NetworkPool) (tapDevice : String) : NetworkPool :=
  { p with inUse := Function.update p.inUse tapDevice true }

/-- `acquireNextLocked`: the first device that is not in use, from `next` on. -/
def acquireNextLocked (p : NetworkPool) : Option (NetworkConfig × NetworkPool) :=
  let indices := (List.range p.order.length).map fun offset => (p.next + offset) % p.order.length
  (indices.find? fun index => !p.inUse (p.order.getD index "")).map fun index =>
    let tapDevice := p.order.getD index ""
    (p.config tapDevice, { p.take tapDevice with next := (index + 1) % p.order.length })

/-- The critical section of `release`: a device that the pool knows is free again. -/
def release (p : NetworkPool) (tapDevice : String) : NetworkPool :=
  if (p.cfgs.get tapDevice).isSome then
    { p with inUse := Function.update p.inUse tapDevice false }
  else p

section Acquire

variable {p p' : NetworkPool} {cfg : NetworkConfig}

/-- What is acquired was free and is marked as in use. -/
theorem of_acquireNextLocked (horder : ∀ t ∈ p.order, (p.cfgs.get t).isSome)
    (h : p.acquireNextLocked = some (cfg, p')) :
    ∃ t n, p.inUse t = false ∧ p.cfgs.get t = some cfg ∧ p' = { p.take t with next := n } := by
  unfold NetworkPool.acquireNextLocked at h
  obtain ⟨index, hfind, heq⟩ := Option.map_eq_some_iff.mp h
  have hfree : p.inUse (p.order.getD index "") = false := by
    simpa using List.find?_some hfind
  have hindex : index < p.order.length := by
    obtain ⟨offset, hoffset, rfl⟩ := List.mem_map.mp (List.mem_of_find?_eq_some hfind)
    exact Nat.mod_lt _ (by have := List.mem_range.mp hoffset; omega)
  have hmem : p.order.getD index "" ∈ p.order := by
    rw [← List.getElem_eq_getD (h := hindex)]
    exact List.getElem_mem hindex
  obtain ⟨cfg', hcfg'⟩ := Option.isSome_iff_exists.mp (horder _ hmem)
  cases heq
  refine ⟨_, _, hfree, ?_, rfl⟩
  rw [NetworkPool.config, hcfg']
  rfl

theorem exists_offset {n index : ℕ} (next : ℕ) (hindex : index < n) :
    ∃ offset < n, (next + offset) % n = index := by
  have hn : 0 < n := Nat.zero_lt_of_lt hindex
  refine ⟨(index + (n - next % n)) % n, Nat.mod_lt _ hn, ?_⟩
  have hle : next % n ≤ n := (Nat.mod_lt next hn).le
  rw [Nat.add_mod_mod, ← Nat.mod_add_mod, show next % n + (index + (n - next % n)) = index + n by
    omega, Nat.add_mod_right, Nat.mod_eq_of_lt hindex]

/-- The search finds a device as long as one of them is free. -/
theorem acquireNextLocked_eq_none_iff :
    p.acquireNextLocked = none ↔ ∀ t ∈ p.order, p.inUse t = true := by
  unfold NetworkPool.acquireNextLocked
  rw [Option.map_eq_none_iff, List.find?_eq_none]
  constructor
  · intro hall t ht
    obtain ⟨index, hindex, rfl⟩ := List.getElem_of_mem ht
    obtain ⟨offset, hoffset, heq⟩ := exists_offset p.next hindex
    have hused := hall index (List.mem_map.mpr ⟨offset, List.mem_range.mpr hoffset, heq⟩)
    rw [← List.getElem_eq_getD (h := hindex)] at hused
    simpa using hused
  · intro hall index hmem
    obtain ⟨offset, hoffset, rfl⟩ := List.mem_map.mp hmem
    have hindex : (p.next + offset) % p.order.length < p.order.length :=
      Nat.mod_lt _ (Nat.zero_lt_of_lt (List.mem_range.mp hoffset))
    rw [← List.getElem_eq_getD (h := hindex), hall _ (List.getElem_mem hindex)]
    exact Bool.false_ne_true

end Acquire

end NetworkPool

/-- What the operations of a driver share of the network: the pool, and who holds its devices. -/
structure World (ι : Type) where
  pool : Option NetworkPool
  /-- The operation that holds the lease of a device. -/
  holder : String → Option ι

/-- The calls of an operation: critical sections of `networkPool.mu` that look for a device, and
that give one back. -/
inductive DriverCall
  | poll
  | release
  deriving DecidableEq, Repr

/-- The operations of a driver. -/
abbrev DriverM (ι : Type) := Prog DriverCall (World ι) Err

section Calls

variable {ι : Type}

/-- One round of `acquire`. -/
def pollNext (owner : ι) : DriverM ι (Option NetworkConfig) :=
  .action .poll fun w =>
    match w.pool with
    | none => (.error (.other "full-network execution requires a configured tap pool"), w)
    | some p =>
      match p.acquireNextLocked with
      | none => (.ok none, w)
      | some (cfg, p) =>
        (.ok (some cfg), { w with
          pool := some p
          holder := Function.update w.holder (trimSpace cfg.tapDevice) (some owner) })

/-- One round of `acquireSpecific`. -/
def pollSpecific (owner : ι) (tapDevice : String) : DriverM ι (Option NetworkConfig) :=
  .action .poll fun w =>
    match w.pool with
    | none => (.error (.other "full-network execution requires a configured tap pool"), w)
    | some p =>
      if tapDevice = "" then (.error (.other "tap device is required"), w)
      else
        match p.cfgs.get tapDevice with
        | none => (.error (.other ("unknown tap device " ++ tapDevice)), w)
        | some cfg =>
          if p.inUse tapDevice then (.ok none, w)
          else
            (.ok (some cfg), { w with
              pool := some (p.take tapDevice)
              holder := Function.update w.holder tapDevice (some owner) })

/-- The end of a lease: its device is given back to the pool. -/
def releaseLease (cfg : NetworkConfig) : DriverM ι Unit :=
  .modify .release fun w => { w with
    pool := w.pool.map (·.release (trimSpace cfg.tapDevice))
    holder := Function.update w.holder (trimSpace cfg.tapDevice) none }

end Calls

end Lecrev.Microvm

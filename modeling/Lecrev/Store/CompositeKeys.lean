import Lecrev.Store.Memory
import Lecrev.ToMathlib.List

/-!
# Composite keys

The store addresses idempotency records by scope, project and key, and warm pools by region, host
and version. Both are stored under the parts joined by colons, and the pools of a host are found by
a prefix of that text. This module says which addresses are kept apart by these keys.
-/

namespace Lecrev

/-! ## Idempotency records -/

/-- What an idempotency record is addressed by. -/
structure RecordAddress where
  scope : String
  projectID : String
  key : String
  deriving DecidableEq, Repr

/-- The key under which the record of an address is stored. -/
def RecordAddress.joined (a : RecordAddress) : String := idempotencyKey a.scope a.projectID a.key

/-- Neither the scope nor the project contains a colon. -/
def RecordAddress.Colonless (a : RecordAddress) : Prop :=
  ':' ∉ a.scope.toList ∧ ':' ∉ a.projectID.toList

instance (a : RecordAddress) : Decidable a.Colonless := inferInstanceAs (Decidable (_ ∧ _))

/-- The address under which a record is stored. -/
def IdempotencyRecord.address (r : IdempotencyRecord) : RecordAddress :=
  ⟨r.scope, r.projectID, r.key⟩

/-- The operations on idempotency records. -/
inductive RecordOp
  | create (record : IdempotencyRecord)
  | update (record : IdempotencyRecord)
  | delete (address : RecordAddress)
  | get (address : RecordAddress)

namespace RecordOp

/-- The address an operation is about. -/
def address : RecordOp → RecordAddress
  | create record => record.address
  | update record => record.address
  | delete a => a
  | get a => a

/-- The operation of the store. -/
def prog : RecordOp → StoreM (Option IdempotencyRecord)
  | create record => do
    createIdempotencyRecord record
    pure none
  | update record => do
    updateIdempotencyRecord record
    pure none
  | delete a => do
    deleteIdempotencyRecord a.scope a.projectID a.key
    pure none
  | get a => do
    let record ← getIdempotencyRecord a.scope a.projectID a.key
    pure (some record)

end RecordOp

namespace Store

/-- The record at an address, unless another one is stored under the same key. -/
def recordOf (s : Store) (a : RecordAddress) : Option IdempotencyRecord :=
  (s.idempotency.get a.joined).filter fun record => record.address = a

/-- The store without the record at an address. -/
def withoutRecord (s : Store) (a : RecordAddress) : Store :=
  { s with idempotency := s.idempotency.filter fun record => record.address ≠ a }

end Store

/-- The operations on the first address do not depend on the record of the second one, and leave it
as it is. -/
def Separate (a b : RecordAddress) : Prop :=
  ∀ (op : RecordOp) (s : Store), op.address = a →
    (op.prog.run s).1 = (op.prog.run (s.withoutRecord b)).1 ∧
      (op.prog.run s).2.recordOf b = s.recordOf b

section Records

variable {a b : RecordAddress} {op : RecordOp} {s s' : Store}

theorem RecordOp.result_congr
    (h : s.idempotency.get op.address.joined = s'.idempotency.get op.address.joined) :
    (op.prog.run s).1 = (op.prog.run s').1 := by
  cases op with
  | create record =>
    have hget : s.idempotency.get (idempotencyKey record.scope record.projectID record.key) =
        s'.idempotency.get (idempotencyKey record.scope record.projectID record.key) := h
    simp only [prog, createIdempotencyRecord, Prog.run_bind, Prog.run_action, hget]
    cases s'.idempotency.get (idempotencyKey record.scope record.projectID record.key) <;> rfl
  | update record => rfl
  | delete a => rfl
  | get a =>
    have hget : s.idempotency.get (idempotencyKey a.scope a.projectID a.key) =
        s'.idempotency.get (idempotencyKey a.scope a.projectID a.key) := h
    simp only [prog, getIdempotencyRecord, Prog.run_bind, Prog.run_query, find, hget]
    cases s'.idempotency.get (idempotencyKey a.scope a.projectID a.key) <;> rfl

theorem RecordOp.get_run_of_ne {k : String} (hk : k ≠ op.address.joined) :
    (op.prog.run s).2.idempotency.get k = s.idempotency.get k := by
  cases op with
  | create record =>
    simp only [prog, createIdempotencyRecord, Prog.run_bind, Prog.run_action]
    cases s.idempotency.get (idempotencyKey record.scope record.projectID record.key) with
    | some _ => rfl
    | none => exact Table.get_put_of_ne _ hk
  | update record => exact Table.get_put_of_ne _ hk
  | delete a =>
    refine (Table.get_erase s.idempotency (idempotencyKey a.scope a.projectID a.key) k).trans ?_
    exact if_neg hk
  | get a =>
    simp only [prog, getIdempotencyRecord, Prog.run_bind, Prog.run_query]
    cases find "idempotency record" s.idempotency (idempotencyKey a.scope a.projectID a.key) <;> rfl

theorem joined_address {record : IdempotencyRecord} {k : String}
    (h : s.idempotency.get k = some record) : record.address.joined = k :=
  Table.key_of_get h

theorem get_withoutRecord {k : String} (hk : k ≠ b.joined) :
    (s.withoutRecord b).idempotency.get k = s.idempotency.get k := by
  refine Table.get_filter_of_forall _ fun record hget => decide_eq_true fun haddress => hk ?_
  rw [← haddress, joined_address hget]

/-- The record of an address, as a deployment stores it. -/
def pendingRecord (a : RecordAddress) : IdempotencyRecord where
  scope := a.scope
  projectID := a.projectID
  key := a.key
  requestHash := ""
  resource := "build_job"
  status := .pending
  createdAt := 0
  updatedAt := 0

theorem separate_iff : Separate a b ↔ a.joined ≠ b.joined := by
  constructor
  · intro h heq
    -- the record of the second address is returned for the first one
    let s : Store := { Store.new with idempotency := Table.empty.put (pendingRecord b) }
    have hget : s.idempotency.get a.joined = some (pendingRecord b) :=
      Table.get_put_of_key _ heq.symm
    have hwithout : (s.withoutRecord b).idempotency.get a.joined = none := by
      refine Option.eq_none_iff_forall_ne_some.mpr fun record hrecord => ?_
      obtain ⟨hs, hne⟩ := (Table.get_filter_eq_some _ _).mp hrecord
      rw [hget] at hs
      obtain rfl := Option.some.inj hs
      exact of_decide_eq_true hne rfl
    have hresult := (h (.get a) s rfl).1
    rw [RecordAddress.joined] at hget hwithout
    simp only [RecordOp.prog, getIdempotencyRecord, Prog.run_bind, Prog.run_query, find, hget,
      hwithout] at hresult
    cases hresult
  · rintro hne op s rfl
    refine ⟨RecordOp.result_congr (get_withoutRecord hne).symm, ?_⟩
    rw [Store.recordOf, Store.recordOf, RecordOp.get_run_of_ne hne.symm]

theorem toList_joined (a : RecordAddress) :
    a.joined.toList = a.scope.toList ++ ':' :: (a.projectID.toList ++ ':' :: a.key.toList) := by
  have hcolon : (":" : String).toList = [':'] := rfl
  simp [RecordAddress.joined, idempotencyKey, String.toList_append, hcolon]

theorem RecordAddress.joined_injective (ha : a.Colonless) (hb : b.Colonless)
    (h : a.joined = b.joined) : a = b := by
  have hlist := congrArg String.toList h
  rw [toList_joined, toList_joined, List.append_delimiter_inj ha.1 hb.1,
    List.append_delimiter_inj ha.2 hb.2] at hlist
  obtain ⟨scope, projectID, key⟩ := a
  obtain ⟨scope', projectID', key'⟩ := b
  obtain ⟨hscope, hproject, hkey⟩ := hlist
  obtain rfl : scope = scope' := String.toList_inj.mp hscope
  obtain rfl : projectID = projectID' := String.toList_inj.mp hproject
  obtain rfl : key = key' := String.toList_inj.mp hkey
  rfl

end Records

/-! ## Warm pools -/

/-- The pools of a host in a region. -/
def storedPools (s : Store) (region hostID : String) : List WarmPool :=
  s.warmPools.values.filter fun pool => pool.region == region && pool.hostID == hostID

/-- Replacing the pools of the first host by pools of its own leaves those of the second one. -/
def PoolsKept (region hostID region' hostID' : String) : Prop :=
  ∀ (s : Store) (pools : List WarmPool), (∀ p ∈ pools, p.region = region ∧ p.hostID = hostID) →
    ∀ pool, pool ∈ storedPools ((replaceWarmPoolsForHost region hostID pools).run s).2
      region' hostID' ↔ pool ∈ storedPools s region' hostID'

section Pools

variable {s : Store} {region hostID region' hostID' : String} {pool : WarmPool}

theorem mem_storedPools : pool ∈ storedPools s region hostID ↔
    s.warmPools.get (Keyed.key pool) = some pool ∧ pool.region = region ∧ pool.hostID = hostID := by
  simp [storedPools, Table.mem_values]

theorem startsWith_warmPoolKey (region hostID functionVersionID : String) :
    (warmPoolKey region hostID functionVersionID).startsWith (warmPoolKey region hostID "") =
      true := by
  rw [String.startsWith_string_iff, warmPoolKey, warmPoolKey, String.append_empty]
  rw [String.toList_append (t := functionVersionID)]
  exact List.prefix_append _ _

theorem key_of_host (hregion : pool.region = region) (hid : pool.hostID = hostID) :
    Keyed.key pool = warmPoolKey region hostID pool.functionVersionID := by
  rw [← hregion, ← hid]
  rfl

theorem warmPoolKey_prefix {functionVersionID : String} (hregion : ':' ∉ region.toList)
    (hid : ':' ∉ hostID.toList) (hregion' : ':' ∉ region'.toList) (hid' : ':' ∉ hostID'.toList)
    (h : (warmPoolKey region' hostID' functionVersionID).startsWith (warmPoolKey region hostID "") =
      true) : region = region' ∧ hostID = hostID' := by
  have hcolon : (":" : String).toList = [':'] := rfl
  rw [String.startsWith_string_iff] at h
  simp only [warmPoolKey, String.append_empty, String.toList_append, List.append_assoc, hcolon,
    List.cons_append, List.nil_append] at h
  obtain ⟨hr, h⟩ := List.prefix_delimiter hregion hregion' h
  obtain ⟨hh, -⟩ := List.prefix_delimiter hid hid' h
  exact ⟨String.toList_inj.mp hr, String.toList_inj.mp hh⟩

theorem mem_storedPools_replace {pools : List WarmPool}
    (hne : ∀ v, ¬ (warmPoolKey region' hostID' v).startsWith (warmPoolKey region hostID "") = true)
    (hown : ∀ p ∈ pools, p.region = region ∧ p.hostID = hostID) :
    pool ∈ storedPools { s with warmPools := pools.foldl .put (s.warmPools.filter fun p =>
        !(Keyed.key p).startsWith (warmPoolKey region hostID "")) } region' hostID' ↔
      pool ∈ storedPools s region' hostID' := by
  rw [mem_storedPools, mem_storedPools]
  refine and_congr_left ?_
  rintro ⟨hregion, hid⟩
  have hkey := key_of_host hregion hid
  -- no pool that is stored has the key of the other pool
  rw [Table.get_foldl_put_of_ne, Table.get_filter_eq_some]
  · refine and_iff_left ?_
    rw [hkey, Bool.not_eq_true', Bool.eq_false_iff]
    exact hne _
  · intro p hp heq
    have hstarts := startsWith_warmPoolKey region hostID p.functionVersionID
    rw [← key_of_host (hown p hp).1 (hown p hp).2, heq, hkey] at hstarts
    exact hne _ hstarts

theorem poolsKept_iff : PoolsKept region hostID region' hostID' ↔
    ∀ v, ¬ (warmPoolKey region' hostID' v).startsWith (warmPoolKey region hostID "") = true := by
  constructor
  · intro h v hstarts
    -- a pool under that key is dropped with those of the host
    let pool : WarmPool := { region := region', hostID := hostID', functionVersionID := v
                             updatedAt := 0 }
    let s : Store := { Store.new with warmPools := Table.empty.put pool }
    have hmem : pool ∈ storedPools s region' hostID' :=
      mem_storedPools.mpr ⟨Table.get_put_of_key _ rfl, rfl, rfl⟩
    have hkept := (h s [] (fun p hp => absurd hp List.not_mem_nil) pool).mpr hmem
    have hget : (s.warmPools.filter fun p =>
        !(Keyed.key p).startsWith (warmPoolKey region hostID "")).get (Keyed.key pool) =
      some pool :=
      (mem_storedPools.mp hkept).1
    have hdropped : (!(warmPoolKey region' hostID' v).startsWith (warmPoolKey region hostID "")) =
        true := ((Table.get_filter_eq_some _ _).mp hget).2
    rw [hstarts] at hdropped
    cases hdropped
  · intro hne s pools hown pool
    exact mem_storedPools_replace hne hown

end Pools

/-! ## What the keys keep apart -/

/-- The operations on one address keep the record of another exactly when the joined texts differ,
and replacing the pools of one host keeps those of another exactly when no key of the other starts
with the key of the host. Both hold for different addresses when the parts before the last one have
no colon. -/
theorem composite_keys_separate (a b : RecordAddress) (region hostID region' hostID' : String) :
    (Separate a b ↔ a.joined ≠ b.joined) ∧
    (PoolsKept region hostID region' hostID' ↔
      ∀ v, ¬ (warmPoolKey region' hostID' v).startsWith (warmPoolKey region hostID "") = true) ∧
    (a.Colonless → b.Colonless → a ≠ b → Separate a b) ∧
    (':' ∉ region.toList → ':' ∉ hostID.toList → ':' ∉ region'.toList → ':' ∉ hostID'.toList →
      (region, hostID) ≠ (region', hostID') → PoolsKept region hostID region' hostID') := by
  refine ⟨separate_iff, poolsKept_iff, ?_, ?_⟩
  · intro ha hb hne
    exact separate_iff.mpr fun h => hne (RecordAddress.joined_injective ha hb h)
  · intro hregion hid hregion' hid' hne
    refine poolsKept_iff.mpr fun v hstarts => hne ?_
    obtain ⟨rfl, rfl⟩ := warmPoolKey_prefix hregion hid hregion' hid' hstarts
    rfl

theorem composite_keys_separate_projects :
    Separate ⟨"deploy", "p", "k"⟩ ⟨"deploy", "q", "k"⟩ ∧ PoolsKept "eu" "h1" "eu" "h10" := by
  have hseparate := composite_keys_separate ⟨"deploy", "p", "k"⟩ ⟨"deploy", "q", "k"⟩
    "eu" "h1" "eu" "h10"
  refine ⟨hseparate.2.2.1 (by decide) (by decide) (by decide), ?_⟩
  exact hseparate.2.2.2 (by decide) (by decide) (by decide) (by decide) (by decide)

/-- A project and a key with a colon have the key of another project and key, and the pools of a
host whose identifier continues that of another one behind a colon are dropped with those. -/
theorem composite_keys_alias :
    (¬ ∀ a b : RecordAddress, a ≠ b → Separate a b) ∧
    ¬ ∀ region hostID region' hostID' : String, (region, hostID) ≠ (region', hostID') →
      PoolsKept region hostID region' hostID' := by
  constructor
  · intro h
    have hsep := h ⟨"deploy", "p:q", "k"⟩ ⟨"deploy", "p", "q:k"⟩ (by decide)
    exact separate_iff.mp hsep (by decide +kernel)
  · intro h
    have hkept := h "eu" "h" "eu" "h:1" (by decide)
    exact poolsKept_iff.mp hkept "" (by decide +kernel)

end Lecrev

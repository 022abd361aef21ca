import Lecrev.Concurrency.Claim
import Lecrev.Idempotency.Service

/-!
# Ownership of an idempotency record

Requests that share a key run side by side. At every moment at most one of them owns the record of
the key: the one whose insertion found no record. Only the owner completes or deletes the record,
and it deletes the record only when it has created nothing. `Shared.Shows` says how the phases of a
`Claim` show in the record, and `safe_idempotently` that the pattern keeps the protocol.
-/

namespace Lecrev

namespace Idempotency

open Claim (Phase)
open Claim.Scheme (Stays Moves)

variable {ι α : Type}

/-- The calls of the pattern, and the reads around it; none of them creates anything. -/
def plainCalls : List StoreCall :=
  [.createIdempotencyRecord, .updateIdempotencyRecord, .deleteIdempotencyRecord,
    .getIdempotencyRecord, .getExecutionJob, .getFunctionVersion,
    .countExecutionJobsByProjectStates]

/-- What the requests `ι` with one key share. -/
structure Shared (ι : Type) where
  scope : String
  projectID : String
  key : String
  /-- The hash of each request. -/
  fingerprint : ι → Except Err String
  /-- What the requests assume of the function versions. -/
  keeps : Store → Prop
  /-- The resource that a call creates, where that is one call. -/
  creates : StoreCall → Option String
  /-- The resource with which an owner completes the record when it has created the given one. -/
  names : Option String → String → Prop
  plain : ∀ l ∈ plainCalls, creates l = none
  frame : ∀ s s' : Store, s'.functions = s.functions → keeps s → keeps s'

namespace Shared

variable (K : Shared ι)

/-- The record of the key. -/
def record (s : Store) : Option IdempotencyRecord :=
  s.idempotency.get (idempotencyKey K.scope K.projectID K.key)

/-- How the phases show in the record: a pending record belongs to a request that may still create a
resource, and a completed one names the resource of its owner. -/
inductive Shows : Phase ι String → Store → Prop
  | free {s : Store} (hr : K.record s = none) : Shows .free s
  | held {i : ι} {made : Option String} {s : Store} {r : IdempotencyRecord}
      (hr : K.record s = some r) (hstatus : r.status = .pending)
      (hhash : K.fingerprint i = .ok r.requestHash) : Shows (.held i made) s
  | completed {i : ι} {id : String} {s : Store} {r : IdempotencyRecord}
      (hr : K.record s = some r) (hstatus : r.status = .completed) (hid : r.resourceID = id)
      (hhash : K.fingerprint i = .ok r.requestHash) : Shows (.completed i id) s

/-- The record as a claimed cell. -/
def scheme : Claim.Scheme ι StoreCall Store String where
  shows := K.Shows
  keeps := K.keeps
  creates := K.creates
  names := K.names

/-- The hash in the record. -/
def hashOf (s : Store) : Option (Except Err String) := (K.record s).map fun r => .ok r.requestHash

theorem hashOf_eq {p : Phase ι String} {s : Store} (h : K.scheme.Valid p s) :
    K.hashOf s = p.holder.map K.fingerprint := by
  unfold hashOf
  cases h.shows with
  | free hr => rw [hr]; rfl
  | held hr hstatus hhash => rw [hr, Phase.holder, Option.map_some, Option.map_some, hhash]
  | completed hr hstatus hid hhash =>
    rw [hr, Phase.holder, Option.map_some, Option.map_some, hhash]

theorem valid_held {i : ι} {made : Option String} {s s' : Store}
    (h : K.scheme.Valid (.held i made) s) (hrecord : K.record s' = K.record s) (hkeeps : K.keeps s')
    (made' : Option String) : K.scheme.Valid (.held i made') s' := by
  cases h.shows with
  | held hr hstatus hhash => exact ⟨.held (hrecord.trans hr) hstatus hhash, hkeeps⟩

/-- The record is that of a request which is being handled. -/
structure Pending (i : ι) (record : IdempotencyRecord) : Prop where
  key : (record.scope, record.projectID, record.key) = (K.scope, K.projectID, K.key)
  status : record.status = .pending
  hash : K.fingerprint i = .ok record.requestHash

/-- What a request knows when it has returned: a success is the resource that the record names, and
the request has the hash of the owner of the record. -/
def Answered (i : ι) (resourceID : α → String) (r : Except Err α) (p : Phase ι String)
    (_ : Store) : Prop :=
  ∀ a, r = .ok a → ∃ j, p = .completed j (resourceID a) ∧ K.fingerprint i = K.fingerprint j

variable {K} {i : ι} {p : Phase ι String} {s : Store}

theorem Pending.stored {record : IdempotencyRecord} (h : K.Pending i record) :
    Keyed.key record = idempotencyKey K.scope K.projectID K.key := by
  have hkey := h.key
  simp only [Prod.mk.injEq] at hkey
  obtain ⟨hscope, hproject, hkey⟩ := hkey
  change idempotencyKey record.scope record.projectID record.key = _
  rw [hscope, hproject, hkey]

theorem answered_error (resourceID : α → String) (e : Err) :
    K.Answered i resourceID (.error e) p s := nofun

theorem safe_throw (resourceID : α → String) (e : Err) :
    (Prog.throw e : StoreM α).Safe (K.scheme.protocol i) (K.Answered i resourceID) p s :=
  fun _ _ _ => answered_error resourceID e

theorem safe_read {l : StoreCall} (hl : l ∈ plainCalls) {f : Store → Except Err α} {R : α → Prop}
    (hread : ∀ t a, K.keeps t → f t = .ok a → R a) (hs : K.scheme.Valid p s) :
    (Prog.query l f : StoreM α).Safe (K.scheme.protocol i)
      (fun r p s => K.scheme.Valid p s ∧ ∀ a, r = .ok a → R a) p s :=
  Claim.Scheme.safe_query (K.plain l hl) hs
    (fun _ t hq _ _ _ hr _ => ⟨hr, fun a ha => hread t a hq.keeps ha⟩) fun _ _ _ hq _ => ⟨hq, nofun⟩

/-! ## The owner's calls -/

theorem safe_createIdempotencyRecord {record : IdempotencyRecord} (hrecord : K.Pending i record)
    (hs : K.scheme.Valid p s) :
    (createIdempotencyRecord record).Safe (K.scheme.protocol i)
      (fun r p s => K.scheme.Valid p s ∧ (r = .ok () → p = .held i none)) p s := by
  refine Claim.Scheme.safe_action hs (fun q t hq _ => ?_) fun e q t hq _ => ⟨hq, nofun⟩
  have hplain : K.creates .createIdempotencyRecord = none := K.plain _ (by decide)
  have hkey : idempotencyKey record.scope record.projectID record.key = _ := hrecord.stored
  rw [hkey]
  cases hget : t.idempotency.get (idempotencyKey K.scope K.projectID K.key) with
  | some r => exact ⟨q, hq, .stay hplain, fun r u hr _ => ⟨hr, nofun⟩⟩
  | none =>
    -- without a record the cell is free, and the insertion takes it
    obtain rfl : q = .free := by
      cases hq.shows with
      | free hr => rfl
      | held hr hstatus hhash => cases hget.symm.trans hr
      | completed hr hstatus hid hhash => cases hget.symm.trans hr
    refine ⟨.held i none, ⟨.held (Table.get_put_of_key _ hkey) hrecord.status hrecord.hash,
      K.frame t _ rfl hq.keeps⟩, .take hplain, fun r u hr hstays => ⟨hr, fun _ => ?_⟩⟩
    exact hstays.held none rfl

theorem safe_updateIdempotencyRecord {record : IdempotencyRecord} (hrecord : K.Pending i record)
    {made : Option String} {id : String} {now : Time} (hnames : K.names made id)
    (hs : K.scheme.Valid (.held i made) s) :
    (updateIdempotencyRecord (record.completedWith id now)).Safe (K.scheme.protocol i)
      (fun r p _ => r = .ok () → p = .completed i id) (.held i made) s := by
  refine Claim.Scheme.safe_action (f := fun t => (.ok (), _)) hs (fun q t hq hstays => ?_)
    fun e q t hq _ => nofun
  obtain rfl := hstays.held made rfl
  refine ⟨.completed i id, ⟨.completed (r := record.completedWith id now)
    (Table.get_put_of_key _ hrecord.stored) rfl rfl hrecord.hash, K.frame t _ rfl hq.keeps⟩,
    .complete (K.plain _ (by decide)) hnames, fun r u hr hstays _ => ?_⟩
  exact hstays.completed i id rfl

theorem safe_deleteIdempotencyRecord {record : IdempotencyRecord} (hrecord : K.Pending i record)
    (hs : K.scheme.Valid (.held i none) s) :
    (deleteIdempotencyRecord record.scope record.projectID record.key).Safe (K.scheme.protocol i)
      (fun _ _ _ => True) (.held i none) s := by
  refine Claim.Scheme.safe_action (f := fun t => (.ok (), _)) hs (fun q t hq hstays => ?_)
    fun _ _ _ _ _ => trivial
  obtain rfl := hstays.held none rfl
  refine ⟨.free, ⟨.free ?_, K.frame t _ rfl hq.keeps⟩, .release (K.plain _ (by decide)),
    fun _ _ _ _ => trivial⟩
  change (t.idempotency.erase (Keyed.key record)).get _ = none
  rw [hrecord.stored, Table.get_erase, if_pos rfl]

/-! ## Replays -/

theorem safe_getIdempotencyRecord (hs : K.scheme.Valid p s) :
    (getIdempotencyRecord K.scope K.projectID K.key).Safe (K.scheme.protocol i)
      (fun r p s => K.scheme.Valid p s ∧ ∀ record, r = .ok record → record.status = .completed →
        ∃ j, p = .completed j record.resourceID ∧ K.fingerprint j = .ok record.requestHash)
      p s := by
  refine Claim.Scheme.safe_query (K.plain _ (by decide)) hs (fun q t hq _ r u hr hstays => ?_)
    fun e q t hq _ => ⟨hq, nofun⟩
  refine ⟨hr, fun record hread hcompleted => ?_⟩
  have hget : K.record t = some record := find_eq_ok_iff.mp hread
  cases hq.shows with
  | free hnone => cases hget.symm.trans hnone
  | held hsome hstatus hhash =>
    obtain rfl := Option.some.inj (hget.symm.trans hsome)
    cases hcompleted.symm.trans hstatus
  | completed hsome hstatus hid hhash =>
    obtain rfl := Option.some.inj (hget.symm.trans hsome)
    subst hid
    exact ⟨_, hstays.completed _ _ rfl, hhash⟩

/-- Loading a resource is one plain read, and what is read has the name asked for. -/
def Loads (resourceID : α → String) (load : String → StoreM α) : Prop :=
  ∀ id, ∃ l f, load id = .query l f ∧ l ∈ plainCalls ∧ ∀ s a, f s = .ok a → resourceID a = id

theorem safe_replay {resourceID : α → String} {load : String → StoreM α}
    (hload : Loads resourceID load) {requestHash : String}
    (hhash : K.fingerprint i = .ok requestHash) (hs : K.scheme.Valid p s) :
    (replay K.scope K.projectID K.key requestHash load).Safe (K.scheme.protocol i)
      (K.Answered i resourceID) p s := by
  refine (safe_getIdempotencyRecord hs).bind (fun record q t ⟨hq, hread⟩ => ?_)
    fun e q t _ => answered_error resourceID e
  split_ifs with hconflict hprogress
  · exact safe_throw resourceID _
  · exact safe_throw resourceID _
  · rw [not_not] at hconflict
    rw [not_or, not_not] at hprogress
    obtain ⟨j, rfl, hj⟩ := hread record rfl hprogress.1
    obtain ⟨l, f, hquery, hl, hname⟩ := hload record.resourceID
    rw [hquery]
    -- the record stays as it is while the resource is read
    refine Claim.Scheme.safe_query (K.plain l hl) hq (fun r u hr hstays r' u' _ hstays' a ha => ?_)
      fun e r u _ _ => nofun
    refine ⟨j, ?_, ?_⟩
    · rw [hname u a ha]
      exact (hstays.trans hstays').completed j _ rfl
    · rw [hhash, hj, hconflict]

/-! ## The pattern -/

/-- What the owner knows when its creation has returned: after an error it has created nothing. -/
def Created (K : Shared ι) (i : ι) (resourceID : α → String) (r : Except Err α)
    (p : Phase ι String) (s : Store) : Prop :=
  K.scheme.Valid p s ∧
    match r with
    | .ok a => ∃ made, p = .held i made ∧ K.names made (resourceID a)
    | .error _ => p = .held i none

theorem safe_of_leavesRecords (hcreates : ∀ l, K.creates l = none) (hkeeps : ∀ s, K.keeps s)
    (hnames : ∀ made id, K.names made id) {create : StoreM α} (hcreate : LeavesRecords create)
    (resourceID : α → String) (hs : K.scheme.Valid (.held i none) s) :
    create.Safe (K.scheme.protocol i) (K.Created i resourceID) (.held i none) s := by
  refine (Claim.Scheme.safe_of_keeps (hcreate.keeps.mono fun l t t' _ hl => ?_) hs).mono ?_
  · refine ⟨hcreates l, fun ht => K.valid_held ht ?_ (hkeeps t') none⟩
    rw [record, hl, record]
  · rintro (e | a) q t ⟨rfl, hq⟩
    · exact ⟨hq, rfl⟩
    · exact ⟨hq, none, rfl, hnames _ _⟩

/-- A request with a key creates or replays. -/
theorem safe_idempotently {record : IdempotencyRecord} (hrecord : K.Pending i record)
    {completedAt : Time} {create : StoreM α} {resourceID : α → String} {replayed : StoreM α}
    (hcreate : ∀ s, K.scheme.Valid (.held i none) s →
      create.Safe (K.scheme.protocol i) (K.Created i resourceID) (.held i none) s)
    (hreplayed : ∀ p s, K.scheme.Valid p s →
      replayed.Safe (K.scheme.protocol i) (K.Answered i resourceID) p s)
    (hs : K.scheme.Valid p s) :
    (idempotently record completedAt create resourceID replayed).Safe (K.scheme.protocol i)
      (K.Answered i resourceID) p s := by
  refine (safe_createIdempotencyRecord hrecord hs).result_bind fun r q t ⟨hq, hheld⟩ => ?_
  split
  · exact hreplayed q t hq
  · exact safe_throw resourceID _
  · -- the insertion succeeded: the request owns the record until it has deleted or completed it
    obtain rfl := hheld rfl
    refine (hcreate t hq).result_bind fun r q t ⟨hq, hr⟩ => ?_
    cases r with
    | error e =>
      obtain rfl := hr
      refine (safe_deleteIdempotencyRecord hrecord hq).result_bind fun _ _ _ _ => ?_
      exact safe_throw resourceID _
    | ok a =>
      obtain ⟨made, rfl, hnames⟩ := hr
      refine (safe_updateIdempotencyRecord hrecord hnames hq).bind (fun _ q t hdone => ?_)
        fun e q t _ => answered_error resourceID e
      obtain rfl := hdone rfl
      rintro q' t' ⟨-, hstays⟩ a' ha'
      obtain rfl := Except.ok.inj ha'
      exact ⟨i, hstays.completed i _ rfl, rfl⟩

end Shared

end Idempotency

end Lecrev

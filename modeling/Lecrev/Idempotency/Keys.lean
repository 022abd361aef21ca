import Lecrev.Build.Effects
import Lecrev.Idempotency.Ownership

/-!
# One resource per key

Any number of requests with one project and one key run side by side, call by call, and every call
may fail.
-/

namespace Lecrev

namespace Idempotency

open Claim (Phase)

variable {ι α : Type}

/-! ## Invocations -/

/-- The job that a call stores. -/
def createdJob : StoreCall → Option String
  | .putExecutionJob id => some id
  | _ => none

/-- The jobs that the calls of a log created, most recent first. -/
def createdJobs (log : List (ι × StoreCall)) : List String :=
  log.filterMap fun entry => createdJob entry.2

/-- A call of `DispatchExecutionIdempotent`, with its service, its clock and its
`uuid.NewString`. -/
structure Invocation where
  scheduler : Scheduler
  clock : ℕ → Time
  id : String
  versionID : String
  payload : Bytes

namespace Invocation

variable (h : InvokeHash)

/-- The program of a call. -/
def prog (key : String) (v : Invocation) : StoreM ExecutionJob :=
  dispatchExecutionIdempotent v.scheduler h v.clock v.id v.versionID v.payload key

/-- The version and the normalized payload. -/
def request (v : Invocation) : String × Bytes := (v.versionID, normalizeJSON h.compact v.payload)

end Invocation

/-- There is a record for the key. -/
def HasRecord (scope projectID key : String) (s : Store) : Prop :=
  (s.idempotency.get (idempotencyKey scope projectID key)).isSome

/-- In the run `ms` from `c`, the thread `k` created the record of the key, and the record has been
there ever since. -/
def CreatedRecord [DecidableEq ι] (scope projectID key : String) (c : Pool ι StoreCall Store Err α)
    (ms : List (Pool.Move ι Err)) (k : ι) : Prop :=
  ∃ before after, ms = before ++ .run k :: after ∧
    ¬HasRecord scope projectID key (Pool.system.exec c before).state ∧
    Pool.system.EveryStep (fun c m => HasRecord scope projectID key (c.step m).state)
      (Pool.system.exec c before) (.run k :: after)

/-- The calls before their first step. -/
def invocations (h : InvokeHash) (key : String) (s : Store) (calls : ι → Invocation) :
    Pool ι StoreCall Store Err ExecutionJob :=
  Pool.start s fun i => (calls i).prog h key

/-- What a run of calls with one key has done. -/
structure OneJob [DecidableEq ι] (h : InvokeHash) (projectID key : String) (s : Store)
    (calls : ι → Invocation) (ms : List (Pool.Move ι Err)) : Prop where
  /-- At most one job was created. -/
  created : (createdJobs (Pool.system.exec (invocations h key s calls) ms).log).length ≤ 1
  /-- A call that succeeded returned the job that was created. -/
  answered : ∀ i job,
    (Pool.system.exec (invocations h key s calls) ms).progs i = .ret (.ok job) →
      createdJobs (Pool.system.exec (invocations h key s calls) ms).log = [job.id]
  /-- While the record exists, no call succeeds whose request differs from its creator's. -/
  refused : ∀ i k, CreatedRecord "invoke" projectID key (invocations h key s calls) ms k →
    (calls i).request h ≠ (calls k).request h →
      ∀ job, (Pool.system.exec (invocations h key s calls) ms).progs i ≠ .ret (.ok job)

/-- What the calls share: the versions they name belong to one project. -/
def invokeShared (h : InvokeHash) (projectID key : String) (calls : ι → Invocation) :
    Shared ι where
  scope := "invoke"
  projectID := projectID
  key := key
  fingerprint i := invokeRequestHash h (calls i).versionID (calls i).payload
  keeps s := ∀ i v, s.functions.get (calls i).versionID = some v → v.projectID = projectID
  creates := createdJob
  names made id := made = some id
  plain := by decide
  frame s s' hfunctions hs := by rwa [hfunctions]

/-- The call `v` of the request `i` works under the key that the requests share. -/
structure Shared.Invokes (K : Shared ι) (h : InvokeHash) (i : ι) (v : Invocation) : Prop where
  scope : K.scope = "invoke"
  hash : invokeRequestHash h v.versionID v.payload = K.fingerprint i
  version : ∀ s version, K.keeps s → s.functions.get v.versionID = some version →
    version.projectID = K.projectID
  creates : K.creates = createdJob
  names : ∀ id, K.names (some id) id

section Invoke

variable {h : InvokeHash}

section Safe

variable {K : Shared ι} {i : ι} {v : Invocation} {p : Phase ι String} {s : Store}

/-- Enqueueing creates the job of its key. -/
theorem safe_enqueueExecution (hcreates : K.creates = createdJob)
    (hnames : ∀ id, K.names (some id) id) (sch : Scheduler) (now : Time) (id : String)
    (version : FunctionVersion) (payload : Bytes) (hs : K.scheme.Valid (.held i none) s) :
    (enqueueExecution sch now id version payload).Safe (K.scheme.protocol i)
      (K.Created i ExecutionJob.id) (.held i none) s := by
  -- the quota check only reads
  have hquota : (enforceExecutionQuota sch version.projectID).Keeps (fun _ => True) fun l s s' =>
      createdJob l = none ∧ s' = s := by
    unfold enforceExecutionQuota
    split_ifs
    · exact Prog.keeps_pure _
    · refine (Prog.keeps_query fun s _ => ⟨rfl, rfl⟩).bind_of fun count => ?_
      split_ifs
      · exact Prog.keeps_throw _
      · exact Prog.keeps_pure _
  refine (Claim.Scheme.safe_of_keeps (hquota.mono ?_) hs).bind (fun _ q t hq => ?_)
    fun e q t hq => ⟨hq.2, hq.1⟩
  · rintro l s s' - ⟨hl, rfl⟩
    exact ⟨(congrFun hcreates l).trans hl, fun hs => hs⟩
  obtain ⟨rfl, hq⟩ := hq
  refine Prog.Safe.bind (Q := K.Created i fun _ => id)
    (Claim.Scheme.safe_action (f := fun t => (.ok (), _)) hq (fun r u hr hstays => ?_)
      fun e r u hr hstays => ⟨hr, hstays.held none rfl⟩) (fun _ r u hr => ?_) fun e r u hr => hr
  · -- `putExecutionJob` is the step from an owner without a job to one with it
    obtain rfl := hstays.held none rfl
    refine ⟨.held i (some id), ?_, .make (congrFun hcreates _), fun r u hr hstays => ?_⟩
    · refine K.valid_held hr ?_ ?_ (some id)
      · rfl
      · exact K.frame u _ rfl hr.keeps
    · exact ⟨hr, some id, hstays.held _ rfl, hnames id⟩
  · obtain ⟨hu, made, rfl, hmade⟩ := hr
    rintro r' u' ⟨hvalid, hstays⟩
    exact ⟨hvalid hu, made, hstays.held made rfl, hmade⟩

theorem loads_getExecutionJob : Shared.Loads ExecutionJob.id getExecutionJob := fun _ =>
  ⟨_, _, rfl, by decide, fun _ _ h => Store.jobID_of_get (find_eq_ok_iff.mp h)⟩

theorem Shared.Invokes.safe (hv : K.Invokes h i v) (hkey : K.key ≠ "")
    (hs : K.scheme.Valid p s) :
    (v.prog h K.key).Safe (K.scheme.protocol i) (K.Answered i ExecutionJob.id) p s := by
  have hversion : (getFunctionVersion v.versionID).Safe (K.scheme.protocol i)
      (fun r p s => K.scheme.Valid p s ∧
        ∀ version, r = .ok version → version.projectID = K.projectID) p s :=
    Shared.safe_read (by decide)
      (fun t version ht hread => hv.version t version ht (find_eq_ok_iff.mp hread)) hs
  refine hversion.bind (fun version q t ⟨hq, hproject⟩ => ?_)
    fun e q t _ => Shared.answered_error ExecutionJob.id e
  -- the record is keyed by the project of the version, which is the same for all calls
  rw [if_pos hkey, hproject version rfl]
  cases hhash : invokeRequestHash h v.versionID v.payload with
  | error e => exact Shared.safe_throw ExecutionJob.id e
  | ok requestHash =>
    have hfingerprint : K.fingerprint i = .ok requestHash := hv.hash.symm.trans hhash
    change (idempotently _ _ _ _ _).Safe _ _ q t
    rw [← hv.scope]
    refine Shared.safe_idempotently ⟨rfl, rfl, hfingerprint⟩
      (fun s hs => safe_enqueueExecution hv.creates hv.names _ _ _ _ _ hs) (fun p s hs => ?_) hq
    rw [replayExecution, ← hv.scope]
    exact Shared.safe_replay loads_getExecutionJob hfingerprint hs

end Safe

variable {projectID key : String} {calls : ι → Invocation} {s : Store}

theorem invokes_invokeShared (i : ι) :
    (invokeShared h projectID key calls).Invokes h i (calls i) where
  scope := rfl
  hash := rfl
  version _ version hs hget := hs i version hget
  creates := rfl
  names _ := rfl

variable [DecidableEq ι]

theorem allSafe_invocations (hkey : key ≠ "")
    (hversions : ∀ i v, s.functions.get (calls i).versionID = some v → v.projectID = projectID)
    (hnew : s.idempotency.get (idempotencyKey "invoke" projectID key) = none)
    (ms : List (Pool.Move ι Err)) :
    Pool.AllSafe (invokeShared h projectID key calls).scheme.protocol
      (fun i => (invokeShared h projectID key calls).Answered i ExecutionJob.id)
      (invokeShared h projectID key calls).scheme.Recorded
      (Pool.system.exec (invocations h key s calls) ms) := by
  have hvalid : (invokeShared h projectID key calls).scheme.Valid .free s := ⟨.free hnew, hversions⟩
  refine Pool.exec_safe (Claim.Scheme.compatible_protocol _)
    (Claim.Scheme.keeping_recorded _ fun _ _ hnames => hnames) ?_
    (Claim.Scheme.admits_protocol _ _ _)
  exact ⟨.free, ⟨hvalid, rfl⟩, fun i => (invokes_invokeShared i).safe hkey hvalid⟩

theorem hashOf_of_createdRecord (hkey : key ≠ "")
    (hversions : ∀ i v, s.functions.get (calls i).versionID = some v → v.projectID = projectID)
    (hnew : s.idempotency.get (idempotencyKey "invoke" projectID key) = none)
    {ms : List (Pool.Move ι Err)} {k : ι}
    (hk : CreatedRecord "invoke" projectID key (invocations h key s calls) ms k) :
    (invokeShared h projectID key calls).hashOf
        (Pool.system.exec (invocations h key s calls) ms).state =
      some ((invokeShared h projectID key calls).fingerprint k) := by
  obtain ⟨before, after, rfl, habsent, hpresent⟩ := hk
  obtain ⟨q, hq, hsafe⟩ := allSafe_invocations (h := h) hkey hversions hnew before
  rw [Transition.System.exec_append]
  refine Claim.Scheme.Following.read_exec (fun p s => Shared.hashOf_eq _) ⟨q, hq.valid, hsafe⟩ ?_
    (hpresent.mono fun c m hm => ?_)
  · exact Option.map_eq_none_iff.mpr (Option.not_isSome_iff_eq_none.mp habsent)
  · exact (Option.isSome_map ..).trans hm

/-- **Invocations with one key** create at most one job, and return it. -/
theorem oneJob (hfree : h.CollisionFree) (hkey : key ≠ "")
    (hversions : ∀ i v, s.functions.get (calls i).versionID = some v → v.projectID = projectID)
    (hnew : s.idempotency.get (idempotencyKey "invoke" projectID key) = none)
    (ms : List (Pool.Move ι Err)) :
    OneJob h projectID key s calls ms := by
  obtain ⟨p, hp, hsafe⟩ := allSafe_invocations (h := h) hkey hversions hnew ms
  -- a call that has succeeded found the record completed, or completed it
  have hanswered : ∀ i job,
      (Pool.system.exec (invocations h key s calls) ms).progs i = .ret (.ok job) →
      ∃ j, p = .completed j job.id ∧
        (invokeShared h projectID key calls).fingerprint i =
          (invokeShared h projectID key calls).fingerprint j := by
    intro i job hret
    have hi := hsafe i
    rw [hret] at hi
    exact hi.ret_post job rfl
  have hcreated : createdJobs (Pool.system.exec (invocations h key s calls) ms).log =
      p.made.toList := hp.made
  constructor
  case created =>
    rw [hcreated]
    cases p.made <;> simp
  case answered =>
    intro i job hret
    obtain ⟨j, rfl, -⟩ := hanswered i job hret
    exact hcreated
  case refused =>
    intro i k hk hdiffer job hret
    -- the record holds the hash of its creator, and that of every call that succeeded
    obtain ⟨j, rfl, hij⟩ := hanswered i job hret
    have hcreator := hashOf_of_createdRecord (h := h) hkey hversions hnew hk
    rw [Shared.hashOf_eq _ hp.valid] at hcreator
    have hjk := Option.some.inj hcreator
    cases hp.valid.shows with
    | completed hrecord hstatus hid hhash =>
      exact hdiffer (hfree _ _ _ _ _ (hij.trans hhash) (hjk.symm.trans hhash))

end Invoke

/-! ## Deploys -/

/-- A call of `CreateFunctionVersion`. -/
structure Deploy where
  builder : Builder
  run : BuildRun
  req : DeployRequest

/-- The calls before their first step. -/
def deploys (s : Store) (calls : ι → Deploy) : Pool ι StoreCall Store Err FunctionVersion :=
  Pool.start s fun i => (calls i).builder.createFunctionVersion (calls i).run (calls i).req

/-- What deploys share. Their creation is not one call, and is not followed here. -/
def deployShared (projectID key : String) (calls : ι → Deploy) : Shared ι where
  scope := "deploy"
  projectID := projectID
  key := key
  fingerprint i := deployRequestHash (calls i).builder (calls i).req
  keeps _ := True
  creates _ := none
  names _ _ := True
  plain _ _ := rfl
  frame _ _ _ _ := trivial

theorem loads_getFunctionVersion : Shared.Loads FunctionVersion.id getFunctionVersion := fun _ =>
  ⟨_, _, rfl, by decide, fun _ _ h => Table.key_of_get (find_eq_ok_iff.mp h)⟩

theorem Deploy.safe {projectID key : String} {calls : ι → Deploy} {i : ι} {p : Phase ι String}
    {s : Store} (hkey : key ≠ "")
    (hcall : (calls i).req.projectID = projectID ∧ (calls i).req.idempotencyKey = key)
    (hs : (deployShared projectID key calls).scheme.Valid p s) :
    ((calls i).builder.createFunctionVersion (calls i).run (calls i).req).Safe
      ((deployShared projectID key calls).scheme.protocol i)
      ((deployShared projectID key calls).Answered i FunctionVersion.id) p s := by
  obtain ⟨hproject, hkey'⟩ := hcall
  rw [Builder.createFunctionVersion, if_pos (hkey'.symm ▸ hkey), createFunctionVersionIdempotent,
    hproject, hkey']
  cases hhash : deployRequestHash (calls i).builder (calls i).req with
  | error e => exact Shared.safe_throw FunctionVersion.id e
  | ok requestHash =>
    change (idempotently _ _ _ _ _).Safe _ _ p s
    refine Shared.safe_idempotently ⟨rfl, rfl, hhash⟩ (fun s hs => ?_) (fun p s hs => ?_) hs
    · -- an error of the build may leave a version behind; its record is deleted all the same
      exact Shared.safe_of_leavesRecords (fun _ => rfl) (fun _ => trivial) (fun _ _ => trivial)
        (LeavesRecords.createFunctionVersion _ _ _) FunctionVersion.id hs
    · exact Shared.safe_replay (K := deployShared projectID key calls) loads_getFunctionVersion
        hhash hs

theorem oneVersion [DecidableEq ι] {projectID key : String} {calls : ι → Deploy} {s : Store}
    (hkey : key ≠ "")
    (hcalls : ∀ i, (calls i).req.projectID = projectID ∧ (calls i).req.idempotencyKey = key)
    (hnew : s.idempotency.get (idempotencyKey "deploy" projectID key) = none)
    (ms : List (Pool.Move ι Err)) {i j : ι} {v w : FunctionVersion}
    (hi : (Pool.system.exec (deploys s calls) ms).progs i = .ret (.ok v))
    (hj : (Pool.system.exec (deploys s calls) ms).progs j = .ret (.ok w)) : v.id = w.id := by
  have hvalid : (deployShared projectID key calls).scheme.Valid .free s := ⟨.free hnew, trivial⟩
  obtain ⟨p, -, hsafe⟩ := Pool.exec_safe (c := deploys s calls)
    (Claim.Scheme.compatible_protocol (deployShared projectID key calls).scheme)
    (Claim.Scheme.keeping_valid _) ⟨.free, hvalid, fun i => Deploy.safe hkey (hcalls i) hvalid⟩
    (Claim.Scheme.admits_protocol _ _ ms)
  have hsafei := hsafe i
  have hsafej := hsafe j
  rw [hi] at hsafei
  rw [hj] at hsafej
  -- both returned what the one completed record names
  obtain ⟨k, hk, -⟩ := hsafei.ret_post v rfl
  obtain ⟨k', hk', -⟩ := hsafej.ret_post w rfl
  exact (Phase.completed.inj (hk.symm.trans hk')).2

/-! ## One resource per key -/

/-- **Idempotency keys.** In every interleaving of invocations with one project and one key, at most
one job is created, every call that succeeds returns it, and no call with another request succeeds
while the record exists. In every interleaving of deploys with one project and one key, all calls
that succeed return one function version. -/
theorem one_resource_per_key (projectID key : String) (hkey : key ≠ "") :
    (∀ (ι : Type) [DecidableEq ι] (h : InvokeHash) (s : Store) (calls : ι → Invocation)
      (ms : List (Pool.Move ι Err)), h.CollisionFree →
      (∀ i v, s.functions.get (calls i).versionID = some v → v.projectID = projectID) →
      s.idempotency.get (idempotencyKey "invoke" projectID key) = none →
      OneJob h projectID key s calls ms) ∧
    ∀ (ι : Type) [DecidableEq ι] (s : Store) (calls : ι → Deploy) (ms : List (Pool.Move ι Err)),
      (∀ i, (calls i).req.projectID = projectID ∧ (calls i).req.idempotencyKey = key) →
      s.idempotency.get (idempotencyKey "deploy" projectID key) = none →
      ∀ i j v w, (Pool.system.exec (deploys s calls) ms).progs i = .ret (.ok v) →
        (Pool.system.exec (deploys s calls) ms).progs j = .ret (.ok w) → v.id = w.id :=
  ⟨fun _ _ _ _ _ ms hfree hversions hnew => oneJob hfree hkey hversions hnew ms,
    fun _ _ _ _ ms hcalls hnew _ _ _ _ hi hj => oneVersion hkey hcalls hnew ms hi hj⟩

namespace Sample

def hash : InvokeHash where
  compact := some
  hash versionID payload :=
    if (versionID, payload) = ("version", [1]) then .ok "first"
    else if (versionID, payload) = ("version", [2]) then .ok "second"
    else .error (.other "unsupported value")

def request : DeployRequest :=
  { BuildSample.request with regions := [], idempotencyKey := "key" }

def normalized : DeployRequest :=
  { request with
    runtime := "node22"
    memoryMB := 128
    timeoutSec := 30
    networkPolicy := .full
    regions := defaultExecutionRegions }

def run (versionID : String) : BuildRun := { BuildSample.run with versionID }

def builder : Builder := { BuildSample.builder with bus := some fun _ _ => .ok () }

def store : Store :=
  { Store.new with functions := Table.empty.put (newFunctionVersion (run "version") request) }

def calls (i : Fin 3) : Invocation where
  scheduler := { dispatchers := fun _ => none }
  clock _ := 2
  id := if i = 0 then "job" else "other"
  versionID := "version"
  payload := if i = 2 then [2] else [1]

def moves : List (Pool.Move (Fin 3) Err) :=
  [.run 0, .run 0, .run 1, .run 1, .run 2, .run 2, .run 0, .run 0, .run 0, .run 1, .run 1, .run 2]

def deployCalls (first : Bool) : Deploy where
  builder := builder
  run := run (if first then "version" else "other")
  req := request

def deployMoves : List (Pool.Move Bool Err) :=
  List.replicate 7 (.run true) ++ List.replicate 3 (.run false)

def job : ExecutionJob :=
  newExecutionJob "job" (newFunctionVersion (run "version") request) [1] 2

def version : FunctionVersion := newFunctionVersion (run "version") normalized

theorem collisionFree_hash : hash.CollisionFree := by
  intro versionID payload versionID' payload' digest hdigest hdigest'
  simp only [hash] at hdigest hdigest'
  have hne : (Except.ok "first" : Except Err String) ≠ .ok "second" := by decide
  split_ifs at hdigest hdigest' with h₁ h₂ h₂ h₂ h₃ h₃
  · exact h₁.trans h₂.symm
  · exact absurd (hdigest.trans hdigest'.symm) hne
  · exact absurd (hdigest'.trans hdigest.symm) hne
  · exact h₂.trans h₃.symm

end Sample

open Sample in
theorem one_resource_per_key_sample :
    ((Pool.system.exec (invocations hash "key" store calls) moves).progs 0 = .ret (.ok job) ∧
      (Pool.system.exec (invocations hash "key" store calls) moves).progs 1 = .ret (.ok job) ∧
      (Pool.system.exec (invocations hash "key" store calls) moves).progs 2 =
        .ret (.error .idempotencyConflict) ∧
      CreatedRecord "invoke" "project" "key" (invocations hash "key" store calls) moves 0 ∧
      OneJob hash "project" "key" store calls moves) ∧
    (Pool.system.exec (deploys .new deployCalls) deployMoves).progs true = .ret (.ok version) ∧
    (Pool.system.exec (deploys .new deployCalls) deployMoves).progs false = .ret (.ok version) ∧
    ∀ i j v w, (Pool.system.exec (deploys .new deployCalls) deployMoves).progs i = .ret (.ok v) →
      (Pool.system.exec (deploys .new deployCalls) deployMoves).progs j = .ret (.ok w) →
      v.id = w.id := by
  have hkeys := one_resource_per_key "project" "key" (by decide)
  refine ⟨⟨rfl, rfl, rfl, ?_, ?_⟩, rfl, rfl, ?_⟩
  · refine ⟨[.run 0], _, rfl, nofun, ?_⟩
    exact ⟨rfl, rfl, rfl, rfl, rfl, rfl, rfl, rfl, rfl, rfl, rfl, trivial⟩
  · refine hkeys.1 _ _ _ _ _ collisionFree_hash (fun i v hv => ?_) rfl
    exact Option.some.inj hv ▸ rfl
  · exact hkeys.2 _ _ _ _ (fun i => ⟨rfl, rfl⟩) rfl

end Idempotency

end Lecrev

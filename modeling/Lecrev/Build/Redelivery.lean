import Lecrev.Build.Effects
import Lecrev.Concurrency.RelyGuarantee

/-!
# Ready versions under redelivery

The build bus may deliver an assignment again while an earlier delivery is still running, or after
it stopped. `ProcessBuildJob` only checks that the build job is not stored as succeeded, and then
resets the version, publishes it, and marks it as failed when a later step fails. -/

namespace Lecrev

/-- The state, the digest and the entrypoint of a stored version. -/
def Store.published (s : Store) (versionID : String) : Option (FunctionState × String × String) :=
  (s.functions.get versionID).map fun version =>
    (version.state, version.artifactDigest, version.entrypoint)

variable {buildJobID : String}

namespace Redelivery

/-- One delivery of an assignment: the worker that gets it, its clock and its tokens. -/
structure Delivery where
  builder : Builder
  run : BuildRun

variable {ι : Type} [DecidableEq ι]

/-- Deliveries of one build assignment, side by side. -/
def deliveries (s : Store) (buildJobID : String) (ds : ι → Delivery) :
    Pool ι StoreCall Store Err Unit :=
  .start s fun i => processBuildJob (ds i).builder (ds i).run buildJobID

/-- A version that is ready in `s` is published in the same way in `s'`. -/
def ReadyKept (versionID : String) (s s' : Store) : Prop :=
  ∀ digest entrypoint, s.published versionID = some (.ready, digest, entrypoint) →
    s'.published versionID = some (.ready, digest, entrypoint)

/-- The delivery `i` reads the build job while it is not stored as succeeded; this is its first
call. -/
def ReadsUnfinished (buildJobID : String) (c : Pool ι StoreCall Store Err Unit)
    (ms : List (Pool.Move ι Err)) (i : ι) : Prop :=
  ∃ ms₁ ms₂, ms = ms₁ ++ .run i :: ms₂ ∧ (∀ m ∈ ms₁, m.thread ≠ i) ∧
    ∃ job, (Pool.system.exec c ms₁).state.buildJobs.get buildJobID = some job ∧
      job.state ≠ .succeeded

/-- The version is ready, and the next call of the delivery `i` is a `PutFunctionVersion`. -/
def AboutToWrite (versionID : String) (c : Pool ι StoreCall Store Err Unit) (i : ι) : Prop :=
  (∃ digest entrypoint, c.state.published versionID = some (.ready, digest, entrypoint)) ∧
    ∃ eff next fail, c.progs i = .call .putFunctionVersion eff next fail

/-- The delivery `i` stores a version after the version `versionID` has become ready. -/
def WritesReady (versionID : String) (c : Pool ι StoreCall Store Err Unit)
    (ms : List (Pool.Move ι Err)) (i : ι) : Prop :=
  ∃ ms₁ ms₂, ms = ms₁ ++ .run i :: ms₂ ∧ AboutToWrite versionID (Pool.system.exec c ms₁) i

/-- Every delivery only makes calls of a build. -/
abbrev Building (c : Pool ι StoreCall Store Err Unit) : Prop :=
  c.Guarded (fun _ => True) fun _ => BuildScope.all.Write

omit [DecidableEq ι] in
theorem building_deliveries (s : Store) (buildJobID : String) (ds : ι → Delivery) :
    Building (deliveries s buildJobID ds) :=
  ⟨trivial, fun i => (Within.processBuildJob (ds i).builder (ds i).run buildJobID).keeps⟩

/-- A version that is ready is only changed by a `PutFunctionVersion`. -/
theorem readyKept_step {versionID : String} {c : Pool ι StoreCall Store Err Unit} (hc : Building c)
    {m : Pool.Move ι Err} (hm : ∀ i, m = .run i → ¬ AboutToWrite versionID c i) :
    ReadyKept versionID c.state (c.step m).state := by
  intro digest entrypoint hready
  cases m with
  | fail i e =>
    cases hprog : c.progs i with
    | ret r => rwa [Pool.step_fail_of_ret hprog]
    | call l eff next fail => rwa [Pool.step_fail hprog]
  | run i =>
    cases hprog : c.progs i with
    | ret r => rwa [Pool.step_run_of_ret hprog]
    | call l eff next fail =>
      have hl : l ≠ .putFunctionVersion := by
        rintro rfl
        exact hm i rfl ⟨⟨digest, entrypoint, hready⟩, eff, next, fail, hprog⟩
      have hcalls := hc.keeps i
      rw [hprog] at hcalls
      have hsame := (hcalls.1 c.state trivial).2.1.functions_eq hl
      rw [Pool.step_run hprog]
      rwa [Store.published, hsame]

/-! ## Deliveries after the build job has succeeded -/

/-- Nothing may change. -/
def frozen : Protocol StoreCall Store Unit where
  rely _ s _ s' := s' = s
  guar _ _ s _ s' := s' = s
  meets _ _ := True
  fallible _ := True
  rely_refl _ _ := rfl
  rely_trans h h' := h'.trans h

theorem safe_processBuildJob_of_succeeded (d : Delivery) {s : Store} {job : BuildJob}
    (hget : s.buildJobs.get buildJobID = some job) (hstate : job.state = .succeeded) :
    (processBuildJob d.builder d.run buildJobID).Safe frozen (fun _ _ _ => True) () s := by
  refine (Prog.safe_query (P := frozen) (J := fun _ s' => s' = s) rfl
    (fun hrely h => hrely.trans h) fun _ => rfl).bind (fun read _ s' h => ?_)
    fun _ _ _ _ => trivial
  obtain ⟨-, hread⟩ := h
  obtain ⟨_, s₀, rfl, hfind, -⟩ := hread read rfl
  rw [find_of_get _ hget] at hfind
  cases hfind
  rw [if_pos hstate]
  exact fun _ _ _ => trivial

/-- Deliveries of a succeeded job change nothing. -/
theorem exec_state_of_succeeded {s : Store} {job : BuildJob}
    (hget : s.buildJobs.get buildJobID = some job) (hstate : job.state = .succeeded)
    (ds : ι → Delivery) (ms : List (Pool.Move ι Err)) :
    (Pool.system.exec (deliveries s buildJobID ds) ms).state = s := by
  have hsafe : Pool.AllSafe (fun _ => frozen) (fun _ _ _ _ => True) (fun _ s' _ => s' = s)
      (Pool.system.exec (deliveries s buildJobID ds) ms) := by
    refine Pool.exec_safe_of_total (fun _ _ _ _ _ _ _ _ h => h) (fun _ _ _ _ _ _ _ h hs => ?_)
      (fun _ _ _ => trivial) (fun _ _ => trivial) ⟨(), rfl, fun i => ?_⟩ ms
    · exact h.trans hs
    · exact safe_processBuildJob_of_succeeded (ds i) hget hstate
  obtain ⟨-, hs, -⟩ := hsafe
  exact hs

/-! ## Deliveries that read an unfinished job -/

theorem ReadsUnfinished.append {c : Pool ι StoreCall Store Err Unit} {ms : List (Pool.Move ι Err)}
    {i : ι} (h : ReadsUnfinished buildJobID c ms i) (ms' : List (Pool.Move ι Err)) :
    ReadsUnfinished buildJobID c (ms ++ ms') i := by
  obtain ⟨ms₁, ms₂, rfl, hfirst⟩ := h
  exact ⟨ms₁, ms₂ ++ ms', by simp, hfirst⟩

/-- The first call of a delivery: it goes on only if it finds the build job unfinished. -/
theorem first_move {c : Pool ι StoreCall Store Err Unit} {d : Delivery} {m : Pool.Move ι Err}
    (hprog : c.progs m.thread = processBuildJob d.builder d.run buildJobID) :
    (∃ job, m = .run m.thread ∧ c.state.buildJobs.get buildJobID = some job ∧
        job.state ≠ .succeeded) ∨
      ∃ r, (c.step m).progs m.thread = .ret r := by
  cases m with
  | fail i e => exact .inr ⟨.error e, Pool.progs_step_fail hprog e⟩
  | run i =>
    have hnext := Pool.progs_step_run hprog
    dsimp only at hnext
    cases hget : c.state.buildJobs.get buildJobID with
    | none =>
      rw [find_of_get_none _ hget] at hnext
      exact .inr ⟨_, hnext⟩
    | some job =>
      by_cases hstate : job.state = .succeeded
      · rw [find_of_get _ hget] at hnext
        refine .inr ⟨.ok (), hnext.trans ?_⟩
        show (if job.state = .succeeded then _ else _) = _
        rw [if_pos hstate]
        rfl
      · exact .inl ⟨job, rfl, rfl, hstate⟩

/-- **What a delivery has done.** After any run it has made no move yet, or it has read the build
job while that was unfinished, or it has returned. -/
theorem delivery_cases (s : Store) (buildJobID : String) (ds : ι → Delivery)
    (ms : List (Pool.Move ι Err)) (i : ι) :
    ((∀ m ∈ ms, m.thread ≠ i) ∧ (Pool.system.exec (deliveries s buildJobID ds) ms).progs i =
        processBuildJob (ds i).builder (ds i).run buildJobID) ∨
      ReadsUnfinished buildJobID (deliveries s buildJobID ds) ms i ∨
      ∃ r, (Pool.system.exec (deliveries s buildJobID ds) ms).progs i = .ret r := by
  -- the induction follows the run from its start, one move at a time
  induction ms using List.reverseRecOn with
  | nil => exact .inl ⟨nofun, rfl⟩
  | append_singleton ms m ih =>
    rw [Transition.System.exec_append]
    rcases ih with ⟨hnone, hprog⟩ | hearly | ⟨r, hret⟩
    · by_cases hm : i = m.thread
      · subst hm
        rcases first_move hprog with ⟨job, hrun, hget, hstate⟩ | hret
        · rw [hrun]
          exact .inr (.inl ⟨ms, [], rfl, hnone, job, hget, hstate⟩)
        · exact .inr (.inr hret)
      · refine .inl ⟨fun m' hm' => ?_, (Pool.progs_step_of_ne hm).trans hprog⟩
        rcases List.mem_append.mp hm' with hm' | hm'
        · exact hnone m' hm'
        · rw [List.mem_singleton.mp hm']
          exact Ne.symm hm
    · exact .inr (.inl (hearly.append [m]))
    · exact .inr (.inr ⟨r, Pool.progs_step_of_ret hret m⟩)

/-- A delivery that stores a version has read the build job while it was unfinished. -/
theorem readsUnfinished_of_put (s : Store) (buildJobID : String) (ds : ι → Delivery)
    (ms : List (Pool.Move ι Err)) {i : ι} {eff : Store → Store} {next : Store → StoreM Unit}
    {fail : Err → StoreM Unit}
    (hprog : (Pool.system.exec (deliveries s buildJobID ds) ms).progs i =
      .call .putFunctionVersion eff next fail) :
    ReadsUnfinished buildJobID (deliveries s buildJobID ds) ms i := by
  obtain ⟨-, hfirst⟩ | hearly | ⟨r, hret⟩ := delivery_cases s buildJobID ds ms i
  · -- the first call of a delivery is `GetBuildJob`
    exact nomatch hprog.symm.trans hfirst
  · exact hearly
  · exact nomatch hprog.symm.trans hret

/-- **When a ready version is immutable.** Take any interleaving of deliveries of one build
assignment, each of which may fail at every call or stop at any point. If no delivery that read the
build job before it was stored as succeeded stores the version after it has become ready, then a
version that is ready keeps its state, its digest and its entrypoint for the rest of the run: the
deliveries that read the job later store nothing. If the build job was stored as succeeded before
the deliveries started, no version changes at all. -/
theorem ready_immutable (versionID buildJobID : String) (s : Store) (ds : ι → Delivery)
    (ms : List (Pool.Move ι Err)) :
    ((∀ i, ReadsUnfinished buildJobID (deliveries s buildJobID ds) ms i →
        ¬ WritesReady versionID (deliveries s buildJobID ds) ms i) →
      Pool.system.Ordered (fun c c' => ReadyKept versionID c.state c'.state)
        (deliveries s buildJobID ds) ms) ∧
    ∀ job, s.buildJobs.get buildJobID = some job → job.state = .succeeded →
      (Pool.system.exec (deliveries s buildJobID ds) ms).state = s := by
  refine ⟨fun hlate => ?_, fun job hget hstate => exec_state_of_succeeded hget hstate ds ms⟩
  rw [← Transition.System.everyStep_iff_ordered (fun _ _ _ => id)
    fun _ _ _ h h' d e hready => h' d e (h d e hready)]
  refine Pool.system.everyStep_iff_forall_split.mpr fun ms₁ m ms₂ hms => ?_
  have hbuilding : Building (Pool.system.exec (deliveries s buildJobID ds) ms₁) :=
    Pool.system.exec_invariant ms₁ (building_deliveries s buildJobID ds)
      fun c m hc => (hc.step_cases m).1
  refine readyKept_step hbuilding ?_
  rintro i rfl hwrites
  obtain ⟨-, eff, next, fail, hprog⟩ := id hwrites
  have hearly := (readsUnfinished_of_put s buildJobID ds ms₁ hprog).append (.run i :: ms₂)
  rw [← hms] at hearly
  exact hlate i hearly ⟨ms₁, ms₂, hms, hwrites⟩

namespace Sample

open BuildSample (request)

def delivery : Delivery := ⟨BuildSample.builder, BuildSample.run⟩

def store : Store :=
  { Store.new with
    functions := Table.empty.put (newFunctionVersion delivery.run request)
    buildJobs := Table.empty.put (newBuildJob delivery.builder delivery.run request) }

def publish {ι : Type} (i : ι) : List (Pool.Move ι Err) := List.replicate 13 (.run i)

end Sample

open Sample in
theorem ready_immutable_sample :
    Pool.system.Ordered (fun c c' => ReadyKept "version" c.state c'.state)
      (deliveries store "build" fun _ : Bool => delivery)
      (publish true ++ List.replicate 6 (.run true) ++ [.run false]) := by
  refine (ready_immutable "version" "build" store (fun _ => delivery) _).1 fun i _ hwrites => ?_
  obtain ⟨ms₁, ms₂, hms, hwrites⟩ := hwrites
  have hquiet : Pool.system.EveryStep (fun c m => ∀ i, m = .run i → ¬ AboutToWrite "version" c i)
      (deliveries store "build" fun _ : Bool => delivery)
      (publish true ++ List.replicate 6 (.run true) ++ [.run false]) := by
    refine ⟨?_, ?_, ?_, ?_, ?_, ?_, ?_, ?_, ?_, ?_, ?_, ?_, ?_, ?_, ?_, ?_, ?_, ?_, ?_, ?_,
      trivial⟩
    -- the two calls that store the version are made before it is ready
    all_goals rintro i ⟨⟩ ⟨⟨digest, entrypoint, hready⟩, eff, next, fail, ⟨⟩⟩
    all_goals cases hready
  exact Pool.system.everyStep_iff_forall_split.mp hquiet ms₁ (.run i) ms₂ hms i rfl hwrites

open Sample in
/-- A delivery that stops after it has published the version leaves the build job running; the next
delivery resets the version. And a single delivery takes the version back when a step after the
publication fails. -/
theorem not_ready_immutable :
    ¬ (∀ (s : Store) (ds : Bool → Delivery) (ms : List (Pool.Move Bool Err)),
      Pool.system.Ordered (fun c c' => ReadyKept "version" c.state c'.state)
        (deliveries s "build" ds) ms) ∧
    ¬ ∀ (s : Store) (ds : Unit → Delivery) (ms : List (Pool.Move Unit Err)),
      Pool.system.Ordered (fun c c' => ReadyKept "version" c.state c'.state)
        (deliveries s "build" ds) ms := by
  constructor
  · intro h
    have hkept := h store (fun _ => delivery) _ (publish true) (List.replicate 3 (.run false)) []
      rfl
    exact absurd (hkept _ "index.js" rfl) (by decide)
  · intro h
    have hkept := h store (fun _ => delivery) _ (publish ())
      (.fail () (.other "connection lost") :: List.replicate 3 (.run ())) [] rfl
    exact absurd (hkept _ "index.js" rfl) (by decide)

end Redelivery

end Lecrev

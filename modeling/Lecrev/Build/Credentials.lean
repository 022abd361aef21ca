import Lecrev.Build.Delivery

/-!
# Git credentials in the record of a build job

Two deploys that differ in the user information of their git URL are compared: the same calls are
made for both, with the same answers of the bus and of the build steps, while the object store may
refuse any put. `TwoRuns` are the pairs of stores that the two deploys and any number of later
deliveries of the build job lead to.

The record of the job holds the request as it came until a delivery stores the job as running. From
then on the two records agree (`JobPair`), provided that `url.Parse` accepts both URLs. What remains
are the jobs that fail before a delivery: when the bus refuses the job, `markBuildFailed` stores the
request as it came.
-/

namespace Lecrev

/-! ## URLs that differ in the user information -/

/-- No character of the text is one of the given ones. -/
def Without (chars : List Char) (text : String) : Prop := ∀ c ∈ text.toList, c ∉ chars

theorem without_iff {chars : List Char} {text : String} :
    Without chars text ↔ (text.toList.all fun c => !chars.contains c) = true := by
  simp [Without]

/-- `scheme://user@host` followed by a path, a query or a fragment. -/
def urlWith (scheme : String) (user : Option String) (host tail : String) : String :=
  scheme ++ "://" ++ user.elim "" (· ++ "@") ++ host ++ tail

/-- Two URLs with the same scheme, host and rest. The delimiters that end a part do not occur in
it. -/
inductive SameButUser : String → String → Prop
  | mk (scheme host tail : String) (user user' : Option String)
      (hscheme : Without [':', '/', '?', '#'] scheme)
      (hhost : Without ['@', '/', '?', '#'] host)
      (htail : ∀ c, tail.toList.head? = some c → c ∈ ['/', '?', '#'])
      (huser : ∀ text, user = some text → Without ['@', '/', '?', '#'] text)
      (huser' : ∀ text, user' = some text → Without ['@', '/', '?', '#'] text) :
    SameButUser (urlWith scheme user host tail) (urlWith scheme user' host tail)

/-- What is known of `net/url`: a URL may be rejected, and when it is accepted, its user information
can be removed. -/
def NetURL (withoutUser : String → Option String) : Prop :=
  ∀ url url' bare bare', SameButUser url url' → withoutUser url = some bare →
    withoutUser url' = some bare' → bare = bare'

theorem SameButUser.ne_empty {url url' : String} (h : SameButUser url url') :
    url ≠ "" ∧ url' ≠ "" := by
  cases h with
  | mk scheme host tail user user' _ _ _ _ _ =>
    constructor <;>
    · intro h
      have := congrArg String.toList h
      simp [urlWith, String.toList_append] at this

section Sanitize

variable {b : Builder} {url url' : String}

theorem sanitizeGitURL_eq (hnet : NetURL b.withoutUser)
    (hsame : SameButUser (trimSpace url) (trimSpace url'))
    (haccepts : (b.withoutUser (trimSpace url)).isSome)
    (haccepts' : (b.withoutUser (trimSpace url')).isSome) :
    sanitizeGitURL b url = sanitizeGitURL b url' := by
  obtain ⟨bare, hbare⟩ := Option.isSome_iff_exists.mp haccepts
  obtain ⟨bare', hbare'⟩ := Option.isSome_iff_exists.mp haccepts'
  rw [sanitizeGitURL, if_neg hsame.ne_empty.1, hbare, sanitizeGitURL, if_neg hsame.ne_empty.2,
    hbare', hnet _ _ _ _ hsame hbare hbare', Option.getD_some, Option.getD_some]

theorem sanitizeGitURL_trimSpace (b : Builder) (url : String) :
    sanitizeGitURL b (trimSpace url) = sanitizeGitURL b url := by
  rw [sanitizeGitURL, trimSpace_trimSpace, sanitizeGitURL]

theorem sanitizeGitURL_congr {w : Builder} (hurl : w.withoutUser = b.withoutUser) (url : String) :
    sanitizeGitURL w url = sanitizeGitURL b url := by
  rw [sanitizeGitURL, hurl, sanitizeGitURL]

theorem sanitizeDeployRequestForStorage_withGitURL {req : DeployRequest}
    (h : sanitizeGitURL b req.source.gitURL = sanitizeGitURL b url) :
    sanitizeDeployRequestForStorage b (req.withGitURL url) =
      sanitizeDeployRequestForStorage b req := by
  simp only [sanitizeDeployRequestForStorage, DeployRequest.withGitURL, h]

theorem buildMetadataForRequest_withGitURL {req : DeployRequest}
    (h : sanitizeGitURL b req.source.gitURL = sanitizeGitURL b url)
    (hblank : trimSpace url = "" ↔ trimSpace req.source.gitURL = "") :
    buildMetadataForRequest b (req.withGitURL url) = buildMetadataForRequest b req := by
  have henvironment : deploymentEnvironment (req.withGitURL url).source =
    deploymentEnvironment req.source := by rfl
  have hurl : (req.withGitURL url).source.gitURL = url := rfl
  have href : (req.withGitURL url).source.gitRef = req.source.gitRef := rfl
  simp only [buildMetadataForRequest, henvironment, hurl, href, sanitizeGitURL_trimSpace, h, hblank]

end Sanitize

namespace Credentials

/-! ## Two deploys and their deliveries -/

/-- In this run only the object store fails. -/
def OnlyObjectsFail {α : Type} (p : StoreM α) (faults : ℕ → Option Err) (s : Store) : Prop :=
  ∀ l e, (l, some e) ∈ (p.runWith faults s).calls → l = .putObject

/-- The build steps of two requests fail alike. When they succeed, what they find out about the
repository is the same; `prepareGitWorkspace` adds it to the metadata of the request. -/
def SameSteps (b : Builder) (req req' : DeployRequest) : Prop :=
  match (b.prepareBuildOutput req).2, (b.prepareBuildOutput req').2 with
  | .ok prepared, .ok prepared' => ∃ captured,
    prepared.metadata = mergeBuildMetadata (buildMetadataForRequest b req) captured ∧
      prepared'.metadata = mergeBuildMetadata (buildMetadataForRequest b req') captured
  | .error _, .error _ => True
  | _, _ => False

/-- The state of a build. -/
def jobState (s : Store) (buildJobID : String) : Option BuildState :=
  (s.buildJobs.get buildJobID).map (·.state)

/-- The stores that a deploy of `req`, and one of the same request for another git URL, lead to from
one store, and then any number of deliveries. Every service uses the same `url.Parse`. The failures
are alike in so far as the job is in the same state in both stores when it is delivered again. -/
inductive TwoRuns (b : Builder) (run : BuildRun) (req : DeployRequest) (gitURL : String)
    (s : Store) : Store → Store → Prop
  | created (faults faults' : ℕ → Option Err)
      (h : OnlyObjectsFail (createFunctionVersion b run req) faults s)
      (h' : OnlyObjectsFail (createFunctionVersion b run (req.withGitURL gitURL)) faults' s) :
    TwoRuns b run req gitURL s
      ((createFunctionVersion b run req).runWith faults s).state
      ((createFunctionVersion b run (req.withGitURL gitURL)).runWith faults' s).state
  | delivered {t t' : Store} (before : TwoRuns b run req gitURL s t t') (w : Builder)
      (run' : BuildRun) (faults faults' : ℕ → Option Err)
      (hstate : jobState t run.buildJobID = jobState t' run.buildJobID)
      (hurl : w.withoutUser = b.withoutUser)
      (hsteps : ∀ r, normalizeDeployRequest req = .ok r → SameSteps w r (r.withGitURL gitURL))
      (h : OnlyObjectsFail (processBuildJob w run' run.buildJobID) faults t)
      (h' : OnlyObjectsFail (processBuildJob w run' run.buildJobID) faults' t') :
    TwoRuns b run req gitURL s
      ((processBuildJob w run' run.buildJobID).runWith faults t).state
      ((processBuildJob w run' run.buildJobID).runWith faults' t').state

/-- Whenever both deploys have left the build job in a final state, the records of the job hold the
same request and the same metadata. -/
def Forgotten (b : Builder) (run : BuildRun) (req : DeployRequest) (gitURL : String) (s : Store) :
    Prop :=
  ∀ t t' j j', TwoRuns b run req gitURL s t t' →
    t.buildJobs.get run.buildJobID = some j → t'.buildJobs.get run.buildJobID = some j' →
    j.state.Terminal → j'.state.Terminal → j.request = j'.request ∧ j.metadata = j'.metadata

/-! ## What one run makes of the record -/

/-- The request that a delivery stores. -/
def requestAfter (w : Builder) (request : DeployRequest) : DeployRequest :=
  match normalizeDeployRequest request with
  | .error _ => request
  | .ok req => sanitizeDeployRequestForStorage w req

/-- The metadata of a build job that a delivery has ended. -/
def metadataAfter (w : Builder) (request : DeployRequest) (metadata : List (String × String)) :
    List (String × String) :=
  match normalizeDeployRequest request with
  | .error _ => metadata
  | .ok req => w.metadataAfter req metadata

/-- What a delivery of the job `j` may leave behind. -/
structure Delivered (w : Builder) (j j₁ : BuildJob) : Prop where
  request : j₁.request = requestAfter w j.request
  metadata : j₁.metadata =
    if j₁.state.Terminal then metadataAfter w j.request j.metadata else j.metadata
  state : j₁.state ≠ .queued

/-- Only the object store may fail. -/
def Objects (l : StoreCall) : Prop := l = .putObject

/-- The build and its version are stored. -/
structure Stored (t : Store) (buildJobID : String) (j : BuildJob) : Prop where
  job : t.buildJobs.get buildJobID = some j
  version : (t.functions.get j.functionVersionID).isSome

theorem delivered_of_proceeds {w : Builder} {j : BuildJob} {req : DeployRequest} {now : Time}
    (hreq : normalizeDeployRequest j.request = .ok req) {t : Store}
    (ht : Proceeds (j.started (sanitizeDeployRequestForStorage w req) now)
      (w.metadataAfter req j.metadata) t) :
    ∃ j₁, Stored t j.id j₁ ∧ Delivered w j j₁ := by
  obtain ⟨j₁, hget, hj₁⟩ := ht.stored
  have hrequest : requestAfter w j.request = sanitizeDeployRequestForStorage w req := by
    rw [requestAfter, hreq]
  have hmetadata : metadataAfter w j.request j.metadata = w.metadataAfter req j.metadata := by
    rw [metadataAfter, hreq]
  obtain rfl | hending := hj₁
  · have hrunning := BuildDelivery.not_terminal_started j
      (sanitizeDeployRequestForStorage w req) now
    refine ⟨_, ⟨hget, ht.version⟩, hrequest.symm, ?_, by simp [BuildJob.started]⟩
    rw [if_neg hrunning, BuildJob.started]
  · have hterminal : j₁.state.Terminal := hending.state.symm
    refine ⟨j₁, ⟨hget, ?_⟩, hending.request.trans hrequest.symm, ?_, ?_⟩
    · rw [hending.functionVersionID]
      exact ht.version
    · rw [if_pos hterminal, hmetadata, hending.metadata]
    · intro hqueued
      rw [hqueued] at hterminal
      exact absurd hterminal (by decide)

/-- What a delivery leaves of the job. -/
theorem ends_processBuildJob (w : Builder) (run : BuildRun) {buildJobID : String} {j : BuildJob}
    {t : Store} (ht : Stored t buildJobID j) (hstate : j.state ≠ .succeeded) :
    (processBuildJob w run buildJobID).Ends Objects
      (fun _ t₁ => ∃ j₁, Stored t₁ buildJobID j₁ ∧ Delivered w j j₁) t := by
  obtain ⟨version, hversion⟩ := Option.isSome_iff_exists.mp ht.version
  have hid : j.id = buildJobID := Table.key_of_get ht.job
  have hversionID : version.id = j.functionVersionID := Table.key_of_get hversion
  refine FailedDeploy.ends_find (by simp [Objects]) ht.job ?_
  rw [if_neg hstate]
  refine FailedDeploy.ends_find (by simp [Objects]) hversion ?_
  cases hreq : normalizeDeployRequest j.request with
  | error e =>
    -- the request is no longer accepted: the job fails as it is
    have hfailed : Delivered w j { j with
        state := .failed, error := e.text, updatedAt := run.clock 9 } := by
      refine ⟨?_, ?_, by simp⟩
      · simp only [requestAfter, hreq]
      · simp only [metadataAfter, hreq, ite_self]
    unfold markBuildFailed
    refine Prog.ends_bind.mpr (Prog.ends_modify.mpr ⟨?_, fun h => by cases h⟩)
    refine Prog.ends_bind.mpr (Prog.ends_modify.mpr ⟨?_, fun h => by cases h⟩)
    refine Prog.ends_throw.mpr ⟨_, ⟨Table.get_put_of_key _ hid, ?_⟩, hfailed⟩
    change ((t.functions.put { version with state := .failed }).get _).isSome
    rw [Table.get_put_of_key _ hversionID, Option.isSome_some]
  | ok req =>
    dsimp only
    refine Prog.ends_bind.mpr (Prog.ends_modify.mpr ⟨?_, fun h => by cases h⟩)
    refine Prog.ends_bind.mpr (Prog.ends_modify.mpr ⟨?_, fun h => by cases h⟩)
    rw [Prog.after_ok]
    have hown : version.rebuilding.id = (j.started (sanitizeDeployRequestForStorage w req)
      (run.clock 1)).functionVersionID := hversionID
    refine (BuildDelivery.ends_of_within (BuildDelivery.within_prepareVersion w run req _ _)
      (BuildDelivery.proceeds_begun hown _ t)).mono fun _ t₁ h => ?_
    rw [← hid]
    exact delivered_of_proceeds hreq h

theorem ends_processBuildJob_of_succeeded (w : Builder) (run : BuildRun) {buildJobID : String}
    {j : BuildJob} {t : Store} (ht : Stored t buildJobID j) (hstate : j.state = .succeeded) :
    (processBuildJob w run buildJobID).Ends Objects (fun _ t₁ => t₁ = t) t := by
  refine FailedDeploy.ends_find (by simp [Objects]) ht.job ?_
  rw [if_pos hstate, Prog.ends_pure]

theorem ends_processBuildJob_of_none (w : Builder) (run : BuildRun) {buildJobID : String}
    {t : Store} (ht : t.buildJobs.get buildJobID = none) :
    (processBuildJob w run buildJobID).Ends Objects (fun _ t₁ => t₁ = t) t := by
  refine Prog.ends_bind.mpr (Prog.ends_query.mpr ⟨?_, fun h => by cases h⟩)
  rw [find, ht]
  rfl

/-- The record that a deploy leaves behind: the job is as it was created, or it has been delivered
in the deploy. -/
def Created (b : Builder) (run : BuildRun) (r : DeployRequest) (t : Store) : Prop :=
  ∀ j, t.buildJobs.get run.buildJobID = some j → Stored t run.buildJobID j ∧
    (j = newBuildJob b run r ∨ Delivered b (newBuildJob b run r) j)

theorem created_of_accepted {b : Builder} {run : BuildRun} {r : DeployRequest} {t : Store}
    (ht : t.Accepted b run r) : Created b run r t := by
  intro j hj
  obtain rfl := Option.some.inj (ht.job.symm.trans hj)
  refine ⟨⟨hj, ?_⟩, .inl rfl⟩
  exact Option.isSome_iff_exists.mpr ⟨_, ht.version⟩

/-- What a deploy leaves of the job. -/
theorem ends_createFunctionVersion {b : Builder} {run : BuildRun} {req r : DeployRequest}
    (hr : normalizeDeployRequest req = .ok r) {s : Store}
    (hfresh : s.buildJobs.get run.buildJobID = none)
    (hbus : ∀ publish, b.bus = some publish →
      publish (pickBuildRegion r.regions) run.buildJobID = .ok ()) :
    (createFunctionVersion b run req).Ends Objects (fun _ t => Created b run r t) s := by
  refine Lecrev.ends_createFunctionVersion hr (fun _ j hj => ?_) (fun _ t ht => ?_) fun t ht => ?_
  · rw [hfresh] at hj
    cases hj
  · exact created_of_accepted (ht ⟨fun h => (by cases h), fun h => (by cases h)⟩)
  · have hstored : Stored t run.buildJobID (newBuildJob b run r) :=
      ⟨ht.job, Option.isSome_iff_exists.mpr ⟨_, ht.version⟩⟩
    unfold FailedDeploy.afterAnnouncement
    cases hb : b.bus with
    | some publish =>
      refine Prog.ends_bind.mpr (Prog.ends_result.mpr (Prog.ends_query.mpr
        ⟨?_, fun h => by cases h⟩))
      have htaken : publish (newBuildJob b run r).targetRegion (newBuildJob b run r).id = .ok () :=
        hbus publish hb
      rw [htaken]
      exact Prog.ends_pure.mpr (created_of_accepted ht)
    | none =>
      refine Prog.ends_bind.mpr ((ends_processBuildJob b run hstored
        BuildDelivery.newBuildJob_state_ne).mono fun result t₁ ⟨j₁, hj₁, hdelivered⟩ => ?_)
      have hcreated : Created b run r t₁ := by
        intro j hj
        obtain rfl := Option.some.inj (hj₁.job.symm.trans hj)
        exact ⟨hj₁, .inr hdelivered⟩
      cases result with
      | error e => exact hcreated
      | ok _ => exact Prog.ends_query.mpr ⟨hcreated, fun h => by cases h⟩

/-! ## Two records -/

/-- The records of the two deploys, whenever the job is in the same state in both, or has ended in
both: as they were created, or the same request and metadata. -/
def JobPair (r r' : DeployRequest) (j j' : BuildJob) : Prop :=
  j.state = j'.state ∨ (j.state.Terminal ∧ j'.state.Terminal) →
    (j.state = .queued ∧ j.request = r ∧ j'.request = r' ∧ j.metadata = j'.metadata) ∨
      (j.request = j'.request ∧ j.metadata = j'.metadata)

section Pair

variable {w : Builder} {r r' : DeployRequest} {j j' j₁ j₁' : BuildJob}

theorem jobPair_of_delivered (h : Delivered w j j₁) (h' : Delivered w j' j₁')
    (hrequest : requestAfter w j.request = requestAfter w j'.request)
    (hmetadata : j.metadata = j'.metadata)
    (hended : metadataAfter w j.request j.metadata = metadataAfter w j'.request j.metadata) :
    JobPair r r' j₁ j₁' := by
  intro hstates
  have hterminal : j₁.state.Terminal ↔ j₁'.state.Terminal := by
    obtain hsame | hboth := hstates
    · rw [hsame]
    · exact iff_of_true hboth.1 hboth.2
  refine .inr ⟨?_, ?_⟩
  · rw [h.request, h'.request, hrequest]
  · rw [h.metadata, h'.metadata, ← hmetadata, hended]
    simp only [hterminal]

/-- What the delivery of two created records stores. -/
structure SameDelivery (w : Builder) (r r' : DeployRequest) : Prop where
  request : requestAfter w r = requestAfter w r'
  metadata : ∀ metadata, metadataAfter w r metadata = metadataAfter w r' metadata

theorem JobPair.delivered (hpair : JobPair r r' j j') (hstate : j.state = j'.state)
    (hsame : SameDelivery w r r') (h : Delivered w j j₁) (h' : Delivered w j' j₁') :
    JobPair r r' j₁ j₁' := by
  obtain ⟨-, hr, hr', hmetadata⟩ | ⟨hrequest, hmetadata⟩ := hpair (.inl hstate)
  · refine jobPair_of_delivered h h' ?_ hmetadata ?_
    · rw [hr, hr', hsame.request]
    · rw [hr, hr', hsame.metadata]
  · refine jobPair_of_delivered h h' ?_ hmetadata ?_
    · rw [hrequest]
    · rw [hrequest]

end Pair

/-! ## Two runs -/

section Runs

variable {b : Builder} {run : BuildRun} {req r : DeployRequest} {gitURL : String} {s t t' : Store}

theorem metadataAfter_eq_of_sameSteps {w : Builder} {r r' : DeployRequest}
    (hsteps : SameSteps w r r') (hbase : buildMetadataForRequest w r = buildMetadataForRequest w r')
    (metadata : List (String × String)) :
    w.metadataAfter r metadata = w.metadataAfter r' metadata := by
  unfold SameSteps at hsteps
  unfold Builder.metadataAfter
  split at hsteps
  · next prepared prepared' hout hout' =>
    obtain ⟨captured, hcaptured, hcaptured'⟩ := hsteps
    rw [hout, hout']
    dsimp only
    rw [hcaptured, hcaptured', hbase]
  · next e e' hout hout' => rw [hout, hout']
  · exact hsteps.elim

theorem sameDelivery_withGitURL {w : Builder} (hr : normalizeDeployRequest r = .ok r)
    (hblank : trimSpace gitURL = "" ↔ trimSpace r.source.gitURL = "")
    (hsanitized : sanitizeGitURL w r.source.gitURL = sanitizeGitURL w gitURL)
    (hsteps : SameSteps w r (r.withGitURL gitURL)) : SameDelivery w r (r.withGitURL gitURL) := by
  have hr' := normalizeDeployRequest_withGitURL hblank hr
  have hbase := buildMetadataForRequest_withGitURL hsanitized hblank
  constructor
  · rw [requestAfter, hr, requestAfter, hr']
    exact (sanitizeDeployRequestForStorage_withGitURL hsanitized).symm
  · intro metadata
    rw [metadataAfter, hr, metadataAfter, hr']
    exact metadataAfter_eq_of_sameSteps hsteps hbase.symm metadata

/-- The two records of the job, when both stores hold one. -/
def StorePair (run : BuildRun) (r r' : DeployRequest) (t t' : Store) : Prop :=
  ∀ j j', t.buildJobs.get run.buildJobID = some j → t'.buildJobs.get run.buildJobID = some j' →
    Stored t run.buildJobID j ∧ Stored t' run.buildJobID j' ∧ JobPair r r' j j'

theorem storePair_of_created {r' : DeployRequest} (h : Created b run r t)
    (h' : Created b run r' t')
    (hmetadata : buildMetadataForRequest b r = buildMetadataForRequest b r')
    (hsame : SameDelivery b r r') : StorePair run r r' t t' := by
  intro j j' hj hj'
  obtain ⟨hstored, hcreated⟩ := h j hj
  obtain ⟨hstored', hcreated'⟩ := h' j' hj'
  have hnew : JobPair r r' (newBuildJob b run r) (newBuildJob b run r') := by
    intro _
    refine .inl ⟨rfl, rfl, rfl, ?_⟩
    simp only [newBuildJob, hmetadata]
  refine ⟨hstored, hstored', ?_⟩
  obtain rfl | hdelivered := hcreated
  · obtain rfl | hdelivered' := hcreated'
    · exact hnew
    · -- a queued job is never compared with one that has been delivered
      intro hstates
      obtain hstate | ⟨hterminal, -⟩ := hstates
      · exact absurd hstate.symm hdelivered'.state
      · exact absurd hterminal (by simp [newBuildJob, BuildState.Terminal])
  · obtain rfl | hdelivered' := hcreated'
    · intro hstates
      obtain hstate | ⟨-, hterminal⟩ := hstates
      · exact absurd hstate hdelivered.state
      · exact absurd hterminal (by simp [newBuildJob, BuildState.Terminal])
    · exact hnew.delivered rfl hsame hdelivered hdelivered'

/-- A delivery in both runs keeps the pair alike. -/
theorem StorePair.delivered {w : Builder} {run' : BuildRun} {r' : DeployRequest}
    {faults faults' : ℕ → Option Err} (hpair : StorePair run r r' t t')
    (hstate : jobState t run.buildJobID = jobState t' run.buildJobID)
    (hsame : SameDelivery w r r')
    (h : OnlyObjectsFail (processBuildJob w run' run.buildJobID) faults t)
    (h' : OnlyObjectsFail (processBuildJob w run' run.buildJobID) faults' t') :
    StorePair run r r' ((processBuildJob w run' run.buildJobID).runWith faults t).state
      ((processBuildJob w run' run.buildJobID).runWith faults' t').state := by
  cases hget : t.buildJobs.get run.buildJobID with
  | none =>
    -- without a record in one store there is nothing to compare
    have hkept := (ends_processBuildJob_of_none w run' hget).runWith h
    intro j j' hj
    rw [hkept, hget] at hj
    cases hj
  | some j =>
    rw [jobState, hget, jobState] at hstate
    obtain ⟨j', hget', hstate'⟩ := Option.map_eq_some_iff.mp hstate.symm
    obtain ⟨hstored, hstored', hjobs⟩ := hpair j j' hget hget'
    by_cases hsucceeded : j.state = .succeeded
    · have hkept := (ends_processBuildJob_of_succeeded w run' hstored hsucceeded).runWith h
      have hkept' := (ends_processBuildJob_of_succeeded w run' hstored'
        (hstate'.trans hsucceeded)).runWith h'
      rwa [hkept, hkept']
    · obtain ⟨j₁, hj₁, hdelivered⟩ :=
        (ends_processBuildJob w run' hstored hsucceeded).runWith h
      obtain ⟨j₁', hj₁', hdelivered'⟩ :=
        (ends_processBuildJob w run' hstored' (by rwa [hstate'])).runWith h'
      intro k k' hk hk'
      obtain rfl := Option.some.inj (hj₁.job.symm.trans hk)
      obtain rfl := Option.some.inj (hj₁'.job.symm.trans hk')
      exact ⟨hj₁, hj₁', hjobs.delivered hstate'.symm hsame hdelivered hdelivered'⟩

theorem storePair_of_twoRuns (hr : normalizeDeployRequest req = .ok r)
    (hfresh : s.buildJobs.get run.buildJobID = none)
    (hblank : trimSpace gitURL = "" ↔ trimSpace req.source.gitURL = "")
    (hsanitized : sanitizeGitURL b req.source.gitURL = sanitizeGitURL b gitURL)
    (hsteps : SameSteps b r (r.withGitURL gitURL))
    (hbus : ∀ publish, b.bus = some publish →
      publish (pickBuildRegion r.regions) run.buildJobID = .ok ())
    (h : TwoRuns b run req gitURL s t t') : StorePair run r (r.withGitURL gitURL) t t' := by
  have hsource : r.source = req.source := (normalized_of_normalizeDeployRequest hr).source
  have hnormal := normalizeDeployRequest_of_normalized hr
  have hr' := normalizeDeployRequest_withGitURL hblank hr
  rw [← hsource] at hblank hsanitized
  induction h with
  | created faults faults' h h' =>
    have hcreated := (ends_createFunctionVersion hr hfresh hbus).runWith h
    have hcreated' := (ends_createFunctionVersion hr' hfresh hbus).runWith h'
    have hmetadata := (buildMetadataForRequest_withGitURL hsanitized hblank).symm
    exact storePair_of_created hcreated hcreated' hmetadata
      (sameDelivery_withGitURL hnormal hblank hsanitized hsteps)
  | delivered before w run' faults faults' hstate hurl hsteps' h h' ih =>
    have hworker : sanitizeGitURL w r.source.gitURL = sanitizeGitURL w gitURL := by
      rw [sanitizeGitURL_congr hurl, sanitizeGitURL_congr hurl, hsanitized]
    exact ih.delivered hstate
      (sameDelivery_withGitURL hnormal hblank hworker (hsteps' r hr)) h h'

theorem get_eq_none_of_twoRuns {e : Err} (hr : normalizeDeployRequest req = .error e)
    (hfresh : s.buildJobs.get run.buildJobID = none) (h : TwoRuns b run req gitURL s t t') :
    t.buildJobs.get run.buildJobID = none := by
  have hrefused : (createFunctionVersion b run req).Ends Objects (fun _ t => t = s) s := by
    unfold createFunctionVersion
    rw [hr]
    exact Prog.ends_bind.mpr (Prog.ends_ret.mpr rfl)
  induction h with
  | created faults faults' h h' =>
    rw [hrefused.runWith h, hfresh]
  | delivered before w run' faults faults' hstate hurl hsteps' h h' ih =>
    rw [(ends_processBuildJob_of_none w run' ih).runWith h, ih]

end Runs

end Credentials

/-- **Git credentials do not outlive the build** when the bus takes the job, or there is no bus, and
`url.Parse` accepts both URLs. For any two deploys that differ in the user information of the git
URL, with the same answers of the bus and of the build steps and with any refusals of the object
store: whenever both have left their build job succeeded or failed, the deploy itself or any
delivery, the two records hold the same request and the same metadata. -/
theorem credentials_forgotten (b : Builder) (run : BuildRun) (req : DeployRequest) (gitURL : String)
    (s : Store) (hnet : NetURL b.withoutUser)
    (hdiffer : SameButUser (trimSpace req.source.gitURL) (trimSpace gitURL))
    (hfresh : s.buildJobs.get run.buildJobID = none)
    (hsteps : ∀ r, normalizeDeployRequest req = .ok r →
      Credentials.SameSteps b r (r.withGitURL gitURL))
    (hbus : ∀ r publish, normalizeDeployRequest req = .ok r → b.bus = some publish →
      publish (pickBuildRegion r.regions) run.buildJobID = .ok ())
    (haccepts : (b.withoutUser (trimSpace req.source.gitURL)).isSome)
    (haccepts' : (b.withoutUser (trimSpace gitURL)).isSome) :
    Credentials.Forgotten b run req gitURL s := by
  have hsanitized := sanitizeGitURL_eq hnet hdiffer haccepts haccepts'
  have hblank : trimSpace gitURL = "" ↔ trimSpace req.source.gitURL = "" :=
    iff_of_false hdiffer.ne_empty.2 hdiffer.ne_empty.1
  intro t t' j j' hruns hj hj' hterminal hterminal'
  cases hr : normalizeDeployRequest req with
  | error e =>
    rw [Credentials.get_eq_none_of_twoRuns hr hfresh hruns] at hj
    cases hj
  | ok r =>
    obtain ⟨-, -, hjobs⟩ := Credentials.storePair_of_twoRuns hr hfresh hblank hsanitized
      (hsteps r hr) (fun publish => hbus r publish hr) hruns j j' hj hj'
    obtain ⟨hqueued, -⟩ | hsame := hjobs (.inr ⟨hterminal, hterminal'⟩)
    · rw [hqueued] at hterminal
      exact absurd hterminal (by decide)
    · exact hsame

namespace Credentials.Sample

open BuildDelivery.Sample
open BuildSample (run)

/-- The same URL with other credentials. -/
def withOther : String := "https://other@git/app"

/-- A build service whose clones fail. -/
def failing (bus : Option (String → String → Except Err Unit))
    (withoutUser : String → Option String) : Builder :=
  { builder with
    bus
    withoutUser
    prepareBuildOutput := fun _ => ([], .error (.other "git clone failed")) }

theorem sameButUser_sample : SameButUser (trimSpace withToken) (trimSpace withOther) := by
  have htoken : trimSpace withToken = urlWith "https" (some "token") "git" "/app" := by
    decide +kernel
  have hother : trimSpace withOther = urlWith "https" (some "other") "git" "/app" := by
    decide +kernel
  rw [htoken, hother]
  refine .mk "https" "git" "/app" (some "token") (some "other") ?_ ?_ ?_ ?_ ?_
  · exact without_iff.mpr (by decide +kernel)
  · exact without_iff.mpr (by decide +kernel)
  · intro c hc
    cases hc
    decide
  · rintro _ ⟨⟩
    exact without_iff.mpr (by decide +kernel)
  · rintro _ ⟨⟩
    exact without_iff.mpr (by decide +kernel)

theorem sameSteps_failing (bus : Option (String → String → Except Err Unit))
    (withoutUser : String → Option String) (r r' : DeployRequest) :
    SameSteps (failing bus withoutUser) r r' := trivial

/-- A parser that accepts every URL. -/
def accepting (_ : String) : Option String := some bare

theorem netURL_accepting : NetURL accepting := by
  rintro _ _ _ _ _ ⟨⟩ ⟨⟩
  rfl

/-- A parser that rejects every URL. -/
def rejecting (_ : String) : Option String := none

theorem netURL_rejecting : NetURL rejecting := by
  rintro _ _ _ _ _ h
  cases h

/-- The state and the git URL of the job after a deploy without failures. -/
def record (b : Builder) (gitURL : String) : Option (BuildState × String) :=
  (((createFunctionVersion b run (request gitURL)).runWith (fun _ => none)
    Store.new).state.buildJobs.get "build").map fun j => (j.state, j.request.source.gitURL)

theorem not_forgotten_of_record (b : Builder) (url url' : String)
    (hj : record b withToken = some (.failed, url))
    (hj' : record b withOther = some (.failed, url')) (hurl : url ≠ url') :
    ¬ Forgotten b run (request withToken) withOther Store.new := by
  intro h
  obtain ⟨j, hget, hrecord⟩ := Option.map_eq_some_iff.mp hj
  obtain ⟨j', hget', hrecord'⟩ := Option.map_eq_some_iff.mp hj'
  obtain ⟨hstate, hsource⟩ := Prod.mk.inj hrecord
  obtain ⟨hstate', hsource'⟩ := Prod.mk.inj hrecord'
  have hruns : TwoRuns b run (request withToken) withOther Store.new _ _ :=
    .created (fun _ => none) (fun _ => none)
      (fun l e hmem => absurd hmem (Prog.not_mem_calls_runWith_none _ _ l e))
      (fun l e hmem => absurd hmem (Prog.not_mem_calls_runWith_none _ _ l e))
  have hsame := (h _ _ j j' hruns hget hget' (.inr hstate) (.inr hstate')).1
  apply hurl
  rw [← hsource, ← hsource', hsame]

end Credentials.Sample

open Credentials.Sample BuildDelivery.Sample in
open BuildSample (run) in
theorem credentials_forgotten_sample :
    Credentials.Forgotten (failing none accepting) run (request withToken) withOther Store.new ∧
      record (failing none accepting) withToken = some (.failed, bare) ∧
      record (failing none accepting) withOther = some (.failed, bare) := by
  refine ⟨?_, by decide +kernel, by decide +kernel⟩
  exact credentials_forgotten _ run (request withToken) withOther Store.new netURL_accepting
    sameButUser_sample rfl (fun r _ => sameSteps_failing _ _ r _) (fun _ _ _ h => nomatch h) rfl rfl

open Credentials.Sample BuildDelivery.Sample in
open BuildSample (run) in
/-- Both conditions are needed. A job that the bus refuses is stored as failed with the credentials
of its request, and a URL that `url.Parse` rejects is stored as it came. -/
theorem credentials_kept :
    (¬ ∀ (b : Builder) (run : BuildRun) (req : DeployRequest) (gitURL : String) (s : Store),
      NetURL b.withoutUser → SameButUser (trimSpace req.source.gitURL) (trimSpace gitURL) →
      s.buildJobs.get run.buildJobID = none →
      (∀ r, normalizeDeployRequest req = .ok r →
        Credentials.SameSteps b r (r.withGitURL gitURL)) →
      (b.withoutUser (trimSpace req.source.gitURL)).isSome →
      (b.withoutUser (trimSpace gitURL)).isSome → Credentials.Forgotten b run req gitURL s) ∧
    ¬ ∀ (b : Builder) (run : BuildRun) (req : DeployRequest) (gitURL : String) (s : Store),
      NetURL b.withoutUser → SameButUser (trimSpace req.source.gitURL) (trimSpace gitURL) →
      s.buildJobs.get run.buildJobID = none →
      (∀ r, normalizeDeployRequest req = .ok r →
        Credentials.SameSteps b r (r.withGitURL gitURL)) →
      (∀ publish, b.bus = some publish → ∀ region, publish region run.buildJobID = .ok ()) →
      Credentials.Forgotten b run req gitURL s := by
  constructor
  · intro h
    refine not_forgotten_of_record (failing (some fun _ _ => .error (.other "down")) accepting)
      withToken withOther (by decide +kernel) (by decide +kernel) (by decide +kernel) ?_
    exact h _ run (request withToken) withOther Store.new netURL_accepting sameButUser_sample rfl
      (fun r _ => sameSteps_failing _ _ r _) rfl rfl
  · intro h
    refine not_forgotten_of_record (failing none rejecting) withToken withOther
      (by decide +kernel) (by decide +kernel) (by decide +kernel) ?_
    exact h _ run (request withToken) withOther Store.new netURL_rejecting sameButUser_sample rfl
      (fun r _ => sameSteps_failing _ _ r _) (fun _ h => by cases h)

end Lecrev

import Lecrev.Build.Effects
import Lecrev.Concurrency.Faults

/-!
# A ready version can be run

A version is published as ready after its bundle, its startup metadata and its artifact record were
stored. Builds run side by side, start over and stop anywhere, and every call to a store may fail
with or without an effect; still a version is never ready without the objects that a host needs to
run it. -/

namespace Lecrev

/-! ## Object keys -/

theorem append_ne_append_of_head {p q s t : String} {c d : Char} (hp : p.toList.head? = some c)
    (hq : q.toList.head? = some d) (h : c ≠ d) : p ++ s ≠ q ++ t := by
  intro heq
  have hlist := congrArg (fun x : String => x.toList.head?) heq
  simp only [String.toList_append, List.head?_append, hp, hq, Option.some_or] at hlist
  exact h (Option.some.inj hlist)

theorem append_ne_append_of_getLast {p q s t : String} {c d : Char}
    (hs : s.toList.getLast? = some c) (ht : t.toList.getLast? = some d) (h : c ≠ d) :
    p ++ s ≠ q ++ t := by
  intro heq
  have hlist := congrArg (fun x : String => x.toList.getLast?) heq
  simp only [String.toList_append, List.getLast?_append, hs, ht, Option.some_or] at hlist
  exact h (Option.some.inj hlist)

theorem bundleKey_injective : Function.Injective bundleKey := by
  intro d d' h
  have hlist := congrArg String.toList h
  simp only [bundleKey, String.toList_append] at hlist
  exact String.toList_inj.mp (List.append_cancel_left (List.append_cancel_right hlist))

theorem startupKey_ne_bundleKey (d d' : String) : startupKey d ≠ bundleKey d' :=
  append_ne_append_of_getLast (c := 'n') (d := 'z') (by decide) (by decide) (by decide)

theorem siteManifestKey_ne_bundleKey (d d' : String) : siteManifestKey d ≠ bundleKey d' :=
  append_ne_append_of_getLast (c := 'n') (d := 'z') (by decide) (by decide) (by decide)

theorem buildLogsKey_ne_bundleKey (id d : String) : buildLogsKey id ≠ bundleKey d :=
  append_ne_append_of_getLast (c := 't') (d := 'z') (by decide) (by decide) (by decide)

theorem siteAssetObjectKey_ne_bundleKey (d path d' : String) :
    siteAssetObjectKey d path ≠ bundleKey d' := by
  have hprefix (rest : String) : siteAssetsPrefix d ++ rest ≠ bundleKey d' := by
    rw [siteAssetsPrefix, bundleKey, String.append_assoc, String.append_assoc,
      String.append_assoc]
    exact append_ne_append_of_head (c := 's') (d := 'a') (by decide) (by decide) (by decide)
  unfold siteAssetObjectKey
  split_ifs
  · exact hprefix _
  · exact hprefix _
  · rw [String.append_assoc]
    exact hprefix _

variable {s : Store}

/-! ## The invariant -/

section Invariant

variable (sha : Bytes → String)

/-- The bundle with the digest is stored. -/
def Store.BundleStored (s : Store) (digest : String) : Prop :=
  ∃ data, s.objects.lookup (bundleKey digest) = some data ∧ sha data = digest

/-- The startup metadata of a bundle is stored. -/
def Store.StartupStored (s : Store) (digest : String) : Prop :=
  ∃ data, s.objects.lookup (startupKey digest) = some data

/-- Every ready version names an artifact that is stored with all its objects. -/
def Store.Runnable (s : Store) : Prop :=
  ∀ id version, s.functions.get id = some version → version.state = .ready →
    version.artifactDigest ≠ "" ∧
      ∃ artifact, s.artifacts.get version.artifactDigest = some artifact ∧
      (∃ bundle, s.objects.lookup artifact.bundleKey = some bundle ∧
        sha bundle = version.artifactDigest) ∧
      ∃ startup, s.objects.lookup artifact.startupKey = some startup

/-- The log of a build job has no key yet, or its own one. -/
def LogsInPlace (job : BuildJob) : Prop :=
  trimSpace job.logsKey = "" ∨ job.logsKey = buildLogsKey job.id

theorem logsInPlace_started {job : BuildJob} (h : LogsInPlace job) (request : DeployRequest)
    (now : Time) : LogsInPlace (job.started request now) := by
  refine .inr ?_
  unfold BuildJob.started
  split_ifs with hblank
  · rfl
  · exact h.resolve_left hblank

/-- What builds keep: artifact records name the objects of their digest, which are stored; ready
versions have an artifact record; and logs lie at their own keys. -/
structure Store.WellBuilt (s : Store) : Prop where
  artifacts : ∀ digest artifact, s.artifacts.get digest = some artifact →
    artifact.bundleKey = bundleKey digest ∧ artifact.startupKey = startupKey digest ∧
      s.BundleStored sha digest ∧ s.StartupStored digest
  ready : ∀ id version, s.functions.get id = some version → version.state = .ready →
    version.artifactDigest ≠ "" ∧ ∃ artifact, s.artifacts.get version.artifactDigest = some artifact
  logs : ∀ id job, s.buildJobs.get id = some job → LogsInPlace job

variable {sha}

theorem Store.WellBuilt.runnable (h : s.WellBuilt sha) : s.Runnable sha := by
  intro id version hget hready
  obtain ⟨hdigest, artifact, hartifact⟩ := h.ready id version hget hready
  obtain ⟨hbundleKey, hstartupKey, hbundle, hstartup⟩ := h.artifacts _ artifact hartifact
  refine ⟨hdigest, artifact, hartifact, ?_, ?_⟩
  · rw [hbundleKey]
    exact hbundle
  · rw [hstartupKey]
    exact hstartup

theorem wellBuilt_new : Store.new.WellBuilt sha where
  artifacts _ _ h := by cases h
  ready _ _ h := by cases h
  logs _ _ h := by cases h

variable (sha) in
/-- Nothing that a version needs gets lost, and the invariant is kept. -/
structure Grows (s s' : Store) : Prop where
  bundle : ∀ digest, s.BundleStored sha digest → s'.BundleStored sha digest
  startup : ∀ digest, s.StartupStored digest → s'.StartupStored digest
  artifact : ∀ digest, (∃ a, s.artifacts.get digest = some a) →
    ∃ a, s'.artifacts.get digest = some a
  wellBuilt : s.WellBuilt sha → s'.WellBuilt sha

theorem Grows.refl (s : Store) : Grows sha s s := ⟨fun _ => id, fun _ => id, fun _ => id, id⟩

theorem Grows.trans {t u : Store} (h : Grows sha s t) (h' : Grows sha t u) : Grows sha s u where
  bundle d := h'.bundle d ∘ h.bundle d
  startup d := h'.startup d ∘ h.startup d
  artifact d := h'.artifact d ∘ h.artifact d
  wellBuilt := h'.wellBuilt ∘ h.wellBuilt

/-! ## What single calls do -/

/-- The calls of a build that publish nothing: versions that are not ready, build jobs with their
log in place, and objects that are no bundles. -/
def plainScope : BuildScope where
  version v := v.state ≠ .ready
  job := LogsInPlace
  artifact _ := False
  object key _ := ∀ digest, key ≠ bundleKey digest

theorem grows_putObject {key : String} {data : Bytes}
    (h : ∀ digest, key = bundleKey digest → sha data = digest) :
    Grows sha s { s with objects := s.objects.insert key data } := by
  have hbundle (digest : String) (hd : s.BundleStored sha digest) :
      { s with objects := s.objects.insert key data }.BundleStored sha digest := by
    obtain ⟨bundle, hget, hsha⟩ := hd
    by_cases hkey : bundleKey digest = key
    · exact ⟨data, by rw [hkey, AList.lookup_insert], h digest hkey.symm⟩
    · exact ⟨bundle, by rw [AList.lookup_insert_ne hkey, hget], hsha⟩
  have hstartup (digest : String) (hd : s.StartupStored digest) :
      { s with objects := s.objects.insert key data }.StartupStored digest := by
    obtain ⟨startup, hget⟩ := hd
    by_cases hkey : startupKey digest = key
    · exact ⟨data, by rw [hkey, AList.lookup_insert]⟩
    · exact ⟨startup, by rw [AList.lookup_insert_ne hkey, hget]⟩
  refine ⟨hbundle, hstartup, fun _ => id, fun hs => ⟨fun d a ha => ?_, hs.ready, hs.logs⟩⟩
  obtain ⟨hk, hk', hb, hst⟩ := hs.artifacts d a ha
  exact ⟨hk, hk', hbundle d hb, hstartup d hst⟩

theorem grows_putStartup (digest : String) (startup : Bytes) :
    Grows sha s { s with objects := s.objects.insert (startupKey digest) startup } :=
  grows_putObject fun digest' h => absurd h (startupKey_ne_bundleKey digest digest')

theorem grows_putVersion {version : FunctionVersion}
    (h : version.state = .ready → version.artifactDigest ≠ "" ∧
      ∃ a, s.artifacts.get version.artifactDigest = some a) :
    Grows sha s { s with functions := s.functions.put version } := by
  refine ⟨fun _ => id, fun _ => id, fun _ => id,
    fun hs => ⟨hs.artifacts, fun id v hget hready => ?_, hs.logs⟩⟩
  by_cases hid : id = version.id
  · rw [Table.get_put_of_key _ hid.symm] at hget
    cases hget
    exact h hready
  · rw [Table.get_put_of_ne _ hid] at hget
    exact hs.ready id v hget hready

theorem grows_putArtifact {artifact : Artifact}
    (hbundleKey : artifact.bundleKey = bundleKey artifact.digest)
    (hstartupKey : artifact.startupKey = startupKey artifact.digest)
    (hbundle : s.BundleStored sha artifact.digest) (hstartup : s.StartupStored artifact.digest) :
    Grows sha s { s with artifacts := s.artifacts.put artifact } := by
  have hstored (digest : String) (h : ∃ a, s.artifacts.get digest = some a) :
      ∃ a, (s.artifacts.put artifact).get digest = some a := by
    by_cases hd : digest = artifact.digest
    · exact ⟨artifact, Table.get_put_of_key _ hd.symm⟩
    · rwa [Table.get_put_of_ne _ hd]
  refine ⟨fun _ => id, fun _ => id, hstored,
    fun hs => ⟨fun d a ha => ?_, fun id v hget hready => ?_,
    hs.logs⟩⟩
  · by_cases hd : d = artifact.digest
    · rw [Table.get_put_of_key _ hd.symm] at ha
      cases ha
      subst hd
      exact ⟨hbundleKey, hstartupKey, hbundle, hstartup⟩
    · rw [Table.get_put_of_ne _ hd] at ha
      exact hs.artifacts d a ha
  · exact ⟨(hs.ready id v hget hready).1, hstored _ (hs.ready id v hget hready).2⟩

theorem grows_putJob {job : BuildJob} (h : LogsInPlace job) :
    Grows sha s { s with buildJobs := s.buildJobs.put job } := by
  refine ⟨fun _ => id, fun _ => id, fun _ => id,
    fun hs => ⟨hs.artifacts, hs.ready, fun id j hget => ?_⟩⟩
  by_cases hid : id = job.id
  · rw [Table.get_put_of_key _ hid.symm] at hget
    cases hget
    exact h
  · rw [Table.get_put_of_ne _ hid] at hget
    exact hs.logs id j hget

theorem grows_of_write {l : StoreCall} {s' : Store} (h : plainScope.Write l s s') :
    Grows sha s s' := by
  cases h with
  | version v hv => exact grows_putVersion fun hready => absurd hready hv
  | job j hj => exact grows_putJob hj
  | artifact a ha => exact ha.elim
  | object key data hkey => exact grows_putObject fun digest h => absurd h (hkey digest)
  | other hfunctions hbuildJobs hartifacts hobjects _ =>
    refine ⟨fun d h => ?_, fun d h => ?_, fun d h => ?_, fun hs => ⟨?_, ?_, ?_⟩⟩
    · rwa [Store.BundleStored, hobjects]
    · rwa [Store.StartupStored, hobjects]
    · rwa [hartifacts]
    · simpa only [Store.BundleStored, Store.StartupStored, hartifacts, hobjects] using hs.artifacts
    · simpa only [hfunctions, hartifacts] using hs.ready
    · simpa only [hbuildJobs] using hs.logs

end Invariant

/-! ## The calls of a build -/

namespace Building

variable {sha : Bytes → String} {α β : Type}

/-- All builds follow the same rule, and rely on it. -/
def protocol (sha : Bytes → String) : Protocol StoreCall Store Unit where
  rely _ s _ s' := Grows sha s s'
  guar _ _ s _ s' := Grows sha s s'
  meets _ _ := True
  fallible _ := True
  rely_refl _ s := .refl s
  rely_trans := .trans

/-- What a build knows about the digest it works on; it stays true. -/
structure Knows (sha : Bytes → String) (φ : Store → Prop) (s : Store) : Prop where
  wellBuilt : s.WellBuilt sha
  fact : φ s
  stable : ∀ {s s'}, Grows sha s s' → φ s → φ s'

theorem Knows.of_grows {φ : Store → Prop} {s' : Store} (h : Knows sha φ s)
    (hgrows : Grows sha s s') : Knows sha φ s' :=
  ⟨hgrows.wellBuilt h.wellBuilt, h.stable hgrows h.fact, h.stable⟩

theorem safe_within {φ : Store → Prop} {Q : α → Prop} {p : StoreM α} (hp : Within plainScope Q p)
    (hs : Knows sha φ s) :
    p.Safe (protocol sha) (fun r _ s => Knows sha φ s ∧ ∀ a, r = .ok a → Q a) () s := by
  refine Prog.Safe.and_returns ?_ hp.returns
  refine hp.keeps.safe (J := fun _ s => Knows sha φ s) hs (fun _ => trivial)
    (fun hrely h => h.of_grows hrely) fun h _ hwrite => ?_
  exact ⟨grows_of_write hwrite, h.of_grows (grows_of_write hwrite)⟩

theorem safe_end {φ : Store → Prop} {Q : α → Prop} {p : StoreM α} (hp : Within plainScope Q p)
    (hs : Knows sha φ s) : p.Safe (protocol sha) (fun _ _ _ => True) () s :=
  (safe_within hp hs).mono fun _ _ _ _ => trivial

theorem safe_orFail {R : Except Err α → Store → Prop} {p : StoreM α} {fail : Err → StoreM Unit}
    {next : α → StoreM Unit} (hp : p.Safe (protocol sha) (fun r _ => R r) () s)
    (hfail : ∀ e s, R (.error e) s → (fail e).Safe (protocol sha) (fun _ _ _ => True) () s)
    (hnext : ∀ a s, R (.ok a) s → (next a).Safe (protocol sha) (fun _ _ _ => True) () s) :
    (orFail p fail next).Safe (protocol sha) (fun _ _ _ => True) () s := by
  refine hp.result_bind fun r _ s hr => ?_
  cases r with
  | ok a => exact hnext a s hr
  | error e => exact hfail e s hr

theorem safe_write {φ ψ : Store → Prop} {l : StoreCall} {f : Store → Store} (hs : Knows sha φ s)
    (hgrows : ∀ s, Knows sha φ s → Grows sha s (f s)) (hpost : ∀ s, Knows sha φ s → ψ (f s))
    (hstable : ∀ {s s'}, Grows sha s s' → ψ s → ψ s') :
    (.modify l f : StoreM Unit).Safe (protocol sha)
      (fun r _ s => (r = .ok () → Knows sha ψ s) ∧ ∀ e, r = .error e → Knows sha φ s) () s := by
  refine Prog.safe_modify (P := protocol sha) (J := fun _ s => Knows sha φ s)
    (K := fun _ s => Knows sha ψ s) hs (fun hrely h => h.of_grows hrely)
    (fun hrely h => h.of_grows hrely) fun {_ s} h => ⟨(), hgrows s h, ?_⟩
  exact ⟨(hgrows s h).wellBuilt h.wellBuilt, hpost s h, hstable⟩

variable (b : Builder) (run : BuildRun) {version : FunctionVersion} {buildJob : BuildJob}
  {recorder : Recorder}

theorem covers_plainScope (version : FunctionVersion) (hlogs : LogsInPlace buildJob) :
    plainScope.Covers version buildJob where
  failed v _ _ hstate := by
    change v.state ≠ .ready
    rw [hstate]
    nofun
  job j hj := by
    rcases hj.logsKey with hkey | hkey
    · change trimSpace j.logsKey = "" ∨ j.logsKey = buildLogsKey j.id
      rw [hkey, hj.id]
      exact hlogs
    · exact .inr (hkey.trans (congrArg buildLogsKey hj.id.symm))
  logs _ := buildLogsKey_ne_bundleKey buildJob.id

theorem safe_publishVersion (hlogs : LogsInPlace buildJob) (hrecorder : plainScope.Logs recorder)
    {digest : String} (hdigest : digest ≠ "") (entrypoint : String)
    (hs : Knows sha (fun s => ∃ a, s.artifacts.get digest = some a) s) :
    (publishVersion b run version buildJob recorder digest entrypoint).Safe (protocol sha)
      (fun _ _ _ => True) () s := by
  unfold publishVersion
  refine safe_orFail (safe_write hs (fun s h => ?_) (fun s h => h.fact) fun h => h.artifact digest)
    (fun e s h => ?_) fun _ s h => ?_
  · exact grows_putVersion fun _ => ⟨hdigest, h.fact⟩
  · exact safe_end (Within.markBuildFailedWithLogs b run (covers_plainScope _ hlogs) hrecorder e)
      (h.2 e rfl)
  · exact safe_end (Within.finishVersion b run (covers_plainScope _ hlogs) hrecorder) (h.1 rfl)

/-- The objects of the digest are stored. -/
def Uploaded (sha : Bytes → String) (digest : String) (s : Store) : Prop :=
  s.BundleStored sha digest ∧ s.StartupStored digest

theorem uploaded_stable {digest : String} {s' : Store} (h : Grows sha s s')
    (hs : Uploaded sha digest s) : Uploaded sha digest s' :=
  ⟨h.bundle digest hs.1, h.startup digest hs.2⟩

theorem safe_putArtifact (hlogs : LogsInPlace buildJob) (hrecorder : plainScope.Logs recorder)
    {artifact : Artifact} (hdigest : artifact.digest ≠ "")
    (hbundleKey : artifact.bundleKey = bundleKey artifact.digest)
    (hstartupKey : artifact.startupKey = startupKey artifact.digest) (entrypoint : String)
    (hs : Knows sha (Uploaded sha artifact.digest) s) :
    (orFail (putArtifact artifact)
        (markBuildFailedWithLogs b run version buildJob recorder) fun _ =>
      publishVersion b run version buildJob recorder artifact.digest entrypoint).Safe
      (protocol sha) (fun _ _ _ => True) () s := by
  refine safe_orFail (safe_write hs (fun s h => ?_) (fun s h => ?_)
    fun h => h.artifact artifact.digest) (fun e s h => ?_) fun _ s h => ?_
  · exact grows_putArtifact hbundleKey hstartupKey h.fact.1 h.fact.2
  · exact ⟨artifact, Table.get_put_of_key _ rfl⟩
  · exact safe_end (Within.markBuildFailedWithLogs b run (covers_plainScope _ hlogs) hrecorder e)
      (h.2 e rfl)
  · exact safe_publishVersion b run hlogs hrecorder hdigest entrypoint (h.1 rfl)

/-- The upload follows the rule of all builds. -/
theorem safe_uploadArtifact (hb : b.digest = sha) (hsha : ∀ data, sha data ≠ "")
    (hlogs : LogsInPlace buildJob) (hrecorder : plainScope.Logs recorder) (req : DeployRequest)
    (prepared : PreparedBuildOutput) (hs : Knows sha (fun _ => True) s) :
    (uploadArtifact b run req version buildJob recorder prepared).Safe (protocol sha)
      (fun _ _ _ => True) () s := by
  have hfail {φ : Store → Prop} {recorder : Recorder} (hrecorder : plainScope.Logs recorder)
      (e : Err) {s : Store} (hs : Knows sha φ s) :
      (markBuildFailedWithLogs b run version buildJob recorder e).Safe (protocol sha)
        (fun _ _ _ => True) () s :=
    safe_end (Within.markBuildFailedWithLogs b run (covers_plainScope _ hlogs) hrecorder e) hs
  have hdigest : b.digest prepared.bundle ≠ "" := by
    rw [hb]
    exact hsha prepared.bundle
  unfold uploadArtifact
  refine (safe_within (Within.printf b run hrecorder _) hs).bind (fun recorder _ s h => ?_)
    fun _ _ _ _ => trivial
  obtain ⟨hs, hrecorder⟩ := h
  replace hrecorder := hrecorder recorder rfl
  -- the bundle
  refine safe_orFail (safe_write (ψ := (Store.BundleStored sha · (b.digest prepared.bundle))) hs
    (fun s h => ?_) (fun s h => ?_) fun h => h.bundle _)
    (fun e s h => hfail hrecorder e (h.2 e rfl))
    fun _ s h => ?_
  · refine grows_putObject fun digest hkey => ?_
    rw [← bundleKey_injective hkey, hb]
  · exact ⟨prepared.bundle, AList.lookup_insert _, by rw [hb]⟩
  replace hs := h.1 rfl
  -- the startup metadata
  refine safe_orFail (safe_write (ψ := Uploaded sha (b.digest prepared.bundle)) hs
    (fun s h => ?_) (fun s h => ?_) uploaded_stable) (fun e s h => hfail hrecorder e (h.2 e rfl))
    fun _ s h => ?_
  · exact grows_putStartup _ _
  · exact ⟨(grows_putStartup _ _).bundle _ h.fact, prepared.startup, AList.lookup_insert _⟩
  replace hs := h.1 rfl
  refine (safe_within (Within.printf b run hrecorder _) hs).bind (fun recorder _ s h => ?_)
    fun _ _ _ _ => trivial
  obtain ⟨hs, hrecorder⟩ := h
  replace hrecorder := hrecorder recorder rfl
  refine safe_orFail (safe_within (Within.ret _) hs) (fun e s h => hfail hrecorder e h.1)
    fun regions s h => ?_
  refine (safe_within (Within.printAll b run hrecorder _) h.1).bind (fun recorder _ s h => ?_)
    fun _ _ _ _ => trivial
  obtain ⟨hs, hrecorder⟩ := h
  replace hrecorder := hrecorder recorder rfl
  split
  · exact safe_putArtifact b run hlogs hrecorder hdigest rfl rfl _ hs
  next assets _ =>
    -- the site, whose objects lie elsewhere
    have hsite := Within.uploadSite (S := plainScope) b
      (fun asset (_ : asset ∈ assets) =>
        siteAssetObjectKey_ne_bundleKey (b.digest prepared.bundle) asset.path)
      (fun _ => siteManifestKey_ne_bundleKey (b.digest prepared.bundle)) version.id
      prepared.entrypoint (run.clock 2)
    refine safe_orFail (safe_within hsite hs) (fun e s h => hfail hrecorder e h.1) fun _ s h => ?_
    refine (safe_within (Within.printAll b run hrecorder _) h.1).bind (fun recorder _ s h => ?_)
      fun _ _ _ _ => trivial
    exact safe_putArtifact b run hlogs (h.2 recorder rfl) hdigest rfl rfl _ h.1

theorem meets_prepareVersion (hb : b.digest = sha) (hsha : ∀ data, sha data ≠ "")
    (hlogs : LogsInPlace buildJob) (req : DeployRequest) :
    (prepareVersion b run req version buildJob).Meets (protocol sha)
      (fun _ => Knows sha fun _ => True) fun _ _ _ => True := by
  have hrecorder : plainScope.Logs
      { onUpdate := if trimSpace buildJob.logsKey = "" then none else some buildJob.logsKey } := by
    intro key hkey _
    split_ifs at hkey with hblank
    rw [← Option.some.inj hkey, hlogs.resolve_left hblank]
    exact buildLogsKey_ne_bundleKey buildJob.id
  refine ⟨fun hs => ?_⟩
  unfold prepareVersion
  -- from here on it does not matter where the recorder writes
  generalize Recorder.mk (if trimSpace buildJob.logsKey = "" then none else some buildJob.logsKey)
    "" 0 = recorder at hrecorder ⊢
  refine (safe_within (Within.printAll b run hrecorder _) hs).bind (fun recorder _ s h => ?_)
    fun _ _ _ _ => trivial
  refine (safe_within (Within.printAll b run (h.2 recorder rfl) _) h.1).bind
    (fun recorder _ s h => ?_) fun _ _ _ _ => trivial
  obtain ⟨hs, hrecorder⟩ := h
  replace hrecorder := hrecorder recorder rfl
  refine safe_orFail (safe_within (Within.ret _) hs) (fun e s h => ?_) fun prepared s h => ?_
  · exact safe_end
      (Within.markBuildFailedWithLogs b run (covers_plainScope _ hlogs) hrecorder e) h.1
  have hmerged : LogsInPlace
      { buildJob with metadata := mergeBuildMetadata buildJob.metadata prepared.metadata } := hlogs
  dsimp only
  split
  · exact safe_end
      (Within.markBuildFailedWithLogs b run (covers_plainScope _ hmerged) hrecorder _) h.1
  · exact safe_uploadArtifact b run hb hsha hmerged hrecorder req prepared h.1

theorem safe_processBuildJob (hb : b.digest = sha) (hsha : ∀ data, sha data ≠ "")
    (buildJobID : String) (hs : Knows sha (fun _ => True) s) :
    (processBuildJob b run buildJobID).Safe (protocol sha) (fun _ _ _ => True) () s := by
  unfold processBuildJob
  refine (Prog.safe_query (P := protocol sha) (J := fun _ s => Knows sha (fun _ => True) s) hs
    (fun hrely h => h.of_grows hrely) fun {_ s} _ => .refl s).bind (fun buildJob _ s h => ?_)
    fun _ _ _ _ => trivial
  obtain ⟨hs, hread⟩ := h
  obtain ⟨_, s₀, hs₀, hfind, -⟩ := hread buildJob rfl
  have hlogs : LogsInPlace buildJob := hs₀.wellBuilt.logs _ _ (find_eq_ok_iff.mp hfind)
  split
  · exact fun _ _ _ => trivial
  refine (safe_within (Within.query _ _) hs).bind (fun version _ s h => ?_) fun _ _ _ _ => trivial
  split
  · exact safe_end (Within.markBuildFailed (covers_plainScope _ hlogs) _ _) h.1
  next req _ =>
    have hstarted := logsInPlace_started hlogs (sanitizeDeployRequestForStorage b req) (run.clock 1)
    have hreset : Within plainScope (fun _ => True) (putFunctionVersion version.rebuilding) :=
      Within.putFunctionVersion nofun
    refine (safe_within hreset h.1).bind (fun _ _ s h => ?_) fun _ _ _ _ => trivial
    exact (safe_within (Within.putBuildJob hstarted) h.1).bind_meets
      (fun _ => (meets_prepareVersion b run hb hsha hstarted req).of_imp fun _ _ h => h.1)
      fun _ _ _ _ => trivial

/-- A deploy follows the rule of all builds. -/
theorem safe_createFunctionVersion (hb : b.digest = sha) (hsha : ∀ data, sha data ≠ "")
    (req : DeployRequest) (hs : Knows sha (fun _ => True) s) :
    (createFunctionVersion b run req).Safe (protocol sha) (fun _ _ _ => True) () s := by
  unfold createFunctionVersion
  refine (safe_within (Within.ret _) hs).bind (fun req _ s h => ?_) fun _ _ _ _ => trivial
  refine (safe_within (Within.enforceBuildQuota b _) h.1).bind (fun _ _ s h => ?_)
    fun _ _ _ _ => trivial
  have hjob : LogsInPlace (newBuildJob b run req) := .inr rfl
  have hinit : Within plainScope (· = (newFunctionVersion run req, newBuildJob b run req))
      (initializeBuild b run req) := by
    have hversion : plainScope.version (newFunctionVersion run req) := nofun
    refine (Within.putFunctionVersion hversion).bind fun _ _ => ?_
    refine (Within.putBuildJob hjob).bind fun _ _ => ?_
    exact (Within.putObject (buildLogsKey_ne_bundleKey _)).bind fun _ _ => Within.pure rfl
  refine (safe_within hinit h.1).bind (fun made _ s h => ?_) fun _ _ _ _ => trivial
  obtain ⟨hs, hmade⟩ := h
  obtain rfl := hmade made rfl
  dsimp only
  split
  · refine safe_end (Q := fun _ => True) ((Within.query _ _).result.bind fun r _ => ?_) hs
    cases r with
    | ok _ => exact Within.pure trivial
    | error e =>
      have hfailed := Within.markBuildFailed (covers_plainScope (newFunctionVersion run req) hjob)
        (run.clock 9) (.wrapped "publish build job: " e "")
      exact hfailed.result.bind fun _ _ => Within.throw _
  · refine (safe_processBuildJob b run hb hsha _ hs).bind (fun _ _ s _ => ?_) fun _ _ _ _ => trivial
    exact (Prog.safe_query (P := protocol sha) (J := fun _ _ => True) trivial
      (fun _ _ => trivial) fun {_ s} _ => .refl s).mono fun _ _ _ _ => trivial

end Building

/-- A run of the build service: a deploy, or the processing of a build job that was delivered. -/
inductive BuildThread
  | deploy (b : Builder) (run : BuildRun) (req : DeployRequest)
  | process (b : Builder) (run : BuildRun) (buildJobID : String)

namespace BuildThread

/-- The service that a thread belongs to. -/
def builder : BuildThread → Builder
  | deploy b _ _ | process b _ _ => b

/-- The calls of a thread. -/
def calls : BuildThread → StoreM Unit
  | deploy b run req => do
    let _ ← createFunctionVersion b run req
    pure ()
  | process b run buildJobID => processBuildJob b run buildJobID

theorem safe_calls {sha : Bytes → String} (hsha : ∀ data, sha data ≠ "") {t : BuildThread}
    (ht : t.builder.digest = sha) (hs : s.WellBuilt sha) :
    t.calls.Safe (Building.protocol sha) (fun _ _ _ => True) () s := by
  have hknows : Building.Knows sha (fun _ => True) s := ⟨hs, trivial, fun _ _ => trivial⟩
  cases t with
  | deploy b run req =>
    exact (Building.safe_createFunctionVersion b run ht hsha req hknows).bind
      (fun _ _ _ _ _ _ _ => trivial) fun _ _ _ _ => trivial
  | process b run buildJobID => exact Building.safe_processBuildJob b run ht hsha buildJobID hknows

end BuildThread

/-- Runs of the build service side by side. -/
def building {ι : Type} (s : Store) (threads : ι → BuildThread) :
    Pool ι StoreCall Store Err Unit :=
  .start s fun i => (threads i).calls

/-- **A ready version can be run.** Any number of builds of any build jobs, and any number of
deploys, run side by side from a well-built store, every call to a store may fail with or without an
effect, and every run may stop at any point: in every state that is reached, the digest of a ready
version is not empty, its artifact is stored, and the objects that the artifact names are there, the
bundle with that digest. -/
theorem ready_runnable {ι : Type} [DecidableEq ι] (sha : Bytes → String)
    (hsha : ∀ data, sha data ≠ "") (threads : ι → BuildThread)
    (hthreads : ∀ i, (threads i).builder.digest = sha) (s : Store) (hs : s.WellBuilt sha)
    (ms : List (Pool.Fault ι Err)) :
    (Pool.faulty.exec (building s threads) ms).state.Runnable sha := by
  let P (_ : ι) := Building.protocol sha
  have hkeeping : Pool.Keeping P fun _ s _ => s.WellBuilt sha :=
    fun _ _ _ _ _ _ _ hgrows h => Grows.wellBuilt hgrows h
  have hstart : Pool.AllSafe P (fun _ _ _ _ => True) (fun _ s _ => s.WellBuilt sha)
      (building s threads) :=
    ⟨(), hs, fun i => BuildThread.safe_calls hsha (hthreads i) hs⟩
  obtain ⟨-, hwellBuilt, -⟩ := Pool.faulty_exec_safe (fun _ _ _ _ _ _ _ h => h) hkeeping
    (fun _ _ _ => trivial) (fun _ _ => trivial) hstart ms
  exact hwellBuilt.runnable

namespace RunnableSample

open BuildSample (run request)

def builder : Builder := { BuildSample.builder with bus := some fun _ _ => .ok () }

def threads : Bool → BuildThread
  | true => .deploy builder run request
  | false => .process builder run "build"

def moves : List (Pool.Fault Bool Err) :=
  List.replicate 3 (.run true) ++ [.lost true (.other "connection lost")] ++
    List.replicate 12 (.run false) ++ [.lost false (.other "connection lost")]

end RunnableSample

open RunnableSample in
theorem ready_runnable_sample :
    ((Pool.faulty.exec (building .new threads) moves).state.functions.get "version").map
        (fun version => (version.state, version.artifactDigest)) =
          some (.ready, BuildSample.digest [1]) ∧
      (Pool.faulty.exec (building .new threads) moves).state.Runnable builder.digest := by
  refine ⟨rfl, ready_runnable builder.digest (fun bundle => ?_) threads (fun i => ?_)
    .new wellBuilt_new moves⟩
  · change BuildSample.digest bundle ≠ ""
    unfold BuildSample.digest
    split_ifs <;> decide
  · cases i <;> rfl

end Lecrev

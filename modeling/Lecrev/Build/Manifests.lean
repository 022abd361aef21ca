import Lecrev.Artifact.Overrides
import Lecrev.Domain.Types

/-!
# The manifests of a bundle

For a bundle deploy `prepareBuildOutput` adds two generated files to those of the user,
`function.json` and `startup.json`. They replace user files of exactly these names, but other names
are cleaned to the same paths: such a file is packed beside the generated one, and the one that is
extracted last counts.
-/

open Artifact

namespace Lecrev

/-- Why there is no build output. -/
inductive PrepareError
  | call (err : Err)
  | extract (err : ExtractError)
  | pack (err : PackError)
  deriving DecidableEq, Repr

/-- What the bundle case of `prepareBuildOutput` calls. -/
structure Packager where
  /-- The JSON text of `function.json`. -/
  functionManifest : DeployRequest → Except Err Bytes
  /-- The JSON text of `startup.json`, with the time of the build. -/
  startup : DeployRequest → Time → Except Err Bytes
  decodeString : String → Except Err Bytes
  /-- The entries that the gzip and tar readers find. -/
  readArchive : Bytes → Except Err (List Header)
  /-- The file system of the worker. -/
  fs : FileSystem
  /-- The directory of `os.MkdirTemp`. -/
  tmpDir : List String
  tmpHere : List String
  tmpEmpty : EmptyDir fs tmpDir tmpHere

/-- `preparedBuildOutput`; the bundle stands for the entries that a reader finds in it. -/
structure PreparedBundle where
  bundle : List Header
  startup : Bytes
  entrypoint : String
  deriving DecidableEq, Repr

namespace Packager

/-- The files of the request by their names. -/
def inlineFiles (source : DeploySource) : TextFiles :=
  source.inlineFiles.foldl (fun files file => files.insert file.1 file.2.toUTF8.toList) ∅

/-- The generated files replace those of the same names. -/
def withManifests (files : TextFiles) (functionManifest startup : Bytes) : TextFiles :=
  (files.insert "function.json" functionManifest).insert "startup.json" startup

/-- The map of files that is bundled: those of the uploaded archive, or those of the request. -/
def bundledFiles (pk : Packager) (req : DeployRequest) (functionManifest startup : Bytes) :
    Except PrepareError Files :=
  if req.source.bundleBase64 ≠ "" then do
    let decoded ← (pk.decodeString req.source.bundleBase64).mapError .call
    let archive ← (pk.readArchive decoded).mapError .call
    match (extractTarGz pk.tmpDir archive).run { fs := pk.fs } with
    | (.error err, _) => .error (.extract err)
    | (.ok (), disk) =>
      let files ← (collect disk.fs pk.tmpDir).mapError fun err => .pack (.bundle err)
      return ofTexts (withManifests ∅ functionManifest startup) ∪ files
  else
    return ofTexts (withManifests (inlineFiles req.source) functionManifest startup)

/-- `prepareBuildOutput` for a source of the type `bundle`. -/
def prepareBuildOutput (pk : Packager) (req : DeployRequest) (now : Time) :
    Except PrepareError PreparedBundle := do
  let functionManifest ← (pk.functionManifest req).mapError .call
  let startup ← (pk.startup req now).mapError .call
  let files ← pk.bundledFiles req functionManifest startup
  let bundle ← (packFiles files).mapError .pack
  return { bundle, startup, entrypoint := req.entrypoint }

/-! ## Names -/

theorem isName_of_entryPath {name : String} {rel : List String} (h : entryPath name = some rel) :
    ∀ n ∈ rel, IsName n := by
  unfold entryPath at h
  cases hclean : cleanArchivePath (.ofText name) with
  | error err =>
    unfold pathBelow at h
    rw [hclean] at h
    cases h
  | ok clean =>
    obtain ⟨-, rfl⟩ | ⟨names, rfl, -, hnames⟩ := cleanArchivePath_cases hclean
    · unfold pathBelow at h
      rw [hclean] at h
      cases h
    · obtain rfl := Option.some.inj ((pathBelow_of_names hclean).symm.trans h)
      exact fun n hn => Pathname.isName_of_mem_ofText (hnames n hn)

theorem ofText_relPath {rel : List String} (hnames : ∀ n ∈ rel, IsName n) :
    Pathname.ofText (relPath rel).text = relPath rel := by
  unfold relPath
  split_ifs with hrel
  · decide +kernel
  · refine Pathname.ofText_text (by simpa [Pathname.ofNames] using hrel) (fun _ => ?_)
      fun n hn => ?_
    · simp [Pathname.ofNames]
    · exact hnames n (by simpa [Pathname.ofNames] using hn)

theorem readable_collect {fs : FileSystem} {dest here : List String} (h : EmptyDir fs dest here)
    (archive : List Header) {files : Files}
    (hcollect : collect ((extractTarGz dest archive).run { fs }).2.fs dest = .ok files) :
    Readable files := by
  obtain ⟨ok, front, hfront, hholds, hrooted, -⟩ := h.exists_front archive
  set fs' := ((extractTarGz dest archive).run { fs }).2.fs
  cases hroot : fs'.lstat dest with
  | error err =>
    unfold collect at hcollect
    rw [hroot] at hcollect
    cases hcollect
  | ok entry =>
    -- the names under which the files are collected lead to files that have been extracted
    have hcollected : ∃ paths, Collected fs' dest paths files ∧
        ∀ rel ∈ paths, ∀ n ∈ rel, IsName n := by
      cases entry with
      | file content | link target =>
        unfold collect at hcollect
        rw [hroot] at hcollect
        refine ⟨[[]], collected_empty.addFile hcollect, fun rel hrel => ?_⟩
        rw [List.mem_singleton.mp hrel]
        exact fun n hn => absurd hn List.not_mem_nil
      | dir d =>
        refine ⟨visited dest d, collect_eq_ok hroot hcollect, fun rel hrel => ?_⟩
        obtain ⟨here', hhere', hdir⟩ := fs'.realpath_of_lstat hroot
        obtain rfl : here = here' := Except.ok.inj (hrooted.leads.symm.trans hhere')
        unfold visited at hrel
        split_ifs at hrel with hgit
        · cases hrel
        · obtain ⟨entry, hlookup, hleaf, -⟩ :=
            (mem_leaves_iff (Directory.distinct_of_lookup fs'.distinct hdir) rel).mp hrel
          have hnode : fs'.node (here ++ rel) = some entry.node := by
            change (fs'.entries.lookup (here ++ rel)).map Entry.node = _
            rw [Directory.lookup_append hdir, hlookup]
            rfl
          cases entry with
          | dir entries => exact absurd rfl (hleaf entries)
          | link target => exact absurd hnode (hrooted.plain rel target)
          | file content =>
            obtain ⟨hdr, -, hpath, -⟩ :=
              mem_storedBy.mp (mem_of_lookup ((hholds.file rel content).mp hnode))
            exact isName_of_entryPath hpath
    obtain ⟨paths, hpaths, hnames⟩ := hcollected
    intro p hp
    obtain ⟨content, hcontent⟩ := Option.isSome_iff_exists.mp (AList.lookup_isSome.mpr hp)
    obtain ⟨rel, hrel, rfl, -⟩ := (hpaths.lookup p content).mp hcontent
    exact ofText_relPath (hnames rel hrel)

theorem readable_bundledFiles {pk : Packager} {req : DeployRequest}
    {functionManifest startup : Bytes} {files : Files}
    (h : pk.bundledFiles req functionManifest startup = .ok files) : Readable files := by
  unfold bundledFiles at h
  split_ifs at h with hupload
  · obtain ⟨decoded, -, h⟩ := Except.bind_eq_ok_iff.mp h
    obtain ⟨archive, -, h⟩ := Except.bind_eq_ok_iff.mp h
    cases hrun : (extractTarGz pk.tmpDir archive).run { fs := pk.fs } with
    | mk r disk =>
      rw [hrun] at h
      cases r with
      | error err => cases h
      | ok u =>
        obtain ⟨collected, hcollect, h⟩ := Except.bind_eq_ok_iff.mp h
        obtain rfl := Except.ok.inj h
        rw [Except.mapError_eq_ok_iff] at hcollect
        have hdisk : disk = ((extractTarGz pk.tmpDir archive).run { fs := pk.fs }).2 := by
          rw [hrun]
        rw [hdisk] at hcollect
        intro p hp
        obtain hp | hp := AList.mem_union.mp hp
        · exact readable_ofTexts _ p hp
        · exact readable_collect pk.tmpEmpty archive hcollect p hp
  · obtain rfl := Except.ok.inj h
    exact readable_ofTexts _

end Packager

/-- After an extraction of the bundle into an empty directory, `function.json` and `startup.json`
have the generated contents exactly when, of the bundled files whose cleaned paths are these, the
last ones that are extracted have the generated contents. -/
theorem manifests_intact_iff {pk : Packager} {req : DeployRequest} {now : Time}
    {functionManifest startup : Bytes} {files : Files} {out : PreparedBundle}
    (hmanifest : pk.functionManifest req = .ok functionManifest)
    (hstartup : pk.startup req now = .ok startup)
    (hfiles : pk.bundledFiles req functionManifest startup = .ok files)
    (hout : pk.prepareBuildOutput req now = .ok out) {fs : FileSystem} {dest here : List String}
    (hempty : EmptyDir fs dest here) :
    (((extractTarGz dest out.bundle).run { fs }).2.fs.node (here ++ ["function.json"]) =
        some (.file functionManifest) ∧
      ((extractTarGz dest out.bundle).run { fs }).2.fs.node (here ++ ["startup.json"]) =
        some (.file startup)) ↔
    Lands files ["function.json"] functionManifest ∧ Lands files ["startup.json"] startup := by
  have hpack : packFiles files = .ok out.bundle := by
    obtain ⟨manifest, hmanifest', hrest⟩ := Except.bind_eq_ok_iff.mp hout
    obtain ⟨generated, hgenerated, hrest⟩ := Except.bind_eq_ok_iff.mp hrest
    obtain ⟨bundled, hbundled, hrest⟩ := Except.bind_eq_ok_iff.mp hrest
    obtain ⟨bundle, hbundle, hrest⟩ := Except.bind_eq_ok_iff.mp hrest
    rw [Except.mapError_eq_ok_iff] at hmanifest' hgenerated hbundle
    obtain rfl := Except.ok.inj hrest
    obtain rfl := Except.ok.inj (hmanifest.symm.trans hmanifest')
    obtain rfl := Except.ok.inj (hstartup.symm.trans hgenerated)
    obtain rfl := Except.ok.inj (hfiles.symm.trans hbundled)
    exact hbundle
  have hreadable := Packager.readable_bundledFiles hfiles
  rw [hempty.file_iff_lands hreadable hpack, hempty.file_iff_lands hreadable hpack]

namespace ManifestSample

def packager : Packager where
  functionManifest _ := .ok [1]
  startup _ _ := .ok [2]
  decodeString _ := .ok []
  readArchive _ := .ok []
  fs := ExtractSample.worker
  tmpDir := ["work"]
  tmpHere := ["work"]
  tmpEmpty := ExtractSample.emptyDir_worker

def request (inlineFiles : List (String × String)) : DeployRequest where
  projectID := "p"
  name := "f"
  entrypoint := "index.mjs"
  source := { type := .bundle, inlineFiles }

def files (inlineFiles : List (String × String)) : Files :=
  ofTexts (Packager.withManifests (Packager.inlineFiles (request inlineFiles).source) [1] [2])

def output : PreparedBundle where
  bundle := [⟨"function.json", '0', 0o644, [1]⟩, ⟨"index.mjs", '0', 0o644, [33]⟩,
    ⟨"startup.json", '0', 0o644, [2]⟩]
  startup := [2]
  entrypoint := "index.mjs"

theorem prepare_output :
    packager.prepareBuildOutput (request [("index.mjs", "!")]) 0 = .ok output := by
  decide +kernel

def forged : PreparedBundle where
  bundle := output.bundle ++ [⟨"function.json", '0', 0o644, [33]⟩]
  startup := [2]
  entrypoint := "index.mjs"

theorem prepare_forged :
    packager.prepareBuildOutput
      (request [("index.mjs", "!"), ("x/../function.json", "!")]) 0 = .ok forged := by
  decide +kernel

theorem node_forged :
    ((extractTarGz ["work"] forged.bundle).run { fs := ExtractSample.worker }).2.fs.node
      (["work"] ++ ["function.json"]) = some (.file [33]) := by
  decide +kernel

end ManifestSample

open ManifestSample in
theorem manifests_intact_iff_sample :
    (Lands (files [("index.mjs", "!")]) ["function.json"] [1] ∧
      Lands (files [("index.mjs", "!")]) ["startup.json"] [2]) ∧
    ¬ (Lands (files [("index.mjs", "!"), ("x/../function.json", "!")]) ["function.json"] [1] ∧
      Lands (files [("index.mjs", "!"), ("x/../function.json", "!")]) ["startup.json"] [2]) := by
  constructor
  · exact (manifests_intact_iff rfl rfl rfl prepare_output ExtractSample.emptyDir_worker).mp
      (by decide +kernel)
  · intro h
    obtain ⟨hnode, -⟩ :=
      (manifests_intact_iff rfl rfl rfl prepare_forged ExtractSample.emptyDir_worker).mpr h
    rw [node_forged] at hnode
    cases hnode

/-- A file named `x/../function.json` is extracted over the generated `function.json`. -/
theorem not_manifests_intact :
    ¬ ∀ (pk : Packager) (req : DeployRequest) (now : Time) (functionManifest startup : Bytes)
        (out : PreparedBundle) (fs : FileSystem) (dest here : List String),
      pk.functionManifest req = .ok functionManifest → pk.startup req now = .ok startup →
      pk.prepareBuildOutput req now = .ok out → EmptyDir fs dest here →
        ((extractTarGz dest out.bundle).run { fs }).2.fs.node (here ++ ["function.json"]) =
            some (.file functionManifest) ∧
          ((extractTarGz dest out.bundle).run { fs }).2.fs.node (here ++ ["startup.json"]) =
            some (.file startup) := by
  intro hall
  obtain ⟨hnode, -⟩ := hall ManifestSample.packager _ 0 _ _ _ _ _ _ rfl rfl
    ManifestSample.prepare_forged ExtractSample.emptyDir_worker
  rw [ManifestSample.node_forged] at hnode
  cases hnode

end Lecrev

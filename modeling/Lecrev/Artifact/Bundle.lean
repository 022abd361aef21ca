import Lecrev.Filesystem.Tree
import Lecrev.ToMathlib.List
import Mathlib.Data.List.AList
import Mathlib.Data.List.Sort

/-!
# Bundling a workspace

`BundleFromDirectory` walks the directory tree below a root, reads every entry that is not a
directory and packs the contents, together with a map of extra files, into an archive. The walk
does not descend into symbolic links, but an entry is read through `os.ReadFile`, which follows
them.
-/

namespace Artifact

/-- Why a bundle is not built. -/
inductive BundleError
  | read (err : PathError)
  | invalidArchivePath (path : Pathname)
  deriving DecidableEq, Repr

/-- The files of a bundle by their paths. -/
abbrev Files := AList fun _ : Pathname => List UInt8

/-- An entry of the archive: its header and its content. -/
structure TarEntry where
  name : Pathname
  mode : ℕ
  size : ℕ
  content : List UInt8
  deriving DecidableEq, Repr

/-- One component of `filepath.Clean`, on the components kept so far, the last one first. -/
def cleanStep (rooted : Bool) (kept : List Component) : Component → List Component
  | .empty | .current => kept
  | .name n => .name n :: kept
  | .parent =>
    match kept with
    | .name _ :: kept => kept
    | kept => if rooted then kept else .parent :: kept

/-- `filepath.Clean`: the shortest path with the same lexical meaning. -/
def clean (p : Pathname) : Pathname :=
  let kept := p.components.foldl (cleanStep p.rooted) []
  if kept = [] ∧ p.rooted = false then ⟨false, [.current]⟩ else ⟨p.rooted, kept.reverse⟩

/-- `strings.TrimPrefix(path, "./")`. -/
def trimCurrent : Pathname → Pathname
  | ⟨false, .current :: c :: cs⟩ => ⟨false, c :: cs⟩
  | p => p

/-- The path has `../` in front or `/../` inside. -/
def climbs (p : Pathname) : Bool :=
  match p with
  | ⟨false, .parent :: _ :: _⟩ => true
  | ⟨false, components⟩ => components.tail.dropLast.contains .parent
  | ⟨true, components⟩ => components.dropLast.contains .parent

/-- `cleanArchivePath`: the path must stay below the root. -/
def cleanArchivePath (path : Pathname) : Except BundleError Pathname :=
  let clean := trimCurrent (clean path)
  if clean = ⟨false, [.current]⟩ ∨ clean = ⟨false, []⟩ ∨ climbs clean then
    .error (.invalidArchivePath path)
  else .ok clean

/-! ## The bundle -/

/-- The header and the content of one file of a bundle. -/
def tarEntry (file : Σ _ : Pathname, List UInt8) : Except BundleError TarEntry := do
  let name ← cleanArchivePath file.1
  return { name, mode := 0o644, size := file.2.length, content := file.2 }

/-- `BundleFromFiles`: the entries, sorted by their paths. -/
def bundleFromFiles (files : Files) : Except BundleError (List TarEntry) :=
  (files.entries.insertionSort fun a b => a.1.text ≤ b.1.text).mapM tarEntry

/-- `filepath.Rel(root, path)` for the path reached from the root through the given names. -/
def relPath (rel : List String) : Pathname :=
  if rel = [] then ⟨false, [.current]⟩ else Pathname.ofNames rel

/-- The walk reads an entry that is not a directory. -/
def addFile (fs : FileSystem) (root rel : List String) (files : Files) :
    Except BundleError Files :=
  match fs.readFile (root ++ rel) with
  | .error err => .error (.read err)
  | .ok content => .ok (files.insert (relPath rel) content)

/-- The walk opens a directory. -/
def openDir (fs : FileSystem) (path : List String) : Except BundleError Unit :=
  match fs.readDir path with
  | .error err => .error (.read err)
  | .ok _ => .ok ()

/-- The loop of `filepath.WalkDir` over the entries of the directory at `rel`. The path of a
directory of the tree leads to the directory itself, so the walk goes on in its entries. -/
def walkDir (fs : FileSystem) (root rel : List String) : Directory → Files →
    Except BundleError Files
  | .nil, files => .ok files
  | .file name _ rest, files => do
    let files ← addFile fs root (rel ++ [name]) files
    walkDir fs root rel rest files
  | .link name _ rest, files => do
    let files ← addFile fs root (rel ++ [name]) files
    walkDir fs root rel rest files
  | .dir name entries rest, files =>
    if name = ".git" then walkDir fs root rel rest files
    else do
      openDir fs (root ++ (rel ++ [name]))
      let files ← walkDir fs root (rel ++ [name]) entries files
      walkDir fs root rel rest files

/-- `filepath.WalkDir` from the root. -/
def collect (fs : FileSystem) (root : List String) : Except BundleError Files :=
  match fs.lstat root with
  | .error err => .error (.read err)
  | .ok (.dir d) =>
    if root.getLast? = some ".git" then .ok ∅
    else do
      openDir fs root
      walkDir fs root [] d ∅
  | .ok _ => addFile fs root [] ∅

/-- `BundleFromDirectory`. -/
def bundleFromDirectory (fs : FileSystem) (root : List String) (extraFiles : Files) :
    Except BundleError (List TarEntry) := do
  let files ← collect fs root
  -- every extra file replaces what the walk has collected under its path
  bundleFromFiles (extraFiles ∪ files)

/-! ## What the walk collects -/

/-- The entries below a directory that the walk reads, by their names from that directory. -/
def leaves : Directory → List (List String)
  | .nil => []
  | .file name _ rest => [name] :: leaves rest
  | .link name _ rest => [name] :: leaves rest
  | .dir name entries rest =>
    (if name = ".git" then [] else (leaves entries).map (name :: ·)) ++ leaves rest

/-- The entries that the walk from a root reads. -/
def visited (root : List String) (d : Directory) : List (List String) :=
  if root.getLast? = some ".git" then [] else leaves d

theorem relPath_injective {a b : List String} (h : relPath a = relPath b) : a = b := by
  unfold relPath at h
  split_ifs at h with ha hb hb
  · rw [ha, hb]
  · cases b with
    | nil => exact absurd rfl hb
    | cons n b => cases h
  · cases a with
    | nil => exact absurd rfl ha
    | cons n a => cases h
  · exact Pathname.ofNames_injective h

/-- The map holds what is read at the given places, each under its relative path. -/
structure Collected (fs : FileSystem) (root : List String) (paths : List (List String))
    (files : Files) : Prop where
  read : ∀ rel ∈ paths, ∃ content, fs.readFile (root ++ rel) = .ok content
  lookup : ∀ p content, files.lookup p = some content ↔
    ∃ rel ∈ paths, relPath rel = p ∧ fs.readFile (root ++ rel) = .ok content

variable {fs : FileSystem} {root : List String}

theorem collected_empty : Collected fs root [] ∅ where
  read _ hrel := by cases hrel
  lookup p content := by simp

variable {files : Files} {rel : List String}

/-- Adding a file collects one path more. -/
theorem Collected.addFile {paths : List (List String)} {files' : Files}
    (h : Collected fs root paths files) (hadd : addFile fs root rel files = .ok files') :
    Collected fs root (paths ++ [rel]) files' := by
  unfold Artifact.addFile at hadd
  cases hread : fs.readFile (root ++ rel) with
  | error err => rw [hread] at hadd; cases hadd
  | ok content =>
    rw [hread] at hadd
    obtain rfl : files.insert (relPath rel) content = files' := Except.ok.inj hadd
    constructor
    · intro rel' hmem
      obtain hmem | hmem := List.mem_append.mp hmem
      · exact h.read rel' hmem
      · rw [List.mem_singleton.mp hmem]
        exact ⟨content, hread⟩
    · intro p c
      by_cases hp : p = relPath rel
      · subst hp
        rw [AList.lookup_insert]
        constructor
        · intro hc
          obtain rfl := Option.some.inj hc
          exact ⟨rel, by simp, rfl, hread⟩
        · -- the path tells where the content was read
          rintro ⟨rel', -, hpath, hread'⟩
          rw [relPath_injective hpath, hread] at hread'
          rw [Except.ok.inj hread']
      · rw [AList.lookup_insert_ne hp, h.lookup]
        constructor
        · rintro ⟨rel', hmem, hrest⟩
          exact ⟨rel', List.mem_append_left _ hmem, hrest⟩
        · rintro ⟨rel', hmem, hpath, hread'⟩
          obtain hmem | hmem := List.mem_append.mp hmem
          · exact ⟨rel', hmem, hpath, hread'⟩
          · rw [List.mem_singleton.mp hmem] at hpath
            exact absurd hpath.symm hp

theorem Collected.walkDir {paths : List (List String)} {files' : Files} {d : Directory}
    (h : Collected fs root paths files) (hwalk : walkDir fs root rel d files = .ok files') :
    Collected fs root (paths ++ (leaves d).map (rel ++ ·)) files' := by
  induction d generalizing paths files files' rel with
  | nil =>
    obtain rfl : files = files' := Except.ok.inj hwalk
    simpa [leaves] using h
  | file name content rest ih | link name target rest ih =>
    rw [Artifact.walkDir] at hwalk
    obtain ⟨files₁, hadd, hwalk⟩ := Except.bind_eq_ok_iff.mp hwalk
    simpa [leaves] using ih (h.addFile hadd) hwalk
  | dir name entries rest ihentries ih =>
    rw [Artifact.walkDir] at hwalk
    split_ifs at hwalk with hgit
    · simpa [leaves, hgit] using ih h hwalk
    · obtain ⟨_, -, hwalk⟩ := Except.bind_eq_ok_iff.mp hwalk
      obtain ⟨files₁, hentries, hwalk⟩ := Except.bind_eq_ok_iff.mp hwalk
      simpa [leaves, hgit, Function.comp_def] using ih (ihentries h hentries) hwalk

theorem collect_eq_ok {d : Directory} (hroot : fs.lstat root = .ok (.dir d))
    (h : collect fs root = .ok files) : Collected fs root (visited root d) files := by
  unfold collect at h
  rw [hroot] at h
  unfold visited
  dsimp only at h
  split_ifs at h ⊢ with hgit
  · obtain rfl : ∅ = files := Except.ok.inj h
    exact collected_empty
  · obtain ⟨_, -, hwalk⟩ := Except.bind_eq_ok_iff.mp h
    simpa using collected_empty.walkDir hwalk

/-! ## The entries the walk reads -/

/-- The entries the walk reads under one name of a directory. -/
def leavesAt (name : String) : Entry → List (List String)
  | .dir entries => if name = ".git" then [] else (leaves entries).map (name :: ·)
  | _ => [[name]]

/-- An entry is read when it is not a directory and no directory above it is named `.git`. -/
def Read (d : Directory) (rel : List String) : Prop :=
  ∃ entry, d.lookup rel = some entry ∧ (∀ entries, entry ≠ .dir entries) ∧ ".git" ∉ rel.dropLast

/-- The leaves of a directory with one entry more are what is read. -/
theorem mem_leaves_cons {d rest : Directory} {name : String} {entry : Entry}
    (hfind : ∀ n, d.find n = if n = name then some entry else rest.find n)
    (hleaves : leaves d = leavesAt name entry ++ leaves rest) (hname : name ∉ rest.names)
    (hrest : ∀ rel, rel ∈ leaves rest ↔ Read rest rel)
    (hentries : ∀ entries, entry = .dir entries → ∀ rel, rel ∈ leaves entries ↔ Read entries rel)
    (rel : List String) : rel ∈ leaves d ↔ Read d rel := by
  rw [hleaves, List.mem_append, hrest]
  cases rel with
  | nil =>
    -- the directory itself is not read
    have hnot : ∀ e : Directory, ¬ Read e [] := by
      rintro e ⟨_, hentry, hdir, -⟩
      exact hdir e (Option.some.inj hentry).symm
    refine iff_of_false ?_ (hnot d)
    rintro (hmem | hmem)
    · cases entry with
      | file content | link target => simp [leavesAt] at hmem
      | dir entries =>
        unfold leavesAt at hmem
        split_ifs at hmem
        · cases hmem
        · simp at hmem
    · exact hnot rest hmem
  | cons n ns =>
    by_cases hn : n = name
    · subst hn
      have hother : ¬ Read rest (n :: ns) := by
        rintro ⟨e, hlookup, -, -⟩
        rw [Directory.lookup] at hlookup
        cases hfound : rest.find n with
        | none => rw [hfound] at hlookup; cases hlookup
        | some e' => exact hname (Directory.mem_names_of_find hfound)
      rw [or_iff_left hother]
      unfold Read
      rw [Directory.lookup, hfind, if_pos rfl]
      cases entry with
      | file content | link target =>
        cases ns with
        | nil => simp [leavesAt]
        | cons m ns => simp [leavesAt]
      | dir entries =>
        have hbelow : n :: ns ∈ leavesAt n (.dir entries) ↔ n ≠ ".git" ∧ ns ∈ leaves entries := by
          unfold leavesAt
          split_ifs with hgit <;> simp [hgit]
        rw [hbelow, hentries entries rfl]
        cases ns with
        | nil =>
          refine iff_of_false ?_ ?_
          · rintro ⟨-, _, hentry, hdir, -⟩
            exact hdir entries (Option.some.inj hentry).symm
          · rintro ⟨_, hentry, hdir, -⟩
            exact hdir entries (Option.some.inj hentry).symm
        | cons m ns =>
          unfold Read
          simp only [List.dropLast_cons_cons, List.mem_cons, not_or]
          constructor
          · rintro ⟨hgit, e, hlookup, hdir, hrel⟩
            exact ⟨e, hlookup, hdir, hgit.symm, hrel⟩
          · rintro ⟨e, hlookup, hdir, hgit, hrel⟩
            exact ⟨Ne.symm hgit, e, hlookup, hdir, hrel⟩
    · have hhere : n :: ns ∉ leavesAt name entry := by
        cases entry with
        | file content | link target => simp [leavesAt, hn]
        | dir entries =>
          unfold leavesAt
          split_ifs
          · simp
          · simp [Ne.symm hn]
      rw [or_iff_right hhere]
      unfold Read
      rw [Directory.lookup, Directory.lookup, hfind, if_neg hn]

theorem mem_leaves_iff {d : Directory} (hd : d.Distinct) (rel : List String) :
    rel ∈ leaves d ↔ Read d rel := by
  induction d generalizing rel with
  | nil =>
    refine iff_of_false (by simp [leaves]) ?_
    rintro ⟨entry, hlookup, hdir, -⟩
    cases rel with
    | nil => exact hdir .nil (Option.some.inj hlookup).symm
    | cons n ns => cases hlookup
  | file name content rest ih =>
    exact mem_leaves_cons (fun _ => rfl) rfl hd.1 (ih hd.2) (fun _ h => by cases h) rel
  | link name target rest ih =>
    exact mem_leaves_cons (fun _ => rfl) rfl hd.1 (ih hd.2) (fun _ h => by cases h) rel
  | dir name entries rest ihentries ih =>
    refine mem_leaves_cons (fun _ => rfl) rfl hd.1 (ih hd.2.2) ?_ rel
    intro _ h
    obtain rfl := Entry.dir.inj h
    exact ihentries hd.2.1

/-! ## What an archive holds -/

theorem foldl_cleanStep_names (rooted : Bool) (names : List String) (kept : List Component) :
    (names.map Component.name).foldl (cleanStep rooted) kept =
      (names.map Component.name).reverse ++ kept := by
  induction names generalizing kept with
  | nil => rfl
  | cons n names ih =>
    rw [List.map_cons, List.foldl_cons, ih, List.reverse_cons, List.append_assoc]
    rfl

theorem cleanArchivePath_names {rooted : Bool} {names : List String}
    (h : rooted = false → names ≠ []) :
    cleanArchivePath ⟨rooted, names.map .name⟩ = .ok ⟨rooted, names.map .name⟩ := by
  have hparent : ∀ names : List String, Component.parent ∉ (names.map Component.name).dropLast :=
    fun names hmem => by simpa using List.dropLast_subset _ hmem
  have hclean : clean ⟨rooted, names.map .name⟩ = ⟨rooted, names.map .name⟩ := by
    unfold clean
    dsimp only
    rw [foldl_cleanStep_names, List.append_nil, List.reverse_reverse, if_neg]
    rintro ⟨hnil, hrooted⟩
    exact h hrooted (by simpa using hnil)
  unfold cleanArchivePath
  rw [hclean]
  cases rooted with
  | true =>
    have hclimbs : climbs ⟨true, names.map .name⟩ = false := by
      simpa [climbs] using hparent names
    have htrim : trimCurrent ⟨true, names.map .name⟩ = ⟨true, names.map .name⟩ := rfl
    dsimp only
    rw [htrim, hclimbs]
    simp
  | false =>
    obtain ⟨n, rel, rfl⟩ := List.exists_cons_of_ne_nil (h rfl)
    have hclimbs : climbs ⟨false, (n :: rel).map .name⟩ = false := by
      simpa [climbs] using hparent rel
    have htrim : trimCurrent ⟨false, (n :: rel).map .name⟩ = ⟨false, (n :: rel).map .name⟩ := rfl
    dsimp only
    rw [htrim, hclimbs]
    simp

theorem cleanArchivePath_relPath (hrel : rel ≠ []) :
    cleanArchivePath (relPath rel) = .ok (Pathname.ofNames rel) := by
  unfold relPath
  rw [if_neg hrel]
  exact cleanArchivePath_names fun _ => hrel

theorem mem_bundleFromFiles {archive : List TarEntry} (h : bundleFromFiles files = .ok archive) :
    (∀ p content, files.lookup p = some content → ∃ name, cleanArchivePath p = .ok name ∧
      ⟨name, 0o644, content.length, content⟩ ∈ archive) ∧
    ∀ e ∈ archive, ∃ p, files.lookup p = some e.content ∧ cleanArchivePath p = .ok e.name := by
  obtain ⟨hforth, hback⟩ := List.mapM_eq_ok h
  have hentry : ∀ (p : Pathname) (content : List UInt8) (e : TarEntry),
      tarEntry ⟨p, content⟩ = .ok e →
        ∃ name, cleanArchivePath p = .ok name ∧ e = ⟨name, 0o644, content.length, content⟩ := by
    intro p content e he
    obtain ⟨name, hname, he⟩ := Except.bind_eq_ok_iff.mp he
    exact ⟨name, hname, (Except.ok.inj he).symm⟩
  constructor
  · intro p content hlookup
    have hmem : (⟨p, content⟩ : Σ _ : Pathname, List UInt8) ∈ files.entries :=
      AList.mem_lookup_iff.mp hlookup
    obtain ⟨e, he, htar⟩ := hforth _ ((List.mem_insertionSort _).mpr hmem)
    obtain ⟨name, hname, rfl⟩ := hentry p content e htar
    exact ⟨name, hname, he⟩
  · intro e he
    obtain ⟨⟨p, content⟩, hmem, htar⟩ := hback e he
    obtain ⟨name, hname, rfl⟩ := hentry p content e htar
    exact ⟨p, AList.mem_lookup_iff.mpr ((List.mem_insertionSort _).mp hmem), hname⟩

theorem exists_bundleFromFiles
    (h : ∀ p content, files.lookup p = some content → ∃ name, cleanArchivePath p = .ok name) :
    ∃ archive, bundleFromFiles files = .ok archive := by
  refine List.exists_mapM_eq_ok ?_
  rintro ⟨p, content⟩ hmem
  obtain ⟨name, hname⟩ :=
    h p content (AList.mem_lookup_iff.mpr ((List.mem_insertionSort _).mp hmem))
  refine ⟨⟨name, 0o644, content.length, content⟩, ?_⟩
  unfold tarEntry
  rw [hname]
  rfl

theorem exists_name_of_union {extraFiles : Files} {archive : List TarEntry} {p : Pathname}
    {content : List UInt8} (h : bundleFromFiles (extraFiles ∪ files) = .ok archive)
    (hlookup : files.lookup p = some content) : ∃ name, cleanArchivePath p = .ok name := by
  have hkey : p ∈ extraFiles ∪ files := by
    rw [AList.mem_union]
    exact .inr (AList.lookup_isSome.mp (Option.isSome_iff_exists.mpr ⟨content, hlookup⟩))
  obtain ⟨content', hcontent'⟩ := Option.isSome_iff_exists.mp (AList.lookup_isSome.mpr hkey)
  obtain ⟨name, hname, -⟩ := (mem_bundleFromFiles h).1 _ _ hcontent'
  exact ⟨name, hname⟩

/-- A bundle holds what the walk has collected and the extra files. -/
theorem bundleFromDirectory_eq_ok {extraFiles : Files} {archive : List TarEntry}
    (h : bundleFromDirectory fs root extraFiles = .ok archive) :
    ∃ d files, fs.lstat root = .ok (.dir d) ∧ Collected fs root (visited root d) files ∧
      bundleFromFiles (extraFiles ∪ files) = .ok archive := by
  obtain ⟨files, hcollect, hbundle⟩ := Except.bind_eq_ok_iff.mp h
  -- a root that is not a directory is collected under the path `.`, which is refused
  have hleaf : addFile fs root [] ∅ ≠ .ok files := by
    intro hadd
    have hcollected := collected_empty.addFile hadd
    obtain ⟨content, hread⟩ := hcollected.read [] (by simp)
    have hlookup := (hcollected.lookup _ content).mpr ⟨[], by simp, rfl, hread⟩
    obtain ⟨name, hname⟩ := exists_name_of_union hbundle hlookup
    cases hname
  cases hroot : fs.lstat root with
  | error err =>
    unfold collect at hcollect
    rw [hroot] at hcollect
    cases hcollect
  | ok entry =>
    cases entry with
    | dir d => exact ⟨d, files, rfl, collect_eq_ok hroot hcollect, hbundle⟩
    | file content | link target =>
      unfold collect at hcollect
      rw [hroot] at hcollect
      exact absurd hcollect hleaf

theorem exists_bundle_empty {extraFiles : Files} {archive : List TarEntry}
    (h : bundleFromDirectory fs root extraFiles = .ok archive) :
    ∃ archive', bundleFromDirectory fs root ∅ = .ok archive' := by
  obtain ⟨files, hcollect, hbundle⟩ := Except.bind_eq_ok_iff.mp h
  obtain ⟨archive', harchive'⟩ :=
    exists_bundleFromFiles fun _ _ hlookup => exists_name_of_union hbundle hlookup
  refine ⟨archive', ?_⟩
  unfold bundleFromDirectory
  rw [hcollect, ← harchive', ← AList.empty_union (s := files)]
  rfl

/-- The entry of an archive is one of the extra files. -/
def FromExtra (extraFiles : Files) (e : TarEntry) : Prop :=
  ∃ p, extraFiles.lookup p = some e.content ∧ cleanArchivePath p = .ok e.name

/-- The entry of an archive is named by its path below the root, and it holds the content of the
regular file this path leads to, which lies physically below the root. -/
def FromRoot (fs : FileSystem) (root : List String) (e : TarEntry) : Prop :=
  ∃ rel here physical, e.name = Pathname.ofNames rel ∧ fs.realpath root = .ok here ∧
    fs.realpath (root ++ rel) = .ok physical ∧ here <+: physical ∧
      fs.entries.lookup physical = some (.file e.content)

/-- No symbolic link that the walk reads leads out of the root. -/
def LinksStay (fs : FileSystem) (root : List String) : Prop :=
  ∀ here rel target physical, fs.realpath root = .ok here →
    root.getLast? ≠ some ".git" → ".git" ∉ rel.dropLast →
      fs.entries.lookup (here ++ rel) = some (.link target) →
        fs.realpath (root ++ rel) = .ok physical → here <+: physical

/-- If no link leaves the root, what is read comes from it. -/
theorem fromRoot_of_linksStay {d : Directory} {content : List UInt8} {e : TarEntry}
    (hlinks : LinksStay fs root) (hroot : fs.lstat root = .ok (.dir d))
    (hrel : rel ∈ visited root d) (hread : fs.readFile (root ++ rel) = .ok content)
    (hname : cleanArchivePath (relPath rel) = .ok e.name) (hcontent : e.content = content) :
    FromRoot fs root e := by
  obtain ⟨here, hhere, hdir⟩ := fs.realpath_of_lstat hroot
  obtain ⟨physical, hphysical, -, hfile⟩ := fs.readFile_eq_ok_iff.mp hread
  unfold visited at hrel
  split_ifs at hrel with hgit
  · cases hrel
  · obtain ⟨entry, hlookup, hleaf, hdirs⟩ :=
      (mem_leaves_iff (Directory.distinct_of_lookup fs.distinct hdir) rel).mp hrel
    have hne : rel ≠ [] := by
      rintro rfl
      exact hleaf d (Option.some.inj hlookup).symm
    rw [cleanArchivePath_relPath hne] at hname
    refine ⟨rel, here, physical, (Except.ok.inj hname).symm, hhere, hphysical, ?_, hcontent ▸ hfile⟩
    cases entry with
    | dir entries => exact absurd rfl (hleaf entries)
    | file c =>
      -- the path of a regular file leads to the file itself
      have hplain := fs.realpath_append hhere hdir hlookup fun _ h => by cases h
      rw [hphysical] at hplain
      rw [Except.ok.inj hplain]
      exact List.prefix_append here rel
    | link target =>
      refine hlinks here rel target physical hhere hgit hdirs ?_ hphysical
      rw [Directory.lookup_append hdir, hlookup]

theorem exists_mem_of_link {archive : List TarEntry} {here : List String} {target : Pathname}
    (h : bundleFromDirectory fs root ∅ = .ok archive) (hhere : fs.realpath root = .ok here)
    (hgit : root.getLast? ≠ some ".git") (hdirs : ".git" ∉ rel.dropLast)
    (hlink : fs.entries.lookup (here ++ rel) = some (.link target)) :
    ∃ e ∈ archive, e.name = Pathname.ofNames rel := by
  obtain ⟨d, files, hroot, hcollected, hbundle⟩ := bundleFromDirectory_eq_ok h
  obtain ⟨here', hhere', hdir⟩ := fs.realpath_of_lstat hroot
  obtain rfl : here = here' := Except.ok.inj (hhere.symm.trans hhere')
  rw [Directory.lookup_append hdir] at hlink
  have hleaf : rel ∈ visited root d := by
    unfold visited
    rw [if_neg hgit, mem_leaves_iff (Directory.distinct_of_lookup fs.distinct hdir)]
    exact ⟨_, hlink, (fun _ h => by cases h), hdirs⟩
  have hne : rel ≠ [] := by
    rintro rfl
    cases hlink
  obtain ⟨content, hread⟩ := hcollected.read rel hleaf
  have hfile := (hcollected.lookup (relPath rel) content).mpr ⟨rel, hleaf, rfl, hread⟩
  rw [AList.empty_union] at hbundle
  obtain ⟨name, hname, hmem⟩ := (mem_bundleFromFiles hbundle).1 _ _ hfile
  rw [cleanArchivePath_relPath hne] at hname
  exact ⟨_, hmem, (Except.ok.inj hname).symm⟩

/-- The archives of a directory hold, beside the extra files, only regular files that lie
physically below the directory, exactly when no link that the walk reads leads out of the
directory. A directory that cannot be bundled at all has no archives. -/
theorem bundle_within_root_iff (fs : FileSystem) (root : List String) :
    (∀ extraFiles archive, bundleFromDirectory fs root extraFiles = .ok archive →
      ∀ e ∈ archive, FromExtra extraFiles e ∨ FromRoot fs root e) ↔
    ((∃ archive, bundleFromDirectory fs root ∅ = .ok archive) → LinksStay fs root) := by
  constructor
  · rintro hall ⟨archive, hbundle⟩ here rel target physical hhere hgit hdirs hlink hphysical
    obtain ⟨e, hmem, hname⟩ := exists_mem_of_link hbundle hhere hgit hdirs hlink
    obtain ⟨p, hextra, -⟩ | ⟨rel', here', physical', hname', hhere', hphysical', hbelow, -⟩ :=
      hall ∅ archive hbundle e hmem
    · cases hextra
    · obtain rfl : rel = rel' := Pathname.ofNames_injective (hname.symm.trans hname')
      obtain rfl : here = here' := Except.ok.inj (hhere.symm.trans hhere')
      obtain rfl : physical = physical' := Except.ok.inj (hphysical.symm.trans hphysical')
      exact hbelow
  · intro hstay extraFiles archive hbundle e hmem
    have hlinks := hstay (exists_bundle_empty hbundle)
    obtain ⟨d, files, hroot, hcollected, hfiles⟩ := bundleFromDirectory_eq_ok hbundle
    obtain ⟨p, hlookup, hname⟩ := (mem_bundleFromFiles hfiles).2 e hmem
    obtain hextra | ⟨-, hcollect⟩ := AList.mem_lookup_union.mp hlookup
    · exact .inl ⟨p, hextra, hname⟩
    · obtain ⟨rel, hrel, rfl, hread⟩ := (hcollected.lookup _ _).mp hcollect
      exact .inr (fromRoot_of_linksStay hlinks hroot hrel hread hname rfl)

namespace Sample

def worker : FileSystem where
  entries :=
    .dir "etc" (.file "token" [115, 51] .nil) <|
    .dir "work" (.file "index.mjs" [123, 125] <|
      .link "leak" ⟨true, [.name "etc", .name "token"]⟩ .nil) .nil
  distinct := by simp [Directory.Distinct, Directory.names]
  readable _ := true

def archive : List TarEntry :=
  [⟨Pathname.ofNames ["index.mjs"], 0o644, 2, [123, 125]⟩,
    ⟨Pathname.ofNames ["leak"], 0o644, 2, [115, 51]⟩]

theorem bundle_worker : bundleFromDirectory worker ["work"] ∅ = .ok archive := by
  decide +kernel

end Sample

/-- A link to a file of the build worker brings this file into the archive. -/
theorem not_bundle_within_root :
    ¬ ∀ fs root extraFiles archive, bundleFromDirectory fs root extraFiles = .ok archive →
      ∀ e ∈ archive, FromExtra extraFiles e ∨ FromRoot fs root e := by
  intro hall
  obtain ⟨p, hextra, -⟩ | ⟨rel, here, physical, hname, hhere, hphysical, hbelow, -⟩ :=
    hall Sample.worker ["work"] ∅ Sample.archive Sample.bundle_worker
      ⟨Pathname.ofNames ["leak"], 0o644, 2, [115, 51]⟩ (by decide)
  · cases hextra
  · obtain rfl : ["leak"] = rel := Pathname.ofNames_injective hname
    have hroot : Sample.worker.realpath ["work"] = .ok ["work"] := by decide +kernel
    have hleak : Sample.worker.realpath (["work"] ++ ["leak"]) = .ok ["etc", "token"] := by
      decide +kernel
    obtain rfl := Except.ok.inj (hroot.symm.trans hhere)
    obtain rfl := Except.ok.inj (hleak.symm.trans hphysical)
    exact absurd hbelow (by decide)

end Artifact

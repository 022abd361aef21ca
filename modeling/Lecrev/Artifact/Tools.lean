import Lecrev.Artifact.Contents

/-!
# Archives written by other tools

Other tools write an entry for every directory, with a separator at the end of its name, before the
entries below it, often starting with `./`, and they may put `./` in front of every name.
`ExtractTarGz` does not look at the type of an entry: `./` is refused, and the entry of a directory
becomes an empty file, which is in the way of everything below it.
-/

namespace Artifact

/-- An entry as other tools write it. -/
inductive Item
  /-- The entry `./`. -/
  | root (mode : ℤ)
  /-- A directory, with `./` in front of its name or without. -/
  | dir (dotted : Bool) (path : List String) (mode : ℤ)
  /-- A regular file, with `./` in front of its name or without. -/
  | file (dotted : Bool) (path : List String) (mode : ℤ) (content : List UInt8)
  deriving DecidableEq, Repr

namespace Item

/-- The components of a name, `./` in front included. -/
def components (dotted : Bool) (path : List String) : List Component :=
  (if dotted then [.current] else []) ++ path.map .name

/-- The entry as the tar reader decodes it. -/
def header : Item → Header
  | .root mode => ⟨"./", '5', mode, []⟩
  | .dir dotted path mode =>
    ⟨Pathname.text ⟨false, components dotted path ++ [.empty]⟩, '5', mode, []⟩
  | .file dotted path mode content =>
    ⟨Pathname.text ⟨false, components dotted path⟩, '0', mode, content⟩

/-- Where the entry belongs. -/
def path : Item → List String
  | .root _ => []
  | .dir _ path _ => path
  | .file _ path _ _ => path

/-- The item is a regular file. -/
def IsFile : Item → Prop
  | .file _ _ _ _ => True
  | _ => False

/-- The path and the content of a regular file. -/
def file? : Item → Option (List String × List UInt8)
  | .file _ path _ content => some (path, content)
  | _ => none

end Item

example : (Item.dir true ["lib", "util"] 0o755).header.name = "./lib/util/" := by decide +kernel

/-- An archive of other tools: names are names, `./` is only the first entry, no entry stands before
that of its directory, and no file is on the way to another one. -/
structure ToolArchive (items : List Item) : Prop where
  names : ∀ item ∈ items, ∀ n ∈ item.path, IsName n
  proper : ∀ item ∈ items, item.path = [] → ∃ mode, item = .root mode
  first : ∀ mode, .root mode ∉ items.tail
  order : ∀ a dotted path mode b, items = a ++ .dir dotted path mode :: b →
    ∀ item ∈ a, path <+: item.path → path = item.path
  files : ∀ e ∈ items.filterMap Item.file?, ∀ e' ∈ items.filterMap Item.file?, e.1 <+: e'.1 →
    e.1 = e'.1

/-- Below `here` lie exactly the regular files, each with the content of its last entry, and exactly
the directories of the archive and those on the way to its entries. -/
structure Restored (items : List Item) (here : List String) (fs : FileSystem) : Prop where
  file : ∀ rel content, fs.node (here ++ rel) = some (.file content) ↔
    (items.filterMap Item.file?).reverse.lookup rel = some content
  dir : ∀ rel, fs.node (here ++ rel) = some .dir ↔
    rel = [] ∨ ∃ item ∈ items, rel <+: item.path ∧ (item.IsFile → rel ≠ item.path)
  link : ∀ rel target, fs.node (here ++ rel) ≠ some (.link target)

theorem cleanArchivePath_of_clean {p q r : Pathname} (h : clean p = clean q)
    (hq : cleanArchivePath q = .ok r) : cleanArchivePath p = .ok r := by
  unfold cleanArchivePath at hq ⊢
  rw [h]
  dsimp only at hq ⊢
  split_ifs at hq ⊢
  exact hq

theorem entryPath_components {path : List String} (hpath : path ≠ [])
    (hnames : ∀ n ∈ path, IsName n) (dotted : Bool) {after : List Component}
    (hafter : after = [] ∨ after = [.empty]) :
    entryPath (Pathname.text ⟨false, Item.components dotted path ++ after⟩) = some path := by
  obtain ⟨n, rest, rfl⟩ := List.exists_cons_of_ne_nil hpath
  have hclean : clean ⟨false, Item.components dotted (n :: rest) ++ after⟩ =
      clean ⟨false, (n :: rest).map .name⟩ := by
    unfold clean Item.components
    obtain rfl | rfl := hafter
    · cases dotted <;> simp [cleanStep]
    · cases dotted <;> simp [List.foldl_append, cleanStep]
  have hself := cleanArchivePath_of_clean hclean (cleanArchivePath_names fun _ => hpath)
  unfold entryPath
  rw [Pathname.ofText_text]
  · exact pathBelow_of_names hself
  · unfold Item.components
    simp
  · intro _
    unfold Item.components
    cases dotted <;> simp
  · intro m hm
    refine hnames m ?_
    unfold Item.components at hm
    obtain rfl | rfl := hafter
    · cases dotted <;> simpa using hm
    · cases dotted <;> simpa using hm

theorem ToolArchive.entryPath_header {items : List Item} (h : ToolArchive items) {item : Item}
    (hmem : item ∈ items) (hroot : ∀ mode, item ≠ .root mode) :
    entryPath item.header.name = some item.path ∧ item.path ≠ [] := by
  have hpath : item.path ≠ [] := fun hnil =>
    let ⟨mode, heq⟩ := h.proper item hmem hnil
    hroot mode heq
  refine ⟨?_, hpath⟩
  cases item with
  | root mode => exact absurd rfl (hroot mode)
  | dir dotted path mode =>
    exact entryPath_components hpath (h.names _ hmem) dotted (.inr rfl)
  | file dotted path mode content =>
    have hnone : ([] : List Component) = [] ∨ ([] : List Component) = [.empty] := .inl rfl
    have hfile := entryPath_components hpath (h.names _ hmem) dotted hnone
    rwa [List.append_nil] at hfile

theorem ToolArchive.storedBy_headers {items : List Item} (h : ToolArchive items)
    (hfiles : ∀ item ∈ items, item.IsFile) :
    storedBy (items.map Item.header) = (items.filterMap Item.file?).reverse := by
  unfold storedBy
  rw [List.filterMap_map]
  refine congrArg List.reverse (List.filterMap_congr fun item hmem => ?_)
  cases item with
  | root mode | dir dotted path mode => exact absurd (hfiles _ hmem) id
  | file dotted path mode content =>
    have hpath := (h.entryPath_header hmem fun _ heq => by cases heq).1
    simp only [Function.comp_apply]
    rw [hpath]
    rfl

section Extraction

variable {items : List Item} {fs : FileSystem} {dest here : List String}

/-- An archive of files only is restored. -/
theorem ToolArchive.restored_of_files (h : ToolArchive items) (hempty : EmptyDir fs dest here)
    (hfiles : ∀ item ∈ items, item.IsFile) :
    ((extractTarGz dest (items.map Item.header)).run { fs }).1 = .ok () ∧
      Restored items here ((extractTarGz dest (items.map Item.header)).run { fs }).2.fs := by
  obtain ⟨ok, front, hfront, hholds, hrooted, hok⟩ := hempty.exists_front (items.map Item.header)
  have hpath : ∀ {item : Item}, item ∈ items →
      entryPath item.header.name = some item.path ∧ item.path ≠ [] := by
    intro item hmem
    refine h.entryPath_header hmem ?_
    rintro mode rfl
    exact hfiles _ hmem
  have hfile : ∀ {item : Item}, item ∈ items →
      (item.path, item.header.content) ∈ items.filterMap Item.file? := by
    intro item hmem
    refine List.mem_filterMap.mpr ⟨item, hmem, ?_⟩
    cases item with
    | root mode | dir dotted path mode => exact absurd (hfiles _ hmem) id
    | file dotted path mode content => rfl
  have hof : ∀ {e : List String × List UInt8}, e ∈ items.filterMap Item.file? →
      ∃ item ∈ items, item.IsFile ∧ item.path = e.1 := by
    intro e he
    obtain ⟨item, hmem, hitem⟩ := List.mem_filterMap.mp he
    refine ⟨item, hmem, hfiles item hmem, ?_⟩
    cases item with
    | root mode | dir dotted path mode => cases hitem
    | file dotted path mode content =>
      obtain rfl := Option.some.inj hitem
      rfl
  obtain ⟨htrue, rfl⟩ : ok = true ∧ front = items.map Item.header := by
    refine hfront.eq_of_apart (fun hdr hmem => ?_) fun a ha b hb rel rel' hrel hrel' => ?_
    · obtain ⟨item, hitem, rfl⟩ := List.mem_map.mp hmem
      exact ⟨item.path, hpath hitem⟩
    · obtain ⟨item, hitem, rfl⟩ := List.mem_map.mp ha
      obtain ⟨item', hitem', rfl⟩ := List.mem_map.mp hb
      obtain rfl := Option.some.inj ((hpath hitem).1.symm.trans hrel)
      obtain rfl := Option.some.inj ((hpath hitem').1.symm.trans hrel')
      exact ⟨h.files _ (hfile hitem) _ (hfile hitem'), h.files _ (hfile hitem') _ (hfile hitem)⟩
  rw [h.storedBy_headers hfiles] at hholds
  refine ⟨hok.mpr htrue, hholds.file, fun rel => ?_, hrooted.plain⟩
  rw [hholds.dir]
  refine or_congr_right ⟨?_, ?_⟩
  · rintro ⟨e, he, hle, hne⟩
    obtain ⟨item, hmem, -, hitem⟩ := hof (List.mem_reverse.mp he)
    exact ⟨item, hmem, hitem ▸ hle, fun _ => hitem ▸ hne⟩
  · rintro ⟨item, hmem, hle, hne⟩
    exact ⟨_, List.mem_reverse.mpr (hfile hmem), hle, hne (hfiles item hmem)⟩

/-- What is restored was a file. -/
theorem ToolArchive.isFile_of_restored (h : ToolArchive items) (hempty : EmptyDir fs dest here)
    (hrun : ((extractTarGz dest (items.map Item.header)).run { fs }).1 = .ok ())
    (hrestored : Restored items here ((extractTarGz dest (items.map Item.header)).run { fs }).2.fs)
    {item : Item} (hmem : item ∈ items) : item.IsFile := by
  obtain ⟨ok, front, hfront, hholds, -, hok⟩ := hempty.exists_front (items.map Item.header)
  have hall : front = items.map Item.header := by
    obtain ⟨-, heq⟩ | ⟨hfalse, -⟩ := hfront.stops
    · exact heq.symm
    · rw [hok.mp hrun] at hfalse
      cases hfalse
  have hheader : item.header ∈ front := hall ▸ List.mem_map_of_mem hmem
  cases item with
  | file dotted path mode content => trivial
  | root mode =>
    -- its name is cleaned to the current directory
    obtain ⟨a, b, hsplit⟩ := List.append_of_mem hheader
    obtain ⟨rel, hrel, -⟩ := hfront.fits a _ b hsplit
    have hnone : entryPath (Item.root mode).header.name = none := by
      change entryPath "./" = none
      decide +kernel
    rw [hnone] at hrel
    cases hrel
  | dir dotted path mode =>
    obtain ⟨hpath, -⟩ := h.entryPath_header hmem fun _ heq => by cases heq
    have hstored : (path, []) ∈ storedBy front := mem_storedBy.mpr ⟨_, hheader, hpath, rfl⟩
    obtain ⟨content, hfile⟩ := hholds.exists_file_iff.mpr ⟨_, hstored, rfl⟩
    have hdir := (hrestored.dir path).mpr
      (.inr ⟨_, hmem, List.prefix_rfl, fun hfalse => hfalse.elim⟩)
    dsimp only at hfile
    rw [hdir] at hfile
    cases hfile

end Extraction

/-- Extracted into an empty directory, an archive of other tools leaves exactly its files and its
directories if and only if it has no entries for directories. -/
theorem tool_archive_iff {items : List Item} (h : ToolArchive items) {fs : FileSystem}
    {dest here : List String} (hempty : EmptyDir fs dest here) :
    (((extractTarGz dest (items.map Item.header)).run { fs }).1 = .ok () ∧
      Restored items here ((extractTarGz dest (items.map Item.header)).run { fs }).2.fs) ↔
    ∀ item ∈ items, item.IsFile :=
  ⟨fun ⟨hrun, hrestored⟩ _ hmem => h.isFile_of_restored hempty hrun hrestored hmem,
    h.restored_of_files hempty⟩

namespace ToolSample

def flat : List Item :=
  [.file true ["index.mjs"] 0o644 [1], .file true ["lib", "a.mjs"] 0o644 [2],
    .file false ["lib", "index.mjs"] 0o600 []]

def nested : List Item := [.dir false ["lib"] 0o755, .file false ["lib", "a.mjs"] 0o644 [1]]

theorem isName_index : IsName "index.mjs" := ⟨by decide, by decide, by decide, by decide⟩

theorem isName_lib : IsName "lib" := ⟨by decide, by decide, by decide, by decide⟩

theorem isName_a : IsName "a.mjs" := ⟨by decide, by decide, by decide, by decide⟩

theorem toolArchive_flat : ToolArchive flat where
  names := by simp [flat, Item.path, isName_index, isName_lib, isName_a]
  proper := by simp [flat, Item.path]
  first := by simp [flat]
  order := by
    intro a dotted path mode b hsplit
    have hmem : Item.dir dotted path mode ∈ flat := by
      rw [hsplit]
      simp
    simp [flat] at hmem
  files := by simp [flat, Item.file?]

theorem toolArchive_nested : ToolArchive nested where
  names := by simp [nested, Item.path, isName_lib, isName_a]
  proper := by simp [nested, Item.path]
  first := by simp [nested]
  order := by
    rintro (_ | ⟨first, a⟩) dotted path mode b hsplit item hitem
    · simp at hitem
    · -- the entry of a directory is the first one only
      have hmem : Item.dir dotted path mode ∈ nested.tail := by
        rw [hsplit]
        simp
      simp [nested] at hmem
  files := by simp [nested, Item.file?]

end ToolSample

theorem tool_archive_iff_sample :
    ((extractTarGz ["work"] (ToolSample.flat.map Item.header)).run
        { fs := ExtractSample.worker }).1 = .ok () ∧
      Restored ToolSample.flat ["work"]
        ((extractTarGz ["work"] (ToolSample.flat.map Item.header)).run
          { fs := ExtractSample.worker }).2.fs :=
  (tool_archive_iff ToolSample.toolArchive_flat ExtractSample.emptyDir_worker).mpr
    (by simp [ToolSample.flat, Item.IsFile])

/-- The entry of the directory `lib` becomes a file. -/
theorem not_tool_archive :
    ¬ ∀ items fs dest here, ToolArchive items → EmptyDir fs dest here →
      ((extractTarGz dest (items.map Item.header)).run { fs }).1 = .ok () ∧
        Restored items here ((extractTarGz dest (items.map Item.header)).run { fs }).2.fs := by
  intro hall
  obtain ⟨hrun, hrestored⟩ :=
    hall ToolSample.nested _ _ _ ToolSample.toolArchive_nested ExtractSample.emptyDir_worker
  have hmem : Item.dir false ["lib"] 0o755 ∈ ToolSample.nested := List.mem_cons_self
  exact ToolSample.toolArchive_nested.isFile_of_restored ExtractSample.emptyDir_worker hrun
    hrestored hmem

end Artifact

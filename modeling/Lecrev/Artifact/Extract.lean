import Lecrev.Artifact.Bundle
import Lecrev.Concurrency.Sequential
import Lecrev.Filesystem.Text
import Lecrev.Filesystem.Write
import Mathlib.Data.List.Induction

/-!
# Extracting an archive

`ExtractTarGz` reads the entries of an archive one by one. The name of an entry is cleaned and
joined to the destination, a target whose text does not start with that of the destination is
refused, the directories on the way to the target are made, and the target is created or truncated
and filled. Every call to the operating system may fail.
-/

namespace Artifact

/-- An entry of an archive as the tar reader decodes it. The type of the entry is not looked at. -/
structure Header where
  name : String
  typeflag : Char
  mode : ℤ
  content : List UInt8
  deriving DecidableEq, Repr

/-- Why an extraction stops. -/
inductive ExtractError
  | archive (err : BundleError)
  | escapes (name : String)
  | path (err : PathError)
  | mkdir (err : FileSystem.MkdirError)
  | decode
  | io
  deriving DecidableEq, Repr

/-- The file system, the file that is open for writing, and the locations at which a file or a
directory has been created or truncated. -/
structure Disk where
  fs : FileSystem
  handle : Option (List String) := none
  touched : List (List String) := []

/-- The calls of an extraction on the disk. -/
inductive DiskCall
  | gzip
  | next
  | stat
  | mkdir
  | lstat
  | create
  | write
  | close
  deriving DecidableEq, Repr

/-- Programs that extract archives. -/
abbrev ExtractM := Prog DiskCall Disk ExtractError

/-! ## Calls -/

/-- `os.Stat`. -/
def osStat (path : List String) : ExtractM Node :=
  .query .stat fun s => (s.fs.stat path).mapError .path

/-- `os.Lstat`. -/
def osLstat (path : List String) : ExtractM Node :=
  .query .lstat fun s => ((s.fs.lstat path).map Entry.node).mapError .path

/-- `os.Mkdir`. -/
def osMkdir (path : List String) : ExtractM Unit :=
  .action .mkdir fun s =>
    match s.fs.mkdir path with
    | .error err => (.error (.mkdir err), s)
    | .ok location =>
      (.ok (), { s with fs := s.fs.putDir location, touched := location :: s.touched })

/-- `os.OpenFile` with `O_CREATE|O_TRUNC|O_WRONLY`. -/
def osCreate (path : List String) : ExtractM Unit :=
  .action .create fun s =>
    match s.fs.openCreate path with
    | .error err => (.error (.path err), s)
    | .ok location =>
      (.ok (), { fs := s.fs.putFile location [], handle := some location,
                 touched := location :: s.touched })

/-- `io.Copy` into the open file. -/
def ioCopy (content : List UInt8) : ExtractM Unit :=
  .modify .write fun s =>
    match s.handle with
    | none => s
    | some location => { s with fs := s.fs.putFile location content }

/-- `Close` of the file that is written. -/
def close : ExtractM Unit :=
  .modify .close fun s => { s with handle := none }

/-- `os.MkdirAll` at one path, after the directories above it have been made by `above`. -/
def mkdirAt (path : List String) (above : ExtractM Unit) : ExtractM Unit := do
  match ← (osStat path).result with
  | .ok .dir => return
  | .ok _ => .throw (.path .notDirectory)
  | .error _ =>
    above
    match ← (osMkdir path).result with
    | .ok () => return
    | .error err =>
      match ← (osLstat path).result with
      | .ok .dir => return
      | _ => .throw err

/-- `os.MkdirAll` on the path with the given names, the last one first. -/
def mkdirAllUp : List String → ExtractM Unit
  | [] => mkdirAt [] (pure ())
  | n :: up => mkdirAt (n :: up).reverse (mkdirAllUp up)

/-- `os.MkdirAll`. -/
def mkdirAll (path : List String) : ExtractM Unit := mkdirAllUp path.reverse

/-! ## The extraction -/

/-- The absolute path through the given names. -/
def absolute (names : List String) : Pathname := ⟨true, names.map .name⟩

/-- `filepath.Join(dest, path)` for an absolute path `dest`. -/
def join (dest : List String) (path : Pathname) : Pathname :=
  clean ⟨true, dest.map .name ++ ((if path.rooted then [.empty] else []) ++ path.components)⟩

/-- The names on a path. -/
def namesOf (path : Pathname) : List String :=
  path.components.filterMap fun
    | .name n => some n
    | _ => none

/-- `strings.HasPrefix`. -/
def hasPrefix (text front : String) : Bool := front.toList.isPrefixOf text.toList

/-- The file of one round of the loop of `ExtractTarGz`: it is opened, filled and closed. -/
def fillTarget (target : List String) (content : List UInt8) : ExtractM Unit := do
  osCreate target
  match ← (ioCopy content).result with
  | .error err =>
    let _ ← close.result
    .throw err
  | .ok () => close

/-- The round of the loop of `ExtractTarGz` from the target on. -/
def writeTarget (target : List String) (content : List UInt8) : ExtractM Unit := do
  mkdirAll target.dropLast
  fillTarget target content

/-- One round of the loop of `ExtractTarGz`. -/
def extractEntry (dest : List String) (hdr : Header) : ExtractM Unit := do
  let clean ← .ret ((cleanArchivePath (.ofText hdr.name)).mapError .archive)
  let target := join dest clean
  if hasPrefix target.text (absolute dest).text then
    writeTarget (namesOf target) hdr.content
  else
    .throw (.escapes hdr.name)

/-- The loop of `ExtractTarGz`. A call of the reader that fails stands for an archive that cannot
be decoded any further. -/
def extractLoop (dest : List String) : List Header → ExtractM Unit
  | [] => .query .next fun _ => .ok ()
  | hdr :: rest => do
    .query .next fun _ => .ok ()
    extractEntry dest hdr
    extractLoop dest rest

/-- `ExtractTarGz`. -/
def extractTarGz (dest : List String) (archive : List Header) : ExtractM Unit := do
  .query .gzip fun _ => .ok ()
  extractLoop dest archive

/-! ## Cleaned names -/

theorem exists_foldl_cleanStep (rooted : Bool) (cs : List Component) :
    ∃ (names : List String) (k : ℕ),
      cs.foldl (cleanStep rooted) [] = names.map .name ++ List.replicate k .parent ∧
      (rooted = true → k = 0) ∧ ∀ n ∈ names, Component.name n ∈ cs := by
  induction cs using List.reverseRecOn with
  | nil => exact ⟨[], 0, rfl, fun _ => rfl, by simp⟩
  | append_singleton cs c ih =>
    obtain ⟨names, k, hfold, hk, hnames⟩ := ih
    have hmem : ∀ n ∈ names, Component.name n ∈ cs ++ [c] :=
      fun n hn => List.mem_append_left _ (hnames n hn)
    rw [List.foldl_concat, hfold]
    cases c with
    | empty | current => exact ⟨names, k, rfl, hk, hmem⟩
    | name n =>
      refine ⟨n :: names, k, rfl, hk, ?_⟩
      rintro m (_ | ⟨_, hm⟩)
      · simp
      · exact hmem m hm
    | parent =>
      cases names with
      | cons n names =>
        -- the last name is dropped
        exact ⟨names, k, rfl, hk, fun m hm => hmem m (List.mem_cons_of_mem _ hm)⟩
      | nil =>
        cases rooted with
        | true =>
          obtain rfl := hk rfl
          exact ⟨[], 0, rfl, fun _ => rfl, by simp⟩
        | false =>
          refine ⟨[], k + 1, ?_, fun h => (Bool.false_ne_true h).elim, by simp⟩
          cases k with
          | zero => rfl
          | succ k => rfl

theorem clean_cases (p : Pathname) :
    (p.rooted = false ∧ clean p = ⟨false, [.current]⟩) ∨
    ∃ (names : List String) (k : ℕ),
      clean p = ⟨p.rooted, List.replicate k .parent ++ names.map .name⟩ ∧
      (p.rooted = true → k = 0) ∧ ∀ n ∈ names, Component.name n ∈ p.components := by
  obtain ⟨names, k, hfold, hk, hnames⟩ := exists_foldl_cleanStep p.rooted p.components
  unfold clean
  dsimp only
  split_ifs with h
  · exact .inl ⟨h.2, rfl⟩
  · refine .inr ⟨names.reverse, k, ?_, hk, fun n hn => hnames n (List.mem_reverse.mp hn)⟩
    rw [hfold, List.reverse_append, List.reverse_replicate, List.map_reverse]

/-- **The names that are not refused** are cleaned to names, below the root directory if there is a
separator in front, or to the parent directory alone. -/
theorem cleanArchivePath_cases {p q : Pathname} (h : cleanArchivePath p = .ok q) :
    (p.rooted = false ∧ q = ⟨false, [.parent]⟩) ∨
    ∃ names : List String, q = ⟨p.rooted, names.map .name⟩ ∧ (p.rooted = false → names ≠ []) ∧
      ∀ n ∈ names, Component.name n ∈ p.components := by
  unfold cleanArchivePath at h
  dsimp only at h
  obtain ⟨-, hclean⟩ | ⟨names, k, hclean, hk, hnames⟩ := clean_cases p
  · rw [hclean] at h
    cases h
  rw [hclean] at h
  cases k with
  | zero =>
    have htrim : trimCurrent ⟨p.rooted, names.map .name⟩ = ⟨p.rooted, names.map .name⟩ := by
      cases p.rooted with
      | true => rfl
      | false => cases names with
        | nil | cons n names => rfl
    rw [List.replicate_zero, List.nil_append, htrim] at h
    split_ifs at h with hrefused
    refine .inr ⟨names, (Except.ok.inj h).symm, ?_, hnames⟩
    rintro hrooted rfl
    exact hrefused (.inr (.inl (by rw [hrooted]; rfl)))
  | succ k =>
    have hrooted : p.rooted = false := by
      cases hp : p.rooted with
      | true => cases hk hp
      | false => rfl
    rw [hrooted, List.replicate_succ, List.cons_append] at h
    -- a path that climbs is only accepted when there is nothing after the first step
    cases hrest : List.replicate k Component.parent ++ names.map .name with
    | nil =>
      rw [hrest] at h
      exact .inl ⟨hrooted, (Except.ok.inj h).symm⟩
    | cons c cs =>
      rw [hrest] at h
      cases h

/-! ## Targets -/

theorem clean_absolute (names : List String) : clean (absolute names) = absolute names := by
  unfold clean absolute
  dsimp only
  rw [foldl_cleanStep_names, List.append_nil, List.reverse_reverse]
  simp

theorem join_names (dest names : List String) (rooted : Bool) :
    join dest ⟨rooted, names.map .name⟩ = absolute (dest ++ names) := by
  rw [← clean_absolute]
  unfold join absolute
  rw [List.map_append]
  cases rooted with
  | false => rfl
  | true =>
    -- the empty component between two separators is dropped
    unfold clean
    simp [List.foldl_append, cleanStep]

theorem join_parent (dest : List String) :
    join dest ⟨false, [.parent]⟩ = absolute dest.dropLast := by
  obtain rfl | ⟨init, n, rfl⟩ : dest = [] ∨ ∃ init n, dest = init ++ [n] :=
    (List.eq_nil_or_concat dest).imp_right fun ⟨init, n, h⟩ => ⟨init, n, by simpa using h⟩
  · rfl
  · rw [List.dropLast_concat]
    unfold join clean absolute
    simp [List.foldl_append, foldl_cleanStep_names, cleanStep]

theorem namesOf_absolute (names : List String) : namesOf (absolute names) = names := by
  unfold namesOf absolute
  rw [List.filterMap_map]
  exact List.filterMap_some

theorem hasPrefix_iff {text front : String} :
    hasPrefix text front = true ↔ front.toList <+: text.toList :=
  List.isPrefixOf_iff_prefix

theorem toList_absolute (names : List String) :
    (absolute names).text.toList = '/' :: ['/'].intercalate (names.map String.toList) := by
  unfold absolute Pathname.text
  simp [String.toList_intercalate, Function.comp_def, Component.text]

theorem length_intercalate_concat (names : List (List Char)) {n : List Char} (hn : n ≠ []) :
    (['/'].intercalate names).length < (['/'].intercalate (names ++ [n])).length := by
  induction names with
  | nil => simpa [List.length_pos_iff] using hn
  | cons m names ih =>
    cases names with
    | nil => simp
    | cons m' names => simpa using ih

theorem not_hasPrefix_dropLast {dest : List String} (hne : dest ≠ [])
    (hnames : ∀ n ∈ dest, IsName n) :
    hasPrefix (absolute dest.dropLast).text (absolute dest).text = false := by
  obtain ⟨init, n, rfl⟩ : ∃ init n, dest = init ++ [n] :=
    ⟨_, _, (List.dropLast_append_getLast hne).symm⟩
  rw [← Bool.not_eq_true, hasPrefix_iff, List.dropLast_concat, toList_absolute, toList_absolute]
  intro hfront
  have hn : n.toList ≠ [] := fun h =>
    (hnames n (by simp)).ne_empty (String.toList_inj.mp h)
  have hshort := length_intercalate_concat (init.map String.toList) hn
  have hle := hfront.length_le
  rw [List.map_append, List.map_singleton] at hle
  simp only [List.length_cons] at hle
  omega

theorem intercalate_prefix (a b : List (List Char)) :
    ['/'].intercalate a <+: ['/'].intercalate (a ++ b) := by
  induction a with
  | nil => exact List.nil_prefix
  | cons m a ih =>
    cases a with
    | cons m' a => simpa using ih
    | nil =>
      cases b with
      | nil => simp
      | cons n b => simp

theorem hasPrefix_append (dest names : List String) :
    hasPrefix (absolute (dest ++ names)).text (absolute dest).text = true := by
  rw [hasPrefix_iff, toList_absolute, toList_absolute, List.map_append]
  exact List.cons_prefix_cons.mpr ⟨rfl, intercalate_prefix _ _⟩

/-! ## The destination -/

/-- Nothing outside of the destination, which is at `here`, has been created or truncated, and the
file that is open for writing lies below it. -/
structure Within (dest here : List String) (s : Disk) : Prop where
  rooted : s.fs.Rooted dest here
  touched : ∀ location ∈ s.touched, here <+: location
  handle : ∀ location, s.handle = some location →
    ∃ rel content, location = here ++ rel ∧ s.fs.node location = some (.file content)

variable {dest here : List String}

theorem Within.ne_nil_of_file {s : Disk} {rel : List String} {content : List UInt8}
    (h : Within dest here s) (hfile : s.fs.node (here ++ rel) = some (.file content)) :
    rel ≠ [] := by
  rintro rfl
  rw [List.append_nil, h.rooted.dir] at hfile
  cases hfile

theorem Within.mkdir {s : Disk} {rel : List String} (h : Within dest here s) (hrel : rel ≠ [])
    (hparent : s.fs.node (here ++ rel.dropLast) = some .dir)
    (hnone : s.fs.node (here ++ rel) = none) :
    Within dest here
      { s with fs := s.fs.putDir (here ++ rel), touched := (here ++ rel) :: s.touched } := by
  refine ⟨h.rooted.putDir hrel hparent hnone, ?_, fun location hlocation => ?_⟩
  · rintro location (_ | ⟨_, hlocation⟩)
    · exact List.prefix_append here rel
    · exact h.touched location hlocation
  · obtain ⟨rel', content, rfl, hfile⟩ := h.handle location hlocation
    refine ⟨rel', content, rfl, ?_⟩
    obtain ⟨hlast, hne⟩ := FileSystem.dropLast_append_ne_nil here hrel
    rw [FileSystem.node_putDir hne (hlast ▸ hparent) hnone, if_neg, hfile]
    intro heq
    rw [heq, hnone] at hfile
    cases hfile

theorem Within.putFile {s : Disk} {rel : List String} (h : Within dest here s) (hrel : rel ≠ [])
    (hparent : s.fs.node (here ++ rel.dropLast) = some .dir)
    (hdir : s.fs.node (here ++ rel) ≠ some .dir) (content : List UInt8)
    {touched : List (List String)} (htouched : ∀ location ∈ touched, here <+: location) :
    Within dest here
      { fs := s.fs.putFile (here ++ rel) content, handle := some (here ++ rel), touched } := by
  refine ⟨h.rooted.putFile hrel hparent hdir content, htouched, fun location hlocation => ?_⟩
  obtain rfl := Option.some.inj hlocation
  obtain ⟨hlast, hne⟩ := FileSystem.dropLast_append_ne_nil here hrel
  refine ⟨rel, content, rfl, ?_⟩
  rw [FileSystem.node_putFile hne (hlast ▸ hparent) hdir, if_pos rfl]

/-- A path that the extraction hands to the operating system: it leads to the destination or on
from it. -/
def OnTheWay (dest path : List String) : Prop :=
  path <+: dest ∨ ∃ rel, rel ≠ [] ∧ path = dest ++ rel

theorem onTheWay_append (dest rel : List String) : OnTheWay dest (dest ++ rel) := by
  cases rel with
  | nil => exact .inl (by simp)
  | cons n rel => exact .inr ⟨n :: rel, List.cons_ne_nil n rel, rfl⟩

theorem OnTheWay.of_front {path front : List String} (h : OnTheWay dest path)
    (hfront : front <+: path) : OnTheWay dest front := by
  obtain hpath | ⟨rel, -, rfl⟩ := h
  · exact .inl (hfront.trans hpath)
  · obtain hdest | ⟨rel', rfl⟩ :=
      List.prefix_or_prefix_of_prefix hfront (List.prefix_append dest rel)
    · exact .inl hdest
    · exact onTheWay_append dest rel'

theorem keeps_osMkdir {path : List String} (hpath : OnTheWay dest path) :
    (osMkdir path).Keeps (Within dest here) fun _ _ _ => True := by
  refine Prog.keeps_action fun s hs => ⟨?_, trivial⟩
  cases hmkdir : s.fs.mkdir path with
  | error err => exact hs
  | ok location =>
    obtain hfront | ⟨rel, hrel, rfl⟩ := hpath
    · exact absurd hmkdir (FileSystem.mkdir_ne_ok_of_prefix hs.rooted.leads hfront location)
    · obtain ⟨rfl, hparent, hnone⟩ := (hs.rooted.mkdir_append_iff hrel).mp hmkdir
      exact hs.mkdir hrel hparent hnone

theorem keeps_osCreate (rel : List String) :
    (osCreate (dest ++ rel)).Keeps (Within dest here) fun _ _ _ => True := by
  refine Prog.keeps_action fun s hs => ⟨?_, trivial⟩
  cases hopen : s.fs.openCreate (dest ++ rel) with
  | error err => exact hs
  | ok location =>
    by_cases hrel : rel = []
    · rw [hrel, List.append_nil] at hopen
      exact absurd hopen (hs.rooted.openCreate_ne_ok location)
    · obtain ⟨rfl, hparent, hdir⟩ := (hs.rooted.openCreate_append_iff hrel).mp hopen
      refine hs.putFile hrel hparent hdir [] ?_
      rintro location (_ | ⟨_, hlocation⟩)
      · exact List.prefix_append here rel
      · exact hs.touched location hlocation

theorem keeps_ioCopy (content : List UInt8) :
    (ioCopy content).Keeps (Within dest here) fun _ _ _ => True := by
  refine Prog.keeps_modify fun s hs => ⟨?_, trivial⟩
  cases hhandle : s.handle with
  | none => exact hs
  | some location =>
    obtain ⟨rel, old, rfl, hfile⟩ := hs.handle location hhandle
    have hrel := hs.ne_nil_of_file hfile
    have hdir : s.fs.node (here ++ rel) ≠ some .dir := by
      rw [hfile]
      simp
    exact hs.putFile hrel (FileSystem.node_dropLast hrel hfile) hdir content hs.touched

theorem keeps_close : close.Keeps (Within dest here) fun _ _ _ => True :=
  Prog.keeps_modify fun _ hs => ⟨⟨hs.rooted, hs.touched, fun _ h => by cases h⟩, trivial⟩

theorem keeps_mkdirAt {I : Disk → Prop} {path : List String} {above : ExtractM Unit}
    (hmkdir : (osMkdir path).Keeps I fun _ _ _ => True)
    (habove : above.Keeps I fun _ _ _ => True) :
    (mkdirAt path above).Keeps I fun _ _ _ => True := by
  have hstat : (osStat path).Keeps I fun _ _ _ => True := Prog.keeps_query fun _ _ => trivial
  have hlstat : (osLstat path).Keeps I fun _ _ _ => True := Prog.keeps_query fun _ _ => trivial
  refine hstat.result.bind_of fun found => ?_
  cases found with
  | ok node =>
    cases node with
    | dir | file content | link target => trivial
  | error err =>
    refine habove.bind_of fun _ => hmkdir.result.bind_of fun made => ?_
    cases made with
    | ok u => trivial
    | error err =>
      refine hlstat.result.bind_of fun found => ?_
      cases found with
      | ok node =>
        cases node with
        | dir | file content | link target => trivial
      | error err => trivial

theorem keeps_mkdirAll {I : Disk → Prop} {path : List String}
    (h : ∀ front, front <+: path → (osMkdir front).Keeps I fun _ _ _ => True) :
    (mkdirAll path).Keeps I fun _ _ _ => True := by
  have hup : ∀ up : List String,
      (∀ front, front <+: up.reverse → (osMkdir front).Keeps I fun _ _ _ => True) →
        (mkdirAllUp up).Keeps I fun _ _ _ => True := by
    intro up
    induction up with
    | nil => exact fun hfront => keeps_mkdirAt (hfront [] List.prefix_rfl) (Prog.keeps_pure ())
    | cons n up ih =>
      intro hfront
      refine keeps_mkdirAt (hfront _ List.prefix_rfl) (ih fun front hle => hfront front ?_)
      rw [List.reverse_cons]
      exact hle.trans (List.prefix_append up.reverse [n])
  refine hup path.reverse ?_
  rwa [List.reverse_reverse]

theorem keeps_writeTarget (rel : List String) (content : List UInt8) :
    (writeTarget (dest ++ rel) content).Keeps (Within dest here) fun _ _ _ => True := by
  have hdirs : (mkdirAll (dest ++ rel).dropLast).Keeps (Within dest here) fun _ _ _ => True :=
    keeps_mkdirAll fun front hfront =>
      keeps_osMkdir ((onTheWay_append dest rel).of_front (hfront.trans (List.dropLast_prefix _)))
  refine hdirs.bind_of fun _ => (keeps_osCreate rel).bind_of fun _ => ?_
  refine (keeps_ioCopy content).result.bind_of fun copied => ?_
  cases copied with
  | ok u => exact keeps_close
  | error err => exact keeps_close.result.bind_of fun _ => trivial

/-- The names below the destination that the name of an entry stands for, unless it is refused. -/
def pathBelow (p : Pathname) : Option (List String) :=
  match cleanArchivePath p with
  | .error _ => none
  | .ok clean => if clean = ⟨false, [.parent]⟩ then none else some (namesOf clean)

/-- `pathBelow` for the text of a name. -/
def entryPath (name : String) : Option (List String) := pathBelow (.ofText name)

theorem pathBelow_of_names {p : Pathname} {rooted : Bool} {rel : List String}
    (h : cleanArchivePath p = .ok ⟨rooted, rel.map .name⟩) : pathBelow p = some rel := by
  have hclimb : (⟨rooted, rel.map .name⟩ : Pathname) ≠ ⟨false, [.parent]⟩ := by
    intro h
    have hmem : Component.parent ∈ rel.map Component.name := by
      rw [(Pathname.mk.inj h).2]
      exact List.mem_singleton_self _
    simp at hmem
  unfold pathBelow
  rw [h]
  dsimp only
  rw [if_neg hclimb]
  exact congrArg some (namesOf_absolute rel)

/-- What one round does, by the path of its entry. Only below the root directory the parent of the
destination is not refused by its text, and then it is the destination. -/
theorem extractEntry_eq (hnames : ∀ n ∈ dest, IsName n) (hdr : Header) :
    (entryPath hdr.name = none ∧ ((∃ err, extractEntry dest hdr = .throw err) ∨
      extractEntry dest hdr = writeTarget (dest ++ []) hdr.content)) ∨
    ∃ rel, entryPath hdr.name = some rel ∧
      extractEntry dest hdr = writeTarget (dest ++ rel) hdr.content := by
  unfold extractEntry entryPath
  cases hclean : cleanArchivePath (.ofText hdr.name) with
  | error err =>
    unfold pathBelow
    rw [hclean]
    exact .inl ⟨rfl, .inl ⟨_, rfl⟩⟩
  | ok name =>
    change (_ ∧ ((∃ err, (if hasPrefix _ _ = true then _ else _ : ExtractM Unit) = _) ∨
        (if hasPrefix _ _ = true then _ else _ : ExtractM Unit) = _)) ∨
      ∃ rel, _ ∧ (if hasPrefix _ _ = true then _ else _ : ExtractM Unit) = _
    obtain ⟨-, rfl⟩ | ⟨rel, rfl, -⟩ := cleanArchivePath_cases hclean
    · have hpath : pathBelow (.ofText hdr.name) = none := by
        unfold pathBelow
        rw [hclean]
        exact if_pos rfl
      rw [join_parent, namesOf_absolute]
      by_cases hne : dest = []
      · subst hne
        exact .inl ⟨hpath, .inr rfl⟩
      · rw [not_hasPrefix_dropLast hne hnames]
        exact .inl ⟨hpath, .inl ⟨_, rfl⟩⟩
    · rw [join_names, hasPrefix_append, if_pos rfl, namesOf_absolute]
      exact .inr ⟨rel, pathBelow_of_names hclean, rfl⟩

theorem keeps_extractEntry (hnames : ∀ n ∈ dest, IsName n) (hdr : Header) :
    (extractEntry dest hdr).Keeps (Within dest here) fun _ _ _ => True := by
  obtain ⟨-, ⟨err, hthrow⟩ | hwrite⟩ | ⟨rel, -, hwrite⟩ := extractEntry_eq hnames hdr
  · rw [hthrow]
    exact Prog.keeps_throw err
  · rw [hwrite]
    exact keeps_writeTarget [] hdr.content
  · rw [hwrite]
    exact keeps_writeTarget rel hdr.content

theorem keeps_extractLoop (hnames : ∀ n ∈ dest, IsName n) (archive : List Header) :
    (extractLoop dest archive).Keeps (Within dest here) fun _ _ _ => True := by
  induction archive with
  | nil => exact Prog.keeps_query fun _ _ => trivial
  | cons hdr rest ih =>
    refine Prog.Keeps.bind_of (Prog.keeps_query fun _ _ => trivial) fun _ => ?_
    exact (keeps_extractEntry hnames hdr).bind_of fun _ => ih

/-- Whatever the archive holds and wherever the extraction ends: what it has created or truncated
lies at or below the destination. -/
theorem extract_within_destination {fs : FileSystem} (hroot : fs.Rooted dest here)
    (hnames : ∀ n ∈ dest, IsName n) (archive : List Header) :
    (extractTarGz dest archive).Throughout
      (fun s => ∀ location ∈ s.touched, here <+: location) { fs } := by
  have hstart : Within dest here { fs } :=
    ⟨hroot, fun _ h => absurd h List.not_mem_nil, fun _ h => by cases h⟩
  have hkeeps : (extractTarGz dest archive).Keeps (Within dest here) fun _ _ _ => True :=
    Prog.Keeps.bind_of (Prog.keeps_query fun _ _ => trivial) fun _ =>
      keeps_extractLoop hnames archive
  exact (hkeeps.throughout hstart).mono fun _ hs => hs.touched

/-- The absolute path through the names `dest` leads to the empty directory `here`. -/
structure EmptyDir (fs : FileSystem) (dest here : List String) : Prop where
  names : ∀ n ∈ dest, IsName n
  leads : fs.realpath dest = .ok here
  empty : fs.entries.lookup here = some (.dir .nil)

theorem EmptyDir.node {fs : FileSystem} (h : EmptyDir fs dest here) (rel : List String) :
    fs.node (here ++ rel) = if rel = [] then some .dir else none := by
  have hnode : fs.node (here ++ rel) = Directory.nil.node rel := Directory.node_append h.empty rel
  rw [hnode]
  cases rel with
  | nil => rfl
  | cons n rel => rfl

theorem EmptyDir.rooted {fs : FileSystem} (h : EmptyDir fs dest here) : fs.Rooted dest here := by
  refine ⟨h.leads, ?_, fun rel target => ?_⟩
  · simpa using h.node []
  · rw [h.node rel]
    split_ifs <;> simp

namespace ExtractSample

def worker : FileSystem where
  entries :=
    .dir "etc" (.file "token" [115, 51] .nil) <|
    .dir "work" .nil .nil
  distinct := by simp [Directory.Distinct, Directory.names]
  readable _ := true

theorem emptyDir_worker : EmptyDir worker ["work"] ["work"] := by
  refine ⟨fun n hn => ?_, by decide +kernel, rfl⟩
  obtain rfl := List.mem_singleton.mp hn
  exact ⟨by decide, by decide, by decide, by decide⟩

def archive : List Header :=
  [⟨"./a//b", '0', 0o644, [1]⟩, ⟨"a/../../etc/token", '0', 0o644, [2]⟩]

end ExtractSample

theorem extract_within_destination_sample :
    (extractTarGz ["work"] ExtractSample.archive).Throughout
      (fun s => ∀ location ∈ s.touched, ["work"] <+: location) { fs := ExtractSample.worker } :=
  extract_within_destination ExtractSample.emptyDir_worker.rooted
    ExtractSample.emptyDir_worker.names ExtractSample.archive

end Artifact

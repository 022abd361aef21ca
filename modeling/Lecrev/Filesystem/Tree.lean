import Mathlib.Data.List.Basic
import Mathlib.Tactic.SplitIfs

/-!
# File systems with symbolic links

A file system is a tree of directories, regular files and symbolic links. A path is its text split
at the separators. The kernel resolves a path component by component: a link is replaced by its
target, which starts at the root directory or at the directory that holds the link, and a
resolution that meets too many links is given up.
-/

/-- A component of a path: the text between two separators. -/
inductive Component
  | empty
  | current
  | parent
  | name (text : String)
  deriving DecidableEq, Repr

/-- A path, split at its separators. The separator in front of an absolute path is `rooted`. -/
structure Pathname where
  rooted : Bool
  components : List Component
  deriving DecidableEq, Repr

/-- The text of a component. -/
def Component.text : Component → String
  | .empty => ""
  | .current => "."
  | .parent => ".."
  | .name text => text

/-- The text of a path. -/
def Pathname.text (p : Pathname) : String :=
  (if p.rooted then "/" else "") ++ String.intercalate "/" (p.components.map Component.text)

/-- The relative path through the given names. -/
def Pathname.ofNames (names : List String) : Pathname := ⟨false, names.map .name⟩

theorem Pathname.ofNames_injective {a b : List String}
    (h : Pathname.ofNames a = Pathname.ofNames b) :
    a = b := by
  have hcomponents : a.map Component.name = b.map Component.name := congrArg Pathname.components h
  refine List.map_injective_iff.mpr ?_ hcomponents
  intro x y hxy
  exact Component.name.inj hxy

/-- The entries of a directory, in the order in which they are listed. -/
inductive Directory
  | nil
  | file (name : String) (content : List UInt8) (rest : Directory)
  | link (name : String) (target : Pathname) (rest : Directory)
  | dir (name : String) (entries rest : Directory)

/-- What a name in a directory stands for. -/
inductive Entry
  | file (content : List UInt8)
  | link (target : Pathname)
  | dir (entries : Directory)

namespace Directory

/-- The names in a directory. -/
def names : Directory → List String
  | .nil => []
  | .file name _ rest => name :: rest.names
  | .link name _ rest => name :: rest.names
  | .dir name _ rest => name :: rest.names

/-- No directory of the tree lists a name twice. -/
def Distinct : Directory → Prop
  | .nil => True
  | .file name _ rest => name ∉ rest.names ∧ rest.Distinct
  | .link name _ rest => name ∉ rest.names ∧ rest.Distinct
  | .dir name entries rest => name ∉ rest.names ∧ entries.Distinct ∧ rest.Distinct

/-- The entry of a directory under a name. -/
def find : Directory → String → Option Entry
  | .nil, _ => none
  | .file name content rest, n => if n = name then some (.file content) else rest.find n
  | .link name target rest, n => if n = name then some (.link target) else rest.find n
  | .dir name entries rest, n => if n = name then some (.dir entries) else rest.find n

/-- The entry at the end of a chain of names, of which all but the last are directories. -/
def lookup (d : Directory) : List String → Option Entry
  | [] => some (.dir d)
  | n :: ns =>
    match d.find n with
    | some (.dir entries) => entries.lookup ns
    | some entry => if ns = [] then some entry else none
    | none => none

theorem mem_names_of_find {d : Directory} {n : String} {entry : Entry}
    (h : d.find n = some entry) : n ∈ d.names := by
  induction d with
  | nil => cases h
  | file name content rest ih | link name target rest ih | dir name entries rest _ ih =>
    rw [find] at h
    split_ifs at h with hname
    · exact List.mem_cons.mpr (.inl hname)
    · exact List.mem_cons_of_mem _ (ih h)

theorem lookup_append {d e : Directory} {a : List String} (h : d.lookup a = some (.dir e))
    (b : List String) : d.lookup (a ++ b) = e.lookup b := by
  induction a generalizing d with
  | nil => cases h; rfl
  | cons n a ih =>
    rw [lookup] at h
    rw [List.cons_append, lookup]
    cases hfind : d.find n with
    | none => rw [hfind] at h; cases h
    | some entry =>
      rw [hfind] at h
      cases entry with
      | dir entries => exact ih h
      | file content | link target =>
        dsimp only at h
        split_ifs at h
        cases h

theorem distinct_of_find {d e : Directory} {n : String} (hd : d.Distinct)
    (h : d.find n = some (.dir e)) : e.Distinct := by
  induction d with
  | nil => cases h
  | file name content rest ih | link name target rest ih =>
    rw [find] at h
    split_ifs at h
    · cases h
    · exact ih hd.2 h
  | dir name entries rest _ ih =>
    rw [find] at h
    split_ifs at h
    · obtain rfl := Entry.dir.inj (Option.some.inj h)
      exact hd.2.1
    · exact ih hd.2.2 h

theorem distinct_of_lookup {d e : Directory} {path : List String} (hd : d.Distinct)
    (h : d.lookup path = some (.dir e)) : e.Distinct := by
  induction path generalizing d with
  | nil =>
    obtain rfl := Entry.dir.inj (Option.some.inj h)
    exact hd
  | cons n path ih =>
    rw [lookup] at h
    cases hfind : d.find n with
    | none => rw [hfind] at h; cases h
    | some entry =>
      rw [hfind] at h
      cases entry with
      | dir entries => exact ih (distinct_of_find hd hfind) h
      | file content | link target =>
        dsimp only at h
        split_ifs at h
        cases h

theorem lookup_singleton (d : Directory) (n : String) : d.lookup [n] = d.find n := by
  rw [lookup]
  cases d.find n with
  | none => rfl
  | some entry => cases entry <;> rfl

end Directory

/-- Why the kernel refuses a path. -/
inductive PathError
  | notExist
  | notDirectory
  | isDirectory
  | tooManyLinks
  | permission
  deriving DecidableEq, Repr

/-- A file system: the tree below the root directory, and the physical locations that may be
opened. -/
structure FileSystem where
  entries : Directory
  distinct : entries.Distinct
  readable : List String → Bool

namespace FileSystem

/-- Resolve the remaining components from the physical location `here`, with `left` links to
spare. A link is handed to `follow`, with the directory its target starts at and all components
that are left then. -/
def descend (fs : FileSystem) (left : ℕ)
    (follow : List String → List Component → Except PathError (ℕ × List String))
    (here : List String) : List Component → Except PathError (ℕ × List String)
  | [] => .ok (left, here)
  | c :: cs =>
    match fs.entries.lookup here with
    | some (.dir d) =>
      match c with
      | .empty | .current => fs.descend left follow here cs
      | .parent => fs.descend left follow here.dropLast cs
      | .name n =>
        match d.find n with
        | none => .error .notExist
        | some (.link target) =>
          follow (if target.rooted then [] else here) (target.components ++ cs)
        | some _ => fs.descend left follow (here ++ [n]) cs
    | some _ => .error .notDirectory
    | none => .error .notExist

/-- The physical location that components lead to from `here`, when at most `left` links may be
followed, and the number of links that could still be followed there. -/
def resolve (fs : FileSystem) :
    ℕ → List String → List Component → Except PathError (ℕ × List String)
  | 0 => fs.descend 0 fun _ _ => .error .tooManyLinks
  | left + 1 => fs.descend (left + 1) (fs.resolve left)

/-- The number of links the kernel follows in one resolution. -/
def maxLinks : ℕ := 40

/-- The physical location an absolute path through the given names leads to. -/
def realpath (fs : FileSystem) (path : List String) : Except PathError (List String) :=
  (fs.resolve maxLinks [] (path.map .name)).map Prod.snd

/-- What an absolute path names, when its last component is not followed. -/
def lstat (fs : FileSystem) (path : List String) : Except PathError Entry :=
  match path.getLast? with
  | none => .ok (.dir fs.entries)
  | some name =>
    match fs.realpath path.dropLast with
    | .error err => .error err
    | .ok parent =>
      match fs.entries.lookup parent with
      | some (.dir d) => (d.find name).elim (.error .notExist) .ok
      | _ => .error .notDirectory

/-- Read the regular file an absolute path leads to. -/
def readFile (fs : FileSystem) (path : List String) : Except PathError (List UInt8) :=
  match fs.realpath path with
  | .error err => .error err
  | .ok physical =>
    if fs.readable physical then
      match fs.entries.lookup physical with
      | some (.file content) => .ok content
      | _ => .error .isDirectory
    else .error .permission

/-- List the directory an absolute path leads to. -/
def readDir (fs : FileSystem) (path : List String) : Except PathError Directory :=
  match fs.realpath path with
  | .error err => .error err
  | .ok physical =>
    if fs.readable physical then
      match fs.entries.lookup physical with
      | some (.dir entries) => .ok entries
      | _ => .error .notDirectory
    else .error .permission

variable (fs : FileSystem)

/-! ## How a path is resolved -/

@[simp]
theorem resolve_nil (left : ℕ) (here : List String) :
    fs.resolve left here [] = .ok (left, here) := by
  cases left <;> rfl

theorem resolve_name {here : List String} {d : Directory} {n : String} {entry : Entry}
    (hhere : fs.entries.lookup here = some (.dir d)) (hfind : d.find n = some entry)
    (hlink : ∀ target, entry ≠ .link target) (left : ℕ) (cs : List Component) :
    fs.resolve left here (.name n :: cs) = fs.resolve left (here ++ [n]) cs := by
  cases entry with
  | link target => exact absurd rfl (hlink target)
  | file content | dir entries => cases left <;> simp only [resolve, descend, hhere, hfind]

theorem descend_append {left : ℕ}
    {follow : List String → List Component → Except PathError (ℕ × List String)}
    {b : List Component} {k : ℕ × List String → Except PathError (ℕ × List String)}
    (hfollow : ∀ here a, follow here (a ++ b) = follow here a >>= k)
    (hend : ∀ here, fs.descend left follow here b = k (left, here)) (here : List String)
    (a : List Component) :
    fs.descend left follow here (a ++ b) = fs.descend left follow here a >>= k := by
  induction a generalizing here with
  | nil => exact hend here
  | cons c a ih =>
    rw [List.cons_append, descend, descend]
    cases fs.entries.lookup here with
    | none => rfl
    | some entry =>
      cases entry with
      | file content | link target => rfl
      | dir d =>
        cases c with
        | empty | current | parent => exact ih _
        | name n =>
          dsimp only
          cases d.find n with
          | none => rfl
          | some entry =>
            cases entry with
            | file content | dir entries => exact ih _
            | link target =>
              dsimp only
              rw [← List.append_assoc]
              exact hfollow _ _

theorem resolve_append (left : ℕ) (here : List String) (a b : List Component) :
    fs.resolve left here (a ++ b) =
      fs.resolve left here a >>= fun r => fs.resolve r.1 r.2 b := by
  -- following a link leaves one link less to follow
  induction left generalizing here a with
  | zero => exact fs.descend_append (fun _ _ => rfl) (fun _ => rfl) here a
  | succ left ih => exact fs.descend_append ih (fun _ => rfl) here a

theorem resolve_names {here rel : List String} {d : Directory} {entry : Entry}
    (hhere : fs.entries.lookup here = some (.dir d)) (hlookup : d.lookup rel = some entry)
    (hlink : ∀ target, entry ≠ .link target) (left : ℕ) :
    fs.resolve left here (rel.map .name) = .ok (left, here ++ rel) := by
  induction rel generalizing here d with
  | nil => rw [List.map_nil, resolve_nil, List.append_nil]
  | cons n rel ih =>
    rw [Directory.lookup] at hlookup
    cases hfind : d.find n with
    | none => rw [hfind] at hlookup; cases hlookup
    | some first =>
      rw [hfind] at hlookup
      cases first with
      | dir entries =>
        have hnext : fs.entries.lookup (here ++ [n]) = some (.dir entries) := by
          rw [Directory.lookup_append hhere, Directory.lookup_singleton, hfind]
        have hdir : ∀ target, Entry.dir entries ≠ .link target := fun _ h => by cases h
        rw [List.map_cons, fs.resolve_name hhere hfind hdir, ih hnext hlookup, List.append_assoc]
        rfl
      | file content | link target =>
        dsimp only at hlookup
        split_ifs at hlookup with hrel
        subst hrel
        cases hlookup
        rw [List.map_cons, fs.resolve_name hhere hfind hlink, List.map_nil, resolve_nil]

theorem realpath_append {path here rel : List String} {d : Directory} {entry : Entry}
    (hpath : fs.realpath path = .ok here) (hhere : fs.entries.lookup here = some (.dir d))
    (hlookup : d.lookup rel = some entry) (hlink : ∀ target, entry ≠ .link target) :
    fs.realpath (path ++ rel) = .ok (here ++ rel) := by
  rw [realpath] at hpath ⊢
  rw [List.map_append, resolve_append]
  cases hres : fs.resolve maxLinks [] (path.map .name) with
  | error err => rw [hres] at hpath; cases hpath
  | ok r =>
    rw [hres] at hpath
    obtain ⟨left, physical⟩ := r
    obtain rfl : physical = here := Except.ok.inj hpath
    have hnames := fs.resolve_names hhere hlookup hlink left
    exact congrArg (Except.map Prod.snd) hnames

theorem realpath_of_lstat {path : List String} {d : Directory}
    (h : fs.lstat path = .ok (.dir d)) :
    ∃ here, fs.realpath path = .ok here ∧ fs.entries.lookup here = some (.dir d) := by
  rw [lstat] at h
  cases hlast : path.getLast? with
  | none =>
    rw [List.getLast?_eq_none_iff] at hlast
    subst hlast
    cases h
    exact ⟨[], rfl, rfl⟩
  | some name =>
    rw [hlast] at h
    obtain ⟨front, rfl⟩ := List.getLast?_eq_some_iff.mp hlast
    dsimp only at h
    rw [List.dropLast_concat] at h
    cases hparent : fs.realpath front with
    | error err => rw [hparent] at h; cases h
    | ok here =>
      rw [hparent] at h
      dsimp only at h
      cases hlookup : fs.entries.lookup here with
      | none => rw [hlookup] at h; cases h
      | some entry =>
        rw [hlookup] at h
        cases entry with
        | file content | link target => cases h
        | dir e =>
          dsimp only at h
          cases hfind : e.find name with
          | none => rw [hfind] at h; cases h
          | some entry =>
            rw [hfind] at h
            obtain rfl : entry = .dir d := Except.ok.inj h
            have hdir : ∀ target, Entry.dir d ≠ .link target := fun _ h => by cases h
            have hname : e.lookup [name] = some (.dir d) := by
              rw [Directory.lookup_singleton, hfind]
            refine ⟨here ++ [name], fs.realpath_append hparent hlookup hname hdir, ?_⟩
            rw [Directory.lookup_append hlookup, hname]

theorem readFile_eq_ok_iff {path : List String} {content : List UInt8} :
    fs.readFile path = .ok content ↔
      ∃ physical, fs.realpath path = .ok physical ∧ fs.readable physical ∧
        fs.entries.lookup physical = some (.file content) := by
  rw [readFile]
  cases hpath : fs.realpath path with
  | error err => simp
  | ok physical =>
    constructor
    · intro h
      dsimp only at h
      split_ifs at h with hreadable
      refine ⟨physical, rfl, hreadable, ?_⟩
      cases hlookup : fs.entries.lookup physical with
      | none => rw [hlookup] at h; cases h
      | some entry =>
        rw [hlookup] at h
        cases entry with
        | file c => cases h; rfl
        | link target | dir entries => cases h
    · rintro ⟨_, hphysical, hreadable, hlookup⟩
      cases hphysical
      simp only [if_pos hreadable, hlookup]

end FileSystem

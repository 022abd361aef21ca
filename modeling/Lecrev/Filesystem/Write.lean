import Lecrev.Filesystem.Tree

/-!
# Writing to a file system

What is found at a location is a `Node`: a regular file, a link or a directory. A write puts an
entry at a location whose parent is a directory, and leaves all other locations as they are
(`Directory.node_put`).

A file system that is only written to keeps its directories and its links, and what was a file stays
one (`FileSystem.Extends`). Every path then leads where it led before (`Extends.resolve`).
-/

/-- What is found at a location. -/
inductive Node
  | file (content : List UInt8)
  | link (target : Pathname)
  | dir
  deriving DecidableEq, Repr

/-- The kind of a node: the content of a file is left out. -/
def Node.kind : Node → Node
  | .file _ => .file []
  | node => node

/-- What a lookup tells about an entry. -/
def Entry.node : Entry → Node
  | .file content => .file content
  | .link target => .link target
  | .dir _ => .dir

namespace Directory

/-- What is found at a location below the directory. -/
def node (d : Directory) (path : List String) : Option Node := (d.lookup path).map Entry.node

end Directory

/-- What is found below an entry. -/
def Entry.nodeAt : Entry → List String → Option Node
  | .dir d, path => d.node path
  | entry, path => if path = [] then some entry.node else none

namespace Directory

@[simp]
theorem node_nil (d : Directory) : d.node [] = some .dir := rfl

theorem node_cons (d : Directory) (n : String) (path : List String) :
    d.node (n :: path) = (d.find n).bind fun entry => entry.nodeAt path := by
  unfold node
  rw [lookup]
  cases d.find n with
  | none => rfl
  | some entry =>
    cases entry with
    | dir e => rfl
    | file content | link target =>
      dsimp only [Option.bind_some, Entry.nodeAt]
      split_ifs <;> rfl

variable {path : List String}

theorem node_eq_dir_iff {d : Directory} :
    d.node path = some .dir ↔ ∃ e, d.lookup path = some (.dir e) := by
  unfold node
  cases d.lookup path with
  | none => simp
  | some entry => cases entry <;> simp [Entry.node]

theorem of_nodeAt_eq_dir {entry : Entry} (h : entry.nodeAt path = some .dir) :
    ∃ e : Directory, entry = .dir e ∧ e.node path = some .dir := by
  cases entry with
  | dir e => exact ⟨e, rfl, h⟩
  | file content | link target =>
    dsimp only [Entry.nodeAt] at h
    split_ifs at h
    cases h

theorem node_append {d e : Directory} (h : d.lookup path = some (.dir e)) (rest : List String) :
    d.node (path ++ rest) = e.node rest := by
  unfold node
  rw [lookup_append h]

theorem node_singleton (d : Directory) (n : String) : d.node [n] = (d.find n).map Entry.node := by
  unfold node
  rw [lookup_singleton]

theorem node_append_of_ne {d : Directory} {rest : List String} (h : d.node path ≠ some .dir)
    (hrest : rest ≠ []) : d.node (path ++ rest) = none := by
  induction path generalizing d with
  | nil => exact absurd d.node_nil h
  | cons n path ih =>
    rw [List.cons_append, node_cons]
    rw [node_cons] at h
    cases hfind : d.find n with
    | none => rfl
    | some entry =>
      rw [hfind] at h
      cases entry with
      | dir e => exact ih h
      | file content | link target => simp [Entry.nodeAt, hrest]

/-! ## Putting an entry -/

/-- A directory with one more entry in front. -/
def cons (n : String) : Entry → Directory → Directory
  | .file content, rest => .file n content rest
  | .link target, rest => .link n target rest
  | .dir entries, rest => .dir n entries rest

/-- Put an entry under a name of the directory, in the place of what was there. -/
def insert (d : Directory) (n : String) (entry : Entry) : Directory :=
  match d with
  | .nil => cons n entry .nil
  | .file name content rest =>
    if n = name then cons n entry rest else .file name content (rest.insert n entry)
  | .link name target rest =>
    if n = name then cons n entry rest else .link name target (rest.insert n entry)
  | .dir name entries rest =>
    if n = name then cons n entry rest else .dir name entries (rest.insert n entry)

theorem find_cons (n m : String) (entry : Entry) (rest : Directory) :
    (cons n entry rest).find m = if m = n then some entry else rest.find m := by
  cases entry <;> rfl

theorem find_insert (d : Directory) (n m : String) (entry : Entry) :
    (d.insert n entry).find m = if m = n then some entry else d.find m := by
  induction d with
  | nil => exact find_cons n m entry .nil
  | file name content rest ih | link name target rest ih | dir name entries rest _ ih =>
    unfold insert
    split_ifs with hname hm hm
    · rw [find_cons, if_pos hm]
    · subst hname
      rw [find_cons, if_neg hm, find, if_neg hm]
    · rw [find, if_neg (hm ▸ hname), ih, if_pos hm]
    · rw [find, find, ih, if_neg hm]

/-- Put an entry at a location below the directory. -/
def put (d : Directory) (path : List String) (entry : Entry) : Directory :=
  match path with
  | [] => d
  | [n] => d.insert n entry
  | n :: path =>
    match d.find n with
    | some (.dir e) => d.insert n (.dir (e.put path entry))
    | _ => d

/-- **What is found after an entry was put** where there is a directory for it: the entry, and
elsewhere what was there. -/
theorem node_put {d : Directory} (hpath : path ≠ []) (hparent : d.node path.dropLast = some .dir)
    (entry : Entry) (p : List String) :
    (d.put path entry).node p =
      if path <+: p then entry.nodeAt (p.drop path.length) else d.node p := by
  induction path generalizing d p with
  | nil => exact absurd rfl hpath
  | cons n path ih =>
    cases p with
    | nil =>
      rw [if_neg (fun h => by simpa using h.length_le), node_nil, node_nil]
    | cons m p =>
      simp only [List.cons_prefix_cons, List.length_cons, List.drop_succ_cons]
      cases path with
      | nil =>
        rw [put, node_cons, find_insert, node_cons]
        by_cases hm : m = n
        · simp [hm]
        · simp [hm, Ne.symm hm]
      | cons n' path =>
        rw [List.dropLast_cons_of_ne_nil (List.cons_ne_nil n' path), node_cons] at hparent
        obtain ⟨first, hfind, hfirst⟩ := Option.bind_eq_some_iff.mp hparent
        obtain ⟨e, rfl, he⟩ := of_nodeAt_eq_dir hfirst
        rw [put, hfind]
        · dsimp only
          rw [node_cons, find_insert, node_cons]
          by_cases hm : m = n
          · subst hm
            rw [if_pos rfl, hfind]
            simpa [Entry.nodeAt] using ih (List.cons_ne_nil n' path) he p
          · simp [hm, Ne.symm hm]
        · simp

end Directory

/-- The entry lists no name twice. -/
def Entry.Distinct : Entry → Prop
  | .dir d => d.Distinct
  | _ => True

namespace Directory

theorem names_cons (n : String) (entry : Entry) (rest : Directory) :
    (cons n entry rest).names = n :: rest.names := by
  cases entry <;> rfl

theorem distinct_cons {n : String} {entry : Entry} {rest : Directory} (hname : n ∉ rest.names)
    (hentry : entry.Distinct) (hrest : rest.Distinct) : (cons n entry rest).Distinct := by
  cases entry with
  | file content | link target => exact ⟨hname, hrest⟩
  | dir entries => exact ⟨hname, hentry, hrest⟩

theorem mem_names_insert {d : Directory} {n m : String} {entry : Entry}
    (h : m ∈ (d.insert n entry).names) : m = n ∨ m ∈ d.names := by
  induction d with
  | nil =>
    rw [insert, names_cons] at h
    exact List.mem_cons.mp h
  | file name content rest ih | link name target rest ih | dir name entries rest _ ih =>
    unfold insert at h
    split_ifs at h with hname
    · rw [names_cons] at h
      exact (List.mem_cons.mp h).imp_right (List.mem_cons_of_mem name)
    · obtain rfl | hmem := List.mem_cons.mp h
      · exact .inr List.mem_cons_self
      · exact (ih hmem).imp_right (List.mem_cons_of_mem name)

theorem distinct_insert {d : Directory} {n : String} {entry : Entry} (hd : d.Distinct)
    (hentry : entry.Distinct) : (d.insert n entry).Distinct := by
  have hnames : ∀ {name : String} {rest : Directory}, n ≠ name → name ∉ rest.names →
      name ∉ (rest.insert n entry).names := fun hname hnot hmem =>
    (mem_names_insert hmem).elim (fun h => hname h.symm) hnot
  induction d with
  | nil => exact distinct_cons List.not_mem_nil hentry trivial
  | file name content rest ih | link name target rest ih =>
    unfold insert
    split_ifs with hname
    · exact distinct_cons (hname ▸ hd.1) hentry hd.2
    · exact ⟨hnames hname hd.1, ih hd.2⟩
  | dir name entries rest _ ih =>
    unfold insert
    split_ifs with hname
    · exact distinct_cons (hname ▸ hd.1) hentry hd.2.2
    · exact ⟨hnames hname hd.1, hd.2.1, ih hd.2.2⟩

theorem distinct_put {d : Directory} {path : List String} {entry : Entry} (hd : d.Distinct)
    (hentry : entry.Distinct) : (d.put path entry).Distinct := by
  induction path generalizing d with
  | nil => exact hd
  | cons n path ih =>
    cases path with
    | nil => exact distinct_insert hd hentry
    | cons n' path =>
      cases hfind : d.find n with
      | none => simpa [put, hfind] using hd
      | some first =>
        cases first with
        | file content | link target => simpa [put, hfind] using hd
        | dir e =>
          rw [put, hfind]
          · exact distinct_insert hd (ih (distinct_of_find hd hfind))
          · simp

end Directory

namespace FileSystem

/-- What is found at a physical location. -/
def node (fs : FileSystem) (path : List String) : Option Node := fs.entries.node path

/-- Put a regular file at a physical location. -/
def putFile (fs : FileSystem) (path : List String) (content : List UInt8) : FileSystem where
  entries := fs.entries.put path (.file content)
  distinct := Directory.distinct_put fs.distinct trivial
  readable := fs.readable

/-- Put an empty directory at a physical location. -/
def putDir (fs : FileSystem) (path : List String) : FileSystem where
  entries := fs.entries.put path (.dir .nil)
  distinct := Directory.distinct_put fs.distinct trivial
  readable := fs.readable

variable {fs fs' : FileSystem} {path : List String}

theorem node_putFile (hpath : path ≠ []) (hparent : fs.node path.dropLast = some .dir)
    (hdir : fs.node path ≠ some .dir) (content : List UInt8) (p : List String) :
    (fs.putFile path content).node p =
      if p = path then some (.file content) else fs.node p := by
  change (fs.entries.put path (.file content)).node p = _
  rw [Directory.node_put hpath hparent]
  by_cases hprefix : path <+: p
  · obtain ⟨rest, rfl⟩ := hprefix
    cases rest with
    | nil => simp [Entry.nodeAt, Entry.node]
    | cons n rest =>
      have hnone : fs.node (path ++ n :: rest) = none :=
        Directory.node_append_of_ne hdir (List.cons_ne_nil n rest)
      simp [Entry.nodeAt, hnone]
  · have hne : p ≠ path := by
      rintro rfl
      exact hprefix List.prefix_rfl
    rw [if_neg hprefix, if_neg hne]
    rfl

theorem node_putDir (hpath : path ≠ []) (hparent : fs.node path.dropLast = some .dir)
    (hnone : fs.node path = none) (p : List String) :
    (fs.putDir path).node p = if p = path then some .dir else fs.node p := by
  change (fs.entries.put path (.dir .nil)).node p = _
  rw [Directory.node_put hpath hparent]
  by_cases hprefix : path <+: p
  · obtain ⟨rest, rfl⟩ := hprefix
    cases rest with
    | nil => simp [Entry.nodeAt]
    | cons n rest =>
      have hbelow : fs.node (path ++ n :: rest) = none :=
        Directory.node_append_of_ne (by rw [show fs.entries.node path = none from hnone]; simp)
          (List.cons_ne_nil n rest)
      simp [Entry.nodeAt, hbelow, Directory.node_cons, Directory.find]
  · have hne : p ≠ path := by
      rintro rfl
      exact hprefix List.prefix_rfl
    rw [if_neg hprefix, if_neg hne]
    rfl

/-! ## Growth -/

/-- What was found is found again, with the same kind. -/
def Extends (fs fs' : FileSystem) : Prop :=
  ∀ path node, fs.node path = some node → (fs'.node path).map Node.kind = some node.kind

theorem Node.kind_eq_dir_iff {node : Node} : node.kind = .dir ↔ node = .dir := by
  cases node <;> simp [Node.kind]

theorem Extends.dir (h : fs.Extends fs') (hdir : fs.node path = some .dir) :
    fs'.node path = some .dir := by
  obtain ⟨node, hnode, hkind⟩ := Option.map_eq_some_iff.mp (h path .dir hdir)
  rw [hnode, Node.kind_eq_dir_iff.mp hkind]

theorem Extends.link (h : fs.Extends fs') {target : Pathname}
    (hlink : fs.node path = some (.link target)) : fs'.node path = some (.link target) := by
  obtain ⟨node, hnode, hkind⟩ := Option.map_eq_some_iff.mp (h path _ hlink)
  cases node with
  | link target' => rw [hnode, Node.link.inj hkind]
  | file content | dir => cases hkind

theorem extends_putFile (hpath : path ≠ []) (hparent : fs.node path.dropLast = some .dir)
    (hfile : fs.node path = none ∨ ∃ content, fs.node path = some (.file content))
    (content : List UInt8) : fs.Extends (fs.putFile path content) := by
  have hdir : fs.node path ≠ some .dir := by
    obtain h | ⟨_, h⟩ := hfile <;> simp [h]
  intro p node hnode
  rw [node_putFile hpath hparent hdir]
  split_ifs with hp
  · subst hp
    obtain h | ⟨old, h⟩ := hfile
    · rw [h] at hnode
      cases hnode
    · rw [h] at hnode
      obtain rfl := Option.some.inj hnode
      rfl
  · rw [hnode, Option.map_some]

theorem extends_putDir (hpath : path ≠ []) (hparent : fs.node path.dropLast = some .dir)
    (hnone : fs.node path = none) : fs.Extends (fs.putDir path) := by
  intro p node hnode
  rw [node_putDir hpath hparent hnone]
  split_ifs with hp
  · subst hp
    rw [hnone] at hnode
    cases hnode
  · rw [hnode, Option.map_some]

theorem descend_cons (fs : FileSystem) (left : ℕ)
    (follow : List String → List Component → Except PathError (ℕ × List String))
    (here : List String) (c : Component) (cs : List Component) :
    fs.descend left follow here (c :: cs) =
      match fs.node here with
      | some .dir =>
        match c with
        | .empty | .current => fs.descend left follow here cs
        | .parent => fs.descend left follow here.dropLast cs
        | .name n =>
          match fs.node (here ++ [n]) with
          | none => .error .notExist
          | some (.link target) =>
            follow (if target.rooted then [] else here) (target.components ++ cs)
          | some _ => fs.descend left follow (here ++ [n]) cs
      | some _ => .error .notDirectory
      | none => .error .notExist := by
  rw [descend, node, Directory.node]
  cases hhere : fs.entries.lookup here with
  | none => rfl
  | some entry =>
    cases entry with
    | file content | link target => rfl
    | dir d =>
      dsimp only [Option.map_some, Entry.node]
      cases c with
      | empty | current | parent => rfl
      | name n =>
        dsimp only
        rw [node, Directory.node_append hhere, Directory.node_singleton]
        cases d.find n with
        | none => rfl
        | some entry => cases entry <;> rfl

variable {here rel p : List String} {left : ℕ} {r : ℕ × List String}

/-- A path still resolves after an extension. -/
theorem Extends.descend (h : fs.Extends fs')
    {follow follow' : List String → List Component → Except PathError (ℕ × List String)}
    (hfollow : ∀ here cs r, follow here cs = .ok r → follow' here cs = .ok r) {cs : List Component}
    (hr : fs.descend left follow here cs = .ok r) :
    fs'.descend left follow' here cs = .ok r := by
  induction cs generalizing here with
  | nil => exact hr
  | cons c cs ih =>
    rw [descend_cons] at hr ⊢
    cases hhere : fs.node here with
    | none => rw [hhere] at hr; cases hr
    | some node =>
      rw [hhere] at hr
      cases node with
      | file content | link target => cases hr
      | dir =>
        rw [h.dir hhere]
        cases c with
        | empty | current | parent => exact ih hr
        | name n =>
          dsimp only at hr ⊢
          cases hname : fs.node (here ++ [n]) with
          | none => rw [hname] at hr; cases hr
          | some node =>
            rw [hname] at hr
            cases node with
            | dir =>
              rw [h.dir hname]
              exact ih hr
            | link target =>
              rw [h.link hname]
              exact hfollow _ _ _ hr
            | file content =>
              obtain ⟨node, hnode, hkind⟩ := Option.map_eq_some_iff.mp (h _ _ hname)
              cases node with
              | file content' =>
                rw [hnode]
                exact ih hr
              | link target | dir => cases hkind

theorem Extends.resolve (h : fs.Extends fs') {cs : List Component}
    (hr : fs.resolve left here cs = .ok r) :
    fs'.resolve left here cs = .ok r := by
  induction left generalizing here cs r with
  | zero => exact h.descend (fun _ _ _ hok => hok) hr
  | succ left ih => exact h.descend (fun _ _ _ hok => ih hok) hr

theorem Extends.realpath (h : fs.Extends fs') (hpath : fs.realpath path = .ok here) :
    fs'.realpath path = .ok here := by
  unfold FileSystem.realpath at hpath ⊢
  cases hr : fs.resolve maxLinks [] (path.map .name) with
  | error err => rw [hr] at hpath; cases hpath
  | ok r =>
    rw [hr] at hpath
    rw [h.resolve hr]
    exact hpath

/-! ## Calls -/

/-- Why a directory is not made. -/
inductive MkdirError
  | path (err : PathError)
  | exist
  deriving DecidableEq, Repr

/-- What an absolute path leads to. -/
def stat (fs : FileSystem) (path : List String) : Except PathError Node :=
  match fs.realpath path with
  | .error err => .error err
  | .ok physical => (fs.node physical).elim (.error .notExist) .ok

/-- Make a directory of the given name in a directory. -/
def mkdirIn (fs : FileSystem) (parent : List String) (name : String) :
    Except MkdirError (List String) :=
  if fs.node parent = some .dir then
    if (fs.node (parent ++ [name])).isSome then .error .exist else .ok (parent ++ [name])
  else .error (.path .notDirectory)

/-- Where `mkdir` makes the directory. -/
def mkdir (fs : FileSystem) (path : List String) : Except MkdirError (List String) :=
  match path.getLast? with
  | none => .error .exist
  | some name =>
    match fs.realpath path.dropLast with
    | .error err => .error (.path err)
    | .ok parent => fs.mkdirIn parent name

/-- The location a path stands for when its last component need not exist. A link there is followed;
`fuel` bounds how often. -/
def locate (fs : FileSystem) :
    ℕ → ℕ → List String → List Component → Except PathError (List String)
  | 0, _, _, _ => .error .tooManyLinks
  | fuel + 1, left, here, cs =>
    match cs.getLast? with
    | some (.name n) =>
      match fs.resolve left here cs.dropLast with
      | .error err => .error err
      | .ok (left, parent) =>
        if fs.node parent = some .dir then
          match fs.node (parent ++ [n]), left with
          | some (.link _), 0 => .error .tooManyLinks
          | some (.link target), left + 1 =>
            fs.locate fuel left (if target.rooted then [] else parent) target.components
          | _, _ => .ok (parent ++ [n])
        else .error .notDirectory
    | _ => (fs.resolve left here cs).map Prod.snd

/-- Where an open for writing that creates or truncates puts the file. -/
def openCreate (fs : FileSystem) (path : List String) : Except PathError (List String) :=
  match fs.locate (maxLinks + 1) maxLinks [] (path.map .name) with
  | .error err => .error err
  | .ok location =>
    if fs.node location = some .dir then .error .isDirectory else .ok location

/-! ## Paths below a directory without links -/

/-- The path leads to the directory `here`, and there are no links below it. -/
structure Rooted (fs : FileSystem) (path here : List String) : Prop where
  leads : fs.realpath path = .ok here
  dir : fs.node here = some .dir
  plain : ∀ rel target, fs.node (here ++ rel) ≠ some (.link target)

theorem of_descend_names
    {follow : List String → List Component → Except PathError (ℕ × List String)}
    (hplain : ∀ rel target, fs.node (here ++ rel) ≠ some (.link target))
    (hhere : (fs.node here).isSome) (hr : fs.descend left follow here (rel.map .name) = .ok r) :
    (fs.node (here ++ rel)).isSome := by
  induction rel generalizing here with
  | nil => rwa [List.append_nil]
  | cons n rel ih =>
    rw [List.map_cons, descend_cons] at hr
    cases hdir : fs.node here with
    | none => rw [hdir] at hr; cases hr
    | some node =>
      rw [hdir] at hr
      cases node with
      | file content | link target => cases hr
      | dir =>
        dsimp only at hr
        cases hname : fs.node (here ++ [n]) with
        | none => rw [hname] at hr; cases hr
        | some node =>
          rw [hname] at hr
          rw [List.append_cons]
          have hbelow : ∀ rel target, fs.node (here ++ [n] ++ rel) ≠ some (.link target) := by
            intro rel target
            rw [← List.append_cons]
            exact hplain (n :: rel) target
          cases node with
          | file content | dir => exact ih hbelow (by rw [hname]; rfl) hr
          | link target => exact absurd hname (hplain [n] target)

theorem exists_resolve_of_realpath (h : fs.realpath path = .ok here) :
    ∃ left, fs.resolve maxLinks [] (path.map .name) = .ok (left, here) := by
  unfold realpath at h
  cases hr : fs.resolve maxLinks [] (path.map .name) with
  | error err => rw [hr] at h; cases h
  | ok r =>
    rw [hr] at h
    exact ⟨r.1, congrArg Except.ok (Prod.ext rfl (Except.ok.inj h))⟩

/-- **Below the directory** a path leads to the location it says, if there is something. -/
theorem Rooted.realpath_append_iff (h : Rooted fs path here) :
    fs.realpath (path ++ rel) = .ok p ↔ p = here ++ rel ∧ (fs.node (here ++ rel)).isSome := by
  have hforth : (fs.node (here ++ rel)).isSome → fs.realpath (path ++ rel) = .ok (here ++ rel) := by
    intro hsome
    obtain ⟨d, hd⟩ := Directory.node_eq_dir_iff.mp h.dir
    have hnode : fs.node (here ++ rel) = d.node rel := Directory.node_append hd rel
    rw [hnode, Directory.node, Option.isSome_map] at hsome
    obtain ⟨entry, hentry⟩ := Option.isSome_iff_exists.mp hsome
    refine fs.realpath_append h.leads hd hentry ?_
    rintro target rfl
    exact h.plain rel target (by rw [hnode, Directory.node, hentry]; rfl)
  constructor
  · intro hp
    obtain ⟨left, hleft⟩ := exists_resolve_of_realpath h.leads
    obtain ⟨left', hboth⟩ := exists_resolve_of_realpath hp
    rw [List.map_append, resolve_append, hleft] at hboth
    have hsome : (fs.node (here ++ rel)).isSome := by
      have hhere : (fs.node here).isSome := by rw [h.dir]; rfl
      cases left with
      | zero => exact of_descend_names h.plain hhere hboth
      | succ left => exact of_descend_names h.plain hhere hboth
    exact ⟨Except.ok.inj (hp.symm.trans (hforth hsome)), hsome⟩
  · rintro ⟨rfl, hsome⟩
    exact hforth hsome

theorem mkdirIn_eq_ok_iff {parent : List String} {name : String} :
    fs.mkdirIn parent name = .ok p ↔
      p = parent ++ [name] ∧ fs.node parent = some .dir ∧ fs.node (parent ++ [name]) = none := by
  unfold mkdirIn
  split_ifs with hdir hsome
  · refine iff_of_false (fun h => by cases h) fun h => ?_
    rw [h.2.2] at hsome
    cases hsome
  · rw [Except.ok.injEq, Option.not_isSome_iff_eq_none.mp hsome]
    exact ⟨fun h => ⟨h.symm, hdir, rfl⟩, fun h => h.1.symm⟩
  · exact iff_of_false (fun h => by cases h) fun h => hdir h.2.1

theorem Rooted.stat_append_iff {node : Node} (h : Rooted fs path here) :
    fs.stat (path ++ rel) = .ok node ↔ fs.node (here ++ rel) = some node := by
  unfold stat
  cases hpath : fs.realpath (path ++ rel) with
  | error err =>
    refine iff_of_false (fun hok => by cases hok) fun hnode => ?_
    have hok := h.realpath_append_iff.mpr ⟨rfl, Option.isSome_of_mem hnode⟩
    rw [hpath] at hok
    cases hok
  | ok p =>
    obtain ⟨rfl, hsome⟩ := h.realpath_append_iff.mp hpath
    obtain ⟨node', hnode'⟩ := Option.isSome_iff_exists.mp hsome
    simp [hnode']

theorem Rooted.realpath_concat_cases (h : Rooted fs path here) (front : List String) :
    (fs.realpath (path ++ front) = .ok (here ++ front) ∧ (fs.node (here ++ front)).isSome) ∨
      (∃ err, fs.realpath (path ++ front) = .error err) ∧ fs.node (here ++ front) = none := by
  cases hpath : fs.realpath (path ++ front) with
  | ok p =>
    obtain ⟨rfl, hsome⟩ := h.realpath_append_iff.mp hpath
    exact .inl ⟨rfl, hsome⟩
  | error err =>
    refine .inr ⟨⟨err, rfl⟩, Option.not_isSome_iff_eq_none.mp fun hsome => ?_⟩
    rw [h.realpath_append_iff.mpr ⟨rfl, hsome⟩] at hpath
    cases hpath

theorem Rooted.mkdir_append_iff (h : Rooted fs path here) (hrel : rel ≠ []) :
    fs.mkdir (path ++ rel) = .ok p ↔
      p = here ++ rel ∧ fs.node (here ++ rel.dropLast) = some .dir ∧
        fs.node (here ++ rel) = none := by
  obtain ⟨front, n, rfl⟩ : ∃ front n, rel = front ++ [n] :=
    ⟨_, _, (List.dropLast_append_getLast hrel).symm⟩
  unfold mkdir
  rw [← List.append_assoc, List.getLast?_concat, List.dropLast_concat, List.dropLast_concat,
    ← List.append_assoc]
  dsimp only
  obtain ⟨hpath, -⟩ | ⟨⟨err, hpath⟩, hnone⟩ := h.realpath_concat_cases front
  · rw [hpath]
    exact mkdirIn_eq_ok_iff
  · rw [hpath, hnone]
    exact iff_of_false (fun h => by cases h) fun h => by cases h.2.1

theorem exists_resolve_of_append {a b : List Component}
    (h : fs.resolve left here (a ++ b) = .ok r) :
    ∃ r', fs.resolve left here a = .ok r' ∧ fs.resolve r'.1 r'.2 b = .ok r := by
  rw [resolve_append] at h
  cases hr : fs.resolve left here a with
  | error err => rw [hr] at h; cases h
  | ok r' =>
    rw [hr] at h
    exact ⟨r', rfl, h⟩

theorem of_resolve_name {n : String} (h : fs.resolve left here [.name n] = .ok r) :
    fs.node here = some .dir ∧ (fs.node (here ++ [n])).isSome := by
  have hstep : ∃ follow, fs.descend left follow here [.name n] = .ok r := by
    cases left with
    | zero => exact ⟨_, h⟩
    | succ left => exact ⟨_, h⟩
  obtain ⟨follow, hstep⟩ := hstep
  rw [descend_cons] at hstep
  cases hhere : fs.node here with
  | none => rw [hhere] at hstep; cases hstep
  | some node =>
    rw [hhere] at hstep
    cases node with
    | file content | link target => cases hstep
    | dir =>
      refine ⟨rfl, ?_⟩
      dsimp only at hstep
      cases hname : fs.node (here ++ [n]) with
      | none =>
        rw [hname] at hstep
        cases hstep
      | some node => rfl

theorem mkdir_ne_ok_of_prefix {front : List String} (h : fs.realpath path = .ok here)
    (hfront : front <+: path) (p : List String) : fs.mkdir front ≠ .ok p := by
  obtain ⟨rest, rfl⟩ := hfront
  obtain rfl | ⟨init, n, rfl⟩ : front = [] ∨ ∃ init n, front = init ++ [n] :=
    (List.eq_nil_or_concat front).imp_right fun ⟨init, n, h⟩ => ⟨init, n, by simpa using h⟩
  · rintro ⟨⟩
  obtain ⟨left, hleft⟩ := exists_resolve_of_realpath h
  rw [List.map_append, List.map_append] at hleft
  obtain ⟨r, hr, -⟩ := exists_resolve_of_append hleft
  obtain ⟨r', hinit, hname⟩ := exists_resolve_of_append hr
  obtain ⟨hdir, hsome⟩ := of_resolve_name hname
  have hparent : fs.realpath init = .ok r'.2 := by
    rw [realpath, hinit]
    rfl
  unfold mkdir
  rw [List.getLast?_concat, List.dropLast_concat]
  dsimp only
  rw [hparent]
  intro hok
  rw [(mkdirIn_eq_ok_iff.mp hok).2.2] at hsome
  cases hsome

theorem openCreate_eq_ok_iff :
    fs.openCreate path = .ok p ↔
      fs.locate (maxLinks + 1) maxLinks [] (path.map .name) = .ok p ∧ fs.node p ≠ some .dir := by
  unfold openCreate
  cases fs.locate (maxLinks + 1) maxLinks [] (path.map .name) with
  | error err => simp
  | ok location =>
    dsimp only
    split_ifs with hdir
    · refine iff_of_false (fun h => by cases h) ?_
      rintro ⟨heq, hnot⟩
      exact hnot (Except.ok.inj heq ▸ hdir)
    · refine (and_iff_left_of_imp fun heq => ?_).symm
      rwa [← Except.ok.inj heq]

theorem of_locate_concat {fuel : ℕ} {front : List Component} {n : String}
    (h : fs.locate (fuel + 1) left here (front ++ [.name n]) = .ok p) :
    ∃ left' parent, fs.resolve left here front = .ok (left', parent) ∧
      fs.node parent = some .dir ∧
      ((∀ target, fs.node (parent ++ [n]) ≠ some (.link target)) ∧ p = parent ++ [n] ∨
        ∃ target left'', fs.node (parent ++ [n]) = some (.link target) ∧ left' = left'' + 1 ∧
          fs.locate fuel left'' (if target.rooted then [] else parent) target.components =
            .ok p) := by
  unfold locate at h
  rw [List.getLast?_concat, List.dropLast_concat] at h
  dsimp only at h
  cases hr : fs.resolve left here front with
  | error err => rw [hr] at h; cases h
  | ok r =>
    obtain ⟨left', parent⟩ := r
    rw [hr] at h
    dsimp only at h
    split_ifs at h with hdir
    refine ⟨left', parent, rfl, hdir, ?_⟩
    split at h
    · cases h
    · rename_i target left'' hlink
      exact .inr ⟨target, left'', hlink, rfl, h⟩
    · rename_i left' _ _ hzero hsucc
      refine .inl ⟨fun target hlink => ?_, (Except.ok.inj h).symm⟩
      cases left' with
      | zero => exact hzero target hlink rfl
      | succ left'' => exact hsucc target left'' hlink rfl

/-- When a file below the root can be created. -/
theorem Rooted.openCreate_append_iff (h : Rooted fs path here) (hrel : rel ≠ []) :
    fs.openCreate (path ++ rel) = .ok p ↔
      p = here ++ rel ∧ fs.node (here ++ rel.dropLast) = some .dir ∧
        fs.node (here ++ rel) ≠ some .dir := by
  obtain ⟨front, n, rfl⟩ : ∃ front n, rel = front ++ [n] :=
    ⟨_, _, (List.dropLast_append_getLast hrel).symm⟩
  have hplain : ∀ target, fs.node (here ++ front ++ [n]) ≠ some (.link target) := by
    intro target
    rw [List.append_assoc]
    exact h.plain _ target
  rw [openCreate_eq_ok_iff, ← List.append_assoc, List.map_append, List.map_singleton,
    List.dropLast_concat, ← List.append_assoc]
  constructor
  · rintro ⟨hlocate, hnot⟩
    obtain ⟨left, parent, hparent, hdir, hlast⟩ := of_locate_concat hlocate
    have hpath : fs.realpath (path ++ front) = .ok parent := by
      rw [realpath, hparent]
      rfl
    obtain ⟨rfl, -⟩ := h.realpath_append_iff.mp hpath
    obtain ⟨-, rfl⟩ | ⟨target, -, hlink, -⟩ := hlast
    · exact ⟨rfl, hdir, hnot⟩
    · exact absurd hlink (hplain target)
  · rintro ⟨rfl, hdir, hnot⟩
    refine ⟨?_, hnot⟩
    have hpath := h.realpath_append_iff.mpr ⟨rfl, Option.isSome_of_mem hdir⟩
    obtain ⟨left, hleft⟩ := exists_resolve_of_realpath hpath
    unfold locate
    rw [List.getLast?_concat, List.dropLast_concat]
    dsimp only
    rw [hleft]
    dsimp only
    rw [if_pos hdir]
    split
    · rename_i hlink
      exact absurd hlink (hplain _)
    · rename_i hlink
      exact absurd hlink (hplain _)
    · rfl

theorem resolve_link {n : String} {target : Pathname} (hdir : fs.node here = some .dir)
    (hlink : fs.node (here ++ [n]) = some (.link target)) (cs : List Component) :
    fs.resolve (left + 1) here (.name n :: cs) =
      fs.resolve left (if target.rooted then [] else here) (target.components ++ cs) := by
  rw [resolve, descend_cons, hdir]
  dsimp only
  rw [hlink]

theorem resolve_of_not_link {n : String}
    (hplain : ∀ target, fs.node (here ++ [n]) ≠ some (.link target))
    (h : fs.resolve left here [.name n] = .ok r) : r = (left, here ++ [n]) := by
  obtain ⟨hdir, hsome⟩ := of_resolve_name h
  obtain ⟨d, hd⟩ := Directory.node_eq_dir_iff.mp hdir
  have hfind : fs.node (here ++ [n]) = (d.find n).map Entry.node :=
    (Directory.node_append hd [n]).trans (d.node_singleton n)
  rw [hfind, Option.isSome_map] at hsome
  obtain ⟨entry, hentry⟩ := Option.isSome_iff_exists.mp hsome
  have hlink : ∀ target, entry ≠ .link target := by
    rintro target rfl
    exact hplain target (by rw [hfind, hentry]; rfl)
  rw [fs.resolve_name hd hentry hlink, resolve_nil] at h
  exact (Except.ok.inj h).symm

theorem locate_eq_of_resolve {fuel left' : ℕ} {p' : List String} {cs : List Component}
    (hresolve : fs.resolve left here cs = .ok (left', p'))
    (hlocate : fs.locate fuel left here cs = .ok p) : p = p' := by
  induction fuel generalizing left left' here cs with
  | zero => cases hlocate
  | succ fuel ih =>
    by_cases hlast : ∃ front n, cs = front ++ [.name n]
    · obtain ⟨front, n, rfl⟩ := hlast
      obtain ⟨left₁, parent, hfront, hdir, hlast⟩ := of_locate_concat hlocate
      obtain ⟨r, hr, hname⟩ := exists_resolve_of_append hresolve
      obtain rfl : r = (left₁, parent) := Except.ok.inj (hr.symm.trans hfront)
      obtain ⟨hplain, rfl⟩ | ⟨target, left₂, hlink, rfl, htarget⟩ := hlast
      · exact (congrArg Prod.snd (resolve_of_not_link hplain hname)).symm
      · rw [resolve_link hdir hlink, List.append_nil] at hname
        exact ih hname htarget
    · have hplain : fs.locate (fuel + 1) left here cs = (fs.resolve left here cs).map Prod.snd := by
        unfold locate
        split
        · rename_i n hn
          obtain ⟨front, rfl⟩ := List.getLast?_eq_some_iff.mp hn
          exact absurd ⟨front, n, rfl⟩ hlast
        · rfl
      rw [hplain, hresolve] at hlocate
      exact (Except.ok.inj hlocate).symm

theorem Rooted.openCreate_ne_ok (h : Rooted fs path here) (p : List String) :
    fs.openCreate path ≠ .ok p := by
  intro hopen
  obtain ⟨hlocate, hnot⟩ := openCreate_eq_ok_iff.mp hopen
  obtain ⟨left, hleft⟩ := exists_resolve_of_realpath h.leads
  rw [locate_eq_of_resolve hleft hlocate] at hnot
  exact hnot h.dir

theorem dropLast_append_ne_nil (here : List String) (hrel : rel ≠ []) :
    (here ++ rel).dropLast = here ++ rel.dropLast ∧ here ++ rel ≠ [] :=
  ⟨List.dropLast_append_of_ne_nil hrel, List.append_ne_nil_of_right_ne_nil here hrel⟩

theorem node_dropLast {node : Node} (hrel : rel ≠ []) (h : fs.node (here ++ rel) = some node) :
    fs.node (here ++ rel.dropLast) = some .dir := by
  by_contra hdir
  have hnone : fs.node (here ++ rel.dropLast ++ [rel.getLast hrel]) = none :=
    Directory.node_append_of_ne hdir (List.cons_ne_nil _ _)
  rw [List.append_assoc, List.dropLast_append_getLast hrel, h] at hnone
  cases hnone

theorem Rooted.putDir (h : Rooted fs path here) (hrel : rel ≠ [])
    (hparent : fs.node (here ++ rel.dropLast) = some .dir) (hnone : fs.node (here ++ rel) = none) :
    Rooted (fs.putDir (here ++ rel)) path here := by
  obtain ⟨hlast, hne⟩ := dropLast_append_ne_nil here hrel
  rw [← hlast] at hparent
  have hextends := extends_putDir hne hparent hnone
  refine ⟨hextends.realpath h.leads, hextends.dir h.dir, fun rel' target => ?_⟩
  rw [node_putDir hne hparent hnone]
  split_ifs
  · simp
  · exact h.plain rel' target

theorem Rooted.putFile (h : Rooted fs path here) (hrel : rel ≠ [])
    (hparent : fs.node (here ++ rel.dropLast) = some .dir)
    (hdir : fs.node (here ++ rel) ≠ some .dir) (content : List UInt8) :
    Rooted (fs.putFile (here ++ rel) content) path here := by
  obtain ⟨hlast, hne⟩ := dropLast_append_ne_nil here hrel
  rw [← hlast] at hparent
  have hfile : fs.node (here ++ rel) = none ∨ ∃ old, fs.node (here ++ rel) = some (.file old) := by
    cases hnode : fs.node (here ++ rel) with
    | none => exact .inl rfl
    | some node =>
      cases node with
      | file old => exact .inr ⟨old, rfl⟩
      | link target => exact absurd hnode (h.plain rel target)
      | dir => exact absurd hnode hdir
  have hextends := extends_putFile hne hparent hfile content
  refine ⟨hextends.realpath h.leads, hextends.dir h.dir, fun rel' target => ?_⟩
  rw [node_putFile hne hparent hdir]
  split_ifs
  · simp
  · exact h.plain rel' target

end FileSystem

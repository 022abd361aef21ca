import Lecrev.Artifact.Extract

/-!
# What an extraction leaves

Below its destination an extraction without failing calls does no more than storing files in a
tree: an entry whose path runs through a file or stands for a directory is refused and ends the
extraction, every other entry becomes a file, and the paths above it become directories.
-/

namespace Artifact

/-! ## Trees -/

/-- What lies below the destination, by the names that lead there. -/
abbrev Tree := List String → Option Node

namespace Tree

/-- The tree of an empty directory. -/
def empty : Tree := fun rel => if rel = [] then some .dir else none

/-- The directories on the way to `rel` exist, and `rel` is one of them. -/
def makeDirs (tree : Tree) (rel : List String) : Tree := fun r =>
  if r <+: rel then some .dir else tree r

/-- The file at `rel` holds `content`. -/
def store (tree : Tree) (rel : List String) (content : List UInt8) : Tree := fun r =>
  if r = rel then some (.file content) else tree.makeDirs rel r

/-- The way to `rel` runs through a file or ends at one. -/
def Blocked (tree : Tree) (rel : List String) : Prop :=
  ∃ r content, r <+: rel ∧ tree r = some (.file content)

/-- A file can be stored at `rel`. -/
structure Accepts (tree : Tree) (rel : List String) : Prop where
  ne_nil : rel ≠ []
  way : ¬ tree.Blocked rel.dropLast
  ne_dir : tree rel ≠ some .dir

end Tree

/-- The tree lies below the destination. -/
structure Shows (dest here : List String) (tree : Tree) (s : Disk) : Prop where
  rooted : s.fs.Rooted dest here
  node : ∀ rel, s.fs.node (here ++ rel) = tree rel

variable {dest here : List String} {tree : Tree} {s : Disk} {rel : List String}

theorem EmptyDir.shows {fs : FileSystem} (h : EmptyDir fs dest here) :
    Shows dest here .empty { fs } :=
  ⟨h.rooted, h.node⟩

namespace Shows

theorem nil (h : Shows dest here tree s) : tree [] = some .dir := by
  rw [← h.node, List.append_nil]
  exact h.rooted.dir

theorem ne_link (h : Shows dest here tree s) (target : Pathname) :
    tree rel ≠ some (.link target) := by
  rw [← h.node]
  exact h.rooted.plain rel target

theorem dir_of_append (h : Shows dest here tree s) {rest : List String} {node : Node}
    (hrest : rest ≠ []) (hnode : tree (rel ++ rest) = some node) : tree rel = some .dir := by
  rw [← h.node] at hnode ⊢
  by_contra hdir
  have hnone : s.fs.node (here ++ rel ++ rest) = none := Directory.node_append_of_ne hdir hrest
  rw [List.append_assoc, hnode] at hnone
  cases hnone

theorem not_blocked_of_dir (h : Shows dest here tree s) (hdir : tree rel = some .dir) :
    ¬ tree.Blocked rel := by
  rintro ⟨r, content, ⟨rest, rfl⟩, hfile⟩
  cases rest with
  | nil =>
    rw [List.append_nil, hfile] at hdir
    cases hdir
  | cons n rest =>
    rw [h.dir_of_append (List.cons_ne_nil n rest) hdir] at hfile
    cases hfile

theorem makeDirs_of_dir (h : Shows dest here tree s) (hdir : tree rel = some .dir) :
    tree.makeDirs rel = tree := by
  funext r
  unfold Tree.makeDirs
  split_ifs with hr
  · obtain ⟨rest, rfl⟩ := hr
    cases rest with
    | nil => rw [List.append_nil] at hdir; exact hdir.symm
    | cons n rest => exact (h.dir_of_append (List.cons_ne_nil n rest) hdir).symm
  · rfl

theorem run_osStat_of_some (h : Shows dest here tree s) {node : Node}
    (hnode : tree rel = some node) : (osStat (dest ++ rel)).run s = (.ok node, s) := by
  have hstat : s.fs.stat (dest ++ rel) = .ok node :=
    h.rooted.stat_append_iff.mpr ((h.node rel).trans hnode)
  unfold osStat
  rw [Prog.run_query, hstat]
  rfl

theorem run_osStat_of_none (h : Shows dest here tree s) (hnode : tree rel = none) :
    ∃ err, (osStat (dest ++ rel)).run s = (.error err, s) := by
  unfold osStat
  rw [Prog.run_query]
  cases hstat : s.fs.stat (dest ++ rel) with
  | error err => exact ⟨_, rfl⟩
  | ok node =>
    have hsome := h.rooted.stat_append_iff.mp hstat
    rw [h.node, hnode] at hsome
    cases hsome

theorem run_osMkdir (h : Shows dest here tree s) (hrel : rel ≠ [])
    (hparent : tree rel.dropLast = some .dir) (hnone : tree rel = none) :
    ∃ s', (osMkdir (dest ++ rel)).run s = (.ok (), s') ∧
      Shows dest here (fun r => if r = rel then some .dir else tree r) s' := by
  rw [← h.node] at hparent hnone
  have hmkdir : s.fs.mkdir (dest ++ rel) = .ok (here ++ rel) :=
    (h.rooted.mkdir_append_iff hrel).mpr ⟨rfl, hparent, hnone⟩
  refine ⟨{ s with fs := s.fs.putDir (here ++ rel), touched := (here ++ rel) :: s.touched }, ?_,
    h.rooted.putDir hrel hparent hnone, fun r => ?_⟩
  · unfold osMkdir
    rw [Prog.run_action, hmkdir]
  · obtain ⟨hlast, hne⟩ := FileSystem.dropLast_append_ne_nil here hrel
    rw [FileSystem.node_putDir hne (hlast ▸ hparent) hnone, h.node]
    simp only [List.append_cancel_left_eq]

end Shows

/-! ## Making directories -/

theorem exists_mkdirAll (path : List String) : ∃ above, mkdirAll path = mkdirAt path above := by
  obtain rfl | ⟨init, n, rfl⟩ : path = [] ∨ ∃ init n, path = init ++ [n] :=
    (List.eq_nil_or_concat path).imp_right fun ⟨init, n, h⟩ => ⟨init, n, by simpa using h⟩
  · exact ⟨_, rfl⟩
  · refine ⟨mkdirAll init, ?_⟩
    unfold mkdirAll
    rw [List.reverse_concat, mkdirAllUp, List.reverse_cons, List.reverse_reverse]

theorem mkdirAll_concat (path : List String) (n : String) :
    mkdirAll (path ++ [n]) = mkdirAt (path ++ [n]) (mkdirAll path) := by
  unfold mkdirAll
  rw [List.reverse_concat, mkdirAllUp, List.reverse_cons, List.reverse_reverse]

namespace Shows

theorem run_mkdirAt_of_dir (h : Shows dest here tree s) (hdir : tree rel = some .dir)
    (above : ExtractM Unit) : (mkdirAt (dest ++ rel) above).run s = (.ok (), s) := by
  unfold mkdirAt
  rw [Prog.run_bind, Prog.run_result, h.run_osStat_of_some hdir]
  rfl

theorem run_mkdirAt_of_file (h : Shows dest here tree s) {content : List UInt8}
    (hfile : tree rel = some (.file content)) (above : ExtractM Unit) :
    (mkdirAt (dest ++ rel) above).run s = (.error (.path .notDirectory), s) := by
  unfold mkdirAt
  rw [Prog.run_bind, Prog.run_result, h.run_osStat_of_some hfile]
  rfl

theorem run_mkdirAt_of_error (h : Shows dest here tree s) (hnone : tree rel = none)
    {above : ExtractM Unit} {err : ExtractError} {s' : Disk}
    (habove : above.run s = (.error err, s')) :
    (mkdirAt (dest ++ rel) above).run s = (.error err, s') := by
  obtain ⟨err', hstat⟩ := h.run_osStat_of_none hnone
  unfold mkdirAt
  rw [Prog.run_bind, Prog.run_result, hstat]
  dsimp only
  rw [Prog.run_bind, habove]

theorem run_mkdirAt_of_ok (h : Shows dest here tree s) (hnone : tree rel = none)
    {above : ExtractM Unit} {s' s'' : Disk} (habove : above.run s = (.ok (), s'))
    (hmkdir : (osMkdir (dest ++ rel)).run s' = (.ok (), s'')) :
    (mkdirAt (dest ++ rel) above).run s = (.ok (), s'') := by
  obtain ⟨err', hstat⟩ := h.run_osStat_of_none hnone
  unfold mkdirAt
  rw [Prog.run_bind, Prog.run_result, hstat]
  dsimp only
  rw [Prog.run_bind, habove]
  dsimp only
  rw [Prog.run_bind, Prog.run_result, hmkdir]
  rfl

end Shows

theorem blocked_concat {n : String} (tree : Tree) (rel : List String) :
    tree.Blocked (rel ++ [n]) ↔
      tree.Blocked rel ∨ ∃ content, tree (rel ++ [n]) = some (.file content) := by
  constructor
  · rintro ⟨r, content, hr, hfile⟩
    obtain rfl | hr := List.prefix_concat_iff.mp hr
    · exact .inr ⟨content, hfile⟩
    · exact .inl ⟨r, content, hr, hfile⟩
  · rintro (⟨r, content, hr, hfile⟩ | ⟨content, hfile⟩)
    · exact ⟨r, content, hr.trans (List.prefix_append rel [n]), hfile⟩
    · exact ⟨_, content, List.prefix_rfl, hfile⟩

theorem makeDirs_concat {n : String} (tree : Tree) (rel : List String) :
    tree.makeDirs (rel ++ [n]) =
      fun r => if r = rel ++ [n] then some .dir else tree.makeDirs rel r := by
  funext r
  unfold Tree.makeDirs
  simp only [List.prefix_concat_iff]
  split_ifs <;> grind

/-- `mkdirAll` fails exactly if a file is in the way. -/
theorem Shows.run_mkdirAll (h : Shows dest here tree s) (rel : List String) :
    (tree.Blocked rel ∧ ∃ err, (mkdirAll (dest ++ rel)).run s = (.error err, s)) ∨
    (¬ tree.Blocked rel ∧ ∃ s', (mkdirAll (dest ++ rel)).run s = (.ok (), s') ∧
      Shows dest here (tree.makeDirs rel) s') := by
  induction rel using List.reverseRecOn with
  | nil =>
    obtain ⟨above, habove⟩ := exists_mkdirAll (dest ++ [])
    rw [habove]
    refine .inr ⟨h.not_blocked_of_dir h.nil, s, h.run_mkdirAt_of_dir h.nil above, ?_⟩
    rw [h.makeDirs_of_dir h.nil]
    exact h
  | append_singleton rel n ih =>
    rw [blocked_concat, ← List.append_assoc, mkdirAll_concat, List.append_assoc]
    cases hnode : tree (rel ++ [n]) with
    | some node =>
      cases node with
      | link target => exact absurd hnode (h.ne_link target)
      | file content =>
        exact .inl ⟨.inr ⟨content, rfl⟩, _, h.run_mkdirAt_of_file hnode _⟩
      | dir =>
        refine .inr ⟨?_, s, h.run_mkdirAt_of_dir hnode _, ?_⟩
        · rintro (hblocked | ⟨content, hfile⟩)
          · exact h.not_blocked_of_dir hnode ((blocked_concat tree rel).mpr (.inl hblocked))
          · cases hfile
        · rw [h.makeDirs_of_dir hnode]
          exact h
    | none =>
      -- what is above is made first
      obtain ⟨hblocked, err, hrun⟩ | ⟨hway, s', hrun, hshows⟩ := ih
      · exact .inl ⟨.inl hblocked, err, h.run_mkdirAt_of_error hnode hrun⟩
      · have hparent : tree.makeDirs rel (rel ++ [n]).dropLast = some .dir := by
          rw [List.dropLast_concat]
          exact if_pos List.prefix_rfl
        have hnone : tree.makeDirs rel (rel ++ [n]) = none := by
          unfold Tree.makeDirs
          rw [if_neg, hnode]
          intro hle
          have hlong := hle.length_le
          rw [List.length_append, List.length_singleton] at hlong
          omega
        obtain ⟨s'', hmkdir, hshows'⟩ := hshows.run_osMkdir (by simp) hparent hnone
        refine .inr ⟨?_, s'', h.run_mkdirAt_of_ok hnode hrun hmkdir, ?_⟩
        · rintro (hblocked | ⟨content, hfile⟩)
          · exact hway hblocked
          · cases hfile
        · rw [makeDirs_concat]
          exact hshows'

/-! ## Storing files -/

namespace Shows

theorem run_osCreate (h : Shows dest here tree s) (hrel : rel ≠ [])
    (hparent : tree rel.dropLast = some .dir) (hdir : tree rel ≠ some .dir) :
    ∃ s', (osCreate (dest ++ rel)).run s = (.ok (), s') ∧ s'.handle = some (here ++ rel) ∧
      Shows dest here (fun r => if r = rel then some (.file []) else tree r) s' := by
  rw [← h.node] at hparent hdir
  have hopen : s.fs.openCreate (dest ++ rel) = .ok (here ++ rel) :=
    (h.rooted.openCreate_append_iff hrel).mpr ⟨rfl, hparent, hdir⟩
  refine ⟨⟨s.fs.putFile (here ++ rel) [], some (here ++ rel), (here ++ rel) :: s.touched⟩, ?_, rfl,
    h.rooted.putFile hrel hparent hdir [], fun r => ?_⟩
  · unfold osCreate
    rw [Prog.run_action, hopen]
  · obtain ⟨hlast, hne⟩ := FileSystem.dropLast_append_ne_nil here hrel
    rw [FileSystem.node_putFile hne (hlast ▸ hparent) hdir, h.node]
    simp only [List.append_cancel_left_eq]

theorem run_osCreate_of_dir (h : Shows dest here tree s) (hdir : tree rel = some .dir) :
    ∃ err, (osCreate (dest ++ rel)).run s = (.error err, s) := by
  unfold osCreate
  rw [Prog.run_action]
  cases hopen : s.fs.openCreate (dest ++ rel) with
  | error err => exact ⟨_, rfl⟩
  | ok location =>
    by_cases hrel : rel = []
    · rw [hrel, List.append_nil] at hopen
      exact absurd hopen (h.rooted.openCreate_ne_ok location)
    · obtain ⟨-, -, hnot⟩ := (h.rooted.openCreate_append_iff hrel).mp hopen
      rw [h.node] at hnot
      exact absurd hdir hnot

theorem run_ioCopy (h : Shows dest here tree s) (hhandle : s.handle = some (here ++ rel))
    {old : List UInt8} (hfile : tree rel = some (.file old)) (content : List UInt8) :
    ∃ s', (ioCopy content).run s = (.ok (), s') ∧
      Shows dest here (fun r => if r = rel then some (.file content) else tree r) s' := by
  have hrel : rel ≠ [] := by
    rintro rfl
    rw [h.nil] at hfile
    cases hfile
  rw [← h.node] at hfile
  have hparent := FileSystem.node_dropLast hrel hfile
  have hdir : s.fs.node (here ++ rel) ≠ some .dir := by
    rw [hfile]
    simp
  refine ⟨{ s with fs := s.fs.putFile (here ++ rel) content }, ?_,
    h.rooted.putFile hrel hparent hdir content, fun r => ?_⟩
  · unfold ioCopy
    rw [Prog.run_modify, hhandle]
  · obtain ⟨hlast, hne⟩ := FileSystem.dropLast_append_ne_nil here hrel
    rw [FileSystem.node_putFile hne (hlast ▸ hparent) hdir, h.node]
    simp only [List.append_cancel_left_eq]

theorem run_writeTarget_nil (h : Shows dest here tree s) (content : List UInt8) :
    ∃ err s', (writeTarget (dest ++ []) content).run s = (.error err, s') ∧
      Shows dest here tree s' := by
  have hkeeps : (mkdirAll dest.dropLast).Keeps (Shows dest here tree) fun _ _ _ => True := by
    refine keeps_mkdirAll fun front hfront => Prog.keeps_action fun s hs => ⟨?_, trivial⟩
    cases hmkdir : s.fs.mkdir front with
    | error err => exact hs
    | ok location =>
      have hle := hfront.trans (List.dropLast_prefix dest)
      exact absurd hmkdir (FileSystem.mkdir_ne_ok_of_prefix hs.rooted.leads hle location)
  have hshows := hkeeps.run h
  unfold writeTarget
  rw [List.append_nil, Prog.run_bind]
  cases hrun : (mkdirAll dest.dropLast).run s with
  | mk r s' =>
    rw [hrun] at hshows
    cases r with
    | error err => exact ⟨err, s', rfl, hshows⟩
    | ok u =>
      obtain ⟨err, hcreate⟩ := hshows.run_osCreate_of_dir hshows.nil
      rw [List.append_nil] at hcreate
      refine ⟨err, s', ?_, hshows⟩
      dsimp only
      unfold fillTarget
      rw [Prog.run_bind, hcreate]

theorem run_fillTarget (h : Shows dest here tree s) (hrel : rel ≠ [])
    (hparent : tree rel.dropLast = some .dir) (hdir : tree rel ≠ some .dir)
    (content : List UInt8) :
    ∃ s', (fillTarget (dest ++ rel) content).run s = (.ok (), s') ∧
      Shows dest here (fun r => if r = rel then some (.file content) else tree r) s' := by
  obtain ⟨s₁, hcreate, hhandle, hshows₁⟩ := h.run_osCreate hrel hparent hdir
  obtain ⟨s₂, hcopy, hshows₂⟩ := hshows₁.run_ioCopy hhandle (if_pos rfl) content
  refine ⟨{ s₂ with handle := none }, ?_, hshows₂.rooted, fun r => ?_⟩
  · unfold fillTarget
    rw [Prog.run_bind, hcreate]
    dsimp only
    rw [Prog.run_bind, Prog.run_result, hcopy]
    rfl
  · refine (hshows₂.node r).trans ?_
    split_ifs <;> rfl

end Shows

theorem store_eq (hrel : rel ≠ []) (tree : Tree) (content : List UInt8) :
    tree.store rel content =
      fun r => if r = rel then some (.file content) else tree.makeDirs rel.dropLast r := by
  obtain ⟨init, n, rfl⟩ : ∃ init n, rel = init ++ [n] :=
    ⟨_, _, (List.dropLast_append_getLast hrel).symm⟩
  funext r
  unfold Tree.store
  rw [List.dropLast_concat, makeDirs_concat]
  split_ifs with hr
  · rfl
  · exact if_neg hr

/-- **A file is stored** below the destination, or nothing changes there. -/
theorem Shows.run_writeTarget (h : Shows dest here tree s) (rel : List String)
    (content : List UInt8) :
    (tree.Accepts rel ∧ ∃ s', (writeTarget (dest ++ rel) content).run s = (.ok (), s') ∧
      Shows dest here (tree.store rel content) s') ∨
    (¬ tree.Accepts rel ∧ ∃ err s', (writeTarget (dest ++ rel) content).run s = (.error err, s') ∧
      Shows dest here tree s') := by
  by_cases hrel : rel = []
  · subst hrel
    exact .inr ⟨fun haccepts => haccepts.ne_nil rfl, h.run_writeTarget_nil content⟩
  have hdirs := h.run_mkdirAll rel.dropLast
  rw [← List.dropLast_append_of_ne_nil hrel] at hdirs
  unfold writeTarget
  rw [Prog.run_bind]
  obtain ⟨hblocked, err, hrun⟩ | ⟨hway, s', hrun, hshows⟩ := hdirs
  · rw [hrun]
    exact .inr ⟨fun haccepts => haccepts.way hblocked, err, s, rfl, h⟩
  · rw [hrun]
    dsimp only
    have hparent : tree.makeDirs rel.dropLast rel.dropLast = some .dir := if_pos List.prefix_rfl
    have hsame : tree.makeDirs rel.dropLast rel = tree rel := by
      refine if_neg fun hle => ?_
      have hlong := hle.length_le
      rw [List.length_dropLast] at hlong
      have hpos := List.length_pos_iff.mpr hrel
      omega
    by_cases hdir : tree rel = some .dir
    · -- then the directories on the way are there already
      have hdirs : tree.makeDirs rel.dropLast = tree :=
        h.makeDirs_of_dir (h.dir_of_append (List.cons_ne_nil (rel.getLast hrel) [])
          (by rw [List.dropLast_append_getLast hrel]; exact hdir))
      obtain ⟨err, hcreate⟩ := hshows.run_osCreate_of_dir (hsame.trans hdir)
      refine .inr ⟨fun haccepts => haccepts.ne_dir hdir, err, s', ?_, hdirs ▸ hshows⟩
      unfold fillTarget
      rw [Prog.run_bind, hcreate]
    · obtain ⟨s'', hfill, hshows'⟩ :=
        hshows.run_fillTarget hrel hparent (hsame ▸ hdir) content
      refine .inl ⟨⟨hrel, hway, hdir⟩, s'', hfill, ?_⟩
      rw [store_eq hrel]
      exact hshows'

/-! ## Archives -/

/-- The archive leaves the tree `tree'` on top of `tree`, and it has been extracted to its end or
not. -/
inductive Leaves : Tree → List Header → Bool → Tree → Prop
  | done {tree : Tree} : Leaves tree [] true tree
  | refuse {tree : Tree} {hdr : Header} {rest : List Header}
      (h : ∀ rel, entryPath hdr.name = some rel → ¬ tree.Accepts rel) :
      Leaves tree (hdr :: rest) false tree
  | store {tree tree' : Tree} {hdr : Header} {rest : List Header} {rel : List String} {ok : Bool}
      (hpath : entryPath hdr.name = some rel) (h : tree.Accepts rel)
      (hrest : Leaves (tree.store rel hdr.content) rest ok tree') :
      Leaves tree (hdr :: rest) ok tree'

theorem run_extractLoop_of_ok {hdr : Header} {s' : Disk}
    (h : (extractEntry dest hdr).run s = (.ok (), s')) (rest : List Header) :
    (extractLoop dest (hdr :: rest)).run s = (extractLoop dest rest).run s' := by
  rw [extractLoop, Prog.run_bind, Prog.run_query]
  dsimp only
  rw [Prog.run_bind, h]

theorem run_extractLoop_of_error {hdr : Header} {err : ExtractError} {s' : Disk}
    (h : (extractEntry dest hdr).run s = (.error err, s')) (rest : List Header) :
    (extractLoop dest (hdr :: rest)).run s = (.error err, s') := by
  rw [extractLoop, Prog.run_bind, Prog.run_query]
  dsimp only
  rw [Prog.run_bind, h]

/-- The loop leaves the tree that the entries describe. -/
theorem Shows.run_extractLoop (hnames : ∀ n ∈ dest, IsName n)
    (archive : List Header) (h : Shows dest here tree s) :
    ∃ ok tree', Leaves tree archive ok tree' ∧
      Shows dest here tree' ((extractLoop dest archive).run s).2 ∧
        (((extractLoop dest archive).run s).1 = .ok () ↔ ok = true) := by
  induction archive generalizing tree s with
  | nil => exact ⟨true, tree, .done, h, by simp [extractLoop]⟩
  | cons hdr rest ih =>
    obtain ⟨hpath, hrefused⟩ | ⟨rel, hpath, hwrite⟩ := extractEntry_eq hnames hdr
    · obtain ⟨err, s', hrun, hshows⟩ :
          ∃ err s', (extractEntry dest hdr).run s = (.error err, s') ∧ Shows dest here tree s' := by
        obtain ⟨err, hthrow⟩ | hwrite := hrefused
        · exact ⟨err, s, by rw [hthrow]; rfl, h⟩
        · rw [hwrite]
          exact h.run_writeTarget_nil hdr.content
      rw [run_extractLoop_of_error hrun]
      refine ⟨false, tree, .refuse ?_, hshows, by simp⟩
      rw [hpath]
      rintro rel ⟨⟩
    · obtain ⟨haccepts, s', hrun, hshows⟩ | ⟨hrefuses, err, s', hrun, hshows⟩ :=
        h.run_writeTarget rel hdr.content
      · rw [run_extractLoop_of_ok (by rw [hwrite]; exact hrun)]
        obtain ⟨ok, tree', hleaves, hrest⟩ := ih hshows
        exact ⟨ok, tree', .store hpath haccepts hleaves, hrest⟩
      · rw [run_extractLoop_of_error (by rw [hwrite]; exact hrun)]
        refine ⟨false, tree, .refuse ?_, hshows, by simp⟩
        rw [hpath]
        rintro rel ⟨⟩
        exact hrefuses

theorem EmptyDir.exists_leaves {fs : FileSystem} (h : EmptyDir fs dest here)
    (archive : List Header) :
    ∃ ok tree, Leaves .empty archive ok tree ∧
      Shows dest here tree ((extractTarGz dest archive).run { fs }).2 ∧
        (((extractTarGz dest archive).run { fs }).1 = .ok () ↔ ok = true) := by
  obtain ⟨ok, tree, hleaves, hshows, hok⟩ := h.shows.run_extractLoop h.names archive
  have hrun : (extractTarGz dest archive).run { fs } = (extractLoop dest archive).run { fs } := by
    rw [extractTarGz, Prog.run_bind, Prog.run_query]
  rw [hrun]
  exact ⟨ok, tree, hleaves, hshows, hok⟩

/-! ## The entries of a tree -/

/-- The tree of the entries that have been stored, the last one first: the last content at a path
counts, and the paths above are directories. -/
structure Holds (stored : List (List String × List UInt8)) (tree : Tree) : Prop where
  file : ∀ rel content, tree rel = some (.file content) ↔ stored.lookup rel = some content
  dir : ∀ rel, tree rel = some .dir ↔
    rel = [] ∨ ∃ e ∈ stored, rel <+: e.1 ∧ rel ≠ e.1

theorem holds_empty : Holds [] .empty := by
  refine ⟨fun rel content => ?_, fun rel => ?_⟩
  · unfold Tree.empty
    split_ifs <;> simp
  · unfold Tree.empty
    split_ifs with h <;> simp [h]

/-- No path is above another one. -/
def Apart (a b : List String) : Prop := (a <+: b → a = b) ∧ (b <+: a → b = a)

variable {stored : List (List String × List UInt8)}

theorem prefix_dropLast_iff (hrel : rel ≠ []) {r : List String} :
    r <+: rel.dropLast ↔ r <+: rel ∧ r ≠ rel := by
  obtain ⟨init, n, rfl⟩ : ∃ init n, rel = init ++ [n] :=
    ⟨_, _, (List.dropLast_append_getLast hrel).symm⟩
  rw [List.dropLast_concat, List.prefix_concat_iff]
  constructor
  · intro hle
    refine ⟨.inr hle, ?_⟩
    rintro rfl
    have hlong := hle.length_le
    rw [List.length_append, List.length_singleton] at hlong
    omega
  · rintro ⟨heq | hle, hne⟩
    · exact absurd heq hne
    · exact hle

theorem Holds.exists_file_iff (h : Holds stored tree) :
    (∃ content, tree rel = some (.file content)) ↔ ∃ e ∈ stored, rel = e.1 := by
  simp only [h.file, ← Option.isSome_iff_exists, List.lookup_isSome_iff, beq_iff_eq]

/-- **An entry is accepted** when its path is apart from those of the entries before it. -/
theorem Holds.accepts_iff (h : Holds stored tree) :
    tree.Accepts rel ↔ rel ≠ [] ∧ ∀ e ∈ stored, Apart e.1 rel := by
  constructor
  · rintro ⟨hrel, hway, hdir⟩
    refine ⟨hrel, fun e he => ⟨fun hle => ?_, fun hle => ?_⟩⟩
    · by_contra hne
      -- the way runs through the file of the entry
      obtain ⟨content, hfile⟩ := h.exists_file_iff.mpr ⟨e, he, rfl⟩
      exact hway ⟨e.1, content, (prefix_dropLast_iff hrel).mpr ⟨hle, hne⟩, hfile⟩
    · by_contra hne
      exact hdir ((h.dir rel).mpr (.inr ⟨e, he, hle, hne⟩))
  · rintro ⟨hrel, hapart⟩
    refine ⟨hrel, ?_, fun hdir => ?_⟩
    · rintro ⟨r, content, hle, hfile⟩
      obtain ⟨hle, hne⟩ := (prefix_dropLast_iff hrel).mp hle
      obtain ⟨e, he, rfl⟩ := h.exists_file_iff.mp ⟨content, hfile⟩
      exact hne ((hapart e he).1 hle)
    · obtain hnil | ⟨e, he, hle, hne⟩ := (h.dir rel).mp hdir
      · exact hrel hnil
      · exact hne ((hapart e he).2 hle)

/-- A stored file is held with its content. -/
theorem Holds.store (h : Holds stored tree) (haccepts : tree.Accepts rel)
    (content : List UInt8) : Holds ((rel, content) :: stored) (tree.store rel content) := by
  obtain ⟨hrel, hapart⟩ := h.accepts_iff.mp haccepts
  refine ⟨fun r c => ?_, fun r => ?_⟩
  · unfold Tree.store Tree.makeDirs
    rw [List.lookup_cons]
    by_cases hr : r = rel
    · simp [hr]
    · have hbeq : (r == rel) = false := by simpa using hr
      rw [if_neg hr, hbeq]
      dsimp only
      split_ifs with hle
      · -- no file lies above the new one
        refine iff_of_false (by simp) fun hlookup => ?_
        obtain ⟨e, he, rfl⟩ := h.exists_file_iff.mp ⟨c, (h.file r c).mpr hlookup⟩
        exact hr ((hapart e he).1 hle)
      · exact h.file r c
  · unfold Tree.store Tree.makeDirs
    simp only [List.mem_cons, exists_eq_or_imp]
    split_ifs with hr hle
    · refine iff_of_false (by simp) ?_
      rintro (hnil | ⟨-, hne⟩ | ⟨e, he, hle, hne⟩)
      · exact hrel (hr ▸ hnil)
      · exact hne hr
      · rw [hr] at hle hne
        exact hne ((hapart e he).2 hle)
    · exact iff_of_true rfl (.inr (.inl ⟨hle, hr⟩))
    · rw [h.dir r]
      tauto

/-! ## The extracted part of an archive -/

/-- The entries of an archive by their paths, the last one first. -/
def storedBy (archive : List Header) : List (List String × List UInt8) :=
  (archive.filterMap fun hdr => (entryPath hdr.name).map fun rel => (rel, hdr.content)).reverse

/-- The entry has a path below the destination that is apart from those of the entries before. -/
def Fits (before : List Header) (hdr : Header) : Prop :=
  ∃ rel, entryPath hdr.name = some rel ∧ rel ≠ [] ∧
    ∀ hdr' ∈ before, ∀ rel', entryPath hdr'.name = some rel' → Apart rel' rel

theorem mem_storedBy {archive : List Header} {e : List String × List UInt8} :
    e ∈ storedBy archive ↔ ∃ hdr ∈ archive, entryPath hdr.name = some e.1 ∧ hdr.content = e.2 := by
  unfold storedBy
  rw [List.mem_reverse, List.mem_filterMap]
  refine exists_congr fun hdr => and_congr_right fun _ => ?_
  rw [Option.map_eq_some_iff]
  constructor
  · rintro ⟨rel, hpath, rfl⟩
    exact ⟨hpath, rfl⟩
  · rintro ⟨hpath, hcontent⟩
    exact ⟨e.1, hpath, by rw [hcontent]⟩

theorem storedBy_concat {hdr : Header} (before : List Header)
    (hpath : entryPath hdr.name = some rel) :
    storedBy (before ++ [hdr]) = (rel, hdr.content) :: storedBy before := by
  unfold storedBy
  simp [List.filterMap_append, hpath]

theorem Holds.accepts_iff_fits {before : List Header} {hdr : Header}
    (h : Holds (storedBy before) tree) :
    (∃ rel, entryPath hdr.name = some rel ∧ tree.Accepts rel) ↔ Fits before hdr := by
  refine exists_congr fun rel => and_congr_right fun _ => ?_
  rw [h.accepts_iff]
  refine and_congr_right fun _ => ⟨fun hapart hdr' hmem rel' hpath => ?_, fun hapart e he => ?_⟩
  · exact hapart (rel', hdr'.content) (mem_storedBy.mpr ⟨hdr', hmem, hpath, rfl⟩)
  · obtain ⟨hdr', hmem, hpath, -⟩ := mem_storedBy.mp he
    exact hapart hdr' hmem e.1 hpath

/-- The entries that are extracted: all up to the first one that does not fit. -/
structure Front (before archive front : List Header) (ok : Bool) : Prop where
  fits : ∀ a hdr b, front = a ++ hdr :: b → Fits (before ++ a) hdr
  stops : (ok = true ∧ archive = front) ∨
    (ok = false ∧ ∃ hdr rest, archive = front ++ hdr :: rest ∧ ¬ Fits (before ++ front) hdr)

/-- **What an archive leaves are its entries up to the first one that does not fit.** -/
theorem Leaves.exists_front {tree' : Tree} {before archive : List Header} {ok : Bool}
    (h : Leaves tree archive ok tree') (hbefore : Holds (storedBy before) tree) :
    ∃ front, Front before archive front ok ∧ Holds (storedBy (before ++ front)) tree' := by
  induction h generalizing before with
  | done =>
    refine ⟨[], ⟨?_, .inl ⟨rfl, rfl⟩⟩, by rwa [List.append_nil]⟩
    intro a hdr b hsplit
    simp at hsplit
  | @refuse tree hdr rest hrefuse =>
    refine ⟨[], ⟨?_, .inr ⟨rfl, hdr, rest, rfl, ?_⟩⟩, by rwa [List.append_nil]⟩
    · intro a hdr b hsplit
      simp at hsplit
    · rw [List.append_nil, ← hbefore.accepts_iff_fits]
      rintro ⟨rel, hpath, haccepts⟩
      exact hrefuse rel hpath haccepts
  | @store tree tree' hdr rest rel ok hpath haccepts hrest ih =>
    have hfits : Fits before hdr := hbefore.accepts_iff_fits.mp ⟨rel, hpath, haccepts⟩
    have hholds : Holds (storedBy (before ++ [hdr])) (tree.store rel hdr.content) := by
      rw [storedBy_concat before hpath]
      exact hbefore.store haccepts hdr.content
    obtain ⟨front, ⟨hfront, hstops⟩, htree⟩ := ih hholds
    rw [List.append_assoc, List.singleton_append] at htree
    refine ⟨hdr :: front, ⟨?_, ?_⟩, htree⟩
    · rintro (_ | ⟨c, a⟩) hdr' b hsplit
      · obtain rfl := (List.cons.inj hsplit).1
        rwa [List.append_nil]
      · obtain ⟨rfl, htail⟩ := List.cons.inj hsplit
        have hlater := hfront a hdr' b htail
        rwa [List.append_assoc, List.singleton_append] at hlater
    · rw [List.append_assoc, List.singleton_append] at hstops
      obtain ⟨hok, rfl⟩ | ⟨hok, hdr', rest', rfl, hnot⟩ := hstops
      · exact .inl ⟨hok, rfl⟩
      · exact .inr ⟨hok, hdr', rest', rfl, hnot⟩

/-- **What lies below the destination after an extraction** into an empty directory. -/
theorem EmptyDir.exists_front {fs : FileSystem} (h : EmptyDir fs dest here)
    (archive : List Header) :
    ∃ ok front, Front [] archive front ok ∧
      Holds (storedBy front)
        (fun rel => ((extractTarGz dest archive).run { fs }).2.fs.node (here ++ rel)) ∧
      ((extractTarGz dest archive).run { fs }).2.fs.Rooted dest here ∧
      (((extractTarGz dest archive).run { fs }).1 = .ok () ↔ ok = true) := by
  obtain ⟨ok, tree, hleaves, hshows, hok⟩ := h.exists_leaves archive
  obtain ⟨front, hfront, hholds⟩ :=
    hleaves.exists_front (show Holds (storedBy []) _ from holds_empty)
  obtain rfl : tree = fun rel => _ := (funext hshows.node).symm
  exact ⟨ok, front, hfront, hholds, hshows.rooted, hok⟩

theorem mem_of_lookup {stored : List (List String × List UInt8)} {content : List UInt8}
    (h : stored.lookup rel = some content) : (rel, content) ∈ stored := by
  obtain ⟨a, b, rfl, -⟩ := List.lookup_eq_some_iff.mp h
  simp

theorem Front.eq_of_apart {archive front : List Header} {ok : Bool} (h : Front [] archive front ok)
    (hpaths : ∀ hdr ∈ archive, ∃ rel, entryPath hdr.name = some rel ∧ rel ≠ [])
    (hapart : ∀ a ∈ archive, ∀ b ∈ archive, ∀ rel rel', entryPath a.name = some rel →
      entryPath b.name = some rel' → Apart rel rel') : ok = true ∧ front = archive := by
  obtain ⟨hok, rfl⟩ | ⟨-, hdr, rest, rfl, hnot⟩ := h.stops
  · exact ⟨hok, rfl⟩
  · have hmem : hdr ∈ front ++ hdr :: rest := by simp
    obtain ⟨rel, hpath, hrel⟩ := hpaths hdr hmem
    refine absurd ⟨rel, hpath, hrel, fun hdr' hmem' rel' hpath' => ?_⟩ hnot
    exact hapart hdr' (List.mem_append_left _ hmem') hdr hmem rel' rel hpath' hpath

end Artifact

import Lecrev.Artifact.RoundTrip

/-!
# Files of a bundle with the same path

The files of a bundle are told apart by their names, but extracted at their cleaned paths. Of
several files with the same path the last one in the order of the names counts, among those that are
extracted before the first file that is refused.
-/

namespace Artifact

/-- The file is extracted: it and all files before it have paths below the destination, and none of
these is on the way to another one. -/
def Reached (files : Files) (p : Pathname) : Prop :=
  ∀ q ∈ files, q.text ≤ p.text → ∃ rel, pathBelow q = some rel ∧ rel ≠ [] ∧
    ∀ q' ∈ files, q'.text ≤ p.text → ∀ rel', pathBelow q' = some rel' → Apart rel' rel

/-- The bundle leaves a file with this content at `rel`: that of the last file with this path. -/
def Lands (files : Files) (rel : List String) (content : List UInt8) : Prop :=
  ∃ p, files.lookup p = some content ∧ pathBelow p = some rel ∧ Reached files p ∧
    ∀ q ∈ files, pathBelow q = some rel → Reached files q → q.text ≤ p.text

/-- The paths of files, the last one first. -/
def storedFiles (files : List (Σ _ : Pathname, List UInt8)) : List (List String × List UInt8) :=
  (files.filterMap fun file => (pathBelow file.1).map fun rel => (rel, file.2)).reverse

/-- The entries of an archive stand for the files. -/
abbrev Stands (file : Σ _ : Pathname, List UInt8) (hdr : Header) : Prop :=
  entryPath hdr.name = pathBelow file.1 ∧ hdr.content = file.2

theorem storedBy_eq {files : List (Σ _ : Pathname, List UInt8)} {archive : List Header}
    (h : List.Forall₂ Stands files archive) : storedBy archive = storedFiles files := by
  unfold storedBy storedFiles
  refine congrArg List.reverse ?_
  induction h with
  | nil => rfl
  | cons hstands _ ih => rw [List.filterMap_cons, List.filterMap_cons, hstands.1, hstands.2, ih]

theorem Apart.symm {a b : List String} (h : Apart a b) : Apart b a := ⟨h.2, h.1⟩

theorem le_of_text_lt {a b : String} (h : a < b) : a ≤ b :=
  (String.le_total a b).resolve_right (String.not_le.mpr h)

/-- Of the files with one path, the last one in name order is stored. -/
theorem lookup_storedFiles {files : List (Σ _ : Pathname, List UInt8)}
    (hsorted : files.Pairwise fun a b => a.1.text < b.1.text) {rel : List String}
    {content : List UInt8} :
    (storedFiles files).lookup rel = some content ↔
      ∃ file ∈ files, pathBelow file.1 = some rel ∧ file.2 = content ∧
        ∀ file' ∈ files, pathBelow file'.1 = some rel → file'.1.text ≤ file.1.text := by
  induction files using List.reverseRecOn with
  | nil => simp [storedFiles]
  | append_singleton files last ih =>
    obtain ⟨hfront, -, hlast⟩ := List.pairwise_append.mp hsorted
    have hbefore : ∀ file ∈ files, file.1.text < last.1.text :=
      fun file hfile => hlast file hfile last (List.mem_singleton_self last)
    by_cases hpath : pathBelow last.1 = some rel
    · -- the last file has this path, so no other one counts
      have hconcat : storedFiles (files ++ [last]) = (rel, last.2) :: storedFiles files := by
        unfold storedFiles
        simp [hpath]
      rw [hconcat, List.lookup_cons, beq_self_eq_true]
      constructor
      · rintro ⟨⟩
        refine ⟨last, by simp, hpath, rfl, fun file' hfile' _ => ?_⟩
        obtain hfile' | hfile' := List.mem_append.mp hfile'
        · exact le_of_text_lt (hbefore file' hfile')
        · obtain rfl := List.mem_singleton.mp hfile'
          exact String.le_refl _
      · rintro ⟨file, hfile, -, rfl, hmax⟩
        obtain hfile | hfile := List.mem_append.mp hfile
        · exact absurd (hmax last (by simp) hpath) (String.not_le.mpr (hbefore file hfile))
        · rw [List.mem_singleton.mp hfile]
    · have hconcat :
          (storedFiles (files ++ [last])).lookup rel = (storedFiles files).lookup rel := by
        unfold storedFiles
        cases hother : pathBelow last.1 with
        | none => simp [hother]
        | some rel' =>
          have hne : (rel == rel') = false := by
            rw [beq_eq_false_iff_ne]
            rintro rfl
            exact hpath hother
          simp [hother, List.lookup_cons, hne]
      rw [hconcat, ih hfront]
      have hmem : ∀ file, pathBelow file.1 = some rel →
          (file ∈ files ++ [last] ↔ file ∈ files) := by
        intro file hfile
        rw [List.mem_append, List.mem_singleton, or_iff_left]
        rintro rfl
        exact hpath hfile
      constructor
      · rintro ⟨file, hfile, hrel, hcontent, hmax⟩
        exact ⟨file, (hmem file hrel).mpr hfile, hrel, hcontent,
          fun file' hfile' hrel' => hmax file' ((hmem file' hrel').mp hfile') hrel'⟩
      · rintro ⟨file, hfile, hrel, hcontent, hmax⟩
        exact ⟨file, (hmem file hrel).mp hfile, hrel, hcontent,
          fun file' hfile' hrel' => hmax file' ((hmem file' hrel').mpr hfile') hrel'⟩

theorem pairwise_lt_sortedFiles {files : Files} (htexts : Readable files) :
    (sortedFiles files).Pairwise fun a b => a.1.text < b.1.text := by
  have hkeys : (sortedFiles files).Pairwise fun a b => a.1 ≠ b.1 :=
    ((List.perm_insertionSort _ files.entries).pairwise_iff fun h => h.symm).mpr
      (List.nodupKeys_iff_pairwise.mp files.nodupKeys)
  refine ((pairwise_sortedFiles files).and hkeys).imp_of_mem ?_
  rintro a b ha hb ⟨hle, hne⟩
  refine String.not_le.mp fun hge => hne ?_
  have hreadable : ∀ file ∈ sortedFiles files, Pathname.ofText file.1.text = file.1 :=
    fun file hfile =>
      htexts _ (AList.lookup_isSome.mp (Option.isSome_of_mem (mem_sortedFiles.mp hfile)))
  rw [← hreadable a ha, ← hreadable b hb, String.le_antisymm hle hge]

theorem Front.apart {archive front : List Header} {ok : Bool} (h : Front [] archive front ok)
    {a b : Header} (ha : a ∈ front) (hb : b ∈ front) {rel rel' : List String}
    (hrel : entryPath a.name = some rel) (hrel' : entryPath b.name = some rel') :
    Apart rel rel' := by
  obtain ⟨before, after, rfl⟩ := List.append_of_mem ha
  obtain hb | hb := List.mem_append.mp hb
  · obtain ⟨r, hr, -, hapart⟩ := h.fits before a after rfl
    obtain rfl := Option.some.inj (hr.symm.trans hrel)
    exact (hapart b hb rel' hrel').symm
  · rcases hb with _ | ⟨_, hb⟩
    · obtain rfl := Option.some.inj (hrel.symm.trans hrel')
      exact ⟨fun _ => rfl, fun _ => rfl⟩
    · obtain ⟨between, rest, rfl⟩ := List.append_of_mem hb
      obtain ⟨r, hr, -, hapart⟩ := h.fits (before ++ a :: between) b rest (by simp)
      obtain rfl := Option.some.inj (hr.symm.trans hrel')
      exact hapart a (by simp) rel hrel

/-- The entries extracted before a failure are the files that are reached. -/
theorem Front.exists_reached {files : Files} {archive front : List Header} {ok : Bool}
    (hfront : Front [] archive front ok) (htexts : Readable files)
    (hstands : List.Forall₂ Stands (sortedFiles files) archive) :
    ∃ reached, List.Forall₂ Stands reached front ∧
      (reached.Pairwise fun a b => a.1.text < b.1.text) ∧
        ∀ p content, ⟨p, content⟩ ∈ reached ↔ files.lookup p = some content ∧ Reached files p := by
  obtain ⟨back, harchive, hback⟩ : ∃ back, archive = front ++ back ∧
      ∀ hdr rest, back = hdr :: rest → ¬ Fits front hdr := by
    obtain ⟨-, rfl⟩ | ⟨-, hdr, rest, rfl, hnot⟩ := hfront.stops
    · exact ⟨[], (List.append_nil archive).symm, fun _ _ h => by cases h⟩
    · refine ⟨hdr :: rest, rfl, ?_⟩
      rintro _ _ ⟨⟩
      exact hnot
  rw [harchive] at hstands
  obtain ⟨reached, rest, hreached, hrest, hsplit⟩ :
      ∃ reached rest, List.Forall₂ Stands reached front ∧ List.Forall₂ Stands rest back ∧
        sortedFiles files = reached ++ rest := by
    refine ⟨(sortedFiles files).take front.length, (sortedFiles files).drop front.length, ?_, ?_,
      (List.take_append_drop _ _).symm⟩
    · exact List.forall₂_take_append _ _ _ hstands
    · exact List.forall₂_drop_append _ _ _ hstands
  have hlt := pairwise_lt_sortedFiles htexts
  rw [hsplit] at hlt
  obtain ⟨hbefore, hafter, hbetween⟩ := List.pairwise_append.mp hlt
  have hmem : ∀ {p : Pathname} {content : List UInt8},
      ⟨p, content⟩ ∈ reached ++ rest ↔ files.lookup p = some content := by
    intro p content
    rw [← hsplit]
    exact mem_sortedFiles
  refine ⟨reached, hreached, hbefore, fun p content => ⟨fun hp => ⟨?_, ?_⟩, ?_⟩⟩
  · exact hmem.mp (List.mem_append_left rest hp)
  · -- the files before a reached one are reached too
    have hearlier : ∀ q ∈ files, q.text ≤ p.text →
        ∃ hdr ∈ front, entryPath hdr.name = pathBelow q := by
      intro q hq hle
      obtain ⟨c, hc⟩ := Option.isSome_iff_exists.mp (AList.lookup_isSome.mpr hq)
      obtain hfile | hfile := List.mem_append.mp (hmem.mpr hc)
      · obtain ⟨hdr, hdrMem, hpath, -⟩ := hreached.exists_of_mem_left _ hfile
        exact ⟨hdr, hdrMem, hpath⟩
      · have hlater : p.text < q.text := hbetween ⟨p, content⟩ hp ⟨q, c⟩ hfile
        exact absurd hle (String.not_le.mpr hlater)
    intro q hq hle
    obtain ⟨hdr, hdrMem, hpath⟩ := hearlier q hq hle
    obtain ⟨a, b, hfrontSplit⟩ := List.append_of_mem hdrMem
    obtain ⟨rel, hrel, hne, -⟩ := hfront.fits a hdr b hfrontSplit
    refine ⟨rel, hpath ▸ hrel, hne, fun q' hq' hle' rel' hrel' => ?_⟩
    obtain ⟨hdr', hdrMem', hpath'⟩ := hearlier q' hq' hle'
    exact hfront.apart hdrMem' hdrMem (hpath'.trans hrel') hrel
  · rintro ⟨hlookup, hreach⟩
    obtain hfile | hfile := List.mem_append.mp (hmem.mpr hlookup)
    · exact hfile
    · -- otherwise the entry that is refused would fit
      exfalso
      cases hrest with
      | nil => cases hfile
      | @cons first hdr rest back hfirst _ =>
        obtain ⟨hfirstLt, -⟩ := List.pairwise_cons.mp hafter
        obtain ⟨q, c⟩ := first
        have hle : q.text ≤ p.text := by
          rcases hfile with _ | ⟨_, hfile⟩
          · exact String.le_refl _
          · have hlater : q.text < p.text := hfirstLt ⟨p, content⟩ hfile
            exact le_of_text_lt hlater
        have hkey : ∀ {p : Pathname} {content : List UInt8},
            ⟨p, content⟩ ∈ reached ++ ⟨q, c⟩ :: rest → p ∈ files :=
          fun h => AList.lookup_isSome.mp (Option.isSome_of_mem (hmem.mp h))
        obtain ⟨rel, hrel, hne, hapart⟩ :=
          hreach q (hkey (List.mem_append_right reached List.mem_cons_self)) hle
        refine hback hdr back rfl ⟨rel, hfirst.1.trans hrel, hne, fun hdr' hdrMem' rel' hrel' => ?_⟩
        obtain ⟨⟨q', c'⟩, hfile', hpath', -⟩ := hreached.exists_of_mem_right hdr' hdrMem'
        have hlt' : q'.text < q.text := hbetween ⟨q', c'⟩ hfile' ⟨q, c⟩ List.mem_cons_self
        exact hapart q' (hkey (List.mem_append_left _ hfile'))
          (String.le_trans (le_of_text_lt hlt') hle) rel' (hpath'.symm.trans hrel')

/-- **The file that a bundle leaves at a path** is the last one with this path among those that are
extracted. -/
theorem EmptyDir.file_iff_lands {fs : FileSystem} {dest here : List String}
    (h : EmptyDir fs dest here) {files : Files} (htexts : Readable files) {archive : List Header}
    (hpack : packFiles files = .ok archive) (rel : List String) (content : List UInt8) :
    ((extractTarGz dest archive).run { fs }).2.fs.node (here ++ rel) = some (.file content) ↔
      Lands files rel content := by
  obtain ⟨ok, front, hfront, hholds, -, -⟩ := h.exists_front archive
  obtain ⟨reached, hreached, hsorted, hmem⟩ :=
    hfront.exists_reached htexts (forall₂_packFiles htexts hpack)
  rw [hholds.file, storedBy_eq hreached, lookup_storedFiles hsorted]
  constructor
  · rintro ⟨⟨p, c⟩, hfile, hpath, rfl, hmax⟩
    obtain ⟨hlookup, hreach⟩ := (hmem p c).mp hfile
    refine ⟨p, hlookup, hpath, hreach, fun q hq hpath' hreach' => ?_⟩
    obtain ⟨c', hc'⟩ := Option.isSome_iff_exists.mp (AList.lookup_isSome.mpr hq)
    exact hmax ⟨q, c'⟩ ((hmem q c').mpr ⟨hc', hreach'⟩) hpath'
  · rintro ⟨p, hlookup, hpath, hreach, hmax⟩
    refine ⟨⟨p, content⟩, (hmem p content).mpr ⟨hlookup, hreach⟩, hpath, rfl, ?_⟩
    rintro ⟨q, c'⟩ hfile' hpath'
    obtain ⟨hlookup', hreach'⟩ := (hmem q c').mp hfile'
    exact hmax q (AList.lookup_isSome.mp (Option.isSome_of_mem hlookup')) hpath' hreach'

end Artifact

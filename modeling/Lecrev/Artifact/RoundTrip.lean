import Lecrev.Artifact.Contents

/-!
# The archive of a bundle and back

A bundle is written as a tar archive, in the order of the paths of its files, and the reader gives
back what has been written. The writer refuses names it cannot represent.
-/

namespace Artifact

/-- Why no archive is written. -/
inductive PackError
  | bundle (err : BundleError)
  | invalidName
  | writeTooLong
  deriving DecidableEq, Repr

/-- What the writer makes of an entry, and the reader finds. A name with a NUL cannot be written,
and an entry with a separator at the end of its name is a directory, which has no content. -/
def tarRecord (e : TarEntry) : Except PackError Header :=
  if '\x00' ∈ e.name.text.toList then .error .invalidName
  else if e.name.text.toList.getLast? = some '/' then
    if e.content = [] then .ok ⟨e.name.text, '5', e.mode, []⟩ else .error .writeTooLong
  else .ok ⟨e.name.text, '0', e.mode, e.content⟩

/-- `BundleFromFiles`, up to the archive. -/
def packFiles (files : Files) : Except PackError (List Header) :=
  match bundleFromFiles files with
  | .error err => .error (.bundle err)
  | .ok entries => entries.mapM tarRecord

/-- The files in the order in which they are packed. -/
def sortedFiles (files : Files) : List (Σ _ : Pathname, List UInt8) :=
  files.entries.insertionSort fun a b => a.1.text ≤ b.1.text

theorem mem_sortedFiles {files : Files} {file : Σ _ : Pathname, List UInt8} :
    file ∈ sortedFiles files ↔ files.lookup file.1 = some file.2 := by
  unfold sortedFiles
  rw [List.mem_insertionSort, ← Option.mem_def, AList.mem_lookup_iff]

theorem pairwise_sortedFiles (files : Files) :
    (sortedFiles files).Pairwise fun a b => a.1.text ≤ b.1.text := by
  have htotal : Std.Total fun a b : Σ _ : Pathname, List UInt8 => a.1.text ≤ b.1.text :=
    ⟨fun a b => String.le_total a.1.text b.1.text⟩
  have htrans : IsTrans (Σ _ : Pathname, List UInt8) fun a b => a.1.text ≤ b.1.text :=
    ⟨fun _ _ _ => String.le_trans⟩
  exact List.pairwise_insertionSort _ files.entries

theorem of_tarRecord {e : TarEntry} {hdr : Header} (h : tarRecord e = .ok hdr) :
    hdr.name = e.name.text ∧ hdr.content = e.content := by
  unfold tarRecord at h
  split_ifs at h with hnul hdir hcontent
  · obtain rfl := Except.ok.inj h
    exact ⟨rfl, hcontent.symm⟩
  · obtain rfl := Except.ok.inj h
    exact ⟨rfl, rfl⟩

/-- The names of entries are proper texts. -/
def Readable (files : Files) : Prop := ∀ p ∈ files, Pathname.ofText p.text = p

theorem entryPath_text {p q : Pathname} (htext : Pathname.ofText p.text = p)
    (h : cleanArchivePath p = .ok q) : entryPath q.text = pathBelow p := by
  obtain ⟨-, rfl⟩ | ⟨names, rfl, hne, hnames⟩ := cleanArchivePath_cases h
  · unfold pathBelow
    rw [h]
    decide +kernel
  · rw [pathBelow_of_names h]
    cases names with
    | nil =>
      -- only the root directory has no names
      have hrooted : p.rooted = true := by
        cases hp : p.rooted with
        | true => rfl
        | false => exact absurd rfl (hne hp)
      rw [hrooted]
      decide +kernel
    | cons n names =>
      have hisName : ∀ m, Component.name m ∈ (n :: names).map Component.name → IsName m := by
        intro m hm
        have hmem : m ∈ n :: names := by simpa using hm
        rw [← htext] at hnames
        exact Pathname.isName_of_mem_ofText (hnames m hmem)
      unfold entryPath
      rw [Pathname.ofText_text (List.cons_ne_nil _ _) (fun _ => by simp) hisName]
      exact pathBelow_of_names (cleanArchivePath_names fun _ => List.cons_ne_nil n names)

/-- **The entries of an archive stand for the files**, in the order of their paths. -/
theorem forall₂_packFiles {files : Files} {archive : List Header} (htexts : Readable files)
    (h : packFiles files = .ok archive) :
    List.Forall₂ (fun file hdr => entryPath hdr.name = pathBelow file.1 ∧ hdr.content = file.2)
      (sortedFiles files) archive := by
  unfold packFiles at h
  cases hbundle : bundleFromFiles files with
  | error err =>
    rw [hbundle] at h
    cases h
  | ok entries =>
    rw [hbundle] at h
    have hfiles : ∀ file ∈ sortedFiles files, Pathname.ofText file.1.text = file.1 := by
      intro file hfile
      have hsome := mem_sortedFiles.mp hfile
      exact htexts file.1 (AList.lookup_isSome.mp (Option.isSome_of_mem hsome))
    have hcomp := (List.forall₂_of_mapM_eq_ok hbundle).comp (List.forall₂_of_mapM_eq_ok h)
    refine ((List.forall₂_and_left _ _).mpr ⟨hfiles, hcomp⟩).imp ?_
    rintro file hdr ⟨htext, e, htar, hrecord⟩
    obtain ⟨name, hname, he⟩ := Except.bind_eq_ok_iff.mp htar
    obtain rfl := Except.ok.inj he
    obtain ⟨hdrName, hcontent⟩ := of_tarRecord hrecord
    rw [hdrName, hcontent]
    exact ⟨entryPath_text htext hname, rfl⟩

/-! ## Files by the texts of their names -/

/-- Files by the texts of their names. -/
abbrev TextFiles := AList fun _ : String => List UInt8

/-- The files by their paths. -/
def ofTexts (files : TextFiles) : Files where
  entries := files.entries.map fun e => ⟨.ofText e.1, e.2⟩
  nodupKeys := by
    have hkeys :
        (files.entries.map fun e => (⟨.ofText e.1, e.2⟩ : Σ _ : Pathname, List UInt8)).keys =
        files.entries.keys.map Pathname.ofText := by
      simp [List.keys, Function.comp_def]
    rw [List.NodupKeys, hkeys]
    exact files.nodupKeys.map Pathname.ofText_injective

theorem lookup_ofTexts {files : TextFiles} {p : Pathname} {content : List UInt8} :
    (ofTexts files).lookup p = some content ↔
      ∃ name, files.lookup name = some content ∧ Pathname.ofText name = p := by
  simp only [← Option.mem_def, AList.mem_lookup_iff]
  unfold ofTexts
  rw [List.mem_map]
  constructor
  · rintro ⟨⟨name, c⟩, hmem, heq⟩
    obtain ⟨rfl, rfl⟩ := Sigma.mk.inj heq
    exact ⟨name, hmem, rfl⟩
  · rintro ⟨name, hmem, rfl⟩
    exact ⟨_, hmem, rfl⟩

theorem readable_ofTexts (files : TextFiles) : Readable (ofTexts files) := by
  intro p hp
  obtain ⟨content, hcontent⟩ := Option.isSome_iff_exists.mp (AList.lookup_isSome.mpr hp)
  obtain ⟨name, -, rfl⟩ := lookup_ofTexts.mp hcontent
  rw [Pathname.text_ofText]

theorem packFiles_eq_of_perm {files files' : Files} (htexts : Readable files)
    (h : files'.entries.Perm files.entries) : packFiles files' = packFiles files := by
  have hperm : (sortedFiles files').Perm (sortedFiles files) :=
    (List.perm_insertionSort _ _).trans (h.trans (List.perm_insertionSort _ _).symm)
  have hsorted : sortedFiles files' = sortedFiles files := by
    refine hperm.eq_of_pairwise ?_ (pairwise_sortedFiles files') (pairwise_sortedFiles files)
    rintro ⟨p, content⟩ ⟨q, content'⟩ hp hq hle hge
    -- two files whose names have the same text are the same file
    have hp : files.lookup p = some content := mem_sortedFiles.mp (hperm.mem_iff.mp hp)
    have hq : files.lookup q = some content' := mem_sortedFiles.mp hq
    have hreadable : ∀ {p : Pathname} {c : List UInt8}, files.lookup p = some c →
        Pathname.ofText p.text = p :=
      fun hsome => htexts _ (AList.lookup_isSome.mp (Option.isSome_of_mem hsome))
    obtain rfl : p = q := by
      rw [← hreadable hp, ← hreadable hq, String.le_antisymm hle hge]
    rw [hp] at hq
    rw [Option.some.inj hq]
  unfold packFiles bundleFromFiles
  unfold sortedFiles at hsorted
  rw [hsorted]

/-! ## Round trip -/

/-- A non-empty cleaned relative path other than `.`, which does not climb and has no NUL. -/
structure BundleName (name : String) : Prop where
  ne_empty : name ≠ ""
  cleaned : (clean (.ofText name)).text = name
  relative : (Pathname.ofText name).rooted = false
  ne_current : name ≠ "."
  first : (Pathname.ofText name).components.head? ≠ some .parent
  noNul : '\x00' ∉ name.toList

/-- The files can be bundled: no name is that of a directory on the way to another one. -/
structure Bundleable (files : TextFiles) : Prop where
  names : ∀ name ∈ files, BundleName name
  apart : ∀ a ∈ files, ∀ b ∈ files, hasPrefix b (a ++ "/") = false

/-- Exactly the files lie below `here`, and the directories on the way to them. -/
structure Unpacked (files : TextFiles) (here : List String) (fs : FileSystem) : Prop where
  file : ∀ rel content, fs.node (here ++ rel) = some (.file content) ↔
    ∃ name, files.lookup name = some content ∧ Pathname.ofText name = .ofNames rel
  dir : ∀ rel, fs.node (here ++ rel) = some .dir ↔
    rel = [] ∨ ∃ name ∈ files, ∃ more, more ≠ [] ∧ Pathname.ofText name = .ofNames (rel ++ more)
  link : ∀ rel target, fs.node (here ++ rel) ≠ some (.link target)

theorem BundleName.exists_names {name : String} (h : BundleName name) :
    ∃ rel, rel ≠ [] ∧ (∀ n ∈ rel, IsName n) ∧ Pathname.ofText name = .ofNames rel := by
  obtain ⟨-, hclean⟩ | ⟨rel, k, hclean, -, hnames⟩ := clean_cases (.ofText name)
  · exact absurd (h.cleaned.symm.trans (by rw [hclean]; decide)) h.ne_current
  · rw [h.relative] at hclean
    have hne : List.replicate k Component.parent ++ rel.map .name ≠ [] := by
      intro hnil
      rw [hnil] at hclean
      exact h.ne_empty (h.cleaned.symm.trans (by rw [hclean]; decide))
    have hfirst :
        (List.replicate k Component.parent ++ rel.map Component.name).head? ≠ some .empty := by
      intro h
      have hmem := List.mem_of_mem_head? h
      simp at hmem
    have hself : Pathname.ofText name = ⟨false, List.replicate k .parent ++ rel.map .name⟩ := by
      have htext := Pathname.ofText_text (p := clean (.ofText name)) (by rw [hclean]; exact hne)
        (fun _ => by rw [hclean]; exact hfirst) (by
          rw [hclean]
          intro n hn
          have hmem : n ∈ rel := by simpa using hn
          exact Pathname.isName_of_mem_ofText (hnames n hmem))
      rw [h.cleaned, hclean] at htext
      exact htext
    cases k with
    | zero =>
      refine ⟨rel, ?_, fun n hn => Pathname.isName_of_mem_ofText (hnames n hn), hself⟩
      rintro rfl
      exact hne rfl
    | succ k =>
      refine absurd ?_ h.first
      rw [hself]
      rfl

theorem text_ofNames (rel : List String) :
    (Pathname.ofNames rel).text = String.intercalate "/" rel := by
  simp [Pathname.ofNames, Pathname.text, Function.comp_def, Component.text]

theorem getLast_text_ofNames {rel : List String} (hrel : rel ≠ []) (hnames : ∀ n ∈ rel, IsName n) :
    (Pathname.ofNames rel).text.toList.getLast? ≠ some '/' := by
  obtain ⟨init, n, rfl⟩ : ∃ init n, rel = init ++ [n] :=
    ⟨_, _, (List.dropLast_append_getLast hrel).symm⟩
  have hn := hnames n (by simp)
  have hne : n.toList ≠ [] := fun h => hn.ne_empty (String.toList_inj.mp h)
  have hends : ∃ front, (Pathname.ofNames (init ++ [n])).text.toList = front ++ n.toList := by
    rw [text_ofNames]
    cases init with
    | nil => exact ⟨[], by simp⟩
    | cons m init =>
      rw [String.intercalate_append_of_ne_nil (List.cons_ne_nil m init) (List.cons_ne_nil n []),
        String.intercalate_singleton]
      exact ⟨_, String.toList_append⟩
  obtain ⟨front, hfront⟩ := hends
  rw [hfront, List.getLast?_append_of_ne_nil _ hne]
  exact fun h => hn.plain (List.mem_of_getLast? h)

theorem Bundleable.apart_paths {files : TextFiles} (h : Bundleable files) {a b : String}
    (ha : a ∈ files) (hb : b ∈ files) {rel rel' : List String} (hrel : rel ≠ [])
    (hpath : Pathname.ofText a = .ofNames rel) (hpath' : Pathname.ofText b = .ofNames rel')
    (hle : rel <+: rel') : rel = rel' := by
  obtain ⟨more, rfl⟩ := hle
  by_contra hne
  have hmore : more ≠ [] := by
    rintro rfl
    exact hne (List.append_nil rel).symm
  -- the separator after the first name stands in the text of the second one
  have htext : b = a ++ "/" ++ String.intercalate "/" more := by
    rw [← Pathname.text_ofText a, ← Pathname.text_ofText b, hpath, hpath', text_ofNames,
      text_ofNames, String.intercalate_append_of_ne_nil hrel hmore]
  have hfront : hasPrefix b (a ++ "/") = true := by
    rw [hasPrefix_iff, htext]
    simp
  rw [h.apart a ha b hb] at hfront
  cases hfront

/-- The files can be packed. -/
theorem Bundleable.exists_archive {files : TextFiles} (h : Bundleable files) :
    ∃ archive, packFiles (ofTexts files) = .ok archive := by
  have hclean : ∀ p content, (ofTexts files).lookup p = some content →
      ∃ name, name ∈ files ∧ p = Pathname.ofText name ∧ cleanArchivePath p = .ok p := by
    intro p content hlookup
    obtain ⟨name, hname, rfl⟩ := lookup_ofTexts.mp hlookup
    have hmem := AList.lookup_isSome.mp (Option.isSome_of_mem hname)
    obtain ⟨rel, hrel, -, hpath⟩ := (h.names name hmem).exists_names
    exact ⟨name, hmem, rfl, hpath ▸ cleanArchivePath_names fun _ => hrel⟩
  have hbundle : ∃ archive, bundleFromFiles (ofTexts files) = .ok archive :=
    exists_bundleFromFiles fun p content hlookup =>
      let ⟨_, _, _, hp⟩ := hclean p content hlookup
      ⟨p, hp⟩
  obtain ⟨entries, hentries⟩ := hbundle
  unfold packFiles
  rw [hentries]
  refine List.exists_mapM_eq_ok fun e he => ?_
  obtain ⟨p, hlookup, hname⟩ := (mem_bundleFromFiles hentries).2 e he
  obtain ⟨name, hmem, rfl, hself⟩ := hclean p _ hlookup
  have htext : e.name.text = name := by
    rw [← Except.ok.inj (hself.symm.trans hname), Pathname.text_ofText]
  obtain ⟨rel, hrel, hnames, hpath⟩ := (h.names name hmem).exists_names
  have hlast := getLast_text_ofNames hrel hnames
  rw [← hpath, Pathname.text_ofText] at hlast
  unfold tarRecord
  rw [htext, if_neg (h.names name hmem).noNul, if_neg hlast]
  exact ⟨_, rfl⟩

/-- The archive holds the files and nothing else. -/
theorem Bundleable.mem_archive {files : TextFiles} {archive : List Header} (h : Bundleable files)
    (harchive : packFiles (ofTexts files) = .ok archive) :
    (∀ hdr ∈ archive, ∃ name rel, files.lookup name = some hdr.content ∧
      Pathname.ofText name = .ofNames rel ∧ rel ≠ [] ∧ entryPath hdr.name = some rel) ∧
    ∀ name content rel, files.lookup name = some content → Pathname.ofText name = .ofNames rel →
      ∃ hdr ∈ archive, entryPath hdr.name = some rel ∧ hdr.content = content := by
  have hforall := forall₂_packFiles (readable_ofTexts files) harchive
  have hbelow : ∀ {rel : List String}, rel ≠ [] → pathBelow (.ofNames rel) = some rel :=
    fun hrel => pathBelow_of_names (cleanArchivePath_names fun _ => hrel)
  have hrel : ∀ {name : String} {content : List UInt8}, files.lookup name = some content →
      ∃ rel, rel ≠ [] ∧ Pathname.ofText name = .ofNames rel := by
    intro name content hlookup
    obtain ⟨rel, hrel, -, hpath⟩ :=
      (h.names name (AList.lookup_isSome.mp (Option.isSome_of_mem hlookup))).exists_names
    exact ⟨rel, hrel, hpath⟩
  constructor
  · intro hdr hmem
    obtain ⟨file, hfile, hpath, hcontent⟩ := hforall.exists_of_mem_right hdr hmem
    obtain ⟨name, hname, hofText⟩ := lookup_ofTexts.mp (mem_sortedFiles.mp hfile)
    obtain ⟨rel, hne, hnames⟩ := hrel hname
    refine ⟨name, rel, hcontent ▸ hname, hnames, hne, ?_⟩
    rw [hpath, ← hofText, hnames, hbelow hne]
  · intro name content rel hname hnames
    obtain ⟨rel', hne, hnames'⟩ := hrel hname
    obtain rfl : rel' = rel := Pathname.ofNames_injective (hnames'.symm.trans hnames)
    have hfile : (⟨.ofText name, content⟩ : Σ _ : Pathname, List UInt8) ∈
        sortedFiles (ofTexts files) :=
      mem_sortedFiles.mpr (lookup_ofTexts.mpr ⟨name, hname, rfl⟩)
    obtain ⟨hdr, hmem, hpath, hcontent⟩ := hforall.exists_of_mem_left _ hfile
    refine ⟨hdr, hmem, ?_, hcontent⟩
    rw [hpath, hnames, hbelow hne]

/-- A bundle of files with proper names is extracted to exactly these files, and the map may be
read in any order when it is bundled. -/
theorem bundle_round_trip {files : TextFiles} (h : Bundleable files) :
    ∃ archive, packFiles (ofTexts files) = .ok archive ∧
      (∀ files' : TextFiles, files'.entries.Perm files.entries →
        packFiles (ofTexts files') = .ok archive) ∧
      ∀ fs dest here, EmptyDir fs dest here →
        ((extractTarGz dest archive).run { fs }).1 = .ok () ∧
          Unpacked files here ((extractTarGz dest archive).run { fs }).2.fs := by
  obtain ⟨archive, harchive⟩ := h.exists_archive
  refine ⟨archive, harchive, fun files' hperm => ?_, fun fs dest here hempty => ?_⟩
  · rw [packFiles_eq_of_perm (readable_ofTexts files) (hperm.map _), harchive]
  · obtain ⟨ok, front, hfront, hholds, hrooted, hok⟩ := hempty.exists_front archive
    obtain ⟨hback, hforth⟩ := h.mem_archive harchive
    have hmem : ∀ {name : String} {content : List UInt8}, files.lookup name = some content →
        name ∈ files :=
      fun hlookup => AList.lookup_isSome.mp (Option.isSome_of_mem hlookup)
    obtain ⟨htrue, rfl⟩ : ok = true ∧ front = archive := by
      refine hfront.eq_of_apart (fun hdr hdrMem => ?_) fun a ha b hb rel rel' hpath hpath' => ?_
      · obtain ⟨name, rel, -, -, hrel, hpath⟩ := hback hdr hdrMem
        exact ⟨rel, hpath, hrel⟩
      · obtain ⟨name, r, hname, hofText, hrel, hr⟩ := hback a ha
        obtain ⟨name', r', hname', hofText', hrel', hr'⟩ := hback b hb
        obtain rfl := Option.some.inj (hr.symm.trans hpath)
        obtain rfl := Option.some.inj (hr'.symm.trans hpath')
        exact ⟨h.apart_paths (hmem hname) (hmem hname') hrel hofText hofText',
          h.apart_paths (hmem hname') (hmem hname) hrel' hofText' hofText⟩
    have hfile : ∀ {rel : List String} {content : List UInt8},
        (storedBy front).lookup rel = some content →
          ∃ name, files.lookup name = some content ∧ Pathname.ofText name = .ofNames rel := by
      intro rel content hlookup
      obtain ⟨hdr, hdrMem, hpath, rfl⟩ := mem_storedBy.mp (mem_of_lookup hlookup)
      obtain ⟨name, r, hname, hofText, -, hr⟩ := hback hdr hdrMem
      obtain rfl := Option.some.inj (hr.symm.trans hpath)
      exact ⟨name, hname, hofText⟩
    refine ⟨hok.mpr htrue, fun rel content => ?_, fun rel => ?_, hrooted.plain⟩
    · rw [hholds.file]
      refine ⟨hfile, ?_⟩
      rintro ⟨name, hname, hofText⟩
      obtain ⟨hdr, hdrMem, hpath, rfl⟩ := hforth name content rel hname hofText
      -- the name is the only one with this path
      obtain ⟨content, hlookup⟩ : ∃ content, (storedBy front).lookup rel = some content := by
        rw [← Option.isSome_iff_exists, List.lookup_isSome_iff]
        exact ⟨(rel, hdr.content), mem_storedBy.mpr ⟨hdr, hdrMem, hpath, rfl⟩,
          beq_self_eq_true rel⟩
      obtain ⟨name', hname', hofText'⟩ := hfile hlookup
      obtain rfl := Pathname.ofText_injective (hofText'.trans hofText.symm)
      rw [hlookup, ← hname', hname]
    · rw [hholds.dir]
      refine or_congr_right ⟨?_, ?_⟩
      · rintro ⟨e, he, ⟨more, hmore⟩, hne⟩
        obtain ⟨hdr, hdrMem, hpath, -⟩ := mem_storedBy.mp he
        obtain ⟨name, r, hname, hofText, -, hr⟩ := hback hdr hdrMem
        obtain rfl := Option.some.inj (hr.symm.trans hpath)
        refine ⟨name, hmem hname, more, ?_, hmore ▸ hofText⟩
        rintro rfl
        exact hne (by rw [← hmore, List.append_nil])
      · rintro ⟨name, hname, more, hmore, hofText⟩
        obtain ⟨content, hlookup⟩ := Option.isSome_iff_exists.mp (AList.lookup_isSome.mpr hname)
        obtain ⟨hdr, hdrMem, hpath, rfl⟩ := hforth name content _ hlookup hofText
        refine ⟨(rel ++ more, hdr.content), mem_storedBy.mpr ⟨hdr, hdrMem, hpath, rfl⟩,
          List.prefix_append rel more, ?_⟩
        simpa using hmore

namespace RoundTripSample

def files : TextFiles :=
  (∅ : TextFiles).insert "lib/a.mjs" [1] |>.insert "index.mjs" [2]

theorem bundleName (name : String) (h : name = "lib/a.mjs" ∨ name = "index.mjs") :
    BundleName name := by
  obtain rfl | rfl := h
  · exact ⟨by decide, by decide +kernel, by decide, by decide, by decide, by decide⟩
  · exact ⟨by decide, by decide +kernel, by decide, by decide, by decide, by decide⟩

theorem bundleable : Bundleable files := by
  have hnames : ∀ name ∈ files, name = "lib/a.mjs" ∨ name = "index.mjs" := by
    intro name hname
    rw [files, AList.mem_insert, AList.mem_insert] at hname
    obtain rfl | rfl | hnone := hname
    · exact .inr rfl
    · exact .inl rfl
    · exact absurd hnone (AList.notMem_empty _)
  refine ⟨fun name hname => bundleName name (hnames name hname), fun a ha b hb => ?_⟩
  obtain rfl | rfl := hnames a ha
  · obtain rfl | rfl := hnames b hb
    · decide +kernel
    · decide +kernel
  · obtain rfl | rfl := hnames b hb
    · decide +kernel
    · decide +kernel

end RoundTripSample

theorem bundle_round_trip_sample :
    ∃ archive, packFiles (ofTexts RoundTripSample.files) = .ok archive ∧
      (∀ files' : TextFiles, files'.entries.Perm RoundTripSample.files.entries →
        packFiles (ofTexts files') = .ok archive) ∧
      ∀ fs dest here, EmptyDir fs dest here →
        ((extractTarGz dest archive).run { fs }).1 = .ok () ∧
          Unpacked RoundTripSample.files here ((extractTarGz dest archive).run { fs }).2.fs :=
  bundle_round_trip RoundTripSample.bundleable

end Artifact

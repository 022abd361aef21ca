import Lecrev.Api.Types

/-!
# Project identifiers

`normalizeProjectID` scans a text and writes words of letters and digits with single dashes between
them. What the loop has written is empty, such words, or such words and a dash (`Scanned`); the
final trim drops the dash. A text that consists of such words is written as it is.
-/

namespace Lecrev.Api

/-- The characters of an identifier besides the dashes. -/
def IsIDChar (c : Char) : Prop := ('a' ≤ c ∧ c ≤ 'z') ∨ ('0' ≤ c ∧ c ≤ '9')

instance : DecidablePred IsIDChar := fun c =>
  inferInstanceAs (Decidable (('a' ≤ c ∧ c ≤ 'z') ∨ ('0' ≤ c ∧ c ≤ '9')))

/-- The grammar `[a-z0-9]+(-[a-z0-9]+)*`. -/
def IsProjectID (id : String) : Prop :=
  ∃ words : List String, words ≠ [] ∧
    (∀ word ∈ words, word ≠ "" ∧ ∀ c ∈ word.toList, IsIDChar c) ∧ id = "-".intercalate words

/-- The text that `normalizeProjectID` scans, before it is lower-cased. -/
def projectIDSource (rawID name : String) : String :=
  if trimSpace rawID = "" then name else trimSpace rawID

theorem not_isIDChar_dash : ¬ IsIDChar '-' := by decide

theorem isSpace_eq_false {c : Char} (h : IsIDChar c ∨ c = '-') : isSpace c = false := by
  have hrange : 0x2d ≤ c.toNat ∧ c.toNat ≤ 0x7a := by
    obtain (⟨hfirst, hlast⟩ | ⟨hfirst, hlast⟩) | rfl := h
    · exact ⟨le_trans (by decide) (Char.le_def.mp hfirst), Char.le_def.mp hlast⟩
    · exact ⟨le_trans (by decide) (Char.le_def.mp hfirst),
        le_trans (Char.le_def.mp hlast) (by decide)⟩
    · decide
  unfold isSpace
  simp only [Bool.or_eq_false_iff, Bool.and_eq_false_iff, decide_eq_false_iff_not, List.mem_cons,
    List.not_mem_nil, or_false]
  omega

/-! ## Words -/

/-- Words of letters and digits with single dashes between them, character by character. -/
inductive Words : List Char → Prop
  | single {c : Char} (hc : IsIDChar c) : Words [c]
  | letter {c : Char} {cs : List Char} (hc : IsIDChar c) (h : Words cs) : Words (c :: cs)
  | dash {c : Char} {cs : List Char} (hc : IsIDChar c) (h : Words cs) : Words (c :: '-' :: cs)

namespace Words

variable {cs ds : List Char}

theorem ne_nil (h : Words cs) : cs ≠ [] := by
  cases h <;> exact List.cons_ne_nil _ _

theorem dropWhile_eq (h : Words cs) : cs.dropWhile (· == '-') = cs := by
  have hfirst {c : Char} (hc : IsIDChar c) : ¬ (c == '-') = true := by
    rw [beq_iff_eq]
    rintro rfl
    exact not_isIDChar_dash hc
  cases h with
  | single hc => exact List.dropWhile_cons_of_neg (hfirst hc)
  | letter hc h => exact List.dropWhile_cons_of_neg (hfirst hc)
  | dash hc h => exact List.dropWhile_cons_of_neg (hfirst hc)

theorem append (h : Words cs) (h' : Words ds) : Words (cs ++ ds) := by
  induction h with
  | single hc => exact .letter hc h'
  | letter hc h ih => exact .letter hc ih
  | dash hc h ih => exact .dash hc ih

theorem append_dash (h : Words cs) (h' : Words ds) : Words (cs ++ '-' :: ds) := by
  induction h with
  | single hc => exact .dash hc h'
  | letter hc h ih => exact .letter hc ih
  | dash hc h ih => exact .dash hc ih

theorem reverse (h : Words cs) : Words cs.reverse := by
  induction h with
  | single hc => exact .single hc
  | letter hc h ih =>
    rw [List.reverse_cons]
    exact ih.append (.single hc)
  | dash hc h ih =>
    rw [List.reverse_cons, List.reverse_cons, List.append_assoc]
    exact ih.append_dash (.single hc)

theorem isIDChar_or_dash (h : Words cs) : ∀ c ∈ cs, IsIDChar c ∨ c = '-' := by
  induction h with
  | single hc =>
    intro c hmem
    rw [List.mem_singleton.mp hmem]
    exact .inl hc
  | letter hc h ih => exact List.forall_mem_cons.mpr ⟨.inl hc, ih⟩
  | dash hc h ih =>
    exact List.forall_mem_cons.mpr ⟨.inl hc, List.forall_mem_cons.mpr ⟨.inr rfl, ih⟩⟩

theorem exists_words (h : Words cs) : ∃ word words,
    (∀ w ∈ word :: words, w ≠ [] ∧ ∀ c ∈ w, IsIDChar c) ∧
      cs = ['-'].intercalate (word :: words) := by
  induction h with
  | @single c hc =>
    refine ⟨[c], [], List.forall_mem_singleton.mpr ⟨List.cons_ne_nil _ _, ?_⟩, by simp⟩
    exact List.forall_mem_singleton.mpr hc
  | @letter c cs hc h ih =>
    obtain ⟨word, words, hwords, rfl⟩ := ih
    obtain ⟨⟨-, hword⟩, hwords⟩ := List.forall_mem_cons.mp hwords
    refine ⟨c :: word, words, List.forall_mem_cons.mpr ⟨⟨List.cons_ne_nil _ _, ?_⟩, hwords⟩, ?_⟩
    · exact List.forall_mem_cons.mpr ⟨hc, hword⟩
    · cases words <;> simp
  | @dash c cs hc h ih =>
    obtain ⟨word, words, hwords, rfl⟩ := ih
    refine ⟨[c], word :: words, List.forall_mem_cons.mpr ⟨⟨List.cons_ne_nil _ _, ?_⟩, hwords⟩, ?_⟩
    · exact List.forall_mem_singleton.mpr hc
    · simp

theorem isProjectID {id : String} (h : Words id.toList) : IsProjectID id := by
  obtain ⟨word, words, hwords, hid⟩ := h.exists_words
  refine ⟨(word :: words).map String.ofList, ?_, ?_, ?_⟩
  · exact List.cons_ne_nil _ _
  · rw [List.forall_mem_map]
    intro w hw
    obtain ⟨hne, hchars⟩ := hwords w hw
    rw [String.toList_ofList]
    refine ⟨fun hempty => hne ?_, hchars⟩
    rw [← String.toList_ofList (l := w), hempty]
    rfl
  · refine String.toList_inj.mp ?_
    have hlists : ((word :: words).map String.ofList).map String.toList = word :: words := by
      rw [List.map_map]
      refine (List.map_congr_left fun w _ => ?_).trans (List.map_id _)
      exact String.toList_ofList
    rw [hid, String.toList_intercalate, hlists]
    rfl

end Words

/-! ## The loop -/

theorem writeProjectID_letter {c : Char} (hc : IsIDChar c) (written cs : List Char) :
    writeProjectID written (c :: cs) = writeProjectID (c :: written) cs := if_pos hc

theorem writeProjectID_dash {c : Char} (hc : IsIDChar c) (written cs : List Char) :
    writeProjectID (c :: written) ('-' :: cs) = writeProjectID ('-' :: c :: written) cs := by
  have hwritten : ¬ (c :: written = [] ∨ (c :: written).head? = some '-') := by
    rintro (hnil | hhead)
    · cases hnil
    · obtain rfl := Option.some.inj hhead
      exact not_isIDChar_dash hc
  exact (if_neg not_isIDChar_dash).trans (if_neg hwritten)

/-- What the loop has written, backwards: nothing, words, or words and a dash. -/
inductive Scanned : List Char → Prop
  | start : Scanned []
  | word {written : List Char} (h : Words written) : Scanned written
  | dash {written : List Char} (h : Words written) : Scanned ('-' :: written)

theorem Scanned.letter {written : List Char} {c : Char} (hc : IsIDChar c) (h : Scanned written) :
    Words (c :: written) := by
  cases h with
  | start => exact .single hc
  | word h => exact .letter hc h
  | dash h => exact .dash hc h

theorem scanned_writeProjectID {written : List Char} (h : Scanned written) (cs : List Char) :
    Scanned (writeProjectID written cs) := by
  induction cs generalizing written with
  | nil => exact h
  | cons c cs ih =>
    rw [writeProjectID]
    split_ifs with hc hskip
    · exact ih (.word (h.letter hc))
    · exact ih h
    · -- neither nothing nor a dash was written last
      rw [not_or] at hskip
      cases h with
      | start => exact absurd rfl hskip.1
      | word h => exact ih (.dash h)
      | dash h => exact absurd rfl hskip.2

theorem suffix_writeProjectID (written cs : List Char) : written <:+ writeProjectID written cs := by
  induction cs generalizing written with
  | nil => exact List.suffix_rfl
  | cons c cs ih =>
    rw [writeProjectID]
    split_ifs
    · exact (List.suffix_cons c written).trans (ih _)
    · exact ih _
    · exact (List.suffix_cons '-' written).trans (ih _)

theorem writeProjectID_eq_nil_iff (cs : List Char) :
    writeProjectID [] cs = [] ↔ ∀ c ∈ cs, ¬ IsIDChar c := by
  induction cs with
  | nil => exact ⟨fun _ _ h => absurd h List.not_mem_nil, fun _ => rfl⟩
  | cons c cs ih =>
    rw [writeProjectID, List.forall_mem_cons]
    split_ifs with hc hskip
    · refine ⟨fun hnil => ?_, fun h => absurd hc h.1⟩
      have hsuffix := suffix_writeProjectID [c] cs
      rw [hnil] at hsuffix
      exact absurd (List.suffix_nil.mp hsuffix) (List.cons_ne_nil _ _)
    · rw [ih]
      exact ⟨fun h => ⟨hc, h⟩, And.right⟩
    · exact absurd (.inl rfl) hskip

theorem writeProjectID_of_words {cs : List Char} (h : Words cs) (written : List Char) :
    writeProjectID written cs = cs.reverse ++ written := by
  induction h generalizing written with
  | single hc => exact writeProjectID_letter hc written []
  | letter hc h ih =>
    rw [writeProjectID_letter hc, ih, List.reverse_cons, List.append_assoc]
    rfl
  | dash hc h ih =>
    rw [writeProjectID_letter hc, writeProjectID_dash hc, ih, List.reverse_cons, List.reverse_cons,
      List.append_assoc, List.append_assoc]
    rfl

/-! ## The identifier -/

section Identifier

variable {toLower : String → String} {rawID name : String}

theorem normalizeProjectID_cases (toLower : String → String) (rawID name : String) :
    (writeProjectID [] (toLower (projectIDSource rawID name)).toList = [] ∧
        normalizeProjectID toLower rawID name = "") ∨
      (writeProjectID [] (toLower (projectIDSource rawID name)).toList ≠ [] ∧
        Words (normalizeProjectID toLower rawID name).toList) := by
  have hscanned := scanned_writeProjectID .start (toLower (projectIDSource rawID name)).toList
  rw [normalizeProjectID, String.toList_ofList]
  change (_ ∧ String.ofList
    (((writeProjectID [] (toLower (projectIDSource rawID name)).toList).dropWhile
    _).reverse.dropWhile _) = "") ∨ _ ∧ Words (((writeProjectID []
      (toLower (projectIDSource rawID name)).toList).dropWhile _).reverse.dropWhile _)
  cases hwritten : writeProjectID [] (toLower (projectIDSource rawID name)).toList with
  | nil => exact .inl ⟨rfl, rfl⟩
  | cons c cs =>
    rw [hwritten] at hscanned
    refine .inr ⟨List.cons_ne_nil _ _, ?_⟩
    cases hscanned with
    | word h =>
      rw [h.dropWhile_eq, h.reverse.dropWhile_eq]
      exact h.reverse
    | dash h =>
      rw [List.dropWhile_cons_of_pos (by rfl), h.dropWhile_eq, h.reverse.dropWhile_eq]
      exact h.reverse

theorem normalizeProjectID_of_words {id : String} (h : Words id.toList)
    (hlower : toLower id = id) : normalizeProjectID toLower id name = id := by
  have hspace : trimSpace id = id := by
    refine trimSpace_eq_self fun c hc => isSpace_eq_false ?_
    exact h.isIDChar_or_dash c hc
  have hne : id ≠ "" := by
    rintro rfl
    exact h.ne_nil rfl
  rw [normalizeProjectID, hspace, if_neg hne, hlower, writeProjectID_of_words h, List.append_nil,
    h.reverse.dropWhile_eq,
    List.reverse_reverse, h.dropWhile_eq, String.ofList_toList]

end Identifier

/-- **Project identifiers.** The result is empty or matches `[a-z0-9]+(-[a-z0-9]+)*`; it is empty
exactly when the lower-cased source has no letter and no digit; and an identifier stands for itself.
`strings.ToLower` leaves lower-case letters, digits and dashes as they are. -/
theorem normalizeProjectID_spec (toLower : String → String)
    (hlower : ∀ s : String, (∀ c ∈ s.toList, IsIDChar c ∨ c = '-') → toLower s = s)
    (rawID name : String) :
    (normalizeProjectID toLower rawID name = "" ∨
        IsProjectID (normalizeProjectID toLower rawID name)) ∧
      (normalizeProjectID toLower rawID name = "" ↔
        ∀ c ∈ (toLower (projectIDSource rawID name)).toList, ¬ IsIDChar c) ∧
      (normalizeProjectID toLower rawID name ≠ "" → ∀ n,
        normalizeProjectID toLower (normalizeProjectID toLower rawID name) n =
          normalizeProjectID toLower rawID name) := by
  rw [← writeProjectID_eq_nil_iff]
  obtain ⟨hnil, hempty⟩ | ⟨hne, hwords⟩ := normalizeProjectID_cases toLower rawID name
  · exact ⟨.inl hempty, ⟨fun _ => hnil, fun _ => hempty⟩, fun h => absurd hempty h⟩
  · refine ⟨.inr ?_, ⟨fun hempty => ?_, fun hnil => absurd hnil hne⟩, fun _ n => ?_⟩
    · exact hwords.isProjectID
    · rw [hempty] at hwords
      exact absurd rfl hwords.ne_nil
    · exact normalizeProjectID_of_words hwords (hlower _ hwords.isIDChar_or_dash)

namespace ProjectIDSample

def toLower (s : String) : String := .ofList (s.toList.map Char.toLower)

theorem toLower_eq_self {s : String} (h : ∀ c ∈ s.toList, IsIDChar c ∨ c = '-') :
    toLower s = s := by
  have hchar {c : Char} (hc : IsIDChar c ∨ c = '-') : c.toLower = c := by
    refine dif_neg fun hupper => ?_
    obtain (⟨hfirst, -⟩ | ⟨-, hlast⟩) | rfl := hc
    · exact absurd (hfirst.trans hupper.2) (by decide)
    · exact absurd (hupper.1.trans hlast) (by decide)
    · exact absurd hupper.1 (by decide)
  rw [toLower, List.map_congr_left fun c hc => hchar (h c hc), List.map_id', String.ofList_toList]

end ProjectIDSample

open ProjectIDSample in
theorem normalizeProjectID_spec_sample :
    normalizeProjectID toLower " " "My  Project_2!" = "my-project-2" ∧
      normalizeProjectID toLower "my-project-2" "other" = "my-project-2" := by
  have hid : normalizeProjectID toLower " " "My  Project_2!" = "my-project-2" := by decide +kernel
  have hsame := (normalizeProjectID_spec toLower (fun _ => toLower_eq_self) " "
    "My  Project_2!").2.2 (by rw [hid]; decide) "other"
  rw [hid] at hsame
  exact ⟨hid, hsame⟩

end Lecrev.Api

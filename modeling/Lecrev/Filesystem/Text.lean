import Lecrev.Filesystem.Tree

/-!
# Texts of paths

A text is split at its separators into a path (`Pathname.ofText`). No text is lost
(`Pathname.text_ofText`), and a path whose names are names is read off its text
(`Pathname.ofText_text`).
-/

/-- The text between two separators can name an entry of a directory. -/
structure IsName (n : String) : Prop where
  ne_empty : n ≠ ""
  ne_current : n ≠ "."
  ne_parent : n ≠ ".."
  plain : '/' ∉ n.toList

/-- The component with a text. -/
def Component.ofText (text : String) : Component :=
  if text = "" then .empty
  else if text = "." then .current
  else if text = ".." then .parent
  else .name text

@[simp]
theorem Component.text_ofText (text : String) : (ofText text).text = text := by
  unfold ofText
  split_ifs with h h h
  · exact h.symm
  · exact h.symm
  · exact h.symm
  · rfl

theorem Component.ofText_text {c : Component} (h : ∀ n, c = .name n → IsName n) :
    ofText c.text = c := by
  cases c with
  | empty | current | parent => rfl
  | name n =>
    obtain ⟨hempty, hcurrent, hparent, -⟩ := h n rfl
    simp [ofText, text, hempty, hcurrent, hparent]

namespace Pathname

/-- The components of a text without the separator in front. -/
def splitText (chars : List Char) : List Component :=
  (chars.splitOn '/').map fun part => .ofText (.ofList part)

/-- The path with a text. -/
def ofText (text : String) : Pathname :=
  match text.toList with
  | '/' :: rest => ⟨true, splitText rest⟩
  | chars => ⟨false, splitText chars⟩

theorem toList_text_splitText (chars : List Char) :
    (String.intercalate "/" ((splitText chars).map Component.text)).toList = chars := by
  rw [String.toList_intercalate, splitText, List.map_map, List.map_map]
  have hparts : (String.toList ∘ Component.text) ∘ (fun part => .ofText (.ofList part)) =
      (id : List Char → List Char) := by
    funext part
    simp
  rw [hparts, List.map_id]
  exact List.intercalate_splitOn '/'

@[simp]
theorem text_ofText (text : String) : (ofText text).text = text := by
  refine String.toList_inj.mp ?_
  unfold ofText Pathname.text
  split
  · next rest heq =>
    rw [String.toList_append, toList_text_splitText, heq]
    simp
  · rw [String.toList_append, toList_text_splitText]
    simp

theorem ofText_injective : Function.Injective ofText :=
  Function.LeftInverse.injective text_ofText

theorem splitText_intercalate {cs : List Component} (hne : cs ≠ [])
    (hnames : ∀ n, .name n ∈ cs → IsName n) :
    splitText (String.intercalate "/" (cs.map Component.text)).toList = cs := by
  have hplain : ∀ part ∈ (cs.map Component.text).map String.toList, '/' ∉ part := by
    intro part hpart
    obtain ⟨_, htext, rfl⟩ := List.mem_map.mp hpart
    obtain ⟨c, hc, rfl⟩ := List.mem_map.mp htext
    cases c with
    | empty | current | parent => decide
    | name n => exact (hnames n hc).plain
  rw [String.toList_intercalate, splitText]
  have hsep : "/".toList = ['/'] := rfl
  rw [hsep, List.splitOn_intercalate '/' hplain (by simpa using hne), List.map_map, List.map_map]
  refine (List.map_congr_left fun c hc => ?_).trans (List.map_id cs)
  simp only [Function.comp, String.ofList_toList]
  exact Component.ofText_text fun n hn => hnames n (hn ▸ hc)

theorem ofText_eq_rooted {text : String} {rest : List Char} (h : text.toList = '/' :: rest) :
    ofText text = ⟨true, splitText rest⟩ := by
  unfold ofText
  rw [h]
  rfl

theorem ofText_eq_relative {text : String} (h : text.toList.head? ≠ some '/') :
    ofText text = ⟨false, splitText text.toList⟩ := by
  unfold ofText
  split
  · next rest heq =>
    rw [heq] at h
    exact absurd rfl h
  · rfl

theorem head_intercalate {c : Component} (cs : List Component) (hc : c ≠ .empty)
    (hname : ∀ n, c = .name n → IsName n) :
    (String.intercalate "/" ((c :: cs).map Component.text)).toList.head? ≠ some '/' := by
  have hhead : c.text.toList ≠ [] ∧ c.text.toList.head? ≠ some '/' := by
    cases c with
    | empty => exact absurd rfl hc
    | current | parent => exact ⟨by decide, by decide⟩
    | name n =>
      obtain ⟨hempty, -, -, hplain⟩ := hname n rfl
      refine ⟨fun h => hempty (String.toList_inj.mp h), fun h => hplain ?_⟩
      exact List.mem_of_mem_head? h
  rw [String.toList_intercalate, List.map_cons, List.map_cons]
  obtain ⟨a, as, ha⟩ := List.exists_cons_of_ne_nil hhead.1
  have hne : a ≠ '/' := by
    intro h
    apply hhead.2
    rw [ha, h]
    rfl
  rw [ha]
  cases cs with
  | nil => simpa using hne
  | cons d cs => simpa using hne

/-- **A path is read off its text**, if it has components and the first one of a relative path is
not empty. -/
theorem ofText_text {p : Pathname} (hne : p.components ≠ [])
    (hfirst : p.rooted = false → p.components.head? ≠ some .empty)
    (hnames : ∀ n, .name n ∈ p.components → IsName n) : ofText p.text = p := by
  obtain ⟨rooted, components⟩ := p
  cases rooted with
  | true =>
    have htext : (⟨true, components⟩ : Pathname).text.toList =
        '/' :: (String.intercalate "/" (components.map Component.text)).toList := by
      simp [Pathname.text]
    rw [ofText_eq_rooted htext, splitText_intercalate hne hnames]
  | false =>
    have htext : (⟨false, components⟩ : Pathname).text =
        String.intercalate "/" (components.map Component.text) := by
      simp [Pathname.text]
    obtain ⟨c, cs, rfl⟩ := List.exists_cons_of_ne_nil hne
    have hc : c ≠ .empty := fun h => hfirst rfl (congrArg some h)
    have hhead := head_intercalate cs hc fun n hn => hnames n (hn ▸ List.mem_cons_self)
    rw [htext, ofText_eq_relative hhead, splitText_intercalate hne hnames]

theorem notMem_of_mem_splitOn {sep : Char} {chars : List Char} :
    ∀ part ∈ chars.splitOn sep, sep ∉ part := by
  induction chars with
  | nil => simp
  | cons c chars ih =>
    rw [List.splitOn_cons_eq_if_modifyHead]
    obtain ⟨first, parts, hparts⟩ := List.exists_cons_of_ne_nil (List.splitOn_ne_nil sep chars)
    rw [hparts] at ih ⊢
    split_ifs with hc
    · rintro part (_ | ⟨_, hpart⟩)
      · simp
      · exact ih part hpart
    · -- a character other than the separator joins the first part
      rintro part (_ | ⟨_, hpart⟩)
      · have hne : sep ≠ c := fun h => hc (by simp [h])
        exact List.not_mem_cons_of_ne_of_not_mem hne (ih first List.mem_cons_self)
      · exact ih part (List.mem_cons_of_mem _ hpart)

theorem isName_of_mem_ofText {text n : String} (h : .name n ∈ (ofText text).components) :
    IsName n := by
  have hsplit : ∀ chars : List Char, .name n ∈ splitText chars → IsName n := by
    intro chars hmem
    obtain ⟨part, hpart, hn⟩ := List.mem_map.mp hmem
    unfold Component.ofText at hn
    split_ifs at hn with hempty hcurrent hparent
    obtain rfl := Component.name.inj hn
    refine ⟨hempty, hcurrent, hparent, ?_⟩
    rw [String.toList_ofList]
    exact notMem_of_mem_splitOn part hpart
  unfold ofText at h
  split at h
  · exact hsplit _ h
  · exact hsplit _ h

end Pathname

import Mathlib.Data.List.DropRight
import Lecrev.Domain.Types
import Lecrev.ToMathlib.String

/-!
# Texts

The functions of Go's `strings` package that several packages of the platform use, and the bytes of
a text.
-/

namespace Lecrev

/-- `unicode.IsSpace`. -/
def isSpace (c : Char) : Bool :=
  (0x09 ≤ c.toNat && c.toNat ≤ 0x0d) || (0x2000 ≤ c.toNat && c.toNat ≤ 0x200a) ||
    c.toNat ∈ [0x20, 0x85, 0xa0, 0x1680, 0x2028, 0x2029, 0x202f, 0x205f, 0x3000]

/-- `strings.TrimSpace`. -/
def trimSpace (s : String) : String :=
  .ofList ((s.toList.dropWhile isSpace).reverse.dropWhile isSpace).reverse

theorem toList_trimSpace (s : String) :
    (trimSpace s).toList = (s.toList.dropWhile isSpace).rdropWhile isSpace := by
  rw [trimSpace, String.toList_ofList]
  rfl

@[simp]
theorem trimSpace_trimSpace (s : String) : trimSpace (trimSpace s) = trimSpace s := by
  refine String.toList_inj.mp ?_
  rw [toList_trimSpace, toList_trimSpace]
  -- what is dropped at the back does not change the front
  have hfront : ∀ l : List Char, l.dropWhile isSpace = l →
      (l.rdropWhile isSpace).dropWhile isSpace = l.rdropWhile isSpace := by
    intro l hl
    obtain ⟨rest, hrest⟩ := List.rdropWhile_prefix isSpace (l := l)
    cases hback : l.rdropWhile isSpace with
    | nil => rfl
    | cons c back =>
      rw [← hrest, hback] at hl
      have hc : ¬ isSpace c := List.dropWhile_eq_self_iff.mp hl (Nat.zero_lt_succ _)
      exact List.dropWhile_cons_of_neg hc
  rw [hfront _ (List.dropWhile_idempotent _ _), List.rdropWhile_idempotent]

theorem trimSpace_eq_self {s : String} (h : ∀ c ∈ s.toList, isSpace c = false) :
    trimSpace s = s := by
  refine String.toList_inj.mp ?_
  have hfront : s.toList.dropWhile isSpace = s.toList := by
    refine List.dropWhile_eq_self_iff.mpr fun hlength => ?_
    rw [h _ (List.getElem_mem hlength)]
    exact Bool.false_ne_true
  rw [toList_trimSpace, hfront, List.rdropWhile_eq_self_iff]
  intro hne
  rw [h _ (List.getLast_mem hne)]
  exact Bool.false_ne_true

theorem isSpace_or_mem_trimSpace {s : String} {c : Char} (h : c ∈ s.toList) :
    isSpace c ∨ c ∈ (trimSpace s).toList := by
  rw [toList_trimSpace]
  rw [← List.takeWhile_append_dropWhile (p := isSpace) (l := s.toList), List.mem_append] at h
  obtain hfront | hrest := h
  · exact .inl (List.mem_takeWhile_imp hfront)
  · rw [← List.rdropWhile_append_rtakeWhile (p := isSpace)
      (l := s.toList.dropWhile isSpace), List.mem_append] at hrest
    exact hrest.symm.imp_left List.mem_rtakeWhile_imp

/-- The representative of a character under simple case folding, among the characters that fold to
an ASCII letter: the long s and the Kelvin sign are the two that are not ASCII themselves. -/
def foldCase (c : Char) : Char :=
  if c.toNat = 0x17f then 's' else if c.toNat = 0x212a then 'k' else c.toLower

/-- `strings.EqualFold(s, word)`, for a word of lower-case ASCII letters. -/
def equalFold (s word : String) : Bool := s.toList.map foldCase == word.toList

/-- The bytes of a text. -/
def textBytes (text : String) : Bytes := text.toUTF8.toList

@[simp]
theorem length_textBytes (text : String) : (textBytes text).length = text.utf8ByteSize := by
  rw [textBytes, ByteArray.toList_eq_toList_data]
  rfl

theorem utf8ByteSize_trimSpace_le (text : String) :
    (trimSpace text).utf8ByteSize ≤ text.utf8ByteSize := by
  apply String.utf8ByteSize_le_of_sublist
  rw [toList_trimSpace]
  exact (List.rdropWhile_prefix _ _).sublist.trans (List.dropWhile_suffix _).sublist

/-- The bytes are those of a text. -/
def ValidUTF8 (bytes : Bytes) : Prop := bytes.toByteArray.IsValidUTF8

theorem validUTF8_textBytes (text : String) : ValidUTF8 (textBytes text) := by
  rw [ValidUTF8, textBytes, ByteArray.toByteArray_toList]
  exact text.isValidUTF8

theorem validUTF8_take_iff {text : String} {k : ℕ} (hk : k ≤ text.utf8ByteSize) :
    ValidUTF8 ((textBytes text).take k) ↔ String.Pos.Raw.IsValid text ⟨k⟩ := by
  rw [ValidUTF8, textBytes, ByteArray.toByteArray_take,
    String.Pos.Raw.isValid_iff_isValidUTF8_extract_zero]
  exact (and_iff_right hk).symm

end Lecrev

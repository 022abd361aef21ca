import Mathlib.Algebra.GroupWithZero.Nat
import Mathlib.Algebra.Order.BigOperators.Group.List
import Mathlib.Algebra.Order.Group.Nat

/-!
# Bytes of texts

The bytes of a byte array as a list, and the number of bytes of a text.
-/

theorem ByteArray.toList_loop_eq (bs : ByteArray) (i : ℕ) (r : List UInt8) :
    ByteArray.toList.loop bs i r = r.reverse ++ bs.data.toList.drop i := by
  fun_induction ByteArray.toList.loop bs i r with
  | case1 i r h ih =>
    have hi : i < bs.data.toList.length := h
    have hget : bs.get! i = bs.data.toList[i] := getElem!_pos bs.data i h
    rw [ih, List.reverse_cons, List.append_assoc, List.drop_eq_getElem_cons hi, hget]
    rfl
  | case2 i r h =>
    have hi : bs.data.toList.length ≤ i := Nat.le_of_not_lt h
    rw [List.drop_eq_nil_of_le hi, List.append_nil]

theorem ByteArray.toList_eq_toList_data (bs : ByteArray) : bs.toList = bs.data.toList := by
  rw [ByteArray.toList, ByteArray.toList_loop_eq]
  rfl

theorem ByteArray.toByteArray_toList (bs : ByteArray) : bs.toList.toByteArray = bs := by
  apply ByteArray.ext
  rw [List.data_toByteArray, toList_eq_toList_data]

theorem ByteArray.toByteArray_take (bs : ByteArray) (k : ℕ) :
    (bs.toList.take k).toByteArray = bs.extract 0 k := by
  apply ByteArray.ext
  rw [List.data_toByteArray, ByteArray.data_extract, toList_eq_toList_data]
  apply Array.ext'
  simp

namespace String

theorem utf8ByteSize_ofList_cons (c : Char) (cs : List Char) :
    (ofList (c :: cs)).utf8ByteSize = c.utf8Size + (ofList cs).utf8ByteSize := by
  have hsplit : ofList (c :: cs) = singleton c ++ ofList cs := by
    rw [singleton_eq_ofList, ← ofList_append]
    rfl
  rw [hsplit, utf8ByteSize_append, utf8ByteSize_singleton]

theorem utf8ByteSize_eq_sum (s : String) :
    s.utf8ByteSize = (s.toList.map Char.utf8Size).sum := by
  obtain ⟨cs, rfl⟩ : ∃ cs, s = ofList cs := ⟨s.toList, ofList_toList.symm⟩
  rw [toList_ofList]
  induction cs with
  | nil => rfl
  | cons c cs ih => rw [utf8ByteSize_ofList_cons, ih, List.map_cons, List.sum_cons]

theorem utf8ByteSize_ofList_replicate (n : ℕ) (c : Char) :
    (ofList (List.replicate n c)).utf8ByteSize = n * c.utf8Size := by
  rw [utf8ByteSize_eq_sum, toList_ofList, List.map_replicate, List.sum_replicate_nat]

theorem utf8ByteSize_le_of_sublist {s t : String} (h : s.toList.Sublist t.toList) :
    s.utf8ByteSize ≤ t.utf8ByteSize := by
  rw [utf8ByteSize_eq_sum, utf8ByteSize_eq_sum]
  exact (h.map _).sum_le_sum fun _ _ => Nat.zero_le _

theorem utf8ByteSize_le_four_mul_length (s : String) : s.utf8ByteSize ≤ 4 * s.length := by
  have hsum : ∀ cs : List Char, (cs.map Char.utf8Size).sum ≤ 4 * cs.length := by
    intro cs
    induction cs with
    | nil => exact Nat.le_refl 0
    | cons c cs ih =>
      have hc := c.utf8Size_le_four
      rw [List.map_cons, List.sum_cons, List.length_cons]
      omega
  rw [utf8ByteSize_eq_sum, ← length_toList]
  exact hsum s.toList

end String

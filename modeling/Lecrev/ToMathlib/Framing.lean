import Mathlib.Data.List.Basic

/-!
# Delimited records

A text is a sequence of records, each ended by a delimiter, and a rest without one.
-/

namespace Framing

variable {α : Type} {d : α}

/-- The text consists of the records, each followed by the delimiter, and the rest. -/
structure Splits (d : α) (text : List α) (records : List (List α)) (rest : List α) : Prop where
  text_eq : text = (records.flatMap fun record => record ++ [d]) ++ rest
  records : ∀ record ∈ records, d ∉ record
  rest : d ∉ rest

namespace Splits

variable {text more rest rest' : List α} {records records' : List (List α)}

theorem of_notMem (h : d ∉ text) : Splits d text [] text where
  text_eq := rfl
  records _ hrecord := by cases hrecord
  rest := h

theorem cons {record : List α} (hrecord : d ∉ record) (h : Splits d text records rest) :
    Splits d (record ++ d :: text) (record :: records) rest where
  text_eq := by
    rw [h.text_eq, List.flatMap_cons, List.append_assoc, List.append_assoc, List.singleton_append]
  records r hr := by
    rcases List.mem_cons.mp hr with rfl | hr
    · exact hrecord
    · exact h.records r hr
  rest := h.rest

theorem append (h : Splits d text records rest) (h' : Splits d (rest ++ more) records' rest') :
    Splits d (text ++ more) (records ++ records') rest' where
  text_eq := by
    rw [h.text_eq, List.append_assoc, h'.text_eq, List.flatMap_append, List.append_assoc]
  records r hr := by
    rcases List.mem_append.mp hr with hr | hr
    · exact h.records r hr
    · exact h'.records r hr
  rest := h'.rest

theorem splitOn_eq [DecidableEq α] (h : Splits d text records rest) :
    text.splitOn d = records ++ [rest] := by
  induction records generalizing text with
  | nil => rw [h.text_eq, List.flatMap_nil, List.nil_append, List.splitOn_eq_singleton h.rest]; rfl
  | cons record records ih =>
    have hlater : Splits d ((records.flatMap fun r => r ++ [d]) ++ rest) records rest :=
      ⟨rfl, fun r hr => h.records r (List.mem_cons_of_mem record hr), h.rest⟩
    rw [h.text_eq, List.flatMap_cons, List.append_assoc, List.append_assoc, List.singleton_append,
      List.splitOn_append_cons_self_of_not_mem (h.records record List.mem_cons_self), ih hlater]
    rfl

end Splits

end Framing

import Mathlib.Data.List.Basic

/-!
# Bounded first-in first-out buffers

`Fifo α n` is a buffer for at most `n` elements. `offer` puts an element at the back when there is
room, as a non-blocking send on a buffered channel does; `take` removes the element at the front.
-/

/-- A buffer for at most `capacity` elements, the oldest first. -/
structure Fifo (α : Type) (capacity : ℕ) where
  /-- The elements of the buffer. -/
  toList : List α
  length_le : toList.length ≤ capacity

namespace Fifo

variable {α : Type} {n : ℕ}

/-- The empty buffer. -/
def empty : Fifo α n where
  toList := []
  length_le := Nat.zero_le n

@[simp]
theorem toList_empty : (empty : Fifo α n).toList = [] := rfl

/-- There is room for another element. -/
def HasRoom (q : Fifo α n) : Prop := q.toList.length < n

instance (q : Fifo α n) : Decidable q.HasRoom := inferInstanceAs (Decidable (_ < n))

/-- Put an element at the back, if there is room. -/
def offer (q : Fifo α n) (x : α) : Option (Fifo α n) :=
  if h : q.HasRoom then
    some ⟨q.toList ++ [x], by rw [List.length_append, List.length_singleton]; exact h⟩
  else none

/-- Remove the element at the front, if there is one. -/
def take : Fifo α n → Option (α × Fifo α n)
  | ⟨[], _⟩ => none
  | ⟨x :: xs, h⟩ => some (x, ⟨xs, (Nat.le_of_succ_le h)⟩)

theorem offer_eq_none_iff {q : Fifo α n} {x : α} : q.offer x = none ↔ ¬ q.HasRoom := by
  rw [offer]
  split_ifs with h
  · simpa using h
  · simpa using h

theorem hasRoom_of_offer {q q' : Fifo α n} {x : α} (h : q.offer x = some q') : q.HasRoom := by
  by_contra hroom
  rw [offer_eq_none_iff.mpr hroom] at h
  cases h

theorem toList_of_offer {q q' : Fifo α n} {x : α} (h : q.offer x = some q') :
    q'.toList = q.toList ++ [x] := by
  rw [offer, dif_pos (hasRoom_of_offer h)] at h
  exact (congrArg toList (Option.some.inj h)).symm

theorem toList_of_take {q q' : Fifo α n} {x : α} (h : q.take = some (x, q')) :
    q.toList = x :: q'.toList := by
  obtain ⟨_ | ⟨y, ys⟩, hlength⟩ := q
  · cases h
  · cases h
    rfl

end Fifo

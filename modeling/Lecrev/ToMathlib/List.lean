import Mathlib.Data.List.Basic
import Mathlib.Data.List.Forall2

/-!
# Lists cut into pieces

`List.slices n l` are the slices `l[0:n]`, `l[n:2n]`, ... of a loop that advances an offset by `n`
until it reaches the end of `l`.

A list that ends at the first occurrence of a delimiter can be told from what follows it.
-/

theorem Except.bind_eq_ok_iff {ε α β : Type} {x : Except ε α} {f : α → Except ε β} {b : β} :
    x >>= f = .ok b ↔ ∃ a, x = .ok a ∧ f a = .ok b := by
  cases x with
  | error e => simp [bind, Except.bind]
  | ok a => simp [bind, Except.bind]

theorem Except.mapError_eq_ok_iff {ε ε' α : Type} {f : ε → ε'} {x : Except ε α} {a : α} :
    x.mapError f = .ok a ↔ x = .ok a := by
  cases x with
  | error e => simp [Except.mapError]
  | ok a => simp [Except.mapError]

namespace List

variable {α : Type}

/-- A part of a list that does not reach beyond `before` to the element after it is `before`. -/
theorem eq_of_prefix_of_notMem {before known all : List α} {a : α} (hbefore : before <+: known)
    (hknown : known <+: all) (hall : before ++ [a] <+: all) (ha : a ∉ known) : known = before := by
  have hlength : known.length ≤ before.length := by
    by_contra hlt
    have hlt' : (before ++ [a]).length ≤ known.length := by simp; omega
    exact ha ((prefix_of_prefix_length_le hall hknown hlt').subset (by simp))
  exact (hbefore.eq_of_length_le hlength).symm

theorem snoc_prefix_of_mem {before known all : List α} {a : α} (hnodup : all.Nodup)
    (hknown : known <+: all) (hall : before ++ [a] <+: all) (ha : a ∈ known) :
    before ++ [a] <+: known := by
  have hnotMem : a ∉ before := fun hmem =>
    (nodup_append.mp (hall.sublist.nodup hnodup)).2.2 a hmem a (by simp) rfl
  by_contra hshort
  have hlength : known.length ≤ before.length := by
    by_contra hlt
    exact hshort (prefix_of_prefix_length_le hall hknown (by simp; omega))
  have hbefore := prefix_of_prefix_length_le hknown ((prefix_append _ _).trans hall) hlength
  exact hnotMem (hbefore.subset ha)

/-- The slices of a list at the offsets `0`, `n`, `2 * n`, ... below its length. -/
def slices (n : ℕ) (l : List α) : List (List α) :=
  (range ((l.length + n - 1) / n)).map fun k => (l.drop (k * n)).take n

/-! ## Walks that may fail -/

theorem forM_eq_ok_iff {ε : Type} {f : α → Except ε Unit} {l : List α} :
    l.forM f = .ok () ↔ ∀ a ∈ l, f a = .ok () := by
  induction l with
  | nil => simp [pure, Except.pure]
  | cons a l ih =>
    have hcons : (a :: l).forM f = f a >>= fun _ => l.forM f := rfl
    rw [forall_mem_cons, ← ih, hcons]
    cases f a with
    | error e => simp [bind, Except.bind]
    | ok u => simp [bind, Except.bind]

theorem forall₂_of_mapM_eq_ok {ε β : Type} {f : α → Except ε β} {l : List α} {bs : List β}
    (h : l.mapM f = .ok bs) : Forall₂ (fun a b => f a = .ok b) l bs := by
  induction l generalizing bs with
  | nil =>
    obtain rfl : [] = bs := Except.ok.inj h
    exact .nil
  | cons a l ih =>
    rw [mapM_cons] at h
    obtain ⟨b, hb, h⟩ := Except.bind_eq_ok_iff.mp h
    obtain ⟨rest, hrest, h⟩ := Except.bind_eq_ok_iff.mp h
    obtain rfl : b :: rest = bs := Except.ok.inj h
    exact .cons hb (ih hrest)

theorem Forall₂.comp {β γ : Type} {R : α → β → Prop} {S : β → γ → Prop} {l : List α} {m : List β}
    {n : List γ} (hR : Forall₂ R l m) (hS : Forall₂ S m n) :
    Forall₂ (fun a c => ∃ b, R a b ∧ S b c) l n := by
  induction hR generalizing n with
  | nil =>
    cases hS
    exact .nil
  | cons hab _ ih =>
    cases hS with
    | cons hbc hrest => exact .cons ⟨_, hab, hbc⟩ (ih hrest)

theorem Forall₂.exists_of_mem_left {β : Type} {R : α → β → Prop} {l : List α} {m : List β}
    (h : Forall₂ R l m) : ∀ a ∈ l, ∃ b ∈ m, R a b := by
  induction h with
  | nil => simp
  | @cons a b l m hab _ ih =>
    rintro x (_ | ⟨_, hx⟩)
    · exact ⟨b, mem_cons_self, hab⟩
    · obtain ⟨y, hy, hxy⟩ := ih x hx
      exact ⟨y, mem_cons_of_mem b hy, hxy⟩

theorem Forall₂.exists_of_mem_right {β : Type} {R : α → β → Prop} {l : List α} {m : List β}
    (h : Forall₂ R l m) : ∀ b ∈ m, ∃ a ∈ l, R a b :=
  (Forall₂.flip (R := fun b a => R a b) h).exists_of_mem_left

theorem mapM_eq_ok {ε β : Type} {f : α → Except ε β} {l : List α} {bs : List β}
    (h : l.mapM f = .ok bs) :
    (∀ a ∈ l, ∃ b ∈ bs, f a = .ok b) ∧ ∀ b ∈ bs, ∃ a ∈ l, f a = .ok b :=
  ⟨(forall₂_of_mapM_eq_ok h).exists_of_mem_left, (forall₂_of_mapM_eq_ok h).exists_of_mem_right⟩

theorem exists_mapM_eq_ok {ε β : Type} {f : α → Except ε β} {l : List α}
    (h : ∀ a ∈ l, ∃ b, f a = .ok b) : ∃ bs, l.mapM f = .ok bs := by
  induction l with
  | nil => exact ⟨[], rfl⟩
  | cons a l ih =>
    obtain ⟨hhead, htail⟩ := forall_mem_cons.mp h
    obtain ⟨b, hb⟩ := hhead
    obtain ⟨bs, hbs⟩ := ih htail
    refine ⟨b :: bs, ?_⟩
    rw [mapM_cons, hb, hbs]
    rfl

theorem append_delimiter_inj {d : α} {a a' b b' : List α} (ha : d ∉ a) (ha' : d ∉ a') :
    a ++ d :: b = a' ++ d :: b' ↔ a = a' ∧ b = b' := by
  induction a generalizing a' with
  | nil =>
    cases a' with
    | nil => simp
    | cons x a' =>
      have hne : d ≠ x := fun h => ha' (h ▸ mem_cons_self)
      simp [hne]
  | cons x a ih =>
    have hxd : x ≠ d := fun h => ha (h ▸ mem_cons_self)
    cases a' with
    | nil => simp [hxd]
    | cons y a' =>
      rw [cons_append, cons_append, cons.injEq, ih (not_mem_of_not_mem_cons ha)
        (not_mem_of_not_mem_cons ha'), cons.injEq, and_assoc]

theorem prefix_delimiter {d : α} {a a' b b' : List α} (ha : d ∉ a) (ha' : d ∉ a')
    (h : a ++ d :: b <+: a' ++ d :: b') : a = a' ∧ b <+: b' := by
  obtain ⟨rest, hrest⟩ := h
  rw [append_assoc, cons_append, append_delimiter_inj ha ha'] at hrest
  exact ⟨hrest.1, rest, hrest.2⟩

end List

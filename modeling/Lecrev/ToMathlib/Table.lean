import Mathlib.Data.List.AList
import Mathlib.Data.List.Perm.Subperm

/-!
# Tables keyed by a field of their records

A `Table α` is a finite map in which every record is stored under its own key, as in a Go map
`m[record.ID] = record`. It is Mathlib's `AList` together with the proof that the keys agree, so a
record stored under a foreign key cannot be built.
-/

/-- Records of type `α` carry their key of type `κ`. -/
class Keyed (α : Type) (κ : outParam Type) where
  /-- The key of a record. -/
  key : α → κ

/-- A finite map from keys to records in which every record is stored under its own key. -/
structure Table (α : Type) {κ : Type} [DecidableEq κ] [Keyed α κ] where
  /-- The underlying association list. -/
  toAList : AList (fun _ : κ => α)
  /-- Every record is stored under its own key. -/
  keyed : ∀ k v, toAList.lookup k = some v → Keyed.key v = k

namespace Table

variable {α κ : Type} [DecidableEq κ] [Keyed α κ]

/-- The record stored under a key. -/
def get (t : Table α) (k : κ) : Option α := t.toAList.lookup k

theorem key_of_get {t : Table α} {k : κ} {v : α} (h : t.get k = some v) : Keyed.key v = k :=
  t.keyed k v h

/-- The table without entries. -/
def empty : Table α where
  toAList := ∅
  keyed := by simp

/-- Store a record under its key, replacing what was there. -/
def put (t : Table α) (v : α) : Table α where
  toAList := t.toAList.insert (Keyed.key v) v
  keyed := by
    intro k w h
    by_cases hk : k = Keyed.key v
    · subst hk
      rw [AList.lookup_insert] at h
      cases h
      rfl
    · rw [AList.lookup_insert_ne hk] at h
      exact t.keyed k w h

@[simp]
theorem get_put (t : Table α) (v : α) (k : κ) :
    (t.put v).get k = if k = Keyed.key v then some v else t.get k := by
  by_cases hk : k = Keyed.key v
  · subst hk
    rw [get, put, AList.lookup_insert, if_pos rfl]
  · rw [get, put, AList.lookup_insert_ne hk, if_neg hk, get]

theorem get_put_of_key (t : Table α) {v : α} {k : κ} (h : Keyed.key v = k) :
    (t.put v).get k = some v := by
  rw [get_put, if_pos h.symm]

theorem get_put_of_ne (t : Table α) {v : α} {k : κ} (h : k ≠ Keyed.key v) :
    (t.put v).get k = t.get k := by
  rw [get_put, if_neg h]

/-- Remove the record stored under a key. -/
def erase (t : Table α) (k : κ) : Table α where
  toAList := t.toAList.erase k
  keyed := by
    intro k' w h
    by_cases hk : k' = k
    · subst hk
      rw [AList.lookup_erase] at h
      cases h
    · rw [AList.lookup_erase_ne hk] at h
      exact t.keyed k' w h

@[simp]
theorem get_erase (t : Table α) (k k' : κ) :
    (t.erase k).get k' = if k' = k then none else t.get k' := by
  by_cases hk : k' = k
  · subst hk
    rw [get, erase, AList.lookup_erase, if_pos rfl]
  · rw [get, erase, AList.lookup_erase_ne hk, if_neg hk, get]

/-- Keep the records that satisfy a predicate. -/
def filter (t : Table α) (p : α → Bool) : Table α where
  toAList :=
    { entries := t.toAList.entries.filter fun e => p e.2
      nodupKeys := t.toAList.nodupKeys.sublist List.filter_sublist }
  keyed := by
    intro k v h
    rw [← Option.mem_def, AList.mem_lookup_iff] at h
    exact t.keyed k v (AList.mem_lookup_iff.mpr (List.mem_of_mem_filter h))

theorem get_filter_eq_some (t : Table α) (p : α → Bool) {k : κ} {v : α} :
    (t.filter p).get k = some v ↔ t.get k = some v ∧ p v = true := by
  have hmem : (⟨k, v⟩ : Sigma fun _ : κ => α) ∈ t.toAList.entries.filter (fun e => p e.2) ↔
      (⟨k, v⟩ : Sigma fun _ : κ => α) ∈ t.toAList.entries ∧ p v = true := List.mem_filter
  exact AList.mem_lookup_iff.trans (hmem.trans (and_congr_left' AList.mem_lookup_iff.symm))

theorem get_filter_of_forall (t : Table α) {p : α → Bool} {k : κ}
    (h : ∀ v, t.get k = some v → p v = true) : (t.filter p).get k = t.get k :=
  Option.ext fun v => (get_filter_eq_some t p).trans (and_iff_left_of_imp (h v))

theorem get_foldl_put_of_ne {vs : List α} {k : κ} (h : ∀ v ∈ vs, Keyed.key v ≠ k) (t : Table α) :
    (vs.foldl put t).get k = t.get k := by
  induction vs generalizing t with
  | nil => rfl
  | cons v vs ih =>
    obtain ⟨hv, hvs⟩ := List.forall_mem_cons.mp h
    rw [List.foldl_cons, ih hvs, get_put_of_ne t hv.symm]

theorem isSome_get_foldl_put {vs : List α} {t : Table α} {k : κ}
    (h : (∃ v ∈ vs, Keyed.key v = k) ∨ (t.get k).isSome) : ((vs.foldl put t).get k).isSome := by
  induction vs generalizing t with
  | nil =>
    obtain ⟨_, hmem, -⟩ | h := h
    · cases hmem
    · exact h
  | cons v vs ih =>
    refine ih ?_
    by_cases hk : k = Keyed.key v
    · refine .inr ?_
      rw [get_put_of_key t hk.symm]
      rfl
    · rw [get_put_of_ne t hk]
      refine h.imp_left ?_
      rintro ⟨v', hmem, hkey⟩
      obtain rfl | hmem := List.mem_cons.mp hmem
      · exact absurd hkey.symm hk
      · exact ⟨v', hmem, hkey⟩

theorem of_get_foldl_put {vs : List α} {t : Table α} {k : κ} {v : α}
    (h : (vs.foldl put t).get k = some v) : v ∈ vs ∨ t.get k = some v := by
  induction vs generalizing t with
  | nil => exact .inr h
  | cons u vs ih =>
    obtain hmem | hget := ih h
    · exact .inl (List.mem_cons_of_mem u hmem)
    · rw [get_put] at hget
      split_ifs at hget
      · exact .inl (Option.some.inj hget ▸ List.mem_cons_self)
      · exact .inr hget

theorem get_foldl_put_eq_some {vs : List α} (hvs : (vs.map Keyed.key).Nodup) (t : Table α) {k : κ}
    {v : α} : (vs.foldl put t).get k = some v ↔
      v ∈ vs ∧ Keyed.key v = k ∨ (∀ u ∈ vs, Keyed.key u ≠ k) ∧ t.get k = some v := by
  induction vs generalizing t with
  | nil => simp
  | cons u vs ih =>
    obtain ⟨hu, hvs⟩ := List.nodup_cons.mp hvs
    rw [List.foldl_cons, ih hvs, get_put]
    by_cases hk : k = Keyed.key u
    · -- no later record has the key of `u`
      subst hk
      have hlater : ∀ w ∈ vs, Keyed.key w ≠ Keyed.key u := fun w hw heq =>
        hu (heq ▸ List.mem_map_of_mem hw)
      constructor
      · rintro (⟨hv, heq⟩ | ⟨-, heq⟩)
        · exact absurd heq (hlater v hv)
        · rw [if_pos rfl] at heq
          obtain rfl := Option.some.inj heq
          exact .inl ⟨List.mem_cons_self, rfl⟩
      · rintro (⟨hv, heq⟩ | ⟨hne, -⟩)
        · obtain rfl | hv := List.mem_cons.mp hv
          · exact .inr ⟨hlater, if_pos rfl⟩
          · exact absurd heq (hlater v hv)
        · exact absurd rfl (hne u List.mem_cons_self)
    · rw [if_neg hk]
      have hforall : (∀ w ∈ u :: vs, Keyed.key w ≠ k) ↔ ∀ w ∈ vs, Keyed.key w ≠ k := by
        rw [List.forall_mem_cons]
        exact and_iff_right (Ne.symm hk)
      have hmem : v ∈ u :: vs ∧ Keyed.key v = k ↔ v ∈ vs ∧ Keyed.key v = k := by
        rw [List.mem_cons]
        refine and_congr_left fun hv => or_iff_right ?_
        rintro rfl
        exact hk hv.symm
      rw [hforall, hmem]

/-- The stored records, in the order of the underlying list. -/
def values (t : Table α) : List α := t.toAList.entries.map Sigma.snd

theorem mem_values (t : Table α) (v : α) : v ∈ t.values ↔ t.get (Keyed.key v) = some v := by
  rw [values, List.mem_map]
  constructor
  · rintro ⟨⟨k, w⟩, hmem, rfl⟩
    have hk : t.toAList.lookup k = some w := AList.mem_lookup_iff.mpr hmem
    rw [get, t.keyed k w hk]
    exact hk
  · intro h
    exact ⟨⟨Keyed.key v, v⟩, AList.mem_lookup_iff.mp h, rfl⟩

theorem mem_values_of_get {t : Table α} {k : κ} {v : α} (h : t.get k = some v) :
    v ∈ t.values := by
  rw [mem_values, key_of_get h]
  exact h

omit [Keyed α κ] in
private theorem dlookup_map_snd (f : α → α) (es : List (Sigma fun _ : κ => α)) (k : κ) :
    (es.map fun e => (⟨e.1, f e.2⟩ : Sigma fun _ : κ => α)).dlookup k =
      (es.dlookup k).map f := by
  induction es with
  | nil => rfl
  | cons e es ih =>
    obtain ⟨k', v⟩ := e
    by_cases h : k = k'
    · subst h
      simp [List.dlookup_cons_eq]
    · have hes := List.dlookup_cons_ne es (⟨k', v⟩ : Sigma fun _ : κ => α) h
      rw [hes, ← ih]
      exact List.dlookup_cons_ne _ (⟨k', f v⟩ : Sigma fun _ : κ => α) h

/-- Rewrite every record, keeping its key. -/
def map (t : Table α) (f : α → α) (hf : ∀ v, Keyed.key (f v) = Keyed.key v) : Table α where
  toAList :=
    { entries := t.toAList.entries.map fun e => ⟨e.1, f e.2⟩
      nodupKeys := by
        have hkeys : (t.toAList.entries.map
            fun e => (⟨e.1, f e.2⟩ : Sigma fun _ : κ => α)).keys = t.toAList.entries.keys := by
          simp [List.keys, Function.comp_def]
        rw [List.NodupKeys, hkeys]
        exact t.toAList.nodupKeys }
  keyed := by
    intro k w h
    rw [AList.lookup, dlookup_map_snd] at h
    obtain ⟨v, hv, rfl⟩ := Option.map_eq_some_iff.mp h
    rw [hf]
    exact t.keyed k v hv

@[simp]
theorem get_map (t : Table α) (f : α → α) (hf : ∀ v, Keyed.key (f v) = Keyed.key v) (k : κ) :
    (t.map f hf).get k = (t.get k).map f :=
  dlookup_map_snd f t.toAList.entries k

theorem map_key_values_nodup (t : Table α) : (t.values.map Keyed.key).Nodup := by
  have hkeys : t.values.map Keyed.key = t.toAList.keys := by
    rw [values, List.map_map]
    refine List.map_congr_left fun entry hentry => ?_
    exact t.keyed entry.1 entry.2 (AList.mem_lookup_iff.mpr hentry)
  rw [hkeys]
  exact t.toAList.keys_nodup

theorem values_nodup (t : Table α) : t.values.Nodup := t.map_key_values_nodup.of_map

theorem countP_le_of_get {t t' : Table α} {p p' : α → Bool}
    (h : ∀ v, t'.get (Keyed.key v) = some v → p' v = true →
      t.get (Keyed.key v) = some v ∧ p v = true) :
    t'.values.countP p' ≤ t.values.countP p := by
  rw [List.countP_eq_length_filter, List.countP_eq_length_filter]
  refine (List.Nodup.subperm (t'.values_nodup.filter p') fun v hv => ?_).length_le
  rw [List.mem_filter, mem_values] at hv ⊢
  exact h v hv.1 hv.2

end Table

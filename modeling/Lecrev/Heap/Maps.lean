import Mathlib.Data.Finmap

/-!
# Maps behind references

A variable of a map type holds a reference: nil, or the address of a map that was made. Two
variables may hold the same reference, a write through one is then seen through the other, and a
write through nil panics. -/

/-- A reference to a map: nil, or the address of a map. -/
abbrev MapRef := Option ℕ

/-- The maps that were made, each at its address. -/
abbrev MapHeap (κ ν : Type) := List (Finmap fun _ : κ => ν)

/-- The list has the entries of the map, each once. A loop over a map visits such a list. -/
structure Enumerates {κ ν : Type} [DecidableEq κ] (entries : List (κ × ν))
    (m : Finmap fun _ : κ => ν) : Prop where
  nodup : (entries.map Prod.fst).Nodup
  mem_iff : ∀ key value, (key, value) ∈ entries ↔ m.lookup key = some value

namespace MapHeap

variable {κ ν : Type}

/-- The entries of a map; nil has none. -/
def read (h : MapHeap κ ν) : MapRef → Finmap fun _ : κ => ν
  | none => ∅
  | some addr => h[addr]?.getD ∅

/-- `make(map[K]V)`. -/
def make (h : MapHeap κ ν) : MapRef × MapHeap κ ν := (some h.length, h ++ [∅])

/-- The reference is nil, or that of a map that was made. -/
def Allocated (h : MapHeap κ ν) (ref : MapRef) : Prop := ∀ addr ∈ ref, addr < h.length

theorem read_set_self {h : MapHeap κ ν} {addr : ℕ} (haddr : addr < h.length)
    (m : Finmap fun _ : κ => ν) : read (h.set addr m) (some addr) = m := by
  rw [read, List.getElem?_set_self haddr]
  rfl

theorem read_append {h : MapHeap κ ν} {other : MapRef} (hother : h.Allocated other)
    (m : Finmap fun _ : κ => ν) : read (h ++ [m]) other = h.read other := by
  cases other with
  | none => rfl
  | some a => rw [read, List.getElem?_append_left (hother a rfl), read]

variable [DecidableEq κ]

/-- `ref[key] = value`, which panics if the reference is nil. -/
def write (h : MapHeap κ ν) (ref : MapRef) (key : κ) (value : ν) : Option (MapHeap κ ν) :=
  ref.map fun addr => h.set addr ((h.read (some addr)).insert key value)

/-- `for key, value := range src { ref[key] = value }`, for the entries of `src` in the order in
which they come. -/
def writeAll (ref : MapRef) : List (κ × ν) → MapHeap κ ν → Option (MapHeap κ ν)
  | [], h => some h
  | entry :: entries, h => (h.write ref entry.1 entry.2).bind (writeAll ref entries)

theorem writeAll_some {h : MapHeap κ ν} {addr : ℕ} (haddr : addr < h.length)
    (entries : List (κ × ν)) :
    writeAll (some addr) entries h =
      some (h.set addr (entries.foldl (fun m e => m.insert e.1 e.2) (h.read (some addr)))) := by
  induction entries generalizing h with
  | nil =>
    have hself : h.read (some addr) = h[addr] := by rw [read, List.getElem?_eq_getElem haddr]; rfl
    rw [writeAll, List.foldl_nil, hself, List.set_getElem_self]
  | cons entry entries ih =>
    have hstep : writeAll (some addr) (entry :: entries) h =
        writeAll (some addr) entries
          (h.set addr ((h.read (some addr)).insert entry.1 entry.2)) := rfl
    rw [hstep, ih (by rwa [List.length_set]), read_set_self haddr, List.set_set, List.foldl_cons]

theorem writeAll_none (h : MapHeap κ ν) (entries : List (κ × ν)) :
    writeAll none entries h = if entries.isEmpty then some h else none := by
  cases entries with
  | nil => rfl
  | cons entry entries => rfl

end MapHeap

section Entries

variable {κ ν : Type} [DecidableEq κ]

variable {entries : List (κ × ν)}

theorem lookup_foldl_insert_of_notMem {key : κ} (hkey : key ∉ entries.map Prod.fst)
    (m : Finmap fun _ : κ => ν) :
    (entries.foldl (fun m e => m.insert e.1 e.2) m).lookup key = m.lookup key := by
  induction entries generalizing m with
  | nil => rfl
  | cons entry entries ih =>
    rw [List.map_cons, List.mem_cons, not_or] at hkey
    rw [List.foldl_cons, ih hkey.2, Finmap.lookup_insert_of_ne _ hkey.1]

theorem lookup_foldl_insert_of_mem (hnodup : (entries.map Prod.fst).Nodup) {key : κ} {value : ν}
    (hmem : (key, value) ∈ entries) (m : Finmap fun _ : κ => ν) :
    (entries.foldl (fun m e => m.insert e.1 e.2) m).lookup key = some value := by
  induction entries generalizing m with
  | nil => cases hmem
  | cons entry entries ih =>
    rw [List.map_cons, List.nodup_cons] at hnodup
    rw [List.foldl_cons]
    obtain heq | hmem := List.mem_cons.mp hmem
    · subst heq
      rw [lookup_foldl_insert_of_notMem hnodup.1, Finmap.lookup_insert]
    · exact ih hnodup.2 hmem _

theorem foldl_insert_eq_union {m : Finmap fun _ : κ => ν} (h : Enumerates entries m)
    (m₀ : Finmap fun _ : κ => ν) :
    entries.foldl (fun m e => m.insert e.1 e.2) m₀ = m ∪ m₀ := by
  refine Finmap.ext_lookup fun key => ?_
  cases hlookup : m.lookup key with
  | some value =>
    have hmem : key ∈ m := Finmap.mem_of_lookup_eq_some hlookup
    rw [lookup_foldl_insert_of_mem h.nodup ((h.mem_iff key value).mpr hlookup),
      Finmap.lookup_union_left hmem, hlookup]
  | none =>
    have hnotMem : key ∉ entries.map Prod.fst := by
      intro hmem
      obtain ⟨⟨_, value⟩, hentry, rfl⟩ := List.mem_map.mp hmem
      rw [(h.mem_iff _ value).mp hentry] at hlookup
      cases hlookup
    rw [lookup_foldl_insert_of_notMem hnotMem,
      Finmap.lookup_union_right (Finmap.lookup_eq_none.mp hlookup)]

theorem Enumerates.isEmpty_iff {m : Finmap fun _ : κ => ν} (h : Enumerates entries m) :
    entries.isEmpty = true ↔ m = ∅ := by
  rw [List.isEmpty_iff]
  constructor
  · intro hnil
    refine Finmap.ext_lookup fun key => ?_
    rw [Finmap.lookup_empty]
    cases hlookup : m.lookup key with
    | none => rfl
    | some value =>
      have hmem := (h.mem_iff key value).mpr hlookup
      rw [hnil] at hmem
      cases hmem
  · rintro rfl
    refine List.eq_nil_iff_forall_not_mem.mpr fun entry hmem => ?_
    have hlookup := (h.mem_iff entry.1 entry.2).mp hmem
    rw [Finmap.lookup_empty] at hlookup
    cases hlookup

end Entries

import Mathlib.Order.Lattice.Nat
import Mathlib.Data.Set.Countable
import Mathlib.Data.Finset.Lattice.Fold
import Mathlib.Data.Fintype.Basic
import Lecrev.Domain.Text

/-!
# JSON in the Postgres store

`jsonb` rejects a text in which a string contains `U+0000`. `internal/store/postgres` therefore
decodes each payload, output and result, replaces the character in it and encodes it again.
-/

namespace Lecrev.Postgres

/-! ## Decoded values -/

/-- The values that `json.Unmarshal` builds in an `any`. A number is given by the bits of its
`float64`. -/
inductive Any
  | nil
  | bool (b : Bool)
  | float64 (bits : UInt64)
  | string (s : String)
  /-- `[]any`. -/
  | slice (n : ℕ) (items : Fin n → Any)
  /-- `map[string]any`. -/
  | map (keys : Finset String) (items : {key // key ∈ keys} → Any)

namespace Any

/-- The objects and arrays around the innermost value. -/
def depth : Any → ℕ
  | slice _ items => 1 + Finset.univ.sup fun i => (items i).depth
  | map _ items => 1 + Finset.univ.sup fun key => (items key).depth
  | _ => 0

/-- The exponent of a `float64` is not that of an infinity or of a NaN. -/
def isFinite (bits : UInt64) : Bool := (bits >>> 52) % 2048 ≠ 2047

/-- The number occurs in the value. -/
inductive HasNumber (bits : UInt64) : Any → Prop
  | float64 : HasNumber bits (float64 bits)
  | slice {n : ℕ} {items : Fin n → Any} (i : Fin n) (h : HasNumber bits (items i)) :
      HasNumber bits (slice n items)
  | map {keys : Finset String} {items : {key // key ∈ keys} → Any} (key : {key // key ∈ keys})
      (h : HasNumber bits (items key)) : HasNumber bits (map keys items)

/-- The text is a key of an object in the value. -/
inductive HasKey (text : String) : Any → Prop
  | key {keys : Finset String} {items : {key // key ∈ keys} → Any} (h : text ∈ keys) :
      HasKey text (map keys items)
  | slice {n : ℕ} {items : Fin n → Any} (i : Fin n) (h : HasKey text (items i)) :
      HasKey text (slice n items)
  | map {keys : Finset String} {items : {key // key ∈ keys} → Any} (key : {key // key ∈ keys})
      (h : HasKey text (items key)) : HasKey text (map keys items)

/-- The text is a string in the value that is not a key. -/
inductive HasString (text : String) : Any → Prop
  | string : HasString text (string text)
  | slice {n : ℕ} {items : Fin n → Any} (i : Fin n) (h : HasString text (items i)) :
      HasString text (slice n items)
  | map {keys : Finset String} {items : {key // key ∈ keys} → Any} (key : {key // key ∈ keys})
      (h : HasString text (items key)) : HasString text (map keys items)

/-- All strings in the value, keys or not. -/
def strings (value : Any) : Set String := {text | HasKey text value ∨ HasString text value}

end Any

/-- `maxNestingDepth` of `encoding/json`. -/
def maxNestingDepth : ℕ := 10000

/-- The values that can be decoded from some text: their numbers are finite, and they are not nested
too deeply. -/
structure Decodable (value : Any) : Prop where
  finite : ∀ bits, value.HasNumber bits → Any.isFinite bits
  depth : value.depth ≤ maxNestingDepth

/-- What the store uses of `encoding/json` and `strings`. -/
structure GoJSON where
  /-- `json.Unmarshal` into an `any`, where it succeeds. -/
  unmarshal : Bytes → Option Any
  /-- `json.Marshal`, where it succeeds. -/
  marshal : Any → Option Bytes
  /-- The strings in a JSON text, keys or not; nothing for bytes that are no JSON text. -/
  strings : Bytes → Option (Set String)
  /-- `strings.ToValidUTF8`, with `U+FFFD` as the replacement. -/
  toValidUTF8 : Bytes → String
  unmarshal_nil : unmarshal [] = none
  decodable_of_unmarshal {text : Bytes} {value : Any} :
    unmarshal text = some value → Decodable value
  /-- A value that can be decoded is encoded by a text with its strings, from which it is decoded
  again. -/
  marshal_of_decodable {value : Any} : Decodable value →
    ∃ text, marshal value = some text ∧ unmarshal text = some value ∧
      strings text = some value.strings
  marshal_nil : marshal .nil = some (textBytes "null")
  toValidUTF8_textBytes (s : String) : toValidUTF8 (textBytes s) = s

/-! ## An implementation

The values are countable, so each of them can be given a text of its own. -/

section Implementation

/-- The values whose items are in the set. -/
def Any.layer (S : Set Any) : Set Any :=
  {.nil} ∪ Set.range Any.bool ∪ Set.range Any.float64 ∪ Set.range Any.string ∪
    (⋃ n, Set.range fun items : Fin n → S => Any.slice n fun i => items i) ∪
    ⋃ keys, Set.range fun items : {key // key ∈ keys} → S => Any.map keys fun key => items key

theorem countable_string : Countable String := by
  have : Countable Char := Function.Injective.countable fun _ _ => Char.toNat_inj.mp
  exact Function.Injective.countable fun _ _ => String.toList_inj.mp

theorem Any.countable_layer {S : Set Any} (hS : S.Countable) : (layer S).Countable := by
  have : Countable S := hS.to_subtype
  have : Countable String := countable_string
  have : Countable UInt64 := Function.Injective.countable fun _ _ => UInt64.toNat_inj.mp
  have hflat := (((Set.countable_singleton Any.nil).union (Set.countable_range Any.bool)).union
    (Set.countable_range Any.float64)).union (Set.countable_range Any.string)
  exact (hflat.union (Set.countable_iUnion fun n => Set.countable_range _)).union
    (Set.countable_iUnion fun keys => Set.countable_range _)

theorem Any.countable_depth_lt (d : ℕ) : {value : Any | value.depth < d}.Countable := by
  induction d with
  | zero => exact Set.countable_empty.mono fun value h => absurd h (Nat.not_lt_zero _)
  | succ d ih =>
    refine (countable_layer ih).mono fun value h => ?_
    change value.depth < d + 1 at h
    cases value with
    | nil => exact .inl (.inl (.inl (.inl (.inl rfl))))
    | bool b => exact .inl (.inl (.inl (.inl (.inr ⟨b, rfl⟩))))
    | float64 bits => exact .inl (.inl (.inl (.inr ⟨bits, rfl⟩)))
    | string s => exact .inl (.inl (.inr ⟨s, rfl⟩))
    | slice n items =>
      have hitem (i : Fin n) : (items i).depth < d := by
        have hle := Finset.le_sup (f := fun i => (items i).depth) (Finset.mem_univ i)
        rw [depth] at h
        omega
      exact .inl (.inr (Set.mem_iUnion.mpr ⟨n, fun i => ⟨items i, hitem i⟩, rfl⟩))
    | map keys items =>
      have hitem (key : {key // key ∈ keys}) : (items key).depth < d := by
        have hle := Finset.le_sup (f := fun key => (items key).depth) (Finset.mem_univ key)
        rw [depth] at h
        omega
      exact .inr (Set.mem_iUnion.mpr ⟨keys, fun key => ⟨items key, hitem key⟩, rfl⟩)

theorem Any.countable : Countable Any := by
  have hall : (⋃ d, {value : Any | value.depth < d}) = Set.univ :=
    Set.eq_univ_of_forall fun value =>
      Set.mem_iUnion.mpr ⟨value.depth + 1, Nat.lt_succ_self value.depth⟩
  exact Set.countable_univ_iff.mp (hall ▸ Set.countable_iUnion Any.countable_depth_lt)

theorem textBytes_injective : Function.Injective textBytes := by
  intro s t h
  rw [textBytes, textBytes, ByteArray.toList_eq_toList_data, ByteArray.toList_eq_toList_data] at h
  exact String.toByteArray_inj.mp (ByteArray.ext (Array.toList_inj.mp h))

/-- The number of a value. -/
noncomputable def Any.number : Any → ℕ :=
  have : Countable Any := Any.countable
  (exists_injective_nat Any).choose

theorem Any.number_injective : Function.Injective Any.number :=
  have : Countable Any := Any.countable
  (exists_injective_nat Any).choose_spec

open Classical in
/-- The text of a value: `null`, or as many zeros as its number says. -/
noncomputable def Any.encode (value : Any) : Bytes :=
  if value = .nil then textBytes "null" else List.replicate (value.number + 1) 0

theorem Any.encode_nil : Any.nil.encode = textBytes "null" := if_pos rfl

theorem Any.encode_ne_nil (value : Any) : value.encode ≠ [] := by
  unfold encode
  split_ifs
  · decide +kernel
  · exact List.cons_ne_nil _ _

theorem Any.encode_injective : Function.Injective Any.encode := by
  -- `null` does not consist of zeros
  have hnull (n : ℕ) : textBytes "null" ≠ List.replicate n 0 := by
    intro h
    have hmem : (110 : UInt8) ∈ textBytes "null" := by decide +kernel
    rw [h] at hmem
    exact absurd (List.eq_of_mem_replicate hmem) (by decide)
  intro value value' h
  unfold encode at h
  split_ifs at h with hvalue hvalue' hvalue'
  · rw [hvalue, hvalue']
  · exact absurd h (hnull _)
  · exact absurd h.symm (hnull _)
  · have hlength := congrArg List.length h
    rw [List.length_replicate, List.length_replicate] at hlength
    exact number_injective (Nat.succ_injective hlength)

open Classical in
/-- The value of a text. -/
noncomputable def Any.decode (text : Bytes) : Option Any :=
  if h : ∃ value, Decodable value ∧ value.encode = text then some h.choose else none

theorem Any.decode_eq_some {text : Bytes} {value : Any} :
    decode text = some value ↔ Decodable value ∧ value.encode = text := by
  unfold decode
  constructor
  · intro h
    split_ifs at h with hexists
    cases h
    exact hexists.choose_spec
  · intro h
    have hexists : ∃ value, Decodable value ∧ value.encode = text := ⟨value, h⟩
    rw [dif_pos hexists]
    exact congrArg some (encode_injective (hexists.choose_spec.2.trans h.2.symm))

/-- An implementation as documented, up to what the texts look like. -/
noncomputable def numberedJSON : GoJSON where
  unmarshal := Any.decode
  marshal value := some value.encode
  strings text := (Any.decode text).map Any.strings
  toValidUTF8 := Function.invFun textBytes
  unmarshal_nil := by
    refine Option.eq_none_iff_forall_ne_some.mpr fun value h => ?_
    exact value.encode_ne_nil (Any.decode_eq_some.mp h).2
  decodable_of_unmarshal h := (Any.decode_eq_some.mp h).1
  marshal_of_decodable {value} h := by
    have hdecode := Any.decode_eq_some.mpr ⟨h, rfl⟩
    exact ⟨value.encode, rfl, hdecode, by rw [hdecode]; rfl⟩
  marshal_nil := congrArg some Any.encode_nil
  toValidUTF8_textBytes := Function.leftInverse_invFun textBytes_injective

end Implementation

section Sanitizer

variable (go : GoJSON)

/-- The character that is stored for a NUL. -/
def replaceNul (r : Char) : Char := if r = '\x00' then '�' else r

/-- `sanitizeJSONString`. -/
def sanitizeJSONString (value : Bytes) : String :=
  if value = [] then "" else (go.toValidUTF8 value).map replaceNul

/-- `sanitizeJSONValue`: values are cleaned, keys are not. -/
def sanitizeJSONValue : Any → Any
  | .string s => .string (sanitizeJSONString go (textBytes s))
  | .slice n items => .slice n fun i => sanitizeJSONValue (items i)
  | .map keys items => .map keys fun key => sanitizeJSONValue (items key)
  | value => value

/-- `normalizeRawJSON`. -/
def normalizeRawJSON (value : Bytes) : Bytes :=
  if value = [] then textBytes "null"
  else
    match go.unmarshal value with
    | none => (go.marshal (.string (sanitizeJSONString go value))).getD (textBytes "null")
    | some decoded => (go.marshal (sanitizeJSONValue go decoded)).getD (textBytes "null")

end Sanitizer

/-- The text contains `U+0000`. -/
def HasNul (text : String) : Prop := '\x00' ∈ text.toList

section Strings

variable {go : GoJSON}

theorem replaceNul_ne (r : Char) : replaceNul r ≠ '\x00' := by
  unfold replaceNul
  split_ifs with h
  · decide
  · exact h

theorem replaceNul_of_ne {r : Char} (h : r ≠ '\x00') : replaceNul r = r := if_neg h

theorem not_hasNul_sanitizeJSONString (value : Bytes) : ¬ HasNul (sanitizeJSONString go value) := by
  unfold sanitizeJSONString HasNul
  split_ifs
  · decide
  · rw [String.toList_map]
    intro h
    obtain ⟨r, -, hr⟩ := List.mem_map.mp h
    exact replaceNul_ne r hr

theorem sanitizeJSONString_of_not_hasNul {s : String} (h : ¬ HasNul s) :
    sanitizeJSONString go (textBytes s) = s := by
  unfold sanitizeJSONString
  split_ifs with hempty
  · have hsize := length_textBytes s
    rw [hempty] at hsize
    exact (String.utf8ByteSize_eq_zero_iff.mp hsize.symm).symm
  · rw [go.toValidUTF8_textBytes]
    refine String.toList_injective ?_
    rw [String.toList_map]
    refine (List.map_congr_left fun r hr => replaceNul_of_ne ?_).trans (List.map_id _)
    rintro rfl
    exact h hr

theorem sanitizeJSONString_sanitizeJSONString (value : Bytes) :
    sanitizeJSONString go (textBytes (sanitizeJSONString go value)) = sanitizeJSONString go value :=
  sanitizeJSONString_of_not_hasNul (not_hasNul_sanitizeJSONString value)

end Strings

/-! ## Values -/

section Values

variable {go : GoJSON}

theorem depth_sanitizeJSONValue (value : Any) :
    (sanitizeJSONValue go value).depth = value.depth := by
  induction value with
  | nil | bool | float64 | string => rfl
  | slice n items ih => exact congrArg (1 + ·) (Finset.sup_congr rfl fun i _ => ih i)
  | map keys items ih => exact congrArg (1 + ·) (Finset.sup_congr rfl fun key _ => ih key)

theorem hasNumber_of_sanitizeJSONValue {value : Any} {bits : UInt64}
    (h : (sanitizeJSONValue go value).HasNumber bits) : value.HasNumber bits := by
  induction value with
  | nil | bool | float64 => exact h
  | string s => cases h
  | slice n items ih =>
    cases h with
    | slice i h => exact .slice i (ih i h)
  | map keys items ih =>
    cases h with
    | map key h => exact .map key (ih key h)

theorem Decodable.sanitizeJSONValue {value : Any} (h : Decodable value) :
    Decodable (sanitizeJSONValue go value) where
  finite bits hbits := h.finite bits (hasNumber_of_sanitizeJSONValue hbits)
  depth := (depth_sanitizeJSONValue value).trans_le h.depth

theorem decodable_string (s : String) : Decodable (.string s) where
  finite _ h := by cases h
  depth := Nat.zero_le _

theorem decodable_nil : Decodable .nil where
  finite _ h := by cases h
  depth := Nat.zero_le _

theorem hasKey_sanitizeJSONValue {value : Any} {text : String} :
    (sanitizeJSONValue go value).HasKey text ↔ value.HasKey text := by
  induction value with
  | nil | bool | float64 => exact Iff.rfl
  | string s => exact ⟨(fun h => by cases h), (fun h => by cases h)⟩
  | slice n items ih =>
    constructor
    · rintro (_ | ⟨i, h⟩)
      exact .slice i ((ih i).mp h)
    · rintro (_ | ⟨i, h⟩)
      exact .slice i ((ih i).mpr h)
  | map keys items ih =>
    constructor
    · rintro (h | _ | ⟨key, h⟩)
      · exact .key h
      · exact .map key ((ih key).mp h)
    · rintro (h | _ | ⟨key, h⟩)
      · exact .key h
      · exact .map key ((ih key).mpr h)

theorem not_hasNul_of_hasString {value : Any} {text : String}
    (h : (sanitizeJSONValue go value).HasString text) : ¬ HasNul text := by
  induction value with
  | nil | bool | float64 => cases h
  | string s =>
    cases h
    exact not_hasNul_sanitizeJSONString _
  | slice n items ih =>
    cases h with
    | slice i h => exact ih i h
  | map keys items ih =>
    cases h with
    | map key h => exact ih key h

theorem sanitizeJSONValue_sanitizeJSONValue (value : Any) :
    sanitizeJSONValue go (sanitizeJSONValue go value) = sanitizeJSONValue go value := by
  induction value with
  | nil | bool | float64 => rfl
  | string s => exact congrArg Any.string (sanitizeJSONString_sanitizeJSONString _)
  | slice n items ih => exact congrArg (Any.slice n) (funext ih)
  | map keys items ih => exact congrArg (Any.map keys) (funext ih)

end Values

/-! ## The stored text -/

section Stored

variable {go : GoJSON} {value : Bytes}

/-- The value that is encoded for the bytes. -/
def storedValue (go : GoJSON) (value : Bytes) : Any :=
  if value = [] then .nil
  else
    match go.unmarshal value with
    | none => .string (sanitizeJSONString go value)
    | some decoded => sanitizeJSONValue go decoded

theorem marshal_storedValue (go : GoJSON) (value : Bytes) :
    (go.marshal (storedValue go value)).getD (textBytes "null") = normalizeRawJSON go value := by
  unfold storedValue normalizeRawJSON
  split_ifs
  · rw [go.marshal_nil]
    rfl
  · cases go.unmarshal value <;> rfl

theorem decodable_storedValue (go : GoJSON) (value : Bytes) : Decodable (storedValue go value) := by
  unfold storedValue
  split_ifs
  · exact decodable_nil
  · cases hdecoded : go.unmarshal value with
    | none => exact decodable_string _
    | some decoded => exact (go.decodable_of_unmarshal hdecoded).sanitizeJSONValue

theorem normalizeRawJSON_eq (go : GoJSON) (value : Bytes) :
    go.unmarshal (normalizeRawJSON go value) = some (storedValue go value) ∧
      go.strings (normalizeRawJSON go value) = some (storedValue go value).strings ∧
      go.marshal (storedValue go value) = some (normalizeRawJSON go value) := by
  obtain ⟨text, hmarshal, hunmarshal, hstrings⟩ :=
    go.marshal_of_decodable (decodable_storedValue go value)
  have htext := marshal_storedValue go value
  rw [hmarshal, Option.getD_some] at htext
  subst htext
  exact ⟨hunmarshal, hstrings, hmarshal⟩

theorem sanitizeJSONValue_storedValue (go : GoJSON) (value : Bytes) :
    sanitizeJSONValue go (storedValue go value) = storedValue go value := by
  unfold storedValue
  split_ifs
  · rfl
  · cases go.unmarshal value with
    | none => exact congrArg Any.string (sanitizeJSONString_sanitizeJSONString _)
    | some decoded => exact sanitizeJSONValue_sanitizeJSONValue decoded

theorem normalizeRawJSON_normalizeRawJSON (go : GoJSON) (value : Bytes) :
    normalizeRawJSON go (normalizeRawJSON go value) = normalizeRawJSON go value := by
  obtain ⟨hunmarshal, -, hmarshal⟩ := normalizeRawJSON_eq go value
  have hne : normalizeRawJSON go value ≠ [] := by
    intro hnil
    rw [hnil, go.unmarshal_nil] at hunmarshal
    cases hunmarshal
  rw [normalizeRawJSON, if_neg hne, hunmarshal]
  dsimp only
  rw [sanitizeJSONValue_storedValue, hmarshal, Option.getD_some]

theorem strings_storedValue_iff (go : GoJSON) (value : Bytes) :
    (∀ text ∈ (storedValue go value).strings, ¬ HasNul text) ↔
      ∀ decoded, go.unmarshal value = some decoded → ∀ key, decoded.HasKey key → ¬ HasNul key := by
  unfold storedValue
  split_ifs with hempty
  · rw [hempty, go.unmarshal_nil]
    refine ⟨fun _ decoded h => (by cases h), ?_⟩
    rintro - text (h | h) <;> cases h
  · cases go.unmarshal value with
    | none =>
      refine ⟨fun _ decoded h => (by cases h), ?_⟩
      rintro - text (h | h)
      · cases h
      · cases h
        exact not_hasNul_sanitizeJSONString value
    | some decoded =>
      constructor
      · rintro hstrings _ ⟨⟩ key hkey
        exact hstrings key (.inl (hasKey_sanitizeJSONValue.mpr hkey))
      · rintro hkeys text (h | h)
        · exact hkeys decoded rfl text (hasKey_sanitizeJSONValue.mp h)
        · exact not_hasNul_of_hasString h

end Stored

/-- What is stored for any bytes is a JSON text, and normalizing it again changes nothing. Its
strings are free of `U+0000` if and only if the keys of the objects decoded from the bytes are: the
keys are not sanitized. -/
theorem normalizeRawJSON_spec (go : GoJSON) (value : Bytes) :
    normalizeRawJSON go (normalizeRawJSON go value) = normalizeRawJSON go value ∧
      ∃ strings, go.strings (normalizeRawJSON go value) = some strings ∧
        ((∀ text ∈ strings, ¬ HasNul text) ↔ ∀ decoded, go.unmarshal value = some decoded →
          ∀ key, decoded.HasKey key → ¬ HasNul key) := by
  obtain ⟨-, hstrings, -⟩ := normalizeRawJSON_eq go value
  exact ⟨normalizeRawJSON_normalizeRawJSON go value, _, hstrings, strings_storedValue_iff go value⟩

/-- An object whose only key is `U+0000`. -/
def nulKey : Any := .map {"\x00"} fun _ => .nil

theorem decodable_nulKey : Decodable nulKey where
  finite bits h := by
    cases h with
    | map key h => cases h
  depth := by decide

/-- **The keys are stored as they came.** Whatever the texts look like, one that is read as this
object is stored with its key. -/
theorem not_normalizeRawJSON_free_of_nul :
    (∃ (go : GoJSON) (value : Bytes), go.unmarshal value = some nulKey) ∧
      ∀ (go : GoJSON) (value : Bytes), go.unmarshal value = some nulKey →
        ¬ ∃ strings, go.strings (normalizeRawJSON go value) = some strings ∧
          ∀ text ∈ strings, ¬ HasNul text := by
  constructor
  · obtain ⟨text, -, hunmarshal, -⟩ := numberedJSON.marshal_of_decodable decodable_nulKey
    exact ⟨numberedJSON, text, hunmarshal⟩
  · rintro go value hunmarshal ⟨strings, hstrings, hfree⟩
    obtain ⟨-, hstored, -⟩ := normalizeRawJSON_eq go value
    rw [hstored] at hstrings
    cases hstrings
    have hkey := (strings_storedValue_iff go value).mp hfree nulKey hunmarshal "\x00"
      (.key (Finset.mem_singleton_self _))
    exact hkey (show '\x00' ∈ "\x00".toList by decide +kernel)

end Lecrev.Postgres

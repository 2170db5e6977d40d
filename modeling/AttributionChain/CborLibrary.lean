import AttributionChain.CborMap
import AttributionChain.Sorting
import Mathlib.Data.List.AList

/-!
# A CBOR library as a parameter

The Go code calls a third-party codec through `EncMode.Marshal` and
`DecMode.Unmarshal`.  Its source is not part of the repository, so the codec is
a parameter here: `Library` holds the four entry points that are called, and
`Library.Conforms` states what its documentation promises about them, in terms
of the format in `CborMap.lean`.  Nothing is assumed about inputs that are not
flat maps: arrays, floats, nested maps and malformed input may decode to
anything or to an error.

A struct with `keyasint` tags is described by a `Schema`, its fields in
declaration order with key and Go type.  `reference` is one library that
conforms, so the assumptions are consistent and everything above can be run.
-/

namespace AttributionChain.Cbor

/-! ### Options -/

inductive SortMode where
  | coreDeterministic | canonical
deriving DecidableEq, Repr

/-- The part of `cbor.EncOptions` that the callers set apart. -/
structure EncOptions where
  sort : SortMode
deriving DecidableEq, Repr

/-- `cbor.CoreDetEncOptions()` -/
def coreDetEncOptions : EncOptions where
  sort := .coreDeterministic

inductive DupMapKeyMode where
  | quiet | enforcedAPF
deriving DecidableEq, Repr

inductive IndefLengthMode where
  | allowed | forbidden
deriving DecidableEq, Repr

inductive TagsMode where
  | allowed | forbidden
deriving DecidableEq, Repr

inductive ExtraDecErrorCond where
  | none | unknownField
deriving DecidableEq, Repr

inductive UTF8Mode where
  | rejectInvalid | decodeInvalid
deriving DecidableEq, Repr

inductive FieldNameMatchingMode where
  | preferCaseSensitive | caseSensitive
deriving DecidableEq, Repr

/-- `cbor.DecOptions` -/
structure DecOptions where
  dupMapKey : DupMapKeyMode
  maxNestedLevels : Nat
  maxArrayElements : Nat
  maxMapPairs : Nat
  indefLength : IndefLengthMode
  tagsMd : TagsMode
  extraReturnErrors : ExtraDecErrorCond
  utf8 : UTF8Mode
  fieldNameMatching : FieldNameMatchingMode
deriving DecidableEq, Repr

/-- The error types a decode can return, as far as callers tell them apart. -/
inductive DecodeError where
  | syntaxError
  | semanticError
  | dupMapKeyError
  | indefiniteLengthError
  | tagsMdError
  | extraneousDataError
  | unmarshalTypeError
  | unknownFieldError
  | maxNestedLevelError
  | maxArrayElementsError
  | maxMapPairsError
  | other
deriving DecidableEq, Repr

/-! ### Structs with integer keys -/

/-- The Go types of wire fields. -/
inductive FieldKind where
  | uint64 | byteSlice | string
deriving DecidableEq, Repr

def FieldKind.Value : FieldKind → Type
  | .uint64 => UInt64
  | .byteSlice => Slice
  | .string => Bytes

/-- The zero value, which a field keeps when its key is absent. -/
def FieldKind.zero : (kind : FieldKind) → kind.Value
  | .uint64 => (0 : UInt64)
  | .byteSlice => (none : Slice)
  | .string => ([] : Bytes)

/-- How a field value is written: a nil slice is `null`, a string is text. -/
def FieldKind.toScalar : (kind : FieldKind) → kind.Value → Scalar
  | .uint64, n => .uint n
  | .byteSlice, none => .null
  | .byteSlice, some content => .bytes content
  | .string, content => .text content

/-- How a scalar is stored into a field; `null` leaves the zero value. -/
def FieldKind.ofScalar : (kind : FieldKind) → Scalar → Option kind.Value
  | .uint64, .uint n => some n
  | .byteSlice, .bytes content => some (some content)
  | .string, .text content => some content
  | kind, .null => some kind.zero
  | _, _ => none

@[simp] theorem FieldKind.ofScalar_toScalar (kind : FieldKind) (value : kind.Value) :
    kind.ofScalar (kind.toScalar value) = some value := by
  cases kind with
  | uint64 => rfl
  | byteSlice => cases value <;> rfl
  | string => rfl

@[simp] theorem FieldKind.contentLength_uint64 (n : UInt64) :
    (FieldKind.toScalar .uint64 n).contentLength = 0 := rfl

@[simp] theorem FieldKind.contentLength_byteSlice (slice : Slice) :
    (FieldKind.toScalar .byteSlice slice).contentLength = slice.len := by
  cases slice <;> rfl

@[simp] theorem FieldKind.contentLength_string (content : Bytes) :
    (FieldKind.toScalar .string content).contentLength = content.length := rfl

@[simp] theorem FieldKind.utf8Valid_uint64 (n : UInt64) :
    (FieldKind.toScalar .uint64 n).utf8Valid = true := rfl

@[simp] theorem FieldKind.utf8Valid_byteSlice (slice : Slice) :
    (FieldKind.toScalar .byteSlice slice).utf8Valid = true := by
  cases slice <;> rfl

@[simp] theorem FieldKind.utf8Valid_string (content : Bytes) :
    (FieldKind.toScalar .string content).utf8Valid = validUTF8 content := rfl

/-- Keys and types of a struct's fields, in declaration order. -/
abbrev Schema := List (UInt64 × FieldKind)

def Schema.keys (schema : Schema) : List UInt64 := schema.map Prod.fst

/-- The values of a struct with the given fields. -/
def Struct : Schema → Type
  | [] => Unit
  | (_, kind) :: schema => kind.Value × Struct schema

/-- The map entries a struct is written as. -/
def structEntries : (schema : Schema) → Struct schema → List Entry
  | [], _ => []
  | (key, kind) :: schema, (value, rest) =>
    (key, kind.toScalar value) :: structEntries schema rest

/-- The value a field takes from the entries of a map. -/
def fieldOfEntries (key : UInt64) (kind : FieldKind) (entries : List Entry) :
    Option kind.Value :=
  match entries.lookup key with
  | none => some kind.zero
  | some scalar => kind.ofScalar scalar

/-- The struct that a map's entries fill. -/
def structOfEntries : (schema : Schema) → List Entry → Option (Struct schema)
  | [], _ => some ()
  | (key, kind) :: schema, entries =>
    match fieldOfEntries key kind entries, structOfEntries schema entries with
    | some value, some rest => some (value, rest)
    | _, _ => none

theorem map_fst_structEntries (schema : Schema) (struct : Struct schema) :
    (structEntries schema struct).map Prod.fst = schema.keys := by
  induction schema with
  | nil => rfl
  | cons field schema ih =>
    obtain ⟨value, rest⟩ := struct
    simp only [structEntries, List.map_cons, ih rest]
    rfl

/-- Looking up the key of an entry finds that entry when keys are distinct. -/
theorem lookup_of_mem {entries : List Entry} (hnodup : (entries.map Prod.fst).Nodup)
    {key : UInt64} {value : Scalar} (hmem : (key, value) ∈ entries) :
    entries.lookup key = some value := by
  induction entries with
  | nil => cases hmem
  | cons entry entries ih =>
    rw [List.map_cons, List.nodup_cons] at hnodup
    rcases List.mem_cons.mp hmem with rfl | htail
    · simp
    · have hne : key ≠ entry.1 := by
        intro heq
        exact hnodup.1 (heq ▸ List.mem_map_of_mem htail)
      rw [List.lookup_cons, beq_false_of_ne hne]
      exact ih hnodup.2 htail

/-- Entries that contain a struct's own entries fill that struct. -/
theorem structOfEntries_of_subset {entries : List Entry}
    (hnodup : (entries.map Prod.fst).Nodup) :
    ∀ (schema : Schema) (struct : Struct schema),
      structEntries schema struct ⊆ entries → structOfEntries schema entries = some struct := by
  intro schema
  induction schema with
  | nil => intro _ _; rfl
  | cons field schema ih =>
    intro struct hsubset
    obtain ⟨value, rest⟩ := struct
    have hfield : fieldOfEntries field.1 field.2 entries = some value := by
      rw [fieldOfEntries, lookup_of_mem hnodup (hsubset (List.mem_cons_self ..))]
      exact field.2.ofScalar_toScalar value
    have hrest : structOfEntries schema entries = some rest :=
      ih rest fun entry hentry => hsubset (List.mem_cons_of_mem _ hentry)
    rw [structOfEntries, hfield, hrest]

/-- A scalar of exactly the field's type; `null` is none. -/
def FieldKind.matches : FieldKind → Scalar → Bool
  | .uint64, .uint _ => true
  | .byteSlice, .bytes _ => true
  | .string, .text _ => true
  | _, _ => false

@[simp] theorem FieldKind.matches_uint64 (n : UInt64) :
    FieldKind.matches .uint64 (FieldKind.toScalar .uint64 n) = true := rfl

@[simp] theorem FieldKind.matches_byteSlice (slice : Slice) :
    FieldKind.matches .byteSlice (FieldKind.toScalar .byteSlice slice) = slice.isSome := by
  cases slice <;> rfl

@[simp] theorem FieldKind.matches_string (content : Bytes) :
    FieldKind.matches .string (FieldKind.toScalar .string content) = true := rfl

/-- Every field is present, in the order of the schema and with its own type. -/
def fillsSchema : Schema → List Entry → Bool
  | [], [] => true
  | (key, kind) :: schema, entry :: entries =>
    entry.1 == key && kind.matches entry.2 && fillsSchema schema entries
  | _, _ => false

/-- The input spells a struct the way the deterministic encoder does: shortest
heads, keys in schema order, every field present and none of them `null`. -/
def isDeterministic (schema : Schema) (input : Bytes) : Bool :=
  match parseMap input with
  | none => false
  | some entries => fillsSchema schema entries && hasShortestHeads input

theorem FieldKind.exists_of_matches {kind : FieldKind} {scalar : Scalar}
    (h : kind.matches scalar = true) : ∃ value, kind.toScalar value = scalar := by
  cases kind with
  | uint64 =>
    cases scalar with
    | uint n => exact ⟨n, rfl⟩
    | _ => cases h
  | byteSlice =>
    cases scalar with
    | bytes content => exact ⟨(some content : Slice), rfl⟩
    | _ => cases h
  | string =>
    cases scalar with
    | text content => exact ⟨content, rfl⟩
    | _ => cases h

theorem exists_struct_of_fillsSchema {schema : Schema} {entries : List Entry}
    (h : fillsSchema schema entries = true) :
    ∃ struct, structEntries schema struct = entries := by
  induction schema generalizing entries with
  | nil =>
    cases entries with
    | nil => exact ⟨(), rfl⟩
    | cons _ _ => cases h
  | cons field schema ih =>
    cases entries with
    | nil => cases h
    | cons entry entries =>
      simp only [fillsSchema, Bool.and_eq_true, beq_iff_eq] at h
      obtain ⟨⟨hkey, hkind⟩, hrest⟩ := h
      obtain ⟨value, hvalue⟩ := FieldKind.exists_of_matches hkind
      obtain ⟨rest, hentries⟩ := ih hrest
      refine ⟨(value, rest), ?_⟩
      rw [structEntries, hvalue, hentries, ← hkey]

theorem isDeterministic_eq_true {schema : Schema} {input : Bytes}
    (h : isDeterministic schema input = true) :
    ∃ struct, parseMap input = some (structEntries schema struct) ∧
      encodeMap (structEntries schema struct) = input := by
  unfold isDeterministic at h
  split at h
  · cases h
  · rename_i entries hparse
    rw [Bool.and_eq_true, hasShortestHeads_iff hparse] at h
    obtain ⟨struct, rfl⟩ := exists_struct_of_fillsSchema h.1
    exact ⟨struct, hparse, h.2⟩

theorem isDeterministic_encodeMap {schema : Schema} {entries : List Entry}
    (hfills : fillsSchema schema entries = true) (hcount : entries.length < 2 ^ 64)
    (hlength : (encodeMap entries).length < 2 ^ 64) :
    isDeterministic schema (encodeMap entries) = true := by
  have hparse := parseMap_encodeMap hcount (bounded_of_length_encodeMap hlength)
  simp only [isDeterministic, hparse, Bool.and_eq_true, hasShortestHeads_iff hparse, and_true]
  exact hfills

/-! ### The library and its documented behaviour -/

/-- The Go type `map[uint64]any`, for a type of decoded values. -/
abbrev AnyMap (Any : Type) := AList fun _ : UInt64 => Any

/-- The codec's entry points.  `Any` is what `any` may hold after a generic
decode, and `ofScalar` how a scalar appears there. -/
structure Library where
  Any : Type
  ofScalar : Scalar → Any
  marshalStruct : EncOptions → (schema : Schema) → Struct schema → Option Bytes
  marshalMap : EncOptions → Option (AnyMap Any) → Option Bytes
  unmarshalMap : DecOptions → Bytes → Except DecodeError (Option (AnyMap Any))
  unmarshalStruct : DecOptions → (schema : Schema) → Bytes → Except DecodeError (Struct schema)

/-- A generic map holds exactly the given flat entries. -/
def Library.Holds (lib : Library) (map : AnyMap lib.Any) (entries : List Entry) : Prop :=
  map.entries.Perm (entries.map fun entry => ⟨entry.1, lib.ofScalar entry.2⟩)

/-- Text that is not UTF-8, duplicate keys and unknown fields are errors. -/
structure DecOptions.Strict (options : DecOptions) : Prop where
  dupMapKey : options.dupMapKey = .enforcedAPF
  extraReturnErrors : options.extraReturnErrors = .unknownField
  utf8 : options.utf8 = .rejectInvalid

/-- Flat input that a decoder with the given options has no ground to reject. -/
structure Decodable (options : DecOptions) (input : Bytes) (entries : List Entry) : Prop where
  parse : parseMap input = some entries
  nesting : 1 ≤ options.maxNestedLevels
  pairs : entries.length ≤ options.maxMapPairs
  nodup : (entries.map Prod.fst).Nodup
  utf8 : ∀ entry ∈ entries, entry.2.utf8Valid = true

/-- What the codec's documentation says about flat maps.

* Core Deterministic encoding writes shortest heads and ascending keys.
* A generic decode of a flat map returns its entries.
* A struct decode stores each entry into the field with its key, whatever the
  head widths and the key order; absent keys leave zero values.
* In a strict mode, text that is not UTF-8 is an error. -/
structure Library.Conforms (lib : Library) : Prop where
  marshalStruct_eq : ∀ options schema struct, schema.keys.Pairwise (· < ·) →
    lib.marshalStruct options schema struct = some (encodeMap (structEntries schema struct))
  marshalMap_eq : ∀ options map entries, (entries.map Prod.fst).Pairwise (· < ·) →
    lib.Holds map entries → lib.marshalMap options (some map) = some (encodeMap entries)
  unmarshalMap_ok : ∀ options input entries, Decodable options input entries →
    ∃ map, lib.unmarshalMap options input = .ok (some map) ∧ lib.Holds map entries
  unmarshalStruct_ok : ∀ options schema input entries struct,
    Decodable options input entries → (∀ entry ∈ entries, entry.1 ∈ schema.keys) →
    structOfEntries schema entries = some struct →
    lib.unmarshalStruct options schema input = .ok struct
  unmarshalStruct_utf8 : ∀ options schema input entries struct,
    options.Strict → parseMap input = some entries →
    lib.unmarshalStruct options schema input = .ok struct →
    ∀ entry ∈ entries, entry.2.utf8Valid = true

/-! ### Round trips of a conforming library -/

/-- The canonical bytes of a struct, when they are short enough to be decoded. -/
theorem decodable_encodeMap {options : DecOptions} {entries : List Entry}
    (hnesting : 1 ≤ options.maxNestedLevels) (hpairs : entries.length ≤ options.maxMapPairs)
    (hkeys : (entries.map Prod.fst).Pairwise (· < ·))
    (hutf8 : ∀ entry ∈ entries, entry.2.utf8Valid = true)
    (hlength : (encodeMap entries).length < 2 ^ 64) (hcount : entries.length < 2 ^ 64) :
    Decodable options (encodeMap entries) entries where
  parse := parseMap_encodeMap hcount (bounded_of_length_encodeMap hlength)
  nesting := hnesting
  pairs := hpairs
  nodup := hkeys.imp UInt64.ne_of_lt
  utf8 := hutf8

/-- **Struct round trip.**  A conforming library decodes the canonical bytes of
a struct back into the struct. -/
theorem Library.Conforms.unmarshalStruct_encodeMap {lib : Library} (hlib : lib.Conforms)
    {options : DecOptions} {schema : Schema} {struct : Struct schema}
    (hdecodable : Decodable options (encodeMap (structEntries schema struct))
      (structEntries schema struct)) :
    lib.unmarshalStruct options schema (encodeMap (structEntries schema struct)) =
      .ok struct := by
  refine hlib.unmarshalStruct_ok options schema _ _ struct hdecodable ?_
    (structOfEntries_of_subset hdecodable.nodup schema struct (List.Subset.refl _))
  intro entry hentry
  rw [← map_fst_structEntries schema struct]
  exact List.mem_map_of_mem hentry

/-! ### A conforming library -/

/-- Entries in ascending key order, as both sort modes write unsigned keys. -/
def sortEntries (entries : List Entry) : List Entry := sortBy (fun entry => entry.1.toNat) entries

theorem sortEntries_of_perm {entries sorted : List Entry} (hperm : entries.Perm sorted)
    (hkeys : (sorted.map Prod.fst).Pairwise (· < ·)) : sortEntries entries = sorted :=
  sortBy_eq_of_perm hperm
    ((List.pairwise_map.mp hkeys).imp fun hlt => UInt64.lt_iff_toNat_lt.mp hlt)

/-- The entries of a flat input, or the error that the options call for. -/
def decodeEntries (options : DecOptions) (input : Bytes) : Except DecodeError (List Entry) :=
  match parseMap input with
  | none => .error .syntaxError
  | some entries => do
    failIf (options.maxNestedLevels < 1) .maxNestedLevelError
    failIf (options.maxMapPairs < entries.length) .maxMapPairsError
    failIf (¬ (entries.map Prod.fst).Nodup) .dupMapKeyError
    failIf (options.utf8 = .rejectInvalid ∧ ¬ ∀ entry ∈ entries, entry.2.utf8Valid = true)
      .semanticError
    return entries

def anyMapOfEntries (entries : List Entry) : Option (AnyMap Scalar) :=
  if h : (entries.map Prod.fst).Nodup then
    some ⟨entries.map fun entry => ⟨entry.1, entry.2⟩, by
      simpa [List.NodupKeys, List.keys, Function.comp_def] using h⟩
  else none

/-- A library that knows flat maps only. -/
def reference : Library where
  Any := Scalar
  ofScalar := id
  marshalStruct _ schema struct := some (encodeMap (sortEntries (structEntries schema struct)))
  marshalMap _ map :=
    match map with
    | none => some [0xF6]
    | some map => some (encodeMap (sortEntries (map.entries.map fun entry => (entry.1, entry.2))))
  unmarshalMap options input := do
    let entries ← decodeEntries options input
    return anyMapOfEntries entries
  unmarshalStruct options schema input := do
    let entries ← decodeEntries options input
    failIf (¬ ∀ entry ∈ entries, entry.1 ∈ schema.keys) .unknownFieldError
    match structOfEntries schema entries with
    | none => .error .unmarshalTypeError
    | some struct => return struct

theorem decodeEntries_of_decodable {options : DecOptions} {input : Bytes} {entries : List Entry}
    (h : Decodable options input entries) : decodeEntries options input = .ok entries := by
  have hnesting := h.nesting
  have hpairs := h.pairs
  rw [decodeEntries, h.parse]
  simp only
  rw [failIf_neg (by omega), ok_bind, failIf_neg (by omega), ok_bind,
    failIf_neg (not_not.mpr h.nodup), ok_bind, failIf_neg (fun hbad => hbad.2 h.utf8), ok_bind]
  rfl

/-- What a successful flat decode has checked about its text. -/
theorem utf8Valid_of_decodeEntries {options : DecOptions} {input : Bytes}
    {entries decoded : List Entry} (hutf8 : options.utf8 = .rejectInvalid)
    (hparse : parseMap input = some entries) (h : decodeEntries options input = .ok decoded) :
    ∀ entry ∈ entries, entry.2.utf8Valid = true := by
  rw [decodeEntries, hparse] at h
  simp only [failIf_bind_eq_ok] at h
  obtain ⟨_, _, _, hvalid, _⟩ := h
  intro entry hentry
  by_contra hinvalid
  exact hvalid ⟨hutf8, fun hall => hinvalid (hall entry hentry)⟩

theorem holds_of_anyMapOfEntries {entries : List Entry} (h : (entries.map Prod.fst).Nodup) :
    ∃ map, anyMapOfEntries entries = some map ∧ reference.Holds map entries := by
  refine ⟨_, dif_pos h, ?_⟩
  exact List.Perm.refl _

/-- The assumptions about the codec are consistent: `reference` meets them. -/
theorem reference_conforms : reference.Conforms where
  marshalStruct_eq := by
    intro options schema struct hkeys
    rw [← map_fst_structEntries schema struct] at hkeys
    simp only [reference, sortEntries_of_perm (List.Perm.refl _) hkeys]
  marshalMap_eq := by
    intro options map entries hkeys hholds
    have hperm : (map.entries.map fun entry => (entry.1, entry.2)).Perm entries := by
      have hmapped := hholds.map fun entry => (entry.1, entry.2)
      simpa [reference, Function.comp_def] using hmapped
    exact congrArg (fun sorted => some (encodeMap sorted)) (sortEntries_of_perm hperm hkeys)
  unmarshalMap_ok := by
    intro options input entries hdecodable
    obtain ⟨map, hmap, hholds⟩ := holds_of_anyMapOfEntries hdecodable.nodup
    refine ⟨map, ?_, hholds⟩
    simp only [reference]
    rw [decodeEntries_of_decodable hdecodable, ok_bind, hmap]
    rfl
  unmarshalStruct_ok := by
    intro options schema input entries struct hdecodable hknown hstruct
    simp only [reference]
    rw [decodeEntries_of_decodable hdecodable, ok_bind, failIf_neg (not_not.mpr hknown), ok_bind,
      hstruct]
    rfl
  unmarshalStruct_utf8 := by
    intro options schema input entries struct hstrict hparse hdecode
    simp only [reference, bind_eq_ok] at hdecode
    obtain ⟨decoded, hdecoded, _⟩ := hdecode
    exact utf8Valid_of_decodeEntries hstrict.utf8 hparse hdecoded

end AttributionChain.Cbor

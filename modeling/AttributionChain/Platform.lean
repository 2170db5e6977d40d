import AttributionChain.CborLibrary
import AttributionChain.Ecdsa
import AttributionChain.Sha256

/-!
# What the application is built on

The repository's packages are pure functions over three things they do not
implement: a CBOR codec, SHA-256 and ECDSA verification.  `Platform` holds the
three, and every definition of the model takes one.  Assumptions about them are
hypotheses of the theorems that need them, never fields of `Platform`.

A wire struct is a Go struct with `keyasint` tags.  `Wire` relates its Lean
structure to the field list that the codec works on.
-/

namespace AttributionChain

open Cbor

/-- `ledgerv1.LedgerID` -/
abbrev LedgerID := FixedBytes 32

/-- `ledgerv1.Digest` and the `[32]byte` digests of the endorsement package. -/
abbrev Digest := FixedBytes 32

structure Platform where
  cbor : Cbor.Library
  /-- `sha256.Sum256` -/
  sha256 : Bytes → Digest
  /-- `ecdsa.VerifyASN1` -/
  verifyASN1 : Ecdsa.PublicKey → Digest → Slice → Bool

/-- SHA-256 has no collision among the given preimages. -/
def Platform.NoCollision (platform : Platform) (preimages : Set Bytes) : Prop :=
  Set.InjOn platform.sha256 preimages

/-- The executable platform: flat-map CBOR, SHA-256, and a given signature check. -/
def Platform.reference (verifyASN1 : Ecdsa.PublicKey → Digest → Slice → Bool) : Platform where
  cbor := Cbor.reference
  sha256 := Sha256.sum256
  verifyASN1 := verifyASN1

/-! ### Marshalling structs -/

/-- A Go struct whose `cbor` tags give every field an integer key. -/
class Wire (α : Type) where
  schema : Schema
  toStruct : α → Struct schema
  ofStruct : Struct schema → α
  ofStruct_toStruct : ∀ value, ofStruct (toStruct value) = value
  toStruct_ofStruct : ∀ struct, toStruct (ofStruct struct) = struct

/-- The map entries of a wire struct. -/
def Wire.entries {α : Type} [Wire α] (value : α) : List Entry :=
  structEntries (Wire.schema α) (Wire.toStruct value)

theorem Wire.map_fst_entries {α : Type} [Wire α] (value : α) :
    (Wire.entries value).map Prod.fst = (Wire.schema α).keys := map_fst_structEntries _ _

theorem Wire.length_entries {α : Type} [Wire α] (value : α) :
    (Wire.entries value).length = (Wire.schema α).keys.length := by
  rw [← Wire.map_fst_entries value, List.length_map]

variable (platform : Platform) {α : Type} [Wire α]

/-- `encMode.Marshal(value)` for a wire struct or a pointer to one. -/
def Platform.marshal (options : EncOptions) (value : α) : Option Bytes :=
  platform.cbor.marshalStruct options (Wire.schema α) (Wire.toStruct value)

/-- `decMode.Unmarshal(encoded, &value)` into a zero wire struct. -/
def Platform.unmarshal (options : DecOptions) (encoded : Bytes) : Except DecodeError α :=
  match platform.cbor.unmarshalStruct options (Wire.schema α) encoded with
  | .error err => .error err
  | .ok struct => .ok (Wire.ofStruct struct)

variable {platform}

/-- A conforming encoder writes a struct's entries in key order. -/
theorem Platform.marshal_eq (hcbor : platform.cbor.Conforms) {options : EncOptions} {value : α}
    (hkeys : (Wire.schema α).keys.Pairwise (· < ·)) :
    platform.marshal options value = some (encodeMap (Wire.entries value)) :=
  hcbor.marshalStruct_eq options _ _ hkeys

/-- A conforming decoder reads a struct back from its canonical bytes. -/
theorem Platform.unmarshal_encodeMap (hcbor : platform.cbor.Conforms) {options : DecOptions}
    {value : α} (h : Decodable options (encodeMap (Wire.entries value)) (Wire.entries value)) :
    platform.unmarshal options (encodeMap (Wire.entries value)) = .ok value := by
  have hstruct := hcbor.unmarshalStruct_encodeMap h
  rw [Platform.unmarshal, Wire.entries, hstruct]
  simp only [Wire.ofStruct_toStruct]

/-- **Decoding what the encoder wrote** succeeds exactly when the text is UTF-8,
for a strict decoder, and then returns the struct. -/
theorem Platform.unmarshal_encodeMap_eq_ok (hcbor : platform.cbor.Conforms) {options : DecOptions}
    {value decoded : α} (hstrict : options.Strict)
    (hnesting : 1 ≤ options.maxNestedLevels)
    (hpairs : (Wire.schema α).keys.length ≤ options.maxMapPairs)
    (hkeys : (Wire.schema α).keys.Pairwise (· < ·))
    (hparse : parseMap (encodeMap (Wire.entries value)) = some (Wire.entries value)) :
    platform.unmarshal options (encodeMap (Wire.entries value)) = .ok decoded ↔
      (∀ entry ∈ Wire.entries value, entry.2.utf8Valid = true) ∧ decoded = value := by
  have hdecodable : (∀ entry ∈ Wire.entries value, entry.2.utf8Valid = true) →
      Decodable options (encodeMap (Wire.entries value)) (Wire.entries value) := fun htext =>
    { parse := hparse
      nesting := hnesting
      pairs := Wire.length_entries value ▸ hpairs
      nodup := Wire.map_fst_entries value ▸ hkeys.imp UInt64.ne_of_lt
      utf8 := htext }
  constructor
  · intro h
    have htext : ∀ entry ∈ Wire.entries value, entry.2.utf8Valid = true := by
      unfold Platform.unmarshal at h
      split at h
      · cases h
      · rename_i struct hstruct
        exact hcbor.unmarshalStruct_utf8 _ _ _ _ _ hstrict hparse hstruct
    rw [Platform.unmarshal_encodeMap hcbor (hdecodable htext)] at h
    exact ⟨htext, (Except.ok.inj h).symm⟩
  · rintro ⟨htext, rfl⟩
    exact Platform.unmarshal_encodeMap hcbor (hdecodable htext)

/-- A struct decoded from a deterministic spelling is spelled that way. -/
theorem Platform.encodeMap_of_isDeterministic (hcbor : platform.cbor.Conforms)
    {options : DecOptions} {encoded : Bytes} {wire : α} (hstrict : options.Strict)
    (hnesting : 1 ≤ options.maxNestedLevels)
    (hpairs : (Wire.schema α).keys.length ≤ options.maxMapPairs)
    (hkeys : (Wire.schema α).keys.Pairwise (· < ·))
    (hdeterministic : isDeterministic (Wire.schema α) encoded = true)
    (h : platform.unmarshal options encoded = .ok wire) :
    encodeMap (Wire.entries wire) = encoded := by
  obtain ⟨struct, hparse, rfl⟩ := isDeterministic_eq_true hdeterministic
  have hentries : Wire.entries (Wire.ofStruct struct : α) =
      structEntries (Wire.schema α) struct := by
    rw [Wire.entries, Wire.toStruct_ofStruct]
  rw [← hentries] at hparse h ⊢
  obtain ⟨-, rfl⟩ :=
    (Platform.unmarshal_encodeMap_eq_ok hcbor hstrict hnesting hpairs hkeys hparse).mp h
  rfl

end AttributionChain

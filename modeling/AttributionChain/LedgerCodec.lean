import AttributionChain.Platform

/-!
# The canonical codec of the ledger kernel

`internal/ledger/v1`: protocol constants, typed validation errors, digests with
domain separation, and the two functions that every layer of a record goes
through.  `encodeCanonical` marshals a wire struct under a size limit.
`decodeCanonicalMap` is the strict direction: it decodes the input generically,
re-encodes and compares, checks the exact key set, decodes into the typed
struct, re-encodes that and compares again.

What a caller needs from a successful decode is the last comparison
(`decodeCanonicalMap_spec`): the input is what the encoder writes for the
decoded struct.  It holds for every codec.  That the strict decoder accepts what
the encoder wrote (`decodeCanonicalMap_marshal`) needs a conforming one.
-/

namespace AttributionChain.Ledger

open Cbor

/-! ### Constants -/

def protocolVersionV1 : UInt64 := 1
def recordVersionV1 : UInt64 := 1
def ledgerInitializedPayloadVersionV1 : UInt64 := 1

def digestAlgorithmSHA256 : Bytes := ascii "sha-256"
def signatureAlgorithmP256 : Bytes := ascii "ecdsa-p256-sha256"
def signatureEncodingASN1DER : Bytes := ascii "asn1-der"

def domainEventDigestV1 : Bytes := ascii "attribution-chain:event-digest:v1"
def domainRecordDigestV1 : Bytes := ascii "attribution-chain:record-digest:v1"

def digestDomainSeparator : UInt8 := 0
def ledgerInitializedPayloadCBOR : Bytes := [0xA0]

def maxPayloadBytes : Nat := 65536
def maxEventBodyBytes : Nat := 98304
def maxRecordBodyBytes : Nat := 131072
def maxLedgerRecordBytes : Nat := 131200
def maxSignerReferenceBytes : Nat := 512
def minSignatureBytes : Nat := 8
def maxSignatureBytes : Nat := 72

abbrev digestBytes : Nat := 32
abbrev ledgerIDBytes : Nat := 32

def maxProtocolNestingLevels : Nat := 4
def maxProtocolArrayElements : Nat := 16
def maxProtocolMapPairs : Nat := 16

/-- `ledgerv1.EventKind`; kinds this version does not know are kept as numbers. -/
abbrev EventKind := UInt64

def eventKindLedgerInitialized : EventKind := 1
def eventKindEndorsementAccepted : EventKind := 2
def eventKindEndorsementRevoked : EventKind := 3

/-! ### Errors -/

/-- The sentinel errors of `errors.go`. -/
inductive ErrorKind where
  | oversizedInput
  | malformedCBOR
  | nonConformingCBOR
  | unsupportedVersion
  | schemaViolation
  | digestMismatch
  | invalidSequence
  | ledgerMismatch
  | chainLinkMismatch
  | unsupportedEvent
deriving DecidableEq, Repr

def ErrorKind.text : ErrorKind → String
  | .oversizedInput => "ledger v1 input exceeds protocol limit"
  | .malformedCBOR => "ledger v1 malformed CBOR"
  | .nonConformingCBOR => "ledger v1 non-conforming CBOR"
  | .unsupportedVersion => "ledger v1 unsupported version"
  | .schemaViolation => "ledger v1 schema violation"
  | .digestMismatch => "ledger v1 digest mismatch"
  | .invalidSequence => "ledger v1 invalid sequence"
  | .ledgerMismatch => "ledger v1 ledger identity mismatch"
  | .chainLinkMismatch => "ledger v1 chain link mismatch"
  | .unsupportedEvent => "ledger v1 unsupported event"

inductive ValidationStage where
  | encoding
  | decoding
  | eventBody
  | recordBody
  | ledgerRecord
  | payload
  | chainConsistency
deriving DecidableEq, Repr

/-- `safeStageLabel`; the stages are an enumeration, so its default is unreachable. -/
def ValidationStage.label : ValidationStage → String
  | .encoding => "encoding"
  | .decoding => "decoding"
  | .eventBody => "event body"
  | .recordBody => "record body"
  | .ledgerRecord => "ledger record"
  | .payload => "payload"
  | .chainConsistency => "chain consistency"

/-- A sentinel error wrapped with the stage that raised it. -/
structure ValidationError where
  stage : ValidationStage
  kind : ErrorKind
deriving DecidableEq, Repr

def ValidationError.message (err : ValidationError) : String :=
  "ledger v1 " ++ err.stage.label ++ ": " ++ err.kind.text

def wrapValidationError (stage : ValidationStage) (kind : ErrorKind) : ValidationError :=
  ⟨stage, kind⟩

/-! ### Digests -/

/-- The preimage of a domain-separated digest. -/
def domainSeparated (domain body : Bytes) : Bytes := domain ++ digestDomainSeparator :: body

def domainSeparatedDigest (platform : Platform) (domain body : Bytes) : Digest :=
  platform.sha256 (domainSeparated domain body)

theorem domainSeparated_injective (domain : Bytes) :
    Function.Injective (domainSeparated domain) := by
  intro left right h
  simpa [domainSeparated] using h

def protocolEncMode : EncOptions := coreDetEncOptions

def protocolDecMode : DecOptions where
  dupMapKey := .enforcedAPF
  maxNestedLevels := maxProtocolNestingLevels
  maxArrayElements := maxProtocolArrayElements
  maxMapPairs := maxProtocolMapPairs
  indefLength := .forbidden
  tagsMd := .forbidden
  extraReturnErrors := .unknownField
  utf8 := .rejectInvalid
  fieldNameMatching := .caseSensitive

def classifyDecodeError : DecodeError → ErrorKind
  | .syntaxError | .extraneousDataError => .malformedCBOR
  | .semanticError | .dupMapKeyError | .indefiniteLengthError | .tagsMdError =>
    .nonConformingCBOR
  | .unmarshalTypeError | .unknownFieldError | .maxNestedLevelError | .maxArrayElementsError
  | .maxMapPairsError => .schemaViolation
  | .other => .malformedCBOR

variable (platform : Platform) {α : Type} [Wire α]

/-! ### The strict codec -/

def encodeCanonical (value : α) (maxBytes : Nat) (stage : ValidationStage) :
    Except ValidationError Bytes := do
  let encoded ← orError (platform.marshal protocolEncMode value)
    (wrapValidationError stage .schemaViolation)
  failIf (encoded.length > maxBytes) (wrapValidationError stage .oversizedInput)
  return encoded

/-- The keys of a possibly nil `map[uint64]any`. -/
def anyMapKeys {Any : Type} (values : Option (AnyMap Any)) : List UInt64 :=
  match values with
  | none => []
  | some values => values.keys

def hasExactKeys (keys expectedKeys : List UInt64) : Bool :=
  if keys.length ≠ expectedKeys.length then false
  else if ¬ expectedKeys.Nodup then false
  else keys.all fun key => key ∈ expectedKeys

def decodeCanonicalMap (α : Type) [Wire α] (encoded : Bytes) (maxBytes : Nat)
    (expectedKeys : List UInt64) (stage : ValidationStage) : Except ValidationError α := do
  failIf (encoded.length > maxBytes) (wrapValidationError stage .oversizedInput)
  let generic ← (platform.cbor.unmarshalMap protocolDecMode encoded).mapError fun err =>
    wrapValidationError stage (classifyDecodeError err)
  let reencoded ← orError (platform.cbor.marshalMap protocolEncMode generic)
    (wrapValidationError stage .schemaViolation)
  failIf (encoded ≠ reencoded) (wrapValidationError stage .nonConformingCBOR)
  failIf (hasExactKeys (anyMapKeys generic) expectedKeys = false)
    (wrapValidationError stage .schemaViolation)
  let destination : α ← (platform.unmarshal protocolDecMode encoded).mapError fun err =>
    wrapValidationError stage (classifyDecodeError err)
  let typedReencoded ← orError (platform.marshal protocolEncMode destination)
    (wrapValidationError stage .schemaViolation)
  failIf (encoded ≠ typedReencoded) (wrapValidationError stage .nonConformingCBOR)
  return destination

variable {platform}

theorem encodeCanonical_eq_ok {value : α} {maxBytes : Nat} {stage : ValidationStage}
    {encoded : Bytes} :
    encodeCanonical platform value maxBytes stage = .ok encoded ↔
      platform.marshal protocolEncMode value = some encoded ∧ encoded.length ≤ maxBytes := by
  simp only [encodeCanonical, bind_eq_ok, orError_eq_ok, failIf_eq_ok, pure, Except.pure,
    Except.ok.injEq]
  constructor
  · rintro ⟨_, hmarshal, _, hsize, rfl⟩
    exact ⟨hmarshal, by omega⟩
  · rintro ⟨hmarshal, hsize⟩
    exact ⟨encoded, hmarshal, (), by omega, rfl⟩

/-- **What the strict decoder guarantees**, for every codec: the input is within
the limit and is exactly what the encoder writes for the decoded struct. -/
theorem decodeCanonicalMap_spec {encoded : Bytes} {maxBytes : Nat} {expectedKeys : List UInt64}
    {stage : ValidationStage} {wire : α}
    (h : decodeCanonicalMap platform α encoded maxBytes expectedKeys stage = .ok wire) :
    encoded.length ≤ maxBytes ∧ platform.marshal protocolEncMode wire = some encoded := by
  simp only [decodeCanonicalMap, bind_eq_ok, orError_eq_ok, failIf_eq_ok] at h
  obtain ⟨_, hsize, _, _, _, _, _, _, _, _, destination, _, typed, htyped, _, hequal, hreturn⟩ := h
  cases hreturn
  rw [← not_not.mp hequal] at htyped
  exact ⟨by omega, htyped⟩

/-- The generic pass accepts the canonical bytes of a flat map. -/
theorem hasExactKeys_of_holds {map : AnyMap platform.cbor.Any} {entries : List Entry}
    (hholds : platform.cbor.Holds map entries)
    (hkeys : (entries.map Prod.fst).Pairwise (· < ·)) :
    hasExactKeys (anyMapKeys (some map)) (entries.map Prod.fst) = true := by
  have hperm : map.keys.Perm (entries.map Prod.fst) := by
    have hmapped := hholds.map Sigma.fst
    simpa [AList.keys, List.keys, Function.comp_def] using hmapped
  have hnodup : (entries.map Prod.fst).Nodup := hkeys.imp UInt64.ne_of_lt
  have hlength : map.keys.length = (entries.map Prod.fst).length := hperm.length_eq
  rw [hasExactKeys, anyMapKeys, if_neg (not_not.mpr hlength), if_neg (not_not.mpr hnodup),
    List.all_eq_true]
  intro key hkey
  exact decide_eq_true (hperm.mem_iff.mp hkey)

/-- **What the encoder wrote, the strict decoder accepts**, for a conforming
codec, a struct with ascending keys and valid text, and bytes within the limit. -/
theorem decodeCanonicalMap_marshal (hcbor : platform.cbor.Conforms) {wire : α} {maxBytes : Nat}
    {stage : ValidationStage} (hkeys : (Wire.schema α).keys.Pairwise (· < ·))
    (hpairs : (Wire.schema α).keys.length ≤ maxProtocolMapPairs)
    (hutf8 : ∀ entry ∈ Wire.entries wire, entry.2.utf8Valid = true)
    (hsize : (encodeMap (Wire.entries wire)).length ≤ maxBytes) (hmax : maxBytes < 2 ^ 64) :
    decodeCanonicalMap platform α (encodeMap (Wire.entries wire)) maxBytes (Wire.schema α).keys
      stage = .ok wire := by
  have hfst := Wire.map_fst_entries wire
  have hcount := Wire.length_entries wire
  have hascending : ((Wire.entries wire).map Prod.fst).Pairwise (· < ·) := hfst ▸ hkeys
  have hlimit : maxProtocolMapPairs < 2 ^ 64 := by decide
  have hdecodable : Decodable protocolDecMode (encodeMap (Wire.entries wire))
      (Wire.entries wire) :=
    decodable_encodeMap (by decide) (hcount ▸ hpairs) hascending hutf8 (by omega) (by omega)
  obtain ⟨map, hgeneric, hholds⟩ := hcbor.unmarshalMap_ok _ _ _ hdecodable
  have hmap := hcbor.marshalMap_eq protocolEncMode map _ hascending hholds
  have hexact := hasExactKeys_of_holds hholds hascending
  rw [hfst] at hexact
  simp only [decodeCanonicalMap]
  rw [failIf_neg (by omega), ok_bind, hgeneric, mapError_ok, ok_bind, hmap, orError_some, ok_bind,
    failIf_neg (not_not.mpr rfl), ok_bind, failIf_neg (by simp [hexact]), ok_bind,
    Platform.unmarshal_encodeMap hcbor hdecodable, mapError_ok, ok_bind,
    Platform.marshal_eq hcbor hkeys, orError_some, ok_bind, failIf_neg (not_not.mpr rfl), ok_bind]
  rfl

end AttributionChain.Ledger

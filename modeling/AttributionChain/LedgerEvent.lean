import AttributionChain.LedgerCodec

/-!
# Ledger events

`internal/ledger/v1/event.go`.  An event body is one canonical map of eight
fields.  `validateEventStructure` is the only way to a non-zero
`StructuralEvent`; `newEvent` encodes its arguments and validates the result.

The facts the rest of the development uses are `validateEventStructure_eq_ok`
(what a successful validation has established) and `newEvent_eq_ok`, which says
that validating bytes and constructing from field values meet in one wire
struct.
-/

namespace AttributionChain.Ledger

open Cbor

/-- The zero value is the event no validation returned. -/
structure StructuralEvent where
  bytes : Bytes
  digest : Digest
  ledgerID : LedgerID
  sequence : UInt64
  previousRecordDigest : Digest
  hasPreviousRecordDigest : Bool
  admittedAtUnixMS : UInt64
  kind : EventKind
  payloadVersion : UInt64
  payloadBytes : Slice
deriving DecidableEq

def StructuralEvent.zero : StructuralEvent where
  bytes := []
  digest := FixedBytes.zero 32
  ledgerID := FixedBytes.zero 32
  sequence := 0
  previousRecordDigest := FixedBytes.zero 32
  hasPreviousRecordDigest := false
  admittedAtUnixMS := 0
  kind := 0
  payloadVersion := 0
  payloadBytes := none

/-- The accessor `PreviousRecordDigest() (Digest, bool)`. -/
def StructuralEvent.predecessor (event : StructuralEvent) : Option Digest :=
  if event.hasPreviousRecordDigest then some event.previousRecordDigest else none

structure EventBodyWire where
  protocolVersion : UInt64
  ledgerID : Slice
  sequence : UInt64
  previousRecordDigest : Slice
  admittedAtUnixMS : UInt64
  eventKind : UInt64
  payloadVersion : UInt64
  payloadBytes : Slice
deriving DecidableEq

instance : Wire EventBodyWire where
  schema :=
    [(0, .uint64), (1, .byteSlice), (2, .uint64), (3, .byteSlice), (4, .uint64), (5, .uint64),
      (6, .uint64), (7, .byteSlice)]
  toStruct wire :=
    (wire.protocolVersion, wire.ledgerID, wire.sequence, wire.previousRecordDigest,
      wire.admittedAtUnixMS, wire.eventKind, wire.payloadVersion, wire.payloadBytes, ())
  ofStruct := fun (protocolVersion, ledgerID, sequence, previousRecordDigest, admittedAtUnixMS,
      eventKind, payloadVersion, payloadBytes, _) =>
    { protocolVersion, ledgerID, sequence, previousRecordDigest, admittedAtUnixMS, eventKind,
      payloadVersion, payloadBytes }
  ofStruct_toStruct _ := rfl
  toStruct_ofStruct _ := rfl

/-- The key constants `eventBodyKeyProtocolVersion` to `eventBodyKeyPayloadBytes`. -/
def eventBodyKeys : List UInt64 := [0, 1, 2, 3, 4, 5, 6, 7]

def validateEventBodyWire (wire : EventBodyWire) : Except ErrorKind Unit := do
  failIf (wire.protocolVersion ≠ protocolVersionV1) .unsupportedVersion
  failIf (wire.ledgerID.len ≠ ledgerIDBytes) .schemaViolation
  failIf (wire.sequence = 0) .invalidSequence
  failIf (wire.previousRecordDigest ≠ none ∧ wire.previousRecordDigest.len ≠ digestBytes)
    .schemaViolation
  failIf (wire.eventKind = 0 ∨ wire.payloadVersion = 0) .schemaViolation
  failIf (wire.payloadBytes.len = 0 ∨ wire.payloadBytes.len > maxPayloadBytes) .schemaViolation

/-- What `validateEventBodyWire` checks. -/
structure EventBodyWire.Valid (wire : EventBodyWire) : Prop where
  protocolVersion : wire.protocolVersion = protocolVersionV1
  ledgerID : wire.ledgerID.len = ledgerIDBytes
  sequence : wire.sequence ≠ 0
  previousRecordDigest : wire.previousRecordDigest = none ∨
    wire.previousRecordDigest.len = digestBytes
  eventKind : wire.eventKind ≠ 0
  payloadVersion : wire.payloadVersion ≠ 0
  payloadNonempty : wire.payloadBytes.len ≠ 0
  payloadBound : wire.payloadBytes.len ≤ maxPayloadBytes

theorem validateEventBodyWire_eq_ok {wire : EventBodyWire} {done : Unit} :
    validateEventBodyWire wire = .ok done ↔ wire.Valid := by
  simp only [validateEventBodyWire, bind_eq_ok, failIf_eq_ok, exists_const, not_not, not_or,
    not_and_or, not_lt]
  constructor
  · rintro ⟨hversion, hledger, hsequence, hprevious, ⟨hkind, hpayloadVersion⟩, hnonempty, hbound⟩
    exact ⟨hversion, hledger, hsequence, hprevious, hkind, hpayloadVersion, hnonempty, hbound⟩
  · intro hvalid
    exact ⟨hvalid.protocolVersion, hvalid.ledgerID, hvalid.sequence, hvalid.previousRecordDigest,
      ⟨hvalid.eventKind, hvalid.payloadVersion⟩, hvalid.payloadNonempty, hvalid.payloadBound⟩

variable (platform : Platform)

def digestEventBody (eventBodyBytes : Bytes) : Digest :=
  domainSeparatedDigest platform domainEventDigestV1 eventBodyBytes

/-- The event that `ValidateEventStructure` assembles from a decoded body. -/
def eventOfWire (encoded : Bytes) (wire : EventBodyWire) : StructuralEvent where
  bytes := encoded
  digest := digestEventBody platform encoded
  ledgerID := FixedBytes.copyFrom ledgerIDBytes (wire.ledgerID.getD [])
  sequence := wire.sequence
  previousRecordDigest :=
    match wire.previousRecordDigest with
    | none => FixedBytes.zero digestBytes
    | some digest => FixedBytes.copyFrom digestBytes digest
  hasPreviousRecordDigest := wire.previousRecordDigest.isSome
  admittedAtUnixMS := wire.admittedAtUnixMS
  kind := wire.eventKind
  payloadVersion := wire.payloadVersion
  payloadBytes := wire.payloadBytes

def validateEventStructure (encoded : Bytes) : Except ValidationError StructuralEvent := do
  let wire ← decodeCanonicalMap platform EventBodyWire encoded maxEventBodyBytes eventBodyKeys
    .eventBody
  (validateEventBodyWire wire).mapError (wrapValidationError .eventBody)
  return eventOfWire platform encoded wire

/-- The body that `NewEvent` encodes. -/
def newEventWire (ledgerID : LedgerID) (sequence : UInt64) (previousRecordDigest : Option Digest)
    (admittedAtUnixMS : UInt64) (kind : EventKind) (payloadVersion : UInt64)
    (payloadBytes : Slice) : EventBodyWire where
  protocolVersion := protocolVersionV1
  ledgerID := some ledgerID.bytes
  sequence := sequence
  previousRecordDigest := previousRecordDigest.map FixedBytes.bytes
  admittedAtUnixMS := admittedAtUnixMS
  eventKind := kind
  payloadVersion := payloadVersion
  payloadBytes := payloadBytes

def newEvent (ledgerID : LedgerID) (sequence : UInt64) (previousRecordDigest : Option Digest)
    (admittedAtUnixMS : UInt64) (kind : EventKind) (payloadVersion : UInt64)
    (payloadBytes : Slice) : Except ValidationError StructuralEvent := do
  let encoded ← encodeCanonical platform
    (newEventWire ledgerID sequence previousRecordDigest admittedAtUnixMS kind payloadVersion
      payloadBytes) maxEventBodyBytes .eventBody
  validateEventStructure platform encoded

/-! ### The genesis event -/

/-- The destination `struct{}` of the genesis payload. -/
instance : Wire Unit where
  schema := []
  toStruct _ := ()
  ofStruct _ := ()
  ofStruct_toStruct _ := rfl
  toStruct_ofStruct _ := rfl

def validateLedgerInitializedPayload (payloadBytes : Slice) : Except ValidationError Unit := do
  let _ ← decodeCanonicalMap platform Unit (payloadBytes.getD []) maxPayloadBytes [] .payload
  failIf (payloadBytes.getD [] ≠ ledgerInitializedPayloadCBOR)
    (wrapValidationError .payload .schemaViolation)

def newGenesisEvent (ledgerID : LedgerID) (admittedAtUnixMS : UInt64) :
    Except ValidationError StructuralEvent := do
  validateLedgerInitializedPayload platform (some ledgerInitializedPayloadCBOR)
  newEvent platform ledgerID 1 none admittedAtUnixMS eventKindLedgerInitialized
    ledgerInitializedPayloadVersionV1 (some ledgerInitializedPayloadCBOR)

def validateEventSemantics (event : StructuralEvent) : Except ValidationError Unit := do
  failIf (event.bytes.length = 0) (wrapValidationError .eventBody .schemaViolation)
  let validated ← validateEventStructure platform event.bytes
  failIf (validated.kind ≠ eventKindLedgerInitialized ∨
      validated.payloadVersion ≠ ledgerInitializedPayloadVersionV1)
    (wrapValidationError .eventBody .unsupportedEvent)
  failIf (validated.sequence ≠ 1 ∨ validated.hasPreviousRecordDigest = true)
    (wrapValidationError .eventBody .invalidSequence)
  validateLedgerInitializedPayload platform validated.payloadBytes

/-! ### What a validated event is -/

variable {platform}

/-- A validated event is assembled from a valid body whose canonical encoding is
the input. -/
theorem validateEventStructure_eq_ok {encoded : Bytes} {event : StructuralEvent}
    (h : validateEventStructure platform encoded = .ok event) :
    ∃ wire : EventBodyWire, wire.Valid ∧
      platform.marshal protocolEncMode wire = some encoded ∧
      encoded.length ≤ maxEventBodyBytes ∧ event = eventOfWire platform encoded wire := by
  simp only [validateEventStructure, bind_eq_ok, mapError_eq_ok, validateEventBodyWire_eq_ok] at h
  obtain ⟨wire, hdecode, _, hvalid, hreturn⟩ := h
  obtain ⟨hsize, hmarshal⟩ := decodeCanonicalMap_spec hdecode
  cases hreturn
  exact ⟨wire, hvalid, hmarshal, hsize, rfl⟩

theorem bytes_of_validateEventStructure {encoded : Bytes} {event : StructuralEvent}
    (h : validateEventStructure platform encoded = .ok event) : event.bytes = encoded := by
  obtain ⟨wire, _, _, _, rfl⟩ := validateEventStructure_eq_ok h
  rfl

/-- The field values of a validated event give back the body it was read from. -/
theorem newEventWire_of_valid {encoded : Bytes} {wire : EventBodyWire} (h : wire.Valid) :
    let event := eventOfWire platform encoded wire
    newEventWire event.ledgerID event.sequence event.predecessor event.admittedAtUnixMS event.kind
      event.payloadVersion event.payloadBytes = wire := by
  obtain ⟨version, ledger, sequence, previous, admitted, kind, payloadVersion, payload⟩ := wire
  obtain ⟨ledgerBytes, rfl⟩ := Slice.exists_of_len_pos ledger (by
    have hledger := h.ledgerID
    simp only [ledgerIDBytes] at hledger
    omega)
  have hledger : (FixedBytes.copyFrom ledgerIDBytes ledgerBytes).bytes = ledgerBytes :=
    FixedBytes.bytes_copyFrom h.ledgerID
  have hversion : version = protocolVersionV1 := h.protocolVersion
  cases previous with
  | none =>
    simp [eventOfWire, newEventWire, StructuralEvent.predecessor, hledger, hversion]
  | some digest =>
    have hdigest : (FixedBytes.copyFrom digestBytes digest).bytes = digest := by
      rcases h.previousRecordDigest with habsent | hlength
      · cases habsent
      · exact FixedBytes.bytes_copyFrom hlength
    simp [eventOfWire, newEventWire, StructuralEvent.predecessor, hledger, hversion, hdigest]

/-- Constructing from field values is validating their canonical encoding. -/
theorem newEvent_eq_ok {ledgerID : LedgerID} {sequence : UInt64} {previous : Option Digest}
    {admittedAtUnixMS : UInt64} {kind : EventKind} {payloadVersion : UInt64} {payload : Slice}
    {event : StructuralEvent} :
    newEvent platform ledgerID sequence previous admittedAtUnixMS kind payloadVersion payload =
        .ok event ↔
      platform.marshal protocolEncMode (newEventWire ledgerID sequence previous admittedAtUnixMS
        kind payloadVersion payload) = some event.bytes ∧
      event.bytes.length ≤ maxEventBodyBytes ∧
      validateEventStructure platform event.bytes = .ok event := by
  simp only [newEvent, bind_eq_ok, encodeCanonical_eq_ok]
  constructor
  · rintro ⟨encoded, ⟨hmarshal, hsize⟩, hvalidate⟩
    rw [bytes_of_validateEventStructure hvalidate]
    exact ⟨hmarshal, hsize, hvalidate⟩
  · rintro ⟨hmarshal, hsize, hvalidate⟩
    exact ⟨event.bytes, ⟨hmarshal, hsize⟩, hvalidate⟩

end AttributionChain.Ledger

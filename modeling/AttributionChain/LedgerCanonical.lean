import AttributionChain.LedgerRecord

/-!
# One byte string per record

The accessors of a validated record return the values it was built from.  This
module shows that they determine its bytes, and says which values a record can
be built from.

* `rebuildRecord_of_validate`: construction from the accessors of a validated
  record returns that record.  The argument uses the typed re-encoding only, so
  it holds for every codec.
* `newRecordOfFields_eq_ok`: construction succeeds exactly on `RecordFields.InDomain`.
  Here the size of each layer is bounded from the sizes of its fields, and a
  conforming codec decodes what it wrote.
-/

namespace AttributionChain.Ledger

open Cbor

/-! ### Field values -/

/-- The arguments of `NewEvent`, which are also the accessors of an event. -/
structure EventFields where
  ledgerID : LedgerID
  sequence : UInt64
  previousRecordDigest : Option Digest
  admittedAtUnixMS : UInt64
  kind : EventKind
  payloadVersion : UInt64
  payloadBytes : Slice
deriving DecidableEq

/-- The arguments of `NewEvent` and `NewRecord`. -/
structure RecordFields extends EventFields where
  signerKeyReference : Bytes
  signatureBytes : Slice
deriving DecidableEq

def StructuralEvent.fields (event : StructuralEvent) : EventFields where
  ledgerID := event.ledgerID
  sequence := event.sequence
  previousRecordDigest := event.predecessor
  admittedAtUnixMS := event.admittedAtUnixMS
  kind := event.kind
  payloadVersion := event.payloadVersion
  payloadBytes := event.payloadBytes

def StructuralRecord.fields (record : StructuralRecord) : RecordFields where
  toEventFields := record.event.fields
  signerKeyReference := record.signerKeyReference
  signatureBytes := record.signatureBytes

def EventFields.wire (fields : EventFields) : EventBodyWire :=
  newEventWire fields.ledgerID fields.sequence fields.previousRecordDigest fields.admittedAtUnixMS
    fields.kind fields.payloadVersion fields.payloadBytes

variable (platform : Platform)

def newEventOfFields (fields : EventFields) : Except ValidationError StructuralEvent :=
  newEvent platform fields.ledgerID fields.sequence fields.previousRecordDigest
    fields.admittedAtUnixMS fields.kind fields.payloadVersion fields.payloadBytes

/-- `NewEvent` followed by `NewRecord`. -/
def newRecordOfFields (fields : RecordFields) : Except ValidationError StructuralRecord := do
  let event ← newEventOfFields platform fields.toEventFields
  newRecord platform event fields.signerKeyReference fields.signatureBytes

variable {platform}

/-! ### Rebuilding from the accessors -/

theorem rebuildEvent_of_validate {encoded : Bytes} {event : StructuralEvent}
    (h : validateEventStructure platform encoded = .ok event) :
    newEventOfFields platform event.fields = .ok event := by
  obtain ⟨wire, hvalid, hmarshal, hsize, rfl⟩ := validateEventStructure_eq_ok h
  refine newEvent_eq_ok.mpr ⟨?_, hsize, h⟩
  simp only [StructuralEvent.fields, newEventWire_of_valid hvalid]
  exact hmarshal

theorem newRecord_of_spec {record : StructuralRecord} (hspec : RecordSpec platform record)
    (h : validateRecordStructure platform record.bytes = .ok record) :
    newRecord platform record.event record.signerKeyReference record.signatureBytes =
      .ok record := by
  have hreference : validateSignerKeyReference record.signerKeyReference = .ok () :=
    validateSignerKeyReference_eq_ok.mpr hspec.signerKeyReference
  have houter := hspec.outer
  rw [hspec.recordDigest] at houter
  simp only [newRecord]
  rw [failIf_neg hspec.eventNonempty, ok_bind, hspec.event, ok_bind,
    hreference, mapError_ok, ok_bind, failIf_neg (by simp [hspec.signatureLength]), ok_bind,
    encodeCanonical_eq_ok.mpr ⟨hspec.body, hspec.bodyBound⟩, ok_bind,
    encodeCanonical_eq_ok.mpr ⟨houter, hspec.outerBound⟩, ok_bind, h]

theorem rebuildRecord_of_validate {encoded : Bytes} {record : StructuralRecord}
    (h : validateRecordStructure platform encoded = .ok record) :
    newRecordOfFields platform record.fields = .ok record := by
  obtain ⟨hbytes, hspec⟩ := recordSpec_of_validateRecordStructure h
  have hevent := rebuildEvent_of_validate hspec.event
  rw [← hbytes] at h
  simp only [newRecordOfFields, StructuralRecord.fields]
  rw [hevent, ok_bind]
  exact newRecord_of_spec hspec h

/-! ### The domain of construction -/

/-- The values a record can hold.  Sequence, kind and payload version are
unsigned 64-bit numbers, so excluding zero leaves `1..2^64-1`. -/
structure RecordFields.InDomain (fields : RecordFields) : Prop where
  sequence : fields.sequence ≠ 0
  kind : fields.kind ≠ 0
  payloadVersion : fields.payloadVersion ≠ 0
  payloadBytes : 1 ≤ fields.payloadBytes.len ∧ fields.payloadBytes.len ≤ 65536
  signerKeyReference : 1 ≤ fields.signerKeyReference.length ∧
    fields.signerKeyReference.length ≤ 512
  printable : ∀ byte ∈ fields.signerKeyReference, 0x20 ≤ byte ∧ byte ≤ 0x7E
  signatureBytes : 8 ≤ fields.signatureBytes.len ∧ fields.signatureBytes.len ≤ 72

/-! The size of each layer, from the sizes of its fields. -/

theorem EventBodyWire.length_encodeMap_le (wire : EventBodyWire) :
    (encodeMap (Wire.entries wire)).length ≤
      153 + wire.ledgerID.len + wire.previousRecordDigest.len + wire.payloadBytes.len := by
  refine (Cbor.length_encodeMap_le _).trans ?_
  simp only [Wire.entries, Wire.schema, Wire.toStruct, structEntries, List.map_cons, List.map_nil,
    List.sum_cons, List.sum_nil, FieldKind.contentLength_uint64,
    FieldKind.contentLength_byteSlice]
  omega

theorem RecordBodyWire.length_encodeMap_le (wire : RecordBodyWire) :
    (encodeMap (Wire.entries wire)).length ≤
      153 + wire.eventBodyBytes.len + wire.eventDigestAlgorithm.length + wire.eventDigest.len +
        wire.signerKeyReference.length + wire.signatureAlgorithm.length +
        wire.signatureEncoding.length + wire.signatureBytes.len := by
  refine (Cbor.length_encodeMap_le _).trans ?_
  simp only [Wire.entries, Wire.schema, Wire.toStruct, structEntries, List.map_cons, List.map_nil,
    List.sum_cons, List.sum_nil, FieldKind.contentLength_uint64,
    FieldKind.contentLength_byteSlice, FieldKind.contentLength_string]
  omega

theorem LedgerRecordWire.length_encodeMap_le (wire : LedgerRecordWire) :
    (encodeMap (Wire.entries wire)).length ≤
      81 + wire.recordBodyBytes.len + wire.recordDigestAlgorithm.length +
        wire.recordDigest.len := by
  refine (Cbor.length_encodeMap_le _).trans ?_
  simp only [Wire.entries, Wire.schema, Wire.toStruct, structEntries, List.map_cons, List.map_nil,
    List.sum_cons, List.sum_nil, FieldKind.contentLength_uint64,
    FieldKind.contentLength_byteSlice, FieldKind.contentLength_string]
  omega

/-! ### The event layer under a conforming codec -/

theorem utf8Valid_eventBodyWire (wire : EventBodyWire) :
    ∀ entry ∈ Wire.entries wire, entry.2.utf8Valid = true := by
  simp [Wire.entries, Wire.schema, Wire.toStruct, structEntries]

theorem decodeEventBody_encodeMap (hcbor : platform.cbor.Conforms) {wire : EventBodyWire}
    (hsize : (encodeMap (Wire.entries wire)).length ≤ maxEventBodyBytes) :
    decodeCanonicalMap platform EventBodyWire (encodeMap (Wire.entries wire)) maxEventBodyBytes
      eventBodyKeys .eventBody = .ok wire :=
  decodeCanonicalMap_marshal hcbor (by decide) (by decide) (utf8Valid_eventBodyWire wire) hsize
    (by decide)

/-- The strict decoder reads an event body back, which leaves the field checks. -/
theorem validateEventStructure_encodeMap (hcbor : platform.cbor.Conforms) {wire : EventBodyWire}
    {event : StructuralEvent}
    (hsize : (encodeMap (Wire.entries wire)).length ≤ maxEventBodyBytes) :
    validateEventStructure platform (encodeMap (Wire.entries wire)) = .ok event ↔
      wire.Valid ∧ event = eventOfWire platform (encodeMap (Wire.entries wire)) wire := by
  rw [validateEventStructure, decodeEventBody_encodeMap hcbor hsize, ok_bind]
  simp only [bind_eq_ok, mapError_eq_ok, validateEventBodyWire_eq_ok, pure, Except.pure,
    Except.ok.injEq, exists_const]
  exact and_congr_right fun _ => eq_comm

theorem newEventOfFields_eq_ok (hcbor : platform.cbor.Conforms) {fields : EventFields}
    {event : StructuralEvent} :
    newEventOfFields platform fields = .ok event ↔
      fields.wire.Valid ∧
        event = eventOfWire platform (encodeMap (Wire.entries fields.wire)) fields.wire := by
  have hmarshal : platform.marshal protocolEncMode fields.wire =
      some (encodeMap (Wire.entries fields.wire)) := Platform.marshal_eq hcbor (by decide)
  constructor
  · intro h
    obtain ⟨hbytes, hsize, hvalidate⟩ := newEvent_eq_ok.mp h
    have heq : encodeMap (Wire.entries fields.wire) = event.bytes :=
      Option.some.inj (hmarshal.symm.trans hbytes)
    rw [← heq] at hsize hvalidate
    exact (validateEventStructure_encodeMap hcbor hsize).mp hvalidate
  · rintro ⟨hvalid, rfl⟩
    have hsize : (encodeMap (Wire.entries fields.wire)).length ≤ maxEventBodyBytes := by
      have hlength := fields.wire.length_encodeMap_le
      have hledger := hvalid.ledgerID
      have hpayload := hvalid.payloadBound
      have hprevious : fields.wire.previousRecordDigest.len ≤ 32 := by
        rcases hvalid.previousRecordDigest with hnone | hlen
        · simp [hnone]
        · exact hlen.le
      simp only [ledgerIDBytes, maxPayloadBytes, maxEventBodyBytes] at *
      omega
    exact newEvent_eq_ok.mpr
      ⟨hmarshal, hsize, (validateEventStructure_encodeMap hcbor hsize).mpr ⟨hvalid, rfl⟩⟩

@[simp] theorem fields_eventOfWire (encoded : Bytes) (fields : EventFields) :
    (eventOfWire platform encoded fields.wire).fields = fields := by
  obtain ⟨ledgerID, sequence, previous, admittedAtUnixMS, kind, payloadVersion, payload⟩ := fields
  cases previous <;>
    simp [eventOfWire, EventFields.wire, newEventWire, StructuralEvent.fields,
      StructuralEvent.predecessor]

theorem fields_of_newEventOfFields (hcbor : platform.cbor.Conforms) {fields : EventFields}
    {event : StructuralEvent} (h : newEventOfFields platform fields = .ok event) :
    event.fields = fields := by
  obtain ⟨-, rfl⟩ := (newEventOfFields_eq_ok hcbor).mp h
  exact fields_eventOfWire _ _

theorem EventFields.valid_wire_iff {fields : EventFields} :
    fields.wire.Valid ↔ fields.sequence ≠ 0 ∧ fields.kind ≠ 0 ∧ fields.payloadVersion ≠ 0 ∧
      1 ≤ fields.payloadBytes.len ∧ fields.payloadBytes.len ≤ maxPayloadBytes := by
  constructor
  · intro h
    exact ⟨h.sequence, h.eventKind, h.payloadVersion, Nat.one_le_iff_ne_zero.mpr h.payloadNonempty,
      h.payloadBound⟩
  · rintro ⟨hsequence, hkind, hversion, hnonempty, hbound⟩
    refine ⟨rfl, fields.ledgerID.length_bytes, hsequence, ?_, hkind, hversion,
      Nat.one_le_iff_ne_zero.mp hnonempty, hbound⟩
    cases hprevious : fields.previousRecordDigest with
    | none => exact Or.inl (by simp [EventFields.wire, newEventWire, hprevious])
    | some digest => exact Or.inr (by simp [EventFields.wire, newEventWire, hprevious])

theorem length_pos_of_validateEventStructure (hcbor : platform.cbor.Conforms) {encoded : Bytes}
    {event : StructuralEvent} (h : validateEventStructure platform encoded = .ok event) :
    encoded.length ≠ 0 := by
  obtain ⟨wire, _, hmarshal, _, _⟩ := validateEventStructure_eq_ok h
  rw [Platform.marshal_eq hcbor (by decide)] at hmarshal
  rw [← Option.some.inj hmarshal]
  exact length_encodeMap_ne_zero _

/-! ### The record layers under a conforming codec -/

theorem RecordSpec.bytes_ne_empty {record : StructuralRecord} (hspec : RecordSpec platform record)
    (hcbor : platform.cbor.Conforms) : record.bytes.length ≠ 0 := by
  have houter := hspec.outer
  rw [Platform.marshal_eq hcbor (by decide)] at houter
  rw [← Option.some.inj houter]
  exact length_encodeMap_ne_zero _

variable (platform) in
/-- The record that a conforming codec builds around a validated event. -/
def encodedRecord (event : StructuralEvent) (signerKeyReference : Bytes)
    (signatureBytes : Slice) : StructuralRecord :=
  let body := encodeMap (Wire.entries (newRecordBodyWire event signerKeyReference signatureBytes))
  let recordDigest := digestRecordBody platform body
  { bytes := encodeMap (Wire.entries (newLedgerRecordWire body recordDigest))
    recordBodyBytes := body
    recordDigest := recordDigest
    event := event
    signerKeyReference := signerKeyReference
    signatureBytes := signatureBytes }

section

variable {event : StructuralEvent} {signerKeyReference : Bytes} {signatureBytes : Slice}

theorem utf8Valid_recordBodyWire (h : SignerKeyReference.Valid signerKeyReference) :
    ∀ entry ∈ Wire.entries (newRecordBodyWire event signerKeyReference signatureBytes),
      entry.2.utf8Valid = true := by
  have hreference : validUTF8 signerKeyReference = true :=
    validUTF8_of_ascii <| List.all_eq_true.mpr fun byte hbyte =>
      decide_eq_true (UInt8.lt_of_le_of_lt (h.printable byte hbyte).2 (by decide))
  have halgorithm : validUTF8 digestAlgorithmSHA256 = true := validUTF8_of_ascii (by decide)
  have hscheme : validUTF8 signatureAlgorithmP256 = true := validUTF8_of_ascii (by decide)
  have hencoding : validUTF8 signatureEncodingASN1DER = true := validUTF8_of_ascii (by decide)
  simp [Wire.entries, Wire.schema, Wire.toStruct, structEntries, newRecordBodyWire, hreference,
    halgorithm, hscheme, hencoding]

theorem utf8Valid_ledgerRecordWire (recordBodyBytes : Bytes) (recordDigest : Digest) :
    ∀ entry ∈ Wire.entries (newLedgerRecordWire recordBodyBytes recordDigest),
      entry.2.utf8Valid = true := by
  have halgorithm : validUTF8 digestAlgorithmSHA256 = true := validUTF8_of_ascii (by decide)
  simp [Wire.entries, Wire.schema, Wire.toStruct, structEntries, newLedgerRecordWire, halgorithm]

theorem length_encodedRecord_le (hevent : event.bytes.length ≤ maxEventBodyBytes)
    (hreference : SignerKeyReference.Valid signerKeyReference)
    (hsignature : isValidSignatureLength signatureBytes = true) :
    (encodedRecord platform event signerKeyReference signatureBytes).recordBodyBytes.length ≤
        maxRecordBodyBytes ∧
      (encodedRecord platform event signerKeyReference signatureBytes).bytes.length ≤
        maxLedgerRecordBytes := by
  have hbound := hreference.bound
  have hsigned := (isValidSignatureLength_iff.mp hsignature).2
  have halgorithm : digestAlgorithmSHA256.length = 7 := by decide
  have hscheme : signatureAlgorithmP256.length = 17 := by decide
  have hencoding : signatureEncodingASN1DER.length = 8 := by decide
  have hbody : (encodedRecord platform event signerKeyReference
      signatureBytes).recordBodyBytes.length ≤ 99105 := by
    refine (RecordBodyWire.length_encodeMap_le _).trans ?_
    simp only [newRecordBodyWire, Slice.len_some, FixedBytes.length_bytes, halgorithm, hscheme,
      hencoding, maxEventBodyBytes, maxSignerReferenceBytes, maxSignatureBytes] at *
    omega
  have houter : (encodedRecord platform event signerKeyReference signatureBytes).bytes.length ≤
      99225 := by
    refine (LedgerRecordWire.length_encodeMap_le _).trans ?_
    simp only [newLedgerRecordWire, Slice.len_some, FixedBytes.length_bytes, halgorithm]
    exact Nat.add_le_add_right (Nat.add_le_add_right (Nat.add_le_add_left hbody 81) 7) 32
  simp only [maxRecordBodyBytes, maxLedgerRecordBytes]
  omega

theorem newLedgerRecordWire_valid {body : Bytes} (hnonempty : body.length ≠ 0)
    (hbound : body.length ≤ maxRecordBodyBytes) (recordDigest : Digest) :
    (newLedgerRecordWire body recordDigest).Valid where
  recordVersion := rfl
  bodyNonempty := hnonempty
  bodyBound := hbound
  digestAlgorithm := rfl
  digestLength := FixedBytes.length_bytes _

theorem newRecordBodyWire_valid (hnonempty : event.bytes.length ≠ 0)
    (hbound : event.bytes.length ≤ maxEventBodyBytes)
    (hreference : SignerKeyReference.Valid signerKeyReference)
    (hsignature : isValidSignatureLength signatureBytes = true) :
    (newRecordBodyWire event signerKeyReference signatureBytes).Valid where
  recordVersion := rfl
  eventNonempty := hnonempty
  eventBound := hbound
  digestAlgorithm := rfl
  digestLength := FixedBytes.length_bytes _
  signerKeyReference := hreference
  signatureAlgorithm := rfl
  signatureEncoding := rfl
  signatureLength := hsignature

/-- The checks of `ValidateRecordStructure` after its two decodes. -/
theorem validateRecordStructure_of_decode {encoded body : Bytes}
    (houter : decodeCanonicalMap platform LedgerRecordWire encoded maxLedgerRecordBytes
      ledgerRecordKeys .ledgerRecord =
        .ok (newLedgerRecordWire body (digestRecordBody platform body)))
    (houterValid : (newLedgerRecordWire body (digestRecordBody platform body)).Valid)
    (hbody : decodeCanonicalMap platform RecordBodyWire body maxRecordBodyBytes recordBodyKeys
      .recordBody = .ok (newRecordBodyWire event signerKeyReference signatureBytes))
    (hbodyValid : (newRecordBodyWire event signerKeyReference signatureBytes).Valid)
    (hevent : validateEventStructure platform event.bytes = .ok event) :
    validateRecordStructure platform encoded =
      .ok ⟨encoded, body, digestRecordBody platform body, event, signerKeyReference,
        signatureBytes⟩ := by
  simp only [validateRecordStructure, bind_eq_ok, mapError_eq_ok, failIf_eq_ok,
    validateLedgerRecordWire_eq_ok, validateRecordBodyWire_eq_ok, not_not, exists_const]
  exact ⟨_, houter, houterValid, _, hbody, hbodyValid, rfl, rfl, event, hevent, rfl, rfl⟩

/-- **Validation accepts what construction encodes.** -/
theorem validateRecordStructure_encodedRecord (hcbor : platform.cbor.Conforms)
    (hevent : validateEventStructure platform event.bytes = .ok event)
    (hreference : SignerKeyReference.Valid signerKeyReference)
    (hsignature : isValidSignatureLength signatureBytes = true) :
    validateRecordStructure platform
        (encodedRecord platform event signerKeyReference signatureBytes).bytes =
      .ok (encodedRecord platform event signerKeyReference signatureBytes) := by
  obtain ⟨_, _, _, heventSize, _⟩ := validateEventStructure_eq_ok hevent
  have hnonempty := length_pos_of_validateEventStructure hcbor hevent
  obtain ⟨hbodySize, houterSize⟩ := length_encodedRecord_le heventSize hreference hsignature
  exact validateRecordStructure_of_decode
    (decodeCanonicalMap_marshal hcbor (by decide) (by decide) (utf8Valid_ledgerRecordWire _ _)
      houterSize (by decide))
    (newLedgerRecordWire_valid (length_encodeMap_ne_zero _) hbodySize _)
    (decodeCanonicalMap_marshal hcbor (by decide) (by decide) (utf8Valid_recordBodyWire hreference)
      hbodySize (by decide))
    (newRecordBodyWire_valid hnonempty heventSize hreference hsignature) hevent

theorem newRecord_eq_ok (hcbor : platform.cbor.Conforms) {record : StructuralRecord}
    (hevent : validateEventStructure platform event.bytes = .ok event) :
    newRecord platform event signerKeyReference signatureBytes = .ok record ↔
      SignerKeyReference.Valid signerKeyReference ∧
        isValidSignatureLength signatureBytes = true ∧
        record = encodedRecord platform event signerKeyReference signatureBytes := by
  constructor
  · intro h
    simp only [newRecord, bind_eq_ok, mapError_eq_ok, failIf_eq_ok,
      validateSignerKeyReference_eq_ok, encodeCanonical_eq_ok, exists_const,
      Bool.not_eq_false] at h
    obtain ⟨-, validated, hvalidated, hreference, hsignature, body, ⟨hbody, -⟩, outer,
      ⟨houter, -⟩, hrecord⟩ := h
    cases hevent.symm.trans hvalidated
    rw [Platform.marshal_eq hcbor (by decide)] at hbody houter
    cases hbody
    cases houter
    have hencoded := validateRecordStructure_encodedRecord hcbor hevent hreference hsignature
    exact ⟨hreference, hsignature, Except.ok.inj (hrecord.symm.trans hencoded)⟩
  · rintro ⟨hreference, hsignature, rfl⟩
    have hencoded := validateRecordStructure_encodedRecord hcbor hevent hreference hsignature
    exact newRecord_of_spec (recordSpec_of_validateRecordStructure hencoded).2 hencoded

end

/-! ### Construction and validation, end to end -/

theorem RecordFields.inDomain_iff {fields : RecordFields} :
    fields.InDomain ↔ fields.toEventFields.wire.Valid ∧
      SignerKeyReference.Valid fields.signerKeyReference ∧
      isValidSignatureLength fields.signatureBytes = true := by
  rw [EventFields.valid_wire_iff, isValidSignatureLength_iff]
  constructor
  · intro h
    exact ⟨⟨h.sequence, h.kind, h.payloadVersion, h.payloadBytes⟩,
      ⟨Nat.one_le_iff_ne_zero.mp h.signerKeyReference.1, h.signerKeyReference.2, h.printable⟩,
      h.signatureBytes⟩
  · rintro ⟨⟨hsequence, hkind, hversion, hpayload⟩, hreference, hsignature⟩
    exact ⟨hsequence, hkind, hversion, hpayload,
      ⟨Nat.one_le_iff_ne_zero.mpr hreference.nonempty, hreference.bound⟩, hreference.printable,
      hsignature⟩

/-- The record that a conforming codec builds from values in the domain. -/
theorem newRecordOfFields_eq_ok (hcbor : platform.cbor.Conforms) {fields : RecordFields}
    {record : StructuralRecord} :
    newRecordOfFields platform fields = .ok record ↔
      fields.InDomain ∧
        record = encodedRecord platform
          (eventOfWire platform (encodeMap (Wire.entries fields.toEventFields.wire))
            fields.toEventFields.wire)
          fields.signerKeyReference fields.signatureBytes := by
  rw [RecordFields.inDomain_iff, newRecordOfFields, bind_eq_ok]
  constructor
  · rintro ⟨event, hevent, hrecord⟩
    obtain ⟨-, -, hvalidate⟩ := newEvent_eq_ok.mp hevent
    obtain ⟨hvalid, rfl⟩ := (newEventOfFields_eq_ok hcbor).mp hevent
    obtain ⟨hreference, hsignature, rfl⟩ := (newRecord_eq_ok hcbor hvalidate).mp hrecord
    exact ⟨⟨hvalid, hreference, hsignature⟩, rfl⟩
  · rintro ⟨⟨hvalid, hreference, hsignature⟩, rfl⟩
    have hevent := (newEventOfFields_eq_ok hcbor).mpr ⟨hvalid, rfl⟩
    obtain ⟨-, -, hvalidate⟩ := newEvent_eq_ok.mp hevent
    exact ⟨_, hevent, (newRecord_eq_ok hcbor hvalidate).mpr ⟨hreference, hsignature, rfl⟩⟩

theorem validateRecordStructure_of_newRecord {event : StructuralEvent} {reference : Bytes}
    {signature : Slice} {record : StructuralRecord}
    (h : newRecord platform event reference signature = .ok record) :
    validateRecordStructure platform record.bytes = .ok record := by
  simp only [newRecord, bind_eq_ok] at h
  obtain ⟨_, _, _, _, _, _, _, _, _, _, outer, _, hvalidate⟩ := h
  rwa [bytes_of_validateRecordStructure hvalidate]

theorem digest_of_validateEventStructure {encoded : Bytes} {event : StructuralEvent}
    (h : validateEventStructure platform encoded = .ok event) :
    event.digest = digestEventBody platform event.bytes := by
  obtain ⟨wire, -, -, -, rfl⟩ := validateEventStructure_eq_ok h
  rfl

/-- Values in the domain are those of some validated record. -/
theorem exists_validatedRecord (hcbor : platform.cbor.Conforms) {fields : RecordFields}
    (h : fields.InDomain) :
    ∃ validated : ValidatedRecord platform, validated.record.fields = fields := by
  have hnew := (newRecordOfFields_eq_ok hcbor).mpr ⟨h, rfl⟩
  obtain ⟨event, -, hrecord⟩ := bind_eq_ok.mp hnew
  refine ⟨⟨_, validateRecordStructure_of_newRecord hrecord⟩, ?_⟩
  simp [StructuralRecord.fields, encodedRecord]

/-- A constructed record validates and has the values it was given. -/
theorem validated_of_newRecordOfFields (hcbor : platform.cbor.Conforms) {fields : RecordFields}
    {record : StructuralRecord} (h : newRecordOfFields platform fields = .ok record) :
    ∃ validated : ValidatedRecord platform, validated.record = record ∧ record.fields = fields := by
  obtain ⟨event, -, hnew⟩ := bind_eq_ok.mp h
  refine ⟨⟨record, validateRecordStructure_of_newRecord hnew⟩, rfl, ?_⟩
  obtain ⟨-, rfl⟩ := (newRecordOfFields_eq_ok hcbor).mp h
  simp [StructuralRecord.fields, encodedRecord]

/-- The values of a validated record lie in the domain. -/
theorem ValidatedRecord.inDomain (hcbor : platform.cbor.Conforms)
    (validated : ValidatedRecord platform) : validated.record.fields.InDomain :=
  ((newRecordOfFields_eq_ok hcbor).mp (rebuildRecord_of_validate validated.valid)).1

/-- **Construction succeeds exactly on the domain and round-trips.**  The
container limits never reject values in the domain, and the accessors return
what construction was given. -/
theorem newRecord_iff_inDomain (platform : Platform) (hcbor : platform.cbor.Conforms)
    (fields : RecordFields) :
    ((∃ record, newRecordOfFields platform fields = .ok record) ↔ fields.InDomain) ∧
    ∀ record, newRecordOfFields platform fields = .ok record →
      validateRecordStructure platform record.bytes = .ok record ∧
      record.fields = fields ∧
      record.event.digest = digestEventBody platform record.event.bytes ∧
      record.recordDigest = digestRecordBody platform record.recordBodyBytes := by
  refine ⟨⟨?_, ?_⟩, ?_⟩
  · rintro ⟨record, hrecord⟩
    exact ((newRecordOfFields_eq_ok hcbor).mp hrecord).1
  · intro hdomain
    exact ⟨_, (newRecordOfFields_eq_ok hcbor).mpr ⟨hdomain, rfl⟩⟩
  · intro record hrecord
    obtain ⟨validated, rfl, hfields⟩ := validated_of_newRecordOfFields hcbor hrecord
    exact ⟨validated.valid, hfields, digest_of_validateEventStructure validated.spec.event,
      validated.spec.recordDigest⟩

/-- **The decoders are canonical**, for every codec.  Rebuilding a validated
record or event from its accessors gives back the bytes it was read from, so the
accessors determine the bytes. -/
theorem validate_rebuilds (platform : Platform) :
    (∀ encoded record, validateRecordStructure platform encoded = .ok record →
      ∃ rebuilt, newRecordOfFields platform record.fields = .ok rebuilt ∧
        rebuilt.bytes = encoded) ∧
    (∀ left right first second, validateRecordStructure platform left = .ok first →
      validateRecordStructure platform right = .ok second → first.fields = second.fields →
      left = right) ∧
    (∀ encoded event, validateEventStructure platform encoded = .ok event →
      ∃ rebuilt, newEventOfFields platform event.fields = .ok rebuilt ∧
        rebuilt.bytes = encoded) ∧
    (∀ left right first second, validateEventStructure platform left = .ok first →
      validateEventStructure platform right = .ok second → first.fields = second.fields →
      left = right) := by
  refine ⟨?_, ?_, ?_, ?_⟩
  · intro encoded record h
    exact ⟨record, rebuildRecord_of_validate h, bytes_of_validateRecordStructure h⟩
  · intro left right first second hleft hright hfields
    have hfirst := rebuildRecord_of_validate hleft
    rw [hfields, rebuildRecord_of_validate hright] at hfirst
    rw [← bytes_of_validateRecordStructure hleft, ← bytes_of_validateRecordStructure hright,
      Except.ok.inj hfirst]
  · intro encoded event h
    exact ⟨event, rebuildEvent_of_validate h, bytes_of_validateEventStructure h⟩
  · intro left right first second hleft hright hfields
    have hfirst := rebuildEvent_of_validate hleft
    rw [hfields, rebuildEvent_of_validate hright] at hfirst
    rw [← bytes_of_validateEventStructure hleft, ← bytes_of_validateEventStructure hright,
      Except.ok.inj hfirst]

/-! ### The golden vector -/

/-- The inputs of `protocol/ledger/v1/testdata/genesis-v1.json`. -/
def goldenGenesisFields : RecordFields where
  ledgerID := ⟨(List.range 32).map UInt8.ofNat, by simp⟩
  sequence := 1
  previousRecordDigest := none
  admittedAtUnixMS := 1735689600123
  kind := eventKindLedgerInitialized
  payloadVersion := ledgerInitializedPayloadVersionV1
  payloadBytes := some ledgerInitializedPayloadCBOR
  signerKeyReference := ascii (
    "projects/attribution-chain-505000/locations/global/keyRings/system-signing/cryptoKeys/" ++
    "ledger-admission/cryptoKeyVersions/1")
  signatureBytes := some [0x30, 0x06, 0x02, 0x01, 0x01, 0x02, 0x01, 0x01]

/-- The file `genesis-ledger-record.cbor`. -/
def goldenGenesisRecord : Bytes :=
  beBytes 40 0xa4000101590111a8000101583ba80001015820000102030405060708090a0b0c0d0e0f1011121314 ++
    beBytes 40 0x15161718191a1b1c1d1e1f020103f6041b000001941f297c7b050106010741a002677368612d3235 ++
    beBytes 40 0x3603582026bab9e3db670d0bb9bb1bbaff5fe975f19359c28409401abe6c316c82e9df7204787a70 ++
    beBytes 40 0x726f6a656374732f6174747269627574696f6e2d636861696e2d3530353030302f6c6f636174696f ++
    beBytes 40 0x6e732f676c6f62616c2f6b657952696e67732f73797374656d2d7369676e696e672f63727970746f ++
    beBytes 40 0x4b6579732f6c65646765722d61646d697373696f6e2f63727970746f4b657956657273696f6e732f ++
    beBytes 40 0x31057165636473612d703235362d736861323536066861736e312d64657207483006020101020101 ++
    beBytes 40 0x02677368612d3235360358203c9758df59d7a938da29f4cb5d82b7c99a446cfad07e4d890dd3edfc ++
    beBytes 4 0x8ab4f035

/-! ### A ledger of three records

The golden genesis record, an endorsement and its revocation, byte for byte.  The two
payloads are those of `internal/endorsement/v1`: a base point endorses its opposite
on the topic `a`, and revokes that.  No signature is verified here. -/

/-- The executable platform, without a signature check. -/
def goldenPlatform : Platform := Platform.reference fun _ _ _ => false

theorem goldenPlatform_conforms : goldenPlatform.cbor.Conforms := reference_conforms

def goldenGenesisDigest : Digest :=
  .copyFrom 32 (beBytes 32 0x3c9758df59d7a938da29f4cb5d82b7c99a446cfad07e4d890dd3edfc8ab4f035)

def goldenEndorsementDigest : Digest :=
  .copyFrom 32 (beBytes 32 0x7f206c63104d9d0727d3fab1f05ad5fbc014b62b5a810490e772817e4d463fc8)

def goldenRevocationDigest : Digest :=
  .copyFrom 32 (beBytes 32 0x4209458d86709d70140f4937c817a5ca7fc11e167dbd94d9ec9860f6e66c937c)

def goldenEndorsementPayload : Bytes :=
  beBytes 40 0xa90001015841046b17d1f2e12c4247f8bce6e563a440f277037d812deb33a0f4a13945d898c2964f ++
    beBytes 40 0xe342e2fe1a7f9b8ee7eb4a7c0f9e162bce33576b315ececbb6406837bf51f5025841046b17d1f2e1 ++
    beBytes 40 0x2c4247f8bce6e563a440f277037d812deb33a0f4a13945d898c296b01cbd1c01e58065711814b583 ++
    beBytes 40 0xf061e9d431cca994cea1313449bf97c840ae0a036161044100050106483006020101020101070208 ++
    beBytes 9 0x483006020101020101

def goldenRevocationPayload : Bytes :=
  beBytes 40 0xa700010158207f206c63104d9d0727d3fab1f05ad5fbc014b62b5a810490e772817e4d463fc80258 ++
    beBytes 40 0x41046b17d1f2e12c4247f8bce6e563a440f277037d812deb33a0f4a13945d898c2964fe342e2fe1a ++
    beBytes 40 0x7f9b8ee7eb4a7c0f9e162bce33576b315ececbb6406837bf51f50301040305617206483006020101 ++
    beBytes 3 0x020101

def goldenEndorsementFields : RecordFields :=
  { goldenGenesisFields with
    sequence := 2
    previousRecordDigest := some goldenGenesisDigest
    kind := eventKindEndorsementAccepted
    payloadBytes := some goldenEndorsementPayload }

def goldenRevocationFields : RecordFields :=
  { goldenGenesisFields with
    sequence := 3
    previousRecordDigest := some goldenEndorsementDigest
    kind := eventKindEndorsementRevoked
    payloadBytes := some goldenRevocationPayload }

def goldenEndorsementRecord : Bytes :=
  beBytes 40 0xa40001015901dca8000101590105a80001015820000102030405060708090a0b0c0d0e0f10111213 ++
    beBytes 40 0x1415161718191a1b1c1d1e1f02020358203c9758df59d7a938da29f4cb5d82b7c99a446cfad07e4d ++
    beBytes 40 0x890dd3edfc8ab4f035041b000001941f297c7b050206010758a9a90001015841046b17d1f2e12c42 ++
    beBytes 40 0x47f8bce6e563a440f277037d812deb33a0f4a13945d898c2964fe342e2fe1a7f9b8ee7eb4a7c0f9e ++
    beBytes 40 0x162bce33576b315ececbb6406837bf51f5025841046b17d1f2e12c4247f8bce6e563a440f277037d ++
    beBytes 40 0x812deb33a0f4a13945d898c296b01cbd1c01e58065711814b583f061e9d431cca994cea1313449bf ++
    beBytes 40 0x97c840ae0a0361610441000501064830060201010201010702084830060201010201010267736861 ++
    beBytes 40 0x2d3235360358202f0d134ec99b497fb5d50aae3f476e423b5ee8db4c1c2e3d58c4e10ba23048cd04 ++
    beBytes 40 0x787a70726f6a656374732f6174747269627574696f6e2d636861696e2d3530353030302f6c6f6361 ++
    beBytes 40 0x74696f6e732f676c6f62616c2f6b657952696e67732f73797374656d2d7369676e696e672f637279 ++
    beBytes 40 0x70746f4b6579732f6c65646765722d61646d697373696f6e2f63727970746f4b657956657273696f ++
    beBytes 40 0x6e732f31057165636473612d703235362d736861323536066861736e312d64657207483006020101 ++
    beBytes 40 0x02010102677368612d3235360358207f206c63104d9d0727d3fab1f05ad5fbc014b62b5a810490e7 ++
    beBytes 7 0x72817e4d463fc8

def goldenRevocationRecord : Bytes :=
  beBytes 40 0xa40001015901ada800010158d7a80001015820000102030405060708090a0b0c0d0e0f1011121314 ++
    beBytes 40 0x15161718191a1b1c1d1e1f02030358207f206c63104d9d0727d3fab1f05ad5fbc014b62b5a810490 ++
    beBytes 40 0xe772817e4d463fc8041b000001941f297c7b0503060107587ba700010158207f206c63104d9d0727 ++
    beBytes 40 0xd3fab1f05ad5fbc014b62b5a810490e772817e4d463fc8025841046b17d1f2e12c4247f8bce6e563 ++
    beBytes 40 0xa440f277037d812deb33a0f4a13945d898c2964fe342e2fe1a7f9b8ee7eb4a7c0f9e162bce33576b ++
    beBytes 40 0x315ececbb6406837bf51f5030104030561720648300602010102010102677368612d323536035820 ++
    beBytes 40 0x660b892d965df4ec05632e650949d8b2c110c42be1d292d90bb557ac0996fb4b04787a70726f6a65 ++
    beBytes 40 0x6374732f6174747269627574696f6e2d636861696e2d3530353030302f6c6f636174696f6e732f67 ++
    beBytes 40 0x6c6f62616c2f6b657952696e67732f73797374656d2d7369676e696e672f63727970746f4b657973 ++
    beBytes 40 0x2f6c65646765722d61646d697373696f6e2f63727970746f4b657956657273696f6e732f31057165 ++
    beBytes 40 0x636473612d703235362d736861323536066861736e312d6465720748300602010102010102677368 ++
    beBytes 40 0x612d3235360358204209458d86709d70140f4937c817a5ca7fc11e167dbd94d9ec9860f6e66c937c

/-- The three records, read from their bytes. -/
structure GoldenLedger where
  genesis : ValidatedRecord goldenPlatform
  endorsement : ValidatedRecord goldenPlatform
  revocation : ValidatedRecord goldenPlatform
  genesis_bytes : genesis.record.bytes = goldenGenesisRecord
  endorsement_bytes : endorsement.record.bytes = goldenEndorsementRecord
  revocation_bytes : revocation.record.bytes = goldenRevocationRecord
  genesis_fields : genesis.record.fields = goldenGenesisFields
  endorsement_fields : endorsement.record.fields = goldenEndorsementFields
  revocation_fields : revocation.record.fields = goldenRevocationFields
  genesis_digest : genesis.record.recordDigest = goldenGenesisDigest
  endorsement_digest : endorsement.record.recordDigest = goldenEndorsementDigest
  revocation_digest : revocation.record.recordDigest = goldenRevocationDigest

variable (platform) in
/-- The field values and the digest that validation reads off a record. -/
def readRecord (encoded : Bytes) : Option (RecordFields × Digest) :=
  (validateRecordStructure platform encoded).toOption.map fun record =>
    (record.fields, record.recordDigest)

theorem exists_validated_of_readRecord {encoded : Bytes} {fields : RecordFields} {digest : Digest}
    (h : readRecord platform encoded = some (fields, digest)) :
    ∃ validated : ValidatedRecord platform, validated.record.bytes = encoded ∧
      validated.record.fields = fields ∧ validated.record.recordDigest = digest := by
  rw [readRecord, Option.map_eq_some_iff] at h
  obtain ⟨record, hrecord, hread⟩ := h
  have hvalidate := toOption_eq_some.mp hrecord
  have hbytes := bytes_of_validateRecordStructure hvalidate
  exact ⟨⟨record, hbytes.symm ▸ hvalidate⟩, hbytes, congrArg Prod.fst hread,
    congrArg Prod.snd hread⟩

theorem goldenLedger_evaluates : Nonempty GoldenLedger := by
  obtain ⟨genesis, hgenesis, hgenesisFields, hgenesisDigest⟩ := exists_validated_of_readRecord
    (show readRecord goldenPlatform goldenGenesisRecord =
      some (goldenGenesisFields, goldenGenesisDigest) by decide +kernel)
  obtain ⟨endorsement, hendorsement, hendorsementFields, hendorsementDigest⟩ :=
    exists_validated_of_readRecord (show readRecord goldenPlatform goldenEndorsementRecord =
      some (goldenEndorsementFields, goldenEndorsementDigest) by decide +kernel)
  obtain ⟨revocation, hrevocation, hrevocationFields, hrevocationDigest⟩ :=
    exists_validated_of_readRecord (show readRecord goldenPlatform goldenRevocationRecord =
      some (goldenRevocationFields, goldenRevocationDigest) by decide +kernel)
  exact ⟨genesis, endorsement, revocation, hgenesis, hendorsement, hrevocation, hgenesisFields,
    hendorsementFields, hrevocationFields, hgenesisDigest, hendorsementDigest, hrevocationDigest⟩

theorem goldenGenesisRecord_rebuilds :
    ∃ record, validateRecordStructure (Platform.reference fun _ _ _ => false)
        goldenGenesisRecord = .ok record ∧
      ∃ rebuilt, newRecordOfFields (Platform.reference fun _ _ _ => false) record.fields =
        .ok rebuilt ∧ rebuilt.bytes = goldenGenesisRecord := by
  obtain ⟨golden⟩ := goldenLedger_evaluates
  have hvalid := golden.genesis.valid
  rw [golden.genesis_bytes] at hvalid
  exact ⟨golden.genesis.record, hvalid, (validate_rebuilds _).1 _ _ hvalid⟩

theorem goldenGenesisFields_inDomain : goldenGenesisFields.InDomain := by
  obtain ⟨golden⟩ := goldenLedger_evaluates
  rw [← golden.genesis_fields]
  exact golden.genesis.inDomain goldenPlatform_conforms

theorem goldenGenesisFields_construct :
    ∃ record, newRecordOfFields (Platform.reference fun _ _ _ => false) goldenGenesisFields =
        .ok record ∧ record.fields = goldenGenesisFields := by
  have hspec := newRecord_iff_inDomain (Platform.reference fun _ _ _ => false) reference_conforms
    goldenGenesisFields
  obtain ⟨record, hrecord⟩ := hspec.1.mpr goldenGenesisFields_inDomain
  exact ⟨record, hrecord, (hspec.2 record hrecord).2.1⟩

end AttributionChain.Ledger

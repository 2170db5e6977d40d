import AttributionChain.LedgerEvent

/-!
# Ledger records

`internal/ledger/v1/record.go`.  A record nests three canonical maps: the outer
record carries the record body and its digest, the record body carries the event
body, its digest, the signer's key reference and the signature, and the event
body carries the payload.  `validateRecordStructure` checks them outside in.

`RecordSpec` collects what a successful validation has established about the
record it returns.  Everything the development proves about validated records
starts there.  `ValidatedRecord` packages a record with its validation, so that
a list of validated records is a type.
-/

namespace AttributionChain.Ledger

open Cbor

structure StructuralRecord where
  bytes : Bytes
  recordBodyBytes : Bytes
  recordDigest : Digest
  event : StructuralEvent
  signerKeyReference : Bytes
  signatureBytes : Slice
deriving DecidableEq

def StructuralRecord.zero : StructuralRecord where
  bytes := []
  recordBodyBytes := []
  recordDigest := FixedBytes.zero 32
  event := .zero
  signerKeyReference := []
  signatureBytes := none

structure RecordBodyWire where
  recordVersion : UInt64
  eventBodyBytes : Slice
  eventDigestAlgorithm : Bytes
  eventDigest : Slice
  signerKeyReference : Bytes
  signatureAlgorithm : Bytes
  signatureEncoding : Bytes
  signatureBytes : Slice
deriving DecidableEq

instance : Wire RecordBodyWire where
  schema :=
    [(0, .uint64), (1, .byteSlice), (2, .string), (3, .byteSlice), (4, .string), (5, .string),
      (6, .string), (7, .byteSlice)]
  toStruct wire :=
    (wire.recordVersion, wire.eventBodyBytes, wire.eventDigestAlgorithm, wire.eventDigest,
      wire.signerKeyReference, wire.signatureAlgorithm, wire.signatureEncoding,
      wire.signatureBytes, ())
  ofStruct := fun (recordVersion, eventBodyBytes, eventDigestAlgorithm, eventDigest,
      signerKeyReference, signatureAlgorithm, signatureEncoding, signatureBytes, _) =>
    { recordVersion, eventBodyBytes, eventDigestAlgorithm, eventDigest, signerKeyReference,
      signatureAlgorithm, signatureEncoding, signatureBytes }
  ofStruct_toStruct _ := rfl
  toStruct_ofStruct _ := rfl

/-- The key constants `recordBodyKeyVersion` to `recordBodyKeySignatureBytes`. -/
def recordBodyKeys : List UInt64 := [0, 1, 2, 3, 4, 5, 6, 7]

structure LedgerRecordWire where
  recordVersion : UInt64
  recordBodyBytes : Slice
  recordDigestAlgorithm : Bytes
  recordDigest : Slice
deriving DecidableEq

instance : Wire LedgerRecordWire where
  schema := [(0, .uint64), (1, .byteSlice), (2, .string), (3, .byteSlice)]
  toStruct wire :=
    (wire.recordVersion, wire.recordBodyBytes, wire.recordDigestAlgorithm, wire.recordDigest, ())
  ofStruct := fun (recordVersion, recordBodyBytes, recordDigestAlgorithm, recordDigest, _) =>
    { recordVersion, recordBodyBytes, recordDigestAlgorithm, recordDigest }
  ofStruct_toStruct _ := rfl
  toStruct_ofStruct _ := rfl

/-- The key constants `ledgerRecordKeyVersion` to `ledgerRecordKeyDigest`. -/
def ledgerRecordKeys : List UInt64 := [0, 1, 2, 3]

/-! ### Field checks -/

def validateSignerKeyReference (reference : Bytes) : Except ErrorKind Unit := do
  failIf (reference.length = 0 ∨ reference.length > maxSignerReferenceBytes) .schemaViolation
  failIf (∃ byte ∈ reference, byte < 0x20 ∨ byte > 0x7E) .schemaViolation

def isValidSignatureLength (signatureBytes : Slice) : Bool :=
  signatureBytes.len ≥ minSignatureBytes && signatureBytes.len ≤ maxSignatureBytes

def validateLedgerRecordWire (wire : LedgerRecordWire) : Except ErrorKind Unit := do
  failIf (wire.recordVersion ≠ recordVersionV1) .unsupportedVersion
  failIf (wire.recordBodyBytes.len = 0 ∨ wire.recordBodyBytes.len > maxRecordBodyBytes)
    .schemaViolation
  failIf (wire.recordDigestAlgorithm ≠ digestAlgorithmSHA256 ∨
    wire.recordDigest.len ≠ digestBytes) .schemaViolation

def validateRecordBodyWire (wire : RecordBodyWire) : Except ErrorKind Unit := do
  failIf (wire.recordVersion ≠ recordVersionV1) .unsupportedVersion
  failIf (wire.eventBodyBytes.len = 0 ∨ wire.eventBodyBytes.len > maxEventBodyBytes)
    .schemaViolation
  failIf (wire.eventDigestAlgorithm ≠ digestAlgorithmSHA256 ∨ wire.eventDigest.len ≠ digestBytes)
    .schemaViolation
  validateSignerKeyReference wire.signerKeyReference
  failIf (wire.signatureAlgorithm ≠ signatureAlgorithmP256 ∨
    wire.signatureEncoding ≠ signatureEncodingASN1DER) .schemaViolation
  failIf (isValidSignatureLength wire.signatureBytes = false) .schemaViolation

/-- A key reference is 1 to 512 bytes of printable ASCII. -/
structure SignerKeyReference.Valid (reference : Bytes) : Prop where
  nonempty : reference.length ≠ 0
  bound : reference.length ≤ maxSignerReferenceBytes
  printable : ∀ byte ∈ reference, 0x20 ≤ byte ∧ byte ≤ 0x7E

theorem validateSignerKeyReference_eq_ok {reference : Bytes} {done : Unit} :
    validateSignerKeyReference reference = .ok done ↔ SignerKeyReference.Valid reference := by
  simp only [validateSignerKeyReference, bind_eq_ok, failIf_eq_ok, exists_const, not_or, not_lt,
    not_exists, not_and, gt_iff_lt, UInt8.not_lt]
  constructor
  · rintro ⟨⟨hnonempty, hbound⟩, hprintable⟩
    exact ⟨hnonempty, hbound, hprintable⟩
  · intro h
    exact ⟨⟨h.nonempty, h.bound⟩, h.printable⟩

theorem isValidSignatureLength_iff {signatureBytes : Slice} :
    isValidSignatureLength signatureBytes = true ↔
      minSignatureBytes ≤ signatureBytes.len ∧ signatureBytes.len ≤ maxSignatureBytes := by
  simp [isValidSignatureLength]

structure LedgerRecordWire.Valid (wire : LedgerRecordWire) : Prop where
  recordVersion : wire.recordVersion = recordVersionV1
  bodyNonempty : wire.recordBodyBytes.len ≠ 0
  bodyBound : wire.recordBodyBytes.len ≤ maxRecordBodyBytes
  digestAlgorithm : wire.recordDigestAlgorithm = digestAlgorithmSHA256
  digestLength : wire.recordDigest.len = digestBytes

theorem validateLedgerRecordWire_eq_ok {wire : LedgerRecordWire} {done : Unit} :
    validateLedgerRecordWire wire = .ok done ↔ wire.Valid := by
  simp only [validateLedgerRecordWire, bind_eq_ok, failIf_eq_ok, exists_const, not_or, not_lt,
    not_not, gt_iff_lt]
  constructor
  · rintro ⟨hversion, ⟨hnonempty, hbound⟩, halgorithm, hdigest⟩
    exact ⟨hversion, hnonempty, hbound, halgorithm, hdigest⟩
  · intro h
    exact ⟨h.recordVersion, ⟨h.bodyNonempty, h.bodyBound⟩, h.digestAlgorithm, h.digestLength⟩

structure RecordBodyWire.Valid (wire : RecordBodyWire) : Prop where
  recordVersion : wire.recordVersion = recordVersionV1
  eventNonempty : wire.eventBodyBytes.len ≠ 0
  eventBound : wire.eventBodyBytes.len ≤ maxEventBodyBytes
  digestAlgorithm : wire.eventDigestAlgorithm = digestAlgorithmSHA256
  digestLength : wire.eventDigest.len = digestBytes
  signerKeyReference : SignerKeyReference.Valid wire.signerKeyReference
  signatureAlgorithm : wire.signatureAlgorithm = signatureAlgorithmP256
  signatureEncoding : wire.signatureEncoding = signatureEncodingASN1DER
  signatureLength : isValidSignatureLength wire.signatureBytes = true

theorem validateRecordBodyWire_eq_ok {wire : RecordBodyWire} {done : Unit} :
    validateRecordBodyWire wire = .ok done ↔ wire.Valid := by
  simp only [validateRecordBodyWire, bind_eq_ok, failIf_eq_ok, exists_const, not_or, not_lt,
    not_not, gt_iff_lt, validateSignerKeyReference_eq_ok, Bool.not_eq_false]
  constructor
  · rintro ⟨hversion, ⟨hnonempty, hbound⟩, ⟨halgorithm, hdigest⟩, hreference,
      ⟨hsignature, hencoding⟩, hlength⟩
    exact ⟨hversion, hnonempty, hbound, halgorithm, hdigest, hreference, hsignature, hencoding,
      hlength⟩
  · intro h
    exact ⟨h.recordVersion, ⟨h.eventNonempty, h.eventBound⟩, ⟨h.digestAlgorithm, h.digestLength⟩,
      h.signerKeyReference, ⟨h.signatureAlgorithm, h.signatureEncoding⟩, h.signatureLength⟩

/-! ### Construction and validation -/

variable (platform : Platform)

def digestRecordBody (recordBodyBytes : Bytes) : Digest :=
  domainSeparatedDigest platform domainRecordDigestV1 recordBodyBytes

/-- The record body that `NewRecord` encodes around an event. -/
def newRecordBodyWire (event : StructuralEvent) (signerKeyReference : Bytes)
    (signatureBytes : Slice) : RecordBodyWire where
  recordVersion := recordVersionV1
  eventBodyBytes := some event.bytes
  eventDigestAlgorithm := digestAlgorithmSHA256
  eventDigest := some event.digest.bytes
  signerKeyReference := signerKeyReference
  signatureAlgorithm := signatureAlgorithmP256
  signatureEncoding := signatureEncodingASN1DER
  signatureBytes := signatureBytes

/-- The outer record that `NewRecord` encodes around a record body. -/
def newLedgerRecordWire (recordBodyBytes : Bytes) (recordDigest : Digest) : LedgerRecordWire where
  recordVersion := recordVersionV1
  recordBodyBytes := some recordBodyBytes
  recordDigestAlgorithm := digestAlgorithmSHA256
  recordDigest := some recordDigest.bytes

def validateRecordStructure (encoded : Bytes) : Except ValidationError StructuralRecord := do
  let outer ← decodeCanonicalMap platform LedgerRecordWire encoded maxLedgerRecordBytes
    ledgerRecordKeys .ledgerRecord
  (validateLedgerRecordWire outer).mapError (wrapValidationError .ledgerRecord)
  let body ← decodeCanonicalMap platform RecordBodyWire (outer.recordBodyBytes.getD [])
    maxRecordBodyBytes recordBodyKeys .recordBody
  (validateRecordBodyWire body).mapError (wrapValidationError .recordBody)
  failIf (outer.recordVersion ≠ body.recordVersion)
    (wrapValidationError .ledgerRecord .schemaViolation)
  let recordDigest := digestRecordBody platform (outer.recordBodyBytes.getD [])
  failIf (recordDigest.bytes ≠ outer.recordDigest.getD [])
    (wrapValidationError .ledgerRecord .digestMismatch)
  let event ← validateEventStructure platform (body.eventBodyBytes.getD [])
  failIf (event.digest.bytes ≠ body.eventDigest.getD [])
    (wrapValidationError .recordBody .digestMismatch)
  return {
    bytes := encoded
    recordBodyBytes := outer.recordBodyBytes.getD []
    recordDigest := recordDigest
    event := event
    signerKeyReference := body.signerKeyReference
    signatureBytes := body.signatureBytes }

def newRecord (event : StructuralEvent) (signerKeyReference : Bytes) (signatureBytes : Slice) :
    Except ValidationError StructuralRecord := do
  failIf (event.bytes.length = 0) (wrapValidationError .eventBody .schemaViolation)
  let validatedEvent ← validateEventStructure platform event.bytes
  (validateSignerKeyReference signerKeyReference).mapError (wrapValidationError .recordBody)
  failIf (isValidSignatureLength signatureBytes = false)
    (wrapValidationError .recordBody .schemaViolation)
  let recordBodyBytes ← encodeCanonical platform
    (newRecordBodyWire validatedEvent signerKeyReference signatureBytes) maxRecordBodyBytes
    .recordBody
  let recordDigest := digestRecordBody platform recordBodyBytes
  let encoded ← encodeCanonical platform (newLedgerRecordWire recordBodyBytes recordDigest)
    maxLedgerRecordBytes .ledgerRecord
  validateRecordStructure platform encoded

/-! ### What a validated record is -/

/-- The facts that `ValidateRecordStructure` has established about its result. -/
structure RecordSpec (record : StructuralRecord) : Prop where
  event : validateEventStructure platform record.event.bytes = .ok record.event
  eventNonempty : record.event.bytes.length ≠ 0
  signerKeyReference : SignerKeyReference.Valid record.signerKeyReference
  signatureLength : isValidSignatureLength record.signatureBytes = true
  body : platform.marshal protocolEncMode (newRecordBodyWire record.event
    record.signerKeyReference record.signatureBytes) = some record.recordBodyBytes
  bodyBound : record.recordBodyBytes.length ≤ maxRecordBodyBytes
  recordDigest : record.recordDigest = digestRecordBody platform record.recordBodyBytes
  outer : platform.marshal protocolEncMode (newLedgerRecordWire record.recordBodyBytes
    record.recordDigest) = some record.bytes
  outerBound : record.bytes.length ≤ maxLedgerRecordBytes

variable {platform}

/-- A slice of the length of an array, filled from one, is that array's bytes. -/
theorem slice_eq_some_of_bytes {slice : Slice} {content : Bytes} (hnonempty : slice.len ≠ 0)
    (h : content = slice.getD []) : slice = some content := by
  obtain ⟨bytes, rfl⟩ := Slice.exists_of_len_pos slice (Nat.pos_of_ne_zero hnonempty)
  rw [h]
  rfl

theorem recordSpec_of_validateRecordStructure {encoded : Bytes} {record : StructuralRecord}
    (h : validateRecordStructure platform encoded = .ok record) :
    record.bytes = encoded ∧ RecordSpec platform record := by
  simp only [validateRecordStructure, bind_eq_ok, mapError_eq_ok, failIf_eq_ok,
    validateLedgerRecordWire_eq_ok, validateRecordBodyWire_eq_ok, not_not, exists_const] at h
  obtain ⟨outer, houter, houterValid, body, hbody, hbodyValid, -, hrecordDigest, event, hevent,
    heventDigest, hreturn⟩ := h
  obtain ⟨houterSize, houterMarshal⟩ := decodeCanonicalMap_spec houter
  obtain ⟨hbodySize, hbodyMarshal⟩ := decodeCanonicalMap_spec hbody
  cases hreturn
  have heventBytes := bytes_of_validateEventStructure hevent
  -- each wire struct is the one that construction would build from the parts
  have hbodyWire : newRecordBodyWire event body.signerKeyReference body.signatureBytes = body := by
    have hbytes := slice_eq_some_of_bytes hbodyValid.eventNonempty heventBytes
    have hdigest := slice_eq_some_of_bytes (by rw [hbodyValid.digestLength]; decide) heventDigest
    rw [newRecordBodyWire, ← hbytes, ← hdigest, ← hbodyValid.recordVersion,
      ← hbodyValid.digestAlgorithm, ← hbodyValid.signatureAlgorithm, ← hbodyValid.signatureEncoding]
  have houterWire : newLedgerRecordWire (outer.recordBodyBytes.getD [])
      (digestRecordBody platform (outer.recordBodyBytes.getD [])) = outer := by
    have hbytes := slice_eq_some_of_bytes houterValid.bodyNonempty rfl
    have hdigest := slice_eq_some_of_bytes (by rw [houterValid.digestLength]; decide) hrecordDigest
    rw [newLedgerRecordWire, ← hbytes, ← hdigest, ← houterValid.recordVersion,
      ← houterValid.digestAlgorithm]
  refine ⟨rfl, ?_⟩
  exact {
    event := heventBytes ▸ hevent
    eventNonempty := heventBytes ▸ hbodyValid.eventNonempty
    signerKeyReference := hbodyValid.signerKeyReference
    signatureLength := hbodyValid.signatureLength
    body := by rw [hbodyWire]; exact hbodyMarshal
    bodyBound := houterValid.bodyBound
    recordDigest := rfl
    outer := by rw [houterWire]; exact houterMarshal
    outerBound := houterSize }

theorem bytes_of_validateRecordStructure {encoded : Bytes} {record : StructuralRecord}
    (h : validateRecordStructure platform encoded = .ok record) : record.bytes = encoded :=
  (recordSpec_of_validateRecordStructure h).1

variable (platform) in
/-- A record together with its validation.  `ValidateRecordStructure` is the only
way to one in the source, where the fields of the struct are private. -/
structure ValidatedRecord where
  record : StructuralRecord
  valid : validateRecordStructure platform record.bytes = .ok record

namespace ValidatedRecord

theorem ext {left right : ValidatedRecord platform} (h : left.record = right.record) :
    left = right := by
  cases left
  cases right
  cases h
  rfl

theorem spec (validated : ValidatedRecord platform) : RecordSpec platform validated.record :=
  (recordSpec_of_validateRecordStructure validated.valid).2

/-- Sequence numbers start at one. -/
theorem sequence_pos (validated : ValidatedRecord platform) :
    0 < validated.record.event.sequence.toNat := by
  obtain ⟨wire, hvalid, -, -, hevent⟩ := validateEventStructure_eq_ok validated.spec.event
  have hsequence : validated.record.event.sequence ≠ 0 := by
    rw [hevent]
    exact hvalid.sequence
  apply Nat.pos_of_ne_zero
  intro hzero
  exact hsequence (UInt64.toNat_inj.mp hzero)

/-- What `ValidateRecordStructure` returned. -/
def ofValidation {encoded : Bytes} {record : StructuralRecord}
    (h : validateRecordStructure platform encoded = .ok record) : ValidatedRecord platform where
  record := record
  valid := by rwa [bytes_of_validateRecordStructure h]

end ValidatedRecord

end AttributionChain.Ledger

import AttributionChain.AdmissionLog
import AttributionChain.Hex

/-!
# The HTTP boundary

`internal/httpapi/server.go`.  The protocol counts in `uint64` and the generated request
and response types in `int`, so every number is converted on its way in or out.  The
conversions keep the 64 bits: a number below `2 ^ 63` comes out as itself and one above
as a negative number, and a negative number goes in as one above `2 ^ 63`
(`preserved_int`, `preserved_uint64`).

A handler that calls the admission service is cut at that call: one function turns the
request into the call or an answer, the other one answers with what the call returned.
-/

namespace AttributionChain.HttpApi

open Cbor Ecdsa Ledger Endorsement Store Admission Histories

/-! ### Conversions -/

/-- `int(value)` of a `uint64`, with 64-bit `int` -/
def int (value : UInt64) : Int64 := value.toInt64

/-- `uint64(value)` of an `int` -/
def uint64 (value : Int64) : UInt64 := value.toUInt64

/-- Both sides are the same number. -/
def Preserved (outside : Int64) (inside : UInt64) : Prop := outside.toInt = inside.toNat

/-- **A number comes out as itself exactly when it is below `2 ^ 63`.** -/
theorem preserved_int {value : UInt64} : Preserved (int value) value ↔ value.toNat < 2 ^ 63 := by
  have hlt := value.toNat_lt
  have hint : (int value).toInt =
      if 2 * value.toNat < 2 ^ 64 then (value.toNat : Int) else value.toNat - 2 ^ 64 :=
    BitVec.toInt_eq_toNat_cond value.toBitVec
  rw [Preserved, hint]
  split <;> omega

/-- **A number goes in as itself exactly when it is not negative.** -/
theorem preserved_uint64 {value : Int64} : Preserved value (uint64 value) ↔ 0 ≤ value.toInt := by
  have hlt := (uint64 value).toNat_lt
  have hint : value.toInt = if 2 * (uint64 value).toNat < 2 ^ 64 then ((uint64 value).toNat : Int)
      else (uint64 value).toNat - 2 ^ 64 :=
    BitVec.toInt_eq_toNat_cond value.toBitVec
  rw [Preserved, hint]
  split <;> omega

/-! ### Answers -/

inductive Message where
  | text (message : String)
  /-- `err.Error()` of a payload constructor -/
  | payload (failure : Failure)
  /-- `err.Error()` of the admission service -/
  | service (err : ServiceError)
deriving DecidableEq

inductive Reply (Body : Type) where
  | success (status : Nat) (body : Body)
  | failure (status : Nat) (error : Message)
  /-- The handler returned an error, which is answered with `internalServerErrorMessage`. -/
  | internalServerError
deriving DecidableEq

structure InitLedgerResponse where
  ledgerId : Bytes
  sequenceNumber : Int64
  recordDigest : Bytes
  admittedAtUnixMs : Int64
deriving DecidableEq

structure LedgerHeadResponse where
  ledgerId : Bytes
  sequenceNumber : Int64
  recordDigest : Bytes
deriving DecidableEq

structure RecordResponse where
  recordDigest : Bytes
  ledgerId : Bytes
  sequenceNumber : Int64
  eventKind : Int64
  payloadVersion : Int64
  admittedAtUnixMs : Int64
  signerKeyReference : Bytes
  recordBytesHex : Bytes
  previousRecordDigest : Option Bytes
deriving DecidableEq

structure AdmitResponse where
  ledgerId : Bytes
  sequenceNumber : Int64
  recordDigest : Bytes
  eventKind : Int64
deriving DecidableEq

structure AcceptEndorsementRequest where
  proposerPublicKeyHex : Bytes
  subjectPublicKeyHex : Bytes
  topic : Bytes
  claimBodyHex : Bytes
  proposedAtUnixMs : Int64
  proposerSignatureHex : Bytes
  acceptedAtUnixMs : Int64
  subjectSignatureHex : Bytes
deriving DecidableEq

structure RevokeEndorsementRequest where
  targetRecordDigest : Bytes
  revokerPublicKeyHex : Bytes
  role : Int64
  revokedAtUnixMs : Int64
  reason : Option Bytes
  revokerSignatureHex : Bytes
deriving DecidableEq

/-! ### Hexadecimal fields -/

inductive ParseError where
  | hex (err : HexError)
  | wrongLength (length : Nat)
  | publicKey
deriving DecidableEq

/-- The text of an error, less what `crypto/ecdsa` writes. -/
def ParseError.text : ParseError → String
  | .hex err => err.text
  | .wrongLength length => "expected 32 bytes, got " ++ toString length
  | .publicKey => ""

def parseHex32 (text : Bytes) : Except ParseError (FixedBytes 32) := do
  let bytes ← (hexDecodeString text).mapError .hex
  failIf (bytes.length ≠ 32) (.wrongLength bytes.length)
  return FixedBytes.copyFrom 32 bytes

def parseHexPublicKey (text : Bytes) : Except ParseError PublicKey := do
  let bytes ← (hexDecodeString text).mapError .hex
  orError (parseUncompressedPublicKey .p256 bytes) .publicKey

theorem parseHex32_hexEncode (digest : FixedBytes 32) :
    parseHex32 (hexEncode digest.bytes) = .ok digest := by
  simp only [parseHex32, hexDecodeString_hexEncode, mapError_ok, ok_bind]
  rw [failIf_neg (by simp), ok_bind, FixedBytes.copyFrom_bytes]
  rfl

theorem parseHexPublicKey_hexEncode {pub : PublicKey} {bytes : Bytes}
    (hbytes : pub.bytes = some bytes) (hcurve : pub.curve = .p256) :
    parseHexPublicKey (hexEncode bytes) = .ok pub := by
  have hparse := parseUncompressedPublicKey_bytes hbytes
  rw [hcurve] at hparse
  simp only [parseHexPublicKey, hexDecodeString_hexEncode, mapError_ok, ok_bind, hparse,
    orError_some]

theorem curve_of_parseHexPublicKey {text : Bytes} {pub : PublicKey}
    (h : parseHexPublicKey text = .ok pub) : pub.curve = .p256 := by
  simp only [parseHexPublicKey, bind_eq_ok, orError_eq_ok] at h
  obtain ⟨bytes, -, hparse⟩ := h
  exact (bytes_of_parseUncompressedPublicKey hparse).1

/-! ### Handlers -/

/-- An answer with status 400 -/
def badRequest {Body : Type} (message : String) : Reply Body := .failure 400 (.text message)

/-- An answer with status 404 -/
def notFound {Body : Type} (message : String) : Reply Body := .failure 404 (.text message)

/-- `InitLedger` up to its call; a service is given by its `maxRetries`. -/
def initLedger (admission : Option Int64) (ledgerId : Bytes) :
    Except (Reply InitLedgerResponse) LedgerID := do
  failIf (admission = none) (badRequest "admission service unavailable")
  (parseHex32 ledgerId).mapError fun _ => badRequest "invalid ledger_id: must be 32-byte hex"

/-- `InitLedger` after its call -/
def initLedgerReply (ledgerID : LedgerID) :
    Except ServiceError StructuralRecord → Reply InitLedgerResponse
  | .error .ledgerAlreadyInitialized => .failure 409 (.text "ledger already initialized")
  | .error _ => .internalServerError
  | .ok record => .success 201
    { ledgerId := hexEncode ledgerID.bytes
      sequenceNumber := int record.event.sequence
      recordDigest := hexEncode record.recordDigest.bytes
      admittedAtUnixMs := int record.event.admittedAtUnixMS }

variable (platform : Platform)

def getLedgerHead (store : Option Table) (queryFails : Bool) (ledgerId : Bytes) :
    Reply LedgerHeadResponse :=
  match store with
  | none => notFound "ledger store unavailable"
  | some table =>
    match parseHex32 ledgerId with
    | .error _ => notFound "invalid ledger_id: must be 32-byte hex"
    | .ok ledgerID =>
      match query queryFails (head platform table ledgerID) with
      | .error _ => .internalServerError
      | .ok head =>
        if head.initialized = false then notFound "ledger not found or uninitialized"
        else .success 200
          { ledgerId := hexEncode ledgerID.bytes
            sequenceNumber := int head.lastSequence
            recordDigest := hexEncode head.lastRecordDigest.bytes }

/-- The answer with a record -/
def recordResponse (digest : Digest) (record : StructuralRecord) : RecordResponse where
  recordDigest := hexEncode digest.bytes
  ledgerId := hexEncode record.event.ledgerID.bytes
  sequenceNumber := int record.event.sequence
  eventKind := int record.event.kind
  payloadVersion := int record.event.payloadVersion
  admittedAtUnixMs := int record.event.admittedAtUnixMS
  signerKeyReference := record.signerKeyReference
  recordBytesHex := hexEncode record.bytes
  previousRecordDigest := record.event.predecessor.map fun previous => hexEncode previous.bytes

def getRecord (store : Option Table) (queryFails : Bool) (recordDigest : Bytes) :
    Reply RecordResponse :=
  match store with
  | none => notFound "ledger store unavailable"
  | some table =>
    match parseHex32 recordDigest with
    | .error _ => notFound "invalid record_digest: must be 32-byte hex"
    | .ok digest =>
      match query queryFails (Store.record platform table digest) with
      | .error (some .recordNotFound) => notFound "record not found"
      | .error _ => .internalServerError
      | .ok record => .success 200 (recordResponse digest record)

/-- `AcceptEndorsement` and `RevokeEndorsement` after their call -/
def admitReply (ledgerID : LedgerID) : Except ServiceError StructuralRecord → Reply AdmitResponse
  | .error err => .failure 400 (.service err)
  | .ok record => .success 201
    { ledgerId := hexEncode ledgerID.bytes
      sequenceNumber := int record.event.sequence
      recordDigest := hexEncode record.recordDigest.bytes
      eventKind := int record.event.kind }

/-- `AcceptEndorsement` up to its call -/
def acceptEndorsement (admission : Option Int64) (ledgerId : Bytes)
    (body : Option AcceptEndorsementRequest) :
    Except (Reply AdmitResponse) (LedgerID × EndorsementAcceptedPayload) := do
  failIf (admission = none) (badRequest "admission service unavailable")
  let ledgerID ← (parseHex32 ledgerId).mapError fun _ => badRequest "invalid ledger_id"
  let body ← orError body (badRequest "missing request body")
  let proposerPub ← (parseHexPublicKey body.proposerPublicKeyHex).mapError fun _ =>
    badRequest "invalid proposer_public_key_hex"
  let subjectPub ← (parseHexPublicKey body.subjectPublicKeyHex).mapError fun _ =>
    badRequest "invalid subject_public_key_hex"
  let claimBody ← (hexDecodeString body.claimBodyHex).mapError fun _ =>
    badRequest "invalid claim_body_hex"
  let proposerSig ← (hexDecodeString body.proposerSignatureHex).mapError fun _ =>
    badRequest "invalid proposer_signature_hex"
  let subjectSig ← (hexDecodeString body.subjectSignatureHex).mapError fun _ =>
    badRequest "invalid subject_signature_hex"
  let payload ← (newAcceptedPayload (some proposerPub) (some subjectPub) body.topic (some claimBody)
    (uint64 body.proposedAtUnixMs) (some proposerSig) (uint64 body.acceptedAtUnixMs)
    (some subjectSig)).mapError fun failure => .failure 400 (.payload failure)
  return (ledgerID, payload)

/-- `RevokeEndorsement` up to its call -/
def revokeEndorsement (admission : Option Int64) (ledgerId : Bytes)
    (body : Option RevokeEndorsementRequest) :
    Except (Reply AdmitResponse) (LedgerID × EndorsementRevokedPayload) := do
  failIf (admission = none) (badRequest "admission service unavailable")
  let ledgerID ← (parseHex32 ledgerId).mapError fun _ => badRequest "invalid ledger_id"
  let body ← orError body (badRequest "missing request body")
  let targetDigest ← (parseHex32 body.targetRecordDigest).mapError fun _ =>
    badRequest "invalid target_record_digest"
  let revokerPub ← (parseHexPublicKey body.revokerPublicKeyHex).mapError fun _ =>
    badRequest "invalid revoker_public_key_hex"
  let revokerSig ← (hexDecodeString body.revokerSignatureHex).mapError fun _ =>
    badRequest "invalid revoker_signature_hex"
  let payload ← (newRevokedPayload targetDigest (some revokerPub) (uint64 body.role)
    (uint64 body.revokedAtUnixMs) (body.reason.getD []) (some revokerSig)).mapError fun failure =>
      .failure 400 (.payload failure)
  return (ledgerID, payload)

variable {platform} {table : Table} {system : System}

/-! ### Reading -/

theorem getRecord_eq {validated : ValidatedRecord platform}
    (hrow : rowOfRecord validated.record ∈ table.rows) {text : Bytes}
    (htext : parseHex32 text = .ok validated.record.recordDigest) :
    getRecord platform (some table) false text =
      .success 200 (recordResponse validated.record.recordDigest validated.record) := by
  have hread : query false (Store.record platform table validated.record.recordDigest) =
      .ok validated.record := query_eq_ok.mpr ⟨rfl, record_of_row hrow⟩
  simp only [getRecord, htext, hread]

theorem getLedgerHead_eq {last : ValidatedRecord platform} {ledgerID : LedgerID}
    (hlast : (table.ledgerRows ledgerID).getLast? = some (rowOfRecord last.record))
    (hbytes : last.record.bytes.length ≠ 0) {text : Bytes}
    (htext : parseHex32 text = .ok ledgerID) :
    getLedgerHead platform (some table) false text = .success 200
      { ledgerId := hexEncode ledgerID.bytes
        sequenceNumber := int last.record.event.sequence
        recordDigest := hexEncode last.record.recordDigest.bytes } := by
  have hread : query false (head platform table ledgerID) =
      .ok (chainStateFromRecord last.record) := query_eq_ok.mpr ⟨rfl, head_of_last hlast hbytes⟩
  simp only [getLedgerHead, htext, hread]
  rw [chainStateFromRecord_of_nonempty hbytes]
  rfl

/-! ### Writing -/

/-- The payload of an accepted request -/
theorem acceptEndorsement_eq_ok {admission : Option Int64} {text : Bytes}
    {body : AcceptEndorsementRequest} {ledgerID : LedgerID} {payload : EndorsementAcceptedPayload}
    (h : acceptEndorsement admission text (some body) = .ok (ledgerID, payload)) :
    payload.WellFormed ∧ payload.topic = body.topic ∧
      payload.proposedAtUnixMS = uint64 body.proposedAtUnixMs ∧
      payload.acceptedAtUnixMS = uint64 body.acceptedAtUnixMs ∧
      ∃ proposer subject, payload.proposerPublicKey = some proposer ∧
        payload.subjectPublicKey = some subject ∧ proposer.curve = .p256 ∧
        subject.curve = .p256 := by
  simp only [acceptEndorsement, bind_eq_ok, mapError_eq_ok, orError_some, ok_bind] at h
  obtain ⟨_, -, _, -, proposer, hproposer, subject, hsubject, _, -, _, -, _, -, built, hbuilt,
    hreturn⟩ := h
  cases hreturn
  obtain ⟨rfl, hvalid⟩ := newAcceptedPayload_eq_ok.mp hbuilt
  exact ⟨hvalid, rfl, rfl, rfl, proposer, subject, rfl, rfl, curve_of_parseHexPublicKey hproposer,
    curve_of_parseHexPublicKey hsubject⟩

/-- The payload of an accepted revocation request -/
theorem revokeEndorsement_eq_ok {admission : Option Int64} {text : Bytes}
    {body : RevokeEndorsementRequest} {ledgerID : LedgerID} {payload : EndorsementRevokedPayload}
    (h : revokeEndorsement admission text (some body) = .ok (ledgerID, payload)) :
    payload.WellFormed ∧ payload.reason = body.reason.getD [] ∧
      payload.revokedAtUnixMS = uint64 body.revokedAtUnixMs ∧
      ∃ revoker, payload.revokerPublicKey = some revoker ∧ revoker.curve = .p256 := by
  simp only [revokeEndorsement, bind_eq_ok, mapError_eq_ok, orError_some, ok_bind] at h
  obtain ⟨_, -, _, -, _, -, revoker, hrevoker, _, -, built, hbuilt, hreturn⟩ := h
  cases hreturn
  obtain ⟨rfl, hvalid⟩ := newRevokedPayload_eq_ok.mp hbuilt
  exact ⟨hvalid, rfl, rfl, revoker, rfl, curve_of_parseHexPublicKey hrevoker⟩

section Admitted

variable (hcbor : platform.cbor.Conforms) (hrows : ∀ row ∈ table.rows, Authentic platform row)
  (h : Reaches (step platform) (CollisionFree platform) ⟨table, []⟩ system)

include hcbor hrows h

/-- What a call that came to `Admit` asked for is in the record it returns. -/
theorem carries_of_returned {call : Call} (hcall : call ∈ system.calls) {record : StructuralRecord}
    (hphase : call.phase = .returned (.ok record))
    (hrequest : ∀ ledgerID, call.request ≠ .initLedger ledgerID) :
    ∃ req, Asks platform call.request req ∧ Carries req record ∧
      rowOfRecord record ∈ system.table.rows := by
  rcases answered_of_reaches hcbor hrows h call hcall record hphase with
    ⟨ledgerID, hinit, -⟩ | ⟨req, hasks⟩
  · exact absurd hinit (hrequest ledgerID)
  · obtain ⟨hcarries, hstored, -⟩ :=
      (delivered_of_reaches hcbor hrows h call hcall).returned req record hasks hphase
    exact ⟨req, hasks, hcarries, hstored⟩

/-- **An admitted endorsement is stored with the timestamps it was sent with**, as far as
these are not negative. -/
theorem endorsement_stored {admission : Option Int64} {text : Bytes}
    {body : AcceptEndorsementRequest} {ledgerID : LedgerID} {payload : EndorsementAcceptedPayload}
    (haccept : acceptEndorsement admission text (some body) = .ok (ledgerID, payload))
    {call : Call} (hcall : call ∈ system.calls)
    (hrequest : call.request = .admitEndorsement ledgerID (some payload))
    {record : StructuralRecord} (hphase : call.phase = .returned (.ok record)) :
    rowOfRecord record ∈ system.table.rows ∧
      ∃ encoded, record.event.payloadBytes = some encoded ∧
        payload.encode platform = .ok encoded ∧
        (validUTF8 body.topic = true → decodeAcceptedPayload platform encoded = .ok payload) ∧
        (Preserved body.proposedAtUnixMs payload.proposedAtUnixMS ↔
          0 ≤ body.proposedAtUnixMs.toInt) ∧
        (Preserved body.acceptedAtUnixMs payload.acceptedAtUnixMS ↔
          0 ≤ body.acceptedAtUnixMs.toInt) := by
  obtain ⟨hvalid, htopic, hproposed, haccepted, proposer, subject, hproposer, hsubject,
    hproposerCurve, hsubjectCurve⟩ := acceptEndorsement_eq_ok haccept
  obtain ⟨req, hasks, hcarries, hstored⟩ :=
    carries_of_returned hcbor hrows h hcall hphase (by simp [hrequest])
  rw [hrequest] at hasks
  cases hasks with
  | @endorsement _ _ encoded hverify hencode =>
    refine ⟨hstored, encoded, hcarries.payloadBytes, hencode, ?_, ?_, ?_⟩
    · intro hutf8
      rw [← htopic] at hutf8
      exact (decode_of_encodeAcceptedPayload hcbor hvalid hproposer hsubject hencode).mpr
        ⟨hproposerCurve, hsubjectCurve, hutf8⟩
    · rw [hproposed]
      exact preserved_uint64
    · rw [haccepted]
      exact preserved_uint64

/-- **An admitted revocation is stored with the timestamp it was sent with**, as far as
it is not negative. -/
theorem revocation_stored {admission : Option Int64} {text : Bytes}
    {body : RevokeEndorsementRequest} {ledgerID : LedgerID} {payload : EndorsementRevokedPayload}
    (hrevoke : revokeEndorsement admission text (some body) = .ok (ledgerID, payload))
    {call : Call} (hcall : call ∈ system.calls)
    (hrequest : call.request = .admitRevocation ledgerID (some payload))
    {record : StructuralRecord} (hphase : call.phase = .returned (.ok record)) :
    rowOfRecord record ∈ system.table.rows ∧
      ∃ encoded, record.event.payloadBytes = some encoded ∧
        payload.encode platform = .ok encoded ∧
        (validUTF8 (body.reason.getD []) = true →
          decodeRevokedPayload platform encoded = .ok payload) ∧
        (Preserved body.revokedAtUnixMs payload.revokedAtUnixMS ↔
          0 ≤ body.revokedAtUnixMs.toInt) := by
  obtain ⟨hvalid, hreason, hrevoked, revoker, hrevoker, hcurve⟩ := revokeEndorsement_eq_ok hrevoke
  obtain ⟨req, hasks, hcarries, hstored⟩ :=
    carries_of_returned hcbor hrows h hcall hphase (by simp [hrequest])
  rw [hrequest] at hasks
  cases hasks with
  | @revocation _ _ encoded hverify hencode =>
    refine ⟨hstored, encoded, hcarries.payloadBytes, hencode, ?_, ?_⟩
    · intro hutf8
      rw [← hreason] at hutf8
      exact (decode_of_encodeRevokedPayload hcbor hvalid hrevoker hencode).mpr ⟨hcurve, hutf8⟩
    · rw [hrevoked]
      exact preserved_uint64

/-- The record that `InitLedger` answers with is stored. -/
theorem init_stored {call : Call} (hcall : call ∈ system.calls) {ledgerID : LedgerID}
    (hrequest : call.request = .initLedger ledgerID) {record : StructuralRecord}
    (hphase : call.phase = .returned (.ok record)) :
    rowOfRecord record ∈ system.table.rows ∧
      ∃ validated : ValidatedRecord platform, validated.record = record := by
  rcases answered_of_reaches hcbor hrows h call hcall record hphase with
    ⟨_, -, hstored⟩ | ⟨req, hasks⟩
  · exact hstored
  · rw [hrequest] at hasks
    cases hasks

end Admitted

/-- **The numbers of the protocol cross the HTTP boundary unchanged exactly when both
sides can hold them.**  Numbers that are read out have to be below `2 ^ 63`, and the
timestamps of a request must not be negative. -/
theorem numbers_preserved (platform : Platform) (hcbor : platform.cbor.Conforms) :
    (∀ (table : Table) (validated : ValidatedRecord platform) (text : Bytes),
      rowOfRecord validated.record ∈ table.rows →
      parseHex32 text = .ok validated.record.recordDigest →
      ∃ response, getRecord platform (some table) false text = .success 200 response ∧
        (Preserved response.sequenceNumber validated.record.event.sequence ↔
          validated.record.event.sequence.toNat < 2 ^ 63) ∧
        (Preserved response.eventKind validated.record.event.kind ↔
          validated.record.event.kind.toNat < 2 ^ 63) ∧
        (Preserved response.payloadVersion validated.record.event.payloadVersion ↔
          validated.record.event.payloadVersion.toNat < 2 ^ 63) ∧
        (Preserved response.admittedAtUnixMs validated.record.event.admittedAtUnixMS ↔
          validated.record.event.admittedAtUnixMS.toNat < 2 ^ 63)) ∧
    (∀ (table : Table) (ledgerID : LedgerID) (last : ValidatedRecord platform) (text : Bytes),
      (table.ledgerRows ledgerID).getLast? = some (rowOfRecord last.record) →
      parseHex32 text = .ok ledgerID →
      ∃ response, getLedgerHead platform (some table) false text = .success 200 response ∧
        (Preserved response.sequenceNumber last.record.event.sequence ↔
          last.record.event.sequence.toNat < 2 ^ 63)) ∧
    ∀ (table : Table), (∀ row ∈ table.rows, Authentic platform row) → ∀ (system : System),
      Reaches (step platform) (CollisionFree platform) ⟨table, []⟩ system →
      ∀ call ∈ system.calls, ∀ record, call.phase = .returned (.ok record) →
      (∀ ledgerID, call.request = .initLedger ledgerID →
        rowOfRecord record ∈ system.table.rows ∧
        ∃ (validated : ValidatedRecord platform) (response : InitLedgerResponse),
          validated.record = record ∧
          initLedgerReply ledgerID (.ok record) = .success 201 response ∧
          (Preserved response.sequenceNumber record.event.sequence ↔
            record.event.sequence.toNat < 2 ^ 63) ∧
          (Preserved response.admittedAtUnixMs record.event.admittedAtUnixMS ↔
            record.event.admittedAtUnixMS.toNat < 2 ^ 63)) ∧
      (∀ admission text body ledgerID payload,
        acceptEndorsement admission text (some body) = .ok (ledgerID, payload) →
        call.request = .admitEndorsement ledgerID (some payload) →
        rowOfRecord record ∈ system.table.rows ∧
        ∃ encoded, record.event.payloadBytes = some encoded ∧
          payload.encode platform = .ok encoded ∧
          (validUTF8 body.topic = true → decodeAcceptedPayload platform encoded = .ok payload) ∧
          (Preserved body.proposedAtUnixMs payload.proposedAtUnixMS ↔
            0 ≤ body.proposedAtUnixMs.toInt) ∧
          (Preserved body.acceptedAtUnixMs payload.acceptedAtUnixMS ↔
            0 ≤ body.acceptedAtUnixMs.toInt)) ∧
      (∀ admission text body ledgerID payload,
        revokeEndorsement admission text (some body) = .ok (ledgerID, payload) →
        call.request = .admitRevocation ledgerID (some payload) →
        rowOfRecord record ∈ system.table.rows ∧
        ∃ encoded, record.event.payloadBytes = some encoded ∧
          payload.encode platform = .ok encoded ∧
          (validUTF8 (body.reason.getD []) = true →
            decodeRevokedPayload platform encoded = .ok payload) ∧
          (Preserved body.revokedAtUnixMs payload.revokedAtUnixMS ↔
            0 ≤ body.revokedAtUnixMs.toInt)) := by
  refine ⟨?_, ?_, ?_⟩
  · intro table validated text hrow htext
    exact ⟨_, getRecord_eq hrow htext, preserved_int, preserved_int, preserved_int, preserved_int⟩
  · intro table ledgerID last text hlast htext
    exact ⟨_, getLedgerHead_eq hlast (last.spec.bytes_ne_empty hcbor) htext, preserved_int⟩
  · intro table hrows system hreaches call hcall record hphase
    refine ⟨?_, ?_, ?_⟩
    · intro ledgerID hrequest
      obtain ⟨hstored, validated, hvalidated⟩ :=
        init_stored hcbor hrows hreaches hcall hrequest hphase
      exact ⟨hstored, validated, _, hvalidated, rfl, preserved_int, preserved_int⟩
    · intro admission text body ledgerID payload haccept hrequest
      exact endorsement_stored hcbor hrows hreaches haccept hcall hrequest hphase
    · intro admission text body ledgerID payload hrevoke hrequest
      exact revocation_stored hcbor hrows hreaches hrevoke hcall hrequest hphase

/-! ### A request with a negative timestamp -/

/-- `sampleEndorsement` as a request, proposed one millisecond before the epoch. -/
def negativeRequest : AcceptEndorsementRequest where
  proposerPublicKeyHex := hexEncode (p256Base.bytes.getD [])
  subjectPublicKeyHex := hexEncode (p256Base.bytes.getD [])
  topic := sampleEndorsement.topic
  claimBodyHex := hexEncode (sampleEndorsement.claimBodyBytes.getD [])
  proposedAtUnixMs := -1
  proposerSignatureHex := hexEncode (sampleEndorsement.proposerSignature.getD [])
  acceptedAtUnixMs := 0
  subjectSignatureHex := hexEncode (sampleEndorsement.subjectSignature.getD [])

/-- What it is admitted as. -/
def negativePayload : EndorsementAcceptedPayload :=
  { sampleEndorsement with proposedAtUnixMS := 0xffffffffffffffff }

theorem parseHexPublicKey_p256Base :
    parseHexPublicKey (hexEncode (p256Base.bytes.getD [])) = .ok p256Base := by
  have hbytes : p256Base.bytes = some (p256Base.bytes.getD []) := by decide +kernel
  exact parseHexPublicKey_hexEncode hbytes rfl

theorem acceptEndorsement_negativeRequest :
    acceptEndorsement (some 3) (hexEncode (FixedBytes.zero 32).bytes) (some negativeRequest) =
      .ok (.zero 32, negativePayload) := by
  have hadmission : ¬ some (3 : Int64) = none := by simp
  have hpayload : newAcceptedPayload (some p256Base) (some p256Base) sampleEndorsement.topic
      (some (sampleEndorsement.claimBodyBytes.getD [])) (uint64 (-1))
      (some (sampleEndorsement.proposerSignature.getD [])) (uint64 0)
      (some (sampleEndorsement.subjectSignature.getD [])) = .ok negativePayload := rfl
  simp only [acceptEndorsement, negativeRequest, failIf_neg hadmission, parseHex32_hexEncode,
    parseHexPublicKey_p256Base, hexDecodeString_hexEncode, mapError_ok, ok_bind, orError_some,
    hpayload]
  rfl

/-- `InitLedger`, and the admission of the request. -/
def negativeRun : List Action :=
  initRun ++ [.start (.admitEndorsement (.zero 32) (some negativePayload)) 3,
    .head 1 false sampleStamp, .append 1 .completed false]

theorem negativeRun_admitted :
    ∃ (system : System) (call : Call) (record : StructuralRecord),
      Reaches (step samplePlatform) (CollisionFree samplePlatform) .initial system ∧
      run samplePlatform .initial negativeRun = some system ∧ call ∈ system.calls ∧
      call.request = .admitEndorsement (.zero 32) (some negativePayload) ∧
      call.phase = .returned (.ok record) := by
  have hevaluated : (negativeRun.foldlM
      (checkedStep (CollisionFree samplePlatform) (step samplePlatform)) .initial).any (
        fun system => system.calls[1]?.any fun call =>
          decide (call.request = .admitEndorsement (.zero 32) (some negativePayload)) &&
          call.phase.answer.isSome) = true := by
    decide +kernel
  simp only [Option.any_eq_true, Bool.and_eq_true, decide_eq_true_eq, Option.isSome_iff_exists,
    Phase.answer_eq_some] at hevaluated
  obtain ⟨system, hchecked, call, hcall, hrequest, record, hphase⟩ := hevaluated
  obtain ⟨hreaches, hrun⟩ := Reaches.refl.of_checked hchecked
  exact ⟨system, call, record, hreaches, hrun, List.mem_of_getElem? hcall, hrequest, hphase⟩

/-- The request is admitted, and its payload decodes to another timestamp. -/
theorem negativeTimestamp_wraps :
    ∃ (system : System) (call : Call) (record : StructuralRecord) (encoded : Bytes),
      acceptEndorsement (some 3) (hexEncode (FixedBytes.zero 32).bytes) (some negativeRequest) =
        .ok (.zero 32, negativePayload) ∧
      run samplePlatform .initial negativeRun = some system ∧ call ∈ system.calls ∧
      call.request = .admitEndorsement (.zero 32) (some negativePayload) ∧
      call.phase = .returned (.ok record) ∧ rowOfRecord record ∈ system.table.rows ∧
      record.event.payloadBytes = some encoded ∧
      decodeAcceptedPayload samplePlatform encoded = .ok negativePayload ∧
      negativeRequest.proposedAtUnixMs.toInt = -1 ∧
      negativePayload.proposedAtUnixMS.toNat = 2 ^ 64 - 1 := by
  obtain ⟨system, call, record, hreaches, hrun, hcall, hrequest, hphase⟩ := negativeRun_admitted
  obtain ⟨hstored, encoded, hbytes, -, hdecode, -⟩ := endorsement_stored reference_conforms
    authentic_empty hreaches acceptEndorsement_negativeRequest hcall hrequest hphase
  exact ⟨system, call, record, encoded, acceptEndorsement_negativeRequest, hrun, hcall, hrequest,
    hphase, hstored, hbytes, hdecode (validUTF8_of_ascii (by decide)), by decide, by decide⟩

/-- The other timestamp of the same request is kept. -/
theorem negativeRequest_acceptedAt :
    ∃ (system : System) (record : StructuralRecord) (encoded : Bytes),
      run samplePlatform .initial negativeRun = some system ∧
      rowOfRecord record ∈ system.table.rows ∧ record.event.payloadBytes = some encoded ∧
      negativePayload.encode samplePlatform = .ok encoded ∧
      Preserved negativeRequest.acceptedAtUnixMs negativePayload.acceptedAtUnixMS := by
  obtain ⟨system, call, record, hreaches, hrun, hcall, hrequest, hphase⟩ := negativeRun_admitted
  obtain ⟨-, -, hwrites⟩ := numbers_preserved samplePlatform reference_conforms
  obtain ⟨-, hendorsement, -⟩ :=
    hwrites .empty authentic_empty system hreaches call hcall record hphase
  obtain ⟨hstored, encoded, hbytes, hencode, -, -, haccepted⟩ :=
    hendorsement _ _ _ _ _ acceptEndorsement_negativeRequest hrequest
  exact ⟨system, record, encoded, hrun, hstored, hbytes, hencode, haccepted.mpr (by decide)⟩

end AttributionChain.HttpApi

import AttributionChain.LedgerCodec

/-!
# Endorsement and revocation payloads

`internal/endorsement/v1/payload.go`.  An endorsement is proposed off-ledger,
accepted by its subject, and written to the ledger as one payload that carries
both signatures; a revocation names the record digest of the endorsement.  The
statements that are signed are hashed with their own domains.

Two things the source can do have no counterpart in an error return.
`encodePublicKey` panics when a key has no encoding, and `VerifyASN1` of a nil
key panics.  A `Failure` is either a returned error or a panic, so that a
theorem about a nil error also excludes the panics.
-/

namespace AttributionChain.Endorsement

open Cbor Ecdsa

/-! ### Constants -/

def payloadVersionV1 : UInt64 := 1

def domainProposerEndorsementV1 : Bytes := ascii "attribution-chain:endorsement-proposal:v1"
def domainSubjectAcceptanceV1 : Bytes := ascii "attribution-chain:endorsement-acceptance:v1"
def domainRevocationV1 : Bytes := ascii "attribution-chain:endorsement-revocation:v1"

def minTopicLength : Nat := 1
def maxTopicLength : Nat := 128
def minClaimBodyBytes : Nat := 1
def maxClaimBodyBytes : Nat := 4096
def maxReasonLength : Nat := 256
def minSignatureBytes : Nat := 8
def maxSignatureBytes : Nat := 72

abbrev RevokerRole := UInt64

def revokerRoleProposer : RevokerRole := 1
def revokerRoleSubject : RevokerRole := 2

/-- `CoreDetEncOptions` with `SortCanonical`. -/
def cborEncMode : EncOptions := { coreDetEncOptions with sort := .canonical }

def cborDecMode : DecOptions where
  dupMapKey := .enforcedAPF
  maxNestedLevels := 4
  maxArrayElements := 16
  maxMapPairs := 16
  indefLength := .forbidden
  tagsMd := .forbidden
  extraReturnErrors := .unknownField
  utf8 := .rejectInvalid
  fieldNameMatching := .caseSensitive

theorem cborDecMode_strict : cborDecMode.Strict := ⟨rfl, rfl, rfl⟩

/-! ### Errors -/

/-- The fields with a length check, under the words of their messages. -/
inductive LengthField where
  | topic | claimBody | proposerSignature | subjectSignature | signature
deriving DecidableEq, Repr

def LengthField.label : LengthField → String
  | .topic => "topic length "
  | .claimBody => "claim body length "
  | .proposerSignature => "proposer signature length "
  | .subjectSignature => "subject signature length "
  | .signature => "signature length "

/-- The contexts that errors are wrapped with. -/
inductive ErrorContext where
  | decodeAcceptedPayload | decodeRevokedPayload
  | decodeProposerPublicKey | decodeSubjectPublicKey | decodeRevokerPublicKey
  | reconstructProposal | verifyProposerSignature | reconstructAcceptance
  | verifySubjectSignature | reconstructRevocation
deriving DecidableEq, Repr

def ErrorContext.label : ErrorContext → String
  | .decodeAcceptedPayload => "decode accepted payload: "
  | .decodeRevokedPayload => "decode revoked payload: "
  | .decodeProposerPublicKey => "decode proposer public key: "
  | .decodeSubjectPublicKey => "decode subject public key: "
  | .decodeRevokerPublicKey => "decode revoker public key: "
  | .reconstructProposal => "reconstruct proposal: "
  | .verifyProposerSignature => "verify proposer signature: "
  | .reconstructAcceptance => "reconstruct acceptance: "
  | .verifySubjectSignature => "verify subject signature: "
  | .reconstructRevocation => "reconstruct revocation: "

inductive PayloadError where
  | publicKeysRequired
  | revokerPublicKeyRequired
  /-- A length out of bounds; some messages also print the bounds. -/
  | lengthOutOfBounds (field : LengthField) (length : Nat) (bounds : Option (Nat × Nat))
  | reasonTooLong (length : Nat)
  | invalidRevokerRole (role : RevokerRole)
  | proposerSignatureFailed
  | subjectSignatureFailed
  | revokerSignatureFailed
  | unsupportedPayloadVersion (version : UInt64)
  | targetRecordDigestLength
  | emptyPublicKeyBytes
  | notUncompressedP256
  | codec (err : DecodeError)
  | marshal
  | wrapped (context : ErrorContext) (err : PayloadError)
deriving DecidableEq, Repr

/-- The text of an error, less what the codec and `crypto/ecdsa` write. -/
def PayloadError.message : PayloadError → String
  | .publicKeysRequired => "proposer and subject public keys are required"
  | .revokerPublicKeyRequired => "revoker public key is required"
  | .lengthOutOfBounds field length none =>
    field.label ++ toString length ++ " out of bounds"
  | .lengthOutOfBounds field length (some (low, high)) =>
    field.label ++ toString length ++ " out of bounds [" ++ toString low ++ ", " ++
      toString high ++ "]"
  | .reasonTooLong length =>
    "reason length " ++ toString length ++ " exceeds max " ++ toString maxReasonLength
  | .invalidRevokerRole role => "invalid revoker role: " ++ toString role
  | .proposerSignatureFailed => "proposer signature verification failed"
  | .subjectSignatureFailed => "subject signature verification failed"
  | .revokerSignatureFailed => "revoker signature verification failed"
  | .unsupportedPayloadVersion version => "unsupported payload version " ++ toString version
  | .targetRecordDigestLength => "target record digest must be 32 bytes"
  | .emptyPublicKeyBytes => "empty public key bytes"
  | .notUncompressedP256 => "parse uncompressed P-256 public key: "
  | .codec _ => ""
  | .marshal => ""
  | .wrapped context err => context.label ++ err.message

inductive PanicReason where
  | encodePublicKey | marshalStatement | nilPublicKey
deriving DecidableEq, Repr

/-- How a call can fail to return a value with a nil error. -/
inductive Failure where
  | error (err : PayloadError)
  | panic (reason : PanicReason)
deriving DecidableEq, Repr

def wrap (context : ErrorContext) : Failure → Failure
  | .error err => .error (.wrapped context err)
  | .panic reason => .panic reason

/-! ### Keys and digests -/

variable (platform : Platform)

def encodePublicKey (pub : Option PublicKey) : Except Failure Slice :=
  match pub with
  | none => .ok none
  | some pub =>
    match pub.bytes with
    | none => .error (.panic .encodePublicKey)
    | some bytes => .ok (some bytes)

def decodePublicKey (encoded : Slice) : Except PayloadError PublicKey := do
  failIf (encoded.len = 0) .emptyPublicKeyBytes
  orError (parseUncompressedPublicKey .p256 (encoded.getD [])) .notUncompressedP256

/-- The package's own copy of the ledger's function. -/
def domainSeparatedDigest (domain body : Bytes) : Digest :=
  platform.sha256 (Ledger.domainSeparated domain body)

/-- The length check and the verification that the three `VerifySignature`
methods share; they differ in the key, the statement and their errors. -/
def verifySignature (pub : Option PublicKey) (digest : Except Failure Digest)
    (signatureBytes : Slice) (bounds : Option (Nat × Nat)) (failed : PayloadError) :
    Except Failure Unit := do
  failIf (signatureBytes.len < minSignatureBytes ∨ signatureBytes.len > maxSignatureBytes)
    (.error (.lengthOutOfBounds .signature signatureBytes.len bounds))
  let digest ← digest
  let pub ← orError pub (.panic .nilPublicKey)
  failIf (platform.verifyASN1 pub digest signatureBytes = false) (.error failed)

/-! ### Proposals and acceptances -/

structure EndorsementProposal where
  proposerPublicKey : Option PublicKey
  subjectPublicKey : Option PublicKey
  topic : Bytes
  claimBodyBytes : Slice
  proposedAtUnixMS : UInt64
deriving DecidableEq

structure ProposalStatementWire where
  version : UInt64
  proposerPublicKey : Slice
  subjectPublicKey : Slice
  topic : Bytes
  claimBodyBytes : Slice
  proposedAtUnixMS : UInt64
deriving DecidableEq

instance : Wire ProposalStatementWire where
  schema := [(0, .uint64), (1, .byteSlice), (2, .byteSlice), (3, .string), (4, .byteSlice),
    (5, .uint64)]
  toStruct wire :=
    (wire.version, wire.proposerPublicKey, wire.subjectPublicKey, wire.topic, wire.claimBodyBytes,
      wire.proposedAtUnixMS, ())
  ofStruct := fun (version, proposerPublicKey, subjectPublicKey, topic, claimBodyBytes,
      proposedAtUnixMS, _) =>
    { version, proposerPublicKey, subjectPublicKey, topic, claimBodyBytes, proposedAtUnixMS }
  ofStruct_toStruct _ := rfl
  toStruct_ofStruct _ := rfl

def newProposal (proposer subject : Option PublicKey) (topic : Bytes) (claimBody : Slice)
    (proposedAtUnixMS : UInt64) : Except Failure EndorsementProposal := do
  failIf (proposer = none ∨ subject = none) (.error .publicKeysRequired)
  failIf (topic.length < minTopicLength ∨ topic.length > maxTopicLength)
    (.error (.lengthOutOfBounds .topic topic.length (some (minTopicLength, maxTopicLength))))
  failIf (claimBody.len < minClaimBodyBytes ∨ claimBody.len > maxClaimBodyBytes)
    (.error (.lengthOutOfBounds .claimBody claimBody.len
      (some (minClaimBodyBytes, maxClaimBodyBytes))))
  return {
    proposerPublicKey := proposer
    subjectPublicKey := subject
    topic := topic
    claimBodyBytes := claimBody
    proposedAtUnixMS := proposedAtUnixMS }

def EndorsementProposal.digest (proposal : EndorsementProposal) : Except Failure Digest := do
  let proposerPublicKey ← encodePublicKey proposal.proposerPublicKey
  let subjectPublicKey ← encodePublicKey proposal.subjectPublicKey
  let wire : ProposalStatementWire :=
    { version := payloadVersionV1
      proposerPublicKey := proposerPublicKey
      subjectPublicKey := subjectPublicKey
      topic := proposal.topic
      claimBodyBytes := proposal.claimBodyBytes
      proposedAtUnixMS := proposal.proposedAtUnixMS }
  let encoded ← orError (platform.marshal cborEncMode wire) (.panic .marshalStatement)
  return domainSeparatedDigest platform domainProposerEndorsementV1 encoded

def EndorsementProposal.verifySignature (proposal : EndorsementProposal)
    (signatureBytes : Slice) : Except Failure Unit :=
  Endorsement.verifySignature platform proposal.proposerPublicKey (proposal.digest platform)
    signatureBytes (some (minSignatureBytes, maxSignatureBytes)) .proposerSignatureFailed

structure EndorsementAcceptance where
  proposalDigest : Digest
  acceptedAtUnixMS : UInt64
deriving DecidableEq

structure AcceptanceStatementWire where
  version : UInt64
  proposalDigest : Slice
  acceptedAtUnixMS : UInt64
deriving DecidableEq

instance : Wire AcceptanceStatementWire where
  schema := [(0, .uint64), (1, .byteSlice), (2, .uint64)]
  toStruct wire := (wire.version, wire.proposalDigest, wire.acceptedAtUnixMS, ())
  ofStruct := fun (version, proposalDigest, acceptedAtUnixMS, _) =>
    { version, proposalDigest, acceptedAtUnixMS }
  ofStruct_toStruct _ := rfl
  toStruct_ofStruct _ := rfl

def newAcceptance (proposalDigest : Digest) (acceptedAtUnixMS : UInt64) :
    Except Failure EndorsementAcceptance :=
  .ok { proposalDigest, acceptedAtUnixMS }

def EndorsementAcceptance.digest (acceptance : EndorsementAcceptance) : Except Failure Digest := do
  let wire : AcceptanceStatementWire :=
    { version := payloadVersionV1
      proposalDigest := some acceptance.proposalDigest.bytes
      acceptedAtUnixMS := acceptance.acceptedAtUnixMS }
  let encoded ← orError (platform.marshal cborEncMode wire) (.panic .marshalStatement)
  return domainSeparatedDigest platform domainSubjectAcceptanceV1 encoded

def EndorsementAcceptance.verifySignature (acceptance : EndorsementAcceptance)
    (subjectPublicKey : Option PublicKey) (signatureBytes : Slice) : Except Failure Unit :=
  Endorsement.verifySignature platform subjectPublicKey (acceptance.digest platform)
    signatureBytes (some (minSignatureBytes, maxSignatureBytes)) .subjectSignatureFailed

/-! ### Accepted payloads -/

structure EndorsementAcceptedPayload where
  proposerPublicKey : Option PublicKey
  subjectPublicKey : Option PublicKey
  topic : Bytes
  claimBodyBytes : Slice
  proposedAtUnixMS : UInt64
  proposerSignature : Slice
  acceptedAtUnixMS : UInt64
  subjectSignature : Slice
deriving DecidableEq

structure AcceptedPayloadWire where
  version : UInt64
  proposerPublicKey : Slice
  subjectPublicKey : Slice
  topic : Bytes
  claimBodyBytes : Slice
  proposedAtUnixMS : UInt64
  proposerSignature : Slice
  acceptedAtUnixMS : UInt64
  subjectSignature : Slice
deriving DecidableEq

instance : Wire AcceptedPayloadWire where
  schema := [(0, .uint64), (1, .byteSlice), (2, .byteSlice), (3, .string), (4, .byteSlice),
    (5, .uint64), (6, .byteSlice), (7, .uint64), (8, .byteSlice)]
  toStruct wire :=
    (wire.version, wire.proposerPublicKey, wire.subjectPublicKey, wire.topic, wire.claimBodyBytes,
      wire.proposedAtUnixMS, wire.proposerSignature, wire.acceptedAtUnixMS, wire.subjectSignature,
      ())
  ofStruct := fun (version, proposerPublicKey, subjectPublicKey, topic, claimBodyBytes,
      proposedAtUnixMS, proposerSignature, acceptedAtUnixMS, subjectSignature, _) =>
    { version, proposerPublicKey, subjectPublicKey, topic, claimBodyBytes, proposedAtUnixMS,
      proposerSignature, acceptedAtUnixMS, subjectSignature }
  ofStruct_toStruct _ := rfl
  toStruct_ofStruct _ := rfl

/-- The length check of one signature in a payload constructor. -/
def checkSignatureLength (field : LengthField) (signature : Slice) : Except Failure Unit :=
  failIf (signature.len < minSignatureBytes ∨ signature.len > maxSignatureBytes)
    (.error (.lengthOutOfBounds field signature.len none))

def newAcceptedPayload (proposer subject : Option PublicKey) (topic : Bytes) (claimBody : Slice)
    (proposedAt : UInt64) (proposerSig : Slice) (acceptedAt : UInt64) (subjectSig : Slice) :
    Except Failure EndorsementAcceptedPayload := do
  failIf (proposer = none ∨ subject = none) (.error .publicKeysRequired)
  failIf (topic.length < minTopicLength ∨ topic.length > maxTopicLength)
    (.error (.lengthOutOfBounds .topic topic.length none))
  failIf (claimBody.len < minClaimBodyBytes ∨ claimBody.len > maxClaimBodyBytes)
    (.error (.lengthOutOfBounds .claimBody claimBody.len none))
  checkSignatureLength .proposerSignature proposerSig
  checkSignatureLength .subjectSignature subjectSig
  return {
    proposerPublicKey := proposer
    subjectPublicKey := subject
    topic := topic
    claimBodyBytes := claimBody
    proposedAtUnixMS := proposedAt
    proposerSignature := proposerSig
    acceptedAtUnixMS := acceptedAt
    subjectSignature := subjectSig }

/-- The wire struct of a payload, around the encodings of its keys. -/
def EndorsementAcceptedPayload.wire (payload : EndorsementAcceptedPayload)
    (proposerPublicKey subjectPublicKey : Slice) : AcceptedPayloadWire where
  version := payloadVersionV1
  proposerPublicKey := proposerPublicKey
  subjectPublicKey := subjectPublicKey
  topic := payload.topic
  claimBodyBytes := payload.claimBodyBytes
  proposedAtUnixMS := payload.proposedAtUnixMS
  proposerSignature := payload.proposerSignature
  acceptedAtUnixMS := payload.acceptedAtUnixMS
  subjectSignature := payload.subjectSignature

def EndorsementAcceptedPayload.encode (payload : EndorsementAcceptedPayload) :
    Except Failure Bytes := do
  let proposerPublicKey ← encodePublicKey payload.proposerPublicKey
  let subjectPublicKey ← encodePublicKey payload.subjectPublicKey
  orError (platform.marshal cborEncMode (payload.wire proposerPublicKey subjectPublicKey))
    (.error .marshal)

def decodeAcceptedPayload (encoded : Bytes) : Except Failure EndorsementAcceptedPayload := do
  let wire : AcceptedPayloadWire ← (platform.unmarshal cborDecMode encoded).mapError fun err =>
    wrap .decodeAcceptedPayload (.error (.codec err))
  failIf (wire.version ≠ payloadVersionV1) (.error (.unsupportedPayloadVersion wire.version))
  let proposerPub ← (decodePublicKey wire.proposerPublicKey).mapError fun err =>
    wrap .decodeProposerPublicKey (.error err)
  let subjectPub ← (decodePublicKey wire.subjectPublicKey).mapError fun err =>
    wrap .decodeSubjectPublicKey (.error err)
  newAcceptedPayload (some proposerPub) (some subjectPub) wire.topic wire.claimBodyBytes
    wire.proposedAtUnixMS wire.proposerSignature wire.acceptedAtUnixMS wire.subjectSignature

def EndorsementAcceptedPayload.verify (payload : EndorsementAcceptedPayload) :
    Except Failure Unit := do
  let proposal ← (newProposal payload.proposerPublicKey payload.subjectPublicKey payload.topic
    payload.claimBodyBytes payload.proposedAtUnixMS).mapError (wrap .reconstructProposal)
  (proposal.verifySignature platform payload.proposerSignature).mapError
    (wrap .verifyProposerSignature)
  let proposalDigest ← proposal.digest platform
  let acceptance ← (newAcceptance proposalDigest payload.acceptedAtUnixMS).mapError
    (wrap .reconstructAcceptance)
  (acceptance.verifySignature platform payload.subjectPublicKey payload.subjectSignature).mapError
    (wrap .verifySubjectSignature)

/-! ### Revocations -/

structure EndorsementRevocation where
  targetRecordDigest : Digest
  revokerPublicKey : Option PublicKey
  role : RevokerRole
  revokedAtUnixMS : UInt64
  reason : Bytes
deriving DecidableEq

structure RevocationStatementWire where
  version : UInt64
  targetRecordDigest : Slice
  revokerPublicKey : Slice
  role : UInt64
  revokedAtUnixMS : UInt64
  reason : Bytes
deriving DecidableEq

instance : Wire RevocationStatementWire where
  schema := [(0, .uint64), (1, .byteSlice), (2, .byteSlice), (3, .uint64), (4, .uint64),
    (5, .string)]
  toStruct wire :=
    (wire.version, wire.targetRecordDigest, wire.revokerPublicKey, wire.role,
      wire.revokedAtUnixMS, wire.reason, ())
  ofStruct := fun (version, targetRecordDigest, revokerPublicKey, role, revokedAtUnixMS,
      reason, _) =>
    { version, targetRecordDigest, revokerPublicKey, role, revokedAtUnixMS, reason }
  ofStruct_toStruct _ := rfl
  toStruct_ofStruct _ := rfl

/-- The checks that `NewRevocation` and `NewRevokedPayload` begin with. -/
def checkRevocation (revokerPub : Option PublicKey) (role : RevokerRole) (reason : Bytes) :
    Except Failure Unit := do
  failIf (revokerPub = none) (.error .revokerPublicKeyRequired)
  failIf (role ≠ revokerRoleProposer ∧ role ≠ revokerRoleSubject)
    (.error (.invalidRevokerRole role))
  failIf (reason.length > maxReasonLength) (.error (.reasonTooLong reason.length))

def newRevocation (targetDigest : Digest) (revokerPub : Option PublicKey) (role : RevokerRole)
    (revokedAt : UInt64) (reason : Bytes) : Except Failure EndorsementRevocation := do
  checkRevocation revokerPub role reason
  return {
    targetRecordDigest := targetDigest
    revokerPublicKey := revokerPub
    role := role
    revokedAtUnixMS := revokedAt
    reason := reason }

def EndorsementRevocation.digest (revocation : EndorsementRevocation) : Except Failure Digest := do
  let revokerPublicKey ← encodePublicKey revocation.revokerPublicKey
  let wire : RevocationStatementWire :=
    { version := payloadVersionV1
      targetRecordDigest := some revocation.targetRecordDigest.bytes
      revokerPublicKey := revokerPublicKey
      role := revocation.role
      revokedAtUnixMS := revocation.revokedAtUnixMS
      reason := revocation.reason }
  let encoded ← orError (platform.marshal cborEncMode wire) (.panic .marshalStatement)
  return domainSeparatedDigest platform domainRevocationV1 encoded

def EndorsementRevocation.verifySignature (revocation : EndorsementRevocation)
    (signatureBytes : Slice) : Except Failure Unit :=
  Endorsement.verifySignature platform revocation.revokerPublicKey (revocation.digest platform)
    signatureBytes none .revokerSignatureFailed

structure EndorsementRevokedPayload where
  targetRecordDigest : Digest
  revokerPublicKey : Option PublicKey
  role : RevokerRole
  revokedAtUnixMS : UInt64
  reason : Bytes
  revokerSignature : Slice
deriving DecidableEq

structure RevokedPayloadWire where
  version : UInt64
  targetRecordDigest : Slice
  revokerPublicKey : Slice
  role : UInt64
  revokedAtUnixMS : UInt64
  reason : Bytes
  revokerSignature : Slice
deriving DecidableEq

instance : Wire RevokedPayloadWire where
  schema := [(0, .uint64), (1, .byteSlice), (2, .byteSlice), (3, .uint64), (4, .uint64),
    (5, .string), (6, .byteSlice)]
  toStruct wire :=
    (wire.version, wire.targetRecordDigest, wire.revokerPublicKey, wire.role,
      wire.revokedAtUnixMS, wire.reason, wire.revokerSignature, ())
  ofStruct := fun (version, targetRecordDigest, revokerPublicKey, role, revokedAtUnixMS, reason,
      revokerSignature, _) =>
    { version, targetRecordDigest, revokerPublicKey, role, revokedAtUnixMS, reason,
      revokerSignature }
  ofStruct_toStruct _ := rfl
  toStruct_ofStruct _ := rfl

def newRevokedPayload (targetDigest : Digest) (revokerPub : Option PublicKey)
    (role : RevokerRole) (revokedAt : UInt64) (reason : Bytes) (signatureBytes : Slice) :
    Except Failure EndorsementRevokedPayload := do
  checkRevocation revokerPub role reason
  checkSignatureLength .signature signatureBytes
  return {
    targetRecordDigest := targetDigest
    revokerPublicKey := revokerPub
    role := role
    revokedAtUnixMS := revokedAt
    reason := reason
    revokerSignature := signatureBytes }

/-- The wire struct of a payload, around the encoding of its key. -/
def EndorsementRevokedPayload.wire (payload : EndorsementRevokedPayload)
    (revokerPublicKey : Slice) : RevokedPayloadWire where
  version := payloadVersionV1
  targetRecordDigest := some payload.targetRecordDigest.bytes
  revokerPublicKey := revokerPublicKey
  role := payload.role
  revokedAtUnixMS := payload.revokedAtUnixMS
  reason := payload.reason
  revokerSignature := payload.revokerSignature

def EndorsementRevokedPayload.encode (payload : EndorsementRevokedPayload) :
    Except Failure Bytes := do
  let revokerPublicKey ← encodePublicKey payload.revokerPublicKey
  orError (platform.marshal cborEncMode (payload.wire revokerPublicKey)) (.error .marshal)

def decodeRevokedPayload (encoded : Bytes) : Except Failure EndorsementRevokedPayload := do
  let wire : RevokedPayloadWire ← (platform.unmarshal cborDecMode encoded).mapError fun err =>
    wrap .decodeRevokedPayload (.error (.codec err))
  failIf (wire.version ≠ payloadVersionV1) (.error (.unsupportedPayloadVersion wire.version))
  failIf (wire.targetRecordDigest.len ≠ 32) (.error .targetRecordDigestLength)
  let revokerPub ← (decodePublicKey wire.revokerPublicKey).mapError fun err =>
    wrap .decodeRevokerPublicKey (.error err)
  newRevokedPayload (FixedBytes.copyFrom 32 (wire.targetRecordDigest.getD [])) (some revokerPub)
    wire.role wire.revokedAtUnixMS wire.reason wire.revokerSignature

def EndorsementRevokedPayload.verify (payload : EndorsementRevokedPayload) :
    Except Failure Unit := do
  let revocation ← (newRevocation payload.targetRecordDigest payload.revokerPublicKey payload.role
    payload.revokedAtUnixMS payload.reason).mapError (wrap .reconstructRevocation)
  revocation.verifySignature platform payload.revokerSignature

end AttributionChain.Endorsement

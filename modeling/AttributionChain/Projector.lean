import AttributionChain.GraphIndex
import AttributionChain.LedgerStore

/-!
# The projector

`internal/graph/v1/projector.go`: `applyRecord` turns one ledger record into a
change of the attestation graph, and `replayFromStore` feeds it the pages of a
ledger scan.

`Step` lists what accepting a record can do; `applyRecord_eq_ok` is the inversion
that every later proof starts from.  The projector has its own idea of a legal
next record, which is the ledger ID and the next sequence number.
`applyRecords_positions` collects what follows for a whole list.  The projector does
not look at predecessor digests or at the genesis record, so
`foldChain_of_accepted_iff` states what has to be added before an accepted list is a
chain in the sense of `LedgerChain.lean`.
-/

namespace AttributionChain.Projector

open Cbor Ledger Endorsement Store AttributionChain.Graph

inductive ApplyError where
  | ledgerMismatch (record graph : LedgerID)
  | initialSequence (got : UInt64)
  | sequenceBreak (expected got : UInt64)
  | decodeAcceptedPayload (digest : Digest) (failure : Failure)
  | invalidProposerKey (err : IdentityKeyError)
  | invalidSubjectKey (err : IdentityKeyError)
  | decodeRevokedPayload (digest : Digest) (failure : Failure)
  | invalidRevokerKey (err : IdentityKeyError)
  | graph (err : GraphError)
deriving DecidableEq

/-- The text of an error, less the digests it prints and the error it wraps. -/
def ApplyError.text : ApplyError → String
  | .ledgerMismatch _ _ => "record ledger ID does not match graph ledger ID: record has "
  | .initialSequence got =>
    "record sequence is not strictly continuous: initial record sequence must be 1, got " ++
      toString got
  | .sequenceBreak expected got =>
    "record sequence is not strictly continuous: expected sequence " ++ toString expected ++
      ", got " ++ toString got
  | .decodeAcceptedPayload _ _ => "decode accepted payload for record "
  | .invalidProposerKey _ => "invalid proposer public key: "
  | .invalidSubjectKey _ => "invalid subject public key: "
  | .decodeRevokedPayload _ _ => "decode revoked payload for record "
  | .invalidRevokerKey _ => "invalid revoker public key: "
  | .graph err => err.text

variable (platform : Platform)

/-! ### Applying a record -/

/-- The continuity check of `ApplyRecord`. -/
def checkSequence (lastSequence sequence : UInt64) : Except ApplyError Unit :=
  if lastSequence = 0 then failIf (sequence ≠ 1) (.initialSequence sequence)
  else failIf (sequence ≠ lastSequence + 1) (.sequenceBreak (lastSequence + 1) sequence)

/-- The edge that the accepted branch builds. -/
def decodeEdge (record : StructuralRecord) : Except ApplyError AttestationEdge := do
  let payload ← (decodeAcceptedPayload platform (record.event.payloadBytes.getD [])).mapError
    (.decodeAcceptedPayload record.recordDigest)
  let proposerKey ← (identityKeyFromPublicKey payload.proposerPublicKey).mapError
    .invalidProposerKey
  let subjectKey ← (identityKeyFromPublicKey payload.subjectPublicKey).mapError .invalidSubjectKey
  return newAttestationEdge record.recordDigest record.event.sequence proposerKey subjectKey
    payload.topic payload.claimBodyBytes payload.proposedAtUnixMS payload.acceptedAtUnixMS

/-- The payload and revoker that the revoked branch decodes. -/
def decodeRevocation (record : StructuralRecord) :
    Except ApplyError (EndorsementRevokedPayload × IdentityKey) := do
  let payload ← (decodeRevokedPayload platform (record.event.payloadBytes.getD [])).mapError
    (.decodeRevokedPayload record.recordDigest)
  let revokerKey ← (identityKeyFromPublicKey payload.revokerPublicKey).mapError .invalidRevokerKey
  return (payload, revokerKey)

/-- `return p.graph.f(...)` -/
def graphResult : Graph × Option GraphError → Graph × Option ApplyError
  | (graph, err) => (graph, err.map .graph)

/-- The switch of `ApplyRecord`. -/
def projectEvent (graph : Graph) (record : StructuralRecord) : Graph × Option ApplyError :=
  let event := record.event
  if event.kind = eventKindLedgerInitialized then (graph.setLastSequence event.sequence, none)
  else if event.kind = eventKindEndorsementAccepted then
    match decodeEdge platform record with
    | .error err => (graph, some err)
    | .ok edge => graphResult (graph.addEdge edge)
  else if event.kind = eventKindEndorsementRevoked then
    match decodeRevocation platform record with
    | .error err => (graph, some err)
    | .ok (payload, revokerKey) =>
      graphResult (graph.revokeEdge payload.targetRecordDigest revokerKey payload.role
        payload.revokedAtUnixMS record.recordDigest payload.reason event.sequence)
  else (graph.setLastSequence event.sequence, none)

def applyRecord (graph : Graph) (record : StructuralRecord) : Graph × Option ApplyError :=
  if record.event.ledgerID ≠ graph.ledgerID then
    (graph, some (.ledgerMismatch record.event.ledgerID graph.ledgerID))
  else
    match checkSequence graph.lastSequence record.event.sequence with
    | .error err => (graph, some err)
    | .ok () => projectEvent platform graph record

/-- `ApplyRecord` on a list, stopping at the first rejected record. -/
def applyRecords : Graph → List StructuralRecord → Graph × Option ApplyError :=
  rangeUntilError (applyRecord platform)

/-! ### Replaying a ledger -/

inductive ReplayError where
  | scanRecords (startSequence : UInt64) (err : Option ReadError)
  | applyRecord (digest : Digest) (sequence : UInt64) (err : ApplyError)
deriving DecidableEq

/-- The graph and `totalApplied`.  The latter is an `int` in the source, which counts as
`Nat` does up to `2 ^ 63 - 1`; it never exceeds the number of rows. -/
abbrev ReplayProgress := Graph × Nat

/-- The body of the loop over a page. -/
def applyCounted (progress : ReplayProgress) (record : StructuralRecord) :
    ReplayProgress × Option ReplayError :=
  match applyRecord platform progress.1 record with
  | (graph, some err) =>
    ((graph, progress.2), some (.applyRecord record.recordDigest record.event.sequence err))
  | (graph, none) => ((graph, progress.2 + 1), none)

/-- What the scans of one replay see, and which of them fail as queries. -/
structure Scans where
  table : Nat → Table
  fails : Nat → Bool

/-- Scans that are all answered. -/
def Scans.answered (table : Nat → Table) : Scans := ⟨table, fun _ => false⟩

/-- The loop of `ReplayFromStore`.  The result is `none` when the fuel is used up. -/
def replayLoop (scans : Scans) (batchSize : Int) :
    Nat → Nat → ReplayProgress → Option (ReplayProgress × Option ReplayError)
  | 0, _, _ => none
  | fuel + 1, round, progress =>
    let startSequence := progress.1.lastSequence + 1
    match query (scans.fails round)
      (scanRecords platform (scans.table round) progress.1.ledgerID startSequence batchSize) with
    | .error err => some (progress, some (.scanRecords startSequence err))
    | .ok records =>
      if records.length = 0 then some (progress, none)
      else
        match rangeUntilError (applyCounted platform) progress records with
        | (progress, some err) => some (progress, some err)
        | (progress, none) =>
          if (records.length : Int) < batchSize then some (progress, none)
          else replayLoop scans batchSize fuel (round + 1) progress

/-- `ReplayFromStore` with a given number of rounds of fuel, and no query that fails -/
def replayFromStore (tables : Nat → Table) (batchSize : Int) (fuel : Nat) (graph : Graph) :
    Option (ReplayProgress × Option ReplayError) :=
  replayLoop platform (.answered tables) (if batchSize ≤ 0 then 256 else batchSize) fuel 0
    (graph, 0)

/-! ### What accepting a record does -/

/-- The edge of an accepted endorsement. -/
def edgeOf (record : StructuralRecord) (payload : EndorsementAcceptedPayload) : AttestationEdge :=
  newAttestationEdge record.recordDigest record.event.sequence
    (identityOf payload.proposerPublicKey) (identityOf payload.subjectPublicKey) payload.topic
    payload.claimBodyBytes payload.proposedAtUnixMS payload.acceptedAtUnixMS

/-- The effect of an accepted record, by event kind. -/
inductive Step (graph : Graph) (record : StructuralRecord) : Graph → Prop
  | accepted {payload : EndorsementAcceptedPayload}
      (hkind : record.event.kind = eventKindEndorsementAccepted)
      (hdecode : decodeAcceptedPayload platform (record.event.payloadBytes.getD []) = .ok payload)
      (hfresh : graph.edgeByDigest record.recordDigest = none) :
      Step graph record (graph.insertEdge (edgeOf record payload))
  | revoked {payload : EndorsementRevokedPayload} {ref : EdgeRef}
      (hkind : record.event.kind = eventKindEndorsementRevoked)
      (hdecode : decodeRevokedPayload platform (record.event.payloadBytes.getD []) = .ok payload)
      (hlookup : graph.edgesByDigest.lookup payload.targetRecordDigest = some ref)
      (hactive : (graph.deref ref).isActive = true)
      (hauthorized :
        Authorized (graph.deref ref) (identityOf payload.revokerPublicKey) payload.role) :
      Step graph record (graph.markRevoked ref
        ((graph.deref ref).revoke payload.role payload.revokedAtUnixMS record.recordDigest
          payload.reason) record.event.sequence)
  | other (haccepted : record.event.kind ≠ eventKindEndorsementAccepted)
      (hrevoked : record.event.kind ≠ eventKindEndorsementRevoked) :
      Step graph record (graph.setLastSequence record.event.sequence)

variable {platform} {graph next final : Graph} {record : StructuralRecord}

theorem checkSequence_eq_ok {lastSequence sequence : UInt64} :
    checkSequence lastSequence sequence = .ok () ↔ sequence = lastSequence + 1 := by
  unfold checkSequence
  split_ifs with hzero
  · rw [failIf_eq_ok, not_not, hzero, UInt64.zero_add]
  · rw [failIf_eq_ok, not_not]

/-- The next sequence number, for records that have one. -/
theorem sequence_eq_succ_iff {lastSequence sequence : UInt64} (hpos : 0 < sequence.toNat) :
    sequence = lastSequence + 1 ↔ sequence.toNat = lastSequence.toNat + 1 := by
  rw [← sequence_succ_iff]
  constructor
  · intro hnext
    refine ⟨?_, hnext⟩
    -- past the last sequence number the sum wraps to zero, which no record has
    rintro rfl
    rw [hnext] at hpos
    exact absurd hpos (by decide)
  · rintro ⟨-, hnext⟩
    exact hnext

theorem decodeEdge_eq_ok {edge : AttestationEdge} :
    decodeEdge platform record = .ok edge ↔
      ∃ payload, decodeAcceptedPayload platform (record.event.payloadBytes.getD []) = .ok payload ∧
        edge = edgeOf record payload := by
  simp only [decodeEdge, bind_eq_ok, mapError_eq_ok]
  constructor
  · rintro ⟨payload, hdecode, proposerKey, hproposerKey, subjectKey, hsubjectKey, hedge⟩
    obtain ⟨proposer, subject, _, _, hproposer, hsubject, hproposerPub, hsubjectPub, -, -⟩ :=
      decodeAcceptedPayload_eq_ok.mp hdecode
    rw [hproposer, identityKeyFromPublicKey_of_decode hproposerPub] at hproposerKey
    rw [hsubject, identityKeyFromPublicKey_of_decode hsubjectPub] at hsubjectKey
    cases hproposerKey
    cases hsubjectKey
    cases hedge
    exact ⟨payload, hdecode, by rw [edgeOf, hproposer, hsubject]⟩
  · rintro ⟨payload, hdecode, rfl⟩
    obtain ⟨proposer, subject, _, _, hproposer, hsubject, hproposerPub, hsubjectPub, -, -⟩ :=
      decodeAcceptedPayload_eq_ok.mp hdecode
    refine ⟨payload, hdecode, identityOf (some proposer), ?_, identityOf (some subject), ?_, ?_⟩
    · rw [hproposer]
      exact identityKeyFromPublicKey_of_decode hproposerPub
    · rw [hsubject]
      exact identityKeyFromPublicKey_of_decode hsubjectPub
    · rw [edgeOf, hproposer, hsubject]
      rfl

theorem decodeRevocation_eq_ok {payload : EndorsementRevokedPayload} {revokerKey : IdentityKey} :
    decodeRevocation platform record = .ok (payload, revokerKey) ↔
      decodeRevokedPayload platform (record.event.payloadBytes.getD []) = .ok payload ∧
        revokerKey = identityOf payload.revokerPublicKey := by
  simp only [decodeRevocation, bind_eq_ok, mapError_eq_ok]
  constructor
  · rintro ⟨decoded, hdecode, key, hkey, hreturn⟩
    obtain ⟨revoker, _, hrevoker, hrevokerPub, -, -⟩ := decodeRevokedPayload_eq_ok.mp hdecode
    rw [hrevoker, identityKeyFromPublicKey_of_decode hrevokerPub] at hkey
    cases hkey
    cases hreturn
    exact ⟨hdecode, by rw [hrevoker]⟩
  · rintro ⟨hdecode, rfl⟩
    obtain ⟨revoker, _, hrevoker, hrevokerPub, -, -⟩ := decodeRevokedPayload_eq_ok.mp hdecode
    refine ⟨payload, hdecode, identityOf (some revoker), ?_, ?_⟩
    · rw [hrevoker]
      exact identityKeyFromPublicKey_of_decode hrevokerPub
    · rw [hrevoker]
      rfl

theorem graphResult_eq_none {result : Graph × Option GraphError} :
    graphResult result = (next, none) ↔ result = (next, none) := by
  rcases result with ⟨graph, _ | err⟩
  · simp [graphResult]
  · simp [graphResult]

theorem projectEvent_eq_ok :
    projectEvent platform graph record = (next, none) ↔ Step platform graph record next := by
  have hdistinct : eventKindLedgerInitialized ≠ eventKindEndorsementAccepted ∧
      eventKindLedgerInitialized ≠ eventKindEndorsementRevoked ∧
      eventKindEndorsementAccepted ≠ eventKindEndorsementRevoked := by decide
  unfold projectEvent
  constructor
  · intro h
    dsimp only at h
    split_ifs at h with hinitialized haccepted hrevoked
    · cases h
      exact .other (hinitialized ▸ hdistinct.1) (hinitialized ▸ hdistinct.2.1)
    · rcases hedge : decodeEdge platform record with err | edge
      · simp [hedge] at h
      · rw [hedge] at h
        obtain ⟨payload, hdecode, rfl⟩ := decodeEdge_eq_ok.mp hedge
        obtain ⟨hfresh, rfl⟩ := addEdge_eq_ok.mp (graphResult_eq_none.mp h)
        exact .accepted haccepted hdecode hfresh
    · rcases hrevocation : decodeRevocation platform record with err | ⟨payload, revokerKey⟩
      · simp [hrevocation] at h
      · rw [hrevocation] at h
        obtain ⟨hdecode, rfl⟩ := decodeRevocation_eq_ok.mp hrevocation
        obtain ⟨ref, hlookup, hactive, hauthorized, rfl⟩ :=
          revokeEdge_eq_ok.mp (graphResult_eq_none.mp h)
        exact .revoked hrevoked hdecode hlookup hactive hauthorized
    · cases h
      exact .other haccepted hrevoked
  · intro h
    dsimp only
    cases h with
    | @accepted payload hkind hdecode hfresh =>
      rw [if_neg (hkind ▸ hdistinct.1.symm), if_pos hkind,
        decodeEdge_eq_ok.mpr ⟨payload, hdecode, rfl⟩]
      exact graphResult_eq_none.mpr (addEdge_eq_ok.mpr ⟨hfresh, rfl⟩)
    | @revoked payload ref hkind hdecode hlookup hactive hauthorized =>
      rw [if_neg (hkind ▸ hdistinct.2.1.symm), if_neg (hkind ▸ hdistinct.2.2.symm), if_pos hkind,
        decodeRevocation_eq_ok.mpr ⟨hdecode, rfl⟩]
      exact graphResult_eq_none.mpr
        (revokeEdge_eq_ok.mpr ⟨ref, hlookup, hactive, hauthorized, rfl⟩)
    | other haccepted hrevoked =>
      rw [if_neg haccepted, if_neg hrevoked, ite_self]

/-- **Acceptance of one record**: the ledger ID, the next sequence number and a
step of the graph. -/
theorem applyRecord_accepts_iff :
    applyRecord platform graph record = (next, none) ↔
      record.event.ledgerID = graph.ledgerID ∧
        record.event.sequence = graph.lastSequence + 1 ∧ Step platform graph record next := by
  rw [← projectEvent_eq_ok, ← checkSequence_eq_ok, applyRecord]
  by_cases hledger : record.event.ledgerID = graph.ledgerID
  · rw [if_neg (not_not.mpr hledger)]
    rcases checkSequence graph.lastSequence record.event.sequence with err | _
    · simp
    · simp [hledger]
  · simp [hledger]

/-- An endorsement in its place is rejected if it does not decode. -/
theorem applyRecord_of_undecoded {failure : Failure}
    (hledger : record.event.ledgerID = graph.ledgerID)
    (hsequence : record.event.sequence = graph.lastSequence + 1)
    (hkind : record.event.kind = eventKindEndorsementAccepted)
    (hfailure : decodeAcceptedPayload platform (record.event.payloadBytes.getD []) =
      .error failure) :
    applyRecord platform graph record =
      (graph, some (.decodeAcceptedPayload record.recordDigest failure)) := by
  have hdecode : decodeEdge platform record =
      .error (.decodeAcceptedPayload record.recordDigest failure) := by
    rw [decodeEdge, hfailure]
    rfl
  rw [applyRecord, if_neg (not_not.mpr hledger), checkSequence_eq_ok.mpr hsequence]
  simp only [projectEvent, hkind, hdecode]
  rfl

theorem applyRecord_eq_ok (hpos : 0 < record.event.sequence.toNat) :
    applyRecord platform graph record = (next, none) ↔
      record.event.ledgerID = graph.ledgerID ∧
        record.event.sequence.toNat = graph.lastSequence.toNat + 1 ∧
        Step platform graph record next := by
  rw [applyRecord_accepts_iff, sequence_eq_succ_iff hpos]

theorem graphResult_eq_some {result : Graph × Option GraphError} {err : ApplyError}
    (h : graphResult result = (next, some err)) :
    ∃ cause, result = (next, some cause) := by
  rcases result with ⟨graph, _ | cause⟩
  · cases (Prod.mk.inj h).2
  · cases (Prod.mk.inj h).1
    exact ⟨cause, rfl⟩

theorem projectEvent_eq_error {err : ApplyError}
    (h : projectEvent platform graph record = (next, some err)) : next = graph := by
  unfold projectEvent at h
  dsimp only at h
  split_ifs at h
  · cases (Prod.mk.inj h).2
  · split at h
    · exact (Prod.mk.inj h).1.symm
    · obtain ⟨cause, hadd⟩ := graphResult_eq_some h
      exact addEdge_eq_error hadd
  · split at h
    · exact (Prod.mk.inj h).1.symm
    · obtain ⟨cause, hrevoke⟩ := graphResult_eq_some h
      exact revokeEdge_eq_error hrevoke
  · cases (Prod.mk.inj h).2

/-- A rejected record leaves the graph as it was. -/
theorem applyRecord_eq_error {err : ApplyError}
    (h : applyRecord platform graph record = (next, some err)) : next = graph := by
  unfold applyRecord at h
  split_ifs at h
  · exact (Prod.mk.inj h).1.symm
  · split at h
    · exact (Prod.mk.inj h).1.symm
    · exact projectEvent_eq_error h

/-! ### Projected graphs are built by graph operations -/

theorem fst_graphResult (result : Graph × Option GraphError) :
    (graphResult result).1 = result.1 := rfl

theorem built_projectEvent (h : graph.Built) : (projectEvent platform graph record).1.Built := by
  unfold projectEvent
  dsimp only
  split_ifs
  · exact h.perform (.setLastSequence record.event.sequence)
  · split
    · exact h
    · rename_i edge _
      rw [fst_graphResult]
      exact h.perform (.addEdge edge)
  · split
    · exact h
    · rename_i payload revokerKey _
      rw [fst_graphResult]
      exact h.perform (.revokeEdge payload.targetRecordDigest revokerKey payload.role
        payload.revokedAtUnixMS record.recordDigest payload.reason record.event.sequence)
  · exact h.perform (.setLastSequence record.event.sequence)

theorem built_applyRecord (h : graph.Built) : (applyRecord platform graph record).1.Built := by
  unfold applyRecord
  split_ifs
  · exact h
  · split
    · exact h
    · exact built_projectEvent h

/-- **What is proved of every built graph holds of every projected one.** -/
theorem built_applyRecords (h : graph.Built) (records : List StructuralRecord) :
    (applyRecords platform graph records).1.Built := by
  induction records generalizing graph with
  | nil => exact h
  | cons record records ih =>
    have hnext : (applyRecord platform graph record).1.Built := built_applyRecord h
    rw [applyRecords, rangeUntilError]
    split
    · rename_i next hstep
      rw [hstep] at hnext
      exact ih hnext
    · rename_i next err hstep
      rw [hstep] at hnext
      exact hnext

theorem Step.ledgerID_eq (h : Step platform graph record next) :
    next.ledgerID = graph.ledgerID := by
  cases h <;> rfl

/-- Each branch leaves the watermark at the record it was given. -/
theorem Step.lastSequence_eq (h : Step platform graph record next)
    (hsequence : record.event.sequence.toNat = graph.lastSequence.toNat + 1) :
    next.lastSequence = record.event.sequence := by
  have hlater : record.event.sequence > graph.lastSequence :=
    UInt64.lt_iff_toNat_lt.mpr (by omega)
  cases h with
  | accepted => exact if_pos hlater
  | revoked => exact if_pos hlater
  | other => rfl

theorem Step.addressed (h : Step platform graph record next) (hgraph : graph.Addressed) :
    next.Addressed := by
  cases h with
  | accepted => exact hgraph.insertEdge
  | revoked _ _ hlookup =>
    apply hgraph.markRevoked hlookup
    rfl
  | other => exact hgraph.setLastSequence _

/-! ### What accepting a list says about it -/

/-- **Acceptance of a list** numbers it: one ledger, consecutive sequence
numbers, and the watermark at the end. -/
theorem applyRecords_positions {records : List StructuralRecord}
    (hpos : ∀ record ∈ records, 0 < record.event.sequence.toNat)
    (h : applyRecords platform graph records = (final, none)) :
    final.ledgerID = graph.ledgerID ∧
      final.lastSequence.toNat = graph.lastSequence.toNat + records.length ∧
      ∀ i record, records[i]? = some record → record.event.ledgerID = graph.ledgerID ∧
        record.event.sequence.toNat = graph.lastSequence.toNat + i + 1 := by
  induction records generalizing graph with
  | nil =>
    cases h
    exact ⟨rfl, rfl, by simp⟩
  | cons first rest ih =>
    obtain ⟨next, hfirst, hrest⟩ := rangeUntilError_cons_eq_ok.mp h
    obtain ⟨hledger, hsequence, hstep⟩ :=
      (applyRecord_eq_ok (hpos first (List.mem_cons_self ..))).mp hfirst
    have hnext := hstep.lastSequence_eq hsequence
    obtain ⟨hfinal, hlength, hpositions⟩ :=
      ih (fun record hrecord => hpos record (List.mem_cons_of_mem _ hrecord)) hrest
    rw [hstep.ledgerID_eq] at hfinal hpositions
    rw [hnext, hsequence] at hlength hpositions
    refine ⟨hfinal, by rw [hlength, List.length_cons]; omega, ?_⟩
    intro i record hrecord
    cases i with
    | zero =>
      cases hrecord
      exact ⟨hledger, hsequence⟩
    | succ i =>
      obtain ⟨hsame, hnumber⟩ := hpositions i record hrecord
      exact ⟨hsame, by omega⟩

theorem sequence_pos_of_mem_map {chain : List (ValidatedRecord platform)} :
    ∀ record ∈ chain.map ValidatedRecord.record, 0 < record.event.sequence.toNat := by
  intro record hrecord
  obtain ⟨validated, -, rfl⟩ := List.mem_map.mp hrecord
  exact validated.sequence_pos

/-- **What the projector leaves out.**  A list that a fresh projector accepts
passes chain validation exactly when it starts with the genesis event and every
later record, not itself a genesis, names its predecessor's digest.  Then both
end at the same sequence number. -/
theorem foldChain_of_accepted_iff (platform : Platform) (hcbor : platform.cbor.Conforms)
    (ledgerID : LedgerID) (records : List (ValidatedRecord platform)) (graph : Graph)
    (haccepted : applyRecords platform (newGraph ledgerID)
      (records.map ValidatedRecord.record) = (graph, none)) :
    ((foldChain platform .empty (records.map ValidatedRecord.record)).2 = none ↔
      (∀ first, records[0]? = some first →
        newGenesisEvent platform ledgerID first.record.event.admittedAtUnixMS =
          .ok first.record.event) ∧
      (∀ i previous next, records[i]? = some previous → records[i + 1]? = some next →
        next.record.event.kind ≠ eventKindLedgerInitialized ∧
        next.record.event.predecessor = some previous.record.recordDigest)) ∧
    (∀ state, foldChain platform .empty (records.map ValidatedRecord.record) = (state, none) →
      graph.lastSequence = state.lastSequence) := by
  obtain ⟨-, hlength, hposition⟩ := applyRecords_positions sequence_pos_of_mem_map haccepted
  have hzero : (newGraph ledgerID).lastSequence.toNat = 0 := rfl
  rw [List.length_map, hzero, Nat.zero_add] at hlength
  have hposition : ∀ i record, (records.map ValidatedRecord.record)[i]? = some record →
      record.event.ledgerID = ledgerID ∧ record.event.sequence.toNat = i + 1 := by
    intro i record hrecord
    obtain ⟨hledger, hsequence⟩ := hposition i record hrecord
    exact ⟨hledger, by omega⟩
  refine ⟨?_, ?_⟩
  · rw [foldChain_accepts_iff hcbor]
    apply wellFormedChain_iff_of_position hposition
    have hbound := graph.lastSequence.toNat_lt
    omega
  · intro state hstate
    obtain ⟨hlegal, rfl⟩ := foldChain_eq_ok.mp hstate
    apply UInt64.toNat_inj.mp
    rw [hlength, hlegal.lastSequence_eq hcbor]

/-- A fresh projector takes any record with sequence one whose kind is not one
of the two endorsement kinds. -/
theorem applyRecords_singleton {validated : ValidatedRecord platform}
    (hsequence : validated.record.event.sequence = 1)
    (haccepted : validated.record.event.kind ≠ eventKindEndorsementAccepted)
    (hrevoked : validated.record.event.kind ≠ eventKindEndorsementRevoked) :
    applyRecords platform (newGraph validated.record.event.ledgerID) [validated.record] =
      ((newGraph validated.record.event.ledgerID).setLastSequence 1, none) := by
  have happly : applyRecord platform (newGraph validated.record.event.ledgerID) validated.record =
      ((newGraph validated.record.event.ledgerID).setLastSequence 1, none) := by
    rw [applyRecord_eq_ok validated.sequence_pos]
    refine ⟨rfl, ?_, ?_⟩
    · rw [hsequence]
      rfl
    · rw [← hsequence]
      exact .other haccepted hrevoked
  exact rangeUntilError_cons_of_ok happly []

/-! ### The golden ledger -/

/-- What the endorsement of the golden ledger decodes to. -/
def goldenEndorsement : EndorsementAcceptedPayload where
  proposerPublicKey := some Ecdsa.p256Base
  subjectPublicKey := some Ecdsa.p256Opposite
  topic := ascii "a"
  claimBodyBytes := some [0x00]
  proposedAtUnixMS := 1
  proposerSignature := sampleSignature
  acceptedAtUnixMS := 2
  subjectSignature := sampleSignature

/-- What the revocation of the golden ledger decodes to. -/
def goldenRevocation : EndorsementRevokedPayload where
  targetRecordDigest := goldenEndorsementDigest
  revokerPublicKey := some Ecdsa.p256Base
  role := revokerRoleProposer
  revokedAtUnixMS := 3
  reason := ascii "r"
  revokerSignature := sampleSignature

theorem decode_goldenEndorsement :
    decodeAcceptedPayload goldenPlatform goldenEndorsementPayload = .ok goldenEndorsement :=
  toOption_eq_some.mp (by decide +kernel)

theorem decode_goldenRevocation :
    decodeRevokedPayload goldenPlatform goldenRevocationPayload = .ok goldenRevocation :=
  toOption_eq_some.mp (by decide +kernel)

/-- The graph after the genesis record, and with the edge of the endorsement. -/
def goldenGenesisGraph (golden : GoldenLedger) : Graph :=
  (newGraph goldenGenesisFields.ledgerID).setLastSequence golden.genesis.record.event.sequence

def goldenEndorsementGraph (golden : GoldenLedger) : Graph :=
  (goldenGenesisGraph golden).insertEdge (edgeOf golden.endorsement.record goldenEndorsement)

/-- The projector takes the three records of the golden ledger. -/
theorem golden_projects (golden : GoldenLedger) :
    ∃ revoked : Graph,
      applyRecord goldenPlatform (newGraph goldenGenesisFields.ledgerID) golden.genesis.record =
        (goldenGenesisGraph golden, none) ∧
      applyRecord goldenPlatform (goldenGenesisGraph golden) golden.endorsement.record =
        (goldenEndorsementGraph golden, none) ∧
      applyRecord goldenPlatform (goldenEndorsementGraph golden) golden.revocation.record =
        (revoked, none) := by
  have hstarted : Step goldenPlatform (newGraph goldenGenesisFields.ledgerID)
      golden.genesis.record (goldenGenesisGraph golden) :=
    .other golden.genesis_kind_ne.1 golden.genesis_kind_ne.2
  have hendorsed : Step goldenPlatform (goldenGenesisGraph golden) golden.endorsement.record
      (goldenEndorsementGraph golden) :=
    .accepted (by simp) (by simpa using decode_goldenEndorsement) rfl
  have hlookup : (goldenEndorsementGraph golden).edgesByDigest.lookup
      goldenRevocation.targetRecordDigest = some 0 := by
    rw [goldenRevocation, ← golden.endorsement_digest]
    exact AList.lookup_insert _
  have hkind : golden.revocation.record.event.kind = eventKindEndorsementRevoked := by simp
  have hdecode : decodeRevokedPayload goldenPlatform
      (golden.revocation.record.event.payloadBytes.getD []) = .ok goldenRevocation := by
    simpa using decode_goldenRevocation
  have hrevoked := Step.revoked hkind hdecode hlookup rfl (.inl ⟨rfl, rfl⟩)
  have hsecond : golden.endorsement.record.event.sequence.toNat =
      (goldenGenesisGraph golden).lastSequence.toNat + 1 := by
    simp [goldenGenesisGraph, setLastSequence]
  have hthird : golden.revocation.record.event.sequence.toNat =
      (goldenEndorsementGraph golden).lastSequence.toNat + 1 := by
    rw [hendorsed.lastSequence_eq hsecond]
    simp
  refine ⟨_, (applyRecord_eq_ok golden.genesis.sequence_pos).mpr ⟨?_, ?_, hstarted⟩,
    (applyRecord_eq_ok golden.endorsement.sequence_pos).mpr ⟨?_, hsecond, hendorsed⟩,
    (applyRecord_eq_ok golden.revocation.sequence_pos).mpr ⟨?_, hthird, hrevoked⟩⟩
  · simp [newGraph]
  · simp [newGraph]
  · rw [hstarted.ledgerID_eq]
    simp [newGraph]
  · rw [hendorsed.ledgerID_eq, hstarted.ledgerID_eq]
    simp [newGraph]

/-- The golden ledger passes both. -/
theorem goldenLedger_accepted :
    ∃ (golden : GoldenLedger) (graph : Graph) (state : ChainState),
      applyRecords goldenPlatform (newGraph goldenGenesisFields.ledgerID)
        (golden.chain.map ValidatedRecord.record) = (graph, none) ∧
      foldChain goldenPlatform .empty (golden.chain.map ValidatedRecord.record) = (state, none) ∧
      graph.lastSequence = 3 ∧ state.lastSequence = 3 := by
  obtain ⟨golden⟩ := goldenLedger_evaluates
  obtain ⟨revoked, hstarted, hendorsed, hrevoked⟩ := golden_projects golden
  have happly : applyRecords goldenPlatform (newGraph goldenGenesisFields.ledgerID)
      (golden.chain.map ValidatedRecord.record) = (revoked, none) := by
    simp only [applyRecords, GoldenLedger.chain, List.map_cons, List.map_nil,
      rangeUntilError_cons_of_ok hstarted, rangeUntilError_cons_of_ok hendorsed,
      rangeUntilError_cons_of_ok hrevoked, rangeUntilError_nil]
  obtain ⟨hiff, hlast⟩ := foldChain_of_accepted_iff goldenPlatform goldenPlatform_conforms
    goldenGenesisFields.ledgerID golden.chain revoked happly
  -- the genesis event and the links are what the projector did not look at
  have hfold : (foldChain goldenPlatform .empty (golden.chain.map ValidatedRecord.record)).2 =
      none := by
    apply hiff.mpr
    constructor
    · rintro first ⟨⟩
      have hadmitted : golden.genesis.record.event.admittedAtUnixMS =
          goldenGenesisFields.admittedAtUnixMS :=
        congrArg EventFields.admittedAtUnixMS golden.genesis_event
      rw [hadmitted]
      exact newGenesisEvent_of_fields goldenPlatform_conforms golden.genesis_event
    · intro i previous next hprevious hnext
      rcases i with _ | _ | i
      · cases hprevious
        cases hnext
        exact ⟨golden.endorsement_kind_ne.1, by simp [golden.genesis_digest]⟩
      · cases hprevious
        cases hnext
        exact ⟨golden.revocation_kind_ne, by simp [golden.endorsement_digest]⟩
      · cases hnext
  obtain ⟨state, hstate⟩ : ∃ state, foldChain goldenPlatform .empty
      (golden.chain.map ValidatedRecord.record) = (state, none) := ⟨_, Prod.ext rfl hfold⟩
  have hsequence : revoked.lastSequence = 3 := by
    obtain ⟨-, hcount, -⟩ := applyRecords_positions sequence_pos_of_mem_map happly
    exact UInt64.toNat_inj.mp hcount
  exact ⟨golden, revoked, _, happly, hstate, hsequence, (hlast _ hstate).symm.trans hsequence⟩

theorem inDomain_of_event {fields : RecordFields} (h : fields.InDomain) (event : EventFields)
    (hsequence : event.sequence ≠ 0) (hkind : event.kind ≠ 0) (hversion : event.payloadVersion ≠ 0)
    (hpayload : 1 ≤ event.payloadBytes.len ∧ event.payloadBytes.len ≤ 65536) :
    ({ fields with toEventFields := event } : RecordFields).InDomain :=
  ⟨hsequence, hkind, hversion, hpayload, h.signerKeyReference, h.printable, h.signatureBytes⟩

/-- A record of an unknown kind at sequence one: the projector counts it, and
chain validation wants a genesis event there. -/
theorem unknownKind_accepted :
    ∃ validated : ValidatedRecord (Platform.reference fun _ _ _ => false),
      validated.record.fields = { goldenGenesisFields with kind := 5 } ∧
      applyRecords (Platform.reference fun _ _ _ => false)
        (newGraph validated.record.event.ledgerID) [validated.record] =
          ((newGraph validated.record.event.ledgerID).setLastSequence 1, none) ∧
      (foldChain (Platform.reference fun _ _ _ => false) .empty [validated.record]).2 ≠ none := by
  have hcbor : (Platform.reference fun _ _ _ => false).cbor.Conforms := reference_conforms
  have hkind : (5 : EventKind) ≠ 0 := by decide
  have hgolden := goldenGenesisFields_inDomain
  obtain ⟨validated, hfields⟩ := exists_validatedRecord hcbor (inDomain_of_event hgolden
    { goldenGenesisFields.toEventFields with kind := 5 } hgolden.sequence hkind
    hgolden.payloadVersion hgolden.payloadBytes)
  have hevent := congrArg RecordFields.toEventFields hfields
  have hsequence : validated.record.event.sequence = 1 := congrArg EventFields.sequence hevent
  have hkind : validated.record.event.kind = 5 := congrArg EventFields.kind hevent
  refine ⟨validated, hfields,
    applyRecords_singleton hsequence (hkind ▸ by decide) (hkind ▸ by decide), ?_⟩
  intro hfold
  have hchain : WellFormedChain _ ([validated].map ValidatedRecord.record) :=
    (foldChain_accepts_iff hcbor).mp hfold
  have hgenesis := hchain.genesis validated.record rfl
  have hsemantics := (validateEventSemantics_iff_genesis hcbor validated.spec.event).mpr hgenesis
  have hinitialized : validated.record.event.kind = eventKindLedgerInitialized :=
    congrArg EventFields.kind (fields_of_validateEventSemantics validated.spec.event hsemantics)
  exact absurd (hkind.symm.trans hinitialized) (by decide)

end AttributionChain.Projector

import AttributionChain.Projectability

/-!
# What stands behind an edge

The projector decodes payloads and never checks a signature.  That every edge was
nevertheless signed for follows from how its record came into the ledger: `Backed`
says that the payload of a stored record was verified before it was encoded, and
decoding gives that payload back or nothing (`Backed.endorsementSigned`).

The converse fails.  Admission does not look for the payload among the records that
are already there, so one pair of signatures makes as many edges as it is submitted
(`resubmission_counts_twice`), and an edge that was revoked has an active copy
again.  `Unrepeated` is the missing check.
-/

namespace AttributionChain.Admission

open Cbor Ecdsa Ledger Endorsement Store Histories Projector AttributionChain.Graph

variable {platform : Platform} {table : Table} {ledgerID : LedgerID} {system : System}
  {request : Request} {phase : Phase} {record : StructuralRecord} {graph : Graph}
  {front rest : List StructuralRecord}

/-! ### Statements and their signatures -/

variable (platform) in
/-- The signature checks under the public key of an identity. -/
def VerifiesUnder (key : IdentityKey) (digest : Digest) (signature : Slice) : Prop :=
  ∃ pub, key.publicKey = some pub ∧ platform.verifyASN1 pub digest signature = true

variable (platform) in
/-- The proposer signed this proposal, and the subject the acceptance of its digest. -/
def EndorsementSigned (payload : EndorsementAcceptedPayload) (proposer subject : IdentityKey) :
    Prop :=
  ∃ proposalDigest, EndorsementProposal.digest platform ⟨payload.proposerPublicKey,
      payload.subjectPublicKey, payload.topic, payload.claimBodyBytes, payload.proposedAtUnixMS⟩ =
      .ok proposalDigest ∧
    VerifiesUnder platform proposer proposalDigest payload.proposerSignature ∧
    ∃ acceptanceDigest, EndorsementAcceptance.digest platform
        ⟨proposalDigest, payload.acceptedAtUnixMS⟩ = .ok acceptanceDigest ∧
      VerifiesUnder platform subject acceptanceDigest payload.subjectSignature

variable (platform) in
/-- The revoker signed this revocation. -/
def RevocationSigned (payload : EndorsementRevokedPayload) (revoker : IdentityKey) : Prop :=
  ∃ digest, EndorsementRevocation.digest platform ⟨payload.targetRecordDigest,
      payload.revokerPublicKey, payload.role, payload.revokedAtUnixMS, payload.reason⟩ =
      .ok digest ∧
    VerifiesUnder platform revoker digest payload.revokerSignature

/-- A payload that verifies and was read from bytes is signed under its identities. -/
theorem endorsementSigned_of_verify {payload : EndorsementAcceptedPayload} {encoded : Bytes}
    (hdecode : decodeAcceptedPayload platform encoded = .ok payload)
    (hverify : payload.verify platform = .ok ()) :
    EndorsementSigned platform payload (identityOf payload.proposerPublicKey)
      (identityOf payload.subjectPublicKey) := by
  obtain ⟨proposer, subject, _, _, hproposer, hsubject, hproposerKey, hsubjectKey, -, -⟩ :=
    decodeAcceptedPayload_eq_ok.mp hdecode
  simp only [EndorsementAcceptedPayload.verify, bind_eq_ok, mapError_eq_ok] at hverify
  obtain ⟨proposal, hproposal, _, hsigned, digest, hdigest, acceptance, hacceptance, haccepted⟩ :=
    hverify
  obtain ⟨-, -, -, rfl⟩ := newProposal_eq_ok.mp hproposal
  cases hacceptance
  obtain ⟨-, hashed, hhashed, key, hkey, hcheck⟩ := verifySignature_eq_ok.mp hsigned
  cases hhashed.symm.trans hdigest
  cases hkey.symm.trans hproposer
  obtain ⟨-, acceptanceDigest, hacceptanceDigest, other, hother, hcheckSubject⟩ :=
    verifySignature_eq_ok.mp haccepted
  cases hother.symm.trans hsubject
  refine ⟨digest, hdigest, ?_, acceptanceDigest, hacceptanceDigest, ?_⟩
  · rw [hproposer]
    exact ⟨proposer, publicKey_identityOf hproposerKey, hcheck⟩
  · rw [hsubject]
    exact ⟨subject, publicKey_identityOf hsubjectKey, hcheckSubject⟩

theorem revocationSigned_of_verify {payload : EndorsementRevokedPayload} {encoded : Bytes}
    (hdecode : decodeRevokedPayload platform encoded = .ok payload)
    (hverify : payload.verify platform = .ok ()) :
    RevocationSigned platform payload (identityOf payload.revokerPublicKey) := by
  obtain ⟨revoker, _, hrevoker, hrevokerKey, -, -⟩ := decodeRevokedPayload_eq_ok.mp hdecode
  simp only [EndorsementRevokedPayload.verify, bind_eq_ok, mapError_eq_ok] at hverify
  obtain ⟨revocation, hrevocation, hsigned⟩ := hverify
  obtain ⟨-, -, -, rfl⟩ := newRevocation_eq_ok.mp hrevocation
  obtain ⟨-, digest, hdigest, key, hkey, hcheck⟩ := verifySignature_eq_ok.mp hsigned
  cases hkey.symm.trans hrevoker
  refine ⟨digest, hdigest, ?_⟩
  rw [hrevoker]
  exact ⟨revoker, publicKey_identityOf hrevokerKey, hcheck⟩

/-! ### Stored records -/

variable (platform) in
/-- The payload of the record was verified and encoded by admission. -/
structure Backed (record : StructuralRecord) : Prop where
  endorsement : record.event.kind = eventKindEndorsementAccepted → ∃ payload encoded,
    EndorsementAcceptedPayload.verify platform payload = .ok () ∧
    payload.encode platform = .ok encoded ∧ record.event.payloadBytes = some encoded
  revocation : record.event.kind = eventKindEndorsementRevoked → ∃ payload encoded,
    EndorsementRevokedPayload.verify platform payload = .ok () ∧
    payload.encode platform = .ok encoded ∧ record.event.payloadBytes = some encoded

/-- What the decoder reads from such a record is what was verified. -/
theorem Backed.endorsementSigned (hcbor : platform.cbor.Conforms) (h : Backed platform record)
    {payload : EndorsementAcceptedPayload}
    (hpayload : endorsementOf platform record = some payload) :
    EndorsementSigned platform payload (identityOf payload.proposerPublicKey)
      (identityOf payload.subjectPublicKey) := by
  obtain ⟨hkind, hdecode⟩ := endorsementOf_eq_some.mp hpayload
  obtain ⟨verified, encoded, hverify, hencode, hbytes⟩ := h.endorsement hkind
  have hvalid := wellFormed_of_verifyAccepted hverify
  obtain ⟨proposer, hproposer⟩ := Option.ne_none_iff_exists'.mp hvalid.proposer
  obtain ⟨subject, hsubject⟩ := Option.ne_none_iff_exists'.mp hvalid.subject
  rw [hbytes, Option.getD_some] at hdecode
  obtain ⟨rfl, -⟩ :=
    (decode_encodeAcceptedPayload_iff hcbor hvalid hproposer hsubject hencode).mp hdecode
  exact endorsementSigned_of_verify hdecode hverify

theorem Backed.revocationSigned (hcbor : platform.cbor.Conforms) (h : Backed platform record)
    {payload : EndorsementRevokedPayload} (hpayload : revocationOf platform record = some payload) :
    RevocationSigned platform payload (identityOf payload.revokerPublicKey) := by
  obtain ⟨hkind, hdecode⟩ := revocationOf_eq_some.mp hpayload
  obtain ⟨verified, encoded, hverify, hencode, hbytes⟩ := h.revocation hkind
  have hvalid := wellFormed_of_verifyRevoked hverify
  obtain ⟨revoker, hrevoker⟩ := Option.ne_none_iff_exists'.mp hvalid.revoker
  rw [hbytes, Option.getD_some] at hdecode
  obtain ⟨rfl, -⟩ := (decode_encodeRevokedPayload_iff hcbor hvalid hrevoker hencode).mp hdecode
  exact revocationSigned_of_verify hdecode hverify

/-- The pending record of a method of the service is backed. -/
theorem Sound.backed (hsound : Sound platform table request phase)
    (hmethod : ∀ req, request ≠ .admitEvent req) (hpending : phase.pending = some record) :
    Backed platform record := by
  have hkinds : eventKindLedgerInitialized ≠ eventKindEndorsementAccepted ∧
      eventKindLedgerInitialized ≠ eventKindEndorsementRevoked ∧
      eventKindEndorsementAccepted ≠ eventKindEndorsementRevoked := by decide
  cases hsound with
  | @initAppend _ _ validated hfields =>
    cases hpending
    have hkind : validated.record.event.kind = eventKindLedgerInitialized :=
      congrArg EventFields.kind hfields
    exact ⟨fun haccepted => absurd (hkind.symm.trans haccepted) hkinds.1,
      fun hrevoked => absurd (hkind.symm.trans hrevoked) hkinds.2.1⟩
  | @admitAppend _ req _ _ _ validated _ hasks hfields =>
    cases hpending
    cases hasks with
    | admitEvent => exact absurd rfl (hmethod req)
    | @endorsement _ payload encoded hverify hencode =>
      have hkind : validated.record.event.kind = eventKindEndorsementAccepted :=
        congrArg EventFields.kind hfields
      refine ⟨fun _ => ⟨payload, encoded, hverify, hencode, ?_⟩, ?_⟩
      · exact congrArg EventFields.payloadBytes hfields
      · intro hrevoked
        exact absurd (hkind.symm.trans hrevoked) hkinds.2.2
    | @revocation _ payload encoded hverify hencode =>
      have hkind : validated.record.event.kind = eventKindEndorsementRevoked :=
        congrArg EventFields.kind hfields
      refine ⟨?_, fun _ => ⟨payload, encoded, hverify, hencode, ?_⟩⟩
      · intro haccepted
        exact absurd (haccepted.symm.trans hkind) hkinds.2.2
      · exact congrArg EventFields.payloadBytes hfields
  | _ => cases hpending

/-- **Every stored record is backed.** -/
theorem backed_of_stored (hcbor : platform.cbor.Conforms)
    (h : Reaches (step platform) Action.ServiceCall .initial system) (ledgerID : LedgerID) :
    ∀ record ∈ storedRecords platform system.table ledgerID, Backed platform record := by
  have hgrown : Grown (fun _ record => Backed platform record)
      (storedRecords platform system.table ledgerID) := by
    refine grown_storedRecords hcbor (fun _ _ hservice => hservice) ?_ h ledgerID
    intro state action next client call front validated hreaches _ hstores
    have hmem := List.mem_of_getElem? hstores.running
    have hconsistent := consistent_of_serviceCalls hcbor hreaches
    have hmethods := forall_request_of_reaches (fun request => ∀ req, request ≠ .admitEvent req)
      (by
        rintro state request maxRetries hservice req rfl
        exact hservice req maxRetries rfl) hreaches
    exact (hconsistent.sound call hmem).backed (hmethods call hmem) hstores.pending
  exact hgrown.forall_mem fun _ _ hbacked => hbacked

/-! ### Projected prefixes -/

/-- What a fresh projector makes of the first records of a ledger. -/
theorem projects_of_stored (hcbor : platform.cbor.Conforms)
    (h : Reaches (step platform) Action.ServiceCall .initial system)
    (hstored : storedRecords platform system.table ledgerID = front ++ rest)
    (happly : applyRecords platform (newGraph ledgerID) front = (graph, none)) :
    (front.map StructuralRecord.recordDigest).Nodup ∧
      Projects platform ledgerID front graph := by
  have hconsistent := consistent_of_serviceCalls hcbor h
  obtain ⟨chain, hholds, -⟩ := hconsistent.chained ledgerID
  rw [storedRecords_eq hholds] at hstored
  have hnodup : (front.map StructuralRecord.recordDigest).Nodup := by
    have hall := hholds.nodup_digests
    rw [hstored, List.map_append] at hall
    exact hall.of_append_left
  refine ⟨hnodup, projects_of_applyRecords ?_ hnodup happly⟩
  intro record hrecord
  have hmem : record ∈ chain.map ValidatedRecord.record := by
    rw [hstored]
    exact List.mem_append_left _ hrecord
  exact sequence_pos_of_mem_map record hmem

/-- A revocation in an accepted prefix comes after the endorsement it names, and holds
the key of its role. -/
theorem endorsement_before_revocation (hnodup : (front.map StructuralRecord.recordDigest).Nodup)
    (hprojects : Projects platform ledgerID front graph) (hmem : record ∈ front)
    {payload : EndorsementAcceptedPayload} (hpayload : endorsementOf platform record = some payload)
    {revocation : StructuralRecord} (hrevocation : revocation ∈ front)
    {revoked : EndorsementRevokedPayload}
    (hrevoked : revocationOf platform revocation = some revoked)
    (htarget : revoked.targetRecordDigest = record.recordDigest) :
    ∃ i j : Nat, i < j ∧ front[i]? = some record ∧ front[j]? = some revocation ∧
      HoldsRole payload revoked := by
  obtain ⟨j, hj⟩ := List.mem_iff_getElem?.mp hrevocation
  obtain ⟨decoded, hdecoded, target, htargetMem, endorsement, hdigest, hendorsement, hrole, -⟩ :=
    (grown_iff_take.mp hprojects.fits j revocation hj).revocation
      (revocationOf_eq_some.mp hrevoked).1
  cases hdecoded.symm.trans hrevoked
  -- the target's digest is the endorsement's, and there is one record with that digest
  obtain rfl : target = record :=
    List.inj_on_of_nodup_map hnodup (List.mem_of_mem_take htargetMem) hmem (hdigest.trans htarget)
  cases hendorsement.symm.trans hpayload
  obtain ⟨i, hi⟩ := List.mem_iff_getElem?.mp htargetMem
  rw [List.getElem?_take, Option.ite_none_right_eq_some] at hi
  exact ⟨i, j, hi.1, hi.2, hj, hrole⟩

/-- **Every edge is signed for.**  Of a ledger that only the methods of the service
have written, take any prefix that a fresh projector accepts.  Each edge of the graph
is the decoding of an accepted payload whose two signatures check under the edge's
own keys; and if the edge is inactive, a later record of the prefix revokes it, with
a signature under the key of the role that the revocation names. -/
theorem edges_signed (platform : Platform) (hcbor : platform.cbor.Conforms) (system : System)
    (h : Reaches (step platform) Action.ServiceCall .initial system) (ledgerID : LedgerID)
    (front rest : List StructuralRecord)
    (hstored : storedRecords platform system.table ledgerID = front ++ rest) (graph : Graph)
    (happly : applyRecords platform (newGraph ledgerID) front = (graph, none))
    (digest : Digest) (edge : AttestationEdge) (hedge : graph.edgeByDigest digest = some edge) :
    ∃ (i : Nat) (record : StructuralRecord) (payload : EndorsementAcceptedPayload),
      front[i]? = some record ∧ record.recordDigest = digest ∧ edge.recordDigest = digest ∧
      record.event.kind = eventKindEndorsementAccepted ∧
      decodeAcceptedPayload platform (record.event.payloadBytes.getD []) = .ok payload ∧
      edge.proposer = identityOf payload.proposerPublicKey ∧
      edge.subject = identityOf payload.subjectPublicKey ∧ edge.topic = payload.topic ∧
      edge.claimBody = payload.claimBodyBytes.getD [] ∧
      edge.proposedAtUnixMS = payload.proposedAtUnixMS ∧
      edge.acceptedAtUnixMS = payload.acceptedAtUnixMS ∧
      EndorsementSigned platform payload edge.proposer edge.subject ∧
      (edge.isActive = false →
        ∃ (j : Nat) (revocation : StructuralRecord) (revoked : EndorsementRevokedPayload),
        i < j ∧ front[j]? = some revocation ∧
        revocation.event.kind = eventKindEndorsementRevoked ∧
        decodeRevokedPayload platform (revocation.event.payloadBytes.getD []) = .ok revoked ∧
        revoked.targetRecordDigest = edge.recordDigest ∧
        (revoked.role = revokerRoleProposer ∧ RevocationSigned platform revoked edge.proposer ∨
          revoked.role = revokerRoleSubject ∧ RevocationSigned platform revoked edge.subject)) := by
  obtain ⟨hnodup, hprojects⟩ := projects_of_stored hcbor h hstored happly
  have hbacked : ∀ record ∈ front, Backed platform record := by
    intro record hrecord
    apply backed_of_stored hcbor h ledgerID
    rw [hstored]
    exact List.mem_append_left _ hrecord
  obtain ⟨record, hmem, payload, hdigest, hpayload, hcases⟩ :=
    hprojects.reflects.edge_cases hnodup hedge
  obtain ⟨hkind, hdecode⟩ := endorsementOf_eq_some.mp hpayload
  have hsigned := (hbacked record hmem).endorsementSigned hcbor hpayload
  rcases hcases with rfl | ⟨revocation, hrevocation, revoked, hrevoked, htarget, rfl⟩
  · obtain ⟨i, hi⟩ := List.mem_iff_getElem?.mp hmem
    refine ⟨i, record, payload, hi, hdigest, hdigest, hkind, hdecode, rfl, rfl, rfl, rfl, rfl, rfl,
      hsigned, ?_⟩
    intro hinactive
    cases hinactive
  · obtain ⟨i, j, hlt, hi, hj, hrole⟩ := endorsement_before_revocation hnodup hprojects hmem
      hpayload hrevocation hrevoked (htarget.trans hdigest.symm)
    have hrevocationSigned := (hbacked revocation hrevocation).revocationSigned hcbor hrevoked
    obtain ⟨hrevokedKind, hrevokedDecode⟩ := revocationOf_eq_some.mp hrevoked
    refine ⟨i, record, payload, hi, hdigest, hdigest, hkind, hdecode, rfl, rfl, rfl, rfl, rfl, rfl,
      hsigned, fun _ => ⟨j, revocation, revoked, hlt, hj, hrevokedKind, hrevokedDecode,
        htarget.trans hdigest.symm, ?_⟩⟩
    rcases hrole with ⟨hproposer, hkey⟩ | ⟨hsubject, hkey⟩
    · rw [hkey] at hrevocationSigned
      exact .inl ⟨hproposer, hrevocationSigned⟩
    · rw [hkey] at hrevocationSigned
      exact .inr ⟨hsubject, hrevocationSigned⟩

/-! ### Payloads that are submitted again -/

/-- An endorsement whose payload no endorsement of the history carries. -/
def NewPayload (history : List StructuralRecord) (record : StructuralRecord) : Prop :=
  record.event.kind = eventKindEndorsementAccepted → ∀ earlier ∈ history,
    earlier.event.kind = eventKindEndorsementAccepted →
    earlier.event.payloadBytes ≠ record.event.payloadBytes

instance (history : List StructuralRecord) (record : StructuralRecord) :
    Decidable (NewPayload history record) := inferInstanceAs (Decidable (_ → ∀ _ ∈ _, _ → _))

variable (platform) in
/-- A step of the service's methods.  If a call is about to append a record at a
position that is free, no endorsement of the ledger carries the record's payload. -/
structure Unrepeated (system : System) (action : Action) : Prop where
  service : Action.ServiceCall system action
  fresh : ∀ client ∈ action.client, ∀ call ∈ system.calls[client]?,
    ∀ record ∈ call.phase.pending,
    (∀ stored ∈ system.table.rows, stored.position ≠ (rowOfRecord record).position) →
    NewPayload (storedRecords platform system.table record.event.ledgerID) record

instance (system : System) (action : Action) : Decidable (Unrepeated platform system action) :=
  decidable_of_iff (Action.ServiceCall system action ∧
      ∀ client ∈ action.client, ∀ call ∈ system.calls[client]?, ∀ record ∈ call.phase.pending,
        (∀ stored ∈ system.table.rows, stored.position ≠ (rowOfRecord record).position) →
        NewPayload (storedRecords platform system.table record.event.ledgerID) record)
    ⟨fun h => ⟨h.1, h.2⟩, fun h => ⟨h.service, h.fresh⟩⟩

theorem serviceCall_of_unrepeated (system : System) (action : Action)
    (h : Unrepeated platform system action) : Action.ServiceCall system action := h.service

/-- **Every run without a repeated payload** keeps the payloads of a ledger apart. -/
theorem grown_newPayload (hcbor : platform.cbor.Conforms)
    (h : Reaches (step platform) (Unrepeated platform) .initial system) (ledgerID : LedgerID) :
    Grown NewPayload (storedRecords platform system.table ledgerID) := by
  refine grown_storedRecords hcbor serviceCall_of_unrepeated ?_ h ledgerID
  intro state action next client call front validated _ hunrepeated hstores
  obtain ⟨hadmits, -⟩ := append_eq_none.mp (Prod.ext rfl hstores.stored)
  rw [← storedRecords_eq hstores.before]
  exact hunrepeated.fresh client hstores.acting call hstores.running _ hstores.pending
    hadmits.position

theorem payload_unique {history : List StructuralRecord} (hgrown : Grown NewPayload history)
    {left right : StructuralRecord} (hleft : left ∈ history) (hright : right ∈ history)
    (hleftKind : left.event.kind = eventKindEndorsementAccepted)
    (hrightKind : right.event.kind = eventKindEndorsementAccepted)
    (hpayload : left.event.payloadBytes = right.event.payloadBytes) : left = right := by
  let conflict (earlier last : StructuralRecord) : Prop :=
    earlier.event.kind = eventKindEndorsementAccepted ∧
      last.event.kind = eventKindEndorsementAccepted ∧
      earlier.event.payloadBytes = last.event.payloadBytes
  have hsymm : ∀ earlier last, conflict earlier last → conflict last earlier := by
    rintro earlier last ⟨hearlier, hlast, hsame⟩
    exact ⟨hlast, hearlier, hsame.symm⟩
  refine hgrown.eq_of_conflict hsymm ?_ hleft hright ⟨hleftKind, hrightKind, hpayload⟩
  rintro front last hnew earlier hmem ⟨hearlier, hlast, hsame⟩
  exact hnew hlast earlier hmem hearlier hsame

/-- The record of an edge is an endorsement. -/
theorem kind_of_edge (hnodup : (front.map StructuralRecord.recordDigest).Nodup)
    (hprojects : Projects platform ledgerID front graph) (hmem : record ∈ front)
    {edge : AttestationEdge} (hedge : graph.edgeByDigest record.recordDigest = some edge) :
    record.event.kind = eventKindEndorsementAccepted := by
  obtain ⟨endorsed, hendorsed, payload, hdigest, hpayload, -⟩ :=
    hprojects.reflects.edge_cases hnodup hedge
  obtain rfl := List.inj_on_of_nodup_map hnodup hendorsed hmem hdigest
  exact (endorsementOf_eq_some.mp hpayload).1

/-- An edge that is inactive stays so when more records are projected. -/
theorem inactive_of_longer {more : List StructuralRecord} {later : Graph}
    (hnodup : ((front ++ more).map StructuralRecord.recordDigest).Nodup)
    (hprojects : Projects platform ledgerID front graph)
    (hlater : Projects platform ledgerID (front ++ more) later)
    {edge laterEdge : AttestationEdge} (hedge : graph.edgeByDigest record.recordDigest = some edge)
    (hinactive : edge.isActive = false)
    (hlaterEdge : later.edgeByDigest record.recordDigest = some laterEdge) :
    laterEdge.isActive = false := by
  have hfront : (front.map StructuralRecord.recordDigest).Nodup := by
    rw [List.map_append] at hnodup
    exact hnodup.of_append_left
  obtain ⟨endorsed, hendorsed, payload, hdigest, hpayload, hcases⟩ :=
    hprojects.reflects.edge_cases hfront hedge
  rcases hcases with rfl | ⟨revocation, hrevocation, revoked, hrevoked, htarget, -⟩
  · cases hinactive
  · have hrevokedEdge := hlater.reflects.edge_of_revoked hlater.fits hnodup
      (List.mem_append_left more hendorsed) hpayload (List.mem_append_left more hrevocation)
      hrevoked (htarget.trans hdigest.symm)
    rw [hdigest, hlaterEdge] at hrevokedEdge
    cases hrevokedEdge
    rfl

/-- **A signed endorsement counts once, if no payload is stored twice.**  In every
state of a run that meets `Unrepeated`, no two edges of a projected graph come from
records with the same payload; and once the edge of a payload is inactive, no graph
projected later has an active edge from that payload. -/
theorem edges_unrepeated (platform : Platform) (hcbor : platform.cbor.Conforms) (system : System)
    (h : Reaches (step platform) (Unrepeated platform) .initial system) (ledgerID : LedgerID)
    (front rest : List StructuralRecord)
    (hstored : storedRecords platform system.table ledgerID = front ++ rest) (graph : Graph)
    (happly : applyRecords platform (newGraph ledgerID) front = (graph, none)) :
    (∀ left ∈ front, ∀ right ∈ front, ∀ leftEdge rightEdge,
      graph.edgeByDigest left.recordDigest = some leftEdge →
      graph.edgeByDigest right.recordDigest = some rightEdge →
      left.event.payloadBytes = right.event.payloadBytes →
      left = right ∧ leftEdge = rightEdge) ∧
    ∀ record ∈ front, ∀ edge, graph.edgeByDigest record.recordDigest = some edge →
      edge.isActive = false →
      ∀ later more tail laterGraph, Reaches (step platform) (Unrepeated platform) system later →
      storedRecords platform later.table ledgerID = front ++ more ++ tail →
      applyRecords platform (newGraph ledgerID) (front ++ more) = (laterGraph, none) →
      ∀ other ∈ front ++ more, ∀ otherEdge,
        laterGraph.edgeByDigest other.recordDigest = some otherEdge →
        other.event.payloadBytes = record.event.payloadBytes → otherEdge.isActive = false := by
  obtain ⟨hnodup, hprojects⟩ :=
    projects_of_stored hcbor (h.mono serviceCall_of_unrepeated) hstored happly
  constructor
  · intro left hleft right hright leftEdge rightEdge hleftEdge hrightEdge hpayload
    have hgrown := grown_newPayload hcbor h ledgerID
    rw [hstored] at hgrown
    obtain rfl := payload_unique hgrown.of_append hleft hright
      (kind_of_edge hnodup hprojects hleft hleftEdge)
      (kind_of_edge hnodup hprojects hright hrightEdge) hpayload
    exact ⟨rfl, Option.some.inj (hleftEdge.symm.trans hrightEdge)⟩
  · intro record hmem edge hedge hinactive later more tail laterGraph hlater hlaterStored
      hlaterApply other hother otherEdge hotherEdge hpayload
    have hreaches := h.trans hlater
    obtain ⟨hlaterNodup, hlaterProjects⟩ :=
      projects_of_stored hcbor (hreaches.mono serviceCall_of_unrepeated) hlaterStored hlaterApply
    have hgrown := grown_newPayload hcbor hreaches ledgerID
    rw [hlaterStored] at hgrown
    -- the two records are one, so its edge was inactive before
    obtain rfl := payload_unique hgrown.of_append hother (List.mem_append_left more hmem)
      (kind_of_edge hlaterNodup hlaterProjects hother hotherEdge)
      (kind_of_edge hnodup hprojects hmem hedge) hpayload
    exact inactive_of_longer hlaterNodup hprojects hlaterProjects hedge hinactive hotherEdge

/-- `AdmitEndorsement` of the payload that `revokedRun` has endorsed and revoked. -/
def resubmission : List Action :=
  soloCall 3 (.admitEndorsement (.zero 32) (some sampleEndorsement))

/-- `AdmitEndorsement` of another payload. -/
def secondSubmission : List Action :=
  soloCall 3 (.admitEndorsement (.zero 32) (some oppositeEndorsement))

/-- The records of a ledger beside the graph they project to, if they do. -/
def storedProjection (system : System) : Option (List StructuralRecord × Graph) :=
  match applyRecords samplePlatform (newGraph (.zero 32))
      (storedRecords samplePlatform system.table (.zero 32)) with
  | (graph, none) => some (storedRecords samplePlatform system.table (.zero 32), graph)
  | (_, some _) => none

theorem storedProjection_eq_some {records : List StructuralRecord}
    (h : storedProjection system = some (records, graph)) :
    storedRecords samplePlatform system.table (.zero 32) = records ∧
      applyRecords samplePlatform (newGraph (.zero 32)) records = (graph, none) := by
  unfold storedProjection at h
  split at h
  · next projected happly =>
    cases h
    exact ⟨rfl, happly⟩
  · cases h

/-- A state whose second and fourth record have edges, the first of them inactive. -/
structure TwoEdges (system : System) where
  graph : Graph
  first : StructuralRecord
  second : StructuralRecord
  firstEdge : AttestationEdge
  secondEdge : AttestationEdge
  projects : applyRecords samplePlatform (newGraph (.zero 32))
    (storedRecords samplePlatform system.table (.zero 32)) = (graph, none)
  stored_first : (storedRecords samplePlatform system.table (.zero 32))[1]? = some first
  stored_second : (storedRecords samplePlatform system.table (.zero 32))[3]? = some second
  edge_first : graph.edgeByDigest first.recordDigest = some firstEdge
  edge_second : graph.edgeByDigest second.recordDigest = some secondEdge
  inactive : firstEdge.isActive = false
  active : secondEdge.isActive = true

/-- The second and the fourth record of such a state, if it is one. -/
def twoRecords (system : System) : Option (StructuralRecord × StructuralRecord) := do
  let (records, graph) ← storedProjection system
  let first ← records[1]?
  let second ← records[3]?
  let firstEdge ← graph.edgeByDigest first.recordDigest
  let secondEdge ← graph.edgeByDigest second.recordDigest
  if firstEdge.isActive = false ∧ secondEdge.isActive = true then some (first, second) else none

theorem exists_twoEdges {first second : StructuralRecord}
    (h : twoRecords system = some (first, second)) :
    ∃ edges : TwoEdges system, edges.first = first ∧ edges.second = second := by
  simp only [twoRecords, Option.bind_eq_bind, Option.bind_eq_some_iff,
    Option.ite_none_right_eq_some, Option.some.injEq, Prod.mk.injEq] at h
  obtain ⟨⟨records, graph⟩, hprojection, _, hfirst, _, hsecond, firstEdge, hfirstEdge, secondEdge,
    hsecondEdge, ⟨hinactive, hactive⟩, rfl, rfl⟩ := h
  obtain ⟨rfl, happly⟩ := storedProjection_eq_some hprojection
  exact ⟨⟨graph, _, _, firstEdge, secondEdge, happly, hfirst, hsecond, hfirstEdge, hsecondEdge,
    hinactive, hactive⟩, rfl, rfl⟩

/-- `revokedRun` meets `Unrepeated` and leaves the edge inactive.  Another payload after it
adds an active edge within `Unrepeated`, and so does the same payload without. -/
theorem revokedRun_evaluates :
    ∃ (before resubmitted continued : System) (records : List StructuralRecord) (graph : Graph)
      (endorsed : StructuralRecord) (edge : AttestationEdge) (twice : TwoEdges resubmitted),
      revokedRun.foldlM (checkedStep (Unrepeated samplePlatform) (step samplePlatform)) .initial =
        some before ∧
      storedProjection before = some (records, graph) ∧
      records[1]? = some endorsed ∧ endorsed.recordDigest = endorsedDigest ∧
      graph.edgeByDigest endorsedDigest = some edge ∧ edge.isActive = false ∧
      run samplePlatform before resubmission = some resubmitted ∧
      twice.first.event.payloadBytes = twice.second.event.payloadBytes ∧
      twice.first.recordDigest ≠ twice.second.recordDigest ∧
      secondSubmission.foldlM (checkedStep (Unrepeated samplePlatform) (step samplePlatform))
        before = some continued ∧
      Nonempty (TwoEdges continued) := by
  have hevaluated : (revokedRun.foldlM
      (checkedStep (Unrepeated samplePlatform) (step samplePlatform)) .initial).any (fun before =>
        ((storedProjection before).any fun projection =>
          (projection.1[1]?.any fun endorsed => decide (endorsed.recordDigest = endorsedDigest)) &&
          (projection.2.edgeByDigest endorsedDigest).any fun edge => !edge.isActive) &&
        ((run samplePlatform before resubmission).any fun resubmitted =>
          (twoRecords resubmitted).any fun records =>
            decide (records.1.event.payloadBytes = records.2.event.payloadBytes ∧
              records.1.recordDigest ≠ records.2.recordDigest)) &&
        (secondSubmission.foldlM (checkedStep (Unrepeated samplePlatform) (step samplePlatform))
          before).any fun continued => (twoRecords continued).isSome) = true := by
    decide +kernel
  simp only [Option.any_eq_true, Bool.and_eq_true, Bool.not_eq_true', decide_eq_true_eq,
    Option.isSome_iff_exists] at hevaluated
  obtain ⟨before, hbefore, ⟨⟨⟨records, graph⟩, hprojection, ⟨endorsed, hendorsed, hname⟩, edge,
    hedge, hinactive⟩, resubmitted, hresubmitted, ⟨first, second⟩, htwice, hpayload, hdigest⟩,
    continued, hcontinued, ⟨third, fourth⟩, hcontinuedRecords⟩ := hevaluated
  obtain ⟨twice, rfl, rfl⟩ := exists_twoEdges htwice
  obtain ⟨edges, -⟩ := exists_twoEdges hcontinuedRecords
  exact ⟨before, resubmitted, continued, records, graph, endorsed, edge, twice, hbefore,
    hprojection, hendorsed, hname, hedge, hinactive, hresubmitted, hpayload, hdigest, hcontinued,
    ⟨edges⟩⟩

/-- The endorsement of `revokedRun` and its revocation. -/
theorem revokedRun_signed :
    ∃ (system : System) (graph : Graph) (edge : AttestationEdge)
      (payload : EndorsementAcceptedPayload) (revoked : EndorsementRevokedPayload),
      run samplePlatform .initial revokedRun = some system ∧
      applyRecords samplePlatform (newGraph (.zero 32))
        (storedRecords samplePlatform system.table (.zero 32)) = (graph, none) ∧
      graph.edgeByDigest endorsedDigest = some edge ∧
      EndorsementSigned samplePlatform payload edge.proposer edge.subject ∧
      revoked.targetRecordDigest = edge.recordDigest ∧
      (revoked.role = revokerRoleProposer ∧
          RevocationSigned samplePlatform revoked edge.proposer ∨
        revoked.role = revokerRoleSubject ∧
          RevocationSigned samplePlatform revoked edge.subject) := by
  obtain ⟨system, -, -, records, graph, -, edge, -, hchecked, hprojection, -, -, hedge, hinactive,
    -⟩ := revokedRun_evaluates
  obtain ⟨hreaches, hrun⟩ := Reaches.refl.of_checked hchecked
  obtain ⟨rfl, happly⟩ := storedProjection_eq_some hprojection
  obtain ⟨_, _, payload, -, -, -, -, -, -, -, -, -, -, -, hsigned, hrevocation⟩ :=
    edges_signed samplePlatform reference_conforms system (hreaches.mono serviceCall_of_unrepeated)
      (.zero 32) _ [] (List.append_nil _).symm graph happly endorsedDigest edge hedge
  obtain ⟨_, _, revoked, -, -, -, -, htarget, hrole⟩ := hrevocation hinactive
  exact ⟨system, graph, edge, payload, revoked, hrun, happly, hedge, hsigned, htarget, hrole⟩

/-- Two endorsements of different payloads, the first of them revoked before the second
was made. -/
theorem secondSubmission_unrepeated :
    ∃ (before after : System) (graph : Graph) (edge : AttestationEdge) (edges : TwoEdges after),
      run samplePlatform .initial revokedRun = some before ∧
      run samplePlatform before secondSubmission = some after ∧
      edges.first.event.payloadBytes ≠ edges.second.event.payloadBytes ∧
      applyRecords samplePlatform (newGraph (.zero 32))
        (storedRecords samplePlatform before.table (.zero 32)) = (graph, none) ∧
      graph.edgeByDigest edges.first.recordDigest = some edge ∧ edge.isActive = false ∧
      ∀ other ∈ storedRecords samplePlatform after.table (.zero 32), ∀ otherEdge,
        edges.graph.edgeByDigest other.recordDigest = some otherEdge →
        other.event.payloadBytes = edges.first.event.payloadBytes →
        otherEdge.isActive = false := by
  obtain ⟨before, -, after, records, graph, endorsed, edge, -, hchecked, hprojection, hendorsed,
    hname, hedge, hinactive, -, -, -, hcontinued, ⟨edges⟩⟩ := revokedRun_evaluates
  obtain ⟨hreaches, hbefore⟩ := Reaches.refl.of_checked hchecked
  obtain ⟨hlater, hafter⟩ := Reaches.refl.of_checked hcontinued
  obtain ⟨rfl, happly⟩ := storedProjection_eq_some hprojection
  obtain ⟨new, hnew⟩ := exists_storedRecords_eq reference_conforms
    (hreaches.mono serviceCall_of_unrepeated) (hlater.mono serviceCall_of_unrepeated) (.zero 32)
  have hfirst : edges.first = endorsed := by
    have hstored := edges.stored_first
    rw [hnew, List.getElem?_append_left (List.getElem?_eq_some_iff.mp hendorsed).1, hendorsed]
      at hstored
    exact (Option.some.inj hstored).symm
  have hdigest : graph.edgeByDigest endorsed.recordDigest = some edge := by rw [hname, hedge]
  obtain ⟨hunique, -⟩ := edges_unrepeated samplePlatform reference_conforms after
    (hreaches.trans hlater) (.zero 32) _ [] (List.append_nil _).symm edges.graph edges.projects
  obtain ⟨-, hrevoked⟩ := edges_unrepeated samplePlatform reference_conforms before hreaches
    (.zero 32) _ [] (List.append_nil _).symm graph happly
  refine ⟨before, after, graph, edge, edges, hbefore, hafter, ?_, happly, hfirst ▸ hdigest,
    hinactive, ?_⟩
  · -- one edge is active and the other is not
    intro hpayload
    obtain ⟨-, hsame⟩ := hunique _ (List.mem_of_getElem? edges.stored_first) _
      (List.mem_of_getElem? edges.stored_second) _ _ edges.edge_first edges.edge_second hpayload
    exact absurd (edges.inactive.symm.trans (hsame ▸ edges.active)) (by decide)
  · intro other hother otherEdge hotherEdge hpayload
    rw [hfirst] at hpayload
    rw [hnew] at hother
    exact hrevoked endorsed (List.mem_of_getElem? hendorsed) edge hdigest hinactive after new []
      edges.graph hlater (hnew.trans (List.append_nil _).symm) (hnew ▸ edges.projects) other hother
      otherEdge hotherEdge hpayload

/-- The service stores a payload again, and the revoked endorsement has an active edge
beside the inactive one. -/
theorem resubmission_counts_twice :
    ∃ (system : System) (graph : Graph) (first second : StructuralRecord)
      (firstEdge secondEdge : AttestationEdge),
      Reaches (step samplePlatform) Action.ServiceCall .initial system ∧
      run samplePlatform .initial (revokedRun ++ resubmission) = some system ∧
      applyRecords samplePlatform (newGraph (.zero 32))
        (storedRecords samplePlatform system.table (.zero 32)) = (graph, none) ∧
      (storedRecords samplePlatform system.table (.zero 32))[1]? = some first ∧
      (storedRecords samplePlatform system.table (.zero 32))[3]? = some second ∧
      first.event.payloadBytes = second.event.payloadBytes ∧
      first.recordDigest ≠ second.recordDigest ∧
      graph.edgeByDigest first.recordDigest = some firstEdge ∧ firstEdge.isActive = false ∧
      graph.edgeByDigest second.recordDigest = some secondEdge ∧ secondEdge.isActive = true := by
  obtain ⟨before, after, -, -, -, -, -, twice, hchecked, -, -, -, -, -, hafter, hpayload, hdigest,
    -⟩ := revokedRun_evaluates
  obtain ⟨-, hbefore⟩ := Reaches.refl.of_checked hchecked
  have hrun : run samplePlatform .initial (revokedRun ++ resubmission) = some after := by
    unfold run at hafter ⊢
    rw [List.foldlM_append, hbefore]
    exact hafter
  have hreaches := reaches_of_run (by simp [resubmission, revokedRun, soloCall]) hrun
  exact ⟨after, twice.graph, twice.first, twice.second, twice.firstEdge, twice.secondEdge,
    hreaches, hrun, twice.projects, twice.stored_first, twice.stored_second, hpayload, hdigest,
    twice.edge_first, twice.inactive, twice.edge_second, twice.active⟩

end AttributionChain.Admission

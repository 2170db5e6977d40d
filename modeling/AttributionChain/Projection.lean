import AttributionChain.PagedReplay

/-!
# The projection in closed form

What the graph holds after a history, read off the history itself.  `edgeAt` is
the edge of the endorsement with a given digest, revoked by the revocation that
targets it; `Reflects` says that the graph answers every lookup that way.
`Fits` is the condition under which the projector takes one more record.

`Step.reflects` is the step of the refinement, and `exists_step_iff` says that a
graph that reflects a history takes exactly the records that fit it.
`exists_projection` is the run: a numbered history in which every record fits the
ones before it can be projected to its end.
-/

namespace AttributionChain.Projector

open Ledger Endorsement AttributionChain.Graph Histories Store

variable (platform : Platform)

/-! ### Reading a history -/

/-- The endorsement that a record carries. -/
def endorsementOf (record : StructuralRecord) : Option EndorsementAcceptedPayload :=
  if record.event.kind = eventKindEndorsementAccepted then
    (decodeAcceptedPayload platform (record.event.payloadBytes.getD [])).toOption
  else none

/-- The revocation that a record carries. -/
def revocationOf (record : StructuralRecord) : Option EndorsementRevokedPayload :=
  if record.event.kind = eventKindEndorsementRevoked then
    (decodeRevokedPayload platform (record.event.payloadBytes.getD [])).toOption
  else none

/-- The edge that a record adds under a digest. -/
def endorsedBy (digest : Digest) (record : StructuralRecord) : Option AttestationEdge :=
  if record.recordDigest = digest then (endorsementOf platform record).map (edgeOf record) else none

/-- What a record's revocation of a digest does to an edge. -/
def revokedBy (digest : Digest) (record : StructuralRecord) :
    Option (AttestationEdge → AttestationEdge) :=
  (revocationOf platform record).bind fun payload =>
    if payload.targetRecordDigest = digest then
      some fun edge =>
        edge.revoke payload.role payload.revokedAtUnixMS record.recordDigest payload.reason
    else none

/-- The edge that a history has for a digest. -/
def edgeAt (history : List StructuralRecord) (digest : Digest) : Option AttestationEdge :=
  (history.findSome? (endorsedBy platform digest)).map
    ((history.findSome? (revokedBy platform digest)).getD id)

/-- A history's revocations name its endorsements, and the graph answers as the
history does. -/
structure Reflects (graph : Graph) (history : List StructuralRecord) : Prop where
  addressed : graph.Addressed
  edge : ∀ digest, graph.edgeByDigest digest = edgeAt platform history digest
  targets : ∀ digest, history.findSome? (endorsedBy platform digest) = none →
    history.findSome? (revokedBy platform digest) = none

/-- The revoker's key is the one that the role names. -/
def HoldsRole (endorsement : EndorsementAcceptedPayload) (revocation : EndorsementRevokedPayload) :
    Prop :=
  (revocation.role = revokerRoleProposer ∧
      identityOf revocation.revokerPublicKey = identityOf endorsement.proposerPublicKey) ∨
    (revocation.role = revokerRoleSubject ∧
      identityOf revocation.revokerPublicKey = identityOf endorsement.subjectPublicKey)

/-- An endorsement in the history that a revocation may target. -/
def Revocable (history : List StructuralRecord) (revocation : EndorsementRevokedPayload) : Prop :=
  ∃ target ∈ history, ∃ endorsement, target.recordDigest = revocation.targetRecordDigest ∧
    endorsementOf platform target = some endorsement ∧ HoldsRole endorsement revocation ∧
    ∀ earlier ∈ history, ∀ other, revocationOf platform earlier = some other →
      other.targetRecordDigest ≠ revocation.targetRecordDigest

instance (endorsement : EndorsementAcceptedPayload) (revocation : EndorsementRevokedPayload) :
    Decidable (HoldsRole endorsement revocation) := inferInstanceAs (Decidable (_ ∨ _))

instance (history : List StructuralRecord) (revocation : EndorsementRevokedPayload) :
    Decidable (Revocable platform history revocation) :=
  decidable_of_iff (∃ target ∈ history, target.recordDigest = revocation.targetRecordDigest ∧
      (∃ endorsement ∈ endorsementOf platform target, HoldsRole endorsement revocation) ∧
      ∀ earlier ∈ history, ∀ other ∈ revocationOf platform earlier,
        other.targetRecordDigest ≠ revocation.targetRecordDigest) (by
    constructor
    · rintro ⟨target, hmem, hdigest, ⟨endorsement, hendorsement, hrole⟩, hfirst⟩
      exact ⟨target, hmem, endorsement, hdigest, hendorsement, hrole, hfirst⟩
    · rintro ⟨target, hmem, endorsement, hdigest, hendorsement, hrole, hfirst⟩
      exact ⟨target, hmem, hdigest, ⟨endorsement, hendorsement, hrole⟩, hfirst⟩)

/-- A record that the projector takes after a history. -/
structure Fits (history : List StructuralRecord) (record : StructuralRecord) : Prop where
  endorsement : record.event.kind = eventKindEndorsementAccepted →
    ∃ payload, endorsementOf platform record = some payload
  revocation : record.event.kind = eventKindEndorsementRevoked →
    ∃ payload, revocationOf platform record = some payload ∧ Revocable platform history payload

variable {platform} {graph next : Graph} {history : List StructuralRecord}
  {record : StructuralRecord} {digest : Digest} {edge : AttestationEdge}

theorem endorsementOf_eq_some {payload : EndorsementAcceptedPayload} :
    endorsementOf platform record = some payload ↔
      record.event.kind = eventKindEndorsementAccepted ∧
        decodeAcceptedPayload platform (record.event.payloadBytes.getD []) = .ok payload := by
  unfold endorsementOf
  split_ifs with hkind
  · simp [hkind, toOption_eq_some]
  · simp [hkind]

theorem revocationOf_eq_some {payload : EndorsementRevokedPayload} :
    revocationOf platform record = some payload ↔
      record.event.kind = eventKindEndorsementRevoked ∧
        decodeRevokedPayload platform (record.event.payloadBytes.getD []) = .ok payload := by
  unfold revocationOf
  split_ifs with hkind
  · simp [hkind, toOption_eq_some]
  · simp [hkind]

theorem Fits.of_endorsement {payload : EndorsementAcceptedPayload}
    (h : endorsementOf platform record = some payload) : Fits platform history record := by
  refine ⟨fun _ => ⟨payload, h⟩, fun hrevoked => ?_⟩
  have hkinds := (endorsementOf_eq_some.mp h).1.symm.trans hrevoked
  exact absurd hkinds (by decide)

theorem Fits.of_revocation {payload : EndorsementRevokedPayload}
    (h : revocationOf platform record = some payload)
    (hrevocable : Revocable platform history payload) : Fits platform history record := by
  refine ⟨fun haccepted => ?_, fun _ => ⟨payload, h, hrevocable⟩⟩
  have hkinds := haccepted.symm.trans (revocationOf_eq_some.mp h).1
  exact absurd hkinds (by decide)

theorem Fits.of_other (platform : Platform)
    (haccepted : record.event.kind ≠ eventKindEndorsementAccepted)
    (hrevoked : record.event.kind ≠ eventKindEndorsementRevoked) : Fits platform history record :=
  ⟨fun hkind => absurd hkind haccepted, fun hkind => absurd hkind hrevoked⟩

theorem endorsementOf_of_kind (platform : Platform)
    (h : record.event.kind ≠ eventKindEndorsementAccepted) :
    endorsementOf platform record = none := if_neg h

theorem revocationOf_of_kind (platform : Platform)
    (h : record.event.kind ≠ eventKindEndorsementRevoked) :
    revocationOf platform record = none := if_neg h

theorem revokedBy_of_none (h : revocationOf platform record = none) (digest : Digest) :
    revokedBy platform digest record = none := by
  rw [revokedBy, h, Option.bind_none]

theorem endorsedBy_of_none (h : endorsementOf platform record = none) (digest : Digest) :
    endorsedBy platform digest record = none := by
  rw [endorsedBy, h, Option.map_none, ite_self]

theorem revokedBy_of_some {payload : EndorsementRevokedPayload}
    (h : revocationOf platform record = some payload) (digest : Digest) :
    revokedBy platform digest record =
      if payload.targetRecordDigest = digest then
        some fun edge =>
          edge.revoke payload.role payload.revokedAtUnixMS record.recordDigest payload.reason
      else none := by
  rw [revokedBy, h, Option.bind_some]

/-- A revoked edge is inactive. -/
theorem isActive_of_revokedBy {revoke : AttestationEdge → AttestationEdge}
    (h : revokedBy platform digest record = some revoke) (edge : AttestationEdge) :
    (revoke edge).isActive = false := by
  unfold revokedBy at h
  rcases hpayload : revocationOf platform record with _ | payload
  · rw [hpayload] at h
    cases h
  · rw [hpayload] at h
    simp only [Option.bind_some, Option.ite_none_right_eq_some, Option.some.injEq] at h
    obtain ⟨-, rfl⟩ := h
    rfl

theorem edgeAt_concat (history : List StructuralRecord) (record : StructuralRecord)
    (digest : Digest) :
    edgeAt platform (history ++ [record]) digest =
      ((history.findSome? (endorsedBy platform digest)).or (endorsedBy platform digest record)).map
        (((history.findSome? (revokedBy platform digest)).or
          (revokedBy platform digest record)).getD id) := by
  simp only [edgeAt, List.findSome?_append, List.findSome?_cons, List.findSome?_nil]
  rcases endorsedBy platform digest record with _ | edge <;>
    rcases revokedBy platform digest record with _ | revoke <;> rfl

theorem edgeAt_eq_none :
    edgeAt platform history digest = none ↔
      history.findSome? (endorsedBy platform digest) = none := Option.map_eq_none_iff

/-- An active edge has not been revoked, so it is as it was endorsed. -/
theorem edgeAt_of_isActive (h : edgeAt platform history digest = some edge)
    (hactive : edge.isActive = true) :
    history.findSome? (endorsedBy platform digest) = some edge ∧
      history.findSome? (revokedBy platform digest) = none := by
  obtain ⟨endorsed, hendorsed, hedge⟩ := Option.map_eq_some_iff.mp h
  rcases hrevoked : history.findSome? (revokedBy platform digest) with _ | revoke
  · rw [hrevoked] at hedge
    exact ⟨hendorsed.trans (congrArg some hedge), rfl⟩
  · obtain ⟨earlier, -, hearlier⟩ := List.exists_of_findSome?_eq_some hrevoked
    have hinactive := isActive_of_revokedBy hearlier endorsed
    rw [hrevoked, Option.getD_some] at hedge
    rw [hedge, hactive] at hinactive
    cases hinactive

/-! ### The refinement -/

theorem reflects_newGraph (platform : Platform) (ledgerID : LedgerID) :
    Reflects platform (newGraph ledgerID) [] := by
  constructor
  · exact addressed_newGraph ledgerID
  · intro digest
    rfl
  · intro digest _
    rfl

/-- **One record.**  The graph goes on answering as the history does. -/
theorem Step.reflects (hstep : Step platform graph record next)
    (h : Reflects platform graph history) : Reflects platform next (history ++ [record]) := by
  have hkinds : eventKindEndorsementAccepted ≠ eventKindEndorsementRevoked := by decide
  have haddressed := hstep.addressed h.addressed
  cases hstep with
  | @accepted payload hkind hdecode hfresh =>
    have hendorsement := endorsementOf_eq_some.mpr ⟨hkind, hdecode⟩
    have hrevocation := revokedBy_of_none
      (revocationOf_of_kind platform (hkind ▸ hkinds))
    -- the digest is new to the graph, so nothing in the history names it yet
    rw [h.edge, edgeAt_eq_none] at hfresh
    have hunrevoked := h.targets _ hfresh
    refine ⟨haddressed, ?_, ?_⟩
    · intro digest
      rw [edgeByDigest_insertEdge h.addressed, edgeAt_concat, hrevocation, Option.or_none]
      by_cases heq : digest = record.recordDigest
      · subst heq
        simp [endorsedBy, hendorsement, hfresh, hunrevoked, edgeOf, newAttestationEdge]
      · rw [if_neg (by simpa [edgeOf, newAttestationEdge] using heq), h.edge, edgeAt, endorsedBy,
          if_neg (Ne.symm heq), Option.or_none]
    · intro digest hnone
      rw [List.findSome?_append, Option.or_eq_none_iff] at hnone
      simp [List.findSome?_append, h.targets digest hnone.1, hrevocation]
  | @revoked payload ref hkind hdecode hlookup hactive hauthorized =>
    have hrevocation := revokedBy_of_some (revocationOf_eq_some.mpr ⟨hkind, hdecode⟩)
    have hendorsement := endorsedBy_of_none
      (endorsementOf_of_kind platform (hkind ▸ hkinds.symm))
    have hedge : edgeAt platform history payload.targetRecordDigest = some (graph.deref ref) := by
      rw [← h.edge]
      exact edgeByDigest_eq_some.mpr ⟨ref, hlookup, rfl⟩
    obtain ⟨hendorsed, hunrevoked⟩ := edgeAt_of_isActive hedge hactive
    refine ⟨haddressed, ?_, ?_⟩
    · intro digest
      rw [edgeByDigest_markRevoked h.addressed hlookup, edgeAt_concat, hendorsement,
        Option.or_none, hrevocation]
      by_cases heq : digest = payload.targetRecordDigest
      · subst heq
        simp [hendorsed, hunrevoked]
      · rw [if_neg heq, if_neg (Ne.symm heq), Option.or_none, h.edge, edgeAt]
    · intro digest hnone
      rw [List.findSome?_append, Option.or_eq_none_iff] at hnone
      have hne : payload.targetRecordDigest ≠ digest := by
        rintro rfl
        rw [hendorsed] at hnone
        cases hnone.1
      simp [List.findSome?_append, h.targets digest hnone.1, hrevocation, hne]
  | other haccepted hrevoked =>
    have hendorsement := endorsedBy_of_none
      (endorsementOf_of_kind platform haccepted)
    have hrevocation := revokedBy_of_none (revocationOf_of_kind platform hrevoked)
    refine ⟨haddressed, ?_, ?_⟩
    · intro digest
      rw [edgeByDigest_setLastSequence, h.edge, edgeAt_concat, hendorsement, hrevocation,
        Option.or_none, Option.or_none, edgeAt]
    · intro digest hnone
      rw [List.findSome?_append, Option.or_eq_none_iff] at hnone
      simp [List.findSome?_append, h.targets digest hnone.1, hrevocation]

/-! ### Which records fit -/

/-- With distinct digests a lookup finds the one endorsement there can be. -/
theorem findSome?_endorsedBy (hnodup : (history.map StructuralRecord.recordDigest).Nodup) :
    history.findSome? (endorsedBy platform digest) = some edge ↔
      ∃ target ∈ history, ∃ endorsement, target.recordDigest = digest ∧
        endorsementOf platform target = some endorsement ∧ edge = edgeOf target endorsement := by
  have hendorsed : ∀ target found, endorsedBy platform digest target = some found ↔
      ∃ endorsement, target.recordDigest = digest ∧
        endorsementOf platform target = some endorsement ∧ found = edgeOf target endorsement := by
    intro target found
    unfold endorsedBy
    split_ifs with hdigest
    · simp [hdigest, eq_comm]
    · simp [hdigest]
  constructor
  · intro h
    obtain ⟨target, hmem, htarget⟩ := List.exists_of_findSome?_eq_some h
    obtain ⟨endorsement, hfound⟩ := (hendorsed target edge).mp htarget
    exact ⟨target, hmem, endorsement, hfound⟩
  · rintro ⟨target, hmem, endorsement, hdigest, hendorsement, hedge⟩
    have htarget := (hendorsed target edge).mpr ⟨endorsement, hdigest, hendorsement, hedge⟩
    rcases hfind : history.findSome? (endorsedBy platform digest) with _ | found
    · rw [List.findSome?_eq_none_iff.mp hfind target hmem] at htarget
      cases htarget
    · obtain ⟨other, hother, hfound⟩ := List.exists_of_findSome?_eq_some hfind
      obtain ⟨_, hotherDigest, -⟩ := (hendorsed other found).mp hfound
      have hsame : other = target :=
        List.inj_on_of_nodup_map hnodup hother hmem (hotherDigest.trans hdigest.symm)
      rw [← hfound, hsame, htarget]

theorem findSome?_revokedBy_eq_none :
    history.findSome? (revokedBy platform digest) = none ↔
      ∀ earlier ∈ history, ∀ other, revocationOf platform earlier = some other →
        other.targetRecordDigest ≠ digest := by
  rw [List.findSome?_eq_none_iff]
  apply forall₂_congr
  intro earlier _
  rcases hpayload : revocationOf platform earlier with _ | payload
  · simp [revokedBy_of_none hpayload]
  · simp [revokedBy_of_some hpayload]

/-- **Which records a graph takes**, in terms of the history it reflects. -/
theorem exists_step_iff (h : Reflects platform graph history)
    (hnodup : (history.map StructuralRecord.recordDigest).Nodup)
    (hfresh : ∀ earlier ∈ history, earlier.recordDigest ≠ record.recordDigest) :
    (∃ next, Step platform graph record next) ↔ Fits platform history record := by
  constructor
  · rintro ⟨next, hstep⟩
    cases hstep with
    | @accepted payload hkind hdecode _ =>
      exact .of_endorsement (endorsementOf_eq_some.mpr ⟨hkind, hdecode⟩)
    | @revoked payload ref hkind hdecode hlookup hactive hauthorized =>
      have hedge : edgeAt platform history payload.targetRecordDigest =
          some (graph.deref ref) := by
        rw [← h.edge]
        exact edgeByDigest_eq_some.mpr ⟨ref, hlookup, rfl⟩
      obtain ⟨hendorsed, hunrevoked⟩ := edgeAt_of_isActive hedge hactive
      obtain ⟨target, hmem, endorsement, hdigest, hendorsement, hderef⟩ :=
        (findSome?_endorsedBy hnodup).mp hendorsed
      rw [hderef] at hauthorized
      exact .of_revocation (revocationOf_eq_some.mpr ⟨hkind, hdecode⟩) ⟨target, hmem, endorsement,
        hdigest, hendorsement, hauthorized, findSome?_revokedBy_eq_none.mp hunrevoked⟩
    | other haccepted hrevoked => exact .of_other platform haccepted hrevoked
  · intro hfits
    by_cases haccepted : record.event.kind = eventKindEndorsementAccepted
    · obtain ⟨payload, hpayload⟩ := hfits.endorsement haccepted
      have hnew : graph.edgeByDigest record.recordDigest = none := by
        rw [h.edge, edgeAt_eq_none, List.findSome?_eq_none_iff]
        intro earlier hearlier
        exact if_neg (hfresh earlier hearlier)
      exact ⟨_, .accepted haccepted (endorsementOf_eq_some.mp hpayload).2 hnew⟩
    · by_cases hrevoked : record.event.kind = eventKindEndorsementRevoked
      · obtain ⟨payload, hpayload, target, hmem, endorsement, hdigest, hendorsement, hrole,
          hfirst⟩ := hfits.revocation hrevoked
        have hendorsed : history.findSome? (endorsedBy platform payload.targetRecordDigest) =
            some (edgeOf target endorsement) :=
          (findSome?_endorsedBy hnodup).mpr ⟨target, hmem, endorsement, hdigest, hendorsement, rfl⟩
        have hedge : graph.edgeByDigest payload.targetRecordDigest =
            some (edgeOf target endorsement) := by
          rw [h.edge, edgeAt, hendorsed, findSome?_revokedBy_eq_none.mpr hfirst]
          rfl
        obtain ⟨ref, hlookup, hderef⟩ := edgeByDigest_eq_some.mp hedge
        exact ⟨_, .revoked hrevoked (revocationOf_eq_some.mp hpayload).2 hlookup
          (by rw [hderef]; rfl) (by rw [hderef]; exact hrole)⟩
      · exact ⟨_, .other haccepted hrevoked⟩

/-- **A whole history.**  Numbered records of one ledger, each fitting the ones
before it, project to their end. -/
theorem exists_projection {records : List StructuralRecord} {ledgerID : LedgerID}
    (hgrown : Grown (Fits platform) records)
    (hnodup : (records.map StructuralRecord.recordDigest).Nodup)
    (hposition : ∀ i record, records[i]? = some record →
      record.event.ledgerID = ledgerID ∧ record.event.sequence.toNat = i + 1) :
    ∃ graph, applyRecords platform (newGraph ledgerID) records = (graph, none) ∧
      Reflects platform graph records ∧ graph.ledgerID = ledgerID ∧
      graph.lastSequence.toNat = records.length := by
  induction hgrown with
  | nil => exact ⟨newGraph ledgerID, rfl, reflects_newGraph platform ledgerID, rfl, rfl⟩
  | @concat front record _ hfits ih =>
    rw [List.map_append, List.nodup_append] at hnodup
    obtain ⟨hfrontNodup, -, hdistinct⟩ := hnodup
    obtain ⟨graph, happly, hreflects, hledger, hlast⟩ := ih hfrontNodup fun i other hother =>
      hposition i other (getElem?_concat_eq_some.mpr (.inl hother))
    obtain ⟨hrecordLedger, hsequence⟩ :=
      hposition front.length record (getElem?_concat_eq_some.mpr (.inr ⟨rfl, rfl⟩))
    have hfresh : ∀ earlier ∈ front, earlier.recordDigest ≠ record.recordDigest := by
      intro earlier hearlier
      exact hdistinct _ (List.mem_map_of_mem hearlier) _ (by simp)
    obtain ⟨next, hstep⟩ := (exists_step_iff hreflects hfrontNodup hfresh).mpr hfits
    have hnumber : record.event.sequence.toNat = graph.lastSequence.toNat + 1 := by omega
    have hnext : applyRecord platform graph record = (next, none) :=
      (applyRecord_eq_ok (by omega)).mpr ⟨hrecordLedger.trans hledger.symm, hnumber, hstep⟩
    refine ⟨next, ?_, hstep.reflects hreflects, hstep.ledgerID_eq.trans hledger, ?_⟩
    · exact rangeUntilError_append_eq_ok.mpr
        ⟨graph, happly, rangeUntilError_cons_of_ok hnext []⟩
    · rw [hstep.lastSequence_eq hnumber, hsequence, List.length_append, List.length_singleton]

/-- **The projector takes exactly the histories in which every record fits.** -/
theorem applyRecords_accepts_iff {records : List StructuralRecord} {ledgerID : LedgerID}
    (hnodup : (records.map StructuralRecord.recordDigest).Nodup)
    (hposition : ∀ i record, records[i]? = some record →
      record.event.ledgerID = ledgerID ∧ record.event.sequence.toNat = i + 1) :
    (∃ graph, applyRecords platform (newGraph ledgerID) records = (graph, none)) ↔
      Grown (Fits platform) records := by
  constructor
  · rintro ⟨final, happly⟩
    induction records using List.reverseRecOn generalizing final with
    | nil => exact .nil
    | append_singleton front record ih =>
      obtain ⟨middle, hfront, hlast⟩ := rangeUntilError_append_eq_ok.mp happly
      rw [List.map_append, List.nodup_append] at hnodup
      obtain ⟨hfrontNodup, -, hdistinct⟩ := hnodup
      have hfrontPosition : ∀ i other, front[i]? = some other →
          other.event.ledgerID = ledgerID ∧ other.event.sequence.toNat = i + 1 := by
        intro i other hother
        exact hposition i other (getElem?_concat_eq_some.mpr (.inl hother))
      have hgrown := ih hfrontNodup hfrontPosition middle hfront
      -- the graph before the last record reflects the front, so the record fits it
      obtain ⟨graph, happlied, hreflects, -, -⟩ :=
        exists_projection hgrown hfrontNodup hfrontPosition
      obtain rfl : graph = middle := congrArg Prod.fst (happlied.symm.trans hfront)
      obtain ⟨next, hrecord, -⟩ := rangeUntilError_cons_eq_ok.mp hlast
      have hsequence := (hposition front.length record
        (getElem?_concat_eq_some.mpr (.inr ⟨rfl, rfl⟩))).2
      obtain ⟨-, -, hstep⟩ := (applyRecord_eq_ok (by omega)).mp hrecord
      have hfresh : ∀ earlier ∈ front, earlier.recordDigest ≠ record.recordDigest := by
        intro earlier hearlier
        exact hdistinct _ (List.mem_map_of_mem hearlier) _ (by simp)
      exact .concat hgrown ((exists_step_iff hreflects hfrontNodup hfresh).mp ⟨next, hstep⟩)
  · intro hgrown
    obtain ⟨graph, happly, -⟩ := exists_projection hgrown hnodup hposition
    exact ⟨graph, happly⟩

/-- What is known about a history that a fresh projector has accepted. -/
structure Projects (platform : Platform) (ledgerID : LedgerID) (history : List StructuralRecord)
    (graph : Graph) : Prop where
  position : ∀ i record, history[i]? = some record →
    record.event.ledgerID = ledgerID ∧ record.event.sequence.toNat = i + 1
  fits : Grown (Fits platform) history
  reflects : Reflects platform graph history
  lastSequence : graph.lastSequence.toNat = history.length

theorem projects_of_applyRecords {ledgerID : LedgerID}
    (hpos : ∀ record ∈ history, 0 < record.event.sequence.toNat)
    (hnodup : (history.map StructuralRecord.recordDigest).Nodup)
    (h : applyRecords platform (newGraph ledgerID) history = (graph, none)) :
    Projects platform ledgerID history graph := by
  have hposition : ∀ i record, history[i]? = some record →
      record.event.ledgerID = ledgerID ∧ record.event.sequence.toNat = i + 1 := by
    intro i record hrecord
    obtain ⟨-, -, hnumbers⟩ := applyRecords_positions hpos h
    obtain ⟨hledger, hsequence⟩ := hnumbers i record hrecord
    have hzero : (newGraph ledgerID).lastSequence.toNat = 0 := rfl
    exact ⟨hledger, by omega⟩
  have hgrown := (applyRecords_accepts_iff hnodup hposition).mp ⟨graph, h⟩
  obtain ⟨projected, happly, hreflects, -, hlast⟩ := exists_projection hgrown hnodup hposition
  obtain rfl : projected = graph := congrArg Prod.fst (happly.symm.trans h)
  exact ⟨hposition, hgrown, hreflects, hlast⟩

/-! ### The graph of a history -/

/-- One edge is added for each endorsement. -/
theorem Step.edgeCount_eq (h : Step platform graph record next) :
    next.edgeCount =
      graph.edgeCount + if record.event.kind = eventKindEndorsementAccepted then 1 else 0 := by
  have hkinds : eventKindEndorsementAccepted ≠ eventKindEndorsementRevoked := by decide
  cases h with
  | accepted hkind _ hfresh => rw [if_pos hkind, edgeCount_insertEdge hfresh]
  | revoked hkind => rw [if_neg (hkind ▸ hkinds.symm), edgeCount_markRevoked, Nat.add_zero]
  | other haccepted => rw [if_neg haccepted, edgeCount_setLastSequence, Nat.add_zero]

theorem applyRecords_edgeCount {final : Graph} {records : List StructuralRecord}
    (hpos : ∀ record ∈ records, 0 < record.event.sequence.toNat)
    (h : applyRecords platform graph records = (final, none)) :
    final.edgeCount = graph.edgeCount +
      records.countP fun record => record.event.kind = eventKindEndorsementAccepted := by
  induction records generalizing graph with
  | nil =>
    cases h
    rfl
  | cons first rest ih =>
    obtain ⟨next, hfirst, hrest⟩ := rangeUntilError_cons_eq_ok.mp h
    obtain ⟨-, -, hstep⟩ := (applyRecord_eq_ok (hpos first (List.mem_cons_self ..))).mp hfirst
    rw [ih (fun record hrecord => hpos record (List.mem_cons_of_mem _ hrecord)) hrest,
      hstep.edgeCount_eq, List.countP_cons]
    simp only [decide_eq_true_eq]
    omega

/-- No endorsement is revoked twice. -/
theorem revocation_unique (hgrown : Grown (Fits platform) history)
    {left right : StructuralRecord} (hleft : left ∈ history) (hright : right ∈ history)
    {first second : EndorsementRevokedPayload} (hfirst : revocationOf platform left = some first)
    (hsecond : revocationOf platform right = some second)
    (htarget : first.targetRecordDigest = second.targetRecordDigest) : left = right := by
  let conflict (earlier last : StructuralRecord) : Prop := ∃ old new,
    revocationOf platform earlier = some old ∧ revocationOf platform last = some new ∧
      old.targetRecordDigest = new.targetRecordDigest
  have hsymm : ∀ earlier last, conflict earlier last → conflict last earlier := by
    rintro earlier last ⟨old, new, hold, hnew, hsame⟩
    exact ⟨new, old, hnew, hold, hsame.symm⟩
  refine hgrown.eq_of_conflict hsymm ?_ hleft hright ⟨first, second, hfirst, hsecond, htarget⟩
  -- the later of two revocations would find the earlier one in its history
  rintro front last hfits earlier hearlier ⟨old, new, hold, hnew, hsame⟩
  obtain ⟨payload, hpayload, _, -, _, -, -, -, hunrevoked⟩ :=
    hfits.revocation (revocationOf_eq_some.mp hnew).1
  rw [hnew, Option.some.injEq] at hpayload
  rw [hpayload] at hsame
  exact hunrevoked earlier hearlier old hold hsame

/-- The revocation that a digest's lookup finds is the only one. -/
theorem findSome?_revokedBy (hgrown : Grown (Fits platform) history)
    {revocation : StructuralRecord} (hmem : revocation ∈ history)
    {payload : EndorsementRevokedPayload}
    (hpayload : revocationOf platform revocation = some payload)
    (htarget : payload.targetRecordDigest = digest) :
    history.findSome? (revokedBy platform digest) = some fun edge =>
      edge.revoke payload.role payload.revokedAtUnixMS revocation.recordDigest payload.reason := by
  rcases hfind : history.findSome? (revokedBy platform digest) with _ | revoke
  · exact absurd htarget (findSome?_revokedBy_eq_none.mp hfind revocation hmem payload hpayload)
  · obtain ⟨found, hfound, hrevoke⟩ := List.exists_of_findSome?_eq_some hfind
    rcases hother : revocationOf platform found with _ | other
    · rw [revokedBy_of_none hother] at hrevoke
      cases hrevoke
    · rw [revokedBy_of_some hother] at hrevoke
      have hsame : other.targetRecordDigest = digest := by
        by_contra hne
        rw [if_neg hne] at hrevoke
        cases hrevoke
      obtain rfl := revocation_unique hgrown hfound hmem hother hpayload (hsame.trans htarget.symm)
      rw [hpayload, Option.some.injEq] at hother
      subst hother
      rw [if_pos htarget] at hrevoke
      exact hrevoke.symm

section Edges

variable {endorsement : EndorsementAcceptedPayload}

/-- An endorsement that no revocation names is in the graph as it was made. -/
theorem Reflects.edge_of_unrevoked (h : Reflects platform graph history)
    (hnodup : (history.map StructuralRecord.recordDigest).Nodup) (hmem : record ∈ history)
    (hendorsement : endorsementOf platform record = some endorsement)
    (hunrevoked : ∀ revocation ∈ history, ∀ revoked,
      revocationOf platform revocation = some revoked →
        revoked.targetRecordDigest ≠ record.recordDigest) :
    graph.edgeByDigest record.recordDigest = some (edgeOf record endorsement) := by
  rw [h.edge, edgeAt, findSome?_revokedBy_eq_none.mpr hunrevoked,
    (findSome?_endorsedBy hnodup).mpr ⟨record, hmem, endorsement, rfl, hendorsement, rfl⟩]
  rfl

/-- An endorsement that a revocation names is as the revocation left it. -/
theorem Reflects.edge_of_revoked (h : Reflects platform graph history)
    (hgrown : Grown (Fits platform) history)
    (hnodup : (history.map StructuralRecord.recordDigest).Nodup) (hmem : record ∈ history)
    (hendorsement : endorsementOf platform record = some endorsement)
    {revocation : StructuralRecord} (hrevocation : revocation ∈ history)
    {revoked : EndorsementRevokedPayload}
    (hrevoked : revocationOf platform revocation = some revoked)
    (htarget : revoked.targetRecordDigest = record.recordDigest) :
    graph.edgeByDigest record.recordDigest = some ((edgeOf record endorsement).revoke revoked.role
      revoked.revokedAtUnixMS revocation.recordDigest revoked.reason) := by
  rw [h.edge, edgeAt, findSome?_revokedBy hgrown hrevocation hrevoked htarget,
    (findSome?_endorsedBy hnodup).mpr ⟨record, hmem, endorsement, rfl, hendorsement, rfl⟩]
  rfl

end Edges

/-- An edge of the graph is that of an endorsement, as it was made or as a revocation
left it. -/
theorem Reflects.edge_cases (h : Reflects platform graph history)
    (hnodup : (history.map StructuralRecord.recordDigest).Nodup)
    (hedge : graph.edgeByDigest digest = some edge) :
    ∃ record ∈ history, ∃ payload, record.recordDigest = digest ∧
      endorsementOf platform record = some payload ∧
      (edge = edgeOf record payload ∨ ∃ revocation ∈ history, ∃ revoked,
        revocationOf platform revocation = some revoked ∧ revoked.targetRecordDigest = digest ∧
        edge = (edgeOf record payload).revoke revoked.role revoked.revokedAtUnixMS
          revocation.recordDigest revoked.reason) := by
  rw [h.edge] at hedge
  obtain ⟨endorsed, hendorsed, hmapped⟩ := Option.map_eq_some_iff.mp hedge
  obtain ⟨record, hmem, payload, hdigest, hpayload, rfl⟩ :=
    (findSome?_endorsedBy hnodup).mp hendorsed
  refine ⟨record, hmem, payload, hdigest, hpayload, ?_⟩
  rcases hfind : history.findSome? (revokedBy platform digest) with _ | revoke
  · rw [hfind] at hmapped
    exact .inl hmapped.symm
  · rw [hfind, Option.getD_some] at hmapped
    obtain ⟨revocation, hrevocation, hrevoke⟩ := List.exists_of_findSome?_eq_some hfind
    rcases hpayload : revocationOf platform revocation with _ | revoked
    · rw [revokedBy_of_none hpayload] at hrevoke
      cases hrevoke
    · rw [revokedBy_of_some hpayload] at hrevoke
      by_cases htarget : revoked.targetRecordDigest = digest
      · rw [if_pos htarget] at hrevoke
        cases hrevoke
        exact .inr ⟨revocation, hrevocation, revoked, hpayload, htarget, hmapped.symm⟩
      · rw [if_neg htarget] at hrevoke
        cases hrevoke

/-- A record of another kind moves the watermark only. -/
theorem applyRecords_other {ledgerID : LedgerID} {front back : List StructuralRecord}
    (hpos : 0 < record.event.sequence.toNat)
    (h : applyRecords platform (newGraph ledgerID) (front ++ record :: back) = (graph, none))
    (haccepted : record.event.kind ≠ eventKindEndorsementAccepted)
    (hrevoked : record.event.kind ≠ eventKindEndorsementRevoked) :
    ∃ before, applyRecords platform (newGraph ledgerID) front = (before, none) ∧
      applyRecords platform (newGraph ledgerID) (front ++ [record]) =
        (before.setLastSequence record.event.sequence, none) := by
  obtain ⟨before, hfront, hrest⟩ := rangeUntilError_append_eq_ok.mp h
  obtain ⟨after, hrecord, -⟩ := rangeUntilError_cons_eq_ok.mp hrest
  refine ⟨before, hfront, rangeUntilError_append_eq_ok.mpr ⟨before, hfront, ?_⟩⟩
  obtain ⟨hledger, hsequence, -⟩ := (applyRecord_eq_ok hpos).mp hrecord
  apply rangeUntilError_cons_of_ok
  exact (applyRecord_eq_ok hpos).mpr ⟨hledger, hsequence, .other haccepted hrevoked⟩

/-- **The projection in closed form.**  A fresh projector accepts a list of
validated records exactly when they belong to its ledger, are numbered from one, and
each fits the ones before it.  Then the watermark is the length of the list, there is
one edge for each endorsement and no other, with the data of that endorsement, an edge
is as it was endorsed until a revocation names it and from then on has the data of that
revocation, and records of other kinds move the watermark only. -/
theorem projection_closed_form (platform : Platform) (ledgerID : LedgerID)
    (records : List StructuralRecord)
    (hvalid : ∀ record ∈ records, validateRecordStructure platform record.bytes = .ok record)
    (hnodup : (records.map StructuralRecord.recordDigest).Nodup) :
    ((∃ graph, applyRecords platform (newGraph ledgerID) records = (graph, none)) ↔
      ∀ i record, records[i]? = some record →
        record.event.ledgerID = ledgerID ∧ record.event.sequence.toNat = i + 1 ∧
        Fits platform (records.take i) record) ∧
    ∀ graph, applyRecords platform (newGraph ledgerID) records = (graph, none) →
      graph.lastSequence.toNat = records.length ∧
      graph.edgeCount =
        records.countP (fun record => record.event.kind = eventKindEndorsementAccepted) ∧
      (∀ digest edge, graph.edgeByDigest digest = some edge → ∃ record ∈ records,
        record.recordDigest = digest ∧ record.event.kind = eventKindEndorsementAccepted) ∧
      (∀ record ∈ records, record.event.kind = eventKindEndorsementAccepted →
        ∃ payload edge,
          decodeAcceptedPayload platform (record.event.payloadBytes.getD []) = .ok payload ∧
          graph.edgeByDigest record.recordDigest = some edge ∧
          edge.recordDigest = record.recordDigest ∧ edge.sequence = record.event.sequence ∧
          edge.proposer = identityOf payload.proposerPublicKey ∧
          edge.subject = identityOf payload.subjectPublicKey ∧ edge.topic = payload.topic ∧
          edge.claimBody = payload.claimBodyBytes.getD [] ∧
          edge.proposedAtUnixMS = payload.proposedAtUnixMS ∧
          edge.acceptedAtUnixMS = payload.acceptedAtUnixMS ∧
          (edge.isActive = false ↔ ∃ revocation ∈ records, ∃ revoked,
            revocationOf platform revocation = some revoked ∧
            revoked.targetRecordDigest = record.recordDigest) ∧
          (edge.isActive = true → edge = edgeOf record payload) ∧
          ∀ revocation ∈ records, ∀ revoked,
            revocationOf platform revocation = some revoked →
            revoked.targetRecordDigest = record.recordDigest →
            edge.revokedAtUnixMS = some revoked.revokedAtUnixMS ∧
            edge.revocationRecordDigest = some revocation.recordDigest ∧
            edge.revocationReason = revoked.reason ∧ edge.revokerRole = revoked.role ∧
            edge = (edgeOf record payload).revoke revoked.role revoked.revokedAtUnixMS
              revocation.recordDigest revoked.reason) ∧
      ∀ front record back, records = front ++ record :: back →
        record.event.kind ≠ eventKindEndorsementAccepted →
        record.event.kind ≠ eventKindEndorsementRevoked →
        ∃ before, applyRecords platform (newGraph ledgerID) front = (before, none) ∧
          applyRecords platform (newGraph ledgerID) (front ++ [record]) =
            (before.setLastSequence record.event.sequence, none) := by
  have hpos : ∀ record ∈ records, 0 < record.event.sequence.toNat := fun record hrecord =>
    ValidatedRecord.sequence_pos ⟨record, hvalid record hrecord⟩
  constructor
  · constructor
    · rintro ⟨graph, happly⟩ i record hrecord
      have hprojects := projects_of_applyRecords hpos hnodup happly
      obtain ⟨hledger, hsequence⟩ := hprojects.position i record hrecord
      exact ⟨hledger, hsequence, grown_iff_take.mp hprojects.fits i record hrecord⟩
    · intro h
      apply (applyRecords_accepts_iff hnodup fun i record hrecord =>
        ⟨(h i record hrecord).1, (h i record hrecord).2.1⟩).mpr
      exact grown_iff_take.mpr fun i record hrecord => (h i record hrecord).2.2
  · intro graph happly
    obtain ⟨-, hgrown, hreflects, hlast⟩ := projects_of_applyRecords hpos hnodup happly
    refine ⟨hlast, ?_, ?_, ?_, ?_⟩
    · rw [applyRecords_edgeCount hpos happly, edgeCount_newGraph, Nat.zero_add]
    · intro digest edge hedge
      obtain ⟨record, hmem, payload, hdigest, hpayload, -⟩ := hreflects.edge_cases hnodup hedge
      exact ⟨record, hmem, hdigest, (endorsementOf_eq_some.mp hpayload).1⟩
    · intro record hmem hkind
      obtain ⟨payload, hpayload⟩ :=
        hgrown.forall_mem (fun _ _ hfits => hfits.endorsement) record hmem hkind
      have hdecode := (endorsementOf_eq_some.mp hpayload).2
      by_cases hrevoked : ∃ revocation ∈ records, ∃ revoked,
          revocationOf platform revocation = some revoked ∧
          revoked.targetRecordDigest = record.recordDigest
      · obtain ⟨revocation, hrevocation, revoked, hdecoded, htarget⟩ := hrevoked
        have hedge := hreflects.edge_of_revoked hgrown hnodup hmem hpayload hrevocation hdecoded
          htarget
        refine ⟨payload, _, hdecode, hedge, rfl, rfl, rfl, rfl, rfl, rfl, rfl, rfl, ?_, ?_, ?_⟩
        · exact ⟨fun _ => ⟨revocation, hrevocation, revoked, hdecoded, htarget⟩, fun _ => rfl⟩
        · intro hactive
          cases hactive
        · intro other hother otherRevoked hotherDecoded hotherTarget
          have hsame := Option.some.inj (hedge.symm.trans (hreflects.edge_of_revoked hgrown hnodup
            hmem hpayload hother hotherDecoded hotherTarget))
          rw [hsame]
          exact ⟨rfl, rfl, rfl, rfl, rfl⟩
      · have hunrevoked : ∀ revocation ∈ records, ∀ revoked,
            revocationOf platform revocation = some revoked →
            revoked.targetRecordDigest ≠ record.recordDigest := by
          intro revocation hrevocation revoked hdecoded htarget
          exact hrevoked ⟨revocation, hrevocation, revoked, hdecoded, htarget⟩
        refine ⟨payload, _, hdecode,
          hreflects.edge_of_unrevoked hnodup hmem hpayload hunrevoked, rfl, rfl, rfl, rfl, rfl,
          rfl, rfl, rfl, ?_, fun _ => rfl, ?_⟩
        · constructor
          · intro hinactive
            cases hinactive
          · intro hsome
            exact absurd hsome hrevoked
        · intro revocation hrevocation revoked hdecoded htarget
          exact absurd htarget (hunrevoked revocation hrevocation revoked hdecoded)
    · rintro front record back rfl haccepted hrevoked
      exact applyRecords_other (hpos record (by simp)) happly haccepted hrevoked

section Golden

variable (golden : GoldenLedger)

theorem endorsementOf_golden :
    endorsementOf goldenPlatform golden.endorsement.record = some goldenEndorsement :=
  endorsementOf_eq_some.mpr ⟨by simp, by simpa using decode_goldenEndorsement⟩

theorem revocationOf_golden :
    revocationOf goldenPlatform golden.revocation.record = some goldenRevocation :=
  revocationOf_eq_some.mpr ⟨by simp, by simpa using decode_goldenRevocation⟩

/-- The proposer revokes the endorsement, which nobody has revoked before. -/
theorem revocable_golden :
    Revocable goldenPlatform [golden.genesis.record, golden.endorsement.record]
      goldenRevocation := by
  refine ⟨golden.endorsement.record, by simp, goldenEndorsement, golden.endorsement_digest,
    endorsementOf_golden golden, .inl ⟨rfl, rfl⟩, ?_⟩
  intro earlier hearlier other hother
  have hkind := (revocationOf_eq_some.mp hother).1
  simp only [List.mem_cons, List.not_mem_nil, or_false] at hearlier
  rcases hearlier with rfl | rfl
  · exact absurd hkind golden.genesis_kind_ne.2
  · exact absurd hkind golden.endorsement_kind_ne.2

theorem fits_golden (i : Nat) (record : StructuralRecord)
    (hrecord : (golden.chain.map ValidatedRecord.record)[i]? = some record) :
    record.event.ledgerID = goldenGenesisFields.ledgerID ∧ record.event.sequence.toNat = i + 1 ∧
      Fits goldenPlatform ((golden.chain.map ValidatedRecord.record).take i) record := by
  match i with
  | 0 =>
    cases hrecord
    exact ⟨by simp, by simp,
      .of_other goldenPlatform golden.genesis_kind_ne.1 golden.genesis_kind_ne.2⟩
  | 1 =>
    cases hrecord
    exact ⟨by simp, by simp, .of_endorsement (endorsementOf_golden golden)⟩
  | 2 =>
    cases hrecord
    exact ⟨by simp, by simp, .of_revocation (revocationOf_golden golden) (revocable_golden golden)⟩
  | i + 3 => cases hrecord

end Golden

/-- The golden ledger has one edge, which its proposer revoked. -/
theorem goldenLedger_projected :
    ∃ (golden : GoldenLedger) (graph : Graph) (edge : AttestationEdge),
      applyRecords goldenPlatform (newGraph goldenGenesisFields.ledgerID)
        (golden.chain.map ValidatedRecord.record) = (graph, none) ∧
      graph.lastSequence.toNat = 3 ∧ graph.edgeCount = 1 ∧
      graph.edgeByDigest goldenEndorsementDigest = some edge ∧ edge.sequence = 2 ∧
      edge.proposer = identityOf goldenEndorsement.proposerPublicKey ∧
      edge.topic = goldenEndorsement.topic ∧ edge.isActive = false ∧
      edge.revokedAtUnixMS = some goldenRevocation.revokedAtUnixMS ∧
      edge.revocationRecordDigest = some goldenRevocationDigest ∧
      edge.revokerRole = revokerRoleProposer := by
  obtain ⟨golden⟩ := goldenLedger_evaluates
  have hvalid : ∀ record ∈ golden.chain.map ValidatedRecord.record,
      validateRecordStructure goldenPlatform record.bytes = .ok record := by
    intro record hrecord
    obtain ⟨validated, -, rfl⟩ := List.mem_map.mp hrecord
    exact validated.valid
  obtain ⟨haccepts, hgraph⟩ := projection_closed_form goldenPlatform
    goldenGenesisFields.ledgerID (golden.chain.map ValidatedRecord.record) hvalid
    golden.nodup_digests
  obtain ⟨graph, happly⟩ := haccepts.mpr (fits_golden golden)
  obtain ⟨hlast, hcount, -, hedges, -⟩ := hgraph graph happly
  obtain ⟨payload, edge, hpayload, hedge, -, hsequence, hproposer, -, htopic, -, -, -, hinactive, -,
    hrevoked⟩ := hedges golden.endorsement.record (by simp [GoldenLedger.chain]) (by simp)
  obtain rfl := Option.some.inj ((endorsementOf_eq_some.mpr
    ⟨by simp, hpayload⟩).symm.trans (endorsementOf_golden golden))
  have hmem : golden.revocation.record ∈ golden.chain.map ValidatedRecord.record := by
    simp [GoldenLedger.chain]
  have htarget : goldenRevocation.targetRecordDigest = golden.endorsement.record.recordDigest :=
    golden.endorsement_digest.symm
  obtain ⟨hat, hdigest, -, hrole, -⟩ := hrevoked _ hmem _ (revocationOf_golden golden) htarget
  rw [golden.endorsement_digest] at hedge
  rw [golden.revocation_digest] at hdigest
  refine ⟨golden, graph, edge, happly, hlast, ?_, hedge, ?_, hproposer, htopic, ?_, hat, hdigest,
    hrole⟩
  · rw [hcount]
    simp [GoldenLedger.chain, eventKindLedgerInitialized,
      eventKindEndorsementAccepted, eventKindEndorsementRevoked]
  · simpa using hsequence
  · exact hinactive.mpr ⟨_, hmem, _, revocationOf_golden golden, htarget⟩

variable (platform) in
/-- A fresh projector gets through a ledger. -/
def Replays (table : Table) (ledgerID : LedgerID) (batchSize : Int) : Prop :=
  ∃ progress, ∀ fuel, (table.ledgerRows ledgerID).length < fuel →
    replayFromStore platform (fun _ => table) batchSize fuel (newGraph ledgerID) =
      some (progress, none)

theorem Numbered.replays_iff {table : Table} {ledgerID : LedgerID}
    {chain : List (ValidatedRecord platform)} (h : Numbered table ledgerID chain)
    (batchSize : Int) :
    Replays platform table ledgerID batchSize ↔
      Grown (Fits platform) (chain.map ValidatedRecord.record) := by
  rw [← applyRecords_accepts_iff h.holds.nodup_digests h.ledger_position]
  have hlength : (table.ledgerRows ledgerID).length = chain.length := by
    rw [h.holds, List.length_map]
  constructor
  · rintro ⟨⟨graph, applied⟩, hreplay⟩
    have hrun := hreplay (chain.length + 1) (by omega)
    rw [h.replayFromStore_eq batchSize (Nat.lt_succ_self _), Option.some.injEq] at hrun
    exact ⟨graph, (applyCounted_eq_ok.mp hrun).1⟩
  · rintro ⟨graph, happly⟩
    refine ⟨(graph, 0 + (chain.map ValidatedRecord.record).length), ?_⟩
    intro fuel hfuel
    rw [h.replayFromStore_eq batchSize (by omega), applyCounted_eq_ok.mpr ⟨happly, rfl⟩]

end AttributionChain.Projector

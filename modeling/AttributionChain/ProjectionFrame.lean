import AttributionChain.Projector

/-!
# What a record may change in the projection

A projector that is fed a stream of records and ignores the errors ends with the
same graph as one that is only given the records that were accepted, because a
rejected record changes nothing (`feed_acceptedOf`).

An event names its schema by the pair of kind and payload version.  `ApplyRecord`
looks at the kind alone, and leaves it to the payload decoder to find the version
inside the payload.  `ReadAsVersion1` says which records it takes for a version 1
endorsement or revocation.  Those are the records that change edges, and no others
(`sameEdges_iff_notRead`), because each of them adds one to the edges and revoked edges
of the graph (`edgeEvents`).  `laterVersion_addsEdge` is one of version 2.
-/

namespace AttributionChain.Projector

open Cbor Ledger Endorsement AttributionChain.Graph

variable (platform : Platform)

/-! ### Rejected records -/

/-- The graph after a stream of records, whatever `ApplyRecord` returned. -/
def feed (graph : Graph) (records : List StructuralRecord) : Graph :=
  records.foldl (fun graph record => (applyRecord platform graph record).1) graph

/-- The records of the stream that `ApplyRecord` accepted. -/
def acceptedOf (graph : Graph) : List StructuralRecord → List StructuralRecord
  | [] => []
  | record :: records =>
    match applyRecord platform graph record with
    | (next, none) => record :: acceptedOf next records
    | (next, some _) => acceptedOf next records

variable {platform} {graph next other : Graph} {record : StructuralRecord}

theorem feed_cons (records : List StructuralRecord) :
    feed platform graph (record :: records) =
      feed platform (applyRecord platform graph record).1 records := rfl

/-- The accepted records are accepted again, and lead to the same graph. -/
theorem applyRecords_acceptedOf (graph : Graph) (records : List StructuralRecord) :
    applyRecords platform graph (acceptedOf platform graph records) =
      (feed platform graph records, none) := by
  induction records generalizing graph with
  | nil => rfl
  | cons record records ih =>
    rw [acceptedOf, feed_cons]
    rcases happly : applyRecord platform graph record with ⟨next, _ | err⟩
    · exact rangeUntilError_cons_eq_ok.mpr ⟨next, happly, ih next⟩
    · obtain rfl := applyRecord_eq_error happly
      exact ih next

theorem feed_of_applyRecords {records : List StructuralRecord}
    (h : applyRecords platform graph records = (next, none)) :
    feed platform graph records = next := by
  induction records generalizing graph with
  | nil =>
    cases h
    rfl
  | cons record records ih =>
    obtain ⟨middle, happly, hrest⟩ := rangeUntilError_cons_eq_ok.mp h
    rw [feed_cons, happly]
    exact ih hrest

/-- **Rejected records leave no trace**, one by one and in a stream. -/
theorem feed_acceptedOf (platform : Platform) (graph : Graph) :
    (∀ record next err, applyRecord platform graph record = (next, some err) → next = graph) ∧
    ∀ records, feed platform graph (acceptedOf platform graph records) =
        feed platform graph records ∧
      applyRecords platform graph (acceptedOf platform graph records) =
        (feed platform graph records, none) := by
  refine ⟨fun record next err => applyRecord_eq_error, ?_⟩
  intro records
  have haccepted : applyRecords platform graph (acceptedOf platform graph records) =
      (feed platform graph records, none) := applyRecords_acceptedOf graph records
  exact ⟨feed_of_applyRecords haccepted, haccepted⟩

/-! ### Graphs that differ in the watermark only -/

/-- The same nodes, edges and indexes. -/
def SameEdges (graph other : Graph) : Prop := other = graph.setLastSequence other.lastSequence

theorem SameEdges.refl (graph : Graph) : SameEdges graph graph := rfl

theorem sameEdges_setLastSequence (graph : Graph) (sequence : UInt64) :
    SameEdges graph (graph.setLastSequence sequence) := rfl

theorem SameEdges.symm (h : SameEdges graph other) : SameEdges other graph := by
  rw [h]
  rfl

theorem SameEdges.trans (h : SameEdges graph other) (hnext : SameEdges other next) :
    SameEdges graph next := by
  rw [SameEdges, hnext, h]
  rfl

theorem SameEdges.insertEdge (h : SameEdges graph other) (edge : AttestationEdge) :
    SameEdges (graph.insertEdge edge) (other.insertEdge edge) := by
  rw [h]
  rfl

theorem SameEdges.markRevoked (h : SameEdges graph other) (ref : EdgeRef)
    (revoked : AttestationEdge) (sequence : UInt64) :
    SameEdges (graph.markRevoked ref revoked sequence)
      (other.markRevoked ref revoked sequence) := by
  rw [h]
  rfl

/-- What a record does to the edges does not depend on the watermark. -/
theorem Step.transfer (hstep : Step platform graph record next) (h : SameEdges graph other) :
    ∃ after, Step platform other record after ∧ SameEdges next after := by
  cases hstep with
  | @accepted payload hkind hdecode hfresh =>
    refine ⟨_, .accepted hkind hdecode ?_, h.insertEdge _⟩
    rw [h]
    exact hfresh
  | @revoked payload ref hkind hdecode hlookup hactive hauthorized =>
    have hsame : other.edgesByDigest = graph.edgesByDigest ∧ other.deref ref = graph.deref ref := by
      rw [h]
      exact ⟨rfl, rfl⟩
    rw [← hsame.1] at hlookup
    rw [← hsame.2] at hactive hauthorized
    refine ⟨_, .revoked hkind hdecode hlookup hactive hauthorized, ?_⟩
    rw [← hsame.2]
    exact h.markRevoked ref _ _
  | other haccepted hrevoked =>
    refine ⟨_, .other haccepted hrevoked, ?_⟩
    rw [h]
    rfl

/-! ### Payload versions -/

/-- The two kinds that make edges and revoke them. -/
def Endorses (record : StructuralRecord) : Prop :=
  record.event.kind = eventKindEndorsementAccepted ∨
    record.event.kind = eventKindEndorsementRevoked

instance (record : StructuralRecord) : Decidable (Endorses record) :=
  inferInstanceAs (Decidable (_ ∨ _))

/-- The two kinds with the version that is meant for them. -/
def Supported (record : StructuralRecord) : Prop :=
  Endorses record ∧ record.event.payloadVersion = payloadVersionV1

instance (record : StructuralRecord) : Decidable (Supported record) :=
  inferInstanceAs (Decidable (_ ∧ _))

variable (platform) in
/-- `ApplyRecord` takes the record for a version 1 endorsement or revocation: it is the
next record of the ledger, its payload reads as a version 1 payload of its kind, and the
graph can take the edge or the revocation. -/
def ReadAsVersion1 (graph : Graph) (record : StructuralRecord) : Prop :=
  record.event.ledgerID = graph.ledgerID ∧ record.event.sequence = graph.lastSequence + 1 ∧
  ((record.event.kind = eventKindEndorsementAccepted ∧
      (∃ payload, decodeAcceptedPayload platform (record.event.payloadBytes.getD []) =
        .ok payload) ∧
      graph.edgeByDigest record.recordDigest = none) ∨
    (record.event.kind = eventKindEndorsementRevoked ∧
      ∃ payload edge, decodeRevokedPayload platform (record.event.payloadBytes.getD []) =
        .ok payload ∧
      graph.edgeByDigest payload.targetRecordDigest = some edge ∧ edge.isActive = true ∧
      Authorized edge (identityOf payload.revokerPublicKey) payload.role))

theorem readAsVersion1_iff :
    ReadAsVersion1 platform graph record ↔
      Endorses record ∧ ∃ next, applyRecord platform graph record = (next, none) := by
  constructor
  · rintro ⟨hledger, hsequence, ⟨hkind, ⟨payload, hdecode⟩, hfresh⟩ |
      ⟨hkind, payload, edge, hdecode, hedge, hactive, hauthorized⟩⟩
    · exact ⟨.inl hkind, _, applyRecord_accepts_iff.mpr
        ⟨hledger, hsequence, .accepted hkind hdecode hfresh⟩⟩
    · obtain ⟨ref, hlookup, rfl⟩ := Option.map_eq_some_iff.mp hedge
      exact ⟨.inr hkind, _, applyRecord_accepts_iff.mpr
        ⟨hledger, hsequence, .revoked hkind hdecode hlookup hactive hauthorized⟩⟩
  · rintro ⟨hendorses, next, happly⟩
    obtain ⟨hledger, hsequence, hstep⟩ := applyRecord_accepts_iff.mp happly
    refine ⟨hledger, hsequence, ?_⟩
    cases hstep with
    | accepted hkind hdecode hfresh => exact .inl ⟨hkind, ⟨_, hdecode⟩, hfresh⟩
    | revoked hkind hdecode hlookup hactive hauthorized =>
      exact .inr ⟨hkind, _, _, hdecode, Option.map_eq_some_iff.mpr ⟨_, hlookup, rfl⟩, hactive,
        hauthorized⟩
    | other haccepted hrevoked => exact absurd hendorses (not_or.mpr ⟨haccepted, hrevoked⟩)

/-! ### Counting endorsements and revocations -/

/-- The edges and the revoked edges, counted together. -/
def edgeEvents (graph : Graph) : Nat :=
  graph.heap.length + graph.heap.countP fun edge => edge.isActive = false

theorem SameEdges.edgeEvents_eq (h : SameEdges graph other) :
    edgeEvents other = edgeEvents graph := by
  rw [h]
  rfl

/-- **What an accepted record does to the edges**: one more edge, one more revoked edge,
or nothing. -/
theorem Step.edgeEvents_eq (hstep : Step platform graph record next) (hgraph : graph.Indexed) :
    edgeEvents next = edgeEvents graph + if Endorses record then 1 else 0 := by
  cases hstep with
  | @accepted payload hkind hdecode hfresh =>
    rw [if_pos (show Endorses record from .inl hkind), edgeEvents, edgeEvents, Graph.insertEdge,
      List.length_append, List.countP_append]
    have hactive : (edgeOf record payload).isActive = true := rfl
    simp [hactive]
    omega
  | @revoked payload ref hkind hdecode hlookup hactive hauthorized =>
    obtain ⟨hlt, hcell⟩ := List.getElem?_eq_some_iff.mp (hgraph.getElem?_of_lookup hlookup)
    rw [if_pos (show Endorses record from .inr hkind), edgeEvents, edgeEvents, Graph.markRevoked,
      List.length_set, List.countP_set hlt, hcell, hactive]
    simp [AttestationEdge.revoke]
    omega
  | other haccepted hrevoked =>
    rw [if_neg (show ¬ Endorses record from not_or.mpr ⟨haccepted, hrevoked⟩)]
    rfl

theorem Step.sameEdges_iff (hstep : Step platform graph record next) (hgraph : graph.Indexed) :
    SameEdges graph next ↔ ¬ Endorses record := by
  constructor
  · intro hsame hendorses
    have hcount := hstep.edgeEvents_eq hgraph
    rw [hsame.edgeEvents_eq, if_pos hendorses] at hcount
    omega
  · intro hother
    cases hstep with
    | accepted hkind => exact absurd (.inl hkind) hother
    | revoked hkind => exact absurd (.inr hkind) hother
    | other => exact sameEdges_setLastSequence graph _

theorem edgeEvents_applyRecords {records : List StructuralRecord} (hgraph : graph.Built)
    (h : applyRecords platform graph records = (next, none)) :
    edgeEvents next = edgeEvents graph + records.countP Endorses := by
  induction records generalizing graph with
  | nil =>
    cases h
    rfl
  | cons record records ih =>
    obtain ⟨middle, happly, hrest⟩ := rangeUntilError_cons_eq_ok.mp h
    have hbuilt : (applyRecord platform graph record).1.Built := built_applyRecord hgraph
    rw [happly] at hbuilt
    have hstep := (applyRecord_accepts_iff.mp happly).2.2
    rw [ih hbuilt hrest, hstep.edgeEvents_eq hgraph.indexed, List.countP_cons]
    simp only [decide_eq_true_eq]
    omega

variable (platform) in
/-- What the records make of a graph when nothing is checked between them. -/
def project (graph : Graph) (records : List StructuralRecord) : Graph :=
  records.foldl (fun graph record => (projectEvent platform graph record).1) graph

variable (platform) in
theorem edgeEvents_project_le (hgraph : graph.Built) (records : List StructuralRecord) :
    edgeEvents (project platform graph records) ≤ edgeEvents graph + records.length := by
  induction records generalizing graph with
  | nil => exact Nat.le_refl _
  | cons record records ih =>
    have hbuilt : (projectEvent platform graph record).1.Built := built_projectEvent hgraph
    have hrest := ih hbuilt
    have hone : edgeEvents (projectEvent platform graph record).1 ≤ edgeEvents graph + 1 := by
      rcases hevent : projectEvent platform graph record with ⟨next, _ | err⟩
      · rw [(projectEvent_eq_ok.mp hevent).edgeEvents_eq hgraph.indexed]
        split_ifs <;> omega
      · rw [projectEvent_eq_error hevent]
        exact Nat.le_succ _
    rw [project, List.foldl_cons, List.length_cons]
    rw [project] at hrest
    omega

/-! ### Streams with records of other versions -/

/-- An accepted stream makes the edges that its supported records make, where only
supported records endorse. -/
theorem sameEdges_project {records : List StructuralRecord} (h : SameEdges graph other)
    (hgraph : graph.Built) (hrecords : ∀ record ∈ records, Endorses record → Supported record)
    (haccepted : applyRecords platform graph records = (next, none)) :
    SameEdges next (project platform other (records.filter Supported)) := by
  induction records generalizing graph other with
  | nil =>
    cases haccepted
    exact h
  | cons record records ih =>
    obtain ⟨hrecord, hrest⟩ := List.forall_mem_cons.mp hrecords
    obtain ⟨middle, happly, htail⟩ := rangeUntilError_cons_eq_ok.mp haccepted
    have hstep := (applyRecord_accepts_iff.mp happly).2.2
    have hbuilt : (applyRecord platform graph record).1.Built := built_applyRecord hgraph
    rw [happly] at hbuilt
    by_cases hsupported : Supported record
    · obtain ⟨after, hafter, hsame⟩ := hstep.transfer h
      rw [List.filter_cons_of_pos (by simpa using hsupported), project, List.foldl_cons,
        projectEvent_eq_ok.mpr hafter]
      exact ih hsame hbuilt hrest htail
    · rw [List.filter_cons_of_neg (by simpa using hsupported)]
      have hunchanged := (hstep.sameEdges_iff hgraph.indexed).mpr (mt hrecord hsupported)
      exact ih (hunchanged.symm.trans h) hbuilt hrest htail

/-- Elsewhere it makes more changes than those. -/
theorem supported_of_sameEdges {records : List StructuralRecord} (hgraph : graph.Built)
    (haccepted : applyRecords platform graph records = (next, none))
    (h : SameEdges next (project platform graph (records.filter Supported))) :
    ∀ record ∈ records, Endorses record → Supported record := by
  have hcount := edgeEvents_applyRecords hgraph haccepted
  have hle := edgeEvents_project_le platform hgraph (records.filter Supported)
  rw [h.edgeEvents_eq, hcount, List.countP_eq_length_filter] at hle
  have hsame : (records.filter Endorses).filter Supported = records.filter Supported := by
    rw [List.filter_filter]
    apply List.filter_congr
    intro record _
    by_cases hsupported : Supported record
    · simp [hsupported, hsupported.1]
    · simp [hsupported]
  intro record hrecord hendorses
  by_contra hunsupported
  have hlt : ((records.filter Endorses).filter Supported).length <
      (records.filter Endorses).length :=
    List.length_filter_lt_length_iff_exists.mpr
      ⟨record, List.mem_filter.mpr ⟨hrecord, by simpa using hendorses⟩, by simpa using hunsupported⟩
  rw [hsame] at hlt
  omega

theorem mem_acceptedOf_cons {first : StructuralRecord} {records : List StructuralRecord} :
    record ∈ acceptedOf platform graph (first :: records) ↔
      (first = record ∧ ∃ next, applyRecord platform graph first = (next, none)) ∨
        record ∈ acceptedOf platform (applyRecord platform graph first).1 records := by
  rw [acceptedOf]
  rcases happly : applyRecord platform graph first with ⟨next, _ | err⟩
  · simp [eq_comm]
  · simp

/-- The accepted records, by their places in the stream. -/
theorem mem_acceptedOf_iff {records : List StructuralRecord} :
    record ∈ acceptedOf platform graph records ↔
      ∃ front back, records = front ++ record :: back ∧
        ∃ next, applyRecord platform (feed platform graph front) record = (next, none) := by
  induction records generalizing graph with
  | nil => simp [acceptedOf]
  | cons first records ih =>
    rw [mem_acceptedOf_cons, ih]
    constructor
    · rintro (⟨rfl, haccepted⟩ | ⟨front, back, rfl, haccepted⟩)
      · exact ⟨[], records, rfl, haccepted⟩
      · exact ⟨first :: front, back, rfl, haccepted⟩
    · rintro ⟨front, back, hrecords, haccepted⟩
      rcases List.cons_eq_append_iff.mp hrecords with ⟨rfl, hback⟩ | ⟨rest, rfl, rfl⟩
      · obtain ⟨rfl, -⟩ := List.cons.inj hback
        exact .inl ⟨rfl, haccepted⟩
      · exact .inr ⟨rest, back, rfl, haccepted⟩

variable (platform) in
/-- No record of another version is read as version 1 where it stands in the stream. -/
def NeverMisread (ledgerID : LedgerID) (stream : List StructuralRecord) : Prop :=
  ∀ front record back, stream = front ++ record :: back →
    Supported record ∨ ¬ ReadAsVersion1 platform (feed platform (newGraph ledgerID) front) record

theorem neverMisread_iff {ledgerID : LedgerID} {stream : List StructuralRecord} :
    NeverMisread platform ledgerID stream ↔
      ∀ record ∈ acceptedOf platform (newGraph ledgerID) stream,
        Endorses record → Supported record := by
  constructor
  · intro h record hrecord hendorses
    obtain ⟨front, back, hstream, haccepted⟩ := mem_acceptedOf_iff.mp hrecord
    apply (h front record back hstream).resolve_right
    exact not_not.mpr (readAsVersion1_iff.mpr ⟨hendorses, haccepted⟩)
  · intro h front record back hstream
    by_cases hread : ReadAsVersion1 platform (feed platform (newGraph ledgerID) front) record
    · obtain ⟨hendorses, haccepted⟩ := readAsVersion1_iff.mp hread
      exact .inl (h record (mem_acceptedOf_iff.mpr ⟨front, back, hstream, haccepted⟩) hendorses)
    · exact .inr hread

theorem built_feed (ledgerID : LedgerID) (stream : List StructuralRecord) :
    (feed platform (newGraph ledgerID) stream).Built := by
  have hbuilt : (applyRecords platform (newGraph ledgerID)
      (acceptedOf platform (newGraph ledgerID) stream)).1.Built :=
    built_applyRecords (built_newGraph ledgerID) _
  rwa [applyRecords_acceptedOf] at hbuilt

theorem sameEdges_applyRecord_iff (hgraph : graph.Indexed) :
    SameEdges graph (applyRecord platform graph record).1 ↔
      ¬ ReadAsVersion1 platform graph record := by
  rw [readAsVersion1_iff]
  rcases happly : applyRecord platform graph record with ⟨next, _ | err⟩
  · rw [(applyRecord_accepts_iff.mp happly).2.2.sameEdges_iff hgraph]
    simp
  · rw [applyRecord_eq_error happly]
    simp [SameEdges.refl]

theorem sameEdges_feed_iff {ledgerID : LedgerID} {stream : List StructuralRecord} :
    SameEdges (feed platform (newGraph ledgerID) stream)
        (project platform (newGraph ledgerID)
          ((acceptedOf platform (newGraph ledgerID) stream).filter Supported)) ↔
      NeverMisread platform ledgerID stream := by
  have haccepted : applyRecords platform (newGraph ledgerID)
      (acceptedOf platform (newGraph ledgerID) stream) = _ :=
    applyRecords_acceptedOf (newGraph ledgerID) stream
  rw [neverMisread_iff]
  constructor
  · exact supported_of_sameEdges (built_newGraph ledgerID) haccepted
  · intro hrecords
    exact sameEdges_project (.refl _) (built_newGraph ledgerID) hrecords haccepted

/-- **Other versions make no edges**, exactly where they are not read as version 1.  In a
graph that any stream has led to, `ApplyRecord` leaves the edges as they are unless it
takes the record for a version 1 endorsement or revocation.  The edges after a stream are
those of its accepted version 1 records exactly if no record of another version was taken
for one; so two such streams with the same version 1 records end with the same edges. -/
theorem sameEdges_iff_notRead (platform : Platform) (ledgerID : LedgerID) :
    (∀ stream record,
      SameEdges (feed platform (newGraph ledgerID) stream)
          (applyRecord platform (feed platform (newGraph ledgerID) stream) record).1 ↔
        ¬ ReadAsVersion1 platform (feed platform (newGraph ledgerID) stream) record) ∧
    (∀ stream, SameEdges (feed platform (newGraph ledgerID) stream)
        (project platform (newGraph ledgerID)
          ((acceptedOf platform (newGraph ledgerID) stream).filter Supported)) ↔
      NeverMisread platform ledgerID stream) ∧
    ∀ first second, NeverMisread platform ledgerID first →
      NeverMisread platform ledgerID second →
      (acceptedOf platform (newGraph ledgerID) first).filter Supported =
        (acceptedOf platform (newGraph ledgerID) second).filter Supported →
      SameEdges (feed platform (newGraph ledgerID) first)
        (feed platform (newGraph ledgerID) second) := by
  refine ⟨fun stream record => sameEdges_applyRecord_iff (built_feed ledgerID stream).indexed,
    fun stream => sameEdges_feed_iff, ?_⟩
  intro first second hfirst hsecond hsame
  have hedges := sameEdges_feed_iff.mpr hfirst
  rw [hsame] at hedges
  exact hedges.trans (sameEdges_feed_iff.mpr hsecond).symm

/-- An endorsement at sequence 2 of the golden ledger that claims version 2. -/
def laterVersionEvent (predecessor : Digest) (payload : Bytes) : EventFields :=
  { goldenGenesisFields.toEventFields with
    sequence := 2
    previousRecordDigest := some predecessor
    kind := eventKindEndorsementAccepted
    payloadVersion := 2
    payloadBytes := some payload }

variable (platform) in
theorem exists_laterVersion (hcbor : platform.cbor.Conforms) (predecessor : Digest)
    (payload : Bytes) (hlength : 1 ≤ payload.length ∧ payload.length ≤ 65536) :
    ∃ validated : ValidatedRecord platform,
      validated.record.event.fields = laterVersionEvent predecessor payload := by
  have hsequence : (2 : UInt64) ≠ 0 := by decide
  have hkind : eventKindEndorsementAccepted ≠ 0 := by decide
  obtain ⟨validated, hfields⟩ := exists_validatedRecord hcbor
    (inDomain_of_event goldenGenesisFields_inDomain (laterVersionEvent predecessor payload)
      hsequence hkind hsequence hlength)
  exact ⟨validated, congrArg RecordFields.toEventFields hfields⟩

/-- The fields of such a record that the projector reads. -/
theorem event_of_laterVersion {predecessor : Digest} {payload : Bytes}
    (h : record.event.fields = laterVersionEvent predecessor payload) :
    record.event.kind = eventKindEndorsementAccepted ∧ record.event.payloadVersion = 2 ∧
      record.event.payloadBytes = some payload ∧ record.event.sequence = 2 ∧
      record.event.ledgerID = goldenGenesisFields.ledgerID :=
  ⟨congrArg EventFields.kind h, congrArg EventFields.payloadVersion h,
    congrArg EventFields.payloadBytes h, congrArg EventFields.sequence h,
    congrArg EventFields.ledgerID h⟩

/-- After the genesis record comes an endorsement of version 2 that is no CBOR map, and is
rejected by the decoder.  The golden endorsement after it makes the one edge. -/
theorem laterVersion_sameEdges :
    ∃ (golden : GoldenLedger) (later : ValidatedRecord goldenPlatform) (failure : Failure),
      later.record.event.fields = laterVersionEvent goldenGenesisDigest [0x00] ∧
      (applyRecord goldenPlatform
        (feed goldenPlatform (newGraph goldenGenesisFields.ledgerID) [golden.genesis.record])
        later.record).2 = some (.decodeAcceptedPayload later.record.recordDigest failure) ∧
      SameEdges
        (feed goldenPlatform (newGraph goldenGenesisFields.ledgerID) [golden.genesis.record])
        (applyRecord goldenPlatform
          (feed goldenPlatform (newGraph goldenGenesisFields.ledgerID) [golden.genesis.record])
          later.record).1 ∧
      SameEdges
        (feed goldenPlatform (newGraph goldenGenesisFields.ledgerID)
          [golden.genesis.record, later.record, golden.endorsement.record])
        (feed goldenPlatform (newGraph goldenGenesisFields.ledgerID)
          [golden.genesis.record, golden.endorsement.record]) ∧
      (feed goldenPlatform (newGraph goldenGenesisFields.ledgerID)
        [golden.genesis.record, later.record, golden.endorsement.record]).edgeCount = 1 := by
  obtain ⟨golden⟩ := goldenLedger_evaluates
  obtain ⟨later, hfields⟩ := exists_laterVersion goldenPlatform goldenPlatform_conforms
    goldenGenesisDigest [0x00] (by decide)
  obtain ⟨hkind, hversion, hbytes, hsequence, hledger⟩ := event_of_laterVersion hfields
  obtain ⟨-, hstarted, hendorsed, -⟩ := golden_projects golden
  obtain ⟨failure, hfailure⟩ : ∃ failure,
      decodeAcceptedPayload goldenPlatform [0x00] = .error failure := by
    rcases hdecode : decodeAcceptedPayload goldenPlatform [0x00] with failure | payload
    · exact ⟨failure, rfl⟩
    · have hfails : (decodeAcceptedPayload goldenPlatform [0x00]).isOk = false := by decide +kernel
      rw [hdecode] at hfails
      cases hfails
  -- the record passes the checks of the ledger ID and the sequence number
  have hrejected : applyRecord goldenPlatform (goldenGenesisGraph golden) later.record =
      (goldenGenesisGraph golden,
        some (.decodeAcceptedPayload later.record.recordDigest failure)) := by
    apply applyRecord_of_undecoded hledger _ hkind
    · rw [hbytes]
      exact hfailure
    · rw [hsequence]
      simp [goldenGenesisGraph, setLastSequence]
  have hfeed : feed goldenPlatform (newGraph goldenGenesisFields.ledgerID)
      [golden.genesis.record] = goldenGenesisGraph golden := by
    rw [feed_cons, hstarted]
    rfl
  have hlater : acceptedOf goldenPlatform (newGraph goldenGenesisFields.ledgerID)
      [golden.genesis.record, later.record, golden.endorsement.record] =
      [golden.genesis.record, golden.endorsement.record] := by
    simp only [acceptedOf, hstarted, hrejected, hendorsed]
  have hplain : acceptedOf goldenPlatform (newGraph goldenGenesisFields.ledgerID)
      [golden.genesis.record, golden.endorsement.record] =
      [golden.genesis.record, golden.endorsement.record] := by
    simp only [acceptedOf, hstarted, hendorsed]
  have hsupported : ∀ record ∈ [golden.genesis.record, golden.endorsement.record],
      Endorses record → Supported record := by
    have hversion : golden.endorsement.record.event.payloadVersion = payloadVersionV1 :=
      congrArg EventFields.payloadVersion golden.endorsement_event
    simp [Endorses, Supported, hversion, eventKindLedgerInitialized, eventKindEndorsementAccepted,
      eventKindEndorsementRevoked]
  obtain ⟨hrecord, -, hstreams⟩ := sameEdges_iff_notRead goldenPlatform goldenGenesisFields.ledgerID
  refine ⟨golden, later, failure, hfields, ?_, (hrecord _ _).mpr ?_, hstreams _ _ ?_ ?_ ?_, ?_⟩
  · rw [hfeed, hrejected]
  · rw [hfeed, readAsVersion1_iff, hrejected]
    simp
  · rw [neverMisread_iff, hlater]
    exact hsupported
  · rw [neverMisread_iff, hplain]
    exact hsupported
  · rw [hlater, hplain]
  · simp only [feed_cons, hstarted, hrejected, hendorsed]
    exact edgeCount_insertEdge rfl

/-- **A version 2 endorsement is read as version 1.**  After the golden genesis record
comes a validated record of kind `EndorsementAccepted` and payload version 2, whose
bytes happen to be those of a version 1 payload.  The projector adds an edge. -/
theorem laterVersion_addsEdge :
    ∃ genesis later : ValidatedRecord (Platform.reference fun _ _ _ => false),
      genesis.record.fields = goldenGenesisFields ∧
      later.record.event.fields =
        laterVersionEvent genesis.record.recordDigest (sampleBytes [0x01]) ∧
      ¬ Supported later.record ∧
      ∃ graph next,
        applyRecords (Platform.reference fun _ _ _ => false)
          (newGraph goldenGenesisFields.ledgerID) [genesis.record] = (graph, none) ∧
        graph.edgeCount = 0 ∧
        applyRecord (Platform.reference fun _ _ _ => false) graph later.record = (next, none) ∧
        next.edgeCount = 1 := by
  have hcbor : (Platform.reference fun _ _ _ => false).cbor.Conforms := reference_conforms
  obtain ⟨genesis, hgenesis⟩ := exists_validatedRecord hcbor goldenGenesisFields_inDomain
  obtain ⟨later, hlater⟩ := exists_laterVersion (Platform.reference fun _ _ _ => false) hcbor
    genesis.record.recordDigest (sampleBytes [0x01]) (by decide +kernel)
  obtain ⟨hkind, hversion, hbytes, hsequence, hledger⟩ := event_of_laterVersion hlater
  have hevent := congrArg RecordFields.toEventFields hgenesis
  have hgenesisKind : genesis.record.event.kind = eventKindLedgerInitialized :=
    congrArg EventFields.kind hevent
  have hgenesisLedger : genesis.record.event.ledgerID = goldenGenesisFields.ledgerID :=
    congrArg EventFields.ledgerID hevent
  have hfirst := applyRecords_singleton (congrArg EventFields.sequence hevent)
    (hgenesisKind ▸ by decide) (hgenesisKind ▸ by decide)
  rw [hgenesisLedger] at hfirst
  obtain ⟨payload, hdecode⟩ := exists_ok_of_isOk (show (decodeAcceptedPayload
    (Platform.reference fun _ _ _ => false) (sampleBytes [0x01])).isOk = true by decide +kernel)
  have hstep : Step (Platform.reference fun _ _ _ => false)
      ((newGraph goldenGenesisFields.ledgerID).setLastSequence 1) later.record
      (((newGraph goldenGenesisFields.ledgerID).setLastSequence 1).insertEdge
        (edgeOf later.record payload)) := by
    apply Step.accepted hkind
    · rw [hbytes]
      exact hdecode
    · rfl
  refine ⟨genesis, later, hgenesis, hlater, ?_, _, _, hfirst, rfl,
    (applyRecord_eq_ok later.sequence_pos).mpr ⟨hledger, ?_, hstep⟩, edgeCount_insertEdge rfl⟩
  · rintro ⟨-, hone⟩
    rw [hversion] at hone
    exact absurd hone (by decide)
  · rw [hsequence]
    rfl

end AttributionChain.Projector

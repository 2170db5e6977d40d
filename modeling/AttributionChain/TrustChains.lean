import AttributionChain.ConfidenceApi

/-!
# What a confidence is, in terms of the records

The reply of `EvaluateConfidence` without graph, projector and search.  A stored
endorsement stands if no stored revocation names it.  A trust chain leads from a trust
root to the target over endorsements that stand, and the score is what the trust in the
target and all such chains leave of the doubt.

* `reply_from_records`: score, records and sequence number of a reply are those of the
  trust chains of one moment of the ledger.
* `outsiders_uncounted`: identities that no request of an insider's endorses have no
  confidence, whatever they request themselves.
-/

namespace AttributionChain.HttpApi

open Ledger Endorsement Store Admission Histories Projector Evaluator AttributionChain.Graph

variable {platform : Platform} {system next : System} {ledgerID : LedgerID}
  {records : List StructuralRecord} {graph : Graph} {policy normal : EvaluationPolicy}
  {target root : IdentityKey}

/-! ### Chains of endorsements -/

/-- A record and the endorsement in it. -/
structure Link where
  record : StructuralRecord
  payload : EndorsementAcceptedPayload
deriving DecidableEq

namespace Link

def proposer (link : Link) : IdentityKey := identityOf link.payload.proposerPublicKey

def subject (link : Link) : IdentityKey := identityOf link.payload.subjectPublicKey

def edge (link : Link) : AttestationEdge := edgeOf link.record link.payload

end Link

variable (platform) in
/-- The endorsement is one of the records, on the topic, and no revocation among them
names it. -/
structure Stands (records : List StructuralRecord) (topic : Bytes) (link : Link) : Prop where
  stored : link.record ∈ records
  endorses : endorsementOf platform link.record = some link.payload
  unrevoked : ∀ revocation ∈ records, ∀ revoked, revocationOf platform revocation = some revoked →
    revoked.targetRecordDigest ≠ link.record.recordDigest
  topic : topic = [] ∨ link.payload.topic = topic

variable (platform) in
/-- A chain of endorsements that stand, from a trust root to the target, within the
limits of the policy and without a cycle. -/
structure TrustChain (records : List StructuralRecord) (policy : EvaluationPolicy)
    (target root : IdentityKey) (chain : List Link) : Prop where
  isRoot : root ∈ policy.trustRoots
  ne_target : root ≠ target
  length : 1 ≤ chain.length ∧ (chain.length : Int) ≤ policy.maxHops.toInt
  stands : ∀ link ∈ chain, Stands platform records policy.topic link
  starts : chain.head?.map (·.proposer) = some root
  joined : chain.IsChain fun link next => link.subject = next.proposer
  simple : (root :: chain.map (·.subject)).Nodup
  ends : chain.getLast?.map (·.subject) = some target
  weight : policy.minConfidence ≤ policy.weightOf root * policy.decayFactor ^ chain.length

/-! ### Chains and paths -/

/-- A list of images is the image of a list. -/
theorem exists_map_eq {α β : Type} {f : α → β} {good : α → Prop} {images : List β}
    (h : ∀ image ∈ images, ∃ item, good item ∧ f item = image) :
    ∃ items : List α, (∀ item ∈ items, good item) ∧ items.map f = images := by
  induction images with
  | nil => exact ⟨[], by simp, rfl⟩
  | cons image images ih =>
    obtain ⟨item, hitem, rfl⟩ := h image (List.mem_cons_self ..)
    obtain ⟨items, hitems, rfl⟩ := ih fun image himage => h image (List.mem_cons_of_mem _ himage)
    exact ⟨item :: items, List.forall_mem_cons.mpr ⟨hitem, hitems⟩, rfl⟩

theorem eq_of_map_eq {α β : Type} {f : α → β} {left right : List α}
    (hinj : ∀ item ∈ left, ∀ other ∈ right, f item = f other → item = other)
    (h : left.map f = right.map f) : left = right := by
  induction left generalizing right with
  | nil => exact (List.map_eq_nil_iff.mp h.symm).symm
  | cons item left ih =>
    obtain ⟨other, rest, rfl, hitem, hrest⟩ := List.map_eq_cons_iff.mp h.symm
    rw [hinj item (List.mem_cons_self ..) other (List.mem_cons_self ..) hitem.symm,
      ih (fun item hitem other hother => hinj item (List.mem_cons_of_mem _ hitem) other
        (List.mem_cons_of_mem _ hother)) hrest.symm]

theorem head?_map_edge (chain : List Link) :
    (chain.map Link.edge).head?.map (·.proposer) = chain.head?.map (·.proposer) := by
  rw [List.head?_map, Option.map_map]
  rfl

theorem map_subject_edge (chain : List Link) :
    (chain.map Link.edge).map (·.subject) = chain.map (·.subject) := by
  rw [List.map_map]
  rfl

theorem getLast?_map_edge (chain : List Link) :
    (chain.map Link.edge).getLast?.map (·.subject) = chain.getLast?.map (·.subject) := by
  rw [List.getLast?_map, Option.map_map]
  rfl

section Projected

variable (hnodup : (records.map StructuralRecord.recordDigest).Nodup)

include hnodup

theorem Stands.edge_injOn {topic : Bytes} {link other : Link}
    (h : Stands platform records topic link) (hother : Stands platform records topic other)
    (hedge : link.edge = other.edge) : link = other := by
  have hrecord : link.record = other.record :=
    List.inj_on_of_nodup_map hnodup h.stored hother.stored
      (congrArg AttestationEdge.recordDigest hedge)
  have hpayload : some link.payload = some other.payload := by
    rw [← h.endorses, hrecord, hother.endorses]
  cases link
  cases other
  cases hrecord
  cases hpayload
  rfl

variable (hprojects : Projects platform ledgerID records graph) (hgraph : graph.Indexed)

include hprojects hgraph

/-- The edges that count are the endorsements that stand. -/
theorem relevant_iff {edge : AttestationEdge} :
    edge ∈ graph.heap ∧ Relevant policy edge ↔
      ∃ link, Stands platform records policy.topic link ∧ link.edge = edge := by
  constructor
  · rintro ⟨hmem, hactive, htopic⟩
    have hedge : edgeAt platform records edge.recordDigest = some edge := by
      rw [← hprojects.reflects.edge]
      exact hgraph.edgeByDigest_iff.mpr ⟨hmem, rfl⟩
    obtain ⟨hendorsed, hunrevoked⟩ := edgeAt_of_isActive hedge hactive
    obtain ⟨record, hrecord, payload, hdigest, hpayload, rfl⟩ :=
      (findSome?_endorsedBy hnodup).mp hendorsed
    refine ⟨⟨record, payload⟩, ?_, rfl⟩
    exact ⟨hrecord, hpayload, findSome?_revokedBy_eq_none.mp hunrevoked, htopic⟩
  · rintro ⟨link, hlink, rfl⟩
    have hedge := hprojects.reflects.edge_of_unrevoked hnodup hlink.stored hlink.endorses
      hlink.unrevoked
    exact ⟨(hgraph.edgeByDigest_iff.mp hedge).1, rfl, hlink.topic⟩

/-- A trust chain is a path over endorsements that stand. -/
theorem trustChain_iff {chain : List Link} :
    TrustChain platform records policy target root chain ↔
      (∀ link ∈ chain, Stands platform records policy.topic link) ∧
        Qualifies graph policy target root (chain.map Link.edge) := by
  constructor
  · intro h
    refine ⟨h.stands, h.isRoot, h.ne_target, ?_, ?_, ?_, (List.isChain_map _).mpr h.joined, ?_, ?_,
      ?_⟩
    · rw [List.length_map]
      exact h.length
    · intro edge hedge
      obtain ⟨link, hlink, rfl⟩ := List.mem_map.mp hedge
      exact (relevant_iff hnodup hprojects hgraph).mpr ⟨link, h.stands link hlink, rfl⟩
    · rw [head?_map_edge]
      exact h.starts
    · rw [map_subject_edge]
      exact h.simple
    · rw [getLast?_map_edge]
      exact h.ends
    · rw [List.length_map]
      exact h.weight
  · rintro ⟨hstands, h⟩
    have hlength := h.length
    have hstarts := h.starts
    have hsimple := h.simple
    have hends := h.ends
    have hweight := h.weight
    rw [List.length_map] at hlength hweight
    rw [head?_map_edge] at hstarts
    rw [map_subject_edge] at hsimple
    rw [getLast?_map_edge] at hends
    exact ⟨h.isRoot, h.ne_target, hlength, hstands, hstarts, (List.isChain_map _).mp h.joined,
      hsimple, hends, hweight⟩

/-- A list of all trust chains goes with a list of all paths. -/
theorem exists_trustChains {paths : List (IdentityKey × List AttestationEdge)}
    (hpaths : paths.Nodup)
    (hmem : ∀ root path, (root, path) ∈ paths ↔ Qualifies graph policy target root path) :
    ∃ chains : List (IdentityKey × List Link), chains.Nodup ∧
      (∀ root chain, (root, chain) ∈ chains ↔
        TrustChain platform records policy target root chain) ∧
      chains.map (fun pair => (pair.1, pair.2.map Link.edge)) = paths := by
  have hsources : ∀ pair ∈ paths, ∃ source : IdentityKey × List Link,
      TrustChain platform records policy target source.1 source.2 ∧
        (source.1, source.2.map Link.edge) = pair := by
    rintro ⟨root, path⟩ hpair
    have hpath := (hmem root path).mp hpair
    obtain ⟨chain, hstands, rfl⟩ := exists_map_eq fun edge hedge =>
      (relevant_iff hnodup hprojects hgraph).mp (hpath.edges edge hedge)
    exact ⟨(root, chain), (trustChain_iff hnodup hprojects hgraph).mpr ⟨hstands, hpath⟩, rfl⟩
  obtain ⟨chains, hchains, rfl⟩ := exists_map_eq hsources
  refine ⟨chains, hpaths.of_map _, ?_, rfl⟩
  intro root chain
  constructor
  · exact hchains (root, chain)
  · intro hchain
    obtain ⟨⟨other, links⟩, hpair, hsame⟩ := List.mem_map.mp
      ((hmem root _).mpr ((trustChain_iff hnodup hprojects hgraph).mp hchain).2)
    obtain ⟨rfl, hedges⟩ := Prod.mk.inj hsame
    have hlinks : links = chain := eq_of_map_eq (fun link hlink other hother =>
      ((hchains _ hpair).stands link hlink).edge_injOn hnodup (hchain.stands other hother)) hedges
    rwa [hlinks] at hpair

end Projected

/-! ### Replies -/

variable (platform) in
/-- What a success reply says, given the records of the ledger. -/
structure Explained (records : List StructuralRecord) (target : IdentityKey)
    (normal : EvaluationPolicy) (chains : List (IdentityKey × List Link))
    (response : ConfidenceResponse) : Prop where
  distinct : chains.Nodup
  all : ∀ root chain, (root, chain) ∈ chains ↔
    TrustChain platform records normal target root chain
  score : response.confidenceScore = 1 - (1 - normal.weightOf target) *
    (chains.map fun pair =>
      1 - normal.weightOf pair.1 * normal.decayFactor ^ pair.2.length).prod
  contributing : ∀ text, text ∈ response.contributingRecordsHex ↔
    ∃ pair ∈ chains, ∃ link ∈ pair.2, hexEncode link.record.recordDigest.bytes = text
  sequence : response.evaluatedAtSequence = int (UInt64.ofNat records.length)
  target : response.targetPublicKeyHex = IdentityKey.hex target
  topic : response.topic = if normal.topic ≠ [] then some normal.topic else none

theorem explained_of_evaluate (hnodup : (records.map StructuralRecord.recordDigest).Nodup)
    (hprojects : Projects platform ledgerID records graph) (hgraph : graph.Indexed)
    (hvalid : policy.validate = .ok normal) {fuel : Nat} (hfuel : graph.heap.length < fuel)
    {result : ConfidenceResult} (hresult : evaluate graph fuel policy target = some (.ok result)) :
    ∃ chains, Explained platform records target normal chains (confidenceResponse result) := by
  have hnormal := EvaluationPolicy.valid_of_validate hvalid
  obtain ⟨findings, hevaluate, hreports⟩ := evaluate_eq hgraph hvalid target hfuel
  cases hresult.symm.trans hevaluate
  obtain ⟨_, hfound, hpaths, hscore, -⟩ := confidenceScore_eq hgraph hvalid target hfuel
  cases hevaluate.symm.trans hfound
  have hmem : ∀ root path, (root, path) ∈ keyedPaths graph normal target fuel ↔
      Qualifies graph normal target root path :=
    fun root path => mem_keyedPaths hgraph hnormal hfuel
  obtain ⟨chains, hdistinct, hall, hedges⟩ := exists_trustChains hnodup hprojects hgraph
    (nodup_keyedPaths hgraph) hmem
  have hcontributes : ∀ edge, Contributes graph normal target edge ↔
      ∃ pair ∈ chains, ∃ link ∈ pair.2, link.edge = edge := by
    intro edge
    constructor
    · rintro ⟨root, path, hpath, hedge⟩
      rw [← hmem, ← hedges, List.mem_map] at hpath
      obtain ⟨pair, hpair, hsame⟩ := hpath
      cases hsame
      obtain ⟨link, hlink, rfl⟩ := List.mem_map.mp hedge
      exact ⟨pair, hpair, link, hlink, rfl⟩
    · rintro ⟨⟨root, chain⟩, hpair, link, hlink, rfl⟩
      exact ⟨root, _, ((trustChain_iff hnodup hprojects hgraph).mp ((hall root chain).mp hpair)).2,
        List.mem_map_of_mem hlink⟩
  refine ⟨chains, hdistinct, hall, ?_, ?_, ?_, rfl, rfl⟩
  · rw [confidenceResponse, hscore, unconfidence_eq, hpaths, ← hedges, NoisyOr.doubt_eq_mul]
    simp only [List.map_map, Function.comp_def, traceOf, List.length_map]
  · intro text
    simp only [confidenceResponse, assemble, assembleIn, List.mem_map, mem_deduplicateDigests,
      mem_contributingDigests hgraph hnormal hfuel hreports, hcontributes]
    constructor
    · rintro ⟨digest, ⟨edge, ⟨pair, hpair, link, hlink, rfl⟩, rfl⟩, rfl⟩
      exact ⟨pair, hpair, link, hlink, rfl⟩
    · rintro ⟨pair, hpair, link, hlink, rfl⟩
      exact ⟨_, ⟨_, ⟨pair, hpair, link, hlink, rfl⟩, rfl⟩, rfl⟩
  · have hlast : graph.lastSequence = UInt64.ofNat records.length := by
      rw [← hprojects.lastSequence, UInt64.ofNat_toNat]
    exact congrArg int hlast

theorem trustRootsOf_eq_error {roots : List TrustRootSpec}
    {trustRoots : AList fun _ : IdentityKey => ℚ} {reply : ConfidenceReply}
    (h : trustRootsOf roots trustRoots = .error reply) :
    ∃ status message, reply = .failure status message := by
  induction roots generalizing trustRoots with
  | nil => cases h
  | cons root roots ih =>
    rw [trustRootsOf] at h
    rcases hkey : identityKeyFromHex root.publicKeyHex with err | key
    · rw [hkey] at h
      cases h
      exact ⟨_, _, rfl⟩
    · rw [hkey] at h
      exact ih h

theorem parseInquiry_eq_error {ledgerId : Bytes} {body : Option EvaluateConfidenceRequest}
    {reply : ConfidenceReply} (h : parseInquiry ledgerId body = .error reply) :
    ∃ status message, reply = .failure status message := by
  unfold parseInquiry at h
  rcases hledger : parseHex32 ledgerId with err | ledgerID
  · rw [hledger] at h
    cases h
    exact ⟨_, _, rfl⟩
  · rw [hledger] at h
    rcases body with _ | body
    · cases h
      exact ⟨_, _, rfl⟩
    · rcases htarget : identityKeyFromHex body.targetPublicKeyHex with err | target
      · simp only [mapError_ok, ok_bind, orError_some, htarget] at h
        cases h
        exact ⟨_, _, rfl⟩
      · simp only [mapError_ok, ok_bind, orError_some, htarget] at h
        rcases hroots : trustRootsOf body.trustRoots ∅ with early | trustRoots
        · rw [hroots] at h
          cases h
          exact trustRootsOf_eq_error hroots
        · rw [hroots] at h
          cases h

/-- A success reply for a ledger that the service has written is explained by its
records. -/
theorem explained_of_replyAt (hcbor : platform.cbor.Conforms)
    (h : Reaches (step platform) Action.ServiceCall .initial system) {fuel : Nat}
    (hfuel : ∀ ledgerID, (system.table.ledgerRows ledgerID).length < fuel) {ledgerId : Bytes}
    {body : Option EvaluateConfidenceRequest} {response : ConfidenceResponse}
    (hreply : replyAt platform system.table fuel ledgerId body = some (.success response)) :
    ∃ inquiry normal chains, parseInquiry ledgerId body = .ok inquiry ∧
      inquiry.policy.validate = .ok normal ∧
      Explained platform (storedRecords platform system.table inquiry.ledgerID) inquiry.target
        normal chains response := by
  unfold replyAt at hreply
  rcases hparse : parseInquiry ledgerId body with early | inquiry
  · obtain ⟨_, _, rfl⟩ := parseInquiry_eq_error hparse
    rw [hparse] at hreply
    cases hreply
  · rcases happly : applyRecords platform (newGraph inquiry.ledgerID)
      (storedRecords platform system.table inquiry.ledgerID) with ⟨graph, _ | err⟩
    · simp only [hparse, happly, replyFor, Option.map_eq_some_iff] at hreply
      obtain ⟨outcome, hevaluate, hsuccess⟩ := hreply
      rcases outcome with err | result
      · cases hsuccess
      · cases hsuccess
        obtain ⟨chain, hholds, -⟩ :=
          (consistent_of_serviceCalls hcbor h).chained inquiry.ledgerID
        obtain ⟨hbuilt, htidy, hlast⟩ := projection_of_holds hholds happly
        obtain ⟨hnodup, hprojects⟩ := projects_of_stored hcbor h
          (List.append_nil _).symm happly
        have hlength : graph.heap.length < fuel := by
          have hrows := hfuel inquiry.ledgerID
          rw [hholds, List.length_map] at hrows
          exact Nat.lt_of_le_of_lt (hlast ▸ htidy.length) hrows
        rcases hvalid : inquiry.policy.validate with err | normal
        · rw [evaluate_of_error _ _ _ hvalid] at hevaluate
          cases hevaluate
        · obtain ⟨chains, hexplained⟩ :=
            explained_of_evaluate hnodup hprojects hbuilt.indexed hvalid hlength hevaluate
          exact ⟨inquiry, normal, chains, rfl, hvalid, hexplained⟩
    · simp only [hparse, happly] at hreply
      cases hreply

/-- **The reply is read off the records.**  Whatever is admitted while the handler reads,
a success reply is about the records of the ledger at one moment: its score is that of
all trust chains over the endorsements that stand then, it names the records of these
chains and no others, and its sequence number counts all records. -/
theorem reply_from_records (platform : Platform) (hcbor : platform.cbor.Conforms)
    (moments : Nat → System) (h : Watched platform moments) (fails : Nat → Bool) (bound : Nat)
    (hbound : ∀ i ledgerID, ((moments i).table.ledgerRows ledgerID).length ≤ bound)
    (hroom : bound < 2 ^ 64 - 1) (fuel : Nat) (hfuel : bound < fuel) (ledgerId : Bytes)
    (body : Option EvaluateConfidenceRequest) (response : ConfidenceResponse)
    (hreply : evaluateConfidence platform (some ⟨fun i => (moments i).table, fails⟩) fuel ledgerId
      body = some (.success response)) :
    ∃ i inquiry normal chains, parseInquiry ledgerId body = .ok inquiry ∧
      inquiry.policy.validate = .ok normal ∧
      Explained platform (storedRecords platform (moments i).table inquiry.ledgerID)
        inquiry.target normal chains response := by
  obtain ⟨i, hsnapshot⟩ := exists_moment_of_success hcbor h hbound hroom hfuel hreply
  exact ⟨i, explained_of_replyAt hcbor (h.reaches i)
    (fun ledgerID => Nat.lt_of_le_of_lt (hbound i ledgerID) hfuel) hsnapshot⟩

/-- The endorsement makes a chain. -/
theorem trustRun_explained :
    ∃ (trust : TrustRun) (inquiry : Inquiry) (normal : EvaluationPolicy)
      (chains : List (IdentityKey × List Link)),
      Explained samplePlatform
        (storedRecords samplePlatform trust.system.table inquiry.ledgerID) inquiry.target normal
        chains trust.forwards := by
  obtain ⟨trust⟩ := trustRun_evaluates
  obtain ⟨-, inquiry, normal, chains, -, -, hexplained⟩ := reply_from_records samplePlatform
    Cbor.reference_conforms (fun _ => trust.system) ⟨trust.reaches, fun _ => .refl⟩ (fun _ => false)
    2 (fun _ => trust.length_le) (by decide) 3 (by decide) _ _ trust.forwards trust.forwardsReply
  exact ⟨trust, inquiry, normal, chains, hexplained⟩

/-! ### Requests behind the records -/

variable (platform) in
/-- A call has asked for this endorsement, and its signatures check. -/
structure AskedFor (system : System) (ledgerID : LedgerID) (payload : EndorsementAcceptedPayload) :
    Prop where
  request : .admitEndorsement ledgerID (some payload) ∈ system.calls.map (·.request)
  verified : payload.verify platform = .ok ()

/-- Requests are not forgotten. -/
theorem requests_step {action : Action}
    (hstep : Admission.step platform system action = some next) :
    system.calls.map (·.request) ⊆ next.calls.map (·.request) := by
  rcases step_cases hstep with
    ⟨request, maxRetries, -, rfl⟩ | ⟨client, moved, later, phase, -, hmoved, -, rfl⟩
  · rw [List.map_append]
    exact List.subset_append_left ..
  · rw [System.advance, map_set_of_key_eq _ hmoved]
    · exact List.Subset.refl _
    · rfl

/-- The pending endorsement of a method of the service has been asked for. -/
theorem askedFor_of_sound {table : Table} {call : Call} {record : StructuralRecord}
    (hsound : Sound platform table call.request call.phase) (hcall : call ∈ system.calls)
    (hmethod : ∀ req, call.request ≠ .admitEvent req) (hpending : call.phase.pending = some record)
    (hkind : record.event.kind = eventKindEndorsementAccepted) :
    ∃ payload encoded, AskedFor platform system record.event.ledgerID payload ∧
      payload.encode platform = .ok encoded ∧ record.event.payloadBytes = some encoded := by
  have hrequest : call.request ∈ system.calls.map (·.request) := List.mem_map_of_mem hcall
  generalize call.request = request at hsound hmethod hrequest
  generalize call.phase = phase at hsound hpending
  cases hsound with
  | @initAppend _ _ validated hfields =>
    cases hpending
    cases (congrArg EventFields.kind hfields).symm.trans hkind
  | @admitAppend _ req _ _ _ validated _ hasks hfields =>
    cases hpending
    cases hasks with
    | admitEvent => exact absurd rfl (hmethod req)
    | @endorsement ledgerID payload encoded hverify hencode =>
      have hledger : validated.record.event.ledgerID = ledgerID :=
        congrArg EventFields.ledgerID hfields
      rw [hledger]
      exact ⟨payload, encoded, ⟨hrequest, hverify⟩, hencode,
        congrArg EventFields.payloadBytes hfields⟩
    | revocation => cases (congrArg EventFields.kind hfields).symm.trans hkind
  | _ => cases hpending

/-- **Every stored endorsement has been asked for.** -/
theorem askedFor_of_stored (hcbor : platform.cbor.Conforms)
    (h : Reaches (step platform) Action.ServiceCall .initial system) :
    ∀ ledgerID, ∀ record ∈ storedRecords platform system.table ledgerID,
      record.event.kind = eventKindEndorsementAccepted → ∃ payload encoded,
        AskedFor platform system ledgerID payload ∧ payload.encode platform = .ok encoded ∧
        record.event.payloadBytes = some encoded := by
  apply h.invariant
  · intro ledgerID record hrecord
    cases hrecord
  · intro state action next hreaches hinvariant hservice hstep ledgerID record hrecord hkind
    have hconsistent := consistent_of_serviceCalls hcbor hreaches
    have hlater : ∀ payload, AskedFor platform state ledgerID payload →
        AskedFor platform next ledgerID payload :=
      fun payload hasked => ⟨requests_step hstep hasked.request, hasked.verified⟩
    have hold : record ∈ storedRecords platform state.table ledgerID →
        ∃ payload encoded, AskedFor platform next ledgerID payload ∧
          payload.encode platform = .ok encoded ∧ record.event.payloadBytes = some encoded := by
      intro hmem
      obtain ⟨payload, encoded, hasked, hencode, hbytes⟩ := hinvariant ledgerID record hmem hkind
      exact ⟨payload, encoded, hlater payload hasked, hencode, hbytes⟩
    rcases hconsistent.ledger_step hcbor hstep ledgerID with
      hsame | ⟨client, call, front, validated, rfl, hstores⟩
    · rw [storedRecords, hsame] at hrecord
      exact hold hrecord
    · rw [storedRecords_eq hstores.after, List.map_append, List.mem_append,
        ← storedRecords_eq hstores.before] at hrecord
      rcases hrecord with hmem | hnew
      · exact hold hmem
      · cases List.mem_singleton.mp hnew
        have hcall := List.mem_of_getElem? hstores.running
        have hmethods := forall_request_of_reaches (fun request => ∀ req, request ≠ .admitEvent req)
          (by
            rintro state request maxRetries hservice req rfl
            exact hservice req maxRetries rfl) hreaches
        obtain ⟨payload, encoded, hasked, hencode, hbytes⟩ := askedFor_of_sound
          (hconsistent.sound call hcall) hcall (hmethods call hcall) hstores.pending hkind
        exact ⟨payload, encoded, hlater payload hasked, hencode, hbytes⟩

theorem Stands.askedFor (hcbor : platform.cbor.Conforms)
    (h : Reaches (step platform) Action.ServiceCall .initial system) {topic : Bytes} {link : Link}
    (hlink : Stands platform (storedRecords platform system.table ledgerID) topic link) :
    AskedFor platform system ledgerID link.payload := by
  obtain ⟨hkind, hdecode⟩ := endorsementOf_eq_some.mp hlink.endorses
  obtain ⟨payload, encoded, hasked, hencode, hbytes⟩ :=
    askedFor_of_stored hcbor h ledgerID link.record hlink.stored hkind
  have hvalid := wellFormed_of_verifyAccepted hasked.verified
  obtain ⟨proposer, hproposer⟩ := Option.ne_none_iff_exists'.mp hvalid.proposer
  obtain ⟨subject, hsubject⟩ := Option.ne_none_iff_exists'.mp hvalid.subject
  rw [hbytes, Option.getD_some] at hdecode
  obtain ⟨hsame, -⟩ :=
    (decode_encodeAcceptedPayload_iff hcbor hvalid hproposer hsubject hencode).mp hdecode
  rwa [hsame]

/-! ### Insiders and outsiders -/

/-- A chain that starts inside stays there if no link of it leaves. -/
theorem inside_of_joined {inside : IdentityKey → Prop} {chain : List Link}
    (hjoined : chain.IsChain fun link next => link.subject = next.proposer)
    (hlinks : ∀ link ∈ chain, inside link.proposer → inside link.subject)
    (hstart : ∀ link ∈ chain.head?, inside link.proposer) :
    ∀ link ∈ chain, inside link.proposer ∧ inside link.subject := by
  induction chain with
  | nil => simp
  | cons first rest ih =>
    have hproposer := hstart first rfl
    have hsubject := hlinks first (List.mem_cons_self ..) hproposer
    rw [List.isChain_cons] at hjoined
    have hrest := ih hjoined.2 (fun link hlink => hlinks link (List.mem_cons_of_mem _ hlink))
      (fun link hlink => hjoined.1 link hlink ▸ hsubject)
    exact List.forall_mem_cons.mpr ⟨⟨hproposer, hsubject⟩, hrest⟩

section Inside

variable {inside : IdentityKey → Prop} {chain : List Link}
  (h : TrustChain platform records policy target root chain) (hroot : inside root)
  (hlinks : ∀ link, Stands platform records policy.topic link → inside link.proposer →
    inside link.subject)

include h hroot hlinks

theorem TrustChain.stays_inside : ∀ link ∈ chain, inside link.proposer ∧ inside link.subject := by
  apply inside_of_joined h.joined fun link hlink => hlinks link (h.stands link hlink)
  intro link hlink
  have hstarts := h.starts
  rw [hlink] at hstarts
  cases hstarts
  exact hroot

theorem TrustChain.target_inside : inside target := by
  obtain ⟨link, hlast, hsubject⟩ := Option.map_eq_some_iff.mp h.ends
  rw [← hsubject]
  exact (h.stays_inside hroot hlinks link (List.mem_of_getLast? hlast)).2

end Inside

/-- **Outsiders cannot raise a confidence.**  Take any set of identities with all trust
roots in it, and runs in which no request carries an insider's valid endorsement of an
outsider.  Whatever else is requested, by anybody and in any order, outsiders have
confidence zero, and a reply about an insider rests on endorsements among insiders. -/
theorem outsiders_uncounted (platform : Platform) (hcbor : platform.cbor.Conforms)
    (moments : Nat → System) (h : Watched platform moments) (fails : Nat → Bool) (bound : Nat)
    (hbound : ∀ i ledgerID, ((moments i).table.ledgerRows ledgerID).length ≤ bound)
    (hroom : bound < 2 ^ 64 - 1) (fuel : Nat) (hfuel : bound < fuel) (ledgerId : Bytes)
    (body : Option EvaluateConfidenceRequest) (inquiry : Inquiry)
    (hparse : parseInquiry ledgerId body = .ok inquiry) (inside : IdentityKey → Prop)
    (hroots : ∀ root ∈ inquiry.policy.trustRoots, inside root)
    (hrequests : ∀ i payload, AskedFor platform (moments i) inquiry.ledgerID payload →
      inside (identityOf payload.proposerPublicKey) → inside (identityOf payload.subjectPublicKey))
    (response : ConfidenceResponse)
    (hreply : evaluateConfidence platform (some ⟨fun i => (moments i).table, fails⟩) fuel ledgerId
      body = some (.success response)) :
    (¬ inside inquiry.target →
      response.confidenceScore = 0 ∧ response.contributingRecordsHex = []) ∧
    ∀ text ∈ response.contributingRecordsHex, ∃ (i : Nat) (record : StructuralRecord)
      (payload : EndorsementAcceptedPayload),
      record ∈ storedRecords platform (moments i).table inquiry.ledgerID ∧
      hexEncode record.recordDigest.bytes = text ∧
      endorsementOf platform record = some payload ∧
      inside (identityOf payload.proposerPublicKey) ∧
      inside (identityOf payload.subjectPublicKey) := by
  obtain ⟨i, hsnapshot⟩ := exists_moment_of_success hcbor h hbound hroom hfuel hreply
  obtain ⟨other, normal, chains, hother, hvalid, hexplained⟩ := explained_of_replyAt hcbor
    (h.reaches i) (fun ledgerID => Nat.lt_of_le_of_lt (hbound i ledgerID) hfuel) hsnapshot
  cases hparse.symm.trans hother
  obtain ⟨hpolicy, rfl⟩ := EvaluationPolicy.validate_eq_ok.mp hvalid
  have hlinks : ∀ link, Stands platform (storedRecords platform (moments i).table inquiry.ledgerID)
      inquiry.policy.normalize.topic link → inside link.proposer → inside link.subject :=
    fun link hlink => hrequests i link.payload (hlink.askedFor hcbor (h.reaches i))
  constructor
  · intro houtside
    have hnone : chains = [] := by
      rw [List.eq_nil_iff_forall_not_mem]
      rintro ⟨root, chain⟩ hpair
      have hchain := (hexplained.all root chain).mp hpair
      exact houtside (hchain.target_inside (hroots root hchain.isRoot) hlinks)
    have hweight : inquiry.policy.normalize.weightOf inquiry.target = 0 :=
      (weightOf_eq_zero hpolicy.normalize).mpr fun hroot => houtside (hroots _ hroot)
    constructor
    · rw [hexplained.score, hweight, hnone]
      simp
    · rw [List.eq_nil_iff_forall_not_mem]
      intro text htext
      obtain ⟨pair, hpair, -⟩ := (hexplained.contributing text).mp htext
      rw [hnone] at hpair
      cases hpair
  · intro text htext
    obtain ⟨⟨root, chain⟩, hpair, link, hlink, hhex⟩ := (hexplained.contributing text).mp htext
    have hchain := (hexplained.all root chain).mp hpair
    have hstands := hchain.stands link hlink
    exact ⟨i, link.record, link.payload, hstands.stored, hhex, hstands.endorses,
      hchain.stays_inside (hroots root hchain.isRoot) hlinks link hlink⟩

/-- The endorsed key has endorsed nobody: whoever trusts it alone has no confidence in its
endorser. -/
theorem trustRun_outsider :
    ∃ trust : TrustRun, trust.backwards.confidenceScore = 0 ∧
      trust.backwards.contributingRecordsHex = [] := by
  obtain ⟨trust⟩ := trustRun_evaluates
  have hparsed : ∃ inquiry, parseInquiry (hexEncode (FixedBytes.zero 32).bytes)
      (some (inquiryFor Ecdsa.p256Opposite Ecdsa.p256Base)) = .ok inquiry ∧
      inquiry.ledgerID = .zero 32 ∧ inquiry.target = identityOf (some Ecdsa.p256Base) ∧
      inquiry.policy.trustRoots.keys = [identityOf (some Ecdsa.p256Opposite)] := by
    have hevaluated : (parseInquiry (hexEncode (FixedBytes.zero 32).bytes)
        (some (inquiryFor Ecdsa.p256Opposite Ecdsa.p256Base))).toOption.any (fun inquiry =>
          inquiry.ledgerID = .zero 32 ∧ inquiry.target = identityOf (some Ecdsa.p256Base) ∧
          inquiry.policy.trustRoots.keys = [identityOf (some Ecdsa.p256Opposite)]) = true := by
      decide +kernel
    simp only [Option.any_eq_true, decide_eq_true_eq, toOption_eq_some] at hevaluated
    exact hevaluated
  obtain ⟨inquiry, hparse, hledger, htarget, hkeys⟩ := hparsed
  have hdiffer : identityOf (some Ecdsa.p256Base) ≠ identityOf (some Ecdsa.p256Opposite) := by
    decide +kernel
  have hroots : ∀ root ∈ inquiry.policy.trustRoots,
      root = identityOf (some Ecdsa.p256Opposite) := by
    intro root hroot
    rw [AList.mem_keys, hkeys] at hroot
    exact List.mem_singleton.mp hroot
  have hrequests : ∀ payload, AskedFor samplePlatform trust.system inquiry.ledgerID payload →
      identityOf payload.proposerPublicKey ≠ identityOf (some Ecdsa.p256Opposite) := by
    intro payload hasked
    have hrequest := hasked.request
    rw [trust.requests, hledger] at hrequest
    obtain rfl : payload = oppositeEndorsement := by simpa using hrequest
    exact hdiffer
  obtain ⟨houtside, -⟩ := outsiders_uncounted samplePlatform Cbor.reference_conforms
    (fun _ => trust.system) ⟨trust.reaches, fun _ => .refl⟩ (fun _ => false) 2
    (fun _ => trust.length_le) (by decide) 3 (by decide) _ _ inquiry hparse
    (· = identityOf (some Ecdsa.p256Opposite)) hroots
    (fun _ payload hasked hinside => absurd hinside (hrequests payload hasked)) trust.backwards
    trust.backwardsReply
  exact ⟨trust, houtside (htarget ▸ hdiffer)⟩

end AttributionChain.HttpApi

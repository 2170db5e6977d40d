import AttributionChain.AdmissionRuns
import AttributionChain.Projection

/-!
# Which admitted histories can be projected

Admission checks signatures; the projector checks that payloads decode and that a
revocation has an active target and comes from the right key.  Nothing makes the
first imply the second, and the projector stops at the first record it rejects.

`replays_iff_fits` says which ledgers of the service replay: those whose every
record fits the ones before it.  Records are never removed, so a ledger that does
not replay never will (`blocked_forever`).

`Guarded` is what admission would have to check for this never to happen: a payload
that is stored survives its own codec, a revocation that is stored finds its endorsement
in the ledger, unrevoked, with the key of the role it claims, and no ledger uses up its
sequence numbers.  `replay_of_guarded` says that nothing else is missing.
-/

namespace AttributionChain.Admission

open Cbor Ecdsa Ledger Endorsement Store Histories Projector AttributionChain.Graph

variable (platform : Platform)

/-- The records of a ledger, as the read path decodes them. -/
def storedRecords (table : Table) (ledgerID : LedgerID) : List StructuralRecord :=
  (table.ledgerRows ledgerID).filterMap fun row =>
    (validateRecordStructure platform row.recordBytes).toOption

variable {platform} {table : Table} {ledgerID : LedgerID} {chain : List (ValidatedRecord platform)}
  {system next later : System} {action : Action} {request : Request} {phase : Phase}
  {record : StructuralRecord} {history : List StructuralRecord}

theorem storedRecords_eq (h : table.Holds platform ledgerID chain) :
    storedRecords platform table ledgerID = chain.map ValidatedRecord.record := by
  rw [storedRecords, h, List.filterMap_map, ← List.filterMap_eq_map]
  apply List.filterMap_congr
  intro validated _
  simp only [Function.comp_apply, rowOfRecord, validated.valid]
  rfl

/-! ### Ledgers that replay -/

/-- **Which ledgers replay.**  After any calls of the service, a ledger replays at a
batch size exactly when each of its records fits the ones before it. -/
theorem replays_iff_fits (hcbor : platform.cbor.Conforms)
    (h : Reaches (step platform) Action.ServiceCall .initial system)
    (hbound : (system.table.ledgerRows ledgerID).length < 2 ^ 64 - 1) (batchSize : Int) :
    Replays platform system.table ledgerID batchSize ↔
      Grown (Fits platform) (storedRecords platform system.table ledgerID) := by
  have hconsistent := consistent_of_serviceCalls hcbor h
  obtain ⟨chain, hholds, hlegal⟩ := hconsistent.chained ledgerID
  rw [storedRecords_eq hholds]
  apply Numbered.replays_iff
  apply numbered_of_legal hcbor hholds hlegal
  rwa [hholds, List.length_map] at hbound

/-! ### What one step does to a ledger -/

/-- A client's action stores its pending record at the end of a ledger. -/
structure Stores (system next : System) (action : Action) (client : Nat) (call : Call)
    (front : List (ValidatedRecord platform)) (validated : ValidatedRecord platform) : Prop where
  acting : action.client = some client
  running : system.calls[client]? = some call
  pending : call.phase.pending = some validated.record
  stored : (Store.append system.table validated.record).2 = none
  before : system.table.Holds platform validated.record.event.ledgerID front
  after : next.table.Holds platform validated.record.event.ledgerID (front ++ [validated])
  legal : LegalChain platform ((front ++ [validated]).map ValidatedRecord.record)

/-- A step leaves a ledger alone or stores a record at its end. -/
theorem Consistent.ledger_step (hcbor : platform.cbor.Conforms) (h : Consistent platform system)
    (hstep : Admission.step platform system action = some next) (ledgerID : LedgerID) :
    next.table.ledgerRows ledgerID = system.table.ledgerRows ledgerID ∨
      ∃ client call front, ∃ validated : ValidatedRecord platform,
        validated.record.event.ledgerID = ledgerID ∧
        Stores system next action client call front validated := by
  rcases step_cases hstep with
    ⟨request, maxRetries, rfl, rfl⟩ | ⟨client, call, later, phase, hclient, hcall, hadvances, rfl⟩
  · exact .inl rfl
  · rcases hadvances.table_cases with rfl | ⟨record, hpending, hadmits, rfl⟩
    · exact .inl rfl
    · by_cases hledger : record.event.ledgerID = ledgerID
      · right
        subst hledger
        have hmem := List.mem_of_getElem? hcall
        obtain ⟨front, hfront, hlegal⟩ := h.chained record.event.ledgerID
        obtain ⟨validated, rfl, hextends⟩ := (h.sound call hmem).extends_of_admits hcbor
          (h.kinds call hmem) hpending hadmits hfront hlegal
        obtain ⟨hadded, hlegalAdded⟩ := holds_add_of_extends hcbor hfront hlegal hextends hadmits
        have hstored : (Store.append system.table validated.record).2 = none := by
          rw [append_eq_none.mpr ⟨hadmits, rfl⟩]
        exact ⟨client, call, front, validated, rfl,
          ⟨hclient, hcall, hpending, hstored, hfront, hadded, hlegalAdded⟩⟩
      · exact .inl (ledgerRows_add_of_ne hadmits hledger)

/-- **The histories of a run.**  What a stored record always satisfies with respect to
the ones before it, every ledger satisfies throughout. -/
theorem grown_storedRecords {allowed : System → Action → Prop}
    {fits : List StructuralRecord → StructuralRecord → Prop} (hcbor : platform.cbor.Conforms)
    (hservice : ∀ state action, allowed state action → Action.ServiceCall state action)
    (hfits : ∀ state action next client call front (validated : ValidatedRecord platform),
      Reaches (step platform) allowed .initial state → allowed state action →
      Stores state next action client call front validated →
      fits (front.map ValidatedRecord.record) validated.record)
    (h : Reaches (step platform) allowed .initial system) :
    ∀ ledgerID, Grown fits (storedRecords platform system.table ledgerID) := by
  apply h.invariant
  · intro ledgerID
    exact .nil
  · intro state action next hreaches hgrown hallowed hstep ledgerID
    have hconsistent := consistent_of_serviceCalls hcbor (hreaches.mono hservice)
    rcases hconsistent.ledger_step hcbor hstep ledgerID with
      hsame | ⟨client, call, front, validated, rfl, hstores⟩
    · rw [storedRecords, hsame]
      exact hgrown ledgerID
    · have hfront := hgrown validated.record.event.ledgerID
      rw [storedRecords_eq hstores.before] at hfront
      rw [storedRecords_eq hstores.after, List.map_append, List.map_singleton]
      exact .concat hfront (hfits _ _ _ _ _ _ _ hreaches hallowed hstores)

/-- The records of a ledger are never changed or removed. -/
theorem exists_storedRecords_eq (hcbor : platform.cbor.Conforms)
    (h : Reaches (step platform) Action.ServiceCall .initial system)
    (hlater : Reaches (step platform) Action.ServiceCall system later) (ledgerID : LedgerID) :
    ∃ new, storedRecords platform later.table ledgerID =
      storedRecords platform system.table ledgerID ++ new := by
  induction hlater with
  | refl => exact ⟨[], (List.append_nil _).symm⟩
  | @step middle last action hmiddle _ hstep ih =>
    obtain ⟨new, hnew⟩ := ih
    have hconsistent := consistent_of_serviceCalls hcbor (h.trans hmiddle)
    rcases hconsistent.ledger_step hcbor hstep ledgerID with
      hsame | ⟨_, _, front, validated, rfl, hstores⟩
    · refine ⟨new, ?_⟩
      rw [← hnew, storedRecords, hsame]
      rfl
    · refine ⟨new ++ [validated.record], ?_⟩
      rw [← List.append_assoc, ← hnew, storedRecords_eq hstores.before,
        storedRecords_eq hstores.after, List.map_append, List.map_singleton]

theorem length_storedRecords (hcbor : platform.cbor.Conforms)
    (h : Reaches (step platform) Action.ServiceCall .initial system) (ledgerID : LedgerID) :
    (storedRecords platform system.table ledgerID).length =
      (system.table.ledgerRows ledgerID).length := by
  have hconsistent := consistent_of_serviceCalls hcbor h
  obtain ⟨chain, hholds, -⟩ := hconsistent.chained ledgerID
  rw [storedRecords_eq hholds, hholds, List.length_map, List.length_map]

/-- **The projector stops for good.**  A ledger that does not replay in some state
does not replay in any later one. -/
theorem blocked_forever (hcbor : platform.cbor.Conforms)
    (h : Reaches (step platform) Action.ServiceCall .initial system)
    (hlater : Reaches (step platform) Action.ServiceCall system later)
    (hbound : (later.table.ledgerRows ledgerID).length < 2 ^ 64 - 1) {batchSize laterSize : Int}
    (hblocked : ¬ Replays platform system.table ledgerID batchSize) :
    ¬ Replays platform later.table ledgerID laterSize := by
  intro hreplays
  apply hblocked
  obtain ⟨new, hnew⟩ := exists_storedRecords_eq hcbor h hlater ledgerID
  have hlength := congrArg List.length hnew
  rw [List.length_append, length_storedRecords hcbor h,
    length_storedRecords hcbor (h.trans hlater)] at hlength
  rw [replays_iff_fits hcbor (h.trans hlater) hbound, hnew] at hreplays
  rw [replays_iff_fits hcbor h (by omega)]
  exact hreplays.of_append

/-! ### The guard -/

/-- The payload of a revocation call. -/
def Request.revocation : Request → Option EndorsementRevokedPayload
  | .admitRevocation _ payload => payload
  | _ => none

/-- A method with a payload that its decoder reads back: P-256 keys and UTF-8 text. -/
def Request.Readable : Request → Prop
  | .initLedger _ => True
  | .admitEvent _ => False
  | .admitEndorsement _ payload => ∀ endorsement ∈ payload,
      endorsement.proposerPublicKey.map PublicKey.curve = some .p256 ∧
      endorsement.subjectPublicKey.map PublicKey.curve = some .p256 ∧
      validUTF8 endorsement.topic = true
  | .admitRevocation _ payload => ∀ revocation ∈ payload,
      revocation.revokerPublicKey.map PublicKey.curve = some .p256 ∧
      validUTF8 revocation.reason = true

instance : DecidablePred Request.Readable
  | .initLedger _ => inferInstanceAs (Decidable True)
  | .admitEvent _ => inferInstanceAs (Decidable False)
  | .admitEndorsement _ payload => inferInstanceAs (Decidable (∀ endorsement ∈ payload, _ ∧ _ ∧ _))
  | .admitRevocation _ payload => inferInstanceAs (Decidable (∀ revocation ∈ payload, _ ∧ _))

variable (platform) in
/-- What admission would have to check of a record before it stores it. -/
structure Storable (table : Table) (request : Request) (record : StructuralRecord) : Prop where
  readable : request.Readable
  room : record.event.sequence ≠ maxUint64
  revocable : ∀ revocation ∈ request.revocation,
    Revocable platform (storedRecords platform table record.event.ledgerID) revocation

variable (platform) in
/-- A call of a method of the service, or a step of one that stores only what the
projector can take. -/
structure Guarded (system : System) (action : Action) : Prop where
  service : Action.ServiceCall system action
  storable : ∀ client ∈ action.client, ∀ call ∈ system.calls[client]?,
    ∀ record ∈ call.phase.pending, (Store.append system.table record).2 = none →
    Storable platform system.table call.request record

instance (table : Table) (request : Request) (record : StructuralRecord) :
    Decidable (Storable platform table request record) :=
  decidable_of_iff (request.Readable ∧ record.event.sequence ≠ maxUint64 ∧
      ∀ revocation ∈ request.revocation,
        Revocable platform (storedRecords platform table record.event.ledgerID) revocation)
    ⟨fun h => ⟨h.1, h.2.1, h.2.2⟩, fun h => ⟨h.readable, h.room, h.revocable⟩⟩

instance (system : System) (action : Action) : Decidable (Guarded platform system action) :=
  decidable_of_iff (Action.ServiceCall system action ∧
      ∀ client ∈ action.client, ∀ call ∈ system.calls[client]?, ∀ record ∈ call.phase.pending,
        (Store.append system.table record).2 = none →
        Storable platform system.table call.request record)
    ⟨fun h => ⟨h.1, h.2⟩, fun h => ⟨h.service, h.storable⟩⟩

theorem serviceCall_of_guarded (system : System) (action : Action)
    (h : Guarded platform system action) : Action.ServiceCall system action := h.service

/-! ### Pending records -/

/-- A readable endorsement comes back from the bytes that admission stores. -/
theorem endorsementOf_of_asks (hcbor : platform.cbor.Conforms)
    {payload : EndorsementAcceptedPayload} {encoded : Bytes}
    (hverify : payload.verify platform = .ok ()) (hencode : payload.encode platform = .ok encoded)
    (hreadable : (Request.admitEndorsement ledgerID (some payload)).Readable)
    (hkind : record.event.kind = eventKindEndorsementAccepted)
    (hpayload : record.event.payloadBytes = some encoded) :
    endorsementOf platform record = some payload := by
  have hvalid := wellFormed_of_verifyAccepted hverify
  obtain ⟨proposer, hproposer⟩ := Option.ne_none_iff_exists'.mp hvalid.proposer
  obtain ⟨subject, hsubject⟩ := Option.ne_none_iff_exists'.mp hvalid.subject
  obtain ⟨hproposerCurve, hsubjectCurve, htext⟩ := hreadable payload rfl
  rw [hproposer, Option.map_some, Option.some.injEq] at hproposerCurve
  rw [hsubject, Option.map_some, Option.some.injEq] at hsubjectCurve
  apply endorsementOf_eq_some.mpr
  rw [hpayload, Option.getD_some]
  exact ⟨hkind, (decode_of_encodeAcceptedPayload hcbor hvalid hproposer hsubject hencode).mpr
    ⟨hproposerCurve, hsubjectCurve, htext⟩⟩

/-- A readable revocation comes back from the bytes that admission stores. -/
theorem revocationOf_of_asks (hcbor : platform.cbor.Conforms)
    {payload : EndorsementRevokedPayload} {encoded : Bytes}
    (hverify : payload.verify platform = .ok ()) (hencode : payload.encode platform = .ok encoded)
    (hreadable : (Request.admitRevocation ledgerID (some payload)).Readable)
    (hkind : record.event.kind = eventKindEndorsementRevoked)
    (hpayload : record.event.payloadBytes = some encoded) :
    revocationOf platform record = some payload := by
  have hvalid := wellFormed_of_verifyRevoked hverify
  obtain ⟨revoker, hrevoker⟩ := Option.ne_none_iff_exists'.mp hvalid.revoker
  obtain ⟨hcurve, htext⟩ := hreadable payload rfl
  rw [hrevoker, Option.map_some, Option.some.injEq] at hcurve
  apply revocationOf_eq_some.mpr
  rw [hpayload, Option.getD_some]
  exact ⟨hkind, (decode_of_encodeRevokedPayload hcbor hvalid hrevoker hencode).mpr
    ⟨hcurve, htext⟩⟩

/-- A pending record fits the ledger that its guard was checked against. -/
theorem Sound.fits (hcbor : platform.cbor.Conforms) (hsound : Sound platform table request phase)
    (hreadable : request.Readable) (hpending : phase.pending = some record)
    (hrevocable : ∀ revocation ∈ request.revocation, Revocable platform history revocation) :
    Fits platform history record := by
  cases hsound with
  | @initAppend _ _ validated hfields =>
    cases hpending
    have hkind : validated.record.event.kind = eventKindLedgerInitialized :=
      congrArg EventFields.kind hfields
    exact .of_other platform (hkind ▸ by decide) (hkind ▸ by decide)
  | @admitAppend _ req _ _ _ validated _ hasks hfields =>
    cases hpending
    cases hasks with
    | admitEvent => exact hreadable.elim
    | @endorsement _ payload encoded hverify hencode =>
      have hkind : validated.record.event.kind = eventKindEndorsementAccepted :=
        congrArg EventFields.kind hfields
      exact .of_endorsement (endorsementOf_of_asks hcbor hverify hencode hreadable hkind
        (congrArg EventFields.payloadBytes hfields))
    | @revocation _ payload encoded hverify hencode =>
      have hkind : validated.record.event.kind = eventKindEndorsementRevoked :=
        congrArg EventFields.kind hfields
      exact .of_revocation (revocationOf_of_asks hcbor hverify hencode hreadable hkind
        (congrArg EventFields.payloadBytes hfields)) (hrevocable payload rfl)
  | _ => cases hpending

/-! ### Guarded runs -/

variable (platform) in
/-- The invariant of guarded runs. -/
structure Projectable (system : System) : Prop where
  fits : ∀ (ledgerID : LedgerID) (chain : List (ValidatedRecord platform)),
    system.table.Holds platform ledgerID chain →
    Grown (Fits platform) (chain.map ValidatedRecord.record)
  room : ∀ (ledgerID : LedgerID) (chain : List (ValidatedRecord platform)),
    system.table.Holds platform ledgerID chain → chain.length < 2 ^ 64 - 1

/-- **One guarded step.**  What it stores fits the ledger. -/
theorem fits_of_stores (hcbor : platform.cbor.Conforms)
    (hreaches : Reaches (step platform) (Guarded platform) .initial system)
    (hguarded : Guarded platform system action) {client : Nat} {call : Call}
    {front : List (ValidatedRecord platform)} {validated : ValidatedRecord platform}
    (hstores : Stores system next action client call front validated) :
    Fits platform (front.map ValidatedRecord.record) validated.record := by
  have hconsistent := consistent_of_serviceCalls hcbor (hreaches.mono serviceCall_of_guarded)
  obtain ⟨hreadable, -, hrevocable⟩ := hguarded.storable client hstores.acting call
    hstores.running _ hstores.pending hstores.stored
  rw [storedRecords_eq hstores.before] at hrevocable
  exact (hconsistent.sound call (List.mem_of_getElem? hstores.running)).fits hcbor hreadable
    hstores.pending hrevocable

/-- **Every guarded run.** -/
theorem projectable_of_reaches (hcbor : platform.cbor.Conforms)
    (h : Reaches (step platform) (Guarded platform) .initial system) :
    Projectable platform system where
  fits ledgerID chain hholds := by
    have hgrown := grown_storedRecords hcbor serviceCall_of_guarded
      (fun _ _ _ _ _ _ _ hreaches hguarded hstores =>
        fits_of_stores hcbor hreaches hguarded hstores) h ledgerID
    rwa [storedRecords_eq hholds] at hgrown
  room ledgerID chain hholds := by
    -- no stored record has the largest sequence number, and the last one's is the length
    have hgrown : Grown (fun _ record => record.event.sequence ≠ maxUint64)
        (storedRecords platform system.table ledgerID) :=
      grown_storedRecords hcbor serviceCall_of_guarded
        (fun _ _ _ client call _ _ _ hguarded hstores =>
          (hguarded.storable client hstores.acting call hstores.running _ hstores.pending
            hstores.stored).room) h ledgerID
    have hconsistent := consistent_of_serviceCalls hcbor (h.mono serviceCall_of_guarded)
    obtain ⟨stored, hstored, hlegal⟩ := hconsistent.chained ledgerID
    rw [hholds.unique hstored]
    rw [storedRecords_eq hstored] at hgrown
    rcases List.eq_nil_or_concat' stored with rfl | ⟨front, last, rfl⟩
    · exact show 0 < 2 ^ 64 - 1 by decide
    · rw [List.map_append, List.map_singleton] at hgrown
      have hsequence := hlegal.sequence_eq hcbor (getElem?_concat_eq_some.mpr (.inr ⟨rfl, rfl⟩))
      have hlargest : last.record.event.sequence.toNat ≠ 2 ^ 64 - 1 := by
        intro hmax
        exact (grown_concat.mp hgrown).2 (UInt64.toNat_inj.mp (hmax.trans (by decide)))
      have hbound := last.record.event.sequence.toNat_lt
      rw [List.length_append, List.length_singleton]
      omega

/-- **Guarded histories stay projectable.**  In every state of a guarded run, a
fresh projector replays every ledger from the store without an error and ends at
the head's sequence number, whatever the batch size. -/
theorem replay_of_guarded (platform : Platform) (hcbor : platform.cbor.Conforms) (system : System)
    (h : Reaches (step platform) (Guarded platform) .initial system) (ledgerID : LedgerID)
    (batchSize : Int) :
    ∃ (graph : Graph) (applied : Nat) (state : ChainState),
      (∀ fuel, (system.table.ledgerRows ledgerID).length < fuel →
        replayFromStore platform (fun _ => system.table) batchSize fuel (newGraph ledgerID) =
          some ((graph, applied), none)) ∧
      head platform system.table ledgerID = .ok state ∧
      graph.lastSequence = state.lastSequence := by
  have hconsistent := consistent_of_serviceCalls hcbor (h.mono serviceCall_of_guarded)
  have hprojectable := projectable_of_reaches hcbor h
  obtain ⟨chain, hholds, hlegal⟩ := hconsistent.chained ledgerID
  have hnumbered := numbered_of_legal hcbor hholds hlegal (hprojectable.room ledgerID chain hholds)
  obtain ⟨graph, happly, -, -, hlast⟩ := exists_projection
    (hprojectable.fits ledgerID chain hholds) hholds.nodup_digests hnumbered.ledger_position
  refine ⟨graph, chain.length, _, ?_, hholds.head_eq hlegal, ?_⟩
  · intro fuel hfuel
    rw [hholds, List.length_map] at hfuel
    rw [hnumbered.replayFromStore_eq batchSize hfuel]
    exact congrArg some (applyCounted_eq_ok.mpr ⟨happly, by simp⟩)
  · apply UInt64.toNat_inj.mp
    rw [hlast, List.length_map, hlegal.lastSequence_eq hcbor]

/-- The actions of a call that meets no other. -/
def soloCall (client : Nat) (request : Request) : List Action :=
  [.start request 3, .head client false sampleStamp, .append client .completed false]

/-- A revocation by the proposer of `sampleEndorsement`, with its signature. -/
def sampleRevocation (target : Digest) (s : Nat) : EndorsementRevokedPayload where
  targetRecordDigest := target
  revokerPublicKey := some p256Base
  role := revokerRoleProposer
  revokedAtUnixMS := 0
  reason := ascii "r"
  revokerSignature := baseSignature p256Base s

/-- The record digest of the second record of `revokedRun`. -/
def endorsedDigest : Digest := .copyFrom 32
  [15, 4, 73, 144, 13, 107, 84, 20, 30, 231, 184, 55, 224, 118, 197, 181,
    68, 114, 191, 166, 243, 244, 233, 18, 186, 93, 216, 130, 229, 28, 219, 110]

/-- `InitLedger`, `AdmitEndorsement` and `AdmitRevocation` of that endorsement. -/
def revokedRun : List Action :=
  soloCall 0 (.initLedger (.zero 32)) ++
    soloCall 1 (.admitEndorsement (.zero 32) (some sampleEndorsement)) ++
    soloCall 2 (.admitRevocation (.zero 32) (some (sampleRevocation endorsedDigest
      0x939c8fce2c9e8b65debac7c29fde30ffdc283e53d94a96131c77b3b5c0b5cbc4)))

theorem revokedRun_replays :
    ∃ (system : System) (graph : Graph) (applied : Nat) (state : ChainState),
      run samplePlatform .initial revokedRun = some system ∧ system.table.rows.length = 3 ∧
      replayFromStore samplePlatform (fun _ => system.table) 2 4 (newGraph (.zero 32)) =
        some ((graph, applied), none) ∧
      head samplePlatform system.table (.zero 32) = .ok state ∧
      graph.lastSequence = state.lastSequence := by
  have hevaluated : (revokedRun.foldlM
      (checkedStep (Guarded samplePlatform) (step samplePlatform)) .initial).any (fun system =>
        decide (system.table.rows.length = 3 ∧
          (system.table.ledgerRows (.zero 32)).length < 4)) = true := by
    decide +kernel
  simp only [Option.any_eq_true, decide_eq_true_eq] at hevaluated
  obtain ⟨system, hchecked, hrows, hfuel⟩ := hevaluated
  obtain ⟨hreaches, hrun⟩ := Reaches.refl.of_checked hchecked
  obtain ⟨graph, applied, state, hreplay, hhead, hlast⟩ :=
    replay_of_guarded samplePlatform reference_conforms system hreaches (.zero 32) 2
  exact ⟨system, graph, applied, state, hrun, hrows, hreplay 4 hfuel, hhead, hlast⟩

/-- `InitLedger` and `AdmitRevocation` of a record that does not exist. -/
def orphanRun : List Action :=
  soloCall 0 (.initLedger (.zero 32)) ++
    soloCall 1 (.admitRevocation (.zero 32) (some (sampleRevocation (.zero 32)
      0xdbc6afb5c56e6249bf3eeaebd09e76b70fe46fb38e35c218257b8c332fa172c0)))

/-- The service stores the revocation, and no projector gets past it. -/
theorem orphanRevocation_blocks :
    ∃ (system : System) (state : ChainState) (progress : ReplayProgress) (err : ReplayError),
      Reaches (step samplePlatform) Action.ServiceCall .initial system ∧
      run samplePlatform .initial orphanRun = some system ∧
      head samplePlatform system.table (.zero 32) = .ok state ∧ state.lastSequence = 2 ∧
      replayFromStore samplePlatform (fun _ => system.table) 256 3 (newGraph (.zero 32)) =
        some (progress, some err) ∧
      progress.1.lastSequence = 1 := by
  have hevaluated : (run samplePlatform .initial orphanRun).any (fun system =>
      (head samplePlatform system.table (.zero 32)).toOption.any fun state =>
      (replayFromStore samplePlatform (fun _ => system.table) 256 3 (newGraph (.zero 32))).any
        fun result => decide (state.lastSequence = 2 ∧ result.2.isSome = true ∧
          result.1.1.lastSequence = 1)) = true := by
    decide +kernel
  simp only [Option.any_eq_true, decide_eq_true_eq] at hevaluated
  obtain ⟨system, hrun, state, hhead, ⟨progress, failure⟩, hreplay, hsequence, hfailure, hlast⟩ :=
    hevaluated
  obtain ⟨err, rfl⟩ := Option.isSome_iff_exists.mp hfailure
  refine ⟨system, state, progress, err, ?_, hrun, toOption_eq_some.mp hhead, hsequence, hreplay,
    hlast⟩
  exact reaches_of_run (by simp [orphanRun, soloCall]) hrun

end AttributionChain.Admission

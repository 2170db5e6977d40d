import AttributionChain.HashChain
import AttributionChain.Histories
import AttributionChain.LedgerCanonical

/-!
# Chain consistency

`internal/ledger/v1/chain.go`.  `validateChainConsistency` decides whether a
record may follow a chain state; folding it over a list decides whether the list
is a ledger.  `LegalChain` is the same thing without the state: a list grown at
its end, one permitted record at a time.

* `foldChain_eq_ok`: the fold accepts exactly the legal chains, and the state it
  ends in is that of the last record alone.  This is why the store can answer
  `Head` from one row.
* `legalChain_iff_wellFormed`: a legal chain described position by position.
* `eq_of_foldChain_digest_eq`: the last record digest of an accepted list
  determines the list, by the hash-chain argument of `HashChain.lean`.
-/

namespace AttributionChain.Ledger

open Cbor HashChain Histories

structure ChainState where
  initialized : Bool
  ledgerID : LedgerID
  lastSequence : UInt64
  lastRecordDigest : Digest
deriving DecidableEq

/-- The zero value `ChainState{}`. -/
def ChainState.empty : ChainState where
  initialized := false
  ledgerID := FixedBytes.zero 32
  lastSequence := 0
  lastRecordDigest := FixedBytes.zero 32

/-- `math.MaxUint64` -/
def maxUint64 : UInt64 := 0xFFFFFFFFFFFFFFFF

variable (platform : Platform)

def validateChainConsistency (state : ChainState) (record : StructuralRecord) :
    ChainState × Option ValidationError :=
  if record.bytes.length = 0 then
    (state, some (wrapValidationError .chainConsistency .schemaViolation))
  else if state.initialized = false then
    match validateEventSemantics platform record.event with
    | .error err => (state, some err)
    | .ok () =>
      ({ initialized := true
         ledgerID := record.event.ledgerID
         lastSequence := record.event.sequence
         lastRecordDigest := record.recordDigest }, none)
  else if state.lastSequence = maxUint64 then
    (state, some (wrapValidationError .chainConsistency .invalidSequence))
  else if record.event.ledgerID ≠ state.ledgerID then
    (state, some (wrapValidationError .chainConsistency .ledgerMismatch))
  else if record.event.sequence ≠ state.lastSequence + 1 then
    (state, some (wrapValidationError .chainConsistency .invalidSequence))
  else if record.event.predecessor ≠ some state.lastRecordDigest then
    (state, some (wrapValidationError .chainConsistency .chainLinkMismatch))
  else if record.event.kind = eventKindLedgerInitialized then
    (state, some (wrapValidationError .chainConsistency .invalidSequence))
  else
    ({ initialized := true
       ledgerID := state.ledgerID
       lastSequence := record.event.sequence
       lastRecordDigest := record.recordDigest }, none)

def chainStateFromRecord (record : StructuralRecord) : ChainState :=
  if record.bytes.length = 0 then .empty
  else
    { initialized := true
      ledgerID := record.event.ledgerID
      lastSequence := record.event.sequence
      lastRecordDigest := record.recordDigest }

/-- Chain validation of a whole list, stopping at the first rejected record. -/
def foldChain : ChainState → List StructuralRecord → ChainState × Option ValidationError :=
  rangeUntilError (validateChainConsistency platform)

/-! ### One step -/

/-- A record that may come next: the genesis record of an empty chain, or a
successor of the last record. -/
structure Extends (chain : List StructuralRecord) (record : StructuralRecord) : Prop where
  nonempty : record.bytes.length ≠ 0
  genesis : chain = [] → validateEventSemantics platform record.event = .ok ()
  successor : ∀ previous, chain.getLast? = some previous →
    record.event.ledgerID = previous.event.ledgerID ∧
    record.event.sequence.toNat = previous.event.sequence.toNat + 1 ∧
    record.event.predecessor = some previous.recordDigest ∧
    record.event.kind ≠ eventKindLedgerInitialized

/-- The state after a chain, read off its last record. -/
def chainStateAfter (chain : List StructuralRecord) : ChainState :=
  match chain.getLast? with
  | none => .empty
  | some last => chainStateFromRecord last

variable {platform}

/-- The guard against wrapping and the increment together are the successor of
natural numbers. -/
theorem sequence_succ_iff {last next : UInt64} :
    (last ≠ maxUint64 ∧ next = last + 1) ↔ next.toNat = last.toNat + 1 := by
  have hlast := last.toNat_lt
  have hnext := next.toNat_lt
  have hmax : maxUint64.toNat = 2 ^ 64 - 1 := by decide
  rw [Ne, ← UInt64.toNat_inj, ← UInt64.toNat_inj, hmax, UInt64.toNat_add, UInt64.toNat_one]
  omega

/-- A rejected record leaves the state alone. -/
theorem state_of_validateChainConsistency_error {state next : ChainState}
    {record : StructuralRecord} {err : ValidationError}
    (h : validateChainConsistency platform state record = (next, some err)) : next = state := by
  grind [validateChainConsistency]

/-- The state of a record with bytes. -/
theorem chainStateFromRecord_of_nonempty {record : StructuralRecord}
    (h : record.bytes.length ≠ 0) :
    chainStateFromRecord record =
      { initialized := true
        ledgerID := record.event.ledgerID
        lastSequence := record.event.sequence
        lastRecordDigest := record.recordDigest } := if_neg h

theorem validateChainConsistency_empty {record : StructuralRecord} {next : ChainState} :
    validateChainConsistency platform .empty record = (next, none) ↔
      record.bytes.length ≠ 0 ∧ validateEventSemantics platform record.event = .ok () ∧
        next = chainStateFromRecord record := by
  by_cases hbytes : record.bytes.length = 0
  · simp [validateChainConsistency, hbytes]
  · rw [chainStateFromRecord_of_nonempty hbytes, validateChainConsistency, if_neg hbytes,
      if_pos (show ChainState.empty.initialized = false from rfl)]
    rcases validateEventSemantics platform record.event with err | _
    · simp
    · simp [hbytes, eq_comm]

theorem validateChainConsistency_successor {previous record : StructuralRecord}
    {next : ChainState} (hprevious : previous.bytes.length ≠ 0) :
    validateChainConsistency platform (chainStateFromRecord previous) record = (next, none) ↔
      record.bytes.length ≠ 0 ∧ record.event.ledgerID = previous.event.ledgerID ∧
        record.event.sequence.toNat = previous.event.sequence.toNat + 1 ∧
        record.event.predecessor = some previous.recordDigest ∧
        record.event.kind ≠ eventKindLedgerInitialized ∧ next = chainStateFromRecord record := by
  rw [chainStateFromRecord_of_nonempty hprevious, ← sequence_succ_iff, validateChainConsistency]
  by_cases hbytes : record.bytes.length = 0
  · simp [hbytes]
  · rw [chainStateFromRecord_of_nonempty hbytes]
    simp only [Bool.true_eq_false, if_false]
    split_ifs <;> simp_all [eq_comm]

theorem validateChainConsistency_eq_ok {chain : List StructuralRecord}
    {record : StructuralRecord} {next : ChainState}
    (hchain : ∀ last, chain.getLast? = some last → last.bytes.length ≠ 0) :
    validateChainConsistency platform (chainStateAfter chain) record = (next, none) ↔
      Extends platform chain record ∧ next = chainStateFromRecord record := by
  rcases List.eq_nil_or_concat' chain with rfl | ⟨front, previous, rfl⟩
  · rw [show chainStateAfter [] = .empty from rfl, validateChainConsistency_empty]
    constructor
    · rintro ⟨hbytes, hsemantics, hnext⟩
      exact ⟨⟨hbytes, fun _ => hsemantics, by simp⟩, hnext⟩
    · rintro ⟨hextends, hnext⟩
      exact ⟨hextends.nonempty, hextends.genesis rfl, hnext⟩
  · have hlast : (front ++ [previous]).getLast? = some previous := by simp
    rw [chainStateAfter, hlast, validateChainConsistency_successor (hchain previous hlast)]
    constructor
    · rintro ⟨hbytes, hledger, hsequence, hlink, hkind, hnext⟩
      refine ⟨⟨hbytes, by simp, ?_⟩, hnext⟩
      intro other hother
      cases hlast.symm.trans hother
      exact ⟨hledger, hsequence, hlink, hkind⟩
    · rintro ⟨hextends, hnext⟩
      obtain ⟨hledger, hsequence, hlink, hkind⟩ := hextends.successor previous hlast
      exact ⟨hextends.nonempty, hledger, hsequence, hlink, hkind, hnext⟩

/-! ### Whole chains -/

variable (platform) in
/-- A ledger, grown one permitted record at a time. -/
abbrev LegalChain (chain : List StructuralRecord) : Prop := Grown (Extends platform) chain

theorem legalChain_concat {chain : List StructuralRecord} {record : StructuralRecord} :
    LegalChain platform (chain ++ [record]) ↔
      LegalChain platform chain ∧ Extends platform chain record := grown_concat

theorem LegalChain.bytes_ne_empty {chain : List StructuralRecord} (h : LegalChain platform chain) :
    ∀ record ∈ chain, record.bytes.length ≠ 0 :=
  Grown.forall_mem h fun _ _ hextends => hextends.nonempty

/-- **The fold accepts exactly the legal chains**, and ends in the state of the
last record. -/
theorem foldChain_eq_ok {chain : List StructuralRecord} {final : ChainState} :
    foldChain platform .empty chain = (final, none) ↔
      LegalChain platform chain ∧ final = chainStateAfter chain := by
  -- one more record at the end is one more step of the fold
  induction chain using List.reverseRecOn generalizing final with
  | nil =>
    simp only [foldChain, rangeUntilError_nil, Prod.mk.injEq, and_true]
    constructor
    · rintro rfl
      exact ⟨.nil, rfl⟩
    · rintro ⟨-, rfl⟩
      rfl
  | append_singleton chain record ih =>
    simp only [foldChain] at ih ⊢
    rw [rangeUntilError_append_eq_ok, legalChain_concat]
    simp only [ih, rangeUntilError_cons_eq_ok, rangeUntilError_nil, Prod.mk.injEq, and_true,
      exists_eq_right]
    constructor
    · rintro ⟨middle, ⟨hchain, rfl⟩, hstep⟩
      obtain ⟨hextends, hfinal⟩ := (validateChainConsistency_eq_ok fun last hlast =>
        hchain.bytes_ne_empty last (List.mem_of_getLast? hlast)).mp hstep
      exact ⟨⟨hchain, hextends⟩, by simp [chainStateAfter, hfinal]⟩
    · rintro ⟨⟨hchain, hextends⟩, rfl⟩
      refine ⟨_, ⟨hchain, rfl⟩, (validateChainConsistency_eq_ok fun last hlast =>
        hchain.bytes_ne_empty last (List.mem_of_getLast? hlast)).mpr ⟨hextends, ?_⟩⟩
      simp [chainStateAfter]

/-! ### The genesis record -/

theorem validateLedgerInitializedPayload_eq_ok {payload : Slice} {done : Unit}
    (h : validateLedgerInitializedPayload platform payload = .ok done) :
    payload = some ledgerInitializedPayloadCBOR := by
  simp only [validateLedgerInitializedPayload, bind_eq_ok, failIf_eq_ok, not_not] at h
  obtain ⟨_, _, hpayload⟩ := h
  cases payload with
  | none => cases hpayload
  | some content => exact congrArg some hpayload

theorem validateLedgerInitializedPayload_genesis (hcbor : platform.cbor.Conforms) :
    validateLedgerInitializedPayload platform (some ledgerInitializedPayloadCBOR) = .ok () := by
  have hdecode : decodeCanonicalMap platform Unit ledgerInitializedPayloadCBOR maxPayloadBytes []
      .payload = .ok () :=
    decodeCanonicalMap_marshal hcbor (by decide) (by decide) (by intro _ h; cases h)
      (by decide) (by decide)
  rw [validateLedgerInitializedPayload, Option.getD_some, hdecode]
  rfl

/-- The field values of a genesis event. -/
def genesisFields (ledgerID : LedgerID) (admittedAtUnixMS : UInt64) : EventFields where
  ledgerID := ledgerID
  sequence := 1
  previousRecordDigest := none
  admittedAtUnixMS := admittedAtUnixMS
  kind := eventKindLedgerInitialized
  payloadVersion := ledgerInitializedPayloadVersionV1
  payloadBytes := some ledgerInitializedPayloadCBOR

/-- An event passes the semantic check only with the field values of a genesis event. -/
theorem fields_of_validateEventSemantics {event : StructuralEvent} {done : Unit}
    (hevent : validateEventStructure platform event.bytes = .ok event)
    (h : validateEventSemantics platform event = .ok done) :
    event.fields = genesisFields event.ledgerID event.admittedAtUnixMS := by
  simp only [validateEventSemantics, bind_eq_ok, failIf_eq_ok, not_or, not_not, exists_const,
    Bool.not_eq_true] at h
  obtain ⟨-, validated, hvalidated, ⟨hkind, hversion⟩, ⟨hsequence, hprevious⟩, hpayload⟩ := h
  cases hevent.symm.trans hvalidated
  have hpayload := validateLedgerInitializedPayload_eq_ok hpayload
  simp [StructuralEvent.fields, genesisFields, StructuralEvent.predecessor, hkind, hversion,
    hsequence, hprevious, hpayload]

theorem newGenesisEvent_eq (hcbor : platform.cbor.Conforms) (ledgerID : LedgerID)
    (admittedAtUnixMS : UInt64) :
    newGenesisEvent platform ledgerID admittedAtUnixMS =
      newEventOfFields platform (genesisFields ledgerID admittedAtUnixMS) := by
  rw [newGenesisEvent, validateLedgerInitializedPayload_genesis hcbor, ok_bind]
  rfl

theorem validateEventSemantics_iff_genesis (hcbor : platform.cbor.Conforms)
    {event : StructuralEvent} (hevent : validateEventStructure platform event.bytes = .ok event) :
    validateEventSemantics platform event = .ok () ↔
      newGenesisEvent platform event.ledgerID event.admittedAtUnixMS = .ok event := by
  have hpayload := validateLedgerInitializedPayload_genesis hcbor
  rw [newGenesisEvent_eq hcbor]
  constructor
  · intro h
    rw [← fields_of_validateEventSemantics hevent h]
    exact rebuildEvent_of_validate hevent
  · intro h
    have hfields := fields_of_newEventOfFields hcbor h
    have hbytes := length_pos_of_validateEventStructure hcbor hevent
    have hkind : event.kind = eventKindLedgerInitialized := congrArg EventFields.kind hfields
    have hversion : event.payloadVersion = ledgerInitializedPayloadVersionV1 :=
      congrArg EventFields.payloadVersion hfields
    have hsequence : event.sequence = 1 := congrArg EventFields.sequence hfields
    have hprevious : event.predecessor = none := congrArg EventFields.previousRecordDigest hfields
    have hbody : event.payloadBytes = some ledgerInitializedPayloadCBOR :=
      congrArg EventFields.payloadBytes hfields
    have habsent : event.hasPreviousRecordDigest = false := by
      simpa [StructuralEvent.predecessor] using hprevious
    simp only [validateEventSemantics, bind_eq_ok, failIf_eq_ok, not_or, not_not, exists_const,
      Bool.not_eq_true]
    exact ⟨hbytes, event, hevent, ⟨hkind, hversion⟩, ⟨hsequence, habsent⟩, hbody ▸ hpayload⟩

/-- A validated record with genesis values holds the event that construction returns. -/
theorem newGenesisEvent_of_fields (hcbor : platform.cbor.Conforms)
    {validated : ValidatedRecord platform} {ledgerID : LedgerID} {admittedAtUnixMS : UInt64}
    (h : validated.record.event.fields = genesisFields ledgerID admittedAtUnixMS) :
    newGenesisEvent platform ledgerID admittedAtUnixMS = .ok validated.record.event := by
  rw [newGenesisEvent_eq hcbor, ← h]
  exact rebuildEvent_of_validate validated.spec.event

/-- A validated record with genesis values is a ledger of its own. -/
theorem legalChain_singleton (hcbor : platform.cbor.Conforms) {validated : ValidatedRecord platform}
    {ledgerID : LedgerID} {admittedAtUnixMS : UInt64}
    (h : validated.record.event.fields = genesisFields ledgerID admittedAtUnixMS) :
    LegalChain platform [validated.record] := by
  have hledger : validated.record.event.ledgerID = ledgerID := congrArg EventFields.ledgerID h
  have hadmitted : validated.record.event.admittedAtUnixMS = admittedAtUnixMS :=
    congrArg EventFields.admittedAtUnixMS h
  refine Grown.concat .nil ⟨validated.spec.bytes_ne_empty hcbor, fun _ => ?_, by simp⟩
  apply (validateEventSemantics_iff_genesis hcbor validated.spec.event).mpr
  rw [hledger, hadmitted]
  exact newGenesisEvent_of_fields hcbor h

/-- A validated record that follows the last one extends the ledger. -/
theorem extends_of_last (hcbor : platform.cbor.Conforms) {chain : List StructuralRecord}
    (previous : StructuralRecord) {validated : ValidatedRecord platform}
    (hlast : chain.getLast? = some previous)
    (hledger : validated.record.event.ledgerID = previous.event.ledgerID)
    (hsequence : validated.record.event.sequence.toNat = previous.event.sequence.toNat + 1)
    (hlink : validated.record.event.predecessor = some previous.recordDigest)
    (hkind : validated.record.event.kind ≠ eventKindLedgerInitialized) :
    Extends platform chain validated.record := by
  refine ⟨validated.spec.bytes_ne_empty hcbor, ?_, ?_⟩
  · rintro rfl
    cases hlast
  · intro other hother
    cases hlast.symm.trans hother
    exact ⟨hledger, hsequence, hlink, hkind⟩

namespace GoldenLedger

variable (golden : GoldenLedger)

/-- The golden ledger, oldest record first. -/
def chain : List (ValidatedRecord goldenPlatform) :=
  [golden.genesis, golden.endorsement, golden.revocation]

theorem genesis_event :
    golden.genesis.record.event.fields = goldenGenesisFields.toEventFields :=
  congrArg RecordFields.toEventFields golden.genesis_fields

theorem endorsement_event :
    golden.endorsement.record.event.fields = goldenEndorsementFields.toEventFields :=
  congrArg RecordFields.toEventFields golden.endorsement_fields

theorem revocation_event :
    golden.revocation.record.event.fields = goldenRevocationFields.toEventFields :=
  congrArg RecordFields.toEventFields golden.revocation_fields

@[simp] theorem genesis_values :
    golden.genesis.record.event.ledgerID = goldenGenesisFields.ledgerID ∧
      golden.genesis.record.event.sequence = 1 ∧
      golden.genesis.record.event.predecessor = none ∧
      golden.genesis.record.event.kind = eventKindLedgerInitialized ∧
      golden.genesis.record.event.payloadBytes = some ledgerInitializedPayloadCBOR :=
  ⟨congrArg EventFields.ledgerID golden.genesis_event,
    congrArg EventFields.sequence golden.genesis_event,
    congrArg EventFields.previousRecordDigest golden.genesis_event,
    congrArg EventFields.kind golden.genesis_event,
    congrArg EventFields.payloadBytes golden.genesis_event⟩

@[simp] theorem endorsement_values :
    golden.endorsement.record.event.ledgerID = goldenGenesisFields.ledgerID ∧
      golden.endorsement.record.event.sequence = 2 ∧
      golden.endorsement.record.event.predecessor = some goldenGenesisDigest ∧
      golden.endorsement.record.event.kind = eventKindEndorsementAccepted ∧
      golden.endorsement.record.event.payloadBytes = some goldenEndorsementPayload :=
  ⟨congrArg EventFields.ledgerID golden.endorsement_event,
    congrArg EventFields.sequence golden.endorsement_event,
    congrArg EventFields.previousRecordDigest golden.endorsement_event,
    congrArg EventFields.kind golden.endorsement_event,
    congrArg EventFields.payloadBytes golden.endorsement_event⟩

@[simp] theorem revocation_values :
    golden.revocation.record.event.ledgerID = goldenGenesisFields.ledgerID ∧
      golden.revocation.record.event.sequence = 3 ∧
      golden.revocation.record.event.predecessor = some goldenEndorsementDigest ∧
      golden.revocation.record.event.kind = eventKindEndorsementRevoked ∧
      golden.revocation.record.event.payloadBytes = some goldenRevocationPayload :=
  ⟨congrArg EventFields.ledgerID golden.revocation_event,
    congrArg EventFields.sequence golden.revocation_event,
    congrArg EventFields.previousRecordDigest golden.revocation_event,
    congrArg EventFields.kind golden.revocation_event,
    congrArg EventFields.payloadBytes golden.revocation_event⟩

theorem genesis_kind_ne :
    golden.genesis.record.event.kind ≠ eventKindEndorsementAccepted ∧
      golden.genesis.record.event.kind ≠ eventKindEndorsementRevoked := by
  have hkind : golden.genesis.record.event.kind = eventKindLedgerInitialized := by simp
  rw [hkind]
  decide

theorem endorsement_kind_ne :
    golden.endorsement.record.event.kind ≠ eventKindLedgerInitialized ∧
      golden.endorsement.record.event.kind ≠ eventKindEndorsementRevoked := by
  have hkind : golden.endorsement.record.event.kind = eventKindEndorsementAccepted := by simp
  rw [hkind]
  decide

theorem revocation_kind_ne :
    golden.revocation.record.event.kind ≠ eventKindLedgerInitialized := by
  have hkind : golden.revocation.record.event.kind = eventKindEndorsementRevoked := by simp
  rw [hkind]
  decide

/-- Each record of the golden ledger names the one before it. -/
theorem legal : LegalChain goldenPlatform (golden.chain.map ValidatedRecord.record) := by
  have hfirst : LegalChain goldenPlatform [golden.genesis.record] :=
    legalChain_singleton goldenPlatform_conforms golden.genesis_event
  have hsecond : Extends goldenPlatform [golden.genesis.record] golden.endorsement.record := by
    apply extends_of_last goldenPlatform_conforms golden.genesis.record rfl
    · simp
    · simp
    · simp [golden.genesis_digest]
    · exact golden.endorsement_kind_ne.1
  have hthird : Extends goldenPlatform [golden.genesis.record, golden.endorsement.record]
      golden.revocation.record := by
    apply extends_of_last goldenPlatform_conforms golden.endorsement.record rfl
    · simp
    · simp
    · simp [golden.endorsement_digest]
    · exact golden.revocation_kind_ne
  exact (hfirst.concat hsecond).concat hthird

/-- Chain validation accepts the golden ledger. -/
theorem foldChain_eq : foldChain goldenPlatform .empty (golden.chain.map ValidatedRecord.record) =
    (chainStateFromRecord golden.revocation.record, none) :=
  foldChain_eq_ok.mpr ⟨golden.legal, rfl⟩

theorem digests : golden.chain.map (fun validated => validated.record.recordDigest) =
    [goldenGenesisDigest, goldenEndorsementDigest, goldenRevocationDigest] := by
  rw [← golden.genesis_digest, ← golden.endorsement_digest, ← golden.revocation_digest]
  rfl

/-- The three digests differ. -/
theorem nodup_digests :
    (golden.chain.map fun validated => validated.record.recordDigest).Nodup := by
  rw [golden.digests]
  decide

end GoldenLedger

/-! ### Replaying with the semantic check -/

structure ReplayState where
  chain : ChainState
deriving DecidableEq

variable (platform) in
def apply (state : ReplayState) (record : StructuralRecord) :
    ReplayState × Option ValidationError :=
  match validateEventSemantics platform record.event with
  | .error err => (state, some err)
  | .ok () =>
    match validateChainConsistency platform state.chain record with
    | (_, some err) => (state, some err)
    | (nextChain, none) => (⟨nextChain⟩, none)

theorem apply_eq_ok {state next : ReplayState} {record : StructuralRecord} :
    apply platform state record = (next, none) ↔
      validateEventSemantics platform record.event = .ok () ∧
        validateChainConsistency platform state.chain record = (next.chain, none) := by
  unfold apply
  rcases validateEventSemantics platform record.event with err | _
  · simp
  · rcases validateChainConsistency platform state.chain record with ⟨chain, _ | err⟩
    · cases next
      simp
    · simp

/-- A rejected record leaves the replay where it was. -/
theorem state_of_apply_error {state next : ReplayState} {record : StructuralRecord}
    {err : ValidationError} (h : apply platform state record = (next, some err)) :
    next = state := by
  unfold apply at h
  split at h
  · exact (congrArg Prod.fst h).symm
  · split at h
    · exact (congrArg Prod.fst h).symm
    · cases h

/-- `Apply` on a list is chain validation and the semantic check of every event. -/
theorem applyAll_eq_ok {state final : ReplayState} {records : List StructuralRecord} :
    rangeUntilError (apply platform) state records = (final, none) ↔
      foldChain platform state.chain records = (final.chain, none) ∧
        ∀ record ∈ records, validateEventSemantics platform record.event = .ok () := by
  induction records generalizing state with
  | nil =>
    cases state
    cases final
    simp [foldChain]
  | cons first rest ih =>
    simp only [foldChain] at ih ⊢
    simp only [rangeUntilError_cons_eq_ok, apply_eq_ok, ih, List.forall_mem_cons]
    constructor
    · rintro ⟨next, ⟨hsemantics, hnext⟩, hrest, hall⟩
      exact ⟨⟨next.chain, hnext, hrest⟩, hsemantics, hall⟩
    · rintro ⟨⟨chain, hnext, hrest⟩, hsemantics, hall⟩
      exact ⟨⟨chain⟩, ⟨hsemantics, hnext⟩, hrest, hall⟩

/-- **`Apply` replays no ledger beyond its genesis.**  The semantic check knows one kind
of event, and chain validation wants that kind in the first record only. -/
theorem applyAll_accepts_iff (hcbor : platform.cbor.Conforms)
    (chain : List (ValidatedRecord platform)) :
    (∃ final, rangeUntilError (apply platform) ⟨.empty⟩ (chain.map ValidatedRecord.record) =
        (final, none)) ↔
      chain = [] ∨ ∃ validated, chain = [validated] ∧
        newGenesisEvent platform validated.record.event.ledgerID
          validated.record.event.admittedAtUnixMS = .ok validated.record.event := by
  constructor
  · rintro ⟨final, hall⟩
    obtain ⟨hfold, hsemantics⟩ := applyAll_eq_ok.mp hall
    obtain ⟨hlegal, -⟩ := foldChain_eq_ok.mp hfold
    rcases List.eq_nil_or_concat' chain with rfl | ⟨front, last, rfl⟩
    · exact .inl rfl
    · right
      have hlast := hsemantics last.record (by simp)
      have hevent := last.spec.event
      rcases List.eq_nil_or_concat' front with rfl | ⟨_, previous, rfl⟩
      · exact ⟨last, rfl, (validateEventSemantics_iff_genesis hcbor hevent).mp hlast⟩
      · -- a successor of anything is no genesis event
        rw [List.map_append, List.map_singleton, legalChain_concat] at hlegal
        obtain ⟨-, -, -, hkind⟩ := hlegal.2.successor previous.record (by simp)
        exact absurd (congrArg EventFields.kind (fields_of_validateEventSemantics hevent hlast))
          hkind
  · rintro (rfl | ⟨validated, rfl, hgenesis⟩)
    · exact ⟨⟨.empty⟩, rfl⟩
    · have hsemantics :=
        (validateEventSemantics_iff_genesis hcbor validated.spec.event).mpr hgenesis
      refine ⟨⟨chainStateFromRecord validated.record⟩, ?_⟩
      rw [List.map_singleton]
      refine rangeUntilError_cons_of_ok (apply_eq_ok.mpr ⟨hsemantics, ?_⟩) []
      exact validateChainConsistency_empty.mpr
        ⟨validated.spec.bytes_ne_empty hcbor, hsemantics, rfl⟩

/-! ### Position by position -/

variable (platform) in
/-- A ledger described position by position.  The empty list is one. -/
structure WellFormedChain (chain : List StructuralRecord) : Prop where
  genesis : ∀ first, chain[0]? = some first →
    newGenesisEvent platform first.event.ledgerID first.event.admittedAtUnixMS = .ok first.event
  position : ∀ i first record, chain[0]? = some first → chain[i]? = some record →
    record.event.ledgerID = first.event.ledgerID ∧ record.event.sequence.toNat = i + 1
  successor : ∀ i previous record, chain[i]? = some previous → chain[i + 1]? = some record →
    record.event.kind ≠ eventKindLedgerInitialized ∧
    record.event.predecessor = some previous.recordDigest
  length : chain.length ≤ 2 ^ 64 - 1

theorem getElem?_concat_eq_some {α : Type} {list : List α} {last item : α} {i : Nat} :
    (list ++ [last])[i]? = some item ↔ list[i]? = some item ∨ i = list.length ∧ item = last := by
  grind

section Concat

variable {chain : List StructuralRecord} {record previous first : StructuralRecord}

theorem WellFormedChain.of_concat (h : WellFormedChain platform (chain ++ [record])) :
    WellFormedChain platform chain where
  genesis first hfirst := h.genesis first (getElem?_concat_eq_some.mpr (.inl hfirst))
  position i first item hfirst hitem :=
    h.position i first item (getElem?_concat_eq_some.mpr (.inl hfirst))
      (getElem?_concat_eq_some.mpr (.inl hitem))
  successor i previous item hprevious hitem :=
    h.successor i previous item (getElem?_concat_eq_some.mpr (.inl hprevious))
      (getElem?_concat_eq_some.mpr (.inl hitem))
  length := by
    have hlength := h.length
    rw [List.length_append, List.length_singleton] at hlength
    omega

/-- A record that continues a non-empty chain at its last position. -/
theorem WellFormedChain.concat (h : WellFormedChain platform chain)
    (hprevious : chain.getLast? = some previous)
    (hledger : record.event.ledgerID = previous.event.ledgerID)
    (hsequence : record.event.sequence.toNat = previous.event.sequence.toNat + 1)
    (hlink : record.event.predecessor = some previous.recordDigest)
    (hkind : record.event.kind ≠ eventKindLedgerInitialized) :
    WellFormedChain platform (chain ++ [record]) := by
  obtain ⟨front, rfl⟩ := List.getLast?_eq_some_iff.mp hprevious
  have hindex : (front ++ [previous])[front.length]? = some previous := by simp
  have hlength : (front ++ [previous]).length = front.length + 1 := by simp
  obtain ⟨first, hfirst⟩ : ∃ first, (front ++ [previous])[0]? = some first := by
    cases front <;> simp
  obtain ⟨hledgerPrevious, hsequencePrevious⟩ := h.position _ first previous hfirst hindex
  have hbound := record.event.sequence.toNat_lt
  constructor
  · intro other hother
    rcases getElem?_concat_eq_some.mp hother with hold | ⟨hnew, -⟩
    · exact h.genesis other hold
    · omega
  · intro i other item hother hitem
    have hother : other = first := by
      rcases getElem?_concat_eq_some.mp hother with hold | ⟨hnew, -⟩
      · exact Option.some.inj (hold.symm.trans hfirst)
      · omega
    subst hother
    rcases getElem?_concat_eq_some.mp hitem with hold | ⟨rfl, rfl⟩
    · exact h.position i other item hfirst hold
    · exact ⟨hledger.trans hledgerPrevious, by omega⟩
  · intro i older item holder hitem
    rcases getElem?_concat_eq_some.mp hitem with hold | ⟨hi, rfl⟩
    · have hi := (List.getElem?_eq_some_iff.mp hold).1
      rcases getElem?_concat_eq_some.mp holder with hold' | ⟨hnew, -⟩
      · exact h.successor i older item hold' hold
      · omega
    · have hi : i = front.length := by omega
      subst hi
      rcases getElem?_concat_eq_some.mp holder with hold | ⟨hnew, -⟩
      · cases hindex.symm.trans hold
        exact ⟨hkind, hlink⟩
      · omega
  · rw [List.length_append, List.length_singleton]
    omega

/-- The last two positions of a chain, as one step. -/
theorem WellFormedChain.last_step (h : WellFormedChain platform (chain ++ [record]))
    (hprevious : chain.getLast? = some previous) :
    record.event.ledgerID = previous.event.ledgerID ∧
      record.event.sequence.toNat = previous.event.sequence.toNat + 1 ∧
      record.event.predecessor = some previous.recordDigest ∧
      record.event.kind ≠ eventKindLedgerInitialized := by
  obtain ⟨front, rfl⟩ := List.getLast?_eq_some_iff.mp hprevious
  have hindex : (front ++ [previous] ++ [record])[front.length]? = some previous := by simp
  have hrecord : (front ++ [previous] ++ [record])[front.length + 1]? = some record := by simp
  obtain ⟨first, hfirst⟩ : ∃ first, (front ++ [previous] ++ [record])[0]? = some first := by
    cases front <;> simp
  obtain ⟨hledgerPrevious, hsequencePrevious⟩ := h.position _ first previous hfirst hindex
  obtain ⟨hledger, hsequence⟩ := h.position _ first record hfirst hrecord
  obtain ⟨hkind, hlink⟩ := h.successor _ previous record hindex hrecord
  exact ⟨hledger.trans hledgerPrevious.symm, by omega, hlink, hkind⟩

theorem wellFormedChain_singleton
    (hgenesis : newGenesisEvent platform record.event.ledgerID record.event.admittedAtUnixMS =
      .ok record.event) (hsequence : record.event.sequence = 1) :
    WellFormedChain platform [record] := by
  constructor
  · intro first hfirst
    cases hfirst
    exact hgenesis
  · intro i first item hfirst hitem
    cases hfirst
    obtain ⟨rfl, rfl⟩ : i = 0 ∧ item = record := by grind
    exact ⟨rfl, by rw [hsequence]; rfl⟩
  · grind
  · simp

end Concat

/-- **Legal chains, position by position.** -/
theorem legalChain_iff_wellFormed (hcbor : platform.cbor.Conforms)
    {chain : List StructuralRecord}
    (hvalid : ∀ record ∈ chain, validateRecordStructure platform record.bytes = .ok record) :
    LegalChain platform chain ↔ WellFormedChain platform chain := by
  induction chain using List.reverseRecOn with
  | nil => exact ⟨fun _ => ⟨by simp, by simp, by simp, by simp⟩, fun _ => .nil⟩
  | append_singleton chain record ih =>
    have hspec := (recordSpec_of_validateRecordStructure (hvalid record (by simp))).2
    have hgenesis := validateEventSemantics_iff_genesis hcbor hspec.event
    have hbytes := hspec.bytes_ne_empty hcbor
    have ih := ih fun other hother => hvalid other (List.mem_append_left _ hother)
    rw [legalChain_concat, ih]
    constructor
    · rintro ⟨hchain, hextends⟩
      rcases List.eq_nil_or_concat' chain with rfl | ⟨front, previous, rfl⟩
      · have hsemantics := hextends.genesis rfl
        have hfields := fields_of_validateEventSemantics hspec.event hsemantics
        exact wellFormedChain_singleton (hgenesis.mp hsemantics)
          (congrArg EventFields.sequence hfields)
      · obtain ⟨hledger, hsequence, hlink, hkind⟩ := hextends.successor previous (by simp)
        exact hchain.concat (by simp) hledger hsequence hlink hkind
    · intro h
      refine ⟨h.of_concat, hbytes, ?_, ?_⟩
      · rintro rfl
        exact hgenesis.mpr (h.genesis record rfl)
      · intro previous hprevious
        exact h.last_step hprevious

theorem valid_of_mem_map {records : List (ValidatedRecord platform)} :
    ∀ record ∈ records.map ValidatedRecord.record,
      validateRecordStructure platform record.bytes = .ok record := by
  intro record hrecord
  obtain ⟨validated, -, rfl⟩ := List.mem_map.mp hrecord
  exact validated.valid

/-- Records stand at the position that their sequence number says. -/
theorem LegalChain.sequence_eq (hcbor : platform.cbor.Conforms)
    {chain : List (ValidatedRecord platform)}
    (h : LegalChain platform (chain.map ValidatedRecord.record)) {i : Nat}
    {validated : ValidatedRecord platform} (hi : chain[i]? = some validated) :
    validated.record.event.sequence.toNat = i + 1 := by
  have hwell := (legalChain_iff_wellFormed hcbor valid_of_mem_map).mp h
  have hmapped : (chain.map ValidatedRecord.record)[i]? = some validated.record := by
    rw [List.getElem?_map, hi, Option.map_some]
  obtain ⟨first, hfirst⟩ : ∃ first, (chain.map ValidatedRecord.record)[0]? = some first := by
    cases chain with
    | nil => cases hi
    | cons first rest => exact ⟨first.record, rfl⟩
  exact (hwell.position i first validated.record hfirst hmapped).2

/-- The chain state counts the records. -/
theorem LegalChain.lastSequence_eq (hcbor : platform.cbor.Conforms)
    {chain : List (ValidatedRecord platform)}
    (h : LegalChain platform (chain.map ValidatedRecord.record)) :
    (chainStateAfter (chain.map ValidatedRecord.record)).lastSequence.toNat = chain.length := by
  rcases List.eq_nil_or_concat' chain with rfl | ⟨front, last, rfl⟩
  · rfl
  · have hbytes := h.bytes_ne_empty last.record (by simp)
    have hsequence := h.sequence_eq hcbor (getElem?_concat_eq_some.mpr (.inr ⟨rfl, rfl⟩))
    simp [chainStateAfter, chainStateFromRecord_of_nonempty hbytes, hsequence]

/-- In a list of one ledger that is numbered from one, only the genesis event and the
links are left to check. -/
theorem wellFormedChain_iff_of_position {chain : List (ValidatedRecord platform)}
    {ledgerID : LedgerID}
    (hposition : ∀ i record, (chain.map ValidatedRecord.record)[i]? = some record →
      record.event.ledgerID = ledgerID ∧ record.event.sequence.toNat = i + 1)
    (hlength : chain.length ≤ 2 ^ 64 - 1) :
    WellFormedChain platform (chain.map ValidatedRecord.record) ↔
      (∀ first, chain[0]? = some first →
        newGenesisEvent platform ledgerID first.record.event.admittedAtUnixMS =
          .ok first.record.event) ∧
      (∀ i previous next, chain[i]? = some previous → chain[i + 1]? = some next →
        next.record.event.kind ≠ eventKindLedgerInitialized ∧
        next.record.event.predecessor = some previous.record.recordDigest) := by
  constructor
  · intro h
    constructor
    · intro first hfirst
      have hmapped : (chain.map ValidatedRecord.record)[0]? = some first.record := by
        rw [List.getElem?_map, hfirst, Option.map_some]
      rw [← (hposition 0 first.record hmapped).1]
      exact h.genesis first.record hmapped
    · intro i previous next hprevious hnext
      apply h.successor i previous.record next.record
      · rw [List.getElem?_map, hprevious, Option.map_some]
      · rw [List.getElem?_map, hnext, Option.map_some]
  · rintro ⟨hgenesis, hsuccessor⟩
    constructor
    · intro first hfirst
      rw [(hposition 0 first hfirst).1]
      rw [List.getElem?_map, Option.map_eq_some_iff] at hfirst
      obtain ⟨validated, hvalidated, rfl⟩ := hfirst
      exact hgenesis validated hvalidated
    · intro i first record hfirst hrecord
      rw [(hposition 0 first hfirst).1]
      exact hposition i record hrecord
    · intro i previous record hprevious hrecord
      rw [List.getElem?_map, Option.map_eq_some_iff] at hprevious hrecord
      obtain ⟨before, hbefore, rfl⟩ := hprevious
      obtain ⟨after, hafter, rfl⟩ := hrecord
      exact hsuccessor i before after hbefore hafter
    · rw [List.length_map]
      exact hlength

theorem foldChain_accepts_iff (hcbor : platform.cbor.Conforms)
    {records : List (ValidatedRecord platform)} :
    (foldChain platform .empty (records.map ValidatedRecord.record)).2 = none ↔
      WellFormedChain platform (records.map ValidatedRecord.record) := by
  rw [← legalChain_iff_wellFormed hcbor valid_of_mem_map]
  constructor
  · intro hfold
    exact (foldChain_eq_ok.mp (Prod.ext rfl hfold)).1
  · intro hlegal
    rw [foldChain_eq_ok.mpr ⟨hlegal, rfl⟩]

/-- **Chain consistency accepts exactly the well-formed chains.**  On success the
final state is that of the last record, and a rejected record leaves the state
as it was. -/
theorem foldChain_iff_wellFormed (platform : Platform) (hcbor : platform.cbor.Conforms)
    (records : List (ValidatedRecord platform)) :
    ((foldChain platform .empty (records.map ValidatedRecord.record)).2 = none ↔
      records = [] ∨ WellFormedChain platform (records.map ValidatedRecord.record)) ∧
    (∀ last final, records.getLast? = some last →
      foldChain platform .empty (records.map ValidatedRecord.record) = (final, none) →
      final = chainStateFromRecord last.record) ∧
    (∀ state record next err,
      validateChainConsistency platform state record = (next, some err) → next = state) := by
  refine ⟨?_, ?_, ?_⟩
  · constructor
    · intro hfold
      exact Or.inr ((foldChain_accepts_iff hcbor).mp hfold)
    · rintro (rfl | hchain)
      · rfl
      · exact (foldChain_accepts_iff hcbor).mpr hchain
  · intro last final hlast hfold
    obtain ⟨-, rfl⟩ := foldChain_eq_ok.mp hfold
    simp [chainStateAfter, List.getLast?_map, hlast]
  · intro state record next err
    exact state_of_validateChainConsistency_error

/-- The golden ledger is well-formed, and its state is that of the revocation. -/
theorem goldenLedger_wellFormed :
    ∃ (golden : GoldenLedger) (final : ChainState),
      foldChain goldenPlatform .empty (golden.chain.map ValidatedRecord.record) = (final, none) ∧
      WellFormedChain goldenPlatform (golden.chain.map ValidatedRecord.record) ∧
      final = chainStateFromRecord golden.revocation.record := by
  obtain ⟨golden⟩ := goldenLedger_evaluates
  obtain ⟨haccepts, hfinal, -⟩ :=
    foldChain_iff_wellFormed goldenPlatform goldenPlatform_conforms golden.chain
  have hfold := golden.foldChain_eq
  have hwell := haccepts.mp (congrArg Prod.snd hfold)
  exact ⟨golden, _, hfold, hwell.resolve_left (by simp [GoldenLedger.chain]),
    hfinal golden.revocation _ rfl hfold⟩

/-! ### Tamper evidence -/

/-- A legal chain is a hash chain over record digests. -/
theorem LegalChain.linked {chain : List (ValidatedRecord platform)}
    (h : LegalChain platform (chain.map ValidatedRecord.record)) :
    Linked (fun validated : ValidatedRecord platform => validated.record.recordDigest)
      (fun validated => validated.record.event.predecessor) chain := by
  induction chain using List.reverseRecOn with
  | nil => exact linked_nil
  | append_singleton chain validated ih =>
    rw [List.map_append, List.map_singleton, legalChain_concat] at h
    obtain ⟨hchain, hextends⟩ := h
    refine linked_concat.mpr ⟨ih hchain, ?_⟩
    rcases List.eq_nil_or_concat' chain with rfl | ⟨front, previous, rfl⟩
    · have hfields := fields_of_validateEventSemantics validated.spec.event (hextends.genesis rfl)
      exact congrArg EventFields.previousRecordDigest hfields
    · rw [(hextends.successor previous.record (by simp)).2.2.1]
      simp

/-- The record digest covers every byte of a validated record. -/
theorem ValidatedRecord.eq_of_recordBodyBytes_eq {left right : ValidatedRecord platform}
    (h : left.record.recordBodyBytes = right.record.recordBodyBytes) : left = right := by
  have houter := left.spec.outer
  rw [left.spec.recordDigest, h, ← right.spec.recordDigest, right.spec.outer] at houter
  have hbytes : left.record.bytes = right.record.bytes := (Option.some.inj houter).symm
  have hvalid := left.valid
  rw [hbytes, right.valid] at hvalid
  exact ValidatedRecord.ext (Except.ok.inj hvalid).symm

/-- The preimages of the record digests in a list. -/
def recordDigestPreimages (records : List (ValidatedRecord platform)) : Set Bytes :=
  { preimage | ∃ validated ∈ records,
    preimage = domainSeparated domainRecordDigestV1 validated.record.recordBodyBytes }

theorem binding_of_noCollision {left right : List (ValidatedRecord platform)}
    (h : platform.NoCollision (recordDigestPreimages (left ++ right))) :
    Binding (fun validated : ValidatedRecord platform => validated.record.recordDigest)
      left right := by
  intro first hfirst second hsecond hequal
  have hdigest : first.record.recordDigest = second.record.recordDigest := hequal
  have hfirst : first ∈ left ++ right := List.mem_append_left _ hfirst
  have hsecond : second ∈ left ++ right := List.mem_append_right _ hsecond
  rw [first.spec.recordDigest, second.spec.recordDigest] at hdigest
  have hpreimage := h ⟨first, hfirst, rfl⟩ ⟨second, hsecond, rfl⟩ hdigest
  exact ValidatedRecord.eq_of_recordBodyBytes_eq (domainSeparated_injective _ hpreimage)

/-- **Tamper evidence.**  Two accepted lists with the same final digest are the
same records, byte for byte. -/
theorem eq_of_foldChain_digest_eq (platform : Platform)
    (left right : List (ValidatedRecord platform)) (hleft : left ≠ []) (hright : right ≠ [])
    (leftFinal rightFinal : ChainState)
    (hleftFold : foldChain platform .empty (left.map ValidatedRecord.record) = (leftFinal, none))
    (hrightFold :
      foldChain platform .empty (right.map ValidatedRecord.record) = (rightFinal, none))
    (hcollision : platform.NoCollision (recordDigestPreimages (left ++ right)))
    (hdigest : leftFinal.lastRecordDigest = rightFinal.lastRecordDigest) :
    left.length = right.length ∧ left = right := by
  obtain ⟨hleftLegal, rfl⟩ := foldChain_eq_ok.mp hleftFold
  obtain ⟨hrightLegal, rfl⟩ := foldChain_eq_ok.mp hrightFold
  obtain ⟨leftFront, first, rfl⟩ := (List.eq_nil_or_concat' left).resolve_left hleft
  obtain ⟨rightFront, second, rfl⟩ := (List.eq_nil_or_concat' right).resolve_left hright
  have hfirst := hleftLegal.bytes_ne_empty first.record (by simp)
  have hsecond := hrightLegal.bytes_ne_empty second.record (by simp)
  have hlast : first.record.recordDigest = second.record.recordDigest := by
    simpa [chainStateAfter, chainStateFromRecord_of_nonempty hfirst,
      chainStateFromRecord_of_nonempty hsecond] using hdigest
  have heq := eq_of_last_id_eq hleftLegal.linked hrightLegal.linked
    (binding_of_noCollision hcollision) (by simpa using hlast)
  exact ⟨congrArg List.length heq, heq⟩

/-- Validated records with the same field values are the same record. -/
theorem ValidatedRecord.eq_of_fields_eq {left right : ValidatedRecord platform}
    (h : left.record.fields = right.record.fields) : left = right := by
  have hleft := rebuildRecord_of_validate left.valid
  rw [h, rebuildRecord_of_validate right.valid] at hleft
  exact ValidatedRecord.ext (Except.ok.inj hleft).symm

/-- Where the digests of a list differ, no two of its preimages collide. -/
theorem noCollision_of_nodup {records : List (ValidatedRecord platform)}
    (h : (records.map fun validated => validated.record.recordDigest).Nodup) :
    platform.NoCollision (recordDigestPreimages (records ++ records)) := by
  rintro _ ⟨first, hfirst, rfl⟩ _ ⟨second, hsecond, rfl⟩ hequal
  rw [List.mem_append, or_self] at hfirst hsecond
  have hdigests : first.record.recordDigest = second.record.recordDigest := by
    rw [first.spec.recordDigest, second.spec.recordDigest]
    exact hequal
  rw [List.inj_on_of_nodup_map h hfirst hsecond hdigests]

/-- The golden ledger built from its field values, and the one read from its bytes. -/
theorem goldenLedger_tamperEvident :
    ∃ (built read : List (ValidatedRecord goldenPlatform)) (builtFinal readFinal : ChainState),
      built.map (fun validated => validated.record.fields) =
        [goldenGenesisFields, goldenEndorsementFields, goldenRevocationFields] ∧
      read.map (fun validated => validated.record.bytes) =
        [goldenGenesisRecord, goldenEndorsementRecord, goldenRevocationRecord] ∧
      foldChain goldenPlatform .empty (built.map ValidatedRecord.record) = (builtFinal, none) ∧
      foldChain goldenPlatform .empty (read.map ValidatedRecord.record) = (readFinal, none) ∧
      builtFinal.lastRecordDigest = goldenRevocationDigest ∧
      readFinal.lastRecordDigest = goldenRevocationDigest ∧
      built.length = read.length ∧ built = read := by
  obtain ⟨golden⟩ := goldenLedger_evaluates
  -- the same values can be built again
  obtain ⟨first, hfirst⟩ := exists_validatedRecord goldenPlatform_conforms
    (golden.genesis.inDomain goldenPlatform_conforms)
  obtain ⟨second, hsecond⟩ := exists_validatedRecord goldenPlatform_conforms
    (golden.endorsement.inDomain goldenPlatform_conforms)
  obtain ⟨third, hthird⟩ := exists_validatedRecord goldenPlatform_conforms
    (golden.revocation.inDomain goldenPlatform_conforms)
  have hsame : [first, second, third] = golden.chain := by
    rw [ValidatedRecord.eq_of_fields_eq hfirst, ValidatedRecord.eq_of_fields_eq hsecond,
      ValidatedRecord.eq_of_fields_eq hthird]
    rfl
  have hbuilt : foldChain goldenPlatform .empty
      ([first, second, third].map ValidatedRecord.record) = _ := hsame ▸ golden.foldChain_eq
  have hfinal : (chainStateFromRecord golden.revocation.record).lastRecordDigest =
      goldenRevocationDigest := by
    rw [chainStateFromRecord_of_nonempty
      (golden.revocation.spec.bytes_ne_empty goldenPlatform_conforms)]
    exact golden.revocation_digest
  have hcollision : goldenPlatform.NoCollision
      (recordDigestPreimages ([first, second, third] ++ golden.chain)) := by
    rw [hsame]
    exact noCollision_of_nodup golden.nodup_digests
  refine ⟨[first, second, third], golden.chain, _, _, ?_, ?_, hbuilt, golden.foldChain_eq, hfinal,
    hfinal, eq_of_foldChain_digest_eq goldenPlatform [first, second, third] golden.chain (by simp)
      (by simp [GoldenLedger.chain]) _ _ hbuilt golden.foldChain_eq hcollision rfl⟩
  · rw [← golden.genesis_fields, ← golden.endorsement_fields, ← golden.revocation_fields, hsame]
    rfl
  · rw [← golden.genesis_bytes, ← golden.endorsement_bytes, ← golden.revocation_bytes]
    rfl

end AttributionChain.Ledger

import AttributionChain.Admission
import AttributionChain.Histories

/-!
# Runs of the admission service

Any number of clients, any interleaving of their queries.  No lock protects the
head that a call reads, so the record it appends may follow a record that is no
longer the last one.  What keeps every ledger a chain is that positions are
unique: the record after a stored record has a position of its own, and that
position is free only while the stored record is the last one
(`getLast?_of_admits`).

`Sound` lists the phases that a call can be in, with what is known about its
pending record.  `Consistent` is the invariant of the system: every ledger is a
legal chain and every call is sound.  `consistent_of_reaches` holds it along every
run, and `noFork` reads the guarantees off it.
-/

namespace AttributionChain.Admission

open Cbor Ledger Endorsement Store Histories

variable {platform : Platform} {table : Table} {ledgerID : LedgerID}
  {chain : List (ValidatedRecord platform)} {validated : ValidatedRecord platform}

/-! ### Growing a stored chain -/

variable (platform) in
/-- Every ledger in the table is a legal chain. -/
def Chained (table : Table) : Prop :=
  ∀ ledgerID, ∃ chain : List (ValidatedRecord platform), table.Holds platform ledgerID chain ∧
    LegalChain platform (chain.map ValidatedRecord.record)

/-- A position that an admitted row takes is not taken in the chain. -/
theorem sequence_ne_of_admits (hholds : table.Holds platform ledgerID chain)
    (hledger : validated.record.event.ledgerID = ledgerID)
    (hadmits : table.Admits (rowOfRecord validated.record)) {stored : ValidatedRecord platform}
    (hstored : stored ∈ chain) :
    stored.record.event.sequence ≠ validated.record.event.sequence := by
  intro hequal
  have hrow : rowOfRecord stored.record ∈ table.ledgerRows ledgerID := by
    rw [hholds]
    exact List.mem_map_of_mem hstored
  apply hadmits.position _ (mem_ledgerRows.mp hrow).1
  exact Prod.ext ((hholds.ledgerID_eq hstored).trans hledger.symm) hequal

/-- A genesis record is admitted only into an empty ledger. -/
theorem eq_nil_of_admits (hcbor : platform.cbor.Conforms)
    (hholds : table.Holds platform ledgerID chain)
    (hlegal : LegalChain platform (chain.map ValidatedRecord.record))
    (hledger : validated.record.event.ledgerID = ledgerID)
    (hfirst : validated.record.event.sequence = 1)
    (hadmits : table.Admits (rowOfRecord validated.record)) : chain = [] := by
  cases chain with
  | nil => rfl
  | cons first rest =>
    have hsequence : first.record.event.sequence.toNat = 0 + 1 :=
      hlegal.sequence_eq hcbor rfl
    refine absurd ?_ (sequence_ne_of_admits hholds hledger hadmits (List.mem_cons_self ..))
    rw [hfirst]
    exact UInt64.toNat_inj.mp hsequence

/-- **Why a stale head does no harm.**  A record that follows a stored record is
admitted only while that record is the last one. -/
theorem getLast?_of_admits (hcbor : platform.cbor.Conforms)
    (hholds : table.Holds platform ledgerID chain)
    (hlegal : LegalChain platform (chain.map ValidatedRecord.record))
    (hledger : validated.record.event.ledgerID = ledgerID) {stored : ValidatedRecord platform}
    (hstored : stored ∈ chain)
    (hnext : validated.record.event.sequence.toNat = stored.record.event.sequence.toNat + 1)
    (hadmits : table.Admits (rowOfRecord validated.record)) : chain.getLast? = some stored := by
  obtain ⟨i, hi⟩ := List.mem_iff_getElem?.mp hstored
  have hsequence := hlegal.sequence_eq hcbor hi
  have hbound := (List.getElem?_eq_some_iff.mp hi).1
  by_cases hend : i + 1 = chain.length
  · rw [List.getLast?_eq_getElem?, ← hend, Nat.add_sub_cancel, hi]
  · -- otherwise the record after it already has the new record's position
    obtain ⟨after, hafter⟩ : ∃ after, chain[i + 1]? = some after :=
      ⟨_, List.getElem?_eq_getElem (by omega)⟩
    have htaken := hlegal.sequence_eq hcbor hafter
    refine absurd ?_ (sequence_ne_of_admits hholds hledger hadmits (List.mem_of_getElem? hafter))
    exact UInt64.toNat_inj.mp (by omega)

/-- A genesis record that is admitted starts its ledger. -/
theorem extends_of_genesis (hcbor : platform.cbor.Conforms)
    (hholds : table.Holds platform validated.record.event.ledgerID chain)
    (hlegal : LegalChain platform (chain.map ValidatedRecord.record)) {nowMS : UInt64}
    (hfields : validated.record.event.fields = genesisFields ledgerID nowMS)
    (hadmits : table.Admits (rowOfRecord validated.record)) :
    Extends platform (chain.map ValidatedRecord.record) validated.record := by
  have hempty : chain = [] := eq_nil_of_admits hcbor hholds hlegal rfl
    (congrArg EventFields.sequence hfields) hadmits
  rw [hempty]
  exact (legalChain_concat.mp (legalChain_singleton hcbor hfields)).2

/-- A row that a record was built on. -/
structure Follows (stored : Row) (record : StructuralRecord) : Prop where
  ledgerID : stored.ledgerID = record.event.ledgerID
  sequence : record.event.sequence.toNat = stored.sequenceNumber.toNat + 1
  predecessor : record.event.predecessor = some stored.recordDigest

/-- A successor of a stored record that is admitted continues its ledger. -/
theorem extends_of_follows (hcbor : platform.cbor.Conforms)
    (hholds : table.Holds platform validated.record.event.ledgerID chain)
    (hlegal : LegalChain platform (chain.map ValidatedRecord.record))
    {stored : Row} (hstored : stored ∈ table.rows) (hfollows : Follows stored validated.record)
    (hkind : validated.record.event.kind ≠ eventKindLedgerInitialized)
    (hadmits : table.Admits (rowOfRecord validated.record)) :
    Extends platform (chain.map ValidatedRecord.record) validated.record := by
  obtain ⟨previous, hprevious, rfl⟩ := hholds.exists_of_mem hstored hfollows.ledgerID
  have hlast := getLast?_of_admits hcbor hholds hlegal rfl hprevious hfollows.sequence hadmits
  refine ⟨validated.spec.bytes_ne_empty hcbor, ?_, ?_⟩
  · intro hempty
    rw [List.map_eq_nil_iff.mp hempty] at hlast
    cases hlast
  · intro other hother
    rw [List.getLast?_map, hlast] at hother
    cases hother
    exact ⟨hfollows.ledgerID.symm, hfollows.sequence, hfollows.predecessor, hkind⟩

/-- A record that extends a stored chain is stored at its end. -/
theorem holds_add_of_extends (hcbor : platform.cbor.Conforms)
    (hholds : table.Holds platform validated.record.event.ledgerID chain)
    (hlegal : LegalChain platform (chain.map ValidatedRecord.record))
    (hextends : Extends platform (chain.map ValidatedRecord.record) validated.record)
    (hadmits : table.Admits (rowOfRecord validated.record)) :
    (table.add (rowOfRecord validated.record) hadmits).Holds platform
        validated.record.event.ledgerID (chain ++ [validated]) ∧
      LegalChain platform ((chain ++ [validated]).map ValidatedRecord.record) := by
  have hgrown : LegalChain platform ((chain ++ [validated]).map ValidatedRecord.record) := by
    rw [List.map_append, List.map_singleton]
    exact .concat hlegal hextends
  refine ⟨hholds.add_last rfl ?_ hadmits, hgrown⟩
  -- positions are sequence numbers, and the new record has the last position
  intro stored hstored
  obtain ⟨i, hi⟩ := List.mem_iff_getElem?.mp hstored
  have hbound := (List.getElem?_eq_some_iff.mp hi).1
  have hstoredSequence := hlegal.sequence_eq hcbor hi
  have hnewSequence := hgrown.sequence_eq hcbor
    (getElem?_concat_eq_some.mpr (.inr ⟨rfl, rfl⟩))
  omega

/-! ### The phases of a call -/

variable (platform) in
/-- The request to `Admit` that a call comes down to. -/
inductive Asks : Request → AdmitRequest → Prop
  | admitEvent (req : AdmitRequest) : Asks (.admitEvent req) req
  | endorsement {ledgerID : LedgerID} {payload : EndorsementAcceptedPayload} {encoded : Bytes}
      (hverify : payload.verify platform = .ok ())
      (hencode : payload.encode platform = .ok encoded) :
      Asks (.admitEndorsement ledgerID (some payload))
        ⟨ledgerID, eventKindEndorsementAccepted, payloadVersionV1, some encoded⟩
  | revocation {ledgerID : LedgerID} {payload : EndorsementRevokedPayload} {encoded : Bytes}
      (hverify : payload.verify platform = .ok ())
      (hencode : payload.encode platform = .ok encoded) :
      Asks (.admitRevocation ledgerID (some payload))
        ⟨ledgerID, eventKindEndorsementRevoked, payloadVersionV1, some encoded⟩

variable (platform) in
/-- The phases that a call can be in, and what is known there. -/
inductive Sound (table : Table) : Request → Phase → Prop
  | initHead (ledgerID : LedgerID) : Sound table (.initLedger ledgerID) (.initHead ledgerID)
  | initAppend {ledgerID : LedgerID} {nowMS : UInt64} {validated : ValidatedRecord platform}
      (hfields : validated.record.event.fields = genesisFields ledgerID nowMS) :
      Sound table (.initLedger ledgerID) (.initAppend validated.record)
  | initReturned {ledgerID : LedgerID} {nowMS : UInt64} {validated : ValidatedRecord platform}
      (hfields : validated.record.event.fields = genesisFields ledgerID nowMS)
      (hstored : rowOfRecord validated.record ∈ table.rows) :
      Sound table (.initLedger ledgerID) (.returned (.ok validated.record))
  | admitHead {request : Request} {req : AdmitRequest} {attempt : Nat}
      (hasks : Asks platform request req) : Sound table request (.admitHead req attempt)
  | admitAppend {request : Request} {req : AdmitRequest} {attempt : Nat} {head : ChainState}
      {nowMS : UInt64} {validated : ValidatedRecord platform} {stored : Row}
      (hasks : Asks platform request req)
      (hfields : validated.record.event.fields = continuationFields req head nowMS)
      (hstored : stored ∈ table.rows) (hfollows : Follows stored validated.record) :
      Sound table request (.admitAppend req attempt validated.record)
  | admitReread {request : Request} {req : AdmitRequest} {record : StructuralRecord}
      (hasks : Asks platform request req) : Sound table request (.admitReread record)
  | admitReturned {request : Request} {req : AdmitRequest} {record : StructuralRecord}
      (hasks : Asks platform request req) : Sound table request (.returned (.ok record))
  | failed {request : Request} {err : ServiceError} : Sound table request (.returned (.error err))

variable {request : Request} {req : AdmitRequest} {phase nextPhase : Phase} {later : Table}
  {maxRetries : Int64}

theorem Sound.mono (h : Sound platform table request phase)
    (hrows : ∀ row ∈ table.rows, row ∈ later.rows) : Sound platform later request phase := by
  cases h with
  | initHead ledgerID => exact .initHead ledgerID
  | initAppend hfields => exact .initAppend hfields
  | initReturned hfields hstored => exact .initReturned hfields (hrows _ hstored)
  | admitHead hasks => exact .admitHead hasks
  | admitAppend hasks hfields hstored hfollows =>
    exact .admitAppend hasks hfields (hrows _ hstored) hfollows
  | admitReread hasks => exact .admitReread hasks
  | admitReturned hasks => exact .admitReturned hasks
  | failed => exact .failed

/-- **A call up to its first query**: it initializes a ledger, has failed before it came
to `Admit`, or makes its first attempt. -/
theorem startCall_cases (platform : Platform) (maxRetries : Int64) (request : Request) :
    (∃ ledgerID, request = .initLedger ledgerID ∧
      startCall platform maxRetries request = .initHead ledgerID) ∨
    (∃ err, err.BeforeAppend ∧
      startCall platform maxRetries request = .returned (.error err)) ∨
    ∃ req, Asks platform request req ∧ req.payloadBytes.len ≠ 0 ∧
      startCall platform maxRetries request = admitAttempt maxRetries req 0 := by
  have hevent : ∀ req, Asks platform request req →
      (∃ err, err.BeforeAppend ∧ admitEvent maxRetries req = .returned (.error err)) ∨
      ∃ other, Asks platform request other ∧ other.payloadBytes.len ≠ 0 ∧
        admitEvent maxRetries req = admitAttempt maxRetries other 0 := by
    intro req hasks
    unfold admitEvent
    by_cases hempty : req.payloadBytes.len = 0
    · exact .inl ⟨.emptyPayload, trivial, if_pos hempty⟩
    · exact .inr ⟨req, hasks, hempty, if_neg hempty⟩
  cases request with
  | initLedger ledgerID => exact .inl ⟨ledgerID, rfl, rfl⟩
  | admitEvent req => exact .inr (hevent req (.admitEvent req))
  | admitEndorsement ledgerID payload =>
    right
    cases payload with
    | none => exact .inl ⟨.nilEndorsement, trivial, rfl⟩
    | some payload =>
      simp only [startCall, admitEndorsement, admitPayload]
      rcases hverify : payload.verify platform with failure | _
      · exact .inl ⟨.verifyEndorsement failure, trivial, rfl⟩
      · rcases hencode : payload.encode platform with failure | encoded
        · exact .inl ⟨.encodeEndorsement failure, trivial, rfl⟩
        · exact hevent _ (.endorsement hverify hencode)
  | admitRevocation ledgerID payload =>
    right
    cases payload with
    | none => exact .inl ⟨.nilRevocation, trivial, rfl⟩
    | some payload =>
      simp only [startCall, admitRevocation, admitPayload]
      rcases hverify : payload.verify platform with failure | _
      · exact .inl ⟨.verifyRevocation failure, trivial, rfl⟩
      · rcases hencode : payload.encode platform with failure | encoded
        · exact .inl ⟨.encodeRevocation failure, trivial, rfl⟩
        · exact hevent _ (.revocation hverify hencode)

theorem admitAttempt_cases (maxRetries : Int64) (req : AdmitRequest) (attempt : Nat) :
    admitAttempt maxRetries req attempt = .admitHead req attempt ∨
      admitAttempt maxRetries req attempt = .returned (.error (.retriesExceeded maxRetries)) := by
  unfold admitAttempt
  split
  · exact .inl rfl
  · exact .inr rfl

theorem sound_admitAttempt (hasks : Asks platform request req) (attempt : Nat) :
    Sound platform table request (admitAttempt maxRetries req attempt) := by
  rcases admitAttempt_cases maxRetries req attempt with hphase | hphase
  · rw [hphase]
    exact .admitHead hasks
  · rw [hphase]
    exact .failed

/-- A call is sound when it starts. -/
theorem sound_startCall (request : Request) :
    Sound platform table request (startCall platform maxRetries request) := by
  rcases startCall_cases platform maxRetries request with ⟨ledgerID, rfl, hphase⟩ |
    ⟨err, -, hphase⟩ | ⟨req, hasks, -, hphase⟩
  · rw [hphase]
    exact .initHead ledgerID
  · rw [hphase]
    exact .failed
  · rw [hphase]
    exact sound_admitAttempt hasks 0

/-- Rows are only ever added. -/
theorem Advances.rows_subset (h : Advances platform table maxRetries phase later nextPhase) :
    ∀ row ∈ table.rows, row ∈ later.rows := by
  intro row hrow
  rcases h.table_cases with rfl | ⟨record, -, hadmits, rfl⟩
  · exact hrow
  · exact List.mem_append_left _ hrow

/-- A call stays sound through its query. -/
theorem Sound.advances (hcbor : platform.cbor.Conforms) (hchained : Chained platform table)
    (h : Sound platform table request phase)
    (hadvances : Advances platform table maxRetries phase later nextPhase) :
    Sound platform later request nextPhase := by
  cases hadvances with
  | @initHead ledgerID queryFails stamp =>
    cases h with
    | initHead =>
      rcases initAfterHead_cases platform ledgerID (query queryFails (head platform table ledgerID))
        stamp with ⟨err, hphase⟩ | ⟨record, hrecord, hphase⟩
      · rw [hphase]
        exact .failed
      · rw [hphase]
        obtain ⟨validated, rfl, hfields⟩ := genesisRecord_eq_ok hcbor hrecord
        exact .initAppend hfields
  | @admitHead req attempt queryFails stamp =>
    cases h with
    | admitHead hasks =>
      rcases admitAfterHead_cases platform req attempt
        (query queryFails (head platform table req.ledgerID)) stamp with
        ⟨err, -, hphase⟩ | ⟨state, record, hread, hinitialized, hrecord, hphase⟩
      · rw [hphase]
        exact .failed
      · rw [hphase]
        -- the head is the last record of the stored chain, which the new one follows
        obtain ⟨chain, hholds, hlegal⟩ := hchained req.ledgerID
        obtain ⟨last, hmem, -, -, hledger, hsequence, hlink, -⟩ := follows_of_continuationRecord
          hcbor hholds hlegal (query_eq_ok.mp hread).2 hinitialized hrecord
        have hrow : rowOfRecord last.record ∈ table.ledgerRows req.ledgerID := by
          rw [hholds]
          exact List.mem_map_of_mem hmem
        obtain ⟨validated, rfl, hfields⟩ := continuationRecord_eq_ok hcbor hrecord
        exact .admitAppend hasks hfields (mem_ledgerRows.mp hrow).1
          ⟨hledger.symm, hsequence, hlink⟩
  | @initAppend _ outcome _ err happend =>
    cases h with
    | initAppend hfields =>
      rcases err with _ | err
      · rcases appendWith_cases happend with ⟨-, hfailed⟩ | ⟨⟨hadmits, rfl⟩, -⟩
        · exact absurd rfl hfailed
        · exact .initReturned hfields (List.mem_append_right _ (List.mem_singleton_self _))
      · cases err <;> exact .failed
  | @admitAppend _ attempt _ outcome contextDone _ err happend =>
    cases h with
    | admitAppend hasks =>
      rcases admitAfterAppend_cases maxRetries _ attempt _ contextDone err with ⟨-, hphase⟩ |
        ⟨-, hphase⟩ | ⟨-, hphase⟩ | ⟨failure, -, hphase⟩
      · rw [hphase]
        exact .admitReturned hasks
      · rw [hphase]
        exact .admitReread hasks
      · rw [hphase]
        exact sound_admitAttempt hasks _
      · rw [hphase]
        exact .failed
  | reread =>
    cases h with
    | admitReread hasks =>
      obtain ⟨found, hphase⟩ := exists_admitAfterReread _ _
      rw [hphase]
      exact .admitReturned hasks

/-! ### The invariant of the system -/

/-- The call initialized a ledger. -/
def Call.Initialized (call : Call) (ledgerID : LedgerID) : Prop :=
  call.request = .initLedger ledgerID ∧ ∃ record, call.phase = .returned (.ok record)

variable (platform) in
structure Consistent (system : System) : Prop where
  chained : Chained platform system.table
  sound : ∀ call ∈ system.calls, Sound platform system.table call.request call.phase
  kinds : ∀ call ∈ system.calls, ∀ req, Asks platform call.request req →
    req.eventKind ≠ eventKindLedgerInitialized
  initOnce : ∀ (ledgerID : LedgerID) (i j : Nat) (left right : Call),
    system.calls[i]? = some left → system.calls[j]? = some right →
    left.Initialized ledgerID → right.Initialized ledgerID → i = j

/-- The action is not a call of `Admit` for a second genesis. -/
def NoSecondGenesis (_ : System) (action : Action) : Prop :=
  ∀ req maxRetries, action = .start (.admitEvent req) maxRetries →
    req.eventKind ≠ eventKindLedgerInitialized

variable {system next : System} {action : Action}

theorem consistent_initial (platform : Platform) : Consistent platform .initial where
  chained ledgerID := ⟨[], holds_empty ledgerID, .nil⟩
  sound call hcall := by cases hcall
  kinds call hcall := by cases hcall
  initOnce ledgerID i j left right hleft := by simp [System.initial] at hleft

theorem kind_of_asks (hasks : Asks platform request req)
    (hevent : ∀ other, request = .admitEvent other → other.eventKind ≠ eventKindLedgerInitialized) :
    req.eventKind ≠ eventKindLedgerInitialized := by
  cases hasks with
  | admitEvent => exact hevent req rfl
  | endorsement => exact show eventKindEndorsementAccepted ≠ eventKindLedgerInitialized by decide
  | revocation => exact show eventKindEndorsementRevoked ≠ eventKindLedgerInitialized by decide

/-- **A pending record that is admitted extends its ledger.** -/
theorem Sound.extends_of_admits (hcbor : platform.cbor.Conforms)
    (hsound : Sound platform table request phase)
    (hkinds : ∀ req, Asks platform request req → req.eventKind ≠ eventKindLedgerInitialized)
    {record : StructuralRecord} (hpending : phase.pending = some record)
    (hadmits : table.Admits (rowOfRecord record))
    (hholds : table.Holds platform record.event.ledgerID chain)
    (hlegal : LegalChain platform (chain.map ValidatedRecord.record)) :
    ∃ validated : ValidatedRecord platform, validated.record = record ∧
      Extends platform (chain.map ValidatedRecord.record) record := by
  cases hsound with
  | initAppend hfields =>
    cases hpending
    exact ⟨_, rfl, extends_of_genesis hcbor hholds hlegal hfields hadmits⟩
  | @admitAppend _ req _ _ _ validated _ hasks hfields hstored hfollows =>
    cases hpending
    have hkind : validated.record.event.kind = req.eventKind := congrArg EventFields.kind hfields
    exact ⟨validated, rfl, extends_of_follows hcbor hholds hlegal hstored hfollows
      (hkind ▸ hkinds req hasks) hadmits⟩
  | _ => cases hpending

/-- Storing a pending record keeps every ledger a chain. -/
theorem Chained.advances (hcbor : platform.cbor.Conforms) (hchained : Chained platform table)
    (hsound : Sound platform table request phase)
    (hkinds : ∀ req, Asks platform request req → req.eventKind ≠ eventKindLedgerInitialized)
    (hadvances : Advances platform table maxRetries phase later nextPhase) :
    Chained platform later := by
  rcases hadvances.table_cases with rfl | ⟨record, hpending, hadmits, rfl⟩
  · exact hchained
  · intro ledgerID
    by_cases hledger : record.event.ledgerID = ledgerID
    · subst hledger
      obtain ⟨chain, hholds, hlegal⟩ := hchained record.event.ledgerID
      obtain ⟨validated, rfl, hextends⟩ :=
        hsound.extends_of_admits hcbor hkinds hpending hadmits hholds hlegal
      exact ⟨_, holds_add_of_extends hcbor hholds hlegal hextends hadmits⟩
    · obtain ⟨chain, hholds, hlegal⟩ := hchained ledgerID
      exact ⟨chain, hholds.add_other hadmits hledger, hlegal⟩

/-- A ledger is initialized only while it has no first row. -/
theorem not_stored_of_initialized (hsound : Sound platform table (.initLedger ledgerID) phase)
    {record : StructuralRecord}
    (hadvances : Advances platform table maxRetries phase later (.returned (.ok record)))
    {stored : ValidatedRecord platform} {nowMS : UInt64}
    (hfields : stored.record.event.fields = genesisFields ledgerID nowMS) :
    rowOfRecord stored.record ∉ table.rows := by
  generalize hphase : Phase.returned (.ok record) = result at hadvances
  cases hadvances with
  | @initHead ledgerID queryFails stamp =>
    rcases initAfterHead_cases platform ledgerID (query queryFails (head platform table ledgerID))
      stamp with ⟨err, hafter⟩ | ⟨built, -, hafter⟩
    · cases hphase.trans hafter
    · cases hphase.trans hafter
  | @initAppend _ outcome _ err happend =>
    cases hsound with
    | initAppend hpending =>
      rcases err with _ | err
      · rcases appendWith_cases happend with ⟨-, hfailed⟩ | ⟨⟨hadmits, -⟩, -⟩
        · exact absurd rfl hfailed
        · intro hrow
          apply hadmits.position _ hrow
          exact Prod.ext
            ((congrArg EventFields.ledgerID hfields).trans
              (congrArg EventFields.ledgerID hpending).symm)
            ((congrArg EventFields.sequence hfields).trans
              (congrArg EventFields.sequence hpending).symm)
      · cases err <;> cases hphase
  | admitHead =>
    cases hsound with
    | admitHead hasks => cases hasks
  | admitAppend =>
    cases hsound with
    | admitAppend hasks => cases hasks
  | reread =>
    cases hsound with
    | admitReread hasks => cases hasks

/-- The stored genesis record of a call that initialized a ledger. -/
theorem Call.Initialized.exists_stored {call : Call} (h : call.Initialized ledgerID)
    (hsound : Sound platform table call.request call.phase) :
    ∃ (stored : ValidatedRecord platform) (nowMS : UInt64),
      stored.record.event.fields = genesisFields ledgerID nowMS ∧
      rowOfRecord stored.record ∈ table.rows := by
  obtain ⟨hrequest, record, hphase⟩ := h
  rw [hrequest, hphase] at hsound
  cases hsound with
  | @initReturned _ nowMS validated hfields hstored => exact ⟨validated, nowMS, hfields, hstored⟩
  | admitReturned hasks => cases hasks

theorem startCall_ne_ok (record : StructuralRecord) :
    startCall platform maxRetries request ≠ .returned (.ok record) := by
  intro hreturned
  rcases startCall_cases platform maxRetries request with ⟨ledgerID, -, hphase⟩ |
    ⟨err, -, hphase⟩ | ⟨req, -, -, hphase⟩
  · cases hphase.symm.trans hreturned
  · cases hphase.symm.trans hreturned
  · rcases admitAttempt_cases maxRetries req 0 with hattempt | hattempt
    · cases (hattempt.symm.trans hphase.symm).trans hreturned
    · cases (hattempt.symm.trans hphase.symm).trans hreturned

theorem Consistent.start (h : Consistent platform system)
    (hevent : ∀ req, request = .admitEvent req → req.eventKind ≠ eventKindLedgerInitialized) :
    Consistent platform ⟨system.table,
      system.calls ++ [⟨request, maxRetries, startCall platform maxRetries request⟩]⟩ := by
  refine ⟨h.chained, ?_, ?_, ?_⟩
  · intro call hcall
    rcases List.mem_append.mp hcall with hold | hnew
    · exact h.sound call hold
    · rw [List.mem_singleton.mp hnew]
      exact sound_startCall request
  · intro call hcall req hasks
    rcases List.mem_append.mp hcall with hold | hnew
    · exact h.kinds call hold req hasks
    · rw [List.mem_singleton.mp hnew] at hasks
      exact kind_of_asks hasks hevent
  · -- a call that has just started has not initialized anything
    have hstarted : ∀ ledgerID, ¬ Call.Initialized
        ⟨request, maxRetries, startCall platform maxRetries request⟩ ledgerID := by
      rintro ledgerID ⟨-, record, hphase⟩
      exact startCall_ne_ok record hphase
    intro ledgerID i j left right hleft hright hleftDone hrightDone
    rcases getElem?_concat_eq_some.mp hleft with hleftOld | ⟨-, rfl⟩
    · rcases getElem?_concat_eq_some.mp hright with hrightOld | ⟨-, rfl⟩
      · exact h.initOnce ledgerID i j left right hleftOld hrightOld hleftDone hrightDone
      · exact absurd hrightDone (hstarted ledgerID)
    · exact absurd hleftDone (hstarted ledgerID)

/-- Of two calls, the one that moves last finds the ledger taken. -/
theorem Consistent.initOnce_advance (h : Consistent platform system) {client j : Nat}
    {call right : Call} (hcall : system.calls[client]? = some call)
    (hadvances : Advances platform system.table call.maxRetries call.phase later nextPhase)
    (hleftDone : Call.Initialized { call with phase := nextPhase } ledgerID)
    (hright : system.calls[j]? = some right) (hrightDone : right.Initialized ledgerID) : False := by
  obtain ⟨stored, nowMS, hfields, hrow⟩ :=
    hrightDone.exists_stored (h.sound right (List.mem_of_getElem? hright))
  obtain ⟨hrequest, record, hphase⟩ := hleftDone
  have hrequest : call.request = .initLedger ledgerID := hrequest
  have hsound := h.sound call (List.mem_of_getElem? hcall)
  rw [hrequest] at hsound
  have hphase : nextPhase = .returned (.ok record) := hphase
  rw [hphase] at hadvances
  exact not_stored_of_initialized hsound hadvances hfields hrow

theorem Consistent.advance (hcbor : platform.cbor.Conforms) (h : Consistent platform system)
    {client : Nat} {call : Call} (hcall : system.calls[client]? = some call)
    (hadvances : Advances platform system.table call.maxRetries call.phase later nextPhase) :
    Consistent platform (system.advance client call later nextPhase) := by
  have hmem := List.mem_of_getElem? hcall
  have hsound := h.sound call hmem
  refine ⟨h.chained.advances hcbor hsound (h.kinds call hmem) hadvances, ?_, ?_, ?_⟩
  · intro other hother
    rcases List.mem_or_eq_of_mem_set hother with hold | rfl
    · exact (h.sound other hold).mono hadvances.rows_subset
    · exact hsound.advances hcbor h.chained hadvances
  · intro other hother
    rcases List.mem_or_eq_of_mem_set hother with hold | rfl
    · exact h.kinds other hold
    · exact h.kinds call hmem
  · intro ledgerID i j left right hleft hright hleftDone hrightDone
    have hclient := (List.getElem?_eq_some_iff.mp hcall).1
    simp only [System.advance, List.getElem?_set, hclient, if_true] at hleft hright
    by_cases hi : client = i
    · by_cases hj : client = j
      · rw [← hi, ← hj]
      · rw [if_pos hi] at hleft
        rw [if_neg hj] at hright
        cases hleft
        exact (h.initOnce_advance hcall hadvances hleftDone hright hrightDone).elim
    · rw [if_neg hi] at hleft
      by_cases hj : client = j
      · rw [if_pos hj] at hright
        cases hright
        exact (h.initOnce_advance hcall hadvances hrightDone hleft hleftDone).elim
      · rw [if_neg hj] at hright
        exact h.initOnce ledgerID i j left right hleft hright hleftDone hrightDone

/-- **One step keeps the system consistent.** -/
theorem Consistent.step (hcbor : platform.cbor.Conforms) (h : Consistent platform system)
    (hallowed : NoSecondGenesis system action)
    (hstep : Admission.step platform system action = some next) : Consistent platform next := by
  rcases step_cases hstep with
    ⟨request, maxRetries, rfl, rfl⟩ | ⟨client, call, later, phase, -, hcall, hadvances, rfl⟩
  · apply h.start
    rintro req rfl
    exact hallowed req maxRetries rfl
  · exact h.advance hcbor hcall hadvances

/-- **Every run keeps the system consistent.** -/
theorem consistent_of_reaches (hcbor : platform.cbor.Conforms)
    (h : Reaches (step platform) NoSecondGenesis .initial system) : Consistent platform system :=
  h.invariant (consistent_initial platform) fun _ _ _ _ hconsistent hallowed hstep =>
    hconsistent.step hcbor hallowed hstep

/-- What holds of every request that is made holds of every call. -/
theorem forall_request_of_reaches {allowed : System → Action → Prop} (good : Request → Prop)
    (hstart : ∀ state request maxRetries, allowed state (.start request maxRetries) → good request)
    (h : Reaches (step platform) allowed .initial system) :
    ∀ call ∈ system.calls, good call.request := by
  apply h.invariant
  · intro call hcall
    cases hcall
  · intro state action next _ hgood hallowed hstep call hcall
    rcases step_cases hstep with
      ⟨request, maxRetries, rfl, rfl⟩ | ⟨client, moved, later, phase, -, hmoved, -, rfl⟩
    · rcases List.mem_append.mp hcall with hold | hnew
      · exact hgood call hold
      · rw [List.mem_singleton.mp hnew]
        exact hstart state request maxRetries hallowed
    · rcases List.mem_or_eq_of_mem_set hcall with hold | rfl
      · exact hgood call hold
      · exact hgood moved (List.mem_of_getElem? hmoved)

/-! ### What a run guarantees -/

/-- A step of `InitLedger`, `AdmitEndorsement` or `AdmitRevocation`. -/
def Action.ServiceCall (_ : System) (action : Action) : Prop :=
  ∀ req maxRetries, action ≠ .start (.admitEvent req) maxRetries

instance (system : System) : DecidablePred (Action.ServiceCall system)
  | .start (.admitEvent req) maxRetries => isFalse fun h => h req maxRetries rfl
  | .start (.initLedger _) _ | .start (.admitEndorsement _ _) _ | .start (.admitRevocation _ _) _
  | .head _ _ _ | .append _ _ _ | .reread _ _ => isTrue nofun

/-- A run that calls only the three methods. -/
theorem reaches_of_run {actions : List Action}
    (hactions : ∀ req maxRetries, .start (.admitEvent req) maxRetries ∉ actions)
    (hrun : run platform .initial actions = some system) :
    Reaches (step platform) Action.ServiceCall .initial system := by
  apply Reaches.refl.foldlM _ hrun
  rintro action haction _ req maxRetries rfl
  exact hactions req maxRetries haction

theorem noSecondGenesis_of_serviceCall (system : System) (action : Action)
    (h : Action.ServiceCall system action) : NoSecondGenesis system action := by
  intro req maxRetries hstart
  exact absurd hstart (h req maxRetries)

/-- Runs of the three methods are consistent. -/
theorem consistent_of_serviceCalls (hcbor : platform.cbor.Conforms)
    (h : Reaches (step platform) Action.ServiceCall .initial system) :
    Consistent platform system :=
  consistent_of_reaches hcbor (h.mono noSecondGenesis_of_serviceCall)

theorem sequences_eq_range (hcbor : platform.cbor.Conforms)
    (hlegal : LegalChain platform (chain.map ValidatedRecord.record)) :
    (chain.map fun stored => stored.record.event.sequence.toNat) = List.range' 1 chain.length := by
  refine List.ext_getElem (by simp) ?_
  intro i hi hrange
  rw [List.length_map] at hi
  have hsequence := hlegal.sequence_eq hcbor (List.getElem?_eq_getElem hi)
  simp only [List.getElem_map, List.getElem_range']
  omega

/-- **No fork, gap or broken link.**  In every state that any interleaving of
calls reaches, the rows of every ledger are numbered from one without gaps and
hold records that pass chain validation up to the state that `Head` returns, and
at most one call has initialized the ledger. -/
theorem noFork (platform : Platform) (hcbor : platform.cbor.Conforms) (system : System)
    (h : Reaches (step platform) Action.ServiceCall .initial system) (ledgerID : LedgerID) :
    (∃ (records : List StructuralRecord) (state : ChainState),
      system.table.ledgerRows ledgerID = records.map rowOfRecord ∧
      (∀ record ∈ records, validateRecordStructure platform record.bytes = .ok record) ∧
      (system.table.ledgerRows ledgerID).map (fun row => row.sequenceNumber.toNat) =
        List.range' 1 records.length ∧
      foldChain platform .empty records = (state, none) ∧
      head platform system.table ledgerID = .ok state) ∧
    ∀ (i j : Nat) (left right : Call) (first second : StructuralRecord),
      system.calls[i]? = some left → system.calls[j]? = some right →
      left.request = .initLedger ledgerID → right.request = .initLedger ledgerID →
      left.phase = .returned (.ok first) → right.phase = .returned (.ok second) → i = j := by
  have hconsistent := consistent_of_serviceCalls hcbor h
  obtain ⟨chain, hholds, hlegal⟩ := hconsistent.chained ledgerID
  have hrows : system.table.ledgerRows ledgerID =
      chain.map fun stored => rowOfRecord stored.record := hholds
  constructor
  · refine ⟨chain.map ValidatedRecord.record, _, ?_, valid_of_mem_map, ?_,
      foldChain_eq_ok.mpr ⟨hlegal, rfl⟩, hholds.head_eq hlegal⟩
    · rw [hrows, List.map_map]
      rfl
    · rw [hrows, List.map_map, List.length_map, ← sequences_eq_range hcbor hlegal]
      rfl
  · intro i j left right first second hleft hright hleftInit hrightInit hleftOk hrightOk
    exact hconsistent.initOnce ledgerID i j left right hleft hright ⟨hleftInit, first, hleftOk⟩
      ⟨hrightInit, second, hrightOk⟩

/-- `InitLedger` on an empty database. -/
def initRun : List Action :=
  [.start (.initLedger (FixedBytes.zero 32)) 3, .head 0 false sampleStamp,
    .append 0 .completed false]

/-- Two clients initialize a ledger from the same empty head, and two others endorse on
it from the same head; the one that is late reads the head again. -/
def racingRun : List Action :=
  [.start (.initLedger (.zero 32)) 3, .start (.initLedger (.zero 32)) 3,
    .head 0 false (stampAt 1), .head 1 false (stampAt 2),
    .append 0 .completed false, .append 1 .completed false,
    .start (.admitEndorsement (.zero 32) (some sampleEndorsement)) 3,
    .start (.admitEndorsement (.zero 32) (some oppositeEndorsement)) 3,
    .head 2 false (stampAt 3), .head 3 false (stampAt 4),
    .append 2 .completed false, .append 3 .completed false,
    .head 3 false (stampAt 5), .append 3 .completed false]

/-- Both endorsements are stored, one after the other, and one ledger was made. -/
theorem racingRun_noFork :
    ∃ (system : System) (records : List StructuralRecord) (state : ChainState)
      (winner loser late : Call) (first last : StructuralRecord),
      run samplePlatform .initial racingRun = some system ∧
      system.table.ledgerRows (.zero 32) = records.map rowOfRecord ∧
      (system.table.ledgerRows (.zero 32)).map (fun row => row.sequenceNumber.toNat) =
        List.range' 1 3 ∧
      foldChain samplePlatform .empty records = (state, none) ∧
      head samplePlatform system.table (.zero 32) = .ok state ∧
      system.calls[0]? = some winner ∧ winner.phase = .returned (.ok first) ∧
      system.calls[1]? = some loser ∧
      loser.phase = .returned (.error .ledgerAlreadyInitialized) ∧
      system.calls[3]? = some late ∧ late.phase = .returned (.ok last) ∧
      last.event.sequence = 3 := by
  have hevaluated : (run samplePlatform .initial racingRun).any (fun system =>
      decide ((system.table.ledgerRows (.zero 32)).length = 3) &&
      system.calls[0]?.any (fun winner => winner.phase.answer.isSome) &&
      system.calls[1]?.any (fun loser =>
        loser.phase.failure = some .ledgerAlreadyInitialized) &&
      system.calls[3]?.any fun late => late.phase.answer.any fun last =>
        decide (last.event.sequence = 3)) = true := by
    decide +kernel
  simp only [Option.any_eq_true, Bool.and_eq_true, decide_eq_true_eq, Option.isSome_iff_exists]
    at hevaluated
  obtain ⟨system, hrun, ⟨⟨hlength, winner, hwinner, first, hfirst⟩, loser, hloser, hrefused⟩, late,
    hlate, last, hlast, hthird⟩ := hevaluated
  have hreaches := reaches_of_run (by simp [racingRun]) hrun
  obtain ⟨⟨records, state, hrows, -, hsequences, hfold, hhead⟩, -⟩ :=
    noFork samplePlatform reference_conforms system hreaches (.zero 32)
  rw [hrows, List.length_map] at hlength
  rw [hlength] at hsequences
  exact ⟨system, records, state, winner, loser, late, first, last, hrun, hrows, hsequences, hfold,
    hhead, hwinner, Phase.answer_eq_some.mp hfirst, hloser, Phase.failure_eq_some.mp hrefused,
    hlate, Phase.answer_eq_some.mp hlast, hthird⟩

end AttributionChain.Admission

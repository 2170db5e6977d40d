import AttributionChain.EndorsementCanonical
import AttributionChain.LedgerStore

/-!
# The admission service

`internal/admission/service.go`.  A call reads the head of its ledger, builds and
signs the next record, appends it, and on a lost race starts over.  Between two
queries to the store a call runs alone; between them anything can happen to the
table.  So a call is cut at its queries: a `Phase` is where it stands, and each
function named `…After…` is the code from one query to the next.

A `System` is one table and any number of calls.  `step` lets one call make one
query, in any order, with any clock reading and signer output, and with queries
that fail or whose reply is lost.

`step_cases` is the inversion of `step`, and `continuationRecord_eq_ok` states
what a record contains when a call appends it.  `admit_extends_iff` is the
comparison of `Admit` with chain validation.
-/

namespace AttributionChain.Admission

open Cbor Ledger Endorsement Store

structure AdmitRequest where
  ledgerID : LedgerID
  eventKind : EventKind
  payloadVersion : UInt64
  payloadBytes : Slice
deriving DecidableEq

inductive ServiceError where
  /-- `none` when the query itself failed. -/
  | readLedgerHead (err : Option ReadError)
  | ledgerAlreadyInitialized
  | createGenesisEvent (err : ValidationError)
  | signGenesisEvent
  | assembleGenesisRecord (err : ValidationError)
  | persistGenesisRecord (err : AppendError)
  | emptyPayload
  | ledgerUninitialized
  | createContinuationEvent (err : ValidationError)
  | signContinuationEvent
  | assembleRecord (err : ValidationError)
  | contextDone
  | persistRecord (err : AppendError)
  | retriesExceeded (maxRetries : Int64)
  | nilEndorsement
  | verifyEndorsement (failure : Failure)
  | encodeEndorsement (failure : Failure)
  | nilRevocation
  | verifyRevocation (failure : Failure)
  | encodeRevocation (failure : Failure)
deriving DecidableEq

/-- The text of an error, less the error it wraps. -/
def ServiceError.text : ServiceError → String
  | .readLedgerHead _ => "read ledger head: "
  | .ledgerAlreadyInitialized => "ledger already initialized"
  | .createGenesisEvent _ => "create genesis event: "
  | .signGenesisEvent => "sign genesis event: "
  | .assembleGenesisRecord _ => "assemble genesis record: "
  | .persistGenesisRecord err => "persist genesis record: " ++ err.text
  | .emptyPayload => "payload bytes cannot be empty"
  | .ledgerUninitialized => "ledger is uninitialized; call InitLedger first"
  | .createContinuationEvent _ => "create continuation event: "
  | .signContinuationEvent => "sign continuation event: "
  | .assembleRecord _ => "assemble record: "
  | .contextDone => ""
  | .persistRecord err => "persist record: " ++ err.text
  | .retriesExceeded maxRetries =>
    "admit record exceeded " ++ toString maxRetries ++ " retries due to chain head contention"
  | .nilEndorsement => "endorsement payload cannot be nil"
  | .verifyEndorsement _ => "verify endorsement signatures: "
  | .encodeEndorsement _ => "encode endorsement payload: "
  | .nilRevocation => "revocation payload cannot be nil"
  | .verifyRevocation _ => "verify revocation signature: "
  | .encodeRevocation _ => "encode revocation payload: "

variable (platform : Platform)

/-! ### Building records -/

/-- What the clock and the signer return during one attempt. -/
structure Stamp where
  nowMS : UInt64
  keyReference : Bytes
  /-- `none` when `Sign` returned an error. -/
  signature : Option Slice
deriving DecidableEq

/-- The record that `InitLedger` appends. -/
def genesisRecord (ledgerID : LedgerID) (stamp : Stamp) : Except ServiceError StructuralRecord := do
  let genesisEvent ← (newGenesisEvent platform ledgerID stamp.nowMS).mapError .createGenesisEvent
  let sig ← orError stamp.signature .signGenesisEvent
  (newRecord platform genesisEvent stamp.keyReference sig).mapError .assembleGenesisRecord

/-- The record that `Admit` appends after reading a head. -/
def continuationRecord (req : AdmitRequest) (head : ChainState) (stamp : Stamp) :
    Except ServiceError StructuralRecord := do
  let event ← (newEvent platform req.ledgerID (head.lastSequence + 1) (some head.lastRecordDigest)
    stamp.nowMS req.eventKind req.payloadVersion req.payloadBytes).mapError .createContinuationEvent
  let sig ← orError stamp.signature .signContinuationEvent
  (newRecord platform event stamp.keyReference sig).mapError .assembleRecord

/-! ### Calls -/

/-- Where a call stands: before one of its queries, or returned. -/
inductive Phase where
  | initHead (ledgerID : LedgerID)
  | initAppend (record : StructuralRecord)
  | admitHead (req : AdmitRequest) (attempt : Nat)
  | admitAppend (req : AdmitRequest) (attempt : Nat) (record : StructuralRecord)
  | admitReread (record : StructuralRecord)
  | returned (result : Except ServiceError StructuralRecord)

def initAfterHead (ledgerID : LedgerID) (head : Except (Option ReadError) ChainState)
    (stamp : Stamp) : Phase :=
  match head with
  | .error err => .returned (.error (.readLedgerHead err))
  | .ok head =>
    if head.initialized = true then .returned (.error .ledgerAlreadyInitialized)
    else
      match genesisRecord platform ledgerID stamp with
      | .error err => .returned (.error err)
      | .ok record => .initAppend record

def initAfterAppend (record : StructuralRecord) : Option AppendError → Phase
  | none => .returned (.ok record)
  | some .chainHeadMoved | some .duplicateRecord => .returned (.error .ledgerAlreadyInitialized)
  | some err => .returned (.error (.persistGenesisRecord err))

/-- The loop condition of `Admit`, with the wrapping of `maxRetries + 1`. -/
def admitAttempt (maxRetries : Int64) (req : AdmitRequest) (attempt : Nat) : Phase :=
  if (attempt : Int) < (maxRetries + 1).toInt then .admitHead req attempt
  else .returned (.error (.retriesExceeded maxRetries))

def admitAfterHead (req : AdmitRequest) (attempt : Nat)
    (head : Except (Option ReadError) ChainState) (stamp : Stamp) : Phase :=
  match head with
  | .error err => .returned (.error (.readLedgerHead err))
  | .ok head =>
    if head.initialized = false then .returned (.error .ledgerUninitialized)
    else
      match continuationRecord platform req head stamp with
      | .error err => .returned (.error err)
      | .ok record => .admitAppend req attempt record

def admitAfterAppend (maxRetries : Int64) (req : AdmitRequest) (attempt : Nat)
    (record : StructuralRecord) (contextDone : Bool) : Option AppendError → Phase
  | none => .returned (.ok record)
  | some .duplicateRecord => .admitReread record
  | some .chainHeadMoved =>
    if contextDone = true then .returned (.error .contextDone)
    else admitAttempt maxRetries req (attempt + 1)
  | some err => .returned (.error (.persistRecord err))

/-- A record that cannot be read back is returned as it was built. -/
def admitAfterReread (record : StructuralRecord)
    (existing : Except (Option ReadError) StructuralRecord) : Phase :=
  match existing with
  | .ok existing => .returned (.ok existing)
  | .error _ => .returned (.ok record)

/-- `Admit` up to its first query -/
def admitEvent (maxRetries : Int64) (req : AdmitRequest) : Phase :=
  if req.payloadBytes.len = 0 then .returned (.error .emptyPayload)
  else admitAttempt maxRetries req 0

/-- The part that `AdmitEndorsement` and `AdmitRevocation` share: verify, encode, admit. -/
def admitPayload (maxRetries : Int64) (ledgerID : LedgerID) (kind : EventKind)
    (verified : Except ServiceError Unit) (encoded : Except ServiceError Bytes) : Phase :=
  match verified with
  | .error err => .returned (.error err)
  | .ok () =>
    match encoded with
    | .error err => .returned (.error err)
    | .ok encoded => admitEvent maxRetries ⟨ledgerID, kind, payloadVersionV1, some encoded⟩

def admitEndorsement (maxRetries : Int64) (ledgerID : LedgerID) :
    Option EndorsementAcceptedPayload → Phase
  | none => .returned (.error .nilEndorsement)
  | some payload =>
    admitPayload maxRetries ledgerID eventKindEndorsementAccepted
      ((payload.verify platform).mapError .verifyEndorsement)
      ((payload.encode platform).mapError .encodeEndorsement)

def admitRevocation (maxRetries : Int64) (ledgerID : LedgerID) :
    Option EndorsementRevokedPayload → Phase
  | none => .returned (.error .nilRevocation)
  | some payload =>
    admitPayload maxRetries ledgerID eventKindEndorsementRevoked
      ((payload.verify platform).mapError .verifyRevocation)
      ((payload.encode platform).mapError .encodeRevocation)

/-- The methods of the service and their arguments. -/
inductive Request where
  | initLedger (ledgerID : LedgerID)
  | admitEvent (req : AdmitRequest)
  | admitEndorsement (ledgerID : LedgerID) (payload : Option EndorsementAcceptedPayload)
  | admitRevocation (ledgerID : LedgerID) (payload : Option EndorsementRevokedPayload)
deriving DecidableEq

/-- A call up to its first query. -/
def startCall (maxRetries : Int64) : Request → Phase
  | .initLedger ledgerID => .initHead ledgerID
  | .admitEvent req => Admission.admitEvent maxRetries req
  | .admitEndorsement ledgerID payload =>
    Admission.admitEndorsement platform maxRetries ledgerID payload
  | .admitRevocation ledgerID payload =>
    Admission.admitRevocation platform maxRetries ledgerID payload

/-! ### The system -/

structure Call where
  request : Request
  /-- Of the service that the call was made on. -/
  maxRetries : Int64
  phase : Phase

structure System where
  table : Table
  calls : List Call

def System.initial : System := ⟨.empty, []⟩

/-- What becomes of an insert. -/
inductive AppendOutcome where
  | completed
  /-- The query fails before it reaches the table. -/
  | requestLost
  /-- The insert is decided, and the caller only sees that the query failed. -/
  | replyLost
deriving DecidableEq

inductive Action where
  | start (request : Request) (maxRetries : Int64)
  | head (client : Nat) (queryFails : Bool) (stamp : Stamp)
  | append (client : Nat) (outcome : AppendOutcome) (contextDone : Bool)
  | reread (client : Nat) (queryFails : Bool)
deriving DecidableEq

def appendWith (table : Table) (record : StructuralRecord) :
    AppendOutcome → Table × Option AppendError
  | .completed => Store.append table record
  | .requestLost => (table, some .unclassified)
  | .replyLost => ((Store.append table record).1, some .unclassified)

/-- The call makes its query and goes on to the next phase. -/
def System.advance (system : System) (client : Nat) (call : Call) (table : Table) (phase : Phase) :
    System :=
  ⟨table, system.calls.set client { call with phase := phase }⟩

@[simp] theorem System.advance_table (system : System) (client : Nat) (call : Call) (table : Table)
    (phase : Phase) : (system.advance client call table phase).table = table := rfl

@[simp] theorem System.advance_calls (system : System) (client : Nat) (call : Call) (table : Table)
    (phase : Phase) : (system.advance client call table phase).calls =
      system.calls.set client { call with phase := phase } := rfl

/-- One step of one call, if the call stands before that query. -/
def step (system : System) : Action → Option System
  | .start request maxRetries =>
    some ⟨system.table,
      system.calls ++ [⟨request, maxRetries, startCall platform maxRetries request⟩]⟩
  | .head client queryFails stamp =>
    match system.calls[client]? with
    | none => none
    | some call =>
      match call.phase with
      | .initHead ledgerID =>
        some (system.advance client call system.table (initAfterHead platform ledgerID
          (query queryFails (head platform system.table ledgerID)) stamp))
      | .admitHead req attempt =>
        some (system.advance client call system.table (admitAfterHead platform req attempt
          (query queryFails (head platform system.table req.ledgerID)) stamp))
      | _ => none
  | .append client outcome contextDone =>
    match system.calls[client]? with
    | none => none
    | some call =>
      match call.phase with
      | .initAppend record =>
        let (table, err) := appendWith system.table record outcome
        some (system.advance client call table (initAfterAppend record err))
      | .admitAppend req attempt record =>
        let (table, err) := appendWith system.table record outcome
        some (system.advance client call table
          (admitAfterAppend call.maxRetries req attempt record contextDone err))
      | _ => none
  | .reread client queryFails =>
    match system.calls[client]? with
    | none => none
    | some call =>
      match call.phase with
      | .admitReread record =>
        some (system.advance client call system.table (admitAfterReread record
          (query queryFails (Store.record platform system.table record.recordDigest))))
      | _ => none

/-- Several steps. -/
def run (system : System) (actions : List Action) : Option System :=
  actions.foldlM (step platform) system

/-! ### What a step does -/

/-- The call that an action moves on. -/
def Action.client : Action → Option Nat
  | .start _ _ => none
  | .head client _ _ | .append client _ _ | .reread client _ => some client

/-- The record that a call is about to append. -/
def Phase.pending : Phase → Option StructuralRecord
  | .initAppend record | .admitAppend _ _ record => some record
  | _ => none

/-- The record that a call has returned. -/
def Phase.answer : Phase → Option StructuralRecord
  | .returned (.ok record) => some record
  | _ => none

theorem Phase.answer_eq_some {phase : Phase} {record : StructuralRecord} :
    phase.answer = some record ↔ phase = .returned (.ok record) := by
  cases phase with
  | returned result => cases result <;> simp [Phase.answer]
  | _ => simp [Phase.answer]

/-- The error that a call has returned. -/
def Phase.failure : Phase → Option ServiceError
  | .returned (.error err) => some err
  | _ => none

theorem Phase.failure_eq_some {phase : Phase} {err : ServiceError} :
    phase.failure = some err ↔ phase = .returned (.error err) := by
  cases phase with
  | returned result => cases result <;> simp [Phase.failure]
  | _ => simp [Phase.failure]

/-- One query of a call, from phase to phase. -/
inductive Advances (table : Table) (maxRetries : Int64) : Phase → Table → Phase → Prop
  | initHead {ledgerID : LedgerID} {queryFails : Bool} {stamp : Stamp} :
      Advances table maxRetries (.initHead ledgerID) table
        (initAfterHead platform ledgerID (query queryFails (head platform table ledgerID)) stamp)
  | admitHead {req : AdmitRequest} {attempt : Nat} {queryFails : Bool} {stamp : Stamp} :
      Advances table maxRetries (.admitHead req attempt) table
        (admitAfterHead platform req attempt
          (query queryFails (head platform table req.ledgerID)) stamp)
  | initAppend {record : StructuralRecord} {outcome : AppendOutcome} {next : Table}
      {err : Option AppendError} (h : appendWith table record outcome = (next, err)) :
      Advances table maxRetries (.initAppend record) next (initAfterAppend record err)
  | admitAppend {req : AdmitRequest} {attempt : Nat} {record : StructuralRecord}
      {outcome : AppendOutcome} {contextDone : Bool} {next : Table} {err : Option AppendError}
      (h : appendWith table record outcome = (next, err)) :
      Advances table maxRetries (.admitAppend req attempt record) next
        (admitAfterAppend maxRetries req attempt record contextDone err)
  | reread {record : StructuralRecord} {queryFails : Bool} :
      Advances table maxRetries (.admitReread record) table
        (admitAfterReread record
          (query queryFails (Store.record platform table record.recordDigest)))

variable {platform} {system next : System} {action : Action} {table later : Table}
  {record : StructuralRecord} {req : AdmitRequest} {state : ChainState} {stamp : Stamp}

/-- **Inversion of a step**: a call starts, or a call makes one query. -/
theorem step_cases (h : step platform system action = some next) :
    (∃ request maxRetries, action = .start request maxRetries ∧
      next = ⟨system.table,
        system.calls ++ [⟨request, maxRetries, startCall platform maxRetries request⟩]⟩) ∨
    ∃ client call table phase, action.client = some client ∧ system.calls[client]? = some call ∧
      Advances platform system.table call.maxRetries call.phase table phase ∧
      next = system.advance client call table phase := by
  cases action with
  | start request maxRetries =>
    cases h
    exact Or.inl ⟨request, maxRetries, rfl, rfl⟩
  | head client queryFails stamp =>
    right
    rcases hcall : system.calls[client]? with _ | ⟨request, maxRetries, phase⟩
    · simp [step, hcall] at h
    · cases phase with
      | initHead ledgerID =>
        simp only [step, hcall, Option.some.injEq] at h
        exact ⟨client, _, _, _, rfl, hcall, .initHead, h.symm⟩
      | admitHead req attempt =>
        simp only [step, hcall, Option.some.injEq] at h
        exact ⟨client, _, _, _, rfl, hcall, .admitHead, h.symm⟩
      | _ => simp [step, hcall] at h
  | append client outcome contextDone =>
    right
    rcases hcall : system.calls[client]? with _ | ⟨request, maxRetries, phase⟩
    · simp [step, hcall] at h
    · cases phase with
      | initAppend record =>
        simp only [step, hcall, Option.some.injEq] at h
        exact ⟨client, _, _, _, rfl, hcall, .initAppend rfl, h.symm⟩
      | admitAppend req attempt record =>
        simp only [step, hcall, Option.some.injEq] at h
        exact ⟨client, _, _, _, rfl, hcall, .admitAppend rfl, h.symm⟩
      | _ => simp [step, hcall] at h
  | reread client queryFails =>
    right
    rcases hcall : system.calls[client]? with _ | ⟨request, maxRetries, phase⟩
    · simp [step, hcall] at h
    · cases phase with
      | admitReread record =>
        simp only [step, hcall, Option.some.injEq] at h
        exact ⟨client, _, _, _, rfl, hcall, .reread, h.symm⟩
      | _ => simp [step, hcall] at h

/-- An insert stores nothing and returns an error, or it stores the record and the
caller is told so or nothing. -/
theorem appendWith_cases {outcome : AppendOutcome} {err : Option AppendError}
    (h : appendWith table record outcome = (later, err)) :
    (later = table ∧ err ≠ none) ∨
      (∃ hadmits : table.Admits (rowOfRecord record),
        later = table.add (rowOfRecord record) hadmits) ∧
        (err = none ∨ err = some .unclassified) := by
  rcases hstore : Store.append table record with ⟨stored, _ | failure⟩
  · have hadded := append_eq_none.mp hstore
    cases outcome with
    | completed =>
      cases hstore.symm.trans h
      exact Or.inr ⟨hadded, .inl rfl⟩
    | requestLost =>
      cases h
      exact Or.inl ⟨rfl, by simp⟩
    | replyLost =>
      simp only [appendWith, hstore] at h
      cases h
      exact Or.inr ⟨hadded, .inr rfl⟩
  · have hunchanged := append_eq_some hstore
    cases outcome with
    | completed =>
      cases hstore.symm.trans h
      exact Or.inl ⟨hunchanged, by simp⟩
    | requestLost =>
      cases h
      exact Or.inl ⟨rfl, by simp⟩
    | replyLost =>
      simp only [appendWith, hstore] at h
      cases h
      exact Or.inl ⟨hunchanged, by simp⟩

/-- An error with a class of its own comes from the store. -/
theorem appendWith_eq_some {outcome : AppendOutcome} {err : AppendError}
    (h : appendWith table record outcome = (later, some err)) (hclass : err ≠ .unclassified) :
    Store.append table record = (later, some err) := by
  cases outcome with
  | completed => exact h
  | requestLost =>
    cases congrArg Prod.snd h
    exact absurd rfl hclass
  | replyLost =>
    cases congrArg Prod.snd h
    exact absurd rfl hclass

/-- How a call that stored its record has returned. -/
inductive Phase.Stored : Phase → Prop
  | ok (record : StructuralRecord) : Stored (.returned (.ok record))
  | initUnclassified : Stored (.returned (.error (.persistGenesisRecord .unclassified)))
  | admitUnclassified : Stored (.returned (.error (.persistRecord .unclassified)))

/-- A query changes the table only by storing the pending record, and then it is the
last one of its call. -/
theorem Advances.stored_cases {maxRetries : Int64} {phase nextPhase : Phase}
    (h : Advances platform table maxRetries phase later nextPhase) :
    later = table ∨ ∃ record, phase.pending = some record ∧ nextPhase.Stored ∧
      ∃ hadmits : table.Admits (rowOfRecord record),
        later = table.add (rowOfRecord record) hadmits := by
  cases h with
  | initHead | admitHead | reread => exact Or.inl rfl
  | @initAppend record outcome next err happend =>
    rcases appendWith_cases happend with ⟨hsame, -⟩ | ⟨hadded, rfl | rfl⟩
    · exact Or.inl hsame
    · exact Or.inr ⟨record, rfl, .ok record, hadded⟩
    · exact Or.inr ⟨record, rfl, .initUnclassified, hadded⟩
  | @admitAppend req attempt record outcome contextDone next err happend =>
    rcases appendWith_cases happend with ⟨hsame, -⟩ | ⟨hadded, rfl | rfl⟩
    · exact Or.inl hsame
    · exact Or.inr ⟨record, rfl, .ok record, hadded⟩
    · exact Or.inr ⟨record, rfl, .admitUnclassified, hadded⟩

theorem Advances.table_cases {maxRetries : Int64} {phase nextPhase : Phase}
    (h : Advances platform table maxRetries phase later nextPhase) :
    later = table ∨ ∃ record, phase.pending = some record ∧
      ∃ hadmits : table.Admits (rowOfRecord record),
        later = table.add (rowOfRecord record) hadmits := by
  rcases h.stored_cases with hsame | ⟨record, hpending, -, hadded⟩
  · exact Or.inl hsame
  · exact Or.inr ⟨record, hpending, hadded⟩

/-- A call that has returned makes no query. -/
theorem Advances.ne_returned {maxRetries : Int64} {phase nextPhase : Phase}
    (h : Advances platform table maxRetries phase later nextPhase)
    (result : Except ServiceError StructuralRecord) : phase ≠ .returned result := by
  rintro rfl
  cases h

/-! ### What a pending record contains -/

/-- The field values of the event that `Admit` builds on a head. -/
def continuationFields (req : AdmitRequest) (head : ChainState) (nowMS : UInt64) : EventFields where
  ledgerID := req.ledgerID
  sequence := head.lastSequence + 1
  previousRecordDigest := some head.lastRecordDigest
  admittedAtUnixMS := nowMS
  kind := req.eventKind
  payloadVersion := req.payloadVersion
  payloadBytes := req.payloadBytes

theorem genesisRecord_eq_ok (hcbor : platform.cbor.Conforms) {ledgerID : LedgerID}
    (h : genesisRecord platform ledgerID stamp = .ok record) :
    ∃ validated : ValidatedRecord platform, validated.record = record ∧
      record.event.fields = genesisFields ledgerID stamp.nowMS := by
  simp only [genesisRecord, bind_eq_ok, mapError_eq_ok, orError_eq_ok] at h
  obtain ⟨event, hevent, signature, -, hrecord⟩ := h
  rw [newGenesisEvent_eq hcbor] at hevent
  have hnew : newRecordOfFields platform
      ⟨genesisFields ledgerID stamp.nowMS, stamp.keyReference, signature⟩ = .ok record :=
    bind_eq_ok.mpr ⟨event, hevent, hrecord⟩
  obtain ⟨validated, hvalidated, hfields⟩ := validated_of_newRecordOfFields hcbor hnew
  exact ⟨validated, hvalidated, congrArg RecordFields.toEventFields hfields⟩

/-- The record is the ledger's own construction on those values. -/
theorem continuationRecord_iff :
    continuationRecord platform req state stamp = .ok record ↔
      ∃ signature, stamp.signature = some signature ∧ newRecordOfFields platform
        ⟨continuationFields req state stamp.nowMS, stamp.keyReference, signature⟩ = .ok record := by
  simp only [continuationRecord, newRecordOfFields, bind_eq_ok, mapError_eq_ok, orError_eq_ok]
  constructor
  · rintro ⟨event, hevent, signature, hsignature, hrecord⟩
    exact ⟨signature, hsignature, event, hevent, hrecord⟩
  · rintro ⟨signature, hsignature, event, hevent, hrecord⟩
    exact ⟨event, hevent, signature, hsignature, hrecord⟩

theorem continuationRecord_eq_ok (hcbor : platform.cbor.Conforms)
    (h : continuationRecord platform req state stamp = .ok record) :
    ∃ validated : ValidatedRecord platform, validated.record = record ∧
      record.event.fields = continuationFields req state stamp.nowMS := by
  obtain ⟨signature, -, hnew⟩ := continuationRecord_iff.mp h
  obtain ⟨validated, hvalidated, hfields⟩ := validated_of_newRecordOfFields hcbor hnew
  exact ⟨validated, hvalidated, congrArg RecordFields.toEventFields hfields⟩

/-- The sequence number of a continuation cannot have wrapped: construction rejects
zero. -/
theorem sequence_of_continuationFields {validated : ValidatedRecord platform} {nowMS : UInt64}
    (h : validated.record.event.fields = continuationFields req state nowMS) :
    validated.record.event.sequence.toNat = state.lastSequence.toNat + 1 := by
  have hsequence : validated.record.event.sequence = state.lastSequence + 1 :=
    congrArg EventFields.sequence h
  refine sequence_succ_iff.mp ⟨?_, hsequence⟩
  intro hmax
  have hpos := validated.sequence_pos
  rw [hsequence, hmax] at hpos
  exact absurd hpos (by decide)

/-- After its head read, `InitLedger` has failed or holds a genesis record. -/
theorem initAfterHead_cases (platform : Platform) (ledgerID : LedgerID)
    (read : Except (Option ReadError) ChainState) (stamp : Stamp) :
    (∃ err, initAfterHead platform ledgerID read stamp = .returned (.error err)) ∨
      ∃ record, genesisRecord platform ledgerID stamp = .ok record ∧
        initAfterHead platform ledgerID read stamp = .initAppend record := by
  unfold initAfterHead
  rcases read with err | head
  · exact Or.inl ⟨_, rfl⟩
  · by_cases hinitialized : head.initialized = true
    · exact Or.inl ⟨_, if_pos hinitialized⟩
    · rcases hrecord : genesisRecord platform ledgerID stamp with err | record
      · exact Or.inl ⟨err, by simp [hinitialized]⟩
      · exact Or.inr ⟨record, rfl, by simp [hinitialized]⟩

/-- The errors that `Admit`, `AdmitEndorsement` and `AdmitRevocation` return without
having tried to append. -/
def ServiceError.BeforeAppend : ServiceError → Prop
  | .readLedgerHead _ | .emptyPayload | .ledgerUninitialized | .createContinuationEvent _
  | .signContinuationEvent | .assembleRecord _ | .nilEndorsement | .verifyEndorsement _
  | .encodeEndorsement _ | .nilRevocation | .verifyRevocation _ | .encodeRevocation _ => True
  | _ => False

theorem beforeAppend_of_continuationRecord {err : ServiceError}
    (h : continuationRecord platform req state stamp = .error err) : err.BeforeAppend := by
  unfold continuationRecord at h
  rcases hevent : newEvent platform req.ledgerID (state.lastSequence + 1)
    (some state.lastRecordDigest) stamp.nowMS req.eventKind req.payloadVersion req.payloadBytes
    with failure | event
  · rw [hevent, mapError_error, error_bind] at h
    cases h
    trivial
  · rw [hevent, mapError_ok, ok_bind] at h
    rcases hsignature : stamp.signature with _ | signature
    · rw [hsignature] at h
      cases h
      trivial
    · rw [hsignature, orError_some, ok_bind] at h
      rcases hrecord : newRecord platform event stamp.keyReference signature with failure | record
      · rw [hrecord, mapError_error] at h
        cases h
        trivial
      · rw [hrecord, mapError_ok] at h
        cases h

/-- After a head read, `Admit` has failed or holds a record built on that head. -/
theorem admitAfterHead_cases (platform : Platform) (req : AdmitRequest) (attempt : Nat)
    (read : Except (Option ReadError) ChainState) (stamp : Stamp) :
    (∃ err, err.BeforeAppend ∧
      admitAfterHead platform req attempt read stamp = .returned (.error err)) ∨
      ∃ state record, read = .ok state ∧ state.initialized = true ∧
        continuationRecord platform req state stamp = .ok record ∧
        admitAfterHead platform req attempt read stamp = .admitAppend req attempt record := by
  unfold admitAfterHead
  rcases read with err | head
  · exact Or.inl ⟨.readLedgerHead err, trivial, rfl⟩
  · by_cases hinitialized : head.initialized = true
    · rcases hrecord : continuationRecord platform req head stamp with err | record
      · exact Or.inl ⟨err, beforeAppend_of_continuationRecord hrecord,
          by simp [hinitialized, hrecord]⟩
      · exact Or.inr ⟨head, record, rfl, hinitialized, hrecord, by simp [hinitialized, hrecord]⟩
    · exact Or.inl ⟨.ledgerUninitialized, trivial, if_pos (by simpa using hinitialized)⟩

/-- After an append, `Admit` has its record, looks for it, makes another attempt or has
failed. -/
theorem admitAfterAppend_cases (maxRetries : Int64) (req : AdmitRequest) (attempt : Nat)
    (record : StructuralRecord) (contextDone : Bool) (err : Option AppendError) :
    (err = none ∧ admitAfterAppend maxRetries req attempt record contextDone err =
        .returned (.ok record)) ∨
      (err = some .duplicateRecord ∧
        admitAfterAppend maxRetries req attempt record contextDone err = .admitReread record) ∨
      (err = some .chainHeadMoved ∧ admitAfterAppend maxRetries req attempt record contextDone err =
        admitAttempt maxRetries req (attempt + 1)) ∨
      ∃ failure, (failure = .contextDone ∨ ∃ cause, failure = .persistRecord cause) ∧
        admitAfterAppend maxRetries req attempt record contextDone err =
          .returned (.error failure) := by
  rcases err with _ | err
  · exact .inl ⟨rfl, rfl⟩
  · cases err with
    | duplicateRecord => exact .inr (.inl ⟨rfl, rfl⟩)
    | chainHeadMoved =>
      cases contextDone with
      | true => exact .inr (.inr (.inr ⟨_, .inl rfl, rfl⟩))
      | false => exact .inr (.inr (.inl ⟨rfl, rfl⟩))
    | unknownPredecessor => exact .inr (.inr (.inr ⟨_, .inr ⟨_, rfl⟩, rfl⟩))
    | unclassified => exact .inr (.inr (.inr ⟨_, .inr ⟨_, rfl⟩, rfl⟩))

/-- A failed reread does not fail the call. -/
theorem exists_admitAfterReread (record : StructuralRecord)
    (existing : Except (Option ReadError) StructuralRecord) :
    ∃ found, admitAfterReread record existing = .returned (.ok found) := by
  cases existing with
  | error => exact ⟨record, rfl⟩
  | ok existing => exact ⟨existing, rfl⟩

/-! ### Admit against chain validation -/

section Extends

variable {ledgerID : LedgerID} {chain : List (ValidatedRecord platform)}

/-- A record built on the head of a stored chain follows the chain's last record. -/
theorem follows_of_continuationRecord (hcbor : platform.cbor.Conforms)
    (hholds : table.Holds platform req.ledgerID chain)
    (hlegal : LegalChain platform (chain.map ValidatedRecord.record))
    (hhead : head platform table req.ledgerID = .ok state) (hinitialized : state.initialized = true)
    (h : continuationRecord platform req state stamp = .ok record) :
    ∃ last ∈ chain, chain.getLast? = some last ∧ state = chainStateFromRecord last.record ∧
      record.event.ledgerID = last.record.event.ledgerID ∧
      record.event.sequence.toNat = last.record.event.sequence.toNat + 1 ∧
      record.event.predecessor = some last.record.recordDigest ∧
      record.event.kind = req.eventKind := by
  rw [hholds.head_eq hlegal] at hhead
  cases hhead
  rcases hlast : chain.getLast? with _ | last
  · -- an empty ledger has no initialized head
    simp [chainStateAfter, List.getLast?_map, hlast, ChainState.empty] at hinitialized
  · have hmem := List.mem_of_getLast? hlast
    have hbytes := hlegal.bytes_ne_empty last.record (List.mem_map_of_mem hmem)
    have hstate : chainStateAfter (chain.map ValidatedRecord.record) =
        chainStateFromRecord last.record := by
      simp [chainStateAfter, List.getLast?_map, hlast]
    rw [hstate] at h
    obtain ⟨validated, rfl, hfields⟩ := continuationRecord_eq_ok hcbor h
    rw [chainStateFromRecord_of_nonempty hbytes] at hfields
    have hledger : validated.record.event.ledgerID = req.ledgerID :=
      congrArg EventFields.ledgerID hfields
    have hlink : validated.record.event.predecessor = some last.record.recordDigest :=
      congrArg EventFields.previousRecordDigest hfields
    exact ⟨last, hmem, rfl, hstate, hledger.trans (hholds.ledgerID_eq hmem).symm,
      sequence_of_continuationFields hfields, hlink, congrArg EventFields.kind hfields⟩

/-- **Admit and chain validation.**  On a ledger that passes chain validation,
the record that `Admit` goes on to append passes it too, against the head that
was read, exactly when the request is not for a second genesis. -/
theorem admit_extends_iff (platform : Platform) (hcbor : platform.cbor.Conforms) (table : Table)
    (req : AdmitRequest) (chain : List (ValidatedRecord platform))
    (hholds : table.Holds platform req.ledgerID chain)
    (hfold : (foldChain platform .empty (chain.map ValidatedRecord.record)).2 = none)
    (attempt : Nat) (stamp : Stamp) (record : StructuralRecord)
    (hrecord : admitAfterHead platform req attempt
      (query false (head platform table req.ledgerID)) stamp = .admitAppend req attempt record) :
    ∃ state, head platform table req.ledgerID = .ok state ∧
      ((validateChainConsistency platform state record).2 = none ↔
        req.eventKind ≠ eventKindLedgerInitialized) := by
  have hlegal : LegalChain platform (chain.map ValidatedRecord.record) :=
    (foldChain_eq_ok.mp (Prod.ext rfl hfold)).1
  obtain ⟨err, -, hfailed⟩ | ⟨state, built, hread, hinitialized, hbuilt, hphase⟩ :=
    admitAfterHead_cases platform req attempt (query false (head platform table req.ledgerID)) stamp
  · cases hrecord.symm.trans hfailed
  cases hrecord.symm.trans hphase
  obtain ⟨-, hhead⟩ := query_eq_ok.mp hread
  obtain ⟨last, hmem, -, rfl, hledger, hsequence, hlink, hkind⟩ :=
    follows_of_continuationRecord hcbor hholds hlegal hhead hinitialized hbuilt
  obtain ⟨validated, rfl, -⟩ := continuationRecord_eq_ok hcbor hbuilt
  have hlast := hlegal.bytes_ne_empty last.record (List.mem_map_of_mem hmem)
  have hnew := validated.spec.bytes_ne_empty hcbor
  refine ⟨_, hhead, ?_⟩
  rw [← hkind]
  constructor
  · intro hnone
    exact ((validateChainConsistency_successor hlast).mp (Prod.ext rfl hnone)).2.2.2.2.1
  · intro hother
    rw [(validateChainConsistency_successor hlast).mpr
      ⟨hnew, hledger, hsequence, hlink, hother, rfl⟩]

end Extends

/-- The executable platform, with a signature check that never fails. -/
abbrev samplePlatform : Platform := Platform.reference fun _ _ _ => true

/-- A clock reading of zero and a fixed signature. -/
def sampleStamp : Stamp where
  nowMS := 0
  keyReference := ascii "k"
  signature := some sampleSignature

/-- The sample stamp at another time. -/
def stampAt (nowMS : UInt64) : Stamp := { sampleStamp with nowMS := nowMS }

/-- An event with the empty map as its payload. -/
def sampleRequest (ledgerID : LedgerID) (eventKind : EventKind) : AdmitRequest where
  ledgerID := ledgerID
  eventKind := eventKind
  payloadVersion := 1
  payloadBytes := some [0xA0]

theorem sampleRequest_extends :
    ∃ (table : Table) (record : StructuralRecord) (state : ChainState),
      admitAfterHead samplePlatform (sampleRequest goldenGenesisFields.ledgerID 5) 0
        (query false (head samplePlatform table goldenGenesisFields.ledgerID)) sampleStamp =
          .admitAppend (sampleRequest goldenGenesisFields.ledgerID 5) 0 record ∧
      head samplePlatform table goldenGenesisFields.ledgerID = .ok state ∧
      (validateChainConsistency samplePlatform state record).2 = none := by
  have hcbor : samplePlatform.cbor.Conforms := reference_conforms
  obtain ⟨table, validated, hholds, hlegal, hhead⟩ := exists_goldenLedger hcbor
  have hfold : (foldChain samplePlatform .empty [validated.record]).2 = none := by
    rw [foldChain_eq_ok.mpr ⟨hlegal, rfl⟩]
  have hdomain : RecordFields.InDomain
      ⟨continuationFields (sampleRequest goldenGenesisFields.ledgerID 5)
        ⟨true, goldenGenesisFields.ledgerID, 1, validated.record.recordDigest⟩ 0, ascii "k",
        sampleSignature⟩ :=
    { sequence := show (1 + 1 : UInt64) ≠ 0 by decide
      kind := show (5 : EventKind) ≠ 0 by decide
      payloadVersion := show (1 : UInt64) ≠ 0 by decide
      payloadBytes := show 1 ≤ Slice.len (some [0xA0]) ∧ Slice.len (some [0xA0]) ≤ 65536 by decide
      signerKeyReference := show 1 ≤ (ascii "k").length ∧ (ascii "k").length ≤ 512 by decide
      printable := List.forall_mem_singleton.mpr (by decide)
      signatureBytes := show 8 ≤ sampleSignature.len ∧ sampleSignature.len ≤ 72 by decide }
  obtain ⟨record, hrecord⟩ : ∃ record, continuationRecord samplePlatform
      (sampleRequest goldenGenesisFields.ledgerID 5)
      ⟨true, goldenGenesisFields.ledgerID, 1, validated.record.recordDigest⟩ sampleStamp =
        .ok record :=
    ⟨_, continuationRecord_iff.mpr
      ⟨sampleSignature, rfl, (newRecordOfFields_eq_ok hcbor).mpr ⟨hdomain, rfl⟩⟩⟩
  have hphase : admitAfterHead samplePlatform (sampleRequest goldenGenesisFields.ledgerID 5) 0
      (query false (head samplePlatform table goldenGenesisFields.ledgerID)) sampleStamp =
        .admitAppend (sampleRequest goldenGenesisFields.ledgerID 5) 0 record := by
    rw [hhead]
    simp only [query, Bool.false_eq_true, if_false, mapError_ok, admitAfterHead, hrecord,
      Bool.true_eq_false]
  obtain ⟨state, hread, hvalid⟩ := admit_extends_iff samplePlatform hcbor table
    (sampleRequest goldenGenesisFields.ledgerID 5) [validated] hholds hfold 0 sampleStamp record
    hphase
  exact ⟨table, record, state, hphase, hread, hvalid.mpr (by decide)⟩

/-- `InitLedger` on an empty database, and then `Admit` of a second genesis up to
its append. -/
def secondGenesisRun : List Action :=
  [.start (.initLedger (FixedBytes.zero 32)) 3, .head 0 false sampleStamp,
    .append 0 .completed false,
    .start (.admitEvent (sampleRequest (FixedBytes.zero 32) eventKindLedgerInitialized)) 3,
    .head 1 false sampleStamp]

/-- The stored ledger passes chain validation, and the store takes a second
genesis record that does not. -/
theorem secondGenesis_appended :
    ∃ (system : System) (records : List StructuralRecord) (state : ChainState)
      (call : Call) (record : StructuralRecord),
      run samplePlatform .initial secondGenesisRun = some system ∧
      scanRecords samplePlatform system.table (FixedBytes.zero 32) 0 2 = .ok records ∧
      (foldChain samplePlatform .empty records).2 = none ∧
      head samplePlatform system.table (FixedBytes.zero 32) = .ok state ∧
      system.calls[1]? = some call ∧ call.phase.pending = some record ∧
      (Store.append system.table record).2 = none ∧
      (validateChainConsistency samplePlatform state record).2 ≠ none := by
  have hevaluated : (run samplePlatform .initial secondGenesisRun).any (fun system =>
      (scanRecords samplePlatform system.table (FixedBytes.zero 32) 0 2).toOption.any fun records =>
      (head samplePlatform system.table (FixedBytes.zero 32)).toOption.any fun state =>
      system.calls[1]?.any fun call => call.phase.pending.any fun record =>
        decide ((foldChain samplePlatform .empty records).2 = none ∧
          (Store.append system.table record).2 = none ∧
          (validateChainConsistency samplePlatform state record).2 ≠ none)) = true := by
    decide +kernel
  simp only [Option.any_eq_true, decide_eq_true_eq] at hevaluated
  obtain ⟨system, hrun, records, hscan, state, hhead, call, hcall, record, hrecord, hfold, happend,
    hinvalid⟩ := hevaluated
  exact ⟨system, records, state, call, record, hrun, toOption_eq_some.mp hscan, hfold,
    toOption_eq_some.mp hhead, hcall, hrecord, happend, hinvalid⟩

end AttributionChain.Admission

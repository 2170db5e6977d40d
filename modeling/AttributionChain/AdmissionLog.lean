import AttributionChain.AdmissionRuns

/-!
# What each call stored

A run is observed from outside: `observed` notes, for every step, its action and the
rows it added, and `entries` lists which call added which row.  The notes make it
possible to say what a call did over all its attempts, which its phase forgets.

A call stores at most one row because storing is the last thing it does
(`AppendsOnce`).  That it returns the record it was asked for needs more: after
`ErrDuplicateRecord` it returns what it finds under the digest of its own record,
which is that record only if SHA-256 has not collided on the two (`CollisionFree`).
Nothing here needs the ledgers to be chains; `Building` is all that is asked of the
table.
-/

namespace AttributionChain.Admission

open Cbor Ledger Endorsement Store Histories

variable {platform : Platform} {table later : Table} {ledgerID : LedgerID} {system : System}
  {request : Request} {req : AdmitRequest} {phase nextPhase : Phase} {maxRetries : Int64}
  {action : Action}

/-! ### The log of a run -/

/-- What a step did: its action, and the rows it added. -/
structure Event where
  action : Action
  added : List Row

def observed (system : System) (action : Action) (next : System) : Event where
  action := action
  added := next.table.rows.drop system.table.rows.length

/-- A row, and the call that added it. -/
structure Entry where
  client : Nat
  row : Row

def Event.entries (event : Event) : List Entry :=
  match event.action.client with
  | none => []
  | some client => event.added.map fun row => ⟨client, row⟩

def entries (log : List Event) : List Entry := log.flatMap Event.entries

theorem entries_concat (log : List Event) (event : Event) :
    entries (log ++ [event]) = entries log ++ event.entries := by
  simp [entries]

/-- **Inversion of an observed step.**  A call starts, or a call makes a query; only a
query that makes its call return can add a row. -/
theorem observed_cases {state next : System × List Event}
    (h : traced observed (step platform) state action = some next) :
    (∃ request maxRetries, action = .start request maxRetries ∧
      next.1 = ⟨state.1.table,
        state.1.calls ++ [⟨request, maxRetries, startCall platform maxRetries request⟩]⟩ ∧
      entries next.2 = entries state.2) ∨
    ∃ client call later phase, action.client = some client ∧
      state.1.calls[client]? = some call ∧
      Advances platform state.1.table call.maxRetries call.phase later phase ∧
      next.1 = state.1.advance client call later phase ∧
      (later = state.1.table ∧ entries next.2 = entries state.2 ∨
        ∃ record, call.phase.pending = some record ∧ phase.Stored ∧
          (∃ hadmits : state.1.table.Admits (rowOfRecord record),
            later = state.1.table.add (rowOfRecord record) hadmits) ∧
          entries next.2 = entries state.2 ++ [⟨client, rowOfRecord record⟩]) := by
  obtain ⟨hstep, hlog⟩ := traced_eq_some.mp h
  rw [hlog, entries_concat]
  rcases step_cases hstep with ⟨request, maxRetries, rfl, hnext⟩ |
    ⟨client, call, later, phase, hclient, hcall, hadvances, hnext⟩
  · exact .inl ⟨request, maxRetries, rfl, hnext, List.append_nil _⟩
  · refine .inr ⟨client, call, later, phase, hclient, hcall, hadvances, hnext, ?_⟩
    have hentries : (observed state.1 action next.1).entries =
        (later.rows.drop state.1.table.rows.length).map fun row => ⟨client, row⟩ := by
      simp only [Event.entries, observed, hclient, hnext, System.advance_table]
    rw [hentries]
    rcases hadvances.stored_cases with rfl | ⟨record, hpending, hstored, hadmits, rfl⟩
    · left
      simp
    · right
      refine ⟨record, hpending, hstored, ⟨hadmits, rfl⟩, ?_⟩
      simp [Table.add]

/-! ### At most one row for each call -/

/-- No call has two entries, and a call with an entry has returned. -/
structure AppendsOnce (state : System × List Event) : Prop where
  nodup : ((entries state.2).map Entry.client).Nodup
  stored : ∀ entry ∈ entries state.2, ∃ call,
    state.1.calls[entry.client]? = some call ∧ call.phase.Stored

theorem appendsOnce_start (system : System) : AppendsOnce (system, []) where
  nodup := List.nodup_nil
  stored entry hentry := by cases hentry

/-- A call that is about to make a query has no entry. -/
theorem AppendsOnce.ne_client {state : System × List Event} (h : AppendsOnce state) {client : Nat}
    {call : Call} (hcall : state.1.calls[client]? = some call)
    (hadvances : Advances platform table maxRetries call.phase later nextPhase) :
    ∀ entry ∈ entries state.2, entry.client ≠ client := by
  rintro entry hentry rfl
  obtain ⟨other, hother, hstored⟩ := h.stored entry hentry
  cases hcall.symm.trans hother
  generalize hphase : call.phase = phase at hstored hadvances
  cases hstored with
  | ok record => exact hadvances.ne_returned _ rfl
  | initUnclassified => exact hadvances.ne_returned _ rfl
  | admitUnclassified => exact hadvances.ne_returned _ rfl

theorem AppendsOnce.step {state next : System × List Event} (h : AppendsOnce state)
    (hstep : traced observed (Admission.step platform) state action = some next) :
    AppendsOnce next := by
  rcases observed_cases hstep with ⟨request, maxRetries, -, hnext, hentries⟩ |
    ⟨client, call, later, phase, -, hcall, hadvances, hnext, hcases⟩
  · refine ⟨hentries ▸ h.nodup, ?_⟩
    rw [hentries, hnext]
    intro entry hentry
    obtain ⟨call, hcall, hstored⟩ := h.stored entry hentry
    have hclient := (List.getElem?_eq_some_iff.mp hcall).1
    exact ⟨call, (List.getElem?_append_left hclient).trans hcall, hstored⟩
  · have hothers := h.ne_client hcall hadvances
    have hclient := (List.getElem?_eq_some_iff.mp hcall).1
    -- the calls with an entry are not the one that moves
    have hkept : ∀ entry ∈ entries state.2, ∃ other,
        next.1.calls[entry.client]? = some other ∧ other.phase.Stored := by
      intro entry hentry
      obtain ⟨other, hother, hstored⟩ := h.stored entry hentry
      refine ⟨other, ?_, hstored⟩
      rw [hnext, System.advance_calls, List.getElem?_set_ne (hothers entry hentry).symm]
      exact hother
    rcases hcases with ⟨-, hentries⟩ | ⟨record, -, hstored, -, hentries⟩
    · exact ⟨hentries ▸ h.nodup, hentries ▸ hkept⟩
    · refine ⟨?_, ?_⟩
      · rw [hentries]
        exact nodup_map_concat h.nodup hothers
      · rw [hentries]
        intro entry hentry
        rcases List.mem_append.mp hentry with hold | hnew
        · exact hkept entry hold
        · rw [List.mem_singleton.mp hnew]
          refine ⟨{ call with phase := phase }, ?_, hstored⟩
          rw [hnext, System.advance_calls]
          exact List.getElem?_set_self hclient

/-- **Every run appends at most once for each call.** -/
theorem appendsOnce_of_reaches {allowed : System × List Event → Action → Prop}
    {state : System × List Event}
    (h : Reaches (traced observed (step platform)) allowed (system, []) state) :
    AppendsOnce state :=
  h.invariant (appendsOnce_start system) fun _ _ _ _ honce _ hstep => honce.step hstep

/-! ### Records under construction -/

variable (platform) in
/-- The phases that a call can be in, and which record it has built. -/
inductive Builds : Request → Phase → Prop
  | initHead (ledgerID : LedgerID) : Builds (.initLedger ledgerID) (.initHead ledgerID)
  | initAppend (ledgerID : LedgerID) (validated : ValidatedRecord platform) :
      Builds (.initLedger ledgerID) (.initAppend validated.record)
  | admitHead {request : Request} {req : AdmitRequest} {attempt : Nat}
      (hasks : Asks platform request req) : Builds request (.admitHead req attempt)
  | admitAppend {request : Request} {req : AdmitRequest} {attempt : Nat} {head : ChainState}
      {nowMS : UInt64} {validated : ValidatedRecord platform} (hasks : Asks platform request req)
      (hfields : validated.record.event.fields = continuationFields req head nowMS) :
      Builds request (.admitAppend req attempt validated.record)
  | admitReread {request : Request} {req : AdmitRequest} {head : ChainState} {nowMS : UInt64}
      {validated : ValidatedRecord platform} (hasks : Asks platform request req)
      (hfields : validated.record.event.fields = continuationFields req head nowMS) :
      Builds request (.admitReread validated.record)
  | initReturned (ledgerID : LedgerID) (result : Except ServiceError StructuralRecord) :
      Builds (.initLedger ledgerID) (.returned result)
  | admitReturned (request : Request) {result : Except ServiceError StructuralRecord}
      (hresult : ∀ err, result ≠ .error (.persistGenesisRecord err)) :
      Builds request (.returned result)

theorem Builds.validated (h : Builds platform request phase) {record : StructuralRecord}
    (hpending : phase.pending = some record) :
    ∃ validated : ValidatedRecord platform, validated.record = record := by
  cases h with
  | initAppend _ validated =>
    cases hpending
    exact ⟨validated, rfl⟩
  | @admitAppend _ _ _ _ _ validated =>
    cases hpending
    exact ⟨validated, rfl⟩
  | _ => cases hpending

theorem builds_of_beforeAppend {err : ServiceError} (h : err.BeforeAppend) :
    Builds platform request (.returned (.error err)) := by
  apply Builds.admitReturned
  rintro _ herr
  cases herr
  exact h

theorem builds_admitAttempt (hasks : Asks platform request req) (attempt : Nat) :
    Builds platform request (admitAttempt maxRetries req attempt) := by
  rcases admitAttempt_cases maxRetries req attempt with hphase | hphase
  · rw [hphase]
    exact .admitHead hasks
  · rw [hphase]
    exact .admitReturned request (by simp)

theorem builds_startCall (request : Request) :
    Builds platform request (startCall platform maxRetries request) := by
  rcases startCall_cases platform maxRetries request with ⟨ledgerID, rfl, hphase⟩ |
    ⟨err, hbefore, hphase⟩ | ⟨req, hasks, -, hphase⟩
  · rw [hphase]
    exact .initHead ledgerID
  · rw [hphase]
    exact builds_of_beforeAppend hbefore
  · rw [hphase]
    exact builds_admitAttempt hasks 0

theorem Builds.advances (hcbor : platform.cbor.Conforms) (h : Builds platform request phase)
    (hadvances : Advances platform table maxRetries phase later nextPhase) :
    Builds platform request nextPhase := by
  cases hadvances with
  | @initHead ledgerID queryFails stamp =>
    cases h with
    | initHead =>
      rcases initAfterHead_cases platform ledgerID (query queryFails (head platform table ledgerID))
        stamp with ⟨err, hphase⟩ | ⟨record, hrecord, hphase⟩
      · rw [hphase]
        exact .initReturned ledgerID _
      · rw [hphase]
        obtain ⟨validated, rfl, -⟩ := genesisRecord_eq_ok hcbor hrecord
        exact .initAppend ledgerID validated
  | @admitHead req attempt queryFails stamp =>
    cases h with
    | admitHead hasks =>
      rcases admitAfterHead_cases platform req attempt
        (query queryFails (head platform table req.ledgerID)) stamp with
        ⟨err, hbefore, hphase⟩ | ⟨state, record, -, -, hrecord, hphase⟩
      · rw [hphase]
        exact builds_of_beforeAppend hbefore
      · rw [hphase]
        obtain ⟨validated, rfl, hfields⟩ := continuationRecord_eq_ok hcbor hrecord
        exact .admitAppend hasks hfields
  | @initAppend _ outcome _ err happend =>
    cases h with
    | initAppend ledgerID validated =>
      rcases err with _ | err
      · exact .initReturned ledgerID _
      · cases err <;> exact .initReturned ledgerID _
  | @admitAppend _ attempt _ outcome contextDone _ err happend =>
    cases h with
    | admitAppend hasks hfields =>
      rcases admitAfterAppend_cases maxRetries _ attempt _ contextDone err with ⟨-, hphase⟩ |
        ⟨-, hphase⟩ | ⟨-, hphase⟩ | ⟨failure, rfl | ⟨cause, rfl⟩, hphase⟩
      · rw [hphase]
        exact .admitReturned request (by simp)
      · rw [hphase]
        exact .admitReread hasks hfields
      · rw [hphase]
        exact builds_admitAttempt hasks _
      · rw [hphase]
        exact .admitReturned request (by simp)
      · rw [hphase]
        exact .admitReturned request (by simp)
  | reread =>
    obtain ⟨found, hphase⟩ := exists_admitAfterReread _ _
    rw [hphase]
    exact .admitReturned request (by simp)

variable (platform) in
/-- The rows of a ledger are records, and every call builds one. -/
structure Building (ledgerID : LedgerID) (system : System) : Prop where
  authentic : ∀ row ∈ system.table.rows, row.ledgerID = ledgerID → Authentic platform row
  builds : ∀ call ∈ system.calls, Builds platform call.request call.phase

theorem building_start (h : ∀ row ∈ table.rows, row.ledgerID = ledgerID → Authentic platform row) :
    Building platform ledgerID ⟨table, []⟩ where
  authentic := h
  builds call hcall := by cases hcall

theorem Building.step {next : System} (hcbor : platform.cbor.Conforms)
    (h : Building platform ledgerID system)
    (hstep : Admission.step platform system action = some next) :
    Building platform ledgerID next := by
  rcases step_cases hstep with
    ⟨request, maxRetries, -, rfl⟩ | ⟨client, call, later, phase, -, hcall, hadvances, rfl⟩
  · refine ⟨h.authentic, ?_⟩
    intro call hcall
    rcases List.mem_append.mp hcall with hold | hnew
    · exact h.builds call hold
    · rw [List.mem_singleton.mp hnew]
      exact builds_startCall request
  · have hbuilds := h.builds call (List.mem_of_getElem? hcall)
    constructor
    · intro row hrow hledger
      rcases hadvances.table_cases with rfl | ⟨record, hpending, hadmits, rfl⟩
      · exact h.authentic row hrow hledger
      · rcases List.mem_append.mp hrow with hold | hnew
        · exact h.authentic row hold hledger
        · obtain ⟨validated, rfl⟩ := hbuilds.validated hpending
          exact ⟨validated, List.mem_singleton.mp hnew⟩
    · intro other hother
      rcases List.mem_or_eq_of_mem_set hother with hold | rfl
      · exact h.builds other hold
      · exact hbuilds.advances hcbor hadvances

theorem building_of_reaches {allowed : System → Action → Prop} {start : System}
    (hcbor : platform.cbor.Conforms) (hstart : Building platform ledgerID start)
    (h : Reaches (step platform) allowed start system) : Building platform ledgerID system :=
  h.invariant hstart fun _ _ _ _ hbuilding _ hstep => hbuilding.step hcbor hstep

/-! ### Records that are returned -/

/-- The event of a record is the one that was asked for. -/
structure Carries (req : AdmitRequest) (record : StructuralRecord) : Prop where
  ledgerID : record.event.ledgerID = req.ledgerID
  kind : record.event.kind = req.eventKind
  payloadVersion : record.event.payloadVersion = req.payloadVersion
  payloadBytes : record.event.payloadBytes = req.payloadBytes

theorem carries_of_fields {record : StructuralRecord} {head : ChainState} {nowMS : UInt64}
    (h : record.event.fields = continuationFields req head nowMS) : Carries req record where
  ledgerID := congrArg EventFields.ledgerID h
  kind := congrArg EventFields.kind h
  payloadVersion := congrArg EventFields.payloadVersion h
  payloadBytes := congrArg EventFields.payloadBytes h

theorem Asks.unique {other : AdmitRequest} (h : Asks platform request req)
    (hother : Asks platform request other) : req = other := by
  cases h with
  | admitEvent =>
    cases hother with
    | admitEvent => rfl
  | endorsement hverify hencode =>
    cases hother with
    | endorsement _ hencodeOther =>
      cases hencode.symm.trans hencodeOther
      rfl
  | revocation hverify hencode =>
    cases hother with
    | revocation _ hencodeOther =>
      cases hencode.symm.trans hencodeOther
      rfl

variable (platform) in
/-- The records that the rows of a table hold. -/
def readable (table : Table) : List StructuralRecord :=
  table.rows.filterMap fun row => (validateRecordStructure platform row.recordBytes).toOption

variable (platform) in
/-- SHA-256 does not collide on the record that a call is about to append and those
that are stored. -/
def CollisionFree (system : System) (action : Action) : Prop :=
  ∀ client ∈ action.client, ∀ call ∈ system.calls[client]?, ∀ record ∈ call.phase.pending,
    platform.NoCollision { preimage | ∃ stored ∈ record :: readable platform system.table,
      preimage = domainSeparated domainRecordDigestV1 stored.recordBodyBytes }

instance (system : System) (action : Action) :
    Decidable (CollisionFree platform system action) :=
  decidable_of_iff (∀ client ∈ action.client, ∀ call ∈ system.calls[client]?,
      ∀ record ∈ call.phase.pending, ∀ left ∈ record :: readable platform system.table,
      ∀ right ∈ record :: readable platform system.table,
      platform.sha256 (domainSeparated domainRecordDigestV1 left.recordBodyBytes) =
        platform.sha256 (domainSeparated domainRecordDigestV1 right.recordBodyBytes) →
      domainSeparated domainRecordDigestV1 left.recordBodyBytes =
        domainSeparated domainRecordDigestV1 right.recordBodyBytes) <| by
    constructor
    · rintro h client hclient call hcall record hrecord _ ⟨left, hleft, rfl⟩ _ ⟨right, hright, rfl⟩
      exact h client hclient call hcall record hrecord left hleft right hright
    · intro h client hclient call hcall record hrecord left hleft right hright
      exact h client hclient call hcall record hrecord ⟨left, hleft, rfl⟩ ⟨right, hright, rfl⟩

theorem mem_readable {validated : ValidatedRecord platform}
    (h : rowOfRecord validated.record ∈ table.rows) :
    validated.record ∈ readable platform table := by
  refine List.mem_filterMap.mpr ⟨_, h, ?_⟩
  simp [rowOfRecord, validated.valid, Except.toOption]

/-- A stored row with the digest of the pending record is that record's row. -/
theorem row_of_digest_eq {validated : ValidatedRecord platform} {row : Row}
    (hauthentic : Authentic platform row) (hrow : row ∈ table.rows)
    (hcollision : platform.NoCollision { preimage | ∃ stored ∈
      validated.record :: readable platform table,
      preimage = domainSeparated domainRecordDigestV1 stored.recordBodyBytes })
    (hdigest : row.recordDigest = validated.record.recordDigest) :
    rowOfRecord validated.record = row := by
  obtain ⟨stored, rfl⟩ := hauthentic
  have hdigest : stored.record.recordDigest = validated.record.recordDigest := hdigest
  rw [stored.spec.recordDigest, validated.spec.recordDigest] at hdigest
  have hpreimage := hcollision
    ⟨stored.record, List.mem_cons_of_mem _ (mem_readable hrow), rfl⟩
    ⟨validated.record, List.mem_cons_self .., rfl⟩ hdigest
  rw [ValidatedRecord.eq_of_recordBodyBytes_eq (domainSeparated_injective _ hpreimage)]

variable (platform) in
/-- What a call has to show for itself: a record that it found stored is stored, and so
is the one it returned, which carries what was asked for. -/
structure Delivered (table : Table) (request : Request) (phase : Phase) : Prop where
  reread : ∀ record, phase = .admitReread record → rowOfRecord record ∈ table.rows
  returned : ∀ req record, Asks platform request req → phase = .returned (.ok record) →
    Carries req record ∧ rowOfRecord record ∈ table.rows ∧
      ∃ validated : ValidatedRecord platform, validated.record = record

theorem Delivered.mono (h : Delivered platform table request phase)
    (hrows : ∀ row ∈ table.rows, row ∈ later.rows) : Delivered platform later request phase where
  reread record hphase := hrows _ (h.reread record hphase)
  returned req record hasks hphase := by
    obtain ⟨hcarries, hstored, hvalidated⟩ := h.returned req record hasks hphase
    exact ⟨hcarries, hrows _ hstored, hvalidated⟩

/-- A phase that is neither of the two. -/
theorem delivered_of_other (hreread : ∀ record, phase ≠ .admitReread record)
    (hreturned : ∀ record, phase ≠ .returned (.ok record)) :
    Delivered platform table request phase where
  reread record hphase := absurd hphase (hreread record)
  returned _ record _ hphase := absurd hphase (hreturned record)

theorem delivered_admitAttempt (attempt : Nat) :
    Delivered platform table request (admitAttempt maxRetries req attempt) := by
  rcases admitAttempt_cases maxRetries req attempt with hphase | hphase
  · rw [hphase]
    exact delivered_of_other (by simp) (by simp)
  · rw [hphase]
    exact delivered_of_other (by simp) (by simp)

theorem delivered_startCall (request : Request) :
    Delivered platform table request (startCall platform maxRetries request) := by
  rcases startCall_cases platform maxRetries request with ⟨ledgerID, -, hphase⟩ |
    ⟨err, -, hphase⟩ | ⟨req, -, -, hphase⟩
  · rw [hphase]
    exact delivered_of_other (by simp) (by simp)
  · rw [hphase]
    exact delivered_of_other (by simp) (by simp)
  · rw [hphase]
    exact delivered_admitAttempt 0

/-- A call that has found its record stored. -/
theorem delivered_of_found {record : StructuralRecord} (hstored : rowOfRecord record ∈ table.rows) :
    Delivered platform table request (.admitReread record) where
  reread other hphase := by
    cases hphase
    exact hstored
  returned _ other _ hphase := by cases hphase

/-- A call that returns its own record, which is stored. -/
theorem delivered_of_stored {validated : ValidatedRecord platform} {head : ChainState}
    {nowMS : UInt64} (hasks : Asks platform request req)
    (hfields : validated.record.event.fields = continuationFields req head nowMS)
    (hstored : rowOfRecord validated.record ∈ table.rows) :
    Delivered platform table request (.returned (.ok validated.record)) where
  reread record hphase := by cases hphase
  returned other record hother hphase := by
    cases hphase
    cases hasks.unique hother
    exact ⟨carries_of_fields hfields, hstored, validated, rfl⟩

/-- **One query**: what the call has found or returned is stored. -/
theorem Delivered.advances
    (hauthentic : ∀ row ∈ table.rows, Authentic platform row)
    (hbuilds : Builds platform request phase) (h : Delivered platform table request phase)
    (hcollision : ∀ record ∈ phase.pending, platform.NoCollision { preimage | ∃ stored ∈
      record :: readable platform table,
      preimage = domainSeparated domainRecordDigestV1 stored.recordBodyBytes })
    (hadvances : Advances platform table maxRetries phase later nextPhase) :
    Delivered platform later request nextPhase := by
  have hkept := hadvances.rows_subset
  cases hadvances with
  | @initHead ledgerID queryFails stamp =>
    rcases initAfterHead_cases platform ledgerID (query queryFails (head platform table ledgerID))
      stamp with ⟨err, hphase⟩ | ⟨record, -, hphase⟩
    · rw [hphase]
      exact delivered_of_other (by simp) (by simp)
    · rw [hphase]
      exact delivered_of_other (by simp) (by simp)
  | @admitHead req attempt queryFails stamp =>
    rcases admitAfterHead_cases platform req attempt
      (query queryFails (head platform table req.ledgerID)) stamp with
      ⟨err, -, hphase⟩ | ⟨state, record, -, -, -, hphase⟩
    · rw [hphase]
      exact delivered_of_other (by simp) (by simp)
    · rw [hphase]
      exact delivered_of_other (by simp) (by simp)
  | @initAppend record outcome _ err happend =>
    cases hbuilds with
    | initAppend ledgerID validated =>
      refine ⟨?_, ?_⟩
      · intro other hphase
        rcases err with _ | err
        · cases hphase
        · cases err <;> cases hphase
      · intro req other hasks
        cases hasks
  | @admitAppend req attempt record outcome contextDone _ err happend =>
    cases hbuilds with
    | @admitAppend _ _ _ head nowMS validated hasks hfields =>
      rcases admitAfterAppend_cases maxRetries req attempt validated.record contextDone err with
        ⟨rfl, hphase⟩ | ⟨rfl, hphase⟩ | ⟨-, hphase⟩ | ⟨failure, -, hphase⟩
      · rw [hphase]
        rcases appendWith_cases happend with ⟨-, hfailed⟩ | ⟨⟨hadmits, rfl⟩, -⟩
        · exact absurd rfl hfailed
        · exact delivered_of_stored hasks hfields
            (List.mem_append_right _ (List.mem_singleton_self _))
      · -- the digest is taken, and by the same record
        obtain ⟨row, hrow, hdigest⟩ := append_eq_duplicate (appendWith_eq_some happend (by simp))
        have hsame := row_of_digest_eq (hauthentic row hrow) hrow (hcollision validated.record rfl)
          hdigest
        rw [hphase]
        apply delivered_of_found
        rw [hsame]
        exact hkept row hrow
      · rw [hphase]
        exact delivered_admitAttempt _
      · rw [hphase]
        exact delivered_of_other (by simp) (by simp)
  | @reread record queryFails =>
    cases hbuilds with
    | @admitReread _ _ head nowMS validated hasks hfields =>
      have hstored := h.reread _ rfl
      have hread := record_of_row hstored
      have hphase : admitAfterReread validated.record (query queryFails
          (Store.record platform table validated.record.recordDigest)) =
          .returned (.ok validated.record) := by
        rw [hread]
        cases queryFails with
        | true => rfl
        | false => rfl
      rw [hphase]
      exact delivered_of_stored hasks hfields hstored

variable (platform) in
/-- A record is returned by an `InitLedger` that has stored it, or by a call that came
to `Admit`. -/
def Answered (table : Table) (request : Request) (phase : Phase) : Prop :=
  ∀ record, phase = .returned (.ok record) →
    (∃ ledgerID, request = .initLedger ledgerID ∧ rowOfRecord record ∈ table.rows ∧
      ∃ validated : ValidatedRecord platform, validated.record = record) ∨
    ∃ req, Asks platform request req

theorem Builds.answered (hbuilds : Builds platform request phase)
    (hadvances : Advances platform table maxRetries phase later nextPhase) :
    Answered platform later request nextPhase := by
  intro record hphase
  cases hadvances with
  | @initHead ledgerID queryFails stamp =>
    rcases initAfterHead_cases platform ledgerID (query queryFails (head platform table ledgerID))
      stamp with ⟨err, hfailed⟩ | ⟨other, -, hpending⟩
    · cases hfailed.symm.trans hphase
    · cases hpending.symm.trans hphase
  | @initAppend built outcome _ err happend =>
    cases hbuilds with
    | initAppend ledgerID validated =>
      left
      rcases appendWith_cases happend with ⟨rfl, hfailed⟩ | ⟨⟨hadmits, rfl⟩, rfl | rfl⟩
      · rcases err with _ | err
        · exact absurd rfl hfailed
        · cases err <;> cases hphase
      · cases hphase
        exact ⟨ledgerID, rfl, List.mem_append_right _ (List.mem_singleton_self _), validated, rfl⟩
      · cases hphase
  | admitHead =>
    cases hbuilds with
    | admitHead hasks => exact .inr ⟨_, hasks⟩
  | admitAppend =>
    cases hbuilds with
    | admitAppend hasks => exact .inr ⟨_, hasks⟩
  | reread =>
    cases hbuilds with
    | admitReread hasks => exact .inr ⟨_, hasks⟩

/-! ### Nothing lost, nothing twice -/

theorem rows_subset_of_reaches {allowed : System → Action → Prop} {start : System}
    (h : Reaches (step platform) allowed start system) :
    ∀ row ∈ start.table.rows, row ∈ system.table.rows := by
  intro row hrow
  apply h.invariant
  · exact hrow
  intro state action next _ hkept _ hstep
  rcases step_cases hstep with
    ⟨request, maxRetries, -, rfl⟩ | ⟨client, call, later, phase, -, -, hadvances, rfl⟩
  · exact hkept
  · exact hadvances.rows_subset row hkept

/-- **Every run delivers** the records that its calls return. -/
theorem delivered_of_reaches (hcbor : platform.cbor.Conforms)
    (hrows : ∀ row ∈ table.rows, Authentic platform row)
    (h : Reaches (step platform) (CollisionFree platform) ⟨table, []⟩ system) :
    ∀ call ∈ system.calls, Delivered platform system.table call.request call.phase := by
  apply h.invariant
  · intro call hcall
    cases hcall
  intro state action next hreaches hdelivered hcollision hstep call hcall
  have hbuilding : ∀ ledgerID, Building platform ledgerID state := fun ledgerID =>
    building_of_reaches hcbor (building_start fun row hrow _ => hrows row hrow) hreaches
  rcases step_cases hstep with
    ⟨request, maxRetries, -, rfl⟩ | ⟨client, moved, later, phase, hclient, hmoved, hadvances, rfl⟩
  · rcases List.mem_append.mp hcall with hold | hnew
    · exact hdelivered call hold
    · rw [List.mem_singleton.mp hnew]
      exact delivered_startCall request
  · rcases List.mem_or_eq_of_mem_set hcall with hold | rfl
    · exact (hdelivered call hold).mono hadvances.rows_subset
    · have hmem := List.mem_of_getElem? hmoved
      refine (hdelivered moved hmem).advances ?_ ((hbuilding (.zero 32)).builds moved hmem)
        (hcollision client hclient moved hmoved) hadvances
      intro row hrow
      exact (hbuilding row.ledgerID).authentic row hrow rfl

theorem answered_of_reaches {allowed : System → Action → Prop} (hcbor : platform.cbor.Conforms)
    (hrows : ∀ row ∈ table.rows, Authentic platform row)
    (h : Reaches (step platform) allowed ⟨table, []⟩ system) :
    ∀ call ∈ system.calls, Answered platform system.table call.request call.phase := by
  apply h.invariant
  · intro call hcall
    cases hcall
  intro state action next hreaches hanswered _ hstep call hcall
  rcases step_cases hstep with
    ⟨request, maxRetries, -, rfl⟩ | ⟨client, moved, later, phase, -, hmoved, hadvances, rfl⟩
  · rcases List.mem_append.mp hcall with hold | hnew
    · exact hanswered call hold
    · rw [List.mem_singleton.mp hnew]
      intro record hphase
      exact absurd hphase (startCall_ne_ok record)
  · rcases List.mem_or_eq_of_mem_set hcall with hold | rfl
    · intro record hphase
      rcases hanswered call hold record hphase with ⟨ledgerID, hrequest, hstored, hvalid⟩ | hasks
      · exact .inl ⟨ledgerID, hrequest, hadvances.rows_subset _ hstored, hvalid⟩
      · exact .inr hasks
    · have hbuilding : Building platform (.zero 32) state :=
        building_of_reaches hcbor (building_start fun row hrow _ => hrows row hrow) hreaches
      exact (hbuilding.builds moved (List.mem_of_getElem? hmoved)).answered hadvances

/-- **No lost and no duplicated admission.**  Start with any table of records, and take
any interleaving of calls in which SHA-256 does not collide.  A record that a call
returns carries the request and can be read back from then on; a call stores at most
one row; and one that returned an error has stored none, unless `Append` failed in a
way that says nothing. -/
theorem admissions_exact (platform : Platform) (hcbor : platform.cbor.Conforms) (table : Table)
    (hrows : ∀ row ∈ table.rows, Authentic platform row) (system : System) (log : List Event)
    (h : Reaches (traced observed (step platform))
      (fun state action => CollisionFree platform state.1 action) (⟨table, []⟩, []) (system, log))
    (client : Nat) (call : Call) (hcall : system.calls[client]? = some call) (req : AdmitRequest)
    (hasks : Asks platform call.request req) :
    (∀ record, call.phase = .returned (.ok record) →
      Carries req record ∧ rowOfRecord record ∈ system.table.rows ∧
      ∀ later, Reaches (step platform) (fun _ _ => True) system later →
        Store.record platform later.table record.recordDigest = .ok record) ∧
    ((entries log).map Entry.client).count client ≤ 1 ∧
    ∀ err, call.phase = .returned (.error err) → err ≠ .persistRecord .unclassified →
      ∀ entry ∈ entries log, entry.client ≠ client := by
  have honce : AppendsOnce (system, log) := appendsOnce_of_reaches h
  have hreaches : Reaches (step platform) (CollisionFree platform) ⟨table, []⟩ system := h.of_traced
  have hmem := List.mem_of_getElem? hcall
  refine ⟨?_, List.nodup_iff_count_le_one.mp honce.nodup client, ?_⟩
  · intro record hphase
    obtain ⟨hcarries, hstored, validated, rfl⟩ :=
      (delivered_of_reaches hcbor hrows hreaches call hmem).returned req record hasks hphase
    refine ⟨hcarries, hstored, ?_⟩
    intro later hlater
    exact record_of_row (rows_subset_of_reaches hlater _ hstored)
  · rintro err hphase hclassified entry hentry rfl
    obtain ⟨other, hother, hstored⟩ := honce.stored entry hentry
    cases hcall.symm.trans hother
    rw [hphase] at hstored
    cases hstored with
    | admitUnclassified => exact hclassified rfl
    | initUnclassified =>
      -- only `InitLedger` fails in this way, and it asks for nothing
      have hbuilding : Building platform req.ledgerID system :=
        building_of_reaches hcbor (building_start fun row hrow _ => hrows row hrow) hreaches
      have hbuilds := hbuilding.builds call hmem
      rw [hphase] at hbuilds
      generalize hrequest : call.request = request at hbuilds hasks
      cases hbuilds with
      | initReturned => cases hasks
      | admitReturned _ hresult => exact hresult _ rfl

/-- `InitLedger`, and an `Admit` that is about to begin. -/
def contendedFront : List Action :=
  initRun ++ [.start (.admitEvent (sampleRequest (FixedBytes.zero 32) 5)) 0]

/-- A second `Admit` that reads the same head and is the second to append. -/
def contendedRest : List Action :=
  [.head 1 false sampleStamp, .head 2 false sampleStamp, .append 1 .completed false,
    .append 2 .completed false]

/-- The first call returns a record and the second, with no retries, the contention
error. -/
theorem contended_evaluates :
    ∃ (before opened final : System) (winner loser : Call) (record : StructuralRecord),
      contendedFront.foldlM (checkedStep (CollisionFree samplePlatform) (step samplePlatform))
        .initial = some before ∧ before.calls.length = 2 ∧
      checkedStep (CollisionFree samplePlatform) (step samplePlatform) before
        (.start (.admitEvent (sampleRequest (FixedBytes.zero 32) 6)) 0) = some opened ∧
      contendedRest.foldlM (checkedStep (CollisionFree samplePlatform) (step samplePlatform))
        opened = some final ∧
      final.calls[1]? = some winner ∧ final.calls[2]? = some loser ∧
      winner.request = .admitEvent (sampleRequest (FixedBytes.zero 32) 5) ∧
      loser.request = .admitEvent (sampleRequest (FixedBytes.zero 32) 6) ∧
      winner.phase = .returned (.ok record) ∧
      loser.phase = .returned (.error (.retriesExceeded 0)) := by
  have hevaluated : (contendedFront.foldlM
      (checkedStep (CollisionFree samplePlatform) (step samplePlatform)) .initial).any (
        fun before => before.calls.length = 2 &&
        (checkedStep (CollisionFree samplePlatform) (step samplePlatform) before
          (.start (.admitEvent (sampleRequest (FixedBytes.zero 32) 6)) 0)).any fun opened =>
        (contendedRest.foldlM (checkedStep (CollisionFree samplePlatform) (step samplePlatform))
          opened).any fun final =>
        final.calls[1]?.any fun winner => final.calls[2]?.any fun loser =>
          decide (winner.request = .admitEvent (sampleRequest (FixedBytes.zero 32) 5) ∧
            loser.request = .admitEvent (sampleRequest (FixedBytes.zero 32) 6) ∧
            loser.phase.failure = some (.retriesExceeded 0)) &&
          winner.phase.answer.isSome) = true := by
    decide +kernel
  simp only [Option.any_eq_true, Bool.and_eq_true, decide_eq_true_eq, Option.isSome_iff_exists]
    at hevaluated
  obtain ⟨before, hbefore, hlength, opened, hopened, final, hfinal, winner, hwinner, loser, hloser,
    ⟨hrequest, hloserRequest, herr⟩, record, hrecord⟩ := hevaluated
  exact ⟨before, opened, final, winner, loser, record, hbefore, hlength, hopened, hfinal, hwinner,
    hloser, hrequest, hloserRequest, Phase.answer_eq_some.mp hrecord,
    Phase.failure_eq_some.mp herr⟩

theorem contended_delivered :
    ∃ (final : System) (log : List Event) (winner loser : Call) (record : StructuralRecord),
      Reaches (traced observed (step samplePlatform))
        (fun state action => CollisionFree samplePlatform state.1 action) (.initial, [])
        (final, log) ∧
      final.calls[1]? = some winner ∧ winner.phase = .returned (.ok record) ∧
      Carries (sampleRequest (FixedBytes.zero 32) 5) record ∧
      Store.record samplePlatform final.table record.recordDigest = .ok record ∧
      ((entries log).map Entry.client).count 1 ≤ 1 ∧
      final.calls[2]? = some loser ∧ loser.phase = .returned (.error (.retriesExceeded 0)) ∧
      ∀ entry ∈ entries log, entry.client ≠ 2 := by
  obtain ⟨before, opened, final, winner, loser, record, hbefore, hlength, hopened, hrest, hwinner,
    hloser, hrequest, hloserRequest, hrecord, herr⟩ := contended_evaluates
  obtain ⟨hreachesBefore, -⟩ := Reaches.refl.of_checked hbefore
  obtain ⟨hcollision, hstep⟩ := checkedStep_eq_some.mp hopened
  obtain ⟨hreaches, -⟩ := (hreachesBefore.step hcollision hstep).of_checked hrest
  obtain ⟨log, htraced⟩ := hreaches.exists_traced
  have hasks : Asks samplePlatform winner.request (sampleRequest (FixedBytes.zero 32) 5) := by
    rw [hrequest]
    exact .admitEvent _
  have hloserAsks : Asks samplePlatform loser.request (sampleRequest (FixedBytes.zero 32) 6) := by
    rw [hloserRequest]
    exact .admitEvent _
  obtain ⟨hdelivered, hcount, -⟩ := admissions_exact samplePlatform reference_conforms .empty
    authentic_empty final log htraced 1 winner hwinner _ hasks
  obtain ⟨-, -, hnone⟩ := admissions_exact samplePlatform reference_conforms .empty
    authentic_empty final log htraced 2 loser hloser _ hloserAsks
  obtain ⟨hcarries, -, hread⟩ := hdelivered record hrecord
  exact ⟨final, log, winner, loser, record, htraced, hwinner, hrecord, hcarries,
    hread final .refl, hcount, hloser, herr, hnone _ herr (by simp)⟩

end AttributionChain.Admission

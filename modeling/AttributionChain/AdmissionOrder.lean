import AttributionChain.AdmissionLog
import AttributionChain.Projectability

/-!
# Admission in real time

Steps of a run happen one after the other, so that a run up to a moment followed by a
run from it says what came before what.  `BuiltOn` is a record at the moment a call
builds it, and `step_carried` says that this is the only way for a call to come by a
record, other than finding its own stored.

* `admissions_in_order`: a call that begins after a moment returns a record that comes
  after every record stored at that moment.
* `timestamps_in_order`: when the clock does not run backwards, the admission times of a
  ledger do not either.
-/

namespace AttributionChain.Admission

open Cbor Ledger Endorsement Store Histories

variable {platform : Platform} {table : Table} {ledgerID : LedgerID} {system next later : System}
  {request : Request} {req : AdmitRequest} {phase nextPhase : Phase} {maxRetries : Int64}
  {action : Action} {record : StructuralRecord} {stamp : Stamp} {client : Nat} {call : Call}

/-! ### The record of a call -/

/-- The record that a call is about to append, looks for or has returned. -/
def Phase.carried : Phase → Option StructuralRecord
  | .initAppend record | .admitAppend _ _ record | .admitReread record
  | .returned (.ok record) => some record
  | _ => none

theorem carried_of_pending (h : phase.pending = some record) : phase.carried = some record := by
  cases phase with
  | initAppend | admitAppend => exact h
  | initHead | admitHead | admitReread | returned => cases h

variable (platform) in
/-- The record that a call builds on the head it has just read. -/
inductive BuiltOn (table : Table) (stamp : Stamp) (record : StructuralRecord) : Phase → Prop
  | genesis {ledgerID : LedgerID} {state : ChainState}
      (hhead : head platform table ledgerID = .ok state) (hempty : state.initialized = false)
      (hrecord : genesisRecord platform ledgerID stamp = .ok record) :
      BuiltOn table stamp record (.initHead ledgerID)
  | continuation {req : AdmitRequest} {attempt : Nat} {state : ChainState}
      (hhead : head platform table req.ledgerID = .ok state)
      (hinitialized : state.initialized = true)
      (hrecord : continuationRecord platform req state stamp = .ok record) :
      BuiltOn table stamp record (.admitHead req attempt)

theorem builtOn_of_initAfterHead {queryFails : Bool}
    (h : (initAfterHead platform ledgerID (query queryFails (head platform table ledgerID))
      stamp).carried = some record) :
    BuiltOn platform table stamp record (.initHead ledgerID) := by
  rcases hread : query queryFails (head platform table ledgerID) with err | state
  · rw [hread] at h
    cases h
  · rw [hread] at h
    unfold initAfterHead at h
    cases hinitialized : state.initialized with
    | true => simp [hinitialized, Phase.carried] at h
    | false =>
      rcases hrecord : genesisRecord platform ledgerID stamp with err | built
      · simp [hinitialized, hrecord, Phase.carried] at h
      · simp [hinitialized, hrecord, Phase.carried] at h
        subst h
        exact .genesis (query_eq_ok.mp hread).2 hinitialized hrecord

theorem builtOn_of_admitAfterHead {queryFails : Bool} {attempt : Nat}
    (h : (admitAfterHead platform req attempt
      (query queryFails (head platform table req.ledgerID)) stamp).carried = some record) :
    BuiltOn platform table stamp record (.admitHead req attempt) := by
  rcases admitAfterHead_cases platform req attempt
    (query queryFails (head platform table req.ledgerID)) stamp with
    ⟨err, -, hphase⟩ | ⟨state, built, hread, hinitialized, hbuilt, hphase⟩
  · rw [hphase] at h
    cases h
  · rw [hphase] at h
    cases h
    exact .continuation (query_eq_ok.mp hread).2 hinitialized hbuilt

theorem calls_of_set {moved : Call} {i : Nat} {calls : List Call}
    (h : (calls.set i moved)[client]? = some call) :
    (client = i ∧ call = moved) ∨ calls[client]? = some call := by
  rw [List.getElem?_set] at h
  by_cases hclient : i = client
  · rw [if_pos hclient] at h
    by_cases hbound : i < calls.length
    · rw [if_pos hbound] at h
      exact .inl ⟨hclient.symm, (Option.some.inj h).symm⟩
    · rw [if_neg hbound] at h
      cases h
  · rw [if_neg hclient] at h
    exact .inr h

theorem carried_admitAttempt (attempt : Nat) :
    (admitAttempt maxRetries req attempt).carried = none := by
  rcases admitAttempt_cases maxRetries req attempt with hphase | hphase
  · rw [hphase]
    rfl
  · rw [hphase]
    rfl

theorem carried_startCall (request : Request) :
    (startCall platform maxRetries request).carried = none := by
  rcases startCall_cases platform maxRetries request with ⟨ledgerID, -, hphase⟩ |
    ⟨err, -, hphase⟩ | ⟨req, -, -, hphase⟩
  · rw [hphase]
    rfl
  · rw [hphase]
    rfl
  · rw [hphase, carried_admitAttempt]

theorem eq_of_carried_initAfterAppend {err : Option AppendError} {built : StructuralRecord}
    (h : (initAfterAppend built err).carried = some record) : built = record := by
  rcases err with _ | err
  · exact Option.some.inj h
  · cases err <;> cases h

theorem eq_of_carried_admitAfterAppend {attempt : Nat} {contextDone : Bool}
    {err : Option AppendError} {built : StructuralRecord}
    (h : (admitAfterAppend maxRetries req attempt built contextDone err).carried = some record) :
    built = record := by
  rcases admitAfterAppend_cases maxRetries req attempt built contextDone err with ⟨-, hphase⟩ |
    ⟨-, hphase⟩ | ⟨-, hphase⟩ | ⟨failure, -, hphase⟩
  · rw [hphase] at h
    exact Option.some.inj h
  · rw [hphase] at h
    exact Option.some.inj h
  · rw [hphase, carried_admitAttempt] at h
    cases h
  · rw [hphase] at h
    cases h

/-- **Where the record of a call comes from.**  The call had it before the step, has built
it in the step, or has found it stored under the digest of the one it had. -/
theorem step_carried (h : step platform system action = some next)
    (hcall : next.calls[client]? = some call) (hcarried : call.phase.carried = some record) :
    (∃ before, system.calls[client]? = some before ∧ before.phase.carried = some record) ∨
    (∃ stamp queryFails before, action = .head client queryFails stamp ∧
      system.calls[client]? = some before ∧
      BuiltOn platform system.table stamp record before.phase) ∨
    ∃ before built, system.calls[client]? = some before ∧ before.phase = .admitReread built ∧
      Store.record platform system.table built.recordDigest = .ok record := by
  cases action with
  | start request maxRetries =>
    cases h
    rcases getElem?_concat_eq_some.mp hcall with hold | ⟨-, rfl⟩
    · exact .inl ⟨call, hold, hcarried⟩
    · rw [carried_startCall] at hcarried
      cases hcarried
  | head acting queryFails stamp =>
    rcases hacting : system.calls[acting]? with _ | before
    · simp [step, hacting] at h
    · obtain ⟨asked, retries, phase⟩ := before
      cases phase with
      | initHead ledgerID =>
        simp only [step, hacting, Option.some.injEq] at h
        subst h
        rcases calls_of_set hcall with ⟨rfl, rfl⟩ | hold
        · exact .inr (.inl ⟨stamp, queryFails, _, rfl, hacting, builtOn_of_initAfterHead hcarried⟩)
        · exact .inl ⟨call, hold, hcarried⟩
      | admitHead req attempt =>
        simp only [step, hacting, Option.some.injEq] at h
        subst h
        rcases calls_of_set hcall with ⟨rfl, rfl⟩ | hold
        · exact .inr (.inl ⟨stamp, queryFails, _, rfl, hacting, builtOn_of_admitAfterHead hcarried⟩)
        · exact .inl ⟨call, hold, hcarried⟩
      | _ => simp [step, hacting] at h
  | append acting outcome contextDone =>
    rcases hacting : system.calls[acting]? with _ | before
    · simp [step, hacting] at h
    · obtain ⟨asked, retries, phase⟩ := before
      cases phase with
      | initAppend built =>
        simp only [step, hacting, Option.some.injEq] at h
        subst h
        rcases calls_of_set hcall with ⟨rfl, rfl⟩ | hold
        · refine .inl ⟨_, hacting, ?_⟩
          exact congrArg some (eq_of_carried_initAfterAppend hcarried)
        · exact .inl ⟨call, hold, hcarried⟩
      | admitAppend req attempt built =>
        simp only [step, hacting, Option.some.injEq] at h
        subst h
        rcases calls_of_set hcall with ⟨rfl, rfl⟩ | hold
        · refine .inl ⟨_, hacting, ?_⟩
          exact congrArg some (eq_of_carried_admitAfterAppend hcarried)
        · exact .inl ⟨call, hold, hcarried⟩
      | _ => simp [step, hacting] at h
  | reread acting queryFails =>
    rcases hacting : system.calls[acting]? with _ | before
    · simp [step, hacting] at h
    · obtain ⟨asked, retries, phase⟩ := before
      cases phase with
      | admitReread built =>
        simp only [step, hacting, Option.some.injEq] at h
        subst h
        rcases calls_of_set hcall with ⟨rfl, rfl⟩ | hold
        · rcases hread : query queryFails
            (Store.record platform system.table built.recordDigest) with err | existing
          · rw [hread] at hcarried
            exact .inl ⟨_, hacting, hcarried⟩
          · rw [hread] at hcarried
            cases hcarried
            exact .inr (.inr ⟨_, built, hacting, rfl, (query_eq_ok.mp hread).2⟩)
        · exact .inl ⟨call, hold, hcarried⟩
      | _ => simp [step, hacting] at h

/-- A call that comes to hold a record for appending held none before. -/
theorem Advances.carried_eq_none {later : Table}
    (h : Advances platform table maxRetries phase later nextPhase)
    (hpending : nextPhase.pending = some record) : phase.carried = none := by
  cases h with
  | initHead | admitHead => rfl
  | @initAppend _ _ _ err _ =>
    rcases err with _ | err
    · cases hpending
    · cases err <;> cases hpending
  | @admitAppend req attempt built _ contextDone _ err _ =>
    rcases admitAfterAppend_cases maxRetries req attempt built contextDone err with ⟨-, hphase⟩ |
      ⟨-, hphase⟩ | ⟨-, hphase⟩ | ⟨failure, -, hphase⟩
    · rw [hphase] at hpending
      cases hpending
    · rw [hphase] at hpending
      cases hpending
    · rw [hphase] at hpending
      have hcarried := carried_of_pending hpending
      rw [carried_admitAttempt] at hcarried
      cases hcarried
    · rw [hphase] at hpending
      cases hpending
  | @reread built queryFails =>
    obtain ⟨found, hfound⟩ := exists_admitAfterReread built
      (query queryFails (Store.record platform table built.recordDigest))
    rw [hfound] at hpending
    cases hpending

/-- A call that is about to append a record was so before the step, or has built the
record in it. -/
theorem step_pending (h : step platform system action = some next)
    (hcall : next.calls[client]? = some call) (hpending : call.phase.pending = some record) :
    system.calls[client]? = some call ∨
    ∃ stamp queryFails before, action = .head client queryFails stamp ∧
      system.calls[client]? = some before ∧
      BuiltOn platform system.table stamp record before.phase := by
  by_cases hsame : system.calls[client]? = some call
  · exact .inl hsame
  · have hempty : ∀ before, system.calls[client]? = some before → before.phase.carried = none := by
      intro before hbefore
      rcases step_cases h with ⟨request, maxRetries, rfl, rfl⟩ |
        ⟨acting, moved, table, phase, -, hmoved, hadvances, rfl⟩
      · rcases getElem?_concat_eq_some.mp hcall with hold | ⟨hnew, -⟩
        · exact absurd hold hsame
        · have hbound := (List.getElem?_eq_some_iff.mp hbefore).1
          omega
      · rcases calls_of_set hcall with ⟨rfl, rfl⟩ | hold
        · rw [hmoved] at hbefore
          cases hbefore
          exact hadvances.carried_eq_none hpending
        · exact absurd hold hsame
    rcases step_carried h hcall (carried_of_pending hpending) with ⟨before, hbefore, hold⟩ |
      hbuilt | ⟨before, built, hbefore, hphase, -⟩
    · rw [hempty before hbefore] at hold
      cases hold
    · exact .inr hbuilt
    · have hnone := hempty before hbefore
      rw [hphase] at hnone
      cases hnone

/-! ### The ledger under a call -/

/-- A record is built for the position behind the last one. -/
theorem BuiltOn.sequence_eq (hcbor : platform.cbor.Conforms) (hchained : Chained platform table)
    (h : BuiltOn platform table stamp record phase) :
    record.event.sequence.toNat = (table.ledgerRows record.event.ledgerID).length + 1 := by
  cases h with
  | @genesis ledgerID state hhead hempty hrecord =>
    obtain ⟨validated, rfl, hfields⟩ := genesisRecord_eq_ok hcbor hrecord
    obtain ⟨chain, hholds, hlegal⟩ := hchained ledgerID
    have hledger : validated.record.event.ledgerID = ledgerID :=
      congrArg EventFields.ledgerID hfields
    have hsequence : validated.record.event.sequence = 1 := congrArg EventFields.sequence hfields
    rw [hholds.head_eq hlegal] at hhead
    cases hhead
    rw [hledger, hsequence, hholds, List.length_map]
    rcases List.eq_nil_or_concat' chain with rfl | ⟨front, last, rfl⟩
    · rfl
    · have hbytes := hlegal.bytes_ne_empty last.record (by simp)
      simp [chainStateAfter, chainStateFromRecord_of_nonempty hbytes] at hempty
  | @continuation req attempt state hhead hinitialized hrecord =>
    obtain ⟨validated, rfl, hfields⟩ := continuationRecord_eq_ok hcbor hrecord
    obtain ⟨chain, hholds, hlegal⟩ := hchained req.ledgerID
    have hledger : validated.record.event.ledgerID = req.ledgerID :=
      congrArg EventFields.ledgerID hfields
    rw [hholds.head_eq hlegal] at hhead
    cases hhead
    rw [sequence_of_continuationFields hfields, hlegal.lastSequence_eq hcbor, hledger, hholds,
      List.length_map]

theorem BuiltOn.admittedAt_eq (hcbor : platform.cbor.Conforms)
    (h : BuiltOn platform table stamp record phase) :
    record.event.admittedAtUnixMS = stamp.nowMS := by
  cases h with
  | genesis _ _ hrecord =>
    obtain ⟨validated, rfl, hfields⟩ := genesisRecord_eq_ok hcbor hrecord
    exact congrArg EventFields.admittedAtUnixMS hfields
  | continuation _ _ hrecord =>
    obtain ⟨validated, rfl, hfields⟩ := continuationRecord_eq_ok hcbor hrecord
    exact congrArg EventFields.admittedAtUnixMS hfields

/-- The rows of a ledger are never changed, removed or put in another order. -/
theorem ledgerRows_isPrefix (hcbor : platform.cbor.Conforms)
    (h : Reaches (step platform) NoSecondGenesis .initial system)
    (hlater : Reaches (step platform) NoSecondGenesis system later) (ledgerID : LedgerID) :
    system.table.ledgerRows ledgerID <+: later.table.ledgerRows ledgerID := by
  induction hlater with
  | refl => exact List.prefix_rfl
  | @step middle last action hmiddle _ hstep ih =>
    have hconsistent := consistent_of_reaches hcbor (h.trans hmiddle)
    rcases hconsistent.ledger_step hcbor hstep ledgerID with
      hsame | ⟨_, _, front, validated, rfl, hstores⟩
    · rw [hsame]
      exact ih
    · refine ih.trans ?_
      rw [hstores.before, hstores.after, List.map_append]
      exact List.prefix_append _ _

theorem sequence_le_of_mem (hcbor : platform.cbor.Conforms) (hchained : Chained platform table)
    {row : Row} (hrow : row ∈ table.rows) :
    row.sequenceNumber.toNat ≤ (table.ledgerRows row.ledgerID).length := by
  obtain ⟨chain, hholds, hlegal⟩ := hchained row.ledgerID
  obtain ⟨validated, hmem, rfl⟩ := hholds.exists_of_mem hrow rfl
  obtain ⟨i, hi, hget⟩ := List.mem_iff_getElem.mp hmem
  have hsequence := hlegal.sequence_eq hcbor (List.getElem?_eq_some_iff.mpr ⟨hi, hget⟩)
  rw [hholds, List.length_map]
  change validated.record.event.sequence.toNat ≤ _
  omega

/-! ### Assumptions on a run -/

variable (platform) in
/-- No second genesis is asked for, and SHA-256 does not collide. -/
structure Orderly (system : System) (action : Action) : Prop where
  noSecondGenesis : NoSecondGenesis system action
  collisionFree : CollisionFree platform system action

instance (system : System) (action : Action) : Decidable (NoSecondGenesis system action) :=
  match action with
  | .start (.admitEvent req) _ =>
    decidable_of_iff (req.eventKind ≠ eventKindLedgerInitialized)
      ⟨fun hkind _ _ haction => by cases haction; exact hkind, fun h => h req _ rfl⟩
  | .start (.initLedger _) _ | .start (.admitEndorsement _ _) _ | .start (.admitRevocation _ _) _
  | .head _ _ _ | .append _ _ _ | .reread _ _ =>
    isTrue fun _ _ haction => by cases haction

instance (system : System) (action : Action) : Decidable (Orderly platform system action) :=
  decidable_of_iff (NoSecondGenesis system action ∧ CollisionFree platform system action)
    ⟨fun h => ⟨h.1, h.2⟩, fun h => ⟨h.noSecondGenesis, h.collisionFree⟩⟩

variable (platform) in
/-- A step of the service's methods, without a collision of SHA-256. -/
structure Served (system : System) (action : Action) : Prop where
  serviceCall : Action.ServiceCall system action
  collisionFree : CollisionFree platform system action

instance (system : System) (action : Action) : Decidable (Served platform system action) :=
  decidable_of_iff (Action.ServiceCall system action ∧ CollisionFree platform system action)
    ⟨fun h => ⟨h.1, h.2⟩, fun h => ⟨h.serviceCall, h.collisionFree⟩⟩

theorem Served.orderly (h : Served platform system action) : Orderly platform system action :=
  ⟨noSecondGenesis_of_serviceCall _ _ h.serviceCall, h.collisionFree⟩

/-! ### The clock -/

/-- The reading of the clock in a step that reads a head. -/
def Action.reading : Action → Option UInt64
  | .head _ _ stamp => some stamp.nowMS
  | _ => none

/-- A run that keeps the readings of its clock. -/
def clocked (platform : Platform) : System × List (Option UInt64) → Action →
    Option (System × List (Option UInt64)) :=
  traced (fun _ action _ => action.reading) (step platform)

/-- No second genesis is asked for, and the clock does not run backwards. -/
structure Forwards (state : System × List (Option UInt64)) (action : Action) : Prop where
  noSecondGenesis : NoSecondGenesis state.1 action
  clock : ∀ now ∈ action.reading, ∀ earlier, some earlier ∈ state.2 → earlier ≤ now

-- the bounded quantifiers are checked on the lists: `UInt64` is a finite type, and must not
-- be enumerated
instance (state : System × List (Option UInt64)) (action : Action) :
    Decidable (Forwards state action) :=
  decidable_of_iff (NoSecondGenesis state.1 action ∧ (action.reading.all fun now =>
      state.2.all fun reading => reading.all fun earlier => decide (earlier ≤ now)) = true) <| by
    simp only [Option.all_eq_true, List.all_eq_true, decide_eq_true_eq]
    constructor
    · rintro ⟨hkind, hclock⟩
      exact ⟨hkind, fun now hnow earlier hearlier => hclock now hnow _ hearlier earlier rfl⟩
    · rintro ⟨hkind, hclock⟩
      refine ⟨hkind, ?_⟩
      rintro now hnow reading hreading earlier rfl
      exact hclock now hnow earlier hreading

variable (platform) in
/-- The assumptions of both orders. -/
structure OrderlyForwards (state : System × List (Option UInt64)) (action : Action) : Prop
    extends Forwards state action where
  collisionFree : CollisionFree platform state.1 action

instance (state : System × List (Option UInt64)) (action : Action) :
    Decidable (OrderlyForwards platform state action) :=
  decidable_of_iff (Forwards state action ∧ CollisionFree platform state.1 action)
    ⟨fun h => ⟨h.1, h.2⟩, fun h => ⟨h.toForwards, h.collisionFree⟩⟩

theorem OrderlyForwards.orderly {state : System × List (Option UInt64)}
    (h : OrderlyForwards platform state action) : Orderly platform state.1 action :=
  ⟨h.noSecondGenesis, h.collisionFree⟩

/-- Two calls on one head.  The first to read it is the second to append, and reads the
head again. -/
def overtakenRest : List Action :=
  [.start (.admitEvent (sampleRequest (FixedBytes.zero 32) 5)) 1,
    .start (.admitEvent (sampleRequest (FixedBytes.zero 32) 6)) 1,
    .head 1 false (stampAt 5), .head 2 false (stampAt 7), .append 2 .completed false,
    .append 1 .completed false, .head 1 false (stampAt 9), .append 1 .completed false]

theorem overtaken_evaluates :
    ∃ (before final : System × List (Option UInt64)) (call : Call) (record : StructuralRecord),
      Reaches (clocked samplePlatform) (OrderlyForwards samplePlatform) (.initial, []) before ∧
      Reaches (clocked samplePlatform) (OrderlyForwards samplePlatform) before final ∧
      before.1.calls.length = 1 ∧ final.1.calls[1]? = some call ∧
      call.phase = .returned (.ok record) ∧ record.event.sequence = 3 := by
  have hevaluated : (initRun.foldlM
      (checkedStep (OrderlyForwards samplePlatform) (clocked samplePlatform))
        (.initial, [])).any (fun before =>
        before.1.calls.length = 1 &&
        (overtakenRest.foldlM (checkedStep (OrderlyForwards samplePlatform)
          (clocked samplePlatform)) before).any fun final =>
        final.1.calls[1]?.any fun call =>
        call.phase.answer.any fun record => record.event.sequence = 3) = true := by
    decide +kernel
  simp only [Option.any_eq_true, Bool.and_eq_true, decide_eq_true_eq] at hevaluated
  obtain ⟨before, hbefore, hlength, final, hfinal, call, hcall, record, hrecord, hsequence⟩ :=
    hevaluated
  exact ⟨before, final, call, record, (Reaches.refl.of_checked hbefore).1,
    (Reaches.refl.of_checked hfinal).1, hlength, hcall, Phase.answer_eq_some.mp hrecord, hsequence⟩

/-! ### Real time -/

/-- What a call looks for is what it finds. -/
theorem found_of_reaches (hcbor : platform.cbor.Conforms)
    (h : Reaches (step platform) (Orderly platform) .initial system) (hcall : call ∈ system.calls)
    (hphase : call.phase = .admitReread record) :
    Store.record platform system.table record.recordDigest = .ok record := by
  have hcollision := h.mono fun _ _ horderly => horderly.collisionFree
  have hstored := (delivered_of_reaches hcbor authentic_empty hcollision call hcall).reread
    record hphase
  have hbuilding : Building platform (.zero 32) system :=
    building_of_reaches hcbor (building_start fun row hrow _ => authentic_empty row hrow) h
  have hbuilds := hbuilding.builds call hcall
  rw [hphase] at hbuilds
  generalize call.request = request at hbuilds
  cases hbuilds with
  | admitReread hasks hfields => exact record_of_row hstored

/-- What a call returns is stored. -/
theorem stored_of_returned (hcbor : platform.cbor.Conforms)
    (h : Reaches (step platform) (Orderly platform) .initial system) (hcall : call ∈ system.calls)
    (hphase : call.phase = .returned (.ok record)) :
    rowOfRecord record ∈ system.table.rows := by
  rcases answered_of_reaches hcbor authentic_empty h call hcall record hphase with
    ⟨ledgerID, -, hstored, -⟩ | ⟨req, hasks⟩
  · exact hstored
  · have hcollision := h.mono fun _ _ horderly => horderly.collisionFree
    exact ((delivered_of_reaches hcbor authentic_empty hcollision call hcall).returned req record
      hasks hphase).2.1

/-- The record of a call that began after a moment is numbered behind the rows that
were stored then. -/
theorem length_lt_sequence (hcbor : platform.cbor.Conforms)
    (h : Reaches (step platform) (Orderly platform) .initial system)
    (hlater : Reaches (step platform) (Orderly platform) system later)
    (hnew : system.calls.length ≤ client) (hcall : later.calls[client]? = some call)
    (hcarried : call.phase.carried = some record) :
    (system.table.ledgerRows record.event.ledgerID).length < record.event.sequence.toNat := by
  induction hlater generalizing call record with
  | refl =>
    have hbound := (List.getElem?_eq_some_iff.mp hcall).1
    omega
  | @step middle last action hmiddle _ hstep ih =>
    have hreaches := h.trans hmiddle
    rcases step_carried hstep hcall hcarried with ⟨before, hbefore, hold⟩ |
      ⟨stamp, _, before, -, -, hbuilt⟩ | ⟨before, built, hbefore, hphase, hfound⟩
    · exact ih hbefore hold
    · -- the head was read after the moment, and rows are only added
      have hconsistent := consistent_of_reaches hcbor
        (hreaches.mono fun _ _ horderly => horderly.noSecondGenesis)
      have hgrown := ledgerRows_isPrefix hcbor
        (h.mono fun _ _ horderly => horderly.noSecondGenesis)
        (hmiddle.mono fun _ _ horderly => horderly.noSecondGenesis) record.event.ledgerID
      have hlength := hgrown.length_le
      rw [hbuilt.sequence_eq hcbor hconsistent.chained]
      omega
    · have hsame := found_of_reaches hcbor hreaches (List.mem_of_getElem? hbefore) hphase
      rw [hsame] at hfound
      cases hfound
      apply ih hbefore
      rw [hphase]
      rfl

/-- **Admission takes effect in real time.**  Stop a run at any moment and let it go on.
A call that began after that moment and returned a record has stored it since, or found
it stored since; the record is numbered behind everything that was stored in its ledger,
behind the head that anyone could read and behind what any earlier call had returned. -/
theorem admissions_in_order (platform : Platform) (hcbor : platform.cbor.Conforms)
    (system later : System) (h : Reaches (step platform) (Orderly platform) .initial system)
    (hlater : Reaches (step platform) (Orderly platform) system later) (client : Nat)
    (hnew : system.calls.length ≤ client) (call : Call) (hcall : later.calls[client]? = some call)
    (record : StructuralRecord) (hphase : call.phase = .returned (.ok record)) :
    rowOfRecord record ∉ system.table.rows ∧ rowOfRecord record ∈ later.table.rows ∧
    (∀ row ∈ system.table.rows, row.ledgerID = record.event.ledgerID →
      row.sequenceNumber < record.event.sequence) ∧
    (∀ state, head platform system.table record.event.ledgerID = .ok state →
      state.lastSequence < record.event.sequence) ∧
    ∀ other ∈ system.calls, ∀ earlier, other.phase = .returned (.ok earlier) →
      earlier.event.ledgerID = record.event.ledgerID →
      earlier.event.sequence < record.event.sequence := by
  have hcarried : call.phase.carried = some record := by
    rw [hphase]
    rfl
  have hlength := length_lt_sequence hcbor h hlater hnew hcall hcarried
  have hconsistent := consistent_of_reaches hcbor
    (h.mono fun _ _ horderly => horderly.noSecondGenesis)
  have hbehind : ∀ row ∈ system.table.rows, row.ledgerID = record.event.ledgerID →
      row.sequenceNumber < record.event.sequence := by
    intro row hrow hledger
    have hle := sequence_le_of_mem hcbor hconsistent.chained hrow
    rw [hledger] at hle
    exact UInt64.lt_iff_toNat_lt.mpr (by omega)
  refine ⟨?_, stored_of_returned hcbor (h.trans hlater) (List.mem_of_getElem? hcall) hphase,
    hbehind, ?_, ?_⟩
  · intro hrow
    exact absurd (hbehind _ hrow rfl) (UInt64.lt_irrefl _)
  · intro state hhead
    obtain ⟨chain, hholds, hlegal⟩ := hconsistent.chained record.event.ledgerID
    rw [hholds.head_eq hlegal] at hhead
    cases hhead
    rw [hholds, List.length_map] at hlength
    rw [UInt64.lt_iff_toNat_lt, hlegal.lastSequence_eq hcbor]
    exact hlength
  · intro other hother earlier hearlier hledger
    exact hbehind _ (stored_of_returned hcbor h hother hearlier) hledger

theorem overtaken_in_order :
    ∃ (before final : System) (call : Call) (record : StructuralRecord),
      final.calls[1]? = some call ∧ call.phase = .returned (.ok record) ∧
      record.event.sequence = 3 ∧ rowOfRecord record ∉ before.table.rows ∧
      rowOfRecord record ∈ final.table.rows ∧
      ∀ row ∈ before.table.rows, row.ledgerID = record.event.ledgerID →
        row.sequenceNumber < record.event.sequence := by
  obtain ⟨before, final, call, record, hbefore, hfinal, hlength, hcall, hphase, hsequence⟩ :=
    overtaken_evaluates
  have hreaches : Reaches (step samplePlatform) (Orderly samplePlatform) .initial before.1 :=
    (hbefore.mono fun _ _ h => h.orderly).of_traced
  have hlater : Reaches (step samplePlatform) (Orderly samplePlatform) before.1 final.1 :=
    (hfinal.mono fun _ _ h => h.orderly).of_traced
  obtain ⟨hnew, hstored, hbehind, -⟩ := admissions_in_order samplePlatform reference_conforms
    before.1 final.1 hreaches hlater 1 hlength.le call hcall record hphase
  exact ⟨before.1, final.1, call, record, hcall, hphase, hsequence, hnew, hstored, hbehind⟩

/-! ### Time stamps -/

variable (platform) in
/-- What is known of a record that is about to be appended: its time is a reading of the
clock, and no later than it are the times of the records in front of its position. -/
structure Dated (state : System × List (Option UInt64)) (record : StructuralRecord) : Prop where
  noted : some record.event.admittedAtUnixMS ∈ state.2
  sequence : record.event.sequence.toNat ≤
    (state.1.table.ledgerRows record.event.ledgerID).length + 1
  latest : ∀ chain : List (ValidatedRecord platform),
    state.1.table.Holds platform record.event.ledgerID chain → ∀ validated ∈ chain,
      validated.record.event.sequence.toNat < record.event.sequence.toNat →
      validated.record.event.admittedAtUnixMS ≤ record.event.admittedAtUnixMS

variable (platform) in
/-- The invariant of runs whose clock does not run backwards. -/
structure Timely (state : System × List (Option UInt64)) : Prop where
  ordered : ∀ (ledgerID : LedgerID) (chain : List (ValidatedRecord platform)),
    state.1.table.Holds platform ledgerID chain → chain.Pairwise fun left right =>
      left.record.event.admittedAtUnixMS ≤ right.record.event.admittedAtUnixMS
  noted : ∀ (ledgerID : LedgerID) (chain : List (ValidatedRecord platform)),
    state.1.table.Holds platform ledgerID chain →
      ∀ validated ∈ chain, some validated.record.event.admittedAtUnixMS ∈ state.2
  dated : ∀ call ∈ state.1.calls, ∀ record ∈ call.phase.pending, Dated platform state record

section Timely

variable {state after : System × List (Option UInt64)}

/-- A ledger after a step: as it was, or with one record more, which was pending. -/
theorem Consistent.holds_step (hcbor : platform.cbor.Conforms) (h : Consistent platform system)
    (hstep : Admission.step platform system action = some next)
    {chain : List (ValidatedRecord platform)}
    (hholds : next.table.Holds platform ledgerID chain) :
    system.table.Holds platform ledgerID chain ∨
    ∃ client call front, ∃ validated : ValidatedRecord platform,
      chain = front ++ [validated] ∧ validated.record.event.ledgerID = ledgerID ∧
      Stores system next action client call front validated := by
  rcases h.ledger_step hcbor hstep ledgerID with
    hsame | ⟨client, call, front, validated, rfl, hstores⟩
  · exact .inl (hsame.symm.trans hholds)
  · exact .inr ⟨client, call, front, validated, hholds.unique hstores.after, rfl, hstores⟩

theorem Stores.sequence_eq (hcbor : platform.cbor.Conforms)
    {front : List (ValidatedRecord platform)} {validated : ValidatedRecord platform}
    (h : Stores system next action client call front validated) :
    validated.record.event.sequence.toNat = front.length + 1 := by
  have hlast : (front ++ [validated])[front.length]? = some validated := by simp
  exact h.legal.sequence_eq hcbor hlast

theorem Stores.sequence_lt (hcbor : platform.cbor.Conforms)
    {front : List (ValidatedRecord platform)} {validated earlier : ValidatedRecord platform}
    (h : Stores system next action client call front validated) (hearlier : earlier ∈ front) :
    earlier.record.event.sequence.toNat < validated.record.event.sequence.toNat := by
  obtain ⟨i, hi, hget⟩ := List.mem_iff_getElem.mp hearlier
  have hposition : (front ++ [validated])[i]? = some earlier := by
    rw [List.getElem?_append_left hi]
    exact List.getElem?_eq_some_iff.mpr ⟨hi, hget⟩
  rw [h.sequence_eq hcbor, h.legal.sequence_eq hcbor hposition]
  omega

/-- A ledger under a record that has just been built is as it was. -/
theorem BuiltOn.not_stores {queryFails : Bool} {before : Call}
    {front : List (ValidatedRecord platform)} {validated : ValidatedRecord platform}
    (h : BuiltOn platform table stamp record before.phase)
    (hbefore : system.calls[client]? = some before) {acting : Nat} :
    ¬ Stores system next (.head client queryFails stamp) acting call front validated := by
  intro hstores
  cases hstores.acting
  have hrunning := hstores.running
  rw [hbefore] at hrunning
  cases hrunning
  have hpending := hstores.pending
  generalize call.phase = phase at h hpending
  cases h <;> cases hpending

/-- A record that has just been built is dated by the last reading of the clock. -/
theorem BuiltOn.dated (hcbor : platform.cbor.Conforms)
    (hconsistent : Consistent platform state.1) (htimely : Timely platform state)
    {queryFails : Bool} (hforwards : Forwards state (.head client queryFails stamp))
    (hstep : clocked platform state (.head client queryFails stamp) = some after) {before : Call}
    (hbefore : state.1.calls[client]? = some before)
    (h : BuiltOn platform state.1.table stamp record before.phase) :
    Dated platform after record := by
  obtain ⟨hmoved, hnotes⟩ := traced_eq_some.mp hstep
  have htime := h.admittedAt_eq hcbor
  have hrows : after.1.table.ledgerRows record.event.ledgerID =
      state.1.table.ledgerRows record.event.ledgerID := by
    rcases hconsistent.ledger_step hcbor hmoved record.event.ledgerID with
      hsame | ⟨_, _, _, _, -, hstores⟩
    · exact hsame
    · exact absurd hstores (h.not_stores hbefore)
  constructor
  · rw [hnotes, htime]
    exact List.mem_append_right _ (List.mem_singleton.mpr rfl)
  · rw [hrows, h.sequence_eq hcbor hconsistent.chained]
  · intro chain hholds validated hmem _
    have hearlier := htimely.noted _ chain (hrows.symm.trans hholds) validated hmem
    rw [htime]
    exact hforwards.clock stamp.nowMS rfl _ hearlier

/-- A record that stays pending stays behind the records in front of its position. -/
theorem Dated.step (hcbor : platform.cbor.Conforms) (hconsistent : Consistent platform state.1)
    (h : Dated platform state record) (hstep : clocked platform state action = some after) :
    Dated platform after record := by
  obtain ⟨hmoved, hnotes⟩ := traced_eq_some.mp hstep
  constructor
  · rw [hnotes]
    exact List.mem_append_left _ h.noted
  · have hbound := h.sequence
    rcases hconsistent.ledger_step hcbor hmoved record.event.ledgerID with
      hsame | ⟨_, _, front, validated, hledger, hstores⟩
    · rw [hsame]
      exact hbound
    · rw [← hledger, hstores.before] at hbound
      rw [← hledger, hstores.after]
      simp only [List.length_map, List.length_append, List.length_singleton] at hbound ⊢
      omega
  · intro chain hholds validated hmem hless
    rcases hconsistent.holds_step hcbor hmoved hholds with
      hbefore | ⟨_, _, front, stored, rfl, hledger, hstores⟩
    · exact h.latest chain hbefore validated hmem hless
    · have hbefore := hledger ▸ hstores.before
      rcases List.mem_append.mp hmem with hold | hnew
      · exact h.latest front hbefore validated hold hless
      · -- the record just stored has taken the position, or one behind it
        cases List.mem_singleton.mp hnew
        have hbound := h.sequence
        rw [hbefore, List.length_map] at hbound
        rw [hstores.sequence_eq hcbor] at hless
        omega

theorem timely_initial : Timely platform (.initial, []) where
  ordered ledgerID chain hholds := by
    cases hholds.unique (holds_empty ledgerID)
    exact List.Pairwise.nil
  noted ledgerID chain hholds validated hmem := by
    cases hholds.unique (holds_empty ledgerID)
    cases hmem
  dated call hcall := by cases hcall

theorem Timely.step (hcbor : platform.cbor.Conforms) (hconsistent : Consistent platform state.1)
    (h : Timely platform state) (hforwards : Forwards state action)
    (hstep : clocked platform state action = some after) : Timely platform after := by
  obtain ⟨hmoved, hnotes⟩ := traced_eq_some.mp hstep
  constructor
  · intro ledgerID chain hholds
    rcases hconsistent.holds_step hcbor hmoved hholds with
      hbefore | ⟨_, acting, front, stored, rfl, rfl, hstores⟩
    · exact h.ordered ledgerID chain hbefore
    · have hdated := h.dated acting (List.mem_of_getElem? hstores.running) _ hstores.pending
      refine List.pairwise_append.mpr
        ⟨h.ordered _ front hstores.before, List.pairwise_singleton _ _, ?_⟩
      intro earlier hearlier last hlast
      cases List.mem_singleton.mp hlast
      exact hdated.latest front hstores.before earlier hearlier
        (hstores.sequence_lt hcbor hearlier)
  · intro ledgerID chain hholds validated hmem
    rw [hnotes]
    apply List.mem_append_left
    rcases hconsistent.holds_step hcbor hmoved hholds with
      hbefore | ⟨_, acting, front, stored, rfl, rfl, hstores⟩
    · exact h.noted ledgerID chain hbefore validated hmem
    · rcases List.mem_append.mp hmem with hold | hnew
      · exact h.noted _ front hstores.before validated hold
      · cases List.mem_singleton.mp hnew
        exact (h.dated acting (List.mem_of_getElem? hstores.running) _ hstores.pending).noted
  · intro call hcall record hpending
    obtain ⟨client, hclient⟩ := List.mem_iff_getElem?.mp hcall
    rcases step_pending hmoved hclient hpending with
      hbefore | ⟨stamp, queryFails, before, rfl, hbefore, hbuilt⟩
    · exact (h.dated call (List.mem_of_getElem? hbefore) record hpending).step hcbor hconsistent
        hstep
    · exact hbuilt.dated hcbor hconsistent h hforwards hstep hbefore

theorem timely_of_reaches (hcbor : platform.cbor.Conforms)
    (h : Reaches (clocked platform) Forwards (.initial, []) state) : Timely platform state := by
  refine h.invariant timely_initial ?_
  intro middle action next hmiddle htimely hforwards hstep
  have hsystem : Reaches (step platform) NoSecondGenesis .initial middle.1 :=
    (hmiddle.mono fun _ _ hallowed => hallowed.noSecondGenesis).of_traced
  exact htimely.step hcbor (consistent_of_reaches hcbor hsystem) hforwards hstep

end Timely

/-- **Admission times follow the order of the chain.**  However calls interleave, retry
and fail, when the clock does not run backwards the records of a ledger in the order of
their sequence numbers are also in the order of their times, and each time is a reading
that a call made between a head and an insert. -/
theorem timestamps_in_order (platform : Platform) (hcbor : platform.cbor.Conforms)
    (system : System) (readings : List (Option UInt64))
    (h : Reaches (clocked platform) Forwards (.initial, []) (system, readings))
    (ledgerID : LedgerID) :
    ∃ records : List StructuralRecord,
      system.table.ledgerRows ledgerID = records.map rowOfRecord ∧
      (∀ record ∈ records, validateRecordStructure platform record.bytes = .ok record) ∧
      (records.map fun record => record.event.sequence.toNat) = List.range' 1 records.length ∧
      (∀ record ∈ records, some record.event.admittedAtUnixMS ∈ readings) ∧
      records.Pairwise fun earlier later =>
        earlier.event.admittedAtUnixMS ≤ later.event.admittedAtUnixMS := by
  have htimely := timely_of_reaches hcbor h
  have hsystem : Reaches (step platform) NoSecondGenesis .initial system :=
    (h.mono fun _ _ hallowed => hallowed.noSecondGenesis).of_traced
  obtain ⟨chain, hholds, hlegal⟩ := (consistent_of_reaches hcbor hsystem).chained ledgerID
  refine ⟨chain.map ValidatedRecord.record, ?_, ?_, ?_, ?_, ?_⟩
  · rw [hholds, List.map_map]
    rfl
  · exact fun record hrecord => valid_of_mem_map record hrecord
  · rw [List.map_map, List.length_map]
    exact sequences_eq_range hcbor hlegal
  · intro record hrecord
    obtain ⟨validated, hmem, rfl⟩ := List.mem_map.mp hrecord
    exact htimely.noted ledgerID chain hholds validated hmem
  · exact List.pairwise_map.mpr (htimely.ordered ledgerID chain hholds)

theorem overtaken_timestamps :
    ∃ (final : System) (readings : List (Option UInt64)) (records : List StructuralRecord),
      Reaches (clocked samplePlatform) Forwards (.initial, []) (final, readings) ∧
      (∃ call record, final.calls[1]? = some call ∧ call.phase = .returned (.ok record) ∧
        record.event.sequence = 3) ∧
      final.table.ledgerRows (FixedBytes.zero 32) = records.map rowOfRecord ∧
      records.Pairwise fun earlier later =>
        earlier.event.admittedAtUnixMS ≤ later.event.admittedAtUnixMS := by
  obtain ⟨before, ⟨final, readings⟩, call, record, hbefore, hfinal, -, hcall, hphase, hsequence⟩ :=
    overtaken_evaluates
  have hreaches := (hbefore.trans hfinal).mono fun _ _ h => h.toForwards
  obtain ⟨records, hrows, -, -, -, hordered⟩ := timestamps_in_order samplePlatform
    reference_conforms final readings hreaches (FixedBytes.zero 32)
  exact ⟨final, readings, records, hreaches, ⟨call, record, hcall, hphase, hsequence⟩, hrows,
    hordered⟩

end AttributionChain.Admission

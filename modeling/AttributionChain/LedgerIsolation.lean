import AttributionChain.AdmissionOrder

/-!
# Ledgers do not interfere

All ledgers share one table: its primary key and its foreign key are on record digests
alone, whatever the ledger, and the calls of all ledgers interleave.  `ownActions` are the
actions of a run that one ledger needs, and `Alone` compares the run with the one that
takes only these.

`append_restrict` is the heart: on a table cut down to one ledger, an append of that
ledger is answered in the same way.  `ledger_alone` is the result for whole runs.
-/

namespace AttributionChain.Store

open Ledger

variable {table other : Table} {record : StructuralRecord} {ledgerID : LedgerID}

instance (row : Row) : Decidable row.NumericRange := inferInstanceAs (Decidable (_ ∧ _ ∧ _))

/-- The answer of `Append`, from what is in the table. -/
theorem append_answer (table : Table) (record : StructuralRecord) :
    (append table record).2 =
      if ¬ ((rowOfRecord record).BytesBound ∧ (rowOfRecord record).NumericRange) then
        some .unclassified
      else if ∃ stored ∈ table.rows, stored.recordDigest = (rowOfRecord record).recordDigest then
        some .duplicateRecord
      else if ∃ stored ∈ table.rows, stored.position = (rowOfRecord record).position then
        some .chainHeadMoved
      else if ¬ (rowOfRecord record).PredecessorIn (table.rows ++ [rowOfRecord record]) then
        some .unknownPredecessor
      else none := by
  unfold append insertRecord
  by_cases hbytes : (rowOfRecord record).BytesBound
  · by_cases hrange : (rowOfRecord record).NumericRange
    · obtain ⟨hkind, hversion, hsequence⟩ := hrange
      rw [if_neg (not_not.mpr ⟨hbytes, hkind, hversion, hsequence⟩),
        dif_neg (not_not.mpr hbytes), dif_neg hkind, dif_neg hversion, dif_neg hsequence]
      split_ifs <;> rfl
    · rw [if_pos fun h => hrange h.2, dif_neg (not_not.mpr hbytes)]
      split_ifs with hkind hversion hsequence
      · rfl
      · rfl
      · rfl
      all_goals exact absurd ⟨hkind, hversion, hsequence⟩ hrange
  · rw [if_pos fun h => hbytes h.1, dif_pos hbytes]
    rfl

/-- A row is added when the answer is no error, and only then. -/
theorem append_rows (table : Table) (record : StructuralRecord) :
    (append table record).1.rows =
      if (append table record).2 = none then table.rows ++ [rowOfRecord record]
      else table.rows := by
  rcases hanswer : append table record with ⟨next, _ | err⟩
  · obtain ⟨hadmits, rfl⟩ := append_eq_none.mp hanswer
    rfl
  · rw [append_eq_some hanswer]
    rfl

/-- The rows of a ledger, in the order they were added. -/
def Table.Restricts (other : Table) (ledgerID : LedgerID) (table : Table) : Prop :=
  other.rows = table.rows.filter fun row => row.ledgerID = ledgerID

theorem Table.Restricts.mem_iff (h : other.Restricts ledgerID table) {row : Row} :
    row ∈ other.rows ↔ row ∈ table.rows ∧ row.ledgerID = ledgerID := by
  rw [h, List.mem_filter, decide_eq_true_eq]

theorem Table.Restricts.ledgerRows_eq (h : other.Restricts ledgerID table) :
    other.ledgerRows ledgerID = table.ledgerRows ledgerID := by
  unfold Table.ledgerRows
  rw [h, List.filter_filter]
  simp only [Bool.and_self]

theorem Table.Restricts.head_eq {platform : Platform} (h : other.Restricts ledgerID table) :
    head platform other ledgerID = head platform table ledgerID := by
  unfold head
  rw [h.ledgerRows_eq]

/-- A row of another ledger makes no difference. -/
theorem Table.Restricts.add_other (h : other.Restricts ledgerID table) {row : Row}
    (hadmits : table.Admits row) (hne : row.ledgerID ≠ ledgerID) :
    other.Restricts ledgerID (table.add row hadmits) := by
  change other.rows = (table.rows ++ [row]).filter _
  rw [List.filter_append, ← h]
  simp [hne]

/-- **An append of one ledger does not see the others**: when no other ledger has a record
of the same digest and the predecessor is stored in the ledger itself, the answer is the
same without the others. -/
theorem append_restrict (h : other.Restricts ledgerID table)
    (hledger : record.event.ledgerID = ledgerID)
    (hdigest : ∀ stored ∈ table.rows, stored.recordDigest = record.recordDigest →
      stored.ledgerID = ledgerID)
    (hpredecessor : (rowOfRecord record).PredecessorIn other.rows) :
    (append other record).2 = (append table record).2 ∧
      (append other record).1.Restricts ledgerID (append table record).1 := by
  have hsubset : ∀ row ∈ other.rows, row ∈ table.rows := fun row hrow => (h.mem_iff.mp hrow).1
  have hdigests :
      (∃ stored ∈ other.rows, stored.recordDigest = (rowOfRecord record).recordDigest) ↔
        ∃ stored ∈ table.rows, stored.recordDigest = (rowOfRecord record).recordDigest := by
    constructor
    · rintro ⟨stored, hstored, hsame⟩
      exact ⟨stored, hsubset stored hstored, hsame⟩
    · rintro ⟨stored, hstored, hsame⟩
      exact ⟨stored, h.mem_iff.mpr ⟨hstored, hdigest stored hstored hsame⟩, hsame⟩
  have hpositions : (∃ stored ∈ other.rows, stored.position = (rowOfRecord record).position) ↔
      ∃ stored ∈ table.rows, stored.position = (rowOfRecord record).position := by
    constructor
    · rintro ⟨stored, hstored, hsame⟩
      exact ⟨stored, hsubset stored hstored, hsame⟩
    · rintro ⟨stored, hstored, hsame⟩
      have hstoredLedger : stored.ledgerID = ledgerID := (congrArg Prod.fst hsame).trans hledger
      exact ⟨stored, h.mem_iff.mpr ⟨hstored, hstoredLedger⟩, hsame⟩
  have hpresent : (rowOfRecord record).PredecessorIn (other.rows ++ [rowOfRecord record]) :=
    hpredecessor.mono
  have hpresentAll : (rowOfRecord record).PredecessorIn (table.rows ++ [rowOfRecord record]) := by
    intro previous hprevious
    obtain ⟨stored, hstored, hsame⟩ := hpredecessor previous hprevious
    exact ⟨stored, List.mem_append_left _ (hsubset stored hstored), hsame⟩
  have hanswer : (append other record).2 = (append table record).2 := by
    rw [append_answer, append_answer]
    simp only [hdigests, hpositions, hpresent, hpresentAll]
  refine ⟨hanswer, ?_⟩
  unfold Table.Restricts
  rw [append_rows, append_rows, hanswer]
  split_ifs
  · rw [List.filter_append, ← h]
    simp [rowOfRecord, hledger]
  · exact h

end AttributionChain.Store

namespace AttributionChain.Admission

open Cbor Ledger Endorsement Store Histories

variable {platform : Platform} {table other : Table} {ledgerID : LedgerID}
  {system next alone : System} {request : Request} {req : AdmitRequest} {phase : Phase}
  {action : Action} {record : StructuralRecord} {client : Nat} {call : Call}

/-! ### The part of one ledger -/

/-- The ledger that a request is for. -/
def ledgerOf : Request → LedgerID
  | .initLedger ledgerID => ledgerID
  | .admitEvent req => req.ledgerID
  | .admitEndorsement ledgerID _ => ledgerID
  | .admitRevocation ledgerID _ => ledgerID

theorem ledgerOf_of_asks (h : Asks platform request req) : req.ledgerID = ledgerOf request := by
  cases h <;> rfl

/-- What a ledger needs of an action: calls are made, whatever their ledger, but only its
own calls go on to their queries. -/
def ownActions (ledgerID : LedgerID) (system : System) (action : Action) (_ : System) :
    List Action :=
  match action.client with
  | none => [action]
  | some client =>
    if system.calls[client]?.any fun call => ledgerOf call.request = ledgerID then [action] else []

variable (platform) in
/-- A call as it is when only the calls of one ledger go on. -/
def Call.restrict (ledgerID : LedgerID) (call : Call) : Call :=
  if ledgerOf call.request = ledgerID then call
  else { call with phase := startCall platform call.maxRetries call.request }

variable (platform) in
/-- A system in which only the calls of one ledger have gone on, to the same point. -/
structure Alone (ledgerID : LedgerID) (system alone : System) : Prop where
  table : alone.table.Restricts ledgerID system.table
  calls : alone.calls = system.calls.map (Call.restrict platform ledgerID)

theorem Alone.own_call (h : Alone platform ledgerID system alone)
    (hcall : system.calls[client]? = some call) (hown : ledgerOf call.request = ledgerID) :
    alone.calls[client]? = some call := by
  rw [h.calls, List.getElem?_map, hcall, Option.map_some, Call.restrict, if_pos hown]

/-! ### One query -/

variable (platform) in
/-- A call finds the same in a table and in the part of it that is its ledger's. -/
structure SeesSame (ledgerID : LedgerID) (table other : Table) (phase : Phase) : Prop where
  initHead : ∀ asked, phase = .initHead asked →
    head platform other asked = head platform table asked
  admitHead : ∀ req attempt, phase = .admitHead req attempt →
    head platform other req.ledgerID = head platform table req.ledgerID
  append : ∀ record, phase.pending = some record →
    (Store.append other record).2 = (Store.append table record).2 ∧
      (Store.append other record).1.Restricts ledgerID (Store.append table record).1
  reread : ∀ record, phase = .admitReread record →
    Store.record platform other record.recordDigest =
      Store.record platform table record.recordDigest

theorem appendWith_restrict (hrestricts : other.Restricts ledgerID table)
    (h : (Store.append other record).2 = (Store.append table record).2 ∧
      (Store.append other record).1.Restricts ledgerID (Store.append table record).1)
    (outcome : AppendOutcome) :
    (appendWith other record outcome).2 = (appendWith table record outcome).2 ∧
      (appendWith other record outcome).1.Restricts ledgerID
        (appendWith table record outcome).1 := by
  cases outcome with
  | completed => exact h
  | requestLost => exact ⟨rfl, hrestricts⟩
  | replyLost => exact ⟨rfl, h.2⟩

/-- A call that finds the same goes on in the same way. -/
theorem step_of_seesSame (hclient : action.client = some client)
    (hcall : system.calls[client]? = some call) (halone : alone.calls[client]? = some call)
    (hrestricts : alone.table.Restricts ledgerID system.table)
    (hsees : SeesSame platform ledgerID system.table alone.table call.phase)
    (h : step platform system action = some next) :
    ∃ later restricted phase, next = system.advance client call later phase ∧
      step platform alone action = some (alone.advance client call restricted phase) ∧
      restricted.Restricts ledgerID later := by
  obtain ⟨request, maxRetries, phase⟩ := call
  cases action with
  | start => cases hclient
  | head _ queryFails stamp =>
    cases hclient
    cases phase with
    | initHead asked =>
      simp only [step, hcall, Option.some.injEq] at h
      refine ⟨_, _, _, h.symm, ?_, hrestricts⟩
      simp only [step, halone, hsees.initHead asked rfl]
    | admitHead req attempt =>
      simp only [step, hcall, Option.some.injEq] at h
      refine ⟨_, _, _, h.symm, ?_, hrestricts⟩
      simp only [step, halone, hsees.admitHead req attempt rfl]
    | _ => simp [step, hcall] at h
  | append _ outcome contextDone =>
    cases hclient
    cases phase with
    | initAppend record =>
      obtain ⟨hanswer, htables⟩ := appendWith_restrict hrestricts (hsees.append record rfl) outcome
      simp only [step, hcall, Option.some.injEq] at h
      refine ⟨_, _, _, h.symm, ?_, htables⟩
      simp only [step, halone, hanswer]
    | admitAppend req attempt record =>
      obtain ⟨hanswer, htables⟩ := appendWith_restrict hrestricts (hsees.append record rfl) outcome
      simp only [step, hcall, Option.some.injEq] at h
      refine ⟨_, _, _, h.symm, ?_, htables⟩
      simp only [step, halone, hanswer]
    | _ => simp [step, hcall] at h
  | reread _ queryFails =>
    cases hclient
    cases phase with
    | admitReread record =>
      simp only [step, hcall, Option.some.injEq] at h
      refine ⟨_, _, _, h.symm, ?_, hrestricts⟩
      simp only [step, halone, hsees.reread record rfl]
    | _ => simp [step, hcall] at h

/-- The record that a call is about to append is for the call's ledger, and so is the
predecessor that it names. -/
theorem Sound.pending_ledgerID (hsound : Sound platform table request phase)
    (hpending : phase.pending = some record) :
    record.event.ledgerID = ledgerOf request ∧
      ∀ previous ∈ record.event.predecessor, ∃ stored ∈ table.rows,
        stored.ledgerID = ledgerOf request ∧ stored.recordDigest = previous := by
  cases hsound with
  | initAppend hfields =>
    cases hpending
    refine ⟨congrArg EventFields.ledgerID hfields, ?_⟩
    have hfirst : _ = none := congrArg EventFields.previousRecordDigest hfields
    intro previous hprevious
    cases hfirst.symm.trans hprevious
  | @admitAppend _ _ _ _ _ _ stored hasks hfields hstored hfollows =>
    cases hpending
    have hledger := (congrArg EventFields.ledgerID hfields).trans (ledgerOf_of_asks hasks)
    refine ⟨hledger, ?_⟩
    intro previous hprevious
    cases hfollows.predecessor.symm.trans hprevious
    exact ⟨stored, hstored, hfollows.ledgerID.trans hledger, rfl⟩
  | initHead | admitHead | admitReread | initReturned | admitReturned | failed => cases hpending

theorem Sound.initHead_ledgerID {asked : LedgerID}
    (hsound : Sound platform table request (.initHead asked)) : asked = ledgerOf request := by
  cases hsound
  rfl

theorem Sound.admitHead_ledgerID {attempt : Nat}
    (hsound : Sound platform table request (.admitHead req attempt)) :
    req.ledgerID = ledgerOf request := by
  cases hsound with
  | admitHead hasks => exact ledgerOf_of_asks hasks

theorem Builds.reread_ledgerID (hbuilds : Builds platform request (.admitReread record)) :
    record.event.ledgerID = ledgerOf request ∧
      ∃ validated : ValidatedRecord platform, validated.record = record := by
  cases hbuilds with
  | @admitReread _ _ _ _ validated hasks hfields =>
    exact ⟨(congrArg EventFields.ledgerID hfields).trans (ledgerOf_of_asks hasks), validated, rfl⟩

/-- No call depends on the rows of other ledgers. -/
theorem seesSame_of_reaches (hcbor : platform.cbor.Conforms)
    (h : Reaches (step platform) (Orderly platform) .initial system)
    (hcollision : CollisionFree platform system action) (hclient : action.client = some client)
    (hcall : system.calls[client]? = some call)
    (hrestricts : other.Restricts (ledgerOf call.request) system.table) :
    SeesSame platform (ledgerOf call.request) system.table other call.phase := by
  have hmem := List.mem_of_getElem? hcall
  have hsound := (consistent_of_reaches hcbor
    (h.mono fun _ _ horderly => horderly.noSecondGenesis)).sound call hmem
  have hbuilding : ∀ asked, Building platform asked system := fun asked =>
    building_of_reaches hcbor (building_start fun row hrow _ => authentic_empty row hrow) h
  have hbuilds := (hbuilding (ledgerOf call.request)).builds call hmem
  refine ⟨?_, ?_, ?_, ?_⟩
  · intro asked hphase
    rw [hphase] at hsound
    rw [hsound.initHead_ledgerID]
    exact hrestricts.head_eq
  · intro req attempt hphase
    rw [hphase] at hsound
    rw [hsound.admitHead_ledgerID]
    exact hrestricts.head_eq
  · intro record hpending
    obtain ⟨hledger, hpredecessor⟩ := hsound.pending_ledgerID hpending
    apply append_restrict hrestricts hledger
    · -- without collisions a row of the same digest is the row of the record itself
      intro stored hstored hdigest
      obtain ⟨validated, rfl⟩ := hbuilds.validated hpending
      have hrow := row_of_digest_eq ((hbuilding stored.ledgerID).authentic stored hstored rfl)
        hstored (hcollision client hclient call hcall validated.record hpending) hdigest
      rw [← hrow]
      exact hledger
    · intro previous hprevious
      obtain ⟨stored, hstored, hsame, hdigest⟩ := hpredecessor previous hprevious
      exact ⟨stored, hrestricts.mem_iff.mpr ⟨hstored, hsame⟩, hdigest⟩
  · intro record hphase
    have hstored := (delivered_of_reaches hcbor authentic_empty
      (h.mono fun _ _ horderly => horderly.collisionFree) call hmem).reread record hphase
    rw [hphase] at hbuilds
    obtain ⟨hledger, validated, rfl⟩ := hbuilds.reread_ledgerID
    rw [record_of_row hstored, record_of_row (hrestricts.mem_iff.mpr ⟨hstored, hledger⟩)]

/-! ### Whole runs -/

/-- A call of another ledger changes nothing. -/
theorem Alone.advance_other (h : Alone platform ledgerID system alone) {later : Table}
    (hcall : system.calls[client]? = some call) (hother : ledgerOf call.request ≠ ledgerID)
    (hsound : Sound platform system.table call.request call.phase)
    (hadvances : Advances platform system.table call.maxRetries call.phase later phase) :
    Alone platform ledgerID (system.advance client call later phase) alone where
  table := by
    rcases hadvances.table_cases with rfl | ⟨record, hpending, hadmits, rfl⟩
    · exact h.table
    · apply h.table.add_other hadmits
      intro hsame
      exact hother ((hsound.pending_ledgerID hpending).1.symm.trans hsame)
  calls := by
    rw [h.calls, System.advance_calls, map_set_of_key_eq _ hcall]
    simp [Call.restrict, hother]

theorem Alone.start (h : Alone platform ledgerID system alone) (request : Request)
    (maxRetries : Int64) :
    Alone platform ledgerID
      ⟨system.table,
        system.calls ++ [⟨request, maxRetries, startCall platform maxRetries request⟩]⟩
      ⟨alone.table,
        alone.calls ++ [⟨request, maxRetries, startCall platform maxRetries request⟩]⟩ where
  table := h.table
  calls := by simp [h.calls, Call.restrict]

theorem Alone.step (hcbor : platform.cbor.Conforms)
    (h : Reaches (step platform) (Orderly platform) .initial system)
    (halone : Alone platform ledgerID system alone) (horderly : Orderly platform system action)
    (hstep : Admission.step platform system action = some next) :
    ∃ nextAlone, (ownActions ledgerID system action next).foldlM (Admission.step platform) alone =
      some nextAlone ∧ Alone platform ledgerID next nextAlone := by
  rcases step_cases hstep with ⟨request, maxRetries, rfl, rfl⟩ |
    ⟨client, call, later, phase, hclient, hcall, hadvances, hnext⟩
  · exact ⟨_, rfl, halone.start request maxRetries⟩
  · by_cases hown : ledgerOf call.request = ledgerID
    · subst hown
      have hkept : ownActions (ledgerOf call.request) system action next = [action] := by
        simp [ownActions, hclient, hcall]
      have hsees := seesSame_of_reaches hcbor h horderly.collisionFree hclient hcall halone.table
      obtain ⟨later, restricted, phase, rfl, hsame, htables⟩ := step_of_seesSame hclient hcall
        (halone.own_call hcall rfl) halone.table hsees hstep
      refine ⟨alone.advance client call restricted phase, ?_, htables, ?_⟩
      · rw [hkept, List.foldlM_cons, hsame]
        rfl
      · rw [System.advance_calls, System.advance_calls, halone.calls, List.map_set]
        simp [Call.restrict]
    · have hleft : ownActions ledgerID system action next = [] := by
        simp [ownActions, hclient, hcall, hown]
      have hsound := (consistent_of_reaches hcbor
        (h.mono fun _ _ horderly => horderly.noSecondGenesis)).sound call
          (List.mem_of_getElem? hcall)
      rw [hleft, hnext]
      exact ⟨alone, rfl, halone.advance_other hcall hown hsound hadvances⟩

/-- **Ledgers do not interfere.**  Take any run of calls on any number of ledgers, in any
interleaving, and leave out the queries of the calls that are for other ledgers.  What is
left is a run too: it stores exactly the rows of the ledger, in the same order, and every
call for the ledger stands where it stood and has returned what it returned. -/
theorem ledger_alone (platform : Platform) (hcbor : platform.cbor.Conforms) (ledgerID : LedgerID)
    (system : System) (kept : List (List Action))
    (h : Reaches (traced (ownActions ledgerID) (step platform))
      (fun state action => Orderly platform state.1 action) (.initial, []) (system, kept)) :
    ∃ alone, run platform .initial kept.flatten = some alone ∧
      alone.table.rows = system.table.rows.filter (fun row => row.ledgerID = ledgerID) ∧
      alone.calls = system.calls.map (Call.restrict platform ledgerID) := by
  have hinitial : Alone platform ledgerID .initial .initial := ⟨rfl, rfl⟩
  obtain ⟨alone, hrun, halone⟩ := h.simulates hinitial
    fun state action next twin hreaches hrelated horderly hstep =>
      hrelated.step hcbor hreaches horderly hstep
  exact ⟨alone, hrun, halone.table, halone.calls⟩

/-- `InitLedger` on two ledgers at the same time. -/
def twoLedgersRun : List Action :=
  [.start (.initLedger (.zero 32)) 0, .start (.initLedger goldenGenesisFields.ledgerID) 0,
    .head 0 false sampleStamp, .head 1 false sampleStamp, .append 1 .completed false,
    .append 0 .completed false]

/-- The part of the first. -/
def oneLedgerRun : List Action :=
  [.start (.initLedger (.zero 32)) 0, .start (.initLedger goldenGenesisFields.ledgerID) 0,
    .head 0 false sampleStamp, .append 0 .completed false]

theorem twoLedgersRun_alone :
    ∃ system alone, Reaches (step samplePlatform) (Orderly samplePlatform) .initial system ∧
      system.table.rows.length = 2 ∧ run samplePlatform .initial oneLedgerRun = some alone ∧
      alone.table.rows = system.table.rows.filter (fun row => row.ledgerID = .zero 32) ∧
      alone.calls = system.calls.map (Call.restrict samplePlatform (.zero 32)) := by
  have hevaluated : (twoLedgersRun.foldlM
      (checkedStep (fun state action => Orderly samplePlatform state.1 action)
        (traced (ownActions (.zero 32)) (step samplePlatform))) (.initial, [])).any (fun state =>
        state.1.table.rows.length = 2 && state.2.flatten = oneLedgerRun) = true := by
    decide +kernel
  simp only [Option.any_eq_true, Bool.and_eq_true, decide_eq_true_eq] at hevaluated
  obtain ⟨⟨system, kept⟩, hrun, hlength, hkept⟩ := hevaluated
  have hreaches := (Reaches.refl.of_checked hrun).1
  obtain ⟨alone, halone, htable, hcalls⟩ :=
    ledger_alone samplePlatform reference_conforms (.zero 32) system kept hreaches
  rw [hkept] at halone
  exact ⟨system, alone, hreaches.of_traced, hlength, halone, htable, hcalls⟩

end AttributionChain.Admission

import AttributionChain.AdmissionLog

/-!
# Contention

`Admit` gives up after `maxRetries + 1` attempts that found their position taken.
Each lost attempt is charged to a row of its own: when the head was read, the next
position was free, and it was taken before the append (`Contends.admitAppend`).  So
the attempts of a call never outnumber the rows that other calls have added since it
started, and a call gives up only when these are more than its retries.

The exception is a service with the largest number of retries there is, for which
`maxRetries + 1` wraps around and the loop is never entered.

Among `k` calls that meet no other failure, each stores at most one row and so costs
another call at most one attempt.  `Undisturbed` runs therefore end, after at most
`k * (2 * k + 2)` steps, with a record for every call.
-/

namespace AttributionChain.Admission

open Cbor Ledger Endorsement Store Histories

variable {platform : Platform} {table later : Table} {ledgerID : LedgerID} {system : System}
  {request : Request} {req : AdmitRequest} {phase nextPhase : Phase} {maxRetries : Int64}
  {action : Action} {others attempt : Nat} {state : ChainState}

/-! ### The head of a ledger of records -/

/-- The head of a ledger that has a row. -/
theorem exists_head (hcbor : platform.cbor.Conforms)
    (h : ∀ row ∈ table.rows, row.ledgerID = ledgerID → Authentic platform row) {row : Row}
    (hrow : row ∈ table.rows) (hledger : row.ledgerID = ledgerID) :
    ∃ state, head platform table ledgerID = .ok state ∧ state.initialized = true := by
  obtain ⟨chain, hholds⟩ := exists_holds h
  have hhead := hholds.head_eq_last fun validated _ => validated.spec.bytes_ne_empty hcbor
  refine ⟨_, hhead, ?_⟩
  obtain ⟨validated, hvalidated, -⟩ := hholds.exists_of_mem hrow hledger
  obtain ⟨last, hlast⟩ : ∃ last, chain.getLast? = some last :=
    ⟨_, List.getLast?_eq_some_getLast (List.ne_nil_of_mem hvalidated)⟩
  simp only [chainStateAfter, List.getLast?_map, hlast, Option.map_some,
    chainStateFromRecord_of_nonempty (last.spec.bytes_ne_empty hcbor)]

/-- The head is a stored row, and no position of the ledger is beyond it. -/
theorem head_spec (hcbor : platform.cbor.Conforms)
    (h : ∀ row ∈ table.rows, row.ledgerID = ledgerID → Authentic platform row)
    (hhead : head platform table ledgerID = .ok state) (hinitialized : state.initialized = true) :
    (∃ stored ∈ table.rows, stored.recordDigest = state.lastRecordDigest) ∧
      ∀ row ∈ table.rows, row.ledgerID = ledgerID →
        row.sequenceNumber.toNat ≤ state.lastSequence.toNat := by
  obtain ⟨chain, hholds⟩ := exists_holds h
  rw [hholds.head_eq_last fun validated _ => validated.spec.bytes_ne_empty hcbor] at hhead
  cases hhead
  rcases hlast : chain.getLast? with _ | last
  · simp [chainStateAfter, List.getLast?_map, hlast, ChainState.empty] at hinitialized
  · have hstate : chainStateAfter (chain.map ValidatedRecord.record) =
        ⟨true, last.record.event.ledgerID, last.record.event.sequence,
          last.record.recordDigest⟩ := by
      simp [chainStateAfter, List.getLast?_map, hlast,
        chainStateFromRecord_of_nonempty (last.spec.bytes_ne_empty hcbor)]
    have hrow : (table.ledgerRows ledgerID).getLast? = some (rowOfRecord last.record) := by
      rw [hholds, List.getLast?_map, hlast, Option.map_some]
    rw [hstate]
    constructor
    · exact ⟨_, (mem_ledgerRows.mp (List.mem_of_getLast? hrow)).1, rfl⟩
    · intro row hmem hledger
      exact key_le_of_getLast? (fun row : Row => row.sequenceNumber.toNat)
        (List.mem_filter.mpr ⟨hmem, decide_eq_true hledger⟩) hrow

/-- **A record built on the current head has a position of its own.** -/
theorem position_free (hcbor : platform.cbor.Conforms)
    (h : ∀ row ∈ table.rows, row.ledgerID = req.ledgerID → Authentic platform row)
    (hhead : head platform table req.ledgerID = .ok state) (hinitialized : state.initialized = true)
    {validated : ValidatedRecord platform} {nowMS : UInt64}
    (hfields : validated.record.event.fields = continuationFields req state nowMS) :
    ∀ stored ∈ table.rows, stored.position ≠ (rowOfRecord validated.record).position := by
  intro stored hstored hposition
  have hledger : stored.ledgerID = req.ledgerID :=
    (congrArg Prod.fst hposition).trans (congrArg EventFields.ledgerID hfields)
  have hsequence : stored.sequenceNumber = validated.record.event.sequence :=
    congrArg Prod.snd hposition
  have hbound := (head_spec hcbor h hhead hinitialized).2 stored hstored hledger
  rw [hsequence, sequence_of_continuationFields hfields] at hbound
  omega

/-! ### Charging lost attempts -/

variable (platform) in
/-- The phases of a call for `req` while other calls have added `others` rows to its
ledger. -/
inductive Contends (table : Table) (maxRetries : Int64) (req : AdmitRequest) (others : Nat) :
    Phase → Prop
  | admitHead {attempt : Nat} (hcharged : attempt ≤ others) :
      Contends table maxRetries req others (.admitHead req attempt)
  | admitAppend {attempt : Nat} {validated : ValidatedRecord platform}
      (hledger : validated.record.event.ledgerID = req.ledgerID) (hcharged : attempt ≤ others)
      (htaken : ∀ stored ∈ table.rows,
        stored.position = (rowOfRecord validated.record).position → attempt < others)
      (hlinked : ∃ stored ∈ table.rows,
        validated.record.event.predecessor = some stored.recordDigest) :
      Contends table maxRetries req others (.admitAppend req attempt validated.record)
  | admitReread (record : StructuralRecord) :
      Contends table maxRetries req others (.admitReread record)
  | returned (record : StructuralRecord) :
      Contends table maxRetries req others (.returned (.ok record))
  | failed {err : ServiceError} (hearned : ∀ retries, err = .retriesExceeded retries →
      maxRetries ≠ Int64.maxValue → maxRetries.toInt + 1 ≤ others) :
      Contends table maxRetries req others (.returned (.error err))

theorem contends_of_beforeAppend {err : ServiceError} (h : err.BeforeAppend) :
    Contends platform table maxRetries req others (.returned (.error err)) := by
  apply Contends.failed
  rintro retries rfl
  cases h

theorem contends_admitAttempt (hcharged : attempt ≤ others) :
    Contends platform table maxRetries req others (admitAttempt maxRetries req attempt) := by
  unfold admitAttempt
  by_cases hentered : (attempt : Int) < (maxRetries + 1).toInt
  · rw [if_pos hentered]
    exact .admitHead hcharged
  · rw [if_neg hentered]
    apply Contends.failed
    intro retries _ hretries
    rw [toInt_add_one hretries] at hentered
    omega

theorem contends_startCall (hasks : Asks platform request req) :
    Contends platform table maxRetries req others (startCall platform maxRetries request) := by
  rcases startCall_cases platform maxRetries request with ⟨ledgerID, rfl, -⟩ |
    ⟨err, hbefore, hphase⟩ | ⟨other, hother, -, hphase⟩
  · cases hasks
  · rw [hphase]
    exact contends_of_beforeAppend hbefore
  · rw [hphase, hother.unique hasks]
    exact contends_admitAttempt (Nat.zero_le _)

/-- **A query of the call itself.** -/
theorem Contends.advances (hcbor : platform.cbor.Conforms)
    (hauthentic : ∀ row ∈ table.rows, row.ledgerID = req.ledgerID → Authentic platform row)
    (h : Contends platform table maxRetries req others phase)
    (hadvances : Advances platform table maxRetries phase later nextPhase) :
    Contends platform later maxRetries req others nextPhase := by
  cases h with
  | @admitHead attempt hcharged =>
    cases hadvances with
    | @admitHead _ _ queryFails stamp =>
      rcases admitAfterHead_cases platform req attempt
        (query queryFails (head platform table req.ledgerID)) stamp with
        ⟨err, hbefore, hphase⟩ | ⟨state, record, hread, hinitialized, hrecord, hphase⟩
      · rw [hphase]
        exact contends_of_beforeAppend hbefore
      · rw [hphase]
        obtain ⟨validated, rfl, hfields⟩ := continuationRecord_eq_ok hcbor hrecord
        have hhead := (query_eq_ok.mp hread).2
        obtain ⟨⟨stored, hstored, hdigest⟩, -⟩ := head_spec hcbor hauthentic hhead hinitialized
        refine .admitAppend (congrArg EventFields.ledgerID hfields) hcharged ?_
          ⟨stored, hstored, ?_⟩
        · intro other hother hposition
          exact absurd hposition
            (position_free hcbor hauthentic hhead hinitialized hfields other hother)
        · rw [hdigest]
          exact congrArg EventFields.previousRecordDigest hfields
  | @admitAppend attempt validated hledger hcharged htaken hlinked =>
    cases hadvances with
    | @admitAppend _ _ _ outcome contextDone _ err happend =>
      rcases admitAfterAppend_cases maxRetries req attempt validated.record contextDone err with
        ⟨-, hphase⟩ | ⟨-, hphase⟩ | ⟨rfl, hphase⟩ | ⟨failure, rfl | ⟨cause, rfl⟩, hphase⟩
      · rw [hphase]
        exact .returned _
      · rw [hphase]
        exact .admitReread _
      · obtain ⟨stored, hstored, hposition⟩ :=
          append_eq_moved (appendWith_eq_some happend (by simp))
        rw [hphase]
        exact contends_admitAttempt (htaken stored hstored hposition)
      · rw [hphase]
        exact .failed (by simp)
      · rw [hphase]
        exact .failed (by simp)
  | admitReread record =>
    cases hadvances with
    | reread =>
      obtain ⟨found, hphase⟩ := exists_admitAfterReread _ _
      rw [hphase]
      exact .returned _
  | returned record => exact absurd rfl (hadvances.ne_returned _)
  | failed => exact absurd rfl (hadvances.ne_returned _)

/-- **A row that another call adds.**  If it takes the position of the pending record,
it is on the call's ledger and counts. -/
theorem Contends.add (h : Contends platform table maxRetries req others phase) {row : Row}
    (hadmits : table.Admits row) :
    Contends platform (table.add row hadmits) maxRetries req
      (others + if row.ledgerID = req.ledgerID then 1 else 0) phase := by
  cases h with
  | admitHead hcharged => exact .admitHead (Nat.le_add_right_of_le hcharged)
  | @admitAppend attempt validated hledger hcharged htaken hlinked =>
    refine .admitAppend hledger (Nat.le_add_right_of_le hcharged) ?_ ?_
    · intro stored hstored hposition
      rcases List.mem_append.mp hstored with hold | hnew
      · exact Nat.lt_add_right _ (htaken stored hold hposition)
      · rw [List.mem_singleton.mp hnew] at hposition
        have hsame : row.ledgerID = req.ledgerID := (congrArg Prod.fst hposition).trans hledger
        rw [if_pos hsame]
        omega
    · obtain ⟨stored, hstored, hlink⟩ := hlinked
      exact ⟨stored, List.mem_append_left _ hstored, hlink⟩
  | admitReread record => exact .admitReread record
  | returned record => exact .returned record
  | failed hearned =>
    apply Contends.failed
    intro retries herr hretries
    have hbound := hearned retries herr hretries
    push_cast
    omega

/-! ### A call among others -/

/-- How many rows the other calls have added to a ledger. -/
def foreign (ledgerID : LedgerID) (client : Nat) (log : List Event) : Nat :=
  (entries log).countP fun entry => entry.client ≠ client ∧ entry.row.ledgerID = ledgerID

/-- **One step of the system**, seen from one call. -/
theorem contends_step {state next : System × List Event} (hcbor : platform.cbor.Conforms)
    (hauthentic : ∀ row ∈ state.1.table.rows, row.ledgerID = req.ledgerID →
      Authentic platform row) {client : Nat} {call : Call}
    (hcall : state.1.calls[client]? = some call)
    (h : Contends platform state.1.table call.maxRetries req
      (foreign req.ledgerID client state.2) call.phase)
    (hstep : traced observed (step platform) state action = some next) :
    ∃ after, next.1.calls[client]? = some after ∧ after.maxRetries = call.maxRetries ∧
      Contends platform next.1.table after.maxRetries req
        (foreign req.ledgerID client next.2) after.phase := by
  have hclient := (List.getElem?_eq_some_iff.mp hcall).1
  unfold foreign at h ⊢
  rcases observed_cases hstep with ⟨request, maxRetries, -, hnext, hentries⟩ |
    ⟨mover, moved, later, phase, -, hmoved, hadvances, hnext, hcases⟩
  · rw [hnext, hentries]
    exact ⟨call, (List.getElem?_append_left hclient).trans hcall, rfl, h⟩
  · by_cases hown : mover = client
    · subst hown
      cases hcall.symm.trans hmoved
      refine ⟨{ call with phase := phase }, ?_, rfl, ?_⟩
      · rw [hnext, System.advance_calls]
        exact List.getElem?_set_self hclient
      · have hself := h.advances hcbor hauthentic hadvances
        rw [hnext]
        rcases hcases with ⟨-, hentries⟩ | ⟨record, -, -, -, hentries⟩
        · rw [hentries]
          exact hself
        · rw [hentries, List.countP_append]
          simpa using hself
    · refine ⟨call, ?_, rfl, ?_⟩
      · rw [hnext, System.advance_calls, List.getElem?_set_ne hown]
        exact hcall
      · rw [hnext]
        rcases hcases with ⟨rfl, hentries⟩ | ⟨record, -, -, ⟨hadmits, rfl⟩, hentries⟩
        · rw [hentries]
          exact h
        · have hadded := h.add hadmits
          rw [hentries, List.countP_append]
          simpa [List.countP_cons, hown] using hadded

/-- A call that has been started contends from then on. -/
theorem contends_of_reaches {allowed : System × List Event → Action → Prop}
    {opened : System} {final : System × List Event} (hcbor : platform.cbor.Conforms)
    (hbuilding : Building platform req.ledgerID opened) {client : Nat} {call : Call}
    (hcall : opened.calls[client]? = some call)
    (hstart : Contends platform opened.table call.maxRetries req 0 call.phase)
    (h : Reaches (traced observed (step platform)) allowed (opened, []) final) :
    Building platform req.ledgerID final.1 ∧ ∃ after, final.1.calls[client]? = some after ∧
      after.maxRetries = call.maxRetries ∧
      Contends platform final.1.table after.maxRetries req
        (foreign req.ledgerID client final.2) after.phase := by
  apply h.invariant
  · exact ⟨hbuilding, call, hcall, rfl, hstart⟩
  rintro state action next - ⟨hstate, before, hbefore, hretries, hcontends⟩ - hstep
  obtain ⟨after, hafter, hsame, hmoved⟩ :=
    contends_step hcbor hstate.authentic hbefore hcontends hstep
  exact ⟨hstate.step hcbor (traced_eq_some.mp hstep).1, after, hafter, hsame.trans hretries,
    hmoved⟩

/-! ### Calls that meet nothing but each other -/

variable (platform) in
/-- The clock and the signer let the call build a record on the current head. -/
def CanBuild (system : System) (client : Nat) (stamp : Stamp) : Prop :=
  ∀ call ∈ system.calls[client]?, ∀ req attempt, call.phase = .admitHead req attempt →
    ∀ state, head platform system.table req.ledgerID = .ok state →
      ∃ record, continuationRecord platform req state stamp = .ok record

variable (platform) in
/-- A step of at most `k` calls of `Admit` on one ledger, each with `k - 1` retries or
more, in which no query, no signature and no construction fails. -/
structure Undisturbed (ledgerID : LedgerID) (k : Nat) (system : System) (action : Action) :
    Prop where
  start : ∀ request maxRetries, action = .start request maxRetries →
    system.calls.length < k ∧ (k : Int) - 1 ≤ maxRetries.toInt ∧
      maxRetries ≠ Int64.maxValue ∧
      ∃ req, request = .admitEvent req ∧ req.ledgerID = ledgerID ∧ req.payloadBytes.len ≠ 0
  head : ∀ client queryFails stamp, action = .head client queryFails stamp →
    queryFails = false ∧ CanBuild platform system client stamp
  append : ∀ client outcome contextDone, action = .append client outcome contextDone →
    outcome = .completed ∧ contextDone = false

/-- How many steps a call has before it, at most. -/
def rank (k : Nat) : Phase → Nat
  | .admitHead _ attempt => 2 * (k - attempt) + 1
  | .admitAppend _ attempt _ => 2 * (k - attempt)
  | .admitReread _ => 1
  | _ => 0

/-- Of calls that append once each, a call loses to every other at most once. -/
theorem AppendsOnce.foreign_lt {state : System × List Event} (h : AppendsOnce state)
    (ledgerID : LedgerID) {client : Nat} (hclient : client < state.1.calls.length) :
    foreign ledgerID client state.2 < state.1.calls.length := by
  unfold foreign
  rw [List.countP_eq_length_filter]
  have hsubset : (client :: ((entries state.2).filter fun entry =>
      entry.client ≠ client ∧ entry.row.ledgerID = ledgerID).map Entry.client) ⊆
      List.range state.1.calls.length := by
    intro other hother
    rw [List.mem_range]
    rcases List.mem_cons.mp hother with rfl | hmem
    · exact hclient
    · obtain ⟨entry, hentry, rfl⟩ := List.mem_map.mp hmem
      obtain ⟨call, hcall, -⟩ := h.stored entry (List.mem_of_mem_filter hentry)
      exact (List.getElem?_eq_some_iff.mp hcall).1
  have hnodup : (client :: ((entries state.2).filter fun entry =>
      entry.client ≠ client ∧ entry.row.ledgerID = ledgerID).map Entry.client).Nodup := by
    refine List.nodup_cons.mpr ⟨?_, h.nodup.sublist (List.filter_sublist.map _)⟩
    intro hmem
    obtain ⟨entry, hentry, hsame⟩ := List.mem_map.mp hmem
    have hdiffers := (List.mem_filter.mp hentry).2
    simp [hsame] at hdiffers
  have hlength := (List.subperm_of_subset hnodup hsubset).length_le
  rw [List.length_cons, List.length_map, List.length_range] at hlength
  omega

/-- A call of `Admit` in an undisturbed run. -/
structure Thrives (ledgerID : LedgerID) (k : Nat) (req : AdmitRequest) (call : Call) : Prop where
  ledger : req.ledgerID = ledgerID
  retries : (k : Int) - 1 ≤ call.maxRetries.toInt
  bounded : call.maxRetries ≠ Int64.maxValue
  unfailed : ∀ err, call.phase ≠ .returned (.error err)

/-- A validated record whose predecessor is stored is appended, or its place or its
digest is taken. -/
theorem append_of_linked (hcbor : platform.cbor.Conforms) {validated : ValidatedRecord platform}
    (hlinked : ∃ stored ∈ table.rows,
      validated.record.event.predecessor = some stored.recordDigest) :
    (Store.append table validated.record).2 = none ∨
      (Store.append table validated.record).2 = some .duplicateRecord ∨
      (Store.append table validated.record).2 = some .chainHeadMoved := by
  rcases append_cases table validated.record with ⟨hchecks, -⟩ | ⟨-, hanswer⟩ | ⟨-, hanswer⟩ |
    ⟨⟨-, -, hunknown⟩, -⟩ | ⟨_, hanswer⟩
  · exact absurd ⟨bytesBound_rowOfRecord hcbor validated, numericRange_rowOfRecord validated⟩
      hchecks
  · exact .inr (.inl (congrArg Prod.snd hanswer))
  · exact .inr (.inr (congrArg Prod.snd hanswer))
  · refine absurd ?_ hunknown
    intro parent hparent
    obtain ⟨stored, hstored, hlink⟩ := hlinked
    refine ⟨stored, List.mem_append_left _ hstored, ?_⟩
    exact Option.some.inj (hlink.symm.trans hparent)
  · exact .inl (congrArg Prod.snd hanswer)

/-- An attempt that is lost is not the last one. -/
theorem admitAttempt_of_lt {k : Nat} (hretries : (k : Int) - 1 ≤ maxRetries.toInt)
    (hbounded : maxRetries ≠ Int64.maxValue) (hattempt : attempt < k) :
    admitAttempt maxRetries req attempt = .admitHead req attempt := by
  apply if_pos
  rw [toInt_add_one hbounded]
  omega

/-- The head read of an undisturbed attempt. -/
theorem admitAfterHead_of_canBuild (hcbor : platform.cbor.Conforms) (attempt : Nat)
    (hauthentic : ∀ row ∈ table.rows, row.ledgerID = req.ledgerID → Authentic platform row)
    (hinitialized : ∃ row ∈ table.rows, row.ledgerID = req.ledgerID) {stamp : Stamp}
    (hbuild : ∀ state, head platform table req.ledgerID = .ok state →
      ∃ record, continuationRecord platform req state stamp = .ok record) :
    ∃ record, admitAfterHead platform req attempt
      (query false (head platform table req.ledgerID)) stamp = .admitAppend req attempt record := by
  obtain ⟨row, hrow, hledger⟩ := hinitialized
  obtain ⟨state, hhead, hstate⟩ := exists_head hcbor hauthentic hrow hledger
  obtain ⟨record, hrecord⟩ := hbuild state hhead
  refine ⟨record, ?_⟩
  rw [query_eq_ok.mpr ⟨rfl, hhead⟩]
  simp [admitAfterHead, hstate, hrecord]

/-- The append of an undisturbed attempt: the call returns its record, looks for it, or
has lost the attempt and makes another. -/
theorem admitAfterAppend_of_linked (hcbor : platform.cbor.Conforms) (req : AdmitRequest) {k : Nat}
    (hretries : (k : Int) - 1 ≤ maxRetries.toInt) (hbounded : maxRetries ≠ Int64.maxValue)
    {validated : ValidatedRecord platform}
    (hlinked : ∃ stored ∈ table.rows,
      validated.record.event.predecessor = some stored.recordDigest)
    (hcharged : attempt ≤ others) (hfew : others < k)
    (htaken : ∀ stored ∈ table.rows,
      stored.position = (rowOfRecord validated.record).position → attempt < others) :
    let phase := admitAfterAppend maxRetries req attempt validated.record false
      (Store.append table validated.record).2
    (∀ err, phase ≠ .returned (.error err)) ∧ rank k phase < 2 * (k - attempt) := by
  rcases append_of_linked hcbor hlinked with hanswer | hanswer | hanswer
  · rw [hanswer]
    refine ⟨by simp [admitAfterAppend], ?_⟩
    simp only [admitAfterAppend, rank]
    omega
  · rw [hanswer]
    refine ⟨by simp [admitAfterAppend], ?_⟩
    simp only [admitAfterAppend, rank]
    omega
  · obtain ⟨stored, hstored, hposition⟩ := append_eq_moved (Prod.ext rfl hanswer)
    have hlost := htaken stored hstored hposition
    have hnext : admitAfterAppend maxRetries req attempt validated.record false
        (some .chainHeadMoved) = .admitHead req (attempt + 1) :=
      admitAttempt_of_lt hretries hbounded (by omega)
    rw [hanswer, hnext]
    refine ⟨by simp, ?_⟩
    simp only [rank]
    omega

/-- **An undisturbed step of a call brings it nearer to its end, and not to an error.** -/
theorem Thrives.step {k client : Nat} {call : Call} {next : System}
    (hcbor : platform.cbor.Conforms) (h : Thrives ledgerID k req call)
    (hauthentic : ∀ row ∈ system.table.rows, row.ledgerID = req.ledgerID → Authentic platform row)
    (hinitialized : ∃ row ∈ system.table.rows, row.ledgerID = req.ledgerID)
    (hcontends : Contends platform system.table call.maxRetries req others call.phase)
    (hfew : others < k) (hcall : system.calls[client]? = some call)
    (hclient : action.client = some client)
    (hundisturbed : Undisturbed platform ledgerID k system action)
    (hstep : Admission.step platform system action = some next) :
    ∃ later phase, next = system.advance client call later phase ∧
      (∀ err, phase ≠ .returned (.error err)) ∧ rank k phase < rank k call.phase := by
  obtain ⟨request, maxRetries, phase⟩ := call
  cases action with
  | start => cases hclient
  | head client queryFails stamp =>
    cases hclient
    obtain ⟨rfl, hbuild⟩ := hundisturbed.head _ _ _ rfl
    cases hcontends with
    | @admitHead attempt hcharged =>
      obtain ⟨record, hphase⟩ := admitAfterHead_of_canBuild hcbor attempt hauthentic
        hinitialized (hbuild _ hcall req attempt rfl)
      simp only [Admission.step, hcall, Option.some.injEq, hphase] at hstep
      exact ⟨_, _, hstep.symm, by simp, by simp only [rank]; omega⟩
    | _ => simp [Admission.step, hcall] at hstep
  | append client outcome contextDone =>
    cases hclient
    obtain ⟨rfl, rfl⟩ := hundisturbed.append _ _ _ rfl
    cases hcontends with
    | @admitAppend attempt validated hledger hcharged htaken hlinked =>
      simp only [Admission.step, hcall, appendWith, Option.some.injEq] at hstep
      obtain ⟨hunfailed, hrank⟩ := admitAfterAppend_of_linked hcbor req h.retries
        h.bounded hlinked hcharged hfew htaken
      exact ⟨_, _, hstep.symm, hunfailed, hrank⟩
    | _ => simp [Admission.step, hcall] at hstep
  | reread client queryFails =>
    cases hclient
    cases hcontends with
    | admitReread record =>
      simp only [Admission.step, hcall, Option.some.injEq] at hstep
      obtain ⟨found, hphase⟩ := exists_admitAfterReread record
        (query queryFails (Store.record platform system.table record.recordDigest))
      rw [hphase] at hstep
      exact ⟨_, _, hstep.symm, by simp, by simp [rank]⟩
    | _ => simp [Admission.step, hcall] at hstep

variable (platform) in
/-- The states of undisturbed runs. -/
structure Thriving (ledgerID : LedgerID) (k : Nat) (state : System × List Event) : Prop where
  building : Building platform ledgerID state.1
  initialized : ∃ row ∈ state.1.table.rows, row.ledgerID = ledgerID
  once : AppendsOnce state
  few : state.1.calls.length ≤ k
  calls : ∀ (client : Nat) (call : Call), state.1.calls[client]? = some call →
    ∃ req, Thrives ledgerID k req call ∧
      Contends platform state.1.table call.maxRetries req (foreign ledgerID client state.2)
        call.phase
  work : state.2.length + (state.1.calls.map fun call => rank k call.phase).sum ≤
    (2 * k + 2) * state.1.calls.length

theorem thriving_start {k : Nat}
    (hauthentic : ∀ row ∈ table.rows, row.ledgerID = ledgerID → Authentic platform row)
    (hinitialized : ∃ row ∈ table.rows, row.ledgerID = ledgerID) :
    Thriving platform ledgerID k (⟨table, []⟩, []) where
  building := building_start hauthentic
  initialized := hinitialized
  once := appendsOnce_start _
  few := Nat.zero_le k
  calls client call hcall := by cases hcall
  work := by simp

/-- A started call stands before its first head read. -/
theorem start_of_undisturbed {k : Nat} {next : System}
    (hundisturbed : Undisturbed platform ledgerID k system (.start request maxRetries))
    (hstep : step platform system (.start request maxRetries) = some next) :
    ∃ req, next = ⟨system.table, system.calls ++ [⟨request, maxRetries, .admitHead req 0⟩]⟩ ∧
      Thrives ledgerID k req ⟨request, maxRetries, .admitHead req 0⟩ ∧
      system.calls.length < k := by
  obtain ⟨hroom, hretries, hbounded, req, rfl, hledger, hpayload⟩ := hundisturbed.start _ _ rfl
  have hphase : startCall platform maxRetries (.admitEvent req) = .admitHead req 0 := by
    rw [startCall, admitEvent, if_neg hpayload]
    exact admitAttempt_of_lt hretries hbounded (by omega)
  refine ⟨req, ?_, ⟨hledger, hretries, hbounded, by simp⟩, hroom⟩
  rw [Admission.step, hphase] at hstep
  exact (Option.some.inj hstep).symm

theorem Thriving.start {k : Nat} {state next : System × List Event}
    (hcbor : platform.cbor.Conforms) (h : Thriving platform ledgerID k state)
    (hundisturbed : Undisturbed platform ledgerID k state.1 (.start request maxRetries))
    (hstep : traced observed (step platform) state (.start request maxRetries) = some next) :
    Thriving platform ledgerID k next := by
  obtain ⟨htaken, hlog⟩ := traced_eq_some.mp hstep
  obtain ⟨req, hnext, hthrives, hroom⟩ := start_of_undisturbed hundisturbed htaken
  refine ⟨h.building.step hcbor htaken, ?_, h.once.step hstep, ?_, ?_, ?_⟩
  · rw [hnext]
    exact h.initialized
  · rw [hnext, List.length_append, List.length_singleton]
    exact hroom
  · intro client call hcall
    by_cases hold : client < state.1.calls.length
    · rw [hnext, List.getElem?_append_left hold] at hcall
      obtain ⟨other, hother, hcontends⟩ := h.calls client call hcall
      obtain rfl := hother.ledger
      obtain ⟨after, hafter, -, hmoved⟩ :=
        contends_step hcbor h.building.authentic hcall hcontends hstep
      rw [hnext, List.getElem?_append_left hold, hcall] at hafter
      cases hafter
      exact ⟨other, hother, hmoved⟩
    · rw [hnext] at hcall
      rcases getElem?_concat_eq_some.mp hcall with hearlier | ⟨-, rfl⟩
      · exact absurd (List.getElem?_eq_some_iff.mp hearlier).1 hold
      · exact ⟨req, hthrives, .admitHead (Nat.zero_le _)⟩
  · have hwork := h.work
    rw [hlog, hnext]
    have hrank : rank k (.admitHead req 0) = 2 * k + 1 := rfl
    simp only [List.length_append, List.length_singleton, List.map_append, List.map_singleton,
      List.sum_append, List.sum_singleton, hrank, Nat.mul_add, Nat.mul_one]
    omega

/-- A step of a call that has been started. -/
theorem Thriving.move {k client : Nat} {state next : System × List Event}
    (hcbor : platform.cbor.Conforms) (h : Thriving platform ledgerID k state)
    (hclient : action.client = some client) {call : Call}
    (hcall : state.1.calls[client]? = some call)
    (hundisturbed : Undisturbed platform ledgerID k state.1 action)
    (hstep : traced observed (step platform) state action = some next) :
    Thriving platform ledgerID k next := by
  obtain ⟨htaken, hlog⟩ := traced_eq_some.mp hstep
  have hbound := (List.getElem?_eq_some_iff.mp hcall).1
  obtain ⟨req, hthrives, hcontends⟩ := h.calls client call hcall
  obtain rfl := hthrives.ledger
  have hfew := Nat.lt_of_lt_of_le (h.once.foreign_lt req.ledgerID hbound) h.few
  obtain ⟨later, phase, hnext, hunfailed, hrank⟩ := hthrives.step hcbor h.building.authentic
    h.initialized hcontends hfew hcall hclient hundisturbed htaken
  have hlength : next.1.calls.length = state.1.calls.length := by
    rw [hnext, System.advance_calls, List.length_set]
  have hone : Reaches (step platform) (fun _ _ => True) state.1 next.1 :=
    .step .refl trivial htaken
  refine ⟨h.building.step hcbor htaken, ?_, h.once.step hstep, hlength ▸ h.few, ?_, ?_⟩
  · obtain ⟨row, hrow, hledger⟩ := h.initialized
    exact ⟨row, rows_subset_of_reaches hone row hrow, hledger⟩
  · intro other called hcalled
    have hold : ∃ before, state.1.calls[other]? = some before := by
      have hother := (List.getElem?_eq_some_iff.mp hcalled).1
      rw [hlength] at hother
      exact ⟨_, List.getElem?_eq_getElem hother⟩
    obtain ⟨before, hbefore⟩ := hold
    obtain ⟨otherReq, hother, hcontendsOther⟩ := h.calls other before hbefore
    obtain ⟨after, hafter, hretries, hmoved⟩ := contends_step hcbor
      (hother.ledger ▸ h.building.authentic) hbefore (hother.ledger ▸ hcontendsOther) hstep
    cases hcalled.symm.trans hafter
    rw [hother.ledger] at hmoved
    refine ⟨otherReq, ⟨hother.ledger, hretries ▸ hother.retries, hretries ▸ hother.bounded, ?_⟩,
      hmoved⟩
    rw [hnext, System.advance_calls] at hcalled
    by_cases hself : client = other
    · subst hself
      rw [List.getElem?_set_self hbound] at hcalled
      cases hcalled
      exact hunfailed
    · rw [List.getElem?_set_ne hself, hbefore] at hcalled
      cases hcalled
      exact hother.unfailed
  · have hsum : ((state.1.calls.set client { call with phase := phase }).map
        fun call => rank k call.phase).sum <
          (state.1.calls.map fun call => rank k call.phase).sum :=
      sum_map_set_lt (fun call : Call => rank k call.phase) hcall hrank
    have hwork := h.work
    rw [hlog, hlength, hnext, System.advance_calls, List.length_append, List.length_singleton]
    omega

/-- **One undisturbed step.** -/
theorem Thriving.step {k : Nat} {state next : System × List Event}
    (hcbor : platform.cbor.Conforms) (h : Thriving platform ledgerID k state)
    (hundisturbed : Undisturbed platform ledgerID k state.1 action)
    (hstep : traced observed (Admission.step platform) state action = some next) :
    Thriving platform ledgerID k next := by
  rcases observed_cases hstep with ⟨request, maxRetries, rfl, -, -⟩ |
    ⟨client, call, -, -, hclient, hcall, -, -, -⟩
  · exact h.start hcbor hundisturbed hstep
  · exact h.move hcbor hclient hcall hundisturbed hstep

/-- A call of an undisturbed run that has not returned can go on. -/
theorem Thrives.progress {k client : Nat} {call : Call}
    (hcontends : Contends platform system.table call.maxRetries req others call.phase)
    (h : Thrives ledgerID k req call) (hcall : system.calls[client]? = some call) :
    (∃ record, call.phase = .returned (.ok record)) ∨
      ∀ stamp, CanBuild platform system client stamp → ∃ action next,
        action.client = some client ∧ Undisturbed platform ledgerID k system action ∧
        Admission.step platform system action = some next := by
  obtain ⟨request, maxRetries, phase⟩ := call
  cases hcontends with
  | admitHead =>
    right
    intro stamp hbuild
    refine ⟨.head client false stamp, _, rfl, ⟨by simp, ?_, by simp⟩, by
      simp only [Admission.step, hcall]; rfl⟩
    intro other queryFails otherStamp haction
    cases haction
    exact ⟨rfl, hbuild⟩
  | admitAppend =>
    right
    intro stamp _
    refine ⟨.append client .completed false, _, rfl, ⟨by simp, by simp, ?_⟩, by
      simp only [Admission.step, hcall]; rfl⟩
    intro other outcome contextDone haction
    cases haction
    exact ⟨rfl, rfl⟩
  | admitReread =>
    right
    intro stamp _
    exact ⟨.reread client false, _, rfl, ⟨by simp, by simp, by simp⟩, by
      simp only [Admission.step, hcall]; rfl⟩
  | returned record => exact .inl ⟨record, rfl⟩
  | failed => exact absurd rfl (h.unfailed _)

/-- **Contention failures are earned.**  On a ledger of records, whatever other calls
do: a call that returns the contention error, on a service with fewer retries than
the largest integer, has seen at least `maxRetries + 1` rows of other calls come into
its ledger since it started.  And if at most `k` calls of `Admit` with `k - 1` retries
or more meet nothing but each other on an initialized ledger, they make at most
`k * (2 * k + 2)` steps, and each of them has returned a record or can go on. -/
theorem contention_earned (platform : Platform) (hcbor : platform.cbor.Conforms) (table : Table)
    (ledgerID : LedgerID)
    (hauthentic : ∀ row ∈ table.rows, row.ledgerID = ledgerID → Authentic platform row) :
    (∀ (before opened : System) (request : Request) (req : AdmitRequest) (maxRetries : Int64),
      Reaches (step platform) (fun _ _ => True) ⟨table, []⟩ before →
      Asks platform request req → req.ledgerID = ledgerID → maxRetries ≠ Int64.maxValue →
      step platform before (.start request maxRetries) = some opened →
      ∀ (final : System) (log : List Event) (call : Call) (retries : Int64),
        Reaches (traced observed (step platform)) (fun _ _ => True) (opened, []) (final, log) →
        final.calls[before.calls.length]? = some call →
        call.phase = .returned (.error (.retriesExceeded retries)) →
        maxRetries.toInt + 1 ≤ foreign ledgerID before.calls.length log) ∧
    ∀ k : Nat, (∃ row ∈ table.rows, row.ledgerID = ledgerID) →
      ∀ (system : System) (log : List Event),
        Reaches (traced observed (step platform))
          (fun state action => Undisturbed platform ledgerID k state.1 action)
          (⟨table, []⟩, []) (system, log) →
        log.length ≤ k * (2 * k + 2) ∧
        ∀ (client : Nat) (call : Call), system.calls[client]? = some call →
          (∃ record, call.phase = .returned (.ok record)) ∨
            ∀ stamp, CanBuild platform system client stamp → ∃ action next,
              action.client = some client ∧ Undisturbed platform ledgerID k system action ∧
              step platform system action = some next := by
  constructor
  · intro before opened request req maxRetries hbefore hasks hledger hretries hopened final log call
      retries hfinal hcall hphase
    subst hledger
    have hbuilding : Building platform req.ledgerID opened :=
      (building_of_reaches hcbor (building_start hauthentic) hbefore).step hcbor hopened
    cases hopened
    obtain ⟨-, after, hafter, hsame, hcontends⟩ := contends_of_reaches hcbor hbuilding
      List.getElem?_concat_length (contends_startCall hasks) hfinal
    cases hcall.symm.trans hafter
    rw [hphase, hsame] at hcontends
    cases hcontends with
    | failed hearned => exact hearned retries rfl hretries
  · intro k hinitialized system log h
    have hthriving : Thriving platform ledgerID k (system, log) :=
      h.invariant (thriving_start hauthentic hinitialized) fun _ _ _ _ hstate hundisturbed hstep =>
        hstate.step hcbor hundisturbed hstep
    constructor
    · have hwork : log.length + (system.calls.map fun call => rank k call.phase).sum ≤
          (2 * k + 2) * system.calls.length := hthriving.work
      have hfew : (2 * k + 2) * system.calls.length ≤ (2 * k + 2) * k :=
        Nat.mul_le_mul_left _ hthriving.few
      rw [Nat.mul_comm k]
      omega
    · intro client call hcall
      obtain ⟨req, hthrives, hcontends⟩ := hthriving.calls client call hcall
      exact hthrives.progress hcontends hcall

/-- The second of two calls without retries gives up after one row of the first. -/
theorem contended_earned :
    ∃ (opened final : System) (log : List Event) (loser : Call),
      Reaches (traced observed (step samplePlatform)) (fun _ _ => True) (opened, []) (final, log) ∧
      final.calls[2]? = some loser ∧ loser.phase = .returned (.error (.retriesExceeded 0)) ∧
      1 ≤ foreign (FixedBytes.zero 32) 2 log := by
  obtain ⟨before, opened, final, winner, loser, record, hbefore, hlength, hopened, hrest, -, hloser,
    -, -, -, herr⟩ := contended_evaluates
  obtain ⟨hreachesBefore, -⟩ := Reaches.refl.of_checked hbefore
  obtain ⟨-, hstep⟩ := checkedStep_eq_some.mp hopened
  obtain ⟨hreaches, -⟩ := Reaches.refl.of_checked hrest
  obtain ⟨log, htraced⟩ := (hreaches.mono fun _ _ _ => trivial).exists_traced
  have hearned := (contention_earned samplePlatform reference_conforms .empty (FixedBytes.zero 32)
    fun row hrow _ => authentic_empty row hrow).1 before opened _ _ 0
    (hreachesBefore.mono fun _ _ _ => trivial) (.admitEvent _) rfl (by decide) hstep final log
    loser 0 htraced (hlength ▸ hloser) herr
  rw [hlength] at hearned
  refine ⟨opened, final, log, loser, htraced, hloser, herr, ?_⟩
  have hzero : (0 : Int64).toInt = 0 := rfl
  omega

/-- With the largest number of retries, a call on an initialized ledger fails before it
has made an attempt, though it is alone. -/
theorem maxRetries_wraps :
    ∃ (table : Table) (validated : ValidatedRecord samplePlatform) (opened : System) (call : Call),
      table.Holds samplePlatform goldenGenesisFields.ledgerID [validated] ∧
      LegalChain samplePlatform [validated.record] ∧
      step samplePlatform ⟨table, []⟩ (.start (.admitEvent
        (sampleRequest goldenGenesisFields.ledgerID 5)) Int64.maxValue) = some opened ∧
      opened.calls[0]? = some call ∧
      call.phase = .returned (.error (.retriesExceeded Int64.maxValue)) ∧
      ¬ Int64.maxValue.toInt + 1 ≤ foreign goldenGenesisFields.ledgerID 0 [] := by
  have hcbor : samplePlatform.cbor.Conforms := reference_conforms
  obtain ⟨table, validated, hholds, hlegal, -⟩ := exists_goldenLedger hcbor
  exact ⟨table, validated, _, _, hholds, hlegal, rfl, rfl, rfl, by decide⟩

end AttributionChain.Admission

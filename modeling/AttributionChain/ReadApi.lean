import AttributionChain.LedgerIsolation
import AttributionChain.TrustChains

/-!
# What readers are told

`GetRecord`, `GetLedgerHead` and `EvaluateConfidence` of `internal/httpapi/server.go` as
clients use them, between and after writes of their own and of others.

* `ledger_walk`: the head and the links to previous records lead a reader over the whole
  ledger.
* `reads_stay_true`: what a reader was told about a record stays true, and heads move
  forwards only.
* `reads_follow_writes`: a client that was told of its write sees it in every later read.
-/

namespace AttributionChain.HttpApi

open Ledger Endorsement Store Admission Histories

variable {platform : Platform} {system later : System} {ledgerID : LedgerID} {table : Table}
  {chain : List (ValidatedRecord platform)}

/-! ### The records of a ledger -/

/-- What `GetRecord` says about a stored record. -/
def responseOf (validated : ValidatedRecord platform) : RecordResponse :=
  recordResponse validated.record.recordDigest validated.record

theorem mem_rows_of_holds (hholds : table.Holds platform ledgerID chain)
    {validated : ValidatedRecord platform} (hmem : validated ∈ chain) :
    rowOfRecord validated.record ∈ table.rows := by
  have hrow : rowOfRecord validated.record ∈ table.ledgerRows ledgerID := by
    rw [hholds]
    exact List.mem_map_of_mem hmem
  exact (mem_ledgerRows.mp hrow).1

theorem getRecord_responseOf {validated : ValidatedRecord platform}
    (hrow : rowOfRecord validated.record ∈ table.rows) :
    getRecord platform (some table) false (responseOf validated).recordDigest =
      .success 200 (responseOf validated) :=
  getRecord_eq hrow (parseHex32_hexEncode _)

/-- `GetLedgerHead` answers with the last record. -/
theorem getLedgerHead_of_holds (hcbor : platform.cbor.Conforms)
    (hholds : table.Holds platform ledgerID chain) {text : Bytes}
    (htext : parseHex32 text = .ok ledgerID) :
    getLedgerHead platform (some table) false text =
      match chain.getLast? with
      | none => notFound "ledger not found or uninitialized"
      | some last => .success 200
        { ledgerId := hexEncode ledgerID.bytes
          sequenceNumber := int last.record.event.sequence
          recordDigest := hexEncode last.record.recordDigest.bytes } := by
  rcases hlast : chain.getLast? with _ | last
  · obtain rfl := List.getLast?_eq_none_iff.mp hlast
    have hempty : head platform table ledgerID = .ok .empty :=
      hholds.head_eq_last fun _ hmem => by cases hmem
    have hread : query false (head platform table ledgerID) = .ok ChainState.empty :=
      query_eq_ok.mpr ⟨rfl, hempty⟩
    simp only [getLedgerHead, htext, hread]
    rfl
  · apply getLedgerHead_eq _ (last.spec.bytes_ne_empty hcbor) htext
    rw [hholds, List.getLast?_map, hlast]
    rfl

theorem toInt_int {value : UInt64} (h : value.toNat < 2 ^ 63) : (int value).toInt = value.toNat :=
  preserved_int.mpr h

/-- The last record of a ledger counts the records. -/
theorem sequence_of_getLast? (hcbor : platform.cbor.Conforms)
    (hlegal : LegalChain platform (chain.map ValidatedRecord.record))
    {last : ValidatedRecord platform} (hlast : chain.getLast? = some last) :
    last.record.event.sequence.toNat = chain.length := by
  have hpos : 0 < chain.length := List.length_pos_of_mem (List.mem_of_getLast? hlast)
  rw [List.getLast?_eq_getElem?] at hlast
  have hsequence := hlegal.sequence_eq hcbor hlast
  omega

/-- The head of a ledger is not before any of its records. -/
theorem getLedgerHead_of_mem (hcbor : platform.cbor.Conforms)
    (hholds : table.Holds platform ledgerID chain)
    (hlegal : LegalChain platform (chain.map ValidatedRecord.record))
    (hroom : chain.length < 2 ^ 63) {validated : ValidatedRecord platform}
    (hmem : validated ∈ chain) {text : Bytes} (htext : parseHex32 text = .ok ledgerID) :
    ∃ head : LedgerHeadResponse,
      getLedgerHead platform (some table) false text = .success 200 head ∧
      head.ledgerId = hexEncode ledgerID.bytes ∧
      (head = ⟨hexEncode ledgerID.bytes, int validated.record.event.sequence,
          hexEncode validated.record.recordDigest.bytes⟩ ∨
        (int validated.record.event.sequence).toInt < head.sequenceNumber.toInt) := by
  obtain ⟨i, hi⟩ := List.mem_iff_getElem?.mp hmem
  obtain ⟨last, hlast⟩ : ∃ last, chain.getLast? = some last :=
    ⟨_, List.getLast?_eq_some_getLast (List.ne_nil_of_mem hmem)⟩
  rw [getLedgerHead_of_holds hcbor hholds htext, hlast]
  refine ⟨_, rfl, rfl, ?_⟩
  have hnumber := hlegal.sequence_eq hcbor hi
  have hlastNumber := sequence_of_getLast? hcbor hlegal hlast
  have hlt := (List.getElem?_eq_some_iff.mp hi).1
  by_cases hend : i + 1 = chain.length
  · rw [List.getLast?_eq_getElem?, ← hend, Nat.add_sub_cancel, hi] at hlast
    cases hlast
    exact .inl rfl
  · right
    rw [toInt_int (by omega), toInt_int (by omega)]
    omega

/-- **The ledger can be walked.**  In every state that a run can reach, a ledger is a list
of replies of `GetRecord`, numbered from one, each with the digest of the one before it
and with the bytes it was validated from; `GetLedgerHead` names the last of them. -/
theorem ledger_walk (platform : Platform) (hcbor : platform.cbor.Conforms) (system : System)
    (h : Reaches (step platform) NoSecondGenesis .initial system) (ledgerID : LedgerID) :
    ∃ responses : List RecordResponse,
      responses.length = (system.table.ledgerRows ledgerID).length ∧
      (∀ i response, responses[i]? = some response →
        getRecord platform (some system.table) false response.recordDigest =
          .success 200 response ∧
        response.ledgerId = hexEncode ledgerID.bytes ∧
        response.sequenceNumber = int (UInt64.ofNat (i + 1)) ∧
        response.previousRecordDigest =
          (match i with
          | 0 => none
          | j + 1 => responses[j]?.map (·.recordDigest)) ∧
        ∃ record, hexDecodeString response.recordBytesHex = .ok record.bytes ∧
          validateRecordStructure platform record.bytes = .ok record ∧
          response = recordResponse record.recordDigest record) ∧
      getLedgerHead platform (some system.table) false (hexEncode ledgerID.bytes) =
        match responses.getLast? with
        | none => notFound "ledger not found or uninitialized"
        | some last => .success 200
          ⟨hexEncode ledgerID.bytes, last.sequenceNumber, last.recordDigest⟩ := by
  obtain ⟨chain, hholds, hlegal⟩ := (consistent_of_reaches hcbor h).chained ledgerID
  refine ⟨chain.map responseOf, ?_, ?_, ?_⟩
  · rw [hholds, List.length_map, List.length_map]
  · intro i response hi
    rw [List.getElem?_map, Option.map_eq_some_iff] at hi
    obtain ⟨validated, hi, rfl⟩ := hi
    have hmem := List.mem_of_getElem? hi
    refine ⟨getRecord_responseOf (mem_rows_of_holds hholds hmem), ?_, ?_, ?_, validated.record,
      hexDecodeString_hexEncode _, validated.valid, rfl⟩
    · exact congrArg (fun id => hexEncode (FixedBytes.bytes id)) (hholds.ledgerID_eq hmem)
    · refine congrArg int ?_
      rw [← hlegal.sequence_eq hcbor hi, UInt64.ofNat_toNat]
    · have hpredecessor := hlegal.linked.pred_eq i validated hi
      rw [responseOf, recordResponse, hpredecessor]
      rcases i with _ | j
      · rfl
      · simp only [List.getElem?_map, Option.map_map]
        rfl
  · rw [getLedgerHead_of_holds hcbor hholds (parseHex32_hexEncode _), List.getLast?_map]
    cases chain.getLast? <;> rfl

/-- Two records. -/
theorem trustRun_walk :
    ∃ (trust : TrustRun) (first second : RecordResponse),
      getLedgerHead samplePlatform (some trust.system.table) false
          (hexEncode (FixedBytes.zero 32).bytes) =
        .success 200 ⟨hexEncode (FixedBytes.zero 32).bytes, second.sequenceNumber,
          second.recordDigest⟩ ∧
      getRecord samplePlatform (some trust.system.table) false second.recordDigest =
        .success 200 second ∧
      second.previousRecordDigest = some first.recordDigest ∧
      getRecord samplePlatform (some trust.system.table) false first.recordDigest =
        .success 200 first ∧
      first.previousRecordDigest = none := by
  obtain ⟨trust⟩ := trustRun_evaluates
  obtain ⟨responses, hresponses, hreads, hhead⟩ := ledger_walk samplePlatform
    Cbor.reference_conforms trust.system (trust.reaches.mono noSecondGenesis_of_serviceCall)
    (.zero 32)
  obtain ⟨first, second, rfl⟩ := List.length_eq_two.mp (hresponses.trans trust.lengths.2.1)
  obtain ⟨hfirst, -, -, hnone, -⟩ := hreads 0 first rfl
  obtain ⟨hsecond, -, -, hprevious, -⟩ := hreads 1 second rfl
  exact ⟨trust, first, second, hhead, hsecond, hprevious, hfirst, hnone⟩

/-! ### Reads at two moments -/

/-- `GetRecord` finds a row, and answers from its bytes. -/
theorem getRecord_eq_success
    (hchains : ∀ ledgerID, ∃ chain : List (ValidatedRecord platform),
      table.Holds platform ledgerID chain) {text : Bytes} {response : RecordResponse}
    (h : getRecord platform (some table) false text = .success 200 response) :
    ∃ validated : ValidatedRecord platform, parseHex32 text = .ok validated.record.recordDigest ∧
      rowOfRecord validated.record ∈ table.rows ∧ response = responseOf validated := by
  rcases htext : parseHex32 text with err | digest
  · simp only [getRecord, htext] at h
    cases h
  · rcases hfind : table.rows.find? fun row => row.recordDigest = digest with _ | row
    · have hread : Store.record platform table digest = .error .recordNotFound := by
        simp only [Store.record, hfind]
      simp only [getRecord, htext, hread, query] at h
      cases h
    · obtain ⟨chain, hholds⟩ := hchains row.ledgerID
      have hrow := List.mem_of_find?_eq_some hfind
      obtain ⟨validated, -, rfl⟩ := hholds.exists_of_mem hrow rfl
      have hfound := List.find?_some hfind
      obtain rfl : validated.record.recordDigest = digest := of_decide_eq_true hfound
      rw [getRecord_eq hrow htext] at h
      cases h
      exact ⟨validated, rfl, hrow, rfl⟩

/-- `GetLedgerHead` finds a last record. -/
theorem getLedgerHead_eq_success (hcbor : platform.cbor.Conforms)
    (hchains : ∀ ledgerID, ∃ chain : List (ValidatedRecord platform),
      table.Holds platform ledgerID chain) {text : Bytes} {response : LedgerHeadResponse}
    (h : getLedgerHead platform (some table) false text = .success 200 response) :
    ∃ ledgerID chain, ∃ last : ValidatedRecord platform, parseHex32 text = .ok ledgerID ∧
      table.Holds platform ledgerID chain ∧ chain.getLast? = some last ∧
      response = ⟨hexEncode ledgerID.bytes, int last.record.event.sequence,
        hexEncode last.record.recordDigest.bytes⟩ := by
  rcases htext : parseHex32 text with err | ledgerID
  · simp only [getLedgerHead, htext] at h
    cases h
  · obtain ⟨chain, hholds⟩ := hchains ledgerID
    rw [getLedgerHead_of_holds hcbor hholds htext] at h
    rcases hlast : chain.getLast? with _ | last
    · rw [hlast] at h
      cases h
    · rw [hlast] at h
      cases h
      exact ⟨ledgerID, chain, last, rfl, hholds, hlast, rfl⟩

section TwoMoments

variable (hcbor : platform.cbor.Conforms)
  (h : Reaches (step platform) NoSecondGenesis .initial system)
  (hlater : Reaches (step platform) NoSecondGenesis system later)

include hcbor h

theorem exists_holds_of_reaches (ledgerID : LedgerID) :
    ∃ chain : List (ValidatedRecord platform), system.table.Holds platform ledgerID chain := by
  obtain ⟨chain, hholds, -⟩ := (consistent_of_reaches hcbor h).chained ledgerID
  exact ⟨chain, hholds⟩

include hlater

/-- The chain of a ledger grows at its end. -/
theorem exists_longer_chain (hholds : system.table.Holds platform ledgerID chain) :
    ∃ more, later.table.Holds platform ledgerID (chain ++ more) ∧
      LegalChain platform ((chain ++ more).map ValidatedRecord.record) := by
  obtain ⟨longer, hlonger, hlegal⟩ :=
    (consistent_of_reaches hcbor (h.trans hlater)).chained ledgerID
  have hrows := List.prefix_iff_eq_take.mp (ledgerRows_isPrefix hcbor h hlater ledgerID)
  have htake : chain = longer.take chain.length := by
    apply List.map_injective_iff.mpr rowOfRecord_injective
    rw [hholds, hlonger, List.length_map] at hrows
    rw [hrows, List.map_take]
  obtain ⟨more, rfl⟩ := List.prefix_iff_eq_take.mpr htake
  exact ⟨more, hlonger, hlegal⟩

theorem mem_rows_later {row : Row} (hrow : row ∈ system.table.rows) :
    row ∈ later.table.rows := by
  have hmem : row ∈ system.table.ledgerRows row.ledgerID := mem_ledgerRows.mpr ⟨hrow, rfl⟩
  exact (mem_ledgerRows.mp
    ((ledgerRows_isPrefix hcbor h hlater row.ledgerID).subset hmem)).1

end TwoMoments

/-- **What a reader was told stays true.**  A record reads the same at every later moment.
A later head of a ledger is the same head or one with a larger sequence number, and the
record of the earlier head is still there under its number. -/
theorem reads_stay_true (platform : Platform) (hcbor : platform.cbor.Conforms)
    (system later : System) (h : Reaches (step platform) NoSecondGenesis .initial system)
    (hlater : Reaches (step platform) NoSecondGenesis system later)
    (hroom : ∀ ledgerID, (later.table.ledgerRows ledgerID).length < 2 ^ 63) :
    (∀ text response, getRecord platform (some system.table) false text = .success 200 response →
      getRecord platform (some later.table) false text = .success 200 response) ∧
    ∀ text first, getLedgerHead platform (some system.table) false text = .success 200 first →
      (∃ second, getLedgerHead platform (some later.table) false text = .success 200 second ∧
        second.ledgerId = first.ledgerId ∧
        (second = first ∨ first.sequenceNumber.toInt < second.sequenceNumber.toInt)) ∧
      ∃ response, getRecord platform (some later.table) false first.recordDigest =
          .success 200 response ∧
        response.ledgerId = first.ledgerId ∧ response.sequenceNumber = first.sequenceNumber := by
  have hchains := exists_holds_of_reaches hcbor h
  constructor
  · intro text response hread
    obtain ⟨validated, htext, hrow, rfl⟩ := getRecord_eq_success hchains hread
    exact getRecord_eq (mem_rows_later hcbor h hlater hrow) htext
  · intro text first hread
    obtain ⟨ledgerID, chain, last, htext, hholds, hlast, rfl⟩ :=
      getLedgerHead_eq_success hcbor hchains hread
    obtain ⟨more, hlonger, hlegal⟩ := exists_longer_chain hcbor h hlater hholds
    have hmem := List.mem_of_getLast? hlast
    constructor
    · have hbound := hroom ledgerID
      rw [hlonger, List.length_map] at hbound
      exact getLedgerHead_of_mem hcbor hlonger hlegal hbound (List.mem_append_left _ hmem) htext
    · have hrow := mem_rows_later hcbor h hlater (mem_rows_of_holds hholds hmem)
      refine ⟨_, getRecord_responseOf hrow, ?_, rfl⟩
      exact congrArg (fun id => hexEncode (FixedBytes.bytes id)) (hholds.ledgerID_eq hmem)

/-- The head before the endorsement and the one after it. -/
theorem trustRun_staysTrue :
    ∃ (trust : TrustRun) (first second : LedgerHeadResponse) (response : RecordResponse),
      getLedgerHead samplePlatform (some trust.before.table) false
        (hexEncode (FixedBytes.zero 32).bytes) = .success 200 first ∧
      getLedgerHead samplePlatform (some trust.system.table) false
        (hexEncode (FixedBytes.zero 32).bytes) = .success 200 second ∧
      second.ledgerId = first.ledgerId ∧
      getRecord samplePlatform (some trust.system.table) false first.recordDigest =
        .success 200 response := by
  obtain ⟨trust⟩ := trustRun_evaluates
  have hbefore := trust.begins.mono fun _ _ served => served.orderly.noSecondGenesis
  obtain ⟨chain, hholds⟩ :=
    exists_holds_of_reaches Cbor.reference_conforms hbefore (FixedBytes.zero 32)
  have hlength := trust.lengths.1
  rw [hholds, List.length_map] at hlength
  obtain ⟨genesis, rfl⟩ := List.length_eq_one_iff.mp hlength
  have hhead := getLedgerHead_of_holds Cbor.reference_conforms hholds (parseHex32_hexEncode _)
  obtain ⟨⟨second, hsecond, hledger, -⟩, response, hresponse, -⟩ := (reads_stay_true
    samplePlatform Cbor.reference_conforms trust.before trust.system hbefore
    (trust.served.mono fun _ _ served => served.orderly.noSecondGenesis)
    (fun ledgerID => Nat.lt_of_le_of_lt (trust.length_le ledgerID) (by decide))).2 _ _ hhead
  exact ⟨trust, _, second, response, hhead, hsecond, hledger, hresponse⟩

/-! ### Reads after writes -/

theorem parseHex32_of_parseInquiry {ledgerId : Bytes} {body : Option EvaluateConfidenceRequest}
    {inquiry : Inquiry} (h : parseInquiry ledgerId body = .ok inquiry) :
    parseHex32 ledgerId = .ok inquiry.ledgerID := by
  simp only [parseInquiry, bind_eq_ok, mapError_eq_ok] at h
  obtain ⟨ledgerID, hledger, _, -, _, -, _, -, hinquiry⟩ := h
  cases hinquiry
  exact hledger

/-- A call returns a stored record of the ledger it was for. -/
theorem returned_stored (hcbor : platform.cbor.Conforms)
    (h : Reaches (step platform) (Orderly platform) .initial system) {call : Call}
    (hcall : call ∈ system.calls) {record : StructuralRecord}
    (hphase : call.phase = .returned (.ok record)) :
    ∃ validated : ValidatedRecord platform, validated.record = record ∧
      rowOfRecord record ∈ system.table.rows ∧ record.event.ledgerID = ledgerOf call.request := by
  have hsound := (consistent_of_reaches hcbor
    (h.mono fun _ _ horderly => horderly.noSecondGenesis)).sound call hcall
  rcases answered_of_reaches hcbor authentic_empty h call hcall record hphase with
    ⟨ledgerID, hrequest, hstored, validated, hvalidated⟩ | ⟨req, hasks⟩
  · refine ⟨validated, hvalidated, hstored, ?_⟩
    rw [hphase, hrequest] at hsound
    rw [hrequest]
    cases hsound with
    | initReturned hfields => exact congrArg EventFields.ledgerID hfields
    | admitReturned hasks => cases hasks
  · obtain ⟨hcarries, hstored, validated, hvalidated⟩ :=
      (delivered_of_reaches hcbor authentic_empty
        (h.mono fun _ _ horderly => horderly.collisionFree) call hcall).returned req record hasks
        hphase
    exact ⟨validated, hvalidated, hstored, hcarries.ledgerID.trans (ledgerOf_of_asks hasks)⟩

/-- What the reply 201 to a request tells about the record: its ledger, sequence number
and digest. -/
def announced (request : Request) (record : StructuralRecord) : Option LedgerHeadResponse :=
  match request with
  | .admitEvent _ => none
  | .initLedger ledgerID =>
    match initLedgerReply ledgerID (.ok record) with
    | .success _ body => some ⟨body.ledgerId, body.sequenceNumber, body.recordDigest⟩
    | _ => none
  | .admitEndorsement ledgerID _ | .admitRevocation ledgerID _ =>
    match admitReply ledgerID (.ok record) with
    | .success _ body => some ⟨body.ledgerId, body.sequenceNumber, body.recordDigest⟩
    | _ => none

theorem announced_eq_some {request : Request} {record : StructuralRecord}
    {told : LedgerHeadResponse} (h : announced request record = some told) :
    told = ⟨hexEncode (ledgerOf request).bytes, int record.event.sequence,
      hexEncode record.recordDigest.bytes⟩ := by
  cases request with
  | admitEvent => cases h
  | _ =>
    cases h
    rfl

/-- **Reads follow writes.**  A client that got a 201 finds its record at every later
moment under the digest it was told, heads of the ledger are not before it, and a
confidence is evaluated with it. -/
theorem reads_follow_writes (platform : Platform) (hcbor : platform.cbor.Conforms)
    (system : System) (h : Reaches (step platform) (Served platform) .initial system)
    (call : Call) (hcall : call ∈ system.calls) (record : StructuralRecord)
    (hphase : call.phase = .returned (.ok record)) (told : LedgerHeadResponse)
    (htold : announced call.request record = some told) (moments : Nat → System)
    (hfirst : Reaches (step platform) Action.ServiceCall system (moments 0))
    (hnext : ∀ i, Reaches (step platform) Action.ServiceCall (moments i) (moments (i + 1)))
    (bound : Nat) (hbound : ∀ i ledgerID, ((moments i).table.ledgerRows ledgerID).length ≤ bound)
    (hroom : bound < 2 ^ 63) :
    (∀ i, (∃ response, getRecord platform (some (moments i).table) false told.recordDigest =
          .success 200 response ∧
        response.ledgerId = told.ledgerId ∧ response.sequenceNumber = told.sequenceNumber) ∧
      ∃ head, getLedgerHead platform (some (moments i).table) false told.ledgerId =
          .success 200 head ∧
        (head = told ∨ told.sequenceNumber.toInt < head.sequenceNumber.toInt)) ∧
    ∀ fails fuel body response, bound < fuel →
      evaluateConfidence platform (some ⟨fun i => (moments i).table, fails⟩) fuel told.ledgerId
        body = some (.success response) →
      told.sequenceNumber.toInt ≤ response.evaluatedAtSequence.toInt := by
  have hserved := h.mono fun _ _ served => served.serviceCall
  have hwatched : Watched platform moments := ⟨hserved.trans hfirst, hnext⟩
  obtain ⟨validated, rfl, hrow, hledger⟩ :=
    returned_stored hcbor (h.mono fun _ _ served => served.orderly) hcall hphase
  obtain rfl := announced_eq_some htold
  -- the record is in the ledger's chain at every moment
  have hchains : ∀ i, ∃ chain : List (ValidatedRecord platform),
      (moments i).table.Holds platform (ledgerOf call.request) chain ∧
      LegalChain platform (chain.map ValidatedRecord.record) ∧ validated ∈ chain ∧
      chain.length ≤ bound := by
    intro i
    obtain ⟨chain, hholds, hlegal⟩ :=
      (consistent_of_serviceCalls hcbor (hwatched.reaches i)).chained (ledgerOf call.request)
    have hlater := mem_rows_later hcbor (hserved.mono noSecondGenesis_of_serviceCall)
      ((hfirst.trans (hwatched.later (Nat.zero_le i))).mono noSecondGenesis_of_serviceCall) hrow
    obtain ⟨other, hmem, hsame⟩ := hholds.exists_of_mem hlater hledger
    obtain rfl := rowOfRecord_injective hsame
    have hlength := hbound i (ledgerOf call.request)
    rw [hholds, List.length_map] at hlength
    exact ⟨chain, hholds, hlegal, hmem, hlength⟩
  constructor
  · intro i
    obtain ⟨chain, hholds, hlegal, hmem, hlength⟩ := hchains i
    constructor
    · refine ⟨_, getRecord_responseOf (mem_rows_of_holds hholds hmem), ?_, rfl⟩
      exact congrArg (fun id => hexEncode (FixedBytes.bytes id)) hledger
    · obtain ⟨head, hhead, -, hcases⟩ := getLedgerHead_of_mem hcbor hholds hlegal
        (Nat.lt_of_le_of_lt hlength hroom) hmem (parseHex32_hexEncode _)
      exact ⟨head, hhead, hcases⟩
  · intro fails fuel body response hfuel hreply
    obtain ⟨i, hsnapshot⟩ :=
      exists_moment_of_success hcbor hwatched hbound (by omega) hfuel hreply
    obtain ⟨inquiry, normal, chains, hparse, -, hexplained⟩ := explained_of_replyAt hcbor
      (hwatched.reaches i) (fun ledgerID => Nat.lt_of_le_of_lt (hbound i ledgerID) hfuel) hsnapshot
    obtain ⟨chain, hholds, hlegal, hmem, hlength⟩ := hchains i
    have hsame : inquiry.ledgerID = ledgerOf call.request :=
      Except.ok.inj ((parseHex32_of_parseInquiry hparse).symm.trans (parseHex32_hexEncode _))
    have hrecords : (storedRecords platform (moments i).table inquiry.ledgerID).length =
        chain.length := by
      rw [hsame, storedRecords_eq hholds, List.length_map]
    obtain ⟨j, hj⟩ := List.mem_iff_getElem?.mp hmem
    have hnumber := hlegal.sequence_eq hcbor hj
    have hlt := (List.getElem?_eq_some_iff.mp hj).1
    have hcount : (UInt64.ofNat chain.length).toNat = chain.length :=
      UInt64.toNat_ofNat_of_lt'
        (Nat.lt_of_lt_of_le (Nat.lt_of_le_of_lt hlength hroom) (by decide))
    rw [hexplained.sequence, hrecords, toInt_int (by omega), toInt_int (by omega), hcount]
    omega

/-- The endorsement is announced, read and counted. -/
theorem trustRun_reads :
    ∃ (trust : TrustRun) (told : LedgerHeadResponse) (response : RecordResponse),
      announced trust.call.request trust.record = some told ∧
      getRecord samplePlatform (some trust.system.table) false told.recordDigest =
        .success 200 response ∧
      response.sequenceNumber = told.sequenceNumber ∧
      told.sequenceNumber.toInt ≤ trust.forwards.evaluatedAtSequence.toInt := by
  obtain ⟨trust⟩ := trustRun_evaluates
  have hrequest : trust.call.request =
      .admitEndorsement (.zero 32) (some oppositeEndorsement) := by
    have hsecond : (trust.system.calls.map (·.request))[1]? = some trust.call.request := by
      rw [List.getElem?_map, trust.admitted, Option.map_some]
    rw [trust.requests] at hsecond
    exact (Option.some.inj hsecond).symm
  have htold : announced trust.call.request trust.record = some
      ⟨hexEncode (FixedBytes.zero 32).bytes, int trust.record.event.sequence,
        hexEncode trust.record.recordDigest.bytes⟩ := by
    rw [hrequest]
    rfl
  obtain ⟨hreads, hconfidence⟩ := reads_follow_writes samplePlatform Cbor.reference_conforms
    trust.system trust.reachesServed trust.call (List.mem_of_getElem? trust.admitted) trust.record
    trust.returned _ htold (fun _ => trust.system) .refl (fun _ => .refl) 2
    (fun _ => trust.length_le) (by decide)
  obtain ⟨⟨response, hresponse, -, hsequence⟩, -⟩ := hreads 0
  exact ⟨trust, _, response, htold, hresponse, hsequence,
    hconfidence (fun _ => false) 3 _ _ (by decide) trust.forwardsReply⟩

end AttributionChain.HttpApi

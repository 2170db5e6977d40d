import AttributionChain.AdmissionOrder
import AttributionChain.HttpApi
import AttributionChain.Influence
import AttributionChain.SignedEdges

/-!
# Asking for a confidence over HTTP

`EvaluateConfidence` of `internal/httpapi/server.go` with `IdentityKeyFromHex` of
`internal/graph/v1/identity.go`.  The handler reads the ledger page by page while others
write to it, so it is given what each of its scans sees.  The score is the exact rational
of the evaluator, without the rounding to `float32`, and the explanation text is left
out.

* `evaluateConfidence_snapshot`: the reply is that for the ledger at the moment of the last
  scan.
-/

namespace AttributionChain

open Ledger Endorsement Store Admission Histories Projector AttributionChain.Graph

/-! ### Keys -/

inductive IdentityKeyHexError where
  | decodeHex (err : HexError)
  | key (err : IdentityKeyError)
deriving DecidableEq, Repr

def IdentityKeyHexError.text : IdentityKeyHexError → String
  | .decodeHex err => "decode hex identity key: " ++ err.text
  | .key err => err.text

def identityKeyFromHex (text : Bytes) : Except IdentityKeyHexError IdentityKey := do
  let bytes ← (hexDecodeString text).mapError .decodeHex
  (identityKeyFromBytes bytes).mapError .key

namespace HttpApi

/-! ### Requests and replies -/

structure TrustRootSpec where
  publicKeyHex : Bytes
  weight : ℚ
deriving DecidableEq

structure EvaluateConfidenceRequest where
  targetPublicKeyHex : Bytes
  trustRoots : List TrustRootSpec
  topic : Option Bytes
  maxHops : Option Int64
  decayFactor : Option ℚ
deriving DecidableEq

structure ConfidenceResponse where
  targetPublicKeyHex : Bytes
  topic : Option Bytes
  confidenceScore : ℚ
  algorithm : Bytes
  evaluatedAtSequence : Int64
  contributingRecordsHex : List Bytes
deriving DecidableEq

/-- The text of an error reply. -/
inductive ConfidenceMessage where
  | text (message : String)
  /-- After "invalid target_public_key_hex: " -/
  | target (err : IdentityKeyHexError)
  /-- After "invalid trust root ", the key as it was sent and ": " -/
  | trustRoot (publicKeyHex : Bytes) (err : IdentityKeyHexError)
  /-- `err.Error()` of the evaluator -/
  | evaluate (err : Evaluator.EvaluateError)
deriving DecidableEq

inductive ConfidenceReply where
  | success (body : ConfidenceResponse)
  | failure (status : Nat) (error : ConfidenceMessage)
  /-- The handler returned an error, which is answered with `internalServerErrorMessage`. -/
  | internalServerError
deriving DecidableEq

/-! ### The handler -/

/-- The loop over the trust roots.  Of two specs for one key the later one counts. -/
def trustRootsOf : List TrustRootSpec → (AList fun _ : IdentityKey => ℚ) →
    Except ConfidenceReply (AList fun _ : IdentityKey => ℚ)
  | [], trustRoots => .ok trustRoots
  | root :: roots, trustRoots => do
    let rootKey ← (identityKeyFromHex root.publicKeyHex).mapError fun err =>
      .failure 400 (.trustRoot root.publicKeyHex err)
    trustRootsOf roots (trustRoots.insert rootKey root.weight)

/-- The default policy with the overrides of a request. -/
def policyOf (body : EvaluateConfidenceRequest) (trustRoots : AList fun _ : IdentityKey => ℚ) :
    EvaluationPolicy :=
  let policy := newDefaultPolicy trustRoots (body.topic.getD [])
  { policy with
    maxHops := body.maxHops.getD policy.maxHops
    decayFactor := body.decayFactor.getD policy.decayFactor }

/-- What a request asks for. -/
structure Inquiry where
  ledgerID : LedgerID
  target : IdentityKey
  policy : EvaluationPolicy

/-- The handler up to the replay. -/
def parseInquiry (ledgerId : Bytes) (body : Option EvaluateConfidenceRequest) :
    Except ConfidenceReply Inquiry := do
  let ledgerID ← (parseHex32 ledgerId).mapError fun _ =>
    .failure 400 (.text "invalid ledger_id: must be 32-byte hex")
  let body ← orError body (.failure 400 (.text "missing request body"))
  let target ← (identityKeyFromHex body.targetPublicKeyHex).mapError fun err =>
    .failure 400 (.target err)
  let trustRoots ← trustRootsOf body.trustRoots ∅
  return ⟨ledgerID, target, policyOf body trustRoots⟩

def confidenceResponse (result : ConfidenceResult) : ConfidenceResponse where
  targetPublicKeyHex := IdentityKey.hex result.target
  topic := if result.topic ≠ [] then some result.topic else none
  confidenceScore := result.confidenceScore
  algorithm := result.algorithm
  evaluatedAtSequence := int result.evaluatedAtSequence
  contributingRecordsHex := result.contributingRecords.map fun digest => hexEncode digest.bytes

/-- The handler after the replay. -/
def replyFor (inquiry : Inquiry) (graph : Graph) (fuel : Nat) : Option ConfidenceReply :=
  (Evaluator.evaluate graph fuel inquiry.policy inquiry.target).map fun
    | .error err => .failure 400 (.evaluate err)
    | .ok result => .success (confidenceResponse result)

/-- The handler after the replay, whatever that came to. -/
def replyAfter (inquiry : Inquiry) (fuel : Nat) :
    ReplayProgress × Option ReplayError → Option ConfidenceReply
  | (_, some _) => some .internalServerError
  | ((graph, _), none) => replyFor inquiry graph fuel

variable (platform : Platform)

/-- The handler with a given batch size for its replay. -/
def evaluateConfidencePaged (batchSize : Int) (store : Option Scans) (fuel : Nat)
    (ledgerId : Bytes) (body : Option EvaluateConfidenceRequest) : Option ConfidenceReply :=
  match store with
  | none => some (.failure 404 (.text "ledger store unavailable"))
  | some scans =>
    match parseInquiry ledgerId body with
    | .error reply => some reply
    | .ok inquiry =>
      match replayLoop platform scans batchSize fuel 0 (newGraph inquiry.ledgerID, 0) with
      | none => none
      | some result => replyAfter inquiry fuel result

/-- `EvaluateConfidence`, with fuel for the pages and for the depth of the search -/
def evaluateConfidence (store : Option Scans) (fuel : Nat) (ledgerId : Bytes)
    (body : Option EvaluateConfidenceRequest) : Option ConfidenceReply :=
  evaluateConfidencePaged platform 256 store fuel ledgerId body

end HttpApi

/-! ### Projected graphs -/

/-- The edges of a projected graph have sequence numbers of their own, up to the
watermark. -/
structure Graph.Tidy (graph : Graph) : Prop where
  distinct : (graph.heap.map (·.sequence)).Nodup
  bounded : ∀ edge ∈ graph.heap, edge.sequence.toNat ≤ graph.lastSequence.toNat
  length : graph.heap.length ≤ graph.lastSequence.toNat

namespace Projector

variable {platform : Platform} {graph next : Graph} {record : StructuralRecord}

theorem tidy_newGraph (ledgerID : LedgerID) : (newGraph ledgerID).Tidy :=
  ⟨List.nodup_nil, by simp [newGraph], Nat.zero_le _⟩

theorem Step.tidy (hstep : Step platform graph record next)
    (hsequence : record.event.sequence.toNat = graph.lastSequence.toNat + 1)
    (hgraph : graph.Indexed) (h : graph.Tidy) : next.Tidy := by
  have hlast := hstep.lastSequence_eq hsequence
  cases hstep with
  | @accepted payload hkind hdecode hfresh =>
    refine ⟨?_, ?_, ?_⟩
    · apply nodup_map_concat h.distinct
      intro edge hedge hsame
      have hbound := h.bounded edge hedge
      rw [hsame] at hbound
      change record.event.sequence.toNat ≤ _ at hbound
      omega
    · intro edge hedge
      rw [hlast]
      rcases List.mem_append.mp hedge with hold | hnew
      · have hbound := h.bounded edge hold
        omega
      · cases List.mem_singleton.mp hnew
        exact Nat.le_refl _
    · have hlength := h.length
      rw [hlast, Graph.insertEdge, List.length_append, List.length_singleton]
      omega
  | @revoked payload ref hkind hdecode hlookup hactive hauthorized =>
    have hcell := hgraph.getElem?_of_lookup hlookup
    refine ⟨?_, ?_, ?_⟩
    · rw [Graph.markRevoked, map_set_of_key_eq _ hcell]
      · exact h.distinct
      · rfl
    · intro edge hedge
      rw [hlast]
      rcases List.mem_or_eq_of_mem_set hedge with hold | rfl
      · have hbound := h.bounded edge hold
        omega
      · have hbound := h.bounded _ (List.mem_of_getElem? hcell)
        change (graph.deref ref).sequence.toNat ≤ _
        omega
    · have hlength := h.length
      rw [hlast, Graph.markRevoked, List.length_set]
      omega
  | other =>
    refine ⟨h.distinct, ?_, ?_⟩
    · intro edge hedge
      have hbound := h.bounded edge hedge
      rw [hlast]
      omega
    · have hlength := h.length
      rw [hlast]
      exact Nat.le_trans hlength (by omega)

theorem tidy_of_applyRecords {records : List StructuralRecord}
    (hpos : ∀ record ∈ records, 0 < record.event.sequence.toNat) (hgraph : graph.Built)
    (h : graph.Tidy) (happly : applyRecords platform graph records = (next, none)) :
    next.Tidy := by
  induction records generalizing graph with
  | nil =>
    cases happly
    exact h
  | cons first rest ih =>
    obtain ⟨middle, hfirst, hrest⟩ := rangeUntilError_cons_eq_ok.mp happly
    obtain ⟨-, hsequence, hstep⟩ :=
      (applyRecord_eq_ok (hpos first (List.mem_cons_self ..))).mp hfirst
    have hbuilt : (applyRecord platform graph first).1.Built := built_applyRecord hgraph
    rw [hfirst] at hbuilt
    exact ih (fun record hrecord => hpos record (List.mem_cons_of_mem _ hrecord)) hbuilt
      (hstep.tidy hsequence hgraph.indexed h) hrest

end Projector

namespace Evaluator

variable {graph : Graph} {policy : EvaluationPolicy} {fuel more : Nat}

/-- More fuel than there are edges changes nothing. -/
theorem evaluate_of_lt (hgraph : graph.Indexed) (hdistinct : (graph.heap.map (·.sequence)).Nodup)
    (hfuel : graph.heap.length < fuel) (hmore : graph.heap.length < more) (target : IdentityKey) :
    evaluate graph more policy target = evaluate graph fuel policy target := by
  rcases hvalid : policy.validate with err | normal
  · rw [evaluate_of_error graph fuel target hvalid, evaluate_of_error graph more target hvalid]
  · obtain ⟨findings, hevaluate, hreports⟩ := evaluate_eq hgraph hvalid target hfuel
    obtain ⟨others, hothers, hothersReports⟩ := evaluate_eq hgraph hvalid target hmore
    rw [hevaluate, hothers, assemble_congr (fun _ => Iff.rfl) hgraph hgraph hdistinct
      (EvaluationPolicy.valid_of_validate hvalid) hfuel hmore hreports hothersReports]
    rfl

end Evaluator

namespace HttpApi

variable {platform : Platform}

/-! ### Reading while others write -/

variable (platform) in
/-- The moments of a run at which a call makes its scans. -/
structure Watched (moments : Nat → System) : Prop where
  first : Reaches (step platform) Action.ServiceCall .initial (moments 0)
  next : ∀ i, Reaches (step platform) Action.ServiceCall (moments i) (moments (i + 1))

section Watched

variable {moments : Nat → System} (h : Watched platform moments)

include h

theorem Watched.later {i j : Nat} (hle : i ≤ j) :
    Reaches (step platform) Action.ServiceCall (moments i) (moments j) := by
  induction hle with
  | refl => exact .refl
  | step _ ih => exact ih.trans (h.next _)

theorem Watched.reaches (i : Nat) :
    Reaches (step platform) Action.ServiceCall .initial (moments i) :=
  h.first.trans (h.later (Nat.zero_le i))

theorem Watched.exists_chains (hcbor : platform.cbor.Conforms) (ledgerID : LedgerID) :
    ∃ chains : Nat → List (ValidatedRecord platform),
      ∀ i, (moments i).table.Holds platform ledgerID (chains i) ∧
        LegalChain platform ((chains i).map ValidatedRecord.record) :=
  ⟨fun i => ((consistent_of_serviceCalls hcbor (h.reaches i)).chained ledgerID).choose,
    fun i => ((consistent_of_serviceCalls hcbor (h.reaches i)).chained ledgerID).choose_spec⟩

/-- What has been read of a ledger is still there at a later scan. -/
theorem Watched.take_eq (hcbor : platform.cbor.Conforms) {ledgerID : LedgerID} {i j count : Nat}
    (hle : i ≤ j) {earlier later : List (ValidatedRecord platform)}
    (hearlier : (moments i).table.Holds platform ledgerID earlier)
    (hlater : (moments j).table.Holds platform ledgerID later) (hcount : count ≤ earlier.length) :
    later.take count = earlier.take count := by
  have hrows := ledgerRows_isPrefix hcbor
    ((h.reaches i).mono noSecondGenesis_of_serviceCall)
    ((h.later hle).mono noSecondGenesis_of_serviceCall) ledgerID
  have hfront : (moments i).table.Holds platform ledgerID (later.take earlier.length) := by
    rw [Table.Holds, List.map_take, ← hlater, List.prefix_iff_eq_take.mp hrows, hearlier]
    simp
  calc later.take count
      = (later.take earlier.length).take count := by rw [List.take_take, min_eq_left hcount]
    _ = earlier.take count := by rw [← hearlier.unique hfront]

end Watched

theorem projection_of_holds {table : Table} {ledgerID : LedgerID} {graph : Graph}
    {chain : List (ValidatedRecord platform)} (hholds : table.Holds platform ledgerID chain)
    (happly : applyRecords platform (newGraph ledgerID) (storedRecords platform table ledgerID) =
      (graph, none)) :
    graph.Built ∧ graph.Tidy ∧ graph.lastSequence.toNat = chain.length := by
  have hbuilt : (applyRecords platform (newGraph ledgerID)
      (storedRecords platform table ledgerID)).1.Built :=
    built_applyRecords (built_newGraph _) _
  rw [happly] at hbuilt
  rw [storedRecords_eq hholds] at happly
  obtain ⟨-, hlast, -⟩ := applyRecords_positions sequence_pos_of_mem_map happly
  rw [List.length_map] at hlast
  change graph.lastSequence.toNat = 0 + _ at hlast
  exact ⟨hbuilt, tidy_of_applyRecords sequence_pos_of_mem_map (built_newGraph _)
    (tidy_newGraph _) happly, by omega⟩

variable (platform) in
/-- The reply for a ledger as it stands: one pass over its records, and one evaluation. -/
def replyAt (table : Table) (fuel : Nat) (ledgerId : Bytes)
    (body : Option EvaluateConfidenceRequest) : Option ConfidenceReply :=
  match parseInquiry ledgerId body with
  | .error reply => some reply
  | .ok inquiry =>
    match applyRecords platform (newGraph inquiry.ledgerID)
      (storedRecords platform table inquiry.ledgerID) with
    | (_, some _) => some .internalServerError
    | (graph, none) => replyFor inquiry graph fuel

theorem exists_replyFor {graph : Graph} {bound : Nat} (hgraph : graph.Built) (htidy : graph.Tidy)
    (hlength : graph.heap.length ≤ bound) (inquiry : Inquiry) :
    ∃ reply, ∀ fuel, bound < fuel → replyFor inquiry graph fuel = some reply := by
  have hsome : ∃ reply, replyFor inquiry graph (bound + 1) = some reply := by
    rcases hvalid : inquiry.policy.validate with err | normal
    · refine ⟨.failure 400 (.evaluate (.invalidPolicy err)), ?_⟩
      rw [replyFor, Evaluator.evaluate_of_error _ _ _ hvalid, Option.map_some]
    · obtain ⟨findings, hevaluate, -⟩ := Evaluator.evaluate_eq hgraph.indexed hvalid inquiry.target
        (Nat.lt_succ_of_le hlength)
      rw [replyFor, hevaluate]
      exact ⟨_, rfl⟩
  obtain ⟨reply, hreply⟩ := hsome
  refine ⟨reply, ?_⟩
  intro fuel hfuel
  rw [← hreply, replyFor, replyFor, Evaluator.evaluate_of_lt hgraph.indexed htidy.distinct
    (Nat.lt_succ_of_le hlength) (Nat.lt_of_le_of_lt hlength hfuel)]

/-- The reply at a moment is what the handler makes of a pass over the ledger. -/
theorem replyAt_eq {table : Table} {ledgerId : Bytes} {body : Option EvaluateConfidenceRequest}
    {inquiry : Inquiry} (hparsed : parseInquiry ledgerId body = .ok inquiry)
    {result : ReplayProgress × Option ReplayError}
    (hpass : rangeUntilError (applyCounted platform) (newGraph inquiry.ledgerID, 0)
      (storedRecords platform table inquiry.ledgerID) = result) (fuel : Nat) :
    replyAt platform table fuel ledgerId body = replyAfter inquiry fuel result := by
  obtain ⟨⟨graph, count⟩, _ | err⟩ := result
  · simp only [replyAt, hparsed, (applyCounted_eq_ok.mp hpass).1, replyAfter]
  · rcases happly : applyRecords platform (newGraph inquiry.ledgerID)
      (storedRecords platform table inquiry.ledgerID) with ⟨final, _ | cause⟩
    · rw [applyCounted_eq_ok.mpr ⟨happly, rfl⟩] at hpass
      cases hpass
    · simp only [replyAt, hparsed, happly, replyAfter]

/-- **The replay of the handler** is a pass over the ledger as it is at the last scan. -/
theorem exists_lastScan (hcbor : platform.cbor.Conforms) {moments : Nat → System}
    (h : Watched platform moments) {bound : Nat}
    (hbound : ∀ i ledgerID, ((moments i).table.ledgerRows ledgerID).length ≤ bound)
    (hroom : bound < 2 ^ 64 - 1) {batchSize : Int} (hbatch : 0 < batchSize)
    (ledgerID : LedgerID) :
    ∃ last result, rangeUntilError (applyCounted platform) (newGraph ledgerID, 0)
        (storedRecords platform (moments last).table ledgerID) = result ∧
      Outcome platform (fun i => (moments i).table) batchSize 0 last (newGraph ledgerID, 0) result
        bound := by
  obtain ⟨chains, hchains⟩ := h.exists_chains hcbor ledgerID
  have hlengths : ∀ i, (chains i).length ≤ bound := by
    intro i
    have hlength := hbound i ledgerID
    rwa [(hchains i).1, List.length_map] at hlength
  obtain ⟨final, count, err, hpass, houtcome⟩ := replayLoop_eq (fun i => (moments i).table) chains
    (fun i => (hchains i).1)
    (fun i j graph hle hcaught => h.take_eq hcbor hle (hchains i).1 (hchains j).1 hcaught.last)
    hlengths hroom hbatch bound 0 0 (caught_newGraph ledgerID (chains 0)) (Nat.le_add_left _ _)
  refine ⟨_, _, ?_, houtcome⟩
  rw [storedRecords_eq (hchains _).1]
  exact hpass

section Handler

variable {tables : Nat → Table} {scans : Scans} {batchSize : Int} {last bound fuel : Nat}
  {ledgerId : Bytes} {body : Option EvaluateConfidenceRequest} {inquiry : Inquiry}
  {result : ReplayProgress × Option ReplayError}

/-- The handler replies with an error if one of the scans of its replay fails. -/
theorem evaluateConfidencePaged_of_fails (hparsed : parseInquiry ledgerId body = .ok inquiry)
    (h : Outcome platform tables batchSize 0 last (newGraph inquiry.ledgerID, 0) result bound)
    (htables : ∀ i ≤ last, scans.table i = tables i) (hfails : ∃ i ≤ last, scans.fails i = true)
    (hfuel : bound < fuel) :
    evaluateConfidencePaged platform batchSize (some scans) fuel ledgerId body =
      some .internalServerError := by
  obtain ⟨i, hle, hfail⟩ := hfails
  obtain ⟨reached, start, hloop⟩ := h.fails scans (fun i _ => htables i)
    ⟨i, Nat.zero_le i, hle, hfail⟩ fuel hfuel
  simp only [evaluateConfidencePaged, hparsed, hloop, replyAfter]

/-- If none of them fails, it replies with what the replay came to. -/
theorem evaluateConfidencePaged_of_answered (hparsed : parseInquiry ledgerId body = .ok inquiry)
    (h : Outcome platform tables batchSize 0 last (newGraph inquiry.ledgerID, 0) result bound)
    (htables : ∀ i ≤ last, scans.table i = tables i) (hfails : ¬ ∃ i ≤ last, scans.fails i = true)
    (hfuel : bound < fuel) :
    evaluateConfidencePaged platform batchSize (some scans) fuel ledgerId body =
      replyAfter inquiry fuel result := by
  push Not at hfails
  have hloop := h.answered scans (fun i _ => htables i)
    (fun i _ hle => Bool.eq_false_of_not_eq_true (hfails i hle)) fuel hfuel
  simp only [evaluateConfidencePaged, hparsed, hloop]

end Handler

/-- There is a reply at every moment, and it does not depend on the fuel. -/
theorem exists_replyAfter (hcbor : platform.cbor.Conforms) {system : System}
    (h : Reaches (step platform) Action.ServiceCall .initial system) {bound : Nat}
    (inquiry : Inquiry) (hbound : (system.table.ledgerRows inquiry.ledgerID).length ≤ bound)
    {result : ReplayProgress × Option ReplayError}
    (hpass : rangeUntilError (applyCounted platform) (newGraph inquiry.ledgerID, 0)
      (storedRecords platform system.table inquiry.ledgerID) = result) :
    ∃ reply, ∀ fuel, bound < fuel → replyAfter inquiry fuel result = some reply := by
  obtain ⟨⟨graph, count⟩, _ | err⟩ := result
  · obtain ⟨chain, hholds, -⟩ := (consistent_of_serviceCalls hcbor h).chained inquiry.ledgerID
    obtain ⟨hbuilt, htidy, hlast⟩ := projection_of_holds hholds (applyCounted_eq_ok.mp hpass).1
    rw [hholds, List.length_map] at hbound
    exact exists_replyFor hbuilt htidy (Nat.le_trans htidy.length (hlast ▸ hbound)) inquiry
  · exact ⟨.internalServerError, fun _ _ => rfl⟩

/-- A success reply is that of some moment. -/
theorem exists_moment_of_success (hcbor : platform.cbor.Conforms) {moments : Nat → System}
    (h : Watched platform moments) {fails : Nat → Bool} {bound fuel : Nat}
    (hbound : ∀ i ledgerID, ((moments i).table.ledgerRows ledgerID).length ≤ bound)
    (hroom : bound < 2 ^ 64 - 1) (hfuel : bound < fuel) {ledgerId : Bytes}
    {body : Option EvaluateConfidenceRequest} {response : ConfidenceResponse}
    (hreply : evaluateConfidence platform (some ⟨fun i => (moments i).table, fails⟩) fuel ledgerId
      body = some (.success response)) :
    ∃ i, replyAt platform (moments i).table fuel ledgerId body = some (.success response) := by
  rcases hparsed : parseInquiry ledgerId body with early | inquiry
  · simp only [evaluateConfidence, evaluateConfidencePaged, hparsed] at hreply
    exact ⟨0, by simp only [replyAt, hparsed, hreply]⟩
  · obtain ⟨last, result, hpass, houtcome⟩ := exists_lastScan hcbor h hbound hroom
      (by decide : (0 : Int) < 256) inquiry.ledgerID
    rw [evaluateConfidence] at hreply
    by_cases hfails : ∃ i ≤ last, fails i = true
    · rw [evaluateConfidencePaged_of_fails hparsed houtcome (fun _ _ => rfl) hfails hfuel] at hreply
      cases hreply
    · rw [evaluateConfidencePaged_of_answered hparsed houtcome (fun _ _ => rfl) hfails hfuel]
        at hreply
      exact ⟨last, (replyAt_eq hparsed hpass fuel).trans hreply⟩

/-- **The reply is that of the last scan.**  However many pages the handler reads, of
whatever size (256 in `evaluateConfidence`), and whatever is admitted between two of them,
it replies as if it had read the whole ledger at the moment of its last scan, unless a
query failed.  All scans up to that one are made, so that the reply is an error if one of
them fails, and none after it, so that what comes later makes no difference. -/
theorem evaluateConfidence_snapshot (platform : Platform) (hcbor : platform.cbor.Conforms)
    (moments : Nat → System) (h : Watched platform moments) (bound : Nat)
    (hbound : ∀ i ledgerID, ((moments i).table.ledgerRows ledgerID).length ≤ bound)
    (hroom : bound < 2 ^ 64 - 1) (batchSize : Int) (hbatch : 0 < batchSize) (ledgerId : Bytes)
    (body : Option EvaluateConfidenceRequest) :
    ∃ last reply, ∀ fuel, bound < fuel →
      replyAt platform (moments last).table fuel ledgerId body = some reply ∧
      ∀ scans : Scans, (∀ i ≤ last, scans.table i = (moments i).table) →
        (evaluateConfidencePaged platform batchSize (some scans) fuel ledgerId body = some reply ∨
          (∃ i ≤ last, scans.fails i = true) ∧
            evaluateConfidencePaged platform batchSize (some scans) fuel ledgerId body =
              some .internalServerError) ∧
        ∀ inquiry, parseInquiry ledgerId body = .ok inquiry → ∀ i ≤ last, scans.fails i = true →
          evaluateConfidencePaged platform batchSize (some scans) fuel ledgerId body =
            some .internalServerError := by
  rcases hparsed : parseInquiry ledgerId body with early | inquiry
  · refine ⟨0, early, ?_⟩
    intro fuel _
    refine ⟨by simp only [replyAt, hparsed], ?_⟩
    intro scans _
    refine ⟨.inl (by simp only [evaluateConfidencePaged, hparsed]), ?_⟩
    intro inquiry hinquiry
    cases hinquiry
  · obtain ⟨last, result, hpass, houtcome⟩ := exists_lastScan hcbor h hbound hroom hbatch
      inquiry.ledgerID
    obtain ⟨reply, hreply⟩ := exists_replyAfter hcbor (h.reaches last) inquiry (hbound _ _) hpass
    refine ⟨last, reply, ?_⟩
    intro fuel hfuel
    refine ⟨(replyAt_eq hparsed hpass fuel).trans (hreply fuel hfuel), ?_⟩
    intro scans htables
    have hfailed : (∃ i ≤ last, scans.fails i = true) →
        evaluateConfidencePaged platform batchSize (some scans) fuel ledgerId body =
          some .internalServerError :=
      fun hfails => evaluateConfidencePaged_of_fails hparsed houtcome htables hfails hfuel
    refine ⟨?_, fun _ _ i hle hfail => hfailed ⟨i, hle, hfail⟩⟩
    by_cases hfails : ∃ i ≤ last, scans.fails i = true
    · exact .inr ⟨hfails, hfailed hfails⟩
    · exact .inl ((evaluateConfidencePaged_of_answered hparsed houtcome htables hfails
        hfuel).trans (hreply fuel hfuel))

/-! ### A ledger with one endorsement -/

/-- Asks what one trust root makes of a target. -/
def inquiryFor (root target : Ecdsa.PublicKey) : EvaluateConfidenceRequest where
  targetPublicKeyHex := hexEncode (target.bytes.getD [])
  trustRoots := [⟨hexEncode (root.bytes.getD []), 1⟩]
  topic := none
  maxHops := none
  decayFactor := none

/-- The endorsement is admitted between the first scan and the second. -/
def admittedBetween (before after : System) (i : Nat) : System := if i = 0 then before else after

/-- The reply about the endorsed from such scans, with one record a page. -/
def pagedReply (before after : System) (fails : Nat → Bool) : Option ConfidenceReply :=
  evaluateConfidencePaged samplePlatform 1
    (some ⟨fun i => (admittedBetween before after i).table, fails⟩) 3
    (hexEncode (FixedBytes.zero 32).bytes)
    (some (inquiryFor Ecdsa.p256Base Ecdsa.p256Opposite))

/-- The reply about the endorsed for a ledger as it stands. -/
def momentReply (system : System) : Option ConfidenceReply :=
  replyAt samplePlatform system.table 3 (hexEncode (FixedBytes.zero 32).bytes)
    (some (inquiryFor Ecdsa.p256Base Ecdsa.p256Opposite))

/-- The reply about a ledger that nobody writes to. -/
def quietReply (system : System) (root target : Ecdsa.PublicKey) : Option ConfidenceReply :=
  evaluateConfidence samplePlatform (some ⟨fun _ => system.table, fun _ => false⟩) 3
    (hexEncode (FixedBytes.zero 32).bytes) (some (inquiryFor root target))

/-- The response of a success reply. -/
def ConfidenceReply.response : ConfidenceReply → Option ConfidenceResponse
  | .success response => some response
  | _ => none

theorem ConfidenceReply.response_eq_some {reply : ConfidenceReply} {response : ConfidenceResponse} :
    reply.response = some response ↔ reply = .success response := by
  cases reply <;> simp [ConfidenceReply.response]

/-- `InitLedger` and then `AdmitEndorsement` of that endorsement.  The endorser gives
confidence to the endorsed, not the other way round. -/
structure TrustRun where
  before : System
  system : System
  call : Call
  record : StructuralRecord
  forwards : ConfidenceResponse
  backwards : ConfidenceResponse
  begins : Reaches (step samplePlatform) (Served samplePlatform) .initial before
  served : Reaches (step samplePlatform) (Served samplePlatform) before system
  lengths : (before.table.ledgerRows (.zero 32)).length = 1 ∧
    (system.table.ledgerRows (.zero 32)).length = 2 ∧ system.table.rows.length = 2
  requests : system.calls.map (·.request) = [.initLedger (.zero 32),
    .admitEndorsement (.zero 32) (some oppositeEndorsement)]
  admitted : system.calls[1]? = some call
  returned : call.phase = .returned (.ok record)
  forwardsReply : quietReply system Ecdsa.p256Base Ecdsa.p256Opposite = some (.success forwards)
  forwardsScore : forwards.confidenceScore = 3 / 5
  forwardsPaged : pagedReply before system (fun _ => false) = some (.success forwards)
  forwardsLater : momentReply before ≠ some (.success forwards)
  backwardsReply : quietReply system Ecdsa.p256Opposite Ecdsa.p256Base = some (.success backwards)

theorem trustRun_evaluates : Nonempty TrustRun := by
  have hevaluated : ((soloCall 0 (.initLedger (.zero 32))).foldlM
      (checkedStep (Served samplePlatform) (step samplePlatform)) .initial).any (fun before =>
      decide ((before.table.ledgerRows (.zero 32)).length = 1) &&
      ((soloCall 1 (.admitEndorsement (.zero 32) (some oppositeEndorsement))).foldlM
        (checkedStep (Served samplePlatform) (step samplePlatform)) before).any fun system =>
      decide (((system.table.ledgerRows (.zero 32)).length = 2 ∧ system.table.rows.length = 2) ∧
        system.calls.map (·.request) = [.initLedger (.zero 32),
          .admitEndorsement (.zero 32) (some oppositeEndorsement)]) &&
      (system.calls[1]?.any fun call => call.phase.answer.isSome) &&
      ((quietReply system Ecdsa.p256Base Ecdsa.p256Opposite).any fun reply =>
        reply.response.any fun response => decide (response.confidenceScore = 3 / 5 ∧
          pagedReply before system (fun _ => false) = some reply ∧
          momentReply before ≠ some reply)) &&
      (quietReply system Ecdsa.p256Opposite Ecdsa.p256Base).any fun reply =>
        reply.response.isSome) = true := by
    decide +kernel
  simp only [Option.any_eq_true, Bool.and_eq_true, decide_eq_true_eq, Option.isSome_iff_exists]
    at hevaluated
  obtain ⟨before, hbefore, hlength, system, hsystem, ⟨⟨⟨hlengths, hrequests⟩, call, hcall, record,
    hrecord⟩, _, hforwards, forwards, hforwardsReply, hscore, hpaged, hlater⟩, _, hbackwards,
    backwards, hbackwardsReply⟩ := hevaluated
  rw [ConfidenceReply.response_eq_some.mp hforwardsReply] at hforwards hpaged hlater
  rw [ConfidenceReply.response_eq_some.mp hbackwardsReply] at hbackwards
  exact ⟨before, system, call, record, forwards, backwards,
    (Reaches.refl.of_checked hbefore).1, (Reaches.refl.of_checked hsystem).1,
    ⟨hlength, hlengths⟩, hrequests, hcall, Phase.answer_eq_some.mp hrecord, hforwards, hscore,
    hpaged, hlater, hbackwards⟩

namespace TrustRun

variable (trust : TrustRun)

theorem reachesServed :
    Reaches (step samplePlatform) (Served samplePlatform) .initial trust.system :=
  trust.begins.trans trust.served

theorem reaches : Reaches (step samplePlatform) Action.ServiceCall .initial trust.system :=
  trust.reachesServed.mono fun _ _ served => served.serviceCall

end TrustRun

theorem length_ledgerRows_le (table : Table) (ledgerID : LedgerID) :
    (table.ledgerRows ledgerID).length ≤ table.rows.length := by
  rw [Table.ledgerRows, (sortBy_perm _ _).length_eq]
  exact List.length_filter_le ..

theorem TrustRun.length_le (trust : TrustRun) (ledgerID : LedgerID) :
    (trust.system.table.ledgerRows ledgerID).length ≤ 2 :=
  Nat.le_trans (length_ledgerRows_le ..) trust.lengths.2.2.le

theorem TrustRun.watched (trust : TrustRun) :
    Watched samplePlatform (admittedBetween trust.before trust.system) := by
  refine ⟨trust.begins.mono fun _ _ served => served.serviceCall, ?_⟩
  rintro (_ | i)
  · exact trust.served.mono fun _ _ served => served.serviceCall
  · exact .refl

theorem TrustRun.length_between_le (trust : TrustRun) (i : Nat) (ledgerID : LedgerID) :
    ((admittedBetween trust.before trust.system i).table.ledgerRows ledgerID).length ≤ 2 := by
  cases i with
  | zero =>
    have hgrows := ledgerRows_isPrefix Cbor.reference_conforms
      (trust.begins.mono fun _ _ served => served.orderly.noSecondGenesis)
      (trust.served.mono fun _ _ served => served.orderly.noSecondGenesis) ledgerID
    exact Nat.le_trans hgrows.length_le (trust.length_le ledgerID)
  | succ i => exact trust.length_le ledgerID

theorem exists_inquiry : ∃ inquiry, parseInquiry (hexEncode (FixedBytes.zero 32).bytes)
    (some (inquiryFor Ecdsa.p256Base Ecdsa.p256Opposite)) = .ok inquiry := by
  have hevaluated : (parseInquiry (hexEncode (FixedBytes.zero 32).bytes)
      (some (inquiryFor Ecdsa.p256Base Ecdsa.p256Opposite))).toOption.isSome = true := by
    decide +kernel
  obtain ⟨inquiry, hinquiry⟩ := Option.isSome_iff_exists.mp hevaluated
  exact ⟨inquiry, toOption_eq_some.mp hinquiry⟩

/-- The endorsement is admitted between the first scan and the second, and counts; the
query of the last scan fails. -/
theorem trustRun_snapshot :
    ∃ (trust : TrustRun) (last : Nat), 0 < last ∧
      pagedReply trust.before trust.system (fun _ => false) = some (.success trust.forwards) ∧
      momentReply trust.system = some (.success trust.forwards) ∧
      pagedReply trust.before trust.system (fun i => i = last) = some .internalServerError := by
  obtain ⟨trust⟩ := trustRun_evaluates
  obtain ⟨last, reply, hreply⟩ := evaluateConfidence_snapshot samplePlatform
    Cbor.reference_conforms _ trust.watched 2 trust.length_between_le (by decide) 1 (by decide)
    (hexEncode (FixedBytes.zero 32).bytes) (some (inquiryFor Ecdsa.p256Base Ecdsa.p256Opposite))
  obtain ⟨hmoment, hscans⟩ := hreply 3 (by decide)
  have hanswered : pagedReply trust.before trust.system (fun _ => false) = some reply := by
    rcases (hscans ⟨_, fun _ => false⟩ fun _ _ => rfl).1 with hsame | ⟨⟨i, -, hfails⟩, -⟩
    · exact hsame
    · cases hfails
  rw [trust.forwardsPaged] at hanswered
  cases hanswered
  have hlast : last ≠ 0 := by
    rintro rfl
    exact trust.forwardsLater hmoment
  obtain ⟨inquiry, hparsed⟩ := exists_inquiry
  refine ⟨trust, last, Nat.pos_of_ne_zero hlast, trust.forwardsPaged, ?_, ?_⟩
  · have hlater : admittedBetween trust.before trust.system last = trust.system := if_neg hlast
    rw [← hlater]
    exact hmoment
  · exact (hscans ⟨_, fun i => i = last⟩ fun _ _ => rfl).2 inquiry hparsed last (Nat.le_refl _)
      (decide_eq_true rfl)

end HttpApi

end AttributionChain

import AttributionChain.GraphIndex

/-!
# What a graph represents

A program holds a graph, calls `AddEdge` with new edges, `RevokeEdge` and
`SetLastSequence` in any order, and may ignore the errors.  `callAll` is such a run;
it keeps the calls that returned no error.

`Represents graph added revocations` is what can be said of the graph by looking
only at these calls: which edges each container holds and in which order, that all
the readers see the same edges, and what is counted.  `represents_callAll` proves it
of every run.  The step lemma is `Follows.call`.
-/

namespace AttributionChain

open Endorsement

/-- An edge as it was admitted, before any revocation. -/
def AttestationEdge.admitted (edge : AttestationEdge) : AttestationEdge :=
  { edge with
    isActive := true
    revokedAtUnixMS := none
    revocationRecordDigest := none
    revocationReason := []
    revokerRole := 0 }

/-- An edge is inactive if and only if its revocation is recorded, all of it. -/
structure AttestationEdge.Recorded (edge : AttestationEdge) : Prop where
  time : edge.isActive = false ↔ edge.revokedAtUnixMS.isSome = true
  digest : edge.isActive = false ↔ edge.revocationRecordDigest.isSome = true

namespace Graph

variable {graph : Graph} {edge : AttestationEdge} {digest : Digest} {ref : EdgeRef}

/-! ### The containers, one by one -/

/-- The references that the digest map holds are the positions of the heap. -/
theorem Indexed.perm_refs (h : graph.Indexed) :
    (graph.edgesByDigest.entries.map (·.2)).Perm (List.range graph.heap.length) := by
  have hentry : ∀ entry ∈ graph.edgesByDigest.entries,
      graph.heap[entry.2]?.map (·.recordDigest) = some entry.1 := by
    intro entry hmem
    exact (h.digests _ _).mp (AList.mem_lookup_iff.mpr hmem)
  have hnodup : (graph.edgesByDigest.entries.map (·.2)).Nodup := by
    apply graph.edgesByDigest.nodupKeys.nodup.map_on
    intro left hleft right hright hrefs
    have hdigests := hentry left hleft
    rw [hrefs, hentry right hright] at hdigests
    exact Sigma.ext (Option.some.inj hdigests).symm (heq_of_eq hrefs)
  rw [List.perm_ext_iff_of_nodup hnodup List.nodup_range]
  intro ref
  rw [List.mem_map, List.mem_range]
  constructor
  · rintro ⟨entry, hmem, rfl⟩
    obtain ⟨edge, hedge, -⟩ := Option.map_eq_some_iff.mp (hentry entry hmem)
    exact (List.getElem?_eq_some_iff.mp hedge).1
  · intro hlt
    have hlookup := (h.digests _ ref).mpr
      (congrArg (Option.map (·.recordDigest)) (List.getElem?_eq_getElem hlt))
    exact ⟨⟨_, ref⟩, AList.mem_lookup_iff.mp hlookup, rfl⟩

theorem Indexed.edgeCount_eq (h : graph.Indexed) : graph.edgeCount = graph.heap.length := by
  have hlength := h.perm_refs.length_eq
  rwa [List.length_map, List.length_range] at hlength

theorem map_deref_range (graph : Graph) :
    (List.range graph.heap.length).map graph.deref = graph.heap := by
  apply List.ext_getElem
  · simp
  · intro i hi _
    have hlt : i < graph.heap.length := by simpa using hi
    simp [deref, hlt]

theorem Indexed.activeEdgeCount_eq (h : graph.Indexed) :
    graph.activeEdgeCount = graph.heap.countP (·.isActive) := by
  calc graph.activeEdgeCount
      = (graph.edgesByDigest.entries.map (·.2)).countP (fun ref => (graph.deref ref).isActive) := by
        rw [List.countP_map]
        rfl
    _ = (List.range graph.heap.length).countP (fun ref => (graph.deref ref).isActive) :=
        h.perm_refs.countP_eq _
    _ = ((List.range graph.heap.length).map graph.deref).countP (·.isActive) := by
        rw [List.countP_map]
        rfl
    _ = graph.heap.countP (·.isActive) := by rw [map_deref_range]

/-- One of the three indexes, for edges that were added in the given order: every
edge is listed once, under its own key, and there is nothing else. -/
structure Partitioned {κ : Type} [DecidableEq κ] (graph : Graph) (key : AttestationEdge → κ)
    (index : AList fun _ : κ => List EdgeRef) (added : List AttestationEdge) : Prop where
  once : ∀ digest ref, graph.edgesByDigest.lookup digest = some ref →
    ((index.lookup (key (graph.deref ref))).getD []).count ref = 1
  only : ∀ value ref, ref ∈ (index.lookup value).getD [] →
    key (graph.deref ref) = value ∧
      graph.edgesByDigest.lookup (graph.deref ref).recordDigest = some ref
  ordered : ∀ value, ((index.lookup value).getD []).map (fun ref => (graph.deref ref).admitted) =
    added.filter fun edge => key edge = value

theorem Indexed.partitioned {κ : Type} [DecidableEq κ] {key : AttestationEdge → κ}
    {index : AList fun _ : κ => List EdgeRef} {added : List AttestationEdge} (h : graph.Indexed)
    (hlists : Lists key index graph.heap) (hadded : graph.heap.map (·.admitted) = added)
    (hkey : ∀ edge : AttestationEdge, key edge.admitted = key edge) :
    Partitioned graph key index added where
  once digest ref hlookup := by
    rw [hlists]
    apply List.count_eq_one_of_mem (nodup_positions key graph.heap _)
    rw [mem_positions, h.getElem?_of_lookup hlookup, Option.map_some]
  only value ref hmem := by
    rw [hlists, mem_positions] at hmem
    obtain ⟨edge, hedge, rfl⟩ := Option.map_eq_some_iff.mp hmem
    have hderef : graph.deref ref = edge := by
      rw [deref, List.getD_eq_getElem?_getD, hedge, Option.getD_some]
    refine ⟨congrArg key hderef, (h.digests _ ref).mpr ?_⟩
    rw [hedge, hderef, Option.map_some]
  ordered value := by
    have hrefs := congrArg (List.map AttestationEdge.admitted)
      (map_positions key graph.heap .zero value)
    rw [List.map_map] at hrefs
    rw [hlists, ← hadded, List.filter_map]
    refine hrefs.trans (congrArg _ (List.filter_congr ?_))
    intro edge _
    rw [Function.comp_apply, hkey]

/-! ### The readers -/

theorem Indexed.inEdgesOf_eq (h : graph.Indexed) (subject : IdentityKey) (topic : Bytes)
    (activeOnly : Bool) :
    graph.inEdgesOf subject topic activeOnly =
      (graph.heap.filter fun edge => edge.subject = subject).filter fun edge =>
        !(activeOnly && !edge.isActive) && !(topic ≠ [] && edge.topic ≠ topic) := by
  rw [inEdgesOf, selectEdges, h.inEdges subject]
  exact congrArg _ (map_positions AttestationEdge.subject graph.heap .zero subject)

theorem Indexed.topicEdges_eq (h : graph.Indexed) (topic : Bytes) (activeOnly : Bool) :
    graph.topicEdges topic activeOnly =
      (graph.heap.filter fun edge => edge.topic = topic).filter fun edge =>
        !(activeOnly && !edge.isActive) := by
  rw [topicEdges, h.topics topic]
  exact congrArg _ (map_positions AttestationEdge.topic graph.heap .zero topic)

/-- A reader returns the edges that `EdgeByDigest` returns, activity included, and of
these the ones that were asked for. -/
def Reads (graph : Graph) (activeOnly : Bool) (wanted : AttestationEdge → Prop)
    (edges : List AttestationEdge) : Prop :=
  ∀ edge, edge ∈ edges ↔ graph.edgeByDigest edge.recordDigest = some edge ∧ wanted edge ∧
    (activeOnly = true → edge.isActive = true)

theorem Indexed.reads_outEdgesOf (h : graph.Indexed) (proposer : IdentityKey) (topic : Bytes)
    (activeOnly : Bool) :
    graph.Reads activeOnly
      (fun edge => edge.proposer = proposer ∧ (topic = [] ∨ edge.topic = topic))
      (graph.outEdgesOf proposer topic activeOnly) := by
  intro edge
  rw [h.outEdgesOf_eq, h.edgeByDigest_iff]
  simp only [List.mem_filter, decide_eq_true_eq]
  grind

theorem Indexed.reads_inEdgesOf (h : graph.Indexed) (subject : IdentityKey) (topic : Bytes)
    (activeOnly : Bool) :
    graph.Reads activeOnly (fun edge => edge.subject = subject ∧ (topic = [] ∨ edge.topic = topic))
      (graph.inEdgesOf subject topic activeOnly) := by
  intro edge
  rw [h.inEdgesOf_eq, h.edgeByDigest_iff]
  simp only [List.mem_filter, decide_eq_true_eq]
  grind

theorem Indexed.reads_topicEdges (h : graph.Indexed) (topic : Bytes) (activeOnly : Bool) :
    graph.Reads activeOnly (fun edge => edge.topic = topic)
      (graph.topicEdges topic activeOnly) := by
  intro edge
  rw [h.topicEdges_eq, h.edgeByDigest_iff]
  simp only [List.mem_filter, decide_eq_true_eq]
  grind

/-! ### Runs -/

/-- `AddEdge` is called with what `NewAttestationEdge` returned. -/
def Operation.Fresh : Operation → Prop
  | .addEdge edge => ∃ recordDigest sequence proposer subject topic claimBody proposedAt acceptedAt,
      edge = newAttestationEdge recordDigest sequence proposer subject topic claimBody proposedAt
        acceptedAt
  | .revokeEdge .. | .setLastSequence _ => True

/-- The edge that a successful call added. -/
def Operation.added : Operation → Option AttestationEdge
  | .addEdge edge => some edge
  | .revokeEdge .. | .setLastSequence _ => none

def Operation.isRevocation : Operation → Bool
  | .revokeEdge .. => true
  | .addEdge _ | .setLastSequence _ => false

/-- One more call, which is kept if it returned no error. -/
def call (run : Graph × List Operation) (operation : Operation) : Graph × List Operation :=
  let (next, err) := run.1.perform operation
  (next, if err.isNone then run.2 ++ [operation] else run.2)

/-- A run from `NewGraph`: the graph, and the calls that succeeded. -/
def callAll (ledgerID : LedgerID) (operations : List Operation) : Graph × List Operation :=
  operations.foldl call (newGraph ledgerID, [])

/-- What the edges of a graph have to do with the calls that succeeded. -/
structure Follows (graph : Graph) (calls : List Operation) : Prop where
  indexed : graph.Indexed
  added : graph.heap.map (·.admitted) = calls.filterMap (·.added)
  recorded : ∀ edge ∈ graph.heap, edge.Recorded
  active : graph.heap.countP (·.isActive) + calls.countP (·.isRevocation) = graph.heap.length

variable {calls : List Operation}

theorem follows_newGraph (ledgerID : LedgerID) : (newGraph ledgerID).Follows [] where
  indexed := indexed_newGraph ledgerID
  added := rfl
  recorded edge hedge := by cases hedge
  active := rfl

theorem Follows.insertEdge (h : graph.Follows calls)
    (hfresh : graph.edgeByDigest edge.recordDigest = none)
    (hedge : (Operation.addEdge edge).Fresh) :
    (graph.insertEdge edge).Follows (calls ++ [.addEdge edge]) := by
  obtain ⟨_, _, _, _, _, _, _, _, rfl⟩ := hedge
  refine ⟨h.indexed.insertEdge hfresh, ?_, ?_, ?_⟩
  · rw [Graph.insertEdge, List.map_append, List.filterMap_append, h.added]
    rfl
  · intro other hother
    rcases List.mem_append.mp hother with hold | hnew
    · exact h.recorded other hold
    · rw [List.mem_singleton.mp hnew]
      exact ⟨by simp [newAttestationEdge], by simp [newAttestationEdge]⟩
  · have hactive := h.active
    have hadds : ∀ edge, (Operation.addEdge edge).isRevocation = false := fun _ => rfl
    simp only [Graph.insertEdge, List.countP_append, List.length_append, List.countP_singleton,
      List.length_singleton, newAttestationEdge, hadds, if_true, Bool.false_eq_true, if_false]
    omega

/-- A revocation changes one edge, which was active. -/
theorem Follows.markRevoked {old : AttestationEdge} {role : RevokerRole}
    {revokedAt sequence : UInt64} {revocationDigest : Digest} {reason : Bytes}
    {operation : Operation} (h : graph.Follows calls) (hold : graph.heap[ref]? = some old)
    (hactive : old.isActive = true) (hrevocation : operation.isRevocation = true)
    (hadds : operation.added = none) :
    (graph.markRevoked ref (old.revoke role revokedAt revocationDigest reason) sequence).Follows
      (calls ++ [operation]) where
  indexed := by
    apply h.indexed.markRevoked hold
    · rfl
    · rfl
    · rfl
    · rfl
  added := by
    have hadmitted : (old.revoke role revokedAt revocationDigest reason).admitted = old.admitted :=
      rfl
    have hsame := map_set_of_key_eq AttestationEdge.admitted hold hadmitted
    rw [Graph.markRevoked, List.filterMap_append, hsame, h.added]
    simp [hadds]
  recorded other hother := by
    rcases List.mem_or_eq_of_mem_set hother with hmem | rfl
    · exact h.recorded other hmem
    · exact ⟨by simp [AttestationEdge.revoke], by simp [AttestationEdge.revoke]⟩
  active := by
    obtain ⟨hlt, hcell⟩ := List.getElem?_eq_some_iff.mp hold
    have hcount := h.active
    have hpos : 0 < graph.heap.countP (·.isActive) :=
      List.countP_pos_iff.mpr ⟨old, List.mem_of_getElem? hold, hactive⟩
    simp only [Graph.markRevoked, List.countP_append, List.length_set, List.countP_singleton,
      hrevocation, List.countP_set hlt, hcell, hactive, AttestationEdge.revoke, if_true,
      Bool.false_eq_true, if_false]
    omega

theorem Follows.setLastSequence (h : graph.Follows calls) (sequence : UInt64) :
    (graph.setLastSequence sequence).Follows (calls ++ [.setLastSequence sequence]) where
  indexed := h.indexed.setLastSequence sequence
  added := by
    rw [List.filterMap_append, ← h.added]
    simp [Operation.added, Graph.setLastSequence]
  recorded := h.recorded
  active := by
    rw [List.countP_append]
    exact h.active

/-- One call, successful or not. -/
theorem Follows.call {run : Graph × List Operation} {operation : Operation}
    (h : run.1.Follows run.2) (hfresh : operation.Fresh) :
    (call run operation).1.Follows (Graph.call run operation).2 := by
  unfold Graph.call
  obtain ⟨err, hnext⟩ | ⟨edge, rfl, hnew, hnext⟩ |
    ⟨target, revoker, role, revokedAt, revocationDigest, reason, sequence, ref, rfl, hlookup,
      hactive, -, hnext⟩ |
    ⟨sequence, rfl, hnext⟩ := perform_cases run.1 operation
  · rw [hnext]
    exact h
  · rw [hnext]
    exact h.insertEdge hnew hfresh
  · rw [hnext]
    exact h.markRevoked (h.indexed.getElem?_of_lookup hlookup) hactive rfl rfl
  · rw [hnext]
    exact h.setLastSequence sequence

theorem follows_callAll (ledgerID : LedgerID) {operations : List Operation}
    (hfresh : ∀ operation ∈ operations, operation.Fresh) :
    (callAll ledgerID operations).1.Follows (callAll ledgerID operations).2 := by
  induction operations using List.reverseRecOn with
  | nil => exact follows_newGraph ledgerID
  | append_singleton operations last ih =>
    rw [callAll, List.foldl_append, List.foldl_cons, List.foldl_nil]
    apply Follows.call
    · apply ih
      intro operation hmem
      exact hfresh operation (List.mem_append_left _ hmem)
    · exact hfresh last (List.mem_append_right _ (List.mem_singleton_self last))

/-! ### The representation invariant -/

/-- A graph to which the given edges were added, in this order, and where so many
revocations succeeded. -/
structure Represents (graph : Graph) (added : List AttestationEdge) (revocations : Nat) : Prop where
  digests : ∀ digest edge, graph.edgeByDigest digest = some edge → edge.recordDigest = digest
  outEdges : graph.Partitioned (·.proposer) graph.outEdges added
  inEdges : graph.Partitioned (·.subject) graph.inEdges added
  topicIndex : graph.Partitioned (·.topic) graph.topicIndex added
  nodes : ∀ node, node ∈ graph.nodes ↔ ∃ digest edge, graph.edgeByDigest digest = some edge ∧
    (edge.proposer = node ∨ edge.subject = node)
  recorded : ∀ digest edge, graph.edgeByDigest digest = some edge → edge.Recorded
  readsOutEdges : ∀ proposer topic activeOnly, graph.Reads activeOnly
    (fun edge => edge.proposer = proposer ∧ (topic = [] ∨ edge.topic = topic))
    (graph.outEdgesOf proposer topic activeOnly)
  readsInEdges : ∀ subject topic activeOnly, graph.Reads activeOnly
    (fun edge => edge.subject = subject ∧ (topic = [] ∨ edge.topic = topic))
    (graph.inEdgesOf subject topic activeOnly)
  readsTopicEdges : ∀ topic activeOnly, graph.Reads activeOnly (fun edge => edge.topic = topic)
    (graph.topicEdges topic activeOnly)
  edgeCount : graph.edgeCount = added.length
  activeEdgeCount : graph.activeEdgeCount + revocations = added.length

theorem Indexed.mem_nodes (h : graph.Indexed) (node : IdentityKey) :
    node ∈ graph.nodes ↔ ∃ digest edge, graph.edgeByDigest digest = some edge ∧
      (edge.proposer = node ∨ edge.subject = node) := by
  simp only [h.nodes, h.edgeByDigest_iff, List.mem_map]
  constructor
  · rintro (⟨edge, hedge, hnode⟩ | ⟨edge, hedge, hnode⟩)
    · exact ⟨_, edge, ⟨hedge, rfl⟩, .inl hnode⟩
    · exact ⟨_, edge, ⟨hedge, rfl⟩, .inr hnode⟩
  · rintro ⟨_, edge, ⟨hedge, -⟩, hnode | hnode⟩
    · exact .inl ⟨edge, hedge, hnode⟩
    · exact .inr ⟨edge, hedge, hnode⟩

/-- **The representation invariant of the graph**, over every sequence of calls. -/
theorem represents_callAll (ledgerID : LedgerID) (operations : List Operation)
    (hfresh : ∀ operation ∈ operations, operation.Fresh) :
    (callAll ledgerID operations).1.Represents
      ((callAll ledgerID operations).2.filterMap (·.added))
      ((callAll ledgerID operations).2.countP (·.isRevocation)) := by
  have hrun := follows_callAll ledgerID hfresh
  have hindexed := hrun.indexed
  have hlength : (callAll ledgerID operations).1.heap.length =
      ((callAll ledgerID operations).2.filterMap (·.added)).length := by
    rw [← hrun.added, List.length_map]
  exact {
    digests := fun _ _ hedge => (hindexed.edgeByDigest_iff.mp hedge).2
    outEdges := hindexed.partitioned hindexed.outEdges hrun.added fun _ => rfl
    inEdges := hindexed.partitioned hindexed.inEdges hrun.added fun _ => rfl
    topicIndex := hindexed.partitioned hindexed.topics hrun.added fun _ => rfl
    nodes := hindexed.mem_nodes
    recorded := fun _ edge hedge => hrun.recorded edge (hindexed.edgeByDigest_iff.mp hedge).1
    readsOutEdges := hindexed.reads_outEdgesOf
    readsInEdges := hindexed.reads_inEdgesOf
    readsTopicEdges := hindexed.reads_topicEdges
    edgeCount := hindexed.edgeCount_eq.trans hlength
    activeEdgeCount := by
      rw [hindexed.activeEdgeCount_eq, ← hlength]
      exact hrun.active }

/-- Two edges of which the first is revoked, with calls in between that fail: an edge
added twice, a revocation by a stranger and one of an edge already revoked. -/
def sampleCalls : List Operation :=
  let alice := FixedBytes.copyFrom 65 [4, 1]
  let bob := FixedBytes.copyFrom 65 [4, 2]
  let first := newAttestationEdge (FixedBytes.copyFrom 32 [1]) 1 alice bob (ascii "go") none 0 0
  let second := newAttestationEdge (FixedBytes.copyFrom 32 [2]) 2 alice bob (ascii "go") none 0 0
  let revoke revoker := Operation.revokeEdge first.recordDigest revoker revokerRoleSubject 0
    (FixedBytes.copyFrom 32 [4]) [] 4
  [.addEdge first, .addEdge second, .addEdge first, .setLastSequence 3, revoke alice, revoke bob,
    revoke bob]

theorem represents_sampleCalls :
    (callAll (FixedBytes.zero 32) sampleCalls).1.Represents
        ((callAll (FixedBytes.zero 32) sampleCalls).2.filterMap (·.added))
        ((callAll (FixedBytes.zero 32) sampleCalls).2.countP (·.isRevocation)) ∧
      (callAll (FixedBytes.zero 32) sampleCalls).2.length = 4 ∧
      (callAll (FixedBytes.zero 32) sampleCalls).1.activeEdgeCount = 1 := by
  refine ⟨represents_callAll _ _ ?_, by decide +kernel, by decide +kernel⟩
  intro operation hmem
  simp only [sampleCalls, List.mem_cons, List.not_mem_nil, or_false] at hmem
  rcases hmem with rfl | rfl | rfl | rfl | rfl | rfl | rfl
  · exact ⟨_, _, _, _, _, _, _, _, rfl⟩
  · exact ⟨_, _, _, _, _, _, _, _, rfl⟩
  · exact ⟨_, _, _, _, _, _, _, _, rfl⟩
  · trivial
  · trivial
  · trivial
  · trivial

end Graph

end AttributionChain

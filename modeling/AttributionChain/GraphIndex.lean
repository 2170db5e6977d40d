import AttributionChain.Graph
import AttributionChain.Histories

/-!
# The graph's indexes

A graph is only ever changed by `AddEdge`, `RevokeEdge` and `SetLastSequence`.  In
every graph that such calls build, failed ones included, each map lists exactly the
edges it should, in the order they were added (`Indexed`).  What `OutEdges` and
`EdgeByDigest` return can then be read off the list of all edges
(`outEdgesOf_eq`, `edgeByDigest_iff`).
-/

namespace AttributionChain

open Endorsement Histories

/-! ### An index over a list -/

/-- Replacing an item by one with the same key. -/
theorem map_set_of_key_eq {α κ : Type} (key : α → κ) {items : List α} {i : Nat} {old new : α}
    (hold : items[i]? = some old) (hkey : key new = key old) :
    (items.set i new).map key = items.map key := by
  apply List.ext_getElem?
  intro j
  rw [List.getElem?_map, List.getElem?_map]
  by_cases hsame : i = j
  · subst hsame
    have hlt := (List.getElem?_eq_some_iff.mp hold).1
    rw [List.getElem?_set_self hlt, hold, Option.map_some, Option.map_some, hkey]
  · rw [List.getElem?_set_ne hsame]

section Index

variable {α κ : Type} [DecidableEq κ] (key : α → κ)

/-- The positions of the items with a given key. -/
def positions (items : List α) (value : κ) : List Nat :=
  (List.range items.length).filter fun i => items[i]?.map key = some value

theorem mem_positions {items : List α} {value : κ} {i : Nat} :
    i ∈ positions key items value ↔ items[i]?.map key = some value := by
  rw [positions, List.mem_filter, List.mem_range, decide_eq_true_eq]
  constructor
  · exact And.right
  · intro hvalue
    obtain ⟨item, hitem, -⟩ := Option.map_eq_some_iff.mp hvalue
    exact ⟨(List.getElem?_eq_some_iff.mp hitem).1, hvalue⟩

theorem nodup_positions (items : List α) (value : κ) : (positions key items value).Nodup :=
  List.nodup_range.filter _

theorem positions_concat (items : List α) (item : α) (value : κ) :
    positions key (items ++ [item]) value =
      positions key items value ++ if key item = value then [items.length] else [] := by
  have hold : (List.range items.length).filter
      (fun i => (items ++ [item])[i]?.map key = some value) = positions key items value := by
    apply List.filter_congr
    intro i hi
    rw [List.getElem?_append_left (List.mem_range.mp hi)]
  have hnew : [items.length].filter (fun i => (items ++ [item])[i]?.map key = some value) =
      if key item = value then [items.length] else [] := by
    by_cases hkey : key item = value
    · simp [hkey]
    · simp [hkey]
  rw [positions, List.length_append, List.length_singleton, List.range_succ, List.filter_append,
    hold, hnew]

/-- Following the positions gives the items with that key, in their order. -/
theorem map_positions (items : List α) (default : α) (value : κ) :
    (positions key items value).map (items.getD · default) =
      items.filter fun item => key item = value := by
  have hall : (List.range items.length).map (items.getD · default) = items := by
    apply List.ext_getElem
    · simp
    · intro i hi _
      have hlt : i < items.length := by simpa using hi
      simp [hlt]
  have hsame : positions key items value = (List.range items.length).filter
      ((fun item => decide (key item = value)) ∘ (items.getD · default)) := by
    apply List.filter_congr
    intro i hi
    have hlt := List.mem_range.mp hi
    simp [hlt]
  conv_rhs => rw [← hall, List.filter_map]
  rw [hsame]

/-- The index lists the positions of every key. -/
def Lists (index : AList fun _ : κ => List EdgeRef) (items : List α) : Prop :=
  ∀ value, (index.lookup value).getD [] = positions key items value

variable {key} {index : AList fun _ : κ => List EdgeRef} {items : List α}

theorem Lists.appendRef (h : Lists key index items) (item : α) :
    Lists key (appendRef index (key item) items.length) (items ++ [item]) := by
  intro value
  rw [positions_concat, AttributionChain.appendRef]
  by_cases hkey : key item = value
  · rw [hkey, AList.lookup_insert, Option.getD_some, h value, if_pos rfl]
  · rw [AList.lookup_insert_ne (Ne.symm hkey), h value, if_neg hkey, List.append_nil]

theorem Lists.set (h : Lists key index items) {i : Nat} {old new : α}
    (hold : items[i]? = some old) (hkey : key new = key old) :
    Lists key index (items.set i new) := by
  intro value
  have hmap := map_set_of_key_eq key hold hkey
  rw [h value]
  simp only [positions, ← List.getElem?_map, hmap, List.length_set]

end Index

namespace Graph

/-! ### The operations -/

inductive Operation where
  | addEdge (edge : AttestationEdge)
  | revokeEdge (target : Digest) (revoker : IdentityKey) (role : RevokerRole) (revokedAt : UInt64)
      (revocationDigest : Digest) (reason : Bytes) (revocationSequence : UInt64)
  | setLastSequence (sequence : UInt64)

def perform (graph : Graph) : Operation → Graph × Option GraphError
  | .addEdge edge => graph.addEdge edge
  | .revokeEdge target revoker role revokedAt revocationDigest reason revocationSequence =>
    graph.revokeEdge target revoker role revokedAt revocationDigest reason revocationSequence
  | .setLastSequence sequence => (graph.setLastSequence sequence, none)

/-- The graphs that a program can make. -/
def Built (graph : Graph) : Prop :=
  ∃ ledgerID, Reaches (fun graph operation => some (perform graph operation).1)
    (fun _ _ => True) (newGraph ledgerID) graph

variable {graph next : Graph} {edge revoked : AttestationEdge} {digest : Digest} {ref : EdgeRef}

theorem built_newGraph (ledgerID : LedgerID) : (newGraph ledgerID).Built := ⟨ledgerID, .refl⟩

theorem Built.perform (h : graph.Built) (operation : Operation) :
    (graph.perform operation).1.Built := by
  obtain ⟨ledgerID, hreaches⟩ := h
  exact ⟨ledgerID, .step hreaches trivial rfl⟩

/-- What an operation can do to a graph. -/
theorem perform_cases (graph : Graph) (operation : Operation) :
    (∃ err, graph.perform operation = (graph, some err)) ∨
      (∃ edge, operation = .addEdge edge ∧ graph.edgeByDigest edge.recordDigest = none ∧
        graph.perform operation = (graph.insertEdge edge, none)) ∨
      (∃ target revoker role revokedAt revocationDigest reason sequence ref,
        operation =
          .revokeEdge target revoker role revokedAt revocationDigest reason sequence ∧
        graph.edgesByDigest.lookup target = some ref ∧ (graph.deref ref).isActive = true ∧
        Authorized (graph.deref ref) revoker role ∧
        graph.perform operation = (graph.markRevoked ref
          ((graph.deref ref).revoke role revokedAt revocationDigest reason) sequence, none)) ∨
      ∃ sequence, operation = .setLastSequence sequence ∧
        graph.perform operation = (graph.setLastSequence sequence, none) := by
  cases operation with
  | addEdge edge =>
    rcases hresult : graph.addEdge edge with ⟨next, _ | err⟩
    · obtain ⟨hfresh, rfl⟩ := addEdge_eq_ok.mp hresult
      exact .inr (.inl ⟨edge, rfl, hfresh, hresult⟩)
    · obtain rfl := addEdge_eq_error hresult
      exact .inl ⟨err, hresult⟩
  | revokeEdge target revoker role revokedAt revocationDigest reason sequence =>
    rcases hresult : graph.revokeEdge target revoker role revokedAt revocationDigest reason
      sequence with ⟨next, _ | err⟩
    · obtain ⟨ref, hlookup, hactive, hauthorized, rfl⟩ := revokeEdge_eq_ok.mp hresult
      exact .inr (.inr (.inl ⟨target, revoker, role, revokedAt, revocationDigest, reason,
        sequence, ref, rfl, hlookup, hactive, hauthorized, hresult⟩))
    · obtain rfl := revokeEdge_eq_error hresult
      exact .inl ⟨err, hresult⟩
  | setLastSequence sequence => exact .inr (.inr (.inr ⟨sequence, rfl, rfl⟩))

/-! ### The invariant -/

/-- Every map agrees with the list of edges. -/
structure Indexed (graph : Graph) : Prop where
  digests : ∀ digest ref, graph.edgesByDigest.lookup digest = some ref ↔
    graph.heap[ref]?.map (·.recordDigest) = some digest
  outEdges : Lists (·.proposer) graph.outEdges graph.heap
  inEdges : Lists (·.subject) graph.inEdges graph.heap
  topics : Lists (·.topic) graph.topicIndex graph.heap
  nodes : ∀ node, node ∈ graph.nodes ↔
    node ∈ graph.heap.map (·.proposer) ∨ node ∈ graph.heap.map (·.subject)

theorem indexed_newGraph (ledgerID : LedgerID) : (newGraph ledgerID).Indexed where
  digests digest ref := by simp [newGraph]
  outEdges _ := rfl
  inEdges _ := rfl
  topics _ := rfl
  nodes node := by simp [newGraph]

theorem Indexed.setLastSequence (h : graph.Indexed) (sequence : UInt64) :
    (graph.setLastSequence sequence).Indexed :=
  ⟨h.digests, h.outEdges, h.inEdges, h.topics, h.nodes⟩

theorem Indexed.insertEdge (h : graph.Indexed)
    (hfresh : graph.edgeByDigest edge.recordDigest = none) : (graph.insertEdge edge).Indexed where
  digests digest ref := by
    rw [lookup_insertEdge]
    rcases Nat.lt_trichotomy ref graph.heap.length with hlt | rfl | hgt
    · have hheap : (graph.insertEdge edge).heap[ref]? = graph.heap[ref]? :=
        List.getElem?_append_left hlt
      rw [hheap, ← h.digests]
      by_cases hdigest : digest = edge.recordDigest
      · subst hdigest
        rw [edgeByDigest_eq_none.mp hfresh, if_pos rfl]
        simp [Nat.ne_of_gt hlt]
      · rw [if_neg hdigest]
    · have hheap : (graph.insertEdge edge).heap[graph.heap.length]? = some edge :=
        List.getElem?_concat_length
      rw [hheap]
      by_cases hdigest : digest = edge.recordDigest
      · simp [hdigest]
      · have hbeyond : graph.edgesByDigest.lookup digest ≠ some graph.heap.length := by
          rw [ne_eq, h.digests]
          simp
        simp [hdigest, hbeyond, Ne.symm hdigest]
    · have hlength : (graph.insertEdge edge).heap.length = graph.heap.length + 1 :=
        List.length_append
      have hheap : (graph.insertEdge edge).heap[ref]? = none := List.getElem?_eq_none (by omega)
      have hold : graph.heap[ref]? = none := List.getElem?_eq_none (by omega)
      rw [hheap]
      by_cases hdigest : digest = edge.recordDigest
      · simp [hdigest, Nat.ne_of_lt hgt]
      · rw [if_neg hdigest, h.digests, hold]
  outEdges := h.outEdges.appendRef edge
  inEdges := h.inEdges.appendRef edge
  topics := h.topics.appendRef edge
  nodes node := by
    simp only [Graph.insertEdge, Finset.mem_insert, h.nodes, List.map_append, List.mem_append,
      List.map_cons, List.map_nil, List.mem_singleton]
    tauto

/-- A revocation keeps everything that the maps go by. -/
theorem Indexed.markRevoked {old : AttestationEdge} (h : graph.Indexed)
    (hold : graph.heap[ref]? = some old) (hdigest : revoked.recordDigest = old.recordDigest)
    (hproposer : revoked.proposer = old.proposer) (hsubject : revoked.subject = old.subject)
    (htopic : revoked.topic = old.topic) (sequence : UInt64) :
    (graph.markRevoked ref revoked sequence).Indexed where
  digests digest other := by
    have hmap := map_set_of_key_eq (·.recordDigest) hold hdigest
    refine (h.digests digest other).trans ?_
    simp only [Graph.markRevoked, ← List.getElem?_map, hmap]
  outEdges := h.outEdges.set hold hproposer
  inEdges := h.inEdges.set hold hsubject
  topics := h.topics.set hold htopic
  nodes node := by
    have hproposers := map_set_of_key_eq (·.proposer) hold hproposer
    have hsubjects := map_set_of_key_eq (·.subject) hold hsubject
    simp only [Graph.markRevoked, h.nodes, hproposers, hsubjects]

theorem Indexed.getElem?_of_lookup (h : graph.Indexed)
    (hlookup : graph.edgesByDigest.lookup digest = some ref) :
    graph.heap[ref]? = some (graph.deref ref) := by
  obtain ⟨edge, hedge, -⟩ := Option.map_eq_some_iff.mp ((h.digests digest ref).mp hlookup)
  rw [deref, List.getD_eq_getElem?_getD, hedge, Option.getD_some]

theorem Indexed.perform (h : graph.Indexed) (operation : Operation) :
    (graph.perform operation).1.Indexed := by
  obtain ⟨err, hnext⟩ | ⟨edge, -, hfresh, hnext⟩ |
    ⟨target, revoker, role, revokedAt, revocationDigest, reason, sequence, ref, -, hlookup, -, -,
      hnext⟩ |
    ⟨sequence, -, hnext⟩ := perform_cases graph operation
  · rw [hnext]
    exact h
  · rw [hnext]
    exact h.insertEdge hfresh
  · rw [hnext]
    apply h.markRevoked (h.getElem?_of_lookup hlookup)
    · rfl
    · rfl
    · rfl
    · rfl
  · rw [hnext]
    exact h.setLastSequence sequence

/-- **The maps of every graph agree with its edges.** -/
theorem Built.indexed (h : graph.Built) : graph.Indexed := by
  obtain ⟨ledgerID, hreaches⟩ := h
  apply hreaches.invariant
  · exact indexed_newGraph ledgerID
  · intro state operation next _ hstate _ hnext
    cases hnext
    exact hstate.perform operation

/-! ### What the readers return -/

theorem Indexed.edgeByDigest_iff (h : graph.Indexed) :
    graph.edgeByDigest digest = some edge ↔ edge ∈ graph.heap ∧ edge.recordDigest = digest := by
  rw [edgeByDigest_eq_some]
  constructor
  · rintro ⟨ref, hlookup, rfl⟩
    have hcell := h.getElem?_of_lookup hlookup
    have hdigest := (h.digests digest ref).mp hlookup
    rw [hcell] at hdigest
    exact ⟨List.mem_of_getElem? hcell, Option.some.inj hdigest⟩
  · rintro ⟨hmem, hdigest⟩
    obtain ⟨ref, hcell⟩ := List.mem_iff_getElem?.mp hmem
    refine ⟨ref, (h.digests digest ref).mpr (by rw [hcell, Option.map_some, hdigest]), ?_⟩
    rw [deref, List.getD_eq_getElem?_getD, hcell, Option.getD_some]

/-- An edge is determined by its record digest. -/
theorem Indexed.eq_of_digest (h : graph.Indexed) {other : AttestationEdge}
    (hedge : edge ∈ graph.heap) (hother : other ∈ graph.heap)
    (hdigest : edge.recordDigest = other.recordDigest) : edge = other := by
  have hfirst := h.edgeByDigest_iff.mpr ⟨hedge, rfl⟩
  have hsecond := h.edgeByDigest_iff.mpr ⟨hother, rfl⟩
  rw [hdigest, hsecond] at hfirst
  exact (Option.some.inj hfirst).symm

/-- Edges of the graph can be looked up again. -/
theorem Indexed.filterMap_edgeByDigest (h : graph.Indexed) {path : List AttestationEdge}
    (hpath : ∀ edge ∈ path, edge ∈ graph.heap) :
    (path.map (·.recordDigest)).filterMap graph.edgeByDigest = path := by
  induction path with
  | nil => rfl
  | cons edge path ih =>
    obtain ⟨hedge, hrest⟩ := List.forall_mem_cons.mp hpath
    rw [List.map_cons, List.filterMap_cons, h.edgeByDigest_iff.mpr ⟨hedge, rfl⟩, ih hrest]

theorem Indexed.nodup_digests (h : graph.Indexed) :
    (graph.heap.map (·.recordDigest)).Nodup := by
  rw [List.nodup_iff_getElem?_ne_getElem?]
  intro i j hlt hj hequal
  have hlast := List.getElem?_eq_getElem hj
  rw [hlast, List.getElem?_map] at hequal
  rw [List.getElem?_map] at hlast
  have hfirst := (h.digests _ i).mpr hequal
  rw [(h.digests _ j).mpr hlast] at hfirst
  cases hfirst
  exact Nat.lt_irrefl _ hlt

theorem Indexed.nodup_heap (h : graph.Indexed) : graph.heap.Nodup := h.nodup_digests.of_map

/-- `OutEdges` returns the edges of a proposer in the order they were added. -/
theorem Indexed.outEdgesOf_eq (h : graph.Indexed) (proposer : IdentityKey) (topic : Bytes)
    (activeOnly : Bool) :
    graph.outEdgesOf proposer topic activeOnly =
      (graph.heap.filter fun edge => edge.proposer = proposer).filter fun edge =>
        !(activeOnly && !edge.isActive) && !(topic ≠ [] && edge.topic ≠ topic) := by
  rw [outEdgesOf, selectEdges, h.outEdges proposer]
  exact congrArg _ (map_positions AttestationEdge.proposer graph.heap .zero proposer)

/-! ### What an operation does to the active edges -/

/-- An added edge comes on top of the others. -/
theorem heap_addEdge (graph : Graph) (edge : AttestationEdge) :
    (graph.addEdge edge).1.heap = graph.heap ∨
      (graph.addEdge edge).1.heap = graph.heap ++ [edge] := by
  rcases hresult : graph.addEdge edge with ⟨next, _ | err⟩
  · obtain ⟨-, rfl⟩ := addEdge_eq_ok.mp hresult
    exact .inr rfl
  · exact .inl (congrArg heap (addEdge_eq_error hresult))

variable {target : Digest} {revoker : IdentityKey} {role : RevokerRole} {revokedAt : UInt64}
  {revocationDigest : Digest} {reason : Bytes} {sequence : UInt64}

/-- A revocation replaces an edge by an inactive one. -/
theorem heap_revokeEdge :
    (graph.revokeEdge target revoker role revokedAt revocationDigest reason sequence).1.heap =
        graph.heap ∨
      ∃ ref revoked, revoked.isActive = false ∧
        (graph.revokeEdge target revoker role revokedAt revocationDigest reason sequence).1.heap =
          graph.heap.set ref revoked := by
  rcases hresult : graph.revokeEdge target revoker role revokedAt revocationDigest reason sequence
    with ⟨next, _ | err⟩
  · obtain ⟨ref, -, -, -, rfl⟩ := revokeEdge_eq_ok.mp hresult
    exact .inr ⟨ref, _, rfl, rfl⟩
  · exact .inl (congrArg heap (revokeEdge_eq_error hresult))

theorem length_heap_revokeEdge :
    (graph.revokeEdge target revoker role revokedAt revocationDigest reason
      sequence).1.heap.length = graph.heap.length := by
  rcases heap_revokeEdge with hheap | ⟨ref, revoked, -, hheap⟩
  · rw [hheap]
  · rw [hheap, List.length_set]

theorem mem_heap_of_mem_revokeEdge
    (hedge : edge ∈ (graph.revokeEdge target revoker role revokedAt revocationDigest reason
      sequence).1.heap) (hactive : edge.isActive = true) : edge ∈ graph.heap := by
  rcases heap_revokeEdge with hheap | ⟨ref, revoked, hinactive, hheap⟩
  · rwa [hheap] at hedge
  · rw [hheap] at hedge
    rcases List.mem_or_eq_of_mem_set hedge with hold | rfl
    · exact hold
    · rw [hinactive] at hactive
      cases hactive

end Graph

end AttributionChain

import AttributionChain.QualifyingPaths

/-!
# Provenance of a result

A result lists the records it rests on and the subgraph they form.  `Contributes` are the
edges on a qualifying path.  The records, the edges and the nodes of the subgraph are those
of the contributing edges and nothing else, and they are enough: on any graph with only
these edges the same evaluation finds the same paths in the same order
(`provenance_exact`).
-/

namespace AttributionChain.Evaluator

open SimplePaths

variable {graph sub : Graph} {policy normal : EvaluationPolicy} {target : IdentityKey}
  {findings : Findings} {edge : AttestationEdge} {digest : Digest} {node : IdentityKey}
  {fuel subFuel : Nat}

/-- An edge on a qualifying path. -/
def Contributes (graph : Graph) (policy : EvaluationPolicy) (target : IdentityKey)
    (edge : AttestationEdge) : Prop :=
  ∃ root path, Qualifies graph policy target root path ∧ edge ∈ path

theorem Contributes.mem_heap (h : Contributes graph policy target edge) : edge ∈ graph.heap := by
  obtain ⟨root, path, hpath, hedge⟩ := h
  exact (hpath.edges edge hedge).1

theorem Qualifies.exists_first {root : IdentityKey} {path : List AttestationEdge}
    (h : Qualifies graph policy target root path) : ∃ edge ∈ path, edge.proposer = root := by
  obtain ⟨edge, hedge, hproposer⟩ := Option.map_eq_some_iff.mp h.starts
  exact ⟨edge, List.mem_of_head? hedge, hproposer⟩

theorem Qualifies.exists_last {root : IdentityKey} {path : List AttestationEdge}
    (h : Qualifies graph policy target root path) : ∃ edge ∈ path, edge.subject = target := by
  obtain ⟨edge, hedge, hsubject⟩ := Option.map_eq_some_iff.mp h.ends
  exact ⟨edge, List.mem_of_getLast? hedge, hsubject⟩

/-! ### The accumulators -/

section Accumulators

variable (hgraph : graph.Indexed) (hvalid : policy.Valid) (hfuel : graph.heap.length < fuel)
  (hreports : Reports graph target (target ∈ policy.trustRoots)
    ((rootedPaths graph policy target fuel).map (traceOfPair policy)) findings)

include hgraph hvalid hfuel in
theorem mem_traces {trace : PathTrace} :
    trace ∈ (rootedPaths graph policy target fuel).map (traceOfPair policy) ↔
      ∃ root path, Qualifies graph policy target root path ∧
        traceOf policy root (policy.weightOf root) path = trace := by
  rw [map_traceOfPair, List.mem_map]
  constructor
  · rintro ⟨⟨root, path⟩, hpair, htrace⟩
    exact ⟨root, path, (mem_keyedPaths hgraph hvalid hfuel).mp hpair, htrace⟩
  · rintro ⟨root, path, hpath, htrace⟩
    exact ⟨(root, path), (mem_keyedPaths hgraph hvalid hfuel).mpr hpath, htrace⟩

include hgraph hvalid hfuel hreports

theorem mem_contributingDigests :
    digest ∈ findings.contributingDigests ↔
      ∃ edge, Contributes graph policy target edge ∧ edge.recordDigest = digest := by
  rw [hreports.digests, List.mem_flatMap]
  constructor
  · rintro ⟨trace, htrace, hdigest⟩
    obtain ⟨root, path, hpath, rfl⟩ := (mem_traces hgraph hvalid hfuel).mp htrace
    rw [map_recordDigest_traceOf] at hdigest
    obtain ⟨edge, hedge, rfl⟩ := List.mem_map.mp hdigest
    exact ⟨edge, ⟨root, path, hpath, hedge⟩, rfl⟩
  · rintro ⟨edge, ⟨root, path, hpath, hedge⟩, rfl⟩
    refine ⟨_, (mem_traces hgraph hvalid hfuel).mpr ⟨root, path, hpath, rfl⟩, ?_⟩
    rw [map_recordDigest_traceOf]
    exact List.mem_map_of_mem hedge

theorem mem_subgraphNodeSet :
    node ∈ findings.subgraphNodeSet ↔
      (∃ edge, Contributes graph policy target edge ∧
        (node = edge.proposer ∨ node = edge.subject)) ∨
      node = target ∧ target ∈ policy.trustRoots := by
  rw [hreports.nodes]
  constructor
  · rintro (⟨hroot, hnode⟩ | ⟨trace, htrace, hnode⟩)
    · exact .inr ⟨hnode, hroot⟩
    · obtain ⟨root, path, hpath, rfl⟩ := (mem_traces hgraph hvalid hfuel).mp htrace
      left
      rcases hnode with hnode | hnode | ⟨hop, hhop, hnode⟩
      · obtain ⟨edge, hedge, hproposer⟩ := hpath.exists_first
        exact ⟨edge, ⟨root, path, hpath, hedge⟩, .inl (hnode.trans hproposer.symm)⟩
      · obtain ⟨edge, hedge, hsubject⟩ := hpath.exists_last
        exact ⟨edge, ⟨root, path, hpath, hedge⟩, .inr (hnode.trans hsubject.symm)⟩
      · obtain ⟨edge, hedge, rfl⟩ := List.mem_map.mp hhop
        exact ⟨edge, ⟨root, path, hpath, hedge⟩, hnode⟩
  · rintro (⟨edge, ⟨root, path, hpath, hedge⟩, hnode⟩ | ⟨hnode, hroot⟩)
    · right
      refine ⟨_, (mem_traces hgraph hvalid hfuel).mpr ⟨root, path, hpath, rfl⟩, .inr (.inr ?_)⟩
      exact ⟨hopOf edge.proposer edge, List.mem_map_of_mem hedge, hnode⟩
    · exact .inl ⟨hroot, hnode⟩

theorem lookup_subgraphEdgeSet :
    findings.subgraphEdgeSet.lookup digest = some edge ↔
      Contributes graph policy target edge ∧ edge.recordDigest = digest := by
  rw [hreports.edges, mem_contributingDigests hgraph hvalid hfuel hreports, hgraph.edgeByDigest_iff]
  constructor
  · rintro ⟨⟨other, hother, hdigest⟩, hedge, hsame⟩
    obtain rfl := hgraph.eq_of_digest hedge hother.mem_heap (hsame.trans hdigest.symm)
    exact ⟨hother, hsame⟩
  · rintro ⟨hedge, hdigest⟩
    exact ⟨⟨edge, hedge, hdigest⟩, hedge.mem_heap, hdigest⟩

theorem mem_subgraphEdges :
    edge ∈ findings.subgraphEdgeSet.entries.map Sigma.snd ↔
      Contributes graph policy target edge := by
  rw [List.mem_map]
  constructor
  · rintro ⟨⟨digest, found⟩, hentry, rfl⟩
    exact ((lookup_subgraphEdgeSet hgraph hvalid hfuel hreports).mp
      (AList.mem_lookup_iff.mpr hentry)).1
  · intro h
    have hlookup := (lookup_subgraphEdgeSet hgraph hvalid hfuel hreports).mpr ⟨h, rfl⟩
    exact ⟨⟨edge.recordDigest, edge⟩, AList.mem_lookup_iff.mp hlookup, rfl⟩

/-- The edge map is keyed by the digests of its edges, so it holds each edge once. -/
theorem nodup_subgraphEdges : (findings.subgraphEdgeSet.entries.map Sigma.snd).Nodup := by
  have hkeys : (findings.subgraphEdgeSet.entries.map Sigma.snd).map (·.recordDigest) =
      findings.subgraphEdgeSet.entries.map Sigma.fst := by
    rw [List.map_map]
    apply List.map_congr_left
    rintro ⟨digest, found⟩ hentry
    exact ((lookup_subgraphEdgeSet hgraph hvalid hfuel hreports).mp
      (AList.mem_lookup_iff.mpr hentry)).2
  apply List.Nodup.of_map
  rw [hkeys]
  exact findings.subgraphEdgeSet.keys_nodup

end Accumulators

/-! ### Ordering by sequence number -/

section Sequences

variable (hdistinct : (graph.heap.map (·.sequence)).Nodup)

include hdistinct

/-- Edges of the graph have distinct sequence numbers, however they are listed. -/
theorem nodup_sequences {edges : List AttestationEdge} (hnodup : edges.Nodup)
    (hedges : ∀ edge ∈ edges, edge ∈ graph.heap) :
    (edges.map fun edge => edge.sequence.toNat).Nodup := by
  apply hnodup.map_on
  intro left hleft right hright hsame
  exact List.inj_on_of_nodup_map hdistinct (hedges left hleft) (hedges right hright)
    (UInt64.toNat_inj.mp hsame)

theorem nodup_outSequences (hgraph : graph.Indexed) (current : IdentityKey) :
    ((graph.outEdgesOf current policy.topic true).map fun edge => edge.sequence.toNat).Nodup := by
  apply nodup_sequences hdistinct (nodup_outEdgesOf hgraph _ _ _)
  intro edge hedge
  exact ((mem_outEdgesOf hgraph).mp hedge).1

theorem nodup_subgraphSequences (hgraph : graph.Indexed) (hvalid : policy.Valid)
    (hfuel : graph.heap.length < fuel)
    (hreports : Reports graph target (target ∈ policy.trustRoots)
      ((rootedPaths graph policy target fuel).map (traceOfPair policy)) findings) :
    ((findings.subgraphEdgeSet.entries.map Sigma.snd).map fun edge =>
      edge.sequence.toNat).Nodup := by
  apply nodup_sequences hdistinct (nodup_subgraphEdges hgraph hvalid hfuel hreports)
  intro edge hedge
  exact ((mem_subgraphEdges hgraph hvalid hfuel hreports).mp hedge).mem_heap

/-- A subgraph offers a selection of the edges of the graph, in the same order. -/
theorem sortedOutEdges_sub (hgraph : graph.Indexed) (hsub : sub.Indexed)
    (hedges : ∀ edge ∈ sub.heap, edge ∈ graph.heap) (current : IdentityKey) :
    sortedOutEdges sub policy current =
      (sortedOutEdges graph policy current).filter fun edge => edge ∈ sub.heap := by
  have hsorted : (sortedOutEdges graph policy current).Pairwise fun left right =>
      left.sequence.toNat < right.sequence.toNat :=
    sortBy_strict (nodup_outSequences hdistinct hgraph current)
  apply sortBy_eq_of_perm
  · rw [List.perm_ext_iff_of_nodup (nodup_outEdgesOf hsub _ _ _)
      ((nodup_sortedOutEdges hgraph policy current).filter _)]
    intro edge
    rw [mem_outEdgesOf hsub, List.mem_filter, mem_sortedOutEdges hgraph, decide_eq_true_eq]
    constructor
    · rintro ⟨hmem, hrest⟩
      exact ⟨⟨hedges edge hmem, hrest⟩, hmem⟩
    · rintro ⟨⟨-, hrest⟩, hmem⟩
      exact ⟨hmem, hrest⟩
  · exact hsorted.filter _

/-- On a graph with only the contributing edges the searches find the same. -/
theorem rootPaths_sub (hgraph : graph.Indexed) (hsub : sub.Indexed) (hvalid : policy.Valid)
    (hedges : ∀ edge, edge ∈ sub.heap ↔ Contributes graph policy target edge)
    (hfuel : graph.heap.length < fuel) (hsubFuel : sub.heap.length < subFuel) {entry : TrustRoot}
    (hentry : policy.trustRoots.lookup entry.1 = some entry.2) :
    rootPaths sub policy target subFuel entry = rootPaths graph policy target fuel entry := by
  have hinside : ∀ edge ∈ sub.heap, edge ∈ graph.heap := by
    intro edge hedge
    exact ((hedges edge).mp hedge).mem_heap
  have hout : sortedOutEdges sub policy = fun current =>
      (sortedOutEdges graph policy current).filter fun edge => edge ∈ sub.heap :=
    funext (sortedOutEdges_sub hdistinct hgraph hsub hinside)
  rw [← rootPaths_of_le hsub hsubFuel (le_max_right fuel subFuel),
    ← rootPaths_of_le hgraph hfuel (le_max_left fuel subFuel)]
  have hkept : ∀ path ∈ rootPaths graph policy target (max fuel subFuel) entry,
      ∀ edge ∈ path, decide (edge ∈ sub.heap) = true := by
    intro path hpath edge hedge
    have hmax := Nat.lt_of_lt_of_le hfuel (le_max_left fuel subFuel)
    have hqualifies := (mem_rootPaths_iff hgraph hvalid hmax hentry).mp hpath
    rw [decide_eq_true_eq, hedges]
    exact ⟨entry.1, path, hqualifies, hedge⟩
  unfold rootPaths at hkept ⊢
  by_cases hdirect : entry.1 = target
  · rw [if_pos hdirect, if_pos hdirect]
  · rw [if_neg hdirect] at hkept
    rw [if_neg hdirect, if_neg hdirect, pathsFrom, hout]
    exact enumerate_filter hkept

theorem rootedPaths_sub (hgraph : graph.Indexed) (hsub : sub.Indexed) (hvalid : policy.Valid)
    (hedges : ∀ edge, edge ∈ sub.heap ↔ Contributes graph policy target edge)
    (hfuel : graph.heap.length < fuel) (hsubFuel : sub.heap.length < subFuel) :
    rootedPaths sub policy target subFuel = rootedPaths graph policy target fuel := by
  unfold rootedPaths
  apply List.flatMap_congr
  intro entry hentry
  rw [rootPaths_sub hdistinct hgraph hsub hvalid hedges hfuel hsubFuel (mem_sortedRoots.mp hentry)]

end Sequences

/-- **The reported provenance is exact and sufficient.** -/
theorem provenance_exact (hgraph : graph.Built) (hdistinct : (graph.heap.map (·.sequence)).Nodup)
    (hvalid : policy.validate = .ok normal) (target : IdentityKey)
    (hfuel : graph.heap.length < fuel) :
    ∃ result, evaluate graph fuel policy target = some (.ok result) ∧
      result.contributingRecords.Pairwise (fun left right => left.bytes < right.bytes) ∧
      (∀ digest, digest ∈ result.contributingRecords ↔
        ∃ trace ∈ result.contributingPaths, ∃ hop ∈ trace.hops, hop.recordDigest = digest) ∧
      result.provenanceSubgraph.edges.Pairwise (fun left right => left.sequence < right.sequence) ∧
      (∀ edge, edge ∈ result.provenanceSubgraph.edges ↔
        edge ∈ graph.heap ∧ edge.recordDigest ∈ result.contributingRecords) ∧
      result.provenanceSubgraph.nodes.Nodup ∧
      (∀ node, node ∈ result.provenanceSubgraph.nodes ↔
        (∃ edge ∈ result.provenanceSubgraph.edges, node = edge.proposer ∨ node = edge.subject) ∨
          node = target ∧ target ∈ policy.trustRoots) ∧
      ∀ sub : Graph, sub.Built →
        (∀ edge, edge ∈ sub.heap ↔ edge ∈ result.provenanceSubgraph.edges) →
        ∀ subFuel, sub.heap.length < subFuel →
          ∃ again, evaluate sub subFuel policy target = some (.ok again) ∧
            again.contributingPaths = result.contributingPaths ∧
            again.confidenceScore = result.confidenceScore := by
  have hindexed := hgraph.indexed
  have hnormal := EvaluationPolicy.valid_of_validate hvalid
  obtain ⟨findings, hresult, hreports⟩ := evaluate_eq hindexed hvalid target hfuel
  have hroots : normal.trustRoots = policy.trustRoots := by
    obtain ⟨-, rfl⟩ := EvaluationPolicy.validate_eq_ok.mp hvalid
    rfl
  have hrecords : ∀ digest, digest ∈ (assemble graph normal target findings).contributingRecords ↔
      ∃ edge, Contributes graph normal target edge ∧ edge.recordDigest = digest := by
    intro digest
    exact mem_deduplicateDigests.trans (mem_contributingDigests hindexed hnormal hfuel hreports)
  have hedges : ∀ edge, edge ∈ (assemble graph normal target findings).provenanceSubgraph.edges ↔
      Contributes graph normal target edge := by
    intro edge
    exact (mem_sortBy _).trans (mem_subgraphEdges hindexed hnormal hfuel hreports)
  refine ⟨_, hresult, deduplicateDigests_strict _, ?_, ?_, ?_, ?_, ?_, ?_⟩
  · intro digest
    simp only [assemble, assembleIn, mem_deduplicateDigests, hreports.digests, hreports.paths,
      List.mem_flatMap, List.mem_map]
  · have hstrict := sortBy_strict
      (nodup_subgraphSequences hdistinct hindexed hnormal hfuel hreports)
    exact hstrict.imp UInt64.lt_iff_toNat_lt.mpr
  · intro edge
    rw [hedges, hrecords]
    constructor
    · intro h
      exact ⟨h.mem_heap, edge, h, rfl⟩
    · rintro ⟨hmem, other, hother, hdigest⟩
      rwa [hindexed.eq_of_digest hmem hother.mem_heap hdigest.symm]
  · exact (sortBy_perm _ _).nodup_iff.mpr findings.subgraphNodeSet.keys_nodup
  · intro node
    simp only [hedges]
    rw [← hroots, ← mem_subgraphNodeSet hindexed hnormal hfuel hreports]
    exact mem_sortBy _
  · intro sub hsub hsame subFuel hsubFuel
    obtain ⟨again, hagain, hreportsAgain⟩ := evaluate_eq hsub.indexed hvalid target hsubFuel
    have hsubEdges : ∀ edge, edge ∈ sub.heap ↔ Contributes graph normal target edge := by
      intro edge
      rw [hsame, hedges]
    have hpaths : again.allPaths = findings.allPaths := by
      rw [hreportsAgain.paths, hreports.paths, rootedPaths_sub hdistinct hindexed hsub.indexed
        hnormal hsubEdges hfuel hsubFuel]
    refine ⟨_, hagain, hpaths, ?_⟩
    simp only [assemble, assembleIn, hpaths]

/-- The sample without the edge that closes the cycle. -/
def sampleSubgraph : Graph :=
  [.addEdge (sampleEdge 2 1 2), .addEdge (sampleEdge 3 2 3), .addEdge (sampleEdge 5 1 3)].foldl
    (fun graph operation => (graph.perform operation).1) (Graph.newGraph (FixedBytes.zero 32))

theorem built_sampleSubgraph : sampleSubgraph.Built :=
  ((Graph.built_newGraph _).perform _).perform _ |>.perform _

theorem sampleGraph_subgraph : (evaluate sampleGraph 5 samplePolicy (sampleKey 3)).any
    (fun outcome => outcome.toOption.any fun result =>
      result.provenanceSubgraph.edges = sampleSubgraph.heap) = true := by decide +kernel

theorem sampleGraph_provenance :
    ∃ result again, evaluate sampleGraph 5 samplePolicy (sampleKey 3) = some (.ok result) ∧
      evaluate sampleSubgraph 4 samplePolicy (sampleKey 3) = some (.ok again) ∧
      again.contributingPaths = result.contributingPaths ∧
      again.confidenceScore = result.confidenceScore := by
  obtain ⟨result, hresult, -, -, -, -, -, -, hsufficient⟩ :=
    provenance_exact built_sampleGraph (by decide) validate_samplePolicy (sampleKey 3)
      (by decide : sampleGraph.heap.length < 5)
  have hedges : result.provenanceSubgraph.edges = sampleSubgraph.heap := by
    have hcomputed := sampleGraph_subgraph
    rw [hresult] at hcomputed
    simpa [Except.toOption] using hcomputed
  obtain ⟨again, hagain, hsame⟩ := hsufficient sampleSubgraph built_sampleSubgraph
    (fun edge => by rw [hedges]) 4 (by decide)
  exact ⟨result, again, hresult, hagain, hsame⟩

end AttributionChain.Evaluator

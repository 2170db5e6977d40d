import AttributionChain.Provenance

/-!
# Evaluation is reproducible

`Evaluate` iterates over three Go maps, whose order is random, and walks edge lists in
the order they were added.  Every listing is sorted before it is used, by keys that are
distinct: identity keys have distinct hexadecimal strings (`hexValue_injective`), and the
edges have distinct sequence numbers by assumption.

What remains is the set of active edges that match the topic.  `evaluate_reproducible`
compares two graphs that agree on it, whatever else they contain.
-/

namespace AttributionChain

theorem IdentityKey.hexValue_injective : Function.Injective IdentityKey.hexValue := by
  intro left right h
  have hlength : (IdentityKey.hex left).length = (IdentityKey.hex right).length := by
    rw [IdentityKey.hex, IdentityKey.hex, length_hexEncode, length_hexEncode, left.length_eq,
      right.length_eq]
  exact FixedBytes.ext (hexEncode_injective (beValue_injective hlength h))

/-- Iterations that list the entries of a map backwards. -/
def Shuffle.backwards (α : Type) : Shuffle α := ⟨List.reverse, List.reverse_perm⟩

namespace Evaluator

open SimplePaths

variable {graph other : Graph} {policy normal : EvaluationPolicy} {target : IdentityKey}
  {findings : Findings} {fuel otherFuel : Nat}

/-! ### Map iterations -/

theorem sortedRootsIn_eq (order : Shuffle TrustRoot) (policy : EvaluationPolicy) :
    sortedRootsIn order policy = sortedRoots policy := by
  apply sortBy_congr (order.perm _)
  have hkeys : (policy.trustRoots.entries.map Sigma.fst).Nodup := policy.trustRoots.keys_nodup
  rw [← Function.comp_def, ← List.map_map]
  exact hkeys.map IdentityKey.hexValue_injective

/-- With distinct sequence numbers the orders of the iterations do not show. -/
theorem assembleIn_eq (hgraph : graph.Indexed) (hdistinct : (graph.heap.map (·.sequence)).Nodup)
    (hvalid : policy.Valid) (hfuel : graph.heap.length < fuel)
    (hreports : Reports graph target (target ∈ policy.trustRoots)
      ((rootedPaths graph policy target fuel).map (traceOfPair policy)) findings)
    (orders : Orders) :
    assembleIn orders graph policy target findings = assemble graph policy target findings := by
  have hnodes : sortBy IdentityKey.hexValue
      (orders.nodes.list (findings.subgraphNodeSet.entries.map Sigma.fst)) =
        sortBy IdentityKey.hexValue (findings.subgraphNodeSet.entries.map Sigma.fst) := by
    apply sortBy_congr (orders.nodes.perm _)
    exact List.Nodup.map IdentityKey.hexValue_injective findings.subgraphNodeSet.keys_nodup
  have hedges : sortBy (fun edge : AttestationEdge => edge.sequence.toNat)
      (orders.edges.list (findings.subgraphEdgeSet.entries.map Sigma.snd)) =
        sortBy (fun edge => edge.sequence.toNat)
          (findings.subgraphEdgeSet.entries.map Sigma.snd) := by
    apply sortBy_congr (orders.edges.perm _)
    exact nodup_subgraphSequences hdistinct hgraph hvalid hfuel hreports
  rw [assembleIn, hnodes, hedges]
  rfl

/-- **The map iterations do not show in the result.** -/
theorem evaluateIn_eq (hgraph : graph.Indexed) (hdistinct : (graph.heap.map (·.sequence)).Nodup)
    (hvalid : policy.validate = .ok normal) (target : IdentityKey)
    (hfuel : graph.heap.length < fuel) (orders : Orders) :
    evaluateIn orders graph fuel policy target = evaluate graph fuel policy target := by
  obtain ⟨findings, hfindings, hreports⟩ := search_eq hgraph normal target hfuel
  have hassemble := assembleIn_eq hgraph hdistinct (EvaluationPolicy.valid_of_validate hvalid) hfuel
    hreports orders
  have hordered : policy.validateIn orders.weights = .ok normal :=
    EvaluationPolicy.validateIn_eq_ok.mpr (EvaluationPolicy.validate_eq_ok.mp hvalid)
  simp only [evaluate_of_ok graph fuel target hvalid, evaluateIn, hordered, sortedRootsIn_eq,
    hfindings, Option.map_some, hassemble]

/-- A policy that is refused is refused in every order. -/
theorem evaluateIn_error (hinvalid : ¬ policy.Valid) (orders : Orders) (graph : Graph) (fuel : Nat)
    (target : IdentityKey) :
    ∃ err, evaluateIn orders graph fuel policy target = some (.error err) := by
  rcases hvalidate : policy.validateIn orders.weights with err | normal
  · exact ⟨.invalidPolicy err, by simp only [evaluateIn, hvalidate]⟩
  · exact absurd (EvaluationPolicy.validateIn_eq_ok.mp hvalidate).1 hinvalid

/-! ### Graphs with the same relevant edges -/

section SameEdges

variable (hsame : ∀ edge, edge ∈ graph.heap ∧ Relevant policy edge ↔
  edge ∈ other.heap ∧ Relevant policy edge)

include hsame

theorem qualifies_congr {root : IdentityKey} {path : List AttestationEdge} :
    Qualifies graph policy target root path ↔ Qualifies other policy target root path := by
  constructor
  · intro h
    exact { h with edges := fun edge hedge => (hsame edge).mp (h.edges edge hedge) }
  · intro h
    exact { h with edges := fun edge hedge => (hsame edge).mpr (h.edges edge hedge) }

theorem contributes_congr {edge : AttestationEdge} :
    Contributes graph policy target edge ↔ Contributes other policy target edge := by
  simp only [Contributes, qualifies_congr hsame]

theorem sortedOutEdges_congr (hgraph : graph.Indexed) (hother : other.Indexed)
    (hdistinct : (other.heap.map (·.sequence)).Nodup) :
    sortedOutEdges graph policy = sortedOutEdges other policy := by
  funext current
  apply sortBy_congr
  · rw [List.perm_ext_iff_of_nodup (nodup_outEdgesOf hgraph _ _ _) (nodup_outEdgesOf hother _ _ _)]
    intro edge
    rw [mem_outEdgesOf hgraph, mem_outEdgesOf hother]
    have hedge := hsame edge
    tauto
  · exact nodup_outSequences hdistinct hother current

theorem rootedPaths_congr (hgraph : graph.Indexed) (hother : other.Indexed)
    (hdistinct : (other.heap.map (·.sequence)).Nodup) (hfuel : graph.heap.length < fuel)
    (hotherFuel : other.heap.length < otherFuel) :
    rootedPaths graph policy target fuel = rootedPaths other policy target otherFuel := by
  unfold rootedPaths
  apply List.flatMap_congr
  intro root _
  rw [← rootPaths_of_le hgraph hfuel (le_max_left fuel otherFuel),
    ← rootPaths_of_le hother hotherFuel (le_max_right fuel otherFuel), rootPaths, rootPaths,
    pathsFrom, pathsFrom, sortedOutEdges_congr hsame hgraph hother hdistinct]

variable {others : Findings}

theorem assemble_congr (hgraph : graph.Indexed) (hother : other.Indexed)
    (hdistinct : (other.heap.map (·.sequence)).Nodup) (hvalid : policy.Valid)
    (hfuel : graph.heap.length < fuel) (hotherFuel : other.heap.length < otherFuel)
    (hreports : Reports graph target (target ∈ policy.trustRoots)
      ((rootedPaths graph policy target fuel).map (traceOfPair policy)) findings)
    (hothers : Reports other target (target ∈ policy.trustRoots)
      ((rootedPaths other policy target otherFuel).map (traceOfPair policy)) others) :
    assemble other policy target others =
      { assemble graph policy target findings with evaluatedAtSequence := other.lastSequence } := by
  have hpaths : others.allPaths = findings.allPaths := by
    rw [hothers.paths, hreports.paths,
      rootedPaths_congr hsame hgraph hother hdistinct hfuel hotherFuel]
  have hdigests : others.contributingDigests = findings.contributingDigests := by
    rw [hothers.digests, hreports.digests,
      rootedPaths_congr hsame hgraph hother hdistinct hfuel hotherFuel]
  have hnodes : sortBy IdentityKey.hexValue (others.subgraphNodeSet.entries.map Sigma.fst) =
      sortBy IdentityKey.hexValue (findings.subgraphNodeSet.entries.map Sigma.fst) := by
    apply sortBy_congr
    · apply (List.perm_ext_iff_of_nodup others.subgraphNodeSet.keys_nodup
        findings.subgraphNodeSet.keys_nodup).mpr
      intro node
      have hnode : node ∈ others.subgraphNodeSet ↔ node ∈ findings.subgraphNodeSet := by
        rw [mem_subgraphNodeSet hother hvalid hotherFuel hothers,
          mem_subgraphNodeSet hgraph hvalid hfuel hreports]
        simp only [contributes_congr hsame]
      exact hnode
    · exact List.Nodup.map IdentityKey.hexValue_injective findings.subgraphNodeSet.keys_nodup
  have hedges : sortBy (fun edge : AttestationEdge => edge.sequence.toNat)
      (findings.subgraphEdgeSet.entries.map Sigma.snd) =
        sortBy (fun edge => edge.sequence.toNat)
          (others.subgraphEdgeSet.entries.map Sigma.snd) := by
    apply sortBy_congr
    · rw [List.perm_ext_iff_of_nodup (nodup_subgraphEdges hgraph hvalid hfuel hreports)
        (nodup_subgraphEdges hother hvalid hotherFuel hothers)]
      intro edge
      rw [mem_subgraphEdges hgraph hvalid hfuel hreports,
        mem_subgraphEdges hother hvalid hotherFuel hothers, contributes_congr hsame]
    · exact nodup_subgraphSequences hdistinct hother hvalid hotherFuel hothers
  simp only [assemble, assembleIn, Orders.inOrder, Shuffle.inOrder, hpaths, hdigests, hnodes,
    hedges]

end SameEdges

/-- **Evaluation depends only on the relevant active edges.**  On two graphs that have
these in common, in whatever order they were added and whatever else was added or revoked,
and with the maps iterated in any orders, the results differ in `EvaluatedAtSequence` at
most. -/
theorem evaluate_reproducible (hgraph : graph.Built) (hother : other.Built)
    (hdistinct : (graph.heap.map (·.sequence)).Nodup)
    (hotherDistinct : (other.heap.map (·.sequence)).Nodup)
    (hsame : ∀ edge, edge ∈ graph.heap ∧ Relevant policy edge ↔
      edge ∈ other.heap ∧ Relevant policy edge)
    (target : IdentityKey) (orders otherOrders : Orders) (hfuel : graph.heap.length < fuel)
    (hotherFuel : other.heap.length < otherFuel) :
    (¬ policy.Valid ∧ ∃ err otherErr,
      evaluateIn orders graph fuel policy target = some (.error err) ∧
      evaluateIn otherOrders other otherFuel policy target = some (.error otherErr)) ∨
    (policy.Valid ∧ ∃ result,
      evaluateIn orders graph fuel policy target = some (.ok result) ∧
      evaluateIn otherOrders other otherFuel policy target =
        some (.ok { result with evaluatedAtSequence := other.lastSequence })) := by
  by_cases hpolicy : policy.Valid
  · right
    have hvalid := EvaluationPolicy.validate_eq_ok.mpr ⟨hpolicy, rfl⟩
    obtain ⟨findings, hresult, hreports⟩ := evaluate_eq hgraph.indexed hvalid target hfuel
    obtain ⟨others, hotherResult, hothers⟩ := evaluate_eq hother.indexed hvalid target hotherFuel
    -- the defaults that `Validate` fills in leave the topic alone
    have hnormal : ∀ edge, edge ∈ graph.heap ∧ Relevant policy.normalize edge ↔
        edge ∈ other.heap ∧ Relevant policy.normalize edge := hsame
    refine ⟨hpolicy, assemble graph policy.normalize target findings, ?_, ?_⟩
    · rw [evaluateIn_eq hgraph.indexed hdistinct hvalid target hfuel, hresult]
    · rw [evaluateIn_eq hother.indexed hotherDistinct hvalid target hotherFuel, hotherResult,
        assemble_congr hnormal hgraph.indexed hother.indexed hotherDistinct hpolicy.normalize hfuel
          hotherFuel hreports hothers]
  · left
    obtain ⟨err, herr⟩ := evaluateIn_error hpolicy orders graph fuel target
    obtain ⟨otherErr, hotherErr⟩ := evaluateIn_error hpolicy otherOrders other otherFuel target
    exact ⟨hpolicy, err, otherErr, herr, hotherErr⟩

/-- The edges of the sample in another order, with one more that its proposer revoked. -/
def sampleReordered : Graph :=
  [.addEdge (sampleEdge 5 1 3), .addEdge (sampleEdge 7 2 1), .addEdge (sampleEdge 4 3 1),
    .addEdge (sampleEdge 3 2 3),
    .revokeEdge (sampleEdge 7 2 1).recordDigest (sampleKey 2) Endorsement.revokerRoleProposer 0
      (FixedBytes.copyFrom 32 [8]) [] 8,
    .addEdge (sampleEdge 2 1 2)].foldl
    (fun graph operation => (graph.perform operation).1) (Graph.newGraph (FixedBytes.zero 32))

theorem built_sampleReordered : sampleReordered.Built :=
  ((((Graph.built_newGraph _).perform _).perform _).perform _).perform _ |>.perform _ |>.perform _

/-- The edges that count are the same four, by comparing the two lists. -/
theorem relevant_sampleReordered (edge : AttestationEdge) :
    edge ∈ sampleGraph.heap ∧ Relevant samplePolicy edge ↔
      edge ∈ sampleReordered.heap ∧ Relevant samplePolicy edge := by
  have hinto : ∀ edge ∈ sampleGraph.heap, edge ∈ sampleReordered.heap := by decide +kernel
  have hback : ∀ edge ∈ sampleReordered.heap, edge.isActive = true → edge ∈ sampleGraph.heap := by
    decide +kernel
  constructor
  · rintro ⟨hmem, hrelevant⟩
    exact ⟨hinto edge hmem, hrelevant⟩
  · rintro ⟨hmem, hrelevant⟩
    exact ⟨hback edge hmem hrelevant.1, hrelevant⟩

theorem sampleGraph_reproduced :
    ∃ result,
      evaluateIn ⟨.inOrder _, .inOrder _, .inOrder _, .inOrder _⟩ sampleGraph 5 samplePolicy
        (sampleKey 3) = some (.ok result) ∧
      evaluateIn ⟨.backwards _, .backwards _, .backwards _, .backwards _⟩ sampleReordered 6
        samplePolicy (sampleKey 3) =
          some (.ok { result with evaluatedAtSequence := sampleReordered.lastSequence }) := by
  rcases evaluate_reproducible built_sampleGraph built_sampleReordered (by decide +kernel)
      (by decide +kernel) relevant_sampleReordered (sampleKey 3)
      ⟨.inOrder _, .inOrder _, .inOrder _, .inOrder _⟩
      ⟨.backwards _, .backwards _, .backwards _, .backwards _⟩
      (by decide +kernel : sampleGraph.heap.length < 5)
      (by decide +kernel : sampleReordered.heap.length < 6) with ⟨hinvalid, -⟩ | ⟨-, hresult⟩
  · exact absurd (EvaluationPolicy.validate_eq_ok.mp validate_samplePolicy).1 hinvalid
  · exact hresult

end Evaluator

end AttributionChain

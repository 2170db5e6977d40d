import AttributionChain.Confidence
import AttributionChain.Reproducibility

/-!
# Who and what can change a score

Three results about the evaluator that hold for every graph, policy and target.

* `operation_local`: an operation on the graph changes a result only by the paths over
  the edge that it is about.
* `score_characterised`: what a score says about the paths behind it.
* `paths_cross`: a path to an identity outside a set that holds the trust roots goes
  over an edge that leaves the set, so that identities nobody in the set has endorsed
  have no score, whatever they say about each other.
-/

namespace AttributionChain

open Endorsement AttributionChain.Graph

/-! ### What an operation touches -/

/-- The edge that an operation is about. -/
def Graph.Operation.touched : Graph.Operation → Option Digest
  | .addEdge edge => some edge.recordDigest
  | .revokeEdge target _ _ _ _ _ _ => some target
  | .setLastSequence _ => none

namespace Graph

variable {graph : Graph} {edge : AttestationEdge} {operation : Operation}

/-- **Frame of an operation**: edges with another digest stay as they are. -/
theorem Indexed.mem_perform (h : graph.Indexed)
    (hother : some edge.recordDigest ≠ operation.touched) :
    edge ∈ (graph.perform operation).1.heap ↔ edge ∈ graph.heap := by
  rcases perform_cases graph operation with ⟨err, hresult⟩ | ⟨added, rfl, -, hresult⟩ |
    ⟨target, revoker, role, revokedAt, revocationDigest, reason, sequence, ref, rfl, hlookup, -, -,
      hresult⟩ | ⟨sequence, rfl, hresult⟩
  · rw [hresult]
  · rw [hresult]
    have hne : edge ≠ added := fun hsame => hother (congrArg (fun e => some e.recordDigest) hsame)
    simp [Graph.insertEdge, hne]
  · have hcell := h.getElem?_of_lookup hlookup
    have hdigest := (h.digests target ref).mp hlookup
    rw [hcell, Option.map_some] at hdigest
    rw [hresult]
    constructor
    · intro hmem
      rcases List.mem_or_eq_of_mem_set hmem with hold | rfl
      · exact hold
      · exact absurd hdigest hother
    · intro hmem
      obtain ⟨i, hi⟩ := List.mem_iff_getElem?.mp hmem
      have hne : ref ≠ i := by
        rintro rfl
        rw [hcell] at hi
        cases hi
        exact hother hdigest
      refine List.mem_iff_getElem?.mpr ⟨i, ?_⟩
      rw [Graph.markRevoked, List.getElem?_set_ne hne]
      exact hi
  · rw [hresult]
    rfl

theorem Indexed.ne_of_addEdge (h : graph.Indexed) {added : AttestationEdge}
    (hdone : (graph.addEdge added).2 = none) (hedge : edge ∈ graph.heap) :
    edge.recordDigest ≠ added.recordDigest := by
  intro hdigest
  obtain ⟨hfresh, -⟩ := addEdge_eq_ok.mp (Prod.ext rfl hdone)
  rw [h.edgeByDigest_iff.mpr ⟨hedge, hdigest⟩] at hfresh
  cases hfresh

theorem Indexed.inactive_of_revokeEdge (h : graph.Indexed) {target : Digest}
    {revoker : IdentityKey} {role : RevokerRole} {revokedAt : UInt64} {revocationDigest : Digest}
    {reason : Bytes} {sequence : UInt64}
    (hdone : (graph.revokeEdge target revoker role revokedAt revocationDigest reason
      sequence).2 = none)
    (hedge : edge ∈ (graph.revokeEdge target revoker role revokedAt revocationDigest reason
      sequence).1.heap) (hdigest : edge.recordDigest = target) : edge.isActive = false := by
  have hafter : (graph.revokeEdge target revoker role revokedAt revocationDigest reason
      sequence).1.Indexed :=
    h.perform (.revokeEdge target revoker role revokedAt revocationDigest reason sequence)
  rcases hresult : graph.revokeEdge target revoker role revokedAt revocationDigest reason sequence
    with ⟨next, failure⟩
  rw [hresult] at hdone hedge hafter
  obtain rfl : failure = none := hdone
  obtain ⟨ref, hlookup, -, -, rfl⟩ := revokeEdge_eq_ok.mp hresult
  have hcell := h.getElem?_of_lookup hlookup
  have hold := (h.digests target ref).mp hlookup
  rw [hcell] at hold
  have hrevoked : (graph.deref ref).revoke role revokedAt revocationDigest reason ∈
      (graph.markRevoked ref ((graph.deref ref).revoke role revokedAt revocationDigest reason)
        sequence).heap :=
    List.mem_set (List.getElem?_eq_some_iff.mp hcell).1 _
  rw [hafter.eq_of_digest hedge hrevoked (hdigest.trans (Option.some.inj hold).symm)]
  rfl

theorem sequences_of_perform (h : graph.Indexed)
    (hdistinct : ((graph.perform operation).1.heap.map (·.sequence)).Nodup) :
    (graph.heap.map (·.sequence)).Nodup := by
  rcases perform_cases graph operation with ⟨err, hresult⟩ | ⟨added, rfl, -, hresult⟩ |
    ⟨target, revoker, role, revokedAt, revocationDigest, reason, sequence, ref, rfl, hlookup, -, -,
      hresult⟩ | ⟨sequence, rfl, hresult⟩
  · rwa [hresult] at hdistinct
  · rw [hresult, Graph.insertEdge, List.map_append] at hdistinct
    exact hdistinct.of_append_left
  · have hsame : (graph.heap.set ref ((graph.deref ref).revoke role revokedAt revocationDigest
        reason)).map (·.sequence) = graph.heap.map (·.sequence) :=
      map_set_of_key_eq _ (h.getElem?_of_lookup hlookup) rfl
    rw [hresult] at hdistinct
    exact hsame ▸ hdistinct
  · rwa [hresult] at hdistinct

theorem length_heap_perform_le (graph : Graph) (operation : Operation) :
    (graph.perform operation).1.heap.length ≤ graph.heap.length + 1 := by
  rcases perform_cases graph operation with ⟨err, hresult⟩ | ⟨added, rfl, -, hresult⟩ |
    ⟨target, revoker, role, revokedAt, revocationDigest, reason, sequence, ref, rfl, -, -, -,
      hresult⟩ | ⟨sequence, rfl, hresult⟩
  · rw [hresult]
    exact Nat.le_succ _
  · rw [hresult]
    simp [Graph.insertEdge]
  · rw [hresult]
    simp [Graph.markRevoked]
  · rw [hresult]
    exact Nat.le_succ _

end Graph

namespace Evaluator

open SimplePaths NoisyOr

variable {graph other : Graph} {policy normal : EvaluationPolicy} {target root : IdentityKey}
  {path : List AttestationEdge} {fuel otherFuel : Nat}

/-! ### Paths over some of the edges -/

section Kept

variable {keep : AttestationEdge → Bool}
  (hkept : ∀ edge, keep edge = true → (edge ∈ graph.heap ∧ Relevant policy edge ↔
    edge ∈ other.heap ∧ Relevant policy edge))
  (hgraph : graph.Indexed) (hother : other.Indexed)
  (hdistinct : (graph.heap.map (·.sequence)).Nodup)
  (hotherDistinct : (other.heap.map (·.sequence)).Nodup)

include hkept hgraph hother hdistinct hotherDistinct

theorem filter_sortedOutEdges (current : IdentityKey) :
    (sortedOutEdges graph policy current).filter keep =
      (sortedOutEdges other policy current).filter keep := by
  have hsorted : ((sortedOutEdges graph policy current).filter keep).Pairwise fun left right =>
      left.sequence.toNat < right.sequence.toNat :=
    (sortBy_strict (nodup_outSequences hdistinct hgraph current)).filter _
  have hotherSorted : ((sortedOutEdges other policy current).filter keep).Pairwise
      fun left right => left.sequence.toNat < right.sequence.toNat :=
    (sortBy_strict (nodup_outSequences hotherDistinct hother current)).filter _
  have hperm : ((sortedOutEdges graph policy current).filter keep).Perm
      ((sortedOutEdges other policy current).filter keep) := by
    rw [List.perm_ext_iff_of_nodup ((nodup_sortedOutEdges hgraph policy current).filter _)
      ((nodup_sortedOutEdges hother policy current).filter _)]
    intro edge
    rw [List.mem_filter, List.mem_filter, mem_sortedOutEdges hgraph, mem_sortedOutEdges hother]
    have hedge := hkept edge
    tauto
  rw [← sortBy_eq_of_perm (.refl _) hsorted, sortBy_eq_of_perm hperm hotherSorted]

/-- **Graphs that share some edges have the same paths over these**, in the same order. -/
theorem filter_rootedPaths (target : IdentityKey) (hfuel : graph.heap.length < fuel)
    (hotherFuel : other.heap.length < otherFuel) :
    (rootedPaths graph policy target fuel).filter (fun pair => pair.2.all keep) =
      (rootedPaths other policy target otherFuel).filter fun pair => pair.2.all keep := by
  unfold rootedPaths
  rw [List.filter_flatMap, List.filter_flatMap]
  apply List.flatMap_congr
  intro entry _
  rw [List.filter_map, List.filter_map]
  congr 1
  change (rootPaths graph policy target fuel entry).filter (fun path => path.all keep) =
    (rootPaths other policy target otherFuel entry).filter fun path => path.all keep
  rw [← rootPaths_of_le hgraph hfuel (le_max_left fuel otherFuel),
    ← rootPaths_of_le hother hotherFuel (le_max_right fuel otherFuel), rootPaths, rootPaths]
  split
  · rfl
  · rw [pathsFrom, pathsFrom, ← enumerate_keep, ← enumerate_keep]
    congr 1
    funext current
    exact filter_sortedOutEdges hkept hgraph hother hdistinct hotherDistinct current

end Kept

/-! ### Operations -/

/-- The path does not go over the edge with the digest. -/
def avoids (digest : Option Digest) (trace : PathTrace) : Bool :=
  trace.hops.all fun hop => some hop.recordDigest ≠ digest

theorem avoids_traceOfPair (digest : Option Digest) (pair : TrustRoot × List AttestationEdge) :
    avoids digest (traceOfPair policy pair) =
      pair.2.all fun edge => some edge.recordDigest ≠ digest := by
  simp only [avoids, traceOfPair, traceOf, List.all_map]
  rfl

theorem unconfidence_eq (paths : List PathTrace) :
    unconfidence policy target paths =
      doubt (1 - policy.weightOf target) (paths.map (·.pathWeight)) := by
  rw [unconfidence, doubt, List.foldl_map]

/-- A list of paths splits into those over an edge and the others, and so does the doubt
that they leave. -/
theorem unconfidence_split (digest : Option Digest) (paths : List PathTrace) :
    unconfidence policy target paths =
      unconfidence policy target (paths.filter (avoids digest)) *
        ((paths.filter fun trace => !avoids digest trace).map fun trace =>
          1 - trace.pathWeight).prod := by
  rw [unconfidence_eq, unconfidence_eq]
  exact doubt_filter _ _ _ _

theorem avoids_of_forall (hgraph : graph.Indexed) (hvalid : policy.Valid)
    (hfuel : graph.heap.length < fuel) {digest : Option Digest}
    (h : ∀ edge ∈ graph.heap, Relevant policy edge → some edge.recordDigest ≠ digest) :
    ∀ trace ∈ (rootedPaths graph policy target fuel).map (traceOfPair policy),
      avoids digest trace = true := by
  intro trace htrace
  obtain ⟨root, path, hpath, rfl⟩ := (mem_traces hgraph hvalid hfuel).mp htrace
  simp only [avoids, traceOf, List.all_map, List.all_eq_true]
  intro edge hedge
  obtain ⟨hmem, hrelevant⟩ := hpath.edges edge hedge
  exact decide_eq_true (h edge hmem hrelevant)

/-- **An operation changes a result only by the paths over its edge.**  The paths that
avoid the edge are the same, in the same order; an admitted edge was on no path before,
and a revoked one is on none afterwards.  The doubts before and after differ by the
factors of the paths over the edge. -/
theorem operation_local (hgraph : graph.Built) (operation : Graph.Operation)
    (hdistinct : ((graph.perform operation).1.heap.map (·.sequence)).Nodup)
    (hvalid : policy.validate = .ok normal) (target : IdentityKey)
    (hfuel : graph.heap.length + 1 < fuel) :
    ∃ before after, evaluate graph fuel policy target = some (.ok before) ∧
      evaluate (graph.perform operation).1 fuel policy target = some (.ok after) ∧
      after.contributingPaths.filter (avoids operation.touched) =
        before.contributingPaths.filter (avoids operation.touched) ∧
      ((graph.perform operation).2 = none →
        (∀ edge, operation = .addEdge edge → ∀ trace ∈ before.contributingPaths,
          avoids operation.touched trace = true) ∧
        ∀ digest revoker role revokedAt revocationDigest reason sequence,
          operation = .revokeEdge digest revoker role revokedAt revocationDigest reason sequence →
          ∀ trace ∈ after.contributingPaths, avoids operation.touched trace = true) ∧
      (1 - after.confidenceScore) * ((before.contributingPaths.filter fun trace =>
          !avoids operation.touched trace).map fun trace => 1 - trace.pathWeight).prod =
        (1 - before.confidenceScore) * ((after.contributingPaths.filter fun trace =>
          !avoids operation.touched trace).map fun trace => 1 - trace.pathWeight).prod := by
  have hindexed := hgraph.indexed
  have hafterIndexed := hindexed.perform operation
  have hbefore := sequences_of_perform hindexed hdistinct
  have hlength := length_heap_perform_le graph operation
  have hbeforeFuel : graph.heap.length < fuel := by omega
  have hafterFuel : (graph.perform operation).1.heap.length < fuel := by omega
  obtain ⟨before, hevaluate, hpaths, hscore, -⟩ :=
    confidenceScore_eq hindexed hvalid target hbeforeFuel
  obtain ⟨after, hevaluateAfter, hafterPaths, hafterScore, -⟩ :=
    confidenceScore_eq hafterIndexed hvalid target hafterFuel
  rw [← map_traceOfPair] at hpaths hafterPaths
  have hsame : after.contributingPaths.filter (avoids operation.touched) =
      before.contributingPaths.filter (avoids operation.touched) := by
    have hkept : ∀ edge : AttestationEdge,
        decide (some edge.recordDigest ≠ operation.touched) = true →
        (edge ∈ (graph.perform operation).1.heap ∧ Relevant normal edge ↔
          edge ∈ graph.heap ∧ Relevant normal edge) := by
      intro edge hedge
      rw [hindexed.mem_perform (of_decide_eq_true hedge)]
    have hpair : avoids operation.touched ∘ traceOfPair normal = fun pair =>
        pair.2.all fun edge => some edge.recordDigest ≠ operation.touched :=
      funext (avoids_traceOfPair operation.touched)
    rw [hafterPaths, hpaths, List.filter_map, List.filter_map, hpair,
      filter_rootedPaths hkept hafterIndexed hindexed hdistinct hbefore target hafterFuel
        hbeforeFuel]
  refine ⟨before, after, hevaluate, hevaluateAfter, hsame, ?_, ?_⟩
  · intro hdone
    constructor
    · rintro edge rfl
      rw [hpaths]
      apply avoids_of_forall hindexed (EvaluationPolicy.valid_of_validate hvalid) hbeforeFuel
      intro stored hstored _ hdigest
      exact hindexed.ne_of_addEdge hdone hstored (Option.some.inj hdigest)
    · rintro digest revoker role revokedAt revocationDigest reason sequence rfl
      rw [hafterPaths]
      apply avoids_of_forall hafterIndexed (EvaluationPolicy.valid_of_validate hvalid) hafterFuel
      intro stored hstored hrelevant hdigest
      have hinactive := hindexed.inactive_of_revokeEdge hdone hstored (Option.some.inj hdigest)
      rw [hrelevant.1] at hinactive
      cases hinactive
  · rw [hscore, hafterScore, sub_sub_cancel, sub_sub_cancel,
      unconfidence_split operation.touched after.contributingPaths,
      unconfidence_split operation.touched before.contributingPaths, hsame]
    ring

/-- The proposer of the second edge takes it back. -/
def sampleWithdrawal : Graph.Operation :=
  .revokeEdge (sampleEdge 3 2 3).recordDigest (sampleKey 2) revokerRoleProposer 0
    (FixedBytes.copyFrom 32 [8]) [] 8

theorem sampleWithdrawal_local :
    (sampleGraph.perform sampleWithdrawal).2 = none ∧
    ∃ before after, evaluate sampleGraph 6 samplePolicy (sampleKey 3) = some (.ok before) ∧
      evaluate (sampleGraph.perform sampleWithdrawal).1 6 samplePolicy (sampleKey 3) =
        some (.ok after) ∧
      after.contributingPaths.filter (avoids sampleWithdrawal.touched) =
        before.contributingPaths.filter (avoids sampleWithdrawal.touched) ∧
      ∀ trace ∈ after.contributingPaths, avoids sampleWithdrawal.touched trace = true := by
  have hdone : (sampleGraph.perform sampleWithdrawal).2 = none := by decide +kernel
  obtain ⟨before, after, hbefore, hafter, hsame, htouched, -⟩ :=
    operation_local built_sampleGraph sampleWithdrawal (by decide +kernel) validate_samplePolicy
      (sampleKey 3) (by decide : sampleGraph.heap.length + 1 < 6)
  exact ⟨hdone, before, after, hbefore, hafter, hsame, (htouched hdone).2 _ _ _ _ _ _ _ rfl⟩

/-! ### What a score says -/

theorem Qualifies.pathWeight_mem (hvalid : policy.Valid)
    (h : Qualifies graph policy target root path) :
    0 < (traceOf policy root (policy.weightOf root) path).pathWeight ∧
      (traceOf policy root (policy.weightOf root) path).pathWeight < 1 := by
  obtain ⟨weight, hlookup⟩ := Option.isSome_iff_exists.mp (AList.lookup_isSome.mpr h.isRoot)
  obtain ⟨hpos, hone⟩ := hvalid.weights root weight hlookup
  obtain ⟨hdecay, hless⟩ := hvalid.decayFactor
  have hpower : policy.decayFactor ^ path.length < 1 :=
    pow_lt_one₀ hdecay.le hless (Nat.pos_iff_ne_zero.mp h.length.1)
  rw [traceOf, weightOf_of_lookup hlookup]
  refine ⟨mul_pos hpos (pow_pos hdecay _), ?_⟩
  calc weight * policy.decayFactor ^ path.length
      ≤ 1 * policy.decayFactor ^ path.length :=
        mul_le_mul_of_nonneg_right hone (pow_pos hdecay _).le
    _ < 1 := by rwa [one_mul]

theorem weightOf_eq_zero (hvalid : policy.Valid) :
    policy.weightOf target = 0 ↔ target ∉ policy.trustRoots := by
  rcases hlookup : policy.trustRoots.lookup target with _ | weight
  · simp [EvaluationPolicy.weightOf, hlookup, AList.lookup_eq_none.mp hlookup]
  · have hmem : target ∈ policy.trustRoots :=
      AList.lookup_isSome.mp (by rw [hlookup]; rfl)
    have hpos := (hvalid.weights target weight hlookup).1
    simp [weightOf_of_lookup hlookup, hmem, hpos.ne']

/-- A score is what the direct trust and the paths leave of the doubt, and no path is
worth nothing or everything. -/
structure Scored (policy : EvaluationPolicy) (target : IdentityKey) (result : ConfidenceResult) :
    Prop where
  score : result.confidenceScore = 1 - doubt (1 - policy.weightOf target)
    (result.contributingPaths.map (·.pathWeight))
  direct : 0 ≤ policy.weightOf target ∧ policy.weightOf target ≤ 1
  strict : ∀ trace ∈ result.contributingPaths, 0 < trace.pathWeight ∧ trace.pathWeight < 1

theorem scored_of_evaluate (hgraph : graph.Indexed) (hvalid : policy.validate = .ok normal)
    (target : IdentityKey) (hfuel : graph.heap.length < fuel) :
    ∃ result, evaluate graph fuel policy target = some (.ok result) ∧
      Scored normal target result ∧ ∀ trace ∈ result.contributingPaths, ∃ root path,
        Qualifies graph normal target root path ∧
        traceOf normal root (normal.weightOf root) path = trace := by
  have hnormal := EvaluationPolicy.valid_of_validate hvalid
  obtain ⟨result, hevaluate, hpaths, hscore, -⟩ := confidenceScore_eq hgraph hvalid target hfuel
  rw [← map_traceOfPair] at hpaths
  rw [unconfidence_eq] at hscore
  have htraces : ∀ trace ∈ result.contributingPaths, ∃ root path,
      Qualifies graph normal target root path ∧
      traceOf normal root (normal.weightOf root) path = trace := by
    intro trace htrace
    rw [hpaths] at htrace
    exact (mem_traces hgraph hnormal hfuel).mp htrace
  refine ⟨result, hevaluate, ⟨hscore, hnormal.weightOf_mem target, ?_⟩, htraces⟩
  intro trace htrace
  obtain ⟨root, path, hpath, rfl⟩ := htraces trace htrace
  exact hpath.pathWeight_mem hnormal

namespace Scored

variable {result : ConfidenceResult} (h : Scored policy target result)

include h

theorem start_nonneg : 0 ≤ 1 - policy.weightOf target := sub_nonneg.mpr h.direct.2

theorem bounds : ∀ weight ∈ result.contributingPaths.map (·.pathWeight),
    0 ≤ weight ∧ weight ≤ 1 := by
  intro weight hweight
  obtain ⟨trace, htrace, rfl⟩ := List.mem_map.mp hweight
  exact ⟨(h.strict trace htrace).1.le, (h.strict trace htrace).2.le⟩

theorem direct_le : policy.weightOf target ≤ result.confidenceScore := by
  have hless := doubt_le h.start_nonneg h.bounds
  rw [h.score]
  linarith

theorem pathWeight_le {trace : PathTrace} (htrace : trace ∈ result.contributingPaths) :
    trace.pathWeight ≤ result.confidenceScore := by
  have hless := doubt_le_of_mem h.start_nonneg h.bounds (List.mem_map_of_mem htrace)
  have hshare : (1 - policy.weightOf target) * (1 - trace.pathWeight) ≤ 1 - trace.pathWeight :=
    mul_le_of_le_one_left (sub_nonneg.mpr (h.strict trace htrace).2.le)
      (sub_le_self _ h.direct.1)
  rw [h.score]
  linarith

theorem eq_zero_iff : result.confidenceScore = 0 ↔
    policy.weightOf target = 0 ∧ result.contributingPaths = [] := by
  constructor
  · intro hzero
    have hdirect := h.direct_le
    refine ⟨le_antisymm (hzero ▸ hdirect) h.direct.1, List.eq_nil_iff_forall_not_mem.mpr ?_⟩
    intro trace htrace
    exact absurd (hzero ▸ h.pathWeight_le htrace) (not_le.mpr (h.strict trace htrace).1)
  · rintro ⟨hdirect, hnone⟩
    rw [h.score, hdirect, hnone]
    simp [doubt]

end Scored

theorem Qualifies.leads (hgraph : graph.Indexed) (h : Qualifies graph policy target root path) :
    Leads (sortedOutEdges graph policy) (·.subject) target root path :=
  (leads_iff hgraph).mpr ⟨h.edges, h.starts, h.joined, h.ends⟩

section Inside

variable {inside : IdentityKey → Prop} (hgraph : graph.Indexed)
  (h : Qualifies graph policy target root path) (hroot : inside root)

include hgraph h hroot

theorem Qualifies.exists_crossing (htarget : ¬ inside target) :
    ∃ edge ∈ path, inside edge.proposer ∧ ¬ inside edge.subject := by
  obtain ⟨edge, hedge, node, hnode, hout, hsubject⟩ :=
    (h.leads hgraph).exists_crossing hroot htarget
  obtain ⟨-, rfl, -⟩ := (mem_sortedOutEdges hgraph).mp hout
  exact ⟨edge, hedge, hnode, hsubject⟩

theorem Qualifies.stays_inside
    (hclosed : ∀ edge ∈ graph.heap, Relevant policy edge → inside edge.proposer →
      inside edge.subject) :
    ∀ edge ∈ path, inside edge.proposer ∧ inside edge.subject := by
  intro edge hedge
  have hout : ∀ node, inside node → ∀ edge ∈ sortedOutEdges graph policy node,
      inside edge.subject := by
    intro node hnode edge hedge
    obtain ⟨hmem, rfl, hrelevant⟩ := (mem_sortedOutEdges hgraph).mp hedge
    exact hclosed edge hmem hrelevant hnode
  obtain ⟨node, hnode, hout, hsubject⟩ := (h.leads hgraph).inside hout hroot edge hedge
  obtain ⟨-, rfl, -⟩ := (mem_sortedOutEdges hgraph).mp hout
  exact ⟨hnode, hsubject⟩

end Inside

/-- **Paths to an outsider cross over.**  Take any set of identities with all trust roots in
it.  Every path to an identity outside has an active edge that somebody inside proposed
for somebody outside.  Without such an edge outsiders have no paths and score zero, and
the paths to an insider stay inside, whatever outsiders say about each other and about
insiders. -/
theorem paths_cross (hgraph : graph.Built) (hvalid : policy.validate = .ok normal)
    (target : IdentityKey) (hfuel : graph.heap.length < fuel) (inside : IdentityKey → Prop)
    (hroots : ∀ root ∈ policy.trustRoots, inside root) :
    ∃ result, evaluate graph fuel policy target = some (.ok result) ∧
      (¬ inside target → ∀ trace ∈ result.contributingPaths, ∃ edge ∈ graph.heap,
        Relevant policy edge ∧ inside edge.proposer ∧ ¬ inside edge.subject ∧
        ∃ hop ∈ trace.hops, hop.recordDigest = edge.recordDigest) ∧
      ((∀ edge ∈ graph.heap, Relevant policy edge → inside edge.proposer → inside edge.subject) →
        (¬ inside target → result.contributingPaths = [] ∧ result.confidenceScore = 0) ∧
        ∀ trace ∈ result.contributingPaths, ∀ hop ∈ trace.hops,
          inside hop.fromKey ∧ inside hop.toKey) := by
  have hindexed := hgraph.indexed
  obtain ⟨result, hevaluate, hscored, htraces⟩ := scored_of_evaluate hindexed hvalid target hfuel
  obtain ⟨hpolicy, rfl⟩ := EvaluationPolicy.validate_eq_ok.mp hvalid
  refine ⟨result, hevaluate, ?_, ?_⟩
  · intro houtside trace htrace
    obtain ⟨root, path, hpath, rfl⟩ := htraces trace htrace
    obtain ⟨edge, hedge, hproposer, hsubject⟩ :=
      hpath.exists_crossing hindexed (hroots root hpath.isRoot) houtside
    obtain ⟨hmem, hrelevant⟩ := hpath.edges edge hedge
    exact ⟨edge, hmem, hrelevant, hproposer, hsubject, _, List.mem_map_of_mem hedge, rfl⟩
  · intro hclosed
    constructor
    · intro houtside
      have hnone : result.contributingPaths = [] := by
        rw [List.eq_nil_iff_forall_not_mem]
        intro trace htrace
        obtain ⟨root, path, hpath, rfl⟩ := htraces trace htrace
        obtain ⟨edge, hedge, hproposer, hsubject⟩ :=
          hpath.exists_crossing hindexed (hroots root hpath.isRoot) houtside
        obtain ⟨hmem, hrelevant⟩ := hpath.edges edge hedge
        exact hsubject (hclosed edge hmem hrelevant hproposer)
      refine ⟨hnone, hscored.eq_zero_iff.mpr ⟨?_, hnone⟩⟩
      exact (weightOf_eq_zero hpolicy.normalize).mpr fun hroot => houtside (hroots target hroot)
    · intro trace htrace hop hhop
      obtain ⟨root, path, hpath, rfl⟩ := htraces trace htrace
      obtain ⟨edge, hedge, rfl⟩ := List.mem_map.mp hhop
      exact hpath.stays_inside hindexed (hroots root hpath.isRoot) hclosed edge hedge

/-- The cyclic graph, in which a fourth identity endorses the root, a fifth endorses the
fourth, and the root took back its endorsement of the fourth. -/
def outsiderGraph : Graph :=
  [.addEdge (sampleEdge 6 4 1), .addEdge (sampleEdge 7 5 4), .addEdge (sampleEdge 8 1 4),
    .revokeEdge (sampleEdge 8 1 4).recordDigest (sampleKey 1) revokerRoleProposer 0
      (FixedBytes.copyFrom 32 [9]) [] 9].foldl
    (fun graph operation => (graph.perform operation).1) sampleGraph

theorem built_outsiderGraph : outsiderGraph.Built :=
  (((built_sampleGraph.perform _).perform _).perform _).perform _

/-- The root reaches the third identity over edges that leave the root, and the fourth not
at all. -/
theorem outsiderGraph_crossed :
    (∃ result, evaluate outsiderGraph 8 samplePolicy (sampleKey 4) = some (.ok result) ∧
      result.contributingPaths = [] ∧ result.confidenceScore = 0) ∧
    ∃ result, evaluate outsiderGraph 8 samplePolicy (sampleKey 3) = some (.ok result) ∧
      result.contributingPaths.length = 2 ∧ ∀ trace ∈ result.contributingPaths,
        ∃ edge ∈ outsiderGraph.heap, edge.proposer = sampleKey 1 ∧ edge.subject ≠ sampleKey 1 ∧
          ∃ hop ∈ trace.hops, hop.recordDigest = edge.recordDigest := by
  have hroots : ∀ root ∈ samplePolicy.trustRoots, root = sampleKey 1 := by
    intro root hroot
    rw [samplePolicy, newDefaultPolicy, AList.mem_insert] at hroot
    rcases hroot with rfl | hnone
    · rfl
    · exact absurd hnone (AList.notMem_empty root)
  have hfuel : outsiderGraph.heap.length < 8 := by decide
  constructor
  · have hinside : ∀ root ∈ samplePolicy.trustRoots,
        root ∈ [sampleKey 1, sampleKey 2, sampleKey 3] := by
      intro root hroot
      rw [hroots root hroot]
      exact List.mem_cons_self ..
    have hclosed : ∀ edge ∈ outsiderGraph.heap, edge.isActive = true →
        edge.proposer ∈ [sampleKey 1, sampleKey 2, sampleKey 3] →
        edge.subject ∈ [sampleKey 1, sampleKey 2, sampleKey 3] := by
      decide +kernel
    obtain ⟨result, hresult, -, hwithin⟩ := paths_cross built_outsiderGraph validate_samplePolicy
      (sampleKey 4) hfuel (· ∈ [sampleKey 1, sampleKey 2, sampleKey 3]) hinside
    obtain ⟨hnone, hzero⟩ := (hwithin fun edge hedge hrelevant =>
      hclosed edge hedge hrelevant.1).1 (by decide)
    exact ⟨result, hresult, hnone, hzero⟩
  · obtain ⟨result, hresult, hcross, -⟩ := paths_cross built_outsiderGraph validate_samplePolicy
      (sampleKey 3) hfuel (· = sampleKey 1) hroots
    have hevaluated : (evaluate outsiderGraph 8 samplePolicy (sampleKey 3)).any (fun outcome =>
        outcome.toOption.any fun result => result.contributingPaths.length = 2) = true := by
      decide +kernel
    simp only [hresult, Option.any_some, Except.toOption, decide_eq_true_eq] at hevaluated
    refine ⟨result, hresult, hevaluated, ?_⟩
    intro trace htrace
    obtain ⟨edge, hedge, -, hproposer, hsubject, hhop⟩ := hcross (by decide) trace htrace
    exact ⟨edge, hedge, hproposer, hsubject, hhop⟩

end Evaluator

end AttributionChain

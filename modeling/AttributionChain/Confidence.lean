import AttributionChain.NoisyOr
import AttributionChain.QualifyingPaths

/-!
# Confidence is monotone

The score of a target is a noisy-or over the qualifying paths.  With more active edges, or
a policy that trusts at least as much, every qualifying path still qualifies and weighs no
less, so the score does not fall (`score_le_score`).  The score is between zero and one
before it is clamped (`confidenceScore_eq`).
-/

namespace AttributionChain

/-- The second policy trusts at least as much as the first, on the same topic. -/
structure EvaluationPolicy.AtMost (policy stronger : EvaluationPolicy) : Prop where
  topic : stronger.topic = policy.topic
  trustRoots : ∀ root weight, policy.trustRoots.lookup root = some weight →
    ∃ more, stronger.trustRoots.lookup root = some more ∧ weight ≤ more
  maxHops : policy.maxHops ≤ stronger.maxHops
  decayFactor : policy.decayFactor ≤ stronger.decayFactor
  minConfidence : stronger.minConfidence ≤ policy.minConfidence

namespace EvaluationPolicy

variable {policy stronger : EvaluationPolicy}

theorem AtMost.refl (policy : EvaluationPolicy) : policy.AtMost policy where
  topic := rfl
  trustRoots _ weight hweight := ⟨weight, hweight, le_rfl⟩
  maxHops := Int64.le_refl _
  decayFactor := le_rfl
  minConfidence := le_rfl

/-- Positive thresholds are kept by `Validate`. -/
theorem AtMost.normalize (h : policy.AtMost stronger) (hpos : 0 < stronger.minConfidence) :
    policy.normalize.AtMost stronger.normalize where
  topic := h.topic
  trustRoots := h.trustRoots
  maxHops := h.maxHops
  decayFactor := h.decayFactor
  minConfidence := by
    rw [normalize_of_pos hpos, normalize_of_pos (hpos.trans_le h.minConfidence)]
    exact h.minConfidence

theorem Valid.weightOf_mem (h : policy.Valid) (root : IdentityKey) :
    0 ≤ policy.weightOf root ∧ policy.weightOf root ≤ 1 := by
  unfold weightOf
  rcases hlookup : policy.trustRoots.lookup root with _ | weight
  · norm_num
  · have hweight := h.weights root weight hlookup
    exact ⟨hweight.1.le, hweight.2⟩

theorem AtMost.weightOf_le (h : policy.AtMost stronger) (hvalid : stronger.Valid)
    (root : IdentityKey) : policy.weightOf root ≤ stronger.weightOf root := by
  rcases hlookup : policy.trustRoots.lookup root with _ | weight
  · rw [weightOf, hlookup]
    exact (hvalid.weightOf_mem root).1
  · obtain ⟨more, hmore, hle⟩ := h.trustRoots root weight hlookup
    rw [weightOf, weightOf, hlookup, hmore]
    exact hle

end EvaluationPolicy

namespace Evaluator

open NoisyOr

variable {graph larger : Graph} {policy normal stronger strongest : EvaluationPolicy}
  {target root : IdentityKey} {path : List AttestationEdge} {fuel largerFuel : Nat}

/-! ### The score of a list of paths -/

/-- The weight that a root and a path give to their trace. -/
def pathWeight (policy : EvaluationPolicy) (pair : IdentityKey × List AttestationEdge) : ℚ :=
  policy.weightOf pair.1 * policy.decayFactor ^ pair.2.length

theorem pathWeight_mem (hvalid : policy.Valid) (pair : IdentityKey × List AttestationEdge) :
    0 ≤ pathWeight policy pair ∧ pathWeight policy pair ≤ 1 := by
  have hroot := hvalid.weightOf_mem pair.1
  have hdecay := hvalid.decayFactor
  have hpow : policy.decayFactor ^ pair.2.length ≤ 1 := pow_le_one₀ hdecay.1.le hdecay.2.le
  exact ⟨mul_nonneg hroot.1 (pow_nonneg hdecay.1.le _), mul_le_one₀ hroot.2
    (pow_nonneg hdecay.1.le _) hpow⟩

theorem pathWeight_le (h : policy.AtMost stronger) (hpolicy : policy.Valid)
    (hstronger : stronger.Valid) (pair : IdentityKey × List AttestationEdge) :
    pathWeight policy pair ≤ pathWeight stronger pair := by
  apply mul_le_mul (h.weightOf_le hstronger pair.1)
  · exact pow_le_pow_left₀ hpolicy.decayFactor.1.le h.decayFactor _
  · exact pow_nonneg hpolicy.decayFactor.1.le _
  · exact (hstronger.weightOf_mem pair.1).1

theorem unconfidence_eq_doubt (pairs : List (IdentityKey × List AttestationEdge)) :
    unconfidence policy target
        (pairs.map fun pair => traceOf policy pair.1 (policy.weightOf pair.1) pair.2) =
      doubt (1 - policy.weightOf target) (pairs.map (pathWeight policy)) := by
  simp only [unconfidence, doubt, List.foldl_map, traceOf, pathWeight]

theorem unconfidence_mem (hvalid : policy.Valid)
    (pairs : List (IdentityKey × List AttestationEdge)) :
    0 ≤ unconfidence policy target
        (pairs.map fun pair => traceOf policy pair.1 (policy.weightOf pair.1) pair.2) ∧
      unconfidence policy target
        (pairs.map fun pair => traceOf policy pair.1 (policy.weightOf pair.1) pair.2) ≤ 1 := by
  have hdirect := hvalid.weightOf_mem target
  have hstart : 0 ≤ 1 - policy.weightOf target := by linarith
  have hweights : ∀ weight ∈ pairs.map (pathWeight policy), 0 ≤ weight ∧ weight ≤ 1 := by
    intro weight hweight
    obtain ⟨pair, -, rfl⟩ := List.mem_map.mp hweight
    exact pathWeight_mem hvalid pair
  rw [unconfidence_eq_doubt]
  refine ⟨doubt_nonneg hstart fun weight hweight => (hweights weight hweight).2, ?_⟩
  have hless := doubt_le hstart hweights
  linarith

/-- **The clamp of the score has no effect.** -/
theorem confidenceScore_eq (hgraph : graph.Indexed) (hvalid : policy.validate = .ok normal)
    (target : IdentityKey) (hfuel : graph.heap.length < fuel) :
    ∃ result, evaluate graph fuel policy target = some (.ok result) ∧
      result.contributingPaths = (keyedPaths graph normal target fuel).map (fun pair =>
        traceOf normal pair.1 (normal.weightOf pair.1) pair.2) ∧
      result.confidenceScore = 1 - unconfidence normal target result.contributingPaths ∧
      0 ≤ result.confidenceScore ∧ result.confidenceScore ≤ 1 := by
  obtain ⟨findings, hresult, hreports⟩ := evaluate_eq hgraph hvalid target hfuel
  have hpaths : findings.allPaths = (keyedPaths graph normal target fuel).map fun pair =>
      traceOf normal pair.1 (normal.weightOf pair.1) pair.2 := by
    rw [hreports.paths, map_traceOfPair]
  obtain ⟨hpos, hone⟩ : 0 ≤ unconfidence normal target findings.allPaths ∧
      unconfidence normal target findings.allPaths ≤ 1 := by
    rw [hpaths]
    exact unconfidence_mem (EvaluationPolicy.valid_of_validate hvalid) _
  have hclamp : max 0 (min 1 (1 - unconfidence normal target findings.allPaths)) =
      1 - unconfidence normal target findings.allPaths := by
    rw [min_eq_right (by linarith), max_eq_right (by linarith)]
  refine ⟨_, hresult, hpaths, hclamp, ?_, ?_⟩
  · rw [assemble, assembleIn, hclamp]
    linarith
  · rw [assemble, assembleIn, hclamp]
    linarith

/-! ### More edges and more trust -/

theorem Relevant.mono (h : normal.AtMost strongest) {edge : AttestationEdge}
    (hedge : Relevant normal edge) : Relevant strongest edge := by
  rw [Relevant, h.topic]
  exact hedge

theorem Qualifies.mono (h : normal.AtMost strongest) (hnormal : normal.Valid)
    (hstrongest : strongest.Valid)
    (hedges : ∀ edge ∈ graph.heap, edge.isActive = true → edge ∈ larger.heap)
    (hpath : Qualifies graph normal target root path) :
    Qualifies larger strongest target root path where
  isRoot := by
    obtain ⟨weight, hweight⟩ := Option.isSome_iff_exists.mp (AList.lookup_isSome.mpr hpath.isRoot)
    obtain ⟨more, hmore, -⟩ := h.trustRoots root weight hweight
    rw [← AList.lookup_isSome, hmore]
    rfl
  ne_target := hpath.ne_target
  length := by
    have hhops := Int64.le_iff_toInt_le.mp h.maxHops
    exact ⟨hpath.length.1, hpath.length.2.trans hhops⟩
  edges edge hedge := by
    obtain ⟨hheap, hrelevant⟩ := hpath.edges edge hedge
    exact ⟨hedges edge hheap hrelevant.1, hrelevant.mono h⟩
  starts := hpath.starts
  joined := hpath.joined
  simple := hpath.simple
  ends := hpath.ends
  weight := h.minConfidence.trans
    (hpath.weight.trans (pathWeight_le h hnormal hstrongest (root, path)))

/-- More active edges and more trust leave less doubt. -/
theorem score_le_score (hgraph : graph.Indexed) (hlarger : larger.Indexed)
    (hedges : ∀ edge ∈ graph.heap, edge.isActive = true → edge ∈ larger.heap)
    (hvalid : policy.validate = .ok normal) (hstronger : stronger.validate = .ok strongest)
    (h : normal.AtMost strongest) (hfuel : graph.heap.length < fuel)
    (hlargerFuel : larger.heap.length < largerFuel) {result more : ConfidenceResult}
    (hresult : evaluate graph fuel policy target = some (.ok result))
    (hmore : evaluate larger largerFuel stronger target = some (.ok more)) :
    result.confidenceScore ≤ more.confidenceScore := by
  have hnormal := EvaluationPolicy.valid_of_validate hvalid
  have hstrongest := EvaluationPolicy.valid_of_validate hstronger
  obtain ⟨_, hfound, hpaths, hscore, -⟩ := confidenceScore_eq hgraph hvalid target hfuel
  cases hfound.symm.trans hresult
  obtain ⟨_, hfound, hmorePaths, hmoreScore, -⟩ :=
    confidenceScore_eq hlarger hstronger target hlargerFuel
  cases hfound.symm.trans hmore
  have hsubset : keyedPaths graph normal target fuel ⊆
      keyedPaths larger strongest target largerFuel := by
    rintro ⟨root, path⟩ hpair
    have hpath := (mem_keyedPaths hgraph hnormal hfuel).mp hpair
    exact (mem_keyedPaths hlarger hstrongest hlargerFuel).mpr
      (hpath.mono h hnormal hstrongest hedges)
  have hdoubt := doubt_anti (nodup_keyedPaths hgraph) hsubset
    (sub_nonneg.mpr (hstrongest.weightOf_mem target).2)
    (sub_le_sub_left (h.weightOf_le hstrongest target) 1)
    (fun pair _ => pathWeight_le h hnormal hstrongest pair)
    (fun pair _ => pathWeight_mem hstrongest pair)
  rw [hscore, hmoreScore, hpaths, hmorePaths, unconfidence_eq_doubt, unconfidence_eq_doubt]
  linarith

/-- **Confidence is monotone in testimony and in trust.**  The policies are compared after
`Validate`, which changes no positive threshold. -/
theorem confidence_monotone (hgraph : graph.Built) (hlarger : larger.Built)
    (hedges : ∀ edge ∈ graph.heap, edge.isActive = true → edge ∈ larger.heap)
    (hvalid : policy.validate = .ok normal) (hstronger : stronger.validate = .ok strongest)
    (hpolicies : normal.AtMost strongest) (target : IdentityKey)
    (hfuel : graph.heap.length < fuel) (hlargerFuel : larger.heap.length < largerFuel) :
    ∃ result more, evaluate graph fuel policy target = some (.ok result) ∧
      evaluate larger largerFuel stronger target = some (.ok more) ∧
      result.confidenceScore ≤ more.confidenceScore ∧
      (0 ≤ result.confidenceScore ∧ result.confidenceScore ≤ 1 ∧
        result.confidenceScore = 1 - unconfidence normal target result.contributingPaths) ∧
      (0 ≤ more.confidenceScore ∧ more.confidenceScore ≤ 1 ∧
        more.confidenceScore = 1 - unconfidence strongest target more.contributingPaths) ∧
      (∀ digest revoker role revokedAt revocationDigest reason sequence,
        ∃ revoked, evaluate (graph.revokeEdge digest revoker role revokedAt revocationDigest reason
            sequence).1 fuel policy target = some (.ok revoked) ∧
          revoked.confidenceScore ≤ result.confidenceScore) ∧
      ∀ edge admittedFuel, graph.heap.length + 1 < admittedFuel →
        ∃ admitted, evaluate (graph.addEdge edge).1 admittedFuel policy target =
            some (.ok admitted) ∧
          result.confidenceScore ≤ admitted.confidenceScore := by
  obtain ⟨result, hresult, -, hscore, hpos, hone⟩ :=
    confidenceScore_eq hgraph.indexed hvalid target hfuel
  obtain ⟨more, hmore, -, hmoreScore, hmorePos, hmoreOne⟩ :=
    confidenceScore_eq hlarger.indexed hstronger target hlargerFuel
  refine ⟨result, more, hresult, hmore, ?_, ⟨hpos, hone, hscore⟩,
    ⟨hmorePos, hmoreOne, hmoreScore⟩, ?_, ?_⟩
  · exact score_le_score hgraph.indexed hlarger.indexed hedges hvalid hstronger hpolicies hfuel
      hlargerFuel hresult hmore
  · intro digest revoker role revokedAt revocationDigest reason sequence
    have hbuilt := hgraph.perform
      (.revokeEdge digest revoker role revokedAt revocationDigest reason sequence)
    have hlength : (graph.revokeEdge digest revoker role revokedAt revocationDigest reason
        sequence).1.heap.length < fuel := by
      rwa [Graph.length_heap_revokeEdge]
    obtain ⟨revoked, hrevoked, -⟩ := confidenceScore_eq hbuilt.indexed hvalid target hlength
    refine ⟨revoked, hrevoked, ?_⟩
    apply score_le_score hbuilt.indexed hgraph.indexed _ hvalid hvalid (.refl normal) hlength hfuel
      hrevoked hresult
    intro edge hedge hactive
    exact Graph.mem_heap_of_mem_revokeEdge hedge hactive
  · intro edge admittedFuel hadmittedFuel
    have hbuilt := hgraph.perform (.addEdge edge)
    have hgrown : (graph.addEdge edge).1.heap.length ≤ graph.heap.length + 1 ∧
        ∀ other ∈ graph.heap, other ∈ (graph.addEdge edge).1.heap := by
      rcases graph.heap_addEdge edge with hheap | hheap
      · simp [hheap]
      · simp +contextual [hheap]
    have hlength := Nat.lt_of_le_of_lt hgrown.1 hadmittedFuel
    obtain ⟨admitted, hadmitted, -⟩ := confidenceScore_eq hbuilt.indexed hvalid target hlength
    refine ⟨admitted, hadmitted, ?_⟩
    apply score_le_score hgraph.indexed hbuilt.indexed _ hvalid hvalid (.refl normal) hfuel hlength
      hresult hadmitted
    intro other hother _
    exact hgrown.2 other hother

/-- The sample policy with less decay and one more hop. -/
def trustingPolicy : EvaluationPolicy :=
  { samplePolicy with
    maxHops := 4
    decayFactor := 7 / 10 }

theorem validate_trustingPolicy : trustingPolicy.validate = .ok trustingPolicy := by
  obtain ⟨hvalid, hnormal⟩ := EvaluationPolicy.validate_eq_ok.mp validate_samplePolicy
  apply EvaluationPolicy.validate_eq_ok.mpr
  constructor
  · exact ⟨hvalid.nonempty, hvalid.weights, by decide, by norm_num [trustingPolicy]⟩
  · exact congrArg (fun normal : EvaluationPolicy =>
      { normal with maxHops := 4, decayFactor := 7 / 10 }) hnormal

theorem samplePolicy_atMost : samplePolicy.AtMost trustingPolicy where
  topic := rfl
  trustRoots _ weight hweight := ⟨weight, hweight, le_rfl⟩
  maxHops := by decide
  decayFactor := by norm_num [samplePolicy, newDefaultPolicy, defaultDecayFactor, trustingPolicy]
  minConfidence := le_rfl

/-- The cyclic graph with another endorsement of the third identity. -/
def largerGraph : Graph := (sampleGraph.perform (.addEdge (sampleEdge 6 1 3))).1

/-- Another edge, less decay and one more hop, and a larger score. -/
theorem largerGraph_trusted :
    ∃ result more, evaluate sampleGraph 5 samplePolicy (sampleKey 3) = some (.ok result) ∧
      evaluate largerGraph 6 trustingPolicy (sampleKey 3) = some (.ok more) ∧
      result.confidenceScore ≤ more.confidenceScore ∧
      result.confidenceScore = 744 / 1000 ∧ more.confidenceScore = 9541 / 10000 := by
  have hfuel : sampleGraph.heap.length < 5 := by decide
  have hlargerFuel : largerGraph.heap.length < 6 := by decide
  have hedges : ∀ edge ∈ sampleGraph.heap, edge.isActive = true → edge ∈ largerGraph.heap := by
    decide +kernel
  have hpositive : 0 < trustingPolicy.minConfidence := by
    norm_num [trustingPolicy, samplePolicy, newDefaultPolicy, defaultMinConfidence]
  have hpolicies := samplePolicy_atMost.normalize hpositive
  rw [← (EvaluationPolicy.validate_eq_ok.mp validate_samplePolicy).2,
    ← (EvaluationPolicy.validate_eq_ok.mp validate_trustingPolicy).2] at hpolicies
  have hbuilt : largerGraph.Built := built_sampleGraph.perform _
  obtain ⟨result, more, hresult, hmore, hle, -⟩ := confidence_monotone built_sampleGraph hbuilt
    hedges validate_samplePolicy validate_trustingPolicy hpolicies (sampleKey 3) hfuel hlargerFuel
  have hscore : (evaluate sampleGraph 5 samplePolicy (sampleKey 3)).any (fun outcome =>
      outcome.toOption.any fun result => result.confidenceScore = 744 / 1000) = true := by
    decide +kernel
  have hmoreScore : (evaluate largerGraph 6 trustingPolicy (sampleKey 3)).any (fun outcome =>
      outcome.toOption.any fun result => result.confidenceScore = 9541 / 10000) = true := by
    decide +kernel
  simp only [hresult, hmore, Option.any_some, Except.toOption, decide_eq_true_eq]
    at hscore hmoreScore
  exact ⟨result, more, hresult, hmore, hle, hscore, hmoreScore⟩

end Evaluator

end AttributionChain

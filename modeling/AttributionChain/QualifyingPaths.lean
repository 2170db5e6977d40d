import AttributionChain.PathSearch

/-!
# Which paths contribute

`Qualifies` says, without reference to the search, which paths count as testimony for a
target.  `paths_exact` shows that `Evaluate` returns, for every policy that passes
`Validate` and every number of hops, with exactly these paths, each of them once.

The search prunes a prefix as soon as its weight is below the threshold.  No qualifying
path is lost by that, since weights only fall along a path (`within_of_le`).  Equal
sequence numbers would leave the order of the paths open, because `sort.Slice` is not
stable; which paths are found does not depend on it.
-/

namespace AttributionChain.Evaluator

open SimplePaths

variable {graph : Graph} {policy normal : EvaluationPolicy} {target root current : IdentityKey}
  {rootWeight : ℚ} {path : List AttestationEdge} {fuel : Nat}

/-- A simple path of relevant edges from a trust root to the target that is neither too
long nor too weak. -/
structure Qualifies (graph : Graph) (policy : EvaluationPolicy) (target root : IdentityKey)
    (path : List AttestationEdge) : Prop where
  isRoot : root ∈ policy.trustRoots
  ne_target : root ≠ target
  length : 1 ≤ path.length ∧ (path.length : Int) ≤ policy.maxHops.toInt
  edges : ∀ edge ∈ path, edge ∈ graph.heap ∧ Relevant policy edge
  starts : path.head?.map (·.proposer) = some root
  joined : path.IsChain fun edge next => edge.subject = next.proposer
  simple : (root :: path.map (·.subject)).Nodup
  ends : path.getLast?.map (·.subject) = some target
  weight : policy.minConfidence ≤ policy.weightOf root * policy.decayFactor ^ path.length

/-! ### The conditions of the search -/

theorem leads_iff (hgraph : graph.Indexed) :
    Leads (sortedOutEdges graph policy) (·.subject) target current path ↔
      (∀ edge ∈ path, edge ∈ graph.heap ∧ Relevant policy edge) ∧
        path.head?.map (·.proposer) = some current ∧
        path.IsChain (fun edge next => edge.subject = next.proposer) ∧
        path.getLast?.map (·.subject) = some target := by
  constructor
  · intro h
    induction h with
    | @last current edge hout hend =>
      obtain ⟨hheap, hproposer, hrelevant⟩ := (mem_sortedOutEdges hgraph).mp hout
      simp [hheap, hproposer, hrelevant, hend]
    | @cons current edge path hout hrest ih =>
      obtain ⟨hheap, hproposer, hrelevant⟩ := (mem_sortedOutEdges hgraph).mp hout
      obtain ⟨hedges, hstarts, hjoined, hends⟩ := ih
      cases path with
      | nil => cases hrest
      | cons next path =>
        have hnext : next.proposer = edge.subject := Option.some.inj hstarts
        refine ⟨List.forall_mem_cons.mpr ⟨⟨hheap, hrelevant⟩, hedges⟩, congrArg some hproposer,
          List.isChain_cons_cons.mpr ⟨hnext.symm, hjoined⟩, ?_⟩
        rwa [List.getLast?_cons_cons]
  · rintro ⟨hedges, hstarts, hjoined, hends⟩
    induction path generalizing current with
    | nil => cases hstarts
    | cons edge path ih =>
      obtain ⟨⟨hheap, hrelevant⟩, hrest⟩ := List.forall_mem_cons.mp hedges
      have hout : edge ∈ sortedOutEdges graph policy current :=
        (mem_sortedOutEdges hgraph).mpr ⟨hheap, Option.some.inj hstarts, hrelevant⟩
      cases path with
      | nil => exact .last hout (Option.some.inj hends)
      | cons next path =>
        obtain ⟨hnext, hjoined⟩ := List.isChain_cons_cons.mp hjoined
        rw [List.getLast?_cons_cons] at hends
        exact .cons hout (ih hrest (congrArg some hnext.symm) hjoined hends)

/-- Weights fall along a path, so every prefix of a path that is strong enough is. -/
theorem within_of_le (hweight : 0 ≤ rootWeight)
    (hdecay : 0 < policy.decayFactor ∧ policy.decayFactor < 1) {short long : Nat}
    (hle : short ≤ long) (h : within policy rootWeight long = true) :
    within policy rootWeight short = true := by
  rw [within_eq_true] at h ⊢
  refine ⟨by omega, h.2.trans ?_⟩
  apply mul_le_mul_of_nonneg_left _ hweight
  exact pow_le_pow_of_le_one hdecay.1.le hdecay.2.le hle

theorem allowed_iff (hweight : 0 ≤ rootWeight)
    (hdecay : 0 < policy.decayFactor ∧ policy.decayFactor < 1) (hpath : 1 ≤ path.length) :
    Allowed (·.subject) (within policy rootWeight) 1
        (Function.update (fun _ => false) root true) path ↔
      (root :: path.map (·.subject)).Nodup ∧ within policy rootWeight path.length = true := by
  rw [List.nodup_cons]
  constructor
  · intro h
    refine ⟨⟨?_, h.nodup⟩, ?_⟩
    · intro hmem
      obtain ⟨edge, hedge, hsubject⟩ := List.mem_map.mp hmem
      exact (update_eq_false.mp (h.fresh edge hedge)).1 hsubject
    · have hlast := h.within (path.length - 1) (by omega)
      rwa [Nat.add_sub_cancel' hpath] at hlast
  · rintro ⟨⟨hroot, hnodup⟩, hwithin⟩
    refine ⟨?_, hnodup, ?_⟩
    · intro edge hedge
      refine update_eq_false.mpr ⟨?_, rfl⟩
      intro hsubject
      exact hroot (hsubject ▸ List.mem_map_of_mem hedge)
    · intro i hi
      exact within_of_le hweight hdecay (by omega) hwithin

/-- A simple path has at most as many edges as the graph. -/
theorem length_le_of_simple (hedges : ∀ edge ∈ path, edge ∈ graph.heap)
    (hsimple : (path.map (·.subject)).Nodup) : path.length ≤ graph.heap.length :=
  (List.subperm_of_subset hsimple.of_map hedges).length_le

theorem weightOf_of_lookup (h : policy.trustRoots.lookup root = some rootWeight) :
    policy.weightOf root = rootWeight := by
  rw [EvaluationPolicy.weightOf, h, Option.getD_some]

/-- **The paths that the search from a root finds are the qualifying ones.** -/
theorem mem_rootPaths_iff (hgraph : graph.Indexed) (hvalid : policy.Valid)
    (hfuel : graph.heap.length < fuel) {entry : TrustRoot}
    (hentry : policy.trustRoots.lookup entry.1 = some entry.2) :
    path ∈ rootPaths graph policy target fuel entry ↔
      Qualifies graph policy target entry.1 path := by
  have hweight := (hvalid.weights entry.1 entry.2 hentry).1.le
  have hisRoot : entry.1 ∈ policy.trustRoots := by
    rw [← AList.lookup_isSome, hentry]
    rfl
  unfold rootPaths
  constructor
  · by_cases hdirect : entry.1 = target
    · rw [if_pos hdirect]
      intro h
      cases h
    · rw [if_neg hdirect, pathsFrom, mem_enumerate]
      rintro ⟨hleads, hallowed, -⟩
      obtain ⟨hedges, hstarts, hjoined, hends⟩ := (leads_iff hgraph).mp hleads
      have hpath : 1 ≤ path.length := by
        cases path with
        | nil => cases hstarts
        | cons edge path => exact Nat.succ_pos _
      obtain ⟨hsimple, hwithin⟩ := (allowed_iff hweight hvalid.decayFactor hpath).mp hallowed
      obtain ⟨hhops, hstrong⟩ := within_eq_true.mp hwithin
      rw [← weightOf_of_lookup hentry] at hstrong
      exact ⟨hisRoot, hdirect, ⟨hpath, hhops⟩, hedges, hstarts, hjoined, hsimple, hends, hstrong⟩
  · intro h
    rw [if_neg h.ne_target, pathsFrom, mem_enumerate]
    refine ⟨(leads_iff hgraph).mpr ⟨h.edges, h.starts, h.joined, h.ends⟩, ?_, ?_⟩
    · apply (allowed_iff hweight hvalid.decayFactor h.length.1).mpr
      refine ⟨h.simple, within_eq_true.mpr ⟨h.length.2, ?_⟩⟩
      rw [← weightOf_of_lookup hentry]
      exact h.weight
    · have hlength := length_le_of_simple (fun edge hedge => (h.edges edge hedge).1)
        (List.nodup_cons.mp h.simple).2
      omega

theorem mem_rootedPaths {entry : TrustRoot} :
    (entry, path) ∈ rootedPaths graph policy target fuel ↔
      policy.trustRoots.lookup entry.1 = some entry.2 ∧
        path ∈ rootPaths graph policy target fuel entry := by
  rw [rootedPaths, List.mem_flatMap]
  constructor
  · rintro ⟨other, hother, hpair⟩
    obtain ⟨found, hfound, hsame⟩ := List.mem_map.mp hpair
    cases hsame
    exact ⟨mem_sortedRoots.mp hother, hfound⟩
  · rintro ⟨hentry, hpath⟩
    exact ⟨entry, mem_sortedRoots.mpr hentry, List.mem_map_of_mem hpath⟩

/-! ### Each path once -/

theorem nodup_outEdgesOf (hgraph : graph.Indexed) (current : IdentityKey) (topic : Bytes)
    (activeOnly : Bool) : (graph.outEdgesOf current topic activeOnly).Nodup := by
  rw [hgraph.outEdgesOf_eq]
  exact (hgraph.nodup_heap.filter _).filter _

theorem nodup_sortedOutEdges (hgraph : graph.Indexed) (policy : EvaluationPolicy)
    (current : IdentityKey) : (sortedOutEdges graph policy current).Nodup := by
  rw [sortedOutEdges, (sortBy_perm _ _).nodup_iff]
  exact nodup_outEdgesOf hgraph current policy.topic true

theorem nodup_rootPaths (hgraph : graph.Indexed) (entry : TrustRoot) :
    (rootPaths graph policy target fuel entry).Nodup := by
  unfold rootPaths
  by_cases hdirect : entry.1 = target
  · rw [if_pos hdirect]
    exact List.nodup_nil
  · rw [if_neg hdirect]
    exact nodup_enumerate (nodup_sortedOutEdges hgraph policy)

/-- The roots and paths without the weights. -/
def keyedPaths (graph : Graph) (policy : EvaluationPolicy) (target : IdentityKey) (fuel : Nat) :
    List (IdentityKey × List AttestationEdge) :=
  (rootedPaths graph policy target fuel).map fun pair => (pair.1.1, pair.2)

theorem keyedPaths_eq_flatMap : keyedPaths graph policy target fuel =
    (sortedRoots policy).flatMap fun root =>
      (rootPaths graph policy target fuel root).map fun path => (root.1, path) := by
  simp only [keyedPaths, rootedPaths, List.map_flatMap, List.map_map]
  rfl

theorem nodup_keyedPaths (hgraph : graph.Indexed) :
    (keyedPaths graph policy target fuel).Nodup := by
  have hkeys : ((sortedRoots policy).map Sigma.fst).Nodup := by
    have hperm := (sortBy_perm (fun root : TrustRoot => IdentityKey.hexValue root.1)
      policy.trustRoots.entries).map Sigma.fst
    exact hperm.nodup_iff.mpr policy.trustRoots.keys_nodup
  rw [keyedPaths_eq_flatMap, List.nodup_flatMap]
  constructor
  · intro entry _
    exact (nodup_rootPaths hgraph entry).map fun _ _ hsame => (Prod.mk.inj hsame).2
  · refine (List.pairwise_map.mp hkeys).imp ?_
    -- paths of different roots differ in the root
    intro first second hne pair hfirst hsecond
    obtain ⟨_, -, rfl⟩ := List.mem_map.mp hfirst
    obtain ⟨_, -, hsame⟩ := List.mem_map.mp hsecond
    exact hne (Prod.mk.inj hsame).1.symm

theorem mem_keyedPaths (hgraph : graph.Indexed) (hvalid : policy.Valid)
    (hfuel : graph.heap.length < fuel) :
    (root, path) ∈ keyedPaths graph policy target fuel ↔
      Qualifies graph policy target root path := by
  rw [keyedPaths, List.mem_map]
  constructor
  · rintro ⟨⟨entry, found⟩, hpair, hsame⟩
    cases hsame
    obtain ⟨hentry, hpath⟩ := mem_rootedPaths.mp hpair
    exact (mem_rootPaths_iff hgraph hvalid hfuel hentry).mp hpath
  · intro h
    obtain ⟨weight, hweight⟩ := Option.isSome_iff_exists.mp (AList.lookup_isSome.mpr h.isRoot)
    have hpath : path ∈ rootPaths graph policy target fuel ⟨root, weight⟩ :=
      (mem_rootPaths_iff hgraph hvalid hfuel hweight).mpr h
    exact ⟨(⟨root, weight⟩, path), mem_rootedPaths.mpr ⟨hweight, hpath⟩, rfl⟩

theorem map_traceOfPair : (rootedPaths graph policy target fuel).map (traceOfPair policy) =
    (keyedPaths graph policy target fuel).map fun pair =>
      traceOf policy pair.1 (policy.weightOf pair.1) pair.2 := by
  rw [keyedPaths, List.map_map]
  apply List.map_congr_left
  rintro ⟨entry, path⟩ hpair
  have hweight := weightOf_of_lookup (mem_rootedPaths.mp hpair).1
  simp only [Function.comp_apply, traceOfPair, hweight]

/-- A path can be read off its trace. -/
theorem traceOf_injOn (hgraph : graph.Indexed) {other : IdentityKey}
    {otherPath : List AttestationEdge} (hpath : ∀ edge ∈ path, edge ∈ graph.heap)
    (hother : ∀ edge ∈ otherPath, edge ∈ graph.heap)
    (h : traceOf policy root (policy.weightOf root) path =
      traceOf policy other (policy.weightOf other) otherPath) :
    root = other ∧ path = otherPath := by
  refine ⟨congrArg PathTrace.root h, ?_⟩
  have hdigests : path.map (·.recordDigest) = otherPath.map (·.recordDigest) := by
    have hhops := congrArg (fun trace => trace.hops.map (·.recordDigest)) h
    simpa only [map_recordDigest_traceOf] using hhops
  rw [← hgraph.filterMap_edgeByDigest hpath, hdigests, hgraph.filterMap_edgeByDigest hother]

/-- **Path enumeration is exact.** -/
theorem paths_exact (hgraph : graph.Built) (hvalid : policy.validate = .ok normal)
    (target : IdentityKey) (hfuel : graph.heap.length < fuel) :
    ∃ (result : ConfidenceResult) (pairs : List (IdentityKey × List AttestationEdge)),
      evaluate graph fuel policy target = some (.ok result) ∧
      pairs.Nodup ∧
      (∀ root path, (root, path) ∈ pairs ↔ Qualifies graph normal target root path) ∧
      result.contributingPaths = pairs.map (fun pair =>
        traceOf normal pair.1 (normal.weightOf pair.1) pair.2) ∧
      result.contributingPaths.Nodup := by
  have hindexed := hgraph.indexed
  obtain ⟨findings, hresult, hreports⟩ := evaluate_eq hindexed hvalid target hfuel
  have hmem : ∀ root path, (root, path) ∈ keyedPaths graph normal target fuel ↔
      Qualifies graph normal target root path := by
    intro root path
    exact mem_keyedPaths hindexed (EvaluationPolicy.valid_of_validate hvalid) hfuel
  have hpaths : (assemble graph normal target findings).contributingPaths =
      (keyedPaths graph normal target fuel).map fun pair =>
        traceOf normal pair.1 (normal.weightOf pair.1) pair.2 := by
    rw [← map_traceOfPair]
    exact hreports.paths
  refine ⟨_, _, hresult, nodup_keyedPaths hindexed, hmem, hpaths, ?_⟩
  rw [hpaths]
  apply (nodup_keyedPaths hindexed).map_on
  rintro ⟨root, path⟩ hpair ⟨other, otherPath⟩ hother hsame
  obtain ⟨rfl, rfl⟩ := traceOf_injOn hindexed
    (fun edge hedge => (((hmem root path).mp hpair).edges edge hedge).1)
    (fun edge hedge => (((hmem other otherPath).mp hother).edges edge hedge).1) hsame
  rfl

/-! ### A graph with a cycle -/

def sampleKey (byte : UInt8) : IdentityKey := FixedBytes.copyFrom 65 [0x04, byte]

def sampleEdge (number proposer subject : UInt8) : AttestationEdge :=
  newAttestationEdge (FixedBytes.copyFrom 32 [number]) number.toUInt64 (sampleKey proposer)
    (sampleKey subject) (ascii "go") none 0 0

/-- The cycle 1, 2, 3 and a shortcut from 1 to 3. -/
def sampleOperations : List Graph.Operation :=
  [.addEdge (sampleEdge 2 1 2), .addEdge (sampleEdge 3 2 3), .addEdge (sampleEdge 4 3 1),
    .addEdge (sampleEdge 5 1 3)]

def sampleGraph : Graph :=
  sampleOperations.foldl (fun graph operation => (graph.perform operation).1)
    (Graph.newGraph (FixedBytes.zero 32))

theorem built_sampleGraph : sampleGraph.Built :=
  (((Graph.built_newGraph _).perform _).perform _).perform _ |>.perform _

def samplePolicy : EvaluationPolicy :=
  newDefaultPolicy ((∅ : AList fun _ : IdentityKey => ℚ).insert (sampleKey 1) 1) []

theorem validate_samplePolicy : samplePolicy.validate = .ok samplePolicy := by
  apply EvaluationPolicy.validate_newDefaultPolicy
  · decide
  · intro root weight hlookup
    by_cases hroot : root = sampleKey 1
    · subst hroot
      rw [AList.lookup_insert] at hlookup
      cases hlookup
      norm_num
    · rw [AList.lookup_insert_ne hroot] at hlookup
      cases hlookup

theorem sampleGraph_paths : ∃ (result : ConfidenceResult)
    (pairs : List (IdentityKey × List AttestationEdge)),
      evaluate sampleGraph 5 samplePolicy (sampleKey 3) = some (.ok result) ∧
      pairs.Nodup ∧
      (∀ root path, (root, path) ∈ pairs ↔
        Qualifies sampleGraph samplePolicy (sampleKey 3) root path) ∧
      result.contributingPaths = pairs.map (fun pair =>
        traceOf samplePolicy pair.1 (samplePolicy.weightOf pair.1) pair.2) ∧
      result.contributingPaths.Nodup :=
  paths_exact built_sampleGraph validate_samplePolicy (sampleKey 3) (by decide)

/-- Both ways from 1 to 3 count, the direct one with weight 0.6 and the other with 0.36. -/
example : (evaluate sampleGraph 5 samplePolicy (sampleKey 3)).any (fun outcome =>
    match outcome with
    | .ok result => result.contributingPaths.length = 2 ∧ result.confidenceScore = 744 / 1000
    | .error _ => False) = true := by decide +kernel

end AttributionChain.Evaluator

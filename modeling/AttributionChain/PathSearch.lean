import AttributionChain.Evaluator
import AttributionChain.GraphIndex
import AttributionChain.SimplePaths

/-!
# What the path search finds

`findPaths` refines the enumeration of simple paths: with as much fuel as there are
identities to visit it returns, adds the traces of the enumerated paths to its
accumulators in their order, and leaves the map of visited nodes as it found it
(`findPaths_eq`).
-/

namespace AttributionChain.Evaluator

open SimplePaths

/-! ### The edges that count -/

/-- An edge that the evaluator may follow. -/
def Relevant (policy : EvaluationPolicy) (edge : AttestationEdge) : Prop :=
  edge.isActive = true ∧ (policy.topic = [] ∨ edge.topic = policy.topic)

variable {graph : Graph} {policy : EvaluationPolicy} {target root current : IdentityKey}
  {rootWeight : ℚ} {edge : AttestationEdge}

theorem mem_outEdgesOf (hgraph : graph.Indexed) :
    edge ∈ graph.outEdgesOf current policy.topic true ↔
      edge ∈ graph.heap ∧ edge.proposer = current ∧ Relevant policy edge := by
  rw [hgraph.outEdgesOf_eq, List.mem_filter, List.mem_filter]
  by_cases htopic : policy.topic = []
  · simp [Relevant, htopic, and_assoc]
  · simp [Relevant, htopic, and_assoc]

theorem mem_sortedOutEdges (hgraph : graph.Indexed) :
    edge ∈ sortedOutEdges graph policy current ↔
      edge ∈ graph.heap ∧ edge.proposer = current ∧ Relevant policy edge := by
  rw [sortedOutEdges, mem_sortBy, mem_outEdgesOf hgraph]

/-- The identities that an edge leads to. -/
def subjects (graph : Graph) : Finset IdentityKey := (graph.heap.map (·.subject)).toFinset

theorem card_subjects_le (graph : Graph) : (subjects graph).card ≤ graph.heap.length := by
  have h := List.toFinset_card_le (graph.heap.map (·.subject))
  rwa [List.length_map] at h

/-- There is no need to go deeper than there are edges. -/
theorem unvisited_lt {fuel : Nat} (hfuel : graph.heap.length < fuel) (visited : Visited) :
    unvisited (subjects graph) visited < fuel :=
  Nat.lt_of_le_of_lt (unvisited_le _ _) (Nat.lt_of_le_of_lt (card_subjects_le graph) hfuel)

theorem subject_mem_subjects (hgraph : graph.Indexed)
    (hedge : edge ∈ sortedOutEdges graph policy current) : edge.subject ∈ subjects graph := by
  rw [subjects, List.mem_toFinset]
  exact List.mem_map_of_mem ((mem_sortedOutEdges hgraph).mp hedge).1

/-! ### One search -/

/-- A path may be this long, by its hops and by its weight. -/
def within (policy : EvaluationPolicy) (rootWeight : ℚ) (length : Nat) : Bool :=
  decide ((length : Int) ≤ policy.maxHops.toInt) &&
    decide (policy.minConfidence ≤ rootWeight * policy.decayFactor ^ length)

theorem within_eq_true {length : Nat} :
    within policy rootWeight length = true ↔ (length : Int) ≤ policy.maxHops.toInt ∧
      policy.minConfidence ≤ rootWeight * policy.decayFactor ^ length := by
  simp [within]

/-- The trace of a path from a root. -/
def traceOf (policy : EvaluationPolicy) (root : IdentityKey) (rootWeight : ℚ)
    (path : List AttestationEdge) : PathTrace where
  root := root
  rootWeight := rootWeight
  hops := path.map fun edge => hopOf edge.proposer edge
  pathWeight := rootWeight * policy.decayFactor ^ path.length

theorem map_recordDigest_traceOf (path : List AttestationEdge) :
    (traceOf policy root rootWeight path).hops.map (·.recordDigest) =
      path.map (·.recordDigest) := by
  rw [traceOf, List.map_map]
  rfl

/-- The paths from a node that continue the edges walked so far. -/
def pathsFrom (graph : Graph) (policy : EvaluationPolicy) (target : IdentityKey) (rootWeight : ℚ)
    (fuel : Nat) (front : List AttestationEdge) (current : IdentityKey) (visited : Visited) :
    List (List AttestationEdge) :=
  enumerate (sortedOutEdges graph policy) (·.subject) (within policy rootWeight) target fuel
    (front.length + 1) current visited

/-- The search from a node returns, adds the traces of the paths from there and leaves
the visited nodes as they were. -/
def Searches (graph : Graph) (policy : EvaluationPolicy) (target root : IdentityKey)
    (rootWeight : ℚ) (fuel : Nat) (front : List AttestationEdge) (current : IdentityKey)
    (depth : Int64) (visited : Visited) : Prop :=
  ∀ findings, findPaths graph policy target root rootWeight fuel current
      (rootWeight * policy.decayFactor ^ front.length)
      (front.map fun edge => hopOf edge.proposer edge) depth (findings, visited) =
    some (((pathsFrom graph policy target rootWeight fuel front current visited).map fun path =>
      traceOf policy root rootWeight (front ++ path)).foldl (addPath graph target) findings,
      visited)

/-- What one edge contributes: the trace of every path through it. -/
theorem visitEdge_eq {fuel : Nat} {front : List AttestationEdge} {visited : Visited} {depth : Int64}
    (hproposer : edge.proposer = current) (hdepth : depth.toInt = front.length + 1)
    (hhops : depth.toInt ≤ policy.maxHops.toInt)
    (hrecurse : visited edge.subject = false → depth < policy.maxHops →
      Searches graph policy target root rootWeight fuel (front ++ [edge]) edge.subject (depth + 1)
        (Function.update visited edge.subject true))
    (findings : Findings) :
    visitEdge graph policy target root rootWeight
        (findPaths graph policy target root rootWeight fuel) current
        (rootWeight * policy.decayFactor ^ front.length)
        (front.map fun edge => hopOf edge.proposer edge) depth (findings, visited) edge =
      some (((via (·.subject) (within policy rootWeight) target
        (enumerate (sortedOutEdges graph policy) (·.subject) (within policy rootWeight) target fuel
          (front.length + 1 + 1)) (front.length + 1) visited edge).map fun path =>
            traceOf policy root rootWeight (front ++ path)).foldl (addPath graph target) findings,
        visited) := by
  have hweight : rootWeight * policy.decayFactor ^ front.length * policy.decayFactor =
      rootWeight * policy.decayFactor ^ (front.length + 1) := by
    rw [pow_succ, mul_assoc]
  unfold visitEdge via
  rw [hweight]
  by_cases hvisited : visited edge.subject = true
  · rw [if_pos hvisited, if_pos hvisited]
    rfl
  rw [if_neg hvisited, if_neg hvisited]
  by_cases hsmall : rootWeight * policy.decayFactor ^ (front.length + 1) < policy.minConfidence
  · have hoff : within policy rootWeight (front.length + 1) = false := by
      simp [within, hsmall]
    rw [if_pos hsmall, if_pos hoff]
    rfl
  have hon : ¬ within policy rootWeight (front.length + 1) = false := by
    rw [Bool.not_eq_false, within_eq_true]
    refine ⟨?_, not_lt.mp hsmall⟩
    rw [hdepth] at hhops
    exact_mod_cast hhops
  rw [if_neg hsmall, if_neg hon]
  by_cases hend : edge.subject = target
  · rw [if_pos hend, if_pos hend]
    simp [traceOf, hproposer]
  rw [if_neg hend, if_neg hend]
  have hfresh : visited edge.subject = false := by simpa using hvisited
  by_cases hdeeper : depth < policy.maxHops
  · have hmore := hrecurse hfresh hdeeper findings
    rw [List.length_append, List.length_singleton, List.map_append, List.map_cons, List.map_nil,
      hproposer] at hmore
    rw [if_pos hdeeper, hmore, Option.map_some, Function.update_idem]
    have hrestored : Function.update visited edge.subject false = visited := by
      rw [← hfresh, Function.update_eq_self]
    rw [hrestored, List.map_map]
    simp only [pathsFrom, List.length_append, List.length_singleton, List.append_assoc,
      List.singleton_append, Function.comp_def]
  · -- at the last hop nothing longer is enumerated either
    have hoff : within policy rootWeight (front.length + 1 + 1) = false := by
      rw [Int64.lt_iff_toInt_lt, hdepth] at hdeeper
      have hlong : ¬ ((front.length + 1 + 1 : Nat) : Int) ≤ policy.maxHops.toInt := by
        push_cast
        omega
      simp only [within, hlong, decide_false, Bool.false_and]
    rw [if_neg hdeeper, enumerate_of_not_within hoff]
    rfl

variable (policy target root current rootWeight) in
/-- **The search finds the enumerated paths, for any number of hops.** -/
theorem findPaths_eq (hgraph : graph.Indexed) {fuel : Nat} {front : List AttestationEdge}
    {visited : Visited} {depth : Int64} (hdepth : depth.toInt = front.length + 1)
    (hfuel : unvisited (subjects graph) visited < fuel) :
    Searches graph policy target root rootWeight fuel front current depth visited := by
  induction fuel generalizing front current visited depth with
  | zero => cases hfuel
  | succ fuel ih =>
    intro findings
    rw [findPaths]
    by_cases hlong : depth > policy.maxHops
    · have hoff : within policy rootWeight (front.length + 1) = false := by
        rw [gt_iff_lt, Int64.lt_iff_toInt_lt, hdepth] at hlong
        have hbeyond : ¬ ((front.length + 1 : Nat) : Int) ≤ policy.maxHops.toInt := by
          push_cast
          omega
        simp only [within, hbeyond, decide_false, Bool.false_and]
      rw [if_pos hlong, pathsFrom, enumerate_of_not_within hoff]
      rfl
    · rw [if_neg hlong, pathsFrom, enumerate, List.map_flatMap]
      have hhops : depth.toInt ≤ policy.maxHops.toInt := by
        rw [gt_iff_lt, Int64.lt_iff_toInt_lt] at hlong
        omega
      apply foldlM_eq_foldl_flatMap
      intro edge hedge findings
      apply visitEdge_eq ((mem_sortedOutEdges hgraph).mp hedge).2.1 hdepth hhops
      intro hfresh hdeeper
      apply ih
      · -- the depth stays below the largest `int`
        have hbounded : depth ≠ Int64.maxValue := by
          rintro rfl
          have hmax := policy.maxHops.toInt_lt
          rw [Int64.lt_iff_toInt_lt, Int64.toInt_maxValue] at hdeeper
          omega
        rw [toInt_add_one hbounded, hdepth]
        simp
      · have hless := unvisited_update (subject_mem_subjects hgraph hedge) hfresh
        omega

/-! ### What is written down -/

/-- The edge map holds the edges of the digests listed so far. -/
def EdgesListed (graph : Graph) (findings : Findings) : Prop :=
  ∀ digest edge, findings.subgraphEdgeSet.lookup digest = some edge ↔
    digest ∈ findings.contributingDigests ∧ graph.edgeByDigest digest = some edge

theorem EdgesListed.addHop {findings : Findings} (h : EdgesListed graph findings) (hop : PathHop) :
    EdgesListed graph (addHop graph findings hop) := by
  intro digest edge
  simp only [Evaluator.addHop, List.mem_append, List.mem_singleton]
  rcases hfound : graph.edgeByDigest hop.recordDigest with _ | found
  · simp only [h digest edge]
    constructor
    · rintro ⟨hlisted, hedge⟩
      exact ⟨.inl hlisted, hedge⟩
    · rintro ⟨hlisted | rfl, hedge⟩
      · exact ⟨hlisted, hedge⟩
      · rw [hfound] at hedge
        cases hedge
  · by_cases hsame : digest = hop.recordDigest
    · subst hsame
      simp [hfound]
    · simp [hsame, h digest edge]

theorem EdgesListed.foldl_addHop {findings : Findings} (h : EdgesListed graph findings)
    (hops : List PathHop) : EdgesListed graph (hops.foldl (Evaluator.addHop graph) findings) := by
  induction hops generalizing findings with
  | nil => exact h
  | cons hop hops ih => exact ih (h.addHop hop)

@[simp] theorem allPaths_foldl_addHop (hops : List PathHop) (findings : Findings) :
    (hops.foldl (addHop graph) findings).allPaths = findings.allPaths := by
  induction hops generalizing findings with
  | nil => rfl
  | cons hop hops ih =>
    rw [List.foldl_cons, ih]
    rfl

theorem contributingDigests_foldl_addHop (hops : List PathHop) (findings : Findings) :
    (hops.foldl (addHop graph) findings).contributingDigests =
      findings.contributingDigests ++ hops.map (·.recordDigest) := by
  induction hops generalizing findings with
  | nil => simp
  | cons hop hops ih => simp [ih, addHop]

theorem mem_subgraphNodeSet_foldl_addHop {hops : List PathHop} {findings : Findings}
    {node : IdentityKey} :
    node ∈ (hops.foldl (addHop graph) findings).subgraphNodeSet ↔
      node ∈ findings.subgraphNodeSet ∨ ∃ hop ∈ hops, node = hop.fromKey ∨ node = hop.toKey := by
  induction hops generalizing findings with
  | nil => simp
  | cons hop hops ih =>
    rw [List.foldl_cons, ih]
    simp only [addHop, AList.mem_insert, List.exists_mem_cons_iff]
    grind

/-- The accumulators after a list of paths, and `direct` when the target was met as a
trust root. -/
structure Reports (graph : Graph) (target : IdentityKey) (direct : Prop) (traces : List PathTrace)
    (findings : Findings) : Prop where
  paths : findings.allPaths = traces
  digests : findings.contributingDigests = traces.flatMap fun trace =>
    trace.hops.map (·.recordDigest)
  nodes : ∀ node, node ∈ findings.subgraphNodeSet ↔ (direct ∧ node = target) ∨
    ∃ trace ∈ traces, node = trace.root ∨ node = target ∨
      ∃ hop ∈ trace.hops, node = hop.fromKey ∨ node = hop.toKey
  edges : EdgesListed graph findings

variable (graph target) in
theorem reports_empty : Reports graph target False [] .empty where
  paths := rfl
  digests := rfl
  nodes node := by simp [Findings.empty]
  edges digest edge := by simp [Findings.empty]

variable {direct : Prop} {traces : List PathTrace} {findings : Findings}

theorem Reports.addPath (h : Reports graph target direct traces findings) (trace : PathTrace) :
    Reports graph target direct (traces ++ [trace]) (addPath graph target findings trace) where
  paths := by
    rw [Evaluator.addPath, allPaths_foldl_addHop, h.paths]
  digests := by
    rw [Evaluator.addPath, contributingDigests_foldl_addHop, h.digests, List.flatMap_append]
    simp
  nodes node := by
    rw [Evaluator.addPath, mem_subgraphNodeSet_foldl_addHop]
    simp only [AList.mem_insert, h.nodes, List.mem_append, List.mem_singleton, or_and_right,
      exists_or, exists_eq_left]
    grind
  edges := by
    rw [Evaluator.addPath]
    apply EdgesListed.foldl_addHop
    exact h.edges

theorem Reports.foldl_addPath (h : Reports graph target direct traces findings)
    (more : List PathTrace) :
    Reports graph target direct (traces ++ more)
      (more.foldl (Evaluator.addPath graph target) findings) := by
  induction more generalizing traces findings with
  | nil => rwa [List.append_nil]
  | cons trace more ih =>
    have hrest := ih (h.addPath trace)
    rwa [List.append_assoc] at hrest

theorem Reports.addTarget (h : Reports graph target direct traces findings) :
    Reports graph target True traces
      { findings with subgraphNodeSet := findings.subgraphNodeSet.insert target () } where
  paths := h.paths
  digests := h.digests
  nodes node := by
    simp only [AList.mem_insert, h.nodes]
    grind
  edges := h.edges

/-! ### All searches -/

/-- The paths that the search from one trust root finds. -/
def rootPaths (graph : Graph) (policy : EvaluationPolicy) (target : IdentityKey) (fuel : Nat)
    (root : TrustRoot) : List (List AttestationEdge) :=
  if root.1 = target then []
  else pathsFrom graph policy target root.2 fuel [] root.1
    (Function.update (fun _ => false) root.1 true)

/-- With enough fuel a search does not depend on it. -/
theorem rootPaths_of_le (hgraph : graph.Indexed) {fuel more : Nat}
    (hfuel : graph.heap.length < fuel) (hmore : fuel ≤ more) (root : TrustRoot) :
    rootPaths graph policy target more root = rootPaths graph policy target fuel root := by
  unfold rootPaths
  by_cases hdirect : root.1 = target
  · rw [if_pos hdirect, if_pos hdirect]
  · rw [if_neg hdirect, if_neg hdirect]
    apply enumerate_of_le _ (unvisited_lt hfuel _) hmore
    intro node edge hedge
    exact subject_mem_subjects hgraph hedge

/-- Every root with every path from it, in the order they are found. -/
def rootedPaths (graph : Graph) (policy : EvaluationPolicy) (target : IdentityKey) (fuel : Nat) :
    List (TrustRoot × List AttestationEdge) :=
  (sortedRoots policy).flatMap fun root =>
    (rootPaths graph policy target fuel root).map fun path => (root, path)

def traceOfPair (policy : EvaluationPolicy) (pair : TrustRoot × List AttestationEdge) : PathTrace :=
  traceOf policy pair.1.1 pair.1.2 pair.2

variable (policy) in
theorem searchRoot_reports (hgraph : graph.Indexed) {fuel : Nat} (hfuel : graph.heap.length < fuel)
    (h : Reports graph target direct traces findings) (root : TrustRoot) :
    ∃ next, searchRoot graph fuel policy target findings root = some next ∧
      Reports graph target (direct ∨ root.1 = target)
        (traces ++ (rootPaths graph policy target fuel root).map (traceOf policy root.1 root.2))
        next := by
  unfold searchRoot rootPaths
  by_cases hdirect : root.1 = target
  · rw [if_pos hdirect, if_pos hdirect, List.map_nil, List.append_nil]
    refine ⟨_, rfl, ?_⟩
    have htarget : (direct ∨ root.1 = target) = True := by simp [hdirect]
    rw [htarget]
    exact h.addTarget
  · have hdepth : (1 : Int64).toInt = ([] : List AttestationEdge).length + 1 := rfl
    have hsearch := findPaths_eq policy target root.1 root.1 root.2 hgraph hdepth
      (unvisited_lt hfuel (Function.update (fun _ => false) root.1 true)) findings
    rw [List.length_nil, pow_zero, mul_one, List.map_nil] at hsearch
    rw [if_neg hdirect, if_neg hdirect, hsearch]
    refine ⟨_, rfl, ?_⟩
    have htarget : (direct ∨ root.1 = target) = direct := by simp [hdirect]
    rw [htarget]
    exact h.foldl_addPath _

variable (policy) in
theorem search_reports (hgraph : graph.Indexed) {fuel : Nat} (hfuel : graph.heap.length < fuel)
    (h : Reports graph target direct traces findings) (roots : List TrustRoot) :
    ∃ final, roots.foldlM (searchRoot graph fuel policy target) findings = some final ∧
      Reports graph target (direct ∨ target ∈ roots.map Sigma.fst)
        (traces ++ roots.flatMap fun root =>
          (rootPaths graph policy target fuel root).map (traceOf policy root.1 root.2)) final := by
  induction roots generalizing direct traces findings with
  | nil =>
    refine ⟨findings, rfl, ?_⟩
    simpa using h
  | cons root roots ih =>
    obtain ⟨next, hnext, hreports⟩ := searchRoot_reports policy hgraph hfuel h root
    obtain ⟨final, hfinal, hrest⟩ := ih hreports
    refine ⟨final, ?_, ?_⟩
    · rw [List.foldlM_cons, hnext]
      exact hfinal
    · have hdirect : (direct ∨ target ∈ (root :: roots).map Sigma.fst) =
          ((direct ∨ root.1 = target) ∨ target ∈ roots.map Sigma.fst) := by
        rw [List.map_cons, List.mem_cons, or_assoc, @eq_comm _ target]
      rw [hdirect, List.flatMap_cons, ← List.append_assoc]
      exact hrest

theorem mem_sortedRoots {entry : TrustRoot} :
    entry ∈ sortedRoots policy ↔ policy.trustRoots.lookup entry.1 = some entry.2 := by
  rw [sortedRoots, sortedRootsIn, mem_sortBy]
  exact AList.mem_lookup_iff.symm

theorem mem_keys_sortedRoots : target ∈ (sortedRoots policy).map Sigma.fst ↔
    target ∈ policy.trustRoots := by
  have hperm := (sortBy_perm (fun root : TrustRoot => IdentityKey.hexValue root.1)
    policy.trustRoots.entries).map Sigma.fst
  exact hperm.mem_iff

/-- The searches from all trust roots return, and report every path from every root. -/
theorem search_eq (hgraph : graph.Indexed) (policy : EvaluationPolicy) (target : IdentityKey)
    {fuel : Nat} (hfuel : graph.heap.length < fuel) :
    ∃ findings, (sortedRoots policy).foldlM (searchRoot graph fuel policy target) .empty =
        some findings ∧
      Reports graph target (target ∈ policy.trustRoots)
        ((rootedPaths graph policy target fuel).map (traceOfPair policy)) findings := by
  obtain ⟨findings, hfindings, hreports⟩ := search_reports policy hgraph hfuel
    (reports_empty graph target) (sortedRoots policy)
  refine ⟨findings, hfindings, ?_⟩
  rw [false_or, mem_keys_sortedRoots, List.nil_append] at hreports
  simp only [rootedPaths, List.map_flatMap, List.map_map]
  exact hreports

/-- `Evaluate` returns what the searches report, whatever the number of hops. -/
theorem evaluate_eq (hgraph : graph.Indexed) {normal : EvaluationPolicy}
    (hvalid : policy.validate = .ok normal) (target : IdentityKey) {fuel : Nat}
    (hfuel : graph.heap.length < fuel) :
    ∃ findings, evaluate graph fuel policy target =
        some (.ok (assemble graph normal target findings)) ∧
      Reports graph target (target ∈ normal.trustRoots)
        ((rootedPaths graph normal target fuel).map (traceOfPair normal)) findings := by
  obtain ⟨findings, hfindings, hreports⟩ := search_eq hgraph normal target hfuel
  refine ⟨findings, ?_, hreports⟩
  rw [evaluate_of_ok graph fuel target hvalid, hfindings, Option.map_some]

end AttributionChain.Evaluator

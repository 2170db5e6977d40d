import AttributionChain.BigEndian
import AttributionChain.Graph
import AttributionChain.Hex
import AttributionChain.Sorting
import Mathlib.Algebra.Order.Ring.Rat
import Mathlib.Tactic.NormNum

/-!
# Evaluation policies and the evaluator

`internal/graph/v1`: `policy.go`, `provenance.go` and `evaluator.go`.  Weights are exact
rationals instead of `float64`.  `findPaths` recurses along the edges of the graph with a
map of visited nodes that it changes and restores, and writes what it finds into four
accumulators.  Here these are passed along explicitly, with fuel for the recursion
depth, and `none` is running out of fuel.

`Evaluate` iterates over three Go maps, whose order is random.  `Orders` are the
rearrangements that these iterations may come with; `evaluateIn` is `Evaluate` under them,
and `evaluate` has them in the order of insertion.

The explanation text of a result is left out, and a nil slice in a result is an empty
list.
-/

namespace AttributionChain

/-! ### Hexadecimal keys -/

/-- `IdentityKey.Hex` -/
def IdentityKey.hex (key : IdentityKey) : Bytes := hexEncode key.bytes

/-- The sort key of identities: `left.Hex() < right.Hex()` compares it. -/
def IdentityKey.hexValue (key : IdentityKey) : Nat := beValue key.hex

theorem IdentityKey.hexValue_lt_iff {left right : IdentityKey} :
    IdentityKey.hexValue left < IdentityKey.hexValue right ↔
      IdentityKey.hex left < IdentityKey.hex right := by
  refine (lt_iff_beValue_lt ?_).symm
  rw [IdentityKey.hex, IdentityKey.hex, length_hexEncode, length_hexEncode, left.length_eq,
    right.length_eq]

/-! ### Map iterations -/

/-- A rearrangement of lists. -/
structure Shuffle (α : Type) where
  list : List α → List α
  perm : ∀ items, (list items).Perm items

/-- Iterations in the order of insertion. -/
def Shuffle.inOrder (α : Type) : Shuffle α := ⟨fun items => items, fun items => .refl items⟩

abbrev TrustRoot := Sigma fun _ : IdentityKey => ℚ

/-! ### Policies -/

def defaultAlgorithmVersion : Bytes := ascii "transitive-path-damping:v1"
def defaultMaxHops : Int64 := 3
def defaultDecayFactor : ℚ := 6 / 10
def defaultMinConfidence : ℚ := 1 / 1000

structure EvaluationPolicy where
  trustRoots : AList fun _ : IdentityKey => ℚ
  topic : Bytes
  maxHops : Int64
  decayFactor : ℚ
  minConfidence : ℚ
  algorithmVersion : Bytes
deriving DecidableEq

inductive PolicyError where
  | emptyTrustRoots
  | invalidTrustWeight (root : IdentityKey) (weight : ℚ)
  | invalidDecayFactor
  | invalidMaxHops
deriving DecidableEq

/-- The text of an error, less the key and weight it prints. -/
def PolicyError.text : PolicyError → String
  | .emptyTrustRoots => "trust roots map cannot be empty"
  | .invalidTrustWeight _ _ => "trust root weight must be in (0, 1.0]: root "
  | .invalidDecayFactor => "decay factor must be in (0, 1.0)"
  | .invalidMaxHops => "max hops must be greater than 0"

/-- `NewDefaultPolicy` -/
def newDefaultPolicy (trustRoots : AList fun _ : IdentityKey => ℚ) (topic : Bytes) :
    EvaluationPolicy where
  trustRoots := trustRoots
  topic := topic
  maxHops := defaultMaxHops
  decayFactor := defaultDecayFactor
  minConfidence := defaultMinConfidence
  algorithmVersion := defaultAlgorithmVersion

namespace EvaluationPolicy

/-- The loop of `Validate` over the trust roots. -/
def checkWeights : List TrustRoot → Except PolicyError Unit
  | [] => .ok ()
  | root :: roots => do
    failIf (root.2 ≤ 0 ∨ 1 < root.2) (.invalidTrustWeight root.1 root.2)
    checkWeights roots

/-- The defaults that `Validate` fills in. -/
def normalize (policy : EvaluationPolicy) : EvaluationPolicy :=
  { policy with
    algorithmVersion :=
      if policy.algorithmVersion = [] then defaultAlgorithmVersion else policy.algorithmVersion
    minConfidence :=
      if policy.minConfidence ≤ 0 then defaultMinConfidence else policy.minConfidence }

/-- `Validate` with the trust roots in some order, which also returns the policy it has
normalised. -/
def validateIn (order : Shuffle TrustRoot) (policy : EvaluationPolicy) :
    Except PolicyError EvaluationPolicy := do
  failIf (policy.trustRoots.entries.length = 0) .emptyTrustRoots
  checkWeights (order.list policy.trustRoots.entries)
  failIf (policy.maxHops ≤ 0) .invalidMaxHops
  failIf (policy.decayFactor ≤ 0 ∨ 1 ≤ policy.decayFactor) .invalidDecayFactor
  return policy.normalize

def validate (policy : EvaluationPolicy) : Except PolicyError EvaluationPolicy :=
  validateIn (.inOrder _) policy

/-- What `Validate` checks. -/
structure Valid (policy : EvaluationPolicy) : Prop where
  nonempty : policy.trustRoots.entries ≠ []
  weights : ∀ root weight, policy.trustRoots.lookup root = some weight → 0 < weight ∧ weight ≤ 1
  maxHops : 0 < policy.maxHops.toInt
  decayFactor : 0 < policy.decayFactor ∧ policy.decayFactor < 1

variable {policy normal : EvaluationPolicy}

theorem checkWeights_eq_ok {roots : List TrustRoot} {done : Unit} :
    checkWeights roots = .ok done ↔ ∀ root ∈ roots, 0 < root.2 ∧ root.2 ≤ 1 := by
  induction roots with
  | nil => simp [checkWeights]
  | cons root roots ih =>
    rw [checkWeights, failIf_bind_eq_ok, ih, List.forall_mem_cons, not_or, not_le, not_lt]

theorem validateIn_eq_ok {order : Shuffle TrustRoot} :
    validateIn order policy = .ok normal ↔ policy.Valid ∧ normal = policy.normalize := by
  have hpos : ¬ policy.maxHops ≤ 0 ↔ 0 < policy.maxHops.toInt := by
    rw [Int64.le_iff_toInt_le]
    simp
  have hweights : (∀ root ∈ order.list policy.trustRoots.entries, 0 < root.2 ∧ root.2 ≤ 1) ↔
      ∀ root weight, policy.trustRoots.lookup root = some weight → 0 < weight ∧ weight ≤ 1 := by
    simp only [(order.perm policy.trustRoots.entries).mem_iff]
    constructor
    · intro h root weight hlookup
      exact h ⟨root, weight⟩ (AList.mem_lookup_iff.mp hlookup)
    · rintro h ⟨root, weight⟩ hentry
      exact h root weight (AList.mem_lookup_iff.mpr hentry)
  unfold validateIn
  rw [failIf_bind_eq_ok, bind_eq_ok]
  constructor
  · rintro ⟨hnonempty, done, hloop, hrest⟩
    rw [failIf_bind_eq_ok, failIf_bind_eq_ok] at hrest
    obtain ⟨hhops, hdecay, hnormal⟩ := hrest
    rw [not_or, not_le, not_le] at hdecay
    refine ⟨⟨?_, hweights.mp (checkWeights_eq_ok.mp hloop), hpos.mp hhops, hdecay⟩, ?_⟩
    · simpa using hnonempty
    · exact (Except.ok.inj hnormal).symm
  · rintro ⟨hvalid, rfl⟩
    refine ⟨by simpa using hvalid.nonempty, (),
      checkWeights_eq_ok.mpr (hweights.mpr hvalid.weights), ?_⟩
    rw [failIf_bind_eq_ok, failIf_bind_eq_ok, not_or, not_le, not_le]
    exact ⟨hpos.mpr hvalid.maxHops, hvalid.decayFactor, rfl⟩

theorem validate_eq_ok :
    policy.validate = .ok normal ↔ policy.Valid ∧ normal = policy.normalize := validateIn_eq_ok

theorem Valid.normalize (h : policy.Valid) : policy.normalize.Valid :=
  ⟨h.nonempty, h.weights, h.maxHops, h.decayFactor⟩

/-- A normalised policy is a valid one. -/
theorem valid_of_validate (h : policy.validate = .ok normal) : normal.Valid := by
  obtain ⟨hvalid, rfl⟩ := validate_eq_ok.mp h
  exact hvalid.normalize

theorem normalize_of_pos (h : 0 < policy.minConfidence) :
    policy.normalize.minConfidence = policy.minConfidence := if_neg (not_le.mpr h)

/-- **Every default passes its own check.** -/
theorem validate_newDefaultPolicy {trustRoots : AList fun _ : IdentityKey => ℚ} (topic : Bytes)
    (hnonempty : trustRoots.entries ≠ [])
    (hweights : ∀ root weight, trustRoots.lookup root = some weight → 0 < weight ∧ weight ≤ 1) :
    (newDefaultPolicy trustRoots topic).validate = .ok (newDefaultPolicy trustRoots topic) := by
  have hversion : (newDefaultPolicy trustRoots topic).algorithmVersion ≠ [] :=
    (by decide : defaultAlgorithmVersion ≠ [])
  have hmin : ¬ (newDefaultPolicy trustRoots topic).minConfidence ≤ 0 := by
    norm_num [newDefaultPolicy, defaultMinConfidence]
  apply validate_eq_ok.mpr
  constructor
  · refine ⟨hnonempty, hweights, ?_, ?_⟩
    · exact (by decide : 0 < defaultMaxHops.toInt)
    · norm_num [newDefaultPolicy, defaultDecayFactor]
  · rw [normalize, if_neg hversion, if_neg hmin]

/-- The weight of a trust root, zero for other identities. -/
def weightOf (policy : EvaluationPolicy) (root : IdentityKey) : ℚ :=
  (policy.trustRoots.lookup root).getD 0

end EvaluationPolicy

/-! ### Results -/

structure PathHop where
  fromKey : IdentityKey
  toKey : IdentityKey
  topic : Bytes
  recordDigest : Digest
  sequence : UInt64
deriving DecidableEq

structure PathTrace where
  root : IdentityKey
  rootWeight : ℚ
  hops : List PathHop
  pathWeight : ℚ
deriving DecidableEq

structure ProvenanceSubgraph where
  nodes : List IdentityKey
  edges : List AttestationEdge
deriving DecidableEq

structure ConfidenceResult where
  target : IdentityKey
  topic : Bytes
  confidenceScore : ℚ
  algorithm : Bytes
  evaluatedAtSequence : UInt64
  contributingPaths : List PathTrace
  contributingRecords : List Digest
  provenanceSubgraph : ProvenanceSubgraph
deriving DecidableEq

/-- `DeduplicateDigests`: `bytes.Compare` orders digests by their value. -/
def deduplicateDigests (digests : List Digest) : List Digest :=
  dropRepeats none (sortBy (fun digest => beValue digest.bytes) digests)

theorem mem_deduplicateDigests {digests : List Digest} {digest : Digest} :
    digest ∈ deduplicateDigests digests ↔ digest ∈ digests := by
  rw [deduplicateDigests, mem_dropRepeats (by simp), mem_sortBy]

theorem deduplicateDigests_strict (digests : List Digest) :
    (deduplicateDigests digests).Pairwise fun left right => left.bytes < right.bytes := by
  have hlength : ∀ left right : Digest, left.bytes.length = right.bytes.length := by
    intro left right
    rw [left.length_eq, right.length_eq]
  have hinj : Function.Injective fun digest : Digest => beValue digest.bytes := by
    intro left right hvalue
    exact FixedBytes.ext (beValue_injective (hlength left right) hvalue)
  have hstrict : (deduplicateDigests digests).Pairwise fun left right =>
      beValue left.bytes < beValue right.bytes :=
    (dropRepeats_strict hinj (sortBy_pairwise _ digests) (by simp)).1
  refine hstrict.imp ?_
  intro left right hlt
  exact (lt_iff_beValue_lt (hlength left right)).mpr hlt

/-! ### The evaluator -/

namespace Evaluator

/-- The accumulators that `Evaluate` shares with `findPaths`. -/
structure Findings where
  allPaths : List PathTrace
  subgraphNodeSet : AList fun _ : IdentityKey => Unit
  subgraphEdgeSet : AList fun _ : Digest => AttestationEdge
  contributingDigests : List Digest

def Findings.empty : Findings := ⟨[], ∅, ∅, []⟩

abbrev Visited := IdentityKey → Bool

/-- The hop that `findPaths` builds for an edge out of `current`. -/
def hopOf (current : IdentityKey) (edge : AttestationEdge) : PathHop where
  fromKey := current
  toKey := edge.subject
  topic := edge.topic
  recordDigest := edge.recordDigest
  sequence := edge.sequence

/-- The loop over the hops of a winning path. -/
def addHop (graph : Graph) (findings : Findings) (hop : PathHop) : Findings :=
  { findings with
    subgraphNodeSet := (findings.subgraphNodeSet.insert hop.fromKey ()).insert hop.toKey ()
    subgraphEdgeSet :=
      match graph.edgeByDigest hop.recordDigest with
      | some edge => findings.subgraphEdgeSet.insert hop.recordDigest edge
      | none => findings.subgraphEdgeSet
    contributingDigests := findings.contributingDigests ++ [hop.recordDigest] }

/-- What `findPaths` does with a path that reaches the target. -/
def addPath (graph : Graph) (target : IdentityKey) (findings : Findings) (trace : PathTrace) :
    Findings :=
  trace.hops.foldl (addHop graph)
    { findings with
      allPaths := findings.allPaths ++ [trace]
      subgraphNodeSet := (findings.subgraphNodeSet.insert trace.root ()).insert target () }

section Search

variable (graph : Graph) (policy : EvaluationPolicy) (target root : IdentityKey) (rootWeight : ℚ)

/-- The body of the loop over the out edges, given the recursive call. -/
def visitEdge
    (recurse : IdentityKey → ℚ → List PathHop → Int64 → Findings × Visited →
      Option (Findings × Visited))
    (current : IdentityKey) (currentWeight : ℚ) (currentHops : List PathHop) (depth : Int64)
    (found : Findings × Visited) (edge : AttestationEdge) : Option (Findings × Visited) :=
  if found.2 edge.subject = true then some found
  else if currentWeight * policy.decayFactor < policy.minConfidence then some found
  else if edge.subject = target then
    some (addPath graph target found.1
      { root := root
        rootWeight := rootWeight
        hops := currentHops ++ [hopOf current edge]
        pathWeight := currentWeight * policy.decayFactor }, found.2)
  else if depth < policy.maxHops then
    (recurse edge.subject (currentWeight * policy.decayFactor) (currentHops ++ [hopOf current edge])
      (depth + 1) (found.1, Function.update found.2 edge.subject true)).map fun after =>
        (after.1, Function.update after.2 edge.subject false)
  else some found

/-- The active edges out of a node that match the topic, by sequence number. -/
def sortedOutEdges (current : IdentityKey) : List AttestationEdge :=
  sortBy (fun edge => edge.sequence.toNat) (graph.outEdgesOf current policy.topic true)

def findPaths : Nat → IdentityKey → ℚ → List PathHop → Int64 → Findings × Visited →
    Option (Findings × Visited)
  | 0, _, _, _, _, _ => none
  | fuel + 1, current, currentWeight, currentHops, depth, found =>
    if depth > policy.maxHops then some found
    else (sortedOutEdges graph policy current).foldlM (visitEdge graph policy target root rootWeight
      (findPaths fuel) current currentWeight currentHops depth) found

end Search

/-- The body of the loop over the trust roots. -/
def searchRoot (graph : Graph) (fuel : Nat) (policy : EvaluationPolicy) (target : IdentityKey)
    (findings : Findings) (root : TrustRoot) : Option Findings :=
  if root.1 = target then
    some { findings with subgraphNodeSet := findings.subgraphNodeSet.insert target () }
  else
    (findPaths graph policy target root.1 root.2 fuel root.1 root.2 [] 1
      (findings, Function.update (fun _ => false) root.1 true)).map Prod.fst

/-- The orders in which the maps are iterated: the trust roots in `Validate` and in
`Evaluate`, the node set and the edge map. -/
structure Orders where
  weights : Shuffle TrustRoot
  roots : Shuffle TrustRoot
  nodes : Shuffle IdentityKey
  edges : Shuffle AttestationEdge

def Orders.inOrder : Orders := ⟨.inOrder _, .inOrder _, .inOrder _, .inOrder _⟩

/-- The sorted trust roots, collected in some order -/
def sortedRootsIn (order : Shuffle TrustRoot) (policy : EvaluationPolicy) : List TrustRoot :=
  sortBy (fun root => IdentityKey.hexValue root.1) (order.list policy.trustRoots.entries)

def sortedRoots (policy : EvaluationPolicy) : List TrustRoot := sortedRootsIn (.inOrder _) policy

/-- The doubt that the direct trust in the target and the paths to it leave. -/
def unconfidence (policy : EvaluationPolicy) (target : IdentityKey) (paths : List PathTrace) : ℚ :=
  paths.foldl (fun unconfidence path => unconfidence * (1 - path.pathWeight))
    (1 - policy.weightOf target)

/-- The result that `Evaluate` assembles, with the nodes and edges of the subgraph collected
in some order -/
def assembleIn (orders : Orders) (graph : Graph) (policy : EvaluationPolicy) (target : IdentityKey)
    (findings : Findings) : ConfidenceResult where
  target := target
  topic := policy.topic
  confidenceScore := max 0 (min 1 (1 - unconfidence policy target findings.allPaths))
  algorithm := policy.algorithmVersion
  evaluatedAtSequence := graph.lastSequence
  contributingPaths := findings.allPaths
  contributingRecords := deduplicateDigests findings.contributingDigests
  provenanceSubgraph :=
    { nodes := sortBy IdentityKey.hexValue
        (orders.nodes.list (findings.subgraphNodeSet.entries.map Sigma.fst))
      edges := sortBy (fun edge => edge.sequence.toNat)
        (orders.edges.list (findings.subgraphEdgeSet.entries.map Sigma.snd)) }

def assemble (graph : Graph) (policy : EvaluationPolicy) (target : IdentityKey)
    (findings : Findings) : ConfidenceResult :=
  assembleIn .inOrder graph policy target findings

inductive EvaluateError where
  | invalidPolicy (err : PolicyError)
deriving DecidableEq

def EvaluateError.text : EvaluateError → String
  | .invalidPolicy err => "invalid evaluation policy: " ++ err.text

/-- `Evaluate` with the maps iterated in the given orders, and a recursion depth as fuel -/
def evaluateIn (orders : Orders) (graph : Graph) (fuel : Nat) (policy : EvaluationPolicy)
    (target : IdentityKey) : Option (Except EvaluateError ConfidenceResult) :=
  match policy.validateIn orders.weights with
  | .error err => some (.error (.invalidPolicy err))
  | .ok policy =>
    ((sortedRootsIn orders.roots policy).foldlM (searchRoot graph fuel policy target)
      .empty).map fun findings => .ok (assembleIn orders graph policy target findings)

def evaluate (graph : Graph) (fuel : Nat) (policy : EvaluationPolicy) (target : IdentityKey) :
    Option (Except EvaluateError ConfidenceResult) :=
  evaluateIn .inOrder graph fuel policy target

section Evaluate

variable {policy normal : EvaluationPolicy} (graph : Graph) (fuel : Nat) (target : IdentityKey)

theorem evaluate_of_error {err : PolicyError} (h : policy.validate = .error err) :
    evaluate graph fuel policy target = some (.error (.invalidPolicy err)) := by
  rw [EvaluationPolicy.validate] at h
  simp only [evaluate, evaluateIn, Orders.inOrder, h]

theorem evaluate_of_ok (h : policy.validate = .ok normal) :
    evaluate graph fuel policy target =
      ((sortedRoots normal).foldlM (searchRoot graph fuel normal target) .empty).map
        fun findings => .ok (assemble graph normal target findings) := by
  rw [EvaluationPolicy.validate] at h
  simp only [evaluate, evaluateIn, Orders.inOrder, h, sortedRoots, assemble]

end Evaluate

end Evaluator

end AttributionChain

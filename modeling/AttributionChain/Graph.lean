import AttributionChain.EndorsementCanonical
import Mathlib.Data.List.AList

/-!
# The attestation graph

`internal/graph/v1`: identity keys, attestation edges and the in-memory graph.
Go shares one `*AttestationEdge` between four maps and revokes it in place.
Here the edges live in `heap`, in the order they were added, and the maps hold
their positions, so a revocation changes one heap cell and is seen through every
map.

The projector only learns about edges through `edgeByDigest`.  `addEdge_eq_ok`
and `revokeEdge_eq_ok` state when an operation succeeds in terms of it, and
`edgeByDigest_insertEdge` and `edgeByDigest_markRevoked` what it returns afterwards.
Both need that the digest map is `Addressed`: it points into the heap, at edges
with the digest looked up.
-/

namespace AttributionChain

open Ecdsa Endorsement

/-! ### Identity keys -/

/-- An uncompressed P-256 point. -/
abbrev IdentityKey := FixedBytes 65

inductive IdentityKeyError where
  | invalidLength (length : Nat)
  | invalidFormat
  | invalidCurvePoint
  | nilPublicKey
  | encodePublicKey
deriving DecidableEq, Repr

/-- The text of an error, less what `crypto/ecdsa` writes. -/
def IdentityKeyError.text : IdentityKeyError → String
  | .invalidLength length => "identity key must be exactly 65 bytes: got " ++ toString length
  | .invalidFormat => "identity key must start with uncompressed SEC1 prefix 0x04"
  | .invalidCurvePoint => "identity key is not a valid P-256 curve point: "
  | .nilPublicKey => "public key cannot be nil"
  | .encodePublicKey => "encode public key bytes: "

def identityKeyFromBytes (encoded : Bytes) : Except IdentityKeyError IdentityKey := do
  failIf (encoded.length ≠ 65) (.invalidLength encoded.length)
  failIf (encoded.head? ≠ some 0x04) .invalidFormat
  let _ ← orError (parseUncompressedPublicKey .p256 encoded) .invalidCurvePoint
  return FixedBytes.copyFrom 65 encoded

def identityKeyFromPublicKey (pub : Option PublicKey) : Except IdentityKeyError IdentityKey := do
  let pub ← orError pub .nilPublicKey
  let encoded ← orError pub.bytes .encodePublicKey
  identityKeyFromBytes encoded

/-- `IdentityKey.PublicKey`; `none` is its error. -/
def IdentityKey.publicKey (key : IdentityKey) : Option PublicKey :=
  parseUncompressedPublicKey .p256 key.bytes

/-- The identity of a key that the payload decoder returned. -/
def identityOf (pub : Option PublicKey) : IdentityKey :=
  FixedBytes.copyFrom 65 ((pub.bind PublicKey.bytes).getD [])

/-- A key read from a payload has an identity. -/
theorem identityKeyFromPublicKey_of_decode {encoded : Slice} {pub : PublicKey}
    (h : decodePublicKey encoded = .ok pub) :
    identityKeyFromPublicKey (some pub) = .ok (identityOf (some pub)) := by
  obtain ⟨bytes, -, hparse⟩ := decodePublicKey_eq_ok.mp h
  obtain ⟨hcurve, hbytes⟩ := bytes_of_parseUncompressedPublicKey hparse
  have hlength : bytes.length = 65 := (length_bytes_eq_65_iff hbytes).mpr hcurve
  have hhead : bytes.head? = some 0x04 := by
    unfold PublicKey.bytes at hbytes
    split at hbytes
    · cases hbytes
    · split at hbytes
      · cases hbytes
        rfl
      · cases hbytes
  simp only [identityKeyFromPublicKey, orError_some, ok_bind, hbytes, identityKeyFromBytes, hparse,
    failIf_neg (not_not.mpr hlength), failIf_neg (not_not.mpr hhead), identityOf, Option.bind_some,
    Option.getD_some]
  rfl

/-- The identity of a key read from a payload stands for that key. -/
theorem publicKey_identityOf {encoded : Slice} {pub : PublicKey}
    (h : decodePublicKey encoded = .ok pub) :
    IdentityKey.publicKey (identityOf (some pub)) = some pub := by
  obtain ⟨bytes, -, hparse⟩ := decodePublicKey_eq_ok.mp h
  obtain ⟨hcurve, hbytes⟩ := bytes_of_parseUncompressedPublicKey hparse
  have hlength : bytes.length = 65 := (length_bytes_eq_65_iff hbytes).mpr hcurve
  rw [IdentityKey.publicKey, identityOf, Option.bind_some, hbytes, Option.getD_some,
    FixedBytes.bytes_copyFrom hlength]
  exact hparse

/-! ### Edges -/

structure AttestationEdge where
  recordDigest : Digest
  sequence : UInt64
  proposer : IdentityKey
  subject : IdentityKey
  topic : Bytes
  claimBody : Bytes
  proposedAtUnixMS : UInt64
  acceptedAtUnixMS : UInt64
  isActive : Bool
  revokedAtUnixMS : Option UInt64
  revocationRecordDigest : Option Digest
  revocationReason : Bytes
  revokerRole : RevokerRole
deriving DecidableEq

/-- `NewAttestationEdge`; the claim is copied into a non-nil slice. -/
def newAttestationEdge (recordDigest : Digest) (sequence : UInt64) (proposer subject : IdentityKey)
    (topic : Bytes) (claimBody : Slice) (proposedAtUnixMS acceptedAtUnixMS : UInt64) :
    AttestationEdge where
  recordDigest := recordDigest
  sequence := sequence
  proposer := proposer
  subject := subject
  topic := topic
  claimBody := claimBody.getD []
  proposedAtUnixMS := proposedAtUnixMS
  acceptedAtUnixMS := acceptedAtUnixMS
  isActive := true
  revokedAtUnixMS := none
  revocationRecordDigest := none
  revocationReason := []
  revokerRole := 0

/-- What `RevokeEdge` writes into an edge. -/
def AttestationEdge.revoke (edge : AttestationEdge) (role : RevokerRole) (revokedAt : UInt64)
    (revocationDigest : Digest) (reason : Bytes) : AttestationEdge :=
  { edge with
    isActive := false
    revokedAtUnixMS := some revokedAt
    revocationRecordDigest := some revocationDigest
    revocationReason := reason
    revokerRole := role }

/-- `*new(AttestationEdge)` -/
def AttestationEdge.zero : AttestationEdge where
  recordDigest := FixedBytes.zero 32
  sequence := 0
  proposer := FixedBytes.zero 65
  subject := FixedBytes.zero 65
  topic := []
  claimBody := []
  proposedAtUnixMS := 0
  acceptedAtUnixMS := 0
  isActive := false
  revokedAtUnixMS := none
  revocationRecordDigest := none
  revocationReason := []
  revokerRole := 0

/-! ### The graph -/

/-- A position in the heap, for a Go `*AttestationEdge`. -/
abbrev EdgeRef := Nat

structure Graph where
  ledgerID : LedgerID
  lastSequence : UInt64
  heap : List AttestationEdge
  nodes : Finset IdentityKey
  edgesByDigest : AList fun _ : Digest => EdgeRef
  outEdges : AList fun _ : IdentityKey => List EdgeRef
  inEdges : AList fun _ : IdentityKey => List EdgeRef
  topicIndex : AList fun _ : Bytes => List EdgeRef
deriving DecidableEq

inductive GraphError where
  | edgeNotFound (target : Digest)
  | edgeAlreadyRevoked (target : Digest)
  | notProposer (revoker proposer : IdentityKey)
  | notSubject (revoker subject : IdentityKey)
  | unknownRevokerRole (role : RevokerRole)
  | duplicateEdge (digest : Digest)
deriving DecidableEq

/-- The text of an error, less the digests and keys it prints. -/
def GraphError.text : GraphError → String
  | .edgeNotFound _ => "target attestation edge not found: "
  | .edgeAlreadyRevoked _ => "attestation edge is already revoked: "
  | .notProposer _ _ | .notSubject _ _ => "revoker public key does not match proposer or subject: "
  | .unknownRevokerRole role => "unknown revoker role: " ++ toString role
  | .duplicateEdge _ => "attestation edge with record digest already exists: "

/-- `index[key] = append(index[key], ref)` -/
def appendRef {κ : Type} [DecidableEq κ] (index : AList fun _ : κ => List EdgeRef) (key : κ)
    (ref : EdgeRef) : AList fun _ : κ => List EdgeRef :=
  index.insert key ((index.lookup key).getD [] ++ [ref])

namespace Graph

/-- `NewGraph` -/
def newGraph (ledgerID : LedgerID) : Graph where
  ledgerID := ledgerID
  lastSequence := 0
  heap := []
  nodes := ∅
  edgesByDigest := ∅
  outEdges := ∅
  inEdges := ∅
  topicIndex := ∅

def setLastSequence (graph : Graph) (sequence : UInt64) : Graph :=
  { graph with lastSequence := sequence }

/-- The edge behind a reference.  References never dangle: see `Addressed`. -/
def deref (graph : Graph) (ref : EdgeRef) : AttestationEdge := graph.heap.getD ref .zero

def edgeByDigest (graph : Graph) (digest : Digest) : Option AttestationEdge :=
  (graph.edgesByDigest.lookup digest).map graph.deref

/-- The body of `AddEdge` once the digest is known to be new. -/
def insertEdge (graph : Graph) (edge : AttestationEdge) : Graph :=
  let ref := graph.heap.length
  { graph with
    heap := graph.heap ++ [edge]
    edgesByDigest := graph.edgesByDigest.insert edge.recordDigest ref
    nodes := insert edge.subject (insert edge.proposer graph.nodes)
    outEdges := appendRef graph.outEdges edge.proposer ref
    inEdges := appendRef graph.inEdges edge.subject ref
    topicIndex := appendRef graph.topicIndex edge.topic ref
    lastSequence :=
      if edge.sequence > graph.lastSequence then edge.sequence else graph.lastSequence }

/-- `AddEdge` of a non-nil edge -/
def addEdge (graph : Graph) (edge : AttestationEdge) : Graph × Option GraphError :=
  match graph.edgesByDigest.lookup edge.recordDigest with
  | some _ => (graph, some (.duplicateEdge edge.recordDigest))
  | none => (graph.insertEdge edge, none)

/-- The check of the revoker against the edge. -/
def checkRevoker (edge : AttestationEdge) (revoker : IdentityKey) (role : RevokerRole) :
    Except GraphError Unit :=
  if role = revokerRoleProposer then
    failIf (revoker ≠ edge.proposer) (.notProposer revoker edge.proposer)
  else if role = revokerRoleSubject then
    failIf (revoker ≠ edge.subject) (.notSubject revoker edge.subject)
  else .error (.unknownRevokerRole role)

/-- The writes of `RevokeEdge` through the pointer it looked up. -/
def markRevoked (graph : Graph) (ref : EdgeRef) (revoked : AttestationEdge)
    (revocationSequence : UInt64) : Graph :=
  { graph with
    heap := graph.heap.set ref revoked
    lastSequence :=
      if revocationSequence > graph.lastSequence then revocationSequence else graph.lastSequence }

def revokeEdge (graph : Graph) (targetDigest : Digest) (revoker : IdentityKey) (role : RevokerRole)
    (revokedAt : UInt64) (revocationDigest : Digest) (reason : Bytes)
    (revocationSequence : UInt64) : Graph × Option GraphError :=
  match graph.edgesByDigest.lookup targetDigest with
  | none => (graph, some (.edgeNotFound targetDigest))
  | some ref =>
    let edge := graph.deref ref
    if edge.isActive = false then (graph, some (.edgeAlreadyRevoked targetDigest))
    else
      match checkRevoker edge revoker role with
      | .error err => (graph, some err)
      | .ok () =>
        (graph.markRevoked ref (edge.revoke role revokedAt revocationDigest reason)
          revocationSequence, none)

/-- The filter that `OutEdges` and `InEdges` share. -/
def selectEdges (graph : Graph) (refs : List EdgeRef) (topic : Bytes) (activeOnly : Bool) :
    List AttestationEdge :=
  (refs.map graph.deref).filter fun edge =>
    !(activeOnly && !edge.isActive) && !(topic ≠ [] && edge.topic ≠ topic)

/-- `OutEdges` -/
def outEdgesOf (graph : Graph) (proposer : IdentityKey) (topic : Bytes) (activeOnly : Bool) :
    List AttestationEdge :=
  graph.selectEdges ((graph.outEdges.lookup proposer).getD []) topic activeOnly

/-- `InEdges` -/
def inEdgesOf (graph : Graph) (subject : IdentityKey) (topic : Bytes) (activeOnly : Bool) :
    List AttestationEdge :=
  graph.selectEdges ((graph.inEdges.lookup subject).getD []) topic activeOnly

def topicEdges (graph : Graph) (topic : Bytes) (activeOnly : Bool) : List AttestationEdge :=
  (((graph.topicIndex.lookup topic).getD []).map graph.deref).filter fun edge =>
    !(activeOnly && !edge.isActive)

def nodeCount (graph : Graph) : Nat := graph.nodes.card

def edgeCount (graph : Graph) : Nat := graph.edgesByDigest.entries.length

def activeEdgeCount (graph : Graph) : Nat :=
  graph.edgesByDigest.entries.countP fun entry => (graph.deref entry.2).isActive

/-! ### What an operation does -/

variable {graph next : Graph} {edge revoked : AttestationEdge} {digest target : Digest}
  {ref : EdgeRef}

/-- The digest map points into the heap, at the edges it is keyed by. -/
structure Addressed (graph : Graph) : Prop where
  inHeap : ∀ digest ref, graph.edgesByDigest.lookup digest = some ref → ref < graph.heap.length
  digest : ∀ digest ref, graph.edgesByDigest.lookup digest = some ref →
    (graph.deref ref).recordDigest = digest

theorem edgeByDigest_eq_none :
    graph.edgeByDigest digest = none ↔ graph.edgesByDigest.lookup digest = none :=
  Option.map_eq_none_iff

theorem edgeByDigest_eq_some :
    graph.edgeByDigest digest = some edge ↔
      ∃ ref, graph.edgesByDigest.lookup digest = some ref ∧ graph.deref ref = edge :=
  Option.map_eq_some_iff

theorem addressed_newGraph (ledgerID : LedgerID) : (newGraph ledgerID).Addressed := by
  constructor
  · intro digest ref hlookup
    cases hlookup
  · intro digest ref hlookup
    cases hlookup

@[simp] theorem edgeByDigest_newGraph (ledgerID : LedgerID) (digest : Digest) :
    (newGraph ledgerID).edgeByDigest digest = none := rfl

theorem Addressed.setLastSequence (h : graph.Addressed) (sequence : UInt64) :
    (graph.setLastSequence sequence).Addressed := ⟨h.inHeap, h.digest⟩

@[simp] theorem edgeByDigest_setLastSequence (sequence : UInt64) :
    (graph.setLastSequence sequence).edgeByDigest digest = graph.edgeByDigest digest := rfl

theorem addEdge_eq_ok :
    graph.addEdge edge = (next, none) ↔
      graph.edgeByDigest edge.recordDigest = none ∧ next = graph.insertEdge edge := by
  rw [edgeByDigest_eq_none, addEdge]
  rcases graph.edgesByDigest.lookup edge.recordDigest with _ | ref
  · simp [eq_comm]
  · simp

theorem deref_insertEdge (hin : ref < graph.heap.length) :
    (graph.insertEdge edge).deref ref = graph.deref ref := by
  simp [deref, insertEdge, List.getElem?_append_left hin]

theorem deref_insertEdge_new : (graph.insertEdge edge).deref graph.heap.length = edge := by
  simp [deref, insertEdge]

theorem lookup_insertEdge :
    (graph.insertEdge edge).edgesByDigest.lookup digest =
      if digest = edge.recordDigest then some graph.heap.length
      else graph.edgesByDigest.lookup digest := by
  by_cases heq : digest = edge.recordDigest
  · subst heq
    simp [insertEdge]
  · simp [insertEdge, heq]

theorem Addressed.insertEdge (h : graph.Addressed) : (graph.insertEdge edge).Addressed := by
  constructor
  · intro digest ref hlookup
    rw [lookup_insertEdge] at hlookup
    have hlength : (graph.insertEdge edge).heap.length = graph.heap.length + 1 := by
      simp [Graph.insertEdge]
    rw [hlength]
    split at hlookup
    · cases hlookup
      exact Nat.lt_succ_self _
    · exact Nat.lt_succ_of_lt (h.inHeap digest ref hlookup)
  · intro digest ref hlookup
    rw [lookup_insertEdge] at hlookup
    split at hlookup
    · rename_i heq
      cases hlookup
      rw [deref_insertEdge_new, heq]
    · rw [deref_insertEdge (h.inHeap digest ref hlookup)]
      exact h.digest digest ref hlookup

/-- After an insertion only the new edge's digest answers differently. -/
theorem edgeByDigest_insertEdge (h : graph.Addressed) :
    (graph.insertEdge edge).edgeByDigest digest =
      if digest = edge.recordDigest then some edge else graph.edgeByDigest digest := by
  rw [edgeByDigest, lookup_insertEdge]
  split
  · simp [deref_insertEdge_new]
  · rcases hlookup : graph.edgesByDigest.lookup digest with _ | ref
    · simp [edgeByDigest, hlookup]
    · simp [edgeByDigest, hlookup, deref_insertEdge (h.inHeap digest ref hlookup)]

@[simp] theorem edgeCount_newGraph (ledgerID : LedgerID) : (newGraph ledgerID).edgeCount = 0 := rfl

@[simp] theorem edgeCount_setLastSequence (sequence : UInt64) :
    (graph.setLastSequence sequence).edgeCount = graph.edgeCount := rfl

@[simp] theorem edgeCount_markRevoked (ref : EdgeRef) (revoked : AttestationEdge)
    (sequence : UInt64) :
    (graph.markRevoked ref revoked sequence).edgeCount = graph.edgeCount := rfl

theorem edgeCount_insertEdge (hfresh : graph.edgeByDigest edge.recordDigest = none) :
    (graph.insertEdge edge).edgeCount = graph.edgeCount + 1 := by
  have hnew : edge.recordDigest ∉ graph.edgesByDigest := by
    rw [← AList.lookup_eq_none]
    exact edgeByDigest_eq_none.mp hfresh
  simp only [edgeCount, insertEdge, AList.entries_insert_of_notMem hnew, List.length_cons]

/-- The revoker holds the key that the role names. -/
def Authorized (edge : AttestationEdge) (revoker : IdentityKey) (role : RevokerRole) : Prop :=
  (role = revokerRoleProposer ∧ revoker = edge.proposer) ∨
    (role = revokerRoleSubject ∧ revoker = edge.subject)

theorem checkRevoker_eq_ok {revoker : IdentityKey} {role : RevokerRole} {done : Unit} :
    checkRevoker edge revoker role = .ok done ↔ Authorized edge revoker role := by
  have hroles : revokerRoleSubject ≠ revokerRoleProposer := by decide
  unfold checkRevoker Authorized
  split_ifs with hproposer hsubject
  · simp [hproposer, hroles.symm]
  · simp [hsubject, hroles]
  · simp [hproposer, hsubject]

theorem revokeEdge_eq_ok {revoker : IdentityKey} {role : RevokerRole} {revokedAt : UInt64}
    {revocationDigest : Digest} {reason : Bytes} {revocationSequence : UInt64} :
    graph.revokeEdge target revoker role revokedAt revocationDigest reason revocationSequence =
        (next, none) ↔
      ∃ ref, graph.edgesByDigest.lookup target = some ref ∧ (graph.deref ref).isActive = true ∧
        Authorized (graph.deref ref) revoker role ∧
        next = graph.markRevoked ref
          ((graph.deref ref).revoke role revokedAt revocationDigest reason) revocationSequence := by
  unfold revokeEdge
  rcases hlookup : graph.edgesByDigest.lookup target with _ | ref
  · simp
  · simp only [Option.some.injEq, exists_eq_left']
    by_cases hactive : (graph.deref ref).isActive = true
    · rw [if_neg (by simp [hactive])]
      rcases hcheck : checkRevoker (graph.deref ref) revoker role with err | _
      · have hdenied : ¬ Authorized (graph.deref ref) revoker role := by
          intro hauthorized
          have hok : checkRevoker (graph.deref ref) revoker role = .ok () :=
            checkRevoker_eq_ok.mpr hauthorized
          cases hcheck.symm.trans hok
        simp [hdenied]
      · simp [hactive, checkRevoker_eq_ok.mp hcheck, eq_comm]
    · have hinactive : (graph.deref ref).isActive = false := by simpa using hactive
      simp [hinactive]

theorem deref_markRevoked (hin : ref < graph.heap.length) (other : EdgeRef) (sequence : UInt64) :
    (graph.markRevoked ref revoked sequence).deref other =
      if other = ref then revoked else graph.deref other := by
  unfold deref markRevoked
  by_cases heq : other = ref
  · subst heq
    simp [hin]
  · simp [heq, Ne.symm heq]

theorem Addressed.markRevoked (h : graph.Addressed)
    (hlookup : graph.edgesByDigest.lookup target = some ref)
    (hdigest : revoked.recordDigest = (graph.deref ref).recordDigest) (sequence : UInt64) :
    (graph.markRevoked ref revoked sequence).Addressed := by
  have hin := h.inHeap target ref hlookup
  constructor
  · intro digest other hother
    simpa [Graph.markRevoked] using h.inHeap digest other hother
  · intro digest other hother
    rw [deref_markRevoked hin]
    split
    · rename_i heq
      subst heq
      rw [hdigest]
      exact h.digest digest other hother
    · exact h.digest digest other hother

/-- After a revocation only the target's digest answers differently. -/
theorem edgeByDigest_markRevoked (h : graph.Addressed)
    (hlookup : graph.edgesByDigest.lookup target = some ref) (sequence : UInt64) :
    (graph.markRevoked ref revoked sequence).edgeByDigest digest =
      if digest = target then some revoked else graph.edgeByDigest digest := by
  have hin := h.inHeap target ref hlookup
  unfold edgeByDigest
  by_cases heq : digest = target
  · subst heq
    simp only [Graph.markRevoked, hlookup, Option.map_some, if_true]
    exact congrArg some ((deref_markRevoked hin ref sequence).trans (if_pos rfl))
  · rw [if_neg heq]
    rcases hother : graph.edgesByDigest.lookup digest with _ | other
    · simp [Graph.markRevoked, hother]
    · -- two digests never share a cell, since the cell's edge has only one
      have hne : other ≠ ref := by
        rintro rfl
        exact heq ((h.digest digest other hother).symm.trans (h.digest target other hlookup))
      simp only [Graph.markRevoked, hother, Option.map_some]
      exact congrArg some ((deref_markRevoked hin other sequence).trans (if_neg hne))

/-- A failed insertion or revocation leaves the graph as it was. -/
theorem addEdge_eq_error {err : GraphError} (h : graph.addEdge edge = (next, some err)) :
    next = graph := by
  unfold addEdge at h
  split at h
  · exact (Prod.mk.inj h).1.symm
  · cases (Prod.mk.inj h).2

theorem revokeEdge_eq_error {revoker : IdentityKey} {role : RevokerRole} {revokedAt : UInt64}
    {revocationDigest : Digest} {reason : Bytes} {revocationSequence : UInt64} {err : GraphError}
    (h : graph.revokeEdge target revoker role revokedAt revocationDigest reason
      revocationSequence = (next, some err)) : next = graph := by
  unfold revokeEdge at h
  split at h
  · exact (Prod.mk.inj h).1.symm
  · dsimp only at h
    split_ifs at h
    · exact (Prod.mk.inj h).1.symm
    · split at h
      · exact (Prod.mk.inj h).1.symm
      · cases (Prod.mk.inj h).2

end Graph

end AttributionChain

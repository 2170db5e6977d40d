import AttributionChain.EndorsementPayload

/-!
# What the payload codec preserves

`Encode` writes the deterministic spelling of a payload.  `Decode` does not
compare its input with that spelling, and it accepts P-256 keys and UTF-8 text
only, which the constructors do not check.  So the two directions of the codec
are inverse on parts of their domains, and this module says which.

* `decode_then_encode_iff`: re-encoding a decoded payload gives back the input
  exactly when the input was the deterministic spelling.
* `encode_then_decode_iff`: decoding an encoded payload gives back the payload
  exactly when its keys are on P-256 and its text is UTF-8.

Each is put together from a lemma for either kind of payload:
`encode_of_decodeAcceptedPayload` and `encode_of_decodeRevokedPayload`,
`decode_of_encodeAcceptedPayload` and `decode_of_encodeRevokedPayload`.
-/

namespace AttributionChain.Endorsement

open Cbor Ecdsa

variable {platform : Platform}

/-! ### Keys -/

theorem encodePublicKey_eq_ok {pub : PublicKey} {encoded : Slice} :
    encodePublicKey (some pub) = .ok encoded ↔
      ∃ bytes, pub.bytes = some bytes ∧ encoded = some bytes := by
  unfold encodePublicKey
  rcases h : pub.bytes with _ | bytes
  · simp [h]
  · simp only [h, Except.ok.injEq, Option.some.injEq, exists_eq_left']
    exact eq_comm

theorem decodePublicKey_eq_ok {encoded : Slice} {pub : PublicKey} :
    decodePublicKey encoded = .ok pub ↔
      ∃ bytes, encoded = some bytes ∧ parseUncompressedPublicKey .p256 bytes = some pub := by
  simp only [decodePublicKey, bind_eq_ok, failIf_eq_ok, orError_eq_ok, exists_const]
  constructor
  · rintro ⟨hlength, hparse⟩
    obtain ⟨bytes, rfl⟩ := Slice.exists_of_len_pos encoded (Nat.pos_of_ne_zero hlength)
    exact ⟨bytes, rfl, hparse⟩
  · rintro ⟨bytes, rfl, hparse⟩
    refine ⟨?_, hparse⟩
    intro hempty
    rw [Slice.len_some, List.length_eq_zero_iff] at hempty
    subst hempty
    cases hparse

/-- A decoded key encodes to the bytes it was decoded from. -/
theorem encodePublicKey_of_decodePublicKey {encoded : Slice} {pub : PublicKey}
    (h : decodePublicKey encoded = .ok pub) : encodePublicKey (some pub) = .ok encoded := by
  obtain ⟨bytes, rfl, hparse⟩ := decodePublicKey_eq_ok.mp h
  obtain ⟨-, hbytes⟩ := bytes_of_parseUncompressedPublicKey hparse
  exact encodePublicKey_eq_ok.mpr ⟨bytes, hbytes, rfl⟩

/-- An encoded key decodes exactly when it is on P-256. -/
theorem decodePublicKey_of_encodePublicKey {encoded : Slice} {pub decoded : PublicKey}
    (h : encodePublicKey (some pub) = .ok encoded) :
    decodePublicKey encoded = .ok decoded ↔ pub.curve = .p256 ∧ decoded = pub := by
  obtain ⟨bytes, hbytes, rfl⟩ := encodePublicKey_eq_ok.mp h
  rw [decodePublicKey_eq_ok, ← parseUncompressedPublicKey_p256_iff hbytes]
  constructor
  · rintro ⟨_, hsome, hparse⟩
    cases hsome
    exact hparse
  · intro hparse
    exact ⟨bytes, rfl, hparse⟩

/-! ### Accepted payloads -/

/-- What `NewAcceptedPayload` checks. -/
structure EndorsementAcceptedPayload.WellFormed (payload : EndorsementAcceptedPayload) : Prop where
  proposer : payload.proposerPublicKey ≠ none
  subject : payload.subjectPublicKey ≠ none
  topic : minTopicLength ≤ payload.topic.length ∧ payload.topic.length ≤ maxTopicLength
  claimBody : minClaimBodyBytes ≤ payload.claimBodyBytes.len ∧
    payload.claimBodyBytes.len ≤ maxClaimBodyBytes
  proposerSignature : minSignatureBytes ≤ payload.proposerSignature.len ∧
    payload.proposerSignature.len ≤ maxSignatureBytes
  subjectSignature : minSignatureBytes ≤ payload.subjectSignature.len ∧
    payload.subjectSignature.len ≤ maxSignatureBytes

theorem newAcceptedPayload_eq_ok {proposer subject : Option PublicKey} {topic : Bytes}
    {claimBody : Slice} {proposedAt acceptedAt : UInt64} {proposerSig subjectSig : Slice}
    {payload : EndorsementAcceptedPayload} :
    newAcceptedPayload proposer subject topic claimBody proposedAt proposerSig acceptedAt
        subjectSig = .ok payload ↔
      payload = ⟨proposer, subject, topic, claimBody, proposedAt, proposerSig, acceptedAt,
        subjectSig⟩ ∧ payload.WellFormed := by
  simp only [newAcceptedPayload, checkSignatureLength, bind_eq_ok, failIf_eq_ok, exists_const,
    not_or, not_lt, gt_iff_lt]
  constructor
  · rintro ⟨⟨hproposer, hsubject⟩, htopic, hclaim, hproposerSig, hsubjectSig, hreturn⟩
    cases hreturn
    exact ⟨rfl, hproposer, hsubject, htopic, hclaim, hproposerSig, hsubjectSig⟩
  · rintro ⟨rfl, h⟩
    exact ⟨⟨h.proposer, h.subject⟩, h.topic, h.claimBody, h.proposerSignature,
      h.subjectSignature, rfl⟩

/-- Decoding reads a wire struct that holds the fields of the payload. -/
theorem decodeAcceptedPayload_eq_ok {encoded : Bytes} {payload : EndorsementAcceptedPayload} :
    decodeAcceptedPayload platform encoded = .ok payload ↔
      ∃ proposer subject proposerKey subjectKey,
        payload.proposerPublicKey = some proposer ∧ payload.subjectPublicKey = some subject ∧
        decodePublicKey proposerKey = .ok proposer ∧ decodePublicKey subjectKey = .ok subject ∧
        platform.unmarshal cborDecMode encoded = .ok (payload.wire proposerKey subjectKey) ∧
        payload.WellFormed := by
  simp only [decodeAcceptedPayload, bind_eq_ok, mapError_eq_ok, failIf_eq_ok, exists_const,
    not_not, newAcceptedPayload_eq_ok]
  constructor
  · rintro ⟨wire, hunmarshal, hversion, proposer, hproposer, subject, hsubject, rfl, hvalid⟩
    refine ⟨proposer, subject, wire.proposerPublicKey, wire.subjectPublicKey, rfl, rfl, hproposer,
      hsubject, ?_, hvalid⟩
    rw [hunmarshal, EndorsementAcceptedPayload.wire, ← hversion]
  · rintro ⟨proposer, subject, proposerKey, subjectKey, hproposer, hsubject, hproposerKey,
      hsubjectKey, hunmarshal, hvalid⟩
    refine ⟨_, hunmarshal, rfl, proposer, hproposerKey, subject, hsubjectKey, ?_, hvalid⟩
    rw [← hproposer, ← hsubject]
    rfl

theorem encodeAcceptedPayload_eq_ok (hcbor : platform.cbor.Conforms)
    {payload : EndorsementAcceptedPayload} {encoded : Bytes} :
    payload.encode platform = .ok encoded ↔
      ∃ proposerKey subjectKey, encodePublicKey payload.proposerPublicKey = .ok proposerKey ∧
        encodePublicKey payload.subjectPublicKey = .ok subjectKey ∧
        encodeMap (Wire.entries (payload.wire proposerKey subjectKey)) = encoded := by
  simp (disch := decide) only [EndorsementAcceptedPayload.encode, bind_eq_ok, orError_eq_ok,
    Platform.marshal_eq hcbor, Option.some.injEq, exists_and_left]

theorem len_of_encodePublicKey {pub : Option PublicKey} {encoded : Slice}
    (h : encodePublicKey pub = .ok encoded) : encoded.len ≤ 133 := by
  cases pub with
  | none =>
    cases h
    simp
  | some pub =>
    obtain ⟨bytes, hbytes, rfl⟩ := encodePublicKey_eq_ok.mp h
    exact length_bytes_le hbytes

theorem AcceptedPayloadWire.length_encodeMap_le (wire : AcceptedPayloadWire) :
    (encodeMap (Wire.entries wire)).length ≤
      171 + wire.proposerPublicKey.len + wire.subjectPublicKey.len + wire.topic.length +
        wire.claimBodyBytes.len + wire.proposerSignature.len + wire.subjectSignature.len := by
  refine (Cbor.length_encodeMap_le _).trans ?_
  simp only [Wire.entries, Wire.schema, Wire.toStruct, structEntries, List.map_cons, List.map_nil,
    List.sum_cons, List.sum_nil, FieldKind.contentLength_uint64,
    FieldKind.contentLength_byteSlice, FieldKind.contentLength_string]
  omega

/-- An accepted payload is far below the ledger's payload limit. -/
theorem EndorsementAcceptedPayload.WellFormed.length_le {payload : EndorsementAcceptedPayload}
    (h : payload.WellFormed) {proposerKey subjectKey : Slice}
    (hproposer : encodePublicKey payload.proposerPublicKey = .ok proposerKey)
    (hsubject : encodePublicKey payload.subjectPublicKey = .ok subjectKey) :
    (encodeMap (Wire.entries (payload.wire proposerKey subjectKey))).length ≤ 4805 := by
  have hlength := (payload.wire proposerKey subjectKey).length_encodeMap_le
  have hproposerLen := len_of_encodePublicKey hproposer
  have hsubjectLen := len_of_encodePublicKey hsubject
  have htopic := h.topic.2
  have hclaim := h.claimBody.2
  have hproposerSig := h.proposerSignature.2
  have hsubjectSig := h.subjectSignature.2
  simp only [EndorsementAcceptedPayload.wire, maxTopicLength, maxClaimBodyBytes,
    maxSignatureBytes] at *
  omega

theorem utf8Valid_acceptedPayloadWire {wire : AcceptedPayloadWire} :
    (∀ entry ∈ Wire.entries wire, entry.2.utf8Valid = true) ↔ validUTF8 wire.topic = true := by
  simp [Wire.entries, Wire.schema, Wire.toStruct, structEntries]

theorem isSome_of_decodePublicKey {encoded : Slice} {pub : PublicKey}
    (h : decodePublicKey encoded = .ok pub) : encoded.isSome = true := by
  obtain ⟨bytes, rfl, -⟩ := decodePublicKey_eq_ok.mp h
  rfl

/-- The wire struct of a well-formed payload has no nil slice. -/
theorem EndorsementAcceptedPayload.WellFormed.fillsSchema {payload : EndorsementAcceptedPayload}
    (h : payload.WellFormed) {proposerKey subjectKey : Slice}
    (hproposer : proposerKey.isSome = true) (hsubject : subjectKey.isSome = true) :
    fillsSchema (Wire.schema AcceptedPayloadWire)
      (Wire.entries (payload.wire proposerKey subjectKey)) = true := by
  have hclaim := payload.claimBodyBytes.isSome_of_len_pos h.claimBody.1
  have hproposerSig := payload.proposerSignature.isSome_of_len_pos
    (Nat.lt_of_lt_of_le (by decide) h.proposerSignature.1)
  have hsubjectSig := payload.subjectSignature.isSome_of_len_pos
    (Nat.lt_of_lt_of_le (by decide) h.subjectSignature.1)
  simp [Cbor.fillsSchema, Wire.entries, Wire.schema, Wire.toStruct, structEntries,
    EndorsementAcceptedPayload.wire, hproposer, hsubject, hclaim, hproposerSig, hsubjectSig]

/-- Re-encoding an accepted payload gives back deterministic input, and no other. -/
theorem encode_of_decodeAcceptedPayload (hcbor : platform.cbor.Conforms) {encoded : Bytes}
    {payload : EndorsementAcceptedPayload}
    (h : decodeAcceptedPayload platform encoded = .ok payload) :
    payload.encode platform = .ok encoded ↔
      isDeterministic (Wire.schema AcceptedPayloadWire) encoded = true := by
  obtain ⟨proposer, subject, proposerKey, subjectKey, hproposer, hsubject, hproposerKey,
    hsubjectKey, hunmarshal, hvalid⟩ := decodeAcceptedPayload_eq_ok.mp h
  have hproposerEncode : encodePublicKey payload.proposerPublicKey = .ok proposerKey := by
    rw [hproposer]
    exact encodePublicKey_of_decodePublicKey hproposerKey
  have hsubjectEncode : encodePublicKey payload.subjectPublicKey = .ok subjectKey := by
    rw [hsubject]
    exact encodePublicKey_of_decodePublicKey hsubjectKey
  have hencode : payload.encode platform =
      .ok (encodeMap (Wire.entries (payload.wire proposerKey subjectKey))) :=
    (encodeAcceptedPayload_eq_ok hcbor).mpr
      ⟨proposerKey, subjectKey, hproposerEncode, hsubjectEncode, rfl⟩
  rw [hencode, Except.ok.injEq]
  constructor
  · intro hequal
    rw [← hequal]
    have hlength := hvalid.length_le hproposerEncode hsubjectEncode
    apply isDeterministic_encodeMap _ (by rw [Wire.length_entries]; decide) (by omega)
    exact hvalid.fillsSchema (isSome_of_decodePublicKey hproposerKey)
      (isSome_of_decodePublicKey hsubjectKey)
  · intro hdeterministic
    exact Platform.encodeMap_of_isDeterministic hcbor cborDecMode_strict (by decide) (by decide)
      (by decide) hdeterministic hunmarshal

/-- The wire struct determines the payload up to its keys. -/
theorem EndorsementAcceptedPayload.eq_of_wire_eq {left right : EndorsementAcceptedPayload}
    {leftProposer leftSubject rightProposer rightSubject : Slice}
    (h : left.wire leftProposer leftSubject = right.wire rightProposer rightSubject)
    (hproposer : left.proposerPublicKey = right.proposerPublicKey)
    (hsubject : left.subjectPublicKey = right.subjectPublicKey) : left = right := by
  cases left
  cases right
  simp only [EndorsementAcceptedPayload.wire, AcceptedPayloadWire.mk.injEq] at h
  simp only [mk.injEq]
  exact ⟨hproposer, hsubject, h.2.2.2⟩

/-- The bytes of an accepted payload decode to nothing else, and do so exactly when
both keys are on P-256 and the topic is UTF-8. -/
theorem decode_encodeAcceptedPayload_iff (hcbor : platform.cbor.Conforms) {encoded : Bytes}
    {payload decoded : EndorsementAcceptedPayload} {proposer subject : PublicKey}
    (hvalid : payload.WellFormed) (hproposer : payload.proposerPublicKey = some proposer)
    (hsubject : payload.subjectPublicKey = some subject)
    (h : payload.encode platform = .ok encoded) :
    decodeAcceptedPayload platform encoded = .ok decoded ↔
      decoded = payload ∧
        proposer.curve = .p256 ∧ subject.curve = .p256 ∧ validUTF8 payload.topic = true := by
  obtain ⟨proposerKey, subjectKey, hproposerEncode, hsubjectEncode, rfl⟩ :=
    (encodeAcceptedPayload_eq_ok hcbor).mp h
  have hlength := hvalid.length_le hproposerEncode hsubjectEncode
  have hparse : parseMap (encodeMap (Wire.entries (payload.wire proposerKey subjectKey))) =
      some (Wire.entries (payload.wire proposerKey subjectKey)) :=
    parseMap_encodeMap (by rw [Wire.length_entries]; decide)
      (bounded_of_length_encodeMap (by omega))
  rw [hproposer] at hproposerEncode
  rw [hsubject] at hsubjectEncode
  rw [decodeAcceptedPayload_eq_ok]
  constructor
  · rintro ⟨proposer', subject', proposerKey', subjectKey', hproposer', hsubject', hproposerKey,
      hsubjectKey, hunmarshal, -⟩
    obtain ⟨htext, hwire⟩ := (Platform.unmarshal_encodeMap_eq_ok hcbor cborDecMode_strict
      (by decide) (by decide) (by decide) hparse).mp hunmarshal
    cases congrArg AcceptedPayloadWire.proposerPublicKey hwire
    cases congrArg AcceptedPayloadWire.subjectPublicKey hwire
    obtain ⟨hproposerCurve, rfl⟩ :=
      (decodePublicKey_of_encodePublicKey hproposerEncode).mp hproposerKey
    obtain ⟨hsubjectCurve, rfl⟩ :=
      (decodePublicKey_of_encodePublicKey hsubjectEncode).mp hsubjectKey
    refine ⟨?_, hproposerCurve, hsubjectCurve, utf8Valid_acceptedPayloadWire.mp htext⟩
    exact EndorsementAcceptedPayload.eq_of_wire_eq hwire (hproposer'.trans hproposer.symm)
      (hsubject'.trans hsubject.symm)
  · rintro ⟨rfl, hproposerCurve, hsubjectCurve, htext⟩
    refine ⟨proposer, subject, proposerKey, subjectKey, hproposer, hsubject, ?_, ?_, ?_, hvalid⟩
    · exact (decodePublicKey_of_encodePublicKey hproposerEncode).mpr ⟨hproposerCurve, rfl⟩
    · exact (decodePublicKey_of_encodePublicKey hsubjectEncode).mpr ⟨hsubjectCurve, rfl⟩
    · apply (Platform.unmarshal_encodeMap_eq_ok hcbor cborDecMode_strict (by decide) (by decide)
        (by decide) hparse).mpr
      exact ⟨utf8Valid_acceptedPayloadWire.mpr htext, rfl⟩

/-- An encoded accepted payload decodes back exactly when both keys are on P-256
and the topic is UTF-8. -/
theorem decode_of_encodeAcceptedPayload (hcbor : platform.cbor.Conforms) {encoded : Bytes}
    {payload : EndorsementAcceptedPayload} {proposer subject : PublicKey}
    (hvalid : payload.WellFormed) (hproposer : payload.proposerPublicKey = some proposer)
    (hsubject : payload.subjectPublicKey = some subject)
    (h : payload.encode platform = .ok encoded) :
    decodeAcceptedPayload platform encoded = .ok payload ↔
      proposer.curve = .p256 ∧ subject.curve = .p256 ∧ validUTF8 payload.topic = true := by
  rw [decode_encodeAcceptedPayload_iff hcbor hvalid hproposer hsubject h]
  exact and_iff_right rfl

/-! ### Revoked payloads -/

/-- What `NewRevokedPayload` checks. -/
structure EndorsementRevokedPayload.WellFormed (payload : EndorsementRevokedPayload) : Prop where
  revoker : payload.revokerPublicKey ≠ none
  role : payload.role = revokerRoleProposer ∨ payload.role = revokerRoleSubject
  reason : payload.reason.length ≤ maxReasonLength
  signature : minSignatureBytes ≤ payload.revokerSignature.len ∧
    payload.revokerSignature.len ≤ maxSignatureBytes

theorem newRevokedPayload_eq_ok {target : Digest} {revoker : Option PublicKey} {role : RevokerRole}
    {revokedAt : UInt64} {reason : Bytes} {signature : Slice}
    {payload : EndorsementRevokedPayload} :
    newRevokedPayload target revoker role revokedAt reason signature = .ok payload ↔
      payload = ⟨target, revoker, role, revokedAt, reason, signature⟩ ∧ payload.WellFormed := by
  simp only [newRevokedPayload, checkRevocation, checkSignatureLength, bind_eq_ok, failIf_eq_ok,
    exists_const, not_or, not_lt, gt_iff_lt, not_and_or, not_not]
  constructor
  · rintro ⟨⟨hrevoker, hrole, hreason⟩, hsignature, hreturn⟩
    cases hreturn
    exact ⟨rfl, hrevoker, hrole, hreason, hsignature⟩
  · rintro ⟨rfl, h⟩
    exact ⟨⟨h.revoker, h.role, h.reason⟩, h.signature, rfl⟩

/-- Decoding reads a wire struct that holds the fields of the payload. -/
theorem decodeRevokedPayload_eq_ok {encoded : Bytes} {payload : EndorsementRevokedPayload} :
    decodeRevokedPayload platform encoded = .ok payload ↔
      ∃ revoker revokerKey, payload.revokerPublicKey = some revoker ∧
        decodePublicKey revokerKey = .ok revoker ∧
        platform.unmarshal cborDecMode encoded = .ok (payload.wire revokerKey) ∧
        payload.WellFormed := by
  simp only [decodeRevokedPayload, bind_eq_ok, mapError_eq_ok, failIf_eq_ok, exists_const,
    not_not, newRevokedPayload_eq_ok]
  constructor
  · rintro ⟨wire, hunmarshal, hversion, htarget, revoker, hrevoker, rfl, hvalid⟩
    refine ⟨revoker, wire.revokerPublicKey, rfl, hrevoker, ?_, hvalid⟩
    have hdigest : some (FixedBytes.copyFrom 32 (wire.targetRecordDigest.getD [])).bytes =
        wire.targetRecordDigest := by
      obtain ⟨content, hcontent⟩ :=
        wire.targetRecordDigest.exists_of_len_pos (by rw [htarget]; decide)
      rw [hcontent] at htarget ⊢
      exact congrArg some (FixedBytes.bytes_copyFrom htarget)
    rw [hunmarshal, EndorsementRevokedPayload.wire, ← hversion, hdigest]
  · rintro ⟨revoker, revokerKey, hrevoker, hrevokerKey, hunmarshal, hvalid⟩
    refine ⟨_, hunmarshal, rfl, payload.targetRecordDigest.length_bytes, revoker, hrevokerKey, ?_,
      hvalid⟩
    rw [← hrevoker]
    simp [EndorsementRevokedPayload.wire]

theorem encodeRevokedPayload_eq_ok (hcbor : platform.cbor.Conforms)
    {payload : EndorsementRevokedPayload} {encoded : Bytes} :
    payload.encode platform = .ok encoded ↔
      ∃ revokerKey, encodePublicKey payload.revokerPublicKey = .ok revokerKey ∧
        encodeMap (Wire.entries (payload.wire revokerKey)) = encoded := by
  simp (disch := decide) only [EndorsementRevokedPayload.encode, bind_eq_ok, orError_eq_ok,
    Platform.marshal_eq hcbor, Option.some.injEq]

theorem RevokedPayloadWire.length_encodeMap_le (wire : RevokedPayloadWire) :
    (encodeMap (Wire.entries wire)).length ≤
      135 + wire.targetRecordDigest.len + wire.revokerPublicKey.len + wire.reason.length +
        wire.revokerSignature.len := by
  refine (Cbor.length_encodeMap_le _).trans ?_
  simp only [Wire.entries, Wire.schema, Wire.toStruct, structEntries, List.map_cons, List.map_nil,
    List.sum_cons, List.sum_nil, FieldKind.contentLength_uint64,
    FieldKind.contentLength_byteSlice, FieldKind.contentLength_string]
  omega

theorem EndorsementRevokedPayload.WellFormed.length_le {payload : EndorsementRevokedPayload}
    (h : payload.WellFormed) {revokerKey : Slice}
    (hrevoker : encodePublicKey payload.revokerPublicKey = .ok revokerKey) :
    (encodeMap (Wire.entries (payload.wire revokerKey))).length ≤ 628 := by
  have hlength := (payload.wire revokerKey).length_encodeMap_le
  have hrevokerLen := len_of_encodePublicKey hrevoker
  have hreason := h.reason
  have hsignature := h.signature.2
  simp only [EndorsementRevokedPayload.wire, Slice.len_some, FixedBytes.length_bytes,
    maxReasonLength, maxSignatureBytes] at *
  omega

theorem utf8Valid_revokedPayloadWire {wire : RevokedPayloadWire} :
    (∀ entry ∈ Wire.entries wire, entry.2.utf8Valid = true) ↔ validUTF8 wire.reason = true := by
  simp [Wire.entries, Wire.schema, Wire.toStruct, structEntries]

theorem EndorsementRevokedPayload.WellFormed.fillsSchema {payload : EndorsementRevokedPayload}
    (h : payload.WellFormed) {revokerKey : Slice} (hrevoker : revokerKey.isSome = true) :
    fillsSchema (Wire.schema RevokedPayloadWire) (Wire.entries (payload.wire revokerKey)) =
      true := by
  have hsignature := payload.revokerSignature.isSome_of_len_pos
    (Nat.lt_of_lt_of_le (by decide) h.signature.1)
  simp [Cbor.fillsSchema, Wire.entries, Wire.schema, Wire.toStruct, structEntries,
    EndorsementRevokedPayload.wire, hrevoker, hsignature]

/-- Re-encoding a revoked payload gives back deterministic input, and no other. -/
theorem encode_of_decodeRevokedPayload (hcbor : platform.cbor.Conforms) {encoded : Bytes}
    {payload : EndorsementRevokedPayload}
    (h : decodeRevokedPayload platform encoded = .ok payload) :
    payload.encode platform = .ok encoded ↔
      isDeterministic (Wire.schema RevokedPayloadWire) encoded = true := by
  obtain ⟨revoker, revokerKey, hrevoker, hrevokerKey, hunmarshal, hvalid⟩ :=
    decodeRevokedPayload_eq_ok.mp h
  have hrevokerEncode : encodePublicKey payload.revokerPublicKey = .ok revokerKey := by
    rw [hrevoker]
    exact encodePublicKey_of_decodePublicKey hrevokerKey
  have hencode : payload.encode platform =
      .ok (encodeMap (Wire.entries (payload.wire revokerKey))) :=
    (encodeRevokedPayload_eq_ok hcbor).mpr ⟨revokerKey, hrevokerEncode, rfl⟩
  rw [hencode, Except.ok.injEq]
  constructor
  · intro hequal
    rw [← hequal]
    have hlength := hvalid.length_le hrevokerEncode
    apply isDeterministic_encodeMap _ (by rw [Wire.length_entries]; decide) (by omega)
    exact hvalid.fillsSchema (isSome_of_decodePublicKey hrevokerKey)
  · intro hdeterministic
    exact Platform.encodeMap_of_isDeterministic hcbor cborDecMode_strict (by decide) (by decide)
      (by decide) hdeterministic hunmarshal

theorem EndorsementRevokedPayload.eq_of_wire_eq {left right : EndorsementRevokedPayload}
    {leftRevoker rightRevoker : Slice} (h : left.wire leftRevoker = right.wire rightRevoker)
    (hrevoker : left.revokerPublicKey = right.revokerPublicKey) : left = right := by
  cases left
  cases right
  simp only [EndorsementRevokedPayload.wire, RevokedPayloadWire.mk.injEq, Option.some.injEq] at h
  simp only [mk.injEq]
  exact ⟨FixedBytes.ext h.2.1, hrevoker, h.2.2.2⟩

/-- The bytes of a revoked payload decode to nothing else, and do so exactly when its
key is on P-256 and its reason is UTF-8. -/
theorem decode_encodeRevokedPayload_iff (hcbor : platform.cbor.Conforms) {encoded : Bytes}
    {payload decoded : EndorsementRevokedPayload} {revoker : PublicKey}
    (hvalid : payload.WellFormed) (hrevoker : payload.revokerPublicKey = some revoker)
    (h : payload.encode platform = .ok encoded) :
    decodeRevokedPayload platform encoded = .ok decoded ↔
      decoded = payload ∧ revoker.curve = .p256 ∧ validUTF8 payload.reason = true := by
  obtain ⟨revokerKey, hrevokerEncode, rfl⟩ := (encodeRevokedPayload_eq_ok hcbor).mp h
  have hlength := hvalid.length_le hrevokerEncode
  have hparse : parseMap (encodeMap (Wire.entries (payload.wire revokerKey))) =
      some (Wire.entries (payload.wire revokerKey)) :=
    parseMap_encodeMap (by rw [Wire.length_entries]; decide)
      (bounded_of_length_encodeMap (by omega))
  rw [hrevoker] at hrevokerEncode
  rw [decodeRevokedPayload_eq_ok]
  constructor
  · rintro ⟨revoker', revokerKey', hrevoker', hrevokerKey, hunmarshal, -⟩
    obtain ⟨htext, hwire⟩ := (Platform.unmarshal_encodeMap_eq_ok hcbor cborDecMode_strict
      (by decide) (by decide) (by decide) hparse).mp hunmarshal
    cases congrArg RevokedPayloadWire.revokerPublicKey hwire
    obtain ⟨hcurve, rfl⟩ := (decodePublicKey_of_encodePublicKey hrevokerEncode).mp hrevokerKey
    refine ⟨?_, hcurve, utf8Valid_revokedPayloadWire.mp htext⟩
    exact EndorsementRevokedPayload.eq_of_wire_eq hwire (hrevoker'.trans hrevoker.symm)
  · rintro ⟨rfl, hcurve, htext⟩
    refine ⟨revoker, revokerKey, hrevoker, ?_, ?_, hvalid⟩
    · exact (decodePublicKey_of_encodePublicKey hrevokerEncode).mpr ⟨hcurve, rfl⟩
    · apply (Platform.unmarshal_encodeMap_eq_ok hcbor cborDecMode_strict (by decide) (by decide)
        (by decide) hparse).mpr
      exact ⟨utf8Valid_revokedPayloadWire.mpr htext, rfl⟩

/-- An encoded revoked payload decodes back exactly when its key is on P-256 and
its reason is UTF-8. -/
theorem decode_of_encodeRevokedPayload (hcbor : platform.cbor.Conforms) {encoded : Bytes}
    {payload : EndorsementRevokedPayload} {revoker : PublicKey} (hvalid : payload.WellFormed)
    (hrevoker : payload.revokerPublicKey = some revoker)
    (h : payload.encode platform = .ok encoded) :
    decodeRevokedPayload platform encoded = .ok payload ↔
      revoker.curve = .p256 ∧ validUTF8 payload.reason = true := by
  rw [decode_encodeRevokedPayload_iff hcbor hvalid hrevoker h]
  exact and_iff_right rfl

/-! ### Verified payloads -/

theorem newProposal_eq_ok {proposer subject : Option PublicKey} {topic : Bytes} {claimBody : Slice}
    {proposedAt : UInt64} {proposal : EndorsementProposal} :
    newProposal proposer subject topic claimBody proposedAt = .ok proposal ↔
      (proposer ≠ none ∧ subject ≠ none) ∧
        (minTopicLength ≤ topic.length ∧ topic.length ≤ maxTopicLength) ∧
        (minClaimBodyBytes ≤ claimBody.len ∧ claimBody.len ≤ maxClaimBodyBytes) ∧
        ⟨proposer, subject, topic, claimBody, proposedAt⟩ = proposal := by
  simp only [newProposal, bind_eq_ok, failIf_eq_ok, exists_const, not_or, not_lt, gt_iff_lt, pure,
    Except.pure, Except.ok.injEq, ne_eq]

theorem verifySignature_eq_ok {pub : Option PublicKey} {digest : Except Failure Digest}
    {signature : Slice} {bounds : Option (Nat × Nat)} {failed : PayloadError} {done : Unit} :
    verifySignature platform pub digest signature bounds failed = .ok done ↔
      (minSignatureBytes ≤ signature.len ∧ signature.len ≤ maxSignatureBytes) ∧
        ∃ hashed, digest = .ok hashed ∧ ∃ key, pub = some key ∧
          platform.verifyASN1 key hashed signature = true := by
  simp only [verifySignature, bind_eq_ok, failIf_eq_ok, exists_const, orError_eq_ok, not_or, not_lt,
    gt_iff_lt, Bool.not_eq_false]

/-- Verification checks every bound that the constructor checks. -/
theorem wellFormed_of_verifyAccepted {payload : EndorsementAcceptedPayload} {done : Unit}
    (h : payload.verify platform = .ok done) : payload.WellFormed := by
  simp only [EndorsementAcceptedPayload.verify, bind_eq_ok, mapError_eq_ok] at h
  obtain ⟨proposal, hproposal, _, hproposer, _, _, acceptance, hacceptance, hsubject⟩ := h
  obtain ⟨⟨hproposerKey, hsubjectKey⟩, htopic, hclaim, rfl⟩ := newProposal_eq_ok.mp hproposal
  exact ⟨hproposerKey, hsubjectKey, htopic, hclaim, (verifySignature_eq_ok.mp hproposer).1,
    (verifySignature_eq_ok.mp hsubject).1⟩

/-- Verification hashes the keys, so the keys of a verified payload have encodings. -/
theorem encodePublicKey_of_verifyAccepted {payload : EndorsementAcceptedPayload} {done : Unit}
    (h : payload.verify platform = .ok done) :
    ∃ proposerKey subjectKey, encodePublicKey payload.proposerPublicKey = .ok proposerKey ∧
      encodePublicKey payload.subjectPublicKey = .ok subjectKey := by
  simp only [EndorsementAcceptedPayload.verify, bind_eq_ok, mapError_eq_ok] at h
  obtain ⟨proposal, hproposal, _, -, digest, hdigest, -⟩ := h
  obtain ⟨-, -, -, rfl⟩ := newProposal_eq_ok.mp hproposal
  simp only [EndorsementProposal.digest, bind_eq_ok] at hdigest
  obtain ⟨proposerKey, hproposer, subjectKey, hsubject, -⟩ := hdigest
  exact ⟨proposerKey, subjectKey, hproposer, hsubject⟩

theorem newRevocation_eq_ok {target : Digest} {revoker : Option PublicKey} {role : RevokerRole}
    {revokedAt : UInt64} {reason : Bytes} {revocation : EndorsementRevocation} :
    newRevocation target revoker role revokedAt reason = .ok revocation ↔
      revoker ≠ none ∧ (role = revokerRoleProposer ∨ role = revokerRoleSubject) ∧
        reason.length ≤ maxReasonLength ∧
        ⟨target, revoker, role, revokedAt, reason⟩ = revocation := by
  simp only [newRevocation, checkRevocation, bind_eq_ok, failIf_eq_ok, exists_const, not_and_or,
    not_not, not_lt, gt_iff_lt, pure, Except.pure, Except.ok.injEq, and_assoc, ne_eq]

theorem wellFormed_of_verifyRevoked {payload : EndorsementRevokedPayload} {done : Unit}
    (h : payload.verify platform = .ok done) : payload.WellFormed := by
  simp only [EndorsementRevokedPayload.verify, bind_eq_ok, mapError_eq_ok] at h
  obtain ⟨revocation, hrevocation, hverify⟩ := h
  obtain ⟨hrevoker, hrole, hreason, rfl⟩ := newRevocation_eq_ok.mp hrevocation
  exact ⟨hrevoker, hrole, hreason, (verifySignature_eq_ok.mp hverify).1⟩

theorem encodePublicKey_of_verifyRevoked {payload : EndorsementRevokedPayload} {done : Unit}
    (h : payload.verify platform = .ok done) :
    ∃ revokerKey, encodePublicKey payload.revokerPublicKey = .ok revokerKey := by
  simp only [EndorsementRevokedPayload.verify, bind_eq_ok, mapError_eq_ok] at h
  obtain ⟨revocation, hrevocation, hverify⟩ := h
  obtain ⟨-, -, -, rfl⟩ := newRevocation_eq_ok.mp hrevocation
  obtain ⟨-, digest, hdigest, -⟩ := verifySignature_eq_ok.mp hverify
  simp only [EndorsementRevocation.digest, bind_eq_ok] at hdigest
  obtain ⟨revokerKey, hrevoker, -⟩ := hdigest
  exact ⟨revokerKey, hrevoker⟩

/-- **Encode, then decode.**  For payloads that admission encodes, the decoder
gives the payload back exactly when every key is on P-256 and the text is UTF-8. -/
theorem encode_then_decode_iff (platform : Platform) (hcbor : platform.cbor.Conforms) :
    (∀ proposer subject topic claimBody proposedAt proposerSig acceptedAt subjectSig payload,
      newAcceptedPayload proposer subject topic claimBody proposedAt proposerSig acceptedAt
        subjectSig = .ok payload →
      payload.verify platform = .ok () →
      ((∃ encoded, payload.encode platform = .ok encoded ∧
        decodeAcceptedPayload platform encoded = .ok payload) ↔
        proposer.map PublicKey.curve = some .p256 ∧ subject.map PublicKey.curve = some .p256 ∧
          validUTF8 topic = true)) ∧
    (∀ target revoker role revokedAt reason signature payload,
      newRevokedPayload target revoker role revokedAt reason signature = .ok payload →
      payload.verify platform = .ok () →
      ((∃ encoded, payload.encode platform = .ok encoded ∧
        decodeRevokedPayload platform encoded = .ok payload) ↔
        revoker.map PublicKey.curve = some .p256 ∧ validUTF8 reason = true)) := by
  constructor
  · intro proposer subject topic claimBody proposedAt proposerSig acceptedAt subjectSig payload
      hnew hverify
    obtain ⟨rfl, hvalid⟩ := newAcceptedPayload_eq_ok.mp hnew
    obtain ⟨proposerKey, subjectKey, hproposerKey, hsubjectKey⟩ :=
      encodePublicKey_of_verifyAccepted hverify
    obtain ⟨proposer, rfl⟩ := Option.ne_none_iff_exists'.mp hvalid.proposer
    obtain ⟨subject, rfl⟩ := Option.ne_none_iff_exists'.mp hvalid.subject
    have hencode := (encodeAcceptedPayload_eq_ok hcbor).mpr
      ⟨proposerKey, subjectKey, hproposerKey, hsubjectKey, rfl⟩
    have hdecode := decode_of_encodeAcceptedPayload hcbor hvalid rfl rfl hencode
    simp only [hencode, Except.ok.injEq, exists_eq_left', hdecode, Option.map_some,
      Option.some.injEq]
  · intro target revoker role revokedAt reason signature payload hnew hverify
    obtain ⟨rfl, hvalid⟩ := newRevokedPayload_eq_ok.mp hnew
    obtain ⟨revokerKey, hrevokerKey⟩ := encodePublicKey_of_verifyRevoked hverify
    obtain ⟨revoker, rfl⟩ := Option.ne_none_iff_exists'.mp hvalid.revoker
    have hencode := (encodeRevokedPayload_eq_ok hcbor).mpr ⟨revokerKey, hrevokerKey, rfl⟩
    have hdecode := decode_of_encodeRevokedPayload hcbor hvalid rfl hencode
    simp only [hencode, Except.ok.injEq, exists_eq_left', hdecode, Option.map_some,
      Option.some.injEq]

/-- DER of the shortest accepted length, where nothing verifies it. -/
def sampleSignature : Slice := some [0x30, 0x06, 0x02, 0x01, 0x01, 0x02, 0x01, 0x01]

/-- An endorsement of the P-256 base point by a base point, signed by both. -/
def samplePayload (proposer : PublicKey) (topic : Bytes) (proposerS subjectS : Nat) :
    EndorsementAcceptedPayload where
  proposerPublicKey := some proposer
  subjectPublicKey := some p256Base
  topic := topic
  claimBodyBytes := some [0x00]
  proposedAtUnixMS := 0
  proposerSignature := baseSignature proposer proposerS
  acceptedAtUnixMS := 0
  subjectSignature := baseSignature p256Base subjectS

/-- An endorsement on the topic `a`. -/
def sampleEndorsement : EndorsementAcceptedPayload :=
  samplePayload p256Base [0x61]
    0xc62532603509337c774f85e1b6d92675f807be399b95170c2bd40bcb9951f648
    0x13439a45b0d8ef27ddf4f7f1d4e8c2900b672f411dbcb116b77dff6aeb50e2f5

/-- An endorsement of the opposite point by the base point, signed by both. -/
def oppositeEndorsement : EndorsementAcceptedPayload where
  proposerPublicKey := some p256Base
  subjectPublicKey := some p256Opposite
  topic := ascii "a"
  claimBodyBytes := some [0x00]
  proposedAtUnixMS := 0
  proposerSignature := baseSignature p256Base
    0x6dfaa97df7ea275391e28cf347e5fa5927c25d70214f15b9242b6ea14fa75bf9
  acceptedAtUnixMS := 0
  subjectSignature := baseSignature p256Opposite
    0xa4c94b7f894b3439b931bcd81a316766d4de0181aef32bc428345a60bd36859d

/-- An endorsement on a topic that is not UTF-8. -/
def binaryTopicEndorsement : EndorsementAcceptedPayload :=
  samplePayload p256Base [0xFF]
    0x8d3c55af39b9d92327ad128a6922ea0e67d0d8d4c355060d642541ee72e7da69
    0xf38da37250cc2196e94c04c264fb6fc4b4c82dc59e50351baeb59e5a9eabbb2e

/-- An endorsement by a P-224 key. -/
def p224Endorsement : EndorsementAcceptedPayload :=
  samplePayload p224Base [0x61]
    0xfce7384c20f15fb2bb7eba10380f8748730d2e237d080cccac990289
    0x39218195601e7e868a45589e1a63c1f61134aa3c3c5774d3c11a4e47efc28976

/-- `NewAcceptedPayload` on the fields of a payload. -/
def EndorsementAcceptedPayload.construct (payload : EndorsementAcceptedPayload) :
    Except Failure EndorsementAcceptedPayload :=
  newAcceptedPayload payload.proposerPublicKey payload.subjectPublicKey payload.topic
    payload.claimBodyBytes payload.proposedAtUnixMS payload.proposerSignature
    payload.acceptedAtUnixMS payload.subjectSignature

/-- A verified endorsement with ASCII topic and P-256 keys survives the codec. -/
theorem samplePayload_roundTrips :
    ∃ encoded, sampleEndorsement.encode (Platform.reference fun _ _ _ => true) = .ok encoded ∧
      decodeAcceptedPayload (Platform.reference fun _ _ _ => true) encoded =
        .ok sampleEndorsement := by
  have hconstruct : sampleEndorsement.construct = .ok sampleEndorsement := rfl
  have hverify : sampleEndorsement.verify (Platform.reference fun _ _ _ => true) = .ok () :=
    eq_ok_of_isOk (by decide +kernel)
  exact ((encode_then_decode_iff _ reference_conforms).1 _ _ _ _ _ _ _ _ _ hconstruct hverify).mpr
      ⟨rfl, rfl, validUTF8_of_ascii (by decide)⟩

/-- Two verified endorsements that the ledger could never read back: one whose
topic is not UTF-8, one whose proposer has a P-224 key. -/
theorem samplePayload_undecodable :
    (binaryTopicEndorsement.construct = .ok binaryTopicEndorsement ∧
      binaryTopicEndorsement.verify (Platform.reference fun _ _ _ => true) = .ok () ∧
      ¬ ∃ encoded, binaryTopicEndorsement.encode (Platform.reference fun _ _ _ => true) =
          .ok encoded ∧
        decodeAcceptedPayload (Platform.reference fun _ _ _ => true) encoded =
          .ok binaryTopicEndorsement) ∧
    (p224Endorsement.construct = .ok p224Endorsement ∧
      p224Endorsement.verify (Platform.reference fun _ _ _ => true) = .ok () ∧
      ¬ ∃ encoded, p224Endorsement.encode (Platform.reference fun _ _ _ => true) =
          .ok encoded ∧
        decodeAcceptedPayload (Platform.reference fun _ _ _ => true) encoded =
          .ok p224Endorsement) := by
  refine ⟨⟨rfl, eq_ok_of_isOk (by decide +kernel), ?_⟩,
    ⟨rfl, eq_ok_of_isOk (by decide +kernel), ?_⟩⟩
  · rintro ⟨encoded, hencode, hdecode⟩
    obtain ⟨-, hvalid⟩ := newAcceptedPayload_eq_ok.mp
      (show binaryTopicEndorsement.construct = .ok binaryTopicEndorsement from rfl)
    obtain ⟨-, -, htext⟩ :=
      (decode_of_encodeAcceptedPayload reference_conforms hvalid rfl rfl hencode).mp hdecode
    cases htext
  · rintro ⟨encoded, hencode, hdecode⟩
    obtain ⟨-, hvalid⟩ := newAcceptedPayload_eq_ok.mp
      (show p224Endorsement.construct = .ok p224Endorsement from rfl)
    obtain ⟨hcurve, -, -⟩ :=
      (decode_of_encodeAcceptedPayload reference_conforms hvalid rfl rfl hencode).mp hdecode
    cases hcurve

/-- **Decode, then encode.**  Re-encoding a decoded payload gives back the input
exactly when the input spells its map deterministically.  So no payload has two
deterministic spellings. -/
theorem decode_then_encode_iff (platform : Platform) (hcbor : platform.cbor.Conforms) :
    (∀ encoded payload, decodeAcceptedPayload platform encoded = .ok payload →
      (payload.encode platform = .ok encoded ↔
        isDeterministic (Wire.schema AcceptedPayloadWire) encoded = true)) ∧
    (∀ encoded payload, decodeRevokedPayload platform encoded = .ok payload →
      (payload.encode platform = .ok encoded ↔
        isDeterministic (Wire.schema RevokedPayloadWire) encoded = true)) ∧
    (∀ left right payload, decodeAcceptedPayload platform left = .ok payload →
      decodeAcceptedPayload platform right = .ok payload →
      isDeterministic (Wire.schema AcceptedPayloadWire) left = true →
      isDeterministic (Wire.schema AcceptedPayloadWire) right = true → left = right) ∧
    (∀ left right payload, decodeRevokedPayload platform left = .ok payload →
      decodeRevokedPayload platform right = .ok payload →
      isDeterministic (Wire.schema RevokedPayloadWire) left = true →
      isDeterministic (Wire.schema RevokedPayloadWire) right = true → left = right) := by
  refine ⟨?_, ?_, ?_, ?_⟩
  · intro encoded payload h
    exact encode_of_decodeAcceptedPayload hcbor h
  · intro encoded payload h
    exact encode_of_decodeRevokedPayload hcbor h
  · intro left right payload hleft hright hleftSpelling hrightSpelling
    have hfirst := (encode_of_decodeAcceptedPayload hcbor hleft).mpr hleftSpelling
    have hsecond := (encode_of_decodeAcceptedPayload hcbor hright).mpr hrightSpelling
    exact Except.ok.inj (hfirst.symm.trans hsecond)
  · intro left right payload hleft hright hleftSpelling hrightSpelling
    have hfirst := (encode_of_decodeRevokedPayload hcbor hleft).mpr hleftSpelling
    have hsecond := (encode_of_decodeRevokedPayload hcbor hright).mpr hrightSpelling
    exact Except.ok.inj (hfirst.symm.trans hsecond)

/-- An accepted payload whose version is spelled as given. -/
def sampleBytes (version : Bytes) : Bytes :=
  [0xA9, 0x00] ++ version ++ [0x01, 0x58, 0x41] ++ p256Base.bytes.getD [] ++ [0x02, 0x58, 0x41] ++
    p256Base.bytes.getD [] ++ [0x03, 0x61, 0x61, 0x04, 0x41, 0x00, 0x05, 0x00, 0x06, 0x48] ++
    sampleSignature.getD [] ++ [0x07, 0x00, 0x08, 0x48] ++ sampleSignature.getD []

theorem sampleBytes_reencodes :
    ∃ payload, decodeAcceptedPayload (Platform.reference fun _ _ _ => false)
        (sampleBytes [0x01]) = .ok payload ∧
      payload.encode (Platform.reference fun _ _ _ => false) = .ok (sampleBytes [0x01]) := by
  obtain ⟨payload, hdecode⟩ := exists_ok_of_isOk (show (decodeAcceptedPayload
    (Platform.reference fun _ _ _ => false) (sampleBytes [0x01])).isOk = true by decide +kernel)
  exact ⟨payload, hdecode,
    ((decode_then_encode_iff _ reference_conforms).1 _ payload hdecode).mpr (by decide +kernel)⟩

/-- The version 1 spelled in two bytes is accepted and re-encoded in one. -/
theorem sampleBytes_notCanonical :
    ∃ payload, decodeAcceptedPayload (Platform.reference fun _ _ _ => false)
        (sampleBytes [0x18, 0x01]) = .ok payload ∧
      payload.encode (Platform.reference fun _ _ _ => false) ≠ .ok (sampleBytes [0x18, 0x01]) := by
  obtain ⟨payload, hdecode⟩ := exists_ok_of_isOk (show (decodeAcceptedPayload
    (Platform.reference fun _ _ _ => false) (sampleBytes [0x18, 0x01])).isOk = true
      by decide +kernel)
  refine ⟨payload, hdecode, ?_⟩
  rw [Ne, encode_of_decodeAcceptedPayload reference_conforms hdecode]
  decide +kernel

end AttributionChain.Endorsement

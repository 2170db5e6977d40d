import AttributionChain.BigEndian

/-!
# ECDSA public keys

The parts of Go's `crypto/ecdsa` that the payloads go through: a public key is a
curve and an affine point, `PublicKey.Bytes` writes the SEC 1 uncompressed form
`04 || X || Y` and fails for a point that is not on the curve, and
`ParseUncompressedPublicKey` reads that form back for one given curve.  A key on
a curve that the standard library does not implement has no encoding.

The two functions are inverse to each other on one curve, and the four curves
have encodings of different lengths, so an encoding also determines its curve.
-/

namespace AttributionChain.Ecdsa

/-- Domain parameters of a curve `y² = x³ - 3x + b` over a prime field. -/
structure CurveParams where
  p : Nat
  b : Nat
  coordinateBytes : Nat

/-- The `elliptic.Curve` of a key. -/
inductive Curve where
  | p224 | p256 | p384 | p521 | custom
deriving DecidableEq, Repr

def Curve.params : Curve → Option CurveParams
  | .p224 => some
    { p := 2 ^ 224 - 2 ^ 96 + 1
      b := 0xb4050a850c04b3abf54132565044b0b7d7bfd8ba270b39432355ffb4
      coordinateBytes := 28 }
  | .p256 => some
    { p := 2 ^ 256 - 2 ^ 224 + 2 ^ 192 + 2 ^ 96 - 1
      b := 0x5ac635d8aa3a93e7b3ebbd55769886bc651d06b0cc53b0f63bce3c3e27d2604b
      coordinateBytes := 32 }
  | .p384 => some
    { p := 2 ^ 384 - 2 ^ 128 - 2 ^ 96 + 2 ^ 32 - 1
      b := 0xb3312fa7e23ee7e4988e056be3f82d19181d9c6efe814112 * 2 ^ 192 +
        0x0314088f5013875ac656398d8a2ed19d2a85c8edd3ec2aef
      coordinateBytes := 48 }
  | .p521 => some
    { p := 2 ^ 521 - 1
      b := 0x51953eb9618e1c9a1f929a21a0b68540eea2da725b * 2 ^ 352 +
        0x99b315f3b8b489918ef109e156193951ec7e937b1652 * 2 ^ 176 +
        0xc0bd3bb1bf073573df883d2c34f1ef451fd46b503f00
      coordinateBytes := 66 }
  | .custom => none

/-- A finite affine point of the curve. -/
def CurveParams.OnCurve (params : CurveParams) (x y : Nat) : Prop :=
  x < params.p ∧ y < params.p ∧
    y * y % params.p = (x * x * x + (params.p - 3) * x + params.b) % params.p

instance (params : CurveParams) (x y : Nat) : Decidable (params.OnCurve x y) := by
  unfold CurveParams.OnCurve; infer_instance

/-- An `ecdsa.PublicKey`; any curve and any coordinates can be put together. -/
structure PublicKey where
  curve : Curve
  x : Nat
  y : Nat
deriving DecidableEq, Repr

/-- The SEC 1 uncompressed form of a point. -/
def CurveParams.encodePoint (params : CurveParams) (x y : Nat) : Bytes :=
  0x04 :: (beBytes params.coordinateBytes x ++ beBytes params.coordinateBytes y)

/-- `PublicKey.Bytes`; `none` is its error. -/
def PublicKey.bytes (pub : PublicKey) : Option Bytes :=
  match pub.curve.params with
  | none => none
  | some params =>
    if params.OnCurve pub.x pub.y then some (params.encodePoint pub.x pub.y) else none

/-- Read the coordinates of an uncompressed point. -/
def CurveParams.decodePoint (params : CurveParams) (data : Bytes) : Option (Nat × Nat) :=
  match data with
  | 0x04 :: coordinates =>
    if coordinates.length = 2 * params.coordinateBytes then
      some (beValue (coordinates.take params.coordinateBytes),
        beValue (coordinates.drop params.coordinateBytes))
    else none
  | _ => none

/-- `ecdsa.ParseUncompressedPublicKey`; `none` is its error. -/
def parseUncompressedPublicKey (curve : Curve) (data : Bytes) : Option PublicKey :=
  match curve.params with
  | none => none
  | some params =>
    match params.decodePoint data with
    | none => none
    | some (x, y) => if params.OnCurve x y then some ⟨curve, x, y⟩ else none

/-! ### Encoding and parsing are inverse -/

theorem Curve.params_p_le {curve : Curve} {params : CurveParams}
    (h : curve.params = some params) : params.p ≤ 256 ^ params.coordinateBytes := by
  cases curve <;> simp only [Curve.params, Option.some.injEq, reduceCtorEq] at h
  all_goals subst h; decide +kernel

theorem CurveParams.decodePoint_encodePoint (params : CurveParams) {x y : Nat}
    (hx : x < 256 ^ params.coordinateBytes) (hy : y < 256 ^ params.coordinateBytes) :
    params.decodePoint (params.encodePoint x y) = some (x, y) := by
  have hlength : (beBytes params.coordinateBytes x ++ beBytes params.coordinateBytes y).length =
      2 * params.coordinateBytes := by simp; omega
  simp only [encodePoint, decodePoint]
  rw [if_pos hlength, List.take_left' (length_beBytes _ _), List.drop_left' (length_beBytes _ _),
    beValue_beBytes hx, beValue_beBytes hy]

theorem CurveParams.encodePoint_of_decodePoint {params : CurveParams} {data : Bytes} {x y : Nat}
    (h : params.decodePoint data = some (x, y)) : params.encodePoint x y = data := by
  unfold decodePoint at h
  split at h
  · rename_i coordinates
    split at h
    · rename_i hlength
      simp only [Option.some.injEq, Prod.mk.injEq] at h
      obtain ⟨rfl, rfl⟩ := h
      have hleft : (coordinates.take params.coordinateBytes).length = params.coordinateBytes := by
        simp; omega
      have hright : (coordinates.drop params.coordinateBytes).length = params.coordinateBytes := by
        simp; omega
      have hx := beBytes_beValue (coordinates.take params.coordinateBytes)
      have hy := beBytes_beValue (coordinates.drop params.coordinateBytes)
      rw [hleft] at hx
      rw [hright] at hy
      rw [encodePoint, hx, hy, List.take_append_drop]
    · cases h
  · cases h

/-- A parsed key is on the requested curve and encodes to the parsed bytes. -/
theorem bytes_of_parseUncompressedPublicKey {curve : Curve} {data : Bytes} {pub : PublicKey}
    (h : parseUncompressedPublicKey curve data = some pub) :
    pub.curve = curve ∧ pub.bytes = some data := by
  unfold parseUncompressedPublicKey at h
  rcases hparams : curve.params with _ | params
  · simp [hparams] at h
  · rcases hpoint : params.decodePoint data with _ | ⟨x, y⟩
    · simp [hparams, hpoint] at h
    · simp only [hparams, hpoint] at h
      split at h
      · rename_i hcurve
        simp only [Option.some.injEq] at h
        subst h
        refine ⟨rfl, ?_⟩
        simp only [PublicKey.bytes, hparams]
        rw [if_pos hcurve, CurveParams.encodePoint_of_decodePoint hpoint]
      · cases h

/-- An encoded key parses back on its own curve. -/
theorem parseUncompressedPublicKey_bytes {pub : PublicKey} {data : Bytes}
    (h : pub.bytes = some data) : parseUncompressedPublicKey pub.curve data = some pub := by
  unfold PublicKey.bytes at h
  rcases hparams : pub.curve.params with _ | params
  · simp [hparams] at h
  · simp only [hparams] at h
    split at h
    · rename_i hcurve
      have hp := Curve.params_p_le hparams
      simp only [Option.some.injEq] at h
      subst h
      simp only [parseUncompressedPublicKey, hparams]
      rw [CurveParams.decodePoint_encodePoint params (hcurve.1.trans_le hp)
        (hcurve.2.1.trans_le hp)]
      simp only [if_pos hcurve]
    · cases h

/-- The length of an encoding: one prefix byte and two coordinates. -/
theorem length_bytes {pub : PublicKey} {data : Bytes} (h : pub.bytes = some data) :
    ∃ params, pub.curve.params = some params ∧ data.length = 1 + 2 * params.coordinateBytes := by
  unfold PublicKey.bytes at h
  rcases hparams : pub.curve.params with _ | params
  · simp [hparams] at h
  · simp only [hparams] at h
    split at h
    · simp only [Option.some.injEq] at h
      subst h
      exact ⟨params, rfl, by simp [CurveParams.encodePoint]; omega⟩
    · cases h

theorem length_bytes_le {pub : PublicKey} {data : Bytes} (h : pub.bytes = some data) :
    data.length ≤ 133 := by
  obtain ⟨params, hparams, hlength⟩ := length_bytes h
  rw [hlength]
  cases hcurve : pub.curve <;>
    simp only [hcurve, Curve.params, Option.some.injEq, reduceCtorEq] at hparams <;>
    subst hparams <;> decide

/-- **An encoding determines its curve.**  Only a P-256 key has a 65-byte form. -/
theorem length_bytes_eq_65_iff {pub : PublicKey} {data : Bytes} (h : pub.bytes = some data) :
    data.length = 65 ↔ pub.curve = .p256 := by
  obtain ⟨params, hparams, hlength⟩ := length_bytes h
  cases hcurve : pub.curve <;>
    simp only [hcurve, Curve.params, Option.some.injEq, reduceCtorEq] at hparams <;>
    subst hparams <;> simp [hlength]

/-- Parsing as a P-256 key succeeds on an encoded key exactly when it is one. -/
theorem parseUncompressedPublicKey_p256_iff {pub key : PublicKey} {data : Bytes}
    (h : pub.bytes = some data) :
    parseUncompressedPublicKey .p256 data = some key ↔ pub.curve = .p256 ∧ key = pub := by
  constructor
  · intro hparse
    obtain ⟨hcurve, hbytes⟩ := bytes_of_parseUncompressedPublicKey hparse
    have hpub : pub.curve = .p256 :=
      (length_bytes_eq_65_iff h).mp ((length_bytes_eq_65_iff hbytes).mpr hcurve)
    have hback := parseUncompressedPublicKey_bytes h
    rw [hpub, hparse, Option.some.injEq] at hback
    exact ⟨hpub, hback⟩
  · rintro ⟨hcurve, rfl⟩
    rw [← hcurve]
    exact parseUncompressedPublicKey_bytes h

/-- The base point of P-256, as a key. -/
def p256Base : PublicKey where
  curve := .p256
  x := 0x6b17d1f2e12c4247f8bce6e563a440f277037d812deb33a0f4a13945d898c296
  y := 0x4fe342e2fe1a7f9b8ee7eb4a7c0f9e162bce33576b315ececbb6406837bf51f5

/-- The opposite of the base point, the key of the secret minus one. -/
def p256Opposite : PublicKey where
  curve := .p256
  x := 0x6b17d1f2e12c4247f8bce6e563a440f277037d812deb33a0f4a13945d898c296
  y := 0xb01cbd1c01e58065711814b583f061e9d431cca994cea1313449bf97c840ae0a

/-- The base point of P-224, as a key. -/
def p224Base : PublicKey where
  curve := .p224
  x := 0xb70e0cbd6bb4bf7f321390b94a03c1d356c21122343280d6115c1d21
  y := 0xbd376388b5f723fb4c22dfe6cd4375a05a07476444d5819985007e34

/-- A DER integer, with a zero byte in front of a set top bit. -/
def derInteger (width n : Nat) : Bytes :=
  let content := if n < 2 ^ (8 * width - 1) then beBytes width n else 0 :: beBytes width n
  [0x02, UInt8.ofNat content.length] ++ content

/-- The DER form of the signature `(x, s)`, for the `x` of a base point.  The base point
is the key of the secret one; with the nonce one it signs a digest by `s`, the digest
plus `x` modulo the order. -/
def baseSignature (base : PublicKey) (s : Nat) : Slice :=
  base.curve.params.map fun params =>
    let content := derInteger params.coordinateBytes base.x ++ derInteger params.coordinateBytes s
    [0x30, UInt8.ofNat content.length] ++ content

example : (p256Base.bytes.map List.length, p224Base.bytes.map List.length) =
    (some 65, some 57) := by
  decide +kernel

end AttributionChain.Ecdsa

import AttributionChain.CborHead

/-!
# Flat CBOR maps

The protocols that sit on this format exchange maps from small unsigned keys to
scalars: unsigned integers, byte strings, text strings and `null`.  `encodeMap`
writes such a map with shortest heads, in the order it is given; `parseMap`
reads one complete map item, at any head width and in any key order, and refuses
trailing input.  Nested items, tags and floats have no reading here.

`parseMap_encodeMap` is the round trip.  It makes `encodeMap` injective, which
is where every "these bytes determine these fields" argument ends.
-/

namespace AttributionChain.Cbor

/-! ### UTF-8 -/

def isContinuation (byte : UInt8) : Bool := 0x80 ≤ byte && byte ≤ 0xBF

/-- Lead and second byte of a three-byte sequence: no overlong forms, no surrogates. -/
def threeByteLead (lead second : UInt8) : Bool :=
  (lead == 0xE0 && 0xA0 ≤ second && second ≤ 0xBF) ||
  (lead == 0xED && 0x80 ≤ second && second ≤ 0x9F) ||
  (0xE1 ≤ lead && lead ≤ 0xEF && lead != 0xED && isContinuation second)

/-- Lead and second byte of a four-byte sequence: code points up to U+10FFFF. -/
def fourByteLead (lead second : UInt8) : Bool :=
  (lead == 0xF0 && 0x90 ≤ second && second ≤ 0xBF) ||
  (lead == 0xF4 && 0x80 ≤ second && second ≤ 0x8F) ||
  (0xF1 ≤ lead && lead ≤ 0xF3 && isContinuation second)

/-- Whether a byte string is valid UTF-8 (RFC 3629, Go's `utf8.Valid`). -/
def validUTF8 : Bytes → Bool
  | [] => true
  | lead :: rest =>
    if lead < 0x80 then validUTF8 rest
    else match rest with
      | [] => false
      | second :: rest =>
        if 0xC2 ≤ lead && lead ≤ 0xDF && isContinuation second then validUTF8 rest
        else match rest with
          | [] => false
          | third :: rest =>
            if threeByteLead lead second && isContinuation third then validUTF8 rest
            else match rest with
              | [] => false
              | fourth :: rest =>
                fourByteLead lead second && isContinuation third && isContinuation fourth &&
                  validUTF8 rest

theorem validUTF8_cons {lead : UInt8} (h : lead < 0x80) (rest : Bytes) :
    validUTF8 (lead :: rest) = validUTF8 rest := by
  rw [validUTF8.eq_def]
  exact if_pos h

/-- ASCII text is valid UTF-8. -/
theorem validUTF8_of_ascii {text : Bytes} (h : text.all (· < 0x80) = true) :
    validUTF8 text = true := by
  induction text with
  | nil => rfl
  | cons byte text ih =>
    rw [List.all_cons, Bool.and_eq_true, decide_eq_true_eq] at h
    rw [validUTF8_cons h.1]
    exact ih h.2

/-! ### Scalars -/

inductive Scalar where
  | uint (n : UInt64)
  | bytes (content : Bytes)
  | text (content : Bytes)
  | null
deriving DecidableEq, Repr

namespace Scalar

/-- The shortest encoding of a scalar. -/
def encode : Scalar → Bytes
  | .uint n => encodeHead .unsigned n.toNat
  | .bytes content => encodeHead .byteString content.length ++ content
  | .text content => encodeHead .textString content.length ++ content
  | .null => [0xF6]

/-- String lengths fit a CBOR argument. -/
def Bounded : Scalar → Prop
  | .bytes content => content.length < 2 ^ 64
  | .text content => content.length < 2 ^ 64
  | _ => True

/-- Text is valid UTF-8; other scalars have no text. -/
def utf8Valid : Scalar → Bool
  | .text content => validUTF8 content
  | _ => true

/-- The payload bytes of a string; numbers and `null` fit in their head. -/
def contentLength : Scalar → Nat
  | .bytes content => content.length
  | .text content => content.length
  | _ => 0

end Scalar

/-- Read a string of `length` bytes. -/
def parseString (make : Bytes → Scalar) (length : Nat) (input : Bytes) : Option (Scalar × Bytes) :=
  if length ≤ input.length then some (make (input.take length), input.drop length) else none

/-- Read what follows a head. -/
def parseScalarBody : MajorType → Nat → Bytes → Option (Scalar × Bytes)
  | .unsigned, n, rest => some (.uint (UInt64.ofNat n), rest)
  | .byteString, length, rest => parseString .bytes length rest
  | .textString, length, rest => parseString .text length rest
  | _, _, _ => none

/-- Read one scalar and return the remaining input. -/
def parseScalar : Bytes → Option (Scalar × Bytes)
  | 0xF6 :: rest => some (.null, rest)
  | input =>
    match parseHead input with
    | some (major, n, rest) => parseScalarBody major n rest
    | none => none

theorem parseString_append (make : Bytes → Scalar) (content rest : Bytes) :
    parseString make content.length (content ++ rest) = some (make content, rest) := by
  have hle : content.length ≤ (content ++ rest).length := by simp
  rw [parseString, if_pos hle, List.take_left, List.drop_left]

/-- Below the primitive major type, `parseScalar` goes through the head. -/
theorem parseScalar_of_parseHead {input rest : Bytes} {major : MajorType} {n : Nat}
    (hhead : parseHead input = some (major, n, rest)) (hmajor : major ≠ .primitive) :
    parseScalar input = parseScalarBody major n rest := by
  unfold parseScalar
  split
  · -- `0xF6` is a primitive, so this head was not the one read
    rename_i tail
    have hprimitive : parseHead (0xF6 :: tail) = some (.primitive, 22, tail) := rfl
    rw [hprimitive] at hhead
    simp only [Option.some.injEq, Prod.mk.injEq] at hhead
    exact absurd hhead.1.symm hmajor
  · rw [hhead]

/-- **Scalars round-trip.** -/
theorem parseScalar_encode {scalar : Scalar} (h : scalar.Bounded) (rest : Bytes) :
    parseScalar (scalar.encode ++ rest) = some (scalar, rest) := by
  cases scalar with
  | uint n =>
    rw [Scalar.encode, parseScalar_of_parseHead
      (parseHead_encodeHead .unsigned n.toNat_lt rest) (by decide)]
    simp [parseScalarBody]
  | bytes content =>
    rw [Scalar.encode, List.append_assoc, parseScalar_of_parseHead
      (parseHead_encodeHead .byteString h (content ++ rest)) (by decide)]
    exact parseString_append .bytes content rest
  | text content =>
    rw [Scalar.encode, List.append_assoc, parseScalar_of_parseHead
      (parseHead_encodeHead .textString h (content ++ rest)) (by decide)]
    exact parseString_append .text content rest
  | null => rfl

/-! ### Maps -/

abbrev Entry := UInt64 × Scalar

def encodeEntry (entry : Entry) : Bytes := encodeHead .unsigned entry.1.toNat ++ entry.2.encode

def encodeEntries (entries : List Entry) : Bytes := entries.flatMap encodeEntry

/-- A definite-length map item with its entries in the given order. -/
def encodeMap (entries : List Entry) : Bytes :=
  encodeHead .map entries.length ++ encodeEntries entries

/-- Read one key and its value. -/
def parseEntry (input : Bytes) : Option (Entry × Bytes) :=
  match parseHead input with
  | some (.unsigned, key, rest) =>
    (parseScalar rest).map fun (value, rest) => ((UInt64.ofNat key, value), rest)
  | _ => none

def parseEntries : Nat → Bytes → Option (List Entry × Bytes)
  | 0, input => some ([], input)
  | count + 1, input =>
    match parseEntry input with
    | none => none
    | some (entry, rest) =>
      (parseEntries count rest).map fun (entries, rest) => (entry :: entries, rest)

/-- Read a whole input as one flat map. -/
def parseMap (input : Bytes) : Option (List Entry) :=
  match parseHead input with
  | some (.map, count, rest) =>
    match parseEntries count rest with
    | some (entries, []) => some entries
    | _ => none
  | _ => none

theorem parseEntry_encodeEntry {entry : Entry} (h : entry.2.Bounded) (rest : Bytes) :
    parseEntry (encodeEntry entry ++ rest) = some (entry, rest) := by
  rw [parseEntry, encodeEntry, List.append_assoc,
    parseHead_encodeHead .unsigned entry.1.toNat_lt]
  simp [parseScalar_encode h]

theorem parseEntries_encodeEntries {entries : List Entry}
    (h : ∀ entry ∈ entries, entry.2.Bounded) (rest : Bytes) :
    parseEntries entries.length (encodeEntries entries ++ rest) = some (entries, rest) := by
  induction entries with
  | nil => rfl
  | cons entry entries ih =>
    have htail := ih fun other hother => h other (by simp [hother])
    rw [encodeEntries, List.flatMap_cons, List.append_assoc, List.length_cons, parseEntries,
      parseEntry_encodeEntry (h entry (by simp))]
    rw [encodeEntries] at htail
    simp [htail]

/-- **Maps round-trip.**  A parser that accepts every head width still reads the
shortest encoding of a map as that map. -/
theorem parseMap_encodeMap {entries : List Entry} (hcount : entries.length < 2 ^ 64)
    (h : ∀ entry ∈ entries, entry.2.Bounded) :
    parseMap (encodeMap entries) = some entries := by
  have hentries := parseEntries_encodeEntries h []
  rw [List.append_nil] at hentries
  rw [parseMap, encodeMap, parseHead_encodeHead .map hcount]
  simp [hentries]

/-- The head of a key and the head of its value are the shortest. -/
def isShortestEntry (input : Bytes) : Bool :=
  isShortestHead input &&
    match parseHead input with
    | some (_, _, rest) => isShortestHead rest
    | none => false

def isShortestEntries : Nat → Bytes → Bool
  | 0, _ => true
  | count + 1, input =>
    isShortestEntry input &&
      match parseEntry input with
      | some (_, rest) => isShortestEntries count rest
      | none => false

/-- Every head of a flat map is the shortest. -/
def hasShortestHeads (input : Bytes) : Bool :=
  isShortestHead input &&
    match parseHead input with
    | some (_, count, rest) => isShortestEntries count rest
    | none => false

theorem parseString_eq_some {make : Bytes → Scalar} {length : Nat} {input rest : Bytes}
    {scalar : Scalar} (h : parseString make length input = some (scalar, rest)) :
    ∃ content, content.length = length ∧ scalar = make content ∧ input = content ++ rest := by
  unfold parseString at h
  split at h
  · rename_i hle
    simp only [Option.some.injEq, Prod.mk.injEq] at h
    obtain ⟨rfl, rfl⟩ := h
    exact ⟨_, by rw [List.length_take, Nat.min_eq_left hle], rfl, (List.take_append_drop ..).symm⟩
  · cases h

/-- A scalar with the shortest head is spelled as it is encoded. -/
theorem isShortestHead_iff_encode {input rest : Bytes} {scalar : Scalar}
    (h : parseScalar input = some (scalar, rest)) :
    isShortestHead input = true ↔ input = scalar.encode ++ rest := by
  unfold parseScalar at h
  split at h
  · simp only [Option.some.injEq, Prod.mk.injEq] at h
    obtain ⟨rfl, rfl⟩ := h
    exact iff_of_true rfl rfl
  · split at h
    · rename_i major n tail hhead
      rw [isShortestHead_iff hhead]
      cases major with
      | unsigned =>
        simp only [parseScalarBody, Option.some.injEq, Prod.mk.injEq] at h
        obtain ⟨rfl, rfl⟩ := h
        rw [Scalar.encode, UInt64.toNat_ofNat', Nat.mod_eq_of_lt (parseHead_lt hhead)]
      | byteString =>
        obtain ⟨content, rfl, rfl, rfl⟩ := parseString_eq_some h
        rw [Scalar.encode, List.append_assoc]
      | textString =>
        obtain ⟨content, rfl, rfl, rfl⟩ := parseString_eq_some h
        rw [Scalar.encode, List.append_assoc]
      | _ => cases h
    · cases h

theorem bounded_of_parseScalar {input rest : Bytes} {scalar : Scalar}
    (h : parseScalar input = some (scalar, rest)) : scalar.Bounded := by
  unfold parseScalar at h
  split at h
  · cases h
    trivial
  · split at h
    · rename_i major n tail hhead
      have hbound := parseHead_lt hhead
      cases major with
      | unsigned =>
        cases h
        trivial
      | byteString =>
        obtain ⟨content, rfl, rfl, -⟩ := parseString_eq_some h
        exact hbound
      | textString =>
        obtain ⟨content, rfl, rfl, -⟩ := parseString_eq_some h
        exact hbound
      | _ => cases h
    · cases h

theorem bounded_of_parseEntry {input rest : Bytes} {entry : Entry}
    (h : parseEntry input = some (entry, rest)) : entry.2.Bounded := by
  unfold parseEntry at h
  split at h
  · simp only [Option.map_eq_some_iff, Prod.mk.injEq] at h
    obtain ⟨⟨value, final⟩, hvalue, rfl, -⟩ := h
    exact bounded_of_parseScalar hvalue
  · cases h

theorem isShortestEntry_iff {input rest : Bytes} {entry : Entry}
    (h : parseEntry input = some (entry, rest)) :
    isShortestEntry input = true ↔ input = encodeEntry entry ++ rest := by
  unfold parseEntry at h
  split at h
  · rename_i key tail hhead
    simp only [Option.map_eq_some_iff, Prod.mk.injEq] at h
    obtain ⟨⟨value, final⟩, hvalue, rfl, rfl⟩ := h
    have hkey : (UInt64.ofNat key).toNat = key := by
      rw [UInt64.toNat_ofNat', Nat.mod_eq_of_lt (parseHead_lt hhead)]
    simp only [isShortestEntry, hhead, Bool.and_eq_true, isShortestHead_iff hhead,
      isShortestHead_iff_encode hvalue, encodeEntry, hkey, List.append_assoc]
    constructor
    · rintro ⟨hinput, hscalar⟩
      rw [hinput, ← hscalar]
    · intro hinput
      -- what follows the key is determined by the input
      have hsame := hhead
      rw [hinput, parseHead_encodeHead .unsigned (parseHead_lt hhead)] at hsame
      simp only [Option.some.injEq, Prod.mk.injEq, true_and] at hsame
      exact ⟨hsame ▸ hinput, hsame.symm⟩
  · cases h

theorem parseEntries_succ_eq_some {count : Nat} {input final : Bytes} {entries : List Entry}
    (h : parseEntries (count + 1) input = some (entries, final)) :
    ∃ entry rest others, parseEntry input = some (entry, rest) ∧
      parseEntries count rest = some (others, final) ∧ entries = entry :: others := by
  simp only [parseEntries] at h
  split at h
  · cases h
  · rename_i entry rest hentry
    simp only [Option.map_eq_some_iff, Prod.mk.injEq] at h
    obtain ⟨⟨others, _⟩, hothers, rfl, rfl⟩ := h
    exact ⟨entry, rest, others, hentry, hothers, rfl⟩

theorem isShortestEntries_iff {count : Nat} {input final : Bytes} {entries : List Entry}
    (h : parseEntries count input = some (entries, final)) :
    isShortestEntries count input = true ↔ input = encodeEntries entries ++ final := by
  induction count generalizing input entries with
  | zero =>
    cases h
    exact iff_of_true rfl rfl
  | succ count ih =>
    obtain ⟨entry, rest, others, hentry, hothers, rfl⟩ := parseEntries_succ_eq_some h
    simp only [isShortestEntries, hentry, Bool.and_eq_true, isShortestEntry_iff hentry,
      ih hothers, encodeEntries, List.flatMap_cons, List.append_assoc]
    constructor
    · rintro ⟨hinput, hrest⟩
      rw [hinput, ← hrest]
    · intro hinput
      have hsame := hentry
      rw [hinput, parseEntry_encodeEntry (bounded_of_parseEntry hentry)] at hsame
      simp only [Option.some.injEq, Prod.mk.injEq, true_and] at hsame
      exact ⟨hsame ▸ hinput, hsame.symm⟩

theorem length_of_parseEntries {count : Nat} {input final : Bytes} {entries : List Entry}
    (h : parseEntries count input = some (entries, final)) : entries.length = count := by
  induction count generalizing input entries with
  | zero =>
    cases h
    rfl
  | succ count ih =>
    obtain ⟨entry, rest, others, -, hothers, rfl⟩ := parseEntries_succ_eq_some h
    rw [List.length_cons, ih hothers]

/-- **The shortest heads are those of the deterministic encoder**, for a whole map. -/
theorem hasShortestHeads_iff {input : Bytes} {entries : List Entry}
    (h : parseMap input = some entries) :
    hasShortestHeads input = true ↔ encodeMap entries = input := by
  unfold parseMap at h
  split at h
  · rename_i count rest hhead
    split at h
    · rename_i found hentries
      obtain rfl := Option.some.inj h
      have hlength := length_of_parseEntries hentries
      have hbound := parseHead_lt hhead
      subst hlength
      simp only [hasShortestHeads, hhead, Bool.and_eq_true, isShortestHead_iff hhead,
        isShortestEntries_iff hentries, List.append_nil, encodeMap]
      constructor
      · rintro ⟨hinput, hrest⟩
        rw [hinput, hrest]
      · intro hinput
        have hsame := hhead
        rw [← hinput, parseHead_encodeHead .map hbound] at hsame
        simp only [Option.some.injEq, Prod.mk.injEq, true_and] at hsame
        exact ⟨hsame ▸ hinput.symm, hsame.symm⟩
    · cases h
  · cases h

/-! ### Sizes -/

/-- No value of a map is longer than the map's encoding. -/
theorem length_le_length_encodeMap {entries : List Entry} {entry : Entry}
    (h : entry ∈ entries) : entry.2.encode.length ≤ (encodeMap entries).length := by
  obtain ⟨before, after, rfl⟩ := List.append_of_mem h
  simp only [encodeMap, encodeEntries, encodeEntry, List.flatMap_append, List.flatMap_cons,
    List.length_append]
  omega

/-- A map whose encoding is short has only bounded scalars. -/
theorem bounded_of_length_encodeMap {entries : List Entry}
    (h : (encodeMap entries).length < 2 ^ 64) : ∀ entry ∈ entries, entry.2.Bounded := by
  intro entry hentry
  have hle := length_le_length_encodeMap hentry
  rcases entry with ⟨key, value⟩
  cases value with
  | uint n => trivial
  | bytes content =>
    have hcontent : content.length ≤ (Scalar.bytes content).encode.length := by
      simp [Scalar.encode]
    exact Nat.lt_of_le_of_lt (hcontent.trans hle) h
  | text content =>
    have hcontent : content.length ≤ (Scalar.text content).encode.length := by
      simp [Scalar.encode]
    exact Nat.lt_of_le_of_lt (hcontent.trans hle) h
  | null => trivial

theorem length_encodeMap_ne_zero (entries : List Entry) : (encodeMap entries).length ≠ 0 := by
  have hpos := length_encodeHead_pos .map entries.length
  rw [encodeMap, List.length_append]
  omega

theorem Scalar.length_encode_le (scalar : Scalar) :
    scalar.encode.length ≤ 9 + scalar.contentLength := by
  cases scalar with
  | uint n => exact length_encodeHead_le _ _
  | bytes content =>
    have hhead := length_encodeHead_le .byteString content.length
    simp only [Scalar.encode, Scalar.contentLength, List.length_append]
    omega
  | text content =>
    have hhead := length_encodeHead_le .textString content.length
    simp only [Scalar.encode, Scalar.contentLength, List.length_append]
    omega
  | null => simp [Scalar.encode, Scalar.contentLength]

/-- A map is longer than its string contents by at most 18 bytes an entry. -/
theorem length_encodeMap_le (entries : List Entry) :
    (encodeMap entries).length ≤
      9 + (entries.map fun entry => 18 + entry.2.contentLength).sum := by
  have hentries : (encodeEntries entries).length ≤
      (entries.map fun entry => 18 + entry.2.contentLength).sum := by
    rw [encodeEntries, List.length_flatMap]
    refine List.sum_le_sum fun entry _ => ?_
    have hkey := length_encodeHead_le .unsigned entry.1.toNat
    have hvalue := entry.2.length_encode_le
    rw [encodeEntry, List.length_append]
    omega
  have hhead := length_encodeHead_le .map entries.length
  rw [encodeMap, List.length_append]
  omega

end AttributionChain.Cbor

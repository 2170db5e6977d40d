import AttributionChain.BigEndian

/-!
# CBOR heads (RFC 8949, section 3)

Every CBOR data item starts with a head: three bits of major type, five bits of
additional information, and an argument of 0, 1, 2, 4 or 8 further bytes.  The
format lets the same argument be written at several widths; a deterministic
encoder always takes the shortest (`encodeHead`), while a decoder accepts every
width (`parseHead`).  Indefinite lengths and the reserved values 28 to 30 of the
additional information are refused.
-/

namespace AttributionChain.Cbor

/-- The eight major types of a data item. -/
inductive MajorType where
  | unsigned | negative | byteString | textString | array | map | tag | primitive
deriving DecidableEq, Repr

def MajorType.code : MajorType → Nat
  | .unsigned => 0
  | .negative => 1
  | .byteString => 2
  | .textString => 3
  | .array => 4
  | .map => 5
  | .tag => 6
  | .primitive => 7

def MajorType.ofCode : Nat → MajorType
  | 0 => .unsigned
  | 1 => .negative
  | 2 => .byteString
  | 3 => .textString
  | 4 => .array
  | 5 => .map
  | 6 => .tag
  | _ => .primitive

@[simp] theorem MajorType.ofCode_code (major : MajorType) : ofCode major.code = major := by
  cases major <;> rfl

theorem MajorType.code_lt (major : MajorType) : major.code < 8 := by
  cases major <;> decide

/-! ### Writing and reading heads -/

def initialByte (major : MajorType) (info : Nat) : UInt8 := UInt8.ofNat (major.code * 32 + info)

/-- The shortest head for a major type and an argument below `2 ^ 64`. -/
def encodeHead (major : MajorType) (n : Nat) : Bytes :=
  if n < 24 then [initialByte major n]
  else if n < 2 ^ 8 then initialByte major 24 :: beBytes 1 n
  else if n < 2 ^ 16 then initialByte major 25 :: beBytes 2 n
  else if n < 2 ^ 32 then initialByte major 26 :: beBytes 4 n
  else initialByte major 27 :: beBytes 8 n

/-- Read an argument of `width` bytes. -/
def parseArgument (major : MajorType) (width : Nat) (input : Bytes) :
    Option (MajorType × Nat × Bytes) :=
  if width ≤ input.length then some (major, beValue (input.take width), input.drop width)
  else none

/-- Read one head: its major type, its argument and the remaining input.  The
width need not be the shortest one. -/
def parseHead : Bytes → Option (MajorType × Nat × Bytes)
  | [] => none
  | first :: input =>
    let major := MajorType.ofCode (first.toNat / 32)
    let info := first.toNat % 32
    if info < 24 then some (major, info, input)
    else if info = 24 then parseArgument major 1 input
    else if info = 25 then parseArgument major 2 input
    else if info = 26 then parseArgument major 4 input
    else if info = 27 then parseArgument major 8 input
    else none

theorem parseArgument_beBytes (major : MajorType) (width n : Nat) (h : n < 256 ^ width)
    (rest : Bytes) :
    parseArgument major width (beBytes width n ++ rest) = some (major, n, rest) := by
  have hle : width ≤ (beBytes width n ++ rest).length := by simp
  rw [parseArgument, if_pos hle, List.take_left' (length_beBytes width n),
    List.drop_left' (length_beBytes width n), beValue_beBytes h]

theorem toNat_initialByte (major : MajorType) {info : Nat} (h : info < 32) :
    (initialByte major info).toNat = major.code * 32 + info := by
  have hcode := major.code_lt
  rw [initialByte, UInt8.toNat_ofNat', Nat.mod_eq_of_lt (by omega)]

/-- Reading a head splits its initial byte into major type and information. -/
theorem parseHead_initialByte (major : MajorType) {info : Nat} (h : info < 32) (input : Bytes) :
    parseHead (initialByte major info :: input) =
      if info < 24 then some (major, info, input)
      else if info = 24 then parseArgument major 1 input
      else if info = 25 then parseArgument major 2 input
      else if info = 26 then parseArgument major 4 input
      else if info = 27 then parseArgument major 8 input
      else none := by
  have hmajor : (initialByte major info).toNat / 32 = major.code := by
    rw [toNat_initialByte major h]; omega
  have hinfo : (initialByte major info).toNat % 32 = info := by
    rw [toNat_initialByte major h]; omega
  simp only [parseHead, hmajor, hinfo, MajorType.ofCode_code]

/-- **Heads round-trip.**  The decoder reads back exactly what the shortest
encoder wrote and leaves what follows untouched. -/
theorem parseHead_encodeHead (major : MajorType) {n : Nat} (h : n < 2 ^ 64) (rest : Bytes) :
    parseHead (encodeHead major n ++ rest) = some (major, n, rest) := by
  unfold encodeHead
  split
  · rw [List.singleton_append, parseHead_initialByte major (by omega), if_pos (by assumption)]
  · split
    · rw [List.cons_append, parseHead_initialByte major (by omega)]
      exact parseArgument_beBytes major 1 n (by omega) rest
    · split
      · rw [List.cons_append, parseHead_initialByte major (by omega)]
        exact parseArgument_beBytes major 2 n (by omega) rest
      · split
        · rw [List.cons_append, parseHead_initialByte major (by omega)]
          exact parseArgument_beBytes major 4 n (by omega) rest
        · rw [List.cons_append, parseHead_initialByte major (by omega)]
          exact parseArgument_beBytes major 8 n (by omega) rest

/-! ### Shortest heads -/

/-- The head is as short as its argument allows. -/
def isShortestHead : Bytes → Bool
  | [] => false
  | first :: input =>
    let info := first.toNat % 32
    if info < 24 then true
    else if info = 24 then decide (24 ≤ beValue (input.take 1))
    else if info = 25 then decide (2 ^ 8 ≤ beValue (input.take 2))
    else if info = 26 then decide (2 ^ 16 ≤ beValue (input.take 4))
    else decide (2 ^ 32 ≤ beValue (input.take 8))

theorem MajorType.code_ofCode : ∀ code < 8, (ofCode code).code = code := by decide

/-- A byte is the initial byte of its major type and its information. -/
theorem initialByte_of_byte (byte : UInt8) :
    initialByte (MajorType.ofCode (byte.toNat / 32)) (byte.toNat % 32) = byte := by
  have hbyte := byte.toNat_lt
  rw [initialByte, MajorType.code_ofCode _ (by omega), Nat.div_add_mod', UInt8.ofNat_toNat]

/-- The bytes of an argument that was read. -/
theorem parseArgument_eq_some {major found : MajorType} {width n : Nat} {input rest : Bytes}
    (h : parseArgument major width input = some (found, n, rest)) :
    found = major ∧ beValue (input.take width) = n ∧ n < 256 ^ width ∧
      input = beBytes width n ++ rest := by
  unfold parseArgument at h
  split at h
  · rename_i hle
    simp only [Option.some.injEq, Prod.mk.injEq] at h
    obtain ⟨rfl, rfl, rfl⟩ := h
    have hlength : (input.take width).length = width := by
      rw [List.length_take, Nat.min_eq_left hle]
    have hbound := beValue_lt (input.take width)
    have hbytes := beBytes_beValue (input.take width)
    rw [hlength] at hbound hbytes
    exact ⟨rfl, rfl, hbound, by rw [hbytes, List.take_append_drop]⟩
  · cases h

/-- An argument has at most eight bytes. -/
theorem parseHead_lt {input rest : Bytes} {major : MajorType} {n : Nat}
    (h : parseHead input = some (major, n, rest)) : n < 2 ^ 64 := by
  cases input with
  | nil => cases h
  | cons first tail =>
    simp only [parseHead] at h
    split_ifs at h with hsmall
    · simp only [Option.some.injEq, Prod.mk.injEq] at h
      omega
    all_goals
      obtain ⟨-, -, hbound, -⟩ := parseArgument_eq_some h
      omega

theorem isShortestHead_initialByte (major : MajorType) {info : Nat} (h : info < 32)
    (input : Bytes) :
    isShortestHead (initialByte major info :: input) =
      if info < 24 then true
      else if info = 24 then decide (24 ≤ beValue (input.take 1))
      else if info = 25 then decide (2 ^ 8 ≤ beValue (input.take 2))
      else if info = 26 then decide (2 ^ 16 ≤ beValue (input.take 4))
      else decide (2 ^ 32 ≤ beValue (input.take 8)) := by
  have hinfo : (initialByte major info).toNat % 32 = info := by
    rw [toNat_initialByte major h]; omega
  simp only [isShortestHead, hinfo]

/-- An argument that needs its width is written at that width, a smaller one is not. -/
theorem low_le_iff_encodeHead {major found : MajorType} {info width low n : Nat}
    {input rest : Bytes} (h : parseArgument major width input = some (found, n, rest))
    (hlong : low ≤ n → n < 256 ^ width →
      encodeHead major n = initialByte major info :: beBytes width n)
    (hshort : n < low → (encodeHead major n).length ≤ width) :
    low ≤ beValue (input.take width) ↔
      initialByte major info :: input = encodeHead found n ++ rest := by
  obtain ⟨rfl, hvalue, hbound, rfl⟩ := parseArgument_eq_some h
  rw [hvalue]
  constructor
  · intro hlow
    rw [hlong hlow hbound, List.cons_append]
  · intro hequal
    by_contra hlow
    have hlength := congrArg List.length hequal
    have hle := hshort (Nat.lt_of_not_le hlow)
    simp only [List.length_cons, List.length_append, length_beBytes] at hlength
    omega

/-- **The shortest heads are those of the deterministic encoder.** -/
theorem isShortestHead_iff {input rest : Bytes} {major : MajorType} {n : Nat}
    (h : parseHead input = some (major, n, rest)) :
    isShortestHead input = true ↔ input = encodeHead major n ++ rest := by
  cases input with
  | nil => cases h
  | cons first tail =>
    have hinfo : first.toNat % 32 < 32 := Nat.mod_lt _ (by decide)
    rw [← initialByte_of_byte first] at h ⊢
    generalize MajorType.ofCode (first.toNat / 32) = found at h ⊢
    generalize first.toNat % 32 = info at h hinfo ⊢
    rw [parseHead_initialByte found hinfo] at h
    rw [isShortestHead_initialByte found hinfo]
    split_ifs at h ⊢ with hsmall hone htwo hfour height
    · simp only [Option.some.injEq, Prod.mk.injEq] at h
      obtain ⟨rfl, rfl, rfl⟩ := h
      simp [encodeHead, hsmall]
    · rw [decide_eq_true_eq, hone]
      apply low_le_iff_encodeHead h
      · intro hlow hbound
        rw [encodeHead, if_neg (by omega), if_pos (by omega)]
      · intro hlow
        simp [encodeHead, hlow]
    · rw [decide_eq_true_eq, htwo]
      apply low_le_iff_encodeHead h
      · intro hlow hbound
        rw [encodeHead, if_neg (by omega), if_neg (by omega), if_pos (by omega)]
      · intro hlow
        rw [encodeHead]
        split_ifs <;> simp
    · rw [decide_eq_true_eq, hfour]
      apply low_le_iff_encodeHead h
      · intro hlow hbound
        rw [encodeHead, if_neg (by omega), if_neg (by omega), if_neg (by omega), if_pos (by omega)]
      · intro hlow
        rw [encodeHead]
        split_ifs <;> simp
    · rw [decide_eq_true_eq, height]
      apply low_le_iff_encodeHead h
      · intro hlow _
        rw [encodeHead, if_neg (by omega), if_neg (by omega), if_neg (by omega), if_neg (by omega)]
      · intro hlow
        rw [encodeHead]
        split_ifs <;> simp

/-! ### Sizes -/

theorem length_encodeHead_pos (major : MajorType) (n : Nat) :
    0 < (encodeHead major n).length := by
  unfold encodeHead
  split_ifs <;> simp

theorem length_encodeHead_le (major : MajorType) (n : Nat) :
    (encodeHead major n).length ≤ 9 := by
  unfold encodeHead
  split_ifs <;> simp

end AttributionChain.Cbor

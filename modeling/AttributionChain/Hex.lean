import AttributionChain.Go

/-!
# Hexadecimal strings

`encoding/hex`: the encoder writes lower case, the decoder reads either case.  What was
encoded is decoded to itself (`hexDecodeString_hexEncode`), so no two byte strings share
an encoding.
-/

namespace AttributionChain

def hexDigit (nibble : UInt8) : UInt8 := if nibble < 10 then 0x30 + nibble else 0x57 + nibble

/-- `hex.EncodeToString` -/
def hexEncode (bytes : Bytes) : Bytes :=
  bytes.flatMap fun byte : UInt8 => [hexDigit (byte >>> 4), hexDigit (byte &&& 0x0f)]

inductive HexError where
  | invalidByte (byte : UInt8)
  | oddLength
deriving DecidableEq, Repr

/-- The text of an error, less the byte it prints. -/
def HexError.text : HexError → String
  | .invalidByte _ => "encoding/hex: invalid byte: "
  | .oddLength => "encoding/hex: odd length hex string"

/-- The reverse lookup of a digit. -/
def fromHexChar (char : UInt8) : Option UInt8 :=
  if 0x30 ≤ char ∧ char ≤ 0x39 then some (char - 0x30)
  else if 0x61 ≤ char ∧ char ≤ 0x66 then some (char - 0x57)
  else if 0x41 ≤ char ∧ char ≤ 0x46 then some (char - 0x37)
  else none

/-- `hex.DecodeString` -/
def hexDecodeString : Bytes → Except HexError Bytes
  | [] => .ok []
  | [char] => do
    -- an invalid byte comes before the odd length
    let _ ← orError (fromHexChar char) (.invalidByte char)
    .error .oddLength
  | first :: second :: rest => do
    let high ← orError (fromHexChar first) (.invalidByte first)
    let low ← orError (fromHexChar second) (.invalidByte second)
    let bytes ← hexDecodeString rest
    return ((high <<< 4) ||| low) :: bytes

theorem length_hexEncode (bytes : Bytes) : (hexEncode bytes).length = 2 * bytes.length := by
  induction bytes with
  | nil => rfl
  | cons byte bytes ih =>
    rw [hexEncode, List.flatMap_cons, List.length_append, ← hexEncode, ih]
    simp
    omega

/-- A digit is read back. -/
theorem fromHexChar_hexDigit {nibble : UInt8} (h : nibble < 16) :
    fromHexChar (hexDigit nibble) = some nibble := by
  obtain ⟨⟨value⟩⟩ := nibble
  revert value
  decide +kernel

/-- A byte is its two halves. -/
theorem halves (byte : UInt8) :
    byte >>> 4 < 16 ∧ byte &&& 0x0f < 16 ∧ ((byte >>> 4) <<< 4) ||| (byte &&& 0x0f) = byte := by
  obtain ⟨⟨value⟩⟩ := byte
  revert value
  decide +kernel

theorem hexDecodeString_hexEncode (bytes : Bytes) :
    hexDecodeString (hexEncode bytes) = .ok bytes := by
  induction bytes with
  | nil => rfl
  | cons byte bytes ih =>
    obtain ⟨hhigh, hlow, hbyte⟩ := halves byte
    have hcons : hexEncode (byte :: bytes) =
        hexDigit (byte >>> 4) :: hexDigit (byte &&& 0x0f) :: hexEncode bytes := rfl
    rw [hcons, hexDecodeString, fromHexChar_hexDigit hhigh, fromHexChar_hexDigit hlow, ih]
    simp only [orError_some, ok_bind, hbyte]
    rfl

theorem hexEncode_injective : Function.Injective hexEncode := by
  intro left right h
  have hleft := hexDecodeString_hexEncode left
  rw [h, hexDecodeString_hexEncode] at hleft
  exact (Except.ok.inj hleft).symm

end AttributionChain

import AttributionChain.Hex
import AttributionChain.LedgerCanonical
import AttributionChain.Pattern

/-!
# Signers

`internal/signer`: a signer holds either a private key with a reference of the
operator's choice, or the resource name of a key version in Cloud KMS.  The reference
goes into every record, where the ledger checks it again.  The local signer makes the
ledger's checks in its own words.  The resource name is only matched against a pattern,
which bounds the characters and not the length (`validateSignerKeyReference_kms`).

Go's pattern is anchored at both ends and ranges over ASCII, so matching its bytes is
the same as matching its runes.
-/

namespace AttributionChain.Signing

open Ecdsa Ledger Pattern

/-! ### Errors -/

inductive SignerError where
  | nilPrivateKey
  | unsupportedCurve
  | referenceLength (length : Nat)
  | nonPrintable (byte : UInt8)
  | nilClient
  | invalidResourceName (name : Bytes)
deriving DecidableEq, Repr

def minKeyReferenceLength : Nat := 1
def maxKeyReferenceLength : Nat := 512

/-- The text of an error, less the resource name it quotes. -/
def SignerError.text : SignerError → String
  | .nilPrivateKey => "private key cannot be nil"
  | .unsupportedCurve => "only P-256 curve is supported"
  | .referenceLength length =>
    "key reference length " ++ toString length ++ " is out of bounds [" ++
      toString minKeyReferenceLength ++ ", " ++ toString maxKeyReferenceLength ++ "]"
  | .nonPrintable byte =>
    "key reference contains non-printable character 0x" ++
      String.ofList ((hexEncode [byte]).map fun digit => Char.ofNat digit.toNat)
  | .nilClient => "kms client cannot be nil"
  | .invalidResourceName _ => "invalid KMS key version resource name: "

/-! ### Local signers -/

/-- `ecdsa.PrivateKey` -/
structure PrivateKey where
  publicKey : PublicKey
  d : Nat
deriving DecidableEq, Repr

structure LocalSigner where
  key : PrivateKey
  keyReference : Bytes
deriving DecidableEq, Repr

def isNonPrintable (byte : UInt8) : Bool := byte < 0x20 || byte > 0x7e

def validateKeyReference (reference : Bytes) : Except SignerError Unit := do
  failIf (reference.length < minKeyReferenceLength ∨ reference.length > maxKeyReferenceLength)
    (.referenceLength reference.length)
  -- the loop stops at the first byte out of range
  match reference.find? isNonPrintable with
  | some byte => .error (.nonPrintable byte)
  | none => .ok ()

def newLocalSigner (key : Option PrivateKey) (keyReference : Bytes) :
    Except SignerError LocalSigner := do
  let key ← orError key .nilPrivateKey
  failIf (key.publicKey.curve ≠ .p256) .unsupportedCurve
  validateKeyReference keyReference
  return { key, keyReference }

/-! ### KMS signers -/

/-- The range of a class, such as `a-z` -/
def byteRange (first last : UInt8) : List UInt8 :=
  ((List.range 256).map UInt8.ofNat).filter fun byte => first ≤ byte && byte ≤ last

/-- `[a-z0-9-]` -/
def locationBytes : List UInt8 := byteRange 0x61 0x7a ++ byteRange 0x30 0x39 ++ ascii "-"

/-- `[a-zA-Z0-9_-]` -/
def keyNameBytes : List UInt8 :=
  byteRange 0x61 0x7a ++ byteRange 0x41 0x5a ++ byteRange 0x30 0x39 ++ ascii "_-"

/-- `[0-9]` -/
def digitBytes : List UInt8 := byteRange 0x30 0x39

def kmsKeyVersionPattern : RegularExpression UInt8 :=
  sequence [literal (ascii "projects/"), oneOrMore (oneOf locationBytes),
    literal (ascii "/locations/"), oneOrMore (oneOf locationBytes),
    literal (ascii "/keyRings/"), oneOrMore (oneOf keyNameBytes),
    literal (ascii "/cryptoKeys/"), oneOrMore (oneOf keyNameBytes),
    literal (ascii "/cryptoKeyVersions/"), oneOrMore (oneOf digitBytes)]

variable {Client : Type}

structure KMSSigner (Client : Type) where
  client : Client
  keyVersion : Bytes

def newKMSSigner (client : Option Client) (keyVersionResourceName : Bytes) :
    Except SignerError (KMSSigner Client) := do
  let client ← orError client .nilClient
  failIf (kmsKeyVersionPattern.rmatch keyVersionResourceName = false)
    (.invalidResourceName keyVersionResourceName)
  return { client, keyVersion := keyVersionResourceName }

/-- The interface with its two implementations. -/
inductive Signer (Client : Type) where
  | localSigner (signer : LocalSigner)
  | kmsSigner (signer : KMSSigner Client)

def Signer.keyReference : Signer Client → Bytes
  | .localSigner signer => signer.keyReference
  | .kmsSigner signer => signer.keyVersion

/-- A signer that its constructor returns. -/
def Signer.Constructed : Signer Client → Prop
  | .localSigner signer => ∃ key reference, newLocalSigner key reference = .ok signer
  | .kmsSigner signer => ∃ client name, newKMSSigner client name = .ok signer

/-! ### What the constructors check -/

theorem validateKeyReference_eq_ok {reference : Bytes} {done : Unit} :
    validateKeyReference reference = .ok done ↔
      (minKeyReferenceLength ≤ reference.length ∧ reference.length ≤ maxKeyReferenceLength) ∧
        ∀ byte ∈ reference, 0x20 ≤ byte ∧ byte ≤ 0x7e := by
  rw [validateKeyReference, failIf_bind_eq_ok, not_or, not_lt, gt_iff_lt, not_lt]
  apply and_congr_right
  intro _
  rcases hfound : reference.find? isNonPrintable with _ | byte
  · apply iff_of_true rfl
    intro byte hbyte
    have hin := List.find?_eq_none.mp hfound byte hbyte
    rwa [isNonPrintable, Bool.or_eq_true, decide_eq_true_eq, decide_eq_true_eq, not_or, gt_iff_lt,
      UInt8.not_lt, UInt8.not_lt] at hin
  · apply iff_of_false (by simp)
    intro hprintable
    obtain ⟨hlow, hhigh⟩ := hprintable byte (List.mem_of_find?_eq_some hfound)
    have hout := List.find?_some hfound
    rw [isNonPrintable, Bool.or_eq_true, decide_eq_true_eq, decide_eq_true_eq] at hout
    exact hout.elim (UInt8.not_lt.mpr hlow) (UInt8.not_lt.mpr hhigh)

theorem newLocalSigner_eq_ok {key : Option PrivateKey} {reference : Bytes} {signer : LocalSigner} :
    newLocalSigner key reference = .ok signer ↔
      key = some signer.key ∧ signer.keyReference = reference ∧
        signer.key.publicKey.curve = .p256 ∧ validateKeyReference reference = .ok () := by
  simp only [newLocalSigner, bind_eq_ok, orError_eq_ok, failIf_eq_ok, not_not, exists_const]
  constructor
  · rintro ⟨key, rfl, hcurve, _, hreference, hreturn⟩
    cases hreturn
    exact ⟨rfl, rfl, hcurve, hreference⟩
  · rintro ⟨rfl, rfl, hcurve, hreference⟩
    exact ⟨_, rfl, hcurve, (), hreference, rfl⟩

theorem newKMSSigner_eq_ok {client : Option Client} {name : Bytes} {signer : KMSSigner Client} :
    newKMSSigner client name = .ok signer ↔
      client = some signer.client ∧ signer.keyVersion = name ∧
        name ∈ kmsKeyVersionPattern.matches' := by
  rw [← RegularExpression.rmatch_iff_matches']
  simp only [newKMSSigner, bind_eq_ok, orError_eq_ok, failIf_eq_ok, Bool.not_eq_false, exists_const]
  constructor
  · rintro ⟨client, rfl, hmatch, hreturn⟩
    cases hreturn
    exact ⟨rfl, rfl, hmatch⟩
  · rintro ⟨rfl, rfl, hmatch⟩
    exact ⟨_, rfl, hmatch, rfl⟩

/-! ### What the ledger makes of it -/

/-- The local signer checks what the ledger checks. -/
theorem valid_of_validateKeyReference {reference : Bytes}
    (h : validateKeyReference reference = .ok ()) : SignerKeyReference.Valid reference := by
  obtain ⟨⟨hnonempty, hbound⟩, hprintable⟩ := validateKeyReference_eq_ok.mp h
  exact ⟨Nat.one_le_iff_ne_zero.mp hnonempty, hbound, hprintable⟩

theorem printable_of_matches {name : Bytes} (h : name ∈ kmsKeyVersionPattern.matches') :
    ∀ byte ∈ name, 0x20 ≤ byte ∧ byte ≤ 0x7e := by
  have hsymbols : ∀ byte ∈ symbols kmsKeyVersionPattern, 0x20 ≤ byte ∧ byte ≤ 0x7e := by
    decide +kernel
  intro byte hbyte
  exact hsymbols byte (mem_symbols h byte hbyte)

theorem nonempty_of_matches {name : Bytes} (h : name ∈ kmsKeyVersionPattern.matches') :
    name.length ≠ 0 := by
  intro hempty
  rw [List.length_eq_zero_iff] at hempty
  subst hempty
  have hempty : kmsKeyVersionPattern.rmatch [] = false := by decide +kernel
  rw [← RegularExpression.rmatch_iff_matches', hempty] at h
  cases h

/-- **A resource name passes the ledger's check exactly when it is short enough.** -/
theorem validateSignerKeyReference_kms {name : Bytes}
    (h : name ∈ kmsKeyVersionPattern.matches') :
    validateSignerKeyReference name = .ok () ↔ name.length ≤ maxSignerReferenceBytes := by
  rw [validateSignerKeyReference_eq_ok]
  constructor
  · intro hvalid
    exact hvalid.bound
  · intro hbound
    exact ⟨nonempty_of_matches h, hbound, printable_of_matches h⟩

theorem Signer.Constructed.valid_iff {signer : Signer Client} (h : signer.Constructed) :
    SignerKeyReference.Valid signer.keyReference ↔
      signer.keyReference.length ≤ maxSignerReferenceBytes := by
  cases signer with
  | localSigner signer =>
    obtain ⟨key, reference, hnew⟩ := h
    obtain ⟨-, rfl, -, hreference⟩ := newLocalSigner_eq_ok.mp hnew
    have hvalid := valid_of_validateKeyReference hreference
    exact iff_of_true hvalid hvalid.bound
  | kmsSigner signer =>
    obtain ⟨client, name, hnew⟩ := h
    obtain ⟨-, rfl, hmatch⟩ := newKMSSigner_eq_ok.mp hnew
    rw [← validateSignerKeyReference_eq_ok]
    exact validateSignerKeyReference_kms hmatch

/-- `NewRecord` only looks at the bytes of the event it is given. -/
theorem newRecord_of_bytes_eq {platform : Platform} {left right : StructuralEvent}
    (h : left.bytes = right.bytes) (reference : Bytes) (signature : Slice) :
    newRecord platform left reference signature = newRecord platform right reference signature := by
  simp only [newRecord, h]

/-- With a valid reference, whether a record is made depends on event and signature only. -/
theorem exists_newRecord_iff {platform : Platform} (hcbor : platform.cbor.Conforms)
    {reference : Bytes} (hreference : SignerKeyReference.Valid reference) (event : StructuralEvent)
    (signature : Slice) :
    (∃ record, newRecord platform event reference signature = .ok record) ↔
      (∃ validated, validateEventStructure platform event.bytes = .ok validated) ∧
        isValidSignatureLength signature = true := by
  constructor
  · rintro ⟨record, hrecord⟩
    simp only [newRecord, bind_eq_ok, failIf_eq_ok, exists_const, Bool.not_eq_false] at hrecord
    obtain ⟨-, validated, hvalidated, -, -, hsignature, -⟩ := hrecord
    exact ⟨⟨validated, hvalidated⟩, hsignature⟩
  · rintro ⟨⟨validated, hvalidated⟩, hsignature⟩
    have hbytes := bytes_of_validateEventStructure hvalidated
    rw [← hbytes] at hvalidated
    rw [newRecord_of_bytes_eq hbytes.symm]
    exact ⟨_, (newRecord_eq_ok hcbor hvalidated).mpr ⟨hreference, hsignature, rfl⟩⟩

/-- **A constructed signer can sign records when its reference has at most 512 bytes.**
Every local signer has such a reference, and a KMS signer has one exactly when the ledger
accepts it. -/
theorem constructed_signer_accepted (platform : Platform) (hcbor : platform.cbor.Conforms)
    (Client : Type) :
    (∀ key reference signer, newLocalSigner key reference = .ok signer →
      validateSignerKeyReference signer.keyReference = .ok ()) ∧
    (∀ (client : Option Client) name signer, newKMSSigner client name = .ok signer →
      (validateSignerKeyReference signer.keyVersion = .ok () ↔
        name.length ≤ maxSignerReferenceBytes)) ∧
    (∀ signer : Signer Client, signer.Constructed →
      signer.keyReference.length ≤ maxSignerReferenceBytes → ∀ event signature,
        (∃ record, newRecord platform event signer.keyReference signature = .ok record) ↔
          (∃ validated, validateEventStructure platform event.bytes = .ok validated) ∧
            isValidSignatureLength signature = true) := by
  refine ⟨?_, ?_, ?_⟩
  · intro key reference signer hnew
    obtain ⟨-, rfl, -, hreference⟩ := newLocalSigner_eq_ok.mp hnew
    exact validateSignerKeyReference_eq_ok.mpr (valid_of_validateKeyReference hreference)
  · intro client name signer hnew
    obtain ⟨-, rfl, hmatch⟩ := newKMSSigner_eq_ok.mp hnew
    exact validateSignerKeyReference_kms hmatch
  · intro signer hsigner hbound event signature
    exact exists_newRecord_iff hcbor (hsigner.valid_iff.mpr hbound) event signature

/-- The first version of a key in a project. -/
def resourceName (project : Bytes) : Bytes :=
  [ascii "projects/", project, ascii "/locations/", ascii "global", ascii "/keyRings/",
    ascii "ledger", ascii "/cryptoKeys/", ascii "admission", ascii "/cryptoKeyVersions/",
    ascii "1"].flatten

theorem resourceName_matches {project : Bytes} (hnonempty : project ≠ [])
    (h : ∀ byte ∈ project, byte ∈ locationBytes) :
    resourceName project ∈ kmsKeyVersionPattern.matches' := by
  apply mem_sequence
  exact .cons (mem_literal _) (.cons (mem_oneOrMore hnonempty h) (.cons (mem_literal _)
    (.cons (mem_oneOrMore (by decide) (by decide +kernel)) (.cons (mem_literal _)
    (.cons (mem_oneOrMore (by decide) (by decide +kernel)) (.cons (mem_literal _)
    (.cons (mem_oneOrMore (by decide) (by decide +kernel)) (.cons (mem_literal _)
    (.cons (mem_oneOrMore (by decide) (by decide +kernel)) .nil)))))))))

/-- A project of 500 letters. -/
def longProject : Bytes := List.replicate 500 0x61

theorem longProject_matches : resourceName longProject ∈ kmsKeyVersionPattern.matches' := by
  apply resourceName_matches
  · rw [longProject, Ne, List.replicate_eq_nil_iff]
    decide
  · intro byte hbyte
    rw [List.eq_of_mem_replicate hbyte]
    decide

/-- A KMS signer that no record can be made with. -/
theorem longProject_rejected :
    newKMSSigner (some ()) (resourceName longProject) = .ok ⟨(), resourceName longProject⟩ ∧
      validateSignerKeyReference (resourceName longProject) ≠ .ok () ∧
      ∀ (platform : Platform) (event : StructuralEvent) (signature : Slice)
        (record : StructuralRecord),
        newRecord platform event (resourceName longProject) signature ≠ .ok record := by
  have hrejected : validateSignerKeyReference (resourceName longProject) ≠ .ok () := by
    rw [Ne, validateSignerKeyReference_kms longProject_matches]
    decide +kernel
  refine ⟨newKMSSigner_eq_ok.mpr ⟨rfl, rfl, longProject_matches⟩, hrejected, ?_⟩
  intro platform event signature record hrecord
  simp only [newRecord, bind_eq_ok, mapError_eq_ok] at hrecord
  obtain ⟨_, -, _, -, _, hreference, -⟩ := hrecord
  exact hrejected hreference

theorem shortProject_signs :
    ∃ (signer : Signer Unit) (event : StructuralEvent) (record : StructuralRecord),
      signer.Constructed ∧ signer.keyReference = resourceName (ascii "attribution") ∧
        newRecord (Platform.reference fun _ _ _ => false) event signer.keyReference
          (some (List.replicate 8 0)) = .ok record := by
  have hcbor : (Platform.reference fun _ _ _ => false).cbor.Conforms := Cbor.reference_conforms
  obtain ⟨validated, -⟩ := exists_validatedRecord hcbor goldenGenesisFields_inDomain
  obtain ⟨-, -, hsigns⟩ := constructed_signer_accepted _ hcbor Unit
  have hconstructed : (Signer.kmsSigner ⟨(), resourceName (ascii "attribution")⟩).Constructed :=
    ⟨some (), _, newKMSSigner_eq_ok.mpr
      ⟨rfl, rfl, resourceName_matches (by decide) (by decide +kernel)⟩⟩
  obtain ⟨record, hrecord⟩ := (hsigns _ hconstructed (by decide +kernel) validated.record.event
    (some (List.replicate 8 0))).mpr ⟨⟨_, validated.spec.event⟩, by decide⟩
  exact ⟨_, _, record, hconstructed, rfl, hrecord⟩

end AttributionChain.Signing

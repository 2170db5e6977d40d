import AttributionChain.BigEndian

/-!
# SHA-256

Go's `crypto/sha256` computes FIPS 180-4.  The development treats the hash as a
parameter wherever something is proved, so nothing below is unfolded in a proof
about the ledger; this definition is what the executable model runs, and what
reproduces the repository's committed digests.  Words are naturals below
`2 ^ 32`.
-/

namespace AttributionChain.Sha256

def rotr (n word : Nat) : Nat := (word >>> n) ||| ((word <<< (32 - n)) % 2 ^ 32)

def choose (x y z : Nat) : Nat := (x &&& y) ^^^ ((2 ^ 32 - 1 - x) &&& z)

def majority (x y z : Nat) : Nat := (x &&& y) ^^^ (x &&& z) ^^^ (y &&& z)

def bigSigma0 (word : Nat) : Nat := rotr 2 word ^^^ rotr 13 word ^^^ rotr 22 word

def bigSigma1 (word : Nat) : Nat := rotr 6 word ^^^ rotr 11 word ^^^ rotr 25 word

def smallSigma0 (word : Nat) : Nat := rotr 7 word ^^^ rotr 18 word ^^^ (word >>> 3)

def smallSigma1 (word : Nat) : Nat := rotr 17 word ^^^ rotr 19 word ^^^ (word >>> 10)

structure State where
  a : Nat
  b : Nat
  c : Nat
  d : Nat
  e : Nat
  f : Nat
  g : Nat
  h : Nat
deriving DecidableEq, Repr

def State.initial : State where
  a := 0x6a09e667
  b := 0xbb67ae85
  c := 0x3c6ef372
  d := 0xa54ff53a
  e := 0x510e527f
  f := 0x9b05688c
  g := 0x1f83d9ab
  h := 0x5be0cd19

def State.add (left right : State) : State where
  a := (left.a + right.a) % 2 ^ 32
  b := (left.b + right.b) % 2 ^ 32
  c := (left.c + right.c) % 2 ^ 32
  d := (left.d + right.d) % 2 ^ 32
  e := (left.e + right.e) % 2 ^ 32
  f := (left.f + right.f) % 2 ^ 32
  g := (left.g + right.g) % 2 ^ 32
  h := (left.h + right.h) % 2 ^ 32

def roundConstants : List Nat :=
  [0x428a2f98, 0x71374491, 0xb5c0fbcf, 0xe9b5dba5, 0x3956c25b, 0x59f111f1, 0x923f82a4, 0xab1c5ed5,
   0xd807aa98, 0x12835b01, 0x243185be, 0x550c7dc3, 0x72be5d74, 0x80deb1fe, 0x9bdc06a7, 0xc19bf174,
   0xe49b69c1, 0xefbe4786, 0x0fc19dc6, 0x240ca1cc, 0x2de92c6f, 0x4a7484aa, 0x5cb0a9dc, 0x76f988da,
   0x983e5152, 0xa831c66d, 0xb00327c8, 0xbf597fc7, 0xc6e00bf3, 0xd5a79147, 0x06ca6351, 0x14292967,
   0x27b70a85, 0x2e1b2138, 0x4d2c6dfc, 0x53380d13, 0x650a7354, 0x766a0abb, 0x81c2c92e, 0x92722c85,
   0xa2bfe8a1, 0xa81a664b, 0xc24b8b70, 0xc76c51a3, 0xd192e819, 0xd6990624, 0xf40e3585, 0x106aa070,
   0x19a4c116, 0x1e376c08, 0x2748774c, 0x34b0bcb5, 0x391c0cb3, 0x4ed8aa4a, 0x5b9cca4f, 0x682e6ff3,
   0x748f82ee, 0x78a5636f, 0x84c87814, 0x8cc70208, 0x90befffa, 0xa4506ceb, 0xbef9a3f7, 0xc67178f2]

def round (state : State) (constant word : Nat) : State :=
  let t1 := state.h + bigSigma1 state.e + choose state.e state.f state.g + constant + word
  let t2 := bigSigma0 state.a + majority state.a state.b state.c
  { a := (t1 + t2) % 2 ^ 32, b := state.a, c := state.b, d := state.c,
    e := (state.d + t1) % 2 ^ 32, f := state.e, g := state.f, h := state.g }

/-- The word that follows in the message schedule, of which the latest word comes first. -/
def nextWord : List Nat → Nat
  | _ :: w2 :: _ :: _ :: _ :: _ :: w7 :: _ :: _ :: _ :: _ :: _ :: _ :: _ :: w15 :: w16 :: _ =>
    (smallSigma1 w2 + w7 + smallSigma0 w15 + w16) % 2 ^ 32
  | _ => 0

/-- The schedule with so many further words. -/
def extend : Nat → List Nat → List Nat
  | 0, schedule => schedule
  | count + 1, schedule => extend count (nextWord schedule :: schedule)

/-- One round per constant, with the word that the schedule has for it. -/
def rounds : List Nat → List Nat → State → State
  | constant :: constants, word :: schedule, state =>
    rounds constants schedule (round state constant word)
  | _, _, state => state

def hashBlock (state : State) (block : List Nat) : State :=
  state.add (rounds roundConstants (extend 48 block.reverse).reverse state)

def hashBlocks : Nat → List Nat → State → State
  | 0, _, state => state
  | count + 1, message, state =>
    hashBlocks count (message.drop 16) (hashBlock state (message.take 16))

/-- Big-endian words of four bytes. -/
def messageWords : Bytes → List Nat
  | b0 :: b1 :: b2 :: b3 :: message => beValue [b0, b1, b2, b3] :: messageWords message
  | _ => []

def pad (message : Bytes) : Bytes :=
  message ++ 0x80 :: List.replicate ((119 - message.length % 64) % 64) 0 ++
    beBytes 8 (8 * message.length)

def State.words (state : State) : List Nat :=
  [state.a, state.b, state.c, state.d, state.e, state.f, state.g, state.h]

/-- `sha256.Sum256` -/
def sum256 (message : Bytes) : FixedBytes 32 where
  bytes := (hashBlocks ((pad message).length / 64) (messageWords (pad message))
    State.initial).words.flatMap (beBytes 4)
  length_eq := by simp [State.words]

/-- The one-block test vector of FIPS 180-4: `"abc"`. -/
example : beValue (sum256 [0x61, 0x62, 0x63]).bytes =
    0xba7816bf8f01cfea414140de5dae2223b00361a396177a9cb410ff61f20015ad := by
  decide +kernel

end AttributionChain.Sha256

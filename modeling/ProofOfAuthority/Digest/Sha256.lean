import ProofOfAuthority.Bytes

/-!
# SHA-256 and HMAC

The hash and the message authentication code from which signing nonces are drawn. Digests are byte
lists, because the nonce generator splices them into further messages.

* `length_pad` — padding always ends on a block boundary.
-/

namespace ProofOfAuthority.Sha256

/-- The eight working words. -/
structure State where
  a : UInt32
  b : UInt32
  c : UInt32
  d : UInt32
  e : UInt32
  f : UInt32
  g : UInt32
  h : UInt32

/-- Word-wise sum. -/
def State.add (s t : State) : State :=
  ⟨s.a + t.a, s.b + t.b, s.c + t.c, s.d + t.d, s.e + t.e, s.f + t.f, s.g + t.g, s.h + t.h⟩

/-- The words, first word first. -/
def State.toList (s : State) : List UInt32 := [s.a, s.b, s.c, s.d, s.e, s.f, s.g, s.h]

/-- Fractional bits of the square roots of the first eight primes. -/
def initial : State :=
  ⟨0x6a09e667, 0xbb67ae85, 0x3c6ef372, 0xa54ff53a, 0x510e527f, 0x9b05688c, 0x1f83d9ab, 0x5be0cd19⟩

/-- Fractional bits of the cube roots of the first 64 primes, one a round. -/
def roundConstants : List UInt32 :=
  [0x428a2f98, 0x71374491, 0xb5c0fbcf, 0xe9b5dba5, 0x3956c25b, 0x59f111f1, 0x923f82a4, 0xab1c5ed5,
   0xd807aa98, 0x12835b01, 0x243185be, 0x550c7dc3, 0x72be5d74, 0x80deb1fe, 0x9bdc06a7, 0xc19bf174,
   0xe49b69c1, 0xefbe4786, 0x0fc19dc6, 0x240ca1cc, 0x2de92c6f, 0x4a7484aa, 0x5cb0a9dc, 0x76f988da,
   0x983e5152, 0xa831c66d, 0xb00327c8, 0xbf597fc7, 0xc6e00bf3, 0xd5a79147, 0x06ca6351, 0x14292967,
   0x27b70a85, 0x2e1b2138, 0x4d2c6dfc, 0x53380d13, 0x650a7354, 0x766a0abb, 0x81c2c92e, 0x92722c85,
   0xa2bfe8a1, 0xa81a664b, 0xc24b8b70, 0xc76c51a3, 0xd192e819, 0xd6990624, 0xf40e3585, 0x106aa070,
   0x19a4c116, 0x1e376c08, 0x2748774c, 0x34b0bcb5, 0x391c0cb3, 0x4ed8aa4a, 0x5b9cca4f, 0x682e6ff3,
   0x748f82ee, 0x78a5636f, 0x84c87814, 0x8cc70208, 0x90befffa, 0xa4506ceb, 0xbef9a3f7, 0xc67178f2]

/-- Rotation towards the low bits. -/
def rotate (word : UInt32) (k : UInt32) : UInt32 := (word >>> k) ||| (word <<< (32 - k))

/-- One round on the working words. -/
def round (s : State) (constant word : UInt32) : State :=
  let mix := s.h + (rotate s.e 6 ^^^ rotate s.e 11 ^^^ rotate s.e 25)
    + ((s.e &&& s.f) ^^^ (~~~s.e &&& s.g)) + constant + word
  let majority := (rotate s.a 2 ^^^ rotate s.a 13 ^^^ rotate s.a 22)
    + ((s.a &&& s.b) ^^^ (s.a &&& s.c) ^^^ (s.b &&& s.c))
  ⟨mix + majority, s.a, s.b, s.c, s.d + mix, s.e, s.f, s.g⟩

/-- The word that follows a window of sixteen in the message schedule. -/
def nextWord (window : List UInt32) : UInt32 :=
  let w (i : Nat) : UInt32 := window.getD i 0
  let low := rotate (w 1) 7 ^^^ rotate (w 1) 18 ^^^ (w 1 >>> 3)
  let high := rotate (w 14) 17 ^^^ rotate (w 14) 19 ^^^ (w 14 >>> 10)
  high + w 9 + low + w 0

/-- Run one round per constant, sliding the window of schedule words along. -/
def rounds (s : State) (window : List UInt32) : List UInt32 → State
  | [] => s
  | constant :: rest =>
    rounds (round s constant (window.headD 0)) (window.tail ++ [nextWord window]) rest

/-- The first `count` big-endian words of `bytes`. -/
def words : (count : Nat) → (bytes : List UInt8) → List UInt32
  | 0, _ => []
  | count + 1, bytes => UInt32.ofNat (ofBigEndian (bytes.take 4)) :: words count (bytes.drop 4)

/-- Bytes in a block. -/
def blockSize : Nat := 64

/-- Fold `count` blocks from the front of `bytes` into the state. -/
def compress (s : State) : (count : Nat) → (bytes : List UInt8) → State
  | 0, _ => s
  | count + 1, bytes =>
    compress (s.add (rounds s (words 16 bytes) roundConstants)) count (bytes.drop blockSize)

/-- How many blocks a padded message of `length` bytes fills. -/
def blockCount (length : Nat) : Nat := (length + 8) / blockSize + 1

/-- Append a one bit, zero bits, and the length in bits, up to a block boundary. -/
def pad (message : List UInt8) : List UInt8 :=
  let gap := blockCount message.length * blockSize - message.length
  message ++ 0x80 :: (List.replicate (gap - 9) 0x00 ++ bigEndian 8 (8 * message.length))

theorem length_pad (message : List UInt8) :
    (pad message).length = blockCount message.length * blockSize := by
  simp only [pad, blockCount, blockSize, List.length_append, List.length_cons,
    List.length_replicate, length_bigEndian]
  omega

/-- The SHA-256 digest of a message, 32 bytes. -/
def digest (message : List UInt8) : List UInt8 :=
  (compress initial (blockCount message.length) (pad message)).toList.flatMap
    fun word => bigEndian 4 word.toNat

/-- The key block of the authentication code: long keys are hashed, short ones padded with zeros. -/
def keyBlock (key : List UInt8) : List UInt8 :=
  let short := if blockSize < key.length then digest key else key
  short ++ List.replicate (blockSize - short.length) 0x00

/-- The HMAC of a message under a key, 32 bytes. -/
def hmac (key message : List UInt8) : List UInt8 :=
  let block := keyBlock key
  digest (block.map (· ^^^ 0x5c) ++ digest (block.map (· ^^^ 0x36) ++ message))

end ProofOfAuthority.Sha256

import ProofOfAuthority.Bytes

/-!
# Keccak-256

The sponge over the permutation Keccak-f[1600] with rate 136, capacity 64 and the bare padding
`10*1`, whose 256-bit digests identify blocks, transactions and roots.

The state is five planes of five lanes. One round is `theta` (column parities), `rhoPi` (lane
rotations and the lane permutation), `chi` (the only non-linear step) and a round constant.

* `length_pad` — padding always ends on a block boundary.
-/

namespace ProofOfAuthority.Keccak

/-- Five lanes of equal `y`, by `x`. -/
structure Plane where
  x0 : UInt64
  x1 : UInt64
  x2 : UInt64
  x3 : UInt64
  x4 : UInt64

/-- Five planes, by `y`. -/
structure State where
  y0 : Plane
  y1 : Plane
  y2 : Plane
  y3 : Plane
  y4 : Plane

/-- Lane-wise exclusive or. -/
def Plane.xor (a b : Plane) : Plane :=
  ⟨a.x0 ^^^ b.x0, a.x1 ^^^ b.x1, a.x2 ^^^ b.x2, a.x3 ^^^ b.x3, a.x4 ^^^ b.x4⟩

/-- Lane-wise exclusive or. -/
def State.xor (a b : State) : State :=
  ⟨a.y0.xor b.y0, a.y1.xor b.y1, a.y2.xor b.y2, a.y3.xor b.y3, a.y4.xor b.y4⟩

/-- The state whose lanes, plane after plane, are `lanes`; missing lanes are zero. -/
def State.ofLanes (lanes : List UInt64) : State :=
  let plane (y : Nat) : Plane :=
    ⟨lanes.getD (5 * y) 0, lanes.getD (5 * y + 1) 0, lanes.getD (5 * y + 2) 0,
      lanes.getD (5 * y + 3) 0, lanes.getD (5 * y + 4) 0⟩
  ⟨plane 0, plane 1, plane 2, plane 3, plane 4⟩

/-- Rotation towards the high bits. -/
def rotate (lane : UInt64) (k : UInt64) : UInt64 := (lane <<< k) ||| (lane >>> (64 - k))

/-- Add to every lane the parities of two neighbouring columns. -/
def theta (s : State) : State :=
  let c := s.y0.xor (s.y1.xor (s.y2.xor (s.y3.xor s.y4)))
  let d : Plane :=
    ⟨c.x4 ^^^ rotate c.x1 1, c.x0 ^^^ rotate c.x2 1, c.x1 ^^^ rotate c.x3 1,
      c.x2 ^^^ rotate c.x4 1, c.x3 ^^^ rotate c.x0 1⟩
  ⟨s.y0.xor d, s.y1.xor d, s.y2.xor d, s.y3.xor d, s.y4.xor d⟩

/-- Rotate each lane by its own offset and move lane `(x, y)` to `(y, 2x + 3y)`. -/
def rhoPi (s : State) : State where
  y0 := ⟨s.y0.x0, rotate s.y1.x1 44, rotate s.y2.x2 43, rotate s.y3.x3 21, rotate s.y4.x4 14⟩
  y1 := ⟨rotate s.y0.x3 28, rotate s.y1.x4 20, rotate s.y2.x0 3, rotate s.y3.x1 45,
    rotate s.y4.x2 61⟩
  y2 := ⟨rotate s.y0.x1 1, rotate s.y1.x2 6, rotate s.y2.x3 25, rotate s.y3.x4 8,
    rotate s.y4.x0 18⟩
  y3 := ⟨rotate s.y0.x4 27, rotate s.y1.x0 36, rotate s.y2.x1 10, rotate s.y3.x2 15,
    rotate s.y4.x3 56⟩
  y4 := ⟨rotate s.y0.x2 62, rotate s.y1.x3 55, rotate s.y2.x4 39, rotate s.y3.x0 41,
    rotate s.y4.x1 2⟩

/-- Combine each lane with the two after it in its plane. -/
def Plane.chi (p : Plane) : Plane :=
  ⟨p.x0 ^^^ (~~~p.x1 &&& p.x2), p.x1 ^^^ (~~~p.x2 &&& p.x3), p.x2 ^^^ (~~~p.x3 &&& p.x4),
    p.x3 ^^^ (~~~p.x4 &&& p.x0), p.x4 ^^^ (~~~p.x0 &&& p.x1)⟩

/-- One round with the given round constant. -/
def round (s : State) (constant : UInt64) : State :=
  let t := rhoPi (theta s)
  let p := t.y0.chi
  ⟨{ p with x0 := p.x0 ^^^ constant }, t.y1.chi, t.y2.chi, t.y3.chi, t.y4.chi⟩

/-- The constants of the 24 rounds. -/
def roundConstants : List UInt64 :=
  [0x0000000000000001, 0x0000000000008082, 0x800000000000808a, 0x8000000080008000,
   0x000000000000808b, 0x0000000080000001, 0x8000000080008081, 0x8000000000008009,
   0x000000000000008a, 0x0000000000000088, 0x0000000080008009, 0x000000008000000a,
   0x000000008000808b, 0x800000000000008b, 0x8000000000008089, 0x8000000000008003,
   0x8000000000008002, 0x8000000000000080, 0x000000000000800a, 0x800000008000000a,
   0x8000000080008081, 0x8000000000008080, 0x0000000080000001, 0x8000000080008008]

/-- The permutation Keccak-f[1600]. -/
def permute (s : State) : State := roundConstants.foldl round s

/-! ## The sponge -/

/-- Bytes absorbed by one permutation. -/
def rate : Nat := 136

/-- How many blocks a padded message of `length` bytes fills. -/
def blockCount (length : Nat) : Nat := length / rate + 1

/-- Append a one bit, zero bits, and a closing one bit, up to a block boundary. -/
def pad (message : List UInt8) : List UInt8 :=
  let gap := blockCount message.length * rate - message.length
  if gap = 1 then message ++ [0x81]
  else message ++ 0x01 :: (List.replicate (gap - 2) 0x00 ++ [0x80])

theorem length_pad (message : List UInt8) :
    (pad message).length = blockCount message.length * rate := by
  have h : message.length < blockCount message.length * rate := by
    simp only [blockCount, rate]
    omega
  simp only [pad]
  split
  · rw [List.length_append, List.length_singleton]
    omega
  · simp only [List.length_append, List.length_cons, List.length_replicate, List.length_nil]
    omega

/-- A lane from its bytes, least significant byte first. -/
def lane (bytes : List UInt8) : UInt64 :=
  bytes.foldr (fun byte acc => (acc <<< 8) ||| byte.toUInt64) 0

/-- The bytes of a lane, least significant byte first. -/
def laneBytes (l : UInt64) : List UInt8 := (bigEndian 8 l.toNat).reverse

/-- The first `count` lanes that `bytes` spells. -/
def lanes : (count : Nat) → (bytes : List UInt8) → List UInt64
  | 0, _ => []
  | count + 1, bytes => lane (bytes.take 8) :: lanes count (bytes.drop 8)

/-- Absorb `count` blocks from the front of `bytes`. -/
def absorb (s : State) : (count : Nat) → (bytes : List UInt8) → State
  | 0, _ => s
  | count + 1, bytes =>
    absorb (permute (s.xor (State.ofLanes (lanes (rate / 8) bytes)))) count (bytes.drop rate)

/-- The Keccak-256 digest of a message. -/
def digest (message : List UInt8) : Hash :=
  let s := absorb (State.ofLanes []) (blockCount message.length) (pad message)
  Bytes.ofNat (ofBigEndian
    (laneBytes s.y0.x0 ++ laneBytes s.y0.x1 ++ laneBytes s.y0.x2 ++ laneBytes s.y0.x3))

end ProofOfAuthority.Keccak

namespace ProofOfAuthority

/-- `keccak256`, and `keccak256_concat` of the parts of a message: the Keccak-256 digest. -/
def keccak256 (message : List UInt8) : Hash := Keccak.digest message

end ProofOfAuthority

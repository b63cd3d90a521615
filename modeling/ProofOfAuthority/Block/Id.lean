import ProofOfAuthority.Bytes

/-!
# Block ids, block references and block numbers

The first four bytes of a block id are the block's number. A block reference is a number and four
more bytes, the first eight bytes of an id.

* `number_stamp` — a stamped digest carries the number it was stamped with.
* `number_ofNumber` — a reference made from a number has that number.
-/

namespace ProofOfAuthority

/-- Identity of a block. -/
abbrev BlockId := Hash

/-- The first eight bytes of a block id. -/
abbrev BlockRef := Bytes 8

/-- `block_number`: the block number in the first four bytes. -/
def BlockId.number (id : BlockId) : UInt32 := UInt32.ofNat (id.toNat / Bytes.card 28)

theorem BlockId.stamp_lt (number : UInt32) (k : Nat) :
    number.toNat * Bytes.card 28 + k % Bytes.card 28 < Bytes.card 32 := by
  have h := number.toNat_lt
  simp only [Bytes.card, Nat.pow_eq, Nat.reducePow]
  omega

/-- A digest with its first four bytes replaced by a block number. -/
def BlockId.stamp (number : UInt32) (digest : Hash) : BlockId where
  toNat := number.toNat * Bytes.card 28 + digest.toNat % Bytes.card 28
  toNat_lt := BlockId.stamp_lt number digest.toNat

/-- `genesis_parent_id`: the parent id of a block without parent; the block after it has number
zero. -/
def BlockId.beforeGenesis : BlockId := BlockId.stamp (-1) Bytes.zero

/-- `BlockRef::number`: the referenced block number, in the first four bytes. -/
def BlockRef.number (ref : BlockRef) : UInt32 := UInt32.ofNat (ref.toNat / Bytes.card 4)

theorem BlockRef.ofNumber_lt (number : UInt32) : number.toNat * Bytes.card 4 < Bytes.card 8 := by
  have h := number.toNat_lt
  simp only [Bytes.card, Nat.pow_eq, Nat.reducePow]
  omega

/-- `BlockRef::new`: the reference that has a number and nothing else. -/
def BlockRef.ofNumber (number : UInt32) : BlockRef where
  toNat := number.toNat * Bytes.card 4
  toNat_lt := BlockRef.ofNumber_lt number

theorem BlockRef.ofId_lt (id : BlockId) : id.toNat / Bytes.card 24 < Bytes.card 8 := by
  have h := id.toNat_lt
  simp only [Bytes.card, Nat.pow_eq, Nat.reducePow] at h ⊢
  omega

/-- `BlockRef::from_id`: the reference to the block with this id. -/
def BlockRef.ofId (id : BlockId) : BlockRef where
  toNat := id.toNat / Bytes.card 24
  toNat_lt := BlockRef.ofId_lt id

@[simp] theorem BlockId.number_stamp (number : UInt32) (digest : Hash) :
    (BlockId.stamp number digest).number = number := by
  apply UInt32.toNat_inj.mp
  have h := number.toNat_lt
  simp only [BlockId.number, BlockId.stamp, UInt32.toNat_ofNat', Bytes.card, Nat.pow_eq,
    Nat.reducePow]
  omega

@[simp] theorem BlockRef.number_ofNumber (number : UInt32) :
    (BlockRef.ofNumber number).number = number := by
  apply UInt32.toNat_inj.mp
  have h := number.toNat_lt
  simp only [BlockRef.number, BlockRef.ofNumber, UInt32.toNat_ofNat', Bytes.card, Nat.pow_eq,
    Nat.reducePow]
  omega

end ProofOfAuthority

import ProofOfAuthority.Bytes

/-!
# The canonical byte encoding

What is hashed is first written as bytes: numbers big-endian at their full width, fixed-length
strings as they are, byte strings and lists behind their length as a 64-bit number, and optional
fields behind a presence byte. Every field's extent can be read off the bytes before its end, so no
two values with the same layout share an encoding.
-/

namespace ProofOfAuthority.Canonical

/-- `FieldHasher::u8`: a byte. -/
def word8 (w : UInt8) : List UInt8 := [w]

/-- `FieldHasher::u32`: four bytes. -/
def word32 (w : UInt32) : List UInt8 := bigEndian 4 w.toNat

/-- `FieldHasher::u64`: eight bytes. -/
def word64 (w : UInt64) : List UInt8 := bigEndian 8 w.toNat

/-- `FieldHasher::bool`: one byte, 1 for true. -/
def flag (b : Bool) : List UInt8 := [if b then 1 else 0]

/-- `FieldHasher::len`: a length, as eight bytes. -/
def count (n : Nat) : List UInt8 := bigEndian 8 n

/-- `FieldHasher::bytes`: a byte string behind its length. -/
def bytes (b : List UInt8) : List UInt8 := count b.length ++ b

/-- A list behind its `FieldHasher::len`, item after item. -/
def list {α : Type} (item : α → List UInt8) (xs : List α) : List UInt8 :=
  count xs.length ++ xs.flatMap item

/-- `FieldHasher::optional`: a presence byte, then the value if there is one. -/
def option {α : Type} (item : α → List UInt8) : Option α → List UInt8
  | none => [0]
  | some x => 1 :: item x

theorem length_bytes (b : List UInt8) : (bytes b).length = 8 + b.length := by
  simp [bytes, count]

end ProofOfAuthority.Canonical

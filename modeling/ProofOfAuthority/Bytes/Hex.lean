import ProofOfAuthority.Bytes

/-!
# Hexadecimal text of byte strings

Byte strings are shown as `0x` followed by two lower-case digits a byte.

* `length_hexDigits` — two digits a byte, whatever the bytes.
-/

namespace ProofOfAuthority

/-- The lower-case hexadecimal digit of `n`, read modulo sixteen. -/
def hexDigit (n : Nat) : Char :=
  if n % 16 < 10 then Char.ofNat ('0'.toNat + n % 16) else Char.ofNat ('a'.toNat + (n % 16 - 10))

/-- The digits of a byte string, two a byte. -/
def hexDigits (bytes : List UInt8) : List Char :=
  bytes.flatMap fun byte => [hexDigit (byte.toNat / 16), hexDigit byte.toNat]

/-- `to_hex`: a byte string as `0x` and its digits. -/
def toHex (bytes : List UInt8) : String := "0x" ++ String.ofList (hexDigits bytes)

@[simp] theorem length_hexDigits (bytes : List UInt8) :
    (hexDigits bytes).length = 2 * bytes.length := by
  induction bytes with
  | nil => rfl
  | cons byte rest ih =>
    simp only [hexDigits, List.flatMap_cons, List.length_append] at ih ⊢
    simp only [ih, List.length_cons, List.length_nil]
    omega

/-- A fixed-length byte string as `0x` and its digits. -/
def Bytes.toHex {n : Nat} (b : Bytes n) : String := ProofOfAuthority.toHex b.toList

end ProofOfAuthority

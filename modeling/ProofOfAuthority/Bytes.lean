/-!
# Byte strings of fixed length

Hashes, addresses, block references and parameter keys are byte strings whose length is part of
their type. `Bytes n` holds such a string as the number that its bytes spell, most significant byte
first, so equality and order are those of numbers and the order is also the lexicographic one.

* `ofBigEndian_bigEndian` / `bigEndian_ofBigEndian` — writing a number as bytes and reading it back
  are inverse to each other.
* `bigEndian_inj` — a number that fits a width is determined by its bytes.
* `Bytes.toList_inj` — a fixed-length string is determined by its bytes.
-/

namespace ProofOfAuthority

/-- How many byte strings of length `width` there are, which is the least number that `width` bytes
cannot spell. -/
def Bytes.card (width : Nat) : Nat := Nat.pow 256 width

theorem Bytes.card_succ (width : Nat) : Bytes.card (width + 1) = Bytes.card width * 256 := rfl

theorem Bytes.card_pos (width : Nat) : 0 < Bytes.card width := Nat.pow_pos (by decide)

/-- The last `width` bytes of `n`, most significant first. -/
def bigEndian : (width n : Nat) → List UInt8
  | 0, _ => []
  | width + 1, n => bigEndian width (n / 256) ++ [UInt8.ofNat n]

/-- The number that `bytes` spells, most significant byte first. -/
def ofBigEndian (bytes : List UInt8) : Nat :=
  bytes.foldl (fun n byte => n * 256 + byte.toNat) 0

@[simp] theorem length_bigEndian (width n : Nat) : (bigEndian width n).length = width := by
  induction width generalizing n with
  | zero => rfl
  | succ width ih => simp [bigEndian, ih]

@[simp] theorem ofBigEndian_nil : ofBigEndian [] = 0 := rfl

@[simp] theorem ofBigEndian_concat (bytes : List UInt8) (byte : UInt8) :
    ofBigEndian (bytes ++ [byte]) = ofBigEndian bytes * 256 + byte.toNat := by
  simp [ofBigEndian]

theorem ofBigEndian_bigEndian {width n : Nat} (h : n < Bytes.card width) :
    ofBigEndian (bigEndian width n) = n := by
  induction width generalizing n with
  | zero => simp_all [bigEndian, Bytes.card]
  | succ width ih =>
    have hq : n / 256 < Bytes.card width := by rw [Bytes.card_succ] at h; omega
    have hb : (UInt8.ofNat n).toNat = n % 256 := by simp
    rw [bigEndian, ofBigEndian_concat, ih hq, hb]
    omega

theorem ofBigEndian_lt (bytes : List UInt8) : ofBigEndian bytes < Bytes.card bytes.length := by
  induction h : bytes.length generalizing bytes with
  | zero => simp [List.length_eq_zero_iff.mp h, Bytes.card]
  | succ n ih =>
    obtain ⟨init, last, rfl⟩ : ∃ init last, bytes = init ++ [last] :=
      ⟨_, _, (List.dropLast_concat_getLast (List.ne_nil_of_length_eq_add_one h)).symm⟩
    have hi := ih init (by simpa using h)
    have hl := last.toNat_lt
    rw [ofBigEndian_concat, Bytes.card_succ]
    omega

theorem bigEndian_ofBigEndian (bytes : List UInt8) :
    bigEndian bytes.length (ofBigEndian bytes) = bytes := by
  induction h : bytes.length generalizing bytes with
  | zero => simp [bigEndian, List.length_eq_zero_iff.mp h]
  | succ n ih =>
    obtain ⟨init, last, rfl⟩ : ∃ init last, bytes = init ++ [last] :=
      ⟨_, _, (List.dropLast_concat_getLast (List.ne_nil_of_length_eq_add_one h)).symm⟩
    have hl := last.toNat_lt
    have hq : (ofBigEndian init * 256 + last.toNat) / 256 = ofBigEndian init := by omega
    have hb : UInt8.ofNat (ofBigEndian init * 256 + last.toNat) = last := by
      apply UInt8.toNat_inj.mp
      simp only [UInt8.toNat_ofNat']
      omega
    rw [ofBigEndian_concat, bigEndian, hq, hb, ih init (by simpa using h)]

theorem bigEndian_inj {width m n : Nat} (hm : m < Bytes.card width)
    (hn : n < Bytes.card width) (h : bigEndian width m = bigEndian width n) : m = n := by
  rw [← ofBigEndian_bigEndian hm, h, ofBigEndian_bigEndian hn]

/-- A byte string of length `n`, held as the number it spells. -/
@[ext] structure Bytes (n : Nat) where
  /-- The number the bytes spell, most significant byte first. -/
  toNat : Nat
  toNat_lt : toNat < Bytes.card n
  deriving DecidableEq

/-- A Keccak-256 digest: block ids, transaction ids and roots. -/
abbrev Hash := Bytes 32

/-- An account address. -/
abbrev Address := Bytes 20

namespace Bytes

variable {n : Nat}

instance : LT (Bytes n) := ⟨fun a b => a.toNat < b.toNat⟩

instance (a b : Bytes n) : Decidable (a < b) := inferInstanceAs (Decidable (a.toNat < b.toNat))

theorem lt_def {a b : Bytes n} : a < b ↔ a.toNat < b.toNat := Iff.rfl

/-- The string whose bytes spell `k`; bytes that do not fit are dropped from the front. -/
def ofNat (k : Nat) : Bytes n :=
  ⟨k % card n, Nat.mod_lt _ (card_pos n)⟩

/-- The string of `n` zero bytes: `ZERO_HASH` and `ZERO_ADDRESS`. -/
def zero : Bytes n := ofNat 0

/-- The bytes, first byte first. -/
def toList (b : Bytes n) : List UInt8 := bigEndian n b.toNat

/-- The string with exactly these bytes, if there are `n` of them. -/
def ofList? (bytes : List UInt8) : Option (Bytes n) :=
  if bytes.length = n then some (ofNat (ofBigEndian bytes)) else none

@[simp] theorem length_toList (b : Bytes n) : b.toList.length = n := length_bigEndian n b.toNat

@[simp] theorem toNat_ofNat (k : Nat) : (ofNat k : Bytes n).toNat = k % card n := rfl

@[simp] theorem ofNat_toNat (b : Bytes n) : ofNat b.toNat = b :=
  Bytes.ext (Nat.mod_eq_of_lt b.toNat_lt)

@[simp] theorem ofBigEndian_toList (b : Bytes n) : ofBigEndian b.toList = b.toNat :=
  ofBigEndian_bigEndian b.toNat_lt

theorem toList_inj {a b : Bytes n} : a.toList = b.toList ↔ a = b :=
  ⟨fun h => Bytes.ext (bigEndian_inj a.toNat_lt b.toNat_lt h), fun h => h ▸ rfl⟩

@[simp] theorem ofList?_toList (b : Bytes n) : ofList? b.toList = some b := by
  simp [ofList?]

theorem toList_of_ofList? {bytes : List UInt8} {b : Bytes n} (h : ofList? bytes = some b) :
    b.toList = bytes := by
  unfold ofList? at h
  split at h
  · rename_i hl
    subst hl
    obtain rfl := Option.some.inj h
    rw [toList, toNat_ofNat, Nat.mod_eq_of_lt (ofBigEndian_lt bytes), bigEndian_ofBigEndian]
  · cases h

end Bytes

end ProofOfAuthority

import ProofOfAuthority.Amount
import ProofOfAuthority.Canonical

/-!
# Encodings that can be read back

What is hashed is a row of encoded fields without marks between them. Two such rows can only be
equal field by field, because every encoding shows where it ends: from `x`'s bytes with anything
after them one can tell `x`, and what came after (`Separates`). The property is one of two values
and not of an encoding as a whole, since a length of `2 ^ 64` and more is not written in full.

* `separates_of_length`, `separates_number` — encodings of one length, numbers among them.
* `separates_bytes`, `separates_list`, `separates_option` — byte strings and lists behind their
  length, and optional values.
-/

namespace ProofOfAuthority

variable {α : Type} {encode : α → List UInt8} {x y : α}

/-- Whatever bytes follow them, the encodings of `x` and `y` are told apart, and so is what
follows. -/
def Separates (encode : α → List UInt8) (x y : α) : Prop :=
  ∀ s t, encode x ++ s = encode y ++ t → x = y ∧ s = t

theorem Separates.eq (h : Separates encode x y) (heq : encode x = encode y) : x = y :=
  (h [] [] (by rw [heq])).1

theorem separates_of_length (hlen : (encode x).length = (encode y).length)
    (hinj : encode x = encode y → x = y) : Separates encode x y := by
  intro s t h
  obtain ⟨heq, htail⟩ := List.append_inj h hlen
  exact ⟨hinj heq, htail⟩

theorem separates_toList {n : Nat} (a b : Bytes n) : Separates Bytes.toList a b :=
  separates_of_length (by simp) Bytes.toList_inj.mp

theorem separates_flag (a b : Bool) : Separates Canonical.flag a b := by
  refine separates_of_length rfl ?_
  cases a <;> cases b <;> simp [Canonical.flag]

/-- **Numbers are told apart** if all of them fit the width at which they are written. -/
theorem separates_number {width : Nat} {toNat : α → Nat} (hlt : ∀ a, toNat a < Bytes.card width)
    (hinj : ∀ a b, toNat a = toNat b → a = b) (a b : α) :
    Separates (fun a => bigEndian width (toNat a)) a b := by
  refine separates_of_length (by simp) ?_
  intro h
  exact hinj a b (bigEndian_inj (hlt a) (hlt b) h)

theorem separates_amount (a b : Amount) : Separates (fun a : Amount => bigEndian 32 a.toNat) a b :=
  separates_number Amount.toNat_lt (fun _ _ => Amount.ext) a b

theorem separates_word8 (a b : UInt8) : Separates Canonical.word8 a b :=
  separates_of_length rfl List.singleton_inj.mp

theorem separates_word32 (a b : UInt32) : Separates Canonical.word32 a b :=
  separates_number UInt32.toNat_lt (fun _ _ => UInt32.toNat_inj.mp) a b

theorem separates_word64 (a b : UInt64) : Separates Canonical.word64 a b :=
  separates_number UInt64.toNat_lt (fun _ _ => UInt64.toNat_inj.mp) a b

/-- The largest count that eight bytes spell in full is the largest 64-bit word. -/
theorem card_eight : Bytes.card 8 = UInt64.size := by decide

theorem separates_count {m n : Nat} (hm : m < UInt64.size) (hn : n < UInt64.size) :
    Separates Canonical.count m n := by
  refine separates_of_length (by simp [Canonical.count]) ?_
  rw [← card_eight] at hm hn
  exact bigEndian_inj hm hn

theorem separates_bytes {a b : List UInt8} (ha : a.length < UInt64.size)
    (hb : b.length < UInt64.size) : Separates Canonical.bytes a b := by
  intro s t h
  rw [Canonical.bytes, Canonical.bytes, List.append_assoc, List.append_assoc] at h
  obtain ⟨hlen, h⟩ := separates_count ha hb _ _ h
  exact List.append_inj h hlen

/-- Items after items, as many on either side. -/
theorem separates_items {xs ys : List α} (hlen : xs.length = ys.length)
    (hitem : ∀ x ∈ xs, ∀ y ∈ ys, Separates encode x y) (s t : List UInt8)
    (h : xs.flatMap encode ++ s = ys.flatMap encode ++ t) : xs = ys ∧ s = t := by
  induction xs generalizing ys with
  | nil =>
    obtain rfl : ys = [] := List.eq_nil_of_length_eq_zero hlen.symm
    exact ⟨rfl, h⟩
  | cons x xs ih =>
    obtain ⟨y, ys, rfl⟩ := List.exists_cons_of_length_pos (l := ys) (by simp at hlen; omega)
    rw [List.flatMap_cons, List.flatMap_cons, List.append_assoc, List.append_assoc] at h
    obtain ⟨rfl, hrest⟩ := hitem x (by simp) y (by simp) _ _ h
    obtain ⟨rfl, htail⟩ := ih (by simpa using hlen)
      (fun a ha b hb => hitem a (by simp [ha]) b (by simp [hb])) hrest
    exact ⟨rfl, htail⟩

/-- **Lists are told apart** if their items are and their lengths are written in full. -/
theorem separates_list {xs ys : List α} (hx : xs.length < UInt64.size)
    (hy : ys.length < UInt64.size) (hitem : ∀ x ∈ xs, ∀ y ∈ ys, Separates encode x y) :
    Separates (Canonical.list encode) xs ys := by
  intro s t h
  rw [Canonical.list, Canonical.list, List.append_assoc, List.append_assoc] at h
  obtain ⟨hlen, h⟩ := separates_count hx hy _ _ h
  exact separates_items hlen hitem s t h

theorem separates_option {a b : Option α} (hitem : ∀ x ∈ a, ∀ y ∈ b, Separates encode x y) :
    Separates (Canonical.option encode) a b := by
  intro s t h
  cases a with
  | none =>
    cases b with
    | none => exact ⟨rfl, List.append_cancel_left h⟩
    | some y => exact absurd (List.cons.inj h).1 (by decide)
  | some x =>
    cases b with
    | none => exact absurd (List.cons.inj h).1 (by decide)
    | some y =>
      obtain ⟨rfl, htail⟩ := hitem x rfl y rfl s t (List.cons.inj h).2
      exact ⟨rfl, htail⟩

end ProofOfAuthority

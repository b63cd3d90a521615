import ProofOfAuthority.Bytes

/-!
# Amounts of value

An amount is a number that 32 bytes can spell. Sums and differences that leave that range do not
exist (`add?`, `sub?`); products stop at the largest amount (`scale`).

* `add?_eq_some_iff`, `sub?_eq_some_iff` — a sum or difference that exists is the one of the
  numbers.
* `add?_eq_none_iff`, `sub?_eq_none_iff` — one that does not exist is out of range.
-/

namespace ProofOfAuthority

/-- A number that 32 bytes can spell (`U256`). -/
@[ext] structure Amount where
  toNat : Nat
  toNat_lt : toNat < Bytes.card 32
  deriving DecidableEq

namespace Amount

/-- The largest amount, as a number (`U256::MAX`). -/
def maxNat : Nat := Bytes.card 32 - 1

instance : LE Amount := ⟨fun a b => a.toNat ≤ b.toNat⟩

instance (a b : Amount) : Decidable (a ≤ b) := inferInstanceAs (Decidable (a.toNat ≤ b.toNat))

theorem le_def {a b : Amount} : a ≤ b ↔ a.toNat ≤ b.toNat := Iff.rfl

/-- Nothing. -/
def zero : Amount := ⟨0, by decide⟩

/-- The amount `n`, if it is in range. -/
def ofNat? (n : Nat) : Option Amount := if h : n < Bytes.card 32 then some ⟨n, h⟩ else none

/-- The amount `n`, or the largest one if `n` is out of range. -/
def saturating (n : Nat) : Amount :=
  ⟨min n maxNat, Nat.lt_of_le_of_lt (Nat.min_le_right n maxNat) (by decide)⟩

/-- `U256::checked_add`: the sum, if it is in range. -/
def add? (a b : Amount) : Option Amount := ofNat? (a.toNat + b.toNat)

/-- `U256::checked_sub`: the difference, if `b` is not the larger. -/
def sub? (a b : Amount) : Option Amount :=
  if b ≤ a then some ⟨a.toNat - b.toNat, Nat.lt_of_le_of_lt (Nat.sub_le _ _) a.toNat_lt⟩ else none

/-- `U256::saturating_mul`: `k` times the amount, stopping at the largest amount. -/
def scale (a : Amount) (k : Nat) : Amount := saturating (a.toNat * k)

/-- The `k`-th part of the amount, rounded down. -/
def divide (a : Amount) (k : Nat) : Amount :=
  ⟨a.toNat / k, Nat.lt_of_le_of_lt (Nat.div_le_self _ _) a.toNat_lt⟩

/-! ## Lemmas -/

@[simp] theorem toNat_zero : zero.toNat = 0 := rfl

@[simp] theorem toNat_saturating (n : Nat) : (saturating n).toNat = min n maxNat := rfl

@[simp] theorem toNat_scale (a : Amount) (k : Nat) : (a.scale k).toNat = min (a.toNat * k) maxNat :=
  rfl

@[simp] theorem toNat_divide (a : Amount) (k : Nat) : (a.divide k).toNat = a.toNat / k := rfl

theorem add?_eq_some_iff {a b c : Amount} : a.add? b = some c ↔ a.toNat + b.toNat = c.toNat := by
  unfold add? ofNat?
  split
  · simp [Amount.ext_iff]
  · rename_i h
    have := c.toNat_lt
    simp only [reduceCtorEq, false_iff]
    omega

theorem add?_eq_none_iff {a b : Amount} :
    a.add? b = none ↔ Bytes.card 32 ≤ a.toNat + b.toNat := by
  unfold add? ofNat?
  split
  · rename_i h
    simpa using h
  · rename_i h
    simpa using h

theorem sub?_eq_some_iff {a b c : Amount} : a.sub? b = some c ↔ b.toNat + c.toNat = a.toNat := by
  unfold sub?
  split
  · rename_i h
    have := le_def.mp h
    simp only [Option.some.injEq, Amount.ext_iff]
    omega
  · rename_i h
    have := mt le_def.mpr h
    simp only [reduceCtorEq, false_iff]
    omega

theorem sub?_eq_none_iff {a b : Amount} : a.sub? b = none ↔ a.toNat < b.toNat := by
  rw [sub?, ← Nat.not_le, ← le_def]
  split
  · rename_i h
    simp [h]
  · rename_i h
    simp [h]

end Amount

end ProofOfAuthority

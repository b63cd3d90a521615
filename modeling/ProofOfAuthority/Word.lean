/-!
# Saturating arithmetic on 64-bit words

Gas and scores are 64-bit words whose sums stop at the largest word and whose differences stop at
zero.

* `toNat_satAdd`, `toNat_satSub` — both operations as functions on numbers.
-/

namespace ProofOfAuthority

/-- The largest 64-bit word, as a number (`u64::MAX`). -/
def maxWord : Nat := 0xffffffffffffffff

/-- `saturating_add`: the sum, or the largest word. -/
def satAdd (a b : UInt64) : UInt64 := UInt64.ofNat (min (a.toNat + b.toNat) maxWord)

/-- `saturating_sub`: the difference, or zero. -/
def satSub (a b : UInt64) : UInt64 := UInt64.ofNat (a.toNat - b.toNat)

@[simp] theorem toNat_satAdd (a b : UInt64) :
    (satAdd a b).toNat = min (a.toNat + b.toNat) maxWord := by
  have h : min (a.toNat + b.toNat) maxWord ≤ maxWord := Nat.min_le_right _ _
  rw [satAdd, UInt64.toNat_ofNat']
  exact Nat.mod_eq_of_lt (Nat.lt_of_le_of_lt h (by decide))

@[simp] theorem toNat_satSub (a b : UInt64) : (satSub a b).toNat = a.toNat - b.toNat := by
  rw [satSub, UInt64.toNat_ofNat']
  exact Nat.mod_eq_of_lt (Nat.lt_of_le_of_lt (Nat.sub_le _ _) a.toNat_lt)

end ProofOfAuthority

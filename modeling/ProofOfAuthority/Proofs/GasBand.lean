import ProofOfAuthority.GasLimit

/-!
# Gas limits that may follow one another

A limit may follow another if it is in the band and within one step. Moving from a limit in the band
never leaves the limits that may follow it, whatever the direction and the length asked for: the
step is cut off first, and being pushed back into the band only shortens it.

* `follows_eq_true_iff` — the limits that may follow, on numbers.
* `move_follows`, `nearest_follows` — moves go to limits that may follow.
-/

namespace ProofOfAuthority.GasLimit

variable {p : Protocol} {parent limit : UInt64}

/-- The limit is in the band. -/
def InBand (p : Protocol) (limit : UInt64) : Prop :=
  p.minGasLimit.toNat ≤ limit.toNat ∧ limit.toNat ≤ p.maxGasLimit.toNat

/-- The largest step away from a limit, as a number. -/
def step (p : Protocol) (parent : UInt64) : Nat := parent.toNat / p.gasLimitBoundDivisor.toNat

theorem maxStep_ok (hp : p.Valid) (parent : UInt64) :
    ∃ s, maxStep p parent = .ok s ∧ s.toNat = step p parent := by
  have hne : p.gasLimitBoundDivisor ≠ 0 := (UInt64.pos_iff_ne_zero.mp hp.divisor)
  exact ⟨parent / p.gasLimitBoundDivisor, if_neg hne, UInt64.toNat_div _ _⟩

theorem toNat_distance (a b : UInt64) :
    (distance a b).toNat = (a.toNat - b.toNat) + (b.toNat - a.toNat) := by
  unfold distance
  by_cases h : a < b
  · rw [if_pos h, UInt64.toNat_sub_of_le _ _ (UInt64.le_of_lt h)]
    rw [UInt64.lt_iff_toNat_lt] at h
    omega
  · rw [if_neg h, UInt64.toNat_sub_of_le _ _ (UInt64.not_lt.mp h)]
    rw [UInt64.lt_iff_toNat_lt] at h
    omega

/-- **The limits that may follow** another: those in the band within one step. -/
theorem follows_eq_true_iff (hp : p.Valid) : follows p parent limit = .ok true ↔
    InBand p limit ∧ limit.toNat ≤ parent.toNat + step p parent ∧
      parent.toNat ≤ limit.toNat + step p parent := by
  obtain ⟨s, hs, hstep⟩ := maxStep_ok hp parent
  unfold follows InBand
  by_cases hout : limit < p.minGasLimit ∨ p.maxGasLimit < limit
  · rw [if_pos hout]
    rw [UInt64.lt_iff_toNat_lt, UInt64.lt_iff_toNat_lt] at hout
    simp only [Except.ok.injEq, Bool.false_eq_true, false_iff]
    omega
  · rw [if_neg hout]
    rw [UInt64.lt_iff_toNat_lt, UInt64.lt_iff_toNat_lt] at hout
    have hdistance : distance limit parent ≤ s ↔
        limit.toNat ≤ parent.toNat + step p parent ∧
          parent.toNat ≤ limit.toNat + step p parent := by
      rw [UInt64.le_iff_toNat_le, toNat_distance, hstep]
      omega
    rw [hs, ← hdistance]
    simp only [bind, Except.bind, pure, Except.pure, Except.ok.injEq, decide_eq_true_eq]
    constructor
    · intro h
      exact ⟨by omega, h⟩
    · rintro ⟨-, h⟩
      exact h

theorem clamp_ok (hp : p.Valid) (limit : UInt64) :
    ∃ l, clamp p limit = .ok l ∧
      l.toNat = max p.minGasLimit.toNat (min limit.toNat p.maxGasLimit.toNat) := by
  have hband := UInt64.le_iff_toNat_le.mp hp.band
  unfold clamp
  rw [if_neg (UInt64.not_lt.mpr hp.band)]
  by_cases hlow : limit < p.minGasLimit
  · rw [if_pos hlow]
    rw [UInt64.lt_iff_toNat_lt] at hlow
    exact ⟨_, rfl, by omega⟩
  · rw [if_neg hlow]
    rw [UInt64.lt_iff_toNat_lt] at hlow
    by_cases hhigh : p.maxGasLimit < limit
    · rw [if_pos hhigh]
      rw [UInt64.lt_iff_toNat_lt] at hhigh
      exact ⟨_, rfl, by omega⟩
    · rw [if_neg hhigh]
      rw [UInt64.lt_iff_toNat_lt] at hhigh
      exact ⟨_, rfl, by omega⟩

/-- Being pushed into the band brings a limit no farther from one that is in the band. -/
theorem clamp_follows (hp : p.Valid) (hband : InBand p parent)
    (hup : limit.toNat ≤ parent.toNat + step p parent)
    (hdown : parent.toNat ≤ limit.toNat + step p parent) :
    ∃ l, clamp p limit = .ok l ∧ follows p parent l = .ok true := by
  obtain ⟨l, hl, hnat⟩ := clamp_ok hp limit
  obtain ⟨hmin, hmax⟩ := hband
  refine ⟨l, hl, (follows_eq_true_iff hp).mpr ⟨⟨?_, ?_⟩, ?_, ?_⟩⟩ <;> omega

/-- **A move from a limit in the band goes to one that may follow it.** -/
theorem move_follows (hp : p.Valid) (hband : InBand p parent) (delta : Int64) :
    ∃ limit, move p parent delta = .ok limit ∧ follows p parent limit = .ok true := by
  obtain ⟨s, hs, hstep⟩ := maxStep_ok hp parent
  have hlength : (UInt64.ofNat (min delta.toInt.natAbs s.toNat)).toNat ≤ step p parent := by
    have hs_lt := s.toNat_lt
    rw [UInt64.toNat_ofNat', Nat.mod_eq_of_lt (by omega)]
    omega
  have hmax := parent.toNat_lt
  unfold move
  rw [hs]
  simp only [bind, Except.bind]
  by_cases hsign : 0 ≤ delta
  · rw [if_pos hsign]
    refine clamp_follows hp hband ?_ ?_
    · rw [toNat_satAdd]
      omega
    · rw [toNat_satAdd, maxWord]
      omega
  · rw [if_neg hsign]
    refine clamp_follows hp hband ?_ ?_
    · rw [toNat_satSub]
      omega
    · rw [toNat_satSub]
      omega

/-- **The limit nearest to a target may follow.** -/
theorem nearest_follows (hp : p.Valid) (hband : InBand p parent) (target : UInt64) :
    ∃ limit, nearest p parent target = .ok limit ∧ follows p parent limit = .ok true :=
  move_follows hp hband (offset target parent)

end ProofOfAuthority.GasLimit

import Mathlib.Algebra.Order.Group.Unbundled.Abs
import Mathlib.Algebra.Order.Ring.Int
import Mathlib.Data.Nat.Cast.Order.Ring
import ProofOfAuthority.Proofs.GasBand

/-!
# The limit nearest to a target

The limits that may follow a limit are all words from a lowest to a highest one, so the one closest
to a number is found by cutting the number off at both ends. A move does exactly that. A move
towards a target, however, is given the difference to the target as a signed word, which is cut off
in turn. On the way up nothing is lost, because a limit with so much room above it has no step of
that length. On the way down something is lost if steps can be that long, which takes a divisor of
one: then the move stops short of the target.

* `closest_iff` — the closest limit is the number, cut off.
* `toNat_move` — a move is the sum, cut off.
* `move_closest` — so it goes to the limit closest to the sum.
* `toInt_offset` — the difference that a move towards a target is given.
* `confine_cut_iff` — when a difference that is cut off leads to the same limit.
* `nearest_closest_iff` — when the limit towards a target is the closest one.
-/

namespace ProofOfAuthority.GasLimit

variable {p : Protocol} {parent limit : UInt64} {goal : ℤ}

/-- The lowest limit that may follow. -/
def lowest (p : Protocol) (parent : UInt64) : Nat :=
  max p.minGasLimit.toNat (parent.toNat - step p parent)

/-- The highest limit that may follow. -/
def highest (p : Protocol) (parent : UInt64) : Nat :=
  min p.maxGasLimit.toNat (parent.toNat + step p parent)

/-- A number, cut off at the lowest and the highest limit that may follow. -/
def confine (p : Protocol) (parent : UInt64) (goal : ℤ) : ℤ :=
  max (lowest p parent) (min goal (highest p parent))

theorem follows_iff (hp : p.Valid) : follows p parent limit = .ok true ↔
    lowest p parent ≤ limit.toNat ∧ limit.toNat ≤ highest p parent := by
  rw [follows_eq_true_iff hp, InBand, lowest, highest]
  omega

theorem lowest_le_highest (hp : p.Valid) (hband : InBand p parent) :
    lowest p parent ≤ highest p parent := by
  have hminmax := UInt64.le_iff_toNat_le.mp hp.band
  obtain ⟨hmin, hmax⟩ := hband
  rw [lowest, highest]
  omega

/-- A number that is cut off is a word, which may follow. -/
theorem exists_follows_confine (hp : p.Valid) (hband : InBand p parent) (goal : ℤ) :
    ∃ limit, follows p parent limit = .ok true ∧ (limit.toNat : ℤ) = confine p parent goal := by
  have hle := lowest_le_highest hp hband
  have hmax : highest p parent ≤ p.maxGasLimit.toNat := Nat.min_le_left _ _
  have hword := p.maxGasLimit.toNat_lt
  have hnat : (UInt64.ofNat (confine p parent goal).toNat).toNat =
      (confine p parent goal).toNat := by
    rw [UInt64.toNat_ofNat', Nat.mod_eq_of_lt]
    rw [confine]
    omega
  refine ⟨UInt64.ofNat (confine p parent goal).toNat, (follows_iff hp).mpr ?_, ?_⟩
  · rw [hnat, confine]
    omega
  · rw [hnat, confine]
    omega

/-! ## The closest limit -/

/-- The limit may follow `parent`, and no limit that may follow is closer to the goal. -/
structure Closest (p : Protocol) (parent limit : UInt64) (goal : ℤ) : Prop where
  follows : follows p parent limit = .ok true
  least (other : UInt64) : GasLimit.follows p parent other = .ok true →
    |(limit.toNat : ℤ) - goal| ≤ |(other.toNat : ℤ) - goal|

/-- **The closest limit** is the goal, cut off. -/
theorem closest_iff (hp : p.Valid) (hband : InBand p parent) :
    Closest p parent limit goal ↔ (limit.toNat : ℤ) = confine p parent goal := by
  have hle := lowest_le_highest hp hband
  constructor
  · intro h
    obtain ⟨other, hother, hconfine⟩ := exists_follows_confine hp hband goal
    have hleast := h.least other hother
    have hfollows := (follows_iff hp).mp h.follows
    rw [hconfine, abs_eq_max_neg, abs_eq_max_neg, confine] at hleast
    rw [confine]
    omega
  · intro h
    have hfollows : GasLimit.follows p parent limit = .ok true := by
      rw [follows_iff hp]
      rw [confine] at h
      omega
    refine ⟨hfollows, ?_⟩
    intro other hother
    rw [follows_iff hp] at hother
    rw [h, confine, abs_eq_max_neg, abs_eq_max_neg]
    omega

/-! ## Moves -/

/-- Cutting a number off is keeping it within a step first, and in the band second. -/
theorem confine_eq (hband : InBand p parent) (goal : ℤ) : confine p parent goal =
    max (p.minGasLimit.toNat : ℤ) (min (max (parent.toNat - step p parent)
      (min goal (parent.toNat + step p parent))) p.maxGasLimit.toNat) := by
  have hshort : step p parent ≤ parent.toNat := Nat.div_le_self _ _
  have hdown : (parent.toNat : ℤ) - step p parent ≤ p.maxGasLimit.toNat := by
    obtain ⟨-, hmax⟩ := hband
    omega
  rw [confine, lowest, highest, min_max_distrib_right, min_eq_left hdown]
  push_cast [hshort]
  rw [max_assoc, min_comm (p.maxGasLimit.toNat : ℤ), ← min_assoc]

/-- **A move** goes to the sum, cut off. -/
theorem toNat_move (hp : p.Valid) (hband : InBand p parent) (delta : Int64) :
    ∃ limit, move p parent delta = .ok limit ∧
      (limit.toNat : ℤ) = confine p parent (parent.toNat + delta.toInt) := by
  obtain ⟨s, hs, hstep⟩ := maxStep_ok hp parent
  have hlength : (UInt64.ofNat (min delta.toInt.natAbs s.toNat)).toNat =
      min delta.toInt.natAbs (step p parent) := by
    have hword := s.toNat_lt
    rw [UInt64.toNat_ofNat', Nat.mod_eq_of_lt (by omega), hstep]
  have hshort : step p parent ≤ parent.toNat := Nat.div_le_self _ _
  rw [confine_eq hband]
  unfold move
  rw [hs]
  simp only [bind, Except.bind]
  by_cases hsign : 0 ≤ delta
  · obtain ⟨limit, hlimit, hnat⟩ := clamp_ok hp (satAdd parent
      (UInt64.ofNat (min delta.toInt.natAbs s.toNat)))
    have hpos : 0 ≤ delta.toInt := Int64.le_iff_toInt_le.mp hsign
    have hsum : max ((parent.toNat : ℤ) - step p parent)
        (min (parent.toNat + delta.toInt) (parent.toNat + step p parent)) =
          (parent.toNat + min delta.toInt.natAbs (step p parent) : Nat) := by omega
    have hword : p.maxGasLimit.toNat ≤ maxWord := Nat.le_of_lt_succ p.maxGasLimit.toNat_lt
    rw [if_pos hsign]
    refine ⟨limit, hlimit, ?_⟩
    rw [hnat, toNat_satAdd, hlength, min_assoc, min_eq_right hword, hsum, Nat.cast_max,
      Nat.cast_min]
  · obtain ⟨limit, hlimit, hnat⟩ := clamp_ok hp (satSub parent
      (UInt64.ofNat (min delta.toInt.natAbs s.toNat)))
    have hneg : delta.toInt < 0 := Int64.lt_iff_toInt_lt.mp (Int64.not_le.mp hsign)
    have hsum : max ((parent.toNat : ℤ) - step p parent)
        (min (parent.toNat + delta.toInt) (parent.toNat + step p parent)) =
          (parent.toNat - min delta.toInt.natAbs (step p parent) : Nat) := by omega
    rw [if_neg hsign]
    refine ⟨limit, hlimit, ?_⟩
    rw [hnat, toNat_satSub, hlength, hsum, Nat.cast_max, Nat.cast_min]

/-- The limits closest to a goal are one limit: there are never two as close on either side. -/
theorem Closest.unique (hp : p.Valid) (hband : InBand p parent) {other : UInt64}
    (h : Closest p parent limit goal) (h' : Closest p parent other goal) : limit = other := by
  rw [closest_iff hp hband] at h h'
  exact UInt64.toNat_inj.mp (by omega)

/-- **A move goes as near to the sum as may be.** Whatever the signed word, `move` has a result, and
that is the one limit that is `Closest` to the sum. -/
theorem move_closest (hp : p.Valid) (hband : InBand p parent) (delta : Int64) :
    ∃ limit, move p parent delta = .ok limit ∧
      ∀ other, Closest p parent other (parent.toNat + delta.toInt) ↔ other = limit := by
  obtain ⟨limit, hlimit, hnat⟩ := toNat_move hp hband delta
  have hclosest := (closest_iff hp hband).mpr hnat
  refine ⟨limit, hlimit, fun other => ⟨fun hother => hother.unique hp hband hclosest, ?_⟩⟩
  rintro rfl
  exact hclosest

/-- Down from the largest word by the least signed word, which has no opposite among signed words.
The sum is no word if the limit is small, and out of reach of a step in any case. -/
theorem standard_move_closest : Protocol.standard.Valid ∧
    InBand Protocol.standard 18446744073709551615 ∧ InBand Protocol.standard 1000000 ∧
    move Protocol.standard 18446744073709551615 Int64.minValue = .ok 18428729675200069632 ∧
    Closest Protocol.standard 18446744073709551615 18428729675200069632 (2 ^ 63 - 1) ∧
    Closest Protocol.standard 1000000 1000000 (1000000 - 2 ^ 63) := by
  have hvalid : Protocol.standard.Valid := Protocol.defect?_eq_none_iff.mp (by decide)
  have hhigh : InBand Protocol.standard 18446744073709551615 := ⟨by decide, by decide⟩
  have hlow : InBand Protocol.standard 1000000 := ⟨by decide, by decide⟩
  have hmove : move Protocol.standard 18446744073709551615 Int64.minValue =
      .ok 18428729675200069632 := by decide
  have hstay : move Protocol.standard 1000000 Int64.minValue = .ok 1000000 := by decide
  obtain ⟨limit, hlimit, hclosest⟩ := move_closest hvalid hhigh Int64.minValue
  obtain ⟨floor, hfloor, hleast⟩ := move_closest hvalid hlow Int64.minValue
  have htop : 18428729675200069632 = limit := Except.ok.inj (hmove.symm.trans hlimit)
  have hbottom : 1000000 = floor := Except.ok.inj (hstay.symm.trans hfloor)
  exact ⟨hvalid, hhigh, hlow, hmove, (hclosest _).mpr htop, (hleast _).mpr hbottom⟩

/-- **The difference** to a target is cut off at the largest signed word, on either side. -/
theorem toInt_offset (target parent : UInt64) :
    (offset target parent).toInt =
      max (-(2 ^ 63 - 1)) (min ((target.toNat : ℤ) - parent.toNat) (2 ^ 63 - 1)) := by
  have hmax : Int64.maxValue.toInt = 2 ^ 63 - 1 := by decide
  have hdistance := toNat_distance target parent
  unfold offset
  dsimp only
  by_cases hle : parent ≤ target
  · rw [if_pos hle, Int64.toInt_ofInt_of_le (by omega) (by omega)]
    rw [UInt64.le_iff_toNat_le] at hle
    omega
  · rw [if_neg hle, Int64.toInt_ofInt_of_le (by omega) (by omega)]
    rw [UInt64.le_iff_toNat_le] at hle
    omega

/-- The limit towards a target, as a number. -/
theorem toNat_nearest (hp : p.Valid) (hband : InBand p parent) (target : UInt64) :
    ∃ limit, nearest p parent target = .ok limit ∧ (limit.toNat : ℤ) = confine p parent
      (max (parent.toNat - (2 ^ 63 - 1)) (min target.toNat (parent.toNat + (2 ^ 63 - 1)))) := by
  obtain ⟨limit, hlimit, hnat⟩ := toNat_move hp hband (offset target parent)
  refine ⟨limit, hlimit, ?_⟩
  rw [hnat, toInt_offset]
  congr 1
  omega

theorem step_of_one (h : p.gasLimitBoundDivisor = 1) : step p parent = parent.toNat := by
  rw [step, h, UInt64.toNat_one, Nat.div_one]

theorem step_le_half (hp : p.Valid) (h : p.gasLimitBoundDivisor ≠ 1) :
    step p parent ≤ parent.toNat / 2 := by
  have hpos : 0 < p.gasLimitBoundDivisor.toNat := UInt64.lt_iff_toNat_lt.mp hp.divisor
  have hone : p.gasLimitBoundDivisor.toNat ≠ 1 := fun hone => h (UInt64.toNat_inj.mp hone)
  exact Nat.div_le_div_left (by omega) (by decide)

/-- A bound that is put on the goal beforehand makes no difference from above, if it is no lower
than the highest limit. From below it makes none only if the goal or the lowest limit is no
lower. -/
theorem confine_cut_iff {low high : ℤ} (hlow : low ≤ highest p parent)
    (hhigh : highest p parent ≤ high) :
    confine p parent (max low (min goal high)) = confine p parent goal ↔
      low ≤ max goal (lowest p parent) := by
  rw [confine, confine]
  omega

/-- Steps may be of any length, and the target, like the least limit, is farther below the parent
than a signed word can tell. -/
def OutOfSight (p : Protocol) (parent target : UInt64) : Prop :=
  p.gasLimitBoundDivisor = 1 ∧ max target.toNat p.minGasLimit.toNat + 2 ^ 63 ≤ parent.toNat

theorem outOfSight_iff (hp : p.Valid) {target : UInt64} : OutOfSight p parent target ↔
    ¬(parent.toNat : ℤ) - (2 ^ 63 - 1) ≤ max (target.toNat : ℤ) (lowest p parent) := by
  have hparent := parent.toNat_lt
  rw [OutOfSight, lowest]
  by_cases hone : p.gasLimitBoundDivisor = 1
  · rw [step_of_one hone]
    simp only [hone, true_and]
    omega
  · -- Half of a word is within what a signed word can tell, so no step is cut off.
    have hstep : step p parent ≤ parent.toNat / 2 := step_le_half hp hone
    simp only [hone, false_and, false_iff, not_not]
    omega

/-- **The limit towards a target is the closest one** (`Closest`), except where the target is
`OutOfSight`. There the limit is as far below the parent as a signed word can tell. -/
theorem nearest_closest_iff (hp : p.Valid) (hband : InBand p parent) (target : UInt64) :
    ∃ limit, nearest p parent target = .ok limit ∧ follows p parent limit = .ok true ∧
      (Closest p parent limit target.toNat ↔ ¬OutOfSight p parent target) ∧
      (OutOfSight p parent target → limit.toNat + (2 ^ 63 - 1) = parent.toNat) := by
  obtain ⟨limit, hlimit, hfollows⟩ := nearest_follows hp hband target
  obtain ⟨limit', hlimit', hnat⟩ := toNat_nearest hp hband target
  obtain rfl : limit = limit' := Except.ok.inj (hlimit.symm.trans hlimit')
  have hparent := parent.toNat_lt
  have hmax := p.maxGasLimit.toNat_lt
  have hlow : (parent.toNat : ℤ) - (2 ^ 63 - 1) ≤ highest p parent := by
    obtain ⟨-, hhigh⟩ := hband
    rw [highest]
    omega
  have hhigh : (highest p parent : ℤ) ≤ parent.toNat + (2 ^ 63 - 1) := by
    have hshort : step p parent ≤ parent.toNat := Nat.div_le_self _ _
    rw [highest]
    omega
  refine ⟨limit, hlimit, hfollows, ?_, ?_⟩
  · rw [closest_iff hp hband, hnat, confine_cut_iff hlow hhigh, outOfSight_iff hp, not_not]
  · intro hsight
    have hbelow := (outOfSight_iff hp).mp hsight
    rw [confine] at hnat
    omega

end ProofOfAuthority.GasLimit

namespace ProofOfAuthority.Sample

open GasLimit

/-- Towards 20 million, 10 million take a full step. -/
theorem standard_nearest : Protocol.standard.Valid ∧ InBand Protocol.standard 10000000 ∧
    nearest Protocol.standard 10000000 20000000 = .ok 10009765 ∧
    Closest Protocol.standard 10000000 10009765 20000000 := by
  have hvalid : Protocol.standard.Valid := Protocol.defect?_eq_none_iff.mp (by decide)
  have hband : InBand Protocol.standard 10000000 := ⟨by decide, by decide⟩
  have hlimit : nearest Protocol.standard 10000000 20000000 = .ok 10009765 := by decide
  have hsight : ¬OutOfSight Protocol.standard 10000000 20000000 := fun h => by
    cases h.1
  obtain ⟨limit, hlimit', -, hclosest, -⟩ := nearest_closest_iff hvalid hband 20000000
  obtain rfl : 10009765 = limit := Except.ok.inj (hlimit.symm.trans hlimit')
  exact ⟨hvalid, hband, hlimit, hclosest.mpr hsight⟩

/-- The standard parameters, with steps of any length. -/
def leaping : Protocol := { Protocol.standard with gasLimitBoundDivisor := 1 }

/-- Down from the largest word, the least limit may follow and is the target, but the move towards
it stops half way. -/
theorem leaping_misses : leaping.Valid ∧ InBand leaping 18446744073709551615 ∧
    nearest leaping 18446744073709551615 1000000 = .ok 9223372036854775808 ∧
    follows leaping 18446744073709551615 1000000 = .ok true ∧
    ¬Closest leaping 18446744073709551615 9223372036854775808 1000000 := by
  have hfollows : follows leaping 18446744073709551615 1000000 = .ok true := by decide
  refine ⟨Protocol.defect?_eq_none_iff.mp (by decide), ⟨by decide, by decide⟩, by decide, hfollows,
    fun h => ?_⟩
  have hleast := h.least 1000000 hfollows
  revert hleast
  decide

end ProofOfAuthority.Sample

import ProofOfAuthority.Fault
import ProofOfAuthority.Protocol
import ProofOfAuthority.Word

/-!
# Block gas limits

A gas limit stays inside an absolute band and moves by at most a fixed part of its parent's limit.
`follows` decides whether one limit may follow another, `move` takes the largest allowed step in a
direction, and `nearest` the one towards a target.
-/

namespace ProofOfAuthority.GasLimit

/-- `max_step`: the largest step away from `parent`. -/
def maxStep (p : Protocol) (parent : UInt64) : Except Fault UInt64 :=
  if p.gasLimitBoundDivisor = 0 then .error .divisionByZero
  else .ok (parent / p.gasLimitBoundDivisor)

/-- `abs_diff`: the distance of two words. -/
def distance (a b : UInt64) : UInt64 := if a < b then b - a else a - b

/-- `GasLimit::is_valid`: whether `limit` may follow `parent`: inside the band and within one step.
-/
def follows (p : Protocol) (parent limit : UInt64) : Except Fault Bool :=
  if limit < p.minGasLimit ∨ p.maxGasLimit < limit then .ok false
  else do
    let step ← maxStep p parent
    return distance limit parent ≤ step

/-- The word in the band nearest to `limit`. -/
def clamp (p : Protocol) (limit : UInt64) : Except Fault UInt64 :=
  if p.maxGasLimit < p.minGasLimit then .error .emptyRange
  else if limit < p.minGasLimit then .ok p.minGasLimit
  else if p.maxGasLimit < limit then .ok p.maxGasLimit
  else .ok limit

/-- `GasLimit::adjust`: `limit` moved by `delta`, or by the largest step in that direction, and kept
inside the band. -/
def move (p : Protocol) (limit : UInt64) (delta : Int64) : Except Fault UInt64 := do
  let step ← maxStep p limit
  let length := UInt64.ofNat (min delta.toInt.natAbs step.toNat)
  clamp p (if 0 ≤ delta then satAdd limit length else satSub limit length)

/-- The step that `GasLimit::qualify` asks for: the signed difference `target - parent`, cut off at
the largest signed word on either side. -/
def offset (target parent : UInt64) : Int64 :=
  let length : Int := min (distance target parent).toNat Int64.maxValue.toInt
  Int64.ofInt (if parent ≤ target then length else -length)

/-- `GasLimit::qualify`: the limit nearest to `target` that may follow `parent`. -/
def nearest (p : Protocol) (parent target : UInt64) : Except Fault UInt64 :=
  move p parent (offset target parent)

end ProofOfAuthority.GasLimit

/-!
# Protocol parameters

The parameters that all nodes of a network share: they fix the slot grid, how far back skipped slots
count, and the band of gas limits.

* `check_eq_ok_iff` — exactly the parameters with positive interval, walk length and divisor and a
  non-empty gas band are accepted, unchanged.
-/

namespace ProofOfAuthority

/-- The parameters of a network (`ProtocolConfig`). -/
@[ext] structure Protocol where
  /-- Seconds between two slots. -/
  blockInterval : UInt64
  /-- How many skipped slots are inspected at most. -/
  maxBlockProposers : UInt64
  /-- The least gas limit. -/
  minGasLimit : UInt64
  /-- The largest gas limit. -/
  maxGasLimit : UInt64
  /-- A gas limit may move by this part of its parent's. -/
  gasLimitBoundDivisor : UInt64
  /-- The gas limit of a genesis block. -/
  initialGasLimit : UInt64
  deriving DecidableEq

/-- What makes parameters meaningless (`ConfigError`). -/
inductive ProtocolDefect
  | zeroInterval
  | zeroProposers
  | zeroDivisor
  | emptyGasBand
  deriving DecidableEq

/-- The defect as text. -/
def ProtocolDefect.message : ProtocolDefect → String
  | zeroInterval => "block_interval must be positive"
  | zeroProposers => "max_block_proposers must be positive"
  | zeroDivisor => "gas_limit_bound_divisor must be positive"
  | emptyGasBand => "min_gas_limit exceeds max_gas_limit"

namespace Protocol

/-- `ProtocolConfig::default`: the parameters of a network that sets none. -/
def standard : Protocol where
  blockInterval := 10
  maxBlockProposers := 101
  minGasLimit := 1000000
  maxGasLimit := 18446744073709551615
  gasLimitBoundDivisor := 1024
  initialGasLimit := 10000000

/-- Parameters under which every check has a result. -/
structure Valid (p : Protocol) : Prop where
  interval : 0 < p.blockInterval
  proposers : 0 < p.maxBlockProposers
  divisor : 0 < p.gasLimitBoundDivisor
  band : p.minGasLimit ≤ p.maxGasLimit

/-- The first defect that `ProtocolConfig::validate` comes to, if there is one. -/
def defect? (p : Protocol) : Option ProtocolDefect :=
  if p.blockInterval = 0 then some .zeroInterval
  else if p.maxBlockProposers = 0 then some .zeroProposers
  else if p.gasLimitBoundDivisor = 0 then some .zeroDivisor
  else if p.maxGasLimit < p.minGasLimit then some .emptyGasBand
  else none

/-- `ProtocolConfig::validate`: the parameters, unless they have a defect. -/
def check (p : Protocol) : Except ProtocolDefect Protocol :=
  match p.defect? with
  | some d => .error d
  | none => .ok p

/-! ## Lemmas -/

theorem defect?_eq_none_iff {p : Protocol} : p.defect? = none ↔ p.Valid := by
  have zero_iff (w : UInt64) : w = 0 ↔ w.toNat = 0 := by
    rw [← UInt64.toNat_inj, UInt64.toNat_zero]
  have pos_iff (w : UInt64) : 0 < w ↔ 0 < w.toNat := by
    rw [UInt64.lt_iff_toNat_lt, UInt64.toNat_zero]
  have valid_iff : p.Valid ↔ 0 < p.blockInterval ∧ 0 < p.maxBlockProposers ∧
      0 < p.gasLimitBoundDivisor ∧ p.minGasLimit ≤ p.maxGasLimit :=
    ⟨fun h => ⟨h.interval, h.proposers, h.divisor, h.band⟩,
      fun ⟨h1, h2, h3, h4⟩ => ⟨h1, h2, h3, h4⟩⟩
  rw [valid_iff]
  simp only [defect?, zero_iff, pos_iff, UInt64.lt_iff_toNat_lt, UInt64.le_iff_toNat_le]
  split
  · simp; omega
  · split
    · simp; omega
    · split
      · simp; omega
      · split
        · simp; omega
        · simp; omega

theorem check_eq_ok_iff {p q : Protocol} : p.check = .ok q ↔ p.Valid ∧ q = p := by
  rw [← defect?_eq_none_iff, check]
  cases p.defect? <;> simp [eq_comm]

end Protocol

end ProofOfAuthority

import ProofOfAuthority.Bytes.Hex
import ProofOfAuthority.Scheduling.Rotation
import ProofOfAuthority.Transaction

/-!
# Violations of the consensus rules

A violation is a verdict on the block itself. Every violation is final except `futureBlock`: such a
block may become valid once the clock catches up.

* `isFuture_iff` — which violations are not final.
-/

namespace ProofOfAuthority

/-- What carries a signature (`SignedObject`). -/
inductive Subject
  | block
  | transaction (index : Nat)
  deriving DecidableEq

/-- The subject as text. -/
def Subject.message : Subject → String
  | block => "block"
  | transaction index => s!"tx #{index}"

/-- The consensus rule that a block breaks (`ConsensusError`). -/
inductive Violation
  /-- The block does not extend the given parent. -/
  | parentMismatch (expected found : BlockId)
  | timestampBehindParent (parent current : UInt64)
  | intervalNotRounded (parent current : UInt64)
  | futureBlock (timestamp now : UInt64)
  | gasLimitInvalid (parent current : UInt64)
  | gasUsedExceedsLimit (limit used : UInt64)
  | totalScoreInvalid (expected found : UInt64)
  | signerUnavailable (subject : Subject) (cause : SignatureError)
  | invalidSigner (signer : Address) (cause : SchedulingError)
  | timestampUnscheduled (timestamp : UInt64) (signer : Address)
  | txRootMismatch (expected found : Hash)
  | chainTagMismatch (expected found : UInt8)
  | txRefFutureBlock (reference current : UInt32)
  | txExpired (reference current expiration : UInt32)
  | reservedFieldsNotEmpty (index : Nat)
  | txAlreadyExists (txId : TxId)
  | txDepBroken (txId dependency : TxId)
  | txDepReverted (txId dependency : TxId)
  | gasUsedMismatch (expected found : UInt64)
  | receiptsRootMismatch (expected found : Hash)
  | stateRootMismatch (expected found : Hash)
  deriving DecidableEq

namespace Violation

/-- The violation as text. -/
def message : Violation → String
  | parentMismatch expected found =>
    s!"block parent mismatch: want {expected.toHex}, have {found.toHex}"
  | timestampBehindParent parent current =>
    s!"block timestamp behind parents: parent {parent}, current {current}"
  | intervalNotRounded parent current =>
    s!"block interval not rounded: parent {parent}, current {current}"
  | futureBlock timestamp now => s!"block in the future: timestamp {timestamp}, now {now}"
  | gasLimitInvalid parent current =>
    s!"block gas limit invalid: parent {parent}, current {current}"
  | gasUsedExceedsLimit limit used => s!"block gas used exceeds limit: limit {limit}, used {used}"
  | totalScoreInvalid expected found =>
    s!"block total score invalid: want {expected}, have {found}"
  | signerUnavailable subject cause => s!"{subject.message} signer unavailable: {cause.message}"
  | invalidSigner signer cause => s!"block signer invalid: {signer.toHex} {cause.message}"
  | timestampUnscheduled timestamp signer =>
    s!"block timestamp unscheduled: t {timestamp}, s {signer.toHex}"
  | txRootMismatch expected found =>
    s!"block txs root mismatch: want {expected.toHex}, have {found.toHex}"
  | chainTagMismatch expected found => s!"tx chain tag mismatch: want {expected}, have {found}"
  | txRefFutureBlock reference current =>
    s!"tx ref future block: ref {reference}, current {current}"
  | txExpired reference current expiration =>
    s!"tx expired: ref {reference}, current {current}, expiration {expiration}"
  | reservedFieldsNotEmpty index => s!"tx reserved fields not empty: tx #{index}"
  | txAlreadyExists txId => s!"tx already exists: {txId.toHex}"
  | txDepBroken txId dependency => s!"tx dep broken: tx {txId.toHex}, dep {dependency.toHex}"
  | txDepReverted txId dependency => s!"tx dep reverted: tx {txId.toHex}, dep {dependency.toHex}"
  | gasUsedMismatch expected found => s!"block gas used mismatch: want {expected}, have {found}"
  | receiptsRootMismatch expected found =>
    s!"block receipts root mismatch: want {expected.toHex}, have {found.toHex}"
  | stateRootMismatch expected found =>
    s!"block state root mismatch: want {expected.toHex}, have {found.toHex}"

/-- `ConsensusError::reason`: the label under which the violation is counted. -/
def label : Violation → String
  | parentMismatch .. => "parent_mismatch"
  | timestampBehindParent .. => "timestamp_behind_parent"
  | intervalNotRounded .. => "interval_not_rounded"
  | futureBlock .. => "future_block"
  | gasLimitInvalid .. => "gas_limit_invalid"
  | gasUsedExceedsLimit .. => "gas_used_exceeds_limit"
  | totalScoreInvalid .. => "total_score_invalid"
  | signerUnavailable .. => "signer_unavailable"
  | invalidSigner .. => "invalid_signer"
  | timestampUnscheduled .. => "timestamp_unscheduled"
  | txRootMismatch .. => "tx_root_mismatch"
  | chainTagMismatch .. => "chain_tag_mismatch"
  | txRefFutureBlock .. => "tx_ref_future_block"
  | txExpired .. => "tx_expired"
  | reservedFieldsNotEmpty .. => "reserved_fields_not_empty"
  | txAlreadyExists .. => "tx_already_exists"
  | txDepBroken .. => "tx_dep_broken"
  | txDepReverted .. => "tx_dep_reverted"
  | gasUsedMismatch .. => "gas_used_mismatch"
  | receiptsRootMismatch .. => "receipts_root_mismatch"
  | stateRootMismatch .. => "state_root_mismatch"

/-- `ConsensusError::is_future_block`: whether the block may become valid later. -/
def isFuture : Violation → Bool
  | futureBlock .. => true
  | _ => false

theorem isFuture_iff (v : Violation) :
    v.isFuture ↔ ∃ timestamp now, v = futureBlock timestamp now := by
  cases v <;> simp [isFuture]

end Violation

end ProofOfAuthority

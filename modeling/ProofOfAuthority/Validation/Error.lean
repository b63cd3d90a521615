import ProofOfAuthority.Chain.Error
import ProofOfAuthority.Execution.Error
import ProofOfAuthority.Validation.Violation

/-!
# Outcomes of a failed validation

Either the block breaks a consensus rule, or one of the parties that validation consults failed,
which says nothing about the block.
-/

namespace ProofOfAuthority

/-- Why validation did not accept a block. -/
inductive ValidationError
  | violation (rule : Violation)
  | execution (cause : ExecutionError)
  | ledger (cause : LedgerError)
  | chain (cause : ChainError)
  deriving DecidableEq

namespace ValidationError

/-- The error as text. -/
def message : ValidationError → String
  | violation rule => rule.message
  | execution cause => "transaction execution failed: " ++ cause.message
  | ledger cause => "ledger state error: " ++ cause.message
  | chain cause => "chain index error: " ++ cause.message

/-- `ValidationError::reason`: the label under which the error is counted. -/
def label : ValidationError → String
  | violation rule => rule.label
  | execution _ => "execution_failed"
  | ledger _ => "state_error"
  | chain _ => "chain_error"

/-- `ValidationError::is_future_block`: whether the block may become valid later. -/
def isFutureBlock : ValidationError → Bool
  | violation rule => rule.isFuture
  | _ => false

/-- `ValidationError::is_block_invalid`: whether the block can never become valid. -/
def isBlockInvalid : ValidationError → Bool
  | violation rule => !rule.isFuture
  | _ => false

end ValidationError

end ProofOfAuthority

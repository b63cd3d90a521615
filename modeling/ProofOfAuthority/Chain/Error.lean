import ProofOfAuthority.Bytes.Hex
import ProofOfAuthority.Signature

/-!
# Errors of the chain
-/

namespace ProofOfAuthority

/-- Why a block cannot be added (`ChainError::InvalidBlock`). -/
inductive Rejection
  /-- Not one receipt a transaction. -/
  | receiptCount (receipts transactions : Nat)
  /-- A transaction without a signer. -/
  | unsigned (cause : SignatureError)
  /-- Any other reason. -/
  | other (detail : String)
  deriving DecidableEq

/-- The reason as text. -/
def Rejection.message : Rejection → String
  | receiptCount receipts transactions => s!"{receipts} receipts for {transactions} transactions"
  | unsigned cause => cause.message
  | other detail => detail

/-- Why the chain has no answer or refuses a block. -/
inductive ChainError
  | unknownBlock (id : Hash)
  | receiptMissing (blockId : Hash) (index : Nat)
  | rejected (reason : Rejection)
  deriving DecidableEq

/-- The error as text. -/
def ChainError.message : ChainError → String
  | unknownBlock id => "Unknown block: " ++ id.toHex
  | receiptMissing blockId index =>
    s!"Receipt missing for tx #{index} of block " ++ blockId.toHex
  | rejected reason => "Block rejected by chain index: " ++ reason.message

end ProofOfAuthority

import ProofOfAuthority.Ledger.Error
import ProofOfAuthority.Signature

/-!
# Errors of execution

A transaction that reverts is no error: it has a receipt. These errors make its block unexecutable.
-/

namespace ProofOfAuthority

/-- Why a transaction cannot be executed (`RuntimeError`). -/
inductive ExecutionError
  | signer (cause : SignatureError)
  | intrinsicGasExceeded (intrinsic provided : UInt64)
  | insufficientFunds (payer : Address)
  | ledger (cause : LedgerError)
  deriving DecidableEq

/-- The error as text. -/
def ExecutionError.message : ExecutionError → String
  | signer cause => "tx signer unavailable: " ++ cause.message
  | intrinsicGasExceeded intrinsic provided =>
    s!"intrinsic gas exceeds provided gas: intrinsic {intrinsic}, provided {provided}"
  | insufficientFunds payer => "insufficient balance to pay for gas: " ++ payer.toHex
  | ledger cause => cause.message

end ProofOfAuthority

import ProofOfAuthority.Bytes.Hex

/-!
# Errors of the ledger
-/

namespace ProofOfAuthority

/-- Why the ledger has no answer or refuses a write (`StateError`). -/
inductive LedgerError
  /-- No ledger with this root was committed. -/
  | unknownRoot (root : Hash)
  /-- No registered candidate signs with this address. -/
  | candidateNotFound (signer : Address)
  /-- The account cannot hold more. -/
  | balanceOverflow (account : Address)
  /-- The storage below the ledger failed. -/
  | storage (detail : String)
  deriving DecidableEq

/-- The error as text. -/
def LedgerError.message : LedgerError → String
  | unknownRoot root => "Unknown state root: " ++ root.toHex
  | candidateNotFound signer => "Authority candidate not found: " ++ signer.toHex
  | balanceOverflow account => "Balance overflow for " ++ account.toHex
  | storage detail => "Database error: " ++ detail

end ProofOfAuthority

import ProofOfAuthority.Bytes
import ProofOfAuthority.Amount
import ProofOfAuthority.Authority
import ProofOfAuthority.Block
import ProofOfAuthority.Block.Id
import ProofOfAuthority.Bytes.Hex
import ProofOfAuthority.Canonical
import ProofOfAuthority.Chain
import ProofOfAuthority.Chain.Error
import ProofOfAuthority.Curve.Residue
import ProofOfAuthority.Curve.Secp256k1
import ProofOfAuthority.Digest.Keccak
import ProofOfAuthority.Digest.Sha256
import ProofOfAuthority.Execution
import ProofOfAuthority.Execution.Error
import ProofOfAuthority.Execution.ValueTransfer
import ProofOfAuthority.Fault
import ProofOfAuthority.GasLimit
import ProofOfAuthority.Ledger
import ProofOfAuthority.Ledger.Archive
import ProofOfAuthority.Ledger.Error
import ProofOfAuthority.Ledger.Table
import ProofOfAuthority.Merkle
import ProofOfAuthority.Protocol
import ProofOfAuthority.Protocol.Document
import ProofOfAuthority.Receipt
import ProofOfAuthority.Scheduling.Rotation
import ProofOfAuthority.Signature
import ProofOfAuthority.Signature.Nonce
import ProofOfAuthority.Signature.Recovery
import ProofOfAuthority.Signature.Signing
import ProofOfAuthority.Toml.Document
import ProofOfAuthority.Toml.Lexical
import ProofOfAuthority.Toml.Number
import ProofOfAuthority.Toml.Reader
import ProofOfAuthority.Toml.Tree
import ProofOfAuthority.Transaction
import ProofOfAuthority.Transaction.Gas
import ProofOfAuthority.Validation
import ProofOfAuthority.Validation.Body
import ProofOfAuthority.Validation.Error
import ProofOfAuthority.Validation.Header
import ProofOfAuthority.Validation.Proposer
import ProofOfAuthority.Validation.Replay
import ProofOfAuthority.Validation.Violation
import ProofOfAuthority.Word
import ProofOfAuthority.Proofs.Ancestry
import ProofOfAuthority.Proofs.Growth
import ProofOfAuthority.Proofs.Replaying
import ProofOfAuthority.Proofs.History
import ProofOfAuthority.Proofs.Permanence
import ProofOfAuthority.Proofs.GasBand
import ProofOfAuthority.Proofs.Production
import ProofOfAuthority.Proofs.RootBinding
import ProofOfAuthority.Proofs.Encoding
import ProofOfAuthority.Proofs.LedgerRoot
import ProofOfAuthority.Proofs.SigningBytes
import ProofOfAuthority.Proofs.Lookup
import ProofOfAuthority.Proofs.Transfers
import ProofOfAuthority.Proofs.Stops
import ProofOfAuthority.Proofs.Supply
import ProofOfAuthority.Proofs.Ownership
import ProofOfAuthority.Proofs.Operations
import ProofOfAuthority.Proofs.PerfectTree
import ProofOfAuthority.Proofs.Machine
import ProofOfAuthority.Proofs.Outcomes
import ProofOfAuthority.Proofs.Importing
import ProofOfAuthority.Proofs.Reordering
import ProofOfAuthority.Proofs.InPlace
import ProofOfAuthority.Proofs.Lineage
import ProofOfAuthority.Proofs.Activity
import ProofOfAuthority.Proofs.Absence
import ProofOfAuthority.Proofs.EarliestSlot
import ProofOfAuthority.Proofs.Accounting
import ProofOfAuthority.Proofs.Clauses
import ProofOfAuthority.Proofs.FailedExecution
import ProofOfAuthority.Proofs.IntrinsicGas
import ProofOfAuthority.Proofs.Fees
import ProofOfAuthority.Proofs.NearestLimit
import ProofOfAuthority.Proofs.ReceiptBytes
import ProofOfAuthority.Proofs.ParentView
import ProofOfAuthority.Proofs.Inquiry
import ProofOfAuthority.Proofs.LazyReads
import ProofOfAuthority.Proofs.Malleability
import ProofOfAuthority.Proofs.Walking
import ProofOfAuthority.Proofs.Session

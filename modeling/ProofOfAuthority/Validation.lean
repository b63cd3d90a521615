import ProofOfAuthority.Validation.Body
import ProofOfAuthority.Validation.Header
import ProofOfAuthority.Validation.Proposer
import ProofOfAuthority.Validation.Replay

/-!
# Validating a block

A block passes when it extends the given parent, its header follows the parent's, its proposer owns
the slot, its transactions are admissible, and replaying them gives what the header commits to,
checked in this order. The ledger that is passed in is changed only in the result of an accepted
block.
-/

namespace ProofOfAuthority

/-- The settings of a validator (`Consensus`): checked parameters and the tag of its chain. -/
structure Validator where
  protocol : Protocol
  chainTag : UInt8
  deriving DecidableEq

namespace Validator

/-- `Consensus::new`: the validator for a chain, unless the parameters have a defect. -/
def create (chain : Chain) (protocol : Protocol) : Except ProtocolDefect Validator :=
  protocol.check.map fun protocol => ⟨protocol, chain.tag⟩

/-- `Consensus::run_pipeline` as far as the replay: the checks that come before it. The ledger to
replay on. -/
def prepare (v : Validator) (ledger : Ledger) (block : Block) (parent : Header) (now : UInt64) :
    Checked ValidationError Ledger :=
  if block.header.parentId ≠ parent.id then
    Checked.refuse (.violation (.parentMismatch parent.id block.header.parentId))
  else do
    Checked.mapReason .violation (checkHeader v.protocol block.header parent now)
    let ledger ← checkProposer v.protocol ledger block.header parent
    Checked.ofExcept .violation (checkBody v.chainTag block)
    return ledger

/-- `Consensus::validate`: validate a block on top of `parent`, with the ledger after `parent` and
the clock at `now`. -/
def validate {μ : Type} (v : Validator) (chain : Chain) (executor : Executor μ) (memory : μ)
    (ledger : Ledger) (block : Block) (parent : Header) (now : UInt64) : Checked Stop Replayed := do
  let ledger ← Checked.mapReason (⟨·, 0⟩) (v.prepare ledger block parent now)
  Checked.ofExcept (fun stop => stop) (replay chain executor memory ledger block)

end Validator

end ProofOfAuthority

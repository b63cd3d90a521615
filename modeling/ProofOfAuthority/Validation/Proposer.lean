import ProofOfAuthority.Block
import ProofOfAuthority.Ledger
import ProofOfAuthority.Scheduling.Rotation
import ProofOfAuthority.Validation.Error

/-!
# Checks of a block's proposer

The signer of a header must be an endorsed candidate that owns the header's slot, and the header
must carry the score that the slot earns. The changes of activity that go with the slot are then
written to the ledger.
-/

namespace ProofOfAuthority

/-- The proposers that `Consensus::validate_proposer` schedules: candidates whose endorsor holds the
required balance. -/
def Ledger.proposers (l : Ledger) : List Proposer :=
  (l.candidates.filter fun c => l.param ParamKey.proposerEndorsement ≤ l.balance c.endorsor).map
    Candidate.proposer

/-- `MemoryState::update_candidate` for each change of activity, in order. -/
def Ledger.applyUpdates (l : Ledger) : List Proposer → Except LedgerError Ledger
  | [] => .ok l
  | u :: rest => do
    let l ← l.setActive u.address u.active
    l.applyUpdates rest

/-- `Consensus::validate_proposer`: check the proposer of a header on top of `parent`. The ledger
with the changes of activity. -/
def checkProposer (p : Protocol) (ledger : Ledger) (header parent : Header) :
    Checked ValidationError Ledger :=
  match header.signer with
  | .error cause => Checked.refuse (.violation (.signerUnavailable .block cause))
  | .ok signer =>
    match Rotation.ofSigner p signer ledger.proposers parent.number parent.timestamp with
    | .error cause => Checked.refuse (.violation (.invalidSigner signer cause))
    | .ok rotation => do
      let owns ← Checked.ofFaulty (rotation.ownsSlot header.timestamp)
      if !owns then Checked.refuse (.violation (.timestampUnscheduled header.timestamp signer))
      else
        let expected := satAdd parent.totalScore (rotation.score header.timestamp)
        if header.totalScore ≠ expected then
          Checked.refuse (.violation (.totalScoreInvalid expected header.totalScore))
        else Checked.ofExcept .ledger (ledger.applyUpdates (rotation.updates header.timestamp))

end ProofOfAuthority

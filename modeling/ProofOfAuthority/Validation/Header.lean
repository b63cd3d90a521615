import ProofOfAuthority.Block
import ProofOfAuthority.GasLimit
import ProofOfAuthority.Validation.Violation

/-!
# Checks of a header against its parent

The checks run in a fixed order and the first failure decides: time, slot grid, clock, gas limit,
gas used, score.
-/

namespace ProofOfAuthority

/-- `BlockValidator::validate_block_header`: check a header against its parent's and the clock. -/
def checkHeader (p : Protocol) (header parent : Header) (now : UInt64) : Checked Violation Unit :=
  if header.timestamp ≤ parent.timestamp then
    Checked.refuse (.timestampBehindParent parent.timestamp header.timestamp)
  else if p.blockInterval = 0 then .error (.fault .divisionByZero)
  else if (header.timestamp - parent.timestamp) % p.blockInterval ≠ 0 then
    Checked.refuse (.intervalNotRounded parent.timestamp header.timestamp)
  else if satAdd now p.blockInterval < header.timestamp then
    Checked.refuse (.futureBlock header.timestamp now)
  else do
    let follows ← Checked.ofFaulty (GasLimit.follows p parent.gasLimit header.gasLimit)
    if !follows then Checked.refuse (.gasLimitInvalid parent.gasLimit header.gasLimit)
    else if header.gasLimit < header.gasUsed then
      Checked.refuse (.gasUsedExceedsLimit header.gasLimit header.gasUsed)
    else if header.totalScore ≤ parent.totalScore then
      Checked.refuse (.totalScoreInvalid (satAdd parent.totalScore 1) header.totalScore)
    else return ()

end ProofOfAuthority

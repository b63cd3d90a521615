import ProofOfAuthority.Bytes

/-!
# Authorities and governance parameters

A candidate is registered in the ledger with the account that backs it. Scheduling sees only its
`Proposer` view: who signs, and whether the candidate is active. A governance parameter is keyed by
its name, right-aligned among zero bytes.
-/

namespace ProofOfAuthority

/-- A registered authority (`AuthorityCandidate`). -/
structure Candidate where
  /-- Who signs blocks. -/
  signer : Address
  /-- Whose balance backs the candidate. -/
  endorsor : Address
  /-- Chosen by the operator. -/
  identity : Hash
  active : Bool
  deriving DecidableEq

/-- What scheduling sees of a candidate. -/
structure Proposer where
  address : Address
  active : Bool
  deriving DecidableEq

/-- `Proposer::from`: the scheduling view. -/
def Candidate.proposer (c : Candidate) : Proposer := ⟨c.signer, c.active⟩

/-- The key of a governance parameter. -/
abbrev ParamKey := Bytes 32

namespace ParamKey

/-- `param_key`: the key of a name of at most 32 bytes. -/
def ofName? (name : List UInt8) : Option ParamKey :=
  if name.length ≤ 32 then some (Bytes.ofNat (ofBigEndian name)) else none

/-- `KEY_PROPOSER_ENDORSEMENT`, the key of `proposer-endorsement`: the least balance of an endorsor
whose candidate is scheduled. -/
def proposerEndorsement : ParamKey :=
  Bytes.ofNat 0x70726f706f7365722d656e646f7273656d656e74

/-- `KEY_BASE_GAS_PRICE`, the key of `base-gas-price`: the price of gas before a transaction's
coefficient. -/
def baseGasPrice : ParamKey := Bytes.ofNat 0x626173652d6761732d7072696365

end ParamKey

end ProofOfAuthority

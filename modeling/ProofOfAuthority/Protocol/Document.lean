import ProofOfAuthority.Protocol
import ProofOfAuthority.Toml.Document

/-!
# Protocol parameters from a document

Parameters are set by keys of the root table of a TOML document. Keys that are not set keep their
standard value, other keys are ignored, and the result is checked.
-/

namespace ProofOfAuthority

/-- Why parameters cannot be loaded (`ConfigError`). -/
inductive ProtocolError
  /-- There is no such file, or it is no text. -/
  | unreadable
  /-- The text is no document, or sets a parameter to something else than a 64-bit number. -/
  | malformed
  | defective (defect : ProtocolDefect)
  deriving DecidableEq

/-- The error as text. -/
def ProtocolError.message : ProtocolError → String
  | unreadable => "Failed to read config file"
  | malformed => "Failed to parse config"
  | defective defect => "Invalid config: " ++ defect.message

namespace Protocol

/-- The parameter under a key, or its standard value. -/
def parameter? (es : Toml.Entries) (key : String) (standard : UInt64) : Option UInt64 :=
  match es.find? key with
  | none => some standard
  | some (.integer n) => if 0 ≤ n then some (UInt64.ofNat n.toNat) else none
  | some _ => none

/-- The parameters that the entries of a root table set. -/
def ofEntries? (es : Toml.Entries) : Option Protocol := do
  return {
    blockInterval := ← parameter? es "block_interval" standard.blockInterval
    maxBlockProposers := ← parameter? es "max_block_proposers" standard.maxBlockProposers
    minGasLimit := ← parameter? es "min_gas_limit" standard.minGasLimit
    maxGasLimit := ← parameter? es "max_gas_limit" standard.maxGasLimit
    gasLimitBoundDivisor := ← parameter? es "gas_limit_bound_divisor" standard.gasLimitBoundDivisor
    initialGasLimit := ← parameter? es "initial_gas_limit" standard.initialGasLimit }

/-- The checked parameters, with a defect as error. -/
def checked (p : Protocol) : Except ProtocolError Protocol := p.check.mapError .defective

/-- `ProtocolConfig::from_toml_str`: the parameters that a document sets. -/
def ofText (text : String) : Except ProtocolError Protocol :=
  match (Toml.entries? text).bind ofEntries? with
  | some p => p.checked
  | none => .error .malformed

/-- `ProtocolConfig::load`: the parameters that a file sets, given by its bytes; none if there is no
file. -/
def ofFile (content : Option (List UInt8)) : Except ProtocolError Protocol :=
  match content.bind fun bytes => String.fromUTF8? (ByteArray.mk bytes.toArray) with
  | some text => ofText text
  | none => .error .unreadable

end Protocol

end ProofOfAuthority

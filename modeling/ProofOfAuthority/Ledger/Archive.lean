import ProofOfAuthority.Ledger

/-!
# The archive of committed ledgers

Committed ledgers are kept under their roots. The zero root always stands for the empty ledger.

* `ledger_commit_self` — a committed ledger can be reopened at its root.
-/

namespace ProofOfAuthority

/-- Committed ledgers by root (`MemoryDb`). -/
structure Archive where
  entries : List (Hash × Ledger)
  deriving DecidableEq

namespace Archive

/-- `MemoryDb::new`: the archive with nothing committed. -/
def empty : Archive := ⟨[]⟩

/-- `MemoryDb::contains`: whether a ledger with this root was committed. -/
def contains (a : Archive) (root : Hash) : Bool := a.entries.any (·.1 = root)

/-- `MemoryDb::len`: how many ledgers are committed. -/
def size (a : Archive) : Nat := a.entries.length

/-- `MemoryDb::state`: the ledger with this root. -/
def ledger (a : Archive) (root : Hash) : Except LedgerError Ledger :=
  if root = Bytes.zero then .ok Ledger.empty
  else
    match a.entries.find? (·.1 = root) with
    | some entry => .ok entry.2
    | none => .error (.unknownRoot root)

/-- `MemoryStage::commit`: the archive with a ledger kept under its root. -/
def commit (a : Archive) (l : Ledger) : Archive :=
  ⟨(l.root, l) :: a.entries.filter (·.1 ≠ l.root)⟩

theorem ledger_commit_self (a : Archive) (l : Ledger) (h : l.root ≠ Bytes.zero) :
    (a.commit l).ledger l.root = .ok l := by
  simp [commit, ledger, h]

end Archive

end ProofOfAuthority

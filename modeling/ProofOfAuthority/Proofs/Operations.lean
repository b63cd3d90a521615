import ProofOfAuthority.Amount
import ProofOfAuthority.Word

/-!
# The operations of a machine

A machine computes on words of 64 bits and stops a program that asks for what it cannot give: a
difference below zero, a sum beyond the largest word, a quotient or remainder by zero, an item past
the end of a list. Lengths of lists are numbers, since what is in memory can be counted in words.

* `sub_eq`, `add_eq`, `div_eq`, `rem_eq`, `item_eq` — what an operation gives if it is not stopped.
-/

namespace ProofOfAuthority

/-- Why a machine stops a program. -/
inductive Trap
  | divisionByZero
  | outOfRange
  | overflow
  deriving DecidableEq

namespace Machine

variable {α β : Type}

/-- The difference, which must not be negative. -/
def sub [LT α] [DecidableLT α] [Sub α] (a b : α) : Except Trap α :=
  if a < b then .error .overflow else .ok (a - b)

/-- The sum, which must fit in a word. -/
def add (a b : UInt64) : Except Trap UInt64 :=
  if maxWord < a.toNat + b.toNat then .error .overflow else .ok (a + b)

/-- The product, which must fit in a word. -/
def mul (a b : UInt64) : Except Trap UInt64 :=
  if maxWord < a.toNat * b.toNat then .error .overflow else .ok (a * b)

/-- The quotient. -/
def div [DecidableEq α] [OfNat α 0] [Div α] (a b : α) : Except Trap α :=
  if b = 0 then .error .divisionByZero else .ok (a / b)

/-- The remainder. -/
def rem [DecidableEq α] [OfNat α 0] [Mod α] (a b : α) : Except Trap α :=
  if b = 0 then .error .divisionByZero else .ok (a % b)

/-- `div_ceil`: the quotient, rounded up. -/
def divUp (a b : UInt64) : Except Trap UInt64 := do
  let whole ← div a b
  let rest ← rem a b
  if 0 < rest then add whole 1 else return whole

/-- The quotient of an amount. -/
def part (a : Amount) (k : Nat) : Except Trap Amount :=
  if k = 0 then .error .divisionByZero else .ok (a.divide k)

/-- The item at a place in a list. -/
def item (xs : List α) (i : Nat) : Except Trap α :=
  match xs[i]? with
  | some x => .ok x
  | none => .error .outOfRange

@[simp] theorem ok_bind {ζ : Type} (a : α) (f : α → Except ζ β) : (Except.ok a >>= f) = f a := rfl

theorem sub_eq [LT α] [DecidableLT α] [Sub α] {a b : α} (h : ¬a < b) : sub a b = .ok (a - b) :=
  if_neg h

theorem add_eq {a b : UInt64} (h : a.toNat + b.toNat ≤ maxWord) : add a b = .ok (a + b) :=
  if_neg (Nat.not_lt.mpr h)

theorem toNat_of_add {a b c : UInt64} (h : add a b = .ok c) : c.toNat = a.toNat + b.toNat := by
  unfold add at h
  split at h
  · cases h
  · rename_i hle
    obtain rfl := Except.ok.inj h
    rw [maxWord] at hle
    rw [UInt64.toNat_add]
    exact Nat.mod_eq_of_lt (by omega)

theorem div_eq [DecidableEq α] [OfNat α 0] [Div α] {a b : α} (h : b ≠ 0) :
    div a b = .ok (a / b) :=
  if_neg h

theorem rem_eq [DecidableEq α] [OfNat α 0] [Mod α] {a b : α} (h : b ≠ 0) :
    rem a b = .ok (a % b) :=
  if_neg h

theorem item_eq {xs : List α} {i : Nat} {x : α} (h : xs[i]? = some x) : item xs i = .ok x := by
  rw [item, h]

end Machine

end ProofOfAuthority

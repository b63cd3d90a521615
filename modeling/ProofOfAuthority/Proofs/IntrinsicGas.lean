import Mathlib.Algebra.BigOperators.Group.List.Basic
import Mathlib.Algebra.GroupWithZero.Nat
import Mathlib.Logic.Relation
import ProofOfAuthority.Proofs.SigningBytes
import ProofOfAuthority.Transaction.Gas

/-!
# The exact sum behind intrinsic gas

Gas is added up in words, first over the bytes of a clause and then over the clauses, and every
addition stops at the largest word. Costs are never negative, so a sum that has stopped does not
move again, and stopping along the way comes to the same as stopping once at the end.

A transaction without clauses is charged for one of the cheapest kind. So what is charged for
clauses is a maximum (`Transaction.gasSum_eq_max`), and it does not fall where the first is added.

* `toNat_foldl_step` — a fold of additions that stop is the exact sum, stopped.
* `Transaction.toNat_intrinsicGas` — intrinsic gas is `Transaction.gasSum`, stopped.
* `Transaction.minGas_le_intrinsicGas` — no transaction is cheaper than a single transfer.
* `Clause.Reorder.sum_eq`, `Clause.Insertion.sum_le` — what one change of the clauses does to the
  sum.
* `Transaction.intrinsicGas_capped` — all of it, for any number of changes.
-/

namespace ProofOfAuthority

/-- **Stopping along the way is stopping at the end.** -/
theorem toNat_foldl_step {α : Type} {step : UInt64 → α → UInt64} {cost : α → Nat}
    (hstep : ∀ gas x, (step gas x).toNat = min (gas.toNat + cost x) maxWord) (gas : UInt64)
    (xs : List α) :
    (xs.foldl step gas).toNat = min (gas.toNat + (xs.map cost).sum) maxWord := by
  induction xs generalizing gas with
  | nil =>
    have hword : gas.toNat ≤ maxWord := Nat.le_of_lt_succ gas.toNat_lt
    simp [Nat.min_eq_left hword]
  | cons x xs ih =>
    rw [List.foldl_cons, ih, hstep, List.map_cons, List.sum_cons]
    omega

/-! ## The exact sums -/

/-- The exact charge for the data of a clause. -/
def Gas.dataSum (data : List UInt8) : Nat :=
  (data.map fun byte => if byte = 0 then 4 else 68).sum

/-- The exact charge for a clause with its data. -/
def Clause.gasSum (c : Clause) : Nat :=
  (if c.recipient.isSome then 16000 else 48000) + Gas.dataSum c.data

/-- The exact charge for a transaction. -/
def Transaction.gasSum (tx : Transaction) : Nat :=
  5000 + if tx.clauses = [] then 16000 else (tx.clauses.map Clause.gasSum).sum

/-- What the cheapest transactions are charged. -/
def Transaction.minGas : Nat := 21000

theorem Gas.toNat_ofData (data : List UInt8) :
    (Gas.ofData data).toNat = min (Gas.dataSum data) maxWord := by
  have hstep (gas : UInt64) (byte : UInt8) :
      (satAdd gas (if byte = 0 then perZeroByte else perByte)).toNat =
        min (gas.toNat + if byte = 0 then 4 else 68) maxWord := by
    rw [toNat_satAdd]
    split <;> rfl
  rw [ofData, toNat_foldl_step hstep, UInt64.toNat_zero, Nat.zero_add]
  rfl

theorem Clause.toNat_baseGas (c : Clause) :
    c.baseGas.toNat = if c.recipient.isSome then 16000 else 48000 := by
  unfold Clause.baseGas
  split <;> rfl

theorem Clause.le_gasSum (c : Clause) : 16000 ≤ c.gasSum := by
  unfold Clause.gasSum
  split <;> omega

namespace Transaction

/-- **Intrinsic gas** is the exact sum, or the largest word if that is less. -/
theorem toNat_intrinsicGas (tx : Transaction) :
    tx.intrinsicGas.toNat = min tx.gasSum maxWord := by
  unfold intrinsicGas gasSum
  by_cases hempty : tx.clauses = []
  · simp only [hempty, List.isEmpty_nil, if_true]
    rfl
  · have hstep (gas : UInt64) (c : Clause) :
        (satAdd (satAdd gas c.baseGas) (Gas.ofData c.data)).toNat =
          min (gas.toNat + c.gasSum) maxWord := by
      rw [toNat_satAdd, toNat_satAdd, Gas.toNat_ofData, c.toNat_baseGas, Clause.gasSum]
      omega
    rw [if_neg (by simpa using hempty), if_neg hempty, toNat_foldl_step hstep]
    rfl

/-- No clause is cheaper than the one that a transaction without clauses is charged for. -/
theorem gasSum_eq_max (tx : Transaction) :
    tx.gasSum = 5000 + max 16000 (tx.clauses.map Clause.gasSum).sum := by
  unfold gasSum
  cases tx.clauses with
  | nil => rfl
  | cons c rest =>
    have hclause := c.le_gasSum
    simp only [reduceCtorEq, if_false, List.map_cons, List.sum_cons]
    omega

theorem minGas_le_gasSum (tx : Transaction) : minGas ≤ tx.gasSum := by
  rw [gasSum_eq_max, minGas]
  omega

/-- **No transaction is cheaper** than one with a single clause, a recipient and no data. -/
theorem minGas_le_intrinsicGas (tx : Transaction) : minGas ≤ tx.intrinsicGas.toNat := by
  rw [toNat_intrinsicGas]
  exact Nat.le_min.mpr ⟨tx.minGas_le_gasSum, by decide⟩

end Transaction

/-! ## Changes of the clauses -/

theorem Gas.dataSum_cons (byte : UInt8) (data : List UInt8) :
    dataSum (byte :: data) = (if byte = 0 then 4 else 68) + dataSum data := by
  rw [dataSum, List.map_cons, List.sum_cons, ← dataSum]

theorem Gas.dataSum_append (front back : List UInt8) :
    dataSum (front ++ back) = dataSum front + dataSum back := by
  rw [dataSum, List.map_append, List.sum_append, ← dataSum, ← dataSum]

theorem Gas.dataSum_perm {data data' : List UInt8} (h : data.Perm data') :
    dataSum data = dataSum data' :=
  (h.map _).sum_eq

namespace Clause

variable {cs cs' : List Clause}

/-- The clause without its data. -/
def bare (c : Clause) : Clause := { c with data := [] }

/-- One change of order, of clauses or of data bytes. A byte may also move to another clause. -/
inductive Reorder : List Clause → List Clause → Prop
  | clauses {cs cs' : List Clause} : cs.Perm cs' → Reorder cs cs'
  | data {cs cs' : List Clause} : cs.map bare = cs'.map bare →
      (cs.flatMap Clause.data).Perm (cs'.flatMap Clause.data) → Reorder cs cs'

/-- One clause or one data byte more, at any place. -/
inductive Insertion : List Clause → List Clause → Prop
  | clause {before after : List Clause} {c : Clause} :
      Insertion (before ++ after) (before ++ c :: after)
  | byte {before after : List Clause} {recipient : Option Address} {value : Amount}
      {front back : List UInt8} {byte : UInt8} :
      Insertion (before ++ ⟨recipient, value, front ++ back⟩ :: after)
        (before ++ ⟨recipient, value, front ++ byte :: back⟩ :: after)

/-- Any number of changes of order. -/
def Reordered (cs cs' : List Clause) : Prop := Relation.ReflTransGen Reorder cs cs'

/-- Any number of changes, by which nothing is taken away. -/
def Enlarged (cs cs' : List Clause) : Prop :=
  Relation.ReflTransGen (fun a b => Reorder a b ∨ Insertion a b) cs cs'

/-- The charge for data does not depend on which clause has it. -/
theorem sum_gasSum (cs : List Clause) :
    (cs.map gasSum).sum = ((cs.map bare).map gasSum).sum + Gas.dataSum (cs.flatMap data) := by
  induction cs with
  | nil => rfl
  | cons c cs ih =>
    have hclause : c.gasSum = c.bare.gasSum + Gas.dataSum c.data := rfl
    simp only [List.map_cons, List.sum_cons, List.flatMap_cons, Gas.dataSum_append, ih, hclause]
    omega

theorem Reorder.sum_eq (h : Reorder cs cs') : (cs.map gasSum).sum = (cs'.map gasSum).sum := by
  cases h with
  | clauses hperm => exact (hperm.map gasSum).sum_eq
  | data hbare hdata => rw [sum_gasSum cs, sum_gasSum cs', hbare, Gas.dataSum_perm hdata]

theorem Insertion.sum_le (h : Insertion cs cs') : (cs.map gasSum).sum ≤ (cs'.map gasSum).sum := by
  cases h with
  | clause =>
    simp only [List.map_append, List.map_cons, List.sum_append, List.sum_cons]
    omega
  | byte =>
    simp only [List.map_append, List.map_cons, List.sum_append, List.sum_cons, gasSum,
      Gas.dataSum_append, Gas.dataSum_cons]
    omega

theorem Reordered.sum_eq (h : Reordered cs cs') : (cs.map gasSum).sum = (cs'.map gasSum).sum := by
  induction h with
  | refl => rfl
  | tail _ hstep ih => exact ih.trans hstep.sum_eq

theorem Enlarged.sum_le (h : Enlarged cs cs') : (cs.map gasSum).sum ≤ (cs'.map gasSum).sum := by
  induction h with
  | refl => exact Nat.le_refl _
  | tail _ hstep ih =>
    rcases hstep with hreorder | hinsertion
    · exact Nat.le_trans ih (Nat.le_of_eq hreorder.sum_eq)
    · exact Nat.le_trans ih hinsertion.sum_le

end Clause

namespace Transaction

variable {tx tx' : Transaction}

theorem gasSum_mono
    (h : (tx.clauses.map Clause.gasSum).sum ≤ (tx'.clauses.map Clause.gasSum).sum) :
    tx.gasSum ≤ tx'.gasSum := by
  rw [gasSum_eq_max, gasSum_eq_max]
  omega

theorem intrinsicGas_mono (h : tx.gasSum ≤ tx'.gasSum) : tx.intrinsicGas ≤ tx'.intrinsicGas := by
  rw [UInt64.le_iff_toNat_le, toNat_intrinsicGas, toNat_intrinsicGas]
  omega

theorem intrinsicGas_congr (h : tx.gasSum = tx'.gasSum) : tx.intrinsicGas = tx'.intrinsicGas := by
  rw [← UInt64.toNat_inj, toNat_intrinsicGas, toNat_intrinsicGas, h]

/-- **Intrinsic gas is the exact sum**, `gasSum`, cut off at the largest word, and 21000 or more. It
is the same for `Reordered` clauses and never less for `Enlarged` ones, from the empty list on. -/
theorem intrinsicGas_capped (tx : Transaction) :
    tx.intrinsicGas.toNat = min (2 ^ 64 - 1) tx.gasSum ∧ 21000 ≤ tx.intrinsicGas.toNat ∧
    ∀ tx' : Transaction,
      (Clause.Reordered tx.clauses tx'.clauses → tx'.intrinsicGas = tx.intrinsicGas) ∧
      (Clause.Enlarged tx.clauses tx'.clauses → tx.intrinsicGas ≤ tx'.intrinsicGas) := by
  refine ⟨?_, tx.minGas_le_intrinsicGas, fun tx' => ⟨fun hreordered => ?_, fun henlarged => ?_⟩⟩
  · rw [toNat_intrinsicGas, Nat.min_comm]
    rfl
  · have hsum : tx'.gasSum = tx.gasSum := by
      rw [gasSum_eq_max, gasSum_eq_max, hreordered.sum_eq]
    exact intrinsicGas_congr hsum
  · exact intrinsicGas_mono (gasSum_mono henlarged.sum_le)

end Transaction

/-! ### A creation before a call, and more data than a word can charge for -/

namespace Sample

/-- A call with these bytes. -/
def callWith (data : List UInt8) : Clause := ⟨some Bytes.zero, Amount.zero, data⟩

/-- A creation with these bytes. -/
def createWith (data : List UInt8) : Clause := ⟨none, Amount.zero, data⟩

/-- A call with two bytes, and a creation. -/
def callFirst : Transaction := withFields [callWith [0, 1], createWith []] []

/-- The creation comes first and has one of the bytes. -/
def createFirst : Transaction := withFields [createWith [1], callWith [0]] []

/-- A call with `n` bytes. -/
def flooded (n : Nat) : Transaction := withFields [callWith (List.replicate n 1)] []

theorem reordered_createFirst : Clause.Reordered callFirst.clauses createFirst.clauses := by
  have hswap : Clause.Reorder [callWith [0, 1], createWith []] [createWith [], callWith [0, 1]] :=
    .clauses (List.Perm.swap _ _ _)
  have hmove : Clause.Reorder [createWith [], callWith [0, 1]] [createWith [1], callWith [0]] :=
    .data rfl (List.Perm.swap _ _ _)
  exact .tail (.single hswap) hmove

theorem enlarged_flooded (n : Nat) : Clause.Enlarged [] (flooded n).clauses := by
  induction n with
  | zero => exact .single (.inr (@Clause.Insertion.clause [] [] (callWith [])))
  | succ n ih =>
    have hbyte : Clause.Insertion (flooded n).clauses (flooded (n + 1)).clauses :=
      @Clause.Insertion.byte [] [] (some Bytes.zero) Amount.zero [] (List.replicate n 1) 1
    exact .tail ih (.inr hbyte)

theorem gasSum_flooded (n : Nat) : (flooded n).gasSum = 21000 + 68 * n := by
  have hdata : Gas.dataSum (List.replicate n 1) = n * 68 := by simp [Gas.dataSum]
  have hsum : (flooded n).gasSum = 5000 + (16000 + Gas.dataSum (List.replicate n 1)) := rfl
  omega

/-- Both orders are charged the same. From no clauses on, clauses and bytes may be added until the
largest word is reached. -/
theorem flooded_capped :
    Clause.Reordered callFirst.clauses createFirst.clauses ∧
    createFirst.intrinsicGas = callFirst.intrinsicGas ∧
    callFirst.intrinsicGas.toNat = 21000 + 4 + 68 + 48000 ∧
    Clause.Enlarged (withFields [] []).clauses (flooded (2 ^ 58)).clauses ∧
    (withFields [] []).intrinsicGas ≤ (flooded (2 ^ 58)).intrinsicGas ∧
    (flooded (2 ^ 58)).intrinsicGas.toNat = 2 ^ 64 - 1 := by
  obtain ⟨hcall, -, hchange⟩ := Transaction.intrinsicGas_capped callFirst
  obtain ⟨-, -, hgrow⟩ := Transaction.intrinsicGas_capped (withFields [] [])
  obtain ⟨hfull, -, -⟩ := Transaction.intrinsicGas_capped (flooded (2 ^ 58))
  refine ⟨reordered_createFirst, (hchange createFirst).1 reordered_createFirst, hcall,
    enlarged_flooded _, (hgrow _).2 (enlarged_flooded _), ?_⟩
  rw [hfull, gasSum_flooded]
  omega

end Sample

end ProofOfAuthority

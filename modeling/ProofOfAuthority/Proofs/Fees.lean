import ProofOfAuthority.Proofs.Accounting
import ProofOfAuthority.Proofs.IntrinsicGas

/-!
# Fees that are paid are exact

A price, a fee and a reward are each a product that stops at the largest amount. None of the three
stops where a receipt is made for a payer whose balance leaves room for the percentage of the
reward:

* a fee that has stopped is the largest amount, which is more than such a payer has;
* a price that has stopped is a 255th of the largest amount, without remainder. It looks harmless,
  but no transaction uses less than 255 units of gas, so the fee stops as well;
* a reward that has stopped would be one for a fee that is more than the payer has.

The results:

* `fee_exact` — a fee below the largest amount is the exact one.
* `receipt_exact` — the fee and the reward of a receipt are exact.
-/

namespace ProofOfAuthority

/-- A product that stops at the largest amount has not stopped if it is less. -/
theorem Amount.mul_lt_of_scale_lt {a : Amount} {k : Nat} (h : (a.scale k).toNat < maxNat) :
    a.toNat * k < maxNat := by
  rw [toNat_scale] at h
  omega

theorem Amount.toNat_scale_of_le {a : Amount} {k : Nat} (h : a.toNat * k ≤ maxNat) :
    (a.scale k).toNat = a.toNat * k :=
  Nat.min_eq_left h

namespace ValueTransfer

variable {l l' : Ledger} {context : BlockContext} {tx : Transaction} {origin : Address}
  {r : Receipt}

theorem toNat_gasPrice_of_le {base : Amount} {coef : UInt8}
    (h : base.toNat * (255 + coef.toNat) ≤ Amount.maxNat) :
    (gasPrice base coef).toNat = base.toNat * (255 + coef.toNat) / 255 := by
  rw [gasPrice, Amount.toNat_divide, Amount.toNat_scale_of_le h]

/-- A price that has stopped is a 255th of the largest amount, without remainder. -/
theorem toNat_gasPrice_of_lt {base : Amount} {coef : UInt8}
    (h : Amount.maxNat < base.toNat * (255 + coef.toNat)) :
    (gasPrice base coef).toNat * 255 = Amount.maxNat := by
  rw [gasPrice, Amount.toNat_divide, Amount.toNat_scale, Nat.min_eq_right (Nat.le_of_lt h)]
  decide

/-- **Where the price stops, so does the fee**, since every transaction uses 255 units of gas. -/
theorem fee_of_price_stopped (h : Amount.maxNat <
    (l.param ParamKey.baseGasPrice).toNat * (255 + tx.gasPriceCoef.toNat)) :
    (fee l tx).toNat = Amount.maxNat := by
  have hgas : 255 ≤ tx.intrinsicGas.toNat :=
    Nat.le_trans (by decide) tx.minGas_le_intrinsicGas
  rw [fee, Amount.toNat_scale]
  refine Nat.min_eq_right ?_
  calc Amount.maxNat
      = (gasPrice (l.param ParamKey.baseGasPrice) tx.gasPriceCoef).toNat * 255 :=
        (toNat_gasPrice_of_lt h).symm
    _ ≤ _ := Nat.mul_le_mul_left _ hgas

/-- **A fee below the largest amount is exact**, and so is the price behind it. -/
theorem fee_exact (h : (fee l tx).toNat < Amount.maxNat) :
    (l.param ParamKey.baseGasPrice).toNat * (255 + tx.gasPriceCoef.toNat) ≤ Amount.maxNat ∧
      (fee l tx).toNat = (l.param ParamKey.baseGasPrice).toNat *
        (255 + tx.gasPriceCoef.toNat) / 255 * tx.intrinsicGas.toNat := by
  have hprice : (l.param ParamKey.baseGasPrice).toNat * (255 + tx.gasPriceCoef.toNat) ≤
      Amount.maxNat := by
    by_contra hstopped
    have hfee := fee_of_price_stopped (Nat.lt_of_not_le hstopped)
    omega
  have hproduct := Amount.mul_lt_of_scale_lt h
  refine ⟨hprice, ?_⟩
  rw [fee, Amount.toNat_scale_of_le (Nat.le_of_lt hproduct), toNat_gasPrice_of_le hprice]

theorem toNat_reward_of_lt {paid : Amount} (h : 30 * paid.toNat < 2 ^ 256) :
    (reward paid).toNat = 30 * paid.toNat / 100 := by
  have hle : paid.toNat * rewardPercent ≤ Amount.maxNat := by
    have hmax : Amount.maxNat = 2 ^ 256 - 1 := by decide
    rw [rewardPercent]
    omega
  rw [reward, Amount.toNat_divide, Amount.toNat_scale_of_le hle, rewardPercent, Nat.mul_comm]

theorem Charged.fee_le {remaining : Amount} (h : Charged l tx origin remaining) :
    (fee l tx).toNat ≤ (l.balance origin).toNat := by
  have hfunds := Amount.sub?_eq_some_iff.mp h.funds
  omega

/-- **The fee and the reward of a receipt are exact** (`paid`, `reward`) if thirty times the balance
of the payer is in range: none of the three products stops. -/
theorem receipt_exact (hsigner : tx.signer = .ok origin)
    (hroom : 30 * (l.balance origin).toNat < 2 ^ 256)
    (h : execute l context tx = ⟨l', .ok r⟩) :
    let raised := (l.param ParamKey.baseGasPrice).toNat * (255 + tx.gasPriceCoef.toNat)
    raised < 2 ^ 256 ∧ raised / 255 * r.gasUsed.toNat < 2 ^ 256 ∧ 30 * r.paid.toNat < 2 ^ 256 ∧
      r.paid.toNat = raised / 255 * r.gasUsed.toNat ∧
      r.reward.toNat = 30 * r.paid.toNat / 100 := by
  obtain ⟨payer, remaining, after, hcharged, -, hreceipt, -⟩ := execute_receipt h
  obtain rfl : origin = payer := Except.ok.inj (hsigner.symm.trans hcharged.signer)
  have hpaid : r.paid = fee l tx := by rw [hreceipt]
  have hgas : r.gasUsed = tx.intrinsicGas := by rw [hreceipt]
  have hreward : r.reward = reward (fee l tx) := by rw [hreceipt]
  have hmax : Amount.maxNat = 2 ^ 256 - 1 := by decide
  have hle := hcharged.fee_le
  have hbelow : (fee l tx).toNat < Amount.maxNat := by omega
  obtain ⟨hraised, hfee⟩ := fee_exact hbelow
  intro raised
  rw [hpaid, hgas, hreward]
  refine ⟨by omega, ?_, by omega, hfee, toNat_reward_of_lt (by omega)⟩
  rw [← hfee]
  omega

end ValueTransfer

namespace Sample

open ValueTransfer

/-- The sample ledger for payments with the largest balance that leaves room for the reward, and a
price of gas that takes almost all of it. -/
def wealthy : Ledger :=
  { funded with
    balances := [(signer, ⟨2 ^ 256 / 30, by decide⟩)]
    params := [(ParamKey.baseGasPrice, ⟨2 ^ 256 / 30 / 21000, by decide⟩)] }

/-- All but 20664 of the balance is paid, and 30 percent of that is credited. -/
theorem wealthy_exact : payment.signer = .ok signer ∧
    30 * (wealthy.balance signer).toNat < 2 ^ 256 ∧
    ∃ l' r, execute wealthy paymentContext payment = ⟨l', .ok r⟩ ∧
      r.paid.toNat = (wealthy.balance signer).toNat - 20664 ∧
      r.reward.toNat = 30 * r.paid.toNat / 100 := by
  have hroom : 30 * (wealthy.balance signer).toNat < 2 ^ 256 := by decide
  have hexec : ∃ l' r, execute wealthy paymentContext payment = ⟨l', .ok r⟩ ∧
      r.gasUsed = 21000 := by
    rw [execute, payment_signer]
    exact ⟨_, _, rfl, rfl⟩
  obtain ⟨l', r, hexec, hgas⟩ := hexec
  obtain ⟨-, -, -, hpaid, hreward⟩ := receipt_exact payment_signer hroom hexec
  refine ⟨payment_signer, hroom, l', r, hexec, ?_, hreward⟩
  rw [hpaid, hgas]
  decide

end Sample

end ProofOfAuthority

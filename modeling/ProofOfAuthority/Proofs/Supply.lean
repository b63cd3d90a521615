import Mathlib.Algebra.BigOperators.Group.Finset.Piecewise
import Mathlib.Algebra.GroupWithZero.Nat
import Mathlib.Algebra.Order.BigOperators.Group.Finset
import Mathlib.Data.Fintype.EquivFin
import ProofOfAuthority.Proofs.LedgerRoot
import ProofOfAuthority.Proofs.Production
import ProofOfAuthority.Proofs.Stops
import ProofOfAuthority.Proofs.Transfers

/-!
# The supply of value

The supply is what all accounts hold together. A payment moves value and makes none, a fee is taken
out of the supply, and part of it comes back as the reward. So the supply falls by what fees exceed
rewards and never rises; and if it fits in one balance, no balance can overflow, neither that of a
recipient nor that of a beneficiary.

* `total_update` — one balance changes the total by what it changes itself.
* `total_clauses` — clauses that go through leave the total as it is.
* `execute_supply`, `not_overflows` — what one execution does to the supply, and that it finds room.
* `executeAll_supply` — the same for the transactions of a block.
* `Validator.supply_conserved` — the same for validation, accepted or not, and runs of blocks.
-/

namespace ProofOfAuthority

instance {n : Nat} : Fintype (Bytes n) :=
  Fintype.ofEquiv (Fin (Bytes.card n)) ⟨fun i => ⟨i.1, i.2⟩, fun b => ⟨b.toNat, b.toNat_lt⟩,
    fun _ => rfl, fun _ => rfl⟩

/-! ## Totals -/

section Totals

variable {α : Type} [Fintype α]

/-- What all accounts hold together. -/
def total (f : α → Amount) : Nat := ∑ a, (f a).toNat

theorem le_total (f : α → Amount) (account : α) : (f account).toNat ≤ total f :=
  Finset.single_le_sum (f := fun a => (f a).toNat) (fun _ _ => Nat.zero_le _)
    (Finset.mem_univ account)

/-- **One balance changes the total** by what it changes itself. -/
theorem total_update [DecidableEq α] (f : α → Amount) (account : α) (amount : Amount) :
    total (Function.update f account amount) + (f account).toNat = total f + amount.toNat := by
  have hrest : ∀ a ∈ Finset.univ.erase account,
      (Function.update f account amount a).toNat = (f a).toNat := by
    intro a ha
    rw [Function.update_of_ne (Finset.ne_of_mem_erase ha)]
  have hbefore := Finset.add_sum_erase Finset.univ (fun a => (f a).toNat) (Finset.mem_univ account)
  have hafter := Finset.add_sum_erase Finset.univ
    (fun a => (Function.update f account amount a).toNat) (Finset.mem_univ account)
  rw [Finset.sum_congr rfl hrest, Function.update_self] at hafter
  unfold total
  omega

end Totals

/-- The value in the balances of a ledger. -/
def Ledger.supply (l : Ledger) : Nat := total l.balance

variable {l l' : Ledger}

theorem Ledger.supply_setBalance (l : Ledger) (account : Address) (amount : Amount) :
    (l.setBalance account amount).supply + (l.balance account).toNat = l.supply + amount.toNat := by
  unfold supply
  rw [balance_setBalance_eq]
  exact total_update l.balance account amount

theorem Ledger.supply_congr (h : l'.balances = l.balances) : l'.supply = l.supply := by
  unfold supply
  congr 1
  funext a
  unfold balance
  rw [h]

/-- The supply is the sum over the entries of the table of balances. -/
theorem Ledger.supply_eq_sum (h : l.balances.Sorted) :
    l.supply = (l.balances.map fun e => e.2.toNat).sum := by
  have htable : ∀ t : Table 20 Amount, t.Sorted →
      total t.read = (t.map fun e => e.2.toNat).sum := by
    intro t ht
    induction t with
    | nil => simp [total, Table.read, Table.get?]
    | cons e rest ih =>
      obtain ⟨k, v⟩ := e
      have hread : Table.read ((k, v) :: rest) = Function.update (Table.read rest) k v := by
        funext a
        rw [Table.read, Table.get?, Function.update_apply, Table.read]
        by_cases ha : k = a
        · rw [if_pos ha, if_pos ha.symm, Option.getD_some]
        · rw [if_neg ha, if_neg (Ne.symm ha)]
      have hnone : Table.read rest k = Amount.zero := by
        rw [Table.read, Table.get?_tail ht (fun hk => Table.ne_of_lt hk rfl), Option.getD_none]
      have htotal := total_update (Table.read rest) k v
      rw [hnone, Amount.toNat_zero, Nat.add_zero, ih (Table.sorted_cons.mp ht).2] at htotal
      rw [hread, htotal, List.map_cons, List.sum_cons, Nat.add_comm]
  exact htable l.balances h

/-! ## One execution -/

namespace ValueTransfer

variable {context : BlockContext} {tx : Transaction} {origin recipient : Address}
  {pending pending' : Overlay} {clauses : List Clause} {outputs : List Output} {r : Receipt}

/-- A value that is moved stays in the total. -/
theorem Moved.total_eq {value : Amount} {f g : Holdings} (h : Moved origin recipient value f g) :
    total g = total f := by
  cases h with
  | @intro debited credited hdebit hcredit =>
    have hdebit := Amount.sub?_eq_some_iff.mp hdebit
    have hcredit := Amount.add?_eq_some_iff.mp hcredit
    have hafter := total_update f origin debited
    have hlast := total_update (Function.update f origin debited) recipient credited
    omega

/-- **Clauses that go through** leave the total as it is. -/
theorem total_clauses (h : tryClauses l origin pending clauses = .ok (pending', outputs)) :
    total (pending'.balance l) = total (pending.balance l) := by
  induction clauses generalizing pending outputs with
  | nil =>
    obtain ⟨rfl, -⟩ := Prod.mk.inj (Except.ok.inj h)
    rfl
  | cons c rest ih =>
    obtain ⟨recipient, next, outputs', -, hmoved, -, hrest, -⟩ := tryClauses_cons_ok h
    rw [ih hrest, hmoved.total_eq]

/-- **Recipients have room** for all there is, if that fits in one balance. -/
theorem clauses_find_room (hroom : total (pending.balance l) < Bytes.card 32) :
    tryClauses l origin pending clauses ≠ .error .recipientFull := by
  intro h
  induction clauses generalizing pending with
  | nil => simp [tryClauses] at h
  | cons c rest ih =>
    have htried := tried l origin pending c
    rcases bind_eq_error_iff.mp h with hfull | ⟨⟨next, output⟩, hclause, h⟩
    · rw [hfull] at htried
      cases htried with
      | @recipientFull recipient debited _ hdebit hcredit =>
        -- the recipient would hold more than the total before the debit
        have hdebit := Amount.sub?_eq_some_iff.mp hdebit
        have hcredit := Amount.add?_eq_none_iff.mp hcredit
        have hdebited := total_update (pending.balance l) origin debited
        have hle := le_total (Function.update (pending.balance l) origin debited) recipient
        omega
    · rw [hclause] at htried
      rcases bind_eq_error_iff.mp h with hfull | ⟨result, -, h⟩
      · cases htried with
        | moved _ hmoved _ => exact ih (by rwa [hmoved.total_eq]) hfull
      · simp [pure, Except.pure] at h

theorem Ran.supply_eq {reverted : Bool} (h : Ran l origin clauses reverted l' outputs) :
    l'.supply = l.supply := by
  cases h with
  | through h =>
    unfold Ledger.supply
    rw [balance_flush (tryClauses_sorted Table.sorted_nil h), total_clauses h]
    rfl
  | undone => rfl

theorem reward_le (paid : Amount) : (reward paid).toNat ≤ paid.toNat := by
  have hpercent : (reward paid).toNat = min (paid.toNat * 30) Amount.maxNat / 100 := rfl
  omega

/-- A ledger has room for a reward that fits in one balance along with the supply. -/
theorem credit_ok (context : BlockContext) (hroom : l.supply + r.reward.toNat < Bytes.card 32) :
    ∃ l', credit l context r = ⟨l', .ok r⟩ ∧ l'.supply = l.supply + r.reward.toNat := by
  have hle := le_total l.balance context.beneficiary
  unfold credit
  cases hsum : (l.balance context.beneficiary).add? r.reward with
  | none =>
    have := Amount.add?_eq_none_iff.mp hsum
    unfold Ledger.supply at hroom
    omega
  | some credited =>
    have := Amount.add?_eq_some_iff.mp hsum
    have hset := l.supply_setBalance context.beneficiary credited
    exact ⟨_, rfl, by omega⟩

/-- **What one execution does to the supply**: it takes what the fee exceeds the reward, or there is
no receipt and the ledger is as it was. -/
theorem execute_supply (hroom : l.supply < Bytes.card 32) (context : BlockContext)
    (tx : Transaction) :
    (∃ cause, execute l context tx = ⟨l, .error cause⟩ ∧ ∀ e, cause ≠ .ledger e) ∨
      ∃ l' r, execute l context tx = ⟨l', .ok r⟩ ∧ r.reward ≤ r.paid ∧
        l'.supply + (r.paid.toNat - r.reward.toNat) = l.supply := by
  rcases execute_cases l context tx with hfailed | ⟨origin, remaining, hcharged, hexec⟩
  · exact Or.inl hfailed
  · obtain ⟨reverted, after, outputs, hran, hsettle⟩ :=
      settle_eq l context tx origin (fee l tx) remaining
    have hfunds := Amount.sub?_eq_some_iff.mp hcharged.funds
    have hpaid := l.supply_setBalance origin remaining
    have hafter := hran.supply_eq
    have hreward := reward_le (fee l tx)
    have hfits : after.supply + (reward (fee l tx)).toNat < Bytes.card 32 := by omega
    obtain ⟨l', hcredit, hsupply⟩ := credit_ok
      (r := ⟨tx.intrinsicGas, origin, fee l tx, reward (fee l tx), reverted, outputs⟩) context hfits
    refine Or.inr ⟨l', _, by rw [hexec, hsettle, hcredit], Amount.le_def.mpr hreward, ?_⟩
    dsimp only at hsupply ⊢
    omega

/-- The transaction does not find room for a credit: the execution fails for it, or the clauses are
undone for it. -/
def Overflows (l : Ledger) (context : BlockContext) (tx : Transaction) : Prop :=
  (∃ account, (execute l context tx).result = .error (.ledger (.balanceOverflow account))) ∨
    ∃ origin remaining, Charged l tx origin remaining ∧
      tryClauses (l.setBalance origin remaining) origin [] tx.clauses = .error .recipientFull

/-- **Every credit finds room** if the supply fits in one balance. -/
theorem not_overflows (hroom : l.supply < Bytes.card 32) : ¬Overflows l context tx := by
  rintro (⟨account, hfailed⟩ | ⟨origin, remaining, hcharged, hfull⟩)
  · rcases execute_supply hroom context tx with ⟨cause, hexec, hcause⟩ | ⟨l', r, hexec, -, -⟩
    · rw [hexec] at hfailed
      exact hcause _ (Except.error.inj hfailed)
    · rw [hexec] at hfailed
      simp at hfailed
  · have hfunds := Amount.sub?_eq_some_iff.mp hcharged.funds
    have hpaid := l.supply_setBalance origin remaining
    have hcharge : total (Overlay.balance [] (l.setBalance origin remaining)) < Bytes.card 32 :=
      show (l.setBalance origin remaining).supply < Bytes.card 32 by omega
    exact clauses_find_room hcharge hfull

/-! ## The transactions of a block -/

/-- The value that executions with these receipts take out of the supply. -/
def burnt (receipts : List Receipt) : Nat :=
  (receipts.map fun r => r.paid.toNat - r.reward.toNat).sum

/-- **What executions in order do to the supply**, by induction on the transactions. -/
theorem executeAll_supply {txs : List Transaction} {receipts : List Receipt} {m : Unit}
    (hroom : l.supply < Bytes.card 32)
    (h : executor.executeAll context () l txs = .ok (m, l', receipts)) :
    l'.supply + burnt receipts = l.supply ∧ ∀ r ∈ receipts, r.reward ≤ r.paid := by
  induction txs generalizing l receipts with
  | nil =>
    obtain ⟨-, hrest⟩ := Prod.mk.inj (Except.ok.inj h)
    obtain ⟨rfl, rfl⟩ := Prod.mk.inj hrest
    exact ⟨by simp [burnt], by simp⟩
  | cons tx rest ih =>
    obtain ⟨_, next, r, tail, hexec, hrest, htail⟩ := Executor.executeAll_cons.mp h
    obtain rfl : receipts = r :: tail := htail
    obtain hexec : execute l context tx = ⟨next, .ok r⟩ := congrArg Prod.snd hexec
    rcases execute_supply hroom context tx with
      ⟨cause, hfailed, -⟩ | ⟨next', r', hdone, hle, hsupply⟩
    · rw [hfailed] at hexec
      simp at hexec
    · rw [hdone] at hexec
      obtain ⟨rfl, hr⟩ := Execution.mk.inj hexec
      obtain rfl := Except.ok.inj hr
      obtain ⟨htotal, hall⟩ := ih (by omega) hrest
      refine ⟨?_, ?_⟩
      · rw [burnt, List.map_cons, List.sum_cons]
        unfold burnt at htotal
        omega
      · intro r hr
        rcases List.mem_cons.mp hr with rfl | hr
        · exact hle
        · exact hall r hr

end ValueTransfer

/-! ## Validation -/

theorem Ledger.supply_applyUpdates {updates : List Proposer} (h : l.applyUpdates updates = .ok l') :
    l'.supply = l.supply := by
  rw [applyUpdates_eq h]
  exact supply_congr rfl

namespace Validator

variable {v : Validator} {chain : Chain} {block : Block} {parent : Header} {now : UInt64}
  {i : Nat} {tx : Transaction} {p : Progress Unit}

/-- `l'` is the ledger after some block accepted on `l`. -/
def Accepted (l l' : Ledger) : Prop :=
  ∃ (v : Validator) (chain : Chain) (block : Block) (parent : Header) (now : UInt64)
    (replayed : Replayed), v.validate chain ValueTransfer.executor () l block parent now =
      .ok replayed ∧ replayed.ledger = l'

theorem supply_prepare {prepared : Ledger} (h : v.prepare l block parent now = .ok prepared)
    (parentId : BlockId) : (prepared.markParent parentId).supply = l.supply := by
  obtain ⟨-, -, hproposer, -⟩ := prepare_ok_iff.mp h
  obtain ⟨_, _, -, -, -, -, hupdates⟩ := checkProposer_ok_iff.mp hproposer
  rw [← Ledger.supply_applyUpdates hupdates]
  exact Ledger.supply_congr rfl

theorem validate_supply (hroom : l.supply < Bytes.card 32) {replayed : Replayed}
    (h : v.validate chain ValueTransfer.executor () l block parent now = .ok replayed) :
    replayed.ledger.supply + ValueTransfer.burnt replayed.receipts = l.supply ∧
      ∀ r ∈ replayed.receipts, r.reward ≤ r.paid := by
  obtain ⟨prepared, hprepare, hreplay⟩ := validate_ok_iff.mp h
  obtain ⟨_, _, -, hall, -⟩ := replay_sound hreplay
  have hsupply := supply_prepare hprepare block.header.parentId
  rw [← hsupply]
  exact ValueTransfer.executeAll_supply (by rwa [hsupply]) hall

theorem Reaches.not_overflows (hroom : l.supply < Bytes.card 32)
    (h : v.Reaches chain ValueTransfer.executor () l block parent now i tx p) :
    ¬ValueTransfer.Overflows p.ledger block.header.context tx := by
  obtain ⟨-, prepared, hprepare, hsteps⟩ := h
  obtain ⟨_, _, -, -, hall⟩ := Progress.steps_sound (Progress.records_start _ _)
    Chain.Includable.nil hsteps
  have hsupply := supply_prepare hprepare block.header.parentId
  have hstart : (prepared.markParent block.header.parentId).supply < Bytes.card 32 := by omega
  obtain ⟨hburnt, -⟩ := ValueTransfer.executeAll_supply hstart hall
  exact ValueTransfer.not_overflows (by omega)

/-- **The supply is conserved** if it fits in one balance: an accepted block takes out what its fees
exceed its rewards, `validate` never fails for a `balanceOverflow`, no transaction that is reached
`Overflows`, and over `Accepted` blocks the `supply` does not rise. -/
theorem supply_conserved (hroom : l.supply < 2 ^ 256) :
    (∀ (v : Validator) (chain : Chain) (block : Block) (parent : Header) (now : UInt64),
      (∀ replayed, v.validate chain ValueTransfer.executor () l block parent now = .ok replayed →
        replayed.ledger.supply +
            (replayed.receipts.map fun r => r.paid.toNat - r.reward.toNat).sum = l.supply ∧
          ∀ r ∈ replayed.receipts, r.reward ≤ r.paid) ∧
      (∀ account fetches, v.validate chain ValueTransfer.executor () l block parent now ≠
        .error (.refused ⟨.execution (.ledger (.balanceOverflow account)), fetches⟩)) ∧
      ∀ i tx p, v.Reaches chain ValueTransfer.executor () l block parent now i tx p →
        ¬ValueTransfer.Overflows p.ledger block.header.context tx) ∧
    ∀ l', Relation.ReflTransGen Accepted l l' → l'.supply ≤ l.supply ∧ l'.supply < 2 ^ 256 := by
  have hcard : Bytes.card 32 = 2 ^ 256 := by decide
  rw [← hcard] at hroom ⊢
  refine ⟨?_, ?_⟩
  · intro v chain block parent now
    refine ⟨fun replayed h => validate_supply hroom h, ?_, fun i tx p h => h.not_overflows hroom⟩
    intro account fetches h
    obtain ⟨i, tx, p, hreaches, hfailed⟩ := validate_execution_error h
    exact hreaches.not_overflows hroom (Or.inl ⟨account, hfailed⟩)
  · intro l' hrun
    induction hrun with
    | refl => exact ⟨Nat.le_refl _, hroom⟩
    | tail _ haccepted ih =>
      obtain ⟨v, chain, block, parent, now, replayed, hvalid, rfl⟩ := haccepted
      obtain ⟨hle, hlt⟩ := ih
      obtain ⟨hburnt, -⟩ := validate_supply hlt hvalid
      exact ⟨by omega, by omega⟩

end Validator

/-! ## A payment

The sample signer pays the beneficiary of the block, with gas at a price. -/

namespace Sample

/-- The recipient of the payment and of the reward. -/
def payee : Address := Bytes.ofNat 0xbe

/-- The sample ledger with a balance for the signer and a price for gas. -/
def funded : Ledger :=
  { ledger with
    balances := [(signer, ⟨1000000000000000000, by decide⟩)]
    params := [(ParamKey.baseGasPrice, ⟨1000, by decide⟩)] }

def payment : Transaction :=
  { first with
    clauses := [⟨some payee, ⟨5, by decide⟩, []⟩]
    nonce := 2
    signature :=
      { r := Bytes.ofNat 0x61f6ecaab2703a7daaae3c01af570d4fc765b6b0e5fb762ffb1c2745fefe091a
        s := Bytes.ofNat 0x6efb3a6178636af42220167ddb8ccb8d6f61d1a3114e318db2e1cbba1aaba14f
        v := 1 } }

def paymentId : TxId :=
  Bytes.ofNat 0x64b705569662aea9429add674d115176db77da2aa2544da92107c5e99d2a24a0

def paymentReceipt : Receipt where
  gasUsed := 21000
  gasPayer := signer
  paid := ⟨21000000, by decide⟩
  reward := ⟨6300000, by decide⟩
  reverted := false
  outputs := [⟨[], [⟨signer, payee, ⟨5, by decide⟩⟩]⟩]

/-- The ledger after the payment. -/
def settled : Ledger :=
  { funded.markParent genesis.id with
    balances := [(payee, ⟨6300005, by decide⟩), (signer, ⟨999999999978999995, by decide⟩)] }

/-- What the payment sees of its block. -/
def paymentContext : BlockContext := ⟨payee, genesis.number + 1, 1010, 10000000⟩

theorem payment_signer : payment.signer = .ok signer :=
  ok_of_toOption (by decide +kernel)

theorem payment_id : payment.id = .ok paymentId := by
  have hid : keccak256 (payment.idBytes signer) = paymentId := by decide +kernel
  rw [Transaction.id, payment_signer, ← hid]
  rfl

theorem payment_executes : ValueTransfer.execute (funded.markParent genesis.id)
    paymentContext payment = ⟨settled, .ok paymentReceipt⟩ := by
  rw [ValueTransfer.execute, payment_signer]
  rfl

theorem payment_includable : (Chain.ofGenesis genesis).Includable genesis.id [payment] [paymentId]
    [paymentReceipt] :=
  Chain.Includable.nil.concat payment_id (by simp) (Chain.lookup_ofGenesis genesis paymentId)
    (by simp [payment, first])

theorem payment_extendable : Extendable validator funded genesis :=
  ⟨extendable.valid, extendable.score, extendable.band, by decide⟩

theorem payment_turn : Turn validator funded genesis 1000 signer 1010 rotation :=
  ⟨rfl, turn.owns, turn.due⟩

theorem executes_payment : Executes validator (Chain.ofGenesis genesis) genesis
    ValueTransfer.executor () paymentContext funded [payment] [paymentReceipt] settled where
  admissible := by
    intro tx htx
    obtain rfl := List.mem_singleton.mp htx
    exact ⟨⟨signer, payment_signer⟩, rfl, by decide, by decide, rfl⟩
  includable := ⟨[paymentId], payment_includable⟩
  executed := ⟨(), Executor.executeAll_cons.mpr
    ⟨(), settled, paymentReceipt, [], congrArg (Prod.mk ()) payment_executes, rfl, rfl⟩⟩

/-- The production of the block with the payment. -/
def paymentProduction : Production validator (Chain.ofGenesis genesis) ValueTransfer.executor ()
    funded genesis 1000 where
  signer := signer
  rotation := rotation
  time := 1010
  limit := 10000000
  beneficiary := payee
  updated := funded
  txs := [payment]
  receipts := [paymentReceipt]
  after := settled
  extendable := payment_extendable
  turn := payment_turn
  follows := production.follows
  updates := rfl
  executes := executes_payment

/-- The block with the payment, signed. -/
def paymentBlock : Block :=
  paymentProduction.block
    { r := Bytes.ofNat 0x2bfb7fcec7a42997911dd83815f00b9a0b53c5dc08bafa4886d38565127e1463
      s := Bytes.ofNat 0xb1329cc12be34193abd9f344340ed2e62dfd4fff8ddfbdb1f86893d815c60a7
      v := 0 }

theorem paymentBlock_signer : paymentBlock.header.signer = .ok signer :=
  ok_of_toOption (by decide +kernel)

theorem payment_accepted : ∃ fetches, validator.validate (Chain.ofGenesis genesis)
    ValueTransfer.executor () funded paymentBlock genesis 1000 =
      .ok ⟨settled, [paymentReceipt], fetches⟩ :=
  paymentProduction.accepted paymentBlock_signer (by decide)

theorem funded_supply : funded.supply = 1000000000000000000 := by
  have hsorted : funded.balances.Sorted := List.pairwise_singleton _ _
  rw [Ledger.supply_eq_sum hsorted]
  rfl

/-- The payment burns what its fee of 21 million exceeds the reward of 6.3 million. -/
theorem payment_burns : funded.supply < 2 ^ 256 ∧
    (∃ fetches, validator.validate (Chain.ofGenesis genesis) ValueTransfer.executor () funded
      paymentBlock genesis 1000 = .ok ⟨settled, [paymentReceipt], fetches⟩) ∧
    settled.supply + 14700000 = funded.supply := by
  have hroom : funded.supply < 2 ^ 256 := by
    rw [funded_supply]
    decide
  obtain ⟨fetches, haccepted⟩ := payment_accepted
  have hconserved := (Validator.supply_conserved hroom).1 validator (Chain.ofGenesis genesis)
    paymentBlock genesis 1000
  exact ⟨hroom, ⟨fetches, haccepted⟩, (hconserved.1 _ haccepted).1⟩

end Sample

end ProofOfAuthority

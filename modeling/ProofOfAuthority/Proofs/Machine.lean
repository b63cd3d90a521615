import ProofOfAuthority.Proofs.PerfectTree
import ProofOfAuthority.Proofs.Slots
import ProofOfAuthority.Proofs.Stops
import ProofOfAuthority.Proofs.Transfers

/-!
# Validation on a machine

Here validation is written in the operations of a machine, with its guards and its loops, and shown
to come to the verdict of `Validator.validate` without being stopped.

The one length that is computed before there is a list of that length is that of the padded leaves
of a tree (`root`). Left out is what cannot stop a program: sums and differences that saturate or
wrap, or that say when they have no result (`Amount.add?`), sums of constants, and reading a fixed
place of a byte string of fixed length.

* `Answers` — the machine is not stopped, and comes to the verdict of a checked computation.
* `absentees_eq` — the walk back over skipped slots.
* `root_eq` — the climb to the root of a tree, with the length of its padded leaves.
* `validate_answers` — all of validation.
-/

namespace ProofOfAuthority

/-- A program that may refuse its input for a reason of type `ε`, unless the machine stops it. -/
abbrev Machine (ε α : Type) := ExceptT ε (Except Trap) α

namespace Machine

variable {ε ε' α β : Type}

/-! ## Programs -/

/-- Do what can be done without the machine, with the reason for refusal put into other words. -/
def ofExcept (f : ε → ε') (x : Except ε α) : Machine ε' α := ExceptT.mk (.ok (x.mapError f))

theorem ofExcept_bind (f : ε → ε') (x : Except ε α) (g : α → Except ε β) :
    Checked.ofExcept f (x >>= g) = Checked.ofExcept f x >>= fun a => Checked.ofExcept f (g a) := by
  cases x <;> rfl

theorem ofExcept_id_inj {x y : Except ε α} :
    (Checked.ofExcept id x : Checked ε α) = Checked.ofExcept id y ↔ x = y := by
  cases x <;> cases y <;> simp [Checked.ofExcept]

theorem mapReason_ofExcept (f : ε → ε') (x : Except ε α) :
    Checked.mapReason f (Checked.ofExcept id x) = Checked.ofExcept f x := by
  cases x <;> rfl

/-- The machine is not stopped, and comes to the verdict of the checked computation. -/
def Answers (x : Machine ε α) (y : Checked ε α) : Prop :=
  ∃ verdict : Except ε α, x.run = .ok verdict ∧ y = Checked.ofExcept id verdict

namespace Answers

variable {x : Machine ε α} {y : Checked ε α}

theorem pure (a : α) : Answers (pure a : Machine ε α) (.ok a) := ⟨.ok a, rfl, rfl⟩

theorem refuse (reason : ε) : Answers (throw reason : Machine ε α) (Checked.refuse reason) :=
  ⟨.error reason, rfl, rfl⟩

theorem ofExcept (f : ε → ε') (x : Except ε α) :
    Answers (Machine.ofExcept f x) (Checked.ofExcept f x) := by
  refine ⟨x.mapError f, rfl, ?_⟩
  cases x <;> rfl

theorem ne_fault (h : Answers x y) {cause : Fault} : y ≠ .error (.fault cause) := by
  obtain ⟨verdict, -, rfl⟩ := h
  exact Checked.ofExcept_ne_fault

/-- **One program after another**: the second only has to answer what the first can leave. -/
theorem bind {f : α → Machine ε β} {g : α → Checked ε β} (h : Answers x y)
    (hf : ∀ a, y = .ok a → Answers (f a) (g a)) : Answers (x >>= f) (y >>= g) := by
  obtain ⟨verdict, hx, rfl⟩ := h
  cases verdict with
  | error e => exact ⟨.error e, by rw [ExceptT.run_bind, hx]; rfl, rfl⟩
  | ok a =>
    obtain ⟨verdict, hrun, hg⟩ := hf a rfl
    exact ⟨verdict, by rw [ExceptT.run_bind, hx]; exact hrun, hg⟩

/-- An operation that has a result. -/
theorem lift {op : Except Trap α} {a : α} {f : α → Machine ε β} {z : Checked ε β} (h : op = .ok a)
    (hf : Answers (f a) z) : Answers ((liftM op : Machine ε α) >>= f) z := by
  subst h
  exact hf

theorem ite {c : Prop} [Decidable c] {x' : Machine ε α} {y' : Checked ε α} (h : c → Answers x y)
    (h' : ¬c → Answers x' y') : Answers (if c then x else x') (if c then y else y') := by
  by_cases hc : c
  · rw [if_pos hc, if_pos hc]
    exact h hc
  · rw [if_neg hc, if_neg hc]
    exact h' hc

theorem adapt (f : ε → ε') (h : Answers x y) : Answers (x.adapt f) (Checked.mapReason f y) := by
  obtain ⟨verdict, hx, rfl⟩ := h
  refine ⟨verdict.mapError f, ?_, by cases verdict <;> rfl⟩
  change Except.map (Except.mapError f) x.run = _
  rw [hx]
  rfl

end Answers

/-! ## Slots -/

/-- Whether `time`, after `start`, is a whole number of intervals away from it. -/
def onGrid (interval start time : UInt64) : Except Trap Bool := do
  let elapsed ← sub time start
  let rest ← rem elapsed interval
  return rest = 0

/-- `Scheduler::whose_turn`: the owner of the slot at `time`. -/
def owner (r : Rotation) (time : UInt64) : Except Trap Address := do
  let place ← rem (Rotation.draw r.parentNumber time.toNat) r.actives.length
  let proposer ← item r.actives place
  return proposer.address

/-- `Scheduler::is_the_time`: whether `time` is a slot after the parent that the signer owns. -/
def ownsSlot (r : Rotation) (time : UInt64) : Except Trap Bool :=
  if time ≤ r.parentTime then .ok false
  else do
    let grid ← onGrid r.interval r.parentTime time
    if !grid then return false
    else
      let owner ← owner r time
      return owner = r.self.address

/-- The loop of `Scheduler::updates`: the owners of the slots from `slot` backwards, the signer
apart, each once, behind those that are `seen` already. So far the walk has gone over `walked`
slots. -/
def absentees (r : Rotation) (slot walked : UInt64) (seen : List Address) :
    Except Trap (List Address) :=
  if _hmore : walked < r.maxWalk ∧ r.parentTime < slot then
    match owner r slot with
    | .error trap => .error trap
    | .ok owner =>
      let seen := if owner ≠ r.self.address ∧ owner ∉ seen then seen ++ [owner] else seen
      match _hnext : add walked 1 with
      | .error trap => .error trap
      | .ok next => absentees r (satSub slot r.interval) next seen
  else .ok seen
termination_by r.maxWalk.toNat - walked.toNat
decreasing_by
  have hwalked := toNat_of_add _hnext
  have hless := UInt64.lt_iff_toNat_lt.mp _hmore.1
  rw [UInt64.toNat_one] at hwalked
  omega

/-- `Scheduler::updates`: the changes of activity that a block at `time` makes, and what it adds to
the total score. -/
def updates (r : Rotation) (time : UInt64) : Except Trap (List Proposer × UInt64) := do
  let absent ← absentees r (satSub time r.interval) 0 []
  let present ← sub r.actives.length absent.length
  let back := if r.self.active then [] else [⟨r.self.address, true⟩]
  return (absent.map (⟨·, false⟩) ++ back, UInt64.ofNat present)

theorem onGrid_eq {interval start time : UInt64} (hafter : start < time) (hpos : interval ≠ 0) :
    onGrid interval start time = .ok (decide ((time - start) % interval = 0)) := by
  unfold onGrid
  rw [sub_eq (UInt64.not_lt.mpr (UInt64.le_of_lt hafter))]
  simp only [ok_bind, rem_eq hpos]
  rfl

/-- Both guards are needed. -/
example : onGrid 0 1000 1010 = .error .divisionByZero ∧ onGrid 10 1010 1000 = .error .overflow :=
  ⟨rfl, rfl⟩

theorem owner_eq (r : Rotation) (time : UInt64) : owner r time = .ok (r.owner time.toNat) := by
  have hpos : r.actives.length ≠ 0 := Nat.ne_of_gt r.length_actives_pos
  have hlt := Nat.mod_lt (Rotation.draw r.parentNumber time.toNat) r.length_actives_pos
  unfold owner
  rw [rem_eq hpos]
  simp only [ok_bind, item_eq (List.getElem?_eq_getElem hlt)]
  rfl

theorem ownsSlot_eq (r : Rotation) (hpos : r.interval ≠ 0) (time : UInt64) :
    ∃ owns, ownsSlot r time = .ok owns ∧ r.ownsSlot time = .ok owns := by
  unfold ownsSlot Rotation.ownsSlot
  by_cases hafter : time ≤ r.parentTime
  · exact ⟨false, by simp [hafter]⟩
  · rw [if_neg hafter, if_neg hafter, if_neg hpos, onGrid_eq (UInt64.not_le.mp hafter) hpos]
    by_cases hgrid : (time - r.parentTime) % r.interval = 0
    · refine ⟨decide (r.owner time.toNat = r.self.address), ?_⟩
      simp [hgrid, owner_eq, pure, Except.pure]
    · exact ⟨false, by simp [hgrid, pure, Except.pure]⟩

/-- **The walk back**, from any slot on. It ends before the counter does. -/
theorem absentees_eq (r : Rotation) (slot walked : UInt64) (seen : List Address) :
    absentees r slot walked seen = .ok
      ((((r.slotsBack (r.maxWalk.toNat - walked.toNat) slot.toNat).map r.owner).filter
        (· ≠ r.self.address)).foldl
          (fun seen a => if seen.contains a then seen else seen ++ [a]) seen) := by
  fun_induction absentees r slot walked seen with
  | case1 slot walked seen hmore trap howner =>
    rw [owner_eq] at howner
    cases howner
  | case2 slot walked seen hmore a howner trap hnext =>
    have hless := UInt64.lt_iff_toNat_lt.mp hmore.1
    have hmax := r.maxWalk.toNat_lt
    have hfits : walked.toNat + (1 : UInt64).toNat ≤ maxWord := by
      rw [UInt64.toNat_one, maxWord]
      omega
    rw [add_eq hfits] at hnext
    cases hnext
  | case3 slot walked seen hmore a howner seen' next hnext ih =>
    obtain ⟨hless, hslot⟩ := hmore
    rw [owner_eq] at howner
    obtain rfl := Except.ok.inj howner
    have hnext := toNat_of_add hnext
    rw [UInt64.toNat_one] at hnext
    have hless := UInt64.lt_iff_toNat_lt.mp hless
    obtain ⟨left, hleft⟩ : ∃ left, r.maxWalk.toNat - walked.toNat = left + 1 :=
      ⟨r.maxWalk.toNat - walked.toNat - 1, by omega⟩
    have hrest : r.maxWalk.toNat - next.toNat = left := by omega
    rw [ih, hleft, hrest, Rotation.slotsBack, if_pos (UInt64.lt_iff_toNat_lt.mp hslot),
      toNat_satSub, List.map_cons]
    by_cases hself : r.owner slot.toNat = r.self.address
    · simp [seen', hself]
    · by_cases hseen : r.owner slot.toNat ∈ seen
      · simp [seen', hself, hseen]
      · simp [seen', hself, hseen]
  | case4 slot walked seen hmore =>
    rcases Decidable.not_and_iff_not_or_not.mp hmore with hless | hslot
    · have hless := UInt64.le_iff_toNat_le.mp (UInt64.not_lt.mp hless)
      rw [Nat.sub_eq_zero_of_le hless]
      rfl
    · have hslot := mt UInt64.lt_iff_toNat_lt.mpr hslot
      cases r.maxWalk.toNat - walked.toNat with
      | zero => rfl
      | succ left =>
        rw [Rotation.slotsBack, if_neg hslot]
        rfl

theorem updates_eq (r : Rotation) (time : UInt64) :
    updates r time = .ok (r.updates time, r.score time) := by
  have habsent : absentees r (satSub time r.interval) 0 [] = .ok (r.absentees time) := by
    rw [absentees_eq, toNat_satSub]
    rfl
  have hpresent := Nat.not_lt.mpr (Nat.le_of_lt (r.length_absentees_lt time))
  unfold updates
  simp only [habsent, ok_bind, sub_eq hpresent]
  rfl

/-! ## Roots -/

/-- `derive_root`: the root over `leaves`, which are padded to a length that must fit in a word. -/
def root (leaves : List Hash) : Except Trap Hash :=
  if maxWord < (Merkle.filled leaves).length then .error .overflow else Merkle.derive leaves

/-- The padded leaves can be counted if there are no more than half as many words. -/
theorem length_filled_le {leaves : List Hash} (h : leaves.length ≤ 2 ^ 63) :
    (Merkle.filled leaves).length ≤ maxWord := by
  by_cases hempty : leaves = []
  · rw [hempty]
    exact Nat.zero_le _
  · have hdepth : Merkle.depth leaves.length ≤ 63 := (Merkle.depth_isLeast leaves).2 ⟨by decide, h⟩
    have hle := Nat.pow_le_pow_right (by decide : 0 < 2) hdepth
    rw [Merkle.length_filled hempty, maxWord]
    omega

theorem root_eq {leaves : List Hash} (h : leaves.length ≤ 2 ^ 63) :
    root leaves = .ok (Merkle.root leaves) := by
  rw [root, if_neg (Nat.not_lt.mpr (length_filled_le h)), Merkle.derive_eq]

/-! ## The checks -/

/-- `GasLimit::is_valid`: whether `limit` may follow `parent`. -/
def follows (p : Protocol) (parent limit : UInt64) : Except Trap Bool :=
  if limit < p.minGasLimit ∨ p.maxGasLimit < limit then .ok false
  else do
    let step ← div parent p.gasLimitBoundDivisor
    return GasLimit.distance limit parent ≤ step

/-- `BlockValidator::validate_block_header`: check a header against its parent's and the clock. -/
def checkHeader (p : Protocol) (header parent : Header) (now : UInt64) : Machine Violation Unit :=
  if header.timestamp ≤ parent.timestamp then
    throw (.timestampBehindParent parent.timestamp header.timestamp)
  else do
    let grid ← onGrid p.blockInterval parent.timestamp header.timestamp
    if !grid then throw (.intervalNotRounded parent.timestamp header.timestamp)
    else if satAdd now p.blockInterval < header.timestamp then
      throw (.futureBlock header.timestamp now)
    else
      let follows ← follows p parent.gasLimit header.gasLimit
      if !follows then throw (.gasLimitInvalid parent.gasLimit header.gasLimit)
      else if header.gasLimit < header.gasUsed then
        throw (.gasUsedExceedsLimit header.gasLimit header.gasUsed)
      else if header.totalScore ≤ parent.totalScore then
        throw (.totalScoreInvalid (satAdd parent.totalScore 1) header.totalScore)
      else return ()

/-- `Consensus::validate_proposer`: check the proposer of a header on top of `parent`. The ledger
with the changes of activity. -/
def checkProposer (p : Protocol) (ledger : Ledger) (header parent : Header) :
    Machine ValidationError Ledger :=
  match header.signer with
  | .error cause => throw (.violation (.signerUnavailable .block cause))
  | .ok signer =>
    match Rotation.ofSigner p signer ledger.proposers parent.number parent.timestamp with
    | .error cause => throw (.violation (.invalidSigner signer cause))
    | .ok rotation => do
      let owns ← ownsSlot rotation header.timestamp
      if !owns then throw (.violation (.timestampUnscheduled header.timestamp signer))
      else
        let changes ← updates rotation header.timestamp
        let expected := satAdd parent.totalScore changes.2
        if header.totalScore ≠ expected then
          throw (.violation (.totalScoreInvalid expected header.totalScore))
        else ofExcept .ledger (ledger.applyUpdates changes.1)

/-- `Transaction::is_expired`: whether block number `n` is past the last block that may include the
transaction. -/
def expiredAt (tx : Transaction) (n : UInt32) : Except Trap Bool := do
  let last ← add tx.blockRef.number.toUInt64 tx.expiration.toUInt64
  return last < n.toUInt64

/-- Check the transaction at `index` of a block with the given number. -/
def checkTransaction (chainTag : UInt8) (number : UInt32) (index : Nat) (tx : Transaction) :
    Machine Violation Unit :=
  match tx.signer with
  | .error cause => throw (.signerUnavailable (.transaction index) cause)
  | .ok _ => do
    ofExcept id (require (tx.chainTag = chainTag) (.chainTagMismatch chainTag tx.chainTag))
    ofExcept id (require (tx.blockRef.number ≤ number)
      (.txRefFutureBlock tx.blockRef.number number))
    let expired ← expiredAt tx number
    ofExcept id (require (¬expired) (.txExpired tx.blockRef.number number tx.expiration))
    ofExcept id (require (tx.hasReserved = false) (.reservedFieldsNotEmpty index))

/-- Check transactions in order, the first of them at `index`. -/
def checkTransactions (chainTag : UInt8) (number : UInt32) :
    (index : Nat) → List Transaction → Machine Violation Unit
  | _, [] => return ()
  | index, tx :: rest => do
    checkTransaction chainTag number index tx
    checkTransactions chainTag number (index + 1) rest

/-- `BlockValidator::validate_block_body`: check the transactions of a block against its header. -/
def checkBody (chainTag : UInt8) (block : Block) : Machine Violation Unit := do
  let found ← root (block.transactions.map Transaction.hash)
  ofExcept id (require (block.header.txsRoot = found) (.txRootMismatch block.header.txsRoot found))
  checkTransactions chainTag block.header.number 0 block.transactions

variable {v : Validator} {p : Protocol} {ledger : Ledger} {block : Block} {header parent : Header}
  {now : UInt64}

theorem follows_eq (hp : p.Valid) (parent limit : UInt64) :
    ∃ b, follows p parent limit = .ok b ∧ GasLimit.follows p parent limit = .ok b := by
  have hpos : p.gasLimitBoundDivisor ≠ 0 := UInt64.pos_iff_ne_zero.mp hp.divisor
  unfold follows GasLimit.follows GasLimit.maxStep
  by_cases hband : limit < p.minGasLimit ∨ p.maxGasLimit < limit
  · exact ⟨false, by simp only [if_pos hband, and_self]⟩
  · rw [if_neg hband, if_neg hband, div_eq hpos, if_neg hpos]
    exact ⟨_, rfl, rfl⟩

theorem checkHeader_answers (hp : p.Valid) (header parent : Header) (now : UInt64) :
    Answers (checkHeader p header parent now)
      (ProofOfAuthority.checkHeader p header parent now) := by
  have hpos : p.blockInterval ≠ 0 := UInt64.pos_iff_ne_zero.mp hp.interval
  obtain ⟨follows, hmachine, hfollows⟩ := follows_eq hp parent.gasLimit header.gasLimit
  unfold checkHeader ProofOfAuthority.checkHeader
  refine Answers.ite (fun _ => Answers.refuse _) fun hafter => ?_
  rw [if_neg hpos]
  refine Answers.lift (onGrid_eq (UInt64.not_le.mp hafter) hpos) ?_
  by_cases hgrid : (header.timestamp - parent.timestamp) % p.blockInterval = 0
  · rw [if_neg (by simp [hgrid]), if_neg (not_not.mpr hgrid)]
    refine Answers.ite (fun _ => Answers.refuse _) fun _ => ?_
    rw [hfollows]
    refine Answers.lift hmachine ?_
    exact Answers.ite (fun _ => Answers.refuse _) fun _ =>
      Answers.ite (fun _ => Answers.refuse _) fun _ =>
        Answers.ite (fun _ => Answers.refuse _) fun _ => Answers.pure ()
  · rw [if_pos (by simp [hgrid]), if_pos hgrid]
    exact Answers.refuse _

theorem checkProposer_answers (hp : p.Valid) (ledger : Ledger) (header parent : Header) :
    Answers (checkProposer p ledger header parent)
      (ProofOfAuthority.checkProposer p ledger header parent) := by
  unfold checkProposer ProofOfAuthority.checkProposer
  cases header.signer with
  | error cause => exact Answers.refuse _
  | ok signer =>
    dsimp only
    cases hr : Rotation.ofSigner p signer ledger.proposers parent.number parent.timestamp with
    | error cause => exact Answers.refuse _
    | ok r =>
      obtain ⟨-, -, -, hinterval⟩ := Rotation.ofSigner_ok hr
      have hpos : r.interval ≠ 0 := by
        rw [hinterval]
        exact UInt64.pos_iff_ne_zero.mp hp.interval
      obtain ⟨owns, hmachine, howns⟩ := ownsSlot_eq r hpos header.timestamp
      dsimp only
      rw [howns]
      refine Answers.lift hmachine ?_
      refine Answers.ite (fun _ => Answers.refuse _) fun _ => ?_
      refine Answers.lift (updates_eq r header.timestamp) ?_
      exact Answers.ite (fun _ => Answers.refuse _) fun _ => Answers.ofExcept _ _

theorem expiredAt_eq (tx : Transaction) (n : UInt32) :
    expiredAt tx n = .ok (decide (tx.ExpiredAt n)) := by
  have hstart := tx.blockRef.number.toNat_lt
  have hlength := tx.expiration.toNat_lt
  have hfits : tx.blockRef.number.toUInt64.toNat + tx.expiration.toUInt64.toNat ≤ maxWord := by
    rw [UInt32.toNat_toUInt64, UInt32.toNat_toUInt64, maxWord]
    omega
  have hsum := toNat_of_add (add_eq hfits)
  have hiff : tx.blockRef.number.toUInt64 + tx.expiration.toUInt64 < n.toUInt64 ↔
      tx.ExpiredAt n := by
    rw [UInt64.lt_iff_toNat_lt, hsum, UInt32.toNat_toUInt64, UInt32.toNat_toUInt64,
      UInt32.toNat_toUInt64]
    rfl
  unfold expiredAt
  simp only [add_eq hfits, ok_bind, hiff]
  rfl

theorem checkTransaction_answers (chainTag : UInt8) (number : UInt32) (index : Nat)
    (tx : Transaction) : Answers (checkTransaction chainTag number index tx)
      (Checked.ofExcept id (ProofOfAuthority.checkTransaction chainTag number index tx)) := by
  unfold checkTransaction ProofOfAuthority.checkTransaction
  cases tx.signer with
  | error cause => exact Answers.refuse _
  | ok signer =>
    simp only [ofExcept_bind]
    refine (Answers.ofExcept _ _).bind fun _ _ => (Answers.ofExcept _ _).bind fun _ _ => ?_
    refine Answers.lift (expiredAt_eq tx number) ?_
    simp only [decide_eq_true_eq]
    exact (Answers.ofExcept _ _).bind fun _ _ => Answers.ofExcept _ _

theorem checkTransactions_answers (chainTag : UInt8) (number : UInt32) (txs : List Transaction)
    (index : Nat) : Answers (checkTransactions chainTag number index txs)
      (Checked.ofExcept id (ProofOfAuthority.checkTransactions chainTag number index txs)) := by
  induction txs generalizing index with
  | nil => exact Answers.pure ()
  | cons tx rest ih =>
    rw [checkTransactions, ProofOfAuthority.checkTransactions, ofExcept_bind]
    exact (checkTransaction_answers chainTag number index tx).bind fun _ _ => ih (index + 1)

theorem checkBody_answers (chainTag : UInt8) (hsize : block.transactions.length ≤ 2 ^ 63) :
    Answers (checkBody chainTag block)
      (Checked.ofExcept id (ProofOfAuthority.checkBody chainTag block)) := by
  have hroot : root (block.transactions.map Transaction.hash) =
      .ok (transactionsRoot block.transactions) := root_eq (by rwa [List.length_map])
  unfold checkBody ProofOfAuthority.checkBody
  refine Answers.lift hroot ?_
  rw [ofExcept_bind]
  exact (Answers.ofExcept _ _).bind fun _ _ => checkTransactions_answers chainTag _ _ 0

/-! ## The replay -/

/-- `TransferRuntime::gas_price`: the price of a unit of gas, raised by a coefficient of up to 255
parts in 255. -/
def gasPrice (base : Amount) (coef : UInt8) : Except Trap Amount := do
  let factor ← add 255 coef.toUInt64
  part (base.scale factor.toNat) 255

/-- The beneficiary's share of a fee. -/
def reward (paid : Amount) : Except Trap Amount := part (paid.scale ValueTransfer.rewardPercent) 100

/-- The end of `TransferRuntime::execute_transaction`: charge `paid` to `origin`, run the clauses
and credit the reward. -/
def settle (ledger : Ledger) (context : BlockContext) (tx : Transaction) (origin : Address)
    (paid remaining : Amount) : Except Trap Execution := do
  let charged := ledger.setBalance origin remaining
  let (reverted, after, outputs) :=
    match ValueTransfer.runClauses charged origin tx.clauses with
    | some (after, outputs) => (false, after, outputs)
    | none => (true, charged, [])
  let reward ← reward paid
  return ValueTransfer.credit after context
    ⟨tx.intrinsicGas, origin, paid, reward, reverted, outputs⟩

/-- `TransferRuntime::execute_transaction`: execute a transaction. -/
def execute (ledger : Ledger) (context : BlockContext) (tx : Transaction) : Except Trap Execution :=
  match tx.signer with
  | .error cause => .ok ⟨ledger, .error (.signer cause)⟩
  | .ok origin =>
    if tx.gas < tx.intrinsicGas then
      .ok ⟨ledger, .error (.intrinsicGasExceeded tx.intrinsicGas tx.gas)⟩
    else do
      let price ← gasPrice (ledger.param ParamKey.baseGasPrice) tx.gasPriceCoef
      let paid := price.scale tx.intrinsicGas.toNat
      match (ledger.balance origin).sub? paid with
      | none => return ⟨ledger, .error (.insufficientFunds origin)⟩
      | some remaining => settle ledger context tx origin paid remaining

/-- A turn of the loop of `Consensus::verify_block`: replay one transaction of a block with the
given header. -/
def step (p : Progress Unit) (chain : Chain) (header : Header) (tx : Transaction) :
    Machine Stop (Progress Unit) :=
  match tx.id with
  | .error cause =>
    ofExcept id
      (p.stop (.violation (.signerUnavailable (.transaction p.receipts.length) cause)))
  | .ok txId => do
    ofExcept id (p.checkNew chain header.parentId txId)
    let p ← ofExcept id (p.checkDependency chain header.parentId txId tx.dependsOn)
    let execution ← execute p.ledger header.context tx
    ofExcept id (p.run (Executor.ofFunction fun _ _ _ => execution) header.context txId tx)

/-- The loop of `Consensus::verify_block`: replay transactions in order. -/
def steps (p : Progress Unit) (chain : Chain) (header : Header) :
    List Transaction → Machine Stop (Progress Unit)
  | [] => return p
  | tx :: rest => do
    let p ← step p chain header tx
    steps p chain header rest

/-- Check the header's commitments after the last transaction. -/
def finish (p : Progress Unit) (header : Header) : Machine Stop Replayed :=
  if header.gasUsed ≠ p.gasUsed then
    throw ⟨.violation (.gasUsedMismatch header.gasUsed p.gasUsed), p.fetches⟩
  else do
    let receipts := p.receipts.reverse
    let receiptsRoot ← root (receipts.map Receipt.hash)
    if header.receiptsRoot ≠ receiptsRoot then
      throw ⟨.violation (.receiptsRootMismatch header.receiptsRoot receiptsRoot), p.fetches⟩
    else if header.stateRoot ≠ p.ledger.root then
      throw ⟨.violation (.stateRootMismatch header.stateRoot p.ledger.root), p.fetches⟩
    else return ⟨p.ledger, receipts, p.fetches⟩

/-- `Consensus::verify_block`: replay a block on a ledger and check the commitments of its header.
-/
def replay (chain : Chain) (ledger : Ledger) (block : Block) : Machine Stop Replayed := do
  let p := Progress.start (ledger.markParent block.header.parentId) ()
  let p ← steps p chain block.header block.transactions
  finish p block.header

theorem gasPrice_eq (base : Amount) (coef : UInt8) :
    gasPrice base coef = .ok (ValueTransfer.gasPrice base coef) := by
  have hcoef := coef.toNat_lt
  have hfits : (255 : UInt64).toNat + coef.toUInt64.toNat ≤ maxWord := by
    rw [UInt8.toNat_toUInt64, maxWord]
    have : (255 : UInt64).toNat = 255 := rfl
    omega
  have hsum := toNat_of_add (add_eq hfits)
  unfold gasPrice
  simp only [add_eq hfits, ok_bind, hsum, UInt8.toNat_toUInt64]
  rfl

theorem settle_eq (ledger : Ledger) (context : BlockContext) (tx : Transaction) (origin : Address)
    (paid remaining : Amount) : settle ledger context tx origin paid remaining =
      .ok (ValueTransfer.settle ledger context tx origin paid remaining) := by
  have hreward : reward paid = .ok (ValueTransfer.reward paid) := rfl
  unfold settle ValueTransfer.settle
  simp only [hreward, ok_bind]
  cases ValueTransfer.runClauses (ledger.setBalance origin remaining) origin tx.clauses <;> rfl

/-- **Executing a transaction does not stop the machine.** -/
theorem execute_eq (ledger : Ledger) (context : BlockContext) (tx : Transaction) :
    execute ledger context tx = .ok (ValueTransfer.execute ledger context tx) := by
  unfold execute ValueTransfer.execute
  cases tx.signer with
  | error cause => rfl
  | ok origin =>
    dsimp only
    by_cases hgas : tx.gas < tx.intrinsicGas
    · rw [if_pos hgas, if_pos hgas]
    · have hfee : (ValueTransfer.gasPrice (ledger.param ParamKey.baseGasPrice)
          tx.gasPriceCoef).scale tx.intrinsicGas.toNat = ValueTransfer.fee ledger tx := rfl
      rw [if_neg hgas, if_neg hgas]
      simp only [gasPrice_eq, ok_bind, hfee]
      cases (ledger.balance origin).sub? (ValueTransfer.fee ledger tx) with
      | none => rfl
      | some remaining => exact settle_eq ledger context tx origin _ remaining

variable {chain : Chain}

theorem step_answers (p : Progress Unit) (tx : Transaction) :
    Answers (step p chain header tx)
      (Checked.ofExcept id (p.step chain ValueTransfer.executor header tx)) := by
  unfold step Progress.step
  cases tx.id with
  | error cause => exact Answers.ofExcept _ _
  | ok txId =>
    simp only [ofExcept_bind]
    refine (Answers.ofExcept _ _).bind fun _ _ => (Answers.ofExcept _ _).bind fun q _ => ?_
    exact Answers.lift (execute_eq q.ledger header.context tx) (Answers.ofExcept _ _)

theorem steps_answers (p : Progress Unit) (txs : List Transaction) :
    Answers (steps p chain header txs)
      (Checked.ofExcept id (p.steps chain ValueTransfer.executor header txs)) := by
  induction txs generalizing p with
  | nil => exact Answers.pure p
  | cons tx rest ih =>
    rw [steps, Progress.steps, ofExcept_bind]
    exact (step_answers p tx).bind fun q _ => ih q

theorem finish_answers (p : Progress Unit) (hsize : p.receipts.length ≤ 2 ^ 63) :
    Answers (finish p header) (Checked.ofExcept id (p.finish header)) := by
  have hroot : root (p.receipts.reverse.map Receipt.hash) =
      .ok (receiptsRoot p.receipts.reverse) :=
    root_eq (by rwa [List.length_map, List.length_reverse])
  unfold finish Progress.finish
  dsimp only
  by_cases hgas : header.gasUsed = p.gasUsed
  · rw [if_neg (not_not.mpr hgas), if_neg (not_not.mpr hgas)]
    refine Answers.lift hroot ?_
    by_cases hreceipts : header.receiptsRoot = receiptsRoot p.receipts.reverse
    · rw [if_neg (not_not.mpr hreceipts), if_neg (not_not.mpr hreceipts)]
      by_cases hstate : header.stateRoot = p.ledger.root
      · rw [if_neg (not_not.mpr hstate), if_neg (not_not.mpr hstate)]
        exact Answers.pure _
      · rw [if_pos hstate, if_pos hstate]
        exact Answers.refuse _
    · rw [if_pos hreceipts, if_pos hreceipts]
      exact Answers.refuse _
  · rw [if_pos hgas, if_pos hgas]
    exact Answers.refuse _

/-- The replay makes a receipt a transaction, so their root has as few leaves. -/
theorem replay_answers (ledger : Ledger) (hsize : block.transactions.length ≤ 2 ^ 63) :
    Answers (replay chain ledger block)
      (Checked.ofExcept id
        (ProofOfAuthority.replay chain ValueTransfer.executor () ledger block)) := by
  unfold replay ProofOfAuthority.replay
  simp only [ofExcept_bind]
  refine (steps_answers _ _).bind fun q hq => finish_answers q ?_
  obtain ⟨ids, receipts, hincl, hrecords, -⟩ := Progress.steps_sound
    (Progress.records_start _ _) Chain.Includable.nil (Checked.ofExcept_eq_ok_iff.mp hq)
  have hcount : q.receipts.length = block.transactions.length := by
    rw [hrecords.receipts_eq, List.length_reverse]
    exact hincl.count
  rw [hcount]
  exact hsize

/-! ## The whole of validation -/

/-- `Consensus::run_pipeline` as far as the replay: the checks that come before it. The ledger to
replay on. -/
def prepare (v : Validator) (ledger : Ledger) (block : Block) (parent : Header) (now : UInt64) :
    Machine ValidationError Ledger :=
  if block.header.parentId ≠ parent.id then
    throw (.violation (.parentMismatch parent.id block.header.parentId))
  else do
    (checkHeader v.protocol block.header parent now).adapt .violation
    let ledger ← checkProposer v.protocol ledger block.header parent
    (checkBody v.chainTag block).adapt .violation
    return ledger

/-- `Consensus::validate`: validate a block of value transfers on top of `parent`, with the ledger
after `parent` and the clock at `now`. -/
def validate (v : Validator) (chain : Chain) (ledger : Ledger) (block : Block) (parent : Header)
    (now : UInt64) : Machine Stop Replayed := do
  let ledger ← (prepare v ledger block parent now).adapt (⟨·, 0⟩)
  replay chain ledger block

theorem prepare_answers (hp : v.protocol.Valid) (ledger : Ledger) (parent : Header) (now : UInt64)
    (hsize : block.transactions.length ≤ 2 ^ 63) :
    Answers (prepare v ledger block parent now) (v.prepare ledger block parent now) := by
  unfold prepare Validator.prepare
  refine Answers.ite (fun _ => Answers.refuse _) fun _ => ?_
  refine ((checkHeader_answers hp _ _ _).adapt _).bind fun _ _ => ?_
  refine (checkProposer_answers hp _ _ _).bind fun updated _ => ?_
  have hbody := (checkBody_answers v.chainTag hsize).adapt ValidationError.violation
  rw [mapReason_ofExcept] at hbody
  exact hbody.bind fun _ _ => Answers.pure updated

/-- **The machine is not stopped.** It validates as many transactions as it can count the padded
leaves of. -/
theorem validate_answers (hp : v.protocol.Valid) (ledger : Ledger) (parent : Header) (now : UInt64)
    (hsize : block.transactions.length ≤ 2 ^ 63) :
    Answers (validate v chain ledger block parent now)
      (v.validate chain ValueTransfer.executor () ledger block parent now) :=
  ((prepare_answers hp ledger parent now hsize).adapt _).bind fun updated _ =>
    replay_answers updated hsize

end Machine

end ProofOfAuthority

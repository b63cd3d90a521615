import ProofOfAuthority.Proofs.Clauses
import ProofOfAuthority.Proofs.Replaying
import ProofOfAuthority.Validation

/-!
# A replay that asks an index

Validation needs little of a chain: where a transaction stands in the ancestry of a block, and later
perhaps the receipt at that place. Here the replay is written statement by statement against
anything that answers these two questions (`Index`), a transaction that was found comes with its
receipt unread (`Found`), and every question is recorded when it is put (`Inquiry`).

On a chain this is the replay of `Progress`, which has a count in place of the record. So the count
is right: a read is counted exactly where one is made, also if the replay stops.

* `run_find`, `run_checkNew`, `run_checkDependency` — what is asked, and what follows.
* `replayOne_ends`, `replayEach_ends` — one transaction and all of them, on a chain.
* `replay_ends` — the whole replay.
-/

namespace ProofOfAuthority

/-! ## Asking an index -/

/-- A transaction that was found (`TxLookup`): its place, and what reading its receipt gives. -/
structure Found where
  location : Location
  read : Except ChainError Receipt

/-- What finds a transaction in the ancestry of a block (`ChainIndex`). -/
abbrev Index := BlockId → TxId → Except ChainError (Option Found)

/-- A chain as an index. -/
def Chain.index (c : Chain) : Index := fun parentId id =>
  (c.lookup parentId id).map (Option.map fun loc => ⟨loc, c.receipt loc⟩)

/-- A question to an index. -/
inductive Query
  | lookup (id : TxId)
  | read (loc : Location)
  deriving DecidableEq

/-- Where a transaction was found (`FoundTx`). -/
inductive Earlier
  /-- Earlier in the block. -/
  | inBlock (reverted : Bool)
  /-- In an ancestor, its receipt unread. -/
  | inIndex (found : Found)

/-- A replay under way that records what it asks. -/
structure Inquiry (μ : Type) where
  ledger : Ledger
  memory : μ
  /-- Ids of the transactions so far and whether they reverted, latest first. -/
  done : List (TxId × Bool)
  /-- Receipts so far, latest first. -/
  receipts : List Receipt
  gasUsed : UInt64
  /-- The questions so far, latest last. -/
  asked : List Query

/-- A program that asks an index. A failure does not undo what was done before it. -/
abbrev Inquiring (μ α : Type) := EStateM ValidationError (Inquiry μ) α

/-- The place that a question reads. -/
def Query.place? : Query → Option Location
  | lookup _ => none
  | read loc => some loc

namespace Inquiry

variable {μ : Type}

/-- The replay before its first transaction. -/
def start (ledger : Ledger) (memory : μ) : Inquiry μ := ⟨ledger, memory, [], [], 0, []⟩

/-- The places whose receipts were read, in order. -/
def reads (w : Inquiry μ) : List Location := w.asked.filterMap Query.place?

/-- The replay with the reads counted and no question recorded. -/
def progress (w : Inquiry μ) : Progress μ :=
  ⟨w.ledger, w.memory, w.done, w.receipts, w.gasUsed, w.reads.length⟩

/-- The replay with one more question. -/
def asking (w : Inquiry μ) (q : Query) : Inquiry μ := { w with asked := w.asked ++ [q] }

/-- Record a question. -/
def ask (q : Query) : Inquiring μ Unit := modify fun w => w.asking q

/-- `Consensus::find_tx`: find a transaction earlier in the block or in the ancestry of `parentId`.
-/
def find (index : Index) (parentId : BlockId) (id : TxId) : Inquiring μ (Option Earlier) := do
  match (← get).done.lookup id with
  | some reverted => return some (.inBlock reverted)
  | none =>
    ask (.lookup id)
    match index parentId id with
    | .ok found => return found.map .inIndex
    | .error cause => throw (.chain cause)

/-- `FoundTx::is_reverted`: whether a transaction that was found reverted. -/
def isReverted : Earlier → Inquiring μ Bool
  | .inBlock reverted => return reverted
  | .inIndex found => do
    ask (.read found.location)
    match found.read with
    | .ok receipt => return receipt.reverted
    | .error cause => throw (.chain cause)

/-- Refuse a transaction that is already included. -/
def checkNew (index : Index) (parentId : BlockId) (id : TxId) : Inquiring μ Unit := do
  if (← find index parentId id).isSome then
    throw (.violation (.txAlreadyExists id))

/-- Refuse a transaction whose dependency is not included or was reverted. -/
def checkDependency (index : Index) (parentId : BlockId) (id : TxId) :
    (dependsOn : Option TxId) → Inquiring μ Unit
  | none => return ()
  | some dependency => do
    match ← find index parentId dependency with
    | none => throw (.violation (.txDepBroken id dependency))
    | some found =>
      if ← isReverted found then
        throw (.violation (.txDepReverted id dependency))

/-- Execute a transaction and record its receipt. -/
def execute (executor : Executor μ) (context : BlockContext) (id : TxId) (tx : Transaction) :
    Inquiring μ Unit := do
  let w ← get
  let (memory, execution) := executor.execute w.memory w.ledger context tx
  set { w with ledger := execution.ledger, memory }
  match execution.result with
  | .error cause => throw (.execution cause)
  | .ok receipt =>
    modify fun w => { w with
      done := (id, receipt.reverted) :: w.done
      receipts := receipt :: w.receipts
      gasUsed := satAdd w.gasUsed receipt.gasUsed }

/-- A turn of the loop of `Consensus::verify_block`: replay one transaction of a block with the
given header. -/
def replayOne (index : Index) (executor : Executor μ) (header : Header) (tx : Transaction) :
    Inquiring μ PUnit := do
  match tx.id with
  | .error cause =>
    throw (.violation (.signerUnavailable (.transaction (← get).receipts.length) cause))
  | .ok id =>
    checkNew index header.parentId id
    checkDependency index header.parentId id tx.dependsOn
    execute executor header.context id tx

/-- The loop of `Consensus::verify_block`: replay transactions in order. -/
def replayEach (index : Index) (executor : Executor μ) (header : Header) (txs : List Transaction) :
    Inquiring μ PUnit :=
  txs.forM (replayOne index executor header)

/-- Check the header's commitments after the last transaction. -/
def finish (header : Header) : Inquiring μ (Ledger × List Receipt) := do
  let w ← get
  if header.gasUsed ≠ w.gasUsed then
    throw (.violation (.gasUsedMismatch header.gasUsed w.gasUsed))
  let receipts := w.receipts.reverse
  if header.receiptsRoot ≠ receiptsRoot receipts then
    throw (.violation (.receiptsRootMismatch header.receiptsRoot (receiptsRoot receipts)))
  if header.stateRoot ≠ w.ledger.root then
    throw (.violation (.stateRootMismatch header.stateRoot w.ledger.root))
  return (w.ledger, receipts)

/-- `Consensus::verify_block`: replay a block and check the commitments of its header. -/
def replay (index : Index) (executor : Executor μ) (block : Block) :
    Inquiring μ (Ledger × List Receipt) := do
  modify fun w => { w with ledger := w.ledger.markParent block.header.parentId }
  replayEach index executor block.header block.transactions
  finish block.header

/-- `Consensus::validate`: validate a block on top of `parent`, with the clock at `now`. -/
def validate (v : Validator) (index : Index) (executor : Executor μ) (block : Block)
    (parent : Header) (now : UInt64) :
    EStateM (Failure ValidationError) (Inquiry μ) (Ledger × List Receipt) := do
  match v.prepare (← get).ledger block parent now with
  | .error failure => throw failure
  | .ok ledger =>
    modify fun w => { w with ledger }
    EStateM.adaptExcept Failure.refused (replay index executor block)

/-! ## What is asked -/

variable {index : Index} {executor : Executor μ} {header : Header} {parentId : BlockId} {id : TxId}
  {w w' : Inquiry μ}

@[simp] theorem reads_asking_lookup (w : Inquiry μ) (id : TxId) :
    (w.asking (.lookup id)).reads = w.reads := by
  simp [reads, asking, Query.place?]

@[simp] theorem reads_asking_read (w : Inquiry μ) (loc : Location) :
    (w.asking (.read loc)).reads = w.reads ++ [loc] := by
  simp [reads, asking, Query.place?]

@[simp] theorem done_asking (w : Inquiry μ) (q : Query) : (w.asking q).done = w.done := rfl

@[simp] theorem progress_asking_lookup (w : Inquiry μ) (id : TxId) :
    (w.asking (.lookup id)).progress = w.progress := by
  rw [progress, reads_asking_lookup]
  rfl

@[simp] theorem progress_asking_read (w : Inquiry μ) (loc : Location) :
    (w.asking (.read loc)).progress = { w.progress with fetches := w.progress.fetches + 1 } := by
  rw [progress, reads_asking_read, List.length_append]
  rfl

/-- **To find a transaction** is to look it up, unless it is in the block. -/
theorem run_find (index : Index) (parentId : BlockId) (id : TxId) (w : Inquiry μ) :
    (find index parentId id).run w =
      match w.done.lookup id with
      | some reverted => .ok (some (.inBlock reverted)) w
      | none =>
        match index parentId id with
        | .ok found => .ok (found.map .inIndex) (w.asking (.lookup id))
        | .error cause => .error (.chain cause) (w.asking (.lookup id)) := by
  unfold find
  rw [EStateM.run_bind, EStateM.run_get]
  dsimp only
  cases w.done.lookup id with
  | some reverted => rfl
  | none =>
    dsimp only
    rcases index parentId id with cause | found <;> rfl

/-- **A transaction that is new** is looked up, and that is all. -/
theorem run_checkNew (index : Index) (parentId : BlockId) (id : TxId) (w : Inquiry μ) :
    (checkNew index parentId id).run w =
      match w.done.lookup id with
      | some _ => .error (.violation (.txAlreadyExists id)) w
      | none =>
        match index parentId id with
        | .ok none => .ok () (w.asking (.lookup id))
        | .ok (some _) => .error (.violation (.txAlreadyExists id)) (w.asking (.lookup id))
        | .error cause => .error (.chain cause) (w.asking (.lookup id)) := by
  unfold checkNew
  rw [EStateM.run_bind, run_find]
  cases w.done.lookup id with
  | some reverted => rfl
  | none => rcases index parentId id with cause | (_ | found) <;> rfl

/-- **A dependency** is looked up unless it is in the block, and only then is its receipt read. -/
theorem run_checkDependency (index : Index) (parentId : BlockId) (id d : TxId) (w : Inquiry μ) :
    (checkDependency index parentId id (some d)).run w =
      match w.done.lookup d with
      | some true => .error (.violation (.txDepReverted id d)) w
      | some false => .ok () w
      | none =>
        let looked := w.asking (.lookup d)
        match index parentId d with
        | .error cause => .error (.chain cause) looked
        | .ok none => .error (.violation (.txDepBroken id d)) looked
        | .ok (some found) =>
          let read := looked.asking (.read found.location)
          match found.read with
          | .error cause => .error (.chain cause) read
          | .ok receipt =>
            if receipt.reverted then .error (.violation (.txDepReverted id d)) read
            else .ok () read := by
  unfold checkDependency
  dsimp only
  rw [EStateM.run_bind, run_find]
  cases w.done.lookup d with
  | some reverted => cases reverted <;> rfl
  | none =>
    rcases index parentId d with cause | (_ | ⟨loc, cause | receipt⟩)
    · rfl
    · rfl
    · rfl
    · obtain ⟨gasUsed, payer, paid, reward, reverted, outputs⟩ := receipt
      cases reverted <;> rfl

/-- The replay after an execution. -/
def executed (w : Inquiry μ) (memory : μ) (ledger : Ledger) : Inquiry μ :=
  { w with memory, ledger }

/-- The replay after a receipt. -/
def record (w : Inquiry μ) (id : TxId) (receipt : Receipt) : Inquiry μ :=
  { w with
    done := (id, receipt.reverted) :: w.done
    receipts := receipt :: w.receipts
    gasUsed := satAdd w.gasUsed receipt.gasUsed }

theorem run_execute (executor : Executor μ) (context : BlockContext) (id : TxId) (tx : Transaction)
    (w : Inquiry μ) : (execute executor context id tx).run w =
      match executor.execute w.memory w.ledger context tx with
      | (memory, ⟨ledger, .error cause⟩) => .error (.execution cause) (w.executed memory ledger)
      | (memory, ⟨ledger, .ok receipt⟩) =>
        .ok () ((w.executed memory ledger).record id receipt) := by
  unfold execute
  rw [EStateM.run_bind, EStateM.run_get]
  rcases hexec : executor.execute w.memory w.ledger context tx with
    ⟨memory, ledger, cause | receipt⟩
  · simp only [hexec]
    rfl
  · simp only [hexec]
    rfl

/-! ## On a chain -/

/-- What is done in place ends as what is computed: with the same error, and as many reads made as
counted, or with results that agree. -/
def Ends {α β : Type} (agree : α → Inquiry μ → β → Prop) :
    EStateM.Result ValidationError (Inquiry μ) α → Except Stop β → Prop
  | .ok a w, .ok b => agree a w b
  | .error e w, .error stopped => stopped = ⟨e, w.reads.length⟩
  | _, _ => False

theorem Ends.bind {α β γ δ : Type} {agree : α → Inquiry μ → β → Prop}
    {agree' : γ → Inquiry μ → δ → Prop} {program : Inquiring μ α} {f : α → Inquiring μ γ}
    {x : Except Stop β} {g : β → Except Stop δ} (h : Ends agree (program.run w) x)
    (hf : ∀ a w' b, agree a w' b → Ends agree' ((f a).run w') (g b)) :
    Ends agree' ((program >>= f).run w) (x >>= g) := by
  rw [EStateM.run_bind]
  cases hrun : program.run w with
  | ok a w' =>
    rw [hrun] at h
    cases x with
    | ok b => exact hf a w' b h
    | error stopped => exact h.elim
  | error e w' =>
    rw [hrun] at h
    cases x with
    | ok b => exact h.elim
    | error stopped => exact h

/-- What is done goes through if and only if what is computed has a result. -/
theorem Ends.ok_iff {α β : Type} {agree : α → Inquiry μ → β → Prop}
    {ran : EStateM.Result ValidationError (Inquiry μ) α} {x : Except Stop β}
    (h : Ends agree ran x) : (∃ a w, ran = .ok a w) ↔ ∃ b, x = .ok b := by
  cases ran with
  | ok a w =>
    cases x with
    | ok b => simp
    | error stopped => exact h.elim
  | error e w =>
    cases x with
    | ok b => exact h.elim
    | error stopped => simp

variable {chain : Chain} {tx : Transaction}

theorem checkNew_ends (w : Inquiry μ) :
    Ends (fun _ w' _ => w'.progress = w.progress) ((checkNew chain.index parentId id).run w)
      (w.progress.checkNew chain parentId id) := by
  rw [run_checkNew]
  unfold Progress.checkNew Progress.find Chain.index
  have hdone : w.progress.done = w.done := rfl
  rw [hdone]
  cases w.done.lookup id with
  | some reverted => rfl
  | none =>
    rcases chain.lookup parentId id with cause | (_ | loc)
    · simp [Except.map, Ends, Progress.stop, progress]
    · exact progress_asking_lookup w id
    · simp [Except.map, Ends, Progress.stop, progress]

theorem checkDependency_ends (w : Inquiry μ) (dependsOn : Option TxId) :
    Ends (fun _ w' q => w'.progress = q) ((checkDependency chain.index parentId id dependsOn).run w)
      (w.progress.checkDependency chain parentId id dependsOn) := by
  cases dependsOn with
  | none => exact rfl
  | some d =>
    rw [run_checkDependency]
    unfold Progress.checkDependency Progress.find Chain.index
    have hdone : w.progress.done = w.done := rfl
    dsimp only
    rw [hdone]
    cases w.done.lookup d with
    | some reverted => cases reverted <;> exact rfl
    | none =>
      rcases chain.lookup parentId d with cause | (_ | loc)
      · simp [Except.map, Ends, Progress.stop, progress]
      · simp [Except.map, Ends, Progress.stop, progress]
      · simp only [Except.map, Option.map]
        rcases chain.receipt loc with cause | receipt
        · simp [Ends, Progress.stop, progress]
        · by_cases hreverted : receipt.reverted = true
          · simp [hreverted, Ends, Progress.stop, progress]
          · simp [hreverted, hdone, Ends]

theorem execute_ends (context : BlockContext) (w : Inquiry μ) :
    Ends (fun _ w' q => w'.progress = q) ((execute executor context id tx).run w)
      (w.progress.run executor context id tx) := by
  rw [run_execute]
  unfold Progress.run
  have hsame : executor.execute w.progress.memory w.progress.ledger context tx =
      executor.execute w.memory w.ledger context tx := rfl
  rw [hsame]
  rcases executor.execute w.memory w.ledger context tx with ⟨memory, ledger, cause | receipt⟩
  · exact rfl
  · exact rfl

/-- **One transaction.** -/
theorem replayOne_ends (w : Inquiry μ) :
    Ends (fun _ w' q => w'.progress = q) ((replayOne chain.index executor header tx).run w)
      (w.progress.step chain executor header tx) := by
  unfold replayOne Progress.step
  cases tx.id with
  | error cause => exact rfl
  | ok id =>
    refine (checkNew_ends w).bind fun _ w₁ _ hnew => ?_
    rw [← hnew]
    refine (checkDependency_ends w₁ tx.dependsOn).bind fun _ w₂ q hdep => ?_
    subst hdep
    exact execute_ends header.context w₂

/-- **All transactions**, by induction on the list. -/
theorem replayEach_ends (chain : Chain) (executor : Executor μ) (header : Header) (w : Inquiry μ)
    (txs : List Transaction) :
    Ends (fun _ w' q => w'.progress = q) ((replayEach chain.index executor header txs).run w)
      (w.progress.steps chain executor header txs) := by
  induction txs generalizing w with
  | nil => exact rfl
  | cons tx rest ih =>
    refine (replayOne_ends w).bind fun _ w' q hstep => ?_
    subst hstep
    exact ih w'

theorem finish_ends (w : Inquiry μ) :
    Ends (fun a w' b => b = ⟨a.1, a.2, w'.reads.length⟩) ((finish header).run w)
      (w.progress.finish header) := by
  unfold finish Progress.finish
  rw [EStateM.run_bind, EStateM.run_get]
  have hsum : w.progress.gasUsed = w.gasUsed := rfl
  have hlist : w.progress.receipts = w.receipts := rfl
  have hafter : w.progress.ledger = w.ledger := rfl
  rw [hsum, hlist, hafter]
  dsimp only
  by_cases hgas : header.gasUsed = w.gasUsed
  · rw [if_neg (not_not.mpr hgas), if_neg (not_not.mpr hgas)]
    by_cases hreceipts : header.receiptsRoot = receiptsRoot w.receipts.reverse
    · rw [if_neg (not_not.mpr hreceipts), if_neg (not_not.mpr hreceipts)]
      by_cases hstate : header.stateRoot = w.ledger.root
      · rw [if_neg (not_not.mpr hstate), if_neg (not_not.mpr hstate)]
        exact rfl
      · rw [if_pos hstate, if_pos hstate]
        exact rfl
    · rw [if_pos hreceipts, if_pos hreceipts]
      exact rfl
  · rw [if_pos hgas, if_pos hgas]
    exact rfl

/-- **A whole replay.** -/
theorem replay_ends (chain : Chain) (executor : Executor μ) (memory : μ) (ledger : Ledger)
    (block : Block) :
    Ends (fun a w b => b = ⟨a.1, a.2, w.reads.length⟩)
      ((replay chain.index executor block).run (start ledger memory))
      (ProofOfAuthority.replay chain executor memory ledger block) := by
  unfold replay ProofOfAuthority.replay
  have hstart : (start (ledger.markParent block.header.parentId) memory).progress =
      Progress.start (ledger.markParent block.header.parentId) memory := rfl
  rw [← hstart]
  have heach := replayEach_ends chain executor block.header
    (start (ledger.markParent block.header.parentId) memory) block.transactions
  refine heach.bind fun _ w q hsteps => ?_
  subst hsteps
  exact finish_ends w

end Inquiry

end ProofOfAuthority

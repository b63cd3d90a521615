import Mathlib.Data.Nat.Count
import Mathlib.Data.Set.Card
import ProofOfAuthority.Proofs.Inquiry
import ProofOfAuthority.Proofs.Lookup
import ProofOfAuthority.Proofs.Production

/-!
# Receipts are read when they are needed

To look a transaction up is cheap, to read its receipt is not. A replay looks up transactions and
dependencies, but it reads a receipt only to learn whether a dependency was reverted that is in an
ancestor of the block, and only when it comes to that (`Needs`). So it reads at most one receipt for
a transaction, and none for one that it does not reach.

* `replayOne_reads` — what one transaction reads.
* `replayEach_ok` — the ids that are known after transactions that go through.
* `replayEach_reads` — the reads for a number of transactions, by induction on the number.
* `reads_counted` — the number of reads is the number of transactions that need one.
-/

namespace ProofOfAuthority

/-- After transactions with these ids, `tx` needs the receipt at a place: it is new, and what it
depends on was found there and is not one of them. -/
inductive Needs (index : Index) (parentId : BlockId) (ids : List TxId) (tx : Transaction) :
    Location → Prop
  | of_found {id d : TxId} {found : Found} (hid : tx.id = .ok id) (hnew : id ∉ ids)
      (hfresh : index parentId id = .ok none) (hdep : tx.dependsOn = some d) (hout : d ∉ ids)
      (hfound : index parentId d = .ok (some found)) : Needs index parentId ids tx found.location

/-- The transaction at `i` is reached and needs a receipt. The first transactions of a block are
those that `passes` holds of, if they go through. -/
def NeededAt (index : Index) (parentId : BlockId) (passes : List Transaction → Prop)
    (txs : List Transaction) (i : Nat) : Prop :=
  passes (txs.take i) ∧ ∃ tx ids loc, txs[i]? = some tx ∧
    Chain.txIds (txs.take i) = .ok ids ∧ Needs index parentId ids tx loc

/-- The receipts that a replay read from the chain. -/
def fetchCount : Except Stop Replayed → Nat
  | .ok replayed => replayed.fetches
  | .error stop => stop.fetches

namespace Inquiry

variable {μ α β : Type} {index : Index} {executor : Executor μ} {header : Header}
  {parentId : BlockId} {ids : List TxId} {tx : Transaction} {txs : List Transaction}
  {w w' : Inquiry μ}

/-- The replay that a program leaves behind, also if it fails. -/
def leftBehind {ε : Type} : EStateM.Result ε (Inquiry μ) α → Inquiry μ
  | .ok _ w => w
  | .error _ w => w

theorem leftBehind_bind (program : Inquiring μ α) (f : α → Inquiring μ β) (w : Inquiry μ) :
    leftBehind ((program >>= f).run w) =
      match program.run w with
      | .ok a w' => leftBehind ((f a).run w')
      | .error _ w' => w' := by
  rw [EStateM.run_bind]
  rcases program.run w with _ | _ <;> rfl

/-- What comes after a program and reads nothing does not matter to the reads. -/
theorem reads_bind_of_silent {program : Inquiring μ α} {f : α → Inquiring μ β}
    (hf : ∀ a w', (leftBehind ((f a).run w')).reads = w'.reads) (w : Inquiry μ) :
    (leftBehind ((program >>= f).run w)).reads = (leftBehind (program.run w)).reads := by
  rw [leftBehind_bind]
  cases program.run w with
  | ok a w' => exact hf a w'
  | error e w' => rfl

/-! ## One transaction -/

theorem checkNew_reads (index : Index) (parentId : BlockId) (id : TxId) (w : Inquiry μ) :
    (leftBehind ((checkNew index parentId id).run w)).reads = w.reads := by
  rw [run_checkNew]
  cases w.done.lookup id with
  | some reverted => rfl
  | none => rcases index parentId id with cause | (_ | found) <;> exact reads_asking_lookup w id

theorem checkNew_eq_ok_iff {id : TxId} {u : Unit} :
    (checkNew index parentId id).run w = .ok u w' ↔
      w.done.lookup id = none ∧ index parentId id = .ok none ∧ w.asking (.lookup id) = w' := by
  rw [run_checkNew]
  cases w.done.lookup id with
  | some reverted => simp
  | none => rcases index parentId id with cause | (_ | found) <;> simp

/-- **The receipt of a dependency** is read if it was looked up and found, and no other. -/
theorem checkDependency_reads (index : Index) (parentId : BlockId) (id : TxId)
    (dependsOn : Option TxId) (w : Inquiry μ) :
    (∃ d found, dependsOn = some d ∧ w.done.lookup d = none ∧
        index parentId d = .ok (some found) ∧
        (leftBehind ((checkDependency index parentId id dependsOn).run w)).reads =
          w.reads ++ [found.location]) ∨
      (∀ d found, dependsOn = some d → w.done.lookup d = none →
        index parentId d ≠ .ok (some found)) ∧
        (leftBehind ((checkDependency index parentId id dependsOn).run w)).reads = w.reads := by
  cases dependsOn with
  | none => exact Or.inr ⟨nofun, rfl⟩
  | some d =>
    rw [run_checkDependency]
    cases hdone : w.done.lookup d with
    | some reverted =>
      refine Or.inr ⟨?_, by cases reverted <;> rfl⟩
      rintro _ found ⟨⟩ hnone
      exact absurd (hdone.symm.trans hnone) (by simp)
    | none =>
      rcases hfound : index parentId d with cause | (_ | found)
      · refine Or.inr ⟨?_, reads_asking_lookup w d⟩
        rintro _ found ⟨⟩ -
        simp [hfound]
      · refine Or.inr ⟨?_, reads_asking_lookup w d⟩
        rintro _ found ⟨⟩ -
        simp [hfound]
      · refine Or.inl ⟨d, found, rfl, hdone, hfound, ?_⟩
        dsimp only
        have hreads : ((w.asking (.lookup d)).asking (.read found.location)).reads =
            w.reads ++ [found.location] := by
          rw [reads_asking_read, reads_asking_lookup]
        rcases found.read with cause | receipt
        · exact hreads
        · dsimp only
          split <;> exact hreads

theorem execute_reads (context : BlockContext) (id : TxId) (w : Inquiry μ) :
    (leftBehind ((execute executor context id tx).run w)).reads = w.reads := by
  rw [run_execute]
  rcases executor.execute w.memory w.ledger context tx with ⟨memory, ledger, cause | receipt⟩
  · rfl
  · rfl

/-- **One transaction** reads the receipt that it needs, and no other. -/
theorem replayOne_reads (hids : ∀ x, w.done.lookup x = none ↔ x ∉ ids) (tx : Transaction) :
    (∃ loc, Needs index header.parentId ids tx loc ∧
        (leftBehind ((replayOne index executor header tx).run w)).reads = w.reads ++ [loc]) ∨
      (∀ loc, ¬Needs index header.parentId ids tx loc) ∧
        (leftBehind ((replayOne index executor header tx).run w)).reads = w.reads := by
  unfold replayOne
  cases hid : tx.id with
  | error cause =>
    refine Or.inr ⟨?_, rfl⟩
    rintro _ ⟨hid', -⟩
    exact absurd (hid.symm.trans hid') (by simp)
  | ok id =>
    dsimp only
    rw [leftBehind_bind]
    have hnew_reads := checkNew_reads index header.parentId id w
    cases hnew : (checkNew index header.parentId id).run w with
    | error e w₁ =>
      rw [hnew] at hnew_reads
      refine Or.inr ⟨?_, hnew_reads⟩
      rintro _ ⟨hid', hout, hfresh, -⟩
      obtain rfl : id = _ := Except.ok.inj (hid.symm.trans hid')
      have hok := checkNew_eq_ok_iff (u := ()).mpr ⟨(hids id).mpr hout, hfresh, rfl⟩
      exact absurd (hnew.symm.trans hok) (by simp)
    | ok _ w₁ =>
      obtain ⟨hout, hfresh, rfl⟩ := checkNew_eq_ok_iff.mp hnew
      dsimp only
      rw [reads_bind_of_silent fun _ => execute_reads header.context id]
      have hdep := checkDependency_reads index header.parentId id tx.dependsOn
        (w.asking (.lookup id))
      rw [reads_asking_lookup, done_asking] at hdep
      refine hdep.imp ?_ (And.imp_left ?_)
      · rintro ⟨d, found, hd, hd_out, hfound, hreads⟩
        exact ⟨found.location,
          .of_found hid ((hids id).mp hout) hfresh hd ((hids d).mp hd_out) hfound, hreads⟩
      · rintro hnone _ ⟨-, -, -, hd, hd_out, hfound⟩
        exact hnone _ _ hd ((hids _).mpr hd_out) hfound

theorem execute_eq_ok {context : BlockContext} {id : TxId} {u : Unit}
    (h : (execute executor context id tx).run w = .ok u w') :
    ∃ reverted, w'.done = (id, reverted) :: w.done := by
  rw [run_execute] at h
  rcases hexec : executor.execute w.memory w.ledger context tx with
    ⟨memory, ledger, cause | receipt⟩
  · simp [hexec] at h
  · simp only [hexec, EStateM.Result.ok.injEq] at h
    exact ⟨receipt.reverted, by rw [← h.2]; rfl⟩

theorem checkDependency_done (index : Index) (parentId : BlockId) (id : TxId)
    (dependsOn : Option TxId) (w : Inquiry μ) :
    (leftBehind ((checkDependency index parentId id dependsOn).run w)).done = w.done := by
  cases dependsOn with
  | none => rfl
  | some d =>
    rw [run_checkDependency]
    cases w.done.lookup d with
    | some reverted => cases reverted <;> rfl
    | none =>
      rcases index parentId d with cause | (_ | ⟨loc, cause | receipt⟩)
      · rfl
      · rfl
      · rfl
      · dsimp only
        split <;> rfl

/-- **A transaction that goes through** is known by its id afterwards. -/
theorem replayOne_ok {u : PUnit} (h : (replayOne index executor header tx).run w = .ok u w') :
    ∃ id reverted, tx.id = .ok id ∧ w'.done = (id, reverted) :: w.done := by
  unfold replayOne at h
  cases hid : tx.id with
  | error cause =>
    rw [hid] at h
    exact absurd h (by simp [EStateM.run_bind])
  | ok id =>
    rw [hid] at h
    dsimp only at h
    rw [EStateM.run_bind] at h
    cases hnew : (checkNew index header.parentId id).run w with
    | error e w₁ => simp [hnew] at h
    | ok _ w₁ =>
      obtain ⟨-, -, rfl⟩ := checkNew_eq_ok_iff.mp hnew
      rw [hnew] at h
      dsimp only at h
      rw [EStateM.run_bind] at h
      have hdone := checkDependency_done index header.parentId id tx.dependsOn
        (w.asking (.lookup id))
      cases hdep : (checkDependency index header.parentId id tx.dependsOn).run
          (w.asking (.lookup id)) with
      | error e w₂ => simp [hdep] at h
      | ok _ w₂ =>
        rw [hdep] at h hdone
        obtain ⟨reverted, hafter⟩ := execute_eq_ok h
        exact ⟨id, reverted, rfl, hafter.trans (congrArg _ hdone)⟩

/-! ## All transactions -/

theorem replayEach_concat (txs : List Transaction) (tx : Transaction) :
    replayEach index executor header (txs ++ [tx]) =
      (replayEach index executor header txs >>= fun _ => replayOne index executor header tx) := by
  simp [replayEach]

/-- **After transactions that go through** their ids are known, and no others. -/
theorem replayEach_ok (hdone : w.done = []) {u : PUnit}
    (h : (replayEach index executor header txs).run w = .ok u w') :
    ∃ ids, Chain.txIds txs = .ok ids ∧ ∀ x, w'.done.lookup x = none ↔ x ∉ ids := by
  induction txs using List.reverseRecOn generalizing u w' with
  | nil =>
    obtain ⟨-, rfl⟩ := EStateM.Result.ok.inj h
    exact ⟨[], rfl, by simp [hdone]⟩
  | append_singleton txs tx ih =>
    rw [replayEach_concat, EStateM.run_bind] at h
    cases hinit : (replayEach index executor header txs).run w with
    | error e w₁ => simp [hinit] at h
    | ok _ w₁ =>
      rw [hinit] at h
      obtain ⟨ids, hids, hknown⟩ := ih hinit
      obtain ⟨id, reverted, hid, hafter⟩ := replayOne_ok h
      refine ⟨ids ++ [id], Chain.txIds_concat.mpr ⟨hids, hid⟩, fun x => ?_⟩
      rw [hafter, List.lookup_cons]
      by_cases hx : x = id
      · simp [hx]
      · rw [beq_false_of_ne hx]
        simp [hx, hknown]

/-- The transactions go through one after the other. -/
def Passes (index : Index) (executor : Executor μ) (header : Header) (w : Inquiry μ)
    (txs : List Transaction) : Prop :=
  ∃ w', (replayEach index executor header txs).run w = .ok ⟨⟩ w'

open Classical in
/-- **The reads for the first `k` transactions** are as many as those that need one, by induction on
`k`: from the first failure on the replay stands still, and none is reached. -/
theorem replayEach_reads (index : Index) (executor : Executor μ) (header : Header)
    (txs : List Transaction) (hdone : w.done = []) (hreads : w.reads = []) (k : Nat) :
    (leftBehind ((replayEach index executor header (txs.take k)).run w)).reads.length =
      Nat.count (NeededAt index header.parentId (Passes index executor header w) txs) k := by
  induction k with
  | zero =>
    have hstart : leftBehind ((replayEach index executor header (txs.take 0)).run w) = w := rfl
    rw [hstart, hreads]
    rfl
  | succ k ih =>
    rw [Nat.count_succ, ← ih]
    cases htx : txs[k]? with
    | none =>
      have hnot : ¬NeededAt index header.parentId (Passes index executor header w) txs k := by
        rintro ⟨-, tx, -, -, htx', -⟩
        exact absurd (htx.symm.trans htx') (by simp)
      have hlen := List.getElem?_eq_none_iff.mp htx
      rw [if_neg hnot, List.take_of_length_le hlen, List.take_of_length_le (by omega)]
      rfl
    | some tx =>
      have htake : txs.take (k + 1) = txs.take k ++ [tx] := by
        rw [List.take_add_one, htx]
        rfl
      rw [htake, replayEach_concat, leftBehind_bind]
      cases hinit : (replayEach index executor header (txs.take k)).run w with
      | error e w' =>
        have hnot : ¬NeededAt index header.parentId (Passes index executor header w) txs k := by
          rintro ⟨⟨w₁, hpass⟩, -⟩
          exact absurd (hinit.symm.trans hpass) (by simp)
        rw [if_neg hnot]
        rfl
      | ok u w' =>
        obtain ⟨ids, hids, hknown⟩ := replayEach_ok hdone hinit
        dsimp only
        rcases replayOne_reads hknown tx with ⟨loc, hneeds, hread⟩ | ⟨hnone, hread⟩
        · rw [hread, if_pos ⟨⟨w', hinit⟩, tx, ids, loc, htx, hids, hneeds⟩, List.length_append]
          rfl
        · have hnot : ¬NeededAt index header.parentId (Passes index executor header w) txs k := by
            rintro ⟨-, tx', ids', loc, htx', hids', hneeds⟩
            obtain rfl : tx = tx' := Option.some.inj (htx.symm.trans htx')
            obtain rfl : ids = ids' := Except.ok.inj (hids.symm.trans hids')
            exact hnone loc hneeds
          rw [hread, if_neg hnot]
          rfl

theorem passes_iff_steps {chain : Chain} :
    Passes chain.index executor header w txs ↔
      ∃ p, w.progress.steps chain executor header txs = .ok p := by
  rw [← (replayEach_ends chain executor header w txs).ok_iff]
  constructor
  · rintro ⟨w', hrun⟩
    exact ⟨⟨⟩, w', hrun⟩
  · rintro ⟨⟨⟩, w', hrun⟩
    exact ⟨w', hrun⟩

/-! ## A whole replay -/

theorem finish_reads (w : Inquiry μ) : (leftBehind ((finish header).run w)).reads = w.reads := by
  unfold finish
  rw [EStateM.run_bind, EStateM.run_get]
  dsimp only
  split
  · rfl
  · split
    · rfl
    · split <;> rfl

theorem replay_reads (index : Index) (executor : Executor μ) (memory : μ) (ledger : Ledger)
    (block : Block) :
    (leftBehind ((replay index executor block).run (start ledger memory))).reads =
      (leftBehind ((replayEach index executor block.header block.transactions).run
        (start (ledger.markParent block.header.parentId) memory))).reads := by
  have hrun : (replay index executor block).run (start ledger memory) =
      (replayEach index executor block.header block.transactions >>= fun _ =>
        finish block.header).run (start (ledger.markParent block.header.parentId) memory) := rfl
  rw [hrun]
  exact reads_bind_of_silent (fun _ => finish_reads) _

theorem fetchCount_replay (chain : Chain) (executor : Executor μ) (memory : μ) (ledger : Ledger)
    (block : Block) :
    fetchCount (ProofOfAuthority.replay chain executor memory ledger block) =
      (leftBehind ((replay chain.index executor block).run
        (start ledger memory))).reads.length := by
  have hends := replay_ends chain executor memory ledger block
  generalize (replay chain.index executor block).run (start ledger memory) = ran at hends ⊢
  generalize ProofOfAuthority.replay chain executor memory ledger block = result at hends ⊢
  cases ran with
  | ok a w =>
    cases result with
    | ok replayed => exact congrArg Replayed.fetches hends
    | error stop => exact hends.elim
  | error e w =>
    cases result with
    | ok replayed => exact hends.elim
    | error stop => exact congrArg Stop.fetches hends

theorem run_validate_of_prepare {v : Validator} {block : Block} {parent : Header} {now : UInt64}
    {failure : Failure ValidationError} (h : v.prepare w.ledger block parent now = .error failure) :
    (validate v index executor block parent now).run w = .error failure w := by
  unfold validate
  rw [EStateM.run_bind, EStateM.run_get]
  dsimp only
  rw [h]
  rfl

end Inquiry

open Inquiry

theorem NeededAt.lt {index : Index} {parentId : BlockId} {passes : List Transaction → Prop}
    {txs : List Transaction} {i : Nat} (h : NeededAt index parentId passes txs i) :
    i < txs.length := by
  obtain ⟨-, tx, -, -, htx, -⟩ := h
  exact (List.getElem?_eq_some_iff.mp htx).1

theorem count_eq_ncard (p : Nat → Prop) [DecidablePred p] (k : Nat) :
    Nat.count p k = {i | i < k ∧ p i}.ncard := by
  have hset : {i | i < k ∧ p i} = ((Finset.range k).filter p : Set Nat) := by
    ext i
    simp
  rw [Nat.count_eq_card_filter_range, hset, Set.ncard_coe_finset]

/-- **Receipts are read when they are needed.** Whatever the index and the executor answer, a
`replay` that is accepted or stopped has read as many as there are transactions that `NeededAt`
holds of; and `validate` asks for nothing if it fails before that. -/
theorem reads_counted {μ : Type} (executor : Executor μ) (memory : μ) (ledger : Ledger)
    (block : Block) :
    (∀ index : Index,
      let begun := start (ledger.markParent block.header.parentId) memory
      let needed := NeededAt index block.header.parentId
        (Passes index executor block.header begun) block.transactions
      (∀ k, (leftBehind ((replayEach index executor block.header
          (block.transactions.take k)).run begun)).reads.length = {i | i < k ∧ needed i}.ncard) ∧
      (leftBehind ((Inquiry.replay index executor block).run (start ledger memory))).reads.length =
        {i | needed i}.ncard) ∧
    (∀ chain : Chain,
      let begun := Progress.start (ledger.markParent block.header.parentId) memory
      fetchCount (replay chain executor memory ledger block) =
        {i | NeededAt chain.index block.header.parentId
          (fun txs => ∃ p, begun.steps chain executor block.header txs = .ok p)
          block.transactions i}.ncard) ∧
    ∀ (v : Validator) (parent : Header) (now : UInt64) (failure : Failure ValidationError),
      v.prepare ledger block parent now = .error failure →
      (∀ index, (leftBehind ((Inquiry.validate v index executor block parent now).run
        (start ledger memory))).asked = []) ∧
      ∀ chain, v.validate chain executor memory ledger block parent now =
        Checked.mapReason (⟨·, 0⟩) (.error failure) := by
  classical
  have hcount (index : Index) (k : Nat) := replayEach_reads index executor block.header
    block.transactions (w := start (ledger.markParent block.header.parentId) memory) rfl rfl k
  have hall (index : Index) :
      (leftBehind ((Inquiry.replay index executor block).run (start ledger memory))).reads.length =
        {i | NeededAt index block.header.parentId (Passes index executor block.header
          (start (ledger.markParent block.header.parentId) memory)) block.transactions
          i}.ncard := by
    have hlength := hcount index block.transactions.length
    rw [List.take_length, count_eq_ncard] at hlength
    rw [replay_reads, hlength]
    exact congrArg Set.ncard (Set.ext fun i => and_iff_right_of_imp NeededAt.lt)
  refine ⟨fun index => ⟨fun k => ?_, hall index⟩, fun chain => ?_, ?_⟩
  · rw [hcount, count_eq_ncard]
  · have hpasses : Passes chain.index executor block.header
        (start (ledger.markParent block.header.parentId) memory) = fun txs =>
          ∃ p, (Progress.start (ledger.markParent block.header.parentId) memory).steps chain
            executor block.header txs = .ok p :=
      funext fun txs => propext passes_iff_steps
    rw [fetchCount_replay, hall, hpasses]
  · intro v parent now failure hfail
    refine ⟨fun index => ?_, fun chain => ?_⟩
    · rw [run_validate_of_prepare (w := start ledger memory) hfail]
      rfl
    · unfold Validator.validate
      rw [hfail]
      cases failure <;> rfl

namespace Sample

open Chain.Siblings

/-- A block with a transaction twice. -/
def twice (parentId : BlockId) (tx : Transaction) : Block := ⟨{ genesis with parentId }, [tx, tx]⟩

/-- An executor that has the same receipt for every transaction. -/
def lenient : Executor Unit := Executor.ofFunction fun ledger _ _ => ⟨ledger, .ok receipt⟩

theorem prepare_twice {parentId : BlockId} {tx : Transaction} (hother : parentId ≠ genesis.id) :
    validator.prepare ledger (twice parentId tx) genesis 1000 =
      .error (.refused (.violation (.parentMismatch genesis.id parentId))) := by
  have hparent : (twice parentId tx).header.parentId = parentId := rfl
  rw [Validator.prepare, hparent, if_pos hother]
  rfl

theorem stored_id (a : Chain.Addition) : (stored a).id = a.id := rfl

theorem locations_stored (a : Chain.Addition) :
    Chain.StoredBlock.locations (stored a) firstId = [⟨a.id, 0⟩] ∧
      Chain.StoredBlock.locations (stored a) secondId = [] :=
  ⟨rfl, rfl⟩

theorem lookup_of_recorded {c : Chain} {blockId : BlockId} {id : TxId} {rest : List Location}
    (hcontains : c.contains blockId = true) (hfirst : c.locations id = ⟨blockId, 0⟩ :: rest) :
    c.lookup blockId id = .ok (some ⟨blockId, 0⟩) := by
  have hself : c.isAncestor blockId blockId = true := by
    simp [Chain.isAncestor, Chain.walk]
  rw [Chain.lookup, if_pos hcontains, hfirst, List.find?_cons, hself]

theorem lookup_of_unrecorded {c : Chain} {blockId : BlockId} {id : TxId}
    (hcontains : c.contains blockId = true) (hnone : c.locations id = []) :
    c.lookup blockId id = .ok none := by
  rw [Chain.lookup, if_pos hcontains, hnone, List.find?_nil]

theorem locations_ofGenesis (id : TxId) : (Chain.ofGenesis genesis).locations id = [] := rfl

theorem stored_left : chain.contains left.id = true :=
  logged.contains_iff.mpr (Or.inr ⟨left, List.mem_cons_self, rfl⟩)

/-- After the left one of the siblings, the first transaction is found there. -/
theorem lookup_first : chain.lookup left.id firstId = .ok (some ⟨left.id, 0⟩) := by
  have hfirst : chain.locations firstId = [⟨left.id, 0⟩, ⟨right.id, 0⟩] := by
    rw [chain, Chain.locations_push, Chain.locations_push, locations_ofGenesis,
      (locations_stored left).1, (locations_stored right).1]
    simp only [List.nil_append, List.cons_append]
  exact lookup_of_recorded stored_left hfirst

/-- The second transaction is found nowhere. -/
theorem lookup_second : chain.lookup left.id secondId = .ok none := by
  have hnone : chain.locations secondId = [] := by
    rw [chain, Chain.locations_push, Chain.locations_push, locations_ofGenesis,
      (locations_stored left).2, (locations_stored right).2]
    simp only [List.nil_append]
  exact lookup_of_unrecorded stored_left hnone

theorem receipt_left : chain.receipt ⟨left.id, 0⟩ = .ok receipt := by
  have hmem : stored left ∈ chain.blocks :=
    List.mem_append_left _ (List.mem_append_right _ (List.mem_singleton.mpr rfl))
  have hread := logged.reachable.wellFormed.receipt_stored hmem (i := 0) (r := receipt) rfl
  rwa [stored_id] at hread

/-- The transaction reads the receipt of its dependency, and is refused when it comes again. -/
theorem replay_twice {c : Chain} {parentId : BlockId} {tx : Transaction} {id d : TxId}
    {loc : Location} (hid : tx.id = .ok id) (hdep : tx.dependsOn = some d)
    (hnew : c.lookup parentId id = .ok none) (hfound : c.lookup parentId d = .ok (some loc))
    (hread : c.receipt loc = .ok receipt) :
    replay c lenient () ledger (twice parentId tx) =
      .error ⟨.violation (.txAlreadyExists id), 1⟩ := by
  have hparent : (twice parentId tx).header.parentId = parentId := rfl
  have hexec (context : BlockContext) :
      lenient.execute () (ledger.markParent parentId) context tx =
        ((), ⟨ledger.markParent parentId, .ok receipt⟩) := rfl
  have hgone : receipt.reverted = false := rfl
  have hstep : (Progress.start (ledger.markParent parentId) ()).step c lenient
      (twice parentId tx).header tx =
        .ok ⟨ledger.markParent parentId, (), [(id, false)], [receipt], 21000, 1⟩ := by
    simp [Progress.step, hid, hdep, hparent, Progress.checkNew, Progress.checkDependency,
      Progress.find, Progress.start, hnew, hfound, hread, hgone, Except.map, bind, Except.bind,
      Progress.run, hexec]
    rfl
  have hagain : (Progress.mk (ledger.markParent parentId) () [(id, false)] [receipt] 21000
      1).step c lenient (twice parentId tx).header tx =
        .error ⟨.violation (.txAlreadyExists id), 1⟩ := by
    simp [Progress.step, hid, Progress.checkNew, Progress.find, Progress.stop, bind, Except.bind]
  have hsteps : (Progress.start (ledger.markParent parentId) ()).steps c lenient
      (twice parentId tx).header [tx, tx] = .error ⟨.violation (.txAlreadyExists id), 1⟩ := by
    simp [Progress.steps, hstep, hagain, bind, Except.bind]
  exact bind_eq_error_iff.mpr (Or.inl hsteps)

/-- After the left one of the siblings, a block with the second transaction twice reads one receipt.
Given another parent it is refused and reads none. -/
theorem twice_reads_one :
    fetchCount (replay chain lenient () ledger (twice left.id second)) = 1 ∧
    {i | NeededAt chain.index (twice left.id second).header.parentId (fun txs => ∃ p,
        (Progress.start (ledger.markParent (twice left.id second).header.parentId) ()).steps chain
          lenient (twice left.id second).header txs = .ok p)
        (twice left.id second).transactions i}.ncard = 1 ∧
    validator.prepare ledger (twice left.id second) genesis 1000 =
      .error (.refused (.violation (.parentMismatch genesis.id left.id))) ∧
    validator.validate chain lenient () ledger (twice left.id second) genesis 1000 =
      .error (.refused ⟨.violation (.parentMismatch genesis.id left.id), 0⟩) := by
  obtain ⟨-, hcount, hbefore⟩ := reads_counted lenient () ledger (twice left.id second)
  have hone : fetchCount (replay chain lenient () ledger (twice left.id second)) = 1 := by
    rw [replay_twice second_id rfl lookup_second lookup_first receipt_left]
    rfl
  have hother : left.id ≠ genesis.id := child_ne_genesis
  have hprepare : validator.prepare ledger (twice left.id second) genesis 1000 =
      .error (.refused (.violation (.parentMismatch genesis.id left.id))) :=
    prepare_twice hother
  exact ⟨hone, (hcount chain).symm.trans hone, hprepare,
    (hbefore validator genesis 1000 _ hprepare).2 chain⟩

end Sample

end ProofOfAuthority

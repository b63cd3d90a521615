import ProofOfAuthority.Proofs.History
import ProofOfAuthority.Proofs.Production

/-!
# Which verdicts are permanent

A verdict depends on the clock and on the chain. The clock enters one check only, whether the block
lies in the future, and a block that once passes it passes it ever after. The chain enters through
look-ups below the parent and receipts found that way, which growth does not change once the parent
is stored. So a block has to be judged again only if it lay in the future or its parent was unknown.

* `checkHeader_future_iff`, `checkHeader_later` — the clock in the header checks.
* `replay_grows` — the chain in a replay.
* `Validator.verdict_permanent` — every other verdict is permanent.
-/

namespace ProofOfAuthority

/-- The block lies in the future. -/
def FutureBlock (verdict : Checked Stop Replayed) : Prop :=
  ∃ timestamp now fetches,
    verdict = .error (.refused ⟨.violation (.futureBlock timestamp now), fetches⟩)

/-- The chain does not store the block's parent. -/
def UnknownBlock (verdict : Checked Stop Replayed) : Prop :=
  ∃ id fetches, verdict = .error (.refused ⟨.chain (.unknownBlock id), fetches⟩)

/-! ## The clock -/

variable {p : Protocol} {header parent : Header} {now now' : UInt64}

/-- Where the header is not held back by the clock now, it will not be held back later, and the
other checks do not look at the clock. -/
theorem checkHeader_later (h : ¬(InSlot p header parent ∧ Early p header now)) (hnow : now ≤ now') :
    checkHeader p header parent now' = checkHeader p header parent now := by
  by_cases hslot : InSlot p header parent
  · have hlate : ¬Early p header now := by
      intro hearly
      exact h ⟨hslot, hearly⟩
    have hlate' : ¬Early p header now' := by
      rw [UInt64.le_iff_toNat_le] at hnow
      unfold Early at *
      omega
    rw [checkHeader_in_slot hslot hlate, checkHeader_in_slot hslot hlate']
  · obtain ⟨e, he, -⟩ := checkHeader_outside hslot
    rw [he, he]

/-- **The clock in the header checks.** They find a block in the future exactly if it is in a slot
that begins more than one interval from now. -/
theorem checkHeader_future_iff :
    (∃ v, checkHeader p header parent now = .error (.refused v) ∧ v.isFuture = true) ↔
      InSlot p header parent ∧ Early p header now := by
  constructor
  · rintro ⟨v, hv, hfuture⟩
    have hslot : InSlot p header parent := by
      by_contra hslot
      obtain ⟨e, he, hother⟩ := checkHeader_outside hslot
      rw [he] at hv
      rw [hother v (Except.error.inj hv)] at hfuture
      exact absurd hfuture (by simp)
    refine ⟨hslot, ?_⟩
    by_contra hlate
    have hother : ∀ w : Violation, w.isFuture = false →
        (Checked.refuse w : Checked Violation Unit) ≠ .error (.refused v) := by
      intro w hw hwv
      rw [Checked.refuse_eq_refused_iff.mp hwv, hfuture] at hw
      exact absurd hw (by simp)
    rw [checkHeader_in_slot hslot hlate] at hv
    rcases bind_eq_error_iff.mp hv with hv | ⟨follows, -, hv⟩
    · exact Checked.ofFaulty_ne_refused hv
    · split_ifs at hv
      · exact hother _ rfl hv
      · exact hother _ rfl hv
      · exact hother _ rfl hv
      · simp [pure, Except.pure] at hv
  · rintro ⟨hslot, hearly⟩
    exact ⟨_, checkHeader_early hslot hearly, rfl⟩

/-! ## No other check finds a block in the future -/

theorem checkTransactions_not_future {tag : UInt8} {number : UInt32} {index : Nat}
    {txs : List Transaction} {v : Violation}
    (h : checkTransactions tag number index txs = .error v) : v.isFuture = false := by
  induction txs generalizing index with
  | nil => simp [checkTransactions] at h
  | cons tx rest ih =>
    rcases bind_eq_error_iff.mp h with h | ⟨-, -, h⟩
    · unfold checkTransaction at h
      split at h
      · obtain rfl := Except.error.inj h
        rfl
      · simp only [bind_eq_error_iff, require_eq_error_iff] at h
        rcases h with ⟨-, rfl⟩ | ⟨-, -, ⟨-, rfl⟩ | ⟨-, -, ⟨-, rfl⟩ | ⟨-, -, -, rfl⟩⟩⟩ <;> rfl
    · exact ih h

theorem checkBody_not_future {tag : UInt8} {block : Block} {v : Violation}
    (h : checkBody tag block = .error v) : v.isFuture = false := by
  rcases bind_eq_error_iff.mp h with h | ⟨-, -, h⟩
  · obtain ⟨-, rfl⟩ := require_eq_error_iff.mp h
    rfl
  · exact checkTransactions_not_future h

theorem refuse_not_future {α : Type} {e e' : ValidationError} (he : e.isFutureBlock = false)
    (h : (Checked.refuse e : Checked ValidationError α) = .error (.refused e')) :
    e'.isFutureBlock = false :=
  Checked.refuse_eq_refused_iff.mp h ▸ he

theorem checkProposer_not_future {ledger : Ledger} {e : ValidationError}
    (h : checkProposer p ledger header parent = .error (.refused e)) : e.isFutureBlock = false := by
  unfold checkProposer at h
  split at h
  · exact refuse_not_future rfl h
  · split at h
    · exact refuse_not_future rfl h
    · rcases bind_eq_error_iff.mp h with h | ⟨owns, -, h⟩
      · exact absurd h Checked.ofFaulty_ne_refused
      · dsimp only at h
        split at h
        · exact refuse_not_future rfl h
        · split at h
          · exact refuse_not_future rfl h
          · obtain ⟨cause, -, rfl⟩ := Checked.ofExcept_eq_refused_iff.mp h
            rfl

namespace Progress

variable {μ : Type} {q : Progress μ} {chain : Chain} {executor : Executor μ} {stopped : Stop}

theorem stop_not_future {α : Type} {e : ValidationError} (he : e.isFutureBlock = false)
    (h : (q.stop e : Except Stop α) = .error stopped) : stopped.error.isFutureBlock = false :=
  Except.error.inj h ▸ he

theorem checkNew_not_future {parentId : BlockId} {id : TxId}
    (h : q.checkNew chain parentId id = .error stopped) : stopped.error.isFutureBlock = false := by
  unfold checkNew at h
  split at h
  · exact stop_not_future rfl h
  · exact stop_not_future rfl h
  · simp at h

theorem checkDependency_not_future {parentId : BlockId} {id : TxId} {dependsOn : Option TxId}
    (h : q.checkDependency chain parentId id dependsOn = .error stopped) :
    stopped.error.isFutureBlock = false := by
  unfold checkDependency at h
  split at h
  · simp at h
  · split at h
    · exact stop_not_future rfl h
    · exact stop_not_future rfl h
    · split at h
      · exact stop_not_future rfl h
      · simp at h
    · dsimp only at h
      split at h
      · exact stop_not_future rfl h
      · split at h
        · exact stop_not_future rfl h
        · simp at h

theorem run_not_future {context : BlockContext} {id : TxId} {tx : Transaction}
    (h : q.run executor context id tx = .error stopped) : stopped.error.isFutureBlock = false := by
  unfold run at h
  dsimp only at h
  split at h
  · exact stop_not_future rfl h
  · simp at h

theorem step_not_future {tx : Transaction}
    (h : q.step chain executor header tx = .error stopped) :
    stopped.error.isFutureBlock = false := by
  unfold step at h
  split at h
  · exact stop_not_future rfl h
  · rcases bind_eq_error_iff.mp h with h | ⟨-, -, h⟩
    · exact checkNew_not_future h
    · rcases bind_eq_error_iff.mp h with h | ⟨q', -, h⟩
      · exact checkDependency_not_future h
      · exact run_not_future h

theorem steps_not_future {txs : List Transaction}
    (h : q.steps chain executor header txs = .error stopped) :
    stopped.error.isFutureBlock = false := by
  induction txs generalizing q with
  | nil => simp [steps] at h
  | cons tx rest ih =>
    rcases bind_eq_error_iff.mp h with h | ⟨q', -, h⟩
    · exact step_not_future h
    · exact ih h

theorem finish_not_future (h : q.finish header = .error stopped) :
    stopped.error.isFutureBlock = false := by
  unfold finish at h
  dsimp only at h
  split at h
  · exact stop_not_future rfl h
  · split at h
    · exact stop_not_future rfl h
    · split at h
      · exact stop_not_future rfl h
      · simp at h

end Progress

theorem replay_not_future {μ : Type} {chain : Chain} {executor : Executor μ} {memory : μ}
    {ledger : Ledger} {block : Block} {stop : Stop}
    (h : replay chain executor memory ledger block = .error stop) :
    stop.error.isFutureBlock = false := by
  rcases bind_eq_error_iff.mp h with h | ⟨q, -, h⟩
  · exact Progress.steps_not_future h
  · exact Progress.finish_not_future h

/-! ## Before the replay -/

namespace Validator

variable {v : Validator} {ledger : Ledger} {block : Block}

/-- The block is one for which the clock decides: it names the parent, and is in a slot that begins
more than one interval from now. -/
def HeldBack (v : Validator) (block : Block) (parent : Header) (now : UInt64) : Prop :=
  block.header.parentId = parent.id ∧ InSlot v.protocol block.header parent ∧
    Early v.protocol block.header now

theorem prepare_future_iff :
    (∃ e, v.prepare ledger block parent now = .error (.refused e) ∧ e.isFutureBlock = true) ↔
      v.HeldBack block parent now := by
  unfold prepare HeldBack
  by_cases hparent : block.header.parentId = parent.id
  · rw [if_neg (not_not.mpr hparent), ← checkHeader_future_iff]
    constructor
    · rintro ⟨e, he, hfuture⟩
      rcases bind_eq_error_iff.mp he with he | ⟨-, -, he⟩
      · obtain ⟨violation, hviolation, rfl⟩ := Checked.mapReason_eq_refused_iff.mp he
        exact ⟨hparent, violation, hviolation, hfuture⟩
      · rcases bind_eq_error_iff.mp he with he | ⟨ledger', -, he⟩
        · rw [checkProposer_not_future he] at hfuture
          exact absurd hfuture (by simp)
        · rcases bind_eq_error_iff.mp he with he | ⟨-, -, he⟩
          · obtain ⟨violation, hviolation, rfl⟩ := Checked.ofExcept_eq_refused_iff.mp he
            rw [ValidationError.isFutureBlock, checkBody_not_future hviolation] at hfuture
            exact absurd hfuture (by simp)
          · simp [pure, Except.pure] at he
    · rintro ⟨-, violation, hviolation, hfuture⟩
      refine ⟨.violation violation, bind_eq_error_iff.mpr (Or.inl ?_), hfuture⟩
      exact Checked.mapReason_eq_refused_iff.mpr ⟨violation, hviolation, rfl⟩
  · rw [if_pos hparent]
    constructor
    · rintro ⟨e, he, hfuture⟩
      rw [refuse_not_future rfl he] at hfuture
      exact absurd hfuture (by simp)
    · rintro ⟨heq, -⟩
      exact absurd heq hparent

/-- A block that is not held back now meets the same checks later. -/
theorem prepare_later (h : ¬v.HeldBack block parent now) (hnow : now ≤ now') :
    v.prepare ledger block parent now' = v.prepare ledger block parent now := by
  unfold prepare
  by_cases hparent : block.header.parentId = parent.id
  · have hearly : ¬(InSlot v.protocol block.header parent ∧ Early v.protocol block.header now) := by
      intro hearly
      exact h ⟨hparent, hearly⟩
    rw [checkHeader_later hearly hnow]
  · rw [if_pos hparent, if_pos hparent]

end Validator

/-! ## The chain -/

namespace Chain

variable {μ : Type} {c c' : Chain} {executor : Executor μ} {memory : μ} {ledger : Ledger}
  {block : Block}

/-- Without the parent stored, the first look-up ends the replay. Before it nothing depends on the
chain. -/
theorem replay_unknown (h : c.contains block.header.parentId = false) :
    (∀ c', replay c' executor memory ledger block = replay c executor memory ledger block) ∨
      ∃ id fetches, replay c executor memory ledger block =
        .error ⟨.chain (.unknownBlock id), fetches⟩ := by
  unfold replay
  cases block.transactions with
  | nil => exact Or.inl fun _ => rfl
  | cons tx rest =>
    unfold Progress.steps Progress.step
    cases tx.id with
    | error cause => exact Or.inl fun _ => rfl
    | ok id =>
      refine Or.inr ⟨block.header.parentId, 0, ?_⟩
      have hlookup : c.lookup block.header.parentId id =
          .error (.unknownBlock block.header.parentId) := by
        rw [lookup, if_neg (by rw [h]; exact Bool.false_ne_true)]
      have hnew : (Progress.start (ledger.markParent block.header.parentId) memory).checkNew c
          block.header.parentId id =
            .error ⟨.chain (.unknownBlock block.header.parentId), 0⟩ := by
        unfold Progress.checkNew Progress.find
        rw [hlookup]
        rfl
      simp only [hnew, bind, Except.bind]

/-- **Growth does not change a replay** that does not end for want of a stored block. -/
theorem replay_grows (wf : c.WellFormed) (h0 : c.genesisId.number = 0) (he : c.Extends c') :
    replay c' executor memory ledger block = replay c executor memory ledger block ∨
      ∃ id fetches, replay c executor memory ledger block =
        .error ⟨.chain (.unknownBlock id), fetches⟩ := by
  cases hparent : c.contains block.header.parentId with
  | true => exact Or.inl (Extends.sameView wf h0 he hparent).replay_eq
  | false => exact (replay_unknown hparent).imp_left fun h => h c'

end Chain

/-! ## The verdict -/

namespace Validator

variable {μ : Type} {c c' : Chain} {genesis : Header}

theorem futureBlock_iff {verdict : Checked Stop Replayed} : FutureBlock verdict ↔
    ∃ stop, verdict = .error (.refused stop) ∧ stop.error.isFutureBlock = true := by
  constructor
  · rintro ⟨timestamp, now, fetches, h⟩
    exact ⟨_, h, rfl⟩
  · rintro ⟨⟨error, fetches⟩, h, hfuture⟩
    cases error with
    | violation rule =>
      obtain ⟨timestamp, now, rfl⟩ := (Violation.isFuture_iff rule).mp hfuture
      exact ⟨timestamp, now, fetches, h⟩
    | execution cause => exact absurd hfuture (by simp [ValidationError.isFutureBlock])
    | ledger cause => exact absurd hfuture (by simp [ValidationError.isFutureBlock])
    | chain cause => exact absurd hfuture (by simp [ValidationError.isFutureBlock])

/-- **The clock in a verdict.** A block is found to lie in the future exactly if it is held back. -/
theorem validate_future_iff {v : Validator} {executor : Executor μ} {memory : μ} {ledger : Ledger}
    {block : Block} : FutureBlock (v.validate c executor memory ledger block parent now) ↔
      v.HeldBack block parent now := by
  rw [futureBlock_iff, ← prepare_future_iff]
  constructor
  · rintro ⟨stop, h, hfuture⟩
    rcases bind_eq_error_iff.mp h with h | ⟨ledger', -, h⟩
    · obtain ⟨e, he, rfl⟩ := Checked.mapReason_eq_refused_iff.mp h
      exact ⟨e, he, hfuture⟩
    · obtain ⟨stop', hstop, rfl⟩ := Checked.ofExcept_eq_refused_iff.mp h
      rw [replay_not_future hstop] at hfuture
      exact absurd hfuture (by simp)
  · rintro ⟨e, he, hfuture⟩
    refine ⟨⟨e, 0⟩, bind_eq_error_iff.mpr (Or.inl ?_), hfuture⟩
    exact Checked.mapReason_eq_refused_iff.mpr ⟨e, he, rfl⟩

/-- **Verdicts are permanent**, but for `FutureBlock` and `UnknownBlock`: `validate` comes to the
same, to the last detail, at any later time over any chain that `Extends` this one. And a block that
is `FutureBlock` remains so exactly while its slot begins more than one interval from now. -/
theorem verdict_permanent (hg : genesis.number = 0) (hc : Chain.Reachable genesis c)
    (he : c.Extends c') (hnow : now ≤ now') (v : Validator) (executor : Executor μ) (memory : μ)
    (ledger : Ledger) (block : Block) (parent : Header) :
    (¬FutureBlock (v.validate c executor memory ledger block parent now) →
      ¬UnknownBlock (v.validate c executor memory ledger block parent now) →
      v.validate c' executor memory ledger block parent now' =
        v.validate c executor memory ledger block parent now) ∧
    (FutureBlock (v.validate c executor memory ledger block parent now) →
      ∀ n : UInt64, FutureBlock (v.validate c' executor memory ledger block parent n) ↔
        n.toNat + v.protocol.blockInterval.toNat < block.header.timestamp.toNat) := by
  constructor
  · intro hfuture hunknown
    have hprepare : v.prepare ledger block parent now' = v.prepare ledger block parent now :=
      prepare_later (mt validate_future_iff.mpr hfuture) hnow
    unfold validate at hunknown ⊢
    rw [hprepare]
    cases hready : v.prepare ledger block parent now with
    | error cause => cases cause <;> rfl
    | ok ready =>
      rw [hready] at hunknown
      have hgrows : replay c' executor memory ready block = replay c executor memory ready block ∨
          ∃ id fetches, replay c executor memory ready block =
            .error ⟨.chain (.unknownBlock id), fetches⟩ :=
        Chain.replay_grows hc.wellFormed (hc.genesis_number hg) he
      rcases hgrows with hsame | ⟨id, fetches, hstop⟩
      · simp only [Checked.mapReason, bind, Except.bind, hsame]
      · refine absurd ⟨id, fetches, ?_⟩ hunknown
        simp only [Checked.mapReason, bind, Except.bind, hstop, Checked.ofExcept]
  · intro hfuture n
    obtain ⟨hparent, hslot, -⟩ := validate_future_iff.mp hfuture
    rw [validate_future_iff]
    constructor
    · rintro ⟨-, -, hearly⟩
      exact hearly
    · intro hearly
      exact ⟨hparent, hslot, hearly⟩

/-- The sample block passes over the chain with genesis only, and later again over the chain that
stores it. Long before, it is held back. -/
theorem sample_permanent :
    Sample.genesis.number = 0 ∧
    Chain.Reachable Sample.genesis (Chain.ofGenesis Sample.genesis) ∧
    (Chain.ofGenesis Sample.genesis).Extends History.sample.chain ∧
    Sample.validator.validate History.sample.chain ValueTransfer.executor () Sample.ledger
        Sample.block Sample.genesis 5000 =
      Sample.validator.validate (Chain.ofGenesis Sample.genesis) ValueTransfer.executor ()
        Sample.ledger Sample.block Sample.genesis 1000 ∧
    ¬FutureBlock (Sample.validator.validate History.sample.chain ValueTransfer.executor ()
      Sample.ledger Sample.block Sample.genesis 1000) := by
  have hreachable : Chain.Reachable Sample.genesis (Chain.ofGenesis Sample.genesis) :=
    Relation.ReflTransGen.refl
  have hextends : (Chain.ofGenesis Sample.genesis).Extends History.sample.chain :=
    History.sample_run.reachable
  obtain ⟨fetches, hverdict⟩ := Sample.validates
  have hearly : FutureBlock (Sample.validator.validate (Chain.ofGenesis Sample.genesis)
      ValueTransfer.executor () Sample.ledger Sample.block Sample.genesis 0) :=
    validate_future_iff.mpr ⟨rfl, ⟨by decide, by decide, by decide⟩, by unfold Early; decide⟩
  refine ⟨History.sample_number, hreachable, hextends, ?_, ?_⟩
  · refine (verdict_permanent History.sample_number hreachable hextends (by decide) _ _ _ _ _ _).1
      ?_ ?_
    · rintro ⟨timestamp, n, fetches', h⟩
      rw [hverdict] at h
      exact absurd h (by simp)
    · rintro ⟨id, fetches', h⟩
      rw [hverdict] at h
      exact absurd h (by simp)
  · rw [(verdict_permanent History.sample_number hreachable hextends (UInt64.le_refl 0) _ _ _ _ _
      _).2 hearly]
    decide

end Validator

end ProofOfAuthority

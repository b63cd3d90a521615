import ProofOfAuthority.Proofs.Checks
import ProofOfAuthority.Proofs.GasBand
import ProofOfAuthority.Proofs.Lookup
import ProofOfAuthority.Proofs.Production
import ProofOfAuthority.Proofs.Transfers

/-!
# What the header rules say of an ancestry

Each check of validation compares a block with its parent, as the caller names it. In a chain to
which only blocks are added that passed on top of the stored header of their parent (`Vetted`) the
checks add up along every path: each step back is at least one interval earlier and lowers the
score, which therefore never saturates. The signer of a block is active in the ledger after it,
since no change of activity concerns the signer but the one that makes it active, and transactions
change nothing but balances.

* `Passes.follows` — one step: what validation establishes between a block and its parent.
* `Vetted.passes` — every block that was added has passed, on top of what is stored for its parent.
* `Back.descends` — a path: time and score over any number of steps.
* `Vetted.lineage` — all of it, for a block and any ancestor of it.
-/

namespace ProofOfAuthority

namespace ValueTransfer

/-- **Transactions register nobody and change nobody's activity.** -/
theorem executeAll_candidates {context : BlockContext} {l l' : Ledger} {txs : List Transaction}
    {receipts : List Receipt} {m : Unit}
    (h : executor.executeAll context () l txs = .ok (m, l', receipts)) :
    l'.candidates = l.candidates := by
  induction txs generalizing l receipts with
  | nil =>
    obtain ⟨-, hrest⟩ := Prod.mk.inj (Except.ok.inj h)
    rw [← (Prod.mk.inj hrest).1]
  | cons tx rest ih =>
    obtain ⟨_, next, r, tail, hexec, hrest, -⟩ := Executor.executeAll_cons.mp h
    obtain hexec : execute l context tx = ⟨next, .ok r⟩ := congrArg Prod.snd hexec
    obtain ⟨b, hb⟩ := execute_ledger l context tx
    rw [hexec] at hb
    rw [ih hrest, show next = _ from hb]

end ValueTransfer

/-- A block that passed, with what its replay made. -/
structure Passed where
  block : Block
  replayed : Replayed
  deriving DecidableEq

/-- The header follows its parent's, and the receipts go with it. -/
structure Header.Follows (header : Header) (p : Protocol) (parent : Header)
    (receipts : List Receipt) : Prop where
  slot : ∃ steps, 1 ≤ steps ∧
    header.timestamp.toNat = parent.timestamp.toNat + steps * p.blockInterval.toNat
  score : parent.totalScore.toNat + 1 ≤ header.totalScore.toNat
  band : GasLimit.InBand p header.gasLimit
  rise : header.gasLimit.toNat ≤ parent.gasLimit.toNat + GasLimit.step p parent.gasLimit
  fall : parent.gasLimit.toNat ≤ header.gasLimit.toNat + GasLimit.step p parent.gasLimit
  gasUsed_le : header.gasUsed ≤ header.gasLimit
  gasUsed_eq : header.gasUsed.toNat = min maxWord (receipts.map fun r => r.gasUsed.toNat).sum

/-- The signer of the header is an active candidate of the ledger. -/
def Header.SignerActive (header : Header) (l : Ledger) : Prop :=
  ∃ candidate ∈ l.candidates, header.signer = .ok candidate.signer ∧ candidate.active = true

/-- A slot after the parent's is a positive number of intervals later. -/
theorem InSlot.exists_steps {p : Protocol} {header parent : Header} (h : InSlot p header parent) :
    ∃ steps, 1 ≤ steps ∧
      header.timestamp.toNat = parent.timestamp.toNat + steps * p.blockInterval.toNat := by
  obtain ⟨hafter, -, hgrid⟩ := h
  exact (Rotation.on_grid_iff hafter).mp hgrid

/-- **What validation establishes** between a block and its parent, and of its signer. -/
theorem Validator.validate_follows {v : Validator} (hp : v.protocol.Valid) {seen : Chain}
    {ledger : Ledger} {block : Block} {parent : Header} {now : UInt64} {replayed : Replayed}
    (h : v.validate seen ValueTransfer.executor () ledger block parent now = .ok replayed) :
    block.header.Follows v.protocol parent replayed.receipts ∧
      block.header.SignerActive replayed.ledger := by
  obtain ⟨prepared, hprepare, hreplay⟩ := validate_ok_iff.mp h
  obtain ⟨-, hheader, hproposer, -⟩ := prepare_ok_iff.mp hprepare
  obtain ⟨hslot, -, hfollows, hgas, hscore⟩ := checkHeader_ok_iff.mp hheader
  obtain ⟨hband, hrise, hfall⟩ := (GasLimit.follows_eq_true_iff hp).mp hfollows
  obtain ⟨signer, rotation, hsigner, hrotation, -, -, hupdates⟩ := checkProposer_ok_iff.mp hproposer
  obtain ⟨-, m, -, hexec, hcommits⟩ := replay_sound hreplay
  refine ⟨⟨hslot.exists_steps, UInt64.lt_iff_toNat_lt.mp hscore, hband, hrise, hfall, hgas, ?_⟩, ?_⟩
  · rw [hcommits.gasUsed, toNat_gasTotal]
  · obtain ⟨candidate, hmem, hself, hactive⟩ :=
      Ledger.signer_active_of_rotation hrotation hupdates
    refine ⟨candidate, ?_, by rw [hsigner, hself], hactive⟩
    rwa [ValueTransfer.executeAll_candidates hexec]

namespace Chain

/-- `a` is met `k` steps back from `d`. -/
inductive Back (c : Chain) : (k : Nat) → (d a : BlockId) → Prop
  | here {d : BlockId} : Back c 0 d d
  | step {k : Nat} {d p a : BlockId} : c.Parent d p → Back c k p a → Back c (k + 1) d a

/-- The block passes on top of the header that `c` stores for its parent, over some chain and some
ledger, at some time. -/
def Passes (v : Validator) (c : Chain) (e : Passed) : Prop :=
  ∃ (seen : Chain) (ledger : Ledger) (parent : Header) (now : UInt64),
    c.header? e.block.header.parentId = some parent ∧
      v.validate seen ValueTransfer.executor () ledger e.block parent now = .ok e.replayed

/-- The chain to which only blocks are added that passed, with those that it stores, in order. -/
inductive Vetted (v : Validator) (genesis : Header) : List Passed → Chain → Prop
  | start : Vetted v genesis [] (ofGenesis genesis)
  | add {log : List Passed} {c c' : Chain} {e : Passed} : Vetted v genesis log c →
      Passes v c e → c.add e.block e.replayed.receipts = .ok c' →
        Vetted v genesis (if c.contains e.block.header.id then log else log ++ [e]) c'

variable {v : Validator} {genesis : Header} {log : List Passed} {c c' : Chain} {e : Passed}
  {a b d : BlockId} {s t : StoredBlock} {k : Nat}

/-- The ancestors of a block are those that some number of steps back meets. -/
theorem ancestor_iff_back : c.Ancestor a d ↔ ∃ k, c.Back k d a := by
  constructor
  · intro h
    induction h using Relation.ReflTransGen.head_induction_on with
    | refl => exact ⟨0, .here⟩
    | head hp _ ih =>
      obtain ⟨k, hk⟩ := ih
      exact ⟨k + 1, .step hp hk⟩
  · rintro ⟨k, hk⟩
    induction hk with
    | here => exact Relation.ReflTransGen.refl
    | step hp _ ih => exact Relation.ReflTransGen.head hp ih

/-! ## The chain of blocks that passed -/

/-- What was added of a block that passed. -/
def addition (e : Passed) : Addition := ⟨e.block, e.replayed.receipts⟩

theorem Vetted.logged (h : Vetted v genesis log c) : Logged genesis (log.map addition) c := by
  induction h with
  | start => exact Logged.start
  | @add log c c' e _ _ hadd ih =>
    have hlog := ih.add (a := addition e) hadd
    by_cases hstored : c.contains e.block.header.id = true
    · rw [if_pos hstored]
      rwa [if_pos (show c.contains (addition e).id = true from hstored)] at hlog
    · rw [if_neg hstored, List.map_append, List.map_singleton]
      rwa [if_neg (show ¬c.contains (addition e).id = true from hstored)] at hlog

theorem Passes.extends (h : Passes v c e) (hext : c.Extends c') : Passes v c' e := by
  obtain ⟨seen, ledger, parent, now, hparent, hvalid⟩ := h
  obtain ⟨s, hs, -⟩ := Option.map_eq_some_iff.mp hparent
  refine ⟨seen, ledger, parent, now, ?_, hvalid⟩
  rwa [header?, hext.find?_eq (contains_iff.mpr ⟨s, hs⟩)]

/-- **Every block that was added has passed**, on top of what is stored for its parent. -/
theorem Vetted.passes (h : Vetted v genesis log c) (he : e ∈ log) : Passes v c e := by
  induction h with
  | start => cases he
  | @add log c c' next _ hpasses hadd ih =>
    have hext : c.Extends c' :=
      Relation.ReflTransGen.single ⟨next.block, next.replayed.receipts, hadd⟩
    by_cases hstored : c.contains next.block.header.id = true
    · rw [if_pos hstored] at he
      exact (ih he).extends hext
    · rw [if_neg hstored, List.mem_append, List.mem_singleton] at he
      rcases he with he | rfl
      · exact (ih he).extends hext
      · exact hpasses.extends hext

/-- No two of the blocks that were added have one id. -/
theorem Vetted.eq_of_id_eq (h : Vetted v genesis log c) {e' : Passed} (he : e ∈ log)
    (he' : e' ∈ log) (hid : e.block.header.id = e'.block.header.id) : e = e' := by
  have hnodup := h.logged.reachable.wellFormed.nodup
  rw [h.logged.ids_eq, List.map_map] at hnodup
  exact List.inj_on_of_nodup_map (List.nodup_cons.mp hnodup).2 he he' hid

/-- **One step back**, from a stored block to its parent. -/
theorem Vetted.follows (hp : v.protocol.Valid) (h : Vetted v genesis log c)
    (hparent : c.Parent d b) (hs : c.find? d = some s) : ∃ t e, c.find? b = some t ∧
      e ∈ log ∧ e.block.header = s.header ∧ e.replayed.receipts = s.receipts ∧
      s.header.parentId = b ∧ s.header.Follows v.protocol t.header s.receipts ∧
      s.header.SignerActive e.replayed.ledger := by
  obtain ⟨hne, s', hs', rfl⟩ := hparent
  obtain rfl := Option.some_inj.mp (hs.symm.trans hs')
  rcases h.logged.find?_eq_some_iff.mp hs with ⟨rfl, -⟩ | ⟨a, ha, -, ids, -, rfl⟩
  · exact absurd (Extends.genesisId_eq h.logged.reachable).symm hne
  · obtain ⟨e, he, rfl⟩ := List.mem_map.mp ha
    obtain ⟨seen, ledger, parent, now, hfound, hvalid⟩ := h.passes he
    obtain ⟨t, ht, rfl⟩ := Option.map_eq_some_iff.mp hfound
    obtain ⟨hfollows, hactive⟩ := Validator.validate_follows hp hvalid
    exact ⟨t, e, ht, he, rfl, rfl, rfl, hfollows, hactive⟩

/-! ## Paths -/

/-- **Any number of steps back**: each goes back by one interval or more, and lowers the score. -/
theorem Back.descends (hp : v.protocol.Valid) (h : Vetted v genesis log c) (hback : c.Back k d a)
    (hs : c.find? d = some s) (ht : c.find? a = some t) :
    (∃ steps, k ≤ steps ∧ s.header.timestamp.toNat =
      t.header.timestamp.toNat + steps * v.protocol.blockInterval.toNat) ∧
      t.header.totalScore.toNat + k ≤ s.header.totalScore.toNat := by
  induction hback generalizing s with
  | here =>
    obtain rfl := Option.some_inj.mp (hs.symm.trans ht)
    exact ⟨⟨0, Nat.le_refl 0, by omega⟩, by omega⟩
  | step hparent _ ih =>
    obtain ⟨next, _, hnext, -, -, -, -, hfollows, -⟩ := h.follows hp hparent hs
    obtain ⟨⟨rest, hrest, htime⟩, hscore⟩ := ih hnext ht
    obtain ⟨steps, hsteps, hslot⟩ := hfollows.slot
    have hlower := hfollows.score
    refine ⟨⟨rest + steps, by omega, ?_⟩, by omega⟩
    rw [Nat.add_mul]
    omega

/-- **The lineage of a block obeys the header rules.** In a `Vetted` chain an ancestor `k` steps
`Back` is at least `k` intervals earlier and `k` lower in score; the gas limit and the gas used are
in their bounds, and the signer is active in the ledger of the block (`SignerActive`). -/
theorem Vetted.lineage (hp : v.protocol.Valid) (h : Vetted v genesis log c)
    (hs : c.find? d = some s) (ht : c.find? a = some t) (hk : 1 ≤ k) (hback : c.Back k d a) :
    (∃ steps, k ≤ steps ∧ s.header.timestamp.toNat =
      t.header.timestamp.toNat + steps * v.protocol.blockInterval.toNat) ∧
    t.header.totalScore.toNat + k ≤ s.header.totalScore.toNat ∧
    (v.protocol.minGasLimit ≤ s.header.gasLimit ∧ s.header.gasLimit ≤ v.protocol.maxGasLimit) ∧
    (∃ parent, c.header? s.header.parentId = some parent ∧
      s.header.gasLimit.toNat ≤ parent.gasLimit.toNat +
        parent.gasLimit.toNat / v.protocol.gasLimitBoundDivisor.toNat ∧
      parent.gasLimit.toNat ≤ s.header.gasLimit.toNat +
        parent.gasLimit.toNat / v.protocol.gasLimitBoundDivisor.toNat) ∧
    s.header.gasUsed ≤ s.header.gasLimit ∧
    s.header.gasUsed.toNat = min (2 ^ 64 - 1) (s.receipts.map fun r => r.gasUsed.toNat).sum ∧
    ∃ e ∈ log, e.block.header = s.header ∧ e.replayed.receipts = s.receipts ∧
      (∀ e' ∈ log, e'.block.header.id = d → e' = e) ∧
      s.header.SignerActive e.replayed.ledger := by
  obtain ⟨htime, hscore⟩ := hback.descends hp h hs ht
  cases hback with
  | here => omega
  | @step _ _ b _ hparent _ =>
    obtain ⟨next, e, hnext, he, hheader, hreceipts, rfl, hfollows, hactive⟩ :=
      h.follows hp hparent hs
    refine ⟨htime, hscore, ⟨UInt64.le_iff_toNat_le.mpr hfollows.band.1,
      UInt64.le_iff_toNat_le.mpr hfollows.band.2⟩, ⟨next.header, ?_, hfollows.rise, hfollows.fall⟩,
      hfollows.gasUsed_le, hfollows.gasUsed_eq, e, he, hheader, hreceipts, ?_, hactive⟩
    · rw [header?, hnext, Option.map_some]
    · intro e' he' hid
      obtain ⟨hmem, rfl⟩ := find?_eq_some hs
      refine h.eq_of_id_eq he' he ?_
      rw [hid, hheader, h.logged.reachable.wellFormed.id_eq s hmem]

end Chain

namespace Sample

open Chain

/-- The sample block as it passed. -/
def passed (fetches : Nat) : Passed :=
  ⟨block, ⟨ledger.markParent genesis.id, [receipt, receipt], fetches⟩⟩

theorem vetted : ∃ fetches, Vetted validator genesis [passed fetches] History.sample.chain := by
  obtain ⟨fetches, hvalid⟩ := validates
  have hfresh : (ofGenesis genesis).contains block.header.id = false := by
    simp [contains, find?, ofGenesis, History.sample_ne_genesis.symm]
  have hparent : (ofGenesis genesis).contains genesis.id = true :=
    contains_iff.mpr ⟨_, find?_genesis genesis⟩
  have hpasses : Passes validator (ofGenesis genesis) (passed fetches) := by
    refine ⟨ofGenesis genesis, ledger, genesis, 1000, ?_, hvalid⟩
    exact congrArg (Option.map _) (find?_genesis genesis)
  have hadd := Vetted.start.add hpasses
    (add_of_fits includable.txIds_eq ⟨rfl, hfresh, hparent, rfl⟩)
  rw [if_neg (by rw [show (passed fetches).block = block from rfl, hfresh]; simp)] at hadd
  exact ⟨fetches, hadd⟩

/-- The sample block comes one interval after genesis, and its signer is active after it. -/
theorem block_lineage : validator.protocol.Valid ∧ ∃ fetches s,
    Vetted validator genesis [passed fetches] History.sample.chain ∧
      History.sample.chain.find? block.header.id = some s ∧
      History.sample.chain.find? genesis.id = some ⟨genesis.id, genesis, [], []⟩ ∧
      History.sample.chain.Back 1 block.header.id genesis.id ∧
      genesis.totalScore.toNat + 1 ≤ s.header.totalScore.toNat ∧
      ∃ e ∈ [passed fetches], s.header.SignerActive e.replayed.ledger := by
  obtain ⟨fetches, hvetted⟩ := vetted
  have hgenesis := hvetted.logged.find?_genesis
  obtain ⟨s, hs, hkeeps⟩ := hvetted.logged.exists_stored List.mem_cons_self
  have hfound := hvetted.logged.find?_eq_some_iff.mpr
    (Or.inr ⟨_, List.mem_cons_self, rfl, hkeeps⟩)
  have hback : History.sample.chain.Back 1 block.header.id genesis.id := by
    refine .step ⟨?_, s, hfound, ?_⟩ .here
    · exact History.sample_ne_genesis
    · obtain ⟨ids, -, rfl⟩ := hkeeps
      rfl
  obtain ⟨-, hscore, -, -, -, -, e, he, -, -, -, hactive⟩ :=
    hvetted.lineage extendable.valid hfound hgenesis (Nat.le_refl 1) hback
  exact ⟨extendable.valid, fetches, s, hvetted, hfound, hgenesis, hback, hscore, e, he, hactive⟩

end Sample

end ProofOfAuthority

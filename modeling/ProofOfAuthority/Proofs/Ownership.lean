import ProofOfAuthority.Proofs.LedgerRoot
import ProofOfAuthority.Proofs.Production

/-!
# Every slot has one active owner

A rotation is seen by one signer: it is in it even when it is not active, so two signers may well
work out different rotations. Active signers never do, whoever else is listed: to each of them the
participants are the active proposers in list order. So all of them draw the same owner for a slot,
and only one of them finds the slot its own.

* `participants_of_active`, `Rotation.ofSigner_active` — the rotation of an active signer.
* `exists_slot_owner` — one active proposer owns the slot in the eyes of all of them.
* `one_owner_per_slot` — what that means for headers of one slot.
-/

namespace ProofOfAuthority

variable {p : Protocol} {ps : List Proposer} {q : Proposer} {number : UInt32}
  {parentTime time : UInt64}

/-- **To an active signer the participants are the active proposers**, in list order. -/
theorem participants_of_active (hdistinct : (ps.map Proposer.address).Nodup) (hq : q ∈ ps)
    (hactive : q.active = true) : participants q.address ps = ps.filter (·.active) := by
  induction ps with
  | nil => cases hq
  | cons first rest ih =>
    obtain ⟨hnew, hrest⟩ := List.nodup_cons.mp hdistinct
    rcases List.mem_cons.mp hq with rfl | hq
    · -- nobody further on has the signer's address
      have hsame : rest.filter (fun p => p.active && p.address ≠ q.address) =
          rest.filter (·.active) := by
        apply List.filter_congr
        intro p hp
        have hne : p.address ≠ q.address := fun h => hnew (h ▸ List.mem_map_of_mem hp)
        simp [hne]
      rw [participants, if_pos rfl, hsame, List.filter_cons_of_pos hactive]
    · have hne : first.address ≠ q.address := fun h => hnew (h ▸ List.mem_map_of_mem hq)
      rw [participants, if_neg hne, ih hrest hq]
      by_cases hfirst : first.active = true
      · rw [if_pos hfirst, List.filter_cons_of_pos hfirst]
      · rw [if_neg hfirst, List.filter_cons_of_neg hfirst]

namespace Rotation

variable {r : Rotation}

/-- An active proposer has a rotation, and it differs from that of another one in the signer
only. -/
theorem ofSigner_active (hdistinct : (ps.map Proposer.address).Nodup) (hq : q ∈ ps)
    (hactive : q.active = true) (p : Protocol) (number : UInt32) (parentTime : UInt64) :
    ∃ r, ofSigner p q.address ps number parentTime = .ok r ∧ r.self = q ∧
      r.actives = ps.filter (·.active) ∧ r.parentNumber = number ∧ r.parentTime = parentTime ∧
      r.interval = p.blockInterval := by
  unfold ofSigner
  split
  · rename_i hnone
    exact absurd (List.find?_eq_none.mp hnone q hq) (by simp)
  · rename_i self hself
    have haddress : self.address = q.address := by simpa using List.find?_some hself
    have heq : self = q :=
      List.inj_on_of_nodup_map hdistinct (List.mem_of_find?_eq_some hself) hq haddress
    exact ⟨_, rfl, heq, participants_of_active hdistinct hq hactive, rfl, rfl, rfl⟩

/-- The owner of a slot is the participant at the place that is drawn. -/
theorem owner_of_getElem? {t : Nat}
    (h : r.actives[draw r.parentNumber t % r.actives.length]? = some q) :
    r.owner t = q.address := by
  obtain ⟨hlt, rfl⟩ := List.getElem?_eq_some_iff.mp h
  rfl

/-- On the grid the signer owns the slot exactly if the owner has its address. -/
theorem ownsSlot_on_grid (hafter : r.parentTime < time) (hinterval : r.interval ≠ 0)
    (hgrid : (time - r.parentTime) % r.interval = 0) :
    r.ownsSlot time = .ok (decide (r.owner time.toNat = r.self.address)) := by
  rw [ownsSlot, if_neg (UInt64.not_le.mpr hafter), if_neg hinterval, if_neg (not_not.mpr hgrid)]

end Rotation

/-- **One active proposer owns the slot** in the eyes of all active proposers: each of them finds
the slot its own exactly if it is that one. -/
theorem exists_slot_owner (hp : p.Valid) (hdistinct : (ps.map Proposer.address).Nodup)
    (hsome : ∃ q ∈ ps, q.active = true) (hafter : parentTime < time)
    (hgrid : (time - parentTime) % p.blockInterval = 0) (number : UInt32) :
    ∃ owner ∈ ps, owner.active = true ∧ ∀ q ∈ ps, q.active = true →
      ∃ r, Rotation.ofSigner p q.address ps number parentTime = .ok r ∧
        r.ownsSlot time = .ok (decide (q = owner)) := by
  obtain ⟨q, hq, hactive⟩ := hsome
  have hpos : 0 < (ps.filter (·.active)).length :=
    List.length_pos_of_mem (List.mem_filter.mpr ⟨hq, hactive⟩)
  have hlt : Rotation.draw number time.toNat % (ps.filter (·.active)).length <
      (ps.filter (·.active)).length := Nat.mod_lt _ hpos
  obtain ⟨owner, howner⟩ : ∃ owner, (ps.filter (·.active))[Rotation.draw number time.toNat %
      (ps.filter (·.active)).length]? = some owner := ⟨_, List.getElem?_eq_getElem hlt⟩
  obtain ⟨hmem, hown⟩ := List.mem_filter.mp (List.mem_of_getElem? howner)
  refine ⟨owner, hmem, hown, ?_⟩
  intro q hq hactive
  obtain ⟨r, hr, hself, hactives, hnumber, hparent, hinterval⟩ :=
    Rotation.ofSigner_active hdistinct hq hactive p number parentTime
  refine ⟨r, hr, ?_⟩
  have hdrawn : r.owner time.toNat = owner.address := by
    apply Rotation.owner_of_getElem?
    rw [hactives, hnumber]
    exact howner
  have hpositive : r.interval ≠ 0 := by
    rw [hinterval]
    exact UInt64.pos_iff_ne_zero.mp hp.interval
  rw [Rotation.ownsSlot_on_grid (hparent ▸ hafter) hpositive (by rw [hparent, hinterval, hgrid]),
    hdrawn, hself]
  -- addresses are distinct, so it makes no difference which of the two is compared
  have hiff : owner.address = q.address ↔ q = owner :=
    ⟨fun h => List.inj_on_of_nodup_map hdistinct hq hmem h.symm, fun h => h ▸ rfl⟩
  simp only [hiff]

theorem Ledger.map_address_proposers (l : Ledger) :
    (l.proposers.map Proposer.address).Sublist l.signers := by
  have hmap : l.proposers.map Proposer.address =
      (l.candidates.filter fun c =>
        l.param ParamKey.proposerEndorsement ≤ l.balance c.endorsor).map Candidate.signer := by
    rw [proposers, List.map_map]
    rfl
  rw [hmap]
  exact List.filter_sublist.map Candidate.signer

/-- An active candidate that has a rotation is an active proposer. -/
theorem Ledger.mem_proposers_of_ofSigner {l : Ledger} {c : Candidate} {r : Rotation}
    (hdistinct : l.signers.Nodup) (hc : c ∈ l.candidates)
    (h : Rotation.ofSigner p c.signer l.proposers number parentTime = .ok r) :
    c.proposer ∈ l.proposers := by
  have haddress := (Rotation.ofSigner_ok h).1
  have hself := (Rotation.ofSigner_ok h).2.1.subset r.mem_actives
  obtain ⟨d, hd, hproposer⟩ := List.mem_map.mp hself
  have hsigner : d.signer = c.signer := by
    rw [← haddress, ← hproposer]
    rfl
  have heq : d = c := List.inj_on_of_nodup_map hdistinct (List.mem_filter.mp hd).1 hc hsigner
  rw [← heq, hproposer]
  exact hself

/-- **A slot has one active owner**, if addresses are distinct and somebody is active. So headers
for one slot that pass `checkProposer` on one `Reachable` ledger, signed by active candidates, have
one signer. -/
theorem one_owner_per_slot (hp : p.Valid) :
    (∀ (ps : List Proposer) (number : UInt32) (parentTime time : UInt64),
      (ps.map Proposer.address).Nodup → (∃ q ∈ ps, q.active = true) → parentTime < time →
      (time - parentTime) % p.blockInterval = 0 →
      ∃! q, q ∈ ps ∧ q.active = true ∧
        ∃ r, Rotation.ofSigner p q.address ps number parentTime = .ok r ∧
          r.ownsSlot time = .ok true) ∧
    ∀ (l : Ledger) (parent h h' : Header) (updated updated' : Ledger), l.Reachable →
      checkProposer p l h parent = .ok updated → checkProposer p l h' parent = .ok updated' →
      h.timestamp = h'.timestamp →
      (∃ c ∈ l.candidates, c.active = true ∧ h.signer = .ok c.signer) →
      (∃ c ∈ l.candidates, c.active = true ∧ h'.signer = .ok c.signer) →
      h.signer = h'.signer := by
  refine ⟨?_, ?_⟩
  · intro ps number parentTime time hdistinct hsome hafter hgrid
    obtain ⟨owner, hmem, hactive, hall⟩ :=
      exists_slot_owner hp hdistinct hsome hafter hgrid number
    refine ⟨owner, ⟨hmem, hactive, ?_⟩, ?_⟩
    · simpa using hall owner hmem hactive
    · rintro q ⟨hq, hqactive, r, hr, howns⟩
      obtain ⟨r', hr', howns'⟩ := hall q hq hqactive
      obtain rfl : r = r' := Except.ok.inj (hr.symm.trans hr')
      simpa using howns'.symm.trans howns
  · rintro l parent h h' updated updated' ⟨writes, rfl⟩ hcheck hcheck' htime
      ⟨c, hc, hactive, hsigner⟩ ⟨c', hc', hactive', hsigner'⟩
    have hdistinct := Ledger.nodup_signers_ofWrites writes
    obtain ⟨a, r, ha, hr, howns, -, -⟩ := checkProposer_ok_iff.mp hcheck
    obtain ⟨a', r', ha', hr', howns', -, -⟩ := checkProposer_ok_iff.mp hcheck'
    obtain rfl : c.signer = a := Except.ok.inj (hsigner.symm.trans ha)
    obtain rfl : c'.signer = a' := Except.ok.inj (hsigner'.symm.trans ha')
    have hmem := Ledger.mem_proposers_of_ofSigner hdistinct hc hr
    have hmem' := Ledger.mem_proposers_of_ofSigner hdistinct hc' hr'
    obtain ⟨-, -, hparent, hinterval⟩ := Rotation.ofSigner_ok hr
    obtain ⟨hafter, -, hgrid, -⟩ := Rotation.ownsSlot_eq_true_iff.mp howns
    rw [hparent] at hafter hgrid
    rw [hinterval] at hgrid
    obtain ⟨owner, -, -, hall⟩ := exists_slot_owner hp
      (hdistinct.sublist (Ledger.map_address_proposers _)) ⟨_, hmem, hactive⟩ hafter hgrid
      parent.number
    -- both signers own the slot, so both are its owner
    have hfind : ∀ d : Candidate, d.proposer ∈ (Ledger.ofWrites writes).proposers →
        d.active = true → ∀ r, Rotation.ofSigner p d.signer (Ledger.ofWrites writes).proposers
          parent.number parent.timestamp = .ok r → r.ownsSlot h.timestamp = .ok true →
          d.proposer = owner := by
      intro d hd hdactive r hr howns
      obtain ⟨r', hr', howns'⟩ := hall d.proposer hd hdactive
      obtain rfl : r = r' := Except.ok.inj (hr.symm.trans hr')
      simpa using howns'.symm.trans howns
    have heq := hfind c hmem hactive r hr howns
    have heq' := hfind c' hmem' hactive' r' hr' (htime ▸ howns')
    have hsame : c.signer = c'.signer := congrArg Proposer.address (heq.trans heq'.symm)
    rw [hsigner, hsigner', hsame]

namespace Sample

/-- Three proposers, the second of them not active. -/
def listed : List Proposer :=
  [⟨Bytes.ofNat 1, true⟩, ⟨Bytes.ofNat 2, false⟩, ⟨Bytes.ofNat 3, true⟩]

/-- The header of the sample block with the recovery byte of its signature in the other spelling. -/
def respelled : Header :=
  { block.header with signature := { block.header.signature with v := 28 } }

theorem respelled_signer : respelled.signer = .ok signer := by
  have hhash : respelled.signingHash = block.header.signingHash := by
    simp only [respelled, Header.signingHash, Header.signingBytes]
  have hsame : respelled.signature.signer block.header.signingHash =
      block.header.signature.signer block.header.signingHash := by
    have hodd : Signature.parity? block.header.signature.v = some true := by decide
    apply Signature.signer_eq_of_parity _ _ _ hodd
    · simp only [respelled]
    · simp only [respelled]
    · decide
  rw [Header.signer, hhash, hsame, ← Header.signer, header_signer]

/-- The signer of the sample block has its slot, whatever the signature. -/
theorem proposer_passes {h : Header} (hsigner : h.signer = .ok signer)
    (htime : h.timestamp = 1010) (hscore : h.totalScore = 1) :
    checkProposer Protocol.standard ledger h genesis = .ok ledger := by
  refine checkProposer_ok_iff.mpr ⟨signer, rotation, hsigner, turn.rotation_eq, ?_, ?_, ?_⟩
  · rw [htime]
    exact turn.owns
  · rw [htime, hscore]
    decide
  · rw [htime]
    rfl

/-- One of the active proposers owns the second slot after the parent. And the sample block has one
signer in both spellings. -/
theorem sample_slot_owner :
    Protocol.standard.Valid ∧
    (∃! q, q ∈ listed ∧ q.active = true ∧
      ∃ r, Rotation.ofSigner Protocol.standard q.address listed 10 1000 = .ok r ∧
        r.ownsSlot 1020 = .ok true) ∧
    block.header ≠ respelled ∧ block.header.signer = respelled.signer := by
  have hbytes : block.header.signature.v ≠ respelled.signature.v := by decide
  refine ⟨extendable.valid, ?_, fun h => hbytes (congrArg (·.signature.v) h), ?_⟩
  · exact (one_owner_per_slot extendable.valid).1 listed 10 1000 1020 (by decide)
      ⟨_, List.mem_cons_self, rfl⟩ (by decide) (by decide)
  · exact (one_owner_per_slot extendable.valid).2 ledger genesis block.header respelled ledger
      ledger ⟨[.candidate ⟨signer, Bytes.zero, Bytes.zero, true⟩], rfl⟩
      (proposer_passes header_signer rfl rfl) (proposer_passes respelled_signer rfl rfl) rfl
      ⟨_, List.mem_cons_self, rfl, header_signer⟩ ⟨_, List.mem_cons_self, rfl, respelled_signer⟩

end Sample

end ProofOfAuthority

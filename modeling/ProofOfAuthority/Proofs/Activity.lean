import Mathlib.Data.List.Forall2
import ProofOfAuthority.Proofs.LedgerRoot
import ProofOfAuthority.Proofs.Machine
import ProofOfAuthority.Proofs.Production

/-!
# What the proposer check writes

The check of a proposer ends in changes of activity, written to the registry one by one, and any of
these writes could fail for want of a candidate. In place (`proposeInPlace`) a failure half-way
would leave the changes before it behind. It cannot come to that: the changes concern participants
of the rotation, participants are registered, and writing activity registers and removes nobody.

What is written is a function of each candidate alone: the signer becomes active, the owners of
skipped slots become inactive, all others keep their flag. Since no two candidates share a signer,
this holds of every candidate, not just of the first with its signer.

* `activateAll_eq_map` — changes of activity, candidate by candidate.
* `Rotation.effect_markedAll` — what the changes of one block do to a candidate.
* `run_proposeInPlace` — the check in place does what `checkProposer` does, and leaves the ledger
  alone if it fails.
* `proposer_effect` — the effect of the check, in full.
-/

namespace ProofOfAuthority

/-! ## Changes of activity, candidate by candidate -/

/-- The candidate after a change of activity, which may concern another. -/
def Candidate.marked (c : Candidate) (u : Proposer) : Candidate :=
  if c.signer = u.address then { c with active := u.active } else c

/-- The candidate after changes of activity, in order. -/
def Candidate.markedAll (c : Candidate) (updates : List Proposer) : Candidate :=
  updates.foldl Candidate.marked c

theorem Candidate.signer_marked (c : Candidate) (u : Proposer) :
    (c.marked u).signer = c.signer := by
  unfold marked
  split <;> rfl

theorem activate_eq_map {cs : List Candidate} (hdistinct : (cs.map Candidate.signer).Nodup)
    (u : Proposer) : activate u.address u.active cs = cs.map (·.marked u) := by
  induction cs with
  | nil => rfl
  | cons c rest ih =>
    rw [List.map_cons, List.nodup_cons] at hdistinct
    rw [activate, List.map_cons, Candidate.marked]
    by_cases hc : c.signer = u.address
    · -- the signer is not registered again further on
      have hrest : ∀ d ∈ rest, d.marked u = d := by
        intro d hd
        refine if_neg ?_
        rintro heq
        exact hdistinct.1 (hc.trans heq.symm ▸ List.mem_map_of_mem hd)
      rw [if_pos hc, if_pos hc, List.map_congr_left hrest, List.map_id']
    · rw [if_neg hc, if_neg hc, ih hdistinct.2]

/-- **Changes of activity, candidate by candidate**, if no two have one signer. -/
theorem activateAll_eq_map {cs : List Candidate} (hdistinct : (cs.map Candidate.signer).Nodup)
    (updates : List Proposer) : activateAll updates cs = cs.map (·.markedAll updates) := by
  induction updates generalizing cs with
  | nil => exact (List.map_id' cs).symm
  | cons u rest ih =>
    have hsigners : ((cs.map (·.marked u)).map Candidate.signer).Nodup := by
      rwa [List.map_map, show Candidate.signer ∘ (·.marked u) = Candidate.signer from
        funext fun c => c.signer_marked u]
    rw [activateAll, List.foldl_cons, activate_eq_map hdistinct, ← activateAll, ih hsigners,
      List.map_map]
    rfl

/-- A list of absent signers takes the flag from those in it and from nobody else. -/
theorem Candidate.markedAll_absent (absent : List Address) (c : Candidate) :
    c.markedAll (absent.map (⟨·, false⟩)) =
      if c.signer ∈ absent then { c with active := false } else c := by
  induction absent generalizing c with
  | nil => simp [markedAll]
  | cons a absent ih =>
    have hfirst : c.markedAll ((a :: absent).map (⟨·, false⟩)) =
        (c.marked ⟨a, false⟩).markedAll (absent.map (⟨·, false⟩)) := rfl
    rw [hfirst, ih, signer_marked]
    by_cases ha : c.signer = a
    · simp [marked, ha]
    · simp [marked, ha]

/-! ## The changes of one block -/

/-- The endorsor of the candidate holds the required balance. -/
def Ledger.Endorsed (l : Ledger) (c : Candidate) : Prop :=
  l.param ParamKey.proposerEndorsement ≤ l.balance c.endorsor

/-- What a block at `time` makes of a candidate: the signer becomes active, the owner of a skipped
slot inactive, and everybody else stays as before. -/
structure Rotation.Effect (r : Rotation) (time : UInt64) (c c' : Candidate) : Prop where
  signer : c'.signer = c.signer
  endorsor : c'.endorsor = c.endorsor
  identity : c'.identity = c.identity
  self : c.signer = r.self.address → c'.active = true
  absent : c.signer ≠ r.self.address → r.Skips time c.signer → c'.active = false
  other : c.signer ≠ r.self.address → ¬r.Skips time c.signer → c'.active = c.active

/-- **What the changes of one block do to a candidate**, where the signer's entry has the flag of
its candidate. -/
theorem Rotation.effect_markedAll (r : Rotation) (time : UInt64) {c : Candidate}
    (hself : c.signer = r.self.address → c.active = r.self.active) :
    r.Effect time c (c.markedAll (r.updates time)) := by
  have hsplit : c.markedAll (r.updates time) =
      (c.markedAll ((r.absentees time).map (⟨·, false⟩))).markedAll
        (if r.self.active then [] else [⟨r.self.address, true⟩]) :=
    List.foldl_append
  rw [hsplit, Candidate.markedAll_absent]
  by_cases hsigner : c.signer = r.self.address
  · have hpresent : c.signer ∉ r.absentees time := fun h => (of_mem_absentees h).1 hsigner
    rw [if_neg hpresent]
    by_cases hactive : r.self.active = true
    · rw [if_pos hactive]
      exact ⟨rfl, rfl, rfl, fun _ => (hself hsigner).trans hactive, absurd hsigner, absurd hsigner⟩
    · have hmarked : c.markedAll [⟨r.self.address, true⟩] = { c with active := true } :=
        if_pos hsigner
      rw [if_neg hactive, hmarked]
      exact ⟨rfl, rfl, rfl, fun _ => rfl, absurd hsigner, absurd hsigner⟩
  · -- the last change, if there is one, is the signer's own
    have hlast : ∀ d : Candidate, d.signer = c.signer →
        d.markedAll (if r.self.active then [] else [⟨r.self.address, true⟩]) = d := by
      intro d hd
      by_cases hactive : r.self.active = true
      · rw [if_pos hactive]
        rfl
      · rw [if_neg hactive]
        exact if_neg (by rwa [hd])
    by_cases hskips : r.Skips time c.signer
    · rw [if_pos (mem_absentees.mpr ⟨hsigner, hskips⟩), hlast _ (by rfl)]
      exact ⟨rfl, rfl, rfl, fun h => absurd h hsigner, fun _ _ => rfl, fun _ h => absurd hskips h⟩
    · rw [if_neg fun h => hskips (mem_absentees.mp h).2, hlast c rfl]
      exact ⟨rfl, rfl, rfl, fun h => absurd h hsigner, fun _ h => absurd h hskips, fun _ _ => rfl⟩

section

variable {p : Protocol} {l l' : Ledger} {signer : Address} {r : Rotation} {number : UInt32}
  {parentTime time : UInt64} {c : Candidate}

/-- An entry of the proposers is an endorsed candidate's. -/
theorem Ledger.exists_endorsed {q : Proposer} (h : q ∈ l.proposers) :
    ∃ c ∈ l.candidates, l.Endorsed c ∧ c.proposer = q := by
  obtain ⟨c, hc, hproposer⟩ := List.mem_map.mp h
  obtain ⟨hmem, hendorsed⟩ := List.mem_filter.mp hc
  exact ⟨c, hmem, by simpa [Endorsed] using hendorsed, hproposer⟩

/-- **A participant is endorsed**, and its entry has its flag, if no two candidates have one
signer. -/
theorem Ledger.endorsed_of_participant (hdistinct : l.signers.Nodup)
    (h : Rotation.ofSigner p signer l.proposers number parentTime = .ok r) {q : Proposer}
    (hq : q ∈ r.actives) (hc : c ∈ l.candidates) (haddress : c.signer = q.address) :
    l.Endorsed c ∧ c.active = q.active := by
  obtain ⟨d, hd, hendorsed, rfl⟩ := exists_endorsed ((Rotation.ofSigner_ok h).2.1.subset hq)
  obtain rfl : c = d := List.inj_on_of_nodup_map hdistinct hc hd haddress
  exact ⟨hendorsed, rfl⟩

/-- **The changes of a rotation**, for every candidate of the ledger it was made from. -/
theorem Ledger.applyUpdates_effect (hdistinct : l.signers.Nodup)
    (h : Rotation.ofSigner p signer l.proposers number parentTime = .ok r)
    (hupdates : l.applyUpdates (r.updates time) = .ok l') :
    ∃ cs, l' = { l with candidates := cs } ∧ List.Forall₂ (r.Effect time) l.candidates cs := by
  refine ⟨_, applyUpdates_eq hupdates, ?_⟩
  rw [activateAll_eq_map hdistinct, List.forall₂_map_right_iff, List.forall₂_same]
  intro c hc
  refine r.effect_markedAll time fun hself => ?_
  exact (endorsed_of_participant hdistinct h r.mem_actives hc hself).2

/-- A candidate that is not endorsed is neither the signer nor the owner of any slot. -/
theorem Ledger.not_concerned (hdistinct : l.signers.Nodup)
    (h : Rotation.ofSigner p signer l.proposers number parentTime = .ok r) (hc : c ∈ l.candidates)
    (hpoor : ¬l.Endorsed c) : c.signer ≠ r.self.address ∧ ¬r.Skips time c.signer := by
  have hnot : ∀ q ∈ r.actives, c.signer ≠ q.address := fun q hq haddress =>
    hpoor (endorsed_of_participant hdistinct h hq hc haddress).1
  refine ⟨hnot _ r.mem_actives, ?_⟩
  rintro ⟨slot, -, -, -, -, -, howner⟩
  obtain ⟨q, hq, haddress⟩ := List.mem_map.mp (r.owner_mem slot)
  exact hnot q hq (howner.symm.trans haddress.symm)

end

/-! ## In place -/

/-- The last loop of `Consensus::validate_proposer`: write changes of activity one by one. A failure
does not undo those before it. -/
def writeActivity : List Proposer → EStateM LedgerError Ledger Unit
  | [] => pure ()
  | u :: rest => do
    let l ← get
    match l.setActive u.address u.active with
    | .ok l' => set l'
    | .error cause => throw cause
    writeActivity rest

/-- `Consensus::validate_proposer` in place: check the proposer of a header and write the changes of
activity. -/
def proposeInPlace (p : Protocol) (header parent : Header) :
    EStateM (Failure ValidationError) Ledger Unit := do
  match header.signer with
  | .error cause => throw (.refused (.violation (.signerUnavailable .block cause)))
  | .ok signer =>
    let l ← get
    match Rotation.ofSigner p signer l.proposers parent.number parent.timestamp with
    | .error cause => throw (.refused (.violation (.invalidSigner signer cause)))
    | .ok rotation =>
      match rotation.ownsSlot header.timestamp with
      | .error cause => throw (.fault cause)
      | .ok false => throw (.refused (.violation (.timestampUnscheduled header.timestamp signer)))
      | .ok true =>
        let expected := satAdd parent.totalScore (rotation.score header.timestamp)
        if header.totalScore ≠ expected then
          throw (.refused (.violation (.totalScoreInvalid expected header.totalScore)))
        else
          EStateM.adaptExcept (fun cause => .refused (.ledger cause))
            (writeActivity (rotation.updates header.timestamp))

theorem run_writeActivity {updates : List Proposer} {l l' : Ledger}
    (h : l.applyUpdates updates = .ok l') : (writeActivity updates).run l = .ok () l' := by
  induction updates generalizing l with
  | nil =>
    rw [Except.ok.inj h]
    rfl
  | cons u rest ih =>
    obtain ⟨next, hset, hrest⟩ := bind_eq_ok_iff.mp h
    simp only [writeActivity, EStateM.run_bind, EStateM.run_get, hset]
    exact ih hrest

/-- **The check in place does what `checkProposer` does**, and leaves the ledger alone if it
fails. -/
theorem run_proposeInPlace (p : Protocol) (l : Ledger) (header parent : Header) :
    (proposeInPlace p header parent).run l =
      match checkProposer p l header parent with
      | .ok l' => .ok () l'
      | .error e => .error e l := by
  unfold proposeInPlace checkProposer
  cases header.signer with
  | error cause => rfl
  | ok signer =>
    simp only [EStateM.run_bind, EStateM.run_get]
    cases hrotation : Rotation.ofSigner p signer l.proposers parent.number parent.timestamp with
    | error cause => rfl
    | ok rotation =>
      dsimp only
      cases rotation.ownsSlot header.timestamp with
      | error cause => rfl
      | ok owns =>
        cases owns with
        | false => rfl
        | true =>
          obtain ⟨l', hupdates⟩ := Ledger.applyUpdates_of_rotation hrotation header.timestamp
          by_cases hscore : header.totalScore =
              satAdd parent.totalScore (rotation.score header.timestamp)
          · simp [hscore, Checked.ofFaulty, Checked.ofExcept, hupdates, run_writeActivity hupdates,
              bind, Except.bind]
          · simp [hscore, Checked.ofFaulty, Checked.refuse, bind, Except.bind]

/-! ## The effect -/

/-- **The effect of the proposer check.** If `proposeInPlace` fails, so does `checkProposer`, and
the ledger and its `root` are as before. If it passes, the signer is `Endorsed` and owns the slot,
and nothing changes but candidates, each by `Rotation.Effect`. -/
theorem proposer_effect {p : Protocol} {l : Ledger} (hp : p.Valid) (hl : l.Reachable)
    (header parent : Header) :
    (∀ e l', (proposeInPlace p header parent).run l = .error e l' →
      checkProposer p l header parent = .error e ∧ (∀ cause, e ≠ .fault cause) ∧ l' = l ∧
        l'.root = l.root) ∧
    ∀ l', (proposeInPlace p header parent).run l = .ok () l' →
      checkProposer p l header parent = .ok l' ∧
      ∃ signer rotation, header.signer = .ok signer ∧
        Rotation.ofSigner p signer l.proposers parent.number parent.timestamp = .ok rotation ∧
        rotation.self.address = signer ∧
        (∃ c ∈ l.candidates, c.signer = signer ∧ l.Endorsed c) ∧
        rotation.ownsSlot header.timestamp = .ok true ∧
        header.totalScore.toNat = min (2 ^ 64 - 1)
          (parent.totalScore.toNat + (rotation.score header.timestamp).toNat) ∧
        (∃ cs, l' = { l with candidates := cs } ∧
          List.Forall₂ (rotation.Effect header.timestamp) l.candidates cs) ∧
        ∀ c ∈ l.candidates, ¬l.Endorsed c →
          c.signer ≠ signer ∧ ¬rotation.Skips header.timestamp c.signer := by
  obtain ⟨writes, rfl⟩ := hl
  have hdistinct := Ledger.nodup_signers_ofWrites writes
  have hanswers := Machine.checkProposer_answers hp (Ledger.ofWrites writes) header parent
  rw [run_proposeInPlace]
  cases hcheck : checkProposer p (Ledger.ofWrites writes) header parent with
  | error e =>
    refine ⟨?_, by simp⟩
    intro e' l' h
    obtain ⟨rfl, rfl⟩ := EStateM.Result.error.inj h
    refine ⟨rfl, ?_, rfl, rfl⟩
    rintro cause rfl
    exact hanswers.ne_fault hcheck
  | ok updated =>
    refine ⟨by simp, ?_⟩
    intro l' h
    obtain ⟨-, rfl⟩ := EStateM.Result.ok.inj h
    obtain ⟨signer, rotation, hsigner, hrotation, howns, hscore, hupdates⟩ :=
      checkProposer_ok_iff.mp hcheck
    obtain ⟨rfl, hsublist, -, -⟩ := Rotation.ofSigner_ok hrotation
    obtain ⟨c, hc, hendorsed, hself⟩ :=
      Ledger.exists_endorsed (hsublist.subset rotation.mem_actives)
    refine ⟨rfl, _, rotation, hsigner, hrotation, rfl, ⟨c, hc, ?_, hendorsed⟩, howns, ?_,
      Ledger.applyUpdates_effect hdistinct hrotation hupdates, ?_⟩
    · exact congrArg Proposer.address hself
    · rw [hscore, toNat_satAdd, Nat.min_comm]
      rfl
    · intro c hc hpoor
      exact Ledger.not_concerned hdistinct hrotation hc hpoor

namespace Sample

/-- A ledger in which the signer is not active, next to an active candidate without endorsement. -/
def dormant : Ledger where
  balances := [(Bytes.ofNat 1, ⟨7, by decide⟩)]
  candidates := [⟨signer, Bytes.ofNat 1, Bytes.zero, false⟩,
    ⟨Bytes.ofNat 3, Bytes.ofNat 2, Bytes.zero, true⟩]
  params := [(ParamKey.proposerEndorsement, ⟨1, by decide⟩)]
  marker := none

/-- The same, with the signer active. -/
def awake : Ledger :=
  { dormant with
    candidates := [⟨signer, Bytes.ofNat 1, Bytes.zero, true⟩,
      ⟨Bytes.ofNat 3, Bytes.ofNat 2, Bytes.zero, true⟩] }

theorem dormant_reachable : dormant.Reachable :=
  ⟨[.balance (Bytes.ofNat 1) ⟨7, by decide⟩, .param ParamKey.proposerEndorsement ⟨1, by decide⟩,
    .candidate ⟨signer, Bytes.ofNat 1, Bytes.zero, false⟩,
    .candidate ⟨Bytes.ofNat 3, Bytes.ofNat 2, Bytes.zero, true⟩], rfl⟩

/-- The rotation of the signer alone, not active so far. -/
def solo : Rotation where
  self := ⟨signer, false⟩
  actives := [⟨signer, false⟩]
  parentNumber := 0
  parentTime := 1000
  interval := 10
  maxWalk := 101
  mem_actives := List.mem_singleton.mpr rfl

theorem dormant_awakes : checkProposer Protocol.standard dormant block.header genesis =
    .ok awake := by
  refine checkProposer_ok_iff.mpr ⟨signer, solo, header_signer, rfl, ?_, by decide, by rfl⟩
  exact Rotation.ownsSlot_eq_true_iff.mpr ⟨by decide, by decide, by decide,
    List.mem_singleton.mp (solo.owner_mem 1010)⟩

/-- The sample block awakes its signer, and the candidate without endorsement is not concerned. -/
theorem dormant_effect : Protocol.standard.Valid ∧ dormant.Reachable ∧
    (proposeInPlace Protocol.standard block.header genesis).run dormant = .ok () awake ∧
    ∃ rotation : Rotation, block.header.signer = .ok rotation.self.address ∧
      ∃ cs, awake = { dormant with candidates := cs } ∧
        List.Forall₂ (rotation.Effect block.header.timestamp) dormant.candidates cs := by
  have hrun : (proposeInPlace Protocol.standard block.header genesis).run dormant =
      .ok () awake := by
    rw [run_proposeInPlace, dormant_awakes]
  obtain ⟨-, _, rotation, hsigner, -, rfl, -, -, -, hcandidates, -⟩ :=
    (proposer_effect extendable.valid dormant_reachable block.header genesis).2 awake hrun
  exact ⟨extendable.valid, dormant_reachable, hrun, rotation, hsigner, hcandidates⟩

end Sample

end ProofOfAuthority

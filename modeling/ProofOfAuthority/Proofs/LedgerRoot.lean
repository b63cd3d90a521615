import Mathlib.Data.List.Nodup
import Mathlib.Logic.Basic
import ProofOfAuthority.Ledger
import ProofOfAuthority.Proofs.Encoding

/-!
# The root of a ledger is canonical

A root commits to what a ledger answers and to nothing else. However a ledger came about, its tables
are sorted and without zeros (`Normal`), so ledgers that answer alike hold the same entries and have
the same root. And the encoding whose digest the root is can be read back, so ledgers that do not
answer alike hash different strings.

* `Table.Normal.write`, `Ledger.normal_ofWrites` — a write keeps tables normal, and so do all.
* `Ledger.nodup_signers_ofWrites` — no two candidates have one signer.
* `Ledger.Normal.ext` — ledgers that answer alike are alike.
* `Ledger.encode_inj` — the encoding fixes the ledger.
* `Ledger.root_canonical` — both, for the ledgers that writes make.
-/

namespace ProofOfAuthority

/-! ## Tables -/

namespace Table

variable {n : Nat} {t t' : Table n Amount} {k : Bytes n}

/-- Sorted, and without an entry for zero. -/
structure Normal (t : Table n Amount) : Prop where
  sorted : t.Sorted
  nonzero : ∀ e ∈ t, e.2 ≠ Amount.zero

theorem normal_nil : Normal ([] : Table n Amount) := ⟨sorted_nil, by simp⟩

theorem mem_of_get? {v : Amount} (h : t.get? k = some v) : (k, v) ∈ t := by
  induction t with
  | nil => simp [get?] at h
  | cons e rest ih =>
    obtain ⟨q, w⟩ := e
    rw [get?] at h
    split at h
    · rename_i hq
      rw [hq, Option.some.inj h]
      exact List.mem_cons_self
    · exact List.mem_cons_of_mem _ (ih h)

/-- **A write keeps a table normal.** -/
theorem Normal.write (h : t.Normal) (k : Bytes n) (v : Amount) : (t.write k v).Normal := by
  unfold Table.write
  split
  · exact ⟨sorted_erase h.sorted k, fun e he => h.nonzero e (List.mem_filter.mp he).1⟩
  · rename_i hv
    refine ⟨sorted_put h.sorted k v, ?_⟩
    intro e he
    rcases mem_put he with rfl | he
    · exact hv
    · exact h.nonzero e he

/-- In a normal table an entry is there exactly if something is read. -/
theorem Normal.get?_eq (h : t.Normal) (k : Bytes n) :
    t.get? k = if t.read k = Amount.zero then none else some (t.read k) := by
  cases hget : t.get? k with
  | none => simp [read, hget]
  | some v =>
    have hread : t.read k = v := by rw [read, hget, Option.getD_some]
    rw [hread, if_neg (h.nonzero (k, v) (mem_of_get? hget))]

/-- **Normal tables that read alike are alike.** -/
theorem Normal.ext (h : t.Normal) (h' : t'.Normal) (hread : ∀ k, t.read k = t'.read k) :
    t = t' := by
  refine h.sorted.ext h'.sorted ?_
  intro k
  rw [h.get?_eq, h'.get?_eq, hread]

end Table

/-! ## Writes -/

/-- A write to a ledger. -/
inductive Write
  | balance (account : Address) (amount : Amount)
  | param (key : ParamKey) (value : Amount)
  | candidate (candidate : Candidate)
  | activity (signer : Address) (active : Bool)
  | marker (parentId : BlockId)
  deriving DecidableEq

namespace Ledger

variable {l l' : Ledger}

/-- The ledger after a write. The activity of a signer that is not registered cannot be set. -/
def write (l : Ledger) : Write → Ledger
  | .balance account amount => l.setBalance account amount
  | .param key value => l.setParam key value
  | .candidate candidate => l.register candidate
  | .activity signer active =>
    match l.setActive signer active with
    | .ok l' => l'
    | .error _ => l
  | .marker parentId => l.markParent parentId

/-- The ledger that writes make of the empty one. -/
def ofWrites (writes : List Write) : Ledger := writes.foldl write empty

/-- The ledger is made of the empty one by writes. -/
def Reachable (l : Ledger) : Prop := ∃ writes, ofWrites writes = l

/-- Both tables are normal. -/
structure Normal (l : Ledger) : Prop where
  balances : Table.Normal l.balances
  params : Table.Normal l.params

theorem normal_empty : empty.Normal := ⟨Table.normal_nil, Table.normal_nil⟩

theorem Normal.after (h : l.Normal) (w : Write) : (l.write w).Normal := by
  cases w with
  | balance account amount => exact ⟨h.balances.write account amount, h.params⟩
  | param key value => exact ⟨h.balances, h.params.write key value⟩
  | candidate candidate => exact ⟨h.balances, h.params⟩
  | activity signer active =>
    unfold write
    dsimp only
    split
    · rename_i l' hset
      obtain ⟨-, rfl⟩ := setActive_ok hset
      exact ⟨h.balances, h.params⟩
    · exact h
  | marker parentId => exact ⟨h.balances, h.params⟩

/-- What holds of the empty ledger and is kept by every write holds of all ledgers that writes
make. -/
theorem ofWrites_induction {P : Ledger → Prop} (hempty : P empty)
    (hwrite : ∀ l w, P l → P (write l w)) (writes : List Write) : P (ofWrites writes) := by
  have hfold : ∀ l : Ledger, P l → P (writes.foldl write l) := by
    induction writes with
    | nil => exact fun l h => h
    | cons w writes ih => exact fun l h => ih _ (hwrite l w h)
  exact hfold empty hempty

/-- **The ledgers that writes make are normal.** -/
theorem normal_ofWrites (writes : List Write) : (ofWrites writes).Normal :=
  ofWrites_induction normal_empty (fun _ w h => h.after w) writes

theorem nodup_signers_write (h : l.signers.Nodup) (w : Write) : (l.write w).signers.Nodup := by
  cases w with
  | balance account amount => exact h
  | param key value => exact h
  | candidate candidate =>
    have hsigners : (l.write (.candidate candidate)).signers = _ := signers_register l candidate
    rw [hsigners]
    split
    · exact h
    · rename_i hnew
      rw [← List.concat_eq_append]
      exact h.concat hnew
  | activity signer active =>
    unfold write
    dsimp only
    split
    · rename_i l' hset
      rw [signers_setActive hset]
      exact h
    · exact h
  | marker parentId => exact h

/-- **No two candidates have one signer** in a ledger that writes make. -/
theorem nodup_signers_ofWrites (writes : List Write) : (ofWrites writes).signers.Nodup :=
  ofWrites_induction (P := fun l => l.signers.Nodup) List.nodup_nil
    (fun _ w h => nodup_signers_write h w) writes

/-- The ledgers give the same answers. -/
structure Agree (l l' : Ledger) : Prop where
  balance : ∀ account, l.balance account = l'.balance account
  param : ∀ key, l.param key = l'.param key
  candidates : l.candidates = l'.candidates
  marker : l.marker = l'.marker

/-- **Normal ledgers that answer alike are alike.** -/
theorem Normal.ext (h : l.Normal) (h' : l'.Normal) (hagree : l.Agree l') : l = l' :=
  Ledger.ext (h.balances.ext h'.balances hagree.balance) hagree.candidates
    (h.params.ext h'.params hagree.param) hagree.marker

/-! ## The encoding -/

/-- Fewer than `2 ^ 64` balances, candidates and parameters: what `encode` counts fits in a word. -/
structure Counted (l : Ledger) : Prop where
  balances : l.balances.length < UInt64.size
  candidates : l.candidates.length < UInt64.size
  params : l.params.length < UInt64.size

theorem separates_entry {n : Nat} (d e : Bytes n × Amount) : Separates encodeEntry d e := by
  intro s t h
  simp only [encodeEntry, List.append_assoc] at h
  obtain ⟨hkey, h⟩ := separates_toList d.1 e.1 _ _ h
  obtain ⟨hvalue, htail⟩ := separates_amount d.2 e.2 _ _ h
  exact ⟨Prod.ext hkey hvalue, htail⟩

theorem separates_candidate (c d : Candidate) : Separates encodeCandidate c d := by
  intro s t h
  simp only [encodeCandidate, List.append_assoc] at h
  obtain ⟨hsigner, h⟩ := separates_toList c.signer d.signer _ _ h
  obtain ⟨hendorsor, h⟩ := separates_toList c.endorsor d.endorsor _ _ h
  obtain ⟨hidentity, h⟩ := separates_toList c.identity d.identity _ _ h
  obtain ⟨hactive, htail⟩ := separates_flag c.active d.active _ _ h
  refine ⟨?_, htail⟩
  cases c
  cases d
  rw [Candidate.mk.injEq]
  exact ⟨hsigner, hendorsor, hidentity, hactive⟩

/-- **The encoding fixes the ledger.** -/
theorem encode_inj (hl : l.Counted) (hl' : l'.Counted) (h : l.encode = l'.encode) : l = l' := by
  unfold encode at h
  obtain ⟨hbalances, h⟩ :=
    separates_list hl.balances hl'.balances (fun d _ e _ => separates_entry d e) _ _ h
  obtain ⟨hcandidates, h⟩ :=
    separates_list hl.candidates hl'.candidates (fun c _ d _ => separates_candidate c d) _ _ h
  obtain ⟨hparams, h⟩ :=
    separates_list hl.params hl'.params (fun d _ e _ => separates_entry d e) _ _ h
  have hmarker := (separates_option fun a _ b _ => separates_toList a b).eq h
  exact Ledger.ext hbalances hcandidates hparams hmarker

/-- **The root is a canonical commitment.** It is the digest of `encode`; ledgers made by any writes
in any order have one `root` if they `Agree`, and one `encode` exactly if they do. -/
theorem root_canonical (writes writes' : List Write) (h : (ofWrites writes).Counted)
    (h' : (ofWrites writes').Counted) :
    (ofWrites writes).root = keccak256 (ofWrites writes).encode ∧
    ((ofWrites writes).Agree (ofWrites writes') →
      (ofWrites writes).root = (ofWrites writes').root) ∧
    ((ofWrites writes).encode = (ofWrites writes').encode ↔
      (ofWrites writes).Agree (ofWrites writes')) := by
  have heq : (ofWrites writes).Agree (ofWrites writes') → ofWrites writes = ofWrites writes' :=
    (normal_ofWrites writes).ext (normal_ofWrites writes')
  refine ⟨rfl, fun hagree => congrArg root (heq hagree), ?_,
    fun hagree => congrArg encode (heq hagree)⟩
  intro hencode
  rw [encode_inj h h' hencode]
  exact ⟨fun _ => rfl, fun _ => rfl, rfl, rfl⟩

/-- Writes that are overwritten, zeroed or refused on the way. -/
def detour : List Write :=
  [.balance (Bytes.ofNat 2) (Amount.saturating 9), .param ParamKey.baseGasPrice Amount.zero,
    .candidate ⟨Bytes.ofNat 7, Bytes.ofNat 2, Bytes.zero, false⟩, .marker Bytes.zero,
    .balance (Bytes.ofNat 1) (Amount.saturating 5), .balance (Bytes.ofNat 2) Amount.zero,
    .activity (Bytes.ofNat 8) true, .activity (Bytes.ofNat 7) true, .marker (Bytes.ofNat 3)]

/-- The writes that are left of `detour`. -/
def direct : List Write :=
  [.marker (Bytes.ofNat 3), .candidate ⟨Bytes.ofNat 7, Bytes.ofNat 2, Bytes.zero, true⟩,
    .balance (Bytes.ofNat 1) (Amount.saturating 5)]

/-- Both ways lead to one root, the digest of one string, and a single write more to another string
to hash. -/
theorem root_detour_eq_direct :
    (ofWrites detour).Counted ∧ (ofWrites direct).Counted ∧
    (ofWrites detour).root = keccak256 (ofWrites direct).encode ∧
    (ofWrites detour).root = (ofWrites direct).root ∧
    (ofWrites detour).encode ≠
      (ofWrites (.balance Bytes.zero (Amount.saturating 1) :: direct)).encode := by
  have hsame : ofWrites detour = ofWrites direct := by decide
  have hcounted : (ofWrites direct).Counted := ⟨by decide, by decide, by decide⟩
  have hagree : (ofWrites detour).Agree (ofWrites direct) :=
    hsame ▸ ⟨fun _ => rfl, fun _ => rfl, rfl, rfl⟩
  obtain ⟨hdigest, hroot, hencode⟩ := root_canonical detour direct (hsame ▸ hcounted) hcounted
  refine ⟨hsame ▸ hcounted, hcounted, ?_, hroot hagree, ?_⟩
  · rw [hdigest, hencode.mpr hagree]
  · intro hmore
    have hagree' := (root_canonical detour _ (hsame ▸ hcounted)
      ⟨by decide, by decide, by decide⟩).2.2.mp hmore
    exact absurd (hagree'.balance Bytes.zero) (by decide)

end Ledger

end ProofOfAuthority

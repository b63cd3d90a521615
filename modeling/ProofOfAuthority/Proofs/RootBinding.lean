import Mathlib.Tactic.ByContra
import ProofOfAuthority.Block
import ProofOfAuthority.Receipt

/-!
# Roots bind their leaves

Leaves and inner nodes are hashed alike, without a tag, trees of different depth have their roots at
different levels, and a short list is padded with a hash that a leaf might have. Still a root fixes
its leaves, as far as the digest can be trusted on the strings hashed for it. Nothing is assumed of
the digest: where a root does not fix its leaves, those strings hold a pair with one digest or a
string whose digest is the padding (`Broken`).

What separates the levels is length. A node hashes 64 bytes, and no leaf does.

* `Merkle.top_inj` — trees of one depth and one root have the same leaves.
* `Merkle.exists_raised` — a deep tree, seen from above, has digests of nodes for leaves.
* `Merkle.root_inj` — equal roots have equal leaves.
* `roots_binding` — the roots over transactions and over receipts.
-/

namespace ProofOfAuthority

namespace Merkle

/-! ## What is hashed -/

/-- The strings hashed to make the level above a level. -/
def pairs : List Hash → List (List UInt8)
  | left :: right :: rest => (left.toList ++ right.toList) :: pairs rest
  | _ => []

/-- The strings hashed on the way from a level to the top of a tree of depth `d` over it. -/
def climbed : (d : Nat) → (level : List Hash) → List (List UInt8)
  | 0, _ => []
  | d + 1, level => pairs level ++ climbed d (parents level)

/-- The strings hashed for the nodes of the tree over `leaves`. -/
def nodePreimages (leaves : List Hash) : List (List UInt8) :=
  if leaves.isEmpty then [] else climbed (depth leaves.length) (padded leaves)

/-- All strings hashed for the root over the digests of `messages`. -/
def preimages (messages : List (List UInt8)) : List (List UInt8) :=
  messages ++ nodePreimages (messages.map keccak256)

/-- The digest fails on these strings: two of them share theirs, or one has the padding for it. -/
def Broken (strings : List (List UInt8)) : Prop :=
  (∃ a ∈ strings, ∃ b ∈ strings, a ≠ b ∧ keccak256 a = keccak256 b) ∨
    ∃ a ∈ strings, keccak256 a = sentinel

theorem parents_eq (level : List Hash) : parents level = (pairs level).map keccak256 := by
  fun_induction parents level with
  | case1 left right rest ih => rw [pairs, List.map_cons, ih, node]
  | case2 level h =>
    rcases level with _ | ⟨left, _ | ⟨right, rest⟩⟩
    · rfl
    · rfl
    · exact absurd rfl (h left right rest)

theorem length_of_mem_pairs {level : List Hash} {a : List UInt8} (h : a ∈ pairs level) :
    a.length = 64 := by
  fun_induction pairs level with
  | case1 left right rest ih =>
    rw [List.mem_cons] at h
    rcases h with h | h
    · rw [h, List.length_append, Bytes.length_toList, Bytes.length_toList]
    · exact ih h
  | case2 => simp at h

section Trusted

variable {S : List (List UInt8)} (hS : ¬Broken S)

include hS

theorem eq_of_digest_eq {a b : List UInt8} (ha : a ∈ S) (hb : b ∈ S)
    (h : keccak256 a = keccak256 b) : a = b := by
  by_contra hne
  exact hS (Or.inl ⟨a, ha, b, hb, hne, h⟩)

theorem digest_ne_sentinel {a : List UInt8} (ha : a ∈ S) : keccak256 a ≠ sentinel :=
  fun h => hS (Or.inr ⟨a, ha, h⟩)

/-! ## One depth -/

/-- A level is fixed by the level above it. -/
theorem parents_inj {n : Nat} {level level' : List Hash} (hlen : level.length = 2 * n)
    (hlen' : level'.length = 2 * n) (hsub : pairs level ⊆ S) (hsub' : pairs level' ⊆ S)
    (h : parents level = parents level') : level = level' := by
  induction n generalizing level level' with
  | zero =>
    rw [List.eq_nil_of_length_eq_zero hlen, List.eq_nil_of_length_eq_zero hlen']
  | succ n ih =>
    match level, level', hlen, hlen' with
    | left :: right :: rest, left' :: right' :: rest', hlen, hlen' =>
      rw [parents, parents, List.cons.injEq] at h
      rw [pairs, List.cons_subset] at hsub hsub'
      have hpair : left.toList ++ right.toList = left'.toList ++ right'.toList :=
        eq_of_digest_eq hS hsub.1 hsub'.1 h.1
      obtain ⟨hleft, hright⟩ := List.append_inj hpair (by simp)
      simp only [List.length_cons] at hlen hlen'
      rw [Bytes.toList_inj.mp hleft, Bytes.toList_inj.mp hright,
        ih (by omega) (by omega) hsub.2 hsub'.2 h.2]

/-- **Trees of one depth and one root have the same leaves.** -/
theorem top_inj {d : Nat} {level level' : List Hash} (hlen : level.length = capacity d)
    (hlen' : level'.length = capacity d) (hsub : climbed d level ⊆ S)
    (hsub' : climbed d level' ⊆ S) (h : top d level = top d level') : level = level' := by
  induction d generalizing level level' with
  | zero =>
    obtain ⟨a, rfl⟩ := List.length_eq_one_iff.mp hlen
    obtain ⟨b, rfl⟩ := List.length_eq_one_iff.mp hlen'
    exact congrArg (fun x => [x]) h
  | succ d ih =>
    rw [capacity_succ] at hlen hlen'
    rw [climbed, List.append_subset] at hsub hsub'
    have hparents : parents level = parents level' := by
      apply ih _ _ hsub.2 hsub'.2 h
      · rw [length_parents, hlen]
        omega
      · rw [length_parents, hlen']
        omega
    exact parents_inj hS hlen hlen' hsub.1 hsub'.1 hparents

end Trusted

/-! ## Two depths -/

/-- **A deep tree seen from above**: some levels up it is a tree of lower depth with the same root,
whose leaves are digests of 64 bytes. -/
theorem exists_raised (d k : Nat) {level : List Hash} (hlen : level.length = capacity (d + k + 1)) :
    ∃ raised, top d raised = top (d + k + 1) level ∧ raised.length = capacity d ∧
      climbed d raised ⊆ climbed (d + k + 1) level ∧
      ∀ x ∈ raised, ∃ a ∈ climbed (d + k + 1) level, a.length = 64 ∧ keccak256 a = x := by
  have hhalf : (parents level).length = capacity (d + k) := by
    rw [length_parents, hlen, capacity_succ]
    omega
  induction k generalizing level with
  | zero =>
    refine ⟨parents level, rfl, hhalf, List.subset_append_right _ _, ?_⟩
    intro x hx
    rw [parents_eq] at hx
    obtain ⟨a, ha, rfl⟩ := List.mem_map.mp hx
    exact ⟨a, List.mem_append_left _ ha, length_of_mem_pairs ha, rfl⟩
  | succ k ih =>
    have hquarter : (parents (parents level)).length = capacity (d + k) := by
      rw [length_parents, hhalf, ← Nat.add_assoc, capacity_succ]
      omega
    obtain ⟨raised, htop, hraised, hsub, hall⟩ := ih hhalf hquarter
    refine ⟨raised, htop, hraised, fun a ha => List.mem_append_right _ (hsub ha), ?_⟩
    intro x hx
    obtain ⟨a, ha, hlength, hdigest⟩ := hall x hx
    exact ⟨a, List.mem_append_right _ ha, hlength, hdigest⟩

/-! ## Roots -/

/-- The padding can be taken off again if no leaf looks like it. -/
theorem filter_padded {leaves : List Hash} (h : sentinel ∉ leaves) :
    (padded leaves).filter (· ≠ sentinel) = leaves := by
  have hleaves : leaves.filter (· ≠ sentinel) = leaves := by
    rw [List.filter_eq_self]
    intro x hx
    have hne : x ≠ sentinel := fun heq => h (heq ▸ hx)
    simpa using hne
  rw [padded, List.filter_append, hleaves]
  simp

theorem root_of_ne_nil {leaves : List Hash} (h : leaves ≠ []) :
    root leaves = top (depth leaves.length) (padded leaves) := by
  rw [root, if_neg (by simpa using h)]

theorem climbed_subset {messages : List (List UInt8)} (h : messages ≠ []) :
    climbed (depth messages.length) (padded (messages.map keccak256)) ⊆ preimages messages := by
  rw [preimages, nodePreimages, if_neg (by simpa using h), List.length_map]
  exact List.subset_append_right _ _

section Trusted

variable {S : List (List UInt8)} (hS : ¬Broken S) {messages messages' : List (List UInt8)}
  (hsub : preimages messages ⊆ S) (hsub' : preimages messages' ⊆ S)

include hS hsub

theorem digests_ne_sentinel : sentinel ∉ messages.map keccak256 := by
  intro h
  obtain ⟨a, ha, hdigest⟩ := List.mem_map.mp h
  exact digest_ne_sentinel hS (hsub (List.mem_append_left _ ha)) hdigest

/-- The root over leaves is a digest, so it is not the root over none. -/
theorem root_ne_sentinel (hne : messages ≠ []) : root (messages.map keccak256) ≠ sentinel := by
  intro hroot
  rw [root_of_ne_nil (by simpa using hne), List.length_map] at hroot
  have hlen : (padded (messages.map keccak256)).length =
      capacity (0 + (messages.length - 1).log2 + 1) := by
    rw [length_padded, List.length_map, Nat.zero_add, depth]
  obtain ⟨raised, htop, hraised, -, hall⟩ := exists_raised 0 _ hlen
  obtain ⟨x, rfl⟩ := List.length_eq_one_iff.mp hraised
  obtain ⟨a, ha, -, hdigest⟩ := hall x (List.mem_singleton.mpr rfl)
  rw [Nat.zero_add] at ha htop
  have hx : x = sentinel := htop.trans hroot
  exact digest_ne_sentinel hS (hsub (climbed_subset hne ha)) (hdigest.trans hx)

include hsub'

/-- Leaves of one depth are not nodes of another: their first leaf would be the digest of a string
of 64 bytes. -/
theorem depth_le_of_root_eq (hne : messages ≠ []) (hne' : messages' ≠ [])
    (hleaf : ∀ a ∈ messages, a.length ≠ 64)
    (h : root (messages.map keccak256) = root (messages'.map keccak256)) :
    depth messages'.length ≤ depth messages.length := by
  by_contra hlt
  obtain ⟨k, hk⟩ : ∃ k, depth messages'.length = depth messages.length + k + 1 :=
    ⟨depth messages'.length - depth messages.length - 1, by omega⟩
  rw [root_of_ne_nil (by simpa using hne), root_of_ne_nil (by simpa using hne'), List.length_map,
    List.length_map] at h
  have hlen : (padded (messages.map keccak256)).length = capacity (depth messages.length) := by
    rw [length_padded, List.length_map]
  have hlen' : (padded (messages'.map keccak256)).length =
      capacity (depth messages.length + k + 1) := by
    rw [length_padded, List.length_map, hk]
  have hin' := List.Subset.trans (climbed_subset hne') hsub'
  rw [hk] at h hin'
  obtain ⟨raised, htop, hraised, hclimbed, hall⟩ := exists_raised _ k hlen'
  have heq : padded (messages.map keccak256) = raised :=
    top_inj hS hlen hraised (List.Subset.trans (climbed_subset hne) hsub)
      (List.Subset.trans hclimbed hin') (h.trans htop.symm)
  obtain ⟨m, hm⟩ := List.exists_mem_of_ne_nil messages hne
  have hmem : keccak256 m ∈ raised := by
    rw [← heq, padded]
    exact List.mem_append_left _ (List.mem_map_of_mem hm)
  obtain ⟨a, ha, hlength, hdigest⟩ := hall _ hmem
  have hsame : a = m := eq_of_digest_eq hS (hin' ha) (hsub (List.mem_append_left _ hm)) hdigest
  exact hleaf m hm (hsame ▸ hlength)

/-- **Equal roots have equal leaves**, where the digest can be trusted and no leaf hashes as many
bytes as a node. -/
theorem root_inj (hleaf : ∀ a ∈ messages, a.length ≠ 64) (hleaf' : ∀ a ∈ messages', a.length ≠ 64)
    (h : root (messages.map keccak256) = root (messages'.map keccak256)) :
    messages.map keccak256 = messages'.map keccak256 := by
  by_cases hne : messages = []
  · by_cases hne' : messages' = []
    · rw [hne, hne']
    · rw [hne] at h
      exact absurd h.symm (root_ne_sentinel hS hsub' hne')
  · by_cases hne' : messages' = []
    · rw [hne'] at h
      exact absurd h (root_ne_sentinel hS hsub hne)
    · have hdepth : depth messages.length = depth messages'.length :=
        Nat.le_antisymm (depth_le_of_root_eq hS hsub' hsub hne' hne hleaf' h.symm)
          (depth_le_of_root_eq hS hsub hsub' hne hne' hleaf h)
      rw [root_of_ne_nil (by simpa using hne), root_of_ne_nil (by simpa using hne'),
        List.length_map, List.length_map, ← hdepth] at h
      have hin' := List.Subset.trans (climbed_subset hne') hsub'
      rw [← hdepth] at hin'
      have hpadded : padded (messages.map keccak256) = padded (messages'.map keccak256) := by
        apply top_inj hS _ _ (List.Subset.trans (climbed_subset hne) hsub) hin' h
        · rw [length_padded, List.length_map]
        · rw [length_padded, List.length_map, hdepth]
      rw [← filter_padded (digests_ne_sentinel hS hsub), hpadded,
        filter_padded (digests_ne_sentinel hS hsub')]

end Trusted

/-- Roots are equal exactly if the leaves are, or the digest fails on what was hashed. -/
theorem root_eq_iff_or_broken {messages messages' : List (List UInt8)}
    (hleaf : ∀ a ∈ messages, a.length ≠ 64) (hleaf' : ∀ a ∈ messages', a.length ≠ 64) :
    (root (messages.map keccak256) = root (messages'.map keccak256) ↔
      messages.map keccak256 = messages'.map keccak256) ∨
    Broken (preimages messages ++ preimages messages') := by
  by_cases hS : Broken (preimages messages ++ preimages messages')
  · exact Or.inr hS
  · refine Or.inl ⟨?_, congrArg root⟩
    exact root_inj hS (List.subset_append_left _ _) (List.subset_append_right _ _) hleaf hleaf'

/-- The padding is a leaf like any other, so without trust in the digest a root fixes nothing. -/
example (leaf : Hash) : root [leaf] = root [leaf, sentinel] := rfl

end Merkle

/-! ## Transactions and receipts -/

theorem Transaction.length_leafBytes (tx : Transaction) : tx.leafBytes.length = 97 := by
  simp [leafBytes]

theorem Receipt.length_encode_ge (r : Receipt) : 101 ≤ r.encode.length := by
  simp only [encode, Canonical.word64, Canonical.flag, Canonical.list, Canonical.count,
    List.length_append, length_bigEndian, Bytes.length_toList, List.length_singleton]
  omega

/-- **Transactions and receipts are bound by their roots.** Two lists have one `transactionsRoot`,
or one `receiptsRoot`, exactly if they have the same hashes in the same order, or else the digest is
`Broken` on the `preimages` of their leaves.  -/
theorem roots_binding :
    (∀ txs txs' : List Transaction,
      (transactionsRoot txs = transactionsRoot txs' ↔
        txs.map Transaction.hash = txs'.map Transaction.hash) ∨
      Merkle.Broken
        (Merkle.preimages (txs.map fun tx => tx.signingHash.toList ++ tx.signature.toList) ++
          Merkle.preimages (txs'.map fun tx => tx.signingHash.toList ++ tx.signature.toList))) ∧
    ∀ receipts receipts' : List Receipt,
      (receiptsRoot receipts = receiptsRoot receipts' ↔
        receipts.map Receipt.hash = receipts'.map Receipt.hash) ∨
      Merkle.Broken (Merkle.preimages (receipts.map Receipt.encode) ++
        Merkle.preimages (receipts'.map Receipt.encode)) := by
  have htx : ∀ txs : List Transaction, ∀ a ∈ txs.map Transaction.leafBytes, a.length ≠ 64 := by
    intro txs a ha
    obtain ⟨tx, -, rfl⟩ := List.mem_map.mp ha
    rw [tx.length_leafBytes]
    decide
  have hreceipt : ∀ rs : List Receipt, ∀ a ∈ rs.map Receipt.encode, a.length ≠ 64 := by
    intro rs a ha
    obtain ⟨r, -, rfl⟩ := List.mem_map.mp ha
    have hlength := r.length_encode_ge
    omega
  constructor
  · intro txs txs'
    have hbind := Merkle.root_eq_iff_or_broken (htx txs) (htx txs')
    rw [List.map_map, List.map_map] at hbind
    exact hbind
  · intro rs rs'
    have hbind := Merkle.root_eq_iff_or_broken (hreceipt rs) (hreceipt rs')
    rw [List.map_map, List.map_map] at hbind
    exact hbind

end ProofOfAuthority

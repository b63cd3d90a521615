import Mathlib.Data.Nat.Log
import Mathlib.Order.Bounds.Basic
import Mathlib.Tactic.IntervalCases
import ProofOfAuthority.Proofs.Operations
import ProofOfAuthority.Proofs.RootBinding

/-!
# Climbing in place and the perfect tree

A root is found by a loop that keeps one level at a time: the leaves are padded in one of three
ways, depending on how many there are (`filled`), and then hashed together in pairs until one hash
is left (`derive`). A hash without a neighbour would be left out of its level without a word, and
with it all leaves below. What the root is meant to be says nothing of levels: it is the hash of a
perfect tree, defined from the top (`Tree`).

The two meet where a level is the concatenation of two halves of the same length (`top_append`).

* `filled_eq` — the three ways of padding.
* `top_leaves` — hashing level by level is hashing from the top.
* `length_level`, `flatten_neighbours` — no hash is left out.
* `derive_perfect` — the loop finds the hash of the one perfect tree over the leaves.
-/

namespace ProofOfAuthority.Merkle

/-! ## Perfect trees -/

/-- A perfect tree of depth `d`. -/
inductive Tree : (d : Nat) → Type
  | leaf (hash : Hash) : Tree 0
  | node {d : Nat} (left right : Tree d) : Tree (d + 1)

namespace Tree

/-- The hash at the top. -/
def hash : {d : Nat} → Tree d → Hash
  | _, leaf hash => hash
  | _, node left right => keccak256 (left.hash.toList ++ right.hash.toList)

/-- The leaves, from the left. -/
def leaves : {d : Nat} → Tree d → List Hash
  | _, leaf hash => [hash]
  | _, node left right => left.leaves ++ right.leaves

/-- The tree that has `f i` for its leaf number `i`. -/
def build : (d : Nat) → (f : Nat → Hash) → Tree d
  | 0, f => leaf (f 0)
  | d + 1, f => node (build d f) (build d fun i => f (2 ^ d + i))

theorem length_leaves {d : Nat} (t : Tree d) : t.leaves.length = 2 ^ d := by
  induction t with
  | leaf => rfl
  | node left right ihl ihr => rw [leaves, List.length_append, ihl, ihr, Nat.pow_succ, Nat.mul_two]

theorem leaves_build (d : Nat) (f : Nat → Hash) :
    (build d f).leaves = (List.range (2 ^ d)).map f := by
  induction d generalizing f with
  | zero => rfl
  | succ d ih =>
    rw [build, leaves, ih, ih, Nat.pow_succ, Nat.mul_two, List.range_add, List.map_append,
      List.map_map]
    rfl

/-- A perfect tree is known by its leaves. -/
theorem leaves_inj {d : Nat} {t t' : Tree d} (h : t.leaves = t'.leaves) : t = t' := by
  induction t with
  | leaf hash =>
    cases t' with
    | leaf hash' => rw [List.head_eq_of_cons_eq h]
  | node left right ihl ihr =>
    cases t' with
    | node left' right' =>
      have hlen : left.leaves.length = left'.leaves.length := by
        rw [length_leaves, length_leaves]
      obtain ⟨hl, hr⟩ := List.append_inj h hlen
      rw [ihl hl, ihr hr]

end Tree

/-! ## Level by level -/

/-- Neighbours in a level (`chunks_exact`); a last hash without one is left out. -/
def neighbours : List Hash → List (Hash × Hash)
  | left :: right :: rest => (left, right) :: neighbours rest
  | _ => []

/-- The hashes of pairs, one after the other. -/
def flatten (pairs : List (Hash × Hash)) : List Hash := pairs.flatMap fun pair => [pair.1, pair.2]

/-- Level number `k` above `leaves`. -/
def level (leaves : List Hash) (k : Nat) : List Hash := parents^[k] leaves

variable {d k n : Nat} {xs ys leaves : List Hash}

theorem capacity_eq (d : Nat) : capacity d = 2 ^ d := Nat.one_shiftLeft d

theorem parents_eq_map (xs : List Hash) :
    parents xs = (neighbours xs).map fun pair => node pair.1 pair.2 := by
  fun_induction neighbours xs with
  | case1 left right rest ih => rw [parents, ih, List.map_cons]
  | case2 xs h =>
    rcases xs with _ | ⟨left, _ | ⟨right, rest⟩⟩
    · rfl
    · rfl
    · exact absurd rfl (h left right rest)

/-- In a level of even length every hash has a neighbour. -/
theorem flatten_neighbours (h : 2 ∣ xs.length) : flatten (neighbours xs) = xs := by
  fun_induction neighbours xs with
  | case1 left right rest ih =>
    have hrest : 2 ∣ rest.length := by
      rw [List.length_cons, List.length_cons] at h
      omega
    rw [flatten, List.flatMap_cons, ← flatten, ih hrest]
    rfl
  | case2 xs hshort =>
    rcases xs with _ | ⟨left, _ | ⟨right, rest⟩⟩
    · rfl
    · rw [List.length_singleton] at h
      omega
    · exact absurd rfl (hshort left right rest)

theorem neighbours_flatten_append (pairs : List (Hash × Hash)) (ys : List Hash) :
    neighbours (flatten pairs ++ ys) = pairs ++ neighbours ys := by
  induction pairs with
  | nil => rfl
  | cons pair pairs ih => exact congrArg (pair :: ·) ih

theorem parents_append (h : 2 ∣ xs.length) : parents (xs ++ ys) = parents xs ++ parents ys := by
  have happend : neighbours (xs ++ ys) = neighbours xs ++ neighbours ys := by
    rw [← neighbours_flatten_append, flatten_neighbours h]
  rw [parents_eq_map, parents_eq_map, parents_eq_map, happend, List.map_append]

theorem length_parents_of_eq (h : xs.length = 2 ^ (d + 1)) : (parents xs).length = 2 ^ d := by
  rw [length_parents, h, Nat.pow_succ, Nat.mul_div_cancel _ Nat.two_pos]

/-- **Both halves of a level are hashed on their own**, and their tops are hashed together last. -/
theorem top_append (hx : xs.length = 2 ^ d) (hy : ys.length = 2 ^ d) :
    top (d + 1) (xs ++ ys) = node (top d xs) (top d ys) := by
  induction d generalizing xs ys with
  | zero =>
    obtain ⟨x, rfl⟩ := List.length_eq_one_iff.mp hx
    obtain ⟨y, rfl⟩ := List.length_eq_one_iff.mp hy
    rfl
  | succ d ih =>
    have heven : 2 ∣ xs.length := by
      rw [hx, Nat.pow_succ]
      exact Nat.dvd_mul_left 2 _
    rw [top, parents_append heven, ih (length_parents_of_eq hx) (length_parents_of_eq hy)]
    rfl

/-- **Hashing level by level is hashing from the top.** -/
theorem top_leaves (t : Tree d) : top d t.leaves = t.hash := by
  induction t with
  | leaf hash => rfl
  | node left right ihl ihr =>
    rw [Tree.leaves, top_append left.length_leaves right.length_leaves, ihl, ihr]
    rfl

theorem length_level (h : leaves.length = 2 ^ d) (hk : k ≤ d) :
    (level leaves k).length = 2 ^ (d - k) := by
  induction k with
  | zero => exact h
  | succ k ih =>
    have hbelow : (level leaves k).length = 2 ^ (d - (k + 1) + 1) := by
      rw [ih (Nat.le_of_succ_le hk)]
      congr 1
      omega
    rw [level, Function.iterate_succ_apply']
    exact length_parents_of_eq hbelow

theorem level_top (h : leaves.length = 2 ^ d) : level leaves d = [top d leaves] := by
  induction d generalizing leaves with
  | zero =>
    obtain ⟨leaf, rfl⟩ := List.length_eq_one_iff.mp h
    rfl
  | succ d ih =>
    rw [level, Function.iterate_succ_apply]
    exact ih (length_parents_of_eq h)

/-! ## Padding -/

/-- The leaves as `derive_root` pads them: one leaf gets one hash more, and several leaves are
brought to the next power of two. -/
def filled : List Hash → List Hash
  | [] => []
  | [leaf] => [leaf, sentinel]
  | leaves => leaves.rightpad (2 ^ Nat.clog 2 leaves.length) sentinel

theorem depth_isLeast (leaves : List Hash) :
    IsLeast {d | 1 ≤ d ∧ leaves.length ≤ 2 ^ d} (depth leaves.length) := by
  constructor
  · refine ⟨Nat.succ_pos _, ?_⟩
    rw [← capacity_eq]
    exact le_capacity_depth leaves.length
  · rintro d ⟨hpos, hroom⟩
    rw [depth]
    by_cases hone : leaves.length - 1 = 0
    · rw [hone]
      exact hpos
    · have hlog : (leaves.length - 1).log2 < d := by
        rw [Nat.log2_lt hone]
        omega
      exact hlog

/-- Of several leaves, the depth is the exponent of the next power of two. -/
theorem depth_eq_clog (h : 1 < n) : depth n = Nat.clog 2 n := by
  refine le_antisymm ?_ ?_
  · have hle := Nat.le_pow_clog Nat.one_lt_two n
    have hpos := Nat.clog_pos Nat.one_lt_two h
    rw [depth, Nat.succ_le_iff, Nat.log2_lt (by omega)]
    omega
  · rw [Nat.clog_le_iff_le_pow Nat.one_lt_two, ← capacity_eq]
    exact le_capacity_depth n

/-- **The three ways of padding** are one. -/
theorem filled_eq (h : leaves ≠ []) : filled leaves = padded leaves := by
  unfold filled
  split
  · exact absurd rfl h
  · rfl
  · rename_i hne hone
    have hmany : 1 < leaves.length := by
      rcases leaves with _ | ⟨a, _ | ⟨b, rest⟩⟩
      · exact absurd rfl h
      · exact absurd rfl (hone a)
      · simp
    rw [List.rightpad, padded, capacity_eq, depth_eq_clog hmany]

theorem length_filled (h : leaves ≠ []) : (filled leaves).length = 2 ^ depth leaves.length := by
  rw [filled_eq h, length_padded, capacity_eq]

/-- The padded leaves, one at a time. -/
theorem getElem?_filled (h : leaves ≠ []) {i : Nat} (hi : i < 2 ^ depth leaves.length) :
    (filled leaves)[i]? = some (leaves.getD i sentinel) := by
  rw [filled_eq h, padded, capacity_eq, List.getD_eq_getElem?_getD]
  by_cases hlt : i < leaves.length
  · rw [List.getElem?_append_left hlt, List.getElem?_eq_getElem hlt, Option.getD_some]
  · have hle : leaves.length ≤ i := Nat.le_of_not_lt hlt
    rw [List.getElem?_append_right hle, List.getElem?_eq_none hle, List.getElem?_replicate,
      if_pos (by omega), Option.getD_none]

theorem leaves_eq_filled_iff (h : leaves ≠ []) {t : Tree (depth leaves.length)} :
    t.leaves = filled leaves ↔
      ∀ i < 2 ^ depth leaves.length, t.leaves[i]? = some (leaves.getD i sentinel) := by
  constructor
  · intro heq i hi
    rw [heq, getElem?_filled h hi]
  · intro hall
    refine List.ext_getElem? fun i => ?_
    by_cases hi : i < 2 ^ depth leaves.length
    · rw [hall i hi, getElem?_filled h hi]
    · have hle : 2 ^ depth leaves.length ≤ i := Nat.le_of_not_lt hi
      rw [List.getElem?_eq_none (t.length_leaves.trans_le hle),
        List.getElem?_eq_none ((length_filled h).trans_le hle)]

theorem exists_tree (h : leaves ≠ []) :
    ∃ t : Tree (depth leaves.length), t.leaves = filled leaves := by
  refine ⟨Tree.build _ fun i => leaves.getD i sentinel, (leaves_eq_filled_iff h).mpr ?_⟩
  intro i hi
  rw [Tree.leaves_build, List.getElem?_map, List.getElem?_range hi, Option.map_some]

/-! ## The loop -/

/-- The loop of `derive_root`: neighbours are hashed together, level by level, and the hash that is
left is read. -/
def climb (level : List Hash) : Except Trap Hash :=
  if 1 < level.length then climb (parents level) else Machine.item level 0
termination_by level.length
decreasing_by
  rw [length_parents]
  omega

/-- `derive_root`: the root over `leaves`, by a loop over levels. -/
def derive (leaves : List Hash) : Except Trap Hash :=
  if leaves.isEmpty then .ok sentinel else climb (filled leaves)

theorem climb_eq (h : xs.length = 2 ^ d) : climb xs = .ok (top d xs) := by
  induction d generalizing xs with
  | zero =>
    obtain ⟨top, rfl⟩ := List.length_eq_one_iff.mp h
    rw [climb]
    rfl
  | succ d ih =>
    have hmany : 1 < xs.length := by
      have hpos := Nat.two_pow_pos d
      rw [h, Nat.pow_succ]
      omega
    rw [climb, if_pos hmany, top]
    exact ih (length_parents_of_eq h)

/-- **The loop ends at the root.** -/
theorem derive_eq (leaves : List Hash) : derive leaves = .ok (root leaves) := by
  unfold derive
  by_cases h : leaves = []
  · rw [h]
    rfl
  · rw [if_neg (by simpa using h), climb_eq (length_filled h), root_of_ne_nil h, filled_eq h]

/-! ## The root -/

/-- **The root is the hash of a perfect tree**: of the one `Tree` of least depth that has the leaves
in their order and the padding behind them. It is what `derive` arrives at, by way of one `level`
after another that `neighbours` takes up in full, down to a single hash. -/
theorem derive_perfect :
    derive [] = .ok sentinel ∧ root [] = sentinel ∧
    ∀ leaves : List Hash, leaves ≠ [] →
      ∀ D, IsLeast {d | 1 ≤ d ∧ leaves.length ≤ 2 ^ d} D →
        (∃ tree : Tree D, derive leaves = .ok tree.hash ∧ root leaves = tree.hash ∧
          ∀ t : Tree D,
            (∀ i < 2 ^ D, t.leaves[i]? = some (leaves.getD i sentinel)) ↔ t = tree) ∧
        (∀ k < D, 1 < (level (filled leaves) k).length ∧ 2 ∣ (level (filled leaves) k).length ∧
          flatten (neighbours (level (filled leaves) k)) = level (filled leaves) k) ∧
        level (filled leaves) D = [root leaves] := by
  refine ⟨rfl, rfl, fun leaves hne D hleast => ?_⟩
  obtain rfl := (depth_isLeast leaves).unique hleast
  have hlen := length_filled hne
  have hroot : root leaves = top (depth leaves.length) (filled leaves) := by
    rw [root_of_ne_nil hne, filled_eq hne]
  obtain ⟨tree, htree⟩ := exists_tree hne
  have hhash : root leaves = tree.hash := by rw [hroot, ← htree, top_leaves]
  refine ⟨⟨tree, by rw [derive_eq, hhash], hhash, fun t => ?_⟩, fun k hk => ?_, ?_⟩
  · rw [← leaves_eq_filled_iff hne, ← htree]
    exact ⟨Tree.leaves_inj, congrArg Tree.leaves⟩
  · obtain ⟨j, hj⟩ : ∃ j, depth leaves.length - k = j + 1 :=
      ⟨depth leaves.length - k - 1, by omega⟩
    have hlevel : (level (filled leaves) k).length = 2 ^ j * 2 := by
      rw [length_level hlen (Nat.le_of_lt hk), hj, Nat.pow_succ]
    have hpos := Nat.two_pow_pos j
    have heven : 2 ∣ (level (filled leaves) k).length := ⟨2 ^ j, by rw [hlevel, Nat.mul_comm]⟩
    exact ⟨by omega, heven, flatten_neighbours heven⟩
  · rw [level_top hlen, hroot]

/-! ### Three leaves -/

namespace Sample

def three : List Hash := [Bytes.ofNat 1, Bytes.ofNat 2, Bytes.ofNat 3]

/-- The tree over them has room for one more. -/
def four : Tree 2 :=
  .node (.node (.leaf (Bytes.ofNat 1)) (.leaf (Bytes.ofNat 2)))
    (.node (.leaf (Bytes.ofNat 3)) (.leaf sentinel))

theorem root_three : IsLeast {d | 1 ≤ d ∧ three.length ≤ 2 ^ d} 2 ∧ root three = four.hash ∧
    level (filled three) 1 = [node (Bytes.ofNat 1) (Bytes.ofNat 2), node (Bytes.ofNat 3) sentinel] ∧
    level (filled three) 2 = [four.hash] := by
  have hleast : IsLeast {d | 1 ≤ d ∧ three.length ≤ 2 ^ d} 2 := by
    refine ⟨⟨by decide, by decide⟩, ?_⟩
    rintro d ⟨hpos, hroom⟩
    by_contra hlt
    obtain rfl : d = 1 := by omega
    exact absurd hroom (by decide)
  obtain ⟨-, -, hsome⟩ := derive_perfect
  obtain ⟨⟨tree, -, hroot, hunique⟩, -, htop⟩ := hsome three (by simp [three]) 2 hleast
  have hfour : four = tree := by
    rw [← hunique]
    intro i hi
    interval_cases i <;> rfl
  rw [← hfour] at hroot
  refine ⟨hleast, hroot, ?_, hroot ▸ htop⟩
  rw [filled_eq (by simp [three])]
  rfl

end Sample

end ProofOfAuthority.Merkle

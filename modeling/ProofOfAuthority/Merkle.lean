import ProofOfAuthority.Digest.Keccak

/-!
# Merkle roots over ordered hashes

The leaves are padded with the zero hash to a power of two, at least two, and neighbours are hashed
together level by level until one hash is left. No leaves at all have the zero hash as their root.

* `length_padded` — the padded leaves fill a perfect tree.
* `length_parents` — each level is half as long as the one below it.
-/

namespace ProofOfAuthority.Merkle

/-- `SENTINEL_HASH`: the hash that pads short lists and stands for the empty one. -/
def sentinel : Hash := Bytes.zero

/-- `hash_pair`: the parent of two neighbours. -/
def node (left right : Hash) : Hash := keccak256 (left.toList ++ right.toList)

/-- A turn of the loop of `derive_root`: the level above a level. -/
def parents : List Hash → List Hash
  | left :: right :: rest => node left right :: parents rest
  | _ => []

/-- The least depth, at least one, whose perfect tree has room for `count` leaves. -/
def depth (count : Nat) : Nat := (count - 1).log2 + 1

/-- The number of leaves of a perfect tree of depth `d`. -/
def capacity (d : Nat) : Nat := 1 <<< d

/-- The leaves, padded to fill the tree of that depth. -/
def padded (leaves : List Hash) : List Hash :=
  leaves ++ List.replicate (capacity (depth leaves.length) - leaves.length) sentinel

/-- The top of a tree of depth `d` over `level`. -/
def top : (d : Nat) → (level : List Hash) → Hash
  | 0, level => level.headD sentinel
  | d + 1, level => top d (parents level)

/-- `derive_root`: the root over `leaves`, in order. -/
def root (leaves : List Hash) : Hash :=
  if leaves.isEmpty then sentinel else top (depth leaves.length) (padded leaves)

/-! ## Lengths -/

theorem capacity_succ (d : Nat) : capacity (d + 1) = 2 * capacity d := Nat.shiftLeft_succ 1 d

theorem le_capacity_depth (count : Nat) : count ≤ capacity (depth count) := by
  have h := @Nat.lt_log2_self (count - 1)
  simp only [capacity, depth, Nat.one_shiftLeft]
  omega

theorem length_padded (leaves : List Hash) :
    (padded leaves).length = capacity (depth leaves.length) := by
  have h := le_capacity_depth leaves.length
  simp only [padded, List.length_append, List.length_replicate]
  omega

theorem length_parents (level : List Hash) : (parents level).length = level.length / 2 := by
  fun_induction parents level with
  | case1 left right rest ih =>
    simp only [List.length_cons, ih]
    omega
  | case2 level h =>
    match level, h with
    | [], _ => rfl
    | [_], _ => simp
    | left :: right :: rest, h => exact absurd rfl (h left right rest)

end ProofOfAuthority.Merkle

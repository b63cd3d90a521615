/-!
# Arithmetic modulo a prime

Powers and inverses modulo `m + 1`. Exponents are read bit by bit from the top, so the work is
bounded by their length.

* `ofBits_bits` — the bits of a number that fits spell that number.
-/

namespace ProofOfAuthority.Residue

/-- The last `width` bits of `n`, most significant first. -/
def bits : (width n : Nat) → List Bool
  | 0, _ => []
  | width + 1, n => n.testBit width :: bits width n

/-- The number that a bit string spells, most significant bit first. -/
def ofBits (bs : List Bool) : Nat := bs.foldl (fun n b => 2 * n + b.toNat) 0

theorem foldl_bits (width n acc : Nat) :
    (bits width n).foldl (fun n b => 2 * n + b.toNat) acc =
      acc * (1 <<< width) + n % (1 <<< width) := by
  induction width generalizing acc with
  | zero => simp [bits, Nat.mod_one]
  | succ width ih =>
    have hbit : (n.testBit width).toNat = n / (1 <<< width) % 2 := by
      rw [Nat.one_shiftLeft]
      exact Nat.toNat_testBit n width
    rw [bits, List.foldl_cons, ih, Nat.shiftLeft_succ, hbit, Nat.mul_comm 2 (1 <<< width),
      Nat.mod_mul]
    grind

theorem ofBits_bits {width n : Nat} (h : n < 1 <<< width) : ofBits (bits width n) = n := by
  rw [ofBits, foldl_bits, Nat.mod_eq_of_lt h, Nat.zero_mul, Nat.zero_add]

variable {m : Nat}

/-- `x` to the power `e`, for exponents below `2 ^ 256`. -/
def power (x : Fin (m + 1)) (e : Nat) : Fin (m + 1) :=
  (bits 256 e).foldl (fun acc bit => if bit then acc * acc * x else acc * acc) 1

/-- The inverse of a nonzero `x`, when the modulus `m + 1` is a prime below `2 ^ 256`. -/
def inverse (x : Fin (m + 1)) : Fin (m + 1) := power x (m - 1)

end ProofOfAuthority.Residue

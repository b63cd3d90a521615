/-!
# Readers of text

A reader takes characters from the front of a text or fails. Alternatives (`<|>`) start over from
where the first one began, and repetition is bounded by the length of the text.
-/

namespace ProofOfAuthority.Toml

/-- A reader of values of type `α`. -/
abbrev Reader (α : Type) := StateT (List Char) Option α

namespace Reader

variable {α β : Type}

/-- Read one character that satisfies `p`. -/
def satisfy (p : Char → Bool) : Reader Char
  | c :: rest => if p c then some (c, rest) else none
  | [] => none

/-- Read a given character. -/
def char (c : Char) : Reader Unit := do let _ ← satisfy (· == c)

/-- Read a given word. -/
def word (w : String) : Reader Unit := w.toList.forM char

/-- Read characters as long as they satisfy `p`. -/
def takeWhile (p : Char → Bool) : Reader (List Char) := fun s => some (s.span p)

/-- Read at most `n` characters that satisfy `p`. -/
def takeAtMost (n : Nat) (p : Char → Bool) : Reader (List Char) := fun s =>
  let taken := (s.take n).takeWhile p
  some (taken, s.drop taken.length)

/-- Succeed at the end of the text. -/
def done : Reader Unit := fun s => if s.isEmpty then some ((), s) else none

/-- Read with `r` at most `n` times, until it fails. -/
def repeated (r : Reader α) : (n : Nat) → Reader (List α)
  | 0 => pure []
  | n + 1 => (do
      let a ← r
      let as ← repeated r n
      return a :: as) <|> pure []

/-- Read with `r` until it fails, for a reader that takes at least one character. -/
def many (r : Reader α) : Reader (List α) := fun s => repeated r s.length s

/-- Read with `r` one or more times, with `separator` in between. -/
def separated (r : Reader α) (separator : Reader β) : Reader (List α) := do
  let first ← r
  let rest ← many (do
    let _ ← separator
    r)
  return first :: rest

end Reader

end ProofOfAuthority.Toml

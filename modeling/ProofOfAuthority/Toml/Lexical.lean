import ProofOfAuthority.Toml.Reader

/-!
# Blanks, comments, keys and strings of TOML

Lines end with a line feed, alone or after a carriage return. Control characters other than the tab
appear nowhere. Strings come in four forms: with escapes or literal, and of one line or several.
-/

namespace ProofOfAuthority.Toml

open Reader

/-- Space or tab. -/
def isBlank (c : Char) : Bool := c == ' ' || c == '\t'

/-- A tab, or a character that is no control character of ASCII. -/
def isPrintable (c : Char) : Bool := c == '\t' || (' ' ≤ c && c != '\x7f')

/-- A character of an unquoted key. -/
def isKeyChar (c : Char) : Bool := c.isAlphanum || c == '-' || c == '_'

/-- Skip blanks. -/
def blanks : Reader Unit := do let _ ← takeWhile isBlank

/-- The end of a line. -/
def newline : Reader Unit := char '\n' <|> word "\r\n"

/-- A comment, up to the end of its line. -/
def comment : Reader Unit := do
  char '#'
  let _ ← takeWhile isPrintable

/-- What may follow on a line: blanks, a comment, and the end of the line or of the text. -/
def lineEnd : Reader Unit := do
  blanks
  let _ ← optional comment
  newline <|> done

/-- Blanks, comments and ends of lines between the items of an array. -/
def trivia : Reader Unit := do
  let _ ← many (newline <|> (do comment; newline) <|> (do let _ ← satisfy isBlank))

/-! ## Strings -/

/-- The value of a hexadecimal digit. -/
def hexValue? (c : Char) : Option Nat :=
  if '0' ≤ c ∧ c ≤ '9' then some (c.toNat - '0'.toNat)
  else if 'a' ≤ c ∧ c ≤ 'f' then some (c.toNat - 'a'.toNat + 10)
  else if 'A' ≤ c ∧ c ≤ 'F' then some (c.toNat - 'A'.toNat + 10)
  else none

/-- The number spelled by digits in a base; characters that are no digits count as zero. -/
def numberOf (base : Nat) (digits : List Char) : Nat :=
  digits.foldl (fun n c => n * base + (hexValue? c).getD 0) 0

/-- The character whose code `n` hexadecimal digits spell. -/
def codePoint (n : Nat) : Reader Char := do
  let digits ← takeAtMost n fun c => (hexValue? c).isSome
  let code := numberOf 16 digits
  guard (digits.length = n ∧ code.isValidChar)
  return Char.ofNat code

/-- A character written with a backslash. -/
def escaped : Reader Char := do
  char '\\'
  match ← satisfy fun _ => true with
  | 'b' => return '\x08'
  | 't' => return '\t'
  | 'n' => return '\n'
  | 'f' => return '\x0c'
  | 'r' => return '\r'
  | '"' => return '"'
  | '\\' => return '\\'
  | 'u' => codePoint 4
  | 'U' => codePoint 8
  | _ => failure

/-- A character that stands for itself in a string with escapes. -/
def plainChar : Reader Char := satisfy fun c => isPrintable c && c != '"' && c != '\\'

/-- A character that stands for itself in a literal string. -/
def literalChar : Reader Char := satisfy fun c => isPrintable c && c != '\''

/-- A string with escapes, on one line. -/
def basicString : Reader (List Char) := do
  char '"'
  let cs ← many (plainChar <|> escaped)
  char '"'
  return cs

/-- A literal string, on one line. -/
def literalString : Reader (List Char) := do
  char '\''
  let cs ← many literalChar
  char '\''
  return cs

/-- A backslash at the end of a line: the blanks and line ends after it are dropped. -/
def continuation : Reader Unit := do
  char '\\'
  blanks
  newline
  let _ ← many (newline <|> (do let _ ← satisfy isBlank))

/-- The rest of a string of several lines after its opening quotes. One or two quotes in a row
belong to the string; of a longer run the last three close it. -/
def severalLines (quote : Char) (content : Reader Unit) : Reader Unit := do
  let innerQuotes : Reader Unit := do
    let quotes ← takeWhile (· == quote)
    guard (0 < quotes.length ∧ quotes.length ≤ 2)
  let _ ← many (content <|> innerQuotes)
  let closing ← takeWhile (· == quote)
  guard (3 ≤ closing.length ∧ closing.length ≤ 5)

/-- A string with escapes, over several lines. -/
def basicText : Reader Unit := do
  word "\"\"\""
  severalLines '"' (newline <|> continuation <|> (do let _ ← plainChar <|> escaped))

/-- A literal string over several lines. -/
def literalText : Reader Unit := do
  word "\x27\x27\x27"
  severalLines '\'' (newline <|> (do let _ ← literalChar))

/-- A string of any form. -/
def anyString : Reader Unit :=
  basicText <|> literalText <|> (do let _ ← basicString <|> literalString)

/-! ## Keys -/

/-- One part of a key, quoted or not. -/
def simpleKey : Reader String := do
  let cs ← basicString <|> literalString <|> (do
    let cs ← takeWhile isKeyChar
    guard (!cs.isEmpty)
    return cs)
  return String.ofList cs

/-- How deep keys and values may nest, this number excluded. -/
def maxDepth : Nat := 80

/-- The parts of a key, with dots in between. -/
def key : Reader (List String) := do
  let parts ← separated (do
    blanks
    let part ← simpleKey
    blanks
    return part) (char '.')
  guard (parts.length < maxDepth)
  return parts

end ProofOfAuthority.Toml

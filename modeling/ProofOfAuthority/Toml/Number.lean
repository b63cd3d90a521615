import ProofOfAuthority.Toml.Lexical

/-!
# Numbers, dates and times of TOML

Integers are signed 64-bit numbers, in decimal or, without a sign, in base 16, 8 or 2. Floats must
not round to positive infinity; they, dates and times are checked and dropped.
-/

namespace ProofOfAuthority.Toml

open Reader

/-- Whether a character is a digit in a base. -/
def isDigitIn (base : Nat) (c : Char) : Bool := (hexValue? c).any (· < base)

/-- One or more digits, where an underscore may stand between two of them. -/
def digits (base : Nat) : Reader (List Char) := do
  let first ← satisfy (isDigitIn base)
  let rest ← many (satisfy (isDigitIn base) <|> (do char '_'; satisfy (isDigitIn base)))
  return first :: rest

/-- An optional sign: whether it is a minus. -/
def sign : Reader Bool :=
  (do char '-'; return true) <|> (do char '+'; return false) <|> pure false

/-- The digits of a decimal integer: zero alone, or digits that start with another one. -/
def decimalDigits : Reader (List Char) :=
  (do char '0'; return ['0']) <|> digits 10

/-- An integer in a base other than ten, after the letter that names the base. -/
def basedInteger (letter : Char) (base : Nat) : Reader Int := do
  char '0'
  char letter
  let ds ← digits base
  let n := numberOf base ds
  guard (n ≤ Int64.maxValue.toInt)
  return n

/-- A decimal integer. -/
def decimalInteger : Reader Int := do
  let negative ← sign
  let n := numberOf 10 (← decimalDigits)
  let value : Int := if negative then -n else n
  guard (Int64.minValue.toInt ≤ value ∧ value ≤ Int64.maxValue.toInt)
  return value

/-- An integer in any base. -/
def integer : Reader Int :=
  basedInteger 'x' 16 <|> basedInteger 'o' 8 <|> basedInteger 'b' 2 <|> decimalInteger

/-! ## Floats -/

/-- Whether `mantissa * 10 ^ exponent` rounds to infinity as a double: it lies no nearer to the
largest double than to `2 ^ 1024`. -/
def roundsToInfinity (mantissa : Nat) (exponent : Int) : Bool :=
  let bound := (1 <<< 1024) - (1 <<< 970)
  let magnitude : Int := (toString mantissa).length + exponent
  if mantissa = 0 then false
  else if magnitude < 300 then false
  else if 320 < magnitude then true
  else if 0 ≤ exponent then bound ≤ mantissa * Nat.pow 10 exponent.toNat
  else bound * Nat.pow 10 (-exponent).toNat ≤ mantissa

/-- The exponent of a float. -/
def exponent : Reader Int := do
  let _ ← satisfy fun c => c == 'e' || c == 'E'
  let negative ← sign
  let n := numberOf 10 (← digits 10)
  return if negative then -n else n

/-- A float with digits, which has a fraction, an exponent, or both. -/
def decimalFloat : Reader Unit := do
  let negative ← sign
  let whole ← decimalDigits
  let (fraction, e) ← (do
    char '.'
    let fraction ← digits 10
    let e ← optional exponent
    return (fraction, e.getD 0)) <|> (do return ([], ← exponent))
  guard (negative ∨ !roundsToInfinity (numberOf 10 (whole ++ fraction)) (e - fraction.length))

/-- A float. -/
def float : Reader Unit :=
  decimalFloat <|> (do
    let _ ← sign
    word "inf" <|> word "nan")

/-! ## Dates and times -/

/-- A number of exactly `count` digits between two bounds. -/
def fixedNumber (count low high : Nat) : Reader Nat := do
  let ds ← takeAtMost count (isDigitIn 10)
  let n := numberOf 10 ds
  guard (ds.length = count ∧ low ≤ n ∧ n ≤ high)
  return n

/-- The length of a month. -/
def daysIn (year month : Nat) : Nat :=
  if month = 2 then
    if year % 4 = 0 ∧ (year % 100 ≠ 0 ∨ year % 400 = 0) then 29 else 28
  else if month = 4 ∨ month = 6 ∨ month = 9 ∨ month = 11 then 30
  else 31

/-- A calendar date. -/
def date : Reader Unit := do
  let year ← fixedNumber 4 0 9999
  char '-'
  let month ← fixedNumber 2 1 12
  char '-'
  let _ ← fixedNumber 2 1 (daysIn year month)

/-- A time of day. -/
def time : Reader Unit := do
  let _ ← fixedNumber 2 0 23
  char ':'
  let _ ← fixedNumber 2 0 59
  char ':'
  let _ ← fixedNumber 2 0 60
  let _ ← optional (do
    char '.'
    let fraction ← takeWhile (isDigitIn 10)
    guard (!fraction.isEmpty))

/-- An offset from universal time. -/
def offset : Reader Unit :=
  (do let _ ← satisfy fun c => c == 'Z' || c == 'z') <|> (do
    let _ ← satisfy fun c => c == '+' || c == '-'
    let _ ← fixedNumber 2 0 23
    char ':'
    let _ ← fixedNumber 2 0 59)

/-- A date, a time, or both. -/
def moment : Reader Unit :=
  (do
    date
    let _ ← optional (do
      let _ ← satisfy fun c => c == 'T' || c == 't' || c == ' '
      time
      optional offset)) <|> time

end ProofOfAuthority.Toml

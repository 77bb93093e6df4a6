import Orchestration.Binary64.Decimal
import Orchestration.Text.Digits
import Orchestration.Text.Reader
import Orchestration.Toml.Value

/-!
# Numbers, dates and times of TOML

Integers have 64 bits with sign, in decimal, or without sign in base 16, 8 or 2. A float has a
fraction, an exponent or both, or is infinite or no number. Single underscores may stand between
digits. Dates and times are checked for their ranges.
-/

namespace Orchestration.Toml

open Text Text.Reader

/-- Digits of some kind, with single underscores between them. -/
def digitGroup (isDigit : Char → Bool) : Reader (List Char) := do
  let first ← satisfy isDigit
  let rest ← many (satisfy isDigit <|> (do char '_'; satisfy isDigit))
  return first :: rest

/-- A whole number without leading zeros. -/
def wholeDigits : Reader (List Char) := do
  match ← peek with
  | some '0' => char '0'; return ['0']
  | _ => digitGroup Char.isDigit

def sign : Reader Bool :=
  (do char '-'; return true) <|> (do char '+'; return false) <|> pure false

/-! ## Integers -/

def inRange (n : Int) : Reader Int :=
  if Int64.minValue.toInt ≤ n ∧ n ≤ Int64.maxValue.toInt then pure n else failure

/-- An integer in another base behind its mark. -/
def basedInteger (mark : String) (base : Nat) (isDigit : Char → Bool) : Reader Int := do
  keyword mark
  inRange (ofDigits base (← digitGroup isDigit))

def decimalInteger : Reader Int := do
  let negative ← sign
  let n : Int := ofDigits 10 (← wholeDigits)
  inRange (if negative then -n else n)

def integer : Reader Int :=
  basedInteger "0x" 16 isHexDigit <|> basedInteger "0o" 8 isOctalDigit <|>
    basedInteger "0b" 2 isBinaryDigit <|> decimalInteger

/-! ## Floats -/

def fraction : Reader (List Char) := do
  char '.'
  digitGroup Char.isDigit

def exponent : Reader Int := do
  char 'e' <|> char 'E'
  let negative ← sign
  let n : Int := ofDigits 10 (← digitGroup Char.isDigit)
  return if negative then -n else n

/-- A float in digits. One that is too large is refused, but one that is too small is the infinity
below all numbers. -/
def digitalFloat : Reader Binary64 := do
  let negative ← sign
  let whole ← wholeDigits
  let places ← optional fraction
  let power ← if places.isSome then optional exponent else some <$> exponent
  let digits := places.getD []
  let x := Binary64.ofDecimal negative
    ⟨ofDigits 10 (whole ++ digits), power.getD 0 - digits.length⟩
  if x = .infinite false then failure else return x

def namedFloat : Reader Binary64 := do
  let negative ← sign
  (do keyword "inf"; return .infinite negative) <|> (do keyword "nan"; return .nan)

def float : Reader Binary64 := digitalFloat <|> namedFloat

/-! ## Dates and times -/

def field (digits low high : Nat) : Reader Nat := do
  let n := ofDigits 10 (← times (satisfy Char.isDigit) digits)
  if low ≤ n ∧ n ≤ high then return n else failure

def daysOfMonth (year month : Nat) : Nat :=
  if month = 2 then
    if year % 4 = 0 ∧ (year % 100 ≠ 0 ∨ year % 400 = 0) then 29 else 28
  else if month = 4 ∨ month = 6 ∨ month = 9 ∨ month = 11 then 30
  else 31

def date : Reader Unit := do
  let year ← field 4 0 9999
  char '-'
  let month ← field 2 1 12
  char '-'
  let _ ← field 2 1 (daysOfMonth year month)

def time : Reader Unit := do
  let _ ← field 2 0 23
  char ':'
  let _ ← field 2 0 59
  char ':'
  let _ ← field 2 0 60
  let _ ← optional (do char '.'; takeWhile1 Char.isDigit)

def offset : Reader Unit :=
  char 'Z' <|> char 'z' <|> (do
    char '+' <|> char '-'
    let _ ← field 2 0 23
    char ':'
    let _ ← field 2 0 59)

def moment : Reader Unit :=
  (do
    date
    let _ ← optional (do
      char 'T' <|> char 't' <|> char ' '
      time
      optional offset)) <|> time

end Orchestration.Toml

import BinaryNames.Toml.Text

/-!
# TOML Numbers, Dates and Truth Values

A scalar is accepted if it is well formed and its value exists: whole numbers have 64 bits, other
numbers are not too large to be finite, and dates are dates of the calendar.
-/

namespace BinaryNames.Toml

open Reader

def isDecimal (c : Char) : Bool := c.isDigit

def isOctal (c : Char) : Bool := '0' ≤ c && c ≤ '7'

def isBinary (c : Char) : Bool := c = '0' || c = '1'

/-- Digits of which neighbours may be parted by an underscore; the underscores are dropped. -/
def digits (isDigit : Char → Bool) : Reader (List Char) := do
  let first ← satisfy isDigit
  let others ← many (satisfy isDigit <|> (char '_' *> satisfy isDigit))
  return first :: others

/-- The sign in front of a number, whether it is a minus. -/
def sign : Reader Bool :=
  (do let _ ← char '-'; return true) <|> (do let _ ← optional (char '+'); return false)

/-- The digits of a whole number, which starts with a zero only if it is zero. -/
def wholeDigits : Reader (List Char) := fun chars ↦
  match chars with
  | '0' :: rest => some (['0'], rest)
  | _ => digits isDecimal chars

def integer : Reader Unit := do
  let negative ← sign
  let value := valueIn 10 (← wholeDigits)
  if value < Nat.pow 2 63 ∨ (negative ∧ value = Nat.pow 2 63) then return else failure

/-- A whole number in another base, after the mark of the base. -/
def basedInteger (mark : String) (base : Nat) (isDigit : Char → Bool) : Reader Unit := do
  text mark
  if valueIn base (← digits isDigit) < Nat.pow 2 63 then return else failure

/-- The least real number that is rounded to infinity in binary64. -/
def infinityBound : Nat := Nat.pow 2 1024 - Nat.pow 2 970

/-- Whether `mantissa * 10 ^ exponent` is below the bound.  Numbers with very many or very few
digits before the point are told apart by their count. -/
def isFinite (mantissa : List Char) (exponent : Int) : Bool :=
  let significant := mantissa.dropWhile (· = '0')
  let magnitude := exponent + significant.length
  if significant.isEmpty || magnitude < 300 then true
  else if 400 < magnitude then false
  else
    let value := valueIn 10 significant
    if 0 ≤ exponent then value * Nat.pow 10 exponent.toNat < infinityBound
    else value < infinityBound * Nat.pow 10 (-exponent).toNat

/-- The exponent of a number. -/
def exponent : Reader Int := do
  let _ ← satisfy (fun c ↦ c = 'e' || c = 'E')
  let negative ← sign
  let value : Int := valueIn 10 (← digits isDecimal)
  return if negative then -value else value

/-- A number with a fraction or an exponent. -/
def decimal : Reader Unit := do
  let negative ← sign
  let whole ← wholeDigits
  let fraction ← optional (char '.' *> digits isDecimal)
  let power ← if fraction.isSome then (do return (← optional exponent).getD 0) else exponent
  let places := (fraction.getD []).length
  if negative || isFinite (whole ++ fraction.getD []) (power - places) then return else failure

def specialNumber : Reader Unit := do
  let _ ← sign
  text "inf" <|> text "nan"

/-- A number of `n` digits between two bounds. -/
def bounded (n least greatest : Nat) : Reader Nat := do
  let value := valueIn 10 (← exactly n isDecimal)
  if least ≤ value ∧ value ≤ greatest then return value else failure

def daysInMonth (year month : Nat) : Nat :=
  if month = 2 then
    if year % 4 = 0 ∧ (year % 100 ≠ 0 ∨ year % 400 = 0) then 29 else 28
  else if month = 4 ∨ month = 6 ∨ month = 9 ∨ month = 11 then 30
  else 31

def date : Reader Unit := do
  let year ← bounded 4 0 9999
  let _ ← char '-'
  let month ← bounded 2 1 12
  let _ ← char '-'
  let _ ← bounded 2 1 (daysInMonth year month)

def timeOfDay : Reader Unit := do
  let _ ← bounded 2 0 23
  let _ ← char ':'
  let _ ← bounded 2 0 59
  let _ ← char ':'
  let _ ← bounded 2 0 60
  let _ ← optional (char '.' *> run1 isDecimal)

def zoneOffset : Reader Unit :=
  (do let _ ← satisfy (fun c ↦ c = 'Z' || c = 'z')) <|> do
    let _ ← satisfy (fun c ↦ c = '+' || c = '-')
    let _ ← bounded 2 0 23
    let _ ← char ':'
    let _ ← bounded 2 0 59

def moment : Reader Unit :=
  (do
    date
    let _ ← optional do
      let _ ← satisfy (fun c ↦ c = 'T' || c = 't' || c = ' ')
      timeOfDay
      let _ ← optional zoneOffset) <|>
  timeOfDay

/-- A scalar of any form. -/
def anyScalar : Reader String := do
  let chars ← spelling <|
    moment <|> decimal <|> specialNumber <|> basedInteger "0x" 16 isHexDigit <|>
      basedInteger "0o" 8 isOctal <|> basedInteger "0b" 2 isBinary <|> integer <|>
      text "true" <|> text "false"
  return .ofList chars

end BinaryNames.Toml

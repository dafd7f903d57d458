import Delegation.Toml.Text
import Delegation.Toml.Value

/-!
# Numbers and dates

Integers have 64 bits. Digits may be set apart by single underscores. A float
with a plus sign or none must be smaller than infinity.
-/

namespace Delegation.Toml

open Scan

def digits (p : Char → Bool) : Scan (List Char) := do
  let first ← one p
  let rest ← many ((char '_' *> one p) <|> one p)
  return first :: rest

/-- Digits without a zero in front. -/
def plainDigits : Scan (List Char) := do
  match ← peek? with
  | some '0' => do
    char '0'
    return ['0']
  | _ => digits Char.isDigit

def sign : Scan (List Char) := do
  return (← option (one fun c => c == '+' || c == '-')).toList

def isNegative (sign : List Char) : Bool := sign == ['-']

def bounded (n : Int) : Scan Value :=
  if -0x8000000000000000 ≤ n ∧ n < 0x8000000000000000 then return .integer n else failure

def based (mark : Char) (base : Nat) (p : Char → Bool) : Scan Value := do
  exactly ['0', mark]
  bounded (ofDigits base (← digits p))

def decimal : Scan Value := do
  let negative := isNegative (← sign)
  let n : Int := ofDigits 10 (← plainDigits)
  bounded (if negative then -n else n)

def isOctal (c : Char) : Bool := '0' ≤ c && c ≤ '7'

def isBinary (c : Char) : Bool := c == '0' || c == '1'

def integer : Scan Value :=
  based 'x' 16 isHexDigit <|> based 'o' 8 isOctal <|> based 'b' 2 isBinary <|> decimal

def fractionPart : Scan (List Char) := do
  char '.'
  digits Char.isDigit

/-- The sign and the digits after an `e`. -/
def exponentPart : Scan (List Char × List Char) := do
  discard (one fun c => c == 'e' || c == 'E')
  return (← sign, ← digits Char.isDigit)

/-- Whether `coefficient * 10 ^ exponent` rounds to infinity: it reaches half
way from the greatest finite number to the next power of two. -/
def overflows (coefficient : Nat) (exponent : Int) : Bool :=
  let size := exponent + (Nat.toDigits 10 coefficient).length
  if coefficient = 0 ∨ size < 300 then false
  else if 310 < size then true
  else
    Nat.pow 2 1024 - Nat.pow 2 970 ≤
      coefficient * Nat.pow 10 exponent.toNat / Nat.pow 10 (-exponent).toNat

def floatText (sign whole fraction : List Char) (exponent : Option (List Char × List Char)) :
    String :=
  let fraction := if fraction.isEmpty then [] else '.' :: fraction
  let exponent := exponent.elim [] fun (sign, digits) => 'e' :: sign ++ digits
  String.ofList (sign ++ whole ++ fraction ++ exponent)

def float : Scan Value := do
  let sign ← sign
  let whole ← plainDigits
  let fraction ← option fractionPart
  let exponent ← option exponentPart
  if fraction.isNone && exponent.isNone then failure
  let fraction := fraction.getD []
  let power : Int := exponent.elim 0 fun (sign, digits) =>
    if isNegative sign then -ofDigits 10 digits else ofDigits 10 digits
  if !isNegative sign && overflows (ofDigits 10 (whole ++ fraction)) (power - fraction.length) then
    failure
  return .float (floatText sign whole fraction exponent)

def specialFloat : Scan Value := do
  let sign ← sign
  (do exactly ['i', 'n', 'f']; return .float (String.ofList (sign ++ ['i', 'n', 'f']))) <|>
    (do exactly ['n', 'a', 'n']; return .float (String.ofList (sign ++ ['n', 'a', 'n'])))

-- ---------------------------------------------------------------------------
-- Dates and times
-- ---------------------------------------------------------------------------

def monthDays (year month : Nat) : Nat :=
  match month with
  | 2 => if year % 4 = 0 ∧ (year % 100 ≠ 0 ∨ year % 400 = 0) then 29 else 28
  | 4 | 6 | 9 | 11 => 30
  | _ => 31

/-- Two digits of a number between two bounds. -/
def twoDigits (low high : Nat) : Scan (List Char) := do
  let digits ← count 2 Char.isDigit
  let n := ofDigits 10 digits
  if low ≤ n ∧ n ≤ high then return digits else failure

def date : Scan (List Char) := do
  let year ← count 4 Char.isDigit
  char '-'
  let month ← twoDigits 1 12
  char '-'
  let day ← twoDigits 1 (monthDays (ofDigits 10 year) (ofDigits 10 month))
  return year ++ '-' :: month ++ '-' :: day

def time : Scan (List Char) := do
  let hour ← twoDigits 0 23
  char ':'
  let minute ← twoDigits 0 59
  char ':'
  let second ← twoDigits 0 60
  let fraction ← option (char '.' *> run1 Char.isDigit)
  return hour ++ ':' :: minute ++ ':' :: second ++ fraction.elim [] ('.' :: ·)

def offset : Scan (List Char) :=
  (do
    discard (one fun c => c == 'Z' || c == 'z')
    return ['Z']) <|>
  (do
    let sign ← one fun c => c == '+' || c == '-'
    let hour ← twoDigits 0 23
    char ':'
    let minute ← twoDigits 0 59
    return sign :: hour ++ ':' :: minute)

/-- A time after a date, and how far it is off from universal time. -/
def timeOfDate : Scan (List Char) := do
  discard (one fun c => c == 'T' || c == 't' || c == ' ')
  let time ← time
  let offset ← option offset
  return 'T' :: time ++ offset.getD []

def datetime : Scan Value := do
  let dated : Scan (List Char) := do
    let date ← date
    return date ++ (← option timeOfDate).getD []
  return .datetime (String.ofList (← dated <|> time))

def number : Scan Value := datetime <|> float <|> specialFloat <|> integer

def boolean : Scan Value :=
  (do exactly ['t', 'r', 'u', 'e']; return .boolean true) <|>
    (do exactly ['f', 'a', 'l', 's', 'e']; return .boolean false)

def scalar : Scan Value :=
  (do return .text (← string)) <|> number <|> boolean

end Delegation.Toml

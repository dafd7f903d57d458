import Delegation.Toml.Scan

/-!
# Strings and keys

Basic strings stand between double quotes and know escapes; literal strings
stand between single quotes and know none. Tripled quotes let a string run
over several lines: a line end right after the opening quotes is dropped, and
up to two quotes may stand next to the closing ones.
-/

namespace Delegation.Toml

open Scan

def isHexDigit (c : Char) : Bool :=
  c.isDigit || ('a' ≤ c && c ≤ 'f') || ('A' ≤ c && c ≤ 'F')

def digitValue (c : Char) : Nat :=
  if c.isDigit then c.toNat - 48
  else if 'a' ≤ c then c.toNat - 87
  else c.toNat - 55

def ofDigits (base : Nat) (digits : List Char) : Nat :=
  digits.foldl (fun n c => base * n + digitValue c) 0

/-- A character written by its number in so many hexadecimal digits. -/
def numbered (digits : Nat) : Scan Char := do
  let n := ofDigits 16 (← count digits isHexDigit)
  if n.isValidChar then return Char.ofNat n else failure

/-- What follows the backslash of an escape. -/
def escaped : Scan Char := do
  match ← one fun _ => true with
  | 'b' => return '\x08'
  | 't' => return '\t'
  | 'n' => return '\n'
  | 'f' => return '\x0c'
  | 'r' => return '\r'
  | '"' => return '"'
  | '\\' => return '\\'
  | 'u' => numbered 4
  | 'U' => numbered 8
  | _ => failure

def isPlain (c : Char) : Bool := isPrintable c && c != '"' && c != '\\'

def isLiteral (c : Char) : Bool := isPrintable c && c != '\''

def escape : Scan (List Char) := do
  char '\\'
  return [← escaped]

/-- A backslash at the end of a line takes the blank space after it along. -/
def joinedLine : Scan (List Char) := do
  char '\\'
  blanks
  newline
  discard (many (discard (run1 isBlank) <|> newline))
  return []

def lineBreak : Scan (List Char) := do
  newline
  return ['\n']

/-- One or two quotes that do not close a string. -/
def looseQuotes (quote : Char) : Scan (List Char) := do
  let quotes ← run1 (· == quote)
  if quotes.length < 3 then return quotes else failure

/-- The rest of a string over several lines, after its opening quotes. -/
def longRest (quote : Char) (piece : Scan (List Char)) : Scan (List Char) := do
  discard (option newline)
  let body ← many (piece <|> lineBreak <|> looseQuotes quote)
  let closing ← run (· == quote)
  if 3 ≤ closing.length ∧ closing.length ≤ 5 then return body.flatten ++ closing.drop 3
  else failure

def basicString : Scan (List Char) := do
  char '"'
  let body ← many (run1 isPlain <|> escape)
  char '"'
  return body.flatten

def literalString : Scan (List Char) := do
  char '\''
  let body ← run isLiteral
  char '\''
  return body

def string : Scan String := do
  let longBasic := exactly ['"', '"', '"'] *>
    longRest '"' (run1 isPlain <|> joinedLine <|> escape)
  let longLiteral := exactly ['\'', '\'', '\''] *> longRest '\'' (run1 isLiteral)
  return String.ofList (← longBasic <|> basicString <|> longLiteral <|> literalString)

def isBareKey (c : Char) : Bool := c.isAlphanum || c == '-' || c == '_'

def simpleKey : Scan String := do
  return String.ofList (← basicString <|> literalString <|> run1 isBareKey)

/-- The greatest number of nested containers, and of parts of a dotted key. -/
def maxNesting : Nat := 79

def key : Scan (List String) := do
  let parts ← separated (blanks *> simpleKey <* blanks) (char '.')
  if parts.length ≤ maxNesting then return parts else failure

end Delegation.Toml

/-!
# Scanning

A scanner takes something off the front of the input or fails. A failed
alternative gives its input back.
-/

namespace Delegation.Toml

abbrev Scan := StateT (List Char) Option

namespace Scan

variable {α : Type}

def peek? : Scan (Option Char) := fun input => some (input.head?, input)

def one (p : Char → Bool) : Scan Char
  | c :: rest => if p c then some (c, rest) else none
  | [] => none

def char (c : Char) : Scan Unit := discard (one (· == c))

def exactly : List Char → Scan Unit
  | [] => pure ()
  | c :: rest => do
    char c
    exactly rest

/-- Takes characters of a class as long as they come. -/
def run (p : Char → Bool) : Scan (List Char) := fun input =>
  some (input.takeWhile p, input.dropWhile p)

def run1 (p : Char → Bool) : Scan (List Char) := do
  return (← one p) :: (← run p)

def count (n : Nat) (p : Char → Bool) : Scan (List Char) :=
  match n with
  | 0 => return []
  | n + 1 => do return (← one p) :: (← count n p)

def option (scan : Scan α) : Scan (Option α) := (some <$> scan) <|> pure none

/-- Repeats a scanner at most so many times, until it fails. -/
def upTo (scan : Scan α) : Nat → Scan (List α)
  | 0 => return []
  | n + 1 => do
    match ← option scan with
    | some a => return a :: (← upTo scan n)
    | none => return []

/-- Repeats a scanner until it fails. One that takes something each time can
succeed no more often than there are characters. -/
def many (scan : Scan α) : Scan (List α) := fun input => upTo scan input.length input

def separated (scan : Scan α) (separator : Scan Unit) : Scan (List α) := do
  return (← scan) :: (← many (separator *> scan))

def finish : Scan Unit
  | [] => some ((), [])
  | _ => none

end Scan

-- ---------------------------------------------------------------------------
-- Blanks and comments
-- ---------------------------------------------------------------------------

def isBlank (c : Char) : Bool := c == ' ' || c == '\t'

/-- A character of running text: no control but the tab. -/
def isPrintable (c : Char) : Bool := c == '\t' || (32 ≤ c.toNat && c.toNat != 127)

def blanks : Scan Unit := discard (Scan.run isBlank)

def newline : Scan Unit := Scan.char '\n' <|> Scan.exactly ['\r', '\n']

def comment : Scan Unit := do
  Scan.char '#'
  discard (Scan.run isPrintable)

/-- The rest of a line after what it says. -/
def lineEnd : Scan Unit := do
  blanks
  discard (Scan.option comment)
  newline <|> Scan.finish

/-- What may stand between the items of an array. -/
def filler : Scan Unit :=
  discard (Scan.many (discard (Scan.run1 isBlank) <|> newline <|> comment))

end Delegation.Toml

import Delegation.Binary64

/-!
# The shortest decimal that reads back

Of the decimals that round to a given finite number this picks one with the
fewest digits, and of these the one nearest to the number; of two equally near
the upper one. The reals that round to a number form an interval, which
contains its ends exactly when the significand is even.
-/

namespace Delegation

/-- `coefficient * 10 ^ exponent`. -/
structure Decimal where
  coefficient : Nat
  exponent : Int
  deriving DecidableEq, Repr

namespace Decimal

def trim : Nat → Decimal → Decimal
  | 0, d => d
  | fuel + 1, d =>
    if d.coefficient ≠ 0 ∧ d.coefficient % 10 = 0 then
      trim fuel ⟨d.coefficient / 10, d.exponent + 1⟩
    else d

end Decimal

/-- A positive real given by its numerator and the ends of an interval around
it, all over one denominator. -/
structure Bracket where
  low : Nat
  value : Nat
  high : Nat
  den : Nat
  closed : Bool
  deriving DecidableEq, Repr

namespace Bracket

def digitCount (n : Nat) : Nat := (Nat.toDigits 10 n).length

/-- The greatest `e` with `10 ^ e` at most the value. -/
def magnitude (b : Bracket) : Int :=
  if b.den ≤ b.value then (digitCount (b.value / b.den) : Int) - 1
  else -(digitCount ((b.den - 1) / b.value) : Int)

def scale (b : Bracket) (shift : Int) : Bracket :=
  let up := Nat.pow 10 shift.toNat
  { b with
    low := b.low * up, value := b.value * up, high := b.high * up
    den := b.den * Nat.pow 10 (-shift).toNat }

def holds (b : Bracket) (n : Nat) : Bool :=
  if b.closed then b.low ≤ n * b.den && n * b.den ≤ b.high
  else b.low < n * b.den && n * b.den < b.high

/-- The integer in the interval next to the value, if there is one. -/
def nearest? (b : Bracket) : Option Nat :=
  let below := b.value / b.den
  let above := below + 1
  match b.holds below, b.holds above with
  | true, true => if 2 * (b.value % b.den) < b.den then some below else some above
  | true, false => some below
  | false, true => some above
  | false, false => none

/-- Tries grids of more and more digits: `fuel` more after `digits`. -/
def search (b : Bracket) (digits : Nat) : Nat → Decimal
  | 0 => ⟨b.value / b.den, 0⟩
  | fuel + 1 =>
    let shift := (digits : Int) - 1 - b.magnitude
    match (b.scale shift).nearest? with
    | some n => Decimal.trim digits ⟨n, -shift⟩
    | none => search b (digits + 1) fuel

end Bracket

namespace Binary64

/-- The reals that round to a finite number other than zero. The gap below a
power of two is half the gap above it. -/
def bracket (x : Binary64) : Bracket :=
  let m := x.significand
  let gap := if x.fraction = 0 ∧ 1 ≤ x.biasedExponent then 1 else 2
  let up := Nat.pow 2 x.exponent.toNat
  { low := (4 * m - gap) * up
    value := 4 * m * up
    high := (4 * m + 2) * up
    den := 4 * Nat.pow 2 (-x.exponent).toNat
    closed := m % 2 == 0 }

/-- The shortest decimal for a finite number, without its sign. Seventeen
digits always suffice. -/
def shortest (x : Binary64) : Decimal :=
  if x.isZero then ⟨0, 0⟩ else x.bracket.search 1 17

end Binary64

end Delegation

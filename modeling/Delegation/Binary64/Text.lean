import Delegation.Binary64.Shortest

/-!
# Texts of floating-point numbers

Two layouts of the shortest decimal. The plain one is always positional and
writes an integer without a point. The detailed one keeps a point in every
positional text and turns to an exponent for very large and very small
numbers.
-/

namespace Delegation

/-- How a decimal is laid out: which decimal exponents are positional (all, or
a range with both ends), and whether an integer ends in a point and a zero. -/
structure FloatLayout where
  positional : Option (Int × Int)
  keepsPoint : Bool

namespace FloatLayout

def plain : FloatLayout := ⟨none, false⟩

def detailed : FloatLayout := ⟨some (-4, 15), true⟩

def zeros (n : Nat) : List Char := List.replicate n '0'

/-- The digits with a point where the exponent puts it. -/
def positionalText (layout : FloatLayout) (d : Decimal) : List Char :=
  let digits := Nat.toDigits 10 d.coefficient
  let tail := if layout.keepsPoint then ['.', '0'] else []
  if 0 ≤ d.exponent then digits ++ zeros d.exponent.toNat ++ tail
  else
    let places := (-d.exponent).toNat
    if places < digits.length then
      digits.take (digits.length - places) ++ ['.'] ++ digits.drop (digits.length - places)
    else ['0', '.'] ++ zeros (places - digits.length) ++ digits

/-- One digit before the point, and the power of ten after an `e`. -/
def exponentText (d : Decimal) : List Char :=
  let digits := Nat.toDigits 10 d.coefficient
  let exponent := d.exponent + digits.length - 1
  let rest := digits.drop 1
  digits.take 1 ++ (if rest.isEmpty then [] else '.' :: rest) ++ ['e'] ++ (toString exponent).toList

/-- Whether a decimal is written with its point in place; zero always is. -/
def isPositional (layout : FloatLayout) (d : Decimal) : Bool :=
  match layout.positional with
  | none => true
  | some (low, high) =>
    let exponent := d.exponent + (Nat.toDigits 10 d.coefficient).length - 1
    d.coefficient == 0 || (low ≤ exponent && exponent ≤ high)

def decimalText (layout : FloatLayout) (d : Decimal) : List Char :=
  if layout.isPositional d then layout.positionalText d else exponentText d

end FloatLayout

namespace Binary64

def textIn (layout : FloatLayout) (x : Binary64) : String :=
  if x.isNaN then "NaN"
  else
    let digits := if x.isInfinite then "inf" else String.ofList (layout.decimalText x.shortest)
    if x.isNegative then "-" ++ digits else digits

def text (x : Binary64) : String := x.textIn .plain

def detailedText (x : Binary64) : String := x.textIn .detailed

end Binary64

end Delegation

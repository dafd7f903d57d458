/-!
# Binary floating-point numbers

A number in the 64-bit binary interchange format, held as its bits, so that
two numbers are the same value exactly when their bits agree. Comparison as
numbers is separate: NaN equals nothing, and the two zeros are equal.
-/

namespace Delegation

structure Binary64 where
  bits : UInt64
  deriving DecidableEq, Repr, Inhabited

namespace Binary64

def nan : Binary64 := ⟨0x7ff8000000000000⟩

def isNegative (x : Binary64) : Bool := x.bits >>> 63 == 1

/-- The bits without the sign. -/
def magnitude (x : Binary64) : UInt64 := x.bits &&& 0x7fffffffffffffff

def isNaN (x : Binary64) : Bool := 0x7ff0000000000000 < x.magnitude

def isInfinite (x : Binary64) : Bool := x.magnitude == 0x7ff0000000000000

def isZero (x : Binary64) : Bool := x.magnitude == 0

def numEq (x y : Binary64) : Bool :=
  !x.isNaN && !y.isNaN && (x.bits == y.bits || (x.isZero && y.isZero))

def biasedExponent (x : Binary64) : Nat := (x.magnitude >>> 52).toNat

def fraction (x : Binary64) : Nat := (x.bits &&& 0xfffffffffffff).toNat

/-- A finite number is `significand * 2 ^ exponent` up to its sign. A normal one
has a leading bit that is not stored. -/
def significand (x : Binary64) : Nat :=
  if x.biasedExponent = 0 then x.fraction else x.fraction + 4503599627370496

def exponent (x : Binary64) : Int :=
  if x.biasedExponent = 0 then -1074 else (x.biasedExponent : Int) - 1075

end Binary64

end Delegation

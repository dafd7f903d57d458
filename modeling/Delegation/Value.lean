import Delegation.Binary64

/-!
# Values

Values are first-order data. Instances and records live in the heap and are
named by their index; functions, bound methods and templates carry a serial
number, so two of them are the same object exactly when they are equal.
-/

namespace Delegation

structure InstanceId where
  index : Nat
  deriving DecidableEq, Repr, Inhabited

structure RecordId where
  index : Nat
  deriving DecidableEq, Repr, Inhabited

structure HostFunction where
  serial : Nat
  name : String
  deriving DecidableEq, Repr, Inhabited

/-- A callable that stands for one instance: a call initializes that instance
and gives it. -/
structure Template where
  serial : Nat
  target : InstanceId
  deriving DecidableEq, Repr, Inhabited

inductive Value where
  | none
  | bool (b : Bool)
  | int (n : Int64)
  | float (x : Binary64)
  | text (s : String)
  | record (id : RecordId)
  | function (f : HostFunction)
  | inst (id : InstanceId)
  /-- A callable paired for good with the instance that owns it. -/
  | method (serial : Nat) (owner : InstanceId) (name : String) (callee : Value)
  | template (t : Template)
  deriving DecidableEq, Inhabited

structure Arguments where
  positional : List Value := []
  keywords : List (String × Value) := []
  deriving DecidableEq, Inhabited

def Arguments.prepend (arguments : Arguments) (value : Value) : Arguments :=
  { arguments with positional := value :: arguments.positional }

namespace Value

/-- The instance behind an instance or a template. -/
def instance? : Value → Option InstanceId
  | inst id => some id
  | template t => some t.target
  | _ => Option.none

def isCallable : Value → Bool
  | function _ | method .. | template _ => true
  | _ => false

def hasAttributes : Value → Bool
  | record _ | inst _ | template _ => true
  | _ => false

/-- Equality of values: by content for plain data, numerically for floats, by
identity for everything else. -/
def same : Value → Value → Bool
  | float x, float y => x.numEq y
  | a, b => a == b

def plainTruth : Value → Bool
  | none => false
  | bool b => b
  | int n => n != 0
  | float x => !x.isZero
  | text s => !s.isEmpty
  | _ => true

end Value

end Delegation

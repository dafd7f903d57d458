import Delegation.Heap.Descent
import Delegation.SpecialName

/-!
# Finding the initializer

The initializer of an instance is its own `__init__`, if that is a bound
method, and else the first one that its instance and template delegates have,
in order. The path to it lists the levels gone through, the deepest first.
-/

namespace Delegation

/-- A delegate gone through: the level of its owner it was found in. -/
structure PathStep where
  owner : InstanceId
  level : Nat
  delegate : Value
  deriving DecidableEq

structure Initializer where
  holder : InstanceId
  method : Value
  path : List PathStep
  deriving DecidableEq

namespace Heap

variable (h : Heap)

/-- The own member `__init__`, when it is a bound method. -/
def ownInit? (i : InstanceId) : Option Value :=
  match (h.inst i).members.get? SpecialName.init.text with
  | some (.method serial owner name callee) => some (.method serial owner name callee)
  | _ => none

def initializerAmong (owner : InstanceId)
    (enter : InstanceId → Except Error (Option Initializer)) :
    List (Nat × Value) → Except Error (Option Initializer)
  | [] => .ok none
  | (level, delegate) :: rest =>
    match delegate.instance? with
    | none => initializerAmong owner enter rest
    | some j => do
      match ← enter j with
      | some found => return some { found with path := found.path ++ [⟨owner, level, delegate⟩] }
      | none => initializerAmong owner enter rest

def initializerVisit : Visit (Option Initializer) := fun _ i enter =>
  match h.ownInit? i with
  | some method => .ok (some ⟨i, method, []⟩)
  | none => initializerAmong i enter (h.inst i).chain.indexed

def initializerAt (depth : Depth) (i : InstanceId) : Except Error (Option Initializer) :=
  h.descend h.initializerVisit depth i

/-- The initializer that a call of a template of this instance runs. -/
def initializer? (i : InstanceId) : Except Error (Option Initializer) :=
  h.initializerAt (h.root i) i

end Heap

end Delegation

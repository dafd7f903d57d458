import Delegation.Heap.Descent
import Delegation.SpecialName

/-!
# Installing delegates

A delegate goes into a chain only if the receiver cannot be reached from it
and everything below it stays within the receiver's depth bound. A rejected
installation changes nothing.
-/

namespace Delegation.Heap

variable (h : Heap)

/-- A frozen instance takes no writes. -/
def checkOpen (slot : String) (i : InstanceId) : Except Error Unit :=
  if (h.inst i).frozen then .error (.frozen (h.inst i).name slot) else .ok ()

/-- Looks for the receiver at and below an instance, at the depth the instance
would have under the receiver. -/
def placementVisit (receiver : InstanceId) : Visit Unit := fun _ i enter =>
  if i = receiver then .error (.delegateCycle (h.inst receiver).name)
  else ((h.inst i).chain.delegates.filterMap Value.instance?).forM enter

def checkBelow (receiver : InstanceId) (depth : Depth) (i : InstanceId) : Except Error Unit :=
  h.descend (h.placementVisit receiver) depth i

def checkPlacement (receiver : InstanceId) (value : Value) : Except Error Unit :=
  match value.instance? with
  | some i => do
    let below ← (h.root receiver).descend (h.inst receiver).name
    h.checkBelow receiver below i
  | none => .ok ()

/-- Appends a level of least priority. -/
def addDelegate (receiver : InstanceId) (value : Value) : Except Error Heap := do
  h.checkOpen SpecialName.super.text receiver
  h.checkPlacement receiver value
  return h.setChain receiver ((h.inst receiver).chain.append value)

def setSuper (receiver : InstanceId) (value : Value) : Except Error Heap := do
  h.checkOpen SpecialName.super.text receiver
  h.checkPlacement receiver value
  return h.setChain receiver ((h.inst receiver).chain.setHead value)

/-- Puts a delegate into a level that still holds `expected`; a level that
holds something else by now keeps it. -/
def fillLevel (receiver : InstanceId) (index : Nat) (expected value : Value) :
    Except Error Heap :=
  if (h.inst receiver).chain.holds index expected then do
    h.checkOpen SpecialName.super.text receiver
    h.checkPlacement receiver value
    return h.setChain receiver ((h.inst receiver).chain.setLevel index value)
  else return h

end Delegation.Heap

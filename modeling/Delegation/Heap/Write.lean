import Delegation.Heap.Placement
import Delegation.Heap.Read

/-!
# Writing attributes

A write goes where a read would come from: to the own member, else down into
the first delegate that has the name, and if none has it, to a new own member.
Records take no writes, and no frozen instance on the way lets a write pass.
-/

namespace Delegation.Heap

variable (h : Heap)

def writeVisit (name : String) (value : Value) : Visit Heap := fun depth i enter => do
  h.checkOpen name i
  if name = SpecialName.super.text then h.setSuper i value
  else if (h.inst i).members.contains name then return h.setMember i name value
  else
    match ← h.definer? (h.inst i).chain name (h.inst i).name depth with
    | none => return h.setMember i name value
    | some (delegate, _) =>
      match delegate.instance? with
      | some j => enter j
      | none => .error (.fieldAssignment (h.typeName delegate))

def assignAt (name : String) (value : Value) (depth : Depth) (i : InstanceId) : Except Error Heap :=
  h.descend (h.writeVisit name value) depth i

def assign (name : String) (value : Value) (i : InstanceId) : Except Error Heap :=
  h.assignAt name value (h.root i) i

/-- Writes an attribute of any value; only instances and templates take one. -/
def write (target : Value) (name : String) (value : Value) : Except Error Heap :=
  match target.instance? with
  | some i => h.assign name value i
  | none => .error (.fieldAssignment (h.typeName target))

end Delegation.Heap

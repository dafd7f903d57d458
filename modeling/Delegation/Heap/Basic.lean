import Delegation.Chain
import Delegation.NameMap

/-!
# The heap

Instances and records by index. An object model holds no other state that
values refer to; a serial number is handed out for each bound method and each
template.
-/

namespace Delegation

/-- A name, own members and a chain of delegates. The depth bound limits every
traversal that starts here. -/
structure Instance where
  name : String
  maxDepth : Nat
  members : NameMap Value := {}
  chain : Chain := {}
  frozen : Bool := false
  deriving DecidableEq, Inhabited

/-- A plain aggregate; its fields are fixed when it is made. -/
structure Record where
  fields : NameMap Value := {}
  frozen : Bool := false
  deriving DecidableEq, Inhabited

structure Heap where
  instances : Array Instance := #[]
  records : Array Record := #[]
  nextSerial : Nat := 0
  deriving DecidableEq, Inhabited

namespace Heap

variable (h : Heap)

def inst (i : InstanceId) : Instance := h.instances.getD i.index default

def record (r : RecordId) : Record := h.records.getD r.index default

def modifyInst (i : InstanceId) (change : Instance → Instance) : Heap :=
  { h with instances := h.instances.modify i.index change }

def modifyRecord (r : RecordId) (change : Record → Record) : Heap :=
  { h with records := h.records.modify r.index change }

/-- Sets an own member, new or not, whatever the instance's state. -/
def setMember (i : InstanceId) (name : String) (value : Value) : Heap :=
  h.modifyInst i fun x => { x with members := x.members.insert name value }

def setChain (i : InstanceId) (chain : Chain) : Heap :=
  h.modifyInst i fun x => { x with chain := chain }

def addInstance (name : String) (maxDepth : Nat) : InstanceId × Heap :=
  (⟨h.instances.size⟩, { h with instances := h.instances.push { name, maxDepth } })

/-- Of several fields with one name the last counts. -/
def addRecord (fields : List (String × Value)) : RecordId × Heap :=
  (⟨h.records.size⟩, { h with records := h.records.push { fields := .ofList fields } })

def takeSerial : Nat × Heap :=
  (h.nextSerial, { h with nextSerial := h.nextSerial + 1 })

def addTemplate (target : InstanceId) : Value × Heap :=
  let (serial, h) := h.takeSerial
  (.template ⟨serial, target⟩, h)

def addMethod (owner : InstanceId) (name : String) (callee : Value) : Value × Heap :=
  let (serial, h) := h.takeSerial
  (.method serial owner name callee, h)

def superValue (i : InstanceId) : Value := (h.inst i).chain.head?.getD .none

def typeName : Value → String
  | .none => "NoneType"
  | .bool _ => "bool"
  | .int _ => "int"
  | .float _ => "float"
  | .text _ => "string"
  | .record _ => "struct"
  | .function _ => "builtin_function_or_method"
  | .inst i => (h.inst i).name
  | .method .. => "symbol"
  | .template _ => "object"

theorem inst_of_le {i : InstanceId} (hi : h.instances.size ≤ i.index) : h.inst i = default := by
  simp [inst, hi]

theorem inst_modify (i j : InstanceId) (change : Instance → Instance) :
    (h.modifyInst i change).inst j =
      if i = j ∧ i.index < h.instances.size then change (h.inst j) else h.inst j := by
  obtain ⟨i⟩ := i
  obtain ⟨j⟩ := j
  simp only [inst, modifyInst, Array.getD_eq_getD_getElem?, Array.getElem?_modify,
    InstanceId.mk.injEq]
  by_cases hij : i = j
  · subst hij
    by_cases hi : i < h.instances.size <;> simp [hi]
  · simp [hij]

end Heap

end Delegation

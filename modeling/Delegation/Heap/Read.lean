import Delegation.Heap.Descent
import Delegation.SpecialName

/-!
# Reading attributes

`super` reads the head delegate. Any other name is an own member or is asked
of the delegates in order: the first that has it decides, a level that fails
or lacks it is passed over, and only what the last level answers is kept. A
traversal that gets too deep fails at once.
-/

namespace Delegation

/-- Asks each in turn until one answers. Otherwise the last outcome stands. -/
def firstSuccess {α β : Type} (ask : α → Except Error (Option β)) :
    Except Error (Option β) → List α → Except Error (Option β)
  | outcome, [] => outcome
  | _, a :: rest =>
    match ask a with
    | .ok (some b) => .ok (some b)
    | .ok none => firstSuccess ask (.ok none) rest
    | .error e => if e.isDepth then .error e else firstSuccess ask (.error e) rest

namespace Heap

variable (h : Heap)

/-- An attribute of a delegate, given how to read one of an instance. -/
def attrOf (name : String) (enter : InstanceId → Except Error (Option Value)) :
    Value → Except Error (Option Value)
  | .record r => .ok ((h.record r).fields.get? name)
  | .inst i => enter i
  | .template t => enter t.target
  | value => .error (.missingAttribute (h.typeName value) name)

/-- An attribute of an instance, given how to read one of an instance below. -/
def lookupVisit (name : String) : Visit (Option Value) := fun _ i enter =>
  if name = SpecialName.super.text then .ok (some (h.superValue i))
  else
    match (h.inst i).members.get? name with
    | some value => .ok (some value)
    | none => firstSuccess (h.attrOf name enter) (.ok none) (h.inst i).chain.delegates

def lookupAt (name : String) (depth : Depth) (i : InstanceId) : Except Error (Option Value) :=
  h.descend (h.lookupVisit name) depth i

def lookup (name : String) (i : InstanceId) : Except Error (Option Value) :=
  h.lookupAt name (h.root i) i

def lookupBelow (name owner : String) (depth : Depth) (i : InstanceId) :
    Except Error (Option Value) :=
  (depth.descend owner).bind fun below => h.lookupAt name below i

def lookupChain (chain : Chain) (name owner : String) (depth : Depth) :
    Except Error (Option Value) :=
  firstSuccess (h.attrOf name (h.lookupBelow name owner depth)) (.ok none) chain.delegates

theorem lookupAt_eq (name : String) (depth : Depth) (i : InstanceId) :
    h.lookupAt name depth i =
      if name = SpecialName.super.text then .ok (some (h.superValue i))
      else
        match (h.inst i).members.get? name with
        | some value => .ok (some value)
        | none => h.lookupChain (h.inst i).chain name (h.inst i).name depth := by
  rw [lookupAt, descend_eq]
  rfl

def require (name : String) (i : InstanceId) : Except Error Value := do
  match ← h.lookup name i with
  | some value => .ok value
  | none => .error (.missingAttribute (h.inst i).name name)

def read (value : Value) (name : String) : Except Error (Option Value) :=
  h.attrOf name (h.lookup name) value

def canRead (value : Value) (name : String) : Bool :=
  match h.read value name with
  | .ok (some _) => true
  | _ => false

/-- A hook counts only as a bound method. A failed look-up counts as absent. -/
def hook? (hook : SpecialName) (i : InstanceId) : Option Value :=
  match h.lookup hook.text i with
  | .ok (some (.method serial owner name callee)) => some (.method serial owner name callee)
  | _ => none

/-- The first delegate that has `name` now, and the depth at which a write to
it goes on. -/
def definerAmong (name owner : String) (depth : Depth) :
    List Value → Except Error (Option (Value × Depth))
  | [] => .ok none
  | delegate :: rest =>
    match delegate.instance? with
    | some j => do
      let below ← depth.descend owner
      match h.lookupAt name below j with
      | .ok (some _) => .ok (some (delegate, below))
      | .error e => if e.isDepth then .error e else definerAmong name owner depth rest
      | .ok none => definerAmong name owner depth rest
    | none =>
      if h.canRead delegate name then .ok (some (delegate, depth))
      else definerAmong name owner depth rest

def definer? (chain : Chain) (name owner : String) (depth : Depth) :
    Except Error (Option (Value × Depth)) :=
  h.definerAmong name owner depth chain.delegates

end Heap

end Delegation

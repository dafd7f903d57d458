import Delegation.Heap.Descent

/-!
# Attribute names

The own member names in order, then the names of every delegate, level by
level. A name that occurs twice is listed twice.
-/

namespace Delegation.Heap

variable (h : Heap)

/-- The attribute names of a delegate, given how to collect an instance's. -/
def namesOf (enter : InstanceId → Except Error (List String)) :
    Value → Except Error (List String)
  | .record r => .ok (h.record r).fields.names
  | .inst i => enter i
  | .template t => enter t.target
  | _ => .ok []

def namesAmong (enter : InstanceId → Except Error (List String)) :
    List Value → Except Error (List String)
  | [] => .ok []
  | delegate :: rest => do
    let names ← h.namesOf enter delegate
    return names ++ (← namesAmong enter rest)

def namesVisit : Visit (List String) := fun _ i enter => do
  return (h.inst i).members.names ++ (← h.namesAmong enter (h.inst i).chain.delegates)

def namesAt (depth : Depth) (i : InstanceId) : Except Error (List String) :=
  h.descend h.namesVisit depth i

def names (i : InstanceId) : Except Error (List String) :=
  h.namesAt (h.root i) i

def chainNames (chain : Chain) (owner : String) (depth : Depth) : Except Error (List String) :=
  h.namesAmong (fun i => (depth.descend owner).bind fun below => h.namesAt below i)
    chain.delegates

theorem namesAt_eq (depth : Depth) (i : InstanceId) :
    h.namesAt depth i =
      (h.chainNames (h.inst i).chain (h.inst i).name depth).map
        ((h.inst i).members.names ++ ·) := by
  rw [namesAt, descend_eq]
  simp only [namesVisit, chainNames]
  rfl

/-- The attribute names of any value; one without attributes has none. -/
def valueNames (value : Value) : Except Error (List String) :=
  h.namesOf h.names value

end Delegation.Heap

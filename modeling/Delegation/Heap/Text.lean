import Delegation.Heap.Names
import Delegation.Binary64.Text
import Delegation.Text.Quoted

/-!
# Texts of values

The text of a value as a user sees it and as a developer sees it. Neither runs
user code. An instance shows its name and its attribute names; one whose names
cannot be collected shows dots instead.
-/

namespace Delegation.Heap

variable (h : Heap)

def structuralText (i : InstanceId) : Except Error String := do
  let names := ", ".intercalate (← h.names i)
  return s!"{(h.inst i).name}({names})"

/-- The text of a value, given the text of records. -/
def displayWith (recordText : RecordId → String) : Value → String
  | .none => "None"
  | .bool true => "True"
  | .bool false => "False"
  | .int n => toString n.toInt
  | .float x => x.text
  | .text s => Text.quoted s
  | .record r => recordText r
  | .function f => s!"<built-in function {f.name}>"
  | .inst i => (h.structuralText i).toOption.getD s!"{(h.inst i).name}(...)"
  | .method _ _ name _ => name
  | .template t => s!"{(h.inst t.target).name}()"

def recordText : Nat → RecordId → String
  | 0, _ => "struct(...)"
  | nesting + 1, r =>
    let field := fun (name, value) => s!"{name} = {h.displayWith (recordText nesting) value}"
    let fields := ", ".intercalate ((h.record r).fields.entries.map field)
    s!"struct({fields})"

/-- The text of a value for users. A record holds only records older than
itself, so no nesting is deeper than the number of records. -/
def display (value : Value) : String :=
  h.displayWith (h.recordText h.records.size) value

/-- The text of a value for developers. `identity` tells instances of one name
apart. -/
def detailed (identity : InstanceId → String) : Value → String
  | .none => "Value::None"
  | .bool b => s!"Value::Boolean({b})"
  | .int n => s!"Value::Number(Integer({n.toInt}))"
  | .float x => s!"Value::Number(Float({x.detailedText}))"
  | .text s => s!"Value::String({Text.quoted s})"
  | .record r => s!"Value::Struct({h.display (.record r)})"
  | .function f => s!"Value::Function({f.name})"
  | .inst i => s!"Value::Instance({(h.inst i).name} {identity i})"
  | .method _ _ name _ => s!"Value::Method({name})"
  | .template t => s!"Value::Template({(h.inst t.target).name})"

end Delegation.Heap

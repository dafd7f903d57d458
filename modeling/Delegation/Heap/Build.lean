import Delegation.Event
import Delegation.Heap.Placement
import Delegation.Settings
import Delegation.Text.Blank

/-!
# Building templates

The arguments of the builder are a name, then positional delegates and
callables, then keyword members. Callables become bound methods of the new
instance, positional ones under their declared name; every other keyword value
is kept as it is. A rejected build leaves the heap as it was.
-/

namespace Delegation.Heap

/-- The name under which a positional callable becomes a member. -/
def memberName : Value → String
  | .function f => f.name
  | .method _ _ name _ => name
  | _ => ""

/-- What a member of the given name holds: callables are bound to the owner. -/
def bindMember (h : Heap) (owner : InstanceId) (name : String) : Value → Value × Heap
  | .function f => h.addMethod owner name (.function f)
  | .method serial inner declared callee =>
    h.addMethod owner name (.method serial inner declared callee)
  | value => (value, h)

def supplyMember (builtin : String) (owner : InstanceId) (h : Heap) (member : String × Value) :
    Except Error Heap :=
  let (name, value) := member
  if (h.inst owner).members.contains name then .error (.template builtin (.duplicateMember name))
  else
    let (held, h) := h.bindMember owner name value
    .ok (h.setMember owner name held)

def addPositional (builtin : String) (owner : InstanceId) (h : Heap) (value : Value) :
    Except Error Heap :=
  match value with
  | .template _ | .inst _ | .record _ => h.addDelegate owner value
  | .function _ | .method .. =>
    if (memberName value).isEmpty then .error (.template builtin .unnamedCallable)
    else h.supplyMember builtin owner (memberName value, value)
  | _ => .error (.template builtin (.unsuitable (h.typeName value)))

/-- The name a template gets, and the positional arguments after it. -/
def templateName (h : Heap) (builtin : String) : List Value → Except Error (String × List Value)
  | [] => .error (.template builtin .missingName)
  | .text name :: rest =>
    if Text.isBlank name then .error (.template builtin .blankName) else .ok (name, rest)
  | value :: _ => .error (.template builtin (.nameNotText (h.typeName value)))

def build (h : Heap) (settings : Settings) (arguments : Arguments) : Except Error (Template × Heap) := do
  let builtin := settings.builtinName
  let (name, rest) ← h.templateName builtin arguments.positional
  let (owner, h) := h.addInstance name settings.maxDelegateDepth
  let h ← rest.foldlM (addPositional builtin owner) h
  let h ← arguments.keywords.foldlM (supplyMember builtin owner) h
  let (serial, h) := h.takeSerial
  return (⟨serial, owner⟩, h)

def buildEvents (h : Heap) (template : Template) : List Event :=
  let x := h.inst template.target
  [.builtTemplate x.name x.members.size x.chain.delegates.length]

end Delegation.Heap

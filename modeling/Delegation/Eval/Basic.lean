import Delegation.Heap.Build
import Delegation.Heap.Freeze
import Delegation.Heap.Report
import Delegation.Heap.Write
import Delegation.Machine

/-!
# Evaluations

An evaluation runs on a machine and ends in a value or an error, with the
machine it leaves in either case. Or it is halted, because calls nest too deep
or because a program made a reference up. Here are the evaluations that call
nothing.
-/

namespace Delegation

inductive Halt where
  | tooManyCalls
  | unknownReference
  deriving DecidableEq, Repr

abbrev Eval (γ σ : Type) := ExceptT Error (StateT (Machine γ σ) (Except Halt))

abbrev Caller (γ σ : Type) := Value → Arguments → Eval γ σ Value

namespace Eval

variable {γ σ α : Type}

def halt (reason : Halt) : Eval γ σ α := fun _ => .error reason

def outcome (result : Except Error α) : Eval γ σ α := fun m => .ok (result, m)

def machine : Eval γ σ (Machine γ σ) := fun m => .ok (.ok m, m)

def modifyMachine (change : Machine γ σ → Machine γ σ) : Eval γ σ Unit :=
  fun m => .ok (.ok (), change m)

/-- The outcome of an evaluation as a value. -/
def attempt (x : Eval γ σ α) : Eval γ σ (Except Error α) := fun m =>
  match x m with
  | .ok (result, m) => .ok (.ok result, m)
  | .error reason => .error reason

def heap : Eval γ σ Heap := do return (← machine).heap

def report (events : Unit → List Event) : Eval γ σ Unit := modifyMachine fun m => m.report events

def setHeap (h : Heap) : Eval γ σ Unit := modifyMachine fun m => { m with heap := h }

/-- Takes over a changed heap; a change that failed leaves the heap as it is. -/
def commit (change : Except Error Heap) : Eval γ σ Unit := do
  setHeap (← outcome change)

def allocate (add : Heap → α × Heap) : Eval γ σ α := do
  let (a, h) := add (← heap)
  setHeap h
  return a

def newFunction (name : String) (body : Body γ) : Eval γ σ Value := do
  let m ← machine
  modifyMachine fun m => { m with bodies := m.bodies.push body }
  return .function ⟨m.bodies.size, name⟩

-- ---------------------------------------------------------------------------
-- Attributes and hooks
-- ---------------------------------------------------------------------------

def read (target : Value) (name : String) : Eval γ σ (Option Value) := do
  let h ← heap
  report fun _ => h.readEvents target name
  outcome (h.read target name)

def require (i : InstanceId) (name : String) : Eval γ σ Value := do
  let h ← heap
  report fun _ => h.readEvents (.inst i) name
  outcome (h.require name i)

def write (target : Value) (name : String) (value : Value) : Eval γ σ Unit := do
  let h ← heap
  report fun _ => h.writeEvents target name
  commit (h.write target name value)

def hook? (hook : SpecialName) (i : InstanceId) : Eval γ σ (Option Value) := do
  let h ← heap
  report fun _ => h.readEvents (.inst i) hook.text
  return h.hook? hook i

def freeze (target : Value) : Eval γ σ Unit := do
  let h ← heap
  let (frozen, order) := h.freezeAll [target]
  report fun _ => order.flatMap h.freezeEvents
  setHeap frozen

def build (settings : Settings) (arguments : Arguments) : Eval γ σ Value := do
  let (template, h) ← outcome ((← heap).build settings arguments)
  setHeap h
  report fun _ => h.buildEvents template
  return .template template

end Eval

end Delegation

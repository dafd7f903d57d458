import Delegation.Builtins
import Delegation.Event
import Delegation.Heap.Basic
import Delegation.Settings

/-!
# The machine

The state that user code runs against: the heap, the bodies of functions, the
globals, the builtins below them, the settings, the events heard so far, and a state
of the host's own. `γ` is the host's code, `σ` its state.
-/

namespace Delegation

structure Machine (γ σ : Type) where
  host : σ
  heap : Heap := {}
  bodies : Array (Body γ) := #[]
  globals : NameMap Value := {}
  builtins : Environment γ := {}
  settings : Settings := {}
  listening : Bool := false
  trace : Array Event := #[]

namespace Machine

variable {γ σ : Type} (m : Machine γ σ)

/-- Whether a value refers only to what this machine has given out. -/
def knows : Value → Bool
  | .record r => r.index < m.heap.records.size
  | .function f => f.serial < m.bodies.size
  | .inst i => i.index < m.heap.instances.size
  | .method serial owner _ callee =>
    serial < m.heap.nextSerial && owner.index < m.heap.instances.size && knows callee
  | .template t => t.serial < m.heap.nextSerial && t.target.index < m.heap.instances.size
  | _ => true

def defines (name : String) : Bool :=
  m.globals.contains name || m.builtins.hasName name

/-- Records events while the machine listens; they are not worked out otherwise. -/
def report (events : Unit → List Event) : Machine γ σ :=
  if m.listening then { m with trace := m.trace ++ (events ()).toArray } else m

def bindName (name : String) (value : Value) : Machine γ σ :=
  { m with globals := m.globals.insert name value }

def register (resolver : Resolver γ) : Machine γ σ :=
  { m with builtins := m.builtins.register resolver }

/-- Makes the template builder available under the name in the settings. -/
def offerBuilder (settings : Settings) : Machine γ σ :=
  let m := m.report fun _ => [.installing settings.builtinName settings.maxDelegateDepth]
  { m.register (.object settings.builtinName) with settings := settings }

def bare (host : σ) : Machine γ σ := { host }

def withBuilder (host : σ) (settings : Settings) : Machine γ σ := (bare host).offerBuilder settings

end Machine

end Delegation

import Delegation.Eval.Construction
import Delegation.Eval.Hooks
import Delegation.Eval.Names
import Delegation.Program

/-!
# Running programs and calling values

Calls are the only way from one evaluation into another. `enter` ties the knot
with a bound on how deep calls nest; everything else takes the way to call a
value as a parameter.
-/

namespace Delegation.Eval

variable {γ σ α : Type}

def performWith (call : Caller γ σ) (runCode : γ → Arguments → Eval γ σ Value) :
    (operation : Operation γ σ) → Eval γ σ operation.Answer
  | .inspect => machine
  | .update change => modifyMachine fun m => { m with host := change m.host }
  | .read target name => read target name
  | .require i name => require i name
  | .write target name value => write target name value
  | .addDelegate receiver delegate => do commit ((← heap).addDelegate receiver delegate)
  | .setSuper receiver delegate => do commit ((← heap).setSuper receiver delegate)
  | .hook i hook => hook? hook i
  | .freeze target => freeze target
  | .call callee arguments => call callee arguments
  | .truth target => truth call target
  | .hooklessTruth i => hooklessTruth call i
  | .toText target => toText call target
  | .resolve name => resolve runCode name
  | .bindName name value => modifyMachine fun m => m.bindName name value
  | .offerBuilder settings => modifyMachine fun m => m.offerBuilder settings
  | .register resolver => modifyMachine fun m => m.register resolver
  | .keep name index value => keep name index value
  | .resolveIn env name => resolveIn runCode env name
  | .keepIn env name index value => keepIn env name index value
  | .newInstance name maxDepth => allocate fun h => h.addInstance name maxDepth
  | .newRecord fields => do return .record (← allocate fun h => h.addRecord fields)
  | .newFunction name body => newFunction name body
  | .newTemplate target => allocate fun h => h.addTemplate target
  | .newMethod owner name callee => allocate fun h => h.addMethod owner name callee
  | .build settings arguments => build settings arguments
  | .lookupChain chain name owner depth => do
    let h ← heap
    report fun _ => h.lookupChainEvents chain name owner depth
    outcome (h.lookupChain chain name owner depth)
  | .definer chain name owner depth => do
    let h ← heap
    report fun _ => h.definerEvents name owner depth chain.delegates
    outcome (h.definer? chain name owner depth)

/-- Runs a program. An operation on a reference that the machine has not given
out is refused. -/
def exec (perform : (operation : Operation γ σ) → Eval γ σ operation.Answer) :
    Program γ σ α → Eval γ σ α
  | .done result => outcome result
  | .perform operation next => do
    let m ← machine
    if operation.values.all m.knows then
      let result ← attempt (perform operation)
      exec perform (next result)
    else halt .unknownReference

/-- The arguments of a method call begin with the owner. -/
def callWith (invoke : HostFunction → Arguments → Eval γ σ Value)
    (construct : Template → Arguments → Eval γ σ Value) : Caller γ σ
  | .function f, arguments => invoke f arguments
  | .method _ owner _ callee, arguments =>
    callWith invoke construct callee (arguments.prepend (.inst owner))
  | .template t, arguments => construct t arguments
  | value, _ => do outcome (.error (.notCallable ((← heap).typeName value)))

/-- Calls a function: the template builder under the settings of the moment, or
code of the host. -/
def invoke (runCode : γ → Arguments → Eval γ σ Value) (f : HostFunction) (arguments : Arguments) :
    Eval γ σ Value := do
  let m ← machine
  match m.bodies[f.serial]? with
  | some .builder => build m.settings arguments
  | some (.host code) => runCode code arguments
  | none => halt .unknownReference

/-- What a call gets to after its methods are unwrapped. -/
inductive Entry (γ : Type) where
  | code (code : γ)
  | template (t : Template)

/-- Enters code of the host or a template. `fuel` bounds how deep entries nest.
The result of host code has to be known to the machine. -/
def enter (host : Host γ σ) : Nat → Entry γ → Arguments → Eval γ σ Value
  | 0, _, _ => halt .tooManyCalls
  | fuel + 1, entry, arguments => do
    let runCode := fun code => enter host fuel (.code code)
    let call := callWith (invoke runCode) fun t => enter host fuel (.template t)
    match entry with
    | .template t => construct call t arguments
    | .code code =>
      let value ← exec (performWith call runCode) (host.code code arguments)
      if (← machine).knows value then return value else halt .unknownReference

def runCode (host : Host γ σ) (fuel : Nat) (code : γ) : Arguments → Eval γ σ Value :=
  enter host fuel (.code code)

def call (host : Host γ σ) (fuel : Nat) : Caller γ σ :=
  callWith (invoke (runCode host fuel)) fun t => enter host fuel (.template t)

def perform (host : Host γ σ) (fuel : Nat) (operation : Operation γ σ) :
    Eval γ σ operation.Answer :=
  performWith (call host fuel) (runCode host fuel) operation

def run (host : Host γ σ) (fuel : Nat) (program : Program γ σ α) : Eval γ σ α :=
  exec (perform host fuel) program

end Delegation.Eval

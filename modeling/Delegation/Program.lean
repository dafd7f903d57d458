import Delegation.Machine
import Delegation.SpecialName
import Delegation.Depth

/-!
# Programs

User code as the object model sees it: a program either ends, with a result or
an error, or has the machine perform one operation and goes on with the
outcome, be it an answer or an error.
-/

namespace Delegation

inductive Operation (γ σ : Type) where
  | inspect
  /-- Changes the host's own state. -/
  | update (change : σ → σ)
  | read (target : Value) (name : String)
  | require (i : InstanceId) (name : String)
  | write (target : Value) (name : String) (value : Value)
  | addDelegate (receiver : InstanceId) (delegate : Value)
  | setSuper (receiver : InstanceId) (delegate : Value)
  | hook (i : InstanceId) (hook : SpecialName)
  | freeze (target : Value)
  | call (callee : Value) (arguments : Arguments)
  | truth (target : Value)
  | hooklessTruth (i : InstanceId)
  | toText (target : Value)
  | resolve (name : String)
  | bindName (name : String) (value : Value)
  | offerBuilder (settings : Settings)
  | register (resolver : Resolver γ)
  /-- Takes a value for what the resolver of an index provided. -/
  | keep (name : String) (index : Nat) (value : Value)
  /-- Resolves a name in an environment that belongs to the host. -/
  | resolveIn (env : Environment γ) (name : String)
  | keepIn (env : Environment γ) (name : String) (index : Nat) (value : Value)
  | newInstance (name : String) (maxDepth : Nat)
  | newRecord (fields : List (String × Value))
  | newFunction (name : String) (body : Body γ)
  | newTemplate (target : InstanceId)
  | newMethod (owner : InstanceId) (name : String) (callee : Value)
  | build (settings : Settings) (arguments : Arguments)
  /-- Reads an attribute of a chain that belongs to the host. -/
  | lookupChain (chain : Chain) (name owner : String) (depth : Depth)
  /-- Asks such a chain which delegate a write would go to. -/
  | definer (chain : Chain) (name owner : String) (depth : Depth)

namespace Operation

variable {γ σ : Type}

/-- What an operation that succeeds answers. -/
def Answer : Operation γ σ → Type
  | inspect => Machine γ σ
  | read .. | lookupChain .. => Option Value
  | hook .. => Option Value
  | truth _ | hooklessTruth _ => Bool
  | toText _ => String
  | newInstance .. => InstanceId
  | require .. | call .. | resolve _ | newRecord _ | newFunction .. | newTemplate _ | newMethod ..
  | build .. => Value
  | resolveIn .. => Value × Environment γ
  | keepIn .. => Environment γ
  | definer .. => Option (Value × Depth)
  | update _ | write .. | addDelegate .. | setSuper .. | freeze _ | bindName .. | offerBuilder _
  | register _ | keep .. => Unit

def values : Operation γ σ → List Value
  | read target _ | freeze target | truth target | toText target => [target]
  | write target _ value => [target, value]
  | addDelegate receiver delegate | setSuper receiver delegate => [.inst receiver, delegate]
  | require i _ | hook i _ | hooklessTruth i | newTemplate i => [.inst i]
  | call callee arguments =>
    callee :: arguments.positional ++ arguments.keywords.map Prod.snd
  | bindName _ value | keep _ _ value => [value]
  | resolveIn env _ => env.cache.values
  | keepIn env _ _ value => value :: env.cache.values
  | newRecord fields => fields.map Prod.snd
  | newMethod owner _ callee => [.inst owner, callee]
  | build _ arguments => arguments.positional ++ arguments.keywords.map Prod.snd
  | lookupChain chain .. | definer chain .. => chain.delegates
  | inspect | update _ | resolve _ | offerBuilder _ | register _ | newInstance ..
  | newFunction .. => []

end Operation

inductive Program (γ σ α : Type) where
  | done (result : Except Error α)
  | perform (operation : Operation γ σ) (next : Except Error operation.Answer → Program γ σ α)

namespace Program

variable {γ σ α β : Type}

/-- Goes on with the result, also when it is an error. -/
def thenResult (next : Except Error α → Program γ σ β) : Program γ σ α → Program γ σ β
  | done result => next result
  | perform operation rest => perform operation fun outcome => thenResult next (rest outcome)

def bind (program : Program γ σ α) (next : α → Program γ σ β) : Program γ σ β :=
  program.thenResult fun
    | .ok a => next a
    | .error e => done (.error e)

instance : Monad (Program γ σ) where
  pure a := done (.ok a)
  bind := bind

instance : MonadExceptOf Error (Program γ σ) where
  throw e := done (.error e)
  tryCatch program handler := program.thenResult fun
    | .ok a => done (.ok a)
    | .error e => handler e

def run (operation : Operation γ σ) : Program γ σ operation.Answer :=
  perform operation done

/-- Whether an attribute can be read; one that cannot counts as absent. -/
def canRead (target : Value) (name : String) : Program γ σ Bool :=
  perform (.read target name) fun
    | .ok (some _) => done (.ok true)
    | _ => done (.ok false)

end Program

/-- What the code of a host does with the arguments of a call. -/
structure Host (γ σ : Type) where
  code : γ → Arguments → Program γ σ Value

end Delegation

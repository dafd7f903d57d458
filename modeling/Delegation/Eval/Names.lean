import Delegation.Eval.Basic

/-!
# Resolving names

A global name has its value; any other name is a builtin, which is provided on
first use and kept. An environment that stands alone resolves names the same
way.
-/

namespace Delegation.Eval

variable {γ σ : Type}

def provide (runCode : γ → Arguments → Eval γ σ Value) (resolver : Resolver γ) (name : String) :
    Eval γ σ Value :=
  match resolver.body with
  | .builder => newFunction name .builder
  | .host code => runCode code { positional := [.text name] }

def keepIn (env : Environment γ) (name : String) (index : Nat) (value : Value) :
    Eval γ σ (Environment γ) := do
  if let some resolver := env.resolvers[index]? then report fun _ => [.resolved name resolver.name]
  return env.keep name index value

def keep (name : String) (index : Nat) (value : Value) : Eval γ σ Unit := do
  let env ← keepIn (← machine).builtins name index value
  modifyMachine fun m => { m with builtins := env }

/-- A name's value: the global one, else the builtin, which is provided on
first use. -/
def resolve (runCode : γ → Arguments → Eval γ σ Value) (name : String) : Eval γ σ Value := do
  let m ← machine
  match m.globals.get? name with
  | some value => return value
  | none =>
    match m.builtins.cached? name with
    | some value => return value
    | none =>
      match m.builtins.owner? name with
      | none => outcome (.error (.undefinedName name))
      | some (index, resolver) =>
        let value ← provide runCode resolver name
        keep name index value
        return value

/-- A name's value in an environment that stands alone, which comes back with
what was provided. -/
def resolveIn (runCode : γ → Arguments → Eval γ σ Value) (env : Environment γ) (name : String) :
    Eval γ σ (Value × Environment γ) := do
  match env.cached? name with
  | some value => return (value, env)
  | none =>
    match env.owner? name with
    | none => outcome (.error (.undefinedName name))
    | some (index, resolver) =>
      let value ← provide runCode resolver name
      return (value, ← keepIn env name index value)

end Delegation.Eval

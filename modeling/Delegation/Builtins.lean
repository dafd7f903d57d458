import Delegation.NameMap
import Delegation.Value

/-!
# Builtins

Below the globals lie names that resolvers provide on demand. The first
resolver that claims a name owns it; what it provided is kept, and so is its
ownership. The template builder comes from a resolver too.
-/

namespace Delegation

/-- What a function does: build a template, or run code of the host. -/
inductive Body (γ : Type) where
  | builder
  | host (code : γ)
  deriving DecidableEq, Inhabited

structure Resolver (γ : Type) where
  name : String
  claims : String → Bool
  body : Body γ

def Resolver.object {γ : Type} (builtinName : String) : Resolver γ :=
  ⟨"object_resolver", (· == builtinName), .builder⟩

structure Environment (γ : Type) where
  resolvers : List (Resolver γ) := []
  cache : NameMap Value := {}
  /-- The index of the resolver that provided a name. -/
  owners : NameMap Nat := {}
  deriving Inhabited

namespace Environment

variable {γ : Type}

def register (env : Environment γ) (resolver : Resolver γ) : Environment γ :=
  { env with resolvers := env.resolvers ++ [resolver] }

def ownerIndex? (env : Environment γ) (name : String) : Option Nat :=
  match env.owners.get? name with
  | some index => some index
  | none => env.resolvers.findIdx? (·.claims name)

def hasName (env : Environment γ) (name : String) : Bool :=
  env.cache.contains name || (env.ownerIndex? name).isSome

def cached? (env : Environment γ) (name : String) : Option Value := env.cache.get? name

/-- The resolver that owns a name, with its place in the order of registration. -/
def owner? (env : Environment γ) (name : String) : Option (Nat × Resolver γ) := do
  let index ← env.ownerIndex? name
  let resolver ← env.resolvers[index]?
  return (index, resolver)

def keep (env : Environment γ) (name : String) (index : Nat) (value : Value) : Environment γ :=
  { env with cache := env.cache.insert name value, owners := env.owners.insert name index }

end Environment

end Delegation

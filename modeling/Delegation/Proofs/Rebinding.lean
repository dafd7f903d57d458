import Delegation.Proofs.Reachable
import Delegation.Proofs.Supplies

/-!
# Methods of methods

The builder binds a method that it is given once more, so methods pile up around one
callee. A call goes through all of them before it enters anything: each puts its
owner before the arguments it got (`callWith_tower`).
-/

namespace Delegation

/-- The methods around a callee, with their owners, the innermost first. The callee
itself is no method. -/
inductive Tower (callee : Value) : List InstanceId → Value → Prop where
  | callee : (∀ serial owner name inner, callee ≠ .method serial owner name inner) →
    Tower callee [] callee
  | bind {owners : List InstanceId} {inner : Value} (serial : Nat) (owner : InstanceId)
      (name : String) : Tower callee owners inner →
    Tower callee (owners ++ [owner]) (.method serial owner name inner)

/-- The arguments after the owners of methods. -/
def Arguments.after (arguments : Arguments) (owners : List InstanceId) : Arguments :=
  { arguments with positional := owners.map .inst ++ arguments.positional }

theorem Arguments.after_nil (arguments : Arguments) : arguments.after [] = arguments := rfl

theorem Arguments.after_prepend (arguments : Arguments) (owners : List InstanceId)
    (owner : InstanceId) :
    (arguments.prepend (.inst owner)).after owners = arguments.after (owners ++ [owner]) := by
  simp [after, prepend]

variable {γ σ : Type} {callee value : Value} {owners : List InstanceId}

/-- What the builder binds stands one method higher. -/
theorem Tower.bindMember (ht : Tower callee owners value) (hb : value.isBindable = true)
    (h : Heap) (owner : InstanceId) (name : String) :
    Tower callee (owners ++ [owner]) (h.bindMember owner name value).1 := by
  cases value with
  | function f => exact .bind h.nextSerial owner name ht
  | method serial inner declared held => exact .bind h.nextSerial owner name ht
  | _ => cases hb

namespace Eval

/-- A call of a tower is one call of what stands at its foot. -/
theorem callWith_tower (invoke : HostFunction → Arguments → Eval γ σ Value)
    (construct : Template → Arguments → Eval γ σ Value) (ht : Tower callee owners value)
    (arguments : Arguments) :
    callWith invoke construct value arguments =
      callWith invoke construct callee (arguments.after owners) := by
  induction ht generalizing arguments with
  | callee _ => rw [arguments.after_nil]
  | bind serial owner name _ ih => rw [callWith, ih, arguments.after_prepend]

theorem callWith_uncallable (invoke : HostFunction → Arguments → Eval γ σ Value)
    (construct : Template → Arguments → Eval γ σ Value) (hc : callee.isCallable = false)
    (arguments : Arguments) (m : Machine γ σ) :
    callWith invoke construct callee arguments m =
      .ok (.error (.notCallable (m.heap.typeName callee)), m) := by
  cases callee with
  | function f => cases hc
  | method serial owner name inner => cases hc
  | template t => cases hc
  | _ => rfl

/-- Methods of methods compose: a call of a tower does what one call of the callee at
its foot does, with the owners before the positional arguments, the innermost first,
and the keywords as they are. So it fails at once if that is not callable, and runs
the initializer of its instance if that is a template. What the builder makes of the
tower is the tower with one more owner. -/
theorem tower_call (host : Host γ σ) (fuel : Nat) (ht : Tower callee owners value)
    (arguments : Arguments) :
    perform host fuel (.call value arguments) =
      perform host fuel (.call callee (arguments.after owners)) ∧
    (callee.isCallable = false → ∀ m, perform host fuel (.call value arguments) m =
      .ok (.error (.notCallable (m.heap.typeName callee)), m)) ∧
    (∀ f, callee = .function f → perform host fuel (.call value arguments) =
      invoke (runCode host fuel) f (arguments.after owners)) ∧
    (∀ t, callee = .template t → perform host (fuel + 1) (.call value arguments) =
      construct (call host fuel) t (arguments.after owners)) ∧
    (value.isBindable = true → ∀ (h : Heap) owner name,
      Tower callee (owners ++ [owner]) (h.bindMember owner name value).1) := by
  have hcall (fuel : Nat) : perform host fuel (.call value arguments) =
      perform host fuel (.call callee (arguments.after owners)) := callWith_tower _ _ ht arguments
  refine ⟨hcall fuel, fun hc m => ?_, ?_, ?_, ht.bindMember⟩
  · rw [hcall]
    exact callWith_uncallable _ _ hc _ m
  · rintro f rfl
    exact hcall fuel
  · rintro t rfl
    exact hcall (fuel + 1)

-- A host to try the theory on: it writes down what its code is called with.

def scribe : Host Unit (List Arguments) where
  code _ arguments := do
    Program.run (.update (· ++ [arguments]))
    return .none

def desk (calls : List Arguments) : Machine Unit (List Arguments) where
  host := calls
  heap := (Machine.widget false).heap
  bodies := #[.host ()]

theorem tower_call_desk :
    Tower (.function ⟨0, "note"⟩) [⟨0⟩, ⟨1⟩]
      (.method 1 ⟨1⟩ "outer" (.method 0 ⟨0⟩ "inner" (.function ⟨0, "note"⟩))) ∧
    perform scribe 1
        (.call (.method 1 ⟨1⟩ "outer" (.method 0 ⟨0⟩ "inner" (.function ⟨0, "note"⟩)))
          ⟨[.int 5], [("k", .none), ("k", .bool true)]⟩) (desk []) =
      .ok (.ok .none,
        desk [⟨[.inst ⟨0⟩, .inst ⟨1⟩, .int 5], [("k", .none), ("k", .bool true)]⟩]) := by
  have ht : Tower (.function ⟨0, "note"⟩) [⟨0⟩, ⟨1⟩]
      (.method 1 ⟨1⟩ "outer" (.method 0 ⟨0⟩ "inner" (.function ⟨0, "note"⟩))) :=
    .bind 1 ⟨1⟩ "outer" (.bind 0 ⟨0⟩ "inner" (.callee (by simp)))
  refine ⟨ht, ?_⟩
  rw [(tower_call scribe 1 ht _).1]
  rfl

end Eval

end Delegation

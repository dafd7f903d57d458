import Delegation.Eval.Basic

/-!
# Construction

Calling a template runs the initializer of its instance, if there is one, and
gives the instance. Templates that lie on the path to the initializer are
replaced by their instances afterwards, the deepest first.
-/

namespace Delegation.Eval

variable {γ σ : Type}

/-- After an initializer: a template on the path gives way to its instance,
unless its level was rewritten meanwhile. -/
def settle (step : PathStep) : Eval γ σ Unit := do
  match step.delegate with
  | .template t =>
    let h ← heap
    let owner := h.inst step.owner
    if !owner.chain.holds step.level step.delegate then
      report fun _ => [.levelRewritten owner.name step.level]
    commit (h.fillLevel step.owner step.level step.delegate (.inst t.target))
  | _ => return ()

/-- Runs the initializer found for an instance. Says whether there was one. -/
def runInitializer (call : Caller γ σ) (i : InstanceId) (arguments : Arguments) : Eval γ σ Bool := do
  let h ← heap
  report fun _ => h.initializerEvents i
  match ← outcome (h.initializer? i) with
  | none => return false
  | some found =>
    discard (call found.method arguments)
    found.path.forM settle
    return true

def construct (call : Caller γ σ) (t : Template) (arguments : Arguments) : Eval γ σ Value := do
  let initialized ← runInitializer call t.target arguments
  let h ← heap
  report fun _ => [.constructed (h.inst t.target).name initialized]
  return .inst t.target

end Delegation.Eval

import Delegation.Eval.Basic
import Delegation.Heap.Text

/-!
# Text and truth

An instance may say with a hook what text it stands for and whether it counts
as true. An answer of the wrong kind is reported and ignored.
-/

namespace Delegation.Eval

variable {γ σ : Type}

/-- The text of an instance: what its hook says, if that is text. -/
def instanceText (call : Caller γ σ) (i : InstanceId) : Eval γ σ String := do
  match ← hook? .str i with
  | some method =>
    match ← call method {} with
    | .text s => return s
    | other => do
      let h ← heap
      report fun _ => [.strIgnored (h.inst i).name (h.typeName other)]
      outcome (h.structuralText i)
  | none => outcome ((← heap).structuralText i)

def toText (call : Caller γ σ) : Value → Eval γ σ String
  | .text s => return s
  | .inst i => instanceText call i
  | value => do return (← heap).display value

/-- Truth without regard to a hook: an instance without members and delegates
is false, and otherwise the first delegate decides. -/
def chainTruth (enter : InstanceId → Eval γ σ Bool) (i : InstanceId) : Eval γ σ Bool := do
  let x := (← heap).inst i
  if x.members.isEmpty && !x.chain.hasDelegate then return false
  else
    match x.chain.delegates.head? with
    | none => return false
    | some (.inst j) => enter j
    | some delegate => return delegate.plainTruth

/-- Truth of an instance: what its hook says, if that is a truth value. -/
def truthVisit (call : Caller γ σ) (enter : InstanceId → Eval γ σ Bool) (i : InstanceId) :
    Eval γ σ Bool := do
  match ← hook? .bool i with
  | some method =>
    match ← call method {} with
    | .bool b => return b
    | other => do
      let h ← heap
      report fun _ => [.boolIgnored (h.inst i).name (h.typeName other)]
      chainTruth enter i
  | none => chainTruth enter i

def tooDeep (owner : InstanceId) (max : Nat) : Eval γ σ α := do
  outcome (.error (.delegateDepth ((← heap).inst owner).name max))

def truthAt (call : Caller γ σ) (level : Nat) : Nat → InstanceId → Eval γ σ Bool
  | 0, i => truthVisit call (fun _ => tooDeep i level) i
  | remaining + 1, i => truthVisit call (truthAt call (level + 1) remaining) i

def instanceTruth (call : Caller γ σ) (i : InstanceId) : Eval γ σ Bool := do
  truthAt call 0 ((← heap).inst i).maxDepth i

def hooklessTruth (call : Caller γ σ) (i : InstanceId) : Eval γ σ Bool := do
  match ((← heap).inst i).maxDepth with
  | 0 => chainTruth (fun _ => tooDeep i 0) i
  | remaining + 1 => chainTruth (truthAt call 1 remaining) i

def truth (call : Caller γ σ) : Value → Eval γ σ Bool
  | .inst i => instanceTruth call i
  | value => return value.plainTruth

end Delegation.Eval

import Delegation.Depth
import Delegation.Heap.Basic

/-!
# Going down from instance to instance

Every traversal of delegates has one shape: it treats an instance, and for
some delegates of that instance does the same one level further down. `descend`
ties that knot for all of them; `descend_eq` says what it means, and
`descend_rel_of_names` compares two of them.
-/

namespace Delegation

/-- What a traversal does at one instance: its depth, the instance, and the
way into an instance one level further down. -/
abbrev Visit (β : Type) := Depth → InstanceId → (InstanceId → Except Error β) → Except Error β

namespace Heap

variable {β : Type} (h : Heap)

def descendFrom (visit : Visit β) (level : Nat) : Nat → InstanceId → Except Error β
  | 0, i => visit ⟨level, 0⟩ i fun _ => .error (.delegateDepth (h.inst i).name level)
  | remaining + 1, i =>
    visit ⟨level, remaining + 1⟩ i (descendFrom visit (level + 1) remaining)

def descend (visit : Visit β) (depth : Depth) (i : InstanceId) : Except Error β :=
  h.descendFrom visit depth.level depth.remaining i

/-- A traversal enters an instance by going down one level below the one it
leaves, which fails at the bound. -/
theorem descend_eq (visit : Visit β) (depth : Depth) (i : InstanceId) :
    h.descend visit depth i = visit depth i fun j =>
      (depth.descend (h.inst i).name).bind fun below => h.descend visit below j := by
  obtain ⟨level, remaining⟩ := depth
  cases remaining <;> rfl

/-- Traversals of two heaps whose instances have the same names agree in a sense
that their visits keep, as long as being too deep agrees with itself. -/
theorem descend_rel_of_names {γ : Type} {h h' : Heap}
    (hn : ∀ i, (h'.inst i).name = (h.inst i).name)
    {R : Except Error β → Except Error γ → Prop} {visit : Visit β} {visit' : Visit γ}
    (hd : ∀ e, R (.error e) (.error e))
    (hv : ∀ depth i enter enter', (∀ j, R (enter j) (enter' j)) →
      R (visit depth i enter) (visit' depth i enter'))
    (depth : Depth) (i : InstanceId) :
    R (h.descend visit depth i) (h'.descend visit' depth i) := by
  obtain ⟨level, remaining⟩ := depth
  induction remaining generalizing level i with
  | zero =>
    refine hv _ _ _ _ fun _ => ?_
    rw [hn]
    exact hd _
  | succ remaining ih => exact hv _ _ _ _ fun j => ih j (level + 1)

/-- Two traversals agree in a sense that their visits keep, as long as being too
deep agrees with itself. -/
theorem descend_rel {γ : Type} {R : Except Error β → Except Error γ → Prop} {visit : Visit β}
    {visit' : Visit γ} (hd : ∀ e, R (.error e) (.error e))
    (hv : ∀ depth i enter enter', (∀ j, R (enter j) (enter' j)) →
      R (visit depth i enter) (visit' depth i enter'))
    (depth : Depth) (i : InstanceId) : R (h.descend visit depth i) (h.descend visit' depth i) :=
  descend_rel_of_names (fun _ => rfl) hd hv depth i

/-- The depth a traversal starts with at an instance. -/
def root (i : InstanceId) : Depth := .root (h.inst i).maxDepth

end Heap

end Delegation

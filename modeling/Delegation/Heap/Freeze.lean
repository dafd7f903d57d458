import Delegation.Heap.Basic

/-!
# Freezing

Freezing marks everything reachable through own members, delegates and record
fields; a template counts as its instance, and bound methods and functions are
not followed. The walk keeps a stack of values still to treat, and ends because
every object is marked at most once: `openTargets` counts what unmarked objects
can still put on the stack.
-/

namespace Delegation

/-- The values a walk goes to from an instance, last first. -/
def Instance.targets (x : Instance) : List Value :=
  (x.members.values ++ x.chain.delegates).reverse

def Instance.openTargets (x : Instance) : Nat := if x.frozen then 0 else x.targets.length

def Record.targets (x : Record) : List Value := x.fields.values

def Record.openTargets (x : Record) : Nat := if x.frozen then 0 else x.targets.length

def total {α : Type} (measure : α → Nat) : List α → Nat
  | [] => 0
  | x :: xs => measure x + total measure xs

theorem total_modify {α : Type} (measure : α → Nat) (change : α → α) (xs : List α) (i : Nat)
    (hi : i < xs.length) :
    total measure (xs.modify i change) + measure xs[i] =
      total measure xs + measure (change xs[i]) := by
  induction xs generalizing i with
  | nil => simp at hi
  | cons x xs ih =>
    cases i with
    | zero =>
      simp only [List.modify_zero_cons, total, List.getElem_cons_zero]
      omega
    | succ i =>
      have := ih i (by simpa using hi)
      simp only [List.modify_succ_cons, total, List.getElem_cons_succ]
      omega

namespace Heap

variable (h : Heap)

/-- Whether a value is an instance, a template or a record not frozen yet. -/
def isOpen : Value → Bool
  | .inst i => decide (i.index < h.instances.size) && !(h.inst i).frozen
  | .template t => decide (t.target.index < h.instances.size) && !(h.inst t.target).frozen
  | .record r => decide (r.index < h.records.size) && !(h.record r).frozen
  | _ => false

def markInst (i : InstanceId) : Heap := h.modifyInst i fun x => { x with frozen := true }

def markRecord (r : RecordId) : Heap := h.modifyRecord r fun x => { x with frozen := true }

def mark : Value → Heap
  | .inst i => h.markInst i
  | .template t => h.markInst t.target
  | .record r => h.markRecord r
  | _ => h

/-- The values a walk goes to from a value, in that order. -/
def targets : Value → List Value
  | .inst i => (h.inst i).targets
  | .template t => (h.inst t.target).targets
  | .record r => (h.record r).targets
  | _ => []

def openTargets : Nat :=
  total Instance.openTargets h.instances.toList + total Record.openTargets h.records.toList

theorem openTargets_markInst {i : InstanceId} (hi : i.index < h.instances.size)
    (ho : (h.inst i).frozen = false) :
    (h.markInst i).openTargets + (h.inst i).targets.length = h.openTargets := by
  have hl : i.index < h.instances.toList.length := by simpa using hi
  have hx : h.instances.toList[i.index] = h.inst i := by simp [inst, hi]
  have := total_modify Instance.openTargets (fun x => { x with frozen := true })
    h.instances.toList i.index hl
  rw [hx] at this
  simp only [Instance.openTargets, ho, Bool.false_eq_true, ↓reduceIte] at this
  simp only [openTargets, markInst, modifyInst, Array.toList_modify]
  omega

theorem openTargets_markRecord {r : RecordId} (hr : r.index < h.records.size)
    (ho : (h.record r).frozen = false) :
    (h.markRecord r).openTargets + (h.record r).targets.length = h.openTargets := by
  have hl : r.index < h.records.toList.length := by simpa using hr
  have hx : h.records.toList[r.index] = h.record r := by simp [record, hr]
  have := total_modify Record.openTargets (fun x => { x with frozen := true })
    h.records.toList r.index hl
  rw [hx] at this
  simp only [Record.openTargets, ho, Bool.false_eq_true, ↓reduceIte] at this
  simp only [openTargets, markRecord, modifyRecord, Array.toList_modify]
  omega

/-- Freezing an open object takes its targets off the count. -/
theorem openTargets_mark {value : Value} (ho : h.isOpen value = true) :
    (h.mark value).openTargets + (h.targets value).length = h.openTargets := by
  cases value with
  | inst i =>
    simp only [isOpen, Bool.and_eq_true, decide_eq_true_eq, Bool.not_eq_true'] at ho
    exact h.openTargets_markInst ho.1 ho.2
  | template t =>
    simp only [isOpen, Bool.and_eq_true, decide_eq_true_eq, Bool.not_eq_true'] at ho
    exact h.openTargets_markInst ho.1 ho.2
  | record r =>
    simp only [isOpen, Bool.and_eq_true, decide_eq_true_eq, Bool.not_eq_true'] at ho
    exact h.openTargets_markRecord ho.1 ho.2
  | _ => simp [isOpen] at ho

/-- Freezes everything reachable from the values on a stack. Also gives the
values whose objects were frozen, in the order of freezing. -/
def freezeAll (h : Heap) (stack : List Value) : Heap × List Value :=
  match stack with
  | [] => (h, [])
  | value :: rest =>
    if _ho : h.isOpen value = true then
      let (frozen, order) := freezeAll (h.mark value) (h.targets value ++ rest)
      (frozen, value :: order)
    else freezeAll h rest
termination_by h.openTargets + stack.length
decreasing_by
  · have := h.openTargets_mark _ho
    simp only [List.length_append, List.length_cons]
    omega
  · simp

def freeze (h : Heap) (value : Value) : Heap := (h.freezeAll [value]).1

end Heap

end Delegation

import Delegation.Error

/-!
# Depth of a traversal

How far a traversal has gone down below the instance it started from, and how
far it may still go. Every instance entered counts one level; records do not.
-/

namespace Delegation

structure Depth where
  level : Nat
  remaining : Nat
  deriving DecidableEq, Repr

namespace Depth

def root (max : Nat) : Depth := ⟨0, max⟩

/-- The deepest level that may be entered. -/
def max (depth : Depth) : Nat := depth.level + depth.remaining

/-- One level further down, below `owner`. -/
def descend (depth : Depth) (owner : String) : Except Error Depth :=
  match depth.remaining with
  | 0 => .error (.delegateDepth owner depth.max)
  | remaining + 1 => .ok ⟨depth.level + 1, remaining⟩

@[simp] theorem max_root (max : Nat) : (root max).max = max := Nat.zero_add max

theorem max_descend {depth below : Depth} {owner : String} (h : depth.descend owner = .ok below) :
    below.max = depth.max := by
  obtain ⟨level, remaining⟩ := depth
  cases remaining with
  | zero => simp [descend] at h
  | succ remaining =>
    simp only [descend, Except.ok.injEq] at h
    subst h
    simp only [max]
    omega

end Depth

end Delegation

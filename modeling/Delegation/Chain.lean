import Delegation.Value

/-!
# Delegate chains

An ordered list of levels, each with at most one delegate. Level 0 is the
head. Levels added earlier are asked earlier. A level that was cleared stays
in its place.
-/

namespace Delegation

structure Chain where
  levels : List (Option Value) := []
  deriving DecidableEq, Inhabited

namespace Chain

def empty : Chain := {}

def length (chain : Chain) : Nat := chain.levels.length

def isEmpty (chain : Chain) : Bool := chain.levels.isEmpty

def head? (chain : Chain) : Option Value := chain.levels.head?.join

def hasDelegate (chain : Chain) : Bool := chain.levels.any Option.isSome

def delegates (chain : Chain) : List Value := chain.levels.filterMap id

/-- The present delegates in order, each with the index of its level. -/
def indexed (chain : Chain) : List (Nat × Value) :=
  chain.levels.zipIdx.filterMap fun (level, index) => level.map fun delegate => (index, delegate)

def holds (chain : Chain) (index : Nat) (delegate : Value) : Bool :=
  match chain.levels[index]? with
  | some (some held) => held.same delegate
  | _ => false

/-- Adds a level below all others. -/
def append (chain : Chain) (delegate : Value) : Chain :=
  ⟨chain.levels ++ [some delegate]⟩

/-- Overwrites the head level, which the value none clears. -/
def setHead (chain : Chain) (delegate : Value) : Chain :=
  let level := match delegate with
    | .none => none
    | delegate => some delegate
  match chain.levels with
  | [] => ⟨[level]⟩
  | _ :: rest => ⟨level :: rest⟩

def setLevel (chain : Chain) (index : Nat) (delegate : Value) : Chain :=
  ⟨chain.levels.set index (some delegate)⟩

@[simp] theorem delegates_append (chain : Chain) (delegate : Value) :
    (chain.append delegate).delegates = chain.delegates ++ [delegate] := by
  simp [delegates, append]

theorem mem_delegates {chain : Chain} {delegate : Value} :
    delegate ∈ chain.delegates ↔ some delegate ∈ chain.levels := by
  simp [delegates]

theorem mem_delegates_setHead {chain : Chain} {delegate held : Value}
    (h : held ∈ (chain.setHead delegate).delegates) : held ∈ chain.delegates ∨ held = delegate := by
  obtain ⟨levels⟩ := chain
  rw [mem_delegates] at h ⊢
  cases delegate <;> cases levels <;> simp only [setHead, List.mem_cons] at h <;> grind

theorem setHead_setHead (chain : Chain) (first second : Value) :
    (chain.setHead first).setHead second = chain.setHead second := by
  obtain ⟨levels⟩ := chain
  cases levels <;> cases first <;> rfl

theorem head?_setHead (chain : Chain) (value : Value) :
    (chain.setHead value).head?.getD .none = value := by
  obtain ⟨levels⟩ := chain
  cases levels <;> cases value <;> rfl

theorem mem_delegates_setLevel {chain : Chain} {index : Nat} {delegate held : Value}
    (h : held ∈ (chain.setLevel index delegate).delegates) :
    held ∈ chain.delegates ∨ held = delegate := by
  rw [mem_delegates] at h ⊢
  exact (List.mem_or_eq_of_mem_set h).imp id Option.some.inj

@[simp] theorem length_setLevel (chain : Chain) (index : Nat) (delegate : Value) :
    (chain.setLevel index delegate).length = chain.length := by
  simp [setLevel, length]

theorem map_snd_indexed (chain : Chain) : chain.indexed.map Prod.snd = chain.delegates := by
  obtain ⟨levels⟩ := chain
  simp only [indexed, delegates]
  suffices ∀ start, ((levels.zipIdx start).filterMap fun x =>
      x.1.map fun delegate => (x.2, delegate)).map Prod.snd = levels.filterMap id from this 0
  induction levels with
  | nil => intro; rfl
  | cons level rest ih =>
    intro start
    cases level <;> simp [List.zipIdx_cons, ih]

end Chain

end Delegation

import Delegation.Proofs.Construction

/-!
# Structure only grows

Names and depth bounds are fixed, members and levels are only added, and freezing
is not undone. Below the head a level keeps its delegate, or a template there
gives way to its instance. Every change keeps to this (`Change.grows`), so every
run does (`structure_only_grows`).
-/

namespace Delegation

/-- The later value is the same, or the instance of the template that was there. -/
inductive Value.Becomes : Value → Value → Prop where
  | same (value : Value) : Becomes value value
  | built (t : Template) : Becomes (.template t) (.inst t.target)

theorem Value.Becomes.trans {a b c : Value} (hab : a.Becomes b) (hbc : b.Becomes c) :
    a.Becomes c := by
  cases hab with
  | same => exact hbc
  | built t =>
    cases hbc
    exact .built t

/-- Levels are only added; below the head, a level that has a delegate keeps it, or
gets the instance of its template. -/
structure Chain.Grows (chain later : Chain) : Prop where
  length_le : chain.length ≤ later.length
  kept : ∀ level delegate, 0 < level → chain.levels[level]? = some (some delegate) →
    ∃ held, later.levels[level]? = some (some held) ∧ delegate.Becomes held

structure Instance.Grows (x later : Instance) : Prop where
  name : later.name = x.name
  maxDepth : later.maxDepth = x.maxDepth
  members : ∀ name, x.members.contains name = true → later.members.contains name = true
  frozen : x.frozen = true → later.frozen = true
  chain : x.chain.Grows later.chain

/-- No instance is lost, and each has only grown. -/
structure Heap.Grows (h later : Heap) : Prop where
  count : h.instances.size ≤ later.instances.size
  instances : ∀ i : InstanceId, i.index < h.instances.size → (h.inst i).Grows (later.inst i)

-- ---------------------------------------------------------------------------
-- Chains
-- ---------------------------------------------------------------------------

namespace Chain

theorem Grows.refl (chain : Chain) : chain.Grows chain :=
  ⟨Nat.le_refl _, fun _ delegate _ hl => ⟨delegate, hl, .same delegate⟩⟩

theorem Grows.trans {c₁ c₂ c₃ : Chain} (h₁₂ : c₁.Grows c₂) (h₂₃ : c₂.Grows c₃) :
    c₁.Grows c₃ where
  length_le := Nat.le_trans h₁₂.length_le h₂₃.length_le
  kept level delegate hp hl := by
    obtain ⟨held, hl, hheld⟩ := h₁₂.kept level delegate hp hl
    obtain ⟨last, hl, hlast⟩ := h₂₃.kept level held hp hl
    exact ⟨last, hl, hheld.trans hlast⟩

theorem grows_append (chain : Chain) (value : Value) : chain.Grows (chain.append value) where
  length_le := by simp [length, append]
  kept level delegate _ hl := by
    obtain ⟨hlt, -⟩ := List.getElem?_eq_some_iff.mp hl
    exact ⟨delegate, by simpa [append, List.getElem?_append_left hlt] using hl, .same delegate⟩

/-- The head alone is overwritten. -/
theorem grows_setHead (chain : Chain) (value : Value) : chain.Grows (chain.setHead value) := by
  obtain ⟨levels⟩ := chain
  cases levels with
  | nil => exact ⟨Nat.zero_le _, fun _ _ _ hl => by simp at hl⟩
  | cons head rest =>
    refine ⟨Nat.le_refl _, fun level delegate hp hl => ?_⟩
    obtain ⟨below, rfl⟩ := Nat.exists_eq_add_of_lt hp
    exact ⟨delegate, by simpa [setHead] using hl, .same delegate⟩

theorem grows_construct {chain : Chain} {index : Nat} {t : Template}
    (hh : chain.holds index (.template t) = true) :
    chain.Grows (chain.setLevel index (.inst t.target)) where
  length_le := by simp
  kept level delegate _ hl := by
    have hlevel := holds_template.mp hh
    by_cases he : index = level
    · subst he
      obtain rfl : .template t = delegate := by simpa [hlevel] using hl
      obtain ⟨hlt, -⟩ := List.getElem?_eq_some_iff.mp hl
      exact ⟨.inst t.target, by simp [setLevel, hlt], .built t⟩
    · exact ⟨delegate, by simpa [setLevel, List.getElem?_set_ne he] using hl, .same delegate⟩

theorem Takes.grows {chain later : Chain} {value : Value} (ht : chain.Takes value later) :
    chain.Grows later := by
  cases ht with
  | append => exact chain.grows_append value
  | setHead => exact chain.grows_setHead value
  | construct hh => exact grows_construct hh

end Chain

-- ---------------------------------------------------------------------------
-- Instances and heaps
-- ---------------------------------------------------------------------------

theorem Instance.Grows.refl (x : Instance) : x.Grows x :=
  ⟨rfl, rfl, fun _ hm => hm, fun hf => hf, .refl x.chain⟩

theorem Instance.Grows.trans {x y z : Instance} (hxy : x.Grows y) (hyz : y.Grows z) :
    x.Grows z where
  name := hyz.name.trans hxy.name
  maxDepth := hyz.maxDepth.trans hxy.maxDepth
  members name hm := hyz.members name (hxy.members name hm)
  frozen hf := hyz.frozen (hxy.frozen hf)
  chain := hxy.chain.trans hyz.chain

namespace Heap

variable {h h' : Heap}

theorem Grows.refl (h : Heap) : h.Grows h := ⟨Nat.le_refl _, fun i _ => .refl (h.inst i)⟩

theorem Grows.trans {h₁ h₂ h₃ : Heap} (h₁₂ : h₁.Grows h₂) (h₂₃ : h₂.Grows h₃) : h₁.Grows h₃ where
  count := Nat.le_trans h₁₂.count h₂₃.count
  instances i hi :=
    (h₁₂.instances i hi).trans (h₂₃.instances i (Nat.lt_of_lt_of_le hi h₁₂.count))

theorem grows_modifyInst (h : Heap) (i : InstanceId) {change : Instance → Instance}
    (hc : (h.inst i).Grows (change (h.inst i))) : h.Grows (h.modifyInst i change) where
  count := by simp [modifyInst]
  instances j _ := by
    rw [inst_modify]
    split
    case isTrue hij =>
      obtain ⟨rfl, -⟩ := hij
      exact hc
    case isFalse => exact .refl _

theorem Freezes.grows (hf : Freezes h h') : h.Grows h' where
  count := Nat.le_of_eq hf.instanceCount.symm
  instances i _ := by
    rw [hf.instances i]
    exact ⟨rfl, rfl, fun _ hm => hm, hf.frozenInst i, .refl _⟩

/-- What one change does to the structure of instances. -/
theorem Change.grows (hc : Change h h') : h.Grows h' := by
  cases hc with
  | addInstance name maxDepth =>
    refine ⟨by simp [Heap.addInstance], fun i hi => ?_⟩
    rw [inst_addInstance, if_neg (Nat.ne_of_lt hi)]
    exact .refl _
  | addRecord _ => exact ⟨Nat.le_refl _, fun i _ => .refl (h.inst i)⟩
  | takeSerial => exact ⟨Nat.le_refl _, fun i _ => .refl (h.inst i)⟩
  | @setMember i name value _ _ =>
    refine h.grows_modifyInst i ⟨rfl, rfl, fun other hm => ?_, fun hf => hf, .refl _⟩
    exact NameMap.contains_insert hm name value
  | @setChain i chain value _ _ _ ht =>
    exact h.grows_modifyInst i ⟨rfl, rfl, fun _ hm => hm, fun hf => hf, ht.grows⟩
  | freeze stack => exact (Freezes.freezeAll h stack).grows

theorem Changes.grows (hc : Changes h h') : h.Grows h' :=
  hc.keeps (fun hlast hg => hg.trans hlast.grows) (.refl h)

end Heap

-- ---------------------------------------------------------------------------
-- Runs
-- ---------------------------------------------------------------------------

namespace Machine

variable {γ σ : Type} {host : Host γ σ} {m m' : Machine γ σ}

/-- Whatever runs later, an instance that is there stays, with its name, its depth
bound, its members' names and its levels; only what its head holds may be lost. -/
theorem structure_only_grows (hm : m.Reachable host) (hsteps : Steps host m m') {i : InstanceId}
    (hi : i.index < m.heap.instances.size) :
    i.index < m'.heap.instances.size ∧ (m.heap.inst i).Grows (m'.heap.inst i) := by
  have hgrows := Heap.Changes.grows (hsteps.changes hm.sound)
  exact ⟨Nat.lt_of_lt_of_le hi hgrows.count, hgrows.instances i hi⟩

-- A point with a second template of its base, then without its head and constructed.

def widen : Program Unit Unit Unit := do
  let template ← Program.run (.newTemplate ⟨0⟩)
  Program.run (.addDelegate ⟨1⟩ template)

def rework : Program Unit Unit Value := do
  Program.run (.setSuper ⟨1⟩ .none)
  Program.run (.call (.template ⟨2, ⟨1⟩⟩) {})

theorem structure_only_grows_point :
    ∃ m m', m.Reachable idle ∧ Steps idle m m' ∧ 1 < m.heap.instances.size ∧
      (m.heap.inst ⟨1⟩).chain.levels =
        [some (.template ⟨1, ⟨0⟩⟩), some (.template ⟨3, ⟨0⟩⟩)] ∧
      (m'.heap.inst ⟨1⟩).chain.levels = [none, some (.inst ⟨0⟩)] ∧
      (m.heap.inst ⟨1⟩).Grows (m'.heap.inst ⟨1⟩) := by
  obtain ⟨m, m', hwiden, hrework, hsize, hbefore, hafter⟩ : ∃ m m',
      Eval.run idle 1 widen point = .ok (.ok (), m) ∧
      Eval.run idle 2 rework m = .ok (.ok (.inst ⟨1⟩), m') ∧
      1 < m.heap.instances.size ∧
      (m.heap.inst ⟨1⟩).chain.levels =
        [some (.template ⟨1, ⟨0⟩⟩), some (.template ⟨3, ⟨0⟩⟩)] ∧
      (m'.heap.inst ⟨1⟩).chain.levels = [none, some (.inst ⟨0⟩)] :=
    ⟨_, _, rfl, rfl, by decide, rfl, rfl⟩
  have hm : m.Reachable idle := point_reachable.steps (.single (.run 1 widen hwiden))
  have hsteps : Steps idle m m' := .single (.run 2 rework hrework)
  exact ⟨m, m', hm, hsteps, hsize, hbefore, hafter, (structure_only_grows hm hsteps hsize).2⟩

end Machine

end Delegation

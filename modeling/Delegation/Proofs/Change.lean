import Mathlib.Logic.Relation
import Delegation.Heap.Build
import Delegation.Heap.Freeze
import Delegation.Heap.Write

/-!
# Changes of the heap

Whatever runs, the heap changes in six ways (`Change`), each under the
conditions that the operations check. What holds at first and is kept by every
change holds throughout; the operations that write, place and build are shown
here to be sequences of changes.
-/

namespace Delegation

theorem bind_ok {ε α β : Type} {x : Except ε α} {f : α → Except ε β} {b : β} :
    x >>= f = .ok b ↔ ∃ a, x = .ok a ∧ f a = .ok b := by
  cases x <;> simp [bind, Except.bind]

/-- How a chain takes a value in: at its end, at its head, or in the place of a
template whose instance it is. -/
inductive Chain.Takes (chain : Chain) : Value → Chain → Prop where
  | append (value : Value) : Takes chain value (chain.append value)
  | setHead (value : Value) : Takes chain value (chain.setHead value)
  | construct {index : Nat} {t : Template} : chain.holds index (.template t) = true →
      Takes chain (.inst t.target) (chain.setLevel index (.inst t.target))

theorem Chain.Takes.mem_delegates {chain later : Chain} {value held : Value}
    (ht : chain.Takes value later) (hm : held ∈ later.delegates) :
    held ∈ chain.delegates ∨ held = value := by
  cases ht with
  | append => simpa using hm
  | setHead => exact mem_delegates_setHead hm
  | construct _ => exact mem_delegates_setLevel hm

namespace Heap

variable (h : Heap)

/-- A value refers only to objects of the heap. -/
def Knows : Value → Prop
  | .record r => r.index < h.records.size
  | .inst i => i.index < h.instances.size
  | .method _ owner _ callee => owner.index < h.instances.size ∧ Knows callee
  | .template t => t.target.index < h.instances.size
  | _ => True

/-- What the objects of a heap hold refers to objects of the heap. -/
structure Sound : Prop where
  instances : ∀ i, ∀ value ∈ (h.inst i).targets, h.Knows value
  records : ∀ r, ∀ value ∈ (h.record r).targets, h.Knows value

theorem Sound.targets {h : Heap} (hs : h.Sound) {owner value : Value}
    (hv : value ∈ h.targets owner) : h.Knows value := by
  cases owner with
  | inst i => exact hs.instances i value hv
  | template t => exact hs.instances t.target value hv
  | record r => exact hs.records r value hv
  | _ => cases hv

/-- One change of the heap. -/
inductive Change (h : Heap) : Heap → Prop where
  | addInstance (name : String) (maxDepth : Nat) : Change h (h.addInstance name maxDepth).2
  | addRecord {fields : List (String × Value)} :
      (∀ field ∈ fields, h.Knows field.2) → Change h (h.addRecord fields).2
  | takeSerial : Change h h.takeSerial.2
  | setMember {i : InstanceId} (name : String) {value : Value} :
      (h.inst i).frozen = false → h.Knows value → Change h (h.setMember i name value)
  | setChain {i : InstanceId} {chain : Chain} {value : Value} :
      (h.inst i).frozen = false → h.checkPlacement i value = .ok () → h.Knows value →
      (h.inst i).chain.Takes value chain →
      Change h (h.setChain i chain)
  | freeze (stack : List Value) : Change h (h.freezeAll stack).1

/-- The second heap comes from the first by changes. -/
abbrev Changes : Heap → Heap → Prop := Relation.ReflTransGen Change

-- ---------------------------------------------------------------------------
-- Objects after a change
-- ---------------------------------------------------------------------------

theorem record_of_le {r : RecordId} (hr : h.records.size ≤ r.index) : h.record r = default := by
  simp [record, hr]

/-- A field that a change leaves alone is the same in all instances. -/
theorem field_modifyInst {β : Type} (field : Instance → β) {change : Instance → Instance}
    (hc : ∀ x, field (change x) = field x) (i j : InstanceId) :
    field ((h.modifyInst i change).inst j) = field (h.inst j) := by
  rw [inst_modify]
  split
  · exact hc _
  · rfl

section
variable {i j : InstanceId} {name : String} {value : Value} {chain : Chain}

@[simp] theorem name_setMember :
    ((h.setMember i name value).inst j).name = (h.inst j).name :=
  h.field_modifyInst Instance.name (fun _ => by rfl) i j

@[simp] theorem maxDepth_setMember :
    ((h.setMember i name value).inst j).maxDepth = (h.inst j).maxDepth :=
  h.field_modifyInst Instance.maxDepth (fun _ => by rfl) i j

@[simp] theorem frozen_setMember :
    ((h.setMember i name value).inst j).frozen = (h.inst j).frozen :=
  h.field_modifyInst Instance.frozen (fun _ => by rfl) i j

@[simp] theorem chain_setMember :
    ((h.setMember i name value).inst j).chain = (h.inst j).chain :=
  h.field_modifyInst Instance.chain (fun _ => by rfl) i j

@[simp] theorem record_setMember (r : RecordId) :
    (h.setMember i name value).record r = h.record r := rfl

@[simp] theorem name_setChain : ((h.setChain i chain).inst j).name = (h.inst j).name :=
  h.field_modifyInst Instance.name (fun _ => by rfl) i j

@[simp] theorem maxDepth_setChain :
    ((h.setChain i chain).inst j).maxDepth = (h.inst j).maxDepth :=
  h.field_modifyInst Instance.maxDepth (fun _ => by rfl) i j

@[simp] theorem members_setChain :
    ((h.setChain i chain).inst j).members = (h.inst j).members :=
  h.field_modifyInst Instance.members (fun _ => by rfl) i j

@[simp] theorem frozen_setChain : ((h.setChain i chain).inst j).frozen = (h.inst j).frozen :=
  h.field_modifyInst Instance.frozen (fun _ => by rfl) i j

end

theorem record_modify (r s : RecordId) (change : Record → Record) :
    (h.modifyRecord r change).record s =
      if r = s ∧ r.index < h.records.size then change (h.record s) else h.record s := by
  obtain ⟨r⟩ := r
  obtain ⟨s⟩ := s
  simp only [record, modifyRecord, Array.getD_eq_getD_getElem?, Array.getElem?_modify,
    RecordId.mk.injEq]
  by_cases hrs : r = s
  · subst hrs
    by_cases hr : r < h.records.size <;> simp [hr]
  · simp [hrs]

/-- A new instance is empty; the others keep their place. -/
theorem inst_addInstance (name : String) (maxDepth : Nat) (i : InstanceId) :
    (h.addInstance name maxDepth).2.inst i =
      if i.index = h.instances.size then { name, maxDepth } else h.inst i := by
  simp only [addInstance, inst, Array.getD_eq_getD_getElem?, Array.getElem?_push]
  split <;> rfl

theorem record_addRecord (fields : List (String × Value)) (r : RecordId) :
    (h.addRecord fields).2.record r =
      if r.index = h.records.size then { fields := .ofList fields } else h.record r := by
  simp only [addRecord, record, Array.getD_eq_getD_getElem?, Array.getElem?_push]
  split <;> rfl

section
variable {h}

theorem freezeAll_nil : (h.freezeAll []).1 = h := by
  rw [freezeAll]

theorem freezeAll_open {value : Value} {rest : List Value} (ho : h.isOpen value = true) :
    (h.freezeAll (value :: rest)).1 = ((h.mark value).freezeAll (h.targets value ++ rest)).1 := by
  rw [freezeAll, dif_pos ho]

theorem freezeAll_other {value : Value} {rest : List Value} (ho : ¬ h.isOpen value = true) :
    (h.freezeAll (value :: rest)).1 = (h.freezeAll rest).1 := by
  rw [freezeAll, dif_neg ho]

end

/-- The second heap is the first with more objects frozen. -/
structure Freezes (h h' : Heap) : Prop where
  instances : ∀ i, h'.inst i = { h.inst i with frozen := (h'.inst i).frozen }
  records : ∀ r, h'.record r = { h.record r with frozen := (h'.record r).frozen }
  frozenInst : ∀ i, (h.inst i).frozen = true → (h'.inst i).frozen = true
  frozenRecord : ∀ r, (h.record r).frozen = true → (h'.record r).frozen = true
  instanceCount : h'.instances.size = h.instances.size
  recordCount : h'.records.size = h.records.size

namespace Freezes

theorem refl (h : Heap) : Freezes h h := ⟨fun _ => rfl, fun _ => rfl, by simp, by simp, rfl, rfl⟩

theorem trans {h₁ h₂ h₃ : Heap} (h₁₂ : Freezes h₁ h₂) (h₂₃ : Freezes h₂ h₃) : Freezes h₁ h₃ where
  instances i := by rw [h₂₃.instances, h₁₂.instances]
  records r := by rw [h₂₃.records, h₁₂.records]
  frozenInst i hi := h₂₃.frozenInst i (h₁₂.frozenInst i hi)
  frozenRecord r hr := h₂₃.frozenRecord r (h₁₂.frozenRecord r hr)
  instanceCount := h₂₃.instanceCount.trans h₁₂.instanceCount
  recordCount := h₂₃.recordCount.trans h₁₂.recordCount

theorem markInst (h : Heap) (i : InstanceId) : Freezes h (h.markInst i) where
  instances j := by
    rw [Heap.markInst, inst_modify]
    split <;> rfl
  records _ := rfl
  frozenInst j hj := by
    rw [Heap.markInst, inst_modify]
    split
    · rfl
    · exact hj
  frozenRecord _ hr := hr
  instanceCount := by simp [Heap.markInst, modifyInst]
  recordCount := rfl

theorem markRecord (h : Heap) (r : RecordId) : Freezes h (h.markRecord r) where
  instances _ := rfl
  records s := by
    rw [Heap.markRecord, record_modify]
    split <;> rfl
  frozenInst _ hi := hi
  frozenRecord s hs := by
    rw [Heap.markRecord, record_modify]
    split
    · rfl
    · exact hs
  instanceCount := rfl
  recordCount := by simp [Heap.markRecord, modifyRecord]

theorem mark (h : Heap) (value : Value) : Freezes h (h.mark value) := by
  cases value with
  | inst i => exact markInst h i
  | template t => exact markInst h t.target
  | record r => exact markRecord h r
  | _ => exact refl h

theorem freezeAll (h : Heap) (stack : List Value) : Freezes h (h.freezeAll stack).1 := by
  induction h, stack using Heap.freezeAll.induct with
  | case1 h =>
    rw [freezeAll_nil]
    exact refl h
  | case2 h value rest ho frozen order hf ih =>
    rw [freezeAll_open ho]
    exact (mark h value).trans ih
  | case3 h value rest ho ih =>
    rw [freezeAll_other ho]
    exact ih

theorem targets {h h' : Heap} (hf : Freezes h h') (value : Value) :
    h'.targets value = h.targets value := by
  have hi : ∀ i, (h'.inst i).targets = (h.inst i).targets := fun i => by rw [hf.instances i]; rfl
  cases value with
  | inst i => exact hi i
  | template t => exact hi t.target
  | record r =>
    show (h'.record r).targets = (h.record r).targets
    rw [hf.records r]
    rfl
  | _ => rfl

end Freezes

-- ---------------------------------------------------------------------------
-- References
-- ---------------------------------------------------------------------------

variable {h} {h' : Heap}

theorem Knows.mono (hi : h.instances.size ≤ h'.instances.size)
    (hr : h.records.size ≤ h'.records.size) {value : Value} (hk : h.Knows value) :
    h'.Knows value := by
  induction value with
  | record r => exact Nat.lt_of_lt_of_le hk hr
  | inst i => exact Nat.lt_of_lt_of_le hk hi
  | template t => exact Nat.lt_of_lt_of_le hk hi
  | method serial owner name callee ih => exact ⟨Nat.lt_of_lt_of_le hk.1 hi, ih hk.2⟩
  | _ => trivial

/-- Objects are never removed. -/
theorem Change.size_le (hc : Change h h') :
    h.instances.size ≤ h'.instances.size ∧ h.records.size ≤ h'.records.size := by
  cases hc with
  | addInstance name maxDepth => simp [Heap.addInstance]
  | addRecord _ => simp [Heap.addRecord]
  | takeSerial => exact ⟨Nat.le_refl _, Nat.le_refl _⟩
  | setMember => simp [Heap.setMember, modifyInst]
  | setChain => simp [Heap.setChain, modifyInst]
  | freeze stack =>
    have hf := Freezes.freezeAll h stack
    exact ⟨Nat.le_of_eq hf.instanceCount.symm, Nat.le_of_eq hf.recordCount.symm⟩

theorem Change.knows (hc : Change h h') {value : Value} (hk : h.Knows value) : h'.Knows value :=
  hk.mono hc.size_le.1 hc.size_le.2

theorem mem_targets {x : Instance} {value : Value} :
    value ∈ x.targets ↔ value ∈ x.members.values ∨ value ∈ x.chain.delegates := by
  simp [Instance.targets, or_comm]

/-- What an instance holds after a change it held before, or it was known. -/
theorem Change.inst_targets (hc : Change h h') {i : InstanceId} {value : Value}
    (hv : value ∈ (h'.inst i).targets) : value ∈ (h.inst i).targets ∨ h.Knows value := by
  cases hc with
  | addInstance name maxDepth =>
    rw [inst_addInstance] at hv
    split at hv
    · simp [mem_targets, NameMap.values, Chain.delegates] at hv
    · exact .inl hv
  | addRecord _ => exact .inl hv
  | takeSerial => exact .inl hv
  | setMember name ho hk =>
    rw [Heap.setMember, inst_modify] at hv
    split at hv
    · rcases mem_targets.mp hv with hm | hd
      · rcases NameMap.mem_values_insert hm with hm | rfl
        · exact .inl (mem_targets.mpr (.inl hm))
        · exact .inr hk
      · exact .inl (mem_targets.mpr (.inr hd))
    · exact .inl hv
  | setChain ho hp hk ht =>
    rw [Heap.setChain, inst_modify] at hv
    split at hv
    case isTrue hj =>
      obtain ⟨rfl, -⟩ := hj
      rcases mem_targets.mp hv with hm | hm
      · exact .inl (mem_targets.mpr (.inl hm))
      · rcases ht.mem_delegates hm with hm | rfl
        · exact .inl (mem_targets.mpr (.inr hm))
        · exact .inr hk
    case isFalse => exact .inl hv
  | freeze stack =>
    have ht := (Freezes.freezeAll h stack).targets (.inst i)
    exact .inl ((congrArg (value ∈ ·) ht).mp hv)

/-- What a record holds after a change it held before, or it was known. -/
theorem Change.record_targets (hc : Change h h') {r : RecordId} {value : Value}
    (hv : value ∈ (h'.record r).targets) : value ∈ (h.record r).targets ∨ h.Knows value := by
  cases hc with
  | addRecord hf =>
    rw [record_addRecord] at hv
    split at hv
    · obtain ⟨field, hm, rfl⟩ := NameMap.mem_values_ofList hv
      exact .inr (hf field hm)
    · exact .inl hv
  | freeze stack =>
    have ht := (Freezes.freezeAll h stack).targets (.record r)
    exact .inl ((congrArg (value ∈ ·) ht).mp hv)
  | _ => exact .inl hv

theorem Change.sound (hs : h.Sound) (hc : Change h h') : h'.Sound where
  instances i value hv := hc.knows ((hc.inst_targets hv).elim (hs.instances i value) id)
  records r value hv := hc.knows ((hc.record_targets hv).elim (hs.records r value) id)

/-- What every change keeps, any number of changes keep. -/
theorem Changes.keeps {P : Heap → Prop} (hstep : ∀ {g g'}, Change g g' → P g → P g')
    (hc : Changes h h') (hp : P h) : P h' := by
  induction hc with
  | refl => exact hp
  | tail _ hlast ih => exact hstep hlast ih

theorem Changes.knows (hc : Changes h h') {value : Value} (hk : h.Knows value) :
    h'.Knows value :=
  hc.keeps (fun hlast => hlast.knows) hk

theorem Changes.sound (hs : h.Sound) (hc : Changes h h') : h'.Sound :=
  hc.keeps (fun hlast hs => hlast.sound hs) hs

theorem sound_empty : Heap.Sound {} where
  instances i value hv := by
    rw [inst_of_le _ (Nat.zero_le _)] at hv
    cases hv
  records r value hv := by
    rw [record_of_le _ (Nat.zero_le _)] at hv
    cases hv

end Heap

end Delegation

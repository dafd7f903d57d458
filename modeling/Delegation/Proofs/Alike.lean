import Mathlib.Data.List.Forall2
import Delegation.Heap.Text
import Delegation.Proofs.Reachable

/-!
# Templates and their instances in chains

Construction replaces templates in delegate chains by their instances. Two heaps
are alike when that is their only difference, in whatever levels and in whichever
direction. Attributes cannot tell such heaps apart: every traversal treats a
template in a chain as its instance (`descend_alike`), and every operation leads
from alike heaps to alike heaps (`construction_invisible`).
-/

namespace Delegation

/-- The values are the same, or one is a template and the other its instance. -/
inductive Value.Alike : Value → Value → Prop where
  | same (value : Value) : Alike value value
  | built (t : Template) : Alike (.template t) (.inst t.target)
  | unbuilt (t : Template) : Alike (.inst t.target) (.template t)

def Chain.Alike (chain chain' : Chain) : Prop :=
  List.Forall₂ (Option.Rel Value.Alike) chain.levels chain'.levels

structure Instance.Alike (x x' : Instance) : Prop where
  name : x'.name = x.name
  maxDepth : x'.maxDepth = x.maxDepth
  members : x'.members = x.members
  frozen : x'.frozen = x.frozen
  chain : x.chain.Alike x'.chain

structure Heap.Alike (h h' : Heap) : Prop where
  instances : ∀ i, (h.inst i).Alike (h'.inst i)
  count : h'.instances.size = h.instances.size
  records : h'.records = h.records
  serials : h'.nextSerial = h.nextSerial

/-- Nothing but levels of chains tells the machines apart, and what they heard. -/
def Machine.Alike {γ σ : Type} (m m' : Machine γ σ) : Prop :=
  m.heap.Alike m'.heap ∧ m' = { m with heap := m'.heap, trace := m'.trace }

/-- Two outcomes with one error, or with related results. -/
inductive Agree {α β : Type} (R : α → β → Prop) : Except Error α → Except Error β → Prop where
  | error (e : Error) : Agree R (.error e) (.error e)
  | ok {a : α} {b : β} : R a b → Agree R (.ok a) (.ok b)

theorem Agree.bind {α β α' β' : Type} {R : α → β → Prop} {S : α' → β' → Prop}
    {x : Except Error α} {y : Except Error β} {f : α → Except Error α'} {g : β → Except Error β'}
    (hxy : Agree R x y) (hfg : ∀ a b, R a b → Agree S (f a) (g b)) :
    Agree S (x >>= f) (y >>= g) := by
  cases hxy with
  | error e => exact .error e
  | ok hab => exact hfg _ _ hab

theorem Agree.bind_same {α α' β' : Type} {S : α' → β' → Prop} (x : Except Error α)
    {f : α → Except Error α'} {g : α → Except Error β'} (hfg : ∀ a, Agree S (f a) (g a)) :
    Agree S (x >>= f) (x >>= g) := by
  cases x with
  | error e => exact .error e
  | ok a => exact hfg a

-- ---------------------------------------------------------------------------
-- Values and chains
-- ---------------------------------------------------------------------------

theorem Value.Alike.instance?_eq {value value' : Value} (ha : value.Alike value') :
    value'.instance? = value.instance? := by
  cases ha <;> rfl

/-- Only instances and templates have something else alike. -/
theorem Value.Alike.eq_of_plain {value value' : Value} (ha : value.Alike value')
    (hp : value.instance? = Option.none) : value = value' := by
  cases ha with
  | same => rfl
  | built t => cases hp
  | unbuilt t => cases hp

theorem levelAlike_refl (level : Option Value) : Option.Rel Value.Alike level level := by
  cases level with
  | none => exact .none
  | some delegate => exact .some (.same delegate)

/-- A list and the same list with one element changed. -/
theorem forall₂_set {α : Type} {R : α → α → Prop} (hR : ∀ x, R x x) {xs : List α} {k : Nat}
    {x y : α} (hx : xs[k]? = some x) (hxy : R x y) : List.Forall₂ R xs (xs.set k y) := by
  induction xs generalizing k with
  | nil => cases hx
  | cons head rest ih =>
    cases k with
    | zero =>
      obtain rfl : head = x := by simpa using hx
      exact .cons hxy (List.forall₂_same.mpr fun z _ => hR z)
    | succ k => exact .cons (hR head) (ih (by simpa using hx))

namespace Chain

variable {chain chain' : Chain}

theorem Alike.refl (chain : Chain) : chain.Alike chain :=
  List.forall₂_same.mpr fun level _ => levelAlike_refl level

theorem alike_setLevel {index : Nat} {t : Template}
    (hh : chain.holds index (.template t) = true) :
    chain.Alike (chain.setLevel index (.inst t.target)) :=
  forall₂_set levelAlike_refl (holds_template.mp hh) (.some (.built t))

theorem Alike.delegates (ha : chain.Alike chain') :
    List.Forall₂ Value.Alike chain.delegates chain'.delegates := by
  obtain ⟨levels⟩ := chain
  obtain ⟨levels'⟩ := chain'
  simp only [Chain.Alike, Chain.delegates] at ha ⊢
  induction ha with
  | nil => exact .nil
  | cons hlevel _ ih =>
    cases hlevel with
    | none => simpa using ih
    | some hd => simpa using ⟨hd, ih⟩

theorem Alike.instances (ha : chain.Alike chain') :
    chain'.delegates.filterMap Value.instance? = chain.delegates.filterMap Value.instance? := by
  have hd := ha.delegates
  generalize chain.delegates = delegates at hd ⊢
  generalize chain'.delegates = delegates' at hd ⊢
  induction hd with
  | nil => rfl
  | cons hhead _ ih => rw [List.filterMap_cons, List.filterMap_cons, hhead.instance?_eq, ih]

theorem Alike.indexed (ha : chain.Alike chain') :
    List.Forall₂ (fun entry entry' => entry'.1 = entry.1 ∧ entry.2.Alike entry'.2)
      chain.indexed chain'.indexed := by
  obtain ⟨levels⟩ := chain
  obtain ⟨levels'⟩ := chain'
  simp only [Chain.Alike, Chain.indexed] at ha ⊢
  generalize 0 = start
  induction ha generalizing start with
  | nil => exact .nil
  | cons hlevel _ ih =>
    cases hlevel with
    | none => simpa [List.zipIdx_cons] using ih (start + 1)
    | some hd => simpa [List.zipIdx_cons] using ⟨hd, ih (start + 1)⟩

theorem Alike.append (ha : chain.Alike chain') (delegate : Value) :
    (chain.append delegate).Alike (chain'.append delegate) :=
  List.rel_append ha (.cons (.some (.same delegate)) .nil)

theorem Alike.setHead (ha : chain.Alike chain') (delegate : Value) :
    (chain.setHead delegate).Alike (chain'.setHead delegate) := by
  obtain ⟨levels⟩ := chain
  obtain ⟨levels'⟩ := chain'
  cases ha with
  | nil => exact .cons (levelAlike_refl _) .nil
  | cons _ hrest => exact .cons (levelAlike_refl _) hrest

end Chain

namespace Heap

variable {h h' : Heap}

theorem Alike.record_eq (ha : h.Alike h') (r : RecordId) : h'.record r = h.record r := by
  simp only [record, ha.records]

theorem Alike.root_eq (ha : h.Alike h') (i : InstanceId) : h'.root i = h.root i := by
  simp only [root, (ha.instances i).maxDepth]

-- ---------------------------------------------------------------------------
-- Traversals
-- ---------------------------------------------------------------------------

/-- Traversals of alike heaps agree in every sense that their visits keep, as
long as being too deep agrees with itself. -/
theorem descend_alike {β β' : Type} {R : Except Error β → Except Error β' → Prop}
    {visit : Visit β} {visit' : Visit β'} (ha : h.Alike h')
    (hd : ∀ e, R (.error e) (.error e))
    (hv : ∀ depth i enter enter', (∀ j, R (enter j) (enter' j)) →
      R (visit depth i enter) (visit' depth i enter'))
    (depth : Depth) (i : InstanceId) : R (h.descend visit depth i) (h'.descend visit' depth i) :=
  descend_rel_of_names (fun i => (ha.instances i).name) hd hv depth i

theorem attrOf_alike (ha : h.Alike h') (name : String)
    {enter enter' : InstanceId → Except Error (Option Value)} (he : ∀ j, enter' j = enter j)
    {value value' : Value} (hv : value.Alike value') :
    h'.attrOf name enter' value' = h.attrOf name enter value := by
  cases hi : value.instance? with
  | some j =>
    rw [h.attrOf_of_instance hi, h'.attrOf_of_instance (hv.instance?_eq.trans hi), he]
  | none =>
    obtain rfl := hv.eq_of_plain hi
    cases value with
    | inst i => cases hi
    | template t => cases hi
    | record r => simp only [attrOf, ha.record_eq]
    | _ => rfl

theorem firstSuccess_alike {ask ask' : Value → Except Error (Option Value)}
    (hask : ∀ value value', value.Alike value' → ask' value' = ask value)
    {delegates delegates' : List Value} (hd : List.Forall₂ Value.Alike delegates delegates')
    (outcome : Except Error (Option Value)) :
    firstSuccess ask' outcome delegates' = firstSuccess ask outcome delegates := by
  induction hd generalizing outcome with
  | nil => rfl
  | cons hhead _ ih => rw [firstSuccess_cons, firstSuccess_cons, hask _ _ hhead, ih]

theorem lookupAt_alike (ha : h.Alike h') {name : String} (hn : name ≠ SpecialName.super.text)
    (depth : Depth) (i : InstanceId) : h'.lookupAt name depth i = h.lookupAt name depth i := by
  refine descend_alike (R := fun x y => y = x) ha (fun _ => rfl) ?_ depth i
  intro depth i enter enter' he
  have hi := ha.instances i
  rw [lookupVisit, lookupVisit, if_neg hn, if_neg hn, hi.members]
  cases (h.inst i).members.get? name with
  | some value => rfl
  | none => exact firstSuccess_alike (fun _ _ => attrOf_alike ha name he) hi.chain.delegates _

theorem lookup_alike (ha : h.Alike h') {name : String} (hn : name ≠ SpecialName.super.text)
    (i : InstanceId) : h'.lookup name i = h.lookup name i := by
  rw [lookup, lookup, ha.root_eq, lookupAt_alike ha hn]

theorem hook?_alike (ha : h.Alike h') {hook : SpecialName} (hh : hook.isHook = true)
    (i : InstanceId) : h'.hook? hook i = h.hook? hook i := by
  have hn : hook.text ≠ SpecialName.super.text := by
    cases hook with
    | super => cases hh
    | _ => decide
  rw [hook?, hook?, lookup_alike ha hn]

theorem namesOf_alike (ha : h.Alike h') {enter enter' : InstanceId → Except Error (List String)}
    (he : ∀ j, enter' j = enter j) {value value' : Value} (hv : value.Alike value') :
    h'.namesOf enter' value' = h.namesOf enter value := by
  cases hv with
  | same =>
    cases value with
    | inst i => exact he i
    | template t => exact he t.target
    | record r => simp only [namesOf, ha.record_eq]
    | _ => rfl
  | built t => exact he t.target
  | unbuilt t => exact he t.target

theorem namesAmong_alike (ha : h.Alike h') {enter enter' : InstanceId → Except Error (List String)}
    (he : ∀ j, enter' j = enter j) {delegates delegates' : List Value}
    (hd : List.Forall₂ Value.Alike delegates delegates') :
    h'.namesAmong enter' delegates' = h.namesAmong enter delegates := by
  induction hd with
  | nil => rfl
  | cons hhead _ ih => rw [namesAmong, namesAmong, namesOf_alike ha he hhead, ih]

theorem names_alike (ha : h.Alike h') (i : InstanceId) : h'.names i = h.names i := by
  rw [names, names, ha.root_eq]
  refine descend_alike (R := fun x y => y = x) ha (fun _ => rfl) ?_ _ i
  intro depth i enter enter' he
  have hi := ha.instances i
  simp only [namesVisit, hi.members, namesAmong_alike ha he hi.chain.delegates]

theorem structuralText_alike (ha : h.Alike h') (i : InstanceId) :
    h'.structuralText i = h.structuralText i := by
  rw [structuralText, structuralText, names_alike ha, (ha.instances i).name]

-- ---------------------------------------------------------------------------
-- Changes
-- ---------------------------------------------------------------------------

theorem Alike.modifyInst (ha : h.Alike h') (i : InstanceId) {change change' : Instance → Instance}
    (hc : (change (h.inst i)).Alike (change' (h'.inst i))) :
    (h.modifyInst i change).Alike (h'.modifyInst i change') where
  instances j := by
    rw [inst_modify, inst_modify, ha.count]
    split
    case isTrue hij =>
      obtain ⟨rfl, -⟩ := hij
      exact hc
    case isFalse => exact ha.instances j
  count := by simpa [Heap.modifyInst] using ha.count
  records := ha.records
  serials := ha.serials

theorem Alike.setMember (ha : h.Alike h') (i : InstanceId) (name : String) (value : Value) :
    (h.setMember i name value).Alike (h'.setMember i name value) := by
  have hi := ha.instances i
  exact ha.modifyInst i ⟨hi.name, hi.maxDepth, by rw [hi.members], hi.frozen, hi.chain⟩

theorem Alike.setChain (ha : h.Alike h') (i : InstanceId) {chain chain' : Chain}
    (hc : chain.Alike chain') : (h.setChain i chain).Alike (h'.setChain i chain') := by
  have hi := ha.instances i
  exact ha.modifyInst i ⟨hi.name, hi.maxDepth, hi.members, hi.frozen, hc⟩

theorem Alike.refl (h : Heap) : h.Alike h where
  instances _ := ⟨rfl, rfl, rfl, rfl, .refl _⟩
  count := rfl
  records := rfl
  serials := rfl

/-- A template in a level gives way to its instance. -/
theorem alike_setLevel {i : InstanceId} {index : Nat} {t : Template}
    (hh : (h.inst i).chain.holds index (.template t) = true) :
    h.Alike (h.setChain i ((h.inst i).chain.setLevel index (.inst t.target))) where
  instances j := by
    rw [setChain, inst_modify]
    split
    case isTrue hij =>
      obtain ⟨rfl, -⟩ := hij
      exact ⟨rfl, rfl, rfl, rfl, Chain.alike_setLevel hh⟩
    case isFalse => exact (Alike.refl h).instances j
  count := by simp [setChain, Heap.modifyInst]
  records := rfl
  serials := rfl

theorem checkOpen_alike (ha : h.Alike h') (slot : String) (i : InstanceId) :
    h'.checkOpen slot i = h.checkOpen slot i := by
  simp only [checkOpen, (ha.instances i).frozen, (ha.instances i).name]

theorem checkPlacement_alike (ha : h.Alike h') (receiver : InstanceId) {value value' : Value}
    (hv : value.Alike value') :
    h'.checkPlacement receiver value' = h.checkPlacement receiver value := by
  have hbelow (depth : Depth) (i : InstanceId) :
      h'.checkBelow receiver depth i = h.checkBelow receiver depth i := by
    refine descend_alike (R := fun x y => y = x) ha (fun _ => rfl) ?_ depth i
    intro depth i enter enter' he
    obtain rfl : enter' = enter := funext he
    simp only [placementVisit, (ha.instances receiver).name, (ha.instances i).chain.instances]
  simp only [checkPlacement, hv.instance?_eq, ha.root_eq, (ha.instances receiver).name, hbelow]

theorem addDelegate_alike (ha : h.Alike h') (receiver : InstanceId) (value : Value) :
    Agree Alike (h.addDelegate receiver value) (h'.addDelegate receiver value) := by
  rw [addDelegate, addDelegate, checkOpen_alike ha, checkPlacement_alike ha receiver (.same value)]
  refine .bind_same _ fun _ => .bind_same _ fun _ => ?_
  exact .ok (ha.setChain receiver ((ha.instances receiver).chain.append value))

theorem setSuper_alike (ha : h.Alike h') (receiver : InstanceId) (value : Value) :
    Agree Alike (h.setSuper receiver value) (h'.setSuper receiver value) := by
  rw [setSuper, setSuper, checkOpen_alike ha, checkPlacement_alike ha receiver (.same value)]
  refine .bind_same _ fun _ => .bind_same _ fun _ => ?_
  exact .ok (ha.setChain receiver ((ha.instances receiver).chain.setHead value))

theorem canRead_alike (ha : h.Alike h') {name : String} (hn : name ≠ SpecialName.super.text)
    {value value' : Value} (hv : value.Alike value') :
    h'.canRead value' name = h.canRead value name := by
  rw [canRead, canRead, read, read, attrOf_alike ha name (lookup_alike ha hn) hv]

theorem definerAmong_alike (ha : h.Alike h') {name : String} (hn : name ≠ SpecialName.super.text)
    (owner : String) (depth : Depth) {delegates delegates' : List Value}
    (hd : List.Forall₂ Value.Alike delegates delegates') :
    Agree (Option.Rel fun found found' => found.1.Alike found'.1 ∧ found'.2 = found.2)
      (h.definerAmong name owner depth delegates)
      (h'.definerAmong name owner depth delegates') := by
  induction hd with
  | nil => exact .ok .none
  | @cons delegate delegate' rest rest' hhead _ ih =>
    rw [definerAmong, definerAmong, hhead.instance?_eq, canRead_alike ha hn hhead]
    cases delegate.instance? with
    | none =>
      dsimp only
      split
      · exact .ok (.some ⟨hhead, rfl⟩)
      · exact ih
    | some j =>
      refine .bind_same _ fun below => ?_
      rw [lookupAt_alike ha hn]
      cases h.lookupAt name below j with
      | error e =>
        dsimp only
        split
        · exact .error e
        · exact ih
      | ok found =>
        cases found with
        | none => exact ih
        | some value => exact .ok (.some ⟨hhead, rfl⟩)

theorem assignAt_alike (ha : h.Alike h') {name : String} (hn : name ≠ SpecialName.super.text)
    (value : Value) (depth : Depth) (i : InstanceId) :
    Agree Alike (h.assignAt name value depth i) (h'.assignAt name value depth i) := by
  refine descend_alike ha .error (fun depth i enter enter' he => ?_) depth i
  have hi := ha.instances i
  rw [writeVisit, writeVisit, checkOpen_alike ha, if_neg hn, if_neg hn, hi.members, hi.name]
  refine .bind_same _ fun _ => ?_
  split
  · exact .ok (ha.setMember i name value)
  refine .bind (definerAmong_alike ha hn _ depth hi.chain.delegates) fun found found' hf => ?_
  cases hf with
  | none => exact .ok (ha.setMember i name value)
  | @some definer definer' hdefiner =>
    obtain ⟨delegate, below⟩ := definer
    obtain ⟨delegate', below'⟩ := definer'
    obtain ⟨hd : delegate.Alike delegate', rfl⟩ := hdefiner
    dsimp only
    rw [hd.instance?_eq]
    cases hj : delegate.instance? with
    | some j => exact he j
    | none =>
      obtain rfl := hd.eq_of_plain hj
      cases delegate with
      | inst j => cases hj
      | template t => cases hj
      | _ => exact .error _

theorem write_alike (ha : h.Alike h') {name : String} (hn : name ≠ SpecialName.super.text)
    (value : Value) (i : InstanceId) :
    Agree Alike (h.write (.inst i) name value) (h'.write (.inst i) name value) := by
  show Agree Alike (h.assign name value i) (h'.assign name value i)
  rw [assign, assign, ha.root_eq]
  exact assignAt_alike ha hn value _ i

-- ---------------------------------------------------------------------------
-- Freezing
-- ---------------------------------------------------------------------------

theorem isOpen_alike (ha : h.Alike h') {value value' : Value} (hv : value.Alike value') :
    h'.isOpen value' = h.isOpen value := by
  have hi (i : InstanceId) : h'.isOpen (.inst i) = h.isOpen (.inst i) := by
    simp only [isOpen, ha.count, (ha.instances i).frozen]
  cases hv with
  | same =>
    cases value with
    | inst i => exact hi i
    | template t => exact hi t.target
    | record r => simp only [isOpen, ha.records, ha.record_eq]
    | _ => rfl
  | built t => exact hi t.target
  | unbuilt t => exact hi t.target

theorem markInst_alike (ha : h.Alike h') (i : InstanceId) :
    (h.markInst i).Alike (h'.markInst i) := by
  have hi := ha.instances i
  exact ha.modifyInst i ⟨hi.name, hi.maxDepth, hi.members, rfl, hi.chain⟩

theorem mark_alike (ha : h.Alike h') {value value' : Value} (hv : value.Alike value') :
    (h.mark value).Alike (h'.mark value') := by
  cases hv with
  | same =>
    cases value with
    | inst i => exact markInst_alike ha i
    | template t => exact markInst_alike ha t.target
    | record r =>
      refine ⟨ha.instances, ha.count, ?_, ha.serials⟩
      simp only [mark, markRecord, modifyRecord, ha.records]
    | _ => exact ha
  | built t => exact markInst_alike ha t.target
  | unbuilt t => exact markInst_alike ha t.target

theorem targets_alike (ha : h.Alike h') {value value' : Value} (hv : value.Alike value') :
    List.Forall₂ Value.Alike (h.targets value) (h'.targets value') := by
  have hsame (values : List Value) : List.Forall₂ Value.Alike values values :=
    List.forall₂_same.mpr fun value _ => .same value
  have hi (i : InstanceId) :
      List.Forall₂ Value.Alike (h.inst i).targets (h'.inst i).targets := by
    rw [Instance.targets, Instance.targets, (ha.instances i).members]
    exact List.rel_reverse (List.rel_append (hsame _) (ha.instances i).chain.delegates)
  cases hv with
  | same =>
    cases value with
    | inst i => exact hi i
    | template t => exact hi t.target
    | record r => simpa only [targets, ha.record_eq] using hsame _
    | _ => exact .nil
  | built t => exact hi t.target
  | unbuilt t => exact hi t.target

theorem freezeAll_alike (ha : h.Alike h') {stack stack' : List Value}
    (hs : List.Forall₂ Value.Alike stack stack') :
    (h.freezeAll stack).1.Alike (h'.freezeAll stack').1 := by
  induction h, stack using Heap.freezeAll.induct generalizing h' stack' with
  | case1 h =>
    cases hs
    rwa [freezeAll_nil, freezeAll_nil]
  | case2 h value rest ho frozen order hf ih =>
    cases hs with | cons hv hrest => ?_
    rw [freezeAll_open ho, freezeAll_open ((isOpen_alike ha hv).trans ho)]
    exact ih (mark_alike ha hv) (List.rel_append (targets_alike ha hv) hrest)
  | case3 h value rest ho ih =>
    cases hs with | cons hv hrest => ?_
    rw [freezeAll_other ho, freezeAll_other (by rwa [isOpen_alike ha hv])]
    exact ih ha hrest

-- ---------------------------------------------------------------------------
-- Initializers
-- ---------------------------------------------------------------------------

structure StepAlike (step step' : PathStep) : Prop where
  owner : step'.owner = step.owner
  level : step'.level = step.level
  delegate : step.delegate.Alike step'.delegate

/-- The same method of the same holder, found along the same levels. -/
structure SameInitializer (found found' : Initializer) : Prop where
  holder : found'.holder = found.holder
  method : found'.method = found.method
  path : List.Forall₂ StepAlike found.path found'.path

theorem initializerAmong_alike (owner : InstanceId)
    {enter enter' : InstanceId → Except Error (Option Initializer)}
    (he : ∀ j, Agree (Option.Rel SameInitializer) (enter j) (enter' j))
    {levels levels' : List (Nat × Value)}
    (hl : List.Forall₂ (fun entry entry' => entry'.1 = entry.1 ∧ entry.2.Alike entry'.2)
      levels levels') :
    Agree (Option.Rel SameInitializer) (initializerAmong owner enter levels)
      (initializerAmong owner enter' levels') := by
  induction hl with
  | nil => exact .ok .none
  | @cons entry entry' _ _ hentry _ ih =>
    obtain ⟨level, delegate⟩ := entry
    obtain ⟨level', delegate'⟩ := entry'
    obtain ⟨rfl : level' = level, hd : delegate.Alike delegate'⟩ := hentry
    rw [initializerAmong, initializerAmong, hd.instance?_eq]
    cases delegate.instance? with
    | none => exact ih
    | some j =>
      refine .bind (he j) fun found found' hf => ?_
      cases hf with
      | none => exact ih
      | some hf =>
        have hstep : StepAlike ⟨owner, level', delegate⟩ ⟨owner, level', delegate'⟩ :=
          ⟨rfl, rfl, hd⟩
        have hpath := List.rel_append hf.path (.cons hstep .nil)
        exact .ok (.some ⟨hf.holder, hf.method, hpath⟩)

theorem initializer?_alike (ha : h.Alike h') (i : InstanceId) :
    Agree (Option.Rel SameInitializer) (h.initializer? i) (h'.initializer? i) := by
  rw [initializer?, initializer?, ha.root_eq]
  refine descend_alike ha .error (fun depth i enter enter' he => ?_) _ i
  have hi := ha.instances i
  have hown : h'.ownInit? i = h.ownInit? i := by rw [ownInit?, ownInit?, hi.members]
  rw [initializerVisit, initializerVisit, hown]
  cases h.ownInit? i with
  | none => exact initializerAmong_alike i he hi.chain.indexed
  | some method => exact .ok (.some ⟨rfl, rfl, .nil⟩)

end Heap

-- ---------------------------------------------------------------------------
-- Operations of machines
-- ---------------------------------------------------------------------------

section
variable {γ σ α : Type} {m m' : Machine γ σ}

theorem Machine.Alike.report (ha : m.Alike m') (events events' : Unit → List Event) :
    (m.report events).Alike (m'.report events') := by
  obtain ⟨hheap, hrest⟩ := ha
  refine ⟨by simpa using hheap, ?_⟩
  rw [m.report_eq, m'.report_eq, hrest]

/-- On either machine the evaluation ends in the same way, and the machines it
leaves are alike. -/
def Eval.SameOutcome (x : Eval γ σ α) (m m' : Machine γ σ) : Prop :=
  ∃ result n n', x m = .ok (result, n) ∧ x m' = .ok (result, n') ∧ n.Alike n'

theorem Eval.commit_alike {change change' : Except Error Heap} (ha : m.Alike m')
    (hc : Agree Heap.Alike change change') :
    ∃ result n n', Eval.commit change m = .ok (result, n) ∧
      Eval.commit change' m' = .ok (result, n') ∧ n.Alike n' := by
  cases hc with
  | error e => exact ⟨.error e, m, m', by simp, by simp, ha⟩
  | @ok h h' hh =>
    refine ⟨.ok (), { m with heap := h }, { m' with heap := h' }, by simp, by simp, hh, ?_⟩
    rw [ha.2]

/-- No answer about the attributes of an instance tells two machines apart, and
no operation on it or on a template does. -/
structure Indistinct (host : Host γ σ) (m m' : Machine γ σ) (i : InstanceId) : Prop where
  lookup : ∀ name, name ≠ SpecialName.super.text → m'.heap.lookup name i = m.heap.lookup name i
  names : m'.heap.names i = m.heap.names i
  text : m'.heap.structuralText i = m.heap.structuralText i
  hook : ∀ hook, hook.isHook = true → m'.heap.hook? hook i = m.heap.hook? hook i
  write : ∀ fuel name value, name ≠ SpecialName.super.text →
    (Eval.perform host fuel (.write (.inst i) name value)).SameOutcome m m'
  addDelegate : ∀ fuel value, (Eval.perform host fuel (.addDelegate i value)).SameOutcome m m'
  setSuper : ∀ fuel value, (Eval.perform host fuel (.setSuper i value)).SameOutcome m m'
  freeze : ∀ fuel, (Eval.perform host fuel (.freeze (.inst i))).SameOutcome m m'
  initializer : ∀ t : Template, Agree (Option.Rel Heap.SameInitializer)
    (m.heap.initializer? t.target) (m'.heap.initializer? t.target)

/-- Construction in place cannot be seen in attributes: machines that differ only
in levels that hold a template here and its instance there answer alike, and
whatever is done to an instance leaves them so. -/
theorem construction_invisible (host : Host γ σ) (ha : m.Alike m') (i : InstanceId) :
    Indistinct host m m' i where
  lookup name hn := Heap.lookup_alike ha.1 hn i
  names := Heap.names_alike ha.1 i
  text := Heap.structuralText_alike ha.1 i
  hook _ hh := Heap.hook?_alike ha.1 hh i
  write fuel name value hn := by
    have hrun (n : Machine γ σ) : Eval.perform host fuel (.write (.inst i) name value) n =
        Eval.commit (n.heap.write (.inst i) name value)
          (n.report fun _ => n.heap.writeEvents (.inst i) name) := Eval.run_write ..
    simp only [Eval.SameOutcome, hrun]
    exact Eval.commit_alike (ha.report _ _) (Heap.write_alike ha.1 hn value i)
  addDelegate fuel value := by
    have hrun (n : Machine γ σ) : Eval.perform host fuel (.addDelegate i value) n =
        Eval.commit (n.heap.addDelegate i value) n := rfl
    simp only [Eval.SameOutcome, hrun]
    exact Eval.commit_alike ha (Heap.addDelegate_alike ha.1 i value)
  setSuper fuel value := by
    have hrun (n : Machine γ σ) : Eval.perform host fuel (.setSuper i value) n =
        Eval.commit (n.heap.setSuper i value) n := rfl
    simp only [Eval.SameOutcome, hrun]
    exact Eval.commit_alike ha (Heap.setSuper_alike ha.1 i value)
  freeze fuel := by
    have hfrozen : (m.heap.freezeAll [.inst i]).1.Alike (m'.heap.freezeAll [.inst i]).1 :=
      Heap.freezeAll_alike ha.1 (.cons (.same _) .nil)
    have hreport := ha.report (fun _ => (m.heap.freezeAll [.inst i]).2.flatMap m.heap.freezeEvents)
      (fun _ => (m'.heap.freezeAll [.inst i]).2.flatMap m'.heap.freezeEvents)
    exact ⟨.ok (), _, _, rfl, rfl, hfrozen, congrArg (fun n : Machine γ σ =>
      { n with heap := (m'.heap.freezeAll [.inst i]).1 }) hreport.2⟩
  initializer t := Heap.initializer?_alike ha.1 t.target

theorem construction_invisible_layered :
    ∃ m m' : Machine Unit Unit, m.Alike m' ∧
      (m.heap.inst ⟨1⟩).chain.levels[1]? = some (some (.template ⟨0, ⟨0⟩⟩)) ∧
      (m'.heap.inst ⟨1⟩).chain.levels[1]? = some (some (.inst ⟨0⟩)) ∧
      Indistinct Machine.idle m m' ⟨1⟩ ∧ m'.heap.lookup "w" ⟨1⟩ = .ok (some (.int 4)) := by
  have hholds : (Heap.layered.inst ⟨1⟩).chain.holds 1 (.template ⟨0, ⟨0⟩⟩) = true := rfl
  let h' := Heap.layered.setChain ⟨1⟩ ((Heap.layered.inst ⟨1⟩).chain.setLevel 1 (.inst ⟨0⟩))
  let m : Machine Unit Unit := { host := (), heap := Heap.layered }
  have ha : m.Alike { m with heap := h' } := ⟨Heap.alike_setLevel hholds, rfl⟩
  have hsame := construction_invisible Machine.idle ha ⟨1⟩
  exact ⟨m, _, ha, rfl, rfl, hsame, hsame.lookup "w" (by decide)⟩

end

end Delegation

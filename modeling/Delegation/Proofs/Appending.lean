import Delegation.Proofs.Frozen
import Delegation.Proofs.Installation

/-!
# Appending a level

A level that is added below all others is asked last, so it tells only of what no
level told of before. The traversals of the old levels do not come by the receiver
and answer as before (`sameWithin_setChain`); those of the new one stay within the
bound. `append_appends` puts the two together, for look-ups, names and `super`.
-/

namespace Delegation

namespace Heap

open Relation (ReflTransGen)

variable {h h' : Heap} {i j receiver : InstanceId} {name : String} {value delegate : Value}

-- ---------------------------------------------------------------------------
-- One more level
-- ---------------------------------------------------------------------------

/-- The last level is asked if no other has ended the look-up, and then what it says
stands. -/
theorem firstSuccess_append (ask : Value → Except Error (Option Value)) (delegates : List Value)
    (last : Value) (outcome : Except Error (Option Value)) (ho : isFinal outcome = false) :
    firstSuccess ask outcome (delegates ++ [last]) =
      if isFinal (firstSuccess ask outcome delegates) then firstSuccess ask outcome delegates
      else ask last := by
  induction delegates generalizing outcome with
  | nil => simp [firstSuccess_cons, firstSuccess, ho]
  | cons delegate rest ih =>
    rw [List.cons_append, firstSuccess_cons, firstSuccess_cons]
    cases hd : isFinal (ask delegate) with
    | true => simp [hd]
    | false => exact ih _ hd

theorem namesAmong_append {enter : InstanceId → Except Error (List String)} {more : List String}
    (hl : h.namesOf enter value = .ok more) (delegates : List Value) :
    h.namesAmong enter (delegates ++ [value]) =
      (h.namesAmong enter delegates).map (· ++ more) := by
  induction delegates with
  | nil => simp [namesAmong, hl, bind, Except.bind, pure, Except.pure, Except.map]
  | cons delegate rest ih =>
    rw [List.cons_append, namesAmong, namesAmong, ih]
    cases h.namesOf enter delegate with
    | error e => rfl
    | ok names =>
      cases h.namesAmong enter rest with
      | error e => rfl
      | ok others => simp [bind, Except.bind, pure, Except.pure, Except.map]

-- ---------------------------------------------------------------------------
-- Beside the receiver
-- ---------------------------------------------------------------------------

/-- The receiver is neither the value nor below it. -/
def Avoids (h : Heap) (receiver : InstanceId) (value : Value) : Prop :=
  ∀ j, value.instance? = some j → ¬ ReflTransGen h.Below j receiver

/-- Without cycles an instance is not below its own delegates. -/
theorem Acyclic.avoids (ha : h.Acyclic) (hd : delegate ∈ (h.inst receiver).chain.delegates) :
    h.Avoids receiver delegate :=
  fun _ hj hr => ha receiver (.head' ⟨delegate, hd, hj⟩ hr)

/-- Where the receiver is not met, its chain makes no difference. -/
theorem sameWithin_setChain (h : Heap) (receiver : InstanceId) (chain : Chain) :
    h.SameWithin (h.setChain receiver chain) (h.Avoids receiver) where
  delegates i hi delegate hd := fun j hj hr => hi i rfl (.head ⟨delegate, hd, hj⟩ hr)
  target t ht := fun j hj => ht j hj
  instances i hi := by
    have hne : receiver ≠ i := by
      rintro rfl
      exact hi receiver rfl .refl
    simp [setChain, inst_modify, hne]
  records _ _ := rfl

theorem root_setChain {chain : Chain} : (h.setChain receiver chain).root i = h.root i := by
  rw [root, root, maxDepth_setChain]

/-- What an avoiding value gives under the receiver is not up to the receiver's chain. -/
theorem attrOf_setChain (chain : Chain) (name : String) (hv : h.Avoids receiver value) :
    (h.setChain receiver chain).attrOf name ((h.setChain receiver chain).oneDown receiver
      ((h.setChain receiver chain).lookupAt name)) value =
    h.attrOf name (h.oneDown receiver (h.lookupAt name)) value := by
  have hs := h.sameWithin_setChain receiver chain
  refine hs.attrOf (fun j hj => ?_) hv
  simp only [oneDown, root_setChain, name_setChain, hs.lookupAt name _ hj]

theorem namesOf_setChain (chain : Chain) (hv : h.Avoids receiver value) :
    (h.setChain receiver chain).namesOf ((h.setChain receiver chain).oneDown receiver
      (h.setChain receiver chain).namesAt) value =
    h.namesOf (h.oneDown receiver h.namesAt) value := by
  have hs := h.sameWithin_setChain receiver chain
  refine hs.namesOf (fun j hj => ?_) hv
  simp only [oneDown, root_setChain, name_setChain, hs.namesAt _ hj]

-- ---------------------------------------------------------------------------
-- The receiver
-- ---------------------------------------------------------------------------

/-- A look-up asks the levels one level down. -/
theorem lookup_levels (hname : name ≠ SpecialName.super.text) (i : InstanceId) :
    h.lookup name i =
      match (h.inst i).members.get? name with
      | some held => .ok (some held)
      | none => firstSuccess (h.attrOf name (h.oneDown i (h.lookupAt name))) (.ok none)
        (h.inst i).chain.delegates := by
  rw [lookup, lookupAt_eq, if_neg hname]
  rfl

theorem names_levels (h : Heap) (i : InstanceId) :
    h.names i = (h.namesAmong (h.oneDown i h.namesAt) (h.inst i).chain.delegates).map
      ((h.inst i).members.names ++ ·) :=
  h.namesAt_eq (h.root i) i

section
variable (ha : h.Acyclic) (hr : receiver.index < h.instances.size)
  (hv : h.Avoids receiver value)

include ha hr hv

theorem lookup_append (hname : name ≠ SpecialName.super.text) :
    (h.setChain receiver ((h.inst receiver).chain.append value)).lookup name receiver =
      if isFinal (h.lookup name receiver) then h.lookup name receiver
      else h.attrOf name (h.oneDown receiver (h.lookupAt name)) value := by
  have hold (delegate : Value) (hd : delegate ∈ (h.inst receiver).chain.delegates) :=
    attrOf_setChain ((h.inst receiver).chain.append value) name (ha.avoids hd)
  rw [lookup_levels hname, lookup_levels hname, h.chain_setChain_self hr, members_setChain]
  cases (h.inst receiver).members.get? name with
  | some held => rfl
  | none =>
    dsimp only
    rw [Chain.delegates_append, firstSuccess_append _ _ _ _ rfl, firstSuccess_congr hold,
      attrOf_setChain _ name hv]

theorem names_append {more : List String}
    (hmore : h.namesOf (h.oneDown receiver h.namesAt) value = .ok more) :
    (h.setChain receiver ((h.inst receiver).chain.append value)).names receiver =
      (h.names receiver).map (· ++ more) := by
  have hold (delegate : Value) (hd : delegate ∈ (h.inst receiver).chain.delegates) :=
    namesOf_setChain ((h.inst receiver).chain.append value) (ha.avoids hd)
  rw [← namesOf_setChain ((h.inst receiver).chain.append value) hv] at hmore
  rw [names_levels, names_levels, h.chain_setChain_self hr, members_setChain,
    Chain.delegates_append, namesAmong_append hmore, namesAmong_congr hold]
  cases h.namesAmong (h.oneDown receiver h.namesAt) (h.inst receiver).chain.delegates with
  | error e => rfl
  | ok names => simp [Except.map]

end

theorem superValue_append (hr : receiver.index < h.instances.size) (value : Value) :
    (h.setChain receiver ((h.inst receiver).chain.append value)).superValue receiver =
      if (h.inst receiver).chain.levels = [] then value else h.superValue receiver := by
  rw [superValue, superValue, h.chain_setChain_self hr, Chain.append, Chain.head?, Chain.head?]
  cases (h.inst receiver).chain.levels <;> simp

/-- What appending a value to the receiver's chain has to change and to leave. -/
structure Appends (h h' : Heap) (receiver : InstanceId) (value : Value) : Prop where
  names : ∃ more, h.namesOf (h.oneDown receiver h.namesAt) value = .ok more ∧
    h'.names receiver = (h.names receiver).map (· ++ more)
  found : ∀ name held, name ≠ SpecialName.super.text →
    h.lookup name receiver = .ok (some held) → h'.lookup name receiver = .ok (some held)
  tooDeep : ∀ name e, name ≠ SpecialName.super.text → h.lookup name receiver = .error e →
    e.isDepth = true → h'.lookup name receiver = .error e
  /-- What was absent or failed in any other way is up to the value alone. -/
  filled : ∀ name, name ≠ SpecialName.super.text →
    (h.lookup name receiver = .ok none ∨
      ∃ e, h.lookup name receiver = .error e ∧ e.isDepth = false) →
    h'.lookup name receiver = h.attrOf name (h.oneDown receiver (h.lookupAt name)) value ∧
      ∀ e, h'.lookup name receiver = .error e → e.isDepth = false
  super : h'.lookup SpecialName.super.text receiver =
    if (h.inst receiver).chain.levels = [] then .ok (some value)
    else h.lookup SpecialName.super.text receiver

theorem MayPlace.neverTooDeep (ha : h.Acyclic) (hm : h.MayPlace receiver value) :
    h.NeverTooDeep receiver value := by
  cases hj : value.instance? with
  | none => exact neverTooDeep_plain hj
  | some j =>
    obtain ⟨below, hd, hn⟩ := hm.entered ha hj
    exact neverTooDeep_entered hj hd hn

theorem append_appends (ha : h.Acyclic) (hr : receiver.index < h.instances.size)
    (hm : h.MayPlace receiver value) :
    h.Appends (h.setChain receiver ((h.inst receiver).chain.append value)) receiver value := by
  have hv : h.Avoids receiver value := fun j hj => (hm j hj).1
  have hdepth := hm.neverTooDeep ha
  have hlookup (name : String) (hname : name ≠ SpecialName.super.text) :=
    lookup_append ha hr hv hname
  refine ⟨?_, fun name held hname hl => ?_, fun name e hname hl he => ?_,
    fun name hname hl => ?_, ?_⟩
  · obtain ⟨more, hmore⟩ := hdepth.names
    exact ⟨more, hmore, names_append ha hr hv hmore⟩
  · rw [hlookup name hname, hl]
    rfl
  · rw [hlookup name hname, hl, isFinal, he, if_pos rfl]
  · have hopen : isFinal (h.lookup name receiver) = false := by
      rcases hl with hl | ⟨e, hl, he⟩
      · rw [hl]
        rfl
      · rw [hl, isFinal, he]
    rw [hlookup name hname, hopen, if_neg Bool.false_ne_true]
    exact ⟨rfl, hdepth.lookup name⟩
  · rw [lookup, lookup, lookupAt_eq, lookupAt_eq, if_pos rfl, if_pos rfl, superValue_append hr]
    split <;> rfl

theorem Acyclic.addDelegate_ok (ha : h.Acyclic) (hs : h.addDelegate receiver value = .ok h') :
    h.MayPlace receiver value ∧
      h.setChain receiver ((h.inst receiver).chain.append value) = h' := by
  obtain ⟨-, -, hs⟩ := bind_ok.mp hs
  obtain ⟨⟨⟩, hp, hs⟩ := bind_ok.mp hs
  exact ⟨ha.checkPlacement_ok_iff.mp hp, Except.ok.inj hs⟩

end Heap

namespace Machine

variable {γ σ : Type} {host : Host γ σ} {m m' : Machine γ σ}

/-- Appending a value adds its names after the old ones and gives an answer to what had
none; whatever was found, and whatever got too deep, stays as it was. -/
theorem append_conservative (hm : m.Reachable host) (fuel : Nat) {receiver : InstanceId}
    (hr : receiver.index < m.heap.instances.size) {value : Value}
    (hs : Eval.perform host fuel (.addDelegate receiver value) m = .ok (.ok (), m')) :
    m.heap.Appends m'.heap receiver value := by
  have hrun := Eval.run_commit_heap (fun h => h.addDelegate receiver value) m
  obtain ⟨hresult, rfl⟩ := Prod.mk.inj (Except.ok.inj (hs.symm.trans hrun))
  cases hadd : m.heap.addDelegate receiver value with
  | error e =>
    rw [hadd] at hresult
    cases hresult
  | ok h' =>
    obtain ⟨hmay, rfl⟩ := hm.acyclic.addDelegate_ok hadd
    exact Heap.append_appends hm.acyclic hr hmay

def makeColor : Program Unit Unit Value := Program.run (.newRecord [("color", .int 1)])

/-- A record beside the base of the widget. -/
theorem append_conservative_widget :
    ∃ m m', m.Reachable idle ∧ 1 < m.heap.instances.size ∧
      Eval.perform idle 1 (.addDelegate ⟨1⟩ (.record ⟨0⟩)) m = .ok (.ok (), m') ∧
      m.heap.names ⟨1⟩ = .ok ["size"] ∧ m'.heap.names ⟨1⟩ = .ok ["size", "color"] ∧
      m'.heap.lookup "size" ⟨1⟩ = .ok (some (.int 4)) ∧ m.heap.lookup "color" ⟨1⟩ = .ok none ∧
      m'.heap.lookup "color" ⟨1⟩ = .ok (some (.int 1)) ∧
      m'.heap.lookup SpecialName.super.text ⟨1⟩ = .ok (some (.inst ⟨0⟩)) := by
  obtain ⟨m, m', hcolor, hsize, happend, hnames, hfound, habsent, hsuper, hlevels, hmore, hvalue⟩ :
      ∃ m m', Eval.run idle 1 makeColor (widget false) = .ok (.ok (.record ⟨0⟩), m) ∧
        1 < m.heap.instances.size ∧
        Eval.perform idle 1 (.addDelegate ⟨1⟩ (.record ⟨0⟩)) m = .ok (.ok (), m') ∧
        m.heap.names ⟨1⟩ = .ok ["size"] ∧ m.heap.lookup "size" ⟨1⟩ = .ok (some (.int 4)) ∧
        m.heap.lookup "color" ⟨1⟩ = .ok none ∧
        m.heap.lookup SpecialName.super.text ⟨1⟩ = .ok (some (.inst ⟨0⟩)) ∧
        (m.heap.inst ⟨1⟩).chain.levels ≠ [] ∧
        m.heap.namesOf (m.heap.oneDown ⟨1⟩ m.heap.namesAt) (.record ⟨0⟩) = .ok ["color"] ∧
        m.heap.attrOf "color" (m.heap.oneDown ⟨1⟩ (m.heap.lookupAt "color")) (.record ⟨0⟩) =
          .ok (some (.int 1)) :=
    ⟨_, _, rfl, by decide, rfl, rfl, rfl, rfl, rfl, by decide, rfl, rfl⟩
  have hm : m.Reachable idle := widget_reachable.steps (.single (.run 1 makeColor hcolor))
  have happends := append_conservative hm 1 hsize happend
  obtain ⟨more, hmore', hnames'⟩ := happends.names
  obtain rfl : ["color"] = more := Except.ok.inj (hmore.symm.trans hmore')
  refine ⟨m, m', hm, hsize, happend, hnames, ?_, ?_, habsent, ?_, ?_⟩
  · rw [hnames', hnames]
    rfl
  · exact happends.found _ _ (by decide) hfound
  · rw [(happends.filled _ (by decide) (.inl habsent)).1, hvalue]
  · rw [happends.super, if_neg hlevels, hsuper]

end Machine

end Delegation

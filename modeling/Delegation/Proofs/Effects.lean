import Delegation.Proofs.Assignment
import Delegation.Proofs.Change

/-!
# Effects of the heap's operations

Writing, placing delegates and building change the heap only in the ways of
`Change`, as long as the values they are given are known.
-/

namespace Delegation

/-- What holds at first and is kept by each step of a fold that succeeds holds
at its end. -/
theorem foldlM_ok {ε α β : Type} {f : β → α → Except ε β} {P : β → Prop} {xs : List α} {b b' : β}
    (hstep : ∀ x ∈ xs, ∀ b b', P b → f b x = .ok b' → P b') (hb : P b)
    (hf : xs.foldlM f b = .ok b') : P b' := by
  induction xs generalizing b with
  | nil =>
    cases hf
    exact hb
  | cons x xs ih =>
    rw [List.foldlM_cons] at hf
    obtain ⟨c, hc, hf⟩ := bind_ok.mp hf
    exact ih (fun y hy => hstep y (List.mem_cons_of_mem _ hy))
      (hstep x List.mem_cons_self b c hb hc) hf

/-- A template is the same as no value but itself. -/
theorem Chain.holds_template {chain : Chain} {index : Nat} {t : Template} :
    chain.holds index (.template t) = true ↔
      chain.levels[index]? = some (some (.template t)) := by
  unfold Chain.holds
  constructor
  · intro h
    split at h
    case h_1 held hl =>
      have hs : held = .template t := by
        cases held <;> simp_all [Value.same]
      rw [hl, hs]
    case h_2 => cases h
  · intro hl
    simp [hl, Value.same]

theorem Chain.mem_delegates_of_holds {chain : Chain} {index : Nat} {t : Template}
    (h : chain.holds index (.template t) = true) : .template t ∈ chain.delegates :=
  Chain.mem_delegates.mpr (List.mem_of_getElem? (Chain.holds_template.mp h))

/-- The values among the arguments of a call. -/
def Arguments.values (arguments : Arguments) : List Value :=
  arguments.positional ++ arguments.keywords.map Prod.snd

namespace Heap

variable {h h' : Heap}

theorem checkOpen_ok {slot : String} {i : InstanceId} :
    h.checkOpen slot i = .ok () ↔ (h.inst i).frozen = false := by
  unfold checkOpen
  cases (h.inst i).frozen <;> simp

-- ---------------------------------------------------------------------------
-- Placing delegates and writing
-- ---------------------------------------------------------------------------

theorem install_change {receiver : InstanceId} {value : Value} {chain : Chain}
    (hk : h.Knows value) (ht : (h.inst receiver).chain.Takes value chain)
    (hi : (do
      h.checkOpen SpecialName.super.text receiver
      h.checkPlacement receiver value
      return h.setChain receiver chain) = Except.ok h') : Change h h' := by
  obtain ⟨⟨⟩, ho, hi⟩ := bind_ok.mp hi
  obtain ⟨⟨⟩, hp, hi⟩ := bind_ok.mp hi
  cases hi
  exact .setChain (checkOpen_ok.mp ho) hp hk ht

theorem addDelegate_change {receiver : InstanceId} {value : Value} (hk : h.Knows value)
    (ha : h.addDelegate receiver value = .ok h') : Change h h' :=
  install_change hk (.append value) ha

theorem setSuper_change {receiver : InstanceId} {value : Value} (hk : h.Knows value)
    (hs : h.setSuper receiver value = .ok h') : Change h h' :=
  install_change hk (.setHead value) hs

/-- The instance that takes the place of a template is known, because the level
still holds the template. -/
theorem fillLevel_change (hs : h.Sound) {receiver : InstanceId} {index : Nat} {t : Template}
    (hf : h.fillLevel receiver index (.template t) (.inst t.target) = .ok h') : Changes h h' := by
  unfold fillLevel at hf
  split at hf
  case isTrue hh =>
    have ht : h.Knows (.template t) :=
      hs.instances receiver _ (mem_targets.mpr (.inr (Chain.mem_delegates_of_holds hh)))
    have hk : h.Knows (.inst t.target) := ht
    exact .single (install_change hk (.construct hh) hf)
  case isFalse =>
    cases hf
    exact .refl

theorem assignAt_change {name : String} {value : Value} (hk : h.Knows value) (depth : Depth)
    {i : InstanceId} (ha : h.assignAt name value depth i = .ok h') : Change h h' := by
  induction depth using Depth.down_induction generalizing i with
  | step depth ih =>
    rw [assignAt_eq, writeVisit] at ha
    obtain ⟨⟨⟩, ho, ha⟩ := bind_ok.mp ha
    have ho := checkOpen_ok.mp ho
    -- `super`, then an own member, then a delegate that defines the name.
    split at ha
    · exact setSuper_change hk ha
    split at ha
    · cases ha
      exact .setMember name ho hk
    obtain ⟨found, -, ha⟩ := bind_ok.mp ha
    cases found with
    | none =>
      cases ha
      exact .setMember name ho hk
    | some found =>
      obtain ⟨delegate, _⟩ := found
      dsimp only at ha
      cases hd : delegate.instance? with
      | none =>
        rw [hd] at ha
        cases ha
      | some j =>
        rw [hd] at ha
        obtain ⟨below, hb, ha⟩ := bind_ok.mp ha
        exact ih _ below hb ha

theorem write_change {target value : Value} {name : String} (hk : h.Knows value)
    (hw : h.write target name value = .ok h') : Change h h' := by
  unfold write at hw
  split at hw
  · exact assignAt_change hk _ hw
  · cases hw

-- ---------------------------------------------------------------------------
-- Building templates
-- ---------------------------------------------------------------------------

/-- A build under way: `owner` is the new instance. -/
structure Building (h : Heap) (owner : InstanceId) (g : Heap) : Prop where
  changes : Changes h g
  made : owner.index < g.instances.size
  isOpen : (g.inst owner).frozen = false

variable {g g' : Heap} {owner : InstanceId} {builtin : String}

theorem Building.start (name : String) (maxDepth : Nat) :
    Building h (h.addInstance name maxDepth).1 (h.addInstance name maxDepth).2 where
  changes := .single (.addInstance name maxDepth)
  made := by simp [addInstance]
  isOpen := by
    rw [inst_addInstance]
    simp [addInstance]

theorem Building.takeSerial (hb : Building h owner g) : Building h owner g.takeSerial.2 where
  changes := hb.changes.tail .takeSerial
  made := hb.made
  isOpen := hb.isOpen

theorem Building.setMember (hb : Building h owner g) (name : String) {value : Value}
    (hk : g.Knows value) : Building h owner (g.setMember owner name value) where
  changes := hb.changes.tail (.setMember name hb.isOpen hk)
  made := by simpa [Heap.setMember, modifyInst] using hb.made
  isOpen := g.frozen_setMember.trans hb.isOpen

theorem Building.addDelegate (hb : Building h owner g) {value : Value} (hk : g.Knows value)
    (ha : g.addDelegate owner value = .ok g') : Building h owner g' := by
  refine ⟨hb.changes.tail (addDelegate_change hk ha), ?_, ?_⟩
  · exact Nat.lt_of_lt_of_le hb.made (addDelegate_change hk ha).size_le.1
  · obtain ⟨-, -, ha⟩ := bind_ok.mp ha
    obtain ⟨-, -, ha⟩ := bind_ok.mp ha
    cases ha
    exact g.frozen_setChain.trans hb.isOpen

theorem Building.bindMember (hb : Building h owner g) (name : String) {value : Value}
    (hk : g.Knows value) :
    Building h owner (g.bindMember owner name value).2 ∧
      (g.bindMember owner name value).2.Knows (g.bindMember owner name value).1 := by
  have hm := (Change.takeSerial (h := g)).knows hk
  cases value with
  | function f => exact ⟨hb.takeSerial, hb.made, hm⟩
  | method serial inner declared callee => exact ⟨hb.takeSerial, hb.made, hm⟩
  | _ => exact ⟨hb, hk⟩

theorem Building.supplyMember (hb : Building h owner g) {member : String × Value}
    (hk : g.Knows member.2) (hs : g.supplyMember builtin owner member = .ok g') :
    Building h owner g' := by
  unfold Heap.supplyMember at hs
  dsimp only at hs
  split at hs
  · cases hs
  · cases hs
    obtain ⟨hb, hk⟩ := hb.bindMember member.1 hk
    exact hb.setMember member.1 hk

theorem Building.addPositional (hb : Building h owner g) {value : Value} (hk : g.Knows value)
    (ha : g.addPositional builtin owner value = .ok g') : Building h owner g' := by
  unfold Heap.addPositional at ha
  split at ha
  · exact hb.addDelegate hk ha
  · exact hb.addDelegate hk ha
  · exact hb.addDelegate hk ha
  · split at ha
    · cases ha
    · exact hb.supplyMember hk ha
  · split at ha
    · cases ha
    · exact hb.supplyMember hk ha
  · cases ha

theorem templateName_ok {values rest : List Value} {name : String}
    (ht : h.templateName builtin values = .ok (name, rest)) : ∀ value ∈ rest, value ∈ values := by
  unfold templateName at ht
  split at ht
  · cases ht
  · split at ht
    · cases ht
    · cases ht
      exact fun value hv => List.mem_cons_of_mem _ hv
  · cases ht

theorem build_change {settings : Settings} {arguments : Arguments} {template : Template}
    (hk : ∀ value ∈ arguments.values, h.Knows value)
    (hb : h.build settings arguments = .ok (template, h')) : Changes h h' := by
  obtain ⟨⟨name, rest⟩, hn, hb⟩ := bind_ok.mp hb
  obtain ⟨filled, hp, hb⟩ := bind_ok.mp hb
  obtain ⟨final, hm, hb⟩ := bind_ok.mp hb
  cases hb
  have hstart := Building.start (h := h) name settings.maxDelegateDepth
  have hfilled := foldlM_ok (P := Building h (h.addInstance name settings.maxDelegateDepth).1)
    (fun value hv g g' hg hs => hg.addPositional (hg.changes.knows
      (hk value (List.mem_append_left _ (templateName_ok hn value hv)))) hs) hstart hp
  have hfinal := foldlM_ok (P := Building h (h.addInstance name settings.maxDelegateDepth).1)
    (fun member hv g g' hg hs => hg.supplyMember (hg.changes.knows
      (hk member.2 (List.mem_append_right _ (List.mem_map_of_mem hv)))) hs) hfilled hm
  exact hfinal.takeSerial.changes

end Heap

end Delegation

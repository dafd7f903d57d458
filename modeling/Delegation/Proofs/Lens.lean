import Delegation.Proofs.Slots

/-!
# Laws of reading and writing attributes

An attribute behaves like a lens: a read finds what was written last, an earlier
write to the name leaves no trace, and writing what was read changes nothing
(`attribute_lens_laws`). Writes to different names do not meet, wherever in the
graph of delegates they are made (`writes_commute`).
-/

namespace Delegation

variable {γ σ : Type}

/-- Nothing but what they heard tells the machines apart. -/
def Machine.SameState (m m' : Machine γ σ) : Prop := m' = { m with trace := m'.trace }

namespace Heap

variable (h : Heap) {h' : Heap} {name other : String} {value : Value} {i : InstanceId}

-- ---------------------------------------------------------------------------
-- The head delegate
-- ---------------------------------------------------------------------------

section
variable {chain : Chain}

theorem chain_setChain_of_ne {j : InstanceId} (hne : j ≠ i) :
    ((h.setChain i chain).inst j).chain = (h.inst j).chain := by
  simp [setChain, inst_modify, Ne.symm hne]

theorem chain_setChain_self (hi : i.index < h.instances.size) :
    ((h.setChain i chain).inst i).chain = chain := by
  simp [setChain, inst_modify, hi]

theorem setChain_setChain (later : Chain) :
    (h.setChain i chain).setChain i later = h.setChain i later := by
  simp only [setChain, modifyInst_modifyInst]

/-- The check before an installation stops at the receiver, so it does not see
the receiver's own chain. -/
theorem checkPlacement_setChain (value : Value) :
    (h.setChain i chain).checkPlacement i value = h.checkPlacement i value := by
  have hbelow (depth : Depth) (j : InstanceId) :
      (h.setChain i chain).checkBelow i depth j = h.checkBelow i depth j := by
    refine descend_rel_of_names (R := fun x y => y = x) (fun _ => h.name_setChain) (fun _ => rfl) ?_ depth j
    intro depth j enter enter' he
    obtain rfl : enter' = enter := funext he
    simp only [placementVisit, name_setChain]
    split
    · rfl
    case isFalse hne => rw [h.chain_setChain_of_ne hne]
  simp only [checkPlacement, hbelow, root, name_setChain, maxDepth_setChain]

end

theorem assign_super (value : Value) (i : InstanceId) :
    h.assign SpecialName.super.text value i = h.setSuper i value := by
  simp only [assign, assignAt_eq, writeVisit, setSuper, ↓reduceIte]
  cases h.checkOpen SpecialName.super.text i <;> rfl

theorem setSuper_ok (hs : h.setSuper i value = .ok h') :
    h' = h.setChain i ((h.inst i).chain.setHead value) := by
  obtain ⟨-, -, hs⟩ := bind_ok.mp hs
  obtain ⟨-, -, hs⟩ := bind_ok.mp hs
  exact (Except.ok.inj hs).symm

theorem setSuper_setSuper (hi : i.index < h.instances.size) {first : Value}
    (hs : h.setSuper i first = .ok h') (second : Value) :
    h'.setSuper i second = h.setSuper i second := by
  obtain rfl := h.setSuper_ok hs
  simp only [setSuper, checkOpen, frozen_setChain, name_setChain, checkPlacement_setChain,
    h.chain_setChain_self hi, Chain.setHead_setHead, setChain_setChain]

-- ---------------------------------------------------------------------------
-- One name
-- ---------------------------------------------------------------------------

theorem assign_ok (hn : name ≠ SpecialName.super.text) (ha : h.assign name value i = .ok h') :
    ∃ holder, h.writeHolder name i = .ok holder ∧ h' = h.setMember holder name value := by
  rw [h.assign_eq hn] at ha
  cases hw : h.writeHolder name i with
  | error e => simp [hw, Except.map] at ha
  | ok holder =>
    simp only [hw, Except.map, Except.ok.injEq] at ha
    exact ⟨holder, rfl, ha.symm⟩

/-- A read finds what was written. -/
theorem lookup_assign (hi : i.index < h.instances.size) (ha : h.assign name value i = .ok h') :
    h'.lookup name i = .ok (some value) := by
  by_cases hn : name = SpecialName.super.text
  · subst hn
    rw [assign_super] at ha
    obtain rfl := h.setSuper_ok ha
    simp [lookup, lookupAt_eq, superValue, h.chain_setChain_self hi, Chain.head?_setHead]
  · obtain ⟨holder, hw, rfl⟩ := h.assign_ok hn ha
    obtain ⟨path, he, -⟩ := h.find?_listing_written hi hw value
    have hs := (h.setMember holder name value).lookup_settled hn i
    rwa [Settled, he] at hs

/-- A write that a later one to the same name follows might as well not have been. -/
theorem assign_assign (hi : i.index < h.instances.size) {first : Value}
    (ha : h.assign name first i = .ok h') (second : Value) :
    h'.assign name second i = h.assign name second i := by
  by_cases hn : name = SpecialName.super.text
  · subst hn
    simp only [assign_super] at ha ⊢
    exact h.setSuper_setSuper hi ha second
  · obtain ⟨holder, hw, rfl⟩ := h.assign_ok hn ha
    have hagain : (h.setMember holder name first).writeHolder name i = .ok holder := by
      obtain ⟨path, he, hp⟩ := h.find?_listing_written hi hw first
      obtain ⟨ho, -⟩ := h.writeHolder_ok hw
      simp [writeHolder, ho, he, entryHolder, hp]
    simp only [assign_eq _ hn, hw, hagain, Except.map, setMember_setMember_self]

/-- Writing what was read changes nothing. -/
theorem assign_lookup (hn : name ≠ SpecialName.super.text)
    (hl : h.lookup name i = .ok (some value)) (ha : h.assign name value i = .ok h') : h' = h := by
  obtain ⟨holder, hw, rfl⟩ := h.assign_ok hn ha
  have hs := h.lookup_settled hn i
  rw [hl, Settled] at hs
  obtain ⟨-, ⟨he, -⟩ | ⟨held, path, he, -⟩⟩ := h.writeHolder_ok hw
  · simp [he, isFinal] at hs
  · obtain rfl : value = held := by simpa [he, Entry.answer] using hs
    obtain ⟨-, -, -, hv⟩ := h.route_of_telling (h.root i) he
    exact h.setMember_held hv

-- ---------------------------------------------------------------------------
-- Two names
-- ---------------------------------------------------------------------------

/-- The heap that a write leaves, whether it succeeds or fails. -/
def assigned (name : String) (value : Value) (i : InstanceId) : Heap :=
  (h.assign name value i).toOption.getD h

theorem assigned_eq (hn : name ≠ SpecialName.super.text) (value : Value) (i : InstanceId) :
    h.assigned name value i =
      match h.writeHolder name i with
      | .ok holder => h.setMember holder name value
      | .error _ => h := by
  rw [assigned, h.assign_eq hn]
  cases h.writeHolder name i <;> rfl

theorem writeHolder_assigned (hn : name ≠ SpecialName.super.text) (hne : other ≠ name)
    (value : Value) (i j : InstanceId) :
    (h.assigned name value i).writeHolder other j = h.writeHolder other j := by
  rw [h.assigned_eq hn]
  cases h.writeHolder name i with
  | error e => rfl
  | ok holder => exact h.writeHolder_setMember (fun he => absurd he hne) j

/-- A write gives the same after a write to another name. -/
theorem assign_assigned (hn : name ≠ SpecialName.super.text)
    (ho : other ≠ SpecialName.super.text) (hne : other ≠ name) (value held : Value)
    (i j : InstanceId) :
    ((h.assigned name value i).assign other held j).map (fun _ => ()) =
      (h.assign other held j).map fun _ => () := by
  rw [(h.assigned name value i).assign_eq ho, h.assign_eq ho, h.writeHolder_assigned hn hne]
  cases h.writeHolder other j <;> rfl

theorem assigned_comm (hn : name ≠ SpecialName.super.text) (ho : other ≠ SpecialName.super.text)
    (hne : other ≠ name) (value held : Value) (i j : InstanceId) :
    (h.assigned name value i).assigned other held j =
      (h.assigned other held j).assigned name value i := by
  rw [(h.assigned name value i).assigned_eq ho, (h.assigned other held j).assigned_eq hn,
    h.writeHolder_assigned hn hne, h.writeHolder_assigned ho hne.symm, h.assigned_eq hn,
    h.assigned_eq ho]
  cases h.writeHolder name i with
  | error e => cases h.writeHolder other j <;> rfl
  | ok holder =>
    cases h.writeHolder other j with
    | error e => rfl
    | ok inner => exact h.setMember_comm hne holder inner value held

theorem lookup_setMember_of_ne (hne : other ≠ name) (holder : InstanceId) (value : Value)
    (i : InstanceId) : (h.setMember holder name value).lookup other i = h.lookup other i := by
  have hroot : (h.setMember holder name value).root i = h.root i := by simp [root]
  simp only [lookup, hroot]
  refine descend_rel_of_names (R := fun x y => y = x) (fun _ => h.name_setMember) (fun _ => rfl)
    ?_ (h.root i) i
  intro depth j enter enter' he
  obtain rfl : enter' = enter := funext he
  have hattr : (h.setMember holder name value).attrOf other enter' = h.attrOf other enter' :=
    funext fun delegate => by cases delegate <;> rfl
  simp only [lookupVisit, superValue, chain_setMember, h.get?_setMember_of_ne hne, hattr]

theorem lookup_assigned_of_ne (hn : name ≠ SpecialName.super.text) (hne : other ≠ name)
    (value : Value) (i j : InstanceId) :
    (h.assigned name value i).lookup other j = h.lookup other j := by
  rw [h.assigned_eq hn]
  cases h.writeHolder name i with
  | error e => rfl
  | ok holder => exact h.lookup_setMember_of_ne hne holder value j

end Heap

-- ---------------------------------------------------------------------------
-- Machines
-- ---------------------------------------------------------------------------

theorem Eval.run_assign (i : InstanceId) (name : String) (value : Value) (m : Machine γ σ) :
    ∃ trace, Eval.write (.inst i) name value m =
      .ok ((m.heap.assign name value i).map fun _ => (),
        { m with heap := m.heap.assigned name value i, trace }) := by
  have hw : m.heap.write (.inst i) name value = m.heap.assign name value i := rfl
  rw [run_write, run_commit, hw, Machine.report_eq, Heap.assigned]
  cases m.heap.assign name value i with
  | error e => exact ⟨_, rfl⟩
  | ok h' => exact ⟨_, rfl⟩

theorem Eval.run_assign_ok {i : InstanceId} {name : String} {value : Value} {m m' : Machine γ σ}
    (hw : Eval.write (.inst i) name value m = .ok (.ok (), m')) :
    ∃ h' trace, m.heap.assign name value i = .ok h' ∧ m' = { m with heap := h', trace } := by
  obtain ⟨trace, hrun⟩ := run_assign i name value m
  rw [hrun] at hw
  cases ha : m.heap.assign name value i with
  | error e => simp [ha, Except.map] at hw
  | ok h' =>
    simp only [Heap.assigned, ha] at hw
    cases hw
    exact ⟨h', trace, rfl, rfl⟩

/-- What reads and writes of one attribute of an instance have to do with one
another. -/
structure LensLaws (m : Machine γ σ) (i : InstanceId) (name : String) : Prop where
  /-- After a write that succeeds, a read gives the value written. -/
  readAfterWrite : ∀ value m', Eval.write (.inst i) name value m = .ok (.ok (), m') →
    m'.heap.lookup name i = .ok (some value)
  /-- After a write that succeeds, a second one gives what it would have given in
  place of the first, and if it succeeds, it leaves what it would have left. -/
  lastWriteWins : ∀ first m', Eval.write (.inst i) name first m = .ok (.ok (), m') → ∀ second,
    ∃ result after instead, Eval.write (.inst i) name second m' = .ok (result, after) ∧
      Eval.write (.inst i) name second m = .ok (result, instead) ∧
      (result = .ok () → after.SameState instead)
  /-- Writing what a read gives changes nothing, whether it succeeds or fails. -/
  writeBack : name ≠ SpecialName.super.text → ∀ value, m.heap.lookup name i = .ok (some value) →
    ∃ result m', Eval.write (.inst i) name value m = .ok (result, m') ∧ m.SameState m'

/-- Attribute access obeys the lens laws, `super` included but for writing back. -/
theorem attribute_lens_laws (m : Machine γ σ) {i : InstanceId}
    (hi : i.index < m.heap.instances.size) (name : String) : LensLaws m i name where
  readAfterWrite value m' hw := by
    obtain ⟨h', trace, ha, rfl⟩ := Eval.run_assign_ok hw
    exact m.heap.lookup_assign hi ha
  lastWriteWins first m' hw second := by
    obtain ⟨h', trace, ha, rfl⟩ := Eval.run_assign_ok hw
    obtain ⟨_, hafter⟩ := Eval.run_assign i name second { m with heap := h', trace }
    obtain ⟨_, hinstead⟩ := Eval.run_assign i name second m
    have hsame : h'.assign name second i = m.heap.assign name second i :=
      m.heap.assign_assign hi ha second
    refine ⟨_, _, _, by rw [hafter, hsame], hinstead, fun hr => ?_⟩
    cases hs : m.heap.assign name second i with
    | error e => simp [hs, Except.map] at hr
    | ok h'' => simp [Machine.SameState, Heap.assigned, hsame, hs, Except.toOption]
  writeBack hn value hl := by
    obtain ⟨trace, hrun⟩ := Eval.run_assign i name value m
    refine ⟨_, _, hrun, ?_⟩
    have hback : m.heap.assigned name value i = m.heap := by
      cases ha : m.heap.assign name value i with
      | error e => simp [Heap.assigned, ha, Except.toOption]
      | ok h' =>
        obtain rfl := m.heap.assign_lookup hn hl ha
        simp [Heap.assigned, ha, Except.toOption]
    simp [Machine.SameState, hback]

theorem attribute_lens_laws_layered :
    ∃ m m' : Machine Unit Unit, 1 < m.heap.instances.size ∧ LensLaws m ⟨1⟩ "w" ∧
      Eval.write (.inst ⟨1⟩) "w" (.text "new") m = .ok (.ok (), m') ∧
      m'.heap.inst ⟨1⟩ = m.heap.inst ⟨1⟩ ∧
      m'.heap.lookup "w" ⟨1⟩ = .ok (some (.text "new")) := by
  let m : Machine Unit Unit := { host := (), heap := Heap.layered }
  have hi : 1 < m.heap.instances.size := by decide
  have hlaws := attribute_lens_laws m (i := ⟨1⟩) hi "w"
  exact ⟨m, _, hi, hlaws, rfl, rfl, hlaws.readAfterWrite (.text "new") _ rfl⟩

/-- Writes to different names do not meet: in either order both give the same
results and leave the same state, and neither is seen by a read of the other
name. -/
theorem writes_commute (m : Machine γ σ) (i j : InstanceId) {name other : String}
    (hn : name ≠ SpecialName.super.text) (ho : other ≠ SpecialName.super.text)
    (hne : other ≠ name) (value held : Value) :
    ∃ first second m₁ m₂ m₁₂ m₂₁,
      Eval.write (.inst i) name value m = .ok (first, m₁) ∧
      Eval.write (.inst j) other held m₁ = .ok (second, m₁₂) ∧
      Eval.write (.inst j) other held m = .ok (second, m₂) ∧
      Eval.write (.inst i) name value m₂ = .ok (first, m₂₁) ∧
      m₁₂.SameState m₂₁ ∧
      ∀ k, m₁.heap.lookup other k = m.heap.lookup other k := by
  obtain ⟨t₁, h₁⟩ := Eval.run_assign i name value m
  obtain ⟨t₂, h₂⟩ := Eval.run_assign j other held m
  obtain ⟨t₁₂, h₁₂⟩ := Eval.run_assign j other held
    { m with heap := m.heap.assigned name value i, trace := t₁ }
  obtain ⟨t₂₁, h₂₁⟩ := Eval.run_assign i name value
    { m with heap := m.heap.assigned other held j, trace := t₂ }
  rw [m.heap.assign_assigned hn ho hne] at h₁₂
  rw [m.heap.assign_assigned ho hn hne.symm] at h₂₁
  refine ⟨_, _, _, _, _, _, h₁, h₁₂, h₂, h₂₁, ?_, ?_⟩
  · simp [Machine.SameState, m.heap.assigned_comm hn ho hne]
  · exact fun k => m.heap.lookup_assigned_of_ne hn hne value i k

theorem writes_commute_layered :
    "w" ≠ SpecialName.super.text ∧ "x" ≠ SpecialName.super.text ∧ "x" ≠ "w" ∧
      ∃ m m₁ m₂ m₁₂ m₂₁ : Machine Unit Unit, m.heap = Heap.layered ∧
        Eval.write (.inst ⟨1⟩) "w" .none m = .ok (.ok (), m₁) ∧
        Eval.write (.inst ⟨0⟩) "x" .none m₁ = .ok (.ok (), m₁₂) ∧
        Eval.write (.inst ⟨0⟩) "x" .none m = .ok (.ok (), m₂) ∧
        Eval.write (.inst ⟨1⟩) "w" .none m₂ = .ok (.ok (), m₂₁) ∧
        m₁₂.SameState m₂₁ ∧ m₁.heap.lookup "x" ⟨1⟩ = Heap.layered.lookup "x" ⟨1⟩ := by
  have hn : "w" ≠ SpecialName.super.text := by decide
  have ho : "x" ≠ SpecialName.super.text := by decide
  have hne : "x" ≠ "w" := by decide
  obtain ⟨first, second, m₁, m₂, m₁₂, m₂₁, h₁, h₁₂, h₂, h₂₁, hsame, hlookup⟩ :=
    writes_commute ({ host := (), heap := Heap.layered } : Machine Unit Unit) ⟨1⟩ ⟨0⟩ hn ho hne
      .none .none
  obtain rfl : first = .ok () := (Prod.mk.inj (Except.ok.inj h₁)).1.symm
  obtain rfl : second = .ok () := (Prod.mk.inj (Except.ok.inj h₂)).1.symm
  exact ⟨hn, ho, hne, _, m₁, m₂, m₁₂, m₂₁, rfl, h₁, h₁₂, h₂, h₂₁, hsame, hlookup ⟨1⟩⟩

end Delegation

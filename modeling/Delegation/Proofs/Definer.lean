import Delegation.Proofs.Assignment
import Delegation.Proofs.Change

/-!
# The delegate that defines a name

A read of a chain asks for the value of a name, a write for the delegate that has
it. Both go through the delegates in order, and what one delegate yields decides
how both go on (`definerAmong_cons`). So they stop at the same delegate, whatever
the name is (`meet`); where the read is not final, no delegate has it.
-/

namespace Delegation.Heap

variable (h : Heap) {name owner : String} {depth : Depth}

/-- What a delegate yields for a name, and the depth it is found at: a delegate with
an instance is asked one level further down, a record where its owner is. -/
inductive Yields (name owner : String) (depth : Depth) : Value → Depth → Value → Prop where
  | entered {delegate value : Value} {j : InstanceId} {below : Depth} :
    delegate.instance? = some j → depth.descend owner = .ok below →
    h.lookupAt name below j = .ok (some value) → Yields name owner depth delegate below value
  | field {r : RecordId} {value : Value} :
    (h.record r).fields.get? name = some value → Yields name owner depth (.record r) depth value

/-- The delegate yields the value, and none before it yields any. -/
structure YieldsFirst (name owner : String) (depth : Depth) (delegates : List Value)
    (delegate : Value) (below : Depth) (value : Value) : Prop where
  yields : h.Yields name owner depth delegate below value
  first : ∃ before after, delegates = before ++ delegate :: after ∧
    ∀ passed ∈ before, ∀ below value, ¬ h.Yields name owner depth passed below value

-- ---------------------------------------------------------------------------
-- One delegate
-- ---------------------------------------------------------------------------

theorem attrOf_yields {delegate value : Value} :
    h.attrOf name (h.lookupBelow name owner depth) delegate = .ok (some value) ↔
      ∃ below, h.Yields name owner depth delegate below value := by
  constructor
  · intro ha
    cases hi : delegate.instance? with
    | some j =>
      rw [h.attrOf_of_instance hi, lookupBelow] at ha
      obtain ⟨below, hd, hl⟩ := bind_ok.mp ha
      exact ⟨below, .entered hi hd hl⟩
    | none =>
      cases delegate with
      | record r => exact ⟨depth, .field (Except.ok.inj ha)⟩
      | inst i => cases hi
      | template t => cases hi
      | _ => cases ha
  · rintro ⟨below, hy⟩
    cases hy with
    | entered hi hd hl =>
      rw [h.attrOf_of_instance hi, lookupBelow, hd]
      exact hl
    | field hf => exact congrArg Except.ok hf

/-- A delegate that yields is found where it yields. -/
theorem writeDepth_of_yields {delegate value : Value} {below : Depth}
    (hy : h.Yields name owner depth delegate below value) :
    writeDepth owner depth delegate = .ok below := by
  cases hy with
  | entered hi hd _ => simp only [writeDepth, hi, hd]
  | field _ => rfl

/-- The search for the definer goes on from a delegate exactly if a read does. -/
theorem definerAmong_cons (delegate : Value) (rest : List Value) :
    h.definerAmong name owner depth (delegate :: rest) =
      match h.attrOf name (h.lookupBelow name owner depth) delegate with
      | .ok (some _) => (writeDepth owner depth delegate).map fun below => some (delegate, below)
      | .ok none => h.definerAmong name owner depth rest
      | .error e => if e.isDepth then .error e else h.definerAmong name owner depth rest := by
  rw [definerAmong]
  cases hi : delegate.instance? with
  | some j =>
    rw [h.attrOf_of_instance hi, lookupBelow]
    cases hd : depth.descend owner with
    | error e =>
      obtain rfl := Depth.descend_error hd
      rfl
    | ok below =>
      simp only [bind, Except.bind, writeDepth, hi, hd]
      cases h.lookupAt name below j with
      | error e => rfl
      | ok found => cases found <;> rfl
  | none =>
    cases delegate with
    | inst i => cases hi
    | template t => cases hi
    | record r =>
      cases hf : (h.record r).fields.get? name with
      | none => simp [canRead, read, attrOf, hf]
      | some value => simp [canRead, read, attrOf, writeDepth, Value.instance?, hf, Except.map]
    | _ => rfl

-- ---------------------------------------------------------------------------
-- Chains
-- ---------------------------------------------------------------------------

/-- How a read of a chain and the search for the definer end together. -/
inductive Meet (name owner : String) (depth : Depth) (delegates : List Value) :
    Except Error (Option Value) → Except Error (Option (Value × Depth)) → Prop where
  | found {delegate value : Value} {below : Depth} :
    h.YieldsFirst name owner depth delegates delegate below value →
    Meet name owner depth delegates (.ok (some value)) (.ok (some (delegate, below)))
  | tooDeep {e : Error} : e.isDepth = true →
    Meet name owner depth delegates (.error e) (.error e)
  | absent {outcome : Except Error (Option Value)} : isFinal outcome = false →
    Meet name owner depth delegates outcome (.ok none)

variable {h}

theorem YieldsFirst.cons {delegates : List Value} {passed delegate value : Value} {below : Depth}
    (hy : h.YieldsFirst name owner depth delegates delegate below value)
    (hp : isFinal (h.attrOf name (h.lookupBelow name owner depth) passed) = false) :
    h.YieldsFirst name owner depth (passed :: delegates) delegate below value where
  yields := hy.yields
  first := by
    obtain ⟨before, after, rfl, hb⟩ := hy.first
    refine ⟨passed :: before, after, rfl, fun other hmem below value hother => ?_⟩
    rcases List.mem_cons.mp hmem with rfl | hmem
    · rw [h.attrOf_yields.mpr ⟨below, hother⟩] at hp
      cases hp
    · exact hb other hmem below value hother

theorem Meet.cons {delegates : List Value} {passed : Value}
    {read : Except Error (Option Value)} {found : Except Error (Option (Value × Depth))}
    (hm : h.Meet name owner depth delegates read found)
    (hp : isFinal (h.attrOf name (h.lookupBelow name owner depth) passed) = false) :
    h.Meet name owner depth (passed :: delegates) read found := by
  cases hm with
  | found hy => exact .found (hy.cons hp)
  | tooDeep he => exact .tooDeep he
  | absent ho => exact .absent ho

variable (h)

/-- Where one delegate is final, both stop there; otherwise both go on. -/
theorem meet (delegates : List Value) (outcome : Except Error (Option Value))
    (ho : isFinal outcome = false) :
    h.Meet name owner depth delegates
      (firstSuccess (h.attrOf name (h.lookupBelow name owner depth)) outcome delegates)
      (h.definerAmong name owner depth delegates) := by
  induction delegates generalizing outcome with
  | nil => exact .absent ho
  | cons delegate rest ih =>
    rw [firstSuccess_cons, definerAmong_cons]
    cases ha : h.attrOf name (h.lookupBelow name owner depth) delegate with
    | ok found =>
      cases found with
      | none => exact (ih _ rfl).cons (by rw [ha]; rfl)
      | some value =>
        obtain ⟨below, hy⟩ := h.attrOf_yields.mp ha
        have hm : h.Meet name owner depth (delegate :: rest) (.ok (some value))
            (.ok (some (delegate, below))) := .found ⟨hy, [], rest, rfl, nofun⟩
        simpa [isFinal, h.writeDepth_of_yields hy, Except.map] using hm
    | error e =>
      cases he : e.isDepth with
      | true => simpa [isFinal, he] using Meet.tooDeep he
      | false => simpa [isFinal, he] using (ih (.error e) he).cons (by rw [ha]; exact he)

/-- The answer to a read of delegates and the definer that a write finds among them
belong together. -/
structure ReadsAsDefined (name owner : String) (depth : Depth) (delegates : List Value)
    (answer : Except Error (Option Value)) (definer : Except Error (Option (Value × Depth))) :
    Prop where
  both : (∃ value, answer = .ok (some value)) ↔
    ∃ delegate below, definer = .ok (some (delegate, below))
  first : ∀ value delegate below, answer = .ok (some value) →
    definer = .ok (some (delegate, below)) →
    h.YieldsFirst name owner depth delegates delegate below value
  tooDeep : ∀ e, e.isDepth = true → (answer = .error e ↔ definer = .error e)
  absent : answer = .ok none ∨ (∃ e, answer = .error e ∧ e.isDepth = false) → definer = .ok none

variable {h} in
theorem Meet.readsAsDefined {delegates : List Value} {answer : Except Error (Option Value)}
    {definer : Except Error (Option (Value × Depth))}
    (hm : h.Meet name owner depth delegates answer definer) :
    h.ReadsAsDefined name owner depth delegates answer definer := by
  cases hm with
  | found hy =>
    refine ⟨⟨fun _ => ⟨_, _, rfl⟩, fun _ => ⟨_, rfl⟩⟩, fun _ _ _ ha hd => ?_, ?_, ?_⟩
    · cases ha
      cases hd
      exact hy
    · exact fun e _ => ⟨nofun, nofun⟩
    · rintro (ha | ⟨e, ha, -⟩) <;> cases ha
  | tooDeep he =>
    refine ⟨⟨nofun, nofun⟩, nofun, fun e _ => ?_, ?_⟩
    · exact ⟨fun ha => by cases ha; rfl, fun hd => by cases hd; rfl⟩
    · rintro (ha | ⟨e, ha, hd⟩)
      · cases ha
      · cases ha
        cases he.symm.trans hd
  | absent ho =>
    refine ⟨⟨?_, nofun⟩, nofun, fun e he => ⟨?_, nofun⟩, fun _ => rfl⟩
    · rintro ⟨value, rfl⟩
      cases ho
    · rintro rfl
      cases he.symm.trans ho

/-- A read of a chain finds a value exactly if a write finds a delegate that has the
name, and then it is what that delegate yields, the first one that yields anything.
Both get too deep together, with one error. In all other cases no delegate has it. -/
theorem chain_reads_as_defined (chain : Chain) (name owner : String) (depth : Depth) :
    h.ReadsAsDefined name owner depth chain.delegates (h.lookupChain chain name owner depth)
      (h.definer? chain name owner depth) :=
  (h.meet chain.delegates (.ok none) rfl).readsAsDefined

end Delegation.Heap

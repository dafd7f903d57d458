import Delegation.Proofs.EvalLaws
import Delegation.Proofs.Listing

/-!
# Writes go where reads come from

A write is decided by the same entry of the listing as the read of its name
(`assignAt_listing`): it overwrites the slot the read comes from if no instance
on the way is frozen, and makes a new own member only if no entry tells.
-/

namespace Delegation.Heap

variable (h : Heap) {name : String}

-- ---------------------------------------------------------------------------
-- The defining delegate
-- ---------------------------------------------------------------------------

/-- The first delegate whose entries tell of a name, with the entry that does. -/
def firstTelling (name : String) (entries : Value → List Entry) (delegates : List Value) :
    Option (Value × Entry) :=
  delegates.findSome? fun delegate =>
    ((entries delegate).find? (Entry.tells name)).map fun entry => (delegate, entry)

theorem firstTelling_cons (entries : Value → List Entry) (delegate : Value) (rest : List Value) :
    firstTelling name entries (delegate :: rest) =
      match (entries delegate).find? (Entry.tells name) with
      | some entry => some (delegate, entry)
      | none => firstTelling name entries rest := by
  rw [firstTelling, List.findSome?_cons]
  cases (entries delegate).find? (Entry.tells name) <;> rfl

theorem find?_flatMap_eq (entries : Value → List Entry) (delegates : List Value) :
    (delegates.flatMap entries).find? (Entry.tells name) =
      (firstTelling name entries delegates).map Prod.snd := by
  induction delegates with
  | nil => rfl
  | cons delegate rest ih =>
    rw [List.flatMap_cons, List.find?_append, firstTelling_cons, ih]
    cases (entries delegate).find? (Entry.tells name) <;> rfl

theorem firstTelling_some {entries : Value → List Entry} {delegates : List Value}
    {delegate : Value} {entry : Entry}
    (hf : firstTelling name entries delegates = some (delegate, entry)) :
    delegate ∈ delegates ∧ (entries delegate).find? (Entry.tells name) = some entry := by
  obtain ⟨found, hm, hd⟩ := List.exists_of_findSome?_eq_some hf
  obtain ⟨_, he, hp⟩ := Option.map_eq_some_iff.mp hd
  cases hp
  exact ⟨hm, he⟩

theorem canRead_eq {value : Value} (hi : value.instance? = none) (list : InstanceId → List Entry) :
    h.canRead value name =
      ((h.delegateEntries list value).find? (Entry.tells name)).isSome := by
  cases value with
  | inst i => simp [Value.instance?] at hi
  | template t => simp [Value.instance?] at hi
  | record r =>
    rw [delegateEntries, find?_bindings, canRead, read, attrOf]
    cases (h.record r).fields.get? name <;> rfl
  | _ => rfl

/-- Of the values that are neither instances nor templates, only records tell. -/
theorem telling_plain {value : Value} (hi : value.instance? = none)
    {list : InstanceId → List Entry} {entry : Entry}
    (he : (h.delegateEntries list value).find? (Entry.tells name) = some entry) :
    ∃ r held, value = .record r ∧ (h.record r).fields.get? name = some held ∧
      entry = .binding name held [] (.field r) := by
  cases value with
  | inst i => simp [Value.instance?] at hi
  | template t => simp [Value.instance?] at hi
  | record r =>
    rw [delegateEntries, find?_bindings, Option.map_eq_some_iff] at he
    obtain ⟨held, hg, rfl⟩ := he
    exact ⟨r, held, rfl, hg, rfl⟩
  | _ => simp [delegateEntries] at he

/-- The depth at which a write to a delegate of `owner` goes on. -/
def writeDepth (owner : String) (depth : Depth) (delegate : Value) : Except Error Depth :=
  match delegate.instance? with
  | some _ => depth.descend owner
  | none => .ok depth

/-- The delegate that a write goes to is the first one whose entries tell. -/
theorem definerAmong_listing (hn : name ≠ SpecialName.super.text) (owner : String) (depth : Depth)
    (delegates : List Value) :
    h.definerAmong name owner depth delegates =
      match firstTelling name (h.delegateEntries (h.listingBelow owner depth)) delegates with
      | none => .ok none
      | some (_, .tooDeep above) => .error (.delegateDepth above depth.max)
      | some (delegate, .binding ..) =>
        (writeDepth owner depth delegate).map fun below => some (delegate, below) := by
  induction delegates with
  | nil => rfl
  | cons delegate rest ih =>
    rw [definerAmong, firstTelling_cons, ih]
    cases hi : delegate.instance? with
    | none =>
      rw [h.canRead_eq hi (h.listingBelow owner depth)]
      cases he : (h.delegateEntries (h.listingBelow owner depth) delegate).find?
          (Entry.tells name) with
      | none => rfl
      | some entry =>
        obtain ⟨r, held, rfl, -, rfl⟩ := h.telling_plain hi he
        rfl
    | some j =>
      rw [h.delegateEntries_of_instance hi, listingBelow]
      cases hd : depth.descend owner with
      | error e =>
        obtain rfl := Depth.descend_error hd
        rfl
      | ok below =>
        have hs := h.lookupAt_settled hn below j
        unfold Settled at hs
        simp only [bind, Except.bind]
        cases he : (h.listingWithin below.remaining j).find? (Entry.tells name) with
        | none =>
          rw [he] at hs
          cases ho : h.lookupAt name below j with
          | error e => simp_all [isFinal]
          | ok found => cases found <;> simp_all [isFinal]
        | some entry =>
          rw [he] at hs
          rw [hs, ← Depth.max_descend hd]
          cases entry with
          | binding other value path slot => simp [Entry.answer, writeDepth, hi, hd]; rfl
          | tooDeep above => rfl

-- ---------------------------------------------------------------------------
-- The way to a slot
-- ---------------------------------------------------------------------------

def held? (name : String) : Slot → Option Value
  | .member i => (h.inst i).members.get? name
  | .field r => (h.record r).fields.get? name

/-- The instances on the way to a slot, each a delegate of the one before. -/
inductive Route : List InstanceId → Slot → Prop where
  | member (i : InstanceId) : Route [i] (.member i)
  | field {i : InstanceId} {r : RecordId} :
      .record r ∈ (h.inst i).chain.delegates → Route [i] (.field r)
  | through {i j : InstanceId} {delegate : Value} {rest : List InstanceId} {slot : Slot} :
      delegate ∈ (h.inst i).chain.delegates → delegate.instance? = some j →
      Route (j :: rest) slot → Route (i :: j :: rest) slot

/-- An entry that tells of a name leads from the instance to a slot that holds
what it says. -/
theorem route_of_telling (depth : Depth) {i : InstanceId} {other : String} {value : Value}
    {path : List InstanceId} {slot : Slot}
    (he : (h.listingWithin depth.remaining i).find? (Entry.tells name) =
      some (.binding other value path slot)) :
    ∃ rest, path = i :: rest ∧ h.Route path slot ∧ h.held? name slot = some value := by
  induction depth using Depth.down_induction generalizing i path with
  | step depth ih =>
    rw [listingWithin_eq, find?_listingWith] at he
    cases hm : (h.inst i).members.get? name with
    | some held =>
      rw [hm] at he
      cases he
      exact ⟨[], rfl, .member i, hm⟩
    | none =>
      rw [hm, find?_flatMap_eq] at he
      simp only [Option.map_none, Option.none_or, Option.map_map, Option.map_eq_some_iff] at he
      obtain ⟨⟨delegate, entry⟩, hf, he⟩ := he
      obtain ⟨hd, ht⟩ := firstTelling_some hf
      cases hi : delegate.instance? with
      | none =>
        obtain ⟨r, held, rfl, hg, rfl⟩ := h.telling_plain hi ht
        cases he
        exact ⟨[], rfl, .field hd, hg⟩
      | some j =>
        rw [h.delegateEntries_of_instance hi, listingBelow] at ht
        cases hdesc : depth.descend (h.inst i).name with
        | error e =>
          rw [hdesc] at ht
          cases ht
          cases he
        | ok below =>
          rw [hdesc] at ht
          cases entry with
          | tooDeep owner => cases he
          | binding other held inner slot =>
            cases he
            obtain ⟨rest, rfl, hr, hv⟩ := ih _ below hdesc ht
            exact ⟨j :: rest, rfl, .through hd hi hr, hv⟩

-- ---------------------------------------------------------------------------
-- Writing by the listing
-- ---------------------------------------------------------------------------

/-- What a write gives that an entry decides. -/
def overwrite (max : Nat) (name : String) (value : Value) : Entry → Except Error Heap
  | .tooDeep owner => .error (.delegateDepth owner max)
  | .binding _ _ path slot =>
    match path.find? fun i => (h.inst i).frozen with
    | some i => .error (.frozen (h.inst i).name name)
    | none =>
      match slot with
      | .member holder => .ok (h.setMember holder name value)
      | .field r => .error (.fieldAssignment (h.typeName (.record r)))

section
variable {max : Nat} {other : String} {value held : Value} {path : List InstanceId}

theorem overwrite_blocked {slot : Slot} {i : InstanceId}
    (hp : (path.find? fun i => (h.inst i).frozen) = some i) :
    h.overwrite max name value (.binding other held path slot) =
      .error (.frozen (h.inst i).name name) := by
  simp only [overwrite, hp]

theorem overwrite_member {holder : InstanceId}
    (hp : (path.find? fun i => (h.inst i).frozen) = none) :
    h.overwrite max name value (.binding other held path (.member holder)) =
      .ok (h.setMember holder name value) := by
  simp only [overwrite, hp]

theorem overwrite_field {r : RecordId} (hp : (path.find? fun i => (h.inst i).frozen) = none) :
    h.overwrite max name value (.binding other held path (.field r)) =
      .error (.fieldAssignment (h.typeName (.record r))) := by
  simp only [overwrite, hp]

end

theorem overwrite_under (max : Nat) (value : Value) {i : InstanceId}
    (ho : (h.inst i).frozen = false) (entry : Entry) :
    h.overwrite max name value (entry.under i) = h.overwrite max name value entry := by
  cases entry with
  | tooDeep owner => rfl
  | binding other held path slot => simp [Entry.under, overwrite, ho]

theorem assignAt_eq (value : Value) (depth : Depth) (i : InstanceId) :
    h.assignAt name value depth i = h.writeVisit name value depth i fun j =>
      (depth.descend (h.inst i).name).bind fun below => h.assignAt name value below j :=
  h.descend_eq ..

theorem assignAt_listing (hn : name ≠ SpecialName.super.text) (value : Value) (depth : Depth)
    (i : InstanceId) :
    h.assignAt name value depth i =
      if (h.inst i).frozen then .error (.frozen (h.inst i).name name)
      else
        match (h.listingWithin depth.remaining i).find? (Entry.tells name) with
        | none => .ok (h.setMember i name value)
        | some entry => h.overwrite depth.max name value entry := by
  induction depth using Depth.down_induction generalizing i with
  | step depth ih =>
    rw [assignAt_eq, writeVisit, checkOpen, if_neg hn]
    cases ho : (h.inst i).frozen with
    | true => rfl
    | false =>
      rw [listingWithin_eq, find?_listingWith, NameMap.contains]
      cases (h.inst i).members.get? name with
      | some held =>
        have hw : h.overwrite depth.max name value (.binding name held [i] (.member i)) =
            .ok (h.setMember i name value) := h.overwrite_member (by simp [ho])
        exact hw.symm
      | none =>
        rw [definer?, h.definerAmong_listing hn, find?_flatMap_eq]
        cases hf : firstTelling name (h.delegateEntries (h.listingBelow (h.inst i).name depth))
            (h.inst i).chain.delegates with
        | none => rfl
        | some found =>
          obtain ⟨delegate, entry⟩ := found
          obtain ⟨-, he⟩ := firstTelling_some hf
          simp only [Option.map_some, Option.map_none, Option.none_or, Bool.false_eq_true,
            ↓reduceIte, h.overwrite_under _ _ ho]
          cases entry with
          | tooDeep owner => rfl
          | binding other held path slot =>
            cases hi : delegate.instance? with
            | none =>
              obtain ⟨r, found, rfl, -, hentry⟩ := h.telling_plain hi he
              obtain ⟨-, -, rfl, rfl⟩ := Entry.binding.inj hentry
              rfl
            | some j =>
              rw [h.delegateEntries_of_instance hi, listingBelow] at he
              simp only [writeDepth, hi]
              cases hd : depth.descend (h.inst i).name with
              | error e => simp [hd] at he
              | ok below =>
                rw [hd] at he
                obtain ⟨rest, rfl, -⟩ := h.route_of_telling below he
                have hj := ih _ below hd j
                rw [he] at hj
                simp only [Except.map, bind, Except.bind, hi]
                rw [hj]
                cases hj : (h.inst j).frozen <;> simp [overwrite, hj]

-- ---------------------------------------------------------------------------
-- Reads and writes compared
-- ---------------------------------------------------------------------------

theorem assign_listing (hn : name ≠ SpecialName.super.text) (value : Value) {i : InstanceId}
    (ho : (h.inst i).frozen = false) :
    h.assign name value i =
      match (h.listing i).find? (Entry.tells name) with
      | none => .ok (h.setMember i name value)
      | some entry => h.overwrite (h.inst i).maxDepth name value entry := by
  have hr : (h.root i).max = (h.inst i).maxDepth := Depth.max_root _
  rw [assign, assignAt_listing h hn, ho, hr]
  rfl

/-- The second heap differs from the first at most in what one own member of one
instance holds, which is the given value. -/
structure OnlyMember (h h' : Heap) (holder : InstanceId) (name : String) (value : Value) :
    Prop where
  written : (h'.inst holder).members.get? name = some value
  otherNames : ∀ other, other ≠ name →
    (h'.inst holder).members.get? other = (h.inst holder).members.get? other
  holderElse : h'.inst holder = { h.inst holder with members := (h'.inst holder).members }
  otherInstances : ∀ i, i ≠ holder → h'.inst i = h.inst i
  count : h'.instances.size = h.instances.size
  records : h'.records = h.records
  serials : h'.nextSerial = h.nextSerial

theorem setMember_onlyMember {holder : InstanceId} (hi : holder.index < h.instances.size)
    (name : String) (value : Value) :
    h.OnlyMember (h.setMember holder name value) holder name value := by
  have hinst : ∀ i, (h.setMember holder name value).inst i =
      if holder = i then
        { h.inst i with members := (h.inst i).members.insert name value }
      else h.inst i := fun i => by simp [setMember, inst_modify, hi]
  refine ⟨?_, ?_, ?_, ?_, ?_, rfl, rfl⟩
  · simp [hinst]
  · intro other ho
    simp [hinst, NameMap.get?_insert_of_ne _ ho]
  · simp [hinst]
  · intro i hne
    simp [hinst, hne.symm]
  · simp [setMember, modifyInst]

theorem lt_of_held {i : InstanceId} {value : Value}
    (hv : (h.inst i).members.get? name = some value) : i.index < h.instances.size := by
  refine Decidable.byContradiction fun hi => ?_
  have hd : h.inst i = default := by simp [inst, Nat.not_lt.mp hi]
  rw [hd] at hv
  cases hv

/-- What a write has to give and to leave, told by the read of the same name in
the heap before. -/
structure WriteFollowsRead (h : Heap) (i : InstanceId) (name : String) (value : Value)
    (result : Except Error Unit) (h' : Heap) : Prop where
  frozen : (h.inst i).frozen = true → result = .error (.frozen (h.inst i).name name)
  tooDeep : (h.inst i).frozen = false →
    ∀ e, h.lookup name i = .error e → e.isDepth = true → result = .error e
  absent : (h.inst i).frozen = false →
    (h.lookup name i = .ok none ∨ ∃ e, h.lookup name i = .error e ∧ e.isDepth = false) →
    result = .ok () ∧ (h.inst i).members.get? name = none ∧ h.OnlyMember h' i name value
  found : (h.inst i).frozen = false → ∀ held, h.lookup name i = .ok (some held) →
    ∃ path slot, (h.listing i).find? (Entry.tells name) = some (.binding name held path slot) ∧
      path.head? = some i ∧ h.Route path slot ∧ h.held? name slot = some held ∧
      match path.find? fun j => (h.inst j).frozen with
      | some j => result = .error (.frozen (h.inst j).name name)
      | none =>
        match slot with
        | .member holder => result = .ok () ∧ h.OnlyMember h' holder name value
        | .field r => result = .error (.fieldAssignment (h.typeName (.record r)))
  unchanged : ∀ e, result = .error e → h' = h
  noNewMember : ∀ j, j ≠ i → ∀ other,
    (h'.inst j).members.contains other = (h.inst j).members.contains other

theorem OnlyMember.contains_eq {h h' : Heap} {holder : InstanceId} {value held : Value}
    (ho : h.OnlyMember h' holder name value) (hv : (h.inst holder).members.get? name = some held)
    (j : InstanceId) (other : String) :
    (h'.inst j).members.contains other = (h.inst j).members.contains other := by
  unfold NameMap.contains
  by_cases hj : j = holder
  · subst hj
    by_cases hother : other = name
    · subst hother
      rw [ho.written, hv]
      rfl
    · rw [ho.otherNames other hother]
  · rw [ho.otherInstances j hj]

section
variable {h} {i : InstanceId} {value : Value}

theorem own_absent (depth : Depth)
    (he : (h.listingWithin depth.remaining i).find? (Entry.tells name) = none) :
    (h.inst i).members.get? name = none := by
  rw [listingWithin_eq, find?_listingWith, Option.or_eq_none_iff] at he
  simpa using he.1

theorem writeFollowsRead_frozen (ho : (h.inst i).frozen = true) :
    h.WriteFollowsRead i name value (.error (.frozen (h.inst i).name name)) h where
  frozen _ := rfl
  tooDeep hf := absurd ho (by simp [hf])
  absent hf := absurd ho (by simp [hf])
  found hf := absurd ho (by simp [hf])
  unchanged _ _ := rfl
  noNewMember _ _ _ := rfl

theorem writeFollowsRead_tooDeep (ho : (h.inst i).frozen = false) {owner : String} {max : Nat}
    (hl : h.lookup name i = .error (.delegateDepth owner max)) :
    h.WriteFollowsRead i name value (.error (.delegateDepth owner max)) h where
  frozen hf := absurd ho (by simp [hf])
  tooDeep _ e he _ := by
    rw [hl] at he
    cases he
    rfl
  absent _ ha := by
    rcases ha with he | ⟨e, he, hd⟩
    · simp [hl] at he
    · rw [hl] at he
      cases he
      cases hd
  found _ held hheld := by simp [hl] at hheld
  unchanged _ _ := rfl
  noNewMember _ _ _ := rfl

theorem writeFollowsRead_absent (hi : i.index < h.instances.size)
    (ho : (h.inst i).frozen = false) (hl : isFinal (h.lookup name i) = false)
    (hm : (h.inst i).members.get? name = none) :
    h.WriteFollowsRead i name value (.ok ()) (h.setMember i name value) where
  frozen hf := absurd ho (by simp [hf])
  tooDeep _ e he hd := by
    rw [he] at hl
    simp [isFinal, hd] at hl
  absent _ _ := ⟨rfl, hm, h.setMember_onlyMember hi name value⟩
  found _ held hheld := by simp [hheld, isFinal] at hl
  unchanged _ he := by cases he
  noNewMember j hj other := by
    rw [(h.setMember_onlyMember hi name value).otherInstances j hj]

theorem writeFollowsRead_found (ho : (h.inst i).frozen = false) {other : String} {held : Value}
    {path : List InstanceId} {slot : Slot}
    (he : (h.listing i).find? (Entry.tells name) = some (.binding other held path slot))
    (hl : h.lookup name i = .ok (some held)) :
    h.WriteFollowsRead i name value
      ((h.overwrite (h.inst i).maxDepth name value (.binding other held path slot)).map fun _ => ())
      ((h.overwrite (h.inst i).maxDepth name value (.binding other held path slot)).toOption.getD
        h) := by
  obtain rfl : name = other := by simpa [Entry.tells] using List.find?_some he
  obtain ⟨rest, rfl, hroute, hheld⟩ := h.route_of_telling (h.root i) he
  -- The read alone refutes the other cases, whatever the write does.
  have hread {result h'} (outcome) (unchanged) (noNewMember) :
      h.WriteFollowsRead i name value result h' :=
    { frozen := fun hf => absurd ho (by simp [hf])
      tooDeep := fun _ e hle => by simp [hl] at hle
      absent := fun _ ha => by rcases ha with ha | ⟨e, ha, -⟩ <;> simp [hl] at ha
      found := fun _ held' hl' => by
        obtain rfl : held = held' := by simpa [hl] using hl'
        exact ⟨i :: rest, slot, he, rfl, hroute, hheld, outcome⟩
      unchanged := unchanged
      noNewMember := noNewMember }
  cases hp : (i :: rest).find? fun j => (h.inst j).frozen with
  | some j =>
    rw [h.overwrite_blocked hp]
    refine hread ?_ (fun _ _ => rfl) fun _ _ _ => rfl
    rw [hp]
    rfl
  | none =>
    cases slot with
    | field r =>
      rw [h.overwrite_field hp]
      refine hread ?_ (fun _ _ => rfl) fun _ _ _ => rfl
      rw [hp]
      rfl
    | member holder =>
      have honly := h.setMember_onlyMember (h.lt_of_held hheld) name value
      rw [h.overwrite_member hp]
      refine hread ?_ (fun e hk => ?_) fun j _ => honly.contains_eq hheld j
      · rw [hp]
        exact ⟨rfl, honly⟩
      · cases hk

theorem assign_follows_lookup (hi : i.index < h.instances.size)
    (hn : name ≠ SpecialName.super.text) (value : Value) :
    h.WriteFollowsRead i name value ((h.assign name value i).map fun _ => ())
      ((h.assign name value i).toOption.getD h) := by
  cases ho : (h.inst i).frozen with
  | true =>
    rw [assign, assignAt_listing h hn, if_pos ho]
    exact writeFollowsRead_frozen ho
  | false =>
    have hs := h.lookup_settled hn i
    rw [h.assign_listing hn value ho]
    cases he : (h.listing i).find? (Entry.tells name) with
    | none =>
      rw [Settled, he] at hs
      exact writeFollowsRead_absent hi ho hs (own_absent (h.root i) he)
    | some entry =>
      rw [Settled, he] at hs
      cases entry with
      | tooDeep owner => exact writeFollowsRead_tooDeep ho hs
      | binding other held path slot => exact writeFollowsRead_found ho he hs

/-- A write of a name other than `super` goes exactly where a read of the name
would come from, and touches nothing else. -/
theorem write_follows_read {γ σ : Type} (m : Machine γ σ) (hi : i.index < m.heap.instances.size)
    (hn : name ≠ SpecialName.super.text) (value : Value) :
    ∃ result h' trace,
      Eval.write (.inst i) name value m = .ok (result, { m with heap := h', trace }) ∧
        m.heap.WriteFollowsRead i name value result h' := by
  have hf := assign_follows_lookup hi hn value
  have hw : m.heap.write (.inst i) name value = m.heap.assign name value i := rfl
  rw [Eval.run_write, Eval.run_commit, hw, Machine.report_eq]
  cases ha : m.heap.assign name value i with
  | error e =>
    rw [ha] at hf
    exact ⟨.error e, m.heap, _, rfl, hf⟩
  | ok h' =>
    rw [ha] at hf
    exact ⟨.ok (), h', _, rfl, hf⟩

theorem write_follows_read_layered :
    1 < layered.instances.size ∧ "w" ≠ SpecialName.super.text ∧
      ∃ h' trace,
        Eval.write (.inst ⟨1⟩) "w" .none ({ host := (), heap := layered } : Machine Unit Unit) =
          .ok (.ok (), { host := (), heap := h', trace }) ∧
        layered.OnlyMember h' ⟨0⟩ "w" .none := by
  have hi : (⟨1⟩ : InstanceId).index < layered.instances.size := by decide
  have hn : "w" ≠ SpecialName.super.text := by decide
  obtain ⟨result, h', trace, hw, hf⟩ :=
    write_follows_read ({ host := (), heap := layered } : Machine Unit Unit) hi hn .none
  have hl : layered.lookup "w" ⟨1⟩ = .ok (some (.int 4)) := rfl
  have hfirst : (layered.listing ⟨1⟩).find? (Entry.tells "w") =
      some (.binding "w" (.int 4) [⟨1⟩, ⟨0⟩] (.member ⟨0⟩)) := rfl
  obtain ⟨path, slot, he, -, -, -, hm⟩ := hf.found rfl (.int 4) hl
  rw [hfirst] at he
  cases he
  obtain ⟨rfl, honly⟩ := hm
  exact ⟨hi, hn, h', trace, hw, honly⟩

end

end Delegation.Heap

import Delegation.Proofs.Assignment
import Delegation.Proofs.Change

/-!
# The member that a write sets

A write sets one member of one instance, and which one does not depend on what
is written (`assign_eq`). Setting a member that is there leaves every listing as
it is but for one value (`find?_listing_setMember`), and so it leaves alone where
writes go (`writeHolder_setMember`).
-/

namespace Delegation

/-- An entry once a value is kept in a member of an instance. -/
def Entry.written (holder : InstanceId) (name : String) (value : Value) : Entry → Entry
  | .binding other held path slot =>
    .binding other (if other = name ∧ slot = .member holder then value else held) path slot
  | .tooDeep owner => .tooDeep owner

@[simp] theorem Entry.written_under (holder : InstanceId) (name : String) (value : Value)
    (i : InstanceId) (entry : Entry) :
    (entry.under i).written holder name value = (entry.written holder name value).under i := by
  cases entry <;> rfl

namespace Heap

variable (h : Heap) {name other : String} {value : Value} {holder i : InstanceId}

-- ---------------------------------------------------------------------------
-- Changing instances
-- ---------------------------------------------------------------------------

theorem modifyInst_modifyInst (i : InstanceId) (first second : Instance → Instance) :
    (h.modifyInst i first).modifyInst i second = h.modifyInst i fun x => second (first x) := by
  simp only [modifyInst, Heap.mk.injEq, and_true]
  refine Array.ext_getElem? fun k => ?_
  simp only [Array.getElem?_modify]
  split <;> simp [Function.comp_def]

theorem modifyInst_comm (i j : InstanceId) {first second : Instance → Instance}
    (hc : ∀ x, second (first x) = first (second x)) :
    (h.modifyInst i first).modifyInst j second = (h.modifyInst j second).modifyInst i first := by
  simp only [modifyInst, Heap.mk.injEq, and_true]
  refine Array.ext_getElem? fun k => ?_
  simp only [Array.getElem?_modify]
  split <;> split <;> simp [Function.comp_def, hc]

theorem modifyInst_same (i : InstanceId) {change : Instance → Instance}
    (hc : change (h.inst i) = h.inst i) : h.modifyInst i change = h := by
  obtain ⟨instances, records, nextSerial⟩ := h
  simp only [modifyInst, Heap.mk.injEq, and_true]
  refine Array.ext_getElem? fun k => ?_
  rw [Array.getElem?_modify]
  split
  case isTrue hk =>
    subst hk
    cases hx : instances[i.index]? with
    | none => rfl
    | some x =>
      have hsame : change x = x := by simpa [inst, hx] using hc
      simp [hsame]
  case isFalse => rfl

-- ---------------------------------------------------------------------------
-- Setting a member
-- ---------------------------------------------------------------------------

theorem get?_setMember_of_ne (hne : other ≠ name) :
    ((h.setMember holder name value).inst i).members.get? other =
      (h.inst i).members.get? other :=
  h.field_modifyInst (fun x => x.members.get? other)
    (fun x => x.members.get?_insert_of_ne hne value) holder i

theorem get?_setMember_self (hi : holder.index < h.instances.size) :
    ((h.setMember holder name value).inst holder).members.get? name = some value := by
  simp [setMember, inst_modify, hi]

/-- A member that is there changes its value; the others keep theirs. -/
theorem get?_setMember_held
    (hheld : other = name → ((h.inst holder).members.get? name).isSome = true) :
    ((h.setMember holder name value).inst i).members.get? other =
      ((h.inst i).members.get? other).map fun held =>
        if other = name ∧ i = holder then value else held := by
  by_cases hne : other = name
  · subst hne
    obtain ⟨held, hv⟩ := Option.isSome_iff_exists.mp (hheld rfl)
    by_cases hi : i = holder
    · subst hi
      simp [h.get?_setMember_self (h.lt_of_held hv), hv]
    · have hother : (h.setMember holder other value).inst i = h.inst i :=
        (h.setMember_onlyMember (h.lt_of_held hv) other value).otherInstances i hi
      simp [hother, hi]
  · simp [h.get?_setMember_of_ne hne, hne]

theorem setMember_setMember_self (first second : Value) :
    (h.setMember holder name first).setMember holder name second =
      h.setMember holder name second := by
  simp only [setMember, modifyInst_modifyInst, NameMap.insert_insert_self]

theorem setMember_comm (hne : other ≠ name) (i j : InstanceId) (value held : Value) :
    (h.setMember i name value).setMember j other held =
      (h.setMember j other held).setMember i name value :=
  h.modifyInst_comm i j fun x => by simp only [NameMap.insert_comm _ hne]

theorem setMember_held (hv : (h.inst holder).members.get? name = some value) :
    h.setMember holder name value = h :=
  h.modifyInst_same holder (by rw [NameMap.insert_of_get? hv])

-- ---------------------------------------------------------------------------
-- Listings
-- ---------------------------------------------------------------------------

/-- What delegates tell first, when what instances tell is changed alike. -/
theorem find?_delegates_written {enter enter' : InstanceId → List Entry}
    (he : ∀ j, (enter' j).find? (Entry.tells other) =
      ((enter j).find? (Entry.tells other)).map (Entry.written holder name value))
    (delegates : List Value) :
    (delegates.flatMap ((h.setMember holder name value).delegateEntries enter')).find?
        (Entry.tells other) =
      ((delegates.flatMap (h.delegateEntries enter)).find? (Entry.tells other)).map
        (Entry.written holder name value) := by
  induction delegates with
  | nil => rfl
  | cons delegate rest ih =>
    have hd : ((h.setMember holder name value).delegateEntries enter' delegate).find?
        (Entry.tells other) = ((h.delegateEntries enter delegate).find? (Entry.tells other)).map
          (Entry.written holder name value) := by
      cases delegate with
      | inst j => exact he j
      | template t => exact he t.target
      | record r =>
        simp [delegateEntries, find?_bindings, Function.comp_def, Entry.written]
      | _ => rfl
    simp only [List.flatMap_cons, List.find?_append, hd, ih, Option.map_or]

theorem find?_listingWithin_setMember
    (hheld : other = name → ((h.inst holder).members.get? name).isSome = true)
    (levels : Nat) (i : InstanceId) :
    ((h.setMember holder name value).listingWithin levels i).find? (Entry.tells other) =
      ((h.listingWithin levels i).find? (Entry.tells other)).map
        (Entry.written holder name value) := by
  have hvisit {enter enter' : InstanceId → List Entry} (i : InstanceId)
      (he : ∀ j, (enter' j).find? (Entry.tells other) =
        ((enter j).find? (Entry.tells other)).map (Entry.written holder name value)) :
      ((h.setMember holder name value).listingWith enter' i).find? (Entry.tells other) =
        ((h.listingWith enter i).find? (Entry.tells other)).map
          (Entry.written holder name value) := by
    simp only [find?_listingWith, chain_setMember, h.find?_delegates_written he,
      h.get?_setMember_held hheld, Option.map_or, Option.map_map]
    congr 1
    · congr 1
      funext held
      simp [Entry.written]
    · congr 1
      funext entry
      simp
  induction levels generalizing i with
  | zero => exact hvisit i fun j => by simp [Entry.tells, Entry.written]
  | succ levels ih => exact hvisit i ih

theorem find?_listing_own (hv : (h.inst i).members.get? name = some value) :
    (h.listing i).find? (Entry.tells name) = some (.binding name value [i] (.member i)) := by
  have hroot := h.listingWithin_eq (h.root i) i
  change (h.listingWithin (h.root i).remaining i).find? (Entry.tells name) = _
  simp [hroot, find?_listingWith, hv]

/-- Setting a member that is there changes the value of its slot in the entry
that tells of a name, and nothing else. -/
theorem find?_listing_setMember
    (hheld : other = name → ((h.inst holder).members.get? name).isSome = true) :
    ((h.setMember holder name value).listing i).find? (Entry.tells other) =
      ((h.listing i).find? (Entry.tells other)).map (Entry.written holder name value) := by
  simp only [listing, maxDepth_setMember]
  exact h.find?_listingWithin_setMember hheld _ i

-- ---------------------------------------------------------------------------
-- Where writes go
-- ---------------------------------------------------------------------------

/-- The instance whose member a write of a name sets that an entry decides. -/
def entryHolder (max : Nat) (name : String) : Entry → Except Error InstanceId
  | .tooDeep owner => .error (.delegateDepth owner max)
  | .binding _ _ path slot =>
    match path.find? fun i => (h.inst i).frozen with
    | some i => .error (.frozen (h.inst i).name name)
    | none =>
      match slot with
      | .member holder => .ok holder
      | .field r => .error (.fieldAssignment (h.typeName (.record r)))

/-- The instance whose member a write of a name to an instance sets. -/
def writeHolder (name : String) (i : InstanceId) : Except Error InstanceId :=
  if (h.inst i).frozen then .error (.frozen (h.inst i).name name)
  else
    match (h.listing i).find? (Entry.tells name) with
    | none => .ok i
    | some entry => h.entryHolder (h.inst i).maxDepth name entry

theorem overwrite_eq (max : Nat) (value : Value) (entry : Entry) :
    h.overwrite max name value entry =
      (h.entryHolder max name entry).map fun holder => h.setMember holder name value := by
  cases entry with
  | tooDeep owner => rfl
  | binding other held path slot =>
    simp only [overwrite, entryHolder]
    cases path.find? fun i => (h.inst i).frozen with
    | some i => rfl
    | none => cases slot <;> rfl

/-- Where a write goes does not depend on what is written. -/
theorem assign_eq (hn : name ≠ SpecialName.super.text) (value : Value) (i : InstanceId) :
    h.assign name value i =
      (h.writeHolder name i).map fun holder => h.setMember holder name value := by
  unfold writeHolder
  cases ho : (h.inst i).frozen with
  | true => rw [assign, assignAt_listing h hn, if_pos ho, if_pos rfl]; rfl
  | false =>
    rw [h.assign_listing hn value ho]
    cases (h.listing i).find? (Entry.tells name) with
    | none => rfl
    | some entry => exact h.overwrite_eq _ value entry

theorem entryHolder_setMember (max : Nat) (entry : Entry) :
    (h.setMember holder name value).entryHolder max other (entry.written holder name value) =
      h.entryHolder max other entry := by
  cases entry with
  | tooDeep owner => rfl
  | binding told held path slot =>
    simp only [entryHolder, Entry.written, frozen_setMember, name_setMember]
    rfl

/-- Setting a member that is there, or that goes by another name, does not
change where writes go. -/
theorem writeHolder_setMember
    (hheld : other = name → ((h.inst holder).members.get? name).isSome = true) (i : InstanceId) :
    (h.setMember holder name value).writeHolder other i = h.writeHolder other i := by
  simp only [writeHolder, frozen_setMember, name_setMember, maxDepth_setMember,
    h.find?_listing_setMember hheld]
  cases (h.listing i).find? (Entry.tells other) with
  | none => rfl
  | some entry => simp only [Option.map_some, entryHolder_setMember]

/-- A write that goes somewhere has met no frozen instance. It sets a new member of
the instance written to, where nothing tells of the name, and otherwise the member
told of first. -/
theorem writeHolder_ok (hw : h.writeHolder name i = .ok holder) :
    (h.inst i).frozen = false ∧
      ((h.listing i).find? (Entry.tells name) = none ∧ holder = i ∨
        ∃ held path, (h.listing i).find? (Entry.tells name) =
            some (.binding name held path (.member holder)) ∧
          (path.find? fun j => (h.inst j).frozen) = none) := by
  unfold writeHolder at hw
  cases ho : (h.inst i).frozen with
  | true => simp [ho] at hw
  | false =>
    simp only [ho, Bool.false_eq_true, ↓reduceIte] at hw
    refine ⟨rfl, ?_⟩
    cases he : (h.listing i).find? (Entry.tells name) with
    | none =>
      obtain rfl : i = holder := by simpa [he] using hw
      exact .inl ⟨rfl, rfl⟩
    | some entry =>
      cases entry with
      | tooDeep owner => simp [he, entryHolder] at hw
      | binding told held path slot =>
        obtain rfl : name = told := by simpa [Entry.tells] using List.find?_some he
        simp only [he, entryHolder] at hw
        cases hp : path.find? fun j => (h.inst j).frozen with
        | some j => simp [hp] at hw
        | none =>
          cases slot with
          | field r => simp [hp] at hw
          | member inner =>
            obtain rfl : inner = holder := by simpa [hp] using hw
            exact .inr ⟨held, path, rfl, hp⟩

/-- After a write its name is told by the member that the write has set, and no
instance on the way to it is frozen. -/
theorem find?_listing_written (hi : i.index < h.instances.size)
    (hw : h.writeHolder name i = .ok holder) (value : Value) :
    ∃ path, ((h.setMember holder name value).listing i).find? (Entry.tells name) =
        some (.binding name value path (.member holder)) ∧
      (path.find? fun j => (h.inst j).frozen) = none := by
  obtain ⟨ho, ⟨-, rfl⟩ | ⟨held, path, he, hp⟩⟩ := h.writeHolder_ok hw
  · -- A new own member of the instance written to comes before all else.
    exact ⟨[holder], find?_listing_own _ (h.get?_setMember_self hi), by simp [ho]⟩
  · obtain ⟨-, -, -, hv⟩ := h.route_of_telling (h.root i) he
    have hheld : ((h.inst holder).members.get? name).isSome = true :=
      Option.isSome_iff_exists.mpr ⟨held, hv⟩
    refine ⟨path, ?_, hp⟩
    rw [h.find?_listing_setMember fun _ => hheld, he]
    simp [Entry.written]

end Heap

end Delegation

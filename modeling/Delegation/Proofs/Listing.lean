import Delegation.Heap.Names
import Delegation.Heap.Read

/-!
# The flattened listing of an instance

Everything an instance answers for, in the order in which it is asked: its own
members, then what each delegate lists. A delegate beyond the depth bound
leaves a marker. Collecting names reads the whole listing (`namesAt_listing`),
looking a name up only its first entry that tells (`lookupAt_settled`).

An entry also says where its value is kept and which instances lie on the way,
so that writes can be compared with reads.
-/

namespace Delegation

/-- Induction on how far a traversal may still go down. -/
theorem Depth.down_induction {P : Depth → Prop}
    (step : ∀ depth, (∀ owner below, depth.descend owner = .ok below → P below) → P depth)
    (depth : Depth) : P depth := by
  obtain ⟨level, remaining⟩ := depth
  induction remaining generalizing level with
  | zero =>
    refine step _ fun owner below hd => ?_
    cases hd
  | succ remaining ih =>
    refine step _ fun owner below hd => ?_
    cases hd
    exact ih (level + 1)

theorem Depth.descend_error {depth : Depth} {owner : String} {e : Error}
    (h : depth.descend owner = .error e) : e = .delegateDepth owner depth.max := by
  unfold Depth.descend at h
  split at h
  · exact (Except.error.inj h).symm
  · cases h

/-- Where the value of an attribute is kept. -/
inductive Slot where
  | member (holder : InstanceId)
  | field (holder : RecordId)
  deriving DecidableEq

inductive Entry where
  /-- A name with its value, the instances on the way to it, the first asked
  first, and its slot. -/
  | binding (name : String) (value : Value) (path : List InstanceId) (slot : Slot)
  | tooDeep (owner : String)
  deriving DecidableEq

namespace Entry

/-- Whether an entry tells what a name stands for, if only that it cannot be
found out. -/
def tells (name : String) : Entry → Bool
  | binding other .. => name == other
  | tooDeep _ => true

def answer (max : Nat) : Entry → Except Error (Option Value)
  | binding _ value .. => .ok (some value)
  | tooDeep owner => .error (.delegateDepth owner max)

def name? : Entry → Option String
  | binding name .. => some name
  | tooDeep _ => none

def tooDeep? : Entry → Option String
  | binding .. => none
  | tooDeep owner => some owner

/-- An entry of a delegate, as an instance above lists it. -/
def under (i : InstanceId) : Entry → Entry
  | binding name value path slot => binding name value (i :: path) slot
  | tooDeep owner => tooDeep owner

@[simp] theorem tells_under (name : String) (i : InstanceId) (entry : Entry) :
    (entry.under i).tells name = entry.tells name := by
  cases entry <;> rfl

@[simp] theorem answer_under (max : Nat) (i : InstanceId) (entry : Entry) :
    (entry.under i).answer max = entry.answer max := by
  cases entry <;> rfl

@[simp] theorem name?_under (i : InstanceId) (entry : Entry) :
    (entry.under i).name? = entry.name? := by
  cases entry <;> rfl

@[simp] theorem tooDeep?_under (i : InstanceId) (entry : Entry) :
    (entry.under i).tooDeep? = entry.tooDeep? := by
  cases entry <;> rfl

end Entry

namespace Heap

variable (h : Heap)

-- ---------------------------------------------------------------------------
-- The listing
-- ---------------------------------------------------------------------------

def bindings (map : NameMap Value) (slot : Slot) : List Entry :=
  map.entries.map fun (name, value) => .binding name value [] slot

def delegateEntries (enter : InstanceId → List Entry) : Value → List Entry
  | .record r => bindings (h.record r).fields (.field r)
  | .inst i => enter i
  | .template t => enter t.target
  | _ => []

/-- What an instance lists, given what instances below it list. -/
def listingWith (enter : InstanceId → List Entry) (i : InstanceId) : List Entry :=
  (bindings (h.inst i).members (.member i) ++
    (h.inst i).chain.delegates.flatMap (h.delegateEntries enter)).map (Entry.under i)

/-- What an instance lists that has so many levels below it. -/
def listingWithin : Nat → InstanceId → List Entry
  | 0, i => h.listingWith (fun _ => [.tooDeep (h.inst i).name]) i
  | levels + 1, i => h.listingWith (listingWithin levels) i

def listing (i : InstanceId) : List Entry := h.listingWithin (h.inst i).maxDepth i

def listingBelow (owner : String) (depth : Depth) (i : InstanceId) : List Entry :=
  match depth.descend owner with
  | .ok below => h.listingWithin below.remaining i
  | .error _ => [.tooDeep owner]

theorem listingWithin_eq (depth : Depth) (i : InstanceId) :
    h.listingWithin depth.remaining i = h.listingWith (h.listingBelow (h.inst i).name depth) i := by
  obtain ⟨level, remaining⟩ := depth
  cases remaining <;> rfl

/-- Following last delegates down from an instance ends in a value that has no
attributes. -/
inductive EndsIn : InstanceId → Value → Prop where
  | last {i : InstanceId} {value : Value} :
      (h.inst i).chain.delegates.getLast? = some value → value.hasAttributes = false →
      EndsIn i value
  | down {i j : InstanceId} {delegate value : Value} :
      (h.inst i).chain.delegates.getLast? = some delegate → delegate.instance? = some j →
      EndsIn j value → EndsIn i value

theorem find?_bindings (name : String) (map : NameMap Value) (slot : Slot) :
    (bindings map slot).find? (Entry.tells name) =
      (map.get? name).map fun value => .binding name value [] slot := by
  unfold bindings NameMap.get?
  induction map.entries with
  | nil => rfl
  | cons entry rest ih =>
    obtain ⟨other, value⟩ := entry
    rw [List.map_cons, List.find?_cons, List.lookup_cons, ih]
    cases hn : name == other with
    | false => simp [Entry.tells, hn]
    | true => simp [Entry.tells, eq_of_beq hn]

theorem filterMap_bindings (map : NameMap Value) (slot : Slot) :
    (bindings map slot).filterMap Entry.name? = map.names := by
  simp [bindings, NameMap.names, Entry.name?, List.filterMap_map, Function.comp_def]

theorem findSome?_bindings (map : NameMap Value) (slot : Slot) :
    (bindings map slot).findSome? Entry.tooDeep? = none := by
  rw [List.findSome?_eq_none_iff]
  intro entry he
  obtain ⟨_, _, rfl⟩ := List.mem_map.mp he
  rfl

-- ---------------------------------------------------------------------------
-- Looking up
-- ---------------------------------------------------------------------------

/-- Whether an outcome ends a look-up, so that no further level is asked. -/
def isFinal : Except Error (Option Value) → Bool
  | .ok found => found.isSome
  | .error e => e.isDepth

theorem firstSuccess_cons (ask : Value → Except Error (Option Value))
    (outcome : Except Error (Option Value)) (delegate : Value) (rest : List Value) :
    firstSuccess ask outcome (delegate :: rest) =
      if isFinal (ask delegate) then ask delegate
      else firstSuccess ask (ask delegate) rest := by
  rw [firstSuccess]
  cases ask delegate with
  | ok found => cases found <;> rfl
  | error e => rfl

/-- Without an outcome that ends the look-up, the last one stands. -/
theorem firstSuccess_eq_last {ask : Value → Except Error (Option Value)} {delegates : List Value}
    (hf : ∀ delegate ∈ delegates, isFinal (ask delegate) = false)
    (outcome : Except Error (Option Value)) :
    firstSuccess ask outcome delegates = delegates.getLast?.elim outcome ask := by
  induction delegates generalizing outcome with
  | nil => rfl
  | cons delegate rest ih =>
    have hd : isFinal (ask delegate) = false := hf delegate List.mem_cons_self
    rw [firstSuccess_cons, hd, if_neg (by simp), ih fun d hm => hf d (List.mem_cons_of_mem _ hm),
      List.getLast?_cons]
    cases rest.getLast? <;> rfl

/-- Within a depth bound, entries decide the outcome of looking a name up: the
first that tells gives it, and if none does, the look-up is not ended. -/
def Settled (max : Nat) (name : String) (entries : List Entry)
    (outcome : Except Error (Option Value)) : Prop :=
  match entries.find? (Entry.tells name) with
  | some entry => outcome = entry.answer max
  | none => isFinal outcome = false

theorem isFinal_answer (max : Nat) (entry : Entry) : isFinal (entry.answer max) = true := by
  cases entry <;> rfl

variable {max : Nat} {name : String}

theorem Settled.isFinal_eq {entries : List Entry} {outcome : Except Error (Option Value)}
    (hs : Settled max name entries outcome) :
    isFinal outcome = (entries.find? (Entry.tells name)).isSome := by
  unfold Settled at hs
  cases he : entries.find? (Entry.tells name) with
  | none => simpa [he] using hs
  | some entry =>
    rw [he] at hs
    rw [hs, isFinal_answer]
    rfl

theorem firstSuccess_settled {entries : Value → List Entry}
    {ask : Value → Except Error (Option Value)} {delegates : List Value}
    (hs : ∀ delegate ∈ delegates, Settled max name (entries delegate) (ask delegate))
    (outcome : Except Error (Option Value)) (ho : isFinal outcome = false) :
    Settled max name (delegates.flatMap entries) (firstSuccess ask outcome delegates) := by
  induction delegates generalizing outcome with
  | nil => exact ho
  | cons delegate rest ih =>
    have hd := hs delegate List.mem_cons_self
    have hr := fun d hm => hs d (List.mem_cons_of_mem _ hm)
    rw [firstSuccess_cons, hd.isFinal_eq, Settled, List.flatMap_cons, List.find?_append]
    cases he : (entries delegate).find? (Entry.tells name) with
    | some entry => simpa [Settled, he] using hd
    | none =>
      have hn : isFinal (ask delegate) = false := by simpa [he] using hd.isFinal_eq
      simpa [Settled] using ih hr (ask delegate) hn

theorem attrOf_settled {enter : InstanceId → Except Error (Option Value)}
    {list : InstanceId → List Entry} (hs : ∀ i, Settled max name (list i) (enter i))
    (delegate : Value) :
    Settled max name (h.delegateEntries list delegate) (h.attrOf name enter delegate) := by
  cases delegate with
  | inst i => exact hs i
  | template t => exact hs t.target
  | record r =>
    unfold Settled
    simp only [delegateEntries, attrOf, find?_bindings]
    cases (h.record r).fields.get? name <;> rfl
  | _ => rfl

theorem lookupBelow_settled {owner : String} {depth : Depth}
    (ih : ∀ below, depth.descend owner = .ok below →
      ∀ i, Settled below.max name (h.listingWithin below.remaining i) (h.lookupAt name below i))
    (i : InstanceId) :
    Settled depth.max name (h.listingBelow owner depth i) (h.lookupBelow name owner depth i) := by
  unfold listingBelow lookupBelow
  cases hd : depth.descend owner with
  | error e =>
    obtain rfl := Depth.descend_error hd
    rfl
  | ok below =>
    rw [← Depth.max_descend hd]
    exact ih below hd i

/-- An instance's listing is what its own members and its chain tell, the
members first. -/
theorem find?_listingWith (enter : InstanceId → List Entry) (i : InstanceId) :
    (h.listingWith enter i).find? (Entry.tells name) =
      (((h.inst i).members.get? name).map fun value =>
          Entry.binding name value [i] (.member i)).or
        ((((h.inst i).chain.delegates.flatMap (h.delegateEntries enter)).find?
          (Entry.tells name)).map (Entry.under i)) := by
  have ht : Entry.tells name ∘ Entry.under i = Entry.tells name :=
    funext fun entry => Entry.tells_under name i entry
  rw [listingWith, List.find?_map, ht, List.find?_append, find?_bindings]
  cases (h.inst i).members.get? name <;> rfl

theorem lookupAt_settled (hn : name ≠ SpecialName.super.text) (depth : Depth) (i : InstanceId) :
    Settled depth.max name (h.listingWithin depth.remaining i) (h.lookupAt name depth i) := by
  induction depth using Depth.down_induction generalizing i with
  | step depth ih =>
    rw [lookupAt_eq, if_neg hn, listingWithin_eq, Settled, find?_listingWith]
    cases (h.inst i).members.get? name with
    | some value => rfl
    | none =>
      have hd : ∀ delegate ∈ (h.inst i).chain.delegates,
          Settled depth.max name
            (h.delegateEntries (h.listingBelow (h.inst i).name depth) delegate)
            (h.attrOf name (h.lookupBelow name (h.inst i).name depth) delegate) :=
        fun delegate _ =>
          h.attrOf_settled (h.lookupBelow_settled fun below hb j => ih _ below hb j) delegate
      have hc := firstSuccess_settled hd (.ok none) rfl
      unfold Settled at hc
      simp only [lookupChain, Option.map_none, Option.none_or]
      cases he : ((h.inst i).chain.delegates.flatMap
          (h.delegateEntries (h.listingBelow (h.inst i).name depth))).find?
          (Entry.tells name) with
      | none => simpa [he] using hc
      | some entry => simpa [he] using hc

/-- What a delegate of `owner` lists decides the look-up in it. -/
theorem delegate_settled (hn : name ≠ SpecialName.super.text) (owner : String) (depth : Depth)
    (delegate : Value) :
    Settled depth.max name (h.delegateEntries (h.listingBelow owner depth) delegate)
      (h.attrOf name (h.lookupBelow name owner depth) delegate) :=
  h.attrOf_settled (h.lookupBelow_settled fun below _ i => h.lookupAt_settled hn below i) delegate

-- ---------------------------------------------------------------------------
-- Names that nothing defines
-- ---------------------------------------------------------------------------

/-- What the look-up of a name gives that nothing below an instance defines: an
error if the last delegates lead to a value without attributes. -/
def Undefined (name : String) (i : InstanceId) (outcome : Except Error (Option Value)) : Prop :=
  (∀ value, h.EndsIn i value → outcome = .error (.missingAttribute (h.typeName value) name)) ∧
    ((∀ value, ¬ h.EndsIn i value) → outcome = .ok none)

theorem EndsIn.last_iff {i : InstanceId} {delegate value : Value}
    (hl : (h.inst i).chain.delegates.getLast? = some delegate) (hi : delegate.instance? = none) :
    h.EndsIn i value ↔ delegate = value ∧ value.hasAttributes = false := by
  constructor
  · intro he
    cases he with
    | last hv ha => exact ⟨Option.some.inj (hl.symm.trans hv), ha⟩
    | down hd hj _ =>
      obtain rfl := Option.some.inj (hl.symm.trans hd)
      simp [hi] at hj
  · rintro ⟨rfl, ha⟩
    exact .last hl ha

theorem EndsIn.down_iff {i j : InstanceId} {delegate value : Value}
    (hl : (h.inst i).chain.delegates.getLast? = some delegate) (hj : delegate.instance? = some j) :
    h.EndsIn i value ↔ h.EndsIn j value := by
  constructor
  · intro he
    cases he with
    | last hv ha =>
      obtain rfl := Option.some.inj (hl.symm.trans hv)
      cases delegate <;> simp_all [Value.instance?, Value.hasAttributes]
    | down hd hk he =>
      obtain rfl := Option.some.inj (hl.symm.trans hd)
      obtain rfl := Option.some.inj (hj.symm.trans hk)
      exact he
  · exact .down hl hj

theorem attrOf_of_instance {value : Value} {j : InstanceId} (hj : value.instance? = some j)
    (enter : InstanceId → Except Error (Option Value)) : h.attrOf name enter value = enter j := by
  cases value <;> simp_all [Value.instance?, attrOf]

theorem delegateEntries_of_instance {value : Value} {j : InstanceId}
    (hj : value.instance? = some j) (enter : InstanceId → List Entry) :
    h.delegateEntries enter value = enter j := by
  cases value <;> simp_all [Value.instance?, delegateEntries]

/-- A value that is neither an instance nor a template gives a field it has, or
an error if it can have none. -/
theorem attrOf_plain {value : Value} (hi : value.instance? = none)
    {enter : InstanceId → Except Error (Option Value)} {list : InstanceId → List Entry}
    (hn : (h.delegateEntries list value).find? (Entry.tells name) = none) :
    h.attrOf name enter value =
      if value.hasAttributes then .ok none
      else .error (.missingAttribute (h.typeName value) name) := by
  cases value with
  | record r =>
    have hg : (h.record r).fields.get? name = none := by
      simpa [delegateEntries, find?_bindings] using hn
    simp [attrOf, hg, Value.hasAttributes]
  | inst i => simp [Value.instance?] at hi
  | template t => simp [Value.instance?] at hi
  | _ => rfl

theorem lookupAt_undefined (hn : name ≠ SpecialName.super.text) (depth : Depth) (i : InstanceId)
    (hl : (h.listingWithin depth.remaining i).find? (Entry.tells name) = none) :
    h.Undefined name i (h.lookupAt name depth i) := by
  induction depth using Depth.down_induction generalizing i with
  | step depth ih =>
    rw [listingWithin_eq, find?_listingWith] at hl
    obtain ⟨hm, hc⟩ := Option.or_eq_none_iff.mp hl
    simp only [Option.map_eq_none_iff] at hm hc
    have hd : ∀ delegate ∈ (h.inst i).chain.delegates,
        (h.delegateEntries (h.listingBelow (h.inst i).name depth) delegate).find?
          (Entry.tells name) = none := by
      simpa [List.find?_flatMap] using hc
    rw [lookupAt_eq, if_neg hn, hm]
    dsimp only [lookupChain]
    rw [firstSuccess_eq_last]
    · cases hlast : (h.inst i).chain.delegates.getLast? with
      | none =>
        refine ⟨fun value he => ?_, fun _ => rfl⟩
        cases he <;> simp_all
      | some delegate =>
        have hnone := hd delegate (List.mem_of_getLast? hlast)
        dsimp only [Option.elim]
        cases hi : delegate.instance? with
        | none =>
          rw [h.attrOf_plain hi hnone]
          simp only [Undefined, EndsIn.last_iff h hlast hi]
          cases ha : delegate.hasAttributes <;> grind
        | some j =>
          rw [h.delegateEntries_of_instance hi] at hnone
          rw [h.attrOf_of_instance hi]
          unfold listingBelow at hnone
          unfold lookupBelow
          simp only [Undefined, EndsIn.down_iff h hlast hi]
          cases hdesc : depth.descend (h.inst i).name with
          | error e => simp [hdesc, Entry.tells] at hnone
          | ok below =>
            rw [hdesc] at hnone
            exact ih _ below hdesc j hnone
    · intro delegate hmem
      rw [(h.delegate_settled hn (h.inst i).name depth delegate).isFinal_eq, hd delegate hmem]
      rfl

-- ---------------------------------------------------------------------------
-- Collecting names
-- ---------------------------------------------------------------------------

/-- The names of a listing, unless some delegate lies too deep. -/
def namesIn (max : Nat) (entries : List Entry) : Except Error (List String) :=
  match entries.findSome? Entry.tooDeep? with
  | some owner => .error (.delegateDepth owner max)
  | none => .ok (entries.filterMap Entry.name?)

theorem namesIn_append (max : Nat) (xs ys : List Entry) :
    namesIn max (xs ++ ys) = (do
      let names ← namesIn max xs
      return names ++ (← namesIn max ys)) := by
  unfold namesIn
  rw [List.findSome?_append, List.filterMap_append]
  cases xs.findSome? Entry.tooDeep? with
  | some owner => rfl
  | none => cases ys.findSome? Entry.tooDeep? <;> rfl

theorem namesIn_bindings (max : Nat) (map : NameMap Value) (slot : Slot) :
    namesIn max (bindings map slot) = .ok map.names := by
  rw [namesIn, findSome?_bindings, filterMap_bindings]

theorem namesIn_map_under (max : Nat) (i : InstanceId) (entries : List Entry) :
    namesIn max (entries.map (Entry.under i)) = namesIn max entries := by
  simp [namesIn, List.findSome?_map, List.filterMap_map, Function.comp_def]

theorem namesAmong_listing {enter : InstanceId → Except Error (List String)}
    {list : InstanceId → List Entry} (hs : ∀ i, enter i = namesIn max (list i))
    (delegates : List Value) :
    h.namesAmong enter delegates = namesIn max (delegates.flatMap (h.delegateEntries list)) := by
  induction delegates with
  | nil => rfl
  | cons delegate rest ih =>
    have hd : h.namesOf enter delegate = namesIn max (h.delegateEntries list delegate) := by
      cases delegate with
      | inst i => exact hs i
      | template t => exact hs t.target
      | record r => exact (namesIn_bindings ..).symm
      | _ => rfl
    rw [namesAmong, List.flatMap_cons, namesIn_append, hd, ih]

theorem namesAt_listing (depth : Depth) (i : InstanceId) :
    h.namesAt depth i = namesIn depth.max (h.listingWithin depth.remaining i) := by
  induction depth using Depth.down_induction generalizing i with
  | step depth ih =>
    have hb : ∀ j, ((depth.descend (h.inst i).name).bind fun below => h.namesAt below j) =
        namesIn depth.max (h.listingBelow (h.inst i).name depth j) := by
      intro j
      unfold listingBelow
      cases hd : depth.descend (h.inst i).name with
      | error e =>
        obtain rfl := Depth.descend_error hd
        rfl
      | ok below =>
        rw [← Depth.max_descend hd]
        exact ih _ below hd j
    rw [namesAt_eq, chainNames, listingWithin_eq, listingWith, namesIn_map_under, namesIn_append,
      namesIn_bindings, h.namesAmong_listing hb]
    rfl

/-- In a listing without markers, the entries that tell of a name are those
that list it. -/
theorem mem_names_iff {entries : List Entry} (hd : entries.findSome? Entry.tooDeep? = none) :
    name ∈ entries.filterMap Entry.name? ↔ ∃ value path slot,
      entries.find? (Entry.tells name) = some (.binding name value path slot) := by
  rw [List.findSome?_eq_none_iff] at hd
  rw [List.mem_filterMap]
  constructor
  · rintro ⟨entry, he, hn⟩
    have ht : entry.tells name = true := by
      cases entry with
      | tooDeep owner => rfl
      | binding other value path slot => simpa [Entry.name?, Entry.tells] using hn.symm
    obtain ⟨found, hf⟩ := Option.isSome_iff_exists.mp (List.find?_isSome.mpr ⟨entry, he, ht⟩)
    have hfound := List.find?_some hf
    cases found with
    | tooDeep owner => simpa [Entry.tooDeep?] using hd _ (List.mem_of_find?_eq_some hf)
    | binding other value path slot =>
      obtain rfl : name = other := by simpa [Entry.tells] using hfound
      exact ⟨value, path, slot, hf⟩
  · rintro ⟨value, path, slot, hf⟩
    exact ⟨_, List.mem_of_find?_eq_some hf, rfl⟩

theorem names_listing (i : InstanceId) :
    h.names i = namesIn (h.inst i).maxDepth (h.listing i) := by
  have hr : (h.root i).max = (h.inst i).maxDepth := Depth.max_root _
  rw [names, namesAt_listing, hr]
  rfl

theorem lookup_settled (hn : name ≠ SpecialName.super.text) (i : InstanceId) :
    Settled (h.inst i).maxDepth name (h.listing i) (h.lookup name i) := by
  have hs := h.lookupAt_settled hn (h.root i) i
  rwa [root, Depth.max_root] at hs

theorem mem_names_iff_found (hn : name ≠ SpecialName.super.text) {i : InstanceId}
    {names : List String} (hnames : h.names i = .ok names) :
    name ∈ names ↔ ∃ value, h.lookup name i = .ok (some value) := by
  have hs := h.lookup_settled hn i
  rw [names_listing, namesIn] at hnames
  split at hnames
  · cases hnames
  · rename_i hd
    cases hnames
    rw [mem_names_iff hd]
    constructor
    · rintro ⟨value, path, slot, he⟩
      rw [Settled, he] at hs
      exact ⟨value, hs⟩
    · rintro ⟨value, hv⟩
      have hfinal := hs.isFinal_eq
      rw [hv] at hfinal
      obtain ⟨entry, he⟩ := Option.isSome_iff_exists.mp hfinal.symm
      cases entry with
      | tooDeep owner => simp [Settled, he, hv, Entry.answer] at hs
      | binding other found path slot =>
        obtain rfl : name = other := by simpa [Entry.tells] using List.find?_some he
        exact ⟨found, path, slot, he⟩

/-- Looking up and enumerating are two views of one listing. The names of an
instance are those of its listing, in order, unless a delegate lies too deep.
A name is decided by the first entry that tells; if there is none, by where the
last delegates lead. So as long as the names can be collected, the names listed
are the names found. -/
theorem lookup_and_names_of_listing (i : InstanceId) :
    (match (h.listing i).findSome? Entry.tooDeep? with
      | some owner => h.names i = .error (.delegateDepth owner (h.inst i).maxDepth)
      | none => h.names i = .ok ((h.listing i).filterMap Entry.name?)) ∧
    ∀ name, name ≠ SpecialName.super.text →
      (match (h.listing i).find? (Entry.tells name) with
        | some (.binding _ value _ _) => h.lookup name i = .ok (some value)
        | some (.tooDeep owner) =>
          h.lookup name i = .error (.delegateDepth owner (h.inst i).maxDepth)
        | none => h.Undefined name i (h.lookup name i)) ∧
      ∀ names, h.names i = .ok names →
        (name ∈ names ↔ ∃ value, h.lookup name i = .ok (some value)) := by
  refine ⟨?_, fun name hn => ⟨?_, fun names hnames => h.mem_names_iff_found hn hnames⟩⟩
  · rw [names_listing, namesIn]
    split <;> rfl
  · have hs := h.lookup_settled hn i
    unfold Settled at hs
    cases he : (h.listing i).find? (Entry.tells name) with
    | none => exact h.lookupAt_undefined hn (h.root i) i he
    | some entry =>
      rw [he] at hs
      cases entry <;> exact hs

def layered : Heap where
  instances := #[
    { name := "Base", maxDepth := 8, members := .ofList [("x", .int 1), ("w", .int 4)] },
    { name := "Sub", maxDepth := 8, members := .ofList [("y", .int 2)],
      chain := ⟨[some (.record ⟨0⟩), some (.template ⟨0, ⟨0⟩⟩), some (.int 3)]⟩ }]
  records := #[{ fields := .ofList [("x", .bool true), ("z", .none)] }]
  nextSerial := 1

theorem lookup_and_names_layered :
    "x" ≠ SpecialName.super.text ∧ layered.names ⟨1⟩ = .ok ["y", "x", "z", "w", "x"] ∧
      layered.lookup "x" ⟨1⟩ = .ok (some (.bool true)) ∧
      ("x" ∈ ["y", "x", "z", "w", "x"] ↔ ∃ value, layered.lookup "x" ⟨1⟩ = .ok (some value)) := by
  have hx : "x" ≠ SpecialName.super.text := by decide
  have hnames : layered.names ⟨1⟩ = .ok ["y", "x", "z", "w", "x"] := rfl
  have hfound := (layered.lookup_and_names_of_listing ⟨1⟩).2 "x" hx
  have hfirst : (layered.listing ⟨1⟩).find? (Entry.tells "x") =
      some (.binding "x" (.bool true) [⟨1⟩] (.field ⟨0⟩)) := rfl
  rw [hfirst] at hfound
  exact ⟨hx, hnames, hfound.1, hfound.2 _ hnames⟩

end Heap

end Delegation

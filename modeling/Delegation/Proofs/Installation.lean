import Delegation.Proofs.Construction
import Delegation.Proofs.Lens

/-!
# Installing delegates

An instance takes a value as a delegate exactly if it is not frozen, does not lie
below the value, and the value's delegates nest within its bound; a rejection
changes nothing (`installation_exact`). The check counts levels as traversals do:
where the nesting stays within what is left of a bound, no traversal gets too deep
(`NestsWithin.findSome?_tooDeep`), so none that starts at the receiver does so in
the new level.
-/

namespace Delegation

namespace Heap

open Relation (ReflTransGen)

variable {h h' : Heap} {i j receiver : InstanceId} {name : String} {value : Value}

-- ---------------------------------------------------------------------------
-- Traversals within their bound
-- ---------------------------------------------------------------------------

/-- A marker in a listing comes from an instance right below. -/
theorem findSome?_listingWith {enter : InstanceId → List Entry}
    (he : ∀ j, h.Below i j → (enter j).findSome? Entry.tooDeep? = none) :
    (h.listingWith enter i).findSome? Entry.tooDeep? = none := by
  have hdelegates : ∀ delegate ∈ (h.inst i).chain.delegates,
      (h.delegateEntries enter delegate).findSome? Entry.tooDeep? = none := by
    intro delegate hd
    cases delegate with
    | inst j => exact he j ⟨_, hd, rfl⟩
    | template t => exact he t.target ⟨_, hd, rfl⟩
    | record r => exact findSome?_bindings ..
    | _ => rfl
  have hunder : Entry.tooDeep? ∘ Entry.under i = Entry.tooDeep? :=
    funext fun entry => Entry.tooDeep?_under i entry
  rw [listingWith, List.findSome?_map, hunder, List.findSome?_append, findSome?_bindings,
    Option.none_or, List.findSome?_eq_none_iff]
  intro entry hm
  obtain ⟨delegate, hd, hm⟩ := List.mem_flatMap.mp hm
  exact List.findSome?_eq_none_iff.mp (hdelegates delegate hd) entry hm

theorem NestsWithin.findSome?_tooDeep {levels : Nat} (hn : h.NestsWithin i levels) :
    (h.listingWithin levels i).findSome? Entry.tooDeep? = none := by
  induction levels generalizing i with
  | zero => exact findSome?_listingWith fun j hb => absurd hb (nestsWithin_zero.mp hn j)
  | succ levels ih => exact findSome?_listingWith fun j hb => ih (nestsWithin_succ.mp hn j hb)

theorem mem_delegates_of_indexed {chain : Chain} {entry : Nat × Value}
    (he : entry ∈ chain.indexed) : entry.2 ∈ chain.delegates := by
  rw [← chain.map_snd_indexed]
  exact List.mem_map_of_mem he

theorem not_tooDeep_mem_walkWith {enter : InstanceId → List Stop} {owner : String}
    (he : ∀ j, h.Below i j → .tooDeep owner ∉ enter j) : .tooDeep owner ∉ h.walkWith enter i := by
  intro hm
  rcases List.mem_cons.mp hm with hm | hm
  · cases hm
  · obtain ⟨⟨level, delegate⟩, hd, hm⟩ := List.mem_flatMap.mp hm
    rw [stopsBelow] at hm
    cases hj : delegate.instance? with
    | none => simp [hj] at hm
    | some j =>
      rw [hj] at hm
      obtain ⟨stop, hs, hstop⟩ := List.mem_map.mp hm
      cases stop with
      | entered k path => cases hstop
      | tooDeep other =>
        cases hstop
        exact he j ⟨delegate, mem_delegates_of_indexed hd, hj⟩ hs

theorem NestsWithin.not_tooDeep_mem_walk {levels : Nat} (hn : h.NestsWithin i levels)
    (owner : String) : .tooDeep owner ∉ h.walkWithin levels i := by
  induction levels generalizing i with
  | zero => exact not_tooDeep_mem_walkWith fun j hb => absurd hb (nestsWithin_zero.mp hn j)
  | succ levels ih =>
    exact not_tooDeep_mem_walkWith fun j hb => ih (nestsWithin_succ.mp hn j hb)

section
variable {depth : Depth} (hn : h.NestsWithin i depth.remaining)

include hn

/-- The entry that tells of a name is no marker. -/
theorem NestsWithin.telling {entry : Entry}
    (he : (h.listingWithin depth.remaining i).find? (Entry.tells name) = some entry) :
    ∃ held path slot, entry = .binding name held path slot := by
  have hclear := List.findSome?_eq_none_iff.mp hn.findSome?_tooDeep entry
    (List.mem_of_find?_eq_some he)
  have htells := List.find?_some he
  cases entry with
  | tooDeep owner => cases hclear
  | binding other held path slot =>
    obtain rfl : name = other := by simpa [Entry.tells] using htells
    exact ⟨held, path, slot, rfl⟩

theorem NestsWithin.lookupAt {e : Error} (hl : h.lookupAt name depth i = .error e) :
    e.isDepth = false := by
  by_cases hname : name = SpecialName.super.text
  · rw [lookupAt_eq, if_pos hname] at hl
    cases hl
  · have hs := h.lookupAt_settled hname depth i
    rw [hl, Settled] at hs
    cases he : (h.listingWithin depth.remaining i).find? (Entry.tells name) with
    | none => simpa [he, isFinal] using hs
    | some entry =>
      obtain ⟨held, path, slot, rfl⟩ := hn.telling he
      rw [he] at hs
      cases hs

theorem NestsWithin.assignAt (hname : name ≠ SpecialName.super.text) {e : Error}
    (ha : h.assignAt name value depth i = .error e) : e.isDepth = false := by
  rw [h.assignAt_listing hname] at ha
  split at ha
  · cases ha
    rfl
  · split at ha
    case h_1 => cases ha
    case h_2 entry he =>
      obtain ⟨held, path, slot, rfl⟩ := hn.telling he
      cases hp : path.find? fun k => (h.inst k).frozen with
      | some k =>
        rw [h.overwrite_blocked hp] at ha
        cases ha
        rfl
      | none =>
        cases slot with
        | member holder =>
          rw [h.overwrite_member hp] at ha
          cases ha
        | field r =>
          rw [h.overwrite_field hp] at ha
          cases ha
          rfl

theorem NestsWithin.namesAt : ∃ names, h.namesAt depth i = .ok names := by
  rw [namesAt_listing, namesIn, hn.findSome?_tooDeep]
  exact ⟨_, rfl⟩

theorem NestsWithin.initializerAt : ∃ found, h.initializerAt depth i = .ok found := by
  rw [initializerAt_walk]
  cases hs : (h.walkWithin depth.remaining i).find? h.endsAt with
  | none => exact ⟨_, rfl⟩
  | some stop =>
    cases stop with
    | entered holder path => exact ⟨_, rfl⟩
    | tooDeep owner => exact absurd (List.mem_of_find?_eq_some hs) (hn.not_tooDeep_mem_walk owner)

end

-- ---------------------------------------------------------------------------
-- One level of an instance
-- ---------------------------------------------------------------------------

/-- What a traversal that starts at an instance gives in one right below it. -/
def oneDown {β : Type} (h : Heap) (i : InstanceId) (go : Depth → InstanceId → Except Error β)
    (j : InstanceId) : Except Error β :=
  ((h.root i).descend (h.inst i).name).bind fun below => go below j

/-- No traversal that starts at an instance gets too deep in a level of it that
holds the given delegate. -/
structure NeverTooDeep (h : Heap) (i : InstanceId) (delegate : Value) : Prop where
  lookup : ∀ name e, h.attrOf name (h.oneDown i (h.lookupAt name)) delegate = .error e →
    e.isDepth = false
  /-- Asking whether the level is where a write goes. -/
  definer : ∀ name e, h.definerAmong name (h.inst i).name (h.root i) [delegate] = .error e →
    e.isDepth = false
  /-- A write that goes on in the level; one of `super` stays at the instance. -/
  write : ∀ name value j e, name ≠ SpecialName.super.text → delegate.instance? = some j →
    h.oneDown i (h.assignAt name value) j = .error e → e.isDepth = false
  names : ∃ names, h.namesOf (h.oneDown i h.namesAt) delegate = .ok names
  initializer : ∀ level, ∃ found,
    initializerAmong i (h.oneDown i h.initializerAt) [(level, delegate)] = .ok found

theorem MayPlace.entered (ha : h.Acyclic) (hm : h.MayPlace receiver value)
    (hj : value.instance? = some j) :
    ∃ below, (h.root receiver).descend (h.inst receiver).name = .ok below ∧
      h.NestsWithin j below.remaining := by
  have hfits := (hm j hj).2
  cases hd : (h.root receiver).descend (h.inst receiver).name with
  | error e => exact absurd hfits (not_fitsUnder hd)
  | ok below => exact ⟨below, rfl, (ha.fitsUnder_iff hd).mp hfits⟩

/-- No traversal goes into a value that is neither an instance nor a template. -/
theorem neverTooDeep_plain (hj : value.instance? = none) : h.NeverTooDeep i value where
  lookup name e hl := by cases value <;> simp_all [Value.instance?, attrOf] <;> subst hl <;> rfl
  definer name e hd := by
    simp only [definerAmong, hj] at hd
    split at hd <;> cases hd
  write _ _ j _ _ hk _ := by
    rw [hj] at hk
    cases hk
  names := by cases value <;> simp_all [Value.instance?, namesOf]
  initializer level := by simp [initializerAmong, hj]

theorem oneDown_eq {β : Type} {below : Depth}
    (hd : (h.root i).descend (h.inst i).name = .ok below)
    (go : Depth → InstanceId → Except Error β) (j : InstanceId) :
    h.oneDown i go j = go below j := by
  rw [oneDown, hd]
  rfl

theorem neverTooDeep_entered {below : Depth} (hj : value.instance? = some j)
    (hd : (h.root i).descend (h.inst i).name = .ok below)
    (hn : h.NestsWithin j below.remaining) : h.NeverTooDeep i value where
  lookup name e hl := by
    rw [h.attrOf_of_instance hj, oneDown_eq hd] at hl
    exact hn.lookupAt hl
  definer name e hl := by
    simp only [definerAmong, hj, hd, bind, Except.bind] at hl
    cases hlook : h.lookupAt name below j with
    | error e' => simp [hlook, hn.lookupAt hlook] at hl
    | ok found => cases found <;> simp [hlook] at hl
  write name held k e hname hk hw := by
    obtain rfl : j = k := Option.some.inj (hj.symm.trans hk)
    rw [oneDown_eq hd] at hw
    exact hn.assignAt hname hw
  names := by
    obtain ⟨names, hnames⟩ := hn.namesAt
    rw [← oneDown_eq hd h.namesAt] at hnames
    exact ⟨names, by cases value <;> simp_all [Value.instance?, namesOf]⟩
  initializer level := by
    obtain ⟨found, hfound⟩ := hn.initializerAt
    rw [← oneDown_eq hd h.initializerAt] at hfound
    cases found <;> simp [initializerAmong, hj, hfound, bind, Except.bind, pure, Except.pure]

-- ---------------------------------------------------------------------------
-- Installations
-- ---------------------------------------------------------------------------

/-- What a level holds when a value is put into it: the value none clears it. -/
def levelOf (value : Value) : Option Value := if value = .none then none else some value

theorem levels_setHead (chain : Chain) (value : Value) :
    (chain.setHead value).levels = levelOf value :: chain.levels.tail := by
  obtain ⟨levels⟩ := chain
  cases levels <;> cases value <;> rfl

/-- The second heap differs from the first in the chain of one instance only, which
has the given levels. -/
structure OnlyChain (h h' : Heap) (receiver : InstanceId) (levels : List (Option Value)) :
    Prop where
  installed : h'.inst receiver = { h.inst receiver with chain := ⟨levels⟩ }
  otherInstances : ∀ i, i ≠ receiver → h'.inst i = h.inst i
  count : h'.instances.size = h.instances.size
  records : h'.records = h.records
  serials : h'.nextSerial = h.nextSerial

theorem setChain_onlyChain (hr : receiver.index < h.instances.size) (chain : Chain) :
    h.OnlyChain (h.setChain receiver chain) receiver chain.levels where
  installed := by simp [setChain, inst_modify, hr]
  otherInstances i hne := by simp [setChain, inst_modify, Ne.symm hne]
  count := by simp [setChain, modifyInst]
  records := rfl
  serials := rfl

/-- What an attempt to install a value as a delegate has to give and to leave, if
the receiver's chain is to have the given levels afterwards. -/
structure Installs (h : Heap) (receiver : InstanceId) (value : Value)
    (levels : List (Option Value)) (result : Except Error Unit) (h' : Heap) : Prop where
  accepted : result = .ok () ↔ (h.inst receiver).frozen = false ∧ h.MayPlace receiver value
  frozen : (h.inst receiver).frozen = true →
    result = .error (.frozen (h.inst receiver).name SpecialName.super.text)
  rejected : (h.inst receiver).frozen = false → ∀ e, result = .error e →
    e = .delegateCycle (h.inst receiver).name ∨
      ∃ owner, e = .delegateDepth owner (h.inst receiver).maxDepth
  /-- A rejection of what nests within the bound is for the cycle. -/
  cycle : (h.inst receiver).frozen = false → ∀ e j, result = .error e →
    value.instance? = some j → h.FitsUnder (h.inst receiver).maxDepth j →
    e = .delegateCycle (h.inst receiver).name
  /-- A rejection of what the receiver is not below is for the depth. -/
  tooDeep : (h.inst receiver).frozen = false → ∀ e j, result = .error e →
    value.instance? = some j → ¬ ReflTransGen h.Below j receiver →
    ∃ owner, e = .delegateDepth owner (h.inst receiver).maxDepth
  unchanged : ∀ e, result = .error e → h' = h
  changed : result = .ok () → h.OnlyChain h' receiver levels
  neverTooDeep : result = .ok () → h'.NeverTooDeep receiver value

theorem installs_frozen (ho : (h.inst receiver).frozen = true) (levels : List (Option Value)) :
    h.Installs receiver value levels
      (.error (.frozen (h.inst receiver).name SpecialName.super.text)) h where
  accepted := by simp [ho]
  frozen _ := rfl
  rejected hf := absurd ho (by simp [hf])
  cycle hf := absurd ho (by simp [hf])
  tooDeep hf := absurd ho (by simp [hf])
  unchanged _ _ := rfl
  changed hr := by cases hr
  neverTooDeep hr := by cases hr

theorem installs_rejected (ha : h.Acyclic) (ho : (h.inst receiver).frozen = false) {e : Error}
    (hc : h.checkPlacement receiver value = .error e) (levels : List (Option Value)) :
    h.Installs receiver value levels (.error e) h where
  accepted := by
    constructor
    · intro hr
      cases hr
    · intro hm
      rw [ha.checkPlacement_ok_iff.mpr hm.2] at hc
      cases hc
  frozen hf := absurd hf (by simp [ho])
  rejected _ e' he := by
    cases he
    obtain ⟨j, hj⟩ := instance?_of_checkPlacement_error hc
    exact (ha.checkPlacement_error hj hc).imp And.left And.left
  cycle _ e' j he hj hfits := by
    cases he
    rcases ha.checkPlacement_error hj hc with ⟨hcycle, -⟩ | ⟨-, hdeep⟩
    · exact hcycle
    · exact absurd hfits hdeep
  tooDeep _ e' j he hj hreach := by
    cases he
    rcases ha.checkPlacement_error hj hc with ⟨-, hmet⟩ | ⟨hdeep, -⟩
    · exact absurd hmet hreach
    · exact hdeep
  unchanged _ _ := rfl
  changed hr := by cases hr
  neverTooDeep hr := by cases hr

/-- What lies below the new delegate does not change, since the receiver does not. -/
theorem nestsWithin_setChain {chain : Chain} {levels : Nat}
    (hr : ¬ ReflTransGen h.Below j receiver) :
    (h.setChain receiver chain).NestsWithin j levels ↔ h.NestsWithin j levels := by
  refine nestsWithin_congr fun k hk => h.chain_setChain_of_ne ?_
  rintro rfl
  exact hr hk

theorem installs_accepted (ha : h.Acyclic) (hr : receiver.index < h.instances.size)
    (ho : (h.inst receiver).frozen = false) (hc : h.checkPlacement receiver value = .ok ())
    (chain : Chain) :
    h.Installs receiver value chain.levels (.ok ()) (h.setChain receiver chain) where
  accepted := ⟨fun _ => ⟨ho, ha.checkPlacement_ok_iff.mp hc⟩, fun _ => rfl⟩
  frozen hf := absurd hf (by simp [ho])
  rejected _ e he := by cases he
  cycle _ e j he := by cases he
  tooDeep _ e j he := by cases he
  unchanged e he := by cases he
  changed _ := setChain_onlyChain hr chain
  neverTooDeep _ := by
    have hm := ha.checkPlacement_ok_iff.mp hc
    cases hj : value.instance? with
    | none => exact neverTooDeep_plain hj
    | some j =>
      obtain ⟨below, hd, hn⟩ := hm.entered ha hj
      have hnests : (h.setChain receiver chain).NestsWithin j below.remaining :=
        (nestsWithin_setChain (hm j hj).1).mpr hn
      refine neverTooDeep_entered hj ?_ hnests
      simpa [root] using hd

/-- The checks of an installation, then the new chain. -/
theorem install_installs (ha : h.Acyclic) (hr : receiver.index < h.instances.size)
    {attempt : Except Error Heap} {chain : Chain} {levels : List (Option Value)}
    (hlevels : chain.levels = levels)
    (hattempt : attempt = (do
      h.checkOpen SpecialName.super.text receiver
      h.checkPlacement receiver value
      return h.setChain receiver chain)) :
    h.Installs receiver value levels (attempt.map fun _ => ()) (attempt.toOption.getD h) := by
  subst hlevels hattempt
  unfold checkOpen
  cases ho : (h.inst receiver).frozen with
  | true => exact installs_frozen ho _
  | false =>
    cases hc : h.checkPlacement receiver value with
    | error e => exact installs_rejected ha ho hc _
    | ok u => exact installs_accepted ha hr ho hc chain

end Heap

-- ---------------------------------------------------------------------------
-- Machines
-- ---------------------------------------------------------------------------

namespace Machine

open Relation (ReflTransGen)

variable {γ σ : Type} {host : Host γ σ} {m : Machine γ σ}

/-- An installation is accepted exactly if the receiver is not frozen, does not lie
below the value, and the value nests within the receiver's bound; then only the
receiver's chain changes, and no traversal gets too deep in the new level.
Otherwise nothing changes. Appending a level, overwriting the head and writing
`super` differ in the levels they leave, and in nothing else. -/
theorem installation_exact (hm : m.Reachable host) (fuel : Nat) {receiver : InstanceId}
    (hr : receiver.index < m.heap.instances.size) (value : Value) :
    (∃ result h', Eval.perform host fuel (.addDelegate receiver value) m =
        .ok (result, { m with heap := h' }) ∧
      m.heap.Installs receiver value ((m.heap.inst receiver).chain.levels ++ [some value])
        result h') ∧
    (∃ result h', Eval.perform host fuel (.setSuper receiver value) m =
        .ok (result, { m with heap := h' }) ∧
      m.heap.Installs receiver value
        (Heap.levelOf value :: (m.heap.inst receiver).chain.levels.tail) result h') ∧
    ∃ result h' trace,
      Eval.perform host fuel (.write (.inst receiver) SpecialName.super.text value) m =
        .ok (result, { m with heap := h', trace }) ∧
      m.heap.Installs receiver value
        (Heap.levelOf value :: (m.heap.inst receiver).chain.levels.tail) result h' := by
  have ha := hm.acyclic
  have hhead := Heap.levels_setHead (m.heap.inst receiver).chain value
  have happend := Eval.run_commit_heap (fun h => h.addDelegate receiver value) m
  have hsuper := Eval.run_commit_heap (fun h => h.setSuper receiver value) m
  obtain ⟨trace, hwrite⟩ := Eval.run_assign receiver SpecialName.super.text value m
  rw [Heap.assigned, Heap.assign_super] at hwrite
  exact ⟨⟨_, _, happend, Heap.install_installs ha hr rfl rfl⟩,
    ⟨_, _, hsuper, Heap.install_installs ha hr hhead rfl⟩,
    ⟨_, _, trace, hwrite, Heap.install_installs ha hr hhead rfl⟩⟩

-- A third instance beside the widget and its base, with room for one level below it.

def makeNarrow : Program Unit Unit InstanceId := Program.run (.newInstance "Narrow" 1)

theorem installation_exact_narrow :
    ∃ m, m.Reachable idle ∧ 2 < m.heap.instances.size ∧
      Eval.perform idle 1 (.addDelegate ⟨2⟩ (.inst ⟨1⟩)) m =
        .ok (.error (.delegateDepth "Widget" 1), m) ∧
      ¬ m.heap.MayPlace ⟨2⟩ (.inst ⟨1⟩) ∧
      ∃ h', Eval.perform idle 1 (.addDelegate ⟨2⟩ (.inst ⟨0⟩)) m =
          .ok (.ok (), { m with heap := h' }) ∧
        m.heap.OnlyChain h' ⟨2⟩ [some (.inst ⟨0⟩)] ∧ h'.NeverTooDeep ⟨2⟩ (.inst ⟨0⟩) := by
  obtain ⟨m, hnarrow, hsize, hopen, hlevels, hdeep, h₀, hflat⟩ : ∃ m,
      Eval.run idle 1 makeNarrow (widget false) = .ok (.ok ⟨2⟩, m) ∧
      2 < m.heap.instances.size ∧ (m.heap.inst ⟨2⟩).frozen = false ∧
      (m.heap.inst ⟨2⟩).chain.levels = [] ∧
      Eval.perform idle 1 (.addDelegate ⟨2⟩ (.inst ⟨1⟩)) m =
        .ok (.error (.delegateDepth "Widget" 1), m) ∧
      ∃ h₀, Eval.perform idle 1 (.addDelegate ⟨2⟩ (.inst ⟨0⟩)) m =
        .ok (.ok (), { m with heap := h₀ }) :=
    ⟨_, rfl, by decide, rfl, rfl, rfl, _, rfl⟩
  have hm : m.Reachable idle := widget_reachable.steps (.single (.run 1 makeNarrow hnarrow))
  obtain ⟨⟨result, h₁, hrun, hrejected⟩, -, -⟩ := installation_exact hm 1 hsize (.inst ⟨1⟩)
  obtain ⟨⟨result', h₂, hrun', haccepted⟩, -, -⟩ := installation_exact hm 1 hsize (.inst ⟨0⟩)
  obtain rfl : .error (.delegateDepth "Widget" 1) = result :=
    (Prod.mk.inj (Except.ok.inj (hdeep.symm.trans hrun))).1
  obtain rfl : .ok () = result' := (Prod.mk.inj (Except.ok.inj (hflat.symm.trans hrun'))).1
  refine ⟨m, hm, hsize, hdeep, fun hmay => ?_, h₂, hrun', ?_, haccepted.neverTooDeep rfl⟩
  · cases hrejected.accepted.mpr ⟨hopen, hmay⟩
  · simpa [hlevels] using haccepted.changed rfl

end Machine

end Delegation

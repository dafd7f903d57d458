import Delegation.Proofs.Building
import Delegation.Proofs.Collected
import Delegation.Proofs.Lens

/-!
# What is written to own members

An operation of the heap puts values into own members, one after the other, or into
none (`Writes`): a write into at most one, a build into those of the new instance. As
no member is written twice by one operation, each then holds what was written to it,
and all others hold what they held (`Writes.setsOnly`).
-/

namespace Delegation

/-- A value that goes into an own member of an instance. -/
structure MemberWrite where
  holder : InstanceId
  name : String
  value : Value
  deriving DecidableEq

namespace MemberWrite

variable (i : InstanceId)

/-- What goes into the members of one instance, in order. -/
def into (writes : List MemberWrite) : List (String × Value) :=
  writes.filterMap fun w => if w.holder = i then some (w.name, w.value) else none

/-- No member is written twice. -/
def Apart (writes : List MemberWrite) : Prop := ∀ i, ((into i writes).map Prod.fst).Nodup

@[simp] theorem into_append (writes later : List MemberWrite) :
    into i (writes ++ later) = into i writes ++ into i later :=
  List.filterMap_append

variable {i} {writes : List MemberWrite} {name : String} {value : Value}

theorem mem_into : (name, value) ∈ into i writes ↔ ⟨i, name, value⟩ ∈ writes := by
  simp only [into, List.mem_filterMap, Option.ite_none_right_eq_some, Option.some.injEq,
    Prod.mk.injEq]
  constructor
  · rintro ⟨w, hw, rfl, rfl, rfl⟩
    exact hw
  · exact fun hw => ⟨_, hw, rfl, rfl, rfl⟩

theorem apart_nil : Apart [] := fun _ => List.nodup_nil

theorem apart_singleton (w : MemberWrite) : Apart [w] := fun i => by
  by_cases hi : w.holder = i <;> simp [into, hi]

end MemberWrite

/-- What the members of a new instance hold that are given values in turn: callables
are bound to the instance, each with a serial of its own. -/
def memberWrites (owner : InstanceId) : Nat → List (String × Value) → List MemberWrite
  | _, [] => []
  | serial, (name, value) :: rest =>
    if value.isBindable then
      ⟨owner, name, .method serial owner name value⟩ :: memberWrites owner (serial + 1) rest
    else ⟨owner, name, value⟩ :: memberWrites owner serial rest

namespace Heap

/-- Own members are what some writes, one after the other, make of them. -/
def Writes (h : Heap) (writes : List MemberWrite) (h' : Heap) : Prop :=
  ∀ i, (h'.inst i).members = (h.inst i).members.insertAll (MemberWrite.into i writes)

/-- Each member that is written holds what was written, every other what it held. -/
structure SetsOnly (h : Heap) (writes : List MemberWrite) (h' : Heap) : Prop where
  written : ∀ w ∈ writes, (h'.inst w.holder).members.get? w.name = some w.value
  others : ∀ i name, (∀ w ∈ writes, w.holder = i → w.name ≠ name) →
    (h'.inst i).members.get? name = (h.inst i).members.get? name

variable {h h' h'' g g' : Heap} {writes later : List MemberWrite} {i owner : InstanceId}
  {name builtin : String} {value : Value} {members : List (String × Value)} {supply : Supply}

-- ---------------------------------------------------------------------------
-- Sequences of writes
-- ---------------------------------------------------------------------------

theorem Writes.refl (h : Heap) : h.Writes [] h := fun _ => rfl

theorem Writes.trans (hw : h.Writes writes h') (hl : h'.Writes later h'') :
    h.Writes (writes ++ later) h'' := fun i => by
  rw [hl i, hw i, MemberWrite.into_append, NameMap.insertAll_append]

theorem Writes.setsOnly (hw : h.Writes writes h') (ha : MemberWrite.Apart writes) :
    h.SetsOnly writes h' where
  written w hmem := by
    have hinto : (w.name, w.value) ∈ MemberWrite.into w.holder writes :=
      MemberWrite.mem_into.mpr hmem
    rw [hw, NameMap.get?_insertAll, lookup_reverse (ha w.holder),
      lookup_of_mem (ha w.holder) hinto, Option.some_or]
  others i name hne := by
    rw [hw]
    refine NameMap.get?_insertAll_of_not_mem fun hmem => ?_
    obtain ⟨⟨_, value⟩, hinto, rfl⟩ := List.mem_map.mp hmem
    exact hne _ (MemberWrite.mem_into.mp hinto) rfl rfl

-- ---------------------------------------------------------------------------
-- Operations that write nothing
-- ---------------------------------------------------------------------------

theorem setChain_writes (chain : Chain) : h.Writes [] (h.setChain i chain) :=
  fun _ => h.members_setChain

theorem takeSerial_writes : h.Writes [] h.takeSerial.2 := fun _ => rfl

theorem addInstance_writes (name : String) (maxDepth : Nat) :
    h.Writes [] (h.addInstance name maxDepth).2 := by
  intro i
  rw [inst_addInstance]
  split
  case isTrue hi => rw [inst_of_le h (Nat.le_of_eq hi.symm)]; rfl
  case isFalse => rfl

theorem freezeAll_writes (stack : List Value) : h.Writes [] (h.freezeAll stack).1 := by
  intro i
  rw [(Freezes.freezeAll h stack).instances i]
  rfl

theorem install_writes {chain : Chain}
    (hi : (do
      h.checkOpen SpecialName.super.text i
      h.checkPlacement i value
      return h.setChain i chain) = Except.ok h') : h.Writes [] h' := by
  obtain ⟨-, -, hi⟩ := bind_ok.mp hi
  obtain ⟨-, -, hi⟩ := bind_ok.mp hi
  cases hi
  exact setChain_writes chain

theorem addDelegate_writes (ha : h.addDelegate i value = .ok h') : h.Writes [] h' :=
  install_writes ha

theorem setSuper_writes (hs : h.setSuper i value = .ok h') : h.Writes [] h' :=
  install_writes hs

theorem fillLevel_writes {index : Nat} {expected : Value}
    (hf : h.fillLevel i index expected value = .ok h') : h.Writes [] h' := by
  unfold fillLevel at hf
  split at hf
  · exact install_writes hf
  · cases hf
    exact .refl h

-- ---------------------------------------------------------------------------
-- Writes
-- ---------------------------------------------------------------------------

theorem setMember_writes (hi : owner.index < h.instances.size) (name : String) (value : Value) :
    h.Writes [⟨owner, name, value⟩] (h.setMember owner name value) := by
  intro i
  rw [setMember, inst_modify]
  by_cases ho : owner = i
  · simp [MemberWrite.into, NameMap.insertAll, ho, ho ▸ hi]
  · simp [MemberWrite.into, ho]

/-- The member that a write of an attribute goes to, if it goes to one. -/
def attributeWrites (h : Heap) (target : Value) (name : String) (value : Value) :
    List MemberWrite :=
  match target.instance? with
  | none => []
  | some i =>
    if name = SpecialName.super.text then []
    else
      match h.writeHolder name i with
      | .ok holder => [⟨holder, name, value⟩]
      | .error _ => []

theorem apart_attributeWrites (h : Heap) (target : Value) (name : String) (value : Value) :
    MemberWrite.Apart (h.attributeWrites target name value) := by
  unfold attributeWrites
  split
  · exact MemberWrite.apart_nil
  split
  · exact MemberWrite.apart_nil
  split
  · exact MemberWrite.apart_singleton _
  · exact MemberWrite.apart_nil

/-- The holder of a member that is written exists. -/
theorem lt_of_writeHolder (hi : i.index < h.instances.size)
    (hw : h.writeHolder name i = .ok owner) : owner.index < h.instances.size := by
  obtain ⟨-, ⟨-, rfl⟩ | ⟨held, path, he, -⟩⟩ := h.writeHolder_ok hw
  · exact hi
  · obtain ⟨-, -, -, hv⟩ := h.route_of_telling (h.root i) he
    exact h.lt_of_held hv

theorem write_writes {target : Value} (hk : h.Knows target)
    (hw : h.write target name value = .ok h') :
    h.Writes (h.attributeWrites target name value) h' := by
  unfold write at hw
  unfold attributeWrites
  cases ht : target.instance? with
  | none =>
    rw [ht] at hw
    cases hw
  | some i =>
    rw [ht] at hw
    dsimp only at hw ⊢
    by_cases hn : name = SpecialName.super.text
    · subst hn
      rw [if_pos rfl]
      rw [assign_super] at hw
      exact setSuper_writes hw
    · rw [if_neg hn]
      obtain ⟨holder, hholder, rfl⟩ := h.assign_ok hn hw
      rw [hholder]
      exact setMember_writes (lt_of_writeHolder (hk.instance? ht) hholder) name value

-- ---------------------------------------------------------------------------
-- Builds
-- ---------------------------------------------------------------------------

section
variable {serial : Nat}

theorem into_memberWrites_of_ne (hne : i ≠ owner) :
    MemberWrite.into i (memberWrites owner serial members) = [] := by
  induction members generalizing serial with
  | nil => rfl
  | cons member rest ih =>
    obtain ⟨name, value⟩ := member
    unfold memberWrites
    split <;> simpa [MemberWrite.into, hne.symm] using ih

theorem names_memberWrites :
    (MemberWrite.into owner (memberWrites owner serial members)).map Prod.fst =
      members.map Prod.fst := by
  induction members generalizing serial with
  | nil => rfl
  | cons member rest ih =>
    obtain ⟨name, value⟩ := member
    unfold memberWrites
    split <;> simpa [MemberWrite.into] using ih

theorem apart_memberWrites (hd : (members.map Prod.fst).Nodup) :
    MemberWrite.Apart (memberWrites owner serial members) := fun i => by
  by_cases hi : i = owner
  · subst hi
    rwa [names_memberWrites]
  · rw [into_memberWrites_of_ne hi]
    exact List.nodup_nil

end

/-- Members have been added to an instance, each under a new name. -/
structure Supplied (g : Heap) (owner : InstanceId) (members : List (String × Value)) (g' : Heap) :
    Prop where
  writes : g.Writes (memberWrites owner g.nextSerial members) g'
  fresh : ∀ member ∈ members, member.1 ∉ (g.inst owner).members.names
  distinct : (members.map Prod.fst).Nodup
  count : g'.instances.size = g.instances.size
  serials : ∀ rest, memberWrites owner g.nextSerial (members ++ rest) =
    memberWrites owner g.nextSerial members ++ memberWrites owner g'.nextSerial rest

namespace Supplied

theorem nothing (hw : g.Writes [] g') (hc : g'.instances.size = g.instances.size)
    (hs : g'.nextSerial = g.nextSerial) : g.Supplied owner [] g' where
  writes := hw
  fresh := nofun
  distinct := List.nodup_nil
  count := hc
  serials rest := by rw [hs]; rfl

theorem mem_names (hs : g.Supplied owner members g') : name ∈ (g'.inst owner).members.names ↔
    name ∈ (g.inst owner).members.names ∨ name ∈ members.map Prod.fst := by
  rw [hs.writes, (NameMap.collects_insertAll _ _).names, List.map_append, List.mem_append,
    names_memberWrites]
  rfl

theorem append {more : List (String × Value)} (hs : g.Supplied owner members g')
    (hm : g'.Supplied owner more h) : g.Supplied owner (members ++ more) h where
  writes := by
    rw [hs.serials]
    exact hs.writes.trans hm.writes
  fresh member hmem := by
    rcases List.mem_append.mp hmem with hmem | hmem
    · exact hs.fresh member hmem
    · exact fun hn => hm.fresh member hmem (hs.mem_names.mpr (.inl hn))
  distinct := by
    rw [List.map_append]
    refine List.nodup_append.mpr ⟨hs.distinct, hm.distinct, ?_⟩
    rintro name hname _ hother rfl
    obtain ⟨member, hmem, rfl⟩ := List.mem_map.mp hother
    exact hm.fresh member hmem (hs.mem_names.mpr (.inr hname))
  count := hm.count.trans hs.count
  serials rest := by
    rw [List.append_assoc, hs.serials, hm.serials, ← List.append_assoc, ← hs.serials]

end Supplied

/-- Binding a callable takes a serial and writes nothing yet. -/
theorem bindMember_writes (g : Heap) (owner : InstanceId) (name : String) (value : Value) :
    g.Writes [] (g.bindMember owner name value).2 ∧
      (g.bindMember owner name value).2.instances.size = g.instances.size ∧
      ∀ rest, memberWrites owner g.nextSerial ((name, value) :: rest) =
        ⟨owner, name, (g.bindMember owner name value).1⟩ ::
          memberWrites owner (g.bindMember owner name value).2.nextSerial rest := by
  cases value with
  | function f => exact ⟨takeSerial_writes, rfl, fun _ => rfl⟩
  | method serial inner declared callee => exact ⟨takeSerial_writes, rfl, fun _ => rfl⟩
  | _ => exact ⟨.refl g, rfl, fun _ => rfl⟩

theorem supplyMember_supplied (ho : owner.index < g.instances.size) {member : String × Value}
    (hs : g.supplyMember builtin owner member = .ok g') : g.Supplied owner [member] g' := by
  obtain ⟨name, value⟩ := member
  obtain ⟨hbound, hcount, hserials⟩ := bindMember_writes g owner name value
  unfold Heap.supplyMember at hs
  dsimp only at hs
  split at hs
  · cases hs
  case isFalse hnew =>
    cases hs
    refine ⟨?_, ?_, List.nodup_singleton _, ?_, fun rest => ?_⟩
    · rw [hserials]
      exact hbound.trans (setMember_writes (hcount ▸ ho) name _)
    · simpa [← NameMap.contains_iff] using hnew
    · rw [← hcount]
      simp [setMember, modifyInst]
    · rw [List.singleton_append, hserials, hserials]
      rfl

theorem addDelegate_supplied (ha : g.addDelegate owner value = .ok g') :
    g.Supplied owner [] g' := by
  obtain ⟨-, -, hset⟩ := bind_ok.mp ha
  obtain ⟨-, -, hset⟩ := bind_ok.mp hset
  cases hset
  exact .nothing (setChain_writes _) (by simp [setChain, modifyInst]) rfl

theorem takeSupply_supplied (ho : owner.index < g.instances.size)
    (ht : g.takeSupply builtin owner supply = .ok g') :
    g.Supplied owner (Supply.members [supply]) g' := by
  cases supply with
  | keyword name value => exact supplyMember_supplied ho ht
  | positional value =>
    have hcallable (hb : value.isBindable = true)
        (hs : (if (memberName value).isEmpty then .error (.template builtin .unnamedCallable)
          else g.supplyMember builtin owner (memberName value, value)) = Except.ok g') :
        g.Supplied owner (Supply.members [.positional value]) g' := by
      split at hs
      · cases hs
      · simpa [Supply.members, Supply.member?, hb] using supplyMember_supplied ho hs
    cases value with
    | inst i => exact addDelegate_supplied ht
    | template t => exact addDelegate_supplied ht
    | record r => exact addDelegate_supplied ht
    | function f => exact hcallable rfl ht
    | method serial inner declared callee => exact hcallable rfl ht
    | _ => cases ht

theorem foldlM_supplied {supplies : List Supply} (ho : owner.index < g.instances.size)
    (hf : supplies.foldlM (takeSupply builtin owner) g = .ok g') :
    g.Supplied owner (Supply.members supplies) g' := by
  induction supplies generalizing g with
  | nil =>
    cases hf
    exact .nothing (.refl _) rfl rfl
  | cons supply rest ih =>
    rw [List.foldlM_cons] at hf
    obtain ⟨middle, ht, hf⟩ := bind_ok.mp hf
    have hfirst := takeSupply_supplied ho ht
    have hrest := ih (hfirst.count ▸ ho) hf
    have hsplit : Supply.members (supply :: rest) =
        Supply.members [supply] ++ Supply.members rest :=
      List.filterMap_append (l := [supply])
    rw [hsplit]
    exact hfirst.append hrest

/-- The members of the instance that a build makes. -/
def buildWrites (h : Heap) (arguments : Arguments) : List MemberWrite :=
  memberWrites ⟨h.instances.size⟩ h.nextSerial (Supply.members arguments.supplies)

theorem build_writes {settings : Settings} {arguments : Arguments} {template : Template}
    (hb : h.build settings arguments = .ok (template, h')) :
    h.Writes (h.buildWrites arguments) h' ∧ MemberWrite.Apart (h.buildWrites arguments) := by
  have hname := h.templateName_settles settings arguments
  cases hn : h.templateName settings.builtinName arguments.positional with
  | error e =>
    rw [build, hn] at hb
    cases hb
  | ok named =>
    obtain ⟨name, values⟩ := named
    rw [hn] at hname
    rw [build_eq hname.1 hn] at hb
    obtain ⟨g, hf, hb⟩ := bind_ok.mp hb
    cases hb
    have hsupplied := foldlM_supplied (by simp [addInstance]) hf
    exact ⟨(addInstance_writes name settings.maxDelegateDepth).trans hsupplied.writes,
      apart_memberWrites hsupplied.distinct⟩

end Heap

end Delegation

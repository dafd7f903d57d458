import Delegation.Proofs.Supplies

/-!
# What the builder builds

The builder goes through its arguments once, adding members and delegates before
it has seen the rest. What it has made after some of them is what these alone call
for (`Assembled`), and the next argument either goes in or is the first that is
wrong (`Assembled.step`). So a build succeeds exactly if its arguments are ones to
take, and then makes what they say (`build_exact`). A delegate given to it exists
already and does not reach the new instance: the check before an installation can
only find it too deep.
-/

namespace Delegation

section
variable {α β : Type} {r r' : α → β → Prop} {a : Option α} {b : Option β}

theorem optionRel_imp (himp : ∀ a b, r a b → r' a b) (hr : Option.Rel r a b) :
    Option.Rel r' a b := by
  cases hr with
  | none => exact .none
  | some hab => exact .some (himp _ _ hab)

theorem isSome_of_optionRel (hr : Option.Rel r a b) : b.isSome = a.isSome := by
  cases hr <;> rfl

theorem lookup_of_mem {entries : List (String × α)} {name : String} {value : α}
    (hd : (entries.map Prod.fst).Nodup) (hm : (name, value) ∈ entries) :
    entries.lookup name = some value := by
  obtain ⟨before, after, rfl⟩ := List.append_of_mem hm
  refine List.lookup_eq_some_iff.mpr ⟨before, after, rfl, fun entry he => ?_⟩
  rw [List.map_append] at hd
  have hne := (List.nodup_append.mp hd).2.2 entry.1 (List.mem_map_of_mem he) name (by simp)
  simpa using hne.symm

end

namespace Heap

open Relation (ReflTransGen)

variable {h g : Heap} {i j : InstanceId} {settings : Settings} {bound : Nat}
  {taken rest : List Supply} {values : List Value} {supply : Supply} {name label : String}
  {value held : Value}

/-- What a member holds that was given a value: a method of the owner around a
callable, with a serial from a range, or the value itself. -/
inductive Holds (first next : Nat) (owner : InstanceId) (name : String) (value : Value) :
    Value → Prop
  | bound {serial : Nat} : value.isBindable = true → first ≤ serial → serial < next →
      Holds first next owner name value (.method serial owner name value)
  | kept : value.isBindable = false → Holds first next owner name value value

/-- The second heap holds what the builder makes of the arguments, and is the first
otherwise. -/
structure Built (h : Heap) (settings : Settings) (arguments : Arguments) (template : Template)
    (h' : Heap) : Prop where
  target : template.target = ⟨h.instances.size⟩
  serials : h.nextSerial ≤ template.serial ∧ h'.nextSerial = template.serial + 1
  made : ∃ name rest members, arguments.positional = .text name :: rest ∧
    h'.inst template.target = {
      name, members, maxDepth := settings.maxDelegateDepth, frozen := false
      chain := ⟨(Supply.delegates arguments.supplies).map some⟩ } ∧
    ∀ name, Option.Rel (Holds h.nextSerial template.serial template.target name)
      ((Supply.members arguments.supplies).lookup name) (members.get? name)
  count : h'.instances.size = h.instances.size + 1
  others : ∀ i, i.index < h.instances.size → h'.inst i = h.inst i
  records : h'.records = h.records

-- ---------------------------------------------------------------------------
-- Delegates that exist already
-- ---------------------------------------------------------------------------

theorem Knows.instance? (hk : h.Knows value) (hi : value.instance? = some i) :
    i.index < h.instances.size := by
  cases value <;> cases hi <;> exact hk

theorem Sound.lt_of_below (hs : h.Sound) (hb : h.Below i j) : j.index < h.instances.size := by
  obtain ⟨delegate, hd, hj⟩ := hb
  exact (hs.instances i delegate (mem_targets.mpr (.inr hd))).instance? hj

/-- From an instance that is there a walk gets to such instances only, also in a
heap with others beside them. -/
theorem Sound.lt_of_reach (hs : h.Sound)
    (hsame : ∀ k, k.index < h.instances.size → g.inst k = h.inst k)
    (hi : i.index < h.instances.size) (hr : ReflTransGen g.Below i j) :
    j.index < h.instances.size := by
  induction hr with
  | refl => exact hi
  | tail _ hb ih =>
    rw [Below, hsame _ ih] at hb
    exact hs.lt_of_below hb

-- ---------------------------------------------------------------------------
-- A build under way
-- ---------------------------------------------------------------------------

/-- A build under way, once some arguments are taken: the new instance has what
they call for, and nothing else has changed. -/
structure Assembled (h : Heap) (name : String) (bound : Nat) (taken : List Supply) (g : Heap) :
    Prop extends Building h ⟨h.instances.size⟩ g where
  fresh : g.inst ⟨h.instances.size⟩ = {
    name, maxDepth := bound, members := (g.inst ⟨h.instances.size⟩).members
    chain := ⟨(Supply.delegates taken).map some⟩ }
  members : ∀ label, Option.Rel (Holds h.nextSerial g.nextSerial ⟨h.instances.size⟩ label)
    ((Supply.members taken).lookup label) ((g.inst ⟨h.instances.size⟩).members.get? label)
  count : g.instances.size = h.instances.size + 1
  others : ∀ i, i.index < h.instances.size → g.inst i = h.inst i
  records : g.records = h.records
  serials : h.nextSerial ≤ g.nextSerial

/-- How taking one more argument has to end. -/
def Takes (h : Heap) (settings : Settings) (name : String) (taken : List Supply)
    (supply : Supply) : Except Error Heap → Prop
  | .ok g =>
    h.Admits settings.maxDelegateDepth (taken ++ [supply]) ∧
      Assembled h name settings.maxDelegateDepth (taken ++ [supply]) g
  | .error e => h.Offence settings taken supply e

theorem Holds.mono {first next later : Nat} {owner : InstanceId} (hle : next ≤ later)
    (hh : Holds first next owner label value held) : Holds first later owner label value held := by
  cases hh with
  | bound hb hfirst hnext => exact .bound hb hfirst (Nat.lt_of_lt_of_le hnext hle)
  | kept hb => exact .kept hb

theorem assembled_start (name : String) (bound : Nat) :
    Assembled h name bound [] (h.addInstance name bound).2 where
  toBuilding := Building.start name bound
  fresh := by simp [inst_addInstance, Supply.delegates]
  members label := by
    rw [inst_addInstance, if_pos rfl]
    exact .none
  count := by simp [addInstance]
  others i hi := by rw [inst_addInstance, if_neg (Nat.ne_of_lt hi)]
  records := rfl
  serials := Nat.le_refl _

section
variable (hg : Assembled h name bound taken g)

include hg

theorem Assembled.inst_modifyInst (change : Instance → Instance) :
    (g.modifyInst ⟨h.instances.size⟩ change).inst ⟨h.instances.size⟩ =
      change (g.inst ⟨h.instances.size⟩) := by
  rw [inst_modify, if_pos ⟨rfl, hg.made⟩]

theorem Assembled.others_modifyInst (change : Instance → Instance) (hi : i.index < h.instances.size) :
    (g.modifyInst ⟨h.instances.size⟩ change).inst i = h.inst i := by
  rw [inst_modify, if_neg, hg.others i hi]
  rintro ⟨rfl, -⟩
  exact Nat.lt_irrefl _ hi

/-- The members there are have the names that were asked for. -/
theorem Assembled.contains_iff : (g.inst ⟨h.instances.size⟩).members.contains label = true ↔
    label ∈ (Supply.members taken).map Prod.fst := by
  rw [NameMap.contains, isSome_of_optionRel (hg.members label)]
  simp [List.lookup_isSome_iff]

theorem Assembled.takeSerial : Assembled h name bound taken g.takeSerial.2 where
  toBuilding := hg.toBuilding.takeSerial
  fresh := hg.fresh
  members label := optionRel_imp (fun _ _ hh => hh.mono (Nat.le_succ _)) (hg.members label)
  count := hg.count
  others := hg.others
  records := hg.records
  serials := Nat.le_succ_of_le hg.serials

theorem Assembled.bindMember (label : String) (value : Value) :
    Assembled h name bound taken (g.bindMember ⟨h.instances.size⟩ label value).2 ∧
      Holds h.nextSerial (g.bindMember ⟨h.instances.size⟩ label value).2.nextSerial
        ⟨h.instances.size⟩ label value (g.bindMember ⟨h.instances.size⟩ label value).1 := by
  cases value with
  | function f => exact ⟨hg.takeSerial, .bound rfl hg.serials (Nat.lt_succ_self _)⟩
  | method serial inner declared callee =>
    exact ⟨hg.takeSerial, .bound rfl hg.serials (Nat.lt_succ_self _)⟩
  | _ => exact ⟨hg, .kept rfl⟩

theorem Assembled.setMember (hm : supply.member? = some (label, value))
    (hnew : label ∉ (Supply.members taken).map Prod.fst)
    (hh : Holds h.nextSerial g.nextSerial ⟨h.instances.size⟩ label value held)
    (hk : g.Knows held) :
    Assembled h name bound (taken ++ [supply]) (g.setMember ⟨h.instances.size⟩ label held) where
  toBuilding := hg.toBuilding.setMember label hk
  fresh := by
    have hdelegates : Supply.delegates (taken ++ [supply]) = Supply.delegates taken := by
      simp [Supply.delegates, delegate?_of_member? hm]
    rw [Heap.setMember, hg.inst_modifyInst, hdelegates, hg.fresh]
  members other := by
    have hmembers : Supply.members (taken ++ [supply]) = Supply.members taken ++ [(label, value)] := by
      simp [Supply.members, hm]
    have hother := hg.members other
    rw [Heap.setMember, hg.inst_modifyInst, hmembers, List.lookup_append]
    change Option.Rel (Holds h.nextSerial g.nextSerial ⟨h.instances.size⟩ other) _ _
    by_cases ho : other = label
    · subst ho
      have hnone : (Supply.members taken).lookup other = none := by
        simpa [← Option.not_isSome_iff_eq_none, List.lookup_isSome_iff] using hnew
      simpa [hnone] using Option.Rel.some hh
    · have hlabel : (other == label) = false := beq_eq_false_iff_ne.mpr ho
      simpa [NameMap.get?_insert_of_ne _ ho, List.lookup_cons, hlabel] using hother
  count := by simpa [Heap.setMember, modifyInst] using hg.count
  others i hi := hg.others_modifyInst _ hi
  records := hg.records
  serials := hg.serials

theorem Assembled.mayPlace_iff (hs : h.Sound) (hk : h.Knows value) :
    g.MayPlace ⟨h.instances.size⟩ value ↔ h.Fits bound value := by
  refine forall₂_congr fun i hi => ?_
  have hlt := hk.instance? hi
  have hreach : ¬ ReflTransGen g.Below i ⟨h.instances.size⟩ :=
    fun hr => Nat.lt_irrefl _ (hs.lt_of_reach hg.others hlt hr)
  have hdepth : (g.inst ⟨h.instances.size⟩).maxDepth = bound := by rw [hg.fresh]
  have hchains : ∀ k, ReflTransGen h.Below i k → (g.inst k).chain = (h.inst k).chain :=
    fun k hr => congrArg Instance.chain (hg.others k (hs.lt_of_reach (fun _ _ => rfl) hlt hr))
  rw [hdepth, fitsUnder_congr hchains]
  exact and_iff_right hreach

theorem Assembled.setChain (hattributes : value.hasAttributes = true)
    (hb : Building h ⟨h.instances.size⟩ (g.setChain ⟨h.instances.size⟩
      ((g.inst ⟨h.instances.size⟩).chain.append value))) :
    Assembled h name bound (taken ++ [.positional value])
      (g.setChain ⟨h.instances.size⟩ ((g.inst ⟨h.instances.size⟩).chain.append value)) where
  toBuilding := hb
  fresh := by
    rw [Heap.setChain, hg.inst_modifyInst, hg.fresh]
    simp [Chain.append, Supply.delegates, Supply.delegate?, hattributes]
  members label := by
    have hmembers : Supply.members (taken ++ [.positional value]) = Supply.members taken := by
      simp [Supply.members, member?_of_hasAttributes hattributes]
    rw [Heap.setChain, hg.inst_modifyInst, hmembers]
    exact hg.members label
  count := by simpa [Heap.setChain, modifyInst] using hg.count
  others i hi := hg.others_modifyInst _ hi
  records := hg.records
  serials := hg.serials

end

section
variable (hg : Assembled h name settings.maxDelegateDepth taken g)
  (hadmits : h.Admits settings.maxDelegateDepth taken)

include hg hadmits

/-- A callable or a keyword argument goes in if its name is new. -/
theorem Assembled.supplyMember (hsuits : h.Suits settings.maxDelegateDepth supply)
    (hm : supply.member? = some (label, value)) (hk : h.Knows value) :
    h.Takes settings name taken supply
      (g.supplyMember settings.builtinName ⟨h.instances.size⟩ (label, value)) := by
  unfold Heap.supplyMember
  dsimp only
  by_cases htaken : label ∈ (Supply.members taken).map Prod.fst
  · rw [if_pos (hg.contains_iff.mpr htaken)]
    exact .duplicate hm htaken
  · rw [if_neg fun hc => htaken (hg.contains_iff.mp hc)]
    obtain ⟨hbound, hheld⟩ := hg.bindMember label value
    have hknown := (hg.toBuilding.bindMember label (hg.changes.knows hk)).2
    refine ⟨admits_snoc.mpr ⟨hadmits, hsuits, fun member hm' => ?_⟩,
      hbound.setMember hm htaken hheld hknown⟩
    obtain rfl := Option.some.inj (hm.symm.trans hm')
    exact htaken

/-- A delegate goes in if it leaves room for the levels below it. -/
theorem Assembled.addDelegate (hs : h.Sound) (ha : h.Acyclic) (hk : h.Knows value)
    (hattributes : value.hasAttributes = true) :
    h.Takes settings name taken (.positional value)
      (g.addDelegate ⟨h.instances.size⟩ value) := by
  have hacyclic := hg.changes.acyclic ha
  have hopen : g.checkOpen SpecialName.super.text ⟨h.instances.size⟩ = .ok () :=
    checkOpen_ok.mpr hg.isOpen
  cases hc : g.checkPlacement ⟨h.instances.size⟩ value with
  | ok u =>
    have hfits := (hg.mayPlace_iff hs hk).mp (hacyclic.checkPlacement_ok_iff.mp hc)
    have hadd : g.addDelegate ⟨h.instances.size⟩ value = .ok (g.setChain ⟨h.instances.size⟩
        ((g.inst ⟨h.instances.size⟩).chain.append value)) := by
      rw [Heap.addDelegate, hopen, hc]
      rfl
    rw [hadd]
    refine ⟨admits_snoc.mpr ⟨hadmits, .inl ⟨hattributes, hfits⟩, fun member hm => ?_⟩,
      hg.setChain hattributes (hg.toBuilding.addDelegate (hg.changes.knows hk) hadd)⟩
    rw [member?_of_hasAttributes hattributes] at hm
    cases hm
  | error e =>
    have hrejected : ¬ h.Fits settings.maxDelegateDepth value := fun hfits => by
      rw [hacyclic.checkPlacement_ok_iff.mpr ((hg.mayPlace_iff hs hk).mpr hfits)] at hc
      cases hc
    have hadd : g.addDelegate ⟨h.instances.size⟩ value = .error e := by
      rw [Heap.addDelegate, hopen, hc]
      rfl
    obtain ⟨i, hi⟩ := instance?_of_checkPlacement_error hc
    rw [hadd]
    rcases hacyclic.checkPlacement_error hi hc with ⟨-, hr⟩ | ⟨⟨holder, rfl⟩, -⟩
    · exact absurd (hs.lt_of_reach hg.others (hk.instance? hi) hr) (Nat.lt_irrefl _)
    · rw [hg.fresh]
      exact .tooDeep holder hrejected

end

-- ---------------------------------------------------------------------------
-- All arguments
-- ---------------------------------------------------------------------------

def takeSupply (builtin : String) (owner : InstanceId) (h : Heap) : Supply → Except Error Heap
  | .positional value => h.addPositional builtin owner value
  | .keyword name value => h.supplyMember builtin owner (name, value)

/-- The next argument goes in, or it is wrong. -/
theorem Assembled.step (hs : h.Sound) (ha : h.Acyclic)
    (hg : Assembled h name settings.maxDelegateDepth taken g)
    (hadmits : h.Admits settings.maxDelegateDepth taken) (hk : h.Knows supply.value) :
    h.Takes settings name taken supply
      (g.takeSupply settings.builtinName ⟨h.instances.size⟩ supply) := by
  cases supply with
  | keyword label value => exact hg.supplyMember hadmits trivial rfl hk
  | positional value =>
    have hbindable (hb : value.isBindable = true) :
        h.Takes settings name taken (.positional value)
          (if (memberName value).isEmpty then
            .error (.template settings.builtinName .unnamedCallable)
          else g.supplyMember settings.builtinName ⟨h.instances.size⟩ (memberName value, value)) := by
      split
      case isTrue hempty => exact .unnamed hb (String.isEmpty_iff.mp hempty)
      case isFalse hname =>
        have hsuits : h.Suits settings.maxDelegateDepth (.positional value) :=
          .inr ⟨hb, fun hempty => hname (String.isEmpty_iff.mpr hempty)⟩
        exact hg.supplyMember hadmits hsuits (by simp [Supply.member?, hb]) hk
    cases value with
    | inst i => exact hg.addDelegate hadmits hs ha hk rfl
    | template t => exact hg.addDelegate hadmits hs ha hk rfl
    | record r => exact hg.addDelegate hadmits hs ha hk rfl
    | function f => exact hbindable rfl
    | method serial owner declared callee => exact hbindable rfl
    | _ => exact .unsuitable rfl rfl

/-- How going through arguments has to end. -/
def Settles (h : Heap) (settings : Settings) (name : String) (taken rest : List Supply) :
    Except Error Heap → Prop
  | .ok g =>
    h.Admits settings.maxDelegateDepth (taken ++ rest) ∧
      Assembled h name settings.maxDelegateDepth (taken ++ rest) g
  | .error e => ∃ before supply after, rest = before ++ supply :: after ∧
    h.Admits settings.maxDelegateDepth (taken ++ before) ∧
      h.Offence settings (taken ++ before) supply e

theorem settles_nil (hg : Assembled h name settings.maxDelegateDepth taken g)
    (hadmits : h.Admits settings.maxDelegateDepth taken) :
    h.Settles settings name taken [] (.ok g) := by
  simpa only [Settles, List.append_nil] using ⟨hadmits, hg⟩

theorem settles_offence {e : Error} (hadmits : h.Admits settings.maxDelegateDepth taken)
    (ho : h.Offence settings taken supply e) :
    h.Settles settings name taken (supply :: rest) (.error e) :=
  ⟨[], supply, rest, rfl, by rwa [List.append_nil], by rwa [List.append_nil]⟩

theorem Settles.cons {result : Except Error Heap}
    (hr : h.Settles settings name (taken ++ [supply]) rest result) :
    h.Settles settings name taken (supply :: rest) result := by
  cases result with
  | ok g => simpa only [Settles, List.append_assoc, List.singleton_append] using hr
  | error e =>
    obtain ⟨before, wrong, after, rfl, hadmits, ho⟩ := hr
    rw [← List.append_cons] at hadmits ho
    exact ⟨supply :: before, wrong, after, rfl, hadmits, ho⟩

/-- The arguments go in up to the first that is wrong. -/
theorem Assembled.run (hs : h.Sound) (ha : h.Acyclic)
    (hg : Assembled h name settings.maxDelegateDepth taken g)
    (hadmits : h.Admits settings.maxDelegateDepth taken)
    (hk : ∀ supply ∈ rest, h.Knows supply.value) :
    h.Settles settings name taken rest
      (rest.foldlM (takeSupply settings.builtinName ⟨h.instances.size⟩) g) := by
  induction rest generalizing taken g with
  | nil => exact settles_nil hg hadmits
  | cons supply rest ih =>
    rw [List.foldlM_cons]
    have hstep := hg.step hs ha hadmits (hk supply List.mem_cons_self)
    cases ht : g.takeSupply settings.builtinName ⟨h.instances.size⟩ supply with
    | error e =>
      rw [ht] at hstep
      exact settles_offence hadmits hstep
    | ok g' =>
      rw [ht] at hstep
      exact (ih hstep.2 hstep.1 fun s hmem => hk s (List.mem_cons_of_mem _ hmem)).cons

/-- The two loops of the builder are one over all its arguments. -/
theorem foldlM_supplies {arguments : Arguments} (hp : arguments.positional = .text name :: values)
    (builtin : String) (owner : InstanceId) :
    arguments.supplies.foldlM (takeSupply builtin owner) g =
      values.foldlM (addPositional builtin owner) g >>=
        arguments.keywords.foldlM (supplyMember builtin owner) := by
  rw [Arguments.supplies, hp, List.tail_cons, List.foldlM_append]
  simp only [List.foldlM_map]
  rfl

theorem build_eq {arguments : Arguments} (hp : arguments.positional = .text name :: values)
    (hn : h.templateName settings.builtinName arguments.positional = .ok (name, values)) :
    h.build settings arguments = do
      let g ← arguments.supplies.foldlM (takeSupply settings.builtinName ⟨h.instances.size⟩)
        (h.addInstance name settings.maxDelegateDepth).2
      return (⟨g.nextSerial, ⟨h.instances.size⟩⟩, g.takeSerial.2) := by
  rw [build, hn, foldlM_supplies hp, bind_assoc]
  rfl

-- ---------------------------------------------------------------------------
-- Whole builds
-- ---------------------------------------------------------------------------

/-- How a build has to end. -/
def Builds (h : Heap) (settings : Settings) (arguments : Arguments) :
    Except Error (Template × Heap) → Prop
  | .ok (template, h') =>
    h.Accepts settings arguments ∧ h.Built settings arguments template h'
  | .error e => h.Refuses settings arguments e

/-- Once all arguments are taken, a serial is left to take for the template. -/
theorem Assembled.built {arguments : Arguments} (hp : arguments.positional = .text name :: values)
    (hg : Assembled h name settings.maxDelegateDepth arguments.supplies g) :
    h.Built settings arguments ⟨g.nextSerial, ⟨h.instances.size⟩⟩ g.takeSerial.2 where
  target := rfl
  serials := ⟨hg.serials, rfl⟩
  made := ⟨name, values, _, hp, hg.fresh, hg.members⟩
  count := hg.count
  others := hg.others
  records := hg.records

theorem build_builds (hs : h.Sound) (ha : h.Acyclic) (settings : Settings) {arguments : Arguments}
    (hk : ∀ value ∈ arguments.values, h.Knows value) :
    h.Builds settings arguments (h.build settings arguments) := by
  have hname := h.templateName_settles settings arguments
  cases hn : h.templateName settings.builtinName arguments.positional with
  | error e =>
    rw [hn] at hname
    rw [build, hn]
    exact hname
  | ok named =>
    obtain ⟨name, values⟩ := named
    rw [hn] at hname
    obtain ⟨hp, hspace⟩ := hname
    have hrun := (assembled_start (h := h) name settings.maxDelegateDepth).run hs ha admits_nil
      fun supply hsupply => hk supply.value (Arguments.value_mem hsupply)
    rw [build_eq hp hn]
    cases hfold : arguments.supplies.foldlM
        (takeSupply settings.builtinName ⟨h.instances.size⟩)
        (h.addInstance name settings.maxDelegateDepth).2 with
    | error e =>
      rw [hfold] at hrun
      obtain ⟨before, wrong, after, hsplit, hadmits, ho⟩ := hrun
      exact .offence hp hspace hsplit hadmits ho
    | ok g =>
      rw [hfold] at hrun
      obtain ⟨hadmits, hg⟩ := hrun
      exact ⟨⟨hadmits, name, values, hp, hspace⟩, hg.built hp⟩

/-- A member is read before any delegate is asked, unless its name means something
else to the reader. -/
theorem Built.lookup {arguments : Arguments} {template : Template} {h' : Heap}
    (hb : h.Built settings arguments template h') (ha : h.Accepts settings arguments)
    {member : String × Value} (hm : member ∈ Supply.members arguments.supplies)
    (hn : member.1 ≠ SpecialName.super.text) :
    ∃ held, Holds h.nextSerial template.serial template.target member.1 member.2 held ∧
      h'.lookup member.1 template.target = .ok (some held) := by
  obtain ⟨name, rest, members, -, hmade, hholds⟩ := hb.made
  have hheld := hholds member.1
  rw [lookup_of_mem ha.distinct hm] at hheld
  cases hget : members.get? member.1 with
  | none =>
    rw [hget] at hheld
    cases hheld
  | some held =>
    rw [hget] at hheld
    cases hheld with
    | some hh => exact ⟨held, hh, by simp [Heap.lookup, lookupAt_eq, hn, hmade, hget]⟩

end Heap

-- ---------------------------------------------------------------------------
-- Machines
-- ---------------------------------------------------------------------------

namespace Eval

variable {γ σ : Type} {m m' : Machine γ σ} {settings : Settings} {arguments : Arguments}

theorem build_ok (hs : m.heap.Sound) (ha : m.heap.Acyclic)
    (hk : ∀ value ∈ arguments.values, m.heap.Knows value) {value : Value}
    (hb : build settings arguments m = .ok (.ok value, m')) :
    ∃ template, value = .template template ∧
      m' = { m with heap := m'.heap, trace := m'.trace } ∧
      m.heap.Accepts settings arguments ∧ m.heap.Built settings arguments template m'.heap := by
  obtain ⟨trace, hrun⟩ := run_build settings arguments m
  have hbuilds := Heap.build_builds hs ha settings hk
  cases hheap : m.heap.build settings arguments with
  | ok made =>
    rw [hheap] at hrun hbuilds
    cases hb.symm.trans hrun
    exact ⟨made.1, rfl, rfl, hbuilds⟩
  | error e =>
    rw [hheap] at hrun
    cases hb.symm.trans hrun

theorem build_error (hs : m.heap.Sound) (ha : m.heap.Acyclic)
    (hk : ∀ value ∈ arguments.values, m.heap.Knows value) {e : Error}
    (hb : build settings arguments m = .ok (.error e, m')) :
    m' = m ∧ m.heap.Refuses settings arguments e := by
  obtain ⟨trace, hrun⟩ := run_build settings arguments m
  have hbuilds := Heap.build_builds hs ha settings hk
  cases hheap : m.heap.build settings arguments with
  | ok made =>
    rw [hheap] at hrun
    cases hb.symm.trans hrun
  | error e =>
    rw [hheap] at hrun hbuilds
    cases hb.symm.trans hrun
    exact ⟨rfl, hbuilds⟩

end Eval

namespace Machine

variable {γ σ : Type} {host : Host γ σ} {m m' : Machine γ σ}

/-- The builder takes its arguments exactly if the first is a name, each of the
others suits, and no member is asked for twice. Then it makes one instance, with
what was passed and nothing else. Otherwise nothing changes, and the error is for
the first argument that is wrong. -/
theorem build_exact (hm : m.Reachable host) (fuel : Nat) (settings : Settings)
    {arguments : Arguments} (hk : ∀ value ∈ arguments.values, m.heap.Knows value) :
    ∃ result m', Eval.perform host fuel (.build settings arguments) m = .ok (result, m') ∧
      ((∃ value, result = .ok value) ↔ m.heap.Accepts settings arguments) ∧
      (∀ value, result = .ok value → ∃ template, value = .template template ∧
        m' = { m with heap := m'.heap, trace := m'.trace } ∧
        m.heap.Built settings arguments template m'.heap) ∧
      ∀ e, result = .error e → m' = m ∧ m.heap.Refuses settings arguments e ∧
        (e.kind = .badArgument ∨ e.kind = .delegateDepth) := by
  obtain ⟨result, m', hrun⟩ : ∃ result m',
      Eval.build settings arguments m = .ok (result, m') := by
    obtain ⟨trace, hrun⟩ := Eval.run_build settings arguments m
    rw [hrun]
    cases m.heap.build settings arguments <;> exact ⟨_, _, rfl⟩
  cases result with
  | ok value =>
    obtain ⟨template, rfl, hframe, haccepts, hbuilt⟩ :=
      Eval.build_ok hm.sound hm.acyclic hk hrun
    refine ⟨_, m', hrun, ⟨fun _ => haccepts, fun _ => ⟨_, rfl⟩⟩, fun value hvalue => ?_, nofun⟩
    cases hvalue
    exact ⟨template, rfl, hframe, hbuilt⟩
  | error e =>
    obtain ⟨rfl, hrefuses⟩ := Eval.build_error hm.sound hm.acyclic hk hrun
    refine ⟨_, _, hrun, ⟨nofun, fun ha => absurd ha hrefuses.not_accepts⟩, nofun, fun e' he => ?_⟩
    cases he
    exact ⟨rfl, hrefuses, hrefuses.kind⟩

-- Arguments to add a gadget above the widget and its base.

def gadgetArguments (more : List (String × Value)) : Arguments where
  positional := [.text "Gadget", .inst ⟨1⟩, .function ⟨0, "norm"⟩]
  keywords := ("size", .int 4) :: more

theorem knows_gadgetArguments {more : List (String × Value)}
    (hmore : ∀ member ∈ more, member.2 = .none) :
    ∀ value ∈ (gadgetArguments more).values, (widget false).heap.Knows value := by
  intro value hvalue
  simp only [gadgetArguments, Arguments.values, List.map_cons, List.mem_append, List.mem_cons,
    List.not_mem_nil, or_false] at hvalue
  rcases hvalue with (rfl | rfl | rfl) | rfl | hvalue
  · trivial
  · exact Nat.one_lt_two
  · trivial
  · trivial
  · obtain ⟨member, hm, rfl⟩ := List.mem_map.mp hvalue
    rw [hmore member hm]
    trivial

theorem build_exact_gadget :
    (widget false).Reachable idle ∧
      (∀ value ∈ (gadgetArguments []).values, (widget false).heap.Knows value) ∧
      (∃ m', Eval.perform idle 1 (.build {} (gadgetArguments [])) (widget false) =
          .ok (.ok (.template ⟨1, ⟨2⟩⟩), m') ∧
        (widget false).heap.Accepts {} (gadgetArguments []) ∧
        (widget false).heap.Built {} (gadgetArguments []) ⟨1, ⟨2⟩⟩ m'.heap) ∧
      Eval.perform idle 1 (.build {} (gadgetArguments [("norm", .none)])) (widget false) =
        .ok (.error (.template "object" (.duplicateMember "norm")), widget false) ∧
      ¬ (widget false).heap.Accepts {} (gadgetArguments [("norm", .none)]) := by
  have hknown : ∀ value ∈ (gadgetArguments []).values, (widget false).heap.Knows value :=
    knows_gadgetArguments nofun
  have hknown' : ∀ value ∈ (gadgetArguments [("norm", .none)]).values,
      (widget false).heap.Knows value := knows_gadgetArguments (by simp)
  obtain ⟨made, hmade⟩ : ∃ m', Eval.perform idle 1 (.build {} (gadgetArguments [])) (widget false) =
      .ok (.ok (.template ⟨1, ⟨2⟩⟩), m') := ⟨_, rfl⟩
  have hrefused : Eval.perform idle 1 (.build {} (gadgetArguments [("norm", .none)]))
      (widget false) = .ok (.error (.template "object" (.duplicateMember "norm")), widget false) :=
    rfl
  obtain ⟨_, _, hrun, haccepts, hbuilt, -⟩ := build_exact widget_reachable 1 {} hknown
  obtain ⟨_, _, hrun', haccepts', -, -⟩ := build_exact widget_reachable 1 {} hknown'
  cases hmade.symm.trans hrun
  cases hrefused.symm.trans hrun'
  obtain ⟨_, htemplate, -, hheap⟩ := hbuilt _ rfl
  cases htemplate
  refine ⟨widget_reachable, hknown, ⟨made, hmade, haccepts.mp ⟨_, rfl⟩, hheap⟩, hrefused,
    fun ha => ?_⟩
  obtain ⟨value, hvalue⟩ := haccepts'.mpr ha
  cases hvalue

/-- What is given to the builder can be read back through the template, except under
the name `super`, which reads the first delegate: a function or a method comes back
as a method that the new instance owns, anything else as it was given. -/
theorem build_reads_back (hm : m.Reachable host) (fuel : Nat) (settings : Settings)
    {arguments : Arguments} (hk : ∀ value ∈ arguments.values, m.heap.Knows value) {made : Value}
    (hb : Eval.perform host fuel (.build settings arguments) m = .ok (.ok made, m')) :
    ∃ template, made = .template template ∧ template.target = ⟨m.heap.instances.size⟩ ∧
      ∀ member ∈ Supply.members arguments.supplies, member.1 ≠ SpecialName.super.text →
        ∃ held, Heap.Holds m.heap.nextSerial template.serial template.target member.1 member.2 held ∧
          m'.heap.lookup member.1 template.target = .ok (some held) ∧
          ∃ trace, Eval.perform host fuel (.read made member.1) m' =
            .ok (.ok (some held), { m' with trace }) := by
  obtain ⟨template, rfl, -, haccepts, hbuilt⟩ := Eval.build_ok hm.sound hm.acyclic hk hb
  refine ⟨template, rfl, hbuilt.target, fun member hmember hname => ?_⟩
  obtain ⟨held, hholds, hlookup⟩ := hbuilt.lookup haccepts hmember hname
  obtain ⟨trace, hread⟩ := Eval.run_read (.template template) member.1 m'
  have hheld : m'.heap.read (.template template) member.1 = .ok (some held) := hlookup
  rw [hheld] at hread
  exact ⟨held, hholds, hlookup, trace, hread⟩

theorem build_reads_back_gadget :
    (widget false).Reachable idle ∧
    (∀ value ∈ (gadgetArguments []).values, (widget false).heap.Knows value) ∧
    ∃ m' trace, Eval.perform idle 1 (.build {} (gadgetArguments [])) (widget false) =
        .ok (.ok (.template ⟨1, ⟨2⟩⟩), m') ∧
      Eval.perform idle 1 (.read (.template ⟨1, ⟨2⟩⟩) "size") m' =
        .ok (.ok (some (.int 4)), { m' with trace }) ∧
      ∃ serial, m'.heap.lookup "norm" ⟨2⟩ =
        .ok (some (.method serial ⟨2⟩ "norm" (.function ⟨0, "norm"⟩))) := by
  obtain ⟨m', hmade⟩ : ∃ m', Eval.perform idle 1 (.build {} (gadgetArguments [])) (widget false) =
      .ok (.ok (.template ⟨1, ⟨2⟩⟩), m') := ⟨_, rfl⟩
  have hknown : ∀ value ∈ (gadgetArguments []).values, (widget false).heap.Knows value :=
    knows_gadgetArguments nofun
  obtain ⟨template, htemplate, -, hback⟩ := build_reads_back widget_reachable 1 {} hknown hmade
  cases htemplate
  obtain ⟨_, hsize, -, trace, hread⟩ := hback ("size", .int 4) (by decide) (by decide)
  obtain ⟨_, hnorm, hlookup, -⟩ := hback ("norm", .function ⟨0, "norm"⟩) (by decide) (by decide)
  cases hsize with
  | bound hb => cases hb
  | kept =>
    cases hnorm with
    | kept hb => cases hb
    | bound => exact ⟨widget_reachable, hknown, m', trace, hmade, hread, _, hlookup⟩

def superArguments : Arguments where
  positional := [.text "A"]
  keywords := [(SpecialName.super.text, .int 1)]

/-- The builder takes a member named `super`, but a read of that name does not find
it. -/
theorem super_not_read_back :
    Reachable idle ({ host := () } : Machine Unit Unit) ∧
      (SpecialName.super.text, .int 1) ∈ Supply.members superArguments.supplies ∧
      ∃ m', Eval.perform idle 1 (.build {} superArguments) { host := () } =
          .ok (.ok (.template ⟨0, ⟨0⟩⟩), m') ∧
        m'.heap.lookup SpecialName.super.text ⟨0⟩ = .ok (some .none) ∧
        Eval.perform idle 1 (.read (.template ⟨0, ⟨0⟩⟩) SpecialName.super.text) m' =
          .ok (.ok (some .none), m') :=
  ⟨⟨_, rfl, .refl⟩, by decide, _, rfl, rfl, rfl⟩

end Machine

end Delegation

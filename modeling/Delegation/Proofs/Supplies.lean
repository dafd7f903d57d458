import Delegation.Proofs.Nesting

/-!
# The arguments of the builder

Which arguments the builder takes can be said without going through them as it
does (`Accepts`): the first is a name, each of the others suits by itself, and no
member is asked for twice. It refuses others for the first of them that is wrong
(`Refuses`).
-/

namespace Delegation

/-- An argument of the builder after the name. -/
inductive Supply where
  | positional (value : Value)
  | keyword (name : String) (value : Value)

/-- A callable that the builder binds to the new instance. -/
def Value.isBindable : Value → Bool
  | .function _ | .method .. => true
  | _ => false

namespace Supply

def value : Supply → Value
  | positional value | keyword _ value => value

/-- The member that an argument asks for: a positional callable goes by its
declared name. -/
def member? : Supply → Option (String × Value)
  | positional value =>
    if value.isBindable then some (Heap.memberName value, value) else none
  | keyword name value => some (name, value)

def delegate? : Supply → Option Value
  | positional value => if value.hasAttributes then some value else none
  | keyword .. => none

def members (supplies : List Supply) : List (String × Value) := supplies.filterMap member?

def delegates (supplies : List Supply) : List Value := supplies.filterMap delegate?

end Supply

def Arguments.supplies (arguments : Arguments) : List Supply :=
  arguments.positional.tail.map .positional ++ arguments.keywords.map fun member =>
    .keyword member.1 member.2

theorem Arguments.value_mem {arguments : Arguments} {supply : Supply}
    (hs : supply ∈ arguments.supplies) : supply.value ∈ arguments.values := by
  rcases List.mem_append.mp hs with hp | hk
  · obtain ⟨value, hv, rfl⟩ := List.mem_map.mp hp
    exact List.mem_append_left _ (List.mem_of_mem_tail hv)
  · obtain ⟨member, hm, rfl⟩ := List.mem_map.mp hk
    exact List.mem_append_right _ (List.mem_map_of_mem hm)

namespace Heap

variable {h : Heap} {settings : Settings} {bound : Nat} {taken rest : List Supply} {supply : Supply}
  {name : String} {value : Value}

/-- The delegates below a value leave room for it under a bound. -/
def Fits (h : Heap) (bound : Nat) (value : Value) : Prop :=
  ∀ i, value.instance? = some i → h.FitsUnder bound i

/-- An argument that the builder has a use for, whatever the others are. -/
def Suits (h : Heap) (bound : Nat) : Supply → Prop
  | .positional value =>
    value.hasAttributes = true ∧ h.Fits bound value ∨
      value.isBindable = true ∧ memberName value ≠ ""
  | .keyword .. => True

/-- Arguments that suit and ask for no member twice. -/
structure Admits (h : Heap) (bound : Nat) (supplies : List Supply) : Prop where
  suitable : ∀ supply ∈ supplies, h.Suits bound supply
  distinct : ((Supply.members supplies).map Prod.fst).Nodup

/-- The arguments that the builder takes. -/
structure Accepts (h : Heap) (settings : Settings) (arguments : Arguments) : Prop extends
    Admits h settings.maxDelegateDepth arguments.supplies where
  named : ∃ name rest, arguments.positional = .text name :: rest ∧
    ∃ c ∈ name.toList, Text.isSpace c = false

/-- What is wrong with an argument, after others that are taken. -/
inductive Offence (h : Heap) (settings : Settings) (taken : List Supply) : Supply → Error → Prop
  | tooDeep {value : Value} (holder : String) : ¬ h.Fits settings.maxDelegateDepth value →
      Offence h settings taken (.positional value)
        (.delegateDepth holder settings.maxDelegateDepth)
  | unsuitable {value : Value} : value.hasAttributes = false → value.isBindable = false →
      Offence h settings taken (.positional value)
        (.template settings.builtinName (.unsuitable (h.typeName value)))
  | unnamed {value : Value} : value.isBindable = true → memberName value = "" →
      Offence h settings taken (.positional value)
        (.template settings.builtinName .unnamedCallable)
  | duplicate {supply : Supply} {name : String} {value : Value} :
      supply.member? = some (name, value) → name ∈ (Supply.members taken).map Prod.fst →
      Offence h settings taken supply
        (.template settings.builtinName (.duplicateMember name))

/-- Why the builder refuses arguments: the name is not one, or an argument after it
is the first that is wrong. -/
inductive Refuses (h : Heap) (settings : Settings) (arguments : Arguments) : Error → Prop
  | missingName : arguments.positional = [] →
      Refuses h settings arguments (.template settings.builtinName .missingName)
  | nameNotText {value : Value} {rest : List Value} : arguments.positional = value :: rest →
      (∀ name, value ≠ .text name) →
      Refuses h settings arguments
        (.template settings.builtinName (.nameNotText (h.typeName value)))
  | blankName {name : String} {rest : List Value} : arguments.positional = .text name :: rest →
      (∀ c ∈ name.toList, Text.isSpace c = true) →
      Refuses h settings arguments (.template settings.builtinName .blankName)
  | offence {name : String} {rest : List Value} {before after : List Supply} {supply : Supply}
      {e : Error} : arguments.positional = .text name :: rest →
      (∃ c ∈ name.toList, Text.isSpace c = false) →
      arguments.supplies = before ++ supply :: after →
      h.Admits settings.maxDelegateDepth before → h.Offence settings before supply e →
      Refuses h settings arguments e

-- ---------------------------------------------------------------------------
-- What suits
-- ---------------------------------------------------------------------------

theorem hasAttributes_of_isBindable (hb : value.isBindable = true) :
    value.hasAttributes = false := by
  cases value with
  | function f => rfl
  | method serial owner name callee => rfl
  | _ => cases hb

theorem fits_of_isBindable (hb : value.isBindable = true) : h.Fits bound value := by
  intro i hi
  cases value with
  | function f => cases hi
  | method serial owner name callee => cases hi
  | _ => cases hb

theorem delegate?_of_member? {member : String × Value} (hm : supply.member? = some member) :
    supply.delegate? = none := by
  cases supply with
  | positional value =>
    cases hb : value.isBindable with
    | false => simp [Supply.member?, hb] at hm
    | true => simp [Supply.delegate?, hasAttributes_of_isBindable hb]
  | keyword name value => rfl

theorem member?_of_hasAttributes (ha : value.hasAttributes = true) :
    (Supply.positional value).member? = none := by
  cases hb : value.isBindable with
  | false => simp [Supply.member?, hb]
  | true => cases (hasAttributes_of_isBindable hb).symm.trans ha

theorem admits_nil : h.Admits bound [] := ⟨nofun, List.nodup_nil⟩

theorem admits_snoc : h.Admits bound (taken ++ [supply]) ↔
    h.Admits bound taken ∧ h.Suits bound supply ∧
      ∀ member, supply.member? = some member →
        member.1 ∉ (Supply.members taken).map Prod.fst := by
  have hmembers : (Supply.members (taken ++ [supply])).map Prod.fst =
      (Supply.members taken).map Prod.fst ++ supply.member?.toList.map Prod.fst := by
    cases hm : supply.member? <;> simp [Supply.members, hm]
  constructor
  · intro ha
    have hd := hmembers ▸ ha.distinct
    obtain ⟨htaken, -, hnew⟩ := List.nodup_append.mp hd
    refine ⟨⟨fun s hs => ha.suitable s (List.mem_append_left _ hs), htaken⟩,
      ha.suitable supply (by simp), fun member hm hmem => ?_⟩
    exact hnew member.1 hmem member.1 (by simp [hm]) rfl
  · rintro ⟨ha, hs, hnew⟩
    refine ⟨fun s hmem => ?_, ?_⟩
    · rcases List.mem_append.mp hmem with hmem | hmem
      · exact ha.suitable s hmem
      · exact List.mem_singleton.mp hmem ▸ hs
    · rw [hmembers]
      cases hm : supply.member? with
      | none => simpa using ha.distinct
      | some member =>
        refine List.nodup_append.mpr ⟨ha.distinct, by simp, ?_⟩
        rintro label hlabel other hother rfl
        obtain rfl : label = member.1 := by simpa using hother
        exact hnew member hm hlabel

theorem Admits.of_append (ha : h.Admits bound (taken ++ rest)) : h.Admits bound taken where
  suitable supply hs := ha.suitable supply (List.mem_append_left _ hs)
  distinct := by
    have hd := ha.distinct
    rw [Supply.members, List.filterMap_append, List.map_append] at hd
    exact hd.of_append_left

theorem Offence.not_admits {e : Error} (ho : h.Offence settings taken supply e) :
    ¬ h.Admits settings.maxDelegateDepth (taken ++ supply :: rest) := by
  intro ha
  rw [List.append_cons] at ha
  obtain ⟨-, hs, hnew⟩ := admits_snoc.mp ha.of_append
  cases ho with
  | tooDeep holder hdeep =>
    rcases hs with ⟨-, hfits⟩ | ⟨hb, -⟩
    · exact hdeep hfits
    · exact hdeep (fits_of_isBindable hb)
  | unsuitable hattributes hbindable =>
    rcases hs with ⟨hattributes', -⟩ | ⟨hbindable', -⟩
    · cases hattributes.symm.trans hattributes'
    · cases hbindable.symm.trans hbindable'
  | unnamed hb hempty =>
    rcases hs with ⟨hattributes, -⟩ | ⟨-, hname⟩
    · cases (hasAttributes_of_isBindable hb).symm.trans hattributes
    · exact hname hempty
  | duplicate hm htaken => exact hnew _ hm htaken

theorem Refuses.kind {arguments : Arguments} {e : Error} (hr : h.Refuses settings arguments e) :
    e.kind = .badArgument ∨ e.kind = .delegateDepth := by
  cases hr with
  | offence _ _ _ _ ho => cases ho <;> simp [Error.kind]
  | _ => exact .inl rfl

theorem Refuses.not_accepts {arguments : Arguments} {e : Error}
    (hr : h.Refuses settings arguments e) : ¬ h.Accepts settings arguments := by
  intro ha
  obtain ⟨name, rest, hp, hspace⟩ := ha.named
  cases hr with
  | missingName hp' => cases hp.symm.trans hp'
  | nameNotText hp' htext =>
    cases hp.symm.trans hp'
    exact htext name rfl
  | blankName hp' hspaces =>
    cases hp.symm.trans hp'
    obtain ⟨c, hc, hspace⟩ := hspace
    cases hspace.symm.trans (hspaces c hc)
  | offence _ _ hsplit _ ho => exact ho.not_admits (hsplit ▸ ha.toAdmits)

-- ---------------------------------------------------------------------------
-- The name
-- ---------------------------------------------------------------------------

theorem isBlank_eq_false : Text.isBlank name = false ↔ ∃ c ∈ name.toList, Text.isSpace c = false := by
  simp [Text.isBlank]

/-- The first argument is a name, or the build is refused for it. -/
theorem templateName_settles (settings : Settings) (arguments : Arguments) :
    match h.templateName settings.builtinName arguments.positional with
    | .ok (name, rest) =>
      arguments.positional = .text name :: rest ∧ ∃ c ∈ name.toList, Text.isSpace c = false
    | .error e => h.Refuses settings arguments e := by
  cases hp : arguments.positional with
  | nil => exact .missingName hp
  | cons value rest =>
    cases value with
    | text name =>
      cases hblank : Text.isBlank name with
      | true =>
        have hspaces : ∀ c ∈ name.toList, Text.isSpace c = true := List.all_eq_true.mp hblank
        simpa [templateName, hblank] using Refuses.blankName hp hspaces
      | false => simpa [templateName, hblank] using isBlank_eq_false.mp hblank
    | _ => exact .nameNotText hp nofun

end Heap

end Delegation

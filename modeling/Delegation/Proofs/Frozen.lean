import Delegation.Heap.Text
import Delegation.Proofs.Reachable

/-!
# Frozen objects

Two facts need each other: what is frozen refers to frozen objects only
(`FrozenInside`), and no change touches what is frozen (`Change.keepsFrozen`).
Freezing may stop at what is frozen already because of the first; the first
holds from one change to the next because of the second.
-/

namespace Delegation

/-- What can be frozen. -/
inductive Object where
  | inst (i : InstanceId)
  | record (r : RecordId)
  deriving DecidableEq

/-- The object behind a value; behind a template it is the instance. -/
def Value.object? : Value → Option Object
  | .inst i => some (.inst i)
  | .template t => some (.inst t.target)
  | .record r => some (.record r)
  | _ => Option.none

namespace Heap

def frozen (h : Heap) : Object → Bool
  | .inst i => (h.inst i).frozen
  | .record r => (h.record r).frozen

def targetsOf (h : Heap) : Object → List Value
  | .inst i => (h.inst i).targets
  | .record r => (h.record r).targets

/-- Whether the object behind a value is frozen. A value without one counts as
frozen. -/
def IsFrozen (h : Heap) : Value → Prop
  | .inst i => (h.inst i).frozen = true
  | .template t => (h.inst t.target).frozen = true
  | .record r => (h.record r).frozen = true
  | _ => True

/-- Frozen objects refer to frozen objects, or to values that a walk has yet to
get to. -/
def FrozenBut (h : Heap) (stack : List Value) : Prop :=
  ∀ owner value, h.IsFrozen owner → value ∈ h.targets owner → h.IsFrozen value ∨ value ∈ stack

/-- Frozen objects refer to frozen objects only. -/
def FrozenInside (h : Heap) : Prop :=
  ∀ owner value, h.IsFrozen owner → value ∈ h.targets owner → h.IsFrozen value

/-- Objects that are frozen in the first heap are the same in the second. -/
structure KeepsFrozen (h h' : Heap) : Prop where
  instances : ∀ i, (h.inst i).frozen = true → h'.inst i = h.inst i
  records : ∀ r, (h.record r).frozen = true → h'.record r = h.record r

variable {h h' : Heap} {value owner : Value} {o : Object}

-- ---------------------------------------------------------------------------
-- The object behind a value
-- ---------------------------------------------------------------------------

theorem isFrozen_iff (ho : value.object? = some o) : h.IsFrozen value ↔ h.frozen o = true := by
  cases value <;> cases ho <;> rfl

theorem isFrozen_of_object?_eq_none (hn : value.object? = none) : h.IsFrozen value := by
  cases value with
  | inst i => cases hn
  | template t => cases hn
  | record r => cases hn
  | _ => trivial

theorem targets_eq (ho : value.object? = some o) : h.targets value = h.targetsOf o := by
  cases value <;> cases ho <;> rfl

-- ---------------------------------------------------------------------------
-- What is frozen stays as it is
-- ---------------------------------------------------------------------------

theorem KeepsFrozen.refl (h : Heap) : KeepsFrozen h h := ⟨fun _ _ => rfl, fun _ _ => rfl⟩

theorem KeepsFrozen.trans {h₁ h₂ h₃ : Heap} (h₁₂ : KeepsFrozen h₁ h₂) (h₂₃ : KeepsFrozen h₂ h₃) :
    KeepsFrozen h₁ h₃ where
  instances i hi := by
    have he := h₁₂.instances i hi
    rw [h₂₃.instances i (he ▸ hi), he]
  records r hr := by
    have he := h₁₂.records r hr
    rw [h₂₃.records r (he ▸ hr), he]

theorem KeepsFrozen.isFrozen (hk : KeepsFrozen h h') {value : Value} (hf : h.IsFrozen value) :
    h'.IsFrozen value := by
  cases value with
  | inst i => exact (congrArg Instance.frozen (hk.instances i hf)).trans hf
  | template t => exact (congrArg Instance.frozen (hk.instances t.target hf)).trans hf
  | record r => exact (congrArg Record.frozen (hk.records r hf)).trans hf
  | _ => trivial

theorem KeepsFrozen.targets (hk : KeepsFrozen h h') {value : Value} (hf : h.IsFrozen value) :
    h'.targets value = h.targets value := by
  cases value with
  | inst i => exact congrArg Instance.targets (hk.instances i hf)
  | template t => exact congrArg Instance.targets (hk.instances t.target hf)
  | record r => exact congrArg Record.targets (hk.records r hf)
  | _ => rfl

theorem Freezes.keepsFrozen (hf : Freezes h h') : KeepsFrozen h h' where
  instances i hi := by rw [hf.instances i, hf.frozenInst i hi, ← hi]
  records r hr := by rw [hf.records r, hf.frozenRecord r hr, ← hr]

theorem lt_of_frozen {i : InstanceId} (hi : (h.inst i).frozen = true) :
    i.index < h.instances.size := by
  refine Nat.lt_of_not_le fun hle => ?_
  rw [inst_of_le h hle] at hi
  cases hi

theorem lt_of_frozen_record {r : RecordId} (hr : (h.record r).frozen = true) :
    r.index < h.records.size := by
  refine Nat.lt_of_not_le fun hle => ?_
  rw [record_of_le h hle] at hr
  cases hr

theorem keepsFrozen_modifyInst {i : InstanceId} (ho : (h.inst i).frozen = false)
    (change : Instance → Instance) : KeepsFrozen h (h.modifyInst i change) where
  instances j hj := by
    rw [inst_modify, if_neg]
    rintro ⟨rfl, -⟩
    rw [ho] at hj
    cases hj
  records _ _ := rfl

theorem Change.keepsFrozen (hc : Change h h') : KeepsFrozen h h' := by
  cases hc with
  | addInstance name maxDepth =>
    refine ⟨fun i hi => ?_, fun _ _ => rfl⟩
    rw [inst_addInstance, if_neg (Nat.ne_of_lt (lt_of_frozen hi))]
  | addRecord _ =>
    refine ⟨fun _ _ => rfl, fun r hr => ?_⟩
    rw [record_addRecord, if_neg (Nat.ne_of_lt (lt_of_frozen_record hr))]
  | takeSerial => exact ⟨fun _ _ => rfl, fun _ _ => rfl⟩
  | setMember name ho _ => exact keepsFrozen_modifyInst ho _
  | setChain ho _ _ _ => exact keepsFrozen_modifyInst ho _
  | freeze stack => exact (Freezes.freezeAll h stack).keepsFrozen

theorem Changes.keepsFrozen (hc : Changes h h') : KeepsFrozen h h' :=
  hc.keeps (fun hlast hk => hk.trans hlast.keepsFrozen) (.refl h)

-- ---------------------------------------------------------------------------
-- What is frozen refers to what is frozen
-- ---------------------------------------------------------------------------

theorem frozen_of_not_open {i : InstanceId} (hi : i.index < h.instances.size)
    (ho : ¬ h.isOpen (.inst i) = true) : (h.inst i).frozen = true := by
  simpa [isOpen, hi] using ho

theorem isFrozen_of_not_open {value : Value} (hk : h.Knows value)
    (ho : ¬ h.isOpen value = true) : h.IsFrozen value := by
  cases value with
  | inst i => exact frozen_of_not_open hk ho
  | template t => exact frozen_of_not_open hk ho
  | record r =>
    have hr : r.index < h.records.size := hk
    simp only [isOpen, hr, decide_true, Bool.true_and, Bool.not_eq_true', Bool.not_eq_false] at ho
    exact ho
  | _ => trivial

theorem frozen_markInst {i : InstanceId} (ho : h.isOpen (.inst i) = true) :
    ((h.markInst i).inst i).frozen = true := by
  simp only [isOpen, Bool.and_eq_true, decide_eq_true_eq] at ho
  rw [markInst, inst_modify, if_pos ⟨rfl, ho.1⟩]

theorem isFrozen_mark {value : Value} (ho : h.isOpen value = true) :
    (h.mark value).IsFrozen value := by
  cases value with
  | inst i => exact frozen_markInst ho
  | template t => exact frozen_markInst ho
  | record r =>
    simp only [isOpen, Bool.and_eq_true, decide_eq_true_eq] at ho
    simp [IsFrozen, mark, markRecord, record_modify, ho.1]
  | _ => trivial

theorem frozen_of_mark (hf : (h.mark value).frozen o = true) :
    h.frozen o = true ∨ value.object? = some o := by
  have hinst {i j : InstanceId} (hf : ((h.markInst i).inst j).frozen = true) :
      (h.inst j).frozen = true ∨ some (Object.inst i) = some (.inst j) := by
    rw [markInst, inst_modify] at hf
    split at hf
    case isTrue hij => exact .inr (by rw [hij.1])
    case isFalse => exact .inl hf
  have hrecord {r s : RecordId} (hf : ((h.markRecord r).record s).frozen = true) :
      (h.record s).frozen = true ∨ some (Object.record r) = some (.record s) := by
    rw [markRecord, record_modify] at hf
    split at hf
    case isTrue hrs => exact .inr (by rw [hrs.1])
    case isFalse => exact .inl hf
  cases o with
  | inst j =>
    cases value with
    | inst i => exact hinst hf
    | template t => exact hinst hf
    | _ => exact .inl hf
  | record s =>
    cases value with
    | record r => exact hrecord hf
    | _ => exact .inl hf

/-- What marking a value froze is the object behind that value. -/
theorem isFrozen_of_mark (hf : (h.mark value).IsFrozen owner) :
    h.IsFrozen owner ∨ h.targets owner = h.targets value := by
  cases ho : owner.object? with
  | none => exact .inl (isFrozen_of_object?_eq_none ho)
  | some o =>
    rw [isFrozen_iff ho] at hf ⊢
    exact (frozen_of_mark hf).imp_right fun hv => (targets_eq ho).trans (targets_eq hv).symm

theorem Freezes.sound (hf : Freezes h h') (hs : h.Sound) : h'.Sound := by
  have hk : ∀ {value}, h.Knows value → h'.Knows value :=
    Knows.mono (Nat.le_of_eq hf.instanceCount.symm) (Nat.le_of_eq hf.recordCount.symm)
  refine ⟨fun i value hv => ?_, fun r value hv => ?_⟩
  · exact hk (hs.instances i value ((congrArg (value ∈ ·) (hf.targets (.inst i))).mp hv))
  · exact hk (hs.records r value ((congrArg (value ∈ ·) (hf.targets (.record r))).mp hv))

/-- The invariant of the walk: only values still on the stack may be open below
what is frozen. -/
theorem freezeAll_frozenInside {stack : List Value} (hs : h.Sound) (hb : h.FrozenBut stack) :
    (h.freezeAll stack).1.FrozenInside := by
  induction h, stack using Heap.freezeAll.induct with
  | case1 h =>
    rw [freezeAll_nil]
    exact fun owner value ho hv => (hb owner value ho hv).resolve_right List.not_mem_nil
  | case2 h value rest ho frozen order hf ih =>
    rw [freezeAll_open ho]
    have hmark := Freezes.mark h value
    refine ih (hmark.sound hs) fun owner target hfrozen ht => ?_
    rw [hmark.targets] at ht
    rcases isFrozen_of_mark hfrozen with hbefore | hsame
    · rcases hb owner target hbefore ht with htarget | htarget
      · exact .inl (hmark.keepsFrozen.isFrozen htarget)
      · rcases List.mem_cons.mp htarget with rfl | hrest
        · exact .inl (isFrozen_mark ho)
        · exact .inr (List.mem_append_right _ hrest)
    · -- What the newly frozen object refers to has just gone onto the stack.
      exact .inr (List.mem_append_left _ (hsame ▸ ht))
  | case3 h value rest ho ih =>
    rw [freezeAll_other ho]
    refine ih hs fun owner target hfrozen ht => ?_
    rcases hb owner target hfrozen ht with htarget | htarget
    · exact .inl htarget
    · rcases List.mem_cons.mp htarget with rfl | hrest
      · -- In a sound heap every target exists, so one that is not open is frozen.
        exact .inl (isFrozen_of_not_open (hs.targets ht) ho)
      · exact .inr hrest

theorem frozenInside_of_same (hf : h.FrozenInside) (hk : KeepsFrozen h h')
    (hinst : ∀ i, (h'.inst i).frozen = true → (h.inst i).frozen = true)
    (hrecord : ∀ r, (h'.record r).frozen = true → (h.record r).frozen = true) :
    h'.FrozenInside := by
  intro owner value ho hv
  have hold : h.IsFrozen owner := by
    cases owner with
    | inst i => exact hinst i ho
    | template t => exact hinst t.target ho
    | record r => exact hrecord r ho
    | _ => trivial
  rw [hk.targets hold] at hv
  exact hk.isFrozen (hf owner value hold hv)

theorem Change.frozenInside (hs : h.Sound) (hf : h.FrozenInside) (hc : Change h h') :
    h'.FrozenInside := by
  have hk := hc.keepsFrozen
  cases hc with
  | addInstance name maxDepth =>
    refine frozenInside_of_same hf hk (fun i hi => ?_) fun _ hr => hr
    rw [inst_addInstance] at hi
    split at hi
    · cases hi
    · exact hi
  | addRecord _ =>
    refine frozenInside_of_same hf hk (fun _ hi => hi) fun r hr => ?_
    rw [record_addRecord] at hr
    split at hr
    · cases hr
    · exact hr
  | takeSerial => exact frozenInside_of_same hf hk (fun _ hi => hi) fun _ hr => hr
  | setMember name _ _ =>
    refine frozenInside_of_same hf hk (fun i hi => ?_) fun _ hr => hr
    rwa [frozen_setMember] at hi
  | setChain _ _ _ _ =>
    refine frozenInside_of_same hf hk (fun i hi => ?_) fun _ hr => hr
    rwa [frozen_setChain] at hi
  | freeze stack =>
    exact freezeAll_frozenInside hs fun owner value ho hv => .inl (hf owner value ho hv)

theorem Changes.frozenInside (hs : h.Sound) (hf : h.FrozenInside) (hc : Changes h h') :
    h'.FrozenInside :=
  (hc.keeps (fun hlast hg => And.intro (hlast.sound hg.1) (hlast.frozenInside hg.1 hg.2))
    (And.intro hs hf)).2

theorem frozenInside_empty : Heap.FrozenInside {} := by
  intro owner value ho hv
  cases owner with
  | inst i => exact absurd (lt_of_frozen ho) (Nat.not_lt_zero _)
  | template t => exact absurd (lt_of_frozen ho) (Nat.not_lt_zero _)
  | record r => exact absurd (lt_of_frozen_record ho) (Nat.not_lt_zero _)
  | _ => cases hv

-- ---------------------------------------------------------------------------
-- What is reachable from frozen objects
-- ---------------------------------------------------------------------------

/-- Whether a walk gets from one value to another, through own members,
delegates and record fields; a template counts as its instance. -/
def Reaches (h : Heap) : Value → Value → Prop :=
  Relation.ReflTransGen fun owner value => value ∈ h.targets owner

/-- The object behind a value is frozen and the same in both heaps. -/
def StaysFrozen (h h' : Heap) : Value → Prop
  | .inst i => (h.inst i).frozen = true ∧ h'.inst i = h.inst i
  | .template t => (h.inst t.target).frozen = true ∧ h'.inst t.target = h.inst t.target
  | .record r => (h.record r).frozen = true ∧ h'.record r = h.record r
  | _ => True

theorem KeepsFrozen.staysFrozen (hk : KeepsFrozen h h') {value : Value} (hf : h.IsFrozen value) :
    h.StaysFrozen h' value := by
  cases value with
  | inst i => exact ⟨hf, hk.instances i hf⟩
  | template t => exact ⟨hf, hk.instances t.target hf⟩
  | record r => exact ⟨hf, hk.records r hf⟩
  | _ => trivial

theorem FrozenInside.reaches (hi : h.FrozenInside) {owner value : Value} (hf : h.IsFrozen owner)
    (hr : h.Reaches owner value) : h.IsFrozen value := by
  induction hr with
  | refl => exact hf
  | tail _ hv ih => exact hi _ _ ih hv

theorem FrozenInside.reaches_iff (hi : h.FrozenInside) (hk : KeepsFrozen h h') {owner : Value}
    (hf : h.IsFrozen owner) (value : Value) : h'.Reaches owner value ↔ h.Reaches owner value := by
  constructor
  · intro hr
    induction hr with
    | refl => exact .refl
    | tail _ hv ih => exact ih.tail (hk.targets (hi.reaches hf ih) ▸ hv)
  · intro hr
    induction hr with
    | refl => exact .refl
    | tail hr hv ih =>
      rw [← hk.targets (hi.reaches hf hr)] at hv
      exact ih.tail hv

-- ---------------------------------------------------------------------------
-- Closed parts of a heap
-- ---------------------------------------------------------------------------

/-- A set of values that contains the delegates of its instances, which two heaps
agree on. -/
structure SameWithin (h h' : Heap) (P : Value → Prop) : Prop where
  delegates : ∀ i, P (.inst i) → ∀ delegate ∈ (h.inst i).chain.delegates, P delegate
  target : ∀ t, P (.template t) → P (.inst t.target)
  instances : ∀ i, P (.inst i) → h'.inst i = h.inst i
  records : ∀ r, P (.record r) → h'.record r = h.record r

theorem firstSuccess_congr {ask ask' : Value → Except Error (Option Value)} {delegates : List Value}
    (ha : ∀ delegate ∈ delegates, ask' delegate = ask delegate)
    (outcome : Except Error (Option Value)) :
    firstSuccess ask' outcome delegates = firstSuccess ask outcome delegates := by
  induction delegates generalizing outcome with
  | nil => rfl
  | cons delegate rest ih =>
    rw [firstSuccess_cons, firstSuccess_cons, ha delegate List.mem_cons_self,
      ih fun d hd => ha d (List.mem_cons_of_mem _ hd)]

theorem namesAmong_congr {enter enter' : InstanceId → Except Error (List String)}
    {delegates : List Value}
    (he : ∀ delegate ∈ delegates, h'.namesOf enter' delegate = h.namesOf enter delegate) :
    h'.namesAmong enter' delegates = h.namesAmong enter delegates := by
  induction delegates with
  | nil => rfl
  | cons delegate rest ih =>
    rw [namesAmong, namesAmong, he delegate List.mem_cons_self,
      ih fun d hd => he d (List.mem_cons_of_mem _ hd)]

section
variable {P : Value → Prop} (hs : h.SameWithin h' P) {i : InstanceId} {value : Value}

include hs

/-- Two traversals agree from an instance of the set on if their visits agree at
instances of the set. -/
theorem SameWithin.descend {β : Type} {visit visit' : Visit β}
    (hv : ∀ depth i enter enter', P (.inst i) → (∀ j, P (.inst j) → enter' j = enter j) →
      visit' depth i enter' = visit depth i enter)
    (depth : Depth) (hi : P (.inst i)) : h'.descend visit' depth i = h.descend visit depth i := by
  induction depth using Depth.down_induction generalizing i with
  | step depth ih =>
    rw [h'.descend_eq, h.descend_eq, hs.instances i hi]
    refine hv depth i _ _ hi fun j hj => ?_
    cases hd : depth.descend (h.inst i).name with
    | error e => rfl
    | ok below => exact ih _ below hd hj

theorem SameWithin.attrOf {name : String} {enter enter' : InstanceId → Except Error (Option Value)}
    (he : ∀ j, P (.inst j) → enter' j = enter j) (hp : P value) :
    h'.attrOf name enter' value = h.attrOf name enter value := by
  cases value with
  | inst j => exact he j hp
  | template t => exact he t.target (hs.target t hp)
  | record r => rw [Heap.attrOf, Heap.attrOf, hs.records r hp]
  | _ => rfl

theorem SameWithin.namesOf {enter enter' : InstanceId → Except Error (List String)}
    (he : ∀ j, P (.inst j) → enter' j = enter j) (hp : P value) :
    h'.namesOf enter' value = h.namesOf enter value := by
  cases value with
  | inst j => exact he j hp
  | template t => exact he t.target (hs.target t hp)
  | record r => rw [Heap.namesOf, Heap.namesOf, hs.records r hp]
  | _ => rfl

theorem SameWithin.lookupAt (name : String) (depth : Depth) (hi : P (.inst i)) :
    h'.lookupAt name depth i = h.lookupAt name depth i := by
  refine hs.descend (fun depth j enter enter' hj he => ?_) depth hi
  have hd : ∀ delegate ∈ (h.inst j).chain.delegates,
      h'.attrOf name enter' delegate = h.attrOf name enter delegate :=
    fun delegate hd => hs.attrOf he (hs.delegates j hj delegate hd)
  rw [lookupVisit, lookupVisit, superValue, superValue, hs.instances j hj, firstSuccess_congr hd]

theorem SameWithin.namesAt (depth : Depth) (hi : P (.inst i)) :
    h'.namesAt depth i = h.namesAt depth i := by
  refine hs.descend (fun depth j enter enter' hj he => ?_) depth hi
  have hd : ∀ delegate ∈ (h.inst j).chain.delegates,
      h'.namesOf enter' delegate = h.namesOf enter delegate :=
    fun delegate hd => hs.namesOf he (hs.delegates j hj delegate hd)
  rw [namesVisit, namesVisit, hs.instances j hj, namesAmong_congr hd]

end

-- ---------------------------------------------------------------------------
-- What frozen instances answer
-- ---------------------------------------------------------------------------

section
variable (hf : h.FrozenInside) (hk : KeepsFrozen h h') {i : InstanceId}
  (hi : (h.inst i).frozen = true)

include hf hk

theorem FrozenInside.sameWithin : h.SameWithin h' h.IsFrozen where
  delegates i hi delegate hd := hf (.inst i) delegate hi (mem_targets.mpr (.inr hd))
  target _ ht := ht
  instances := hk.instances
  records := hk.records

include hi

theorem lookup_same (name : String) : h'.lookup name i = h.lookup name i := by
  have hroot : h'.root i = h.root i := by rw [root, root, hk.instances i hi]
  rw [lookup, lookup, hroot]
  exact (hf.sameWithin hk).lookupAt name _ hi

theorem names_same : h'.names i = h.names i := by
  have hroot : h'.root i = h.root i := by rw [root, root, hk.instances i hi]
  rw [names, names, hroot]
  exact (hf.sameWithin hk).namesAt _ hi

theorem structuralText_same : h'.structuralText i = h.structuralText i := by
  rw [structuralText, structuralText, names_same hf hk hi, hk.instances i hi]

end

end Heap

-- ---------------------------------------------------------------------------
-- Frozen objects in runs
-- ---------------------------------------------------------------------------

namespace Machine

variable {γ σ : Type} {host : Host γ σ} {m m' : Machine γ σ}

theorem Reachable.frozenInside (hm : m.Reachable host) : m.heap.FrozenInside :=
  Heap.Changes.frozenInside Heap.sound_empty Heap.frozenInside_empty hm.changes

/-- Frozen means deeply immutable for ever: whatever runs later, everything
reachable from a frozen instance is frozen and stays the same, so the instance
answers the same. -/
theorem frozen_for_ever (hm : m.Reachable host) (hsteps : Steps host m m') {i : InstanceId}
    (hi : (m.heap.inst i).frozen = true) :
    (∀ value, m.heap.Reaches (.inst i) value → m.heap.StaysFrozen m'.heap value) ∧
      (∀ value, m'.heap.Reaches (.inst i) value ↔ m.heap.Reaches (.inst i) value) ∧
      (∀ name, m'.heap.lookup name i = m.heap.lookup name i) ∧
      m'.heap.names i = m.heap.names i ∧
      m'.heap.structuralText i = m.heap.structuralText i := by
  have hinside := hm.frozenInside
  have hkeeps := Heap.Changes.keepsFrozen (hsteps.changes hm.sound)
  have hfrozen : m.heap.IsFrozen (.inst i) := hi
  refine ⟨fun value hr => ?_, fun value => ?_, fun name => ?_, ?_, ?_⟩
  · exact hkeeps.staysFrozen (hinside.reaches hfrozen hr)
  · exact hinside.reaches_iff hkeeps hfrozen value
  · exact Heap.lookup_same hinside hkeeps hi name
  · exact Heap.names_same hinside hkeeps hi
  · exact Heap.structuralText_same hinside hkeeps hi

theorem freezeAll_widget : ((widget false).heap.freezeAll [.inst ⟨1⟩]).1 = (widget true).heap := by
  rw [Heap.freezeAll_open (by decide)]
  change (Heap.freezeAll _ [.inst ⟨0⟩]).1 = _
  rw [Heap.freezeAll_open (by decide)]
  change (Heap.freezeAll _ [.int 4]).1 = _
  rw [Heap.freezeAll_other (by decide), Heap.freezeAll_nil]
  rfl

def tamper : Program Unit Unit Unit := do
  tryCatch (Program.run (.write (.inst ⟨1⟩) "size" (.int 9))) fun _ => pure ()
  let late ← Program.run (.newInstance "Late" 3)
  Program.run (.addDelegate late (.inst ⟨1⟩))

theorem frozen_for_ever_widget :
    ∃ m', (widget true).Reachable idle ∧ Steps idle (widget true) m' ∧
      ((widget true).heap.inst ⟨1⟩).frozen = true ∧ m'.heap.instances.size = 3 ∧
      m'.heap.inst ⟨0⟩ = (widget true).heap.inst ⟨0⟩ ∧
      m'.heap.lookup "size" ⟨1⟩ = .ok (some (.int 4)) := by
  have hfreeze : Eval.run idle 1 (Program.run (.freeze (.inst ⟨1⟩))) (widget false) =
      .ok (.ok (), { widget false with heap := ((widget false).heap.freezeAll [.inst ⟨1⟩]).1 }) :=
    rfl
  rw [freezeAll_widget] at hfreeze
  have hreachable := widget_reachable.steps (.single (.run 1 _ hfreeze))
  obtain ⟨m', htamper, hsize⟩ : ∃ m', Eval.run idle 1 tamper (widget true) = .ok (.ok (), m') ∧
      m'.heap.instances.size = 3 := ⟨_, rfl, rfl⟩
  have hsteps : Steps idle (widget true) m' := .single (.run 1 tamper htamper)
  have hfrozen : ((widget true).heap.inst ⟨1⟩).frozen = true := rfl
  obtain ⟨hstays, -, hlookup, -, -⟩ := frozen_for_ever hreachable hsteps hfrozen
  have hbase : (widget true).heap.Reaches (.inst ⟨1⟩) (.inst ⟨0⟩) :=
    .single (by decide)
  exact ⟨m', hreachable, hsteps, hfrozen, hsize, (hstays _ hbase).2, hlookup "size"⟩

end Machine

end Delegation

import Delegation.Proofs.Alike
import Delegation.Proofs.Nesting

/-!
# Calls of templates

A call of a template walks its instance and what lies below, depth first, for the
first own initializer (`initializer?_walk`). It runs that one initializer once,
and afterwards replaces the templates on the way to it by their instances, the
deepest first. What it replaces and where it stops is told by the heap that the
initializer left (`forM_settle`): replacing one template changes nothing that the
installation of another depends on.
-/

namespace Delegation

open Relation (TransGen ReflTransGen)

/-- Where a walk for an initializer comes by: an instance, with the levels gone
through to get there, the deepest first, or a level too deep to enter. -/
inductive Stop where
  | entered (i : InstanceId) (path : List PathStep)
  | tooDeep (owner : String)

/-- A stop below a level, seen from the owner of that level. -/
def Stop.under (step : PathStep) : Stop → Stop
  | entered i path => entered i (path ++ [step])
  | tooDeep owner => tooDeep owner

namespace Heap

variable (h : Heap)

-- ---------------------------------------------------------------------------
-- The walk
-- ---------------------------------------------------------------------------

def stopsBelow (enter : InstanceId → List Stop) (owner : InstanceId) :
    Nat × Value → List Stop
  | (level, delegate) =>
    match delegate.instance? with
    | some j => (enter j).map (Stop.under ⟨owner, level, delegate⟩)
    | none => []

/-- An instance, then what lies below its instance and template delegates, level
by level. -/
def walkWith (enter : InstanceId → List Stop) (i : InstanceId) : List Stop :=
  .entered i [] :: (h.inst i).chain.indexed.flatMap (stopsBelow enter i)

def walkWithin : Nat → InstanceId → List Stop
  | 0, i => h.walkWith (fun _ => [.tooDeep (h.inst i).name]) i
  | levels + 1, i => h.walkWith (walkWithin levels) i

def walkBelow (owner : String) (depth : Depth) (i : InstanceId) : List Stop :=
  match depth.descend owner with
  | .ok below => h.walkWithin below.remaining i
  | .error _ => [.tooDeep owner]

theorem walkWithin_eq (depth : Depth) (i : InstanceId) :
    h.walkWithin depth.remaining i = h.walkWith (h.walkBelow (h.inst i).name depth) i := by
  obtain ⟨level, remaining⟩ := depth
  cases remaining <;> rfl

/-- The whole walk from an instance, depth first, within its bound. -/
def walk (i : InstanceId) : List Stop := h.walkWithin (h.inst i).maxDepth i

/-- Whether the search ends at a stop: the instance has an own initializer, or
the stop lies too deep. -/
def endsAt : Stop → Bool
  | .entered i _ => (h.ownInit? i).isSome
  | .tooDeep _ => true

def found (max : Nat) : Option Stop → Except Error (Option Initializer)
  | none => .ok none
  | some (.entered i path) => .ok ((h.ownInit? i).map fun method => ⟨i, method, path⟩)
  | some (.tooDeep owner) => .error (.delegateDepth owner max)

variable {h}

@[simp] theorem endsAt_under (step : PathStep) (stop : Stop) :
    h.endsAt (stop.under step) = h.endsAt stop := by
  cases stop <;> rfl

theorem initializerAmong_walk {max : Nat} (owner : InstanceId)
    {enter : InstanceId → Except Error (Option Initializer)} {stops : InstanceId → List Stop}
    (he : ∀ j, enter j = h.found max ((stops j).find? h.endsAt)) (levels : List (Nat × Value)) :
    initializerAmong owner enter levels =
      h.found max ((levels.flatMap (stopsBelow stops owner)).find? h.endsAt) := by
  induction levels with
  | nil => rfl
  | cons entry rest ih =>
    obtain ⟨level, delegate⟩ := entry
    rw [initializerAmong, List.flatMap_cons, List.find?_append, stopsBelow, ih]
    cases delegate.instance? with
    | none => rfl
    | some j =>
      have hunder : h.endsAt ∘ Stop.under ⟨owner, level, delegate⟩ = h.endsAt :=
        funext fun stop => endsAt_under _ stop
      simp only [he, List.find?_map, hunder]
      cases hf : (stops j).find? h.endsAt with
      | none => rfl
      | some stop =>
        cases stop with
        | tooDeep owner => rfl
        | entered i path =>
          have hends := List.find?_some hf
          obtain ⟨method, hm⟩ := Option.isSome_iff_exists.mp hends
          simp [found, Stop.under, hm, bind, Except.bind, pure, Except.pure]

/-- The search for an initializer gives the first stop of the walk that ends it. -/
theorem initializerAt_walk (depth : Depth) (i : InstanceId) :
    h.initializerAt depth i =
      h.found depth.max ((h.walkWithin depth.remaining i).find? h.endsAt) := by
  induction depth using Depth.down_induction generalizing i with
  | step depth ih =>
    rw [initializerAt, descend_eq, initializerVisit, walkWithin_eq, walkWith, List.find?_cons]
    cases hm : h.ownInit? i with
    | some method => simp [endsAt, found, hm]
    | none =>
      have hbelow (j : InstanceId) :
          ((depth.descend (h.inst i).name).bind fun below => h.initializerAt below j) =
            h.found depth.max ((h.walkBelow (h.inst i).name depth j).find? h.endsAt) := by
        rw [walkBelow]
        cases hd : depth.descend (h.inst i).name with
        | error e =>
          obtain rfl := Depth.descend_error hd
          rfl
        | ok below =>
          rw [← Depth.max_descend hd]
          exact ih _ below hd j
      simp only [endsAt, hm, Option.isSome_none]
      exact initializerAmong_walk i hbelow (h.inst i).chain.indexed

theorem initializer?_walk (i : InstanceId) :
    h.initializer? i = h.found (h.inst i).maxDepth ((h.walk i).find? h.endsAt) := by
  have hr : (h.root i).max = (h.inst i).maxDepth := Depth.max_root _
  rw [initializer?, initializerAt_walk, hr]
  rfl

-- ---------------------------------------------------------------------------
-- Installing instances
-- ---------------------------------------------------------------------------

/-- What keeps a template on the path from giving way to its instance: its level
still holds it, but the owner of the level is frozen, or the instance may not be
placed there. -/
def obstacle? (h : Heap) (step : PathStep) : Option Error :=
  match step.delegate with
  | .template t =>
    if (h.inst step.owner).chain.holds step.level step.delegate then
      match (do
        h.checkOpen SpecialName.super.text step.owner
        h.checkPlacement step.owner (.inst t.target)) with
      | .error e => some e
      | .ok () => none
    else none
  | _ => none

/-- The heap after a template on the path, if its level still holds it, has given
way to its instance. -/
def upgrade (h : Heap) (step : PathStep) : Heap :=
  match step.delegate with
  | .template t =>
    if (h.inst step.owner).chain.holds step.level step.delegate then
      h.setChain step.owner ((h.inst step.owner).chain.setLevel step.level (.inst t.target))
    else h
  | _ => h

/-- What a level holds after the given steps have been settled. -/
def upgradedLevel (steps : List PathStep) (owner : InstanceId) (level : Nat) :
    Option Value → Option Value
  | some (.template t) =>
    if ⟨owner, level, .template t⟩ ∈ steps then some (.inst t.target) else some (.template t)
  | held => held

/-- The second heap is the first but for the levels of the given steps: those that
were and still are held by a template hold its instance. -/
structure Upgraded (h : Heap) (steps : List PathStep) (h' : Heap) : Prop where
  levels : ∀ i k, (h'.inst i).chain.levels[k]? =
    (h.inst i).chain.levels[k]?.map (upgradedLevel steps i k)
  otherwise : ∀ i, h'.inst i = { h.inst i with chain := (h'.inst i).chain }
  count : h'.instances.size = h.instances.size
  records : h'.records = h.records
  serials : h'.nextSerial = h.nextSerial

/-- The step went through a template that its level still holds. -/
def Pending (h : Heap) (step : PathStep) (t : Template) : Prop :=
  step.delegate = .template t ∧ (h.inst step.owner).chain.holds step.level (.template t) = true

theorem upgrade_pending {step : PathStep} {t : Template} (hp : h.Pending step t) :
    h.upgrade step =
      h.setChain step.owner ((h.inst step.owner).chain.setLevel step.level (.inst t.target)) := by
  obtain ⟨ht, hh⟩ := hp
  simp only [upgrade, ht, hh, ↓reduceIte]

theorem upgrade_settled {step : PathStep} (hn : ∀ t, ¬ h.Pending step t) : h.upgrade step = h := by
  unfold upgrade
  split
  case h_1 t ht =>
    have hh : ¬ (h.inst step.owner).chain.holds step.level step.delegate = true :=
      fun hh => hn t ⟨ht, ht ▸ hh⟩
    rw [if_neg hh]
  case h_2 => rfl

theorem obstacle?_settled {step : PathStep} (hn : ∀ t, ¬ h.Pending step t) :
    h.obstacle? step = none := by
  unfold obstacle?
  split
  case h_1 t ht =>
    have hh : ¬ (h.inst step.owner).chain.holds step.level step.delegate = true :=
      fun hh => hn t ⟨ht, ht ▸ hh⟩
    rw [if_neg hh]
  case h_2 => rfl

theorem alike_upgrade (h : Heap) (step : PathStep) : h.Alike (h.upgrade step) := by
  by_cases hp : ∃ t, h.Pending step t
  · obtain ⟨t, hp⟩ := hp
    rw [upgrade_pending hp]
    exact alike_setLevel hp.2
  · rw [upgrade_settled (not_exists.mp hp)]
    exact .refl h

theorem lt_of_level {i : InstanceId} {k : Nat} {level : Option Value}
    (hl : (h.inst i).chain.levels[k]? = some level) : i.index < h.instances.size := by
  refine Nat.lt_of_not_le fun hle => ?_
  rw [inst_of_le h hle] at hl
  cases hl

/-- Only the level of a pending step changes. -/
theorem upgradedLevel_single (h : Heap) (step : PathStep) (i : InstanceId) (k : Nat)
    (hn : ∀ t, h.Pending step t → step.owner = i → step.level ≠ k) :
    (h.inst i).chain.levels[k]?.map (upgradedLevel [step] i k) =
      (h.inst i).chain.levels[k]? := by
  cases hl : (h.inst i).chain.levels[k]? with
  | none => rfl
  | some level =>
    unfold upgradedLevel
    dsimp only [Option.map_some]
    split
    case h_1 t =>
      rw [if_neg]
      intro hmem
      obtain rfl := List.mem_singleton.mp hmem
      exact hn t ⟨rfl, Chain.holds_template.mpr hl⟩ rfl rfl
    case h_2 => rfl

theorem levels_upgrade (h : Heap) (step : PathStep) (i : InstanceId) (k : Nat) :
    ((h.upgrade step).inst i).chain.levels[k]? =
      (h.inst i).chain.levels[k]?.map (upgradedLevel [step] i k) := by
  by_cases hp : ∃ t, h.Pending step t
  · obtain ⟨t, hp⟩ := hp
    obtain ⟨ht, hh⟩ := hp
    have hl := Chain.holds_template.mp hh
    have hlt := lt_of_level hl
    simp only [upgrade_pending ⟨ht, hh⟩, setChain, inst_modify, hlt, and_true]
    by_cases hsame : step.owner = i ∧ step.level = k
    · obtain ⟨rfl, rfl⟩ := hsame
      obtain ⟨owner, level, delegate⟩ := step
      obtain rfl : delegate = .template t := ht
      have hset : ((h.inst owner).chain.setLevel level (.inst t.target)).levels[level]? =
          some (some (.inst t.target)) :=
        List.getElem?_set_self (List.getElem?_eq_some_iff.mp hl).1
      rw [if_pos rfl, hset, hl]
      simp [upgradedLevel]
    · rw [upgradedLevel_single h step i k fun _ _ ho hk => hsame ⟨ho, hk⟩]
      split
      case isTrue ho =>
        have hk : step.level ≠ k := fun hk => hsame ⟨ho, hk⟩
        rw [ho]
        exact List.getElem?_set_ne hk
      case isFalse => rfl
  · rw [upgrade_settled (not_exists.mp hp),
      upgradedLevel_single h step i k fun t ht => absurd ⟨t, ht⟩ hp]

theorem upgraded_nil (h : Heap) : h.Upgraded [] h where
  levels i k := by
    have hid : upgradedLevel [] i k = id := by
      funext level
      unfold upgradedLevel
      split <;> rfl
    simp [hid]
  otherwise _ := rfl
  count := rfl
  records := rfl
  serials := rfl

/-- Once a template has given way, no later step concerns its level. -/
theorem upgradedLevel_cons (step : PathStep) (steps : List PathStep) (i : InstanceId) (k : Nat)
    (level : Option Value) :
    upgradedLevel (step :: steps) i k level =
      upgradedLevel steps i k (upgradedLevel [step] i k level) := by
  cases level with
  | none => rfl
  | some held =>
    cases held with
    | template t => by_cases ht : ⟨i, k, .template t⟩ = step <;> simp [upgradedLevel, ht]
    | _ => rfl

theorem upgraded_cons {step : PathStep} {steps : List PathStep} {h' : Heap}
    (hu : (h.upgrade step).Upgraded steps h') : h.Upgraded (step :: steps) h' where
  levels i k := by
    rw [hu.levels, levels_upgrade, Option.map_map]
    congr 1
    funext level
    exact (upgradedLevel_cons step steps i k level).symm
  otherwise i := by
    have hi := (alike_upgrade h step).instances i
    refine (hu.otherwise i).trans ?_
    simp only [hi.name, hi.maxDepth, hi.members, hi.frozen]
  count := hu.count.trans (alike_upgrade h step).count
  records := hu.records.trans (alike_upgrade h step).records
  serials := hu.serials.trans (alike_upgrade h step).serials

theorem upgraded_foldl (h : Heap) (steps : List PathStep) :
    h.Upgraded steps (steps.foldl upgrade h) := by
  induction steps generalizing h with
  | nil => exact upgraded_nil h
  | cons step steps ih => exact upgraded_cons (ih _)

theorem obstacle?_pending {step : PathStep} {t : Template} (hp : h.Pending step t) :
    h.obstacle? step =
      match (do
        h.checkOpen SpecialName.super.text step.owner
        h.checkPlacement step.owner (.inst t.target)) with
      | .error e => some e
      | .ok () => none := by
  obtain ⟨ht, hh⟩ := hp
  simp only [obstacle?, ht, hh, ↓reduceIte]

theorem upgradedLevel_template {steps : List PathStep} {i : InstanceId} {k : Nat}
    {level : Option Value} {t : Template} :
    upgradedLevel steps i k level = some (.template t) ↔
      level = some (.template t) ∧ ⟨i, k, .template t⟩ ∉ steps := by
  cases level with
  | none => simp [upgradedLevel]
  | some held =>
    cases held with
    | template u =>
      by_cases hu : ⟨i, k, .template u⟩ ∈ steps
      · simp only [upgradedLevel, hu, ↓reduceIte]
        constructor
        · rintro ⟨⟩
        · rintro ⟨⟨⟩, hn⟩
          exact absurd hu hn
      · simp only [upgradedLevel, hu, ↓reduceIte]
        constructor
        · rintro ⟨⟩
          exact ⟨rfl, hu⟩
        · exact fun ht => ht.1
    | _ => simp [upgradedLevel]

theorem pending_upgrade {step other : PathStep} {t : Template} :
    (h.upgrade step).Pending other t ↔ h.Pending other t ∧ other ≠ step := by
  obtain ⟨owner, level, delegate⟩ := other
  simp only [Pending, Chain.holds_template, levels_upgrade, Option.map_eq_some_iff,
    upgradedLevel_template]
  constructor
  · rintro ⟨rfl, _, hl, rfl, hn⟩
    exact ⟨⟨rfl, hl⟩, by simpa using hn⟩
  · rintro ⟨⟨rfl, hl⟩, hn⟩
    exact ⟨rfl, _, hl, rfl, by simpa using hn⟩

/-- A template that gives way changes nothing for the other steps. -/
theorem obstacle?_upgrade {step : PathStep} (ho : h.obstacle? step = none) (other : PathStep) :
    (h.upgrade step).obstacle? other = h.obstacle? other := by
  by_cases hp : ∃ t, (h.upgrade step).Pending other t
  · obtain ⟨t, hp⟩ := hp
    have ha := alike_upgrade h step
    rw [obstacle?_pending hp, obstacle?_pending (pending_upgrade.mp hp).1, checkOpen_alike ha,
      checkPlacement_alike ha other.owner (.same _)]
  · rw [obstacle?_settled (not_exists.mp hp)]
    by_cases hsame : other = step
    · rw [hsame, ho]
    · refine (obstacle?_settled fun t ht => hp ⟨t, ?_⟩).symm
      exact pending_upgrade.mpr ⟨ht, hsame⟩

-- ---------------------------------------------------------------------------
-- What an obstacle is
-- ---------------------------------------------------------------------------

/-- In a heap without cycles, only a frozen owner or too deep a nesting keeps a
template from giving way to its instance: the instance already lies below. -/
theorem Acyclic.obstacle (ha : h.Acyclic) {step : PathStep} {e : Error}
    (ho : h.obstacle? step = some e) :
    (h.inst step.owner).frozen = true ∧
        e = .frozen (h.inst step.owner).name SpecialName.super.text ∨
      (h.inst step.owner).frozen = false ∧ e.isDepth = true := by
  by_cases hp : ∃ t, h.Pending step t
  · obtain ⟨t, hp⟩ := hp
    have hbelow : h.Below step.owner t.target :=
      ⟨.template t, Chain.mem_delegates_of_holds hp.2, rfl⟩
    rw [obstacle?_pending hp, checkOpen] at ho
    cases hf : (h.inst step.owner).frozen with
    | true =>
      rw [hf] at ho
      cases ho
      exact .inl ⟨rfl, rfl⟩
    | false =>
      refine .inr ⟨rfl, ?_⟩
      rw [hf] at ho
      change (match h.checkPlacement step.owner (.inst t.target) with
        | .error e => some e
        | .ok () => none) = some e at ho
      split at ho
      case h_1 hc =>
        cases ho
        rcases ha.checkPlacement_error rfl hc with ⟨-, hr⟩ | ⟨⟨owner, rfl⟩, -⟩
        · exact absurd (.head' hbelow hr) (ha step.owner)
        · rfl
      case h_2 => cases ho
  · rw [obstacle?_settled (not_exists.mp hp)] at ho
    cases ho

end Heap

-- ---------------------------------------------------------------------------
-- Settling the path
-- ---------------------------------------------------------------------------

namespace Eval

variable {γ σ : Type}

theorem settle_template {step : PathStep} {t : Template} (ht : step.delegate = .template t)
    (m : Machine γ σ) : ∃ trace, settle step m =
      commit (m.heap.fillLevel step.owner step.level (.template t) (.inst t.target))
        { m with trace } := by
  unfold settle
  rw [ht]
  simp only [run_bind, run_heap]
  cases (m.heap.inst step.owner).chain.holds step.level (.template t) with
  | true => exact ⟨m.trace, rfl⟩
  | false =>
    let rewritten := Event.levelRewritten (m.heap.inst step.owner).name step.level
    refine ⟨(m.report fun _ => [rewritten]).trace, ?_⟩
    rw [← Machine.report_eq]
    rfl

/-- One step settles, or an obstacle ends the evaluation and nothing changes. -/
theorem settle_run (step : PathStep) (m : Machine γ σ) : ∃ trace, settle step m =
    match m.heap.obstacle? step with
    | some e => .ok (.error e, { m with trace })
    | none => .ok (.ok (), { m with heap := m.heap.upgrade step, trace }) := by
  by_cases hp : ∃ t, m.heap.Pending step t
  · obtain ⟨t, hp⟩ := hp
    obtain ⟨trace, hs⟩ := settle_template hp.1 m
    refine ⟨trace, ?_⟩
    rw [hs, run_commit, Heap.fillLevel, if_pos hp.2, Heap.upgrade_pending hp,
      Heap.obstacle?_pending hp]
    cases m.heap.checkOpen SpecialName.super.text step.owner with
    | error e => rfl
    | ok u =>
      cases m.heap.checkPlacement step.owner (.inst t.target) <;> rfl
  · rw [Heap.obstacle?_settled (not_exists.mp hp), Heap.upgrade_settled (not_exists.mp hp)]
    cases hd : step.delegate with
    | template t =>
      obtain ⟨trace, hs⟩ := settle_template hd m
      have hh : ¬ (m.heap.inst step.owner).chain.holds step.level (.template t) = true :=
        fun hh => hp ⟨t, hd, hh⟩
      refine ⟨trace, ?_⟩
      rw [hs, run_commit, Heap.fillLevel, if_neg hh]
      rfl
    | _ =>
      refine ⟨m.trace, ?_⟩
      simp only [settle, hd, run_pure]

/-- The steps of a path settle in order up to the first obstacle. Both are told
by the heap at the start. -/
theorem forM_settle (steps : List PathStep) (m : Machine γ σ) : ∃ trace, steps.forM settle m =
    .ok (match steps.findSome? m.heap.obstacle? with
        | some e => .error e
        | none => .ok (),
      { m with
        heap := (steps.takeWhile fun step => (m.heap.obstacle? step).isNone).foldl Heap.upgrade
          m.heap
        trace }) := by
  induction steps generalizing m with
  | nil => exact ⟨m.trace, rfl⟩
  | cons step steps ih =>
    obtain ⟨trace, hs⟩ := settle_run step m
    change ∃ trace, (settle step >>= fun _ => steps.forM settle) m = _
    rw [run_bind, hs, List.findSome?_cons, List.takeWhile_cons]
    cases ho : m.heap.obstacle? step with
    | some e => exact ⟨trace, rfl⟩
    | none =>
      have hsame : (m.heap.upgrade step).obstacle? = m.heap.obstacle? :=
        funext (Heap.obstacle?_upgrade ho)
      obtain ⟨trace', hr⟩ := ih { m with heap := m.heap.upgrade step, trace }
      refine ⟨trace', ?_⟩
      dsimp only at hr ⊢
      rw [hr, hsame]
      rfl

/-- How a call goes on in the machine that an initializer left: the steps before
the first obstacle are settled. The obstacle, if there is one, is what the call
ends with; otherwise it ends with the instance. -/
structure Settles (after : Machine γ σ) (path : List PathStep) (i : InstanceId)
    (result : Except Error Value) (final : Machine γ σ) : Prop where
  result : result =
    match path.findSome? after.heap.obstacle? with
    | some e => .error e
    | none => .ok (.inst i)
  upgraded : after.heap.Upgraded
    (path.takeWhile fun step => (after.heap.obstacle? step).isNone) final.heap
  otherwise : final = { after with heap := final.heap, trace := final.trace }
  obstacles : ∀ step ∈ path, ∀ e, after.heap.obstacle? step = some e →
    (after.heap.inst step.owner).frozen = true ∧
        e = .frozen (after.heap.inst step.owner).name SpecialName.super.text ∨
      (after.heap.inst step.owner).frozen = false ∧ e.isDepth = true

/-- What a call of a template comes to, told by the walk from its instance. The
initializer is called once, with the arguments of the call; what it returns does
not matter. -/
def FollowsWalk (host : Host γ σ) (fuel : Nat) (t : Template) (arguments : Arguments)
    (m : Machine γ σ) (outcome : Except Halt (Except Error Value × Machine γ σ)) : Prop :=
  match (m.heap.walk t.target).find? m.heap.endsAt with
  | none => ∃ trace, outcome = .ok (.ok (.inst t.target), { m with trace })
  | some (.tooDeep owner) => ∃ trace,
    outcome = .ok (.error (.delegateDepth owner (m.heap.inst t.target).maxDepth), { m with trace })
  | some (.entered holder path) => ∃ method trace, m.heap.ownInit? holder = some method ∧
    match call host fuel method arguments { m with trace } with
    | .error reason => outcome = .error reason
    | .ok (.error e, after) => outcome = .ok (.error e, after)
    | .ok (.ok _, after) => ∃ result final, outcome = .ok (result, final) ∧
      Settles after path t.target result final

theorem call_template (host : Host γ σ) (fuel : Nat) (t : Template) (arguments : Arguments) :
    call host (fuel + 1) (.template t) arguments = construct (call host fuel) t arguments := rfl

/-- The search for an initializer, its one run, and the steps after it. -/
theorem runInitializer_run (call : Caller γ σ) (i : InstanceId) (arguments : Arguments)
    (m : Machine γ σ) : ∃ trace, runInitializer call i arguments m =
      match m.heap.initializer? i with
      | .error e => .ok (.error e, { m with trace })
      | .ok none => .ok (.ok false, { m with trace })
      | .ok (some found) =>
        match call found.method arguments { m with trace } with
        | .error reason => .error reason
        | .ok (.error e, after) => .ok (.error e, after)
        | .ok (.ok _, after) => (found.path.forM settle >>= fun _ => pure true) after := by
  refine ⟨(m.report fun _ => m.heap.initializerEvents i).trace, ?_⟩
  rw [← Machine.report_eq]
  unfold runInitializer
  simp only [run_bind, run_heap, run_report, run_outcome]
  cases m.heap.initializer? i with
  | error e => rfl
  | ok found =>
    cases found with
    | none => rfl
    | some found =>
      simp only [run_bind, run_discard]
      cases call found.method arguments (m.report fun _ => m.heap.initializerEvents i) with
      | error reason => rfl
      | ok left =>
        obtain ⟨result, after⟩ := left
        cases result <;> rfl

/-- The instance that a call ends with, reported as constructed. -/
theorem finish_run (t : Template) (initialized : Bool) (m : Machine γ σ) : ∃ trace,
    (do
      let h ← heap
      report fun _ => [.constructed (h.inst t.target).name initialized]
      return .inst t.target : Eval γ σ Value) m = .ok (.ok (.inst t.target), { m with trace }) := by
  refine ⟨(m.report fun _ => [.constructed (m.heap.inst t.target).name initialized]).trace, ?_⟩
  rw [← Machine.report_eq]
  simp only [run_bind, run_heap, run_report, run_pure]

theorem settles_path {after : Machine γ σ} (ha : after.heap.Acyclic) (path : List PathStep)
    (t : Template) : ∃ result final,
      (do
        let initialized ← path.forM settle >>= fun _ => pure true
        let h ← heap
        report fun _ => [.constructed (h.inst t.target).name initialized]
        return .inst t.target : Eval γ σ Value) after = .ok (result, final) ∧
      Settles after path t.target result final := by
  obtain ⟨trace, hr⟩ := forM_settle path after
  have hu := Heap.upgraded_foldl after.heap
    (path.takeWhile fun step => (after.heap.obstacle? step).isNone)
  rw [run_bind, run_bind, hr]
  cases ho : path.findSome? after.heap.obstacle? with
  | some e =>
    refine ⟨.error e, _, rfl, ⟨?_, hu, rfl, fun _ _ _ he => ha.obstacle he⟩⟩
    rw [ho]
  | none =>
    obtain ⟨trace', hf⟩ := finish_run t true { after with
      heap := (path.takeWhile fun step => (after.heap.obstacle? step).isNone).foldl Heap.upgrade
        after.heap
      trace }
    refine ⟨.ok (.inst t.target), _, hf, ⟨?_, hu, rfl, fun _ _ _ he => ha.obstacle he⟩⟩
    rw [ho]

end Eval

namespace Machine

variable {γ σ : Type} {host : Host γ σ} {m : Machine γ σ}

/-- No code that a call runs makes a cycle. -/
theorem Reachable.acyclic_call (hm : m.Reachable host) {fuel : Nat} {callee : Value}
    (hcallee : m.heap.Knows callee) {arguments : Arguments}
    (hk : ∀ value ∈ arguments.values, m.heap.Knows value) {trace : Array Event}
    {result : Except Error Value} {after : Machine γ σ}
    (hc : Eval.call host fuel callee arguments { m with trace } = .ok (result, after)) :
    after.heap.Acyclic := by
  have hchanges := Eval.call_leads host fuel { m with trace } callee arguments hm.sound
    hcallee hk _ _ hc
  exact Heap.Changes.acyclic hm.acyclic hchanges

/-- A call of a template follows the walk from its instance: without an
initializer it changes nothing; otherwise it runs the first one once and settles
the path to it. -/
theorem call_follows_walk (hm : m.Reachable host) (fuel : Nat) (t : Template)
    {arguments : Arguments} (hk : ∀ value ∈ arguments.values, m.heap.Knows value) :
    Eval.FollowsWalk host fuel t arguments m
      (Eval.call host (fuel + 1) (.template t) arguments m) := by
  have hwalk := Heap.initializer?_walk (h := m.heap) t.target
  obtain ⟨trace, hr⟩ := Eval.runInitializer_run (Eval.call host fuel) t.target arguments m
  rw [Eval.call_template, Eval.construct, Eval.run_bind, hr, Eval.FollowsWalk]
  cases hs : (m.heap.walk t.target).find? m.heap.endsAt with
  | none =>
    rw [hwalk, hs]
    exact Eval.finish_run t false { m with trace }
  | some stop =>
    cases stop with
    | tooDeep owner =>
      rw [hwalk, hs]
      exact ⟨trace, rfl⟩
    | entered holder path =>
      have hends := List.find?_some hs
      obtain ⟨method, hown⟩ := Option.isSome_iff_exists.mp hends
      have hfound : m.heap.initializer? t.target = .ok (some ⟨holder, method, path⟩) := by
        rw [hwalk, hs, Heap.found, hown]
        rfl
      refine ⟨method, trace, hown, ?_⟩
      rw [hfound]
      dsimp only
      cases hc : Eval.call host fuel method arguments { m with trace } with
      | error reason => rfl
      | ok left =>
        obtain ⟨result, after⟩ := left
        cases result with
        | error e => rfl
        | ok value =>
          have hmethod : m.heap.Knows method := Heap.initializerAt_known hm.sound _ hfound
          have hsettles := Eval.settles_path (hm.acyclic_call hmethod hk hc) path t
          rwa [Eval.run_bind] at hsettles

-- A template over a template that holds an initializer.

def makePoint : Program Unit Unit Value := do
  let base ← Program.run (.newInstance "Base" 3)
  let init ← Program.run (.newFunction "init" (.host ()))
  let method ← Program.run (.newMethod base "__init__" init)
  Program.run (.write (.inst base) "__init__" method)
  let template ← Program.run (.newTemplate base)
  let point ← Program.run (.newInstance "Point" 3)
  Program.run (.addDelegate point template)
  Program.run (.newTemplate point)

def point : Machine Unit Unit where
  host := ()
  bodies := #[.host ()]
  heap := {
    instances := #[
      { name := "Base", maxDepth := 3,
        members := .ofList [("__init__", .method 0 ⟨0⟩ "__init__" (.function ⟨0, "init"⟩))] },
      { name := "Point", maxDepth := 3, chain := ⟨[some (.template ⟨1, ⟨0⟩⟩)]⟩ }]
    nextSerial := 3 }

theorem point_reachable : point.Reachable idle := by
  have hrun : Eval.run idle 1 makePoint { host := () } =
      .ok (.ok (.template ⟨2, ⟨1⟩⟩), point) := rfl
  exact ⟨{ host := () }, rfl, .single (.run 1 makePoint hrun)⟩

theorem call_follows_walk_point :
    (point.heap.walk ⟨1⟩).find? point.heap.endsAt =
        some (.entered ⟨0⟩ [⟨⟨1⟩, 0, .template ⟨1, ⟨0⟩⟩⟩]) ∧
      Eval.FollowsWalk idle 1 ⟨2, ⟨1⟩⟩ {} point (Eval.call idle 2 (.template ⟨2, ⟨1⟩⟩) {} point) ∧
      Eval.call idle 2 (.template ⟨2, ⟨1⟩⟩) {} point = .ok (.ok (.inst ⟨1⟩),
        { point with heap := point.heap.setChain ⟨1⟩ ⟨[some (.inst ⟨0⟩)]⟩ }) := by
  refine ⟨rfl, call_follows_walk point_reachable 1 ⟨2, ⟨1⟩⟩ fun value hv => ?_, rfl⟩
  cases hv

end Machine

end Delegation

import Delegation.Event
import Delegation.Heap.Initializer
import Delegation.Heap.Read

/-!
# What traversals report

The events of reading, of writing and of searching for an initializer, in the
order in which the traversal meets their causes. A report comes with the
outcome it led to, so that one walk finds both. That outcome is the one of the
walk that reports nothing: `outcome_lookupReportAt`, `outcome_definerReport`
and `outcome_initializerReportAt`.
-/

namespace Delegation

/-- An outcome, and the events on the way to it. -/
structure Reported (α : Type) where
  events : List Event
  outcome : Except Error α

namespace Reported

variable {α : Type}

def quiet (outcome : Except Error α) : Reported α := ⟨[], outcome⟩

def after (events : List Event) (reported : Reported α) : Reported α :=
  ⟨events ++ reported.events, reported.outcome⟩

/-- A walk that was not let in has met nothing. -/
def ofEntry : Except Error (Reported α) → Reported α
  | .ok reported => reported
  | .error e => quiet (.error e)

@[simp] theorem outcome_quiet (outcome : Except Error α) : (quiet outcome).outcome = outcome := rfl

@[simp] theorem outcome_after (events : List Event) (reported : Reported α) :
    (after events reported).outcome = reported.outcome := rfl

theorem outcome_ofEntry (entry : Except Error (Reported α)) :
    (ofEntry entry).outcome = entry.bind Reported.outcome := by
  cases entry <;> rfl

end Reported

open Reported

/-- Asks each level in turn until one answers. A level passed over for an error
is reported. -/
def firstReported (name : String) (ask : Value → Reported (Option Value)) :
    Except Error (Option Value) → List (Nat × Value) → Reported (Option Value)
  | outcome, [] => quiet outcome
  | _, (level, delegate) :: rest =>
    let asked := ask delegate
    match asked.outcome with
    | .ok (some _) => asked
    | .ok none => after asked.events (firstReported name ask (.ok none) rest)
    | .error e =>
      if e.isDepth then asked
      else
        after (asked.events ++ [.lookupFellThrough level name e])
          (firstReported name ask (.error e) rest)

theorem outcome_firstReported (name : String) (ask : Value → Reported (Option Value))
    (outcome : Except Error (Option Value)) (levels : List (Nat × Value)) :
    (firstReported name ask outcome levels).outcome =
      firstSuccess (fun delegate => (ask delegate).outcome) outcome (levels.map Prod.snd) := by
  induction levels generalizing outcome with
  | nil => rfl
  | cons entry rest ih =>
    obtain ⟨level, delegate⟩ := entry
    rw [firstReported, List.map_cons, firstSuccess]
    cases ho : (ask delegate).outcome with
    | error e =>
      dsimp only
      split
      · exact ho
      · exact ih _
    | ok found =>
      cases found with
      | none => exact ih _
      | some value => exact ho

namespace Heap

variable (h : Heap)

-- ---------------------------------------------------------------------------
-- Reading
-- ---------------------------------------------------------------------------

/-- An attribute of a delegate, given how to report on one of an instance. -/
def attrReport (name : String) (enter : InstanceId → Except Error (Reported (Option Value)))
    (value : Value) : Reported (Option Value) :=
  match value.instance? with
  | some j => ofEntry (enter j)
  | none => quiet (h.read value name)

theorem outcome_attrReport (name : String)
    (enter : InstanceId → Except Error (Reported (Option Value))) (value : Value) :
    (h.attrReport name enter value).outcome =
      h.attrOf name (fun j => (enter j).bind Reported.outcome) value := by
  cases value <;> first | rfl | exact outcome_ofEntry _

def lookupReportVisit (name : String) : Visit (Reported (Option Value)) := fun _ i enter =>
  if name = SpecialName.super.text then .ok (quiet (.ok (some (h.superValue i))))
  else
    match (h.inst i).members.get? name with
    | some value => .ok (quiet (.ok (some value)))
    | none => .ok (firstReported name (h.attrReport name enter) (.ok none) (h.inst i).chain.indexed)

def lookupReportAt (name : String) (depth : Depth) (i : InstanceId) : Reported (Option Value) :=
  ofEntry (h.descend (h.lookupReportVisit name) depth i)

def lookupReportBelow (name owner : String) (depth : Depth) (i : InstanceId) :
    Except Error (Reported (Option Value)) :=
  (depth.descend owner).map fun below => h.lookupReportAt name below i

theorem outcome_lookupReportAt (name : String) (depth : Depth) (i : InstanceId) :
    (h.lookupReportAt name depth i).outcome = h.lookupAt name depth i := by
  rw [lookupReportAt, outcome_ofEntry]
  refine h.descend_rel (R := fun x y => x.bind Reported.outcome = y) (fun _ => rfl) ?_ depth i
  intro _ i enter enter' he
  rw [lookupReportVisit, lookupVisit]
  split
  · rfl
  · cases (h.inst i).members.get? name with
    | some value => rfl
    | none =>
      have henter : enter' = fun j => (enter j).bind Reported.outcome := (funext he).symm
      rw [henter, ← Chain.map_snd_indexed]
      refine (outcome_firstReported ..).trans ?_
      congr 1
      exact funext fun value => h.outcome_attrReport name enter value

def readEvents (value : Value) (name : String) : List Event :=
  (h.attrReport name (fun i => .ok (h.lookupReportAt name (h.root i) i)) value).events

def lookupChainEvents (chain : Chain) (name owner : String) (depth : Depth) : List Event :=
  (firstReported name (h.attrReport name (h.lookupReportBelow name owner depth)) (.ok none)
    chain.indexed).events

-- ---------------------------------------------------------------------------
-- Writing
-- ---------------------------------------------------------------------------

/-- The first delegate that has `name` now, as in `definerAmong`. -/
def definerReport (name owner : String) (depth : Depth) :
    List Value → Reported (Option (Value × Depth))
  | [] => quiet (.ok none)
  | delegate :: rest =>
    match delegate.instance? with
    | some j =>
      match depth.descend owner with
      | .error e => quiet (.error e)
      | .ok below =>
        let asked := h.lookupReportAt name below j
        match asked.outcome with
        | .ok (some _) => ⟨asked.events, .ok (some (delegate, below))⟩
        | .error e =>
          if e.isDepth then ⟨asked.events, .error e⟩
          else after asked.events (definerReport name owner depth rest)
        | .ok none => after asked.events (definerReport name owner depth rest)
    | none =>
      if h.canRead delegate name then quiet (.ok (some (delegate, depth)))
      else definerReport name owner depth rest

theorem outcome_definerReport (name owner : String) (depth : Depth) (delegates : List Value) :
    (h.definerReport name owner depth delegates).outcome =
      h.definerAmong name owner depth delegates := by
  induction delegates with
  | nil => rfl
  | cons delegate rest ih =>
    rw [definerReport, definerAmong]
    cases delegate.instance? with
    | none =>
      dsimp only
      split
      · rfl
      · exact ih
    | some j =>
      dsimp only
      cases depth.descend owner with
      | error e => rfl
      | ok below =>
        simp only [outcome_lookupReportAt, bind, Except.bind]
        cases h.lookupAt name below j with
        | error e =>
          dsimp only
          split
          · rfl
          · exact ih
        | ok found =>
          cases found with
          | none => exact ih
          | some value => rfl

def definerEvents (name owner : String) (depth : Depth) (delegates : List Value) : List Event :=
  (h.definerReport name owner depth delegates).events

/-- The events of what a traversal does at an instance below, if it may go there. -/
def eventsBelow (enter : InstanceId → Except Error (List Event)) (value : Value) : List Event :=
  match value.instance? with
  | some j => (enter j).toOption.getD []
  | none => []

def writeEventsVisit (name : String) : Visit (List Event) := fun depth i enter =>
  let x := h.inst i
  if x.frozen || name == SpecialName.super.text || x.members.contains name then .ok []
  else
    let searched := h.definerReport name x.name depth x.chain.delegates
    match searched.outcome with
    | .ok (some (delegate, _)) =>
      .ok (searched.events ++ .forwardingWrite x.name name (h.typeName delegate) ::
        eventsBelow enter delegate)
    | _ => .ok searched.events

def writeEvents (target : Value) (name : String) : List Event :=
  eventsBelow (fun i => h.descend (h.writeEventsVisit name) (h.root i) i) target

-- ---------------------------------------------------------------------------
-- Initializers and freezing
-- ---------------------------------------------------------------------------

/-- Whether one of the levels of an owner leads to an initializer. Levels passed
over for lack of one are reported. -/
def initializerSearch (owner : String) (enter : InstanceId → Except Error (Reported Bool)) :
    List (Nat × Value) → Reported Bool
  | [] => quiet (.ok false)
  | (level, delegate) :: rest =>
    let searched := delegate.instance?.elim (quiet (.ok false)) fun j => ofEntry (enter j)
    match searched.outcome with
    | .ok false =>
      after (searched.events ++ [.noInitializer owner level]) (initializerSearch owner enter rest)
    | _ => searched

def initializerReportVisit : Visit (Reported Bool) := fun _ i enter =>
  match h.ownInit? i with
  | some _ => .ok ⟨[.runningInit (h.inst i).name], .ok true⟩
  | none => .ok (initializerSearch (h.inst i).name enter (h.inst i).chain.indexed)

def initializerReportAt (depth : Depth) (i : InstanceId) : Reported Bool :=
  ofEntry (h.descend h.initializerReportVisit depth i)

theorem outcome_initializerSearch (owner : InstanceId) (name : String)
    {enter : InstanceId → Except Error (Reported Bool)}
    {enter' : InstanceId → Except Error (Option Initializer)}
    (he : ∀ j, (enter j).bind Reported.outcome = (enter' j).map Option.isSome)
    (levels : List (Nat × Value)) :
    (initializerSearch name enter levels).outcome =
      (initializerAmong owner enter' levels).map Option.isSome := by
  induction levels with
  | nil => rfl
  | cons entry rest ih =>
    obtain ⟨level, delegate⟩ := entry
    rw [initializerSearch, initializerAmong]
    cases delegate.instance? with
    | none => exact ih
    | some j =>
      have hj := (outcome_ofEntry (enter j)).trans (he j)
      dsimp only [Option.elim]
      cases hf : enter' j with
      | error e =>
        rw [hf] at hj
        rw [hj]
        exact hj
      | ok found =>
        rw [hf] at hj
        cases found with
        | none =>
          rw [hj]
          exact ih
        | some found =>
          rw [hj]
          exact hj

theorem outcome_initializerReportAt (depth : Depth) (i : InstanceId) :
    (h.initializerReportAt depth i).outcome = (h.initializerAt depth i).map Option.isSome := by
  rw [initializerReportAt, outcome_ofEntry]
  refine h.descend_rel (R := fun x y => x.bind Reported.outcome = y.map Option.isSome)
    (fun _ => rfl) ?_ depth i
  intro _ i enter enter' he
  rw [initializerReportVisit, initializerVisit]
  cases h.ownInit? i with
  | some method => rfl
  | none => exact outcome_initializerSearch i (h.inst i).name he (h.inst i).chain.indexed

def initializerEvents (i : InstanceId) : List Event :=
  (h.initializerReportAt (h.root i) i).events

/-- The event of freezing the object behind a value; records report nothing. -/
def freezeEvents (value : Value) : List Event :=
  match value.instance? with
  | some i =>
    let x := h.inst i
    [.frozen x.name x.members.size x.chain.delegates.length]
  | none => []

end Heap

end Delegation

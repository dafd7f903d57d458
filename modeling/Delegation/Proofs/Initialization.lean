import Delegation.Eval.Run
import Delegation.Proofs.Construction
import Delegation.Proofs.Truth

/-!
# Initializers that fail

A call of a template searches first, runs the initializer it found, and settles the
path to it. `initializeAt` does all that in one traversal: it runs the initializer
where it comes by and settles each level on its way back. The two are the same, events
included (`initializeAt_eq`, `construct_in_place`). An error takes that way back too,
and nothing is settled and no level asked any more: what the initializer left is what
the call leaves (`failed_initialization`).
-/

namespace Delegation

variable {γ σ : Type}

namespace Machine

/-- The machine after it has looked for an initializer, which only what it heard tells. -/
def searched (m : Machine γ σ) (i : InstanceId) : Machine γ σ :=
  m.report fun _ => m.heap.initializerEvents i

theorem sameState_searched (m : Machine γ σ) (i : InstanceId) : m.SameState (m.searched i) :=
  m.report_eq _

end Machine

namespace Eval

-- ---------------------------------------------------------------------------
-- One traversal
-- ---------------------------------------------------------------------------

/-- Has the instance that a level leads to initialized, and settles the level if an
initializer ran. -/
def initializeLevel (enter : InstanceId → Eval γ σ Bool) (step : PathStep) : Eval γ σ Bool := do
  match step.delegate.instance? with
  | some j =>
    if ← enter j then
      settle step
      return true
    else return false
  | none => return false

/-- Has the levels of an owner initialized, up to the first one that an initializer
ran for. -/
def initializeAmong (enter : InstanceId → Eval γ σ Bool) (owner : InstanceId) :
    List (Nat × Value) → Eval γ σ Bool
  | [] => return false
  | (level, delegate) :: rest => do
    if ← initializeLevel enter ⟨owner, level, delegate⟩ then return true
    else
      let h ← heap
      report fun _ => [.noInitializer (h.inst owner).name level]
      initializeAmong enter owner rest

/-- Runs the own initializer of an instance, or else has its levels initialized. -/
def initializeVisit (call : Caller γ σ) (arguments : Arguments)
    (enter : InstanceId → Eval γ σ Bool) (i : InstanceId) : Eval γ σ Bool := do
  let h ← heap
  match h.ownInit? i with
  | some method =>
    report fun _ => [.runningInit (h.inst i).name]
    discard (call method arguments)
    return true
  | none => initializeAmong enter i (h.inst i).chain.indexed

def initializeAt (call : Caller γ σ) (arguments : Arguments) (level : Nat) :
    Nat → InstanceId → Eval γ σ Bool
  | 0, i => initializeVisit call arguments (fun _ => tooDeep i level) i
  | remaining + 1, i =>
    initializeVisit call arguments (initializeAt call arguments (level + 1) remaining) i

/-- A call of a template, in one traversal. -/
def constructInPlace (call : Caller γ σ) (t : Template) (arguments : Arguments) : Eval γ σ Value := do
  let initialized ← initializeAt call arguments 0 ((← heap).inst t.target).maxDepth t.target
  let h ← heap
  report fun _ => [.constructed (h.inst t.target).name initialized]
  return .inst t.target

/-- How a call goes on after its search. -/
def resume (call : Caller γ σ) (arguments : Arguments)
    (search : Except Error (Option Initializer)) : Eval γ σ Bool := do
  match ← outcome search with
  | none => return false
  | some found =>
    discard (call found.method arguments)
    found.path.forM settle
    return true

variable {call : Caller γ σ} {arguments : Arguments} {m : Machine γ σ}

theorem runInitializer_eq (call : Caller γ σ) (i : InstanceId) (arguments : Arguments)
    (m : Machine γ σ) :
    runInitializer call i arguments m =
      resume call arguments (m.heap.initializer? i) (m.searched i) := rfl

theorem resume_found (found : Initializer) :
    resume call arguments (.ok (some found)) = (do
      discard (call found.method arguments)
      found.path.forM settle
      return true) := rfl

/-- A level on the way back is one more step to settle. -/
theorem resume_settle (found : Initializer) (step : PathStep) :
    (do
      if ← resume call arguments (.ok (some found)) then
        settle step
        return true
      else return false) =
    resume call arguments (.ok (some { found with path := found.path ++ [step] })) := by
  simp only [resume_found, bind_assoc, pure_bind, List.forM_eq_forM, List.forM_append,
    List.forM_cons, List.forM_nil, ↓reduceIte]

/-- An initializer that ran leaves nothing to do for later levels. -/
theorem resume_ran (found : Initializer) (rest : Eval γ σ Bool) :
    (do if ← resume call arguments (.ok (some found)) then return true else rest) =
      resume call arguments (.ok (some found)) := by
  simp only [resume_found, bind_assoc, pure_bind, ↓reduceIte]

theorem initializeLevel_eq {enter : InstanceId → Eval γ σ Bool}
    {search : Except Error (Option Initializer)} {events : List Event} {step : PathStep}
    {j : InstanceId} (hj : step.delegate.instance? = some j)
    (he : enter j m = resume call arguments search (m.report fun _ => events)) :
    initializeLevel enter step m =
      resume call arguments
        (search.map fun found? => found?.map fun found => { found with path := found.path ++ [step] })
        (m.report fun _ => events) := by
  simp only [initializeLevel, hj, run_bind, he]
  cases search with
  | error e => rfl
  | ok found? =>
    cases found? with
    | none => rfl
    | some found =>
      rw [Except.map, Option.map, ← resume_settle, run_bind]

theorem initializeAmong_eq {h : Heap} {owner : InstanceId} {enter : InstanceId → Eval γ σ Bool}
    {search : InstanceId → Except Error (Option Initializer)}
    {searched : InstanceId → Except Error (Reported Bool)}
    (hsearch : ∀ j, (searched j).bind Reported.outcome = (search j).map Option.isSome)
    (he : ∀ j (m : Machine γ σ), m.heap = h → enter j m =
      resume call arguments (search j) (m.report fun _ => (Reported.ofEntry (searched j)).events))
    (levels : List (Nat × Value)) (m : Machine γ σ) (hm : m.heap = h) :
    initializeAmong enter owner levels m =
      resume call arguments (Heap.initializerAmong owner search levels)
        (m.report fun _ => (Heap.initializerSearch (h.inst owner).name searched levels).events) := by
  induction levels generalizing m with
  | nil =>
    rw [Heap.initializerSearch, Reported.quiet, Machine.report_nil]
    rfl
  | cons entry rest ih =>
    obtain ⟨level, delegate⟩ := entry
    rw [initializeAmong, Heap.initializerAmong, Heap.initializerSearch, run_bind]
    -- A level passed over is reported after what was met below it, entered or not.
    have hskip (events : List Event) :
        (do
          let h ← heap
          report fun _ => [.noInitializer (h.inst owner).name level]
          initializeAmong enter owner rest) (m.report fun _ => events) =
        resume call arguments (Heap.initializerAmong owner search rest) (m.report fun _ =>
          events ++ [.noInitializer (h.inst owner).name level] ++
            (Heap.initializerSearch (h.inst owner).name searched rest).events) := by
      simp only [run_bind, run_heap, run_report, Machine.heap_report, hm, Machine.report_report]
      rw [ih _ (by rw [Machine.heap_report, hm]), Machine.report_report]
    cases hj : delegate.instance? with
    | none =>
      have hnone : initializeLevel enter ⟨owner, level, delegate⟩ m = .ok (.ok false, m) := by
        simp [initializeLevel, hj]
      rw [hnone]
      have := hskip []
      rw [Machine.report_nil] at this
      exact this
    | some j =>
      have hout := (Reported.outcome_ofEntry (searched j)).trans (hsearch j)
      rw [initializeLevel_eq hj (he j m hm)]
      cases hs : search j with
      | error e =>
        rw [hs] at hout
        simp only [hout, hs, Option.elim]
        rfl
      | ok found? =>
        rw [hs] at hout
        cases found? with
        | none =>
          simp only [hout, hs, Option.elim]
          exact hskip _
        | some found =>
          simp only [hout, hs, Option.elim]
          rw [← run_bind, Except.map, Option.map, resume_ran]
          rfl

/-- One instance of the traversal, given what it comes to one level further down. -/
theorem initializeVisit_eq {depth : Depth} {i : InstanceId} {enter : InstanceId → Eval γ σ Bool}
    (he : ∀ j (m' : Machine γ σ), m'.heap = m.heap → enter j m' =
      resume call arguments
        ((depth.descend (m.heap.inst i).name).bind fun below => m.heap.initializerAt below j)
        (m'.report fun _ => (Reported.ofEntry ((depth.descend (m.heap.inst i).name).bind
          fun below => m.heap.descend m.heap.initializerReportVisit below j)).events)) :
    initializeVisit call arguments enter i m =
      resume call arguments (m.heap.initializerAt depth i)
        (m.report fun _ => (m.heap.initializerReportAt depth i).events) := by
  rw [Heap.initializerAt, Heap.initializerReportAt, Heap.descend_eq, Heap.descend_eq,
    Heap.initializerVisit, Heap.initializerReportVisit]
  simp only [initializeVisit, run_bind, run_heap]
  cases hown : m.heap.ownInit? i with
  | some method => rfl
  | none =>
    refine initializeAmong_eq (fun j => ?_) he (m.heap.inst i).chain.indexed m rfl
    cases depth.descend (m.heap.inst i).name with
    | error e => rfl
    | ok below =>
      have hout := m.heap.outcome_initializerReportAt below j
      rwa [Heap.initializerReportAt, Reported.outcome_ofEntry] at hout

/-- The traversal is the search, then the one run, then the path. -/
theorem initializeAt_eq (call : Caller γ σ) (arguments : Arguments) (level remaining : Nat)
    (i : InstanceId) (m : Machine γ σ) :
    initializeAt call arguments level remaining i m =
      resume call arguments (m.heap.initializerAt ⟨level, remaining⟩ i)
        (m.report fun _ => (m.heap.initializerReportAt ⟨level, remaining⟩ i).events) := by
  induction remaining generalizing level i m with
  | zero =>
    refine initializeVisit_eq fun j m' hm' => ?_
    rw [run_tooDeep, hm']
    change _ = resume call arguments (.error _) (m'.report fun _ => [])
    rw [Machine.report_nil]
    rfl
  | succ remaining ih =>
    refine initializeVisit_eq fun j m' hm' => ?_
    rw [ih, hm']
    rfl

theorem construct_in_place (call : Caller γ σ) (t : Template) (arguments : Arguments) :
    construct call t arguments = constructInPlace call t arguments := by
  funext m
  have hr : runInitializer call t.target arguments m =
      initializeAt call arguments 0 (m.heap.inst t.target).maxDepth t.target m := by
    rw [runInitializer_eq, initializeAt_eq]
    rfl
  rw [construct, constructInPlace, run_bind, run_bind, run_heap, hr]
  dsimp only
  rw [run_bind]

-- ---------------------------------------------------------------------------
-- Failures
-- ---------------------------------------------------------------------------

/-- An error of the initializer is all that the traversal comes to, from wherever it
started. -/
theorem initializeAt_fails {level remaining : Nat} {i holder : InstanceId} {path : List PathStep}
    {method : Value} {e : Error} {after : Machine γ σ}
    (hs : (m.heap.walkWithin remaining i).find? m.heap.endsAt = some (.entered holder path))
    (hown : m.heap.ownInit? holder = some method)
    (hc : call method arguments
      (m.report fun _ => (m.heap.initializerReportAt ⟨level, remaining⟩ i).events) =
        .ok (.error e, after)) :
    initializeAt call arguments level remaining i m = .ok (.error e, after) := by
  have hfound : m.heap.initializerAt ⟨level, remaining⟩ i = .ok (some ⟨holder, method, path⟩) := by
    rw [Heap.initializerAt_walk, hs, Heap.found, hown]
    rfl
  rw [initializeAt_eq, hfound, resume_found, run_bind, run_discard, hc]

/-- A level too deep to enter, met before any initializer, ends the traversal. Nothing
was called. -/
theorem initializeAt_tooDeep (call : Caller γ σ) (arguments : Arguments) (level : Nat)
    {remaining : Nat} {i : InstanceId} {owner : String}
    (hs : (m.heap.walkWithin remaining i).find? m.heap.endsAt = some (.tooDeep owner)) :
    initializeAt call arguments level remaining i m =
      .ok (.error (.delegateDepth owner (level + remaining)),
        m.report fun _ => (m.heap.initializerReportAt ⟨level, remaining⟩ i).events) := by
  rw [initializeAt_eq, Heap.initializerAt_walk, hs]
  rfl

theorem constructInPlace_error {t : Template} {e : Error} {after : Machine γ σ}
    (hi : initializeAt call arguments 0 (m.heap.inst t.target).maxDepth t.target m =
      .ok (.error e, after)) :
    constructInPlace call t arguments m = .ok (.error e, after) := by
  simp only [constructInPlace, run_bind, run_heap, hi]

end Eval

namespace Machine

/-- An error of the initializer is what a call of the template ends with, in the
machine that the initializer left: no other initializer runs, and no template on the
way gives way. Where the search meets its bound first, nothing runs or changes. -/
theorem failed_initialization (host : Host γ σ) (fuel : Nat) (t : Template) (arguments : Arguments)
    (m : Machine γ σ) :
    (∀ holder path method e after,
      (m.heap.walk t.target).find? m.heap.endsAt = some (.entered holder path) →
      m.heap.ownInit? holder = some method →
      Eval.call host fuel method arguments (m.searched t.target) = .ok (.error e, after) →
        Eval.call host (fuel + 1) (.template t) arguments m = .ok (.error e, after) ∧
        ∀ call : Caller γ σ,
          call method arguments (m.searched t.target) = .ok (.error e, after) →
          Eval.constructInPlace call t arguments m = .ok (.error e, after)) ∧
    ∀ owner, (m.heap.walk t.target).find? m.heap.endsAt = some (.tooDeep owner) →
      ∃ after, m.SameState after ∧
        Eval.call host (fuel + 1) (.template t) arguments m =
          .ok (.error (.delegateDepth owner (m.heap.inst t.target).maxDepth), after) ∧
        ∀ call : Caller γ σ, Eval.constructInPlace call t arguments m =
          .ok (.error (.delegateDepth owner (m.heap.inst t.target).maxDepth), after) := by
  constructor
  · intro holder path method e after hs hown hc
    have hany (call : Caller γ σ)
        (hc : call method arguments (m.searched t.target) = .ok (.error e, after)) :
        Eval.constructInPlace call t arguments m = .ok (.error e, after) :=
      Eval.constructInPlace_error (Eval.initializeAt_fails hs hown hc)
    refine ⟨?_, hany⟩
    rw [Eval.call_template, Eval.construct_in_place]
    exact hany _ hc
  · intro owner hs
    have hany (call : Caller γ σ) : Eval.constructInPlace call t arguments m =
        .ok (.error (.delegateDepth owner (m.heap.inst t.target).maxDepth), m.searched t.target) := by
      have hi := Eval.initializeAt_tooDeep call arguments 0 hs
      rw [Nat.zero_add] at hi
      exact Eval.constructInPlace_error hi
    refine ⟨m.searched t.target, m.sameState_searched t.target, ?_, hany⟩
    rw [Eval.call_template, Eval.construct_in_place]
    exact hany _

def refusing (e : Error) : Host Unit Unit := ⟨fun _ _ => .done (.error e)⟩

/-- The point without room for a level below it. -/
def flatPoint : Machine Unit Unit :=
  { point with heap := point.heap.modifyInst ⟨1⟩ fun x => { x with maxDepth := 0 } }

/-- An error for depth that an initializer raised is not taken for one of the walk. -/
theorem failed_initialization_point :
    (point.heap.walk ⟨1⟩).find? point.heap.endsAt =
        some (.entered ⟨0⟩ [⟨⟨1⟩, 0, .template ⟨1, ⟨0⟩⟩⟩]) ∧
      Eval.call (refusing (.delegateDepth "Raised" 7)) 2 (.template ⟨2, ⟨1⟩⟩) {} point =
        .ok (.error (.delegateDepth "Raised" 7), point) ∧
      (flatPoint.heap.walk ⟨1⟩).find? flatPoint.heap.endsAt = some (.tooDeep "Point") ∧
      ∃ after, flatPoint.SameState after ∧
        Eval.call (refusing (.delegateDepth "Raised" 7)) 2 (.template ⟨2, ⟨1⟩⟩) {} flatPoint =
          .ok (.error (.delegateDepth "Point" 0), after) := by
  let e : Error := .delegateDepth "Raised" 7
  have hs : (point.heap.walk ⟨1⟩).find? point.heap.endsAt =
      some (.entered ⟨0⟩ [⟨⟨1⟩, 0, .template ⟨1, ⟨0⟩⟩⟩]) := rfl
  have hdeep : (flatPoint.heap.walk ⟨1⟩).find? flatPoint.heap.endsAt = some (.tooDeep "Point") := rfl
  have hc : Eval.call (refusing e) 1 (.method 0 ⟨0⟩ "__init__" (.function ⟨0, "init"⟩)) {}
      (point.searched ⟨1⟩) = .ok (.error e, point) := rfl
  obtain ⟨hfails, -⟩ := failed_initialization (refusing e) 1 ⟨2, ⟨1⟩⟩ {} point
  obtain ⟨-, htooDeep⟩ := failed_initialization (refusing e) 1 ⟨2, ⟨1⟩⟩ {} flatPoint
  obtain ⟨after, hsame, hr, -⟩ := htooDeep _ hdeep
  exact ⟨hs, (hfails _ _ _ _ _ hs rfl hc).1, hdeep, after, hsame, hr⟩

end Machine

end Delegation

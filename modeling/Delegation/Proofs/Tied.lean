import Delegation.Eval.Run
import Delegation.Proofs.EvalLaws

/-!
# Evaluations under two hosts

A machine goes on alike whatever the host's own state is: only operations that
inspect or update that state tell two hosts apart. So evaluations that perform
the same operations under two hosts are tied. They end alike, and the machines
they leave differ at most in the state of the host (`Tied`). What each function of
the evaluator adds to what it calls keeps any tie that does not look at the heap,
the events and the functions that are added.
-/

namespace Delegation

variable {γ σ τ α β : Type}

def Machine.withHost (m : Machine γ σ) (host : τ) : Machine γ τ where
  host := host
  heap := m.heap
  bodies := m.bodies
  globals := m.globals
  builtins := m.builtins
  settings := m.settings
  listening := m.listening
  trace := m.trace

@[simp] theorem Machine.bodies_withHost (m : Machine γ σ) (t : τ) :
    (m.withHost t).bodies = m.bodies := rfl

@[simp] theorem Machine.globals_withHost (m : Machine γ σ) (t : τ) :
    (m.withHost t).globals = m.globals := rfl

@[simp] theorem Machine.builtins_withHost (m : Machine γ σ) (t : τ) :
    (m.withHost t).builtins = m.builtins := rfl

@[simp] theorem Machine.settings_withHost (m : Machine γ σ) (t : τ) :
    (m.withHost t).settings = m.settings := rfl

@[simp] theorem Machine.report_withHost (m : Machine γ σ) (t : τ) (events : Unit → List Event) :
    (m.withHost t).report events = (m.report events).withHost t := by
  unfold Machine.report
  cases hl : m.listening <;> simp [Machine.withHost, hl]

theorem Machine.offerBuilder_withHost (m : Machine γ σ) (t : τ) (settings : Settings) :
    (m.withHost t).offerBuilder settings = (m.offerBuilder settings).withHost t := by
  unfold Machine.offerBuilder
  rw [report_withHost]
  rfl

@[simp] theorem Machine.host_offerBuilder (m : Machine γ σ) (settings : Settings) :
    (m.offerBuilder settings).host = m.host := by
  unfold Machine.offerBuilder
  rw [report_eq]
  rfl

@[simp] theorem Machine.knows_withHost (m : Machine γ σ) (t : τ) (value : Value) :
    (m.withHost t).knows value = m.knows value := by
  induction value with
  | method serial owner name callee ih => simp only [knows, ih]; rfl
  | _ => rfl

/-- A relation between a machine and the state that another host holds in place of
the machine's own. -/
abbrev Tie (γ σ τ : Type) := Machine γ σ → τ → Prop

/-- The tie does not look at the heap, the events and the functions that are added. -/
def Tie.Loose (P : Tie γ σ τ) : Prop :=
  ∀ m t heap bodies trace, m.bodies.toList <+: bodies.toList → P m t →
    P { m with heap, bodies, trace } t

namespace Eval

/-- From tied machines both evaluations end alike, with tied machines. -/
def Tied (P : Tie γ σ τ) (x : Eval γ σ α) (y : Eval γ τ α) : Prop :=
  ∀ m t, P m t →
    match x m with
    | .ok (result, m') => ∃ t', y (m.withHost t) = .ok (result, m'.withHost t') ∧ P m' t'
    | .error reason => y (m.withHost t) = .error reason

abbrev CallTied (P : Tie γ σ τ) (call : Caller γ σ) (call' : Caller γ τ) : Prop :=
  ∀ callee arguments, Tied P (call callee arguments) (call' callee arguments)

abbrev CodeTied (P : Tie γ σ τ) (run : γ → Arguments → Eval γ σ Value)
    (run' : γ → Arguments → Eval γ τ Value) : Prop :=
  ∀ code arguments, Tied P (run code arguments) (run' code arguments)

-- ---------------------------------------------------------------------------
-- Rules
-- ---------------------------------------------------------------------------

section
variable {P : Tie γ σ τ}

theorem tied_outcome (result : Except Error α) :
    Tied P (outcome result : Eval γ σ α) (outcome result : Eval γ τ α) :=
  fun _ t hp => ⟨t, rfl, hp⟩

theorem tied_pure (a : α) : Tied P (pure a : Eval γ σ α) (pure a : Eval γ τ α) :=
  tied_outcome (.ok a)

theorem tied_halt (reason : Halt) :
    Tied P (halt reason : Eval γ σ α) (halt reason : Eval γ τ α) := fun _ _ _ => rfl

theorem Tied.bind {x : Eval γ σ α} {y : Eval γ τ α} {f : α → Eval γ σ β} {g : α → Eval γ τ β}
    (hx : Tied P x y) (hf : ∀ a, Tied P (f a) (g a)) : Tied P (x >>= f) (y >>= g) := by
  intro m t hp
  have h := hx m t hp
  rw [run_bind, run_bind]
  cases hr : x m with
  | error reason =>
    rw [hr] at h
    rw [h]
  | ok left =>
    obtain ⟨result, m'⟩ := left
    rw [hr] at h
    obtain ⟨t', hy, hp'⟩ := h
    rw [hy]
    cases result with
    | error e => exact ⟨t', rfl, hp'⟩
    | ok a => exact hf a m' t' hp'

theorem Tied.discard {x : Eval γ σ α} {y : Eval γ τ α} (hx : Tied P x y) :
    Tied P (discard x : Eval γ σ PUnit) (discard y : Eval γ τ PUnit) := by
  rw [discard_eq, discard_eq]
  exact hx.bind fun _ => tied_pure _

theorem tied_forM {f : α → Eval γ σ Unit} {g : α → Eval γ τ Unit}
    (hf : ∀ a, Tied P (f a) (g a)) (xs : List α) : Tied P (xs.forM f) (xs.forM g) := by
  induction xs with
  | nil => exact tied_pure _
  | cons x xs ih => exact (hf x).bind fun _ => ih

theorem tied_machine_bind {f : Machine γ σ → Eval γ σ α} {g : Machine γ τ → Eval γ τ α}
    (hf : ∀ m t, Tied P (f m) (g (m.withHost t))) : Tied P (machine >>= f) (machine >>= g) :=
  fun m t hp => hf m t m t hp

theorem tied_modifyMachine {change : Machine γ σ → Machine γ σ}
    {change' : Machine γ τ → Machine γ τ}
    (hc : ∀ m t, P m t → ∃ t', change' (m.withHost t) = (change m).withHost t' ∧ P (change m) t') :
    Tied P (modifyMachine change) (modifyMachine change') := by
  intro m t hp
  obtain ⟨t', hm, hp'⟩ := hc m t hp
  exact ⟨t', by rw [run_modifyMachine, hm], hp'⟩

theorem tied_heap_bind {f : Heap → Eval γ σ α} {g : Heap → Eval γ τ α}
    (hf : ∀ h, Tied P (f h) (g h)) : Tied P (heap >>= f) (heap >>= g) :=
  fun m t hp => hf m.heap m t hp

theorem tied_chainTruth {enter : InstanceId → Eval γ σ Bool} {enter' : InstanceId → Eval γ τ Bool}
    (he : ∀ j, Tied P (enter j) (enter' j)) (i : InstanceId) :
    Tied P (chainTruth enter i) (chainTruth enter' i) := by
  refine tied_heap_bind fun h => ?_
  dsimp only
  split
  · exact tied_pure _
  · split
    · exact tied_pure _
    · exact he _
    · exact tied_pure _

theorem tied_tooDeep (owner : InstanceId) (max : Nat) :
    Tied P (tooDeep owner max : Eval γ σ α) (tooDeep owner max : Eval γ τ α) :=
  tied_heap_bind fun _ => tied_outcome _

theorem tied_callWith {invoke : HostFunction → Arguments → Eval γ σ Value}
    {invoke' : HostFunction → Arguments → Eval γ τ Value}
    {construct : Template → Arguments → Eval γ σ Value}
    {construct' : Template → Arguments → Eval γ τ Value}
    (hinvoke : ∀ f arguments, Tied P (invoke f arguments) (invoke' f arguments))
    (hconstruct : ∀ t arguments, Tied P (construct t arguments) (construct' t arguments)) :
    CallTied P (callWith invoke construct) (callWith invoke' construct') := by
  intro callee arguments
  induction callee generalizing arguments with
  | function f => exact hinvoke f arguments
  | template t => exact hconstruct t arguments
  | method serial owner name callee ih => exact ih _
  | _ => exact tied_heap_bind fun _ => tied_outcome _

section
variable (hP : P.Loose)

include hP

theorem tied_report (events : Unit → List Event) :
    Tied P (report events : Eval γ σ Unit) (report events : Eval γ τ Unit) := by
  intro m t hp
  refine ⟨t, ?_, ?_⟩
  · rw [run_report, Machine.report_withHost]
  · have hreport := hP m t m.heap m.bodies (m.report events).trace List.prefix_rfl hp
    rwa [← m.report_eq] at hreport

theorem tied_setHeap (h : Heap) :
    Tied P (setHeap h : Eval γ σ Unit) (setHeap h : Eval γ τ Unit) :=
  fun m t hp => ⟨t, rfl, hP m t _ _ _ List.prefix_rfl hp⟩

theorem tied_commit (change : Except Error Heap) :
    Tied P (commit change : Eval γ σ Unit) (commit change : Eval γ τ Unit) :=
  (tied_outcome change).bind fun h => tied_setHeap hP h

theorem tied_allocate (add : Heap → α × Heap) :
    Tied P (allocate add : Eval γ σ α) (allocate add : Eval γ τ α) :=
  tied_heap_bind fun _ => (tied_setHeap hP _).bind fun _ => tied_pure _

theorem tied_newFunction (name : String) (body : Body γ) :
    Tied P (newFunction name body : Eval γ σ Value) (newFunction name body : Eval γ τ Value) := by
  refine tied_machine_bind fun m t => Tied.bind ?_ fun _ => tied_pure _
  have hpush (m : Machine γ σ) : m.bodies.toList <+: (m.bodies.push body).toList := by simp
  exact tied_modifyMachine fun m t hp => ⟨t, rfl, hP m t _ _ _ (hpush m) hp⟩

theorem tied_asking (events : Heap → Unit → List Event) (ask : Heap → Except Error α) :
    Tied P
      (do
        let h ← heap
        report (events h)
        outcome (ask h) : Eval γ σ α)
      (do
        let h ← heap
        report (events h)
        outcome (ask h) : Eval γ τ α) :=
  tied_heap_bind fun _ => (tied_report hP _).bind fun _ => tied_outcome _

-- ---------------------------------------------------------------------------
-- Attributes, hooks and construction
-- ---------------------------------------------------------------------------

theorem tied_write (target : Value) (name : String) (value : Value) :
    Tied P (write target name value : Eval γ σ Unit) (write target name value : Eval γ τ Unit) :=
  tied_heap_bind fun _ => (tied_report hP _).bind fun _ => tied_commit hP _

theorem tied_hook? (hook : SpecialName) (i : InstanceId) :
    Tied P (hook? hook i : Eval γ σ (Option Value)) (hook? hook i : Eval γ τ (Option Value)) :=
  tied_heap_bind fun _ => (tied_report hP _).bind fun _ => tied_pure _

theorem tied_freeze (target : Value) :
    Tied P (freeze target : Eval γ σ Unit) (freeze target : Eval γ τ Unit) :=
  tied_heap_bind fun _ => (tied_report hP _).bind fun _ => tied_setHeap hP _

theorem tied_build (settings : Settings) (arguments : Arguments) :
    Tied P (build settings arguments : Eval γ σ Value)
      (build settings arguments : Eval γ τ Value) :=
  tied_heap_bind fun _ => (tied_outcome _).bind fun _ => (tied_setHeap hP _).bind fun _ =>
    (tied_report hP _).bind fun _ => tied_pure _

theorem tied_settle (step : PathStep) :
    Tied P (settle step : Eval γ σ Unit) (settle step : Eval γ τ Unit) := by
  unfold settle
  split
  case h_1 t =>
    refine tied_heap_bind fun h => ?_
    dsimp only
    split
    case isTrue => exact (tied_report hP _).bind fun _ => tied_commit hP _
    case isFalse => exact tied_commit hP _
  case h_2 => exact tied_pure _

section
variable {call : Caller γ σ} {call' : Caller γ τ} (hcall : CallTied P call call')

include hcall

theorem tied_instanceText (i : InstanceId) :
    Tied P (instanceText call i) (instanceText call' i) := by
  refine (tied_hook? hP .str i).bind fun found => ?_
  cases found with
  | none => exact tied_heap_bind fun _ => tied_outcome _
  | some method =>
    refine (hcall method {}).bind fun answer => ?_
    cases answer with
    | text s => exact tied_pure s
    | _ => exact tied_heap_bind fun _ => (tied_report hP _).bind fun _ => tied_outcome _

theorem tied_toText (value : Value) : Tied P (toText call value) (toText call' value) := by
  cases value with
  | text s => exact tied_pure s
  | inst i => exact tied_instanceText hP hcall i
  | _ => exact tied_heap_bind fun _ => tied_pure _

theorem tied_truthVisit {enter : InstanceId → Eval γ σ Bool} {enter' : InstanceId → Eval γ τ Bool}
    (he : ∀ j, Tied P (enter j) (enter' j)) (i : InstanceId) :
    Tied P (truthVisit call enter i) (truthVisit call' enter' i) := by
  refine (tied_hook? hP .bool i).bind fun found => ?_
  cases found with
  | none => exact tied_chainTruth he i
  | some method =>
    refine (hcall method {}).bind fun answer => ?_
    cases answer with
    | bool b => exact tied_pure b
    | _ =>
      exact tied_heap_bind fun _ => (tied_report hP _).bind fun _ => tied_chainTruth he i

theorem tied_truthAt (level remaining : Nat) (i : InstanceId) :
    Tied P (truthAt call level remaining i) (truthAt call' level remaining i) := by
  induction remaining generalizing level i with
  | zero => exact tied_truthVisit hP hcall (fun _ => tied_tooDeep _ _) i
  | succ remaining ih => exact tied_truthVisit hP hcall (fun j => ih (level + 1) j) i

theorem tied_truth (value : Value) : Tied P (truth call value) (truth call' value) := by
  cases value with
  | inst i => exact tied_heap_bind fun _ => tied_truthAt hP hcall _ _ i
  | _ => exact tied_pure _

theorem tied_hooklessTruth (i : InstanceId) :
    Tied P (hooklessTruth call i) (hooklessTruth call' i) := by
  refine tied_heap_bind fun h => ?_
  split
  · exact tied_chainTruth (fun _ => tied_tooDeep _ _) i
  · exact tied_chainTruth (fun j => tied_truthAt hP hcall _ _ j) i

theorem tied_construct (t : Template) (arguments : Arguments) :
    Tied P (construct call t arguments) (construct call' t arguments) := by
  have hinit : Tied P (runInitializer call t.target arguments)
      (runInitializer call' t.target arguments) := by
    refine tied_heap_bind fun h => (tied_report hP _).bind fun _ => (tied_outcome _).bind ?_
    intro found
    cases found with
    | none => exact tied_pure false
    | some found =>
      exact (hcall found.method arguments).discard.bind fun _ =>
        (tied_forM (fun step => tied_settle hP step) found.path).bind fun _ => tied_pure true
  exact hinit.bind fun _ => tied_heap_bind fun _ => (tied_report hP _).bind fun _ => tied_pure _

end

-- ---------------------------------------------------------------------------
-- Names and calls
-- ---------------------------------------------------------------------------

theorem tied_keepIn (env : Environment γ) (name : String) (index : Nat) (value : Value) :
    Tied P (keepIn env name index value : Eval γ σ (Environment γ))
      (keepIn env name index value : Eval γ τ (Environment γ)) := by
  unfold keepIn
  cases env.resolvers[index]? with
  | none => exact tied_pure _
  | some resolver => exact (tied_report hP _).bind fun _ => tied_pure _

section
variable {runCode : γ → Arguments → Eval γ σ Value} {runCode' : γ → Arguments → Eval γ τ Value}
  (hcode : CodeTied P runCode runCode')

include hcode

theorem tied_provide (resolver : Resolver γ) (name : String) :
    Tied P (provide runCode resolver name) (provide runCode' resolver name) := by
  unfold provide
  split
  · exact tied_newFunction hP name .builder
  · exact hcode _ _

theorem tied_resolveIn (env : Environment γ) (name : String) :
    Tied P (resolveIn runCode env name) (resolveIn runCode' env name) := by
  unfold resolveIn
  split
  · exact tied_pure _
  · split
    · exact tied_outcome _
    · exact (tied_provide hP hcode _ name).bind fun value =>
        (tied_keepIn hP env name _ value).bind fun _ => tied_pure _

theorem tied_invoke (f : HostFunction) (arguments : Arguments) :
    Tied P (invoke runCode f arguments) (invoke runCode' f arguments) := by
  unfold invoke
  refine tied_machine_bind fun m t => ?_
  rw [m.bodies_withHost, m.settings_withHost]
  split
  · exact tied_build hP _ arguments
  · exact hcode _ arguments
  · exact tied_halt _

end

end

end

end Eval

end Delegation

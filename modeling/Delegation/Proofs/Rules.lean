import Delegation.Eval.Run
import Delegation.Proofs.EvalLaws

/-!
# Rules that evaluations keep to

A relation between machines holds from the start of an evaluation to its end if each
part of it keeps to the relation (`Obeys.bind`). By itself the machine does little to
the heap: it settles levels after an initializer. A relation that allows this and does
not look at the rest of the machine (`Rule`) is therefore kept by every hook, every
construction and every resolution, if it is kept by what they call.
-/

namespace Delegation

variable {γ σ α β : Type}

/-- A relation between machines that allows what the machine does by itself. -/
structure Rule (R : Machine γ σ → Machine γ σ → Prop) : Prop where
  trans : ∀ {m m' m''}, R m m' → R m' m'' → R m m''
  same : ∀ {m m' : Machine γ σ}, m'.host = m.host → m'.heap = m.heap → R m m'
  settle : ∀ {m : Machine γ σ} {i index t h'},
    m.heap.fillLevel i index (.template t) (.inst t.target) = .ok h' → R m { m with heap := h' }

/-- Whether an operation leaves the heap and the host's state alone, apart from what it
calls. -/
def Operation.sparesHeap : Operation γ σ → Bool
  | update _ | write .. | addDelegate .. | setSuper .. | freeze _ | call .. | newInstance ..
  | newRecord _ | newTemplate _ | newMethod .. | build .. => false
  | _ => true

namespace Eval

variable {R : Machine γ σ → Machine γ σ → Prop} {m m' : Machine γ σ}

/-- However an evaluation on a machine ends, the relation leads from this machine to
the one that is left. -/
def Obeys (R : Machine γ σ → Machine γ σ → Prop) (x : Eval γ σ α) (m : Machine γ σ) : Prop :=
  ∀ result m', x m = .ok (result, m') → R m m'

theorem obeys_of_run {x : Eval γ σ α} {result : Except Error α} (hx : x m = .ok (result, m'))
    (h : R m m') : Obeys R x m := by
  intro _ _ hr
  rw [hx] at hr
  cases hr
  exact h

theorem obeys_halt (reason : Halt) : Obeys R (halt reason : Eval γ σ α) m := by
  intro result m' hr
  cases hr

theorem obeys_modifyMachine {change : Machine γ σ → Machine γ σ} (h : R m (change m)) :
    Obeys R (modifyMachine change) m :=
  obeys_of_run (run_modifyMachine change m) h

theorem obeys_allocate (add : Heap → α × Heap) (h : R m { m with heap := (add m.heap).2 }) :
    Obeys R (allocate add) m :=
  obeys_of_run rfl h

@[simp] theorem obeys_heap_bind {f : Heap → Eval γ σ α} :
    Obeys R (heap >>= f) m ↔ Obeys R (f m.heap) m := by
  simp only [Obeys, run_bind, run_heap]

@[simp] theorem obeys_machine_bind {f : Machine γ σ → Eval γ σ α} :
    Obeys R (machine >>= f) m ↔ Obeys R (f m) m := by
  simp only [Obeys, run_bind, run_machine]

theorem Obeys.attempt {x : Eval γ σ α} (hx : Obeys R x m) : Obeys R (attempt x) m := by
  intro result m' hr
  unfold Eval.attempt at hr
  split at hr
  case h_1 ha =>
    cases hr
    exact hx _ _ ha
  case h_2 => cases hr

-- ---------------------------------------------------------------------------
-- Sequences
-- ---------------------------------------------------------------------------

section
variable (hR : Rule R)

include hR

theorem obeys_outcome (result : Except Error α) :
    Obeys R (outcome result : Eval γ σ α) m :=
  obeys_of_run (run_outcome result m) (hR.same rfl rfl)

theorem obeys_pure (a : α) : Obeys R (pure a : Eval γ σ α) m := obeys_outcome hR (.ok a)

theorem obeys_machine : Obeys R (machine : Eval γ σ (Machine γ σ)) m :=
  obeys_of_run (run_machine m) (hR.same rfl rfl)

theorem Obeys.bind {x : Eval γ σ α} {f : α → Eval γ σ β} (hx : Obeys R x m)
    (hf : ∀ a m', x m = .ok (.ok a, m') → Obeys R (f a) m') : Obeys R (x >>= f) m := by
  intro result m'' hr
  rw [run_bind] at hr
  split at hr
  case h_1 a m' ha => exact hR.trans (hx _ _ ha) (hf a m' ha _ _ hr)
  case h_2 e m' he =>
    cases hr
    exact hx _ _ he
  case h_3 => cases hr

theorem obeys_report_bind {events : Unit → List Event} {f : Unit → Eval γ σ α}
    (hf : Obeys R (f ()) (m.report events)) : Obeys R (report events >>= f) m := by
  intro result m' hr
  rw [run_bind, run_report] at hr
  exact hR.trans (hR.same (m.host_report events) (m.heap_report events)) (hf _ _ hr)

theorem obeys_commit {change : Except Error Heap}
    (hc : ∀ h', change = .ok h' → R m { m with heap := h' }) : Obeys R (commit change) m := by
  cases change with
  | error e => exact obeys_of_run (run_commit _ m) (hR.same rfl rfl)
  | ok h' => exact obeys_of_run (run_commit _ m) (hc h' rfl)

theorem Obeys.discard {x : Eval γ σ α} (hx : Obeys R x m) : Obeys R (discard x) m := by
  rw [discard_eq]
  exact hx.bind hR fun _ _ _ => obeys_pure hR _

theorem obeys_forM {f : α → Eval γ σ Unit} {xs : List α} (hf : ∀ x m, Obeys R (f x) m) :
    Obeys R (xs.forM f) m := by
  induction xs generalizing m with
  | nil => exact obeys_pure hR ()
  | cons x xs ih => exact (hf x m).bind hR fun _ _ _ => ih

theorem obeys_asking (events : Heap → Unit → List Event) (ask : Heap → Except Error α) :
    Obeys R (do
      let h ← heap
      report (events h)
      outcome (ask h) : Eval γ σ α) m :=
  obeys_heap_bind.mpr (obeys_report_bind hR (obeys_outcome hR _))

-- ---------------------------------------------------------------------------
-- Hooks
-- ---------------------------------------------------------------------------

theorem obeys_hook?_bind {hook : SpecialName} {i : InstanceId}
    {f : Option Value → Eval γ σ α}
    (hf : ∀ m', m'.heap = m.heap → Obeys R (f (m.heap.hook? hook i)) m') :
    Obeys R (hook? hook i >>= f) m := by
  simp only [Eval.hook?, bind_assoc, pure_bind, obeys_heap_bind]
  exact obeys_report_bind hR (hf _ (m.heap_report _))

theorem tooDeep_obeys (owner : InstanceId) (max : Nat) :
    Obeys R (tooDeep owner max : Eval γ σ α) m :=
  obeys_heap_bind.mpr (obeys_outcome hR _)

theorem chainTruth_obeys {enter : InstanceId → Eval γ σ Bool} (he : ∀ j m, Obeys R (enter j) m)
    (i : InstanceId) : Obeys R (chainTruth enter i) m := by
  rw [chainTruth, obeys_heap_bind]
  dsimp only
  split
  · exact obeys_pure hR _
  · split
    · exact obeys_pure hR _
    · exact he _ m
    · exact obeys_pure hR _

/-- Calls of the hooks that the machine finds keep to a relation. -/
def HooksObey (R : Machine γ σ → Machine γ σ → Prop) (call : Caller γ σ) : Prop :=
  ∀ m hook i method, m.heap.hook? hook i = some method → Obeys R (call method {}) m

section
variable {call : Caller γ σ} (hhooks : HooksObey R call)

include hhooks

theorem instanceText_obeys (i : InstanceId) : Obeys R (instanceText call i) m := by
  refine obeys_hook?_bind hR fun m' hm => ?_
  cases hh : m.heap.hook? .str i with
  | none => exact obeys_heap_bind.mpr (obeys_outcome hR _)
  | some method =>
    refine (hhooks m' .str i method (hm ▸ hh)).bind hR fun answer _ _ => ?_
    cases answer with
    | text s => exact obeys_pure hR s
    | _ => exact obeys_heap_bind.mpr (obeys_report_bind hR (obeys_outcome hR _))

theorem toText_obeys (value : Value) : Obeys R (toText call value) m := by
  cases value with
  | inst i => exact instanceText_obeys hR hhooks i
  | text s => exact obeys_pure hR s
  | _ => exact obeys_heap_bind.mpr (obeys_pure hR _)

theorem truthVisit_obeys {enter : InstanceId → Eval γ σ Bool} (he : ∀ j m, Obeys R (enter j) m)
    (i : InstanceId) : Obeys R (truthVisit call enter i) m := by
  refine obeys_hook?_bind hR fun m' hm => ?_
  cases hh : m.heap.hook? .bool i with
  | none => exact chainTruth_obeys hR he i
  | some method =>
    refine (hhooks m' .bool i method (hm ▸ hh)).bind hR fun answer _ _ => ?_
    cases answer with
    | bool b => exact obeys_pure hR b
    | _ => exact obeys_heap_bind.mpr (obeys_report_bind hR (chainTruth_obeys hR he i))

theorem truthAt_obeys (level remaining : Nat) (i : InstanceId) :
    Obeys R (truthAt call level remaining i) m := by
  induction remaining generalizing m level i with
  | zero => exact truthVisit_obeys hR hhooks (fun _ _ => tooDeep_obeys hR _ _) i
  | succ remaining ih => exact truthVisit_obeys hR hhooks (fun j _ => ih (level + 1) j) i

theorem truth_obeys (value : Value) : Obeys R (truth call value) m := by
  cases value with
  | inst i => exact obeys_heap_bind.mpr (truthAt_obeys hR hhooks _ _ i)
  | _ => exact obeys_pure hR _

theorem hooklessTruth_obeys (i : InstanceId) : Obeys R (hooklessTruth call i) m := by
  rw [hooklessTruth, obeys_heap_bind]
  split
  · exact chainTruth_obeys hR (fun _ _ => tooDeep_obeys hR _ _) i
  · exact chainTruth_obeys hR (fun j _ => truthAt_obeys hR hhooks _ _ j) i

end

-- ---------------------------------------------------------------------------
-- Construction
-- ---------------------------------------------------------------------------

theorem settle_obeys (step : PathStep) : Obeys R (settle step) m := by
  unfold settle
  split
  case h_1 t ht =>
    rw [obeys_heap_bind, ht]
    have hfill (m' : Machine γ σ) (hm : m'.heap = m.heap) : Obeys R (commit
        (m.heap.fillLevel step.owner step.level (.template t) (.inst t.target))) m' := by
      rw [← hm]
      exact obeys_commit hR fun h' hf => hR.settle hf
    dsimp only
    split
    · exact obeys_report_bind hR (hfill _ (m.heap_report _))
    · exact hfill m rfl
  case h_2 => exact obeys_pure hR ()

theorem construct_obeys {call : Caller γ σ} {t : Template} {arguments : Arguments}
    (hinit : ∀ m', m'.heap = m.heap → ∀ found, m'.heap.initializer? t.target = .ok (some found) →
      Obeys R (call found.method arguments) m') : Obeys R (construct call t arguments) m := by
  have hrun : Obeys R (runInitializer call t.target arguments) m := by
    rw [runInitializer, obeys_heap_bind]
    refine obeys_report_bind hR ((obeys_outcome hR _).bind hR fun found m' hf => ?_)
    obtain ⟨hi, rfl⟩ := Prod.mk.inj (Except.ok.inj hf)
    cases found with
    | none => exact obeys_pure hR _
    | some found =>
      have hheap := m.heap_report fun _ => m.heap.initializerEvents t.target
      have hcalled := hinit _ hheap found (by rwa [hheap])
      refine (hcalled.discard hR).bind hR fun _ _ _ => ?_
      exact (obeys_forM hR fun step _ => settle_obeys hR step).bind hR fun _ _ _ => obeys_pure hR _
  refine hrun.bind hR fun initialized _ _ => obeys_heap_bind.mpr ?_
  exact obeys_report_bind hR (obeys_pure hR _)

-- ---------------------------------------------------------------------------
-- Functions and names
-- ---------------------------------------------------------------------------

theorem newFunction_obeys (name : String) (body : Body γ) :
    Obeys R (newFunction name body : Eval γ σ Value) m :=
  obeys_of_run rfl (hR.same rfl rfl)

theorem keepIn_obeys (env : Environment γ) (name : String) (index : Nat) (value : Value) :
    Obeys R (keepIn env name index value) m := by
  obtain ⟨trace, hr⟩ := run_keepIn env name index value m
  exact obeys_of_run hr (hR.same rfl rfl)

theorem keep_obeys (name : String) (index : Nat) (value : Value) :
    Obeys R (keep name index value) m := by
  obtain ⟨trace, hr⟩ := run_keep name index value m
  exact obeys_of_run hr (hR.same rfl rfl)

section
variable {runCode : γ → Arguments → Eval γ σ Value}
  (hcode : ∀ code arguments m, Obeys R (runCode code arguments) m)

include hcode

theorem provide_obeys (resolver : Resolver γ) (name : String) :
    Obeys R (provide runCode resolver name) m := by
  unfold provide
  split
  · exact newFunction_obeys hR name .builder
  · exact hcode _ _ m

theorem resolve_obeys (name : String) : Obeys R (resolve runCode name) m := by
  rw [resolve, obeys_machine_bind]
  split
  · exact obeys_pure hR _
  split
  · exact obeys_pure hR _
  split
  · exact obeys_outcome hR _
  · refine (provide_obeys hR hcode _ name).bind hR fun value _ _ => ?_
    exact (keep_obeys hR name _ value).bind hR fun _ _ _ => obeys_pure hR value

theorem resolveIn_obeys (env : Environment γ) (name : String) :
    Obeys R (resolveIn runCode env name) m := by
  unfold resolveIn
  split
  · exact obeys_pure hR _
  split
  · exact obeys_outcome hR _
  · refine (provide_obeys hR hcode _ name).bind hR fun value _ _ => ?_
    exact (keepIn_obeys hR env name _ value).bind hR fun _ _ _ => obeys_pure hR _

end

-- ---------------------------------------------------------------------------
-- Programs
-- ---------------------------------------------------------------------------

theorem performWith_obeys {call : Caller γ σ} {runCode : γ → Arguments → Eval γ σ Value}
    (hhooks : HooksObey R call) (hcode : ∀ code arguments m, Obeys R (runCode code arguments) m)
    {operation : Operation γ σ} (ho : operation.sparesHeap = true) :
    Obeys R (performWith call runCode operation) m := by
  cases operation with
  | inspect => exact obeys_machine hR
  | read target name => exact obeys_asking hR _ _
  | require i name => exact obeys_asking hR _ _
  | hook i hook => exact obeys_hook?_bind hR fun _ _ => obeys_pure hR _
  | truth target => exact truth_obeys hR hhooks target
  | hooklessTruth i => exact hooklessTruth_obeys hR hhooks i
  | toText target => exact toText_obeys hR hhooks target
  | resolve name => exact resolve_obeys hR hcode name
  | resolveIn env name => exact resolveIn_obeys hR hcode env name
  | keep name index value => exact keep_obeys hR name index value
  | keepIn env name index value => exact keepIn_obeys hR env name index value
  | bindName name value => exact obeys_modifyMachine (hR.same rfl rfl)
  | register resolver => exact obeys_modifyMachine (hR.same rfl rfl)
  | offerBuilder settings =>
    exact obeys_modifyMachine (hR.same (m.host_report _) (m.heap_report _))
  | newFunction name body => exact newFunction_obeys hR name body
  | lookupChain chain name owner depth => exact obeys_asking hR _ _
  | definer chain name owner depth => exact obeys_asking hR _ _
  | _ => cases ho

theorem exec_obeys {perform : (operation : Operation γ σ) → Eval γ σ operation.Answer}
    (hperform : ∀ operation m, operation.values.all m.knows = true →
      Obeys R (perform operation) m) (program : Program γ σ α) :
    Obeys R (exec perform program) m := by
  induction program generalizing m with
  | done result => exact obeys_outcome hR result
  | perform operation next ih =>
    rw [exec, obeys_machine_bind]
    split
    case isTrue hk => exact (hperform operation m hk).attempt.bind hR fun result _ _ => ih result
    case isFalse => exact obeys_halt _

end

end Eval

end Delegation

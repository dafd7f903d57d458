import Delegation.Proofs.Effects
import Delegation.Proofs.Known
import Delegation.Proofs.Rules

/-!
# What runs do to the heap

Whatever user code does, a run changes the heap only in the ways of `Change`
(`run_leads`). Values that user code makes up never reach the heap: each
operation of a program names known values, and what the machine itself reads to
go on with comes from a sound heap.
-/

namespace Delegation

variable {γ σ α : Type}

/-- The heap changes by changes only, if it is sound. -/
def Machine.LeadsOn (m m' : Machine γ σ) : Prop := m.heap.Sound → m.heap.Changes m'.heap

theorem leadsOn_rule : Rule (Machine.LeadsOn : Machine γ σ → Machine γ σ → Prop) where
  trans hm hm' hs := (hm hs).trans (hm' (Heap.Changes.sound hs (hm hs)))
  same _ hh _ := by rw [hh]
  settle hf hs := Heap.fillLevel_change hs hf

namespace Eval

open Machine (LeadsOn)

variable {m : Machine γ σ}

/-- Run on a machine, an evaluation changes the heap by changes only, whether it
ends in a value or in an error. -/
def Leads (x : Eval γ σ α) (m : Machine γ σ) : Prop :=
  ∀ result m', x m = .ok (result, m') → m.heap.Changes m'.heap

theorem Obeys.leads {x : Eval γ σ α} (h : Obeys LeadsOn x m) (hs : m.heap.Sound) : Leads x m :=
  fun result m' hr => h result m' hr hs

theorem settle_leads (hs : m.heap.Sound) (step : PathStep) : Leads (settle step) m :=
  (settle_obeys leadsOn_rule step).leads hs

-- ---------------------------------------------------------------------------
-- Calls
-- ---------------------------------------------------------------------------

/-- Every call of a known value with known arguments leads on by changes. -/
def CallLeads (call : Caller γ σ) : Prop :=
  ∀ (m : Machine γ σ) callee arguments, m.heap.Sound → m.heap.Knows callee →
    (∀ value ∈ arguments.values, m.heap.Knows value) → Leads (call callee arguments) m

/-- All code of the host leads on by changes. -/
def CodeLeads (runCode : γ → Arguments → Eval γ σ Value) : Prop :=
  ∀ (m : Machine γ σ) code arguments, m.heap.Sound → Leads (runCode code arguments) m

section
variable {call : Caller γ σ} (hcall : CallLeads call)

include hcall

/-- A hook is known to the machine that found it. -/
theorem CallLeads.hooks : HooksObey LeadsOn call := by
  intro m hook i method hm result m' hr hs
  have hk := Heap.hook?_known hs hm
  exact hcall m method {} hs hk (by simp [Arguments.values]) result m' hr

theorem construct_leads (t : Template) {arguments : Arguments}
    (ha : ∀ value ∈ arguments.values, m.heap.Knows value) :
    Obeys LeadsOn (construct call t arguments) m := by
  refine construct_obeys leadsOn_rule fun m' hm found hf result last hr hs => ?_
  have hk : m'.heap.Knows found.method := Heap.initializerAt_known hs _ hf
  exact hcall m' found.method arguments hs hk (hm ▸ ha) result last hr

end

theorem CodeLeads.obeys {runCode : γ → Arguments → Eval γ σ Value} (hcode : CodeLeads runCode)
    (code : γ) (arguments : Arguments) (m : Machine γ σ) :
    Obeys LeadsOn (runCode code arguments) m :=
  fun result m' hr hs => hcode m code arguments hs result m' hr

theorem callWith_leads {invoke : HostFunction → Arguments → Eval γ σ Value}
    {construct : Template → Arguments → Eval γ σ Value}
    (hinvoke : ∀ (m : Machine γ σ) f arguments,
      (∀ value ∈ arguments.values, m.heap.Knows value) → Obeys LeadsOn (invoke f arguments) m)
    (hconstruct : ∀ (m : Machine γ σ) t arguments,
      (∀ value ∈ arguments.values, m.heap.Knows value) → Obeys LeadsOn (construct t arguments) m) :
    CallLeads (callWith invoke construct) := by
  intro m callee arguments hs hk ha
  refine Obeys.leads ?_ hs
  induction callee generalizing arguments with
  | function f => exact hinvoke m f arguments ha
  | template t => exact hconstruct m t arguments ha
  | method serial owner name callee ih =>
    refine ih _ hk.2 fun value hv => ?_
    rcases List.mem_cons.mp hv with rfl | hv
    · exact hk.1
    · exact ha value hv
  | _ => exact obeys_heap_bind.mpr (obeys_outcome leadsOn_rule _)

theorem build_leads (settings : Settings) {arguments : Arguments}
    (ha : ∀ value ∈ arguments.values, m.heap.Knows value) :
    Obeys LeadsOn (build settings arguments) m := by
  obtain ⟨trace, hr⟩ := run_build settings arguments m
  cases hb : m.heap.build settings arguments with
  | error e =>
    rw [hb] at hr
    exact obeys_of_run hr fun _ => .refl
  | ok built =>
    obtain ⟨template, h'⟩ := built
    rw [hb] at hr
    exact obeys_of_run hr fun _ => Heap.build_change ha hb

theorem invoke_leads {runCode : γ → Arguments → Eval γ σ Value} (hcode : CodeLeads runCode)
    (f : HostFunction) {arguments : Arguments}
    (ha : ∀ value ∈ arguments.values, m.heap.Knows value) :
    Obeys LeadsOn (invoke runCode f arguments) m := by
  rw [invoke, obeys_machine_bind]
  split
  · exact build_leads _ ha
  · exact hcode.obeys _ arguments m
  · exact obeys_halt _

-- ---------------------------------------------------------------------------
-- Programs
-- ---------------------------------------------------------------------------

theorem write_leads {target value : Value} (name : String) (hk : m.heap.Knows value) :
    Obeys LeadsOn (write target name value) m := by
  rw [Eval.write, obeys_heap_bind]
  refine obeys_report_bind leadsOn_rule (obeys_commit leadsOn_rule fun h' hw _ => ?_)
  rw [m.heap_report]
  exact .single (Heap.write_change hk hw)

theorem freeze_leads (target : Value) : Obeys LeadsOn (freeze target) m := by
  obtain ⟨trace, hr⟩ := run_freeze target m
  exact obeys_of_run hr fun _ => .single (.freeze [target])

theorem performWith_leads {call : Caller γ σ} {runCode : γ → Arguments → Eval γ σ Value}
    (hcall : CallLeads call) (hcode : CodeLeads runCode) (operation : Operation γ σ)
    (hv : ∀ value ∈ operation.values, m.heap.Knows value) :
    Obeys LeadsOn (performWith call runCode operation) m := by
  cases operation with
  | update change => exact obeys_modifyMachine fun _ => .refl
  | write target name value => exact write_leads name (hv value (by simp [Operation.values]))
  | addDelegate receiver delegate =>
    have hk := hv delegate (by simp [Operation.values])
    refine obeys_heap_bind.mpr (obeys_commit leadsOn_rule fun h' ha _ => ?_)
    exact .single (Heap.addDelegate_change hk ha)
  | setSuper receiver delegate =>
    have hk := hv delegate (by simp [Operation.values])
    refine obeys_heap_bind.mpr (obeys_commit leadsOn_rule fun h' hs _ => ?_)
    exact .single (Heap.setSuper_change hk hs)
  | freeze target => exact freeze_leads target
  | call callee arguments =>
    intro result m' hr hs
    refine hcall m callee arguments hs (hv callee List.mem_cons_self) (fun value ha => ?_) _ _ hr
    exact hv value (List.mem_cons_of_mem _ ha)
  | newInstance name maxDepth =>
    exact obeys_allocate (·.addInstance name maxDepth) fun _ => .single (.addInstance name maxDepth)
  | newRecord fields =>
    have hf : ∀ field ∈ fields, m.heap.Knows field.2 := fun field hm =>
      hv field.2 (List.mem_map_of_mem hm)
    have hadd : Obeys LeadsOn (allocate (·.addRecord fields)) m :=
      obeys_allocate (·.addRecord fields) fun _ => .single (.addRecord hf)
    exact hadd.bind leadsOn_rule fun r _ _ => obeys_pure leadsOn_rule _
  | newTemplate target =>
    exact obeys_allocate (·.addTemplate target) fun _ => .single .takeSerial
  | newMethod owner name callee =>
    exact obeys_allocate (·.addMethod owner name callee) fun _ => .single .takeSerial
  | build settings arguments => exact build_leads settings hv
  | _ => exact performWith_obeys leadsOn_rule hcall.hooks hcode.obeys rfl

theorem exec_leads {call : Caller γ σ} {runCode : γ → Arguments → Eval γ σ Value}
    (hcall : CallLeads call) (hcode : CodeLeads runCode) (program : Program γ σ α) :
    Obeys LeadsOn (exec (performWith call runCode) program) m :=
  exec_obeys leadsOn_rule (fun operation _ hk => performWith_leads hcall hcode operation
    fun value hv => Machine.heap_knows (List.all_eq_true.mp hk value hv)) program

/-- Entries lead on by changes, however deep they nest. -/
theorem enter_leads (host : Host γ σ) (fuel : Nat) (entry : Entry γ) {arguments : Arguments}
    (ha : ∀ t, entry = .template t → ∀ value ∈ arguments.values, m.heap.Knows value) :
    Obeys LeadsOn (enter host fuel entry arguments) m := by
  induction fuel generalizing m entry arguments with
  | zero => exact obeys_halt _
  | succ fuel ih =>
    -- Whatever is called from inside this entry has less fuel, so the hypothesis covers it.
    have hcode : CodeLeads fun code => enter host fuel (.code code) := fun m code arguments hs =>
      (ih (.code code) (fun t ht => by cases ht)).leads hs
    have hcall : CallLeads (callWith (invoke fun code => enter host fuel (.code code))
        fun t => enter host fuel (.template t)) :=
      callWith_leads (fun m f arguments ha => invoke_leads hcode f ha)
        (fun m t arguments ha => ih (.template t) fun _ _ => ha)
    cases entry with
    | template t => exact construct_leads hcall t (ha t rfl)
    | code code =>
      have hrun := exec_leads (m := m) hcall hcode (host.code code arguments)
      refine hrun.bind leadsOn_rule fun value m' _ => ?_
      rw [obeys_machine_bind]
      split
      · exact obeys_pure leadsOn_rule _
      · exact obeys_halt _

theorem runCode_leads (host : Host γ σ) (fuel : Nat) : CodeLeads (runCode host fuel) :=
  fun _ code _ hs => (enter_leads host fuel (.code code) fun t ht => by cases ht).leads hs

theorem call_leads (host : Host γ σ) (fuel : Nat) : CallLeads (call host fuel) :=
  callWith_leads (fun _ f _ ha => invoke_leads (runCode_leads host fuel) f ha)
    fun _ t _ ha => enter_leads host fuel (.template t) fun _ _ => ha

/-- Whatever a program does, the heap changes by changes only. -/
theorem run_leads (host : Host γ σ) (fuel : Nat) (hs : m.heap.Sound) (program : Program γ σ α) :
    Leads (run host fuel program) m :=
  (exec_leads (call_leads host fuel) (runCode_leads host fuel) program).leads hs

end Eval

end Delegation

import Delegation.Eval.Names

/-!
# Laws of evaluations

What the evaluations that call nothing give on a machine.
-/

namespace Delegation

variable {γ σ α β : Type}

/-- A report leaves everything but the trace as it is. -/
theorem Machine.report_eq (m : Machine γ σ) (events : Unit → List Event) :
    m.report events = { m with trace := (m.report events).trace } := by
  unfold Machine.report
  split <;> rfl

@[simp] theorem Machine.heap_report (m : Machine γ σ) (events : Unit → List Event) :
    (m.report events).heap = m.heap := by
  rw [report_eq]

theorem Machine.host_report (m : Machine γ σ) (events : Unit → List Event) :
    (m.report events).host = m.host := by
  rw [report_eq]

theorem Machine.report_nil (m : Machine γ σ) : m.report (fun _ => []) = m := by
  unfold Machine.report
  split <;> simp

theorem Machine.report_report (m : Machine γ σ) (first second : List Event) :
    (m.report fun _ => first).report (fun _ => second) = m.report fun _ => first ++ second := by
  unfold Machine.report
  cases hl : m.listening <;> simp [hl]

namespace Eval

theorem run_bind (x : Eval γ σ α) (f : α → Eval γ σ β) (m : Machine γ σ) :
    (x >>= f) m =
      match x m with
      | .ok (.ok a, m) => f a m
      | .ok (.error e, m) => .ok (.error e, m)
      | .error reason => .error reason := by
  simp only [bind, ExceptT.bind, ExceptT.mk, StateT.bind, Except.bind]
  cases x m with
  | error reason => rfl
  | ok left =>
    obtain ⟨result, m⟩ := left
    cases result <;> rfl

/-- The one way in which a sequence succeeds. -/
theorem bind_ok {x : Eval γ σ α} {f : α → Eval γ σ β} {m m' : Machine γ σ} {b : β} :
    (x >>= f) m = .ok (.ok b, m') ↔
      ∃ a middle, x m = .ok (.ok a, middle) ∧ f a middle = .ok (.ok b, m') := by
  rw [run_bind]
  constructor
  · intro h
    split at h
    case h_1 a middle hx => exact ⟨a, middle, hx, h⟩
    case h_2 => cases h
    case h_3 => cases h
  · rintro ⟨a, middle, hx, hf⟩
    rw [hx]
    exact hf

@[simp] theorem run_pure (a : α) (m : Machine γ σ) : (pure a : Eval γ σ α) m = .ok (.ok a, m) := rfl

@[simp] theorem run_outcome (result : Except Error α) (m : Machine γ σ) :
    outcome result m = .ok (result, m) := rfl

@[simp] theorem run_machine (m : Machine γ σ) : machine m = .ok (.ok m, m) := rfl

@[simp] theorem run_modifyMachine (change : Machine γ σ → Machine γ σ) (m : Machine γ σ) :
    modifyMachine change m = .ok (.ok (), change m) := rfl

@[simp] theorem run_report (events : Unit → List Event) (m : Machine γ σ) :
    report events m = .ok (.ok (), m.report events) := rfl

@[simp] theorem run_heap (m : Machine γ σ) : heap m = .ok (.ok m.heap, m) := by
  simp [heap, run_bind]

@[simp] theorem run_setHeap (h : Heap) (m : Machine γ σ) :
    setHeap h m = .ok (.ok (), { m with heap := h }) := rfl

@[simp] theorem run_commit (change : Except Error Heap) (m : Machine γ σ) :
    commit change m =
      match change with
      | .ok h => .ok (.ok (), { m with heap := h })
      | .error e => .ok (.error e, m) := by
  cases change <;> simp [commit, run_bind]

theorem run_map (f : α → β) (x : Eval γ σ α) (m : Machine γ σ) :
    (f <$> x) m =
      match x m with
      | .ok (result, m) => .ok (result.map f, m)
      | .error reason => .error reason := by
  rw [← bind_pure_comp, run_bind]
  cases x m with
  | error reason => rfl
  | ok left =>
    obtain ⟨result, m⟩ := left
    cases result <;> rfl

theorem discard_eq (x : Eval γ σ α) : (discard x : Eval γ σ PUnit) = x >>= fun _ => pure ⟨⟩ := by
  simp [Functor.discard, map_const]

theorem run_discard (x : Eval γ σ α) (m : Machine γ σ) :
    (discard x : Eval γ σ PUnit) m =
      match x m with
      | .ok (.ok _, m) => .ok (.ok ⟨⟩, m)
      | .ok (.error e, m) => .ok (.error e, m)
      | .error reason => .error reason := by
  rw [discard_eq, run_bind]
  rfl

theorem run_write (target : Value) (name : String) (value : Value) (m : Machine γ σ) :
    write target name value m =
      commit (m.heap.write target name value)
        (m.report fun _ => m.heap.writeEvents target name) := by
  simp [write, run_bind]

theorem run_freeze (value : Value) (m : Machine γ σ) :
    ∃ trace, freeze value m = .ok (.ok (), { m with heap := m.heap.freeze value, trace }) := by
  refine ⟨(m.report fun _ => (m.heap.freezeAll [value]).2.flatMap m.heap.freezeEvents).trace, ?_⟩
  simp only [freeze, run_bind, run_heap, run_report, run_setHeap]
  rw [Machine.report_eq]
  rfl

theorem run_build (settings : Settings) (arguments : Arguments) (m : Machine γ σ) :
    ∃ trace, build settings arguments m =
      match m.heap.build settings arguments with
      | .ok (template, h) => .ok (.ok (.template template), { m with heap := h, trace })
      | .error e => .ok (.error e, m) := by
  cases hb : m.heap.build settings arguments with
  | error e =>
    refine ⟨m.trace, ?_⟩
    simp only [build, run_bind, run_heap, run_outcome, hb]
  | ok made =>
    obtain ⟨template, h⟩ := made
    refine ⟨({ m with heap := h }.report fun _ => h.buildEvents template).trace, ?_⟩
    simp only [build, run_bind, run_heap, run_outcome, hb, run_setHeap, run_report, run_pure]
    rw [Machine.report_eq]

theorem run_read (target : Value) (name : String) (m : Machine γ σ) :
    ∃ trace, read target name m = .ok (m.heap.read target name, { m with trace }) := by
  refine ⟨(m.report fun _ => m.heap.readEvents target name).trace, ?_⟩
  simp only [read, run_bind, run_heap, run_report, run_outcome]
  rw [← Machine.report_eq]

theorem run_commit_heap (change : Heap → Except Error Heap) (m : Machine γ σ) :
    (heap >>= fun h => commit (change h)) m =
      .ok ((change m.heap).map fun _ => (),
        { m with heap := (change m.heap).toOption.getD m.heap }) := by
  rw [run_bind, run_heap]
  dsimp only
  rw [run_commit]
  cases change m.heap <;> rfl

theorem run_keepIn (env : Environment γ) (name : String) (index : Nat) (value : Value)
    (m : Machine γ σ) : ∃ trace, keepIn env name index value m =
      .ok (.ok (env.keep name index value), { m with trace }) := by
  unfold keepIn
  cases env.resolvers[index]? with
  | none => exact ⟨m.trace, rfl⟩
  | some resolver =>
    refine ⟨(m.report fun _ => [.resolved name resolver.name]).trace, ?_⟩
    rw [← Machine.report_eq]
    rfl

theorem run_keep (name : String) (index : Nat) (value : Value) (m : Machine γ σ) :
    ∃ trace, keep name index value m =
      .ok (.ok (), { m with builtins := m.builtins.keep name index value, trace }) := by
  obtain ⟨trace, hr⟩ := run_keepIn m.builtins name index value m
  exact ⟨trace, by simp [keep, run_bind, hr]⟩

end Eval

end Delegation

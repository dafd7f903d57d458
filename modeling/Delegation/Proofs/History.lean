import Delegation.Proofs.Tied

/-!
# Histories of runs

A watched run notes down every operation that a program performs, also when the
program runs inside another: in a call, a hook, an initializer or a resolver. It
is the run itself with its history beside it (`run_watched`). What an operation
does to the state of a watched machine, and what noting it down adds, decides what
all histories are like (`Records`).
-/

namespace Delegation

/-- An operation of a run, noted down when it was over. -/
structure Moment (γ σ : Type) where
  /-- How many operations were over when this one began. -/
  began : Nat
  before : Machine γ σ
  operation : Operation γ σ
  outcome : Except Error operation.Answer
  after : Machine γ σ

/-- The operations of a run, in the order in which they were over. -/
abbrev History (γ σ : Type) := List (Moment γ σ)

variable {γ σ α : Type}

-- ---------------------------------------------------------------------------
-- Watching
-- ---------------------------------------------------------------------------

namespace Machine

def watched (m : Machine γ σ) : Machine γ (σ × History γ σ) := m.withHost (m.host, [])

def unwatched (m : Machine γ (σ × History γ σ)) : Machine γ σ := m.withHost m.host.1

def history (m : Machine γ (σ × History γ σ)) : History γ σ := m.host.2

def note (m : Machine γ (σ × History γ σ)) (x : Moment γ σ) : Machine γ (σ × History γ σ) :=
  { m with host := (m.host.1, m.host.2 ++ [x]) }

end Machine

namespace Operation

def watched : Operation γ σ → Operation γ (σ × History γ σ)
  | inspect => inspect
  | update change => update (Prod.map change id)
  | read target name => read target name
  | require i name => require i name
  | write target name value => write target name value
  | addDelegate receiver delegate => addDelegate receiver delegate
  | setSuper receiver delegate => setSuper receiver delegate
  | hook i name => hook i name
  | freeze target => freeze target
  | call callee arguments => call callee arguments
  | truth target => truth target
  | hooklessTruth i => hooklessTruth i
  | toText target => toText target
  | resolve name => resolve name
  | bindName name value => bindName name value
  | offerBuilder settings => offerBuilder settings
  | register resolver => register resolver
  | keep name index value => keep name index value
  | resolveIn env name => resolveIn env name
  | keepIn env name index value => keepIn env name index value
  | newInstance name maxDepth => newInstance name maxDepth
  | newRecord fields => newRecord fields
  | newFunction name body => newFunction name body
  | newTemplate target => newTemplate target
  | newMethod owner name callee => newMethod owner name callee
  | build settings arguments => build settings arguments
  | lookupChain chain name owner depth => lookupChain chain name owner depth
  | definer chain name owner depth => definer chain name owner depth

/-- What a program sees of the answer that it gets while it is watched. -/
def seen : (operation : Operation γ σ) → operation.watched.Answer → operation.Answer
  | inspect => Machine.unwatched
  | update _ | read .. | require .. | write .. | addDelegate .. | setSuper .. | hook .. | freeze _
  | call .. | truth _ | hooklessTruth _ | toText _ | resolve _ | bindName .. | offerBuilder _
  | register _ | keep .. | resolveIn .. | keepIn .. | newInstance .. | newRecord _
  | newFunction .. | newTemplate _ | newMethod .. | build .. | lookupChain .. | definer .. => id

/-- Whether all that an operation does itself, apart from what it calls, is to
change the heap, add functions and report events. -/
def isQuiet : Operation γ σ → Bool
  | inspect | update _ | resolve _ | bindName .. | offerBuilder _ | register _ | keep .. => false
  | _ => true

theorem watched_values (operation : Operation γ σ) :
    operation.watched.values = operation.values := by
  cases operation <;> rfl

end Operation

/-- What is noted down of an operation that led from one machine to another. -/
def Machine.moment (m : Machine γ (σ × History γ σ)) (operation : Operation γ σ)
    (outcome : Except Error operation.watched.Answer) (m' : Machine γ (σ × History γ σ)) :
    Moment γ σ where
  began := m.history.length
  before := m.unwatched
  operation := operation
  outcome := outcome.map operation.seen
  after := m'.unwatched

def Program.watched : Program γ σ α → Program γ (σ × History γ σ) α
  | done result => done result
  | perform operation next =>
    perform .inspect fun
      | .error e => done (.error e)
      | .ok (before : Machine γ (σ × History γ σ)) =>
        perform operation.watched fun outcome =>
          perform .inspect fun
            | .error e => done (.error e)
            | .ok (after : Machine γ (σ × History γ σ)) =>
              let x := before.moment operation outcome after
              perform (.update fun (s, history) => (s, history ++ [x])) fun _ =>
                watched (next (outcome.map operation.seen))

def Host.watched (host : Host γ σ) : Host γ (σ × History γ σ) where
  code code arguments := (host.code code arguments).watched

namespace Eval

/-- A run with its history. -/
def watch (host : Host γ σ) (fuel : Nat) (program : Program γ σ α) (m : Machine γ σ) :
    Except Halt (Except Error α × Machine γ σ × History γ σ) :=
  (run host.watched fuel program.watched m.watched).map fun (result, m') =>
    (result, m'.unwatched, m'.history)

-- ---------------------------------------------------------------------------
-- One operation
-- ---------------------------------------------------------------------------

/-- Ties a watched machine to the one without its history. -/
def historyTie : Tie γ (σ × History γ σ) σ := fun m t => t = m.host.1

/-- The same tie, for machines that have come from another in the given way. -/
def watchTie (R : Machine γ (σ × History γ σ) → Machine γ (σ × History γ σ) → Prop)
    (start : Machine γ (σ × History γ σ)) : Tie γ (σ × History γ σ) σ :=
  fun m t => historyTie m t ∧ R start m

theorem tied_id {P : Tie γ (σ × History γ σ) σ} {x : Eval γ (σ × History γ σ) α} {y : Eval γ σ α}
    (h : Tied P x y) : Tied P (id <$> x) y := by
  rwa [id_map]

section
variable {P : Tie γ (σ × History γ σ) σ}
  {call : Caller γ (σ × History γ σ)} {call' : Caller γ σ}
  {runCode : γ → Arguments → Eval γ (σ × History γ σ) Value}
  {runCode' : γ → Arguments → Eval γ σ Value}

theorem tied_quiet (hP : P.Loose) (hcall : CallTied P call call')
    (hcode : CodeTied P runCode runCode') {operation : Operation γ σ}
    (hq : operation.isQuiet = true) :
    Tied P (operation.seen <$> performWith call runCode operation.watched)
      (performWith call' runCode' operation) := by
  cases operation with
  | read target name => exact tied_id (tied_asking hP _ _)
  | require i name => exact tied_id (tied_asking hP _ _)
  | write target name value => exact tied_id (tied_write hP target name value)
  | addDelegate receiver delegate => exact tied_id (tied_heap_bind fun _ => tied_commit hP _)
  | setSuper receiver delegate => exact tied_id (tied_heap_bind fun _ => tied_commit hP _)
  | hook i hook => exact tied_id (tied_hook? hP hook i)
  | freeze target => exact tied_id (tied_freeze hP target)
  | call callee arguments => exact tied_id (hcall callee arguments)
  | truth target => exact tied_id (tied_truth hP hcall target)
  | hooklessTruth i => exact tied_id (tied_hooklessTruth hP hcall i)
  | toText target => exact tied_id (tied_toText hP hcall target)
  | resolveIn env name => exact tied_id (tied_resolveIn hP hcode env name)
  | keepIn env name index value => exact tied_id (tied_keepIn hP env name index value)
  | newInstance name maxDepth => exact tied_id (tied_allocate hP (·.addInstance name maxDepth))
  | newRecord fields => exact tied_id ((tied_allocate hP _).bind fun _ => tied_pure _)
  | newFunction name body => exact tied_id (tied_newFunction hP name body)
  | newTemplate target => exact tied_id (tied_allocate hP (·.addTemplate target))
  | newMethod owner name callee =>
    exact tied_id (tied_allocate hP (·.addMethod owner name callee))
  | build settings arguments => exact tied_id (tied_build hP settings arguments)
  | lookupChain chain name owner depth => exact tied_id (tied_asking hP _ _)
  | definer chain name owner depth => exact tied_id (tied_asking hP _ _)
  | _ => cases hq

theorem historyTie_loose : Tie.Loose (historyTie : Tie γ (σ × History γ σ) σ) :=
  fun _ _ _ _ _ _ ht => ht

theorem tied_keep (name : String) (index : Nat) (value : Value) :
    Tied historyTie (keep name index value : Eval γ (σ × History γ σ) Unit)
      (keep name index value) := by
  refine tied_machine_bind fun m t => Tied.bind ?_ fun env => ?_
  · exact tied_keepIn historyTie_loose m.builtins name index value
  · exact tied_modifyMachine fun m t ht => ⟨t, rfl, ht⟩

theorem tied_resolve (hcode : CodeTied historyTie runCode runCode') (name : String) :
    Tied historyTie (resolve runCode name) (resolve runCode' name) := by
  unfold resolve
  refine tied_machine_bind fun m t => ?_
  rw [m.globals_withHost, m.builtins_withHost]
  split
  · exact tied_pure _
  split
  · exact tied_pure _
  split
  · exact tied_outcome _
  · exact (tied_provide historyTie_loose hcode _ name).bind fun value =>
      (tied_keep name _ value).bind fun _ => tied_pure value

/-- Watched or not, an operation does the same, if what it calls does. -/
theorem tied_operation (hcall : CallTied historyTie call call')
    (hcode : CodeTied historyTie runCode runCode') (operation : Operation γ σ) :
    Tied historyTie (operation.seen <$> performWith call runCode operation.watched)
      (performWith call' runCode' operation) := by
  cases operation with
  | inspect =>
    rintro m t rfl
    exact ⟨_, rfl, rfl⟩
  | update change =>
    rintro m t rfl
    exact ⟨_, rfl, rfl⟩
  | bindName name value => exact tied_id (tied_modifyMachine fun m t ht => ⟨t, rfl, ht⟩)
  | register resolver => exact tied_id (tied_modifyMachine fun m t ht => ⟨t, rfl, ht⟩)
  | offerBuilder settings =>
    refine tied_id (tied_modifyMachine fun m t ht => ⟨t, m.offerBuilder_withHost t settings, ?_⟩)
    rw [historyTie, m.host_offerBuilder]
    exact ht
  | keep name index value => exact tied_id (tied_keep name index value)
  | resolve name => exact tied_id (tied_resolve hcode name)
  | _ => exact tied_quiet historyTie_loose hcall hcode rfl

theorem operation_unwatched (hcall : CallTied historyTie call call')
    (hcode : CodeTied historyTie runCode runCode') (operation : Operation γ σ)
    (m : Machine γ (σ × History γ σ)) :
    performWith call' runCode' operation m.unwatched =
      (performWith call runCode operation.watched m).map fun (outcome, m') =>
        (outcome.map operation.seen, m'.unwatched) := by
  have h := tied_operation hcall hcode operation m m.host.1 rfl
  rw [run_map] at h
  cases hr : performWith call runCode operation.watched m with
  | error reason =>
    rw [hr] at h
    exact h
  | ok left =>
    rw [hr] at h
    obtain ⟨t', hy, rfl⟩ := h
    exact hy

end

-- ---------------------------------------------------------------------------
-- Whole runs
-- ---------------------------------------------------------------------------

theorem run_exec {perform : (operation : Operation γ σ) → Eval γ σ operation.Answer}
    (operation : Operation γ σ) (next : Except Error operation.Answer → Program γ σ α)
    (m : Machine γ σ) :
    exec perform (.perform operation next) m =
      if operation.values.all m.knows then
        match perform operation m with
        | .ok (outcome, m') => exec perform (next outcome) m'
        | .error reason => .error reason
      else .error .unknownReference := by
  rw [exec, run_bind, run_machine]
  dsimp only
  split
  · rw [run_bind, attempt]
    cases perform operation m <;> rfl
  · rfl

/-- A watched program performs each operation and notes it down. -/
theorem run_exec_watched {call : Caller γ (σ × History γ σ)}
    {runCode : γ → Arguments → Eval γ (σ × History γ σ) Value} (operation : Operation γ σ)
    (next : Except Error operation.Answer → Program γ σ α) (m : Machine γ (σ × History γ σ)) :
    exec (performWith call runCode) (Program.perform operation next).watched m =
      if operation.values.all m.knows then
        match performWith call runCode operation.watched m with
        | .ok (outcome, m') => exec (performWith call runCode)
            (next (outcome.map operation.seen)).watched (m'.note (m.moment operation outcome m'))
        | .error reason => .error reason
      else .error .unknownReference := by
  rw [Program.watched, run_exec]
  change exec (performWith call runCode) (.perform operation.watched _) m = _
  rw [run_exec, operation.watched_values]
  split
  · cases performWith call runCode operation.watched m <;> rfl
  · rfl

end Eval

/-- The operation did what is noted down, in a run that nobody watched. -/
def Moment.Genuine (host : Host γ σ) (x : Moment γ σ) : Prop :=
  ∃ fuel, Eval.perform host fuel x.operation x.before = .ok (x.outcome, x.after)

/-- A way in which watched machines come from one another, kept by every operation
together with its note. -/
structure Records (host : Host γ σ)
    (R : Machine γ (σ × History γ σ) → Machine γ (σ × History γ σ) → Prop) : Prop where
  refl : ∀ m, R m m
  trans : ∀ {m m' m''}, R m m' → R m' m'' → R m m''
  loose : ∀ m heap bodies trace, m.bodies.toList <+: bodies.toList →
    R m { m with heap, bodies, trace }
  note : ∀ {call : Caller γ (σ × History γ σ)}
    {runCode : γ → Arguments → Eval γ (σ × History γ σ) Value},
    (∀ code arguments m result m', runCode code arguments m = .ok (result, m') → R m m') →
    ∀ (operation : Operation γ σ) m outcome m',
      Eval.performWith call runCode operation.watched m = .ok (outcome, m') →
      (operation.isQuiet = true → R m m') → (m.moment operation outcome m').Genuine host →
      R m (m'.note (m.moment operation outcome m'))

namespace Eval

variable {host : Host γ σ} {R : Machine γ (σ × History γ σ) → Machine γ (σ × History γ σ) → Prop}
  (hR : Records host R)

include hR

theorem watchTie_loose (start : Machine γ (σ × History γ σ)) : (watchTie R start).Loose :=
  fun m _ heap bodies trace hb ⟨ht, hm⟩ => ⟨ht, hR.trans hm (hR.loose m heap bodies trace hb)⟩

section
variable {x : Eval γ (σ × History γ σ) α} {y : Eval γ σ α}
  (hx : ∀ start, Tied (watchTie R start) x y)

include hx

theorem tied_unwatched : Tied historyTie x y := by
  intro m t ht
  have h := hx m m t ⟨ht, hR.refl m⟩
  cases hr : x m with
  | error reason => rwa [hr] at h
  | ok left =>
    rw [hr] at h
    obtain ⟨t', hy, ht', -⟩ := h
    exact ⟨t', hy, ht'⟩

theorem related_of_tied {m m' : Machine γ (σ × History γ σ)} {result : Except Error α}
    (hr : x m = .ok (result, m')) : R m m' := by
  have h := hx m m m.host.1 ⟨rfl, hR.refl m⟩
  rw [hr] at h
  obtain ⟨_, _, _, hm⟩ := h
  exact hm

end

section
variable {call : Caller γ (σ × History γ σ)}
  {runCode : γ → Arguments → Eval γ (σ × History γ σ) Value} {fuel : Nat}
  (hcall : ∀ start, CallTied (watchTie R start) call (Eval.call host fuel))
  (hcode : ∀ start, CodeTied (watchTie R start) runCode (Eval.runCode host fuel))

include hcall hcode

theorem related_of_quiet {operation : Operation γ σ} (hq : operation.isQuiet = true)
    {m m' : Machine γ (σ × History γ σ)} {outcome : Except Error operation.watched.Answer}
    (hr : performWith call runCode operation.watched m = .ok (outcome, m')) : R m m' := by
  have hquiet (start : Machine γ (σ × History γ σ)) :=
    tied_quiet (watchTie_loose hR start) (hcall start) (hcode start) hq
  have hmap : (operation.seen <$> performWith call runCode operation.watched) m =
      .ok (outcome.map operation.seen, m') := by rw [run_map, hr]
  exact related_of_tied hR hquiet hmap

theorem tied_exec (start : Machine γ (σ × History γ σ)) (program : Program γ σ α) :
    Tied (watchTie R start) (exec (performWith call runCode) program.watched)
      (exec (perform host fuel) program) := by
  induction program with
  | done result => exact tied_outcome result
  | perform operation next ih =>
    rintro m t ⟨rfl, hm⟩
    have hknows : (m.withHost m.host.1).knows = m.knows :=
      funext fun value => m.knows_withHost m.host.1 value
    rw [run_exec_watched, run_exec, hknows]
    have hcalled : CallTied historyTie call (Eval.call host fuel) :=
      fun callee arguments => tied_unwatched hR fun start => hcall start callee arguments
    have hcoded : CodeTied historyTie runCode (Eval.runCode host fuel) :=
      fun code arguments => tied_unwatched hR fun start => hcode start code arguments
    have hsame : perform host fuel operation (m.withHost m.host.1) = _ :=
      operation_unwatched hcalled hcoded operation m
    by_cases hk : operation.values.all m.knows = true
    · rw [if_pos hk, if_pos hk, hsame]
      cases hr : performWith call runCode operation.watched m with
      | error reason => rfl
      | ok left =>
        obtain ⟨outcome, m'⟩ := left
        -- The rest of the program starts from the machine with the note.
        have hnote := hR.note (fun code arguments _ _ _ =>
            related_of_tied hR fun start => hcode start code arguments)
          operation m outcome m' hr (fun hq => related_of_quiet hR hcall hcode hq hr)
          ⟨fuel, hsame.trans (by rw [hr]; rfl)⟩
        exact ih _ _ _ ⟨rfl, hR.trans hm hnote⟩
    · rw [if_neg hk, if_neg hk]

end

/-- Entries under a watching host do what they do otherwise, however deep they
nest. -/
theorem tied_enter (fuel : Nat) (start : Machine γ (σ × History γ σ)) (entry : Entry γ)
    (arguments : Arguments) : Tied (watchTie R start) (enter host.watched fuel entry arguments)
      (enter host fuel entry arguments) := by
  induction fuel generalizing start entry arguments with
  | zero => exact tied_halt _
  | succ fuel ih =>
    have hloose := watchTie_loose hR
    have hcode (start : Machine γ (σ × History γ σ)) :
        CodeTied (watchTie R start) (runCode host.watched fuel) (runCode host fuel) :=
      fun code arguments => ih start (.code code) arguments
    have hcall (start : Machine γ (σ × History γ σ)) :
        CallTied (watchTie R start) (call host.watched fuel) (call host fuel) :=
      tied_callWith (tied_invoke (hloose start) (hcode start)) fun t => ih start (.template t)
    cases entry with
    | template t => exact tied_construct (hloose start) (hcall start) t arguments
    | code code =>
      have hexec := tied_exec hR hcall hcode start (host.code code arguments)
      refine hexec.bind fun value => tied_machine_bind fun m t => ?_
      rw [m.knows_withHost]
      split
      · exact tied_pure value
      · exact tied_halt _

theorem tied_run (fuel : Nat) (start : Machine γ (σ × History γ σ)) (program : Program γ σ α) :
    Tied (watchTie R start) (run host.watched fuel program.watched) (run host fuel program) := by
  have hcode (start : Machine γ (σ × History γ σ)) :
      CodeTied (watchTie R start) (runCode host.watched fuel) (runCode host fuel) :=
    fun code arguments => tied_enter hR fuel start (.code code) arguments
  refine tied_exec hR (fun start => ?_) hcode start program
  exact tied_callWith (tied_invoke (watchTie_loose hR start) (hcode start)) fun t =>
    tied_enter hR fuel start (.template t)

theorem watch_related {fuel : Nat} {program : Program γ σ α} {m m' : Machine γ σ}
    {result : Except Error α} {history : History γ σ}
    (hw : watch host fuel program m = .ok (result, m', history)) :
    ∃ last, R m.watched last ∧ last.unwatched = m' ∧ last.history = history := by
  unfold watch at hw
  cases hr : run host.watched fuel program.watched m.watched with
  | error reason =>
    rw [hr] at hw
    cases hw
  | ok left =>
    obtain ⟨_, last⟩ := left
    rw [hr] at hw
    cases hw
    exact ⟨last, related_of_tied hR (fun start => tied_run hR fuel start program) hr, rfl, rfl⟩

omit hR in
/-- A run with its history is the run. -/
theorem run_watched (host : Host γ σ) (fuel : Nat) (program : Program γ σ α) (m : Machine γ σ) :
    run host fuel program m =
      (watch host fuel program m).map fun (result, m', _) => (result, m') := by
  have hany : Records host fun _ _ => True :=
    ⟨fun _ => trivial, fun _ _ => trivial, fun _ _ _ _ _ => trivial,
      fun _ _ _ _ _ _ _ _ => trivial⟩
  have h := tied_run hany fuel m.watched program m.watched m.host ⟨rfl, trivial⟩
  unfold watch
  cases hr : run host.watched fuel program.watched m.watched with
  | error reason =>
    rw [hr] at h
    exact h
  | ok left =>
    rw [hr] at h
    obtain ⟨t', hy, rfl, -⟩ := h
    exact hy

omit hR in
theorem exists_history {fuel : Nat} {program : Program γ σ α} {m m' : Machine γ σ}
    {result : Except Error α} (hr : run host fuel program m = .ok (result, m')) :
    ∃ history, watch host fuel program m = .ok (result, m', history) := by
  rw [run_watched] at hr
  cases hw : watch host fuel program m with
  | error reason =>
    rw [hw] at hr
    cases hr
  | ok left =>
    obtain ⟨_, _, history⟩ := left
    rw [hw] at hr
    cases hr
    exact ⟨history, rfl⟩

end Eval

end Delegation

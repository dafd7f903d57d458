import Delegation.Proofs.Accounting
import Delegation.Proofs.Reachable

/-!
# Own members in a run

At every time in a run the members of an instance are what the writes until then,
one after the other, have made of those at the start (`watch_tells`). No write changes
another member, and all slots are in the order of the names' bytes (`slots_in_order`).
-/

namespace Delegation

variable {γ σ α : Type}

namespace Eval

open Machine (Tallied)

variable {m : Machine γ (σ × History γ σ)}

-- ---------------------------------------------------------------------------
-- Operations
-- ---------------------------------------------------------------------------

theorem writes_moment (operation : Operation γ σ) (outcome : Except Error operation.watched.Answer)
    (m' : Machine γ (σ × History γ σ)) :
    (m.moment operation outcome m').writes =
      if outcome.isOk then operation.writes m.unwatched else [] := by
  cases outcome <;> rfl

/-- Nothing has been noted down yet of the writes that were made. -/
structure Puts (m : Machine γ (σ × History γ σ)) (writes : List MemberWrite)
    (m' : Machine γ (σ × History γ σ)) : Prop where
  history : m'.history = m.history
  members : m.heap.Writes writes m'.heap
  apart : MemberWrite.Apart writes

theorem write_puts {target value : Value} {name : String} {m' : Machine γ (σ × History γ σ)}
    {result : Except Error Unit} (hk : m.heap.Knows target)
    (hr : write target name value m = .ok (result, m')) :
    Puts m (if result.isOk then m.heap.attributeWrites target name value else []) m' := by
  rw [run_write, Machine.report_eq, run_commit] at hr
  cases hw : m.heap.write target name value with
  | error e =>
    rw [hw] at hr
    cases hr
    exact ⟨rfl, .refl _, MemberWrite.apart_nil⟩
  | ok h' =>
    rw [hw] at hr
    cases hr
    exact ⟨rfl, Heap.write_writes hk hw, m.heap.apart_attributeWrites target name value⟩

theorem build_puts {settings : Settings} {arguments : Arguments}
    {m' : Machine γ (σ × History γ σ)} {result : Except Error Value}
    (hr : build settings arguments m = .ok (result, m')) :
    Puts m (if result.isOk then m.heap.buildWrites arguments else []) m' := by
  obtain ⟨trace, hrun⟩ := run_build settings arguments m
  rw [hrun] at hr
  cases hb : m.heap.build settings arguments with
  | error e =>
    rw [hb] at hr
    cases hr
    exact ⟨rfl, .refl _, MemberWrite.apart_nil⟩
  | ok made =>
    obtain ⟨template, h'⟩ := made
    obtain ⟨hw, ha⟩ := Heap.build_writes hb
    rw [hb] at hr
    cases hr
    exact ⟨rfl, hw, ha⟩

section
variable {operation : Operation γ σ} {outcome : Except Error operation.watched.Answer}
  {m' : Machine γ (σ × History γ σ)}

/-- An operation that makes its writes by itself. -/
theorem Puts.note (h : Puts m (if outcome.isOk then operation.writes m.unwatched else []) m') :
    Tallied m (m'.note (m.moment operation outcome m')) := by
  rw [← writes_moment operation outcome m'] at h
  have hexact : (m.moment operation outcome m').Exact := fun _ => h.members.setsOnly h.apart
  exact ⟨_, Machine.accounted_note h.history rfl hexact h.members⟩

/-- An operation that writes nothing by itself. -/
theorem Obeys.note (hw : operation.writes m.unwatched = [])
    {x : Eval γ (σ × History γ σ) operation.watched.Answer} (hx : Obeys Tallied x m)
    (hr : x m = .ok (outcome, m')) : Tallied m (m'.note (m.moment operation outcome m')) := by
  have hnone : (m.moment operation outcome m').writes = [] := by
    rw [writes_moment, hw, ite_self]
  have hexact : (m.moment operation outcome m').Exact := fun hne => absurd hnone hne
  have hsilent : m'.heap.Writes (m.moment operation outcome m').writes m'.heap := by
    rw [hnone]
    exact .refl _
  exact tallied_rule.trans (hx _ _ hr) ⟨_, Machine.accounted_note rfl rfl hexact hsilent⟩

theorem invoke_noted {runCode : γ → Arguments → Eval γ (σ × History γ σ) Value}
    (hcode : CodeTallied runCode) {f : HostFunction} {arguments : Arguments}
    {outcome : Except Error Value} (hr : invoke runCode f arguments m = .ok (outcome, m')) :
    Tallied m (m'.note (m.moment (.call (.function f) arguments) outcome m')) := by
  rw [invoke, run_bind, run_machine] at hr
  have hwrites : Operation.writes m.unwatched (.call (.function f) arguments) =
      if m.isBuilder f then m.heap.buildWrites arguments else [] := rfl
  unfold Machine.isBuilder at hwrites
  cases hbody : m.bodies[f.serial]? with
  | none =>
    simp only [hbody] at hr
    cases hr
  | some body =>
    simp only [hbody] at hr hwrites
    cases body with
    | builder => exact Puts.note (hwrites ▸ build_puts hr)
    | host code => exact (hcode code arguments m).note hwrites hr

end

theorem performWith_tallied {call : Caller γ (σ × History γ σ)}
    {runCode : γ → Arguments → Eval γ (σ × History γ σ) Value} (hcall : MethodsTallied call)
    (hcode : CodeTallied runCode) {operation : Operation γ σ}
    (ho : operation.putsOrCalls = false) :
    Obeys Tallied (performWith call runCode operation.watched) m := by
  cases operation with
  | update change => exact obeys_modifyMachine (.silent rfl (.refl _))
  | addDelegate receiver delegate =>
    refine obeys_heap_bind.mpr (obeys_commit tallied_rule fun h' ha => ?_)
    exact .silent rfl (Heap.addDelegate_writes ha)
  | setSuper receiver delegate =>
    refine obeys_heap_bind.mpr (obeys_commit tallied_rule fun h' hs => ?_)
    exact .silent rfl (Heap.setSuper_writes hs)
  | freeze target => exact freeze_tallied target
  | newInstance name maxDepth =>
    exact allocate_tallied (·.addInstance name maxDepth) (Heap.addInstance_writes name maxDepth)
  | newRecord fields =>
    have hadd : Obeys Tallied (allocate (·.addRecord fields)) m :=
      allocate_tallied (·.addRecord fields) fun _ => rfl
    exact hadd.bind tallied_rule fun r _ _ => obeys_pure tallied_rule _
  | newTemplate target => exact allocate_tallied (·.addTemplate target) Heap.takeSerial_writes
  | newMethod owner name callee =>
    exact allocate_tallied (·.addMethod owner name callee) Heap.takeSerial_writes
  | write | build | call => cases ho
  | _ => exact performWith_obeys tallied_rule hcall.hooks hcode rfl

section
variable {runCode : γ → Arguments → Eval γ (σ × History γ σ) Value}
  {construct : Template → Arguments → Eval γ (σ × History γ σ) Value}
  (hcode : CodeTallied runCode)
  (hconstruct : ∀ t arguments m, Obeys Tallied (construct t arguments) m)

include hcode hconstruct

/-- An operation together with its note is accounted for. -/
theorem operation_tallied {operation : Operation γ σ}
    {outcome : Except Error operation.watched.Answer} {m' : Machine γ (σ × History γ σ)}
    (hk : operation.values.all m.knows = true)
    (hr : performWith (callWith (invoke runCode) construct) runCode operation.watched m =
      .ok (outcome, m')) :
    Tallied m (m'.note (m.moment operation outcome m')) := by
  have hcall := callWith_tallied hcode hconstruct
  cases operation with
  | write target name value =>
    have htarget : m.heap.Knows target :=
      Machine.heap_knows (List.all_eq_true.mp hk target (by simp [Operation.values]))
    exact (write_puts htarget hr).note
  | build settings arguments => exact (build_puts hr).note
  | call callee arguments =>
    cases callee with
    | function f => exact invoke_noted hcode hr
    | template t => exact (hconstruct t arguments m).note rfl hr
    | method serial owner name callee =>
      exact (hcall serial owner name callee arguments m).note rfl hr
    | _ =>
      refine Obeys.note rfl ?_ hr
      exact obeys_heap_bind.mpr (obeys_outcome tallied_rule _)
  | _ => exact (performWith_tallied hcall hcode rfl).note rfl hr

-- ---------------------------------------------------------------------------
-- Runs
-- ---------------------------------------------------------------------------

theorem exec_tallied (program : Program γ σ α) :
    Obeys Tallied
      (exec (performWith (callWith (invoke runCode) construct) runCode) program.watched) m := by
  induction program generalizing m with
  | done result => exact obeys_outcome tallied_rule result
  | perform operation next ih =>
    intro result last hr
    rw [run_exec_watched] at hr
    split at hr
    case isTrue hk =>
      cases ho : performWith (callWith (invoke runCode) construct) runCode operation.watched m with
      | error reason =>
        rw [ho] at hr
        cases hr
      | ok left =>
        obtain ⟨outcome, m'⟩ := left
        rw [ho] at hr
        exact tallied_rule.trans (operation_tallied hcode hconstruct hk ho) (ih _ _ _ hr)
    case isFalse => cases hr

end

/-- Entries are accounted for, however deep they nest. -/
theorem enter_tallied (host : Host γ σ) (fuel : Nat) (entry : Entry γ) (arguments : Arguments) :
    Obeys Tallied (enter host.watched fuel entry arguments) m := by
  induction fuel generalizing m entry arguments with
  | zero => exact obeys_halt _
  | succ fuel ih =>
    have hcode : CodeTallied fun code => enter host.watched fuel (.code code) :=
      fun code arguments _ => ih (.code code) arguments
    have hconstruct (t : Template) (arguments : Arguments) (m : Machine γ (σ × History γ σ)) :
        Obeys Tallied (enter host.watched fuel (.template t) arguments) m :=
      ih (.template t) arguments
    cases entry with
    | template t => exact construct_tallied (callWith_tallied hcode hconstruct) t arguments
    | code code =>
      have hrun := exec_tallied (m := m) hcode hconstruct (host.code code arguments)
      refine hrun.bind tallied_rule fun value m' _ => ?_
      rw [obeys_machine_bind]
      split
      · exact obeys_pure tallied_rule _
      · exact obeys_halt _

theorem run_tallied (host : Host γ σ) (fuel : Nat) (program : Program γ σ α) :
    Obeys Tallied (run host.watched fuel program.watched) m :=
  exec_tallied (fun code arguments _ => enter_tallied host fuel (.code code) arguments)
    (fun t arguments _ => enter_tallied host fuel (.template t) arguments) program

end Eval

/-- What a history tells of own members on the way from one machine to another: an
operation that wrote changed nothing else, and at the end of each operation and of
the run the members were what the writes until then had made of those at the start. -/
structure History.Tells (history : History γ σ) (m m' : Machine γ σ) : Prop where
  exact : ∀ x ∈ history, x.Exact
  after : ∀ k (x : Moment γ σ), history[k]? = some x → ∀ i,
    (x.after.heap.inst i).members.Collects
      ((m.heap.inst i).members.entries ++ MemberWrite.into i (writes (history.take (k + 1))))
  collected : ∀ i, (m'.heap.inst i).members.Collects
    ((m.heap.inst i).members.entries ++ MemberWrite.into i history.writes)

theorem Heap.Writes.collects {h h' : Heap} {writes : List MemberWrite} (hw : h.Writes writes h')
    (i : InstanceId) : (h'.inst i).members.Collects
      ((h.inst i).members.entries ++ MemberWrite.into i writes) :=
  hw i ▸ NameMap.collects_insertAll _ _

theorem Eval.watch_tells {host : Host γ σ} {fuel : Nat} {program : Program γ σ α}
    {m m' : Machine γ σ} {result : Except Error α} {history : History γ σ}
    (hw : watch host fuel program m = .ok (result, m', history)) : history.Tells m m' := by
  unfold watch at hw
  cases hr : run host.watched fuel program.watched m.watched with
  | error reason =>
    rw [hr] at hw
    cases hw
  | ok left =>
    obtain ⟨_, last⟩ := left
    rw [hr] at hw
    cases hw
    obtain ⟨added, h⟩ := run_tallied host fuel program _ _ hr
    obtain rfl : last.history = added := h.history
    exact ⟨h.exact, fun k x hx => (h.after k x hx).collects, h.members.collects⟩

/-- Named slots are maps in the order of the names' bytes. The fields of a record are
what the pairs make that it is made of. Wherever user code gets to, own members are
in order. A member that the builder adds changes no other member, nor does a run's
operation that writes; and the history of a run tells all that was written. -/
theorem slots_in_order (host : Host γ σ) :
    (∀ fuel fields (m : Machine γ σ), ∃ r m',
      Eval.perform host fuel (.newRecord fields) m = .ok (.ok (.record r), m') ∧
        (m'.heap.record r).fields.Collects fields) ∧
    (∀ m : Machine γ σ, m.Reachable host → ∀ i, InByteOrder (m.heap.inst i).members.names) ∧
    (∀ builtin owner member (h h' : Heap), owner.index < h.instances.size →
      h.supplyMember builtin owner member = .ok h' →
        h.SetsOnly (memberWrites owner h.nextSerial [member]) h') ∧
    ∀ {α : Type} fuel (program : Program γ σ α) m m' result,
      Eval.run host fuel program m = .ok (result, m') →
        ∃ history, Eval.watch host fuel program m = .ok (result, m', history) ∧
          history.Tells m m' := by
  refine ⟨fun fuel fields m => ?_, fun m _ i => NameMap.inByteOrder _, ?_, ?_⟩
  · refine ⟨⟨m.heap.records.size⟩, { m with heap := (m.heap.addRecord fields).2 }, rfl, ?_⟩
    rw [Heap.record_addRecord, if_pos rfl]
    exact NameMap.collects_ofList fields
  · intro builtin owner member h h' ho hs
    have hsupplied := Heap.supplyMember_supplied ho hs
    exact hsupplied.writes.setsOnly (Heap.apart_memberWrites hsupplied.distinct)
  · intro α fuel program m m' result hr
    obtain ⟨history, hw⟩ := Eval.exists_history hr
    exact ⟨history, hw, Eval.watch_tells hw⟩

-- A write to the part goes to the base, and the kit gets its members out of order.

def stock : Program Unit Unit Value := do
  let base ← Program.run (.newInstance "Base" 3)
  let part ← Program.run (.newInstance "Part" 3)
  Program.run (.addDelegate part (.inst base))
  Program.run (.write (.inst base) "é" (.int 1))
  Program.run (.write (.inst base) "" (.int 2))
  Program.run (.write (.inst part) "é" (.int 3))
  Program.run (.write (.inst part) "e" (.int 4))
  Program.run (.build {} {
    positional := [.text "Kit"], keywords := [("b", .int 5), ("a", .int 6)] })

def stockWrites : List MemberWrite := [
  ⟨⟨0⟩, "é", .int 1⟩, ⟨⟨0⟩, "", .int 2⟩, ⟨⟨0⟩, "é", .int 3⟩, ⟨⟨1⟩, "e", .int 4⟩,
  ⟨⟨2⟩, "b", .int 5⟩, ⟨⟨2⟩, "a", .int 6⟩]

def stockPairs : List (String × Value) := [("b", .int 1), ("é", .int 2), ("b", .int 3)]

def kit : Heap := { instances := #[{ name := "Kit", maxDepth := 3 }] }

theorem slots_in_order_stock :
    (∃ r m', Eval.perform Machine.idle 1 (.newRecord stockPairs) (.bare ()) =
        .ok (.ok (.record r), m') ∧ (m'.heap.record r).fields.get? "b" = some (.int 3)) ∧
    ((Machine.widget false).Reachable Machine.idle ∧
      ∀ i, InByteOrder ((Machine.widget false).heap.inst i).members.names) ∧
    (kit.supplyMember "object" ⟨0⟩ ("b", .int 5) = .ok (kit.setMember ⟨0⟩ "b" (.int 5)) ∧
      kit.SetsOnly [⟨⟨0⟩, "b", .int 5⟩] (kit.setMember ⟨0⟩ "b" (.int 5))) ∧
    ∃ result m' history,
      Eval.watch Machine.idle 1 stock (.bare ()) = .ok (result, m', history) ∧
      history.Tells (.bare ()) m' ∧ history.writes = stockWrites ∧
      (m'.heap.inst ⟨0⟩).members.entries = [("", .int 2), ("é", .int 3)] ∧
      (m'.heap.inst ⟨2⟩).members.entries = [("a", .int 6), ("b", .int 5)] := by
  obtain ⟨hrecords, hmembers, hsupplies, hruns⟩ := slots_in_order Machine.idle
  have hstock : (Eval.watch Machine.idle 1 stock (.bare ())).toOption.any (fun (_, m', history) =>
      decide (history.writes = stockWrites ∧
        (m'.heap.inst ⟨0⟩).members.entries = [("", .int 2), ("é", .int 3)] ∧
        (m'.heap.inst ⟨2⟩).members.entries = [("a", .int 6), ("b", .int 5)])) = true := by
    decide +kernel
  refine ⟨?record, ⟨Machine.widget_reachable, hmembers _ Machine.widget_reachable⟩, ?supply, ?run⟩
  case record =>
    obtain ⟨r, m', hr, hcollects⟩ := hrecords 1 stockPairs (.bare ())
    exact ⟨r, m', hr, hcollects.last [("b", .int 1), ("é", .int 2)] "b" (.int 3) [] rfl nofun⟩
  case supply =>
    have hsupply : kit.supplyMember "object" ⟨0⟩ ("b", .int 5) =
        .ok (kit.setMember ⟨0⟩ "b" (.int 5)) := rfl
    exact ⟨hsupply, hsupplies "object" ⟨0⟩ ("b", .int 5) kit _ (by decide) hsupply⟩
  case run =>
    cases hw : Eval.watch Machine.idle 1 stock (.bare ()) with
    | error reason =>
      rw [hw] at hstock
      cases hstock
    | ok left =>
      obtain ⟨result, m', history⟩ := left
      rw [hw] at hstock
      have hrun : Eval.run Machine.idle 1 stock (.bare ()) = .ok (result, m') := by
        rw [Eval.run_watched, hw]
        rfl
      obtain ⟨_, hw', htells⟩ := hruns 1 stock _ _ _ hrun
      cases hw.symm.trans hw'
      exact ⟨result, m', history, rfl, htells, of_decide_eq_true hstock⟩

end Delegation

import Delegation.Proofs.Construction
import Delegation.Proofs.History
import Delegation.Proofs.Truth
import Delegation.Proofs.Written

/-!
# What a history says of own members

A history tells what was put into own members: by a write, or by the template
builder, built or called as a function. That this accounts for the members is a rule
that evaluations keep to (`tallied_rule`). The machine's own calls are of methods only,
and a method of the builder fails, since its owner comes where the name of the template
should be. So what the machine does by itself keeps to the rule if the programs do that
it runs on the way.
-/

namespace Delegation

variable {γ σ α : Type}

/-- Whether a function is the template builder. -/
def Machine.isBuilder (m : Machine γ σ) (f : HostFunction) : Bool :=
  match m.bodies[f.serial]? with
  | some .builder => true
  | _ => false

/-- What an operation puts into own members if it succeeds, apart from what the
programs put there that it calls. -/
def Operation.writes (m : Machine γ σ) : Operation γ σ → List MemberWrite
  | write target name value => m.heap.attributeWrites target name value
  | build _ arguments => m.heap.buildWrites arguments
  | call (.function f) arguments =>
    if m.isBuilder f then m.heap.buildWrites arguments else []
  | _ => []

/-- Whether an operation puts values into own members or calls a value. -/
def Operation.putsOrCalls : Operation γ σ → Bool
  | write .. | build .. | call .. => true
  | _ => false

namespace Moment

/-- What was put into own members. -/
def writes (x : Moment γ σ) : List MemberWrite :=
  if x.outcome.isOk then x.operation.writes x.before else []

/-- If anything was written, each member that was holds what was written to it and
every other what it held. -/
def Exact (x : Moment γ σ) : Prop :=
  x.writes ≠ [] → x.before.heap.SetsOnly x.writes x.after.heap

end Moment

namespace History

def writes (history : History γ σ) : List MemberWrite := history.flatMap Moment.writes

@[simp] theorem writes_append (history later : History γ σ) :
    writes (history ++ later) = writes history ++ writes later :=
  List.flatMap_append

@[simp] theorem writes_singleton (x : Moment γ σ) : writes [x] = x.writes := by
  simp [writes]

end History

-- ---------------------------------------------------------------------------
-- Machines that are accounted for
-- ---------------------------------------------------------------------------

namespace Machine

variable {m m' m'' : Machine γ (σ × History γ σ)} {added later : History γ σ}

/-- What has been noted down from one machine to another is exact, and accounts for
the members at the end and whenever an operation was over. -/
structure Accounted (m m' : Machine γ (σ × History γ σ)) (added : History γ σ) : Prop where
  history : m'.history = m.history ++ added
  exact : ∀ x ∈ added, x.Exact
  members : m.heap.Writes added.writes m'.heap
  after : ∀ k x, added[k]? = some x →
    m.heap.Writes (History.writes (added.take (k + 1))) x.after.heap

theorem Accounted.nothing (hh : m'.history = m.history) (hw : m.heap.Writes [] m'.heap) :
    m.Accounted m' [] where
  history := hh.trans (List.append_nil _).symm
  exact _ hx := absurd hx List.not_mem_nil
  members := hw
  after := by simp

theorem Accounted.trans (h : m.Accounted m' added) (hl : m'.Accounted m'' later) :
    m.Accounted m'' (added ++ later) where
  history := by rw [hl.history, h.history, List.append_assoc]
  exact x hx := (List.mem_append.mp hx).elim (h.exact x) (hl.exact x)
  members := by
    rw [History.writes_append]
    exact h.members.trans hl.members
  after k x hx := by
    rcases Nat.lt_or_ge k added.length with hk | hk
    · rw [List.getElem?_append_left hk] at hx
      rw [List.take_append_of_le_length hk]
      exact h.after k x hx
    · obtain ⟨j, rfl⟩ := Nat.exists_eq_add_of_le hk
      rw [List.getElem?_append_right hk, Nat.add_sub_cancel_left] at hx
      rw [Nat.add_assoc, List.take_length_add_append, History.writes_append]
      exact h.members.trans (hl.after j x hx)

/-- An operation is noted down that has made its writes. -/
theorem accounted_note {x : Moment γ σ} (hh : m'.history = m.history)
    (ha : x.after.heap = m'.heap) (hx : x.Exact) (hw : m.heap.Writes x.writes m'.heap) :
    m.Accounted (m'.note x) [x] where
  history := congrArg (· ++ [x]) hh
  exact y hy := List.mem_singleton.mp hy ▸ hx
  members := by
    rw [History.writes_singleton]
    exact hw
  after k y hy := by
    cases k with
    | zero =>
      obtain rfl := Option.some.inj hy
      rw [ha]
      simpa using hw
    | succ k => cases hy

/-- The history of the second machine goes on from that of the first, and what it adds
accounts for the members. -/
def Tallied (m m' : Machine γ (σ × History γ σ)) : Prop := ∃ added, m.Accounted m' added

theorem Tallied.silent (hh : m'.history = m.history) (hw : m.heap.Writes [] m'.heap) :
    Tallied m m' :=
  ⟨[], .nothing hh hw⟩

end Machine

theorem tallied_rule : Rule (Machine.Tallied (γ := γ) (σ := σ)) where
  trans := fun ⟨_, h⟩ ⟨_, hl⟩ => ⟨_, h.trans hl⟩
  same hh hm := .silent (congrArg Prod.snd hh) fun _ => by rw [hm]; rfl
  settle hf := .silent rfl (Heap.fillLevel_writes hf)

namespace Heap

variable {h : Heap}

theorem ownInit?_method {i : InstanceId} {method : Value} (hm : h.ownInit? i = some method) :
    ∃ serial owner name callee, method = .method serial owner name callee := by
  unfold ownInit? at hm
  split at hm
  case h_1 serial owner name callee _ =>
    cases hm
    exact ⟨serial, owner, name, callee, rfl⟩
  case h_2 => cases hm

theorem initializer?_method {i : InstanceId} {found : Initializer}
    (hf : h.initializer? i = .ok (some found)) :
    ∃ serial owner name callee, found.method = .method serial owner name callee := by
  rw [initializer?_walk] at hf
  cases hs : (h.walk i).find? h.endsAt with
  | none =>
    rw [hs] at hf
    cases hf
  | some stop =>
    rw [hs] at hf
    cases stop with
    | tooDeep owner => cases hf
    | entered holder path =>
      simp only [Heap.found, Except.ok.injEq, Option.map_eq_some_iff] at hf
      obtain ⟨method, hm, rfl⟩ := hf
      exact ownInit?_method hm

end Heap

namespace Eval

open Machine (Tallied)

variable {m : Machine γ (σ × History γ σ)}

-- ---------------------------------------------------------------------------
-- What the machine does by itself
-- ---------------------------------------------------------------------------

/-- Every call of a method is accounted for. -/
def MethodsTallied (call : Caller γ (σ × History γ σ)) : Prop :=
  ∀ serial owner name callee arguments m,
    Obeys Tallied (call (.method serial owner name callee) arguments) m

/-- All code of the host is accounted for. -/
def CodeTallied (runCode : γ → Arguments → Eval γ (σ × History γ σ) Value) : Prop :=
  ∀ code arguments m, Obeys Tallied (runCode code arguments) m

theorem MethodsTallied.hooks {call : Caller γ (σ × History γ σ)} (hcall : MethodsTallied call) :
    HooksObey Tallied call := by
  intro m hook i method hm
  obtain ⟨-, serial, owner, name, callee, rfl⟩ := Heap.hook?_eq_some_iff.mp hm
  exact hcall serial owner name callee {} m

theorem construct_tallied {call : Caller γ (σ × History γ σ)} (hcall : MethodsTallied call)
    (t : Template) (arguments : Arguments) : Obeys Tallied (construct call t arguments) m := by
  refine construct_obeys tallied_rule fun m' _ found hf => ?_
  obtain ⟨serial, owner, name, callee, hm⟩ := Heap.initializer?_method hf
  rw [hm]
  exact hcall serial owner name callee arguments m'

theorem freeze_tallied (target : Value) : Obeys Tallied (freeze target) m := by
  obtain ⟨trace, hr⟩ := run_freeze target m
  exact obeys_of_run hr (.silent rfl (Heap.freezeAll_writes [target]))

theorem allocate_tallied (add : Heap → α × Heap) (hw : m.heap.Writes [] (add m.heap).2) :
    Obeys Tallied (allocate add) m :=
  obeys_allocate add (.silent rfl hw)

section
variable {runCode : γ → Arguments → Eval γ (σ × History γ σ) Value}
  (hcode : CodeTallied runCode)

include hcode

theorem invoke_tallied (f : HostFunction) (owner : InstanceId) (arguments : Arguments) :
    Obeys Tallied (invoke runCode f (arguments.prepend (.inst owner))) m := by
  rw [invoke, obeys_machine_bind]
  split
  -- The builder finds the owner where the name should be, and fails.
  · obtain ⟨trace, hr⟩ := run_build m.settings (arguments.prepend (.inst owner)) m
    exact obeys_of_run hr (tallied_rule.same rfl rfl)
  · exact hcode _ _ m
  · exact obeys_halt _

theorem callWith_tallied {construct : Template → Arguments → Eval γ (σ × History γ σ) Value}
    (hconstruct : ∀ t arguments m, Obeys Tallied (construct t arguments) m) :
    MethodsTallied (callWith (invoke runCode) construct) := by
  intro serial owner name callee arguments m
  rw [callWith]
  induction callee generalizing owner arguments with
  | function f => exact invoke_tallied hcode f owner arguments
  | template t => exact hconstruct t _ m
  | method _ inner _ callee ih =>
    rw [callWith]
    exact ih inner _
  | _ => exact obeys_heap_bind.mpr (obeys_outcome tallied_rule _)

end

end Eval

end Delegation

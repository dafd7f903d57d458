import Delegation.Eval.Run
import Delegation.Proofs.Hashing
import Delegation.Proofs.Lens
import Delegation.Proofs.Reachable

/-!
# Truth along first delegates

An instance counts as its hook says. Where no hook decides, its first delegate does,
and as long as that is an instance, the question goes on one level further down.
`HeadWalk` is that walk as a relation, with whatever the hooks do on the way;
`truthAt_iff` says that truth is its one outcome. Without a hook on the way nothing
runs, and the walk reads chains only (`truthAt_unhooked`).
-/

namespace Delegation

/-- Truth of a value that is not an instance, kind by kind. -/
inductive Value.Counts : Value → Bool → Prop where
  | none : Counts .none false
  | bool (b : Bool) : Counts (.bool b) b
  | int (n : Int64) : Counts (.int n) (decide (n ≠ 0))
  | float (x : Binary64) : Counts (.float x) (!x.numEq ⟨0⟩)
  | text (s : String) : Counts (.text s) (decide (s ≠ ""))
  | record (r : RecordId) : Counts (.record r) true
  | function (f : HostFunction) : Counts (.function f) true
  | method (serial : Nat) (owner : InstanceId) (name : String) (callee : Value) :
      Counts (.method serial owner name callee) true
  | template (t : Template) : Counts (.template t) true

theorem Binary64.numEq_zero (x : Binary64) : x.numEq ⟨0⟩ = x.isZero := by
  have hnumber : isNaN ⟨0⟩ = false := rfl
  have hzero : isZero ⟨0⟩ = true := rfl
  unfold numEq
  cases hx : x.isZero with
  | true =>
    have hm : x.magnitude = 0 := by simpa [isZero] using hx
    have hn : x.isNaN = false := by simp [isNaN, hm]
    simp [hnumber, hzero, hn]
  | false =>
    have hb : x.bits ≠ 0 := by
      intro hb
      obtain rfl : x = ⟨0⟩ := bits_inj.mp hb
      simp [hzero] at hx
    simp [hb]

namespace Value

variable {value : Value} {b : Bool}

theorem Counts.plainTruth_eq (hc : value.Counts b) : value.plainTruth = b := by
  cases hc with
  | int n => rw [plainTruth, Bool.eq_iff_iff, bne_iff_ne, decide_eq_true_eq]
  | float x => simp [plainTruth, Binary64.numEq_zero]
  | text s =>
    rw [plainTruth, Bool.eq_iff_iff]
    simp
  | _ => rfl

theorem counts_iff : value.Counts b ↔ (∀ i, value ≠ .inst i) ∧ value.plainTruth = b := by
  constructor
  · intro hc
    refine ⟨?_, hc.plainTruth_eq⟩
    rintro i rfl
    cases hc
  · rintro ⟨hi, rfl⟩
    obtain ⟨b, hc⟩ : ∃ b, value.Counts b := by
      cases value with
      | inst i => exact absurd rfl (hi i)
      | _ => exact ⟨_, by constructor⟩
    rwa [hc.plainTruth_eq]

end Value

theorem Chain.delegates_of_not_hasDelegate {chain : Chain} (hd : chain.hasDelegate = false) :
    chain.delegates = [] := by
  simpa [hasDelegate, delegates, List.filterMap_eq_nil_iff] using hd

namespace Heap

variable (h : Heap)

/-- What an instance resolves a hook to: a bound method that its own look-up finds. -/
def Hooked (hook : SpecialName) (i : InstanceId) (method : Value) : Prop :=
  h.lookup hook.text i = .ok (some method) ∧
    ∃ serial owner name callee, method = .method serial owner name callee

/-- The first delegate present. -/
def firstDelegate? (i : InstanceId) : Option Value := (h.inst i).chain.delegates.head?

/-- First delegates that are instances lead in so many levels from one instance to
another. -/
inductive HeadPath : Nat → InstanceId → InstanceId → Prop where
  | refl (i : InstanceId) : HeadPath 0 i i
  | down {levels : Nat} {i j k : InstanceId} :
      h.firstDelegate? i = some (.inst j) → HeadPath levels j k → HeadPath (levels + 1) i k

/-- No instance that first delegates lead to within so many levels resolves the hook. -/
def Unhooked (hook : SpecialName) (levels : Nat) (i : InstanceId) : Prop :=
  ∀ n j method, n ≤ levels → h.HeadPath n i j → ¬ h.Hooked hook j method

/-- The second heap is the first but for own members of instances. -/
def SameButMembers (h' : Heap) : Prop :=
  ∀ i, h'.inst i = { h.inst i with members := (h'.inst i).members }

def headVisit : Visit Bool := fun _ i enter =>
  match h.firstDelegate? i with
  | none => .ok false
  | some (.inst j) => enter j
  | some delegate => .ok delegate.plainTruth

/-- Truth as chains alone tell it. -/
def headTruth (depth : Depth) (i : InstanceId) : Except Error Bool :=
  h.descend h.headVisit depth i

variable {h} {h' : Heap} {hook : SpecialName} {i j : InstanceId} {method : Value} {levels : Nat}

theorem hook?_eq_some_iff : h.hook? hook i = some method ↔ h.Hooked hook i method := by
  unfold hook? Hooked
  constructor
  · intro hh
    split at hh
    case h_1 serial owner name callee hl =>
      cases hh
      exact ⟨hl, serial, owner, name, callee, rfl⟩
    case h_2 => cases hh
  · rintro ⟨hl, serial, owner, name, callee, rfl⟩
    rw [hl]

theorem hook?_eq_none_iff : h.hook? hook i = none ↔ ∀ method, ¬ h.Hooked hook i method := by
  simp only [Option.eq_none_iff_forall_ne_some, ne_eq, hook?_eq_some_iff]

theorem Unhooked.hook? (hu : h.Unhooked hook levels i) : h.hook? hook i = none :=
  hook?_eq_none_iff.mpr fun method => hu 0 i method (Nat.zero_le levels) (.refl i)

theorem Unhooked.down (hu : h.Unhooked hook (levels + 1) i)
    (hj : h.firstDelegate? i = some (.inst j)) : h.Unhooked hook levels j :=
  fun n k method hn hp => hu (n + 1) k method (Nat.succ_le_succ hn) (.down hj hp)

theorem unhooked_zero (hn : h.hook? hook i = none) : h.Unhooked hook 0 i := by
  intro n j method hle hp
  obtain rfl : n = 0 := Nat.le_zero.mp hle
  cases hp with
  | refl => exact hook?_eq_none_iff.mp hn method

theorem unhooked_succ (hn : h.hook? hook i = none)
    (hd : ∀ j, h.firstDelegate? i = some (.inst j) → h.Unhooked hook levels j) :
    h.Unhooked hook (levels + 1) i := by
  intro n k method hle hp
  cases hp with
  | refl => exact hook?_eq_none_iff.mp hn method
  | down hj hp => exact hd _ hj _ k method (Nat.le_of_succ_le_succ hle) hp

theorem sameButMembers_setMember (h : Heap) (i : InstanceId) (name : String) (value : Value) :
    h.SameButMembers (h.setMember i name value) := by
  intro j
  rw [setMember, inst_modify]
  split <;> rfl

theorem headTruth_eq (depth : Depth) (i : InstanceId) :
    h.headTruth depth i =
      match h.firstDelegate? i with
      | none => .ok false
      | some (.inst j) => (depth.descend (h.inst i).name).bind fun below => h.headTruth below j
      | some delegate => .ok delegate.plainTruth := by
  rw [headTruth, descend_eq]
  rfl

theorem headTruth_same (hs : h.SameButMembers h') (depth : Depth) (i : InstanceId) :
    h'.headTruth depth i = h.headTruth depth i := by
  refine descend_rel_of_names (R := fun x y => y = x) (fun j => by rw [hs j]) (fun _ => rfl) ?_ depth i
  intro depth j enter enter' he
  obtain rfl : enter' = enter := funext he
  have hchain : (h'.inst j).chain = (h.inst j).chain := by rw [hs j]
  simp only [headVisit, firstDelegate?, hchain]

end Heap

-- ---------------------------------------------------------------------------
-- One instance
-- ---------------------------------------------------------------------------

variable {γ σ α : Type}

/-- The machine after it has looked for a hook, which only what it heard tells. -/
def Machine.sought (m : Machine γ σ) (hook : SpecialName) (i : InstanceId) : Machine γ σ :=
  m.report fun _ => m.heap.readEvents (.inst i) hook.text

/-- The machine after it has passed over what a truth hook answered. -/
def Machine.ignoring (m : Machine γ σ) (i : InstanceId) (answer : Value) : Machine γ σ :=
  m.report fun _ => [.boolIgnored (m.heap.inst i).name (m.heap.typeName answer)]

theorem Machine.SameState.trans {m₁ m₂ m₃ : Machine γ σ} (h₁₂ : m₁.SameState m₂)
    (h₂₃ : m₂.SameState m₃) : m₁.SameState m₃ := by
  rw [SameState, h₂₃, h₁₂]

theorem Machine.sameState_sought (m : Machine γ σ) (hook : SpecialName) (i : InstanceId) :
    m.SameState (m.sought hook i) :=
  m.report_eq _

@[simp] theorem Machine.heap_sought (m : Machine γ σ) (hook : SpecialName) (i : InstanceId) :
    (m.sought hook i).heap = m.heap :=
  m.heap_report _

namespace Eval

/-- The truth hook of an instance ends the walk: it was called once, without
arguments, and answered with a truth value, failed or was halted. -/
inductive HookEnds (call : Caller γ σ) (i : InstanceId) (m : Machine γ σ) :
    Except Halt (Except Error Bool × Machine γ σ) → Prop where
  | answers {method : Value} {b : Bool} {after : Machine γ σ} : m.heap.Hooked .bool i method →
      call method {} (m.sought .bool i) = .ok (.ok (.bool b), after) →
      HookEnds call i m (.ok (.ok b, after))
  | fails {method : Value} {e : Error} {after : Machine γ σ} : m.heap.Hooked .bool i method →
      call method {} (m.sought .bool i) = .ok (.error e, after) →
      HookEnds call i m (.ok (.error e, after))
  | halts {method : Value} {reason : Halt} : m.heap.Hooked .bool i method →
      call method {} (m.sought .bool i) = .error reason → HookEnds call i m (.error reason)

/-- The walk goes on from an instance in the given machine: there is no hook, or it
was called once, without arguments, and its answer is no truth value. -/
inductive GoesOn (call : Caller γ σ) (i : InstanceId) (m : Machine γ σ) : Machine γ σ → Prop where
  | unhooked : (∀ method, ¬ m.heap.Hooked .bool i method) → GoesOn call i m (m.sought .bool i)
  | ignored {method answer : Value} {after : Machine γ σ} : m.heap.Hooked .bool i method →
      call method {} (m.sought .bool i) = .ok (.ok answer, after) → (∀ b, answer ≠ .bool b) →
      GoesOn call i m (after.ignoring i answer)

/-- The walk from an instance, entered at a level, to its outcome. It never goes below
the level `max`, and takes the first delegate from the machine that the hook left. -/
inductive HeadWalk (call : Caller γ σ) (max : Nat) :
    Nat → InstanceId → Machine γ σ → Except Halt (Except Error Bool × Machine γ σ) → Prop where
  | ended {level : Nat} {i : InstanceId} {m : Machine γ σ}
      {outcome : Except Halt (Except Error Bool × Machine γ σ)} :
      HookEnds call i m outcome → HeadWalk call max level i m outcome
  | bottom {level : Nat} {i : InstanceId} {m after : Machine γ σ} :
      GoesOn call i m after → after.heap.firstDelegate? i = none →
      HeadWalk call max level i m (.ok (.ok false, after))
  | plain {level : Nat} {i : InstanceId} {m after : Machine γ σ} {delegate : Value} {b : Bool} :
      GoesOn call i m after → after.heap.firstDelegate? i = some delegate → delegate.Counts b →
      HeadWalk call max level i m (.ok (.ok b, after))
  | tooDeep {i j : InstanceId} {m after : Machine γ σ} :
      GoesOn call i m after → after.heap.firstDelegate? i = some (.inst j) →
      HeadWalk call max max i m (.ok (.error (.delegateDepth (after.heap.inst i).name max), after))
  | down {level : Nat} {i j : InstanceId} {m after : Machine γ σ}
      {outcome : Except Halt (Except Error Bool × Machine γ σ)} :
      GoesOn call i m after → after.heap.firstDelegate? i = some (.inst j) → level < max →
      HeadWalk call max (level + 1) j after outcome → HeadWalk call max level i m outcome

variable {call : Caller γ σ} {enter : InstanceId → Eval γ σ Bool} {i : InstanceId}
  {m after : Machine γ σ} {outcome : Except Halt (Except Error Bool × Machine γ σ)}

theorem run_hook? (hook : SpecialName) (i : InstanceId) (m : Machine γ σ) :
    hook? hook i m = .ok (.ok (m.heap.hook? hook i), m.sought hook i) := by
  rfl

/-- An instance without members and delegates has no first delegate, so it needs no
case of its own. -/
theorem run_chainTruth (enter : InstanceId → Eval γ σ Bool) (i : InstanceId) (m : Machine γ σ) :
    chainTruth enter i m =
      match m.heap.firstDelegate? i with
      | none => .ok (.ok false, m)
      | some (.inst j) => enter j m
      | some delegate => .ok (.ok delegate.plainTruth, m) := by
  simp only [chainTruth, run_bind, run_heap, Heap.firstDelegate?]
  split
  case isTrue hempty =>
    have hd : (m.heap.inst i).chain.hasDelegate = false := by simp_all
    simp [Chain.delegates_of_not_hasDelegate hd]
  case isFalse =>
    split <;> simp_all

theorem HookEnds.truthVisit (hh : HookEnds call i m outcome) : truthVisit call enter i m = outcome := by
  cases hh with
  | answers hm hc => simp [Eval.truthVisit, run_bind, run_hook?, Heap.hook?_eq_some_iff.mpr hm, hc]
  | fails hm hc => simp [Eval.truthVisit, run_bind, run_hook?, Heap.hook?_eq_some_iff.mpr hm, hc]
  | halts hm hc => simp [Eval.truthVisit, run_bind, run_hook?, Heap.hook?_eq_some_iff.mpr hm, hc]

theorem GoesOn.truthVisit (hg : GoesOn call i m after) :
    truthVisit call enter i m = chainTruth enter i after := by
  cases hg with
  | unhooked hm => simp [Eval.truthVisit, run_bind, run_hook?, Heap.hook?_eq_none_iff.mpr hm]
  | @ignored method answer after hm hc hb =>
    simp only [Eval.truthVisit, run_bind, run_hook?, Heap.hook?_eq_some_iff.mpr hm, hc]
    cases answer with
    | bool b => exact absurd rfl (hb b)
    | _ => simp [Machine.ignoring]

/-- Either the hook of an instance ends the walk, or the walk goes on. -/
theorem hookEnds_or_goesOn (call : Caller γ σ) (i : InstanceId) (m : Machine γ σ) :
    (∃ outcome, HookEnds call i m outcome) ∨ ∃ after, GoesOn call i m after := by
  cases hh : m.heap.hook? .bool i with
  | none => exact .inr ⟨_, .unhooked (Heap.hook?_eq_none_iff.mp hh)⟩
  | some method =>
    have hm := Heap.hook?_eq_some_iff.mp hh
    cases hc : call method {} (m.sought .bool i) with
    | error reason => exact .inl ⟨_, .halts hm hc⟩
    | ok left =>
      obtain ⟨result, after⟩ := left
      cases result with
      | error e => exact .inl ⟨_, .fails hm hc⟩
      | ok answer =>
        by_cases hb : ∃ b, answer = .bool b
        · obtain ⟨b, rfl⟩ := hb
          exact .inl ⟨_, .answers hm hc⟩
        · exact .inr ⟨_, .ignored hm hc (not_exists.mp hb)⟩

-- ---------------------------------------------------------------------------
-- The walk
-- ---------------------------------------------------------------------------

theorem truthAt_eq (call : Caller γ σ) (level remaining : Nat) (i : InstanceId) :
    truthAt call level remaining i =
      truthVisit call (fun j =>
        match remaining with
        | 0 => tooDeep i level
        | remaining + 1 => truthAt call (level + 1) remaining j) i := by
  cases remaining <;> rfl

theorem run_tooDeep (owner : InstanceId) (max : Nat) (m : Machine γ σ) :
    (tooDeep owner max : Eval γ σ α) m =
      .ok (.error (.delegateDepth (m.heap.inst owner).name max), m) := by
  simp [tooDeep, run_bind]

/-- A step of the walk, given how it goes on in an instance that is the first
delegate. -/
theorem truthVisit_walk {max level : Nat}
    (he : ∀ after j, GoesOn call i m after → after.heap.firstDelegate? i = some (.inst j) →
      HeadWalk call max level i m (enter j after)) :
    HeadWalk call max level i m (truthVisit call enter i m) := by
  obtain ⟨outcome, hh⟩ | ⟨after, hg⟩ := hookEnds_or_goesOn call i m
  · rw [hh.truthVisit]
    exact .ended hh
  · rw [hg.truthVisit, run_chainTruth]
    cases hd : after.heap.firstDelegate? i with
    | none => exact .bottom hg hd
    | some delegate =>
      by_cases hi : ∃ j, delegate = .inst j
      · obtain ⟨j, rfl⟩ := hi
        exact he after j hg hd
      · have hc := Value.counts_iff.mpr ⟨not_exists.mp hi, rfl⟩
        cases delegate with
        | inst j => exact absurd ⟨j, rfl⟩ hi
        | _ => exact .plain hg hd hc

theorem truthAt_sound (call : Caller γ σ) (level remaining : Nat) (i : InstanceId)
    (m : Machine γ σ) :
    HeadWalk call (level + remaining) level i m (truthAt call level remaining i m) := by
  induction remaining generalizing level i m with
  | zero =>
    refine truthVisit_walk fun after j hg hd => ?_
    rw [run_tooDeep]
    exact .tooDeep hg hd
  | succ remaining ih =>
    refine truthVisit_walk fun after j hg hd => .down hg hd (by omega) ?_
    rw [← Nat.add_assoc, Nat.add_right_comm]
    exact ih (level + 1) j after

theorem HeadWalk.truthAt_eq {max level : Nat} (hw : HeadWalk call max level i m outcome)
    {remaining : Nat} (hmax : level + remaining = max) :
    truthAt call level remaining i m = outcome := by
  induction hw generalizing remaining with
  | ended hh => rw [Eval.truthAt_eq, hh.truthVisit]
  | bottom hg hd => rw [Eval.truthAt_eq, hg.truthVisit, run_chainTruth, hd]
  | @plain level i m after delegate b hg hd hc =>
    obtain ⟨hi, rfl⟩ := Value.counts_iff.mp hc
    rw [Eval.truthAt_eq, hg.truthVisit, run_chainTruth, hd]
    cases delegate with
    | inst j => exact absurd rfl (hi j)
    | _ => rfl
  | tooDeep hg hd =>
    obtain rfl : remaining = 0 := by omega
    rw [Eval.truthAt_eq, hg.truthVisit, run_chainTruth, hd]
    exact run_tooDeep ..
  | down hg hd hlt _ ih =>
    obtain ⟨remaining, rfl⟩ : ∃ fewer, remaining = fewer + 1 := ⟨remaining - 1, by omega⟩
    rw [Eval.truthAt_eq, hg.truthVisit, run_chainTruth, hd]
    exact ih (by omega)

/-- Truth is the one outcome of the walk. -/
theorem truthAt_iff (call : Caller γ σ) (level remaining : Nat) (i : InstanceId)
    (m : Machine γ σ) (outcome : Except Halt (Except Error Bool × Machine γ σ)) :
    truthAt call level remaining i m = outcome ↔
      HeadWalk call (level + remaining) level i m outcome := by
  constructor
  · rintro rfl
    exact truthAt_sound call level remaining i m
  · exact fun hw => hw.truthAt_eq rfl

/-- Without a hook an instance asks its first delegate at once. -/
theorem truthVisit_unhooked {depth : Depth} (hn : m.heap.hook? .bool i = none)
    (he : ∀ j, m.heap.firstDelegate? i = some (.inst j) → ∃ after, enter j (m.sought .bool i) =
        .ok ((depth.descend (m.heap.inst i).name).bind fun below => m.heap.headTruth below j, after) ∧
      (m.sought .bool i).SameState after) :
    ∃ after, truthVisit call enter i m = .ok (m.heap.headTruth depth i, after) ∧
      m.SameState after := by
  have hg : GoesOn call i m (m.sought .bool i) := .unhooked (Heap.hook?_eq_none_iff.mp hn)
  rw [hg.truthVisit, run_chainTruth, m.heap_sought, Heap.headTruth_eq]
  have hs := m.sameState_sought .bool i
  split
  case h_1 => exact ⟨_, rfl, hs⟩
  case h_2 j hd =>
    obtain ⟨after, hr, hafter⟩ := he j hd
    exact ⟨after, hr, hs.trans hafter⟩
  case h_3 => exact ⟨_, rfl, hs⟩

/-- Where no hook is resolved on the way, nothing runs, and chains tell the answer. -/
theorem truthAt_unhooked (call : Caller γ σ) {remaining : Nat} (level : Nat)
    (hu : m.heap.Unhooked .bool remaining i) :
    ∃ after, truthAt call level remaining i m =
        .ok (m.heap.headTruth ⟨level, remaining⟩ i, after) ∧ m.SameState after := by
  induction remaining generalizing level i m with
  | zero =>
    refine truthVisit_unhooked hu.hook? fun j _ => ⟨m.sought .bool i, ?_, rfl⟩
    rw [run_tooDeep, m.heap_sought]
    rfl
  | succ remaining ih =>
    refine truthVisit_unhooked hu.hook? fun j hj => ?_
    have hdown := hu.down hj
    rw [← m.heap_sought .bool i] at hdown
    simpa [Depth.descend, Except.bind] using ih (level + 1) hdown

theorem truth_unhooked (call : Caller γ σ)
    (hu : m.heap.Unhooked .bool (m.heap.inst i).maxDepth i) :
    ∃ after, truth call (.inst i) m = .ok (m.heap.headTruth (m.heap.root i) i, after) ∧
      m.SameState after :=
  truthAt_unhooked call 0 hu

end Eval

-- ---------------------------------------------------------------------------
-- Machines
-- ---------------------------------------------------------------------------

namespace Machine

/-- Truth of an instance follows first delegates, asking each instance's hook once:
it is the one outcome of the walk. If no instance on the way resolves the hook, no
own member of any instance makes a difference. -/
theorem truth_head_walk (host : Host γ σ) (fuel : Nat) (m : Machine γ σ) (i : InstanceId) :
    (∀ outcome, Eval.perform host fuel (.truth (.inst i)) m = outcome ↔
      Eval.HeadWalk (Eval.call host fuel) (m.heap.inst i).maxDepth 0 i m outcome) ∧
    ∀ m' : Machine γ σ, m.heap.SameButMembers m'.heap →
      m.heap.Unhooked .bool (m.heap.inst i).maxDepth i →
      m'.heap.Unhooked .bool (m.heap.inst i).maxDepth i →
      ∃ result after after', Eval.perform host fuel (.truth (.inst i)) m = .ok (result, after) ∧
        Eval.perform host fuel (.truth (.inst i)) m' = .ok (result, after') ∧
        m.SameState after ∧ m'.SameState after' := by
  constructor
  · intro outcome
    have hiff := Eval.truthAt_iff (Eval.call host fuel) 0 (m.heap.inst i).maxDepth i m outcome
    rwa [Nat.zero_add] at hiff
  · intro m' hs hu hu'
    have hbound : (m'.heap.inst i).maxDepth = (m.heap.inst i).maxDepth := by rw [hs i]
    have hroot : m'.heap.root i = m.heap.root i := by rw [Heap.root, Heap.root, hbound]
    obtain ⟨after, hr, hafter⟩ := Eval.truth_unhooked (Eval.call host fuel) hu
    obtain ⟨after', hr', hafter'⟩ := Eval.truth_unhooked (m := m') (Eval.call host fuel)
      (hbound ▸ hu')
    rw [hroot, Heap.headTruth_same hs] at hr'
    exact ⟨_, after, after', hr, hr', hafter, hafter'⟩

/-- An own member that is no bound method is no hook. -/
theorem truth_head_walk_widget :
    ∃ m m' after after' : Machine Unit Unit, m.heap.SameButMembers m'.heap ∧
      m.heap.Unhooked .bool 3 ⟨1⟩ ∧ m'.heap.Unhooked .bool 3 ⟨1⟩ ∧
      m.heap.lookup SpecialName.bool.text ⟨1⟩ = .ok none ∧
      m'.heap.lookup SpecialName.bool.text ⟨1⟩ = .ok (some (.bool true)) ∧
      Eval.perform idle 1 (.truth (.inst ⟨1⟩)) m = .ok (.ok false, after) ∧
      Eval.perform idle 1 (.truth (.inst ⟨1⟩)) m' = .ok (.ok false, after') := by
  let m := widget false
  let m' := { m with heap := m.heap.setMember ⟨1⟩ SpecialName.bool.text (.bool true) }
  have hs : m.heap.SameButMembers m'.heap :=
    m.heap.sameButMembers_setMember ⟨1⟩ SpecialName.bool.text (.bool true)
  have hunhooked (h : Heap) (hd : h.firstDelegate? ⟨1⟩ = some (.inst ⟨0⟩))
      (hb : h.firstDelegate? ⟨0⟩ = none) (h₁ : h.hook? .bool ⟨1⟩ = none)
      (h₀ : h.hook? .bool ⟨0⟩ = none) : h.Unhooked .bool 3 ⟨1⟩ := by
    refine Heap.unhooked_succ h₁ fun j hj => ?_
    obtain rfl : ⟨0⟩ = j := Value.inst.inj (Option.some.inj (hd.symm.trans hj))
    exact Heap.unhooked_succ h₀ fun k hk => by simp [hb] at hk
  have hu := hunhooked m.heap rfl rfl rfl rfl
  have hu' := hunhooked m'.heap rfl rfl rfl rfl
  obtain ⟨result, after, after', hr, hr', -, -⟩ :=
    (truth_head_walk idle 1 m ⟨1⟩).2 m' hs hu hu'
  obtain rfl : .ok false = result := (Prod.mk.inj (Except.ok.inj hr)).1
  exact ⟨m, m', after, after', hs, hu, hu', rfl, rfl, hr, hr'⟩

end Machine

end Delegation

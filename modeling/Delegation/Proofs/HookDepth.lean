import Delegation.Proofs.Truth

/-!
# Hooks too deep to be found

A hook is looked for like any attribute, and a look-up that fails counts as no hook,
also where it fails for depth. Text does not hide that failure, for it goes on to the
names, which lie as deep (`names_of_lookup_tooDeep`). Truth goes on to first delegates
only: it fails for depth if these lead too deep (`headTruth_tooDeep_iff`), and what
lies too deep under another delegate does not show (`truth_passes_depth_failure`).
-/

namespace Delegation

namespace Heap

variable {h : Heap} {name : String} {i j : InstanceId} {e : Error}

/-- A marker that tells of a name is the first marker of its listing: any marker before
it would tell. -/
theorem findSome?_tooDeep_of_telling {entries : List Entry} {owner : String}
    (he : entries.find? (Entry.tells name) = some (.tooDeep owner)) :
    entries.findSome? Entry.tooDeep? = some owner := by
  obtain ⟨-, before, after, rfl, hbefore⟩ := List.find?_eq_some_iff_append.mp he
  have hnone : before.findSome? Entry.tooDeep? = none := by
    rw [List.findSome?_eq_none_iff]
    intro entry hm
    have ht := hbefore entry hm
    cases entry with
    | binding => rfl
    | tooDeep other => simp [Entry.tells] at ht
  rw [List.findSome?_append, hnone]
  rfl

theorem names_of_lookup_tooDeep (hn : name ≠ SpecialName.super.text)
    (hl : h.lookup name i = .error e) (he : e.isDepth = true) : h.names i = .error e := by
  have hs := h.lookup_settled hn i
  rw [hl, Settled] at hs
  cases hf : (h.listing i).find? (Entry.tells name) with
  | none => simp [hf, isFinal, he] at hs
  | some entry =>
    rw [hf] at hs
    cases entry with
    | binding other value path slot => cases hs
    | tooDeep owner =>
      obtain rfl : e = .delegateDepth owner (h.inst i).maxDepth := Except.error.inj hs
      rw [names_listing, namesIn, findSome?_tooDeep_of_telling hf]

/-- First delegates that lead beyond the bound are a failure for depth. -/
theorem HeadPath.headTruth (level : Nat) {remaining : Nat} (hp : h.HeadPath (remaining + 1) i j) :
    ∃ owner, h.headTruth ⟨level, remaining⟩ i =
      .error (.delegateDepth owner (level + remaining)) := by
  induction remaining generalizing level i with
  | zero =>
    cases hp with
    | down hd =>
      rw [headTruth_eq, hd]
      exact ⟨_, rfl⟩
  | succ remaining ih =>
    cases hp with
    | down hd hp =>
      rw [headTruth_eq, hd, ← Nat.add_assoc, Nat.add_right_comm]
      exact ih (level + 1) hp

/-- There is no other failure. -/
theorem headTruth_ok (level : Nat) {remaining : Nat} (hn : ∀ j, ¬ h.HeadPath (remaining + 1) i j) :
    ∃ b, h.headTruth ⟨level, remaining⟩ i = .ok b := by
  induction remaining generalizing level i with
  | zero =>
    rw [headTruth_eq]
    split
    case h_1 => exact ⟨_, rfl⟩
    case h_2 j hd => exact absurd (.down hd (.refl j)) (hn j)
    case h_3 => exact ⟨_, rfl⟩
  | succ remaining ih =>
    rw [headTruth_eq]
    split
    case h_1 => exact ⟨_, rfl⟩
    case h_2 j hd => exact ih (level + 1) fun k hp => hn k (.down hd hp)
    case h_3 => exact ⟨_, rfl⟩

/-- The bound that a failure carries is the first instance's, wherever the walk ended. -/
theorem headTruth_error {bound : Nat} (hd : h.headTruth (.root bound) i = .error e) :
    (∃ j, h.HeadPath (bound + 1) i j) ∧ ∃ owner, e = .delegateDepth owner bound := by
  by_cases hp : ∃ j, h.HeadPath (bound + 1) i j
  · refine ⟨hp, ?_⟩
    obtain ⟨j, hp⟩ := hp
    obtain ⟨owner, ho⟩ := hp.headTruth 0
    rw [Nat.zero_add] at ho
    exact ⟨owner, Except.error.inj (hd.symm.trans ho)⟩
  · obtain ⟨b, hb⟩ := headTruth_ok 0 (not_exists.mp hp)
    cases hd.symm.trans hb

theorem headTruth_tooDeep_iff {bound : Nat} :
    (∃ e, h.headTruth (.root bound) i = .error e ∧ e.isDepth = true) ↔
      ∃ j, h.HeadPath (bound + 1) i j := by
  constructor
  · rintro ⟨e, hd, -⟩
    exact (headTruth_error hd).1
  · rintro ⟨j, hp⟩
    obtain ⟨owner, hd⟩ := hp.headTruth 0
    exact ⟨_, hd, rfl⟩

theorem hook?_of_lookup_error {hook : SpecialName} (hl : h.lookup hook.text i = .error e) :
    h.hook? hook i = none := by
  rw [hook?, hl]

end Heap

variable {γ σ : Type}

namespace Eval

variable {m : Machine γ σ} {i : InstanceId} {e : Error}

/-- The failure that kept the hook from being found is what the conversion ends with. -/
theorem toText_tooDeep (call : Caller γ σ)
    (hl : m.heap.lookup SpecialName.str.text i = .error e) (he : e.isDepth = true) :
    toText call (.inst i) m = .ok (.error e, m.sought .str i) := by
  have hnames := Heap.names_of_lookup_tooDeep (by decide) hl he
  have htext : m.heap.structuralText i = .error e := by
    rw [Heap.structuralText, hnames]
    rfl
  simp [toText, instanceText, run_bind, run_hook?, Heap.hook?_of_lookup_error hl, htext]

/-- An instance that resolves no hook counts as it would without regard to hooks. -/
theorem truth_eq_hooklessTruth (call : Caller γ σ) (hn : m.heap.hook? .bool i = none) :
    truth call (.inst i) m = hooklessTruth call i (m.sought .bool i) := by
  have hg : GoesOn call i m (m.sought .bool i) := .unhooked (Heap.hook?_eq_none_iff.mp hn)
  simp only [truth, instanceTruth, hooklessTruth, run_bind, run_heap, Machine.heap_sought]
  cases (m.heap.inst i).maxDepth with
  | zero => exact hg.truthVisit
  | succ bound => exact hg.truthVisit

end Eval

namespace Machine

/-- Where the text hook lies too deep to be found, the conversion to text fails for
depth. Where the truth hook does, it counts as absent, and first delegates decide: if
no instance on the way resolves the hook, truth fails for depth exactly if first
delegates lead beyond the bound, and never for another reason. -/
theorem hook_depth_failure (host : Host γ σ) (fuel : Nat) (m : Machine γ σ) (i : InstanceId) :
    (∀ e, m.heap.lookup SpecialName.str.text i = .error e → e.isDepth = true →
      ∃ after, Eval.perform host fuel (.toText (.inst i)) m = .ok (.error e, after) ∧
        m.SameState after) ∧
    ∀ e, m.heap.lookup SpecialName.bool.text i = .error e → e.isDepth = true →
      Eval.perform host fuel (.truth (.inst i)) m =
          Eval.perform host fuel (.hooklessTruth i) (m.sought .bool i) ∧
        (m.heap.Unhooked .bool (m.heap.inst i).maxDepth i →
          ∃ result after, Eval.perform host fuel (.truth (.inst i)) m = .ok (result, after) ∧
            m.SameState after ∧
            (∀ e, result = .error e →
              ∃ owner, e = .delegateDepth owner (m.heap.inst i).maxDepth) ∧
            ((∃ e, result = .error e ∧ e.isDepth = true) ↔
              ∃ j, m.heap.HeadPath ((m.heap.inst i).maxDepth + 1) i j)) := by
  constructor
  · intro e hl he
    exact ⟨_, Eval.toText_tooDeep _ hl he, m.sameState_sought .str i⟩
  · intro e hl he
    refine ⟨Eval.truth_eq_hooklessTruth _ (Heap.hook?_of_lookup_error hl), fun hu => ?_⟩
    obtain ⟨after, hr, hs⟩ := Eval.truth_unhooked (Eval.call host fuel) hu
    exact ⟨_, after, hr, hs, fun e hd => (Heap.headTruth_error hd).2, Heap.headTruth_tooDeep_iff⟩

-- The base of the widget with one more instance below it, and two instances above it
-- with room for one level: a tower on the base alone, and a fork that asks a record
-- first. The lowest instance may get a hook.

def assent : Host Unit Unit := ⟨fun _ _ => .done (.ok (.bool true))⟩

def makeFork : Program Unit Unit Unit := do
  let tower ← Program.run (.newInstance "Tower" 1)
  Program.run (.addDelegate tower (.inst ⟨0⟩))
  let fork ← Program.run (.newInstance "Fork" 1)
  let record ← Program.run (.newRecord [])
  Program.run (.addDelegate fork record)
  Program.run (.addDelegate fork (.inst ⟨0⟩))
  let low ← Program.run (.newInstance "Low" 3)
  Program.run (.addDelegate ⟨0⟩ (.inst low))

def hookLow : Program Unit Unit Unit := do
  let yes ← Program.run (.newFunction "yes" (.host ()))
  let method ← Program.run (.newMethod ⟨4⟩ "__bool__" yes)
  Program.run (.write (.inst ⟨4⟩) "__bool__" method)

def fork : Machine Unit Unit where
  host := ()
  heap := {
    instances := #[
      { name := "Base", maxDepth := 3, members := .ofList [("size", .int 4)],
        chain := ⟨[some (.inst ⟨4⟩)]⟩ },
      { name := "Widget", maxDepth := 3, chain := ⟨[some (.inst ⟨0⟩)]⟩ },
      { name := "Tower", maxDepth := 1, chain := ⟨[some (.inst ⟨0⟩)]⟩ },
      { name := "Fork", maxDepth := 1, chain := ⟨[some (.record ⟨0⟩), some (.inst ⟨0⟩)]⟩ },
      { name := "Low", maxDepth := 3 }]
    records := #[{}] }

theorem fork_reachable : fork.Reachable assent := by
  have hwidget : Eval.run assent 1 makeWidget { host := () } = .ok (.ok (), widget false) := rfl
  have hfork : Eval.run assent 1 makeFork (widget false) = .ok (.ok (), fork) := rfl
  have hreachable : (widget false).Reachable assent :=
    ⟨{ host := () }, rfl, .single (.run 1 makeWidget hwidget)⟩
  exact hreachable.steps (.single (.run 1 makeFork hfork))

theorem hook_depth_failure_tower :
    fork.heap.lookup SpecialName.str.text ⟨2⟩ = .error (.delegateDepth "Base" 1) ∧
      fork.heap.lookup SpecialName.bool.text ⟨2⟩ = .error (.delegateDepth "Base" 1) ∧
      fork.heap.Unhooked .bool 1 ⟨2⟩ ∧ fork.heap.HeadPath 2 ⟨2⟩ ⟨4⟩ ∧
      (∃ after, Eval.perform assent 2 (.toText (.inst ⟨2⟩)) fork =
        .ok (.error (.delegateDepth "Base" 1), after)) ∧
      ∃ owner after, Eval.perform assent 2 (.truth (.inst ⟨2⟩)) fork =
        .ok (.error (.delegateDepth owner 1), after) := by
  have hstr : fork.heap.lookup SpecialName.str.text ⟨2⟩ = .error (.delegateDepth "Base" 1) := rfl
  have hbool : fork.heap.lookup SpecialName.bool.text ⟨2⟩ = .error (.delegateDepth "Base" 1) := rfl
  have hpath : fork.heap.HeadPath 2 ⟨2⟩ ⟨4⟩ := .down rfl (.down rfl (.refl ⟨4⟩))
  have hu : fork.heap.Unhooked .bool 1 ⟨2⟩ := by
    refine Heap.unhooked_succ rfl fun j hj => ?_
    obtain rfl : ⟨0⟩ = j := Value.inst.inj (Option.some.inj hj)
    exact Heap.unhooked_zero rfl
  obtain ⟨htext, htruth⟩ := hook_depth_failure assent 2 fork ⟨2⟩
  obtain ⟨after, hr, -⟩ := htext _ hstr rfl
  obtain ⟨result, after', hr', -, honly, hiff⟩ := (htruth _ hbool rfl).2 hu
  obtain ⟨e, rfl, -⟩ := hiff.mpr ⟨⟨4⟩, hpath⟩
  obtain ⟨owner, rfl⟩ := honly e rfl
  exact ⟨hstr, hbool, hu, hpath, ⟨after, hr⟩, owner, after', hr'⟩

/-- The truth hook lies too deep to be found, but truth does not fail: the fork asks
its record first, and in the tower the base, with more room, finds the hook. -/
theorem truth_passes_depth_failure :
    (∃ m : Machine Unit Unit, m.Reachable assent ∧
      m.heap.lookup SpecialName.bool.text ⟨3⟩ = .error (.delegateDepth "Base" 1) ∧
      Eval.perform assent 2 (.truth (.inst ⟨3⟩)) m = .ok (.ok true, m) ∧
      Eval.perform assent 2 (.hooklessTruth ⟨3⟩) m = .ok (.ok true, m)) ∧
    ∃ m : Machine Unit Unit, m.Reachable assent ∧
      m.heap.lookup SpecialName.bool.text ⟨2⟩ = .error (.delegateDepth "Base" 1) ∧
      Eval.perform assent 2 (.truth (.inst ⟨2⟩)) m = .ok (.ok true, m) := by
  refine ⟨⟨fork, fork_reachable, rfl, rfl, rfl⟩, ?_⟩
  have hhook : ∃ m, Eval.run assent 1 hookLow fork = .ok (.ok (), m) ∧
      m.heap.lookup SpecialName.bool.text ⟨2⟩ = .error (.delegateDepth "Base" 1) ∧
      Eval.perform assent 2 (.truth (.inst ⟨2⟩)) m = .ok (.ok true, m) := ⟨_, rfl, rfl, rfl⟩
  obtain ⟨m, hrun, hl, ht⟩ := hhook
  exact ⟨m, fork_reachable.steps (.single (.run 1 hookLow hrun)), hl, ht⟩

end Machine

end Delegation

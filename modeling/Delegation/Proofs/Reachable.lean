import Delegation.Proofs.Runs

/-!
# Reachable machines

A machine starts without objects and then runs whatever user code there is.
Its heap comes from the empty one by changes, so what every change keeps holds
in all reachable machines.
-/

namespace Delegation

namespace Machine

variable {γ σ : Type} {host : Host γ σ} {m m' : Machine γ σ}

/-- One step of a machine, by whatever user code there is. A program that runs
inside another, in a hook, an initializer or a resolver, makes steps of its own;
what the machine does after an initializer has run is a step for each template
it settles. So a machine in the midst of a run is between two steps too. -/
inductive Step (host : Host γ σ) : Machine γ σ → Machine γ σ → Prop where
  | run {m m' : Machine γ σ} {α : Type} (fuel : Nat) (program : Program γ σ α)
      {result : Except Error α} :
      Eval.run host fuel program m = .ok (result, m') → Step host m m'
  | settle {m m' : Machine γ σ} (step : PathStep) {result : Except Error Unit} :
      Eval.settle step m = .ok (result, m') → Step host m m'
  | keep {m m' : Machine γ σ} (name : String) (index : Nat) (value : Value)
      {result : Except Error Unit} :
      Eval.keep name index value m = .ok (result, m') → Step host m m'
  | report (m : Machine γ σ) (events : Unit → List Event) : Step host m (m.report events)

abbrev Steps (host : Host γ σ) : Machine γ σ → Machine γ σ → Prop :=
  Relation.ReflTransGen (Step host)

/-- A machine that user code gets to, from one without any objects. -/
def Reachable (host : Host γ σ) (m : Machine γ σ) : Prop :=
  ∃ start : Machine γ σ, start.heap = {} ∧ Steps host start m

theorem Step.changes (hs : m.heap.Sound) (hstep : Step host m m') : m.heap.Changes m'.heap := by
  cases hstep with
  | run fuel program hr => exact Eval.run_leads host fuel hs program _ _ hr
  | settle step hr => exact Eval.settle_leads hs step _ _ hr
  | keep name index value hr =>
    obtain ⟨_, hk⟩ := Eval.run_keep name index value m
    rw [hk] at hr
    cases hr
    exact .refl
  | report events => rw [heap_report]

theorem Steps.changes (hs : m.heap.Sound) (hsteps : Steps host m m') :
    m.heap.Changes m'.heap := by
  induction hsteps with
  | refl => exact .refl
  | tail _ hstep ih => exact ih.trans (hstep.changes (Heap.Changes.sound hs ih))

theorem Reachable.changes (hm : m.Reachable host) : Heap.Changes {} m.heap := by
  obtain ⟨start, hh, hsteps⟩ := hm
  have hc := Steps.changes (hh ▸ Heap.sound_empty) hsteps
  rwa [hh] at hc

theorem Reachable.sound (hm : m.Reachable host) : m.heap.Sound :=
  Heap.Changes.sound Heap.sound_empty hm.changes

theorem Reachable.steps (hm : m.Reachable host) (hsteps : Steps host m m') : m'.Reachable host := by
  obtain ⟨start, hh, hstart⟩ := hm
  exact ⟨start, hh, hstart.trans hsteps⟩

-- A machine to try the theory on: a widget over its base, frozen or not.

def idle : Host Unit Unit := ⟨fun _ _ => .done (.ok .none)⟩

def widget (frozen : Bool) : Machine Unit Unit where
  host := ()
  heap := {
    instances := #[
      { name := "Base", maxDepth := 3, members := .ofList [("size", .int 4)], frozen },
      { name := "Widget", maxDepth := 3, chain := ⟨[some (.inst ⟨0⟩)]⟩, frozen }] }

def makeWidget : Program Unit Unit Unit := do
  let base ← Program.run (.newInstance "Base" 3)
  Program.run (.write (.inst base) "size" (.int 4))
  let top ← Program.run (.newInstance "Widget" 3)
  Program.run (.addDelegate top (.inst base))

theorem widget_reachable : (widget false).Reachable idle := by
  have hrun : Eval.run idle 1 makeWidget { host := () } = .ok (.ok (), widget false) := rfl
  exact ⟨{ host := () }, rfl, .single (.run 1 makeWidget hrun)⟩

end Machine

end Delegation

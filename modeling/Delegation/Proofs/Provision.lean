import Delegation.Proofs.Ownership

/-!
# How often builtins are provided

A value is kept only after the code of the owner has run. When that code leads to
the name again, its owner may provide it twice, and the value that comes later
replaces the other (`provided_twice`). There is no other way to a second value: of
two provisions of a name one was over while the other was under way, and without
such a pair the name has one value in the whole run (`provided_once`).
-/

namespace Delegation

variable {γ σ α : Type}

namespace History

def AnswersAt (history : History γ σ) (k : Nat) (name : String) (value : Value) : Prop :=
  ∃ x ∈ history[k]?, x.Answers name value

def ProvidesAt (history : History γ σ) (k : Nat) (name : String) (value : Value) : Prop :=
  ∃ x ∈ history[k]?, x.Provides name value

/-- One operation was over while another was under way. -/
def Within (history : History γ σ) (j k : Nat) : Prop :=
  j < k ∧ ∃ x ∈ history[k]?, x.began ≤ j

instance (history : History γ σ) (k : Nat) (name : String) (value : Value) :
    Decidable (ProvidesAt history k name value) :=
  inferInstanceAs (Decidable (∃ x ∈ history[k]?, x.Provides name value))

instance (history : History γ σ) (k : Nat) (name : String) (value : Value) :
    Decidable (AnswersAt history k name value) :=
  inferInstanceAs (Decidable (∃ x ∈ history[k]?, x.Answers name value))

/-- What a history says of one name: every answer was provided, the provisions lie
within one another, and if none lies within another, there is one at most, and one
value in all answers. -/
structure ProvidesOnce (history : History γ σ) (name : String) : Prop where
  provided : ∀ k v, AnswersAt history k name v → ∃ j, ProvidesAt history j name v
  within : ∀ j k v w, ProvidesAt history j name v → ProvidesAt history k name w → j < k →
    Within history j k
  once : (∀ j k v w, ProvidesAt history j name v → ProvidesAt history k name w →
      ¬ Within history j k) →
    ∀ j k v w, ProvidesAt history j name v → ProvidesAt history k name w → j = k
  same : (∀ j k v w, ProvidesAt history j name v → ProvidesAt history k name w →
      ¬ Within history j k) →
    ∀ j k v w, AnswersAt history j name v → AnswersAt history k name w → v = w

end History

namespace Machine.WellKept

open History (AnswersAt ProvidesAt Within ProvidesOnce)

variable {host : Host γ σ} {m : Machine γ (σ × History γ σ)} {name : String} {v w : Value}

/-- A name that was answered has a value for good, so its owner is not asked by
anything that begins later. -/
theorem within (h : m.WellKept host) {j k : Nat} (hj : ProvidesAt m.history j name v)
    (hk : ProvidesAt m.history k name w) (hlt : j < k) : Within m.history j k := by
  obtain ⟨x, hx, hxp⟩ := hj
  obtain ⟨y, hy, hyp⟩ := hk
  refine ⟨hlt, y, hy, Nat.not_lt.mp fun hover => ?_⟩
  have hmem : x ∈ m.history.take y.began :=
    List.mem_iff_getElem?.mpr ⟨j, (List.getElem?_take_of_lt hover).trans hx⟩
  have hcached := (h.moments k y hy).before.answered x hmem name v hxp.toAnswers
  rw [hyp.uncached] at hcached
  cases hcached

/-- Every answer was provided at some time. -/
theorem provided (h : m.WellKept host) {k : Nat} (hk : AnswersAt m.history k name v) :
    ∃ j, ProvidesAt m.history j name v := by
  obtain ⟨x, hx, ha⟩ := hk
  have hj := h.moments k x hx
  cases hc : x.before.builtins.cached? name with
  | none => exact ⟨k, x, hx, ha, hc⟩
  | some held =>
    have hheld : held = v := by
      obtain ⟨fuel, hr⟩ := (h.genuine x (List.mem_of_getElem? hx)).resolution ha.answer
      generalize x.after = after at hr
      cases hr with
      | global hg => cases hg.symm.trans ha.notGlobal
      | cached _ hc' => exact Option.some.inj (hc.symm.trans hc')
      | provided _ _ hc' => cases hc.symm.trans hc'
    rw [hheld] at hc
    obtain ⟨index, resolver, -, -, y, hy, hyp, -⟩ := hj.before.kept.values name v hc
    obtain ⟨i, hi⟩ := List.mem_iff_getElem?.mp (List.mem_of_mem_take hy)
    exact ⟨i, y, hi, hyp⟩

theorem providesOnce (h : m.WellKept host) (name : String) : ProvidesOnce m.history name := by
  have hwithin (j k : Nat) (v w : Value) (hj : ProvidesAt m.history j name v)
      (hk : ProvidesAt m.history k name w) (hlt : j < k) : Within m.history j k :=
    h.within hj hk hlt
  have honce (hn : ∀ j k v w, ProvidesAt m.history j name v → ProvidesAt m.history k name w →
      ¬ Within m.history j k) (j k : Nat) (v w : Value) (hj : ProvidesAt m.history j name v)
      (hk : ProvidesAt m.history k name w) : j = k := by
    rcases Nat.lt_trichotomy j k with hlt | heq | hlt
    · exact absurd (h.within hj hk hlt) (hn j k v w hj hk)
    · exact heq
    · exact absurd (h.within hk hj hlt) (hn k j w v hk hj)
  refine ⟨fun k v => h.provided, hwithin, honce, fun hn j k v w hj hk => ?_⟩
  obtain ⟨i, x, hx, hxp⟩ := h.provided hj
  obtain ⟨l, y, hy, hyp⟩ := h.provided hk
  obtain rfl := honce hn i l v w ⟨x, hx, hxp⟩ ⟨y, hy, hyp⟩
  obtain rfl := Option.some.inj (hx.symm.trans hy)
  exact (Prod.mk.inj (Option.some.inj (hxp.answer.symm.trans hyp.answer))).2

end Machine.WellKept

/-- A builtin is provided once, unless its name is resolved again while its owner
is at work on it: in every run in which nobody keeps a value directly. What is kept
in the end was provided. -/
theorem provided_once (host : Host γ σ) {fuel : Nat} {program : Program γ σ α} {m m' : Machine γ σ}
    {resolvers : List (Resolver γ)} (hm : m.builtins = { resolvers }) {result : Except Error α}
    (hr : Eval.run host fuel program m = .ok (result, m')) :
    ∃ history, Eval.watch host fuel program m = .ok (result, m', history) ∧
      (History.KeepFree history → ∀ name, History.ProvidesOnce history name ∧
        ∀ value, m'.builtins.cached? name = some value →
          ∃ k, History.ProvidesAt history k name value) := by
  obtain ⟨history, hw⟩ := Eval.exists_history hr
  refine ⟨history, hw, fun hk name => ?_⟩
  obtain ⟨last, hlast, rfl, rfl⟩ := Eval.watch_wellKept hm hw hk
  refine ⟨hlast.providesOnce name, fun value hc => ?_⟩
  obtain ⟨index, resolver, -, -, x, hx, hp, -⟩ := hlast.builtins.kept.values name value hc
  obtain ⟨k, hk⟩ := List.mem_iff_getElem?.mp hx
  exact ⟨k, x, hk, hp⟩

-- Who has gone the way around already gets the names one after the other.

def Detour.straight : Program Bool Bool Value := do
  let _ ← Program.run (.resolve "b")
  Program.run (.resolve "a")

theorem provided_once_detour : ∃ m history,
    Eval.watch Detour.host 3 Detour.straight (Detour.start true) =
      .ok (.ok (.text "inner"), m, history) ∧
    (∀ name, History.ProvidesOnce history name) ∧
    (∃ k, History.ProvidesAt history k "b" (.text "inner")) ∧
    History.ProvidesAt history 1 "a" (.text "inner") ∧
    History.AnswersAt history 3 "a" (.text "inner") := by
  let kept := (Detour.start true).builtins.keep "a" 0 (.text "inner")
  let last := { Detour.start true with builtins := kept.keep "b" 1 (.text "inner") }
  have hrun : Eval.run Detour.host 3 Detour.straight (Detour.start true) =
      .ok (.ok (.text "inner"), last) := rfl
  obtain ⟨history, hw, honce⟩ := provided_once Detour.host rfl hrun
  have hp : (Eval.watch Detour.host 3 Detour.straight (Detour.start true)).toOption.all
      (fun (_, _, history) => decide (History.KeepFree history ∧
        History.ProvidesAt history 1 "a" (.text "inner") ∧
        History.AnswersAt history 3 "a" (.text "inner"))) = true := by decide +kernel
  rw [hw] at hp
  obtain ⟨hfree, hprovides, hanswers⟩ := of_decide_eq_true hp
  have hkept := (honce hfree "b").2 (.text "inner") rfl
  exact ⟨last, history, hw, fun name => (honce hfree name).1, hkept, hprovides, hanswers⟩

/-- The owner of a name provides it twice when it leads back to the name. -/
theorem provided_twice : ∃ history,
    Eval.watch Detour.host 3 (Program.run (.resolve "a")) (Detour.start false) =
      .ok (.ok (.text "outer"), Detour.around, history) ∧
    History.KeepFree history ∧ History.ProvidesAt history 3 "a" (.text "inner") ∧
    History.ProvidesAt history 5 "a" (.text "outer") := by
  obtain ⟨history, hw⟩ := Eval.exists_history Detour.run_around
  have hp : (Eval.watch Detour.host 3 (Program.run (.resolve "a"))
      (Detour.start false)).toOption.all (fun (_, _, history) =>
        decide (History.ProvidesAt history 3 "a" (.text "inner") ∧
          History.ProvidesAt history 5 "a" (.text "outer"))) = true := by decide +kernel
  rw [hw] at hp
  exact ⟨history, hw, Detour.keepFree_around hw, of_decide_eq_true hp⟩

end Delegation

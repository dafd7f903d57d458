import Delegation.Proofs.Operations

/-!
# Ownership over whole runs

Resolvers run user code that registers resolvers and resolves names, also the name
that is being resolved. Whatever it does, each name stays with the first resolver
that claims it, in every machine that an operation of the run begins or ends with
(`owners_orderly`). What a resolution finds out before that code runs still holds
when it keeps the value afterwards, because builtins only grow (`Succeeds`). Nobody
else gets at an environment that stands alone while a name is resolved in it, so it
is told by what its host did with it, one use after the other (`Standalone`).
-/

namespace Delegation

variable {γ σ α : Type}

-- ---------------------------------------------------------------------------
-- Resolutions in a history
-- ---------------------------------------------------------------------------

namespace Moment

/-- The name that was resolved, with its value. -/
def answer? : Moment γ σ → Option (String × Value)
  | ⟨_, _, .resolve name, .ok value, _⟩ => some (name, value)
  | _ => none

def isKeep (x : Moment γ σ) : Bool :=
  match x.operation with
  | .keep .. => true
  | _ => false

/-- The builtins answered a name with a value. -/
structure Answers (x : Moment γ σ) (name : String) (value : Value) : Prop where
  answer : x.answer? = some (name, value)
  notGlobal : x.before.globals.get? name = none

/-- The owner of a name was asked for it and returned a value. -/
structure Provides (x : Moment γ σ) (name : String) (value : Value) : Prop
    extends x.Answers name value where
  uncached : x.before.builtins.cached? name = none

instance (x : Moment γ σ) (name : String) (value : Value) : Decidable (x.Answers name value) :=
  decidable_of_iff (x.answer? = some (name, value) ∧ x.before.globals.get? name = none)
    ⟨fun ⟨ha, hg⟩ => ⟨ha, hg⟩, fun ⟨ha, hg⟩ => ⟨ha, hg⟩⟩

instance (x : Moment γ σ) (name : String) (value : Value) : Decidable (x.Provides name value) :=
  decidable_of_iff (x.Answers name value ∧ x.before.builtins.cached? name = none)
    ⟨fun ⟨ha, hc⟩ => ⟨ha, hc⟩, fun ⟨ha, hc⟩ => ⟨ha, hc⟩⟩

theorem Genuine.resolution {host : Host γ σ} {x : Moment γ σ} (hg : x.Genuine host) {name : String}
    {value : Value} (ha : x.answer? = some (name, value)) :
    ∃ fuel, Eval.Resolution (Eval.runCode host fuel) name x.before (.ok value) x.after := by
  obtain ⟨began, before, operation, outcome, after⟩ := x
  obtain ⟨fuel, hr⟩ := hg
  cases operation with
  | resolve name' =>
    cases outcome with
    | ok value' =>
      cases ha
      exact ⟨fuel, Eval.resolve_resolution hr⟩
    | error e => cases ha
  | _ => cases ha

/-- The value came from the code of the name's owner. -/
theorem Provides.returned {host : Host γ σ} {x : Moment γ σ} {name : String} {value : Value}
    (hp : x.Provides name value) (hg : x.Genuine host) : ∃ index resolver fuel after,
      x.before.builtins.owner? name = some (index, resolver) ∧
      Eval.provide (Eval.runCode host fuel) resolver name x.before = .ok (.ok value, after) := by
  obtain ⟨fuel, hr⟩ := hg.resolution hp.answer
  generalize hafter : x.after = after at hr
  cases hr with
  | global hv =>
    rw [hp.notGlobal] at hv
    cases hv
  | cached _ hv =>
    rw [hp.uncached] at hv
    cases hv
  | provided trace _ _ ho hprovide => exact ⟨_, _, fuel, _, ho, hprovide⟩

end Moment

namespace History

def KeepFree (history : History γ σ) : Prop := ∀ x ∈ history, x.isKeep = false

instance (history : History γ σ) : Decidable (KeepFree history) :=
  inferInstanceAs (Decidable (∀ x ∈ history, x.isKeep = false))

/-- In the history a resolver was asked for a name that it owned, and returned a
value. -/
def Returned (host : Host γ σ) (history : History γ σ) (name : String) (resolver : Resolver γ)
    (value : Value) : Prop :=
  ∃ x ∈ history, x.Provides name value ∧
    (∃ index, x.before.builtins.owner? name = some (index, resolver)) ∧
    ∃ fuel after, Eval.provide (Eval.runCode host fuel) resolver name x.before =
      .ok (.ok value, after)

theorem Returned.append {host : Host γ σ} {history : History γ σ} {name : String}
    {resolver : Resolver γ} {value : Value} (h : Returned host history name resolver value)
    (x : Moment γ σ) : Returned host (history ++ [x]) name resolver value := by
  obtain ⟨y, hy, hrest⟩ := h
  exact ⟨y, List.mem_append_left _ hy, hrest⟩

/-- The builtins are what the history says: each kept value was returned by the
name's owner, and no name that was answered is without a value. -/
structure Explains (host : Host γ σ) (history : History γ σ) (env : Environment γ) : Prop where
  kept : env.Kept (Returned host history)
  answered : ∀ x ∈ history, ∀ name value, x.Answers name value → (env.cached? name).isSome

theorem Explains.append {host : Host γ σ} {history : History γ σ} {env : Environment γ}
    (h : Explains host history env) {x : Moment γ σ}
    (hx : ∀ name value, x.Answers name value → (env.cached? name).isSome) :
    Explains host (history ++ [x]) env where
  kept := h.kept.mono fun _ _ _ hr => hr.append x
  answered y hy := by
    rcases List.mem_append.mp hy with hy | hy
    · exact h.answered y hy
    · rw [List.mem_singleton.mp hy]
      exact hx

end History

-- ---------------------------------------------------------------------------
-- What operations do to the builtins
-- ---------------------------------------------------------------------------

/-- Of a watched machine, everything that its history tells of the builtins. -/
structure Machine.WellKept (host : Host γ σ) (m : Machine γ (σ × History γ σ)) : Prop where
  builtins : History.Explains host m.history m.builtins
  genuine : ∀ x ∈ m.history, x.Genuine host
  moments : m.history.Throughout fun history m => history.Explains host m.builtins
  grown : ∀ x ∈ m.history, x.before.builtins.Grows m.builtins ∧ x.after.builtins.Grows m.builtins

/-- Builtins and history only grow, and what the history tells stays right as long
as nobody keeps a value directly. -/
structure Machine.Succeeds (host : Host γ σ) (m m' : Machine γ (σ × History γ σ)) : Prop where
  builtins : m.builtins.Grows m'.builtins
  history : m.history <+: m'.history
  wellKept : History.KeepFree m'.history → m.WellKept host → m'.WellKept host

namespace Machine

variable {host : Host γ σ} {m m' : Machine γ (σ × History γ σ)}

theorem succeeds_of_same (hb : m'.builtins = m.builtins) (hh : m'.history = m.history) :
    m.Succeeds host m' where
  builtins := hb ▸ .refl _
  history := hh ▸ List.prefix_rfl
  wellKept _ h := ⟨hb ▸ hh ▸ h.builtins, hh ▸ h.genuine, hh ▸ h.moments, hb ▸ hh ▸ h.grown⟩

theorem Succeeds.trans {m'' : Machine γ (σ × History γ σ)} (h : m.Succeeds host m')
    (h' : m'.Succeeds host m'') : m.Succeeds host m'' where
  builtins := h.builtins.trans h'.builtins
  history := h.history.trans h'.history
  wellKept hk hm := h'.wellKept hk (h.wellKept (fun x hx => hk x (h'.history.subset hx)) hm)

theorem succeeds_register (m : Machine γ (σ × History γ σ)) (resolver : Resolver γ) :
    m.Succeeds host (m.register resolver) where
  builtins := m.builtins.grows_register resolver
  history := List.prefix_rfl
  wellKept _ h :=
    { builtins := ⟨h.builtins.kept.register resolver, h.builtins.answered⟩
      genuine := h.genuine
      moments := h.moments
      grown := fun x hx =>
        have hg := m.builtins.grows_register resolver
        ⟨(h.grown x hx).1.trans hg, (h.grown x hx).2.trans hg⟩ }

theorem succeeds_offerBuilder (m : Machine γ (σ × History γ σ)) (settings : Settings) :
    m.Succeeds host (m.offerBuilder settings) := by
  unfold offerBuilder
  rw [report_eq]
  exact (succeeds_register m (.object settings.builtinName)).trans (succeeds_of_same rfl rfl)

/-- An operation is noted down. It ended with the builtins of a machine that
succeeds the first, or with what they grew to. -/
theorem succeeds_note {operation : Operation γ σ} {outcome : Except Error operation.watched.Answer}
    (hgenuine : (m.moment operation outcome m').Genuine host)
    {middle : Machine γ (σ × History γ σ)} (hs : m.Succeeds host middle)
    (hh : m'.history = middle.history) (hg : middle.builtins.Grows m'.builtins)
    (he : History.KeepFree (m'.history ++ [m.moment operation outcome m']) → m.WellKept host →
      middle.WellKept host →
        History.Explains host (m'.history ++ [m.moment operation outcome m']) m'.builtins) :
    m.Succeeds host (m'.note (m.moment operation outcome m')) where
  builtins := hs.builtins.trans hg
  history := hs.history.trans (hh ▸ List.prefix_append _ _)
  wellKept hk hm := by
    change History.KeepFree (m'.history ++ [m.moment operation outcome m']) at hk
    have hmiddle : middle.WellKept host :=
      hs.wellKept (fun x hx => hk x (List.mem_append_left _ (hh ▸ hx))) hm
    refine ⟨he hk hm hmiddle, fun x hx => ?_, ?_, fun x hx => ?_⟩
    · rcases List.mem_append.mp hx with hx | hx
      · exact hmiddle.genuine x (hh ▸ hx)
      · rw [List.mem_singleton.mp hx]
        exact hgenuine
    · exact (hh ▸ hmiddle.moments).note (hh ▸ hs.history) rfl hm.builtins (he hk hm hmiddle)
    · rcases List.mem_append.mp hx with hx | hx
      · obtain ⟨hbefore, hafter⟩ := hmiddle.grown x (hh ▸ hx)
        exact ⟨hbefore.trans hg, hafter.trans hg⟩
      · rw [List.mem_singleton.mp hx]
        exact ⟨hs.builtins.trans hg, .refl _⟩

section
variable {runCode : γ → Arguments → Eval γ (σ × History γ σ) Value}
  (hcode : ∀ code arguments m result m',
    runCode code arguments m = .ok (result, m') → m.Succeeds host m')

include hcode

theorem provide_succeeds {resolver : Resolver γ} {name : String} {result : Except Error Value}
    (hp : Eval.provide runCode resolver name m = .ok (result, m')) : m.Succeeds host m' :=
  Eval.provide_related (fun _ _ => succeeds_of_same rfl rfl) hcode hp

/-- While the owner's code runs, others may keep a value for the name. They found
the same owner, so keeping a second value leaves its owner as recorded. -/
theorem resolve_succeeds {name : String} {outcome : Except Error Value}
    (hr : Eval.resolve runCode name m = .ok (outcome, m'))
    (hgenuine : (m.moment (.resolve name) outcome m').Genuine host) :
    m.Succeeds host (m'.note (m.moment (.resolve name) outcome m')) := by
  have hanswer (value : Value) :
      (m.moment (.resolve name) (.ok value) m').answer? = some (name, value) := rfl
  cases Eval.resolve_resolution hr with
  | global hg =>
    refine succeeds_note hgenuine (succeeds_of_same rfl rfl) rfl (.refl _) fun _ _ hk => ?_
    refine hk.builtins.append fun other value ha => ?_
    cases (hanswer _).symm.trans ha.answer
    cases hg.symm.trans ha.notGlobal
  | cached hg hc =>
    refine succeeds_note hgenuine (succeeds_of_same rfl rfl) rfl (.refl _) fun _ _ hk => ?_
    refine hk.builtins.append fun other value ha => ?_
    cases (hanswer _).symm.trans ha.answer
    rw [hc]
    rfl
  | undefined hg hc ho =>
    refine succeeds_note hgenuine (succeeds_of_same rfl rfl) rfl (.refl _) fun _ _ hk => ?_
    refine hk.builtins.append fun other value ha => ?_
    cases ha.answer
  | failed hg hc ho hp =>
    refine succeeds_note hgenuine (provide_succeeds hcode hp) rfl (.refl _) fun _ _ hk => ?_
    refine hk.builtins.append fun other value ha => ?_
    cases ha.answer
  | @provided index resolver value after trace hg hc ho hp =>
    have hs := provide_succeeds hcode hp
    have hgrows := after.builtins.grows_keep name index value
    refine succeeds_note hgenuine hs rfl hgrows fun _ hm hk => ⟨?_, fun y hy other held ha => ?_⟩
    · obtain ⟨hi, hresolver⟩ := hm.builtins.kept.owner?_iff.mp ho
      have hprovides : (m.moment (.resolve name) (.ok value) _).Provides name value :=
        { answer := hanswer value, notGlobal := hg, uncached := hc }
      obtain ⟨_, _, fuel, left, howner, hreturned⟩ := hprovides.returned hgenuine
      cases ho.symm.trans howner
      refine (hk.builtins.kept.mono fun _ _ _ hr => hr.append _).keep (hs.builtins.findIdx? hi)
        (hs.builtins.getElem? hresolver) ?_
      exact ⟨_, List.mem_append_right _ (List.mem_singleton_self _), hprovides, ⟨index, howner⟩,
        fuel, left, hreturned⟩
    · rcases List.mem_append.mp hy with hy | hy
      · exact hgrows.cached other (hk.builtins.answered y hy other held ha)
      · rw [List.mem_singleton.mp hy] at ha
        cases (hanswer _).symm.trans ha.answer
        rw [Environment.cached?_keep_self]
        rfl

end

theorem records_succeeds (host : Host γ σ) : Records host (Machine.Succeeds host) where
  refl m := succeeds_of_same rfl rfl
  trans := Succeeds.trans
  loose m heap bodies trace _ := succeeds_of_same rfl rfl
  note {call runCode} hcode operation m outcome m' hr hq hgenuine := by
    -- Only a resolution answers a name, so any other note leaves the explanation as it was.
    have hother (hs : m.Succeeds host m')
        (hl : (m.moment operation outcome m').answer? = none) :
        m.Succeeds host (m'.note (m.moment operation outcome m')) := by
      refine succeeds_note hgenuine hs rfl (.refl _) fun _ _ hk => ?_
      refine hk.builtins.append fun name value ha => ?_
      cases hl.symm.trans ha.answer
    cases operation with
    | resolve name => exact resolve_succeeds hcode hr hgenuine
    | keep name index value =>
      obtain ⟨trace, hk⟩ := Eval.run_keep name index value m
      cases hk.symm.trans hr
      refine succeeds_note hgenuine (succeeds_of_same rfl rfl) rfl
        (m.builtins.grows_keep name index value) fun hfree => ?_
      cases hfree _ (List.mem_append_right _ (List.mem_singleton_self _))
    | inspect =>
      cases hr
      exact hother (succeeds_of_same rfl rfl) rfl
    | update change =>
      cases hr
      exact hother (succeeds_of_same rfl rfl) rfl
    | bindName name value =>
      cases hr
      exact hother (succeeds_of_same rfl rfl) rfl
    | offerBuilder settings =>
      cases hr
      exact hother (succeeds_offerBuilder m settings) rfl
    | register resolver =>
      cases hr
      exact hother (succeeds_register m resolver) rfl
    | _ => exact hother (hq rfl) rfl

end Machine

-- ---------------------------------------------------------------------------
-- Owners
-- ---------------------------------------------------------------------------

/-- The resolvers in all machines that an operation of the history began or ended with,
and the owners of names among them. Resolvers are those at the start and then those
that operations of the history registered. No name has had another owner than it has
in the end. -/
structure History.KeepsOwners (host : Host γ σ) (start : List (Resolver γ))
    (history : History γ σ) (env : Environment γ) : Prop where
  resolvers : env.resolvers = start ++ history.registered
  throughout : history.Throughout fun earlier m =>
    m.builtins.resolvers = start ++ earlier.registered
  now : env.Orderly (Returned host history)
  before : ∀ x ∈ history, x.before.builtins.Orderly (Returned host (history.take x.began))
  after : ∀ (k : Nat) (x : Moment γ σ), history[k]? = some x →
    x.after.builtins.Orderly (Returned host (history.take (k + 1)))
  stay : ∀ x ∈ history, ∀ name owner,
    x.before.builtins.owner? name = some owner ∨ x.after.builtins.owner? name = some owner →
    env.owner? name = some owner

namespace Machine

variable {host : Host γ σ}

theorem wellKept_start {m : Machine γ σ} {resolvers : List (Resolver γ)}
    (hm : m.builtins = { resolvers }) : m.watched.WellKept host where
  builtins :=
    have hb : m.watched.builtins = { resolvers } := hm
    { kept := hb ▸ Environment.kept_unused resolvers
      answered := fun x hx => by cases hx }
  genuine x hx := by cases hx
  moments k x hx := by cases hx
  grown x hx := by cases hx

theorem WellKept.keepsOwners {m : Machine γ (σ × History γ σ)} (h : m.WellKept host)
    {start : Machine γ σ} (ht : m.Traced start) :
    History.KeepsOwners host start.builtins.resolvers m.history m.builtins where
  resolvers := ht.now.resolvers
  throughout := ht.moments.mono fun _ _ hp => hp.resolvers
  now := h.builtins.kept.orderly
  before x hx := by
    obtain ⟨k, hk⟩ := List.mem_iff_getElem?.mp hx
    exact (h.moments k x hk).before.kept.orderly
  after k x hx := (h.moments k x hx).after.kept.orderly
  stay x hx name owner ho := by
    obtain ⟨k, hk⟩ := List.mem_iff_getElem?.mp hx
    have hj := h.moments k x hk
    obtain ⟨hbefore, hafter⟩ := h.grown x hx
    rcases ho with ho | ho
    · exact hj.before.kept.owner?_grows h.builtins.kept hbefore ho
    · exact hj.after.kept.owner?_grows h.builtins.kept hafter ho

end Machine

/-- The machine that a run leaves, with the history of the run, from builtins that
nobody has used yet. -/
theorem Eval.watch_wellKept {host : Host γ σ} {fuel : Nat} {program : Program γ σ α}
    {m m' : Machine γ σ} {resolvers : List (Resolver γ)} (hm : m.builtins = { resolvers })
    {result : Except Error α} {history : History γ σ}
    (hw : watch host fuel program m = .ok (result, m', history)) (hk : History.KeepFree history) :
    ∃ last : Machine γ (σ × History γ σ),
      last.WellKept host ∧ last.unwatched = m' ∧ last.history = history := by
  obtain ⟨last, hs, hlast, rfl⟩ := watch_related (Machine.records_succeeds host) hw
  exact ⟨last, hs.wellKept hk (Machine.wellKept_start hm), hlast, rfl⟩

namespace Environment

/-- What a host does with an environment of its own. The machine in which a name is
resolved may be any. -/
inductive Use (γ σ : Type) where
  | register (resolver : Resolver γ)
  | resolve (env : Environment γ) (name : String) (m : Machine γ σ)
    (outcome : Except Error (Value × Environment γ))

def Use.registered? : Use γ σ → Option (Resolver γ)
  | register resolver => some resolver
  | resolve .. => none

/-- The owner of a name was asked for it and returned a value. -/
inductive Use.Returns (host : Host γ σ) : Use γ σ → String → Resolver γ → Value → Prop where
  | provided (fuel : Nat) {env env' : Environment γ} {name : String} {index : Nat}
      {resolver : Resolver γ} {value : Value} {m after : Machine γ σ} :
    env.cached? name = none → env.owner? name = some (index, resolver) →
    Eval.provide (Eval.runCode host fuel) resolver name m = .ok (.ok value, after) →
    Returns host (.resolve env name m (.ok (value, env'))) name resolver value

/-- An environment that belongs to the host, after some registrations and resolutions.
A resolution that fails leaves it as it was. -/
inductive Standalone (host : Host γ σ) : List (Use γ σ) → Environment γ → Prop where
  | unused : Standalone host [] {}
  | register {uses : List (Use γ σ)} {env : Environment γ} (resolver : Resolver γ) :
    Standalone host uses env →
    Standalone host (uses ++ [.register resolver]) (env.register resolver)
  | resolve (fuel : Nat) {uses : List (Use γ σ)} {env env' : Environment γ} {name : String}
      {value : Value} {m m' : Machine γ σ} : Standalone host uses env →
    Eval.resolveIn (Eval.runCode host fuel) env name m = .ok (.ok (value, env'), m') →
    Standalone host (uses ++ [.resolve env name m (.ok (value, env'))]) env'
  | fail (fuel : Nat) {uses : List (Use γ σ)} {env : Environment γ} {name : String} {e : Error}
      {m m' : Machine γ σ} : Standalone host uses env →
    Eval.resolveIn (Eval.runCode host fuel) env name m = .ok (.error e, m') →
    Standalone host (uses ++ [.resolve env name m (.error e)]) env

/-- In one of the uses a resolver was asked for a name that it owned, and returned a
value. -/
def Gave (host : Host γ σ) (uses : List (Use γ σ)) (name : String) (resolver : Resolver γ)
    (value : Value) : Prop :=
  ∃ use ∈ uses, use.Returns host name resolver value

variable {host : Host γ σ} {uses : List (Use γ σ)} {env : Environment γ}

theorem Gave.append {name : String} {resolver : Resolver γ} {value : Value}
    (h : Gave host uses name resolver value) (use : Use γ σ) :
    Gave host (uses ++ [use]) name resolver value := by
  obtain ⟨earlier, hm, hr⟩ := h
  exact ⟨earlier, List.mem_append_left _ hm, hr⟩

theorem Kept.append (h : env.Kept (Gave host uses)) (use : Use γ σ) :
    env.Kept (Gave host (uses ++ [use])) :=
  h.mono fun _ _ _ hg => hg.append use

theorem Standalone.kept (h : env.Standalone host uses) : env.Kept (Gave host uses) := by
  induction h with
  | unused => exact kept_unused []
  | register resolver _ ih => exact (ih.append _).register resolver
  | @resolve fuel uses env env' name value m m' _ hr ih =>
    rcases Eval.resolveIn_ok hr with ⟨-, rfl⟩ | ⟨index, resolver, after, hc, ho, hp, rfl⟩
    · exact ih.append _
    · obtain ⟨hi, hresolver⟩ := ih.owner?_iff.mp ho
      exact (ih.append _).keep hi hresolver
        ⟨_, List.mem_append_right _ (List.mem_singleton_self _), .provided fuel hc ho hp⟩
  | fail _ _ _ ih => exact ih.append _

theorem Standalone.resolvers (h : env.Standalone host uses) :
    env.resolvers = uses.filterMap Use.registered? := by
  induction h with
  | unused => rfl
  | register resolver _ ih =>
    rw [filterMap_concat, ← ih]
    rfl
  | resolve fuel _ hr ih =>
    rw [filterMap_concat, ← ih, Eval.resolveIn_resolvers hr]
    exact (List.append_nil _).symm
  | fail _ _ _ ih =>
    rw [filterMap_concat, ← ih]
    exact (List.append_nil _).symm

end Environment

/-- Each name belongs to the first resolver that claims it: all along every run in
which nobody keeps a value directly, and in every environment that stands alone. The
resolvers are those that were registered, and each kept value was returned when its
name was resolved. -/
theorem owners_orderly (host : Host γ σ) :
    (∀ (fuel : Nat) (program : Program γ σ α) (m m' : Machine γ σ) (result : Except Error α)
      (resolvers : List (Resolver γ)), m.builtins = { resolvers } →
      Eval.run host fuel program m = .ok (result, m') →
      ∃ history, Eval.watch host fuel program m = .ok (result, m', history) ∧
        (History.KeepFree history → History.KeepsOwners host resolvers history m'.builtins)) ∧
    ∀ (uses : List (Environment.Use γ σ)) (env : Environment γ), env.Standalone host uses →
      env.resolvers = uses.filterMap Environment.Use.registered? ∧
        env.Orderly (Environment.Gave host uses) := by
  refine ⟨fun fuel program m m' result resolvers hm hr => ?_,
    fun uses env h => ⟨h.resolvers, h.kept.orderly⟩⟩
  obtain ⟨history, hw⟩ := Eval.exists_history hr
  refine ⟨history, hw, fun hk => ?_⟩
  obtain ⟨hnow, hmoments⟩ := Eval.watch_traced hw
  obtain ⟨last, hlast, rfl, rfl⟩ := Eval.watch_wellKept hm hw hk
  have hstart : m.builtins.resolvers = resolvers := by rw [hm]
  exact hstart ▸ hlast.keepsOwners ⟨hnow, hmoments⟩

-- A host to try the theory on: of two names each takes a look at the other.

namespace Detour

def host : Host Bool Bool where
  code
    | true, _ => do
      let m : Machine Bool Bool ← Program.run .inspect
      if m.host then return .text "inner"
      Program.run (.update fun _ => true)
      let _ ← Program.run (.resolve "b")
      return .text "outer"
    | false, _ => Program.run (.resolve "a")

def resolvers : List (Resolver Bool) :=
  [⟨"first", (· == "a"), .host true⟩, ⟨"second", (· == "b"), .host false⟩]

/-- Whether the way around has been gone already is the state of the host. -/
def start (gone : Bool) : Machine Bool Bool where
  host := gone
  builtins := { resolvers }

def around : Machine Bool Bool :=
  { start true with
    builtins := (((start true).builtins.keep "a" 0 (.text "inner")).keep "b" 1
      (.text "inner")).keep "a" 0 (.text "outer") }

theorem run_around :
    Eval.run host 3 (Program.run (.resolve "a")) (start false) =
      .ok (.ok (.text "outer"), around) := rfl

theorem keepFree_around {result : Except Error Value} {m : Machine Bool Bool}
    {history : History Bool Bool}
    (hw : Eval.watch host 3 (Program.run (.resolve "a")) (start false) =
      .ok (result, m, history)) : History.KeepFree history := by
  have hfree : (Eval.watch host 3 (Program.run (.resolve "a")) (start false)).toOption.all
      (fun (_, _, history) => decide (History.KeepFree history)) = true := by decide +kernel
  rw [hw] at hfree
  exact of_decide_eq_true hfree

-- The same host with an environment of its own, which offers the builder.

def offering : Environment Bool := Environment.register {} (.object "object")

def offered : Environment Bool := offering.keep "object" 0 (.function ⟨0, "object"⟩)

def uses : List (Environment.Use Bool Bool) :=
  [.register (.object "object"),
    .resolve offering "object" (start false) (.ok (.function ⟨0, "object"⟩, offered)),
    .resolve offered "b" (start false) (.error (.undefinedName "b"))]

theorem offered_standalone : offered.Standalone host uses :=
  .fail 0 (.resolve 0 (.register (.object "object") .unused) rfl) rfl

end Detour

theorem owners_orderly_detour :
    (∃ history, Eval.watch Detour.host 3 (Program.run (.resolve "a")) (Detour.start false) =
        .ok (.ok (.text "outer"), Detour.around, history) ∧
      History.KeepsOwners Detour.host Detour.resolvers history Detour.around.builtins) ∧
    Detour.offered.Orderly (Environment.Gave Detour.host Detour.uses) := by
  obtain ⟨hruns, halone⟩ := owners_orderly Detour.host
  obtain ⟨history, hw, hk⟩ := hruns 3 _ _ _ _ Detour.resolvers rfl Detour.run_around
  obtain ⟨-, horderly⟩ := halone _ _ Detour.offered_standalone
  exact ⟨⟨history, hw, hk (Detour.keepFree_around hw)⟩, horderly⟩

end Delegation

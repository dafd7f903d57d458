import Delegation.Proofs.Ownership
import Delegation.Proofs.Reachable
import Delegation.Proofs.Resolving

/-!
# The builtin that builds

Where the template builder was offered under a name before anybody else claimed it,
calling the name is building under the settings of the moment, all along every run
(`builtin_builds`). The name belongs to the builder's resolver for good. The function
that it made is kept and stays the builder in every later machine (`Precedes`); it
reads the settings only when it is called.
-/

namespace Delegation

variable {γ σ α : Type}

-- ---------------------------------------------------------------------------
-- The owner of an offered name
-- ---------------------------------------------------------------------------

namespace Environment

theorem FirstClaim.grows {env env' : Environment γ} {name : String} {index : Nat}
    {resolver : Resolver γ} (h : env.FirstClaim name index resolver) (hg : env.Grows env') :
    env'.FirstClaim name index resolver := by
  obtain ⟨hf, hr⟩ := firstClaim_iff.mp h
  exact firstClaim_iff.mpr ⟨hg.findIdx? hf, hg.getElem? hr⟩

theorem firstClaim_register {env : Environment γ} {name : String} {resolver : Resolver γ}
    (hfree : ∀ earlier ∈ env.resolvers, earlier.claims name = false)
    (hc : resolver.claims name = true) :
    (env.register resolver).FirstClaim name env.resolvers.length resolver where
  registered := List.getElem?_concat_length
  claims := hc
  first j hj earlier he := by
    rw [register, List.getElem?_append_left hj] at he
    exact hfree earlier (List.mem_of_getElem? he)

end Environment

namespace Moment

/-- The template builder was offered under a name that nobody claimed yet. -/
structure Offers (x : Moment γ σ) (name : String) : Prop where
  offered : x.operation.installed?.map Settings.builtinName = some name
  unclaimed : ∀ resolver ∈ x.before.builtins.resolvers, resolver.claims name = false

instance (x : Moment γ σ) (name : String) : Decidable (x.Offers name) :=
  decidable_of_iff (x.operation.installed?.map Settings.builtinName = some name ∧
    ∀ resolver ∈ x.before.builtins.resolvers, resolver.claims name = false)
    ⟨fun ⟨ho, hc⟩ => ⟨ho, hc⟩, fun ⟨ho, hc⟩ => ⟨ho, hc⟩⟩

theorem Genuine.installed {host : Host γ σ} {x : Moment γ σ} (hg : x.Genuine host)
    {settings : Settings} (ho : x.operation.installed? = some settings) :
    x.after.builtins = x.before.builtins.register (.object settings.builtinName) := by
  obtain ⟨began, before, operation, outcome, after⟩ := x
  obtain ⟨fuel, hr⟩ := hg
  cases operation with
  | offerBuilder settings' =>
    obtain rfl : settings' = settings := Option.some.inj ho
    have hafter : before.offerBuilder settings' = after := (Prod.mk.inj (Except.ok.inj hr)).2
    change after.builtins = _
    rw [← hafter, Machine.offerBuilder, Machine.report_eq]
    rfl
  | _ => cases ho

theorem Offers.firstClaim {host : Host γ σ} {x : Moment γ σ} {name : String} (h : x.Offers name)
    (hg : x.Genuine host) : x.after.builtins.FirstClaim name x.before.builtins.resolvers.length
      (.object name) := by
  obtain ⟨settings, hs, rfl⟩ := Option.map_eq_some_iff.mp h.offered
  rw [hg.installed hs]
  exact Environment.firstClaim_register h.unclaimed (beq_self_eq_true _)

/-- The owner of a name was asked for it, and it was the resolver of the builder. -/
theorem Provides.made {host : Host γ σ} {x : Moment γ σ} {name : String} {value : Value}
    (hp : x.Provides name value) (hg : x.Genuine host) {index : Nat}
    (ho : x.before.builtins.owner? name = some (index, .object name)) :
    value = .function ⟨x.before.bodies.size, name⟩ ∧
      x.after.bodies = x.before.bodies.push .builder := by
  obtain ⟨fuel, hr⟩ := hg.resolution hp.answer
  generalize hafter : x.after = after at hr
  cases hr with
  | global hv =>
    rw [hp.notGlobal] at hv
    cases hv
  | cached _ hv =>
    rw [hp.uncached] at hv
    cases hv
  | provided trace _ _ ho' hprovide =>
    cases ho.symm.trans ho'
    cases hprovide
    exact ⟨rfl, rfl⟩

end Moment

namespace History

/-- The template builder was offered under the name before anybody else claimed it: at
the start of the history or in the course of it. -/
inductive Offered (start : Machine γ σ) (history : History γ σ) (name : String) : Prop where
  | before (index : Nat) :
    start.builtins.FirstClaim name index (.object name) → Offered start history name
  | during (x : Moment γ σ) : x ∈ history → x.Offers name → Offered start history name

variable {host : Host γ σ} {start m : Machine γ σ} {history : History γ σ} {name : String}

theorem Offered.firstClaim (h : Offered start history name) (hp : Precedes start history m)
    (hg : ∀ x ∈ history, x.Genuine host) :
    ∃ index, m.builtins.FirstClaim name index (.object name) := by
  cases h with
  | before index hfirst => exact ⟨index, hfirst.grows hp.start.builtins⟩
  | during x hx ho => exact ⟨_, (ho.firstClaim (hg x hx)).grows (hp.moments x hx).builtins⟩

/-- What is kept for a name of the builder is the builder. -/
theorem Explains.builder (h : Explains host history m.builtins) (hp : Precedes start history m)
    (hg : ∀ x ∈ history, x.Genuine host) {index : Nat}
    (hfirst : m.builtins.FirstClaim name index (.object name)) {value : Value}
    (hc : m.builtins.cached? name = some value) :
    ∃ serial, value = .function ⟨serial, name⟩ ∧ m.bodies[serial]? = some .builder := by
  obtain ⟨recorded, resolver, hrecorded, hresolver, x, hx, hprovides, ⟨index', hown⟩, -⟩ :=
    h.kept.values name value hc
  obtain ⟨hfind, hget⟩ := Environment.firstClaim_iff.mp hfirst
  obtain rfl : recorded = index :=
    Option.some.inj ((h.kept.first name recorded hrecorded).symm.trans hfind)
  obtain rfl : resolver = .object name := Option.some.inj (hresolver.symm.trans hget)
  obtain ⟨hvalue, hbodies⟩ := hprovides.made (hg x hx) hown
  refine ⟨_, hvalue, (hp.moments x hx).body ?_⟩
  rw [hbodies, Array.getElem?_push_size]

end History

-- ---------------------------------------------------------------------------
-- Calling it
-- ---------------------------------------------------------------------------

/-- The machine once the builder has been made for a name, unless it is kept already. -/
inductive Machine.Made (m : Machine γ σ) (name : String) : Machine γ σ → Prop where
  | already : (m.builtins.cached? name).isSome → Made m name m
  | now (index : Nat) (trace : Array Event) :
    m.builtins.cached? name = none → m.builtins.owners.get? name = none →
    m.builtins.owner? name = some (index, .object name) →
    Made m name { m with
      bodies := m.bodies.push .builder
      builtins := m.builtins.keep name index (.function ⟨m.bodies.size, name⟩)
      trace }

theorem Machine.Made.heap {m m' : Machine γ σ} {name : String} (h : m.Made name m') :
    m'.heap = m.heap := by
  cases h <;> rfl

theorem Machine.Made.settings {m m' : Machine γ σ} {name : String} (h : m.Made name m') :
    m'.settings = m.settings := by
  cases h <;> rfl

namespace Eval

/-- Looks a name up and calls it. -/
def callGlobal (host : Host γ σ) (fuel : Nat) (name : String) (arguments : Arguments) :
    Eval γ σ Value := do
  let callee ← resolve (runCode host fuel) name
  call host fuel callee arguments

/-- Calling the name is building under the settings. Beside that, at most the builder
is made for the name; nothing that is built depends on it. -/
def CallBuilds (host : Host γ σ) (settings : Settings) (name : String) (m : Machine γ σ) : Prop :=
  ∃ made, m.Made name made ∧ ∀ fuel arguments,
    callGlobal host fuel name arguments m = build settings arguments made ∧
    ∃ result heap trace trace',
      build settings arguments m = .ok (result, { m with heap, trace }) ∧
      build settings arguments made = .ok (result, { made with heap, trace := trace' })

theorem build_alike (settings : Settings) (arguments : Arguments) {m m' : Machine γ σ}
    (hh : m'.heap = m.heap) : ∃ result heap trace trace',
      build settings arguments m = .ok (result, { m with heap, trace }) ∧
      build settings arguments m' = .ok (result, { m' with heap, trace := trace' }) := by
  obtain ⟨trace, hr⟩ := run_build settings arguments m
  obtain ⟨trace', hr'⟩ := run_build settings arguments m'
  rw [hh] at hr'
  rw [hr, hr']
  cases m.heap.build settings arguments with
  | ok built => exact ⟨.ok (.template built.1), built.2, trace, trace', rfl, rfl⟩
  | error e =>
    refine ⟨.error e, m.heap, m.trace, m'.trace, rfl, ?_⟩
    rw [← hh]

/-- A name that resolves to the builder. -/
theorem callBuilds_of_resolve {host : Host γ σ} {settings : Settings} {name : String}
    {m made : Machine γ σ} {serial : Nat} (hmade : m.Made name made)
    (hr : ∀ fuel, resolve (runCode host fuel) name m =
      .ok (.ok (.function ⟨serial, name⟩), made))
    (hb : made.bodies[serial]? = some .builder) (hs : m.settings = settings) :
    CallBuilds host settings name m := by
  refine ⟨made, hmade, fun fuel arguments => ⟨?_, build_alike settings arguments hmade.heap⟩⟩
  have hcall : call host fuel (.function ⟨serial, name⟩) arguments made =
      build made.settings arguments made := by
    change invoke (runCode host fuel) ⟨serial, name⟩ arguments made = _
    rw [invoke, run_bind, run_machine]
    dsimp only
    rw [hb]
  rw [callGlobal, run_bind, hr fuel]
  dsimp only
  rw [hcall, hmade.settings, hs]

/-- The resolver of the builder makes a function and reads nothing. -/
theorem resolve_object (host : Host γ σ) (fuel : Nat) {name : String} {m : Machine γ σ}
    (hg : m.globals.get? name = none) (hc : m.builtins.cached? name = none) {index : Nat}
    (ho : m.builtins.owner? name = some (index, .object name)) :
    resolve (runCode host fuel) name m = .ok (.ok (.function ⟨m.bodies.size, name⟩),
      { m with bodies := m.bodies.push .builder }.keeping name index
        (.function ⟨m.bodies.size, name⟩)) := by
  rw [resolve_noted, resolveNoted_of_owner hg hc ho]
  rfl

theorem callBuilds_of_offered {host : Host γ σ} {start m : Machine γ σ} {history : History γ σ}
    {name : String} (he : history.Explains host m.builtins)
    (hp : History.Precedes start history m) (hg : ∀ x ∈ history, x.Genuine host)
    (ho : History.Offered start history name) (hglobal : m.globals.get? name = none) :
    CallBuilds host (History.settings start.settings history) name m := by
  obtain ⟨index, hfirst⟩ := ho.firstClaim hp hg
  cases hc : m.builtins.cached? name with
  | some value =>
    obtain ⟨serial, rfl, hb⟩ := he.builder hp hg hfirst hc
    have hkept : (m.builtins.cached? name).isSome := by rw [hc]; rfl
    refine callBuilds_of_resolve (.already hkept) (fun fuel => ?_) hb hp.settings
    rw [resolve, run_bind, run_machine]
    dsimp only
    rw [hglobal, hc]
    rfl
  | none =>
    have howner := he.kept.owner?_iff.mpr (Environment.firstClaim_iff.mp hfirst)
    have hunrecorded : m.builtins.owners.get? name = none := by
      simpa [hc] using he.kept.names name
    have hresolve (fuel : Nat) := resolve_object host fuel hglobal hc howner
    rw [Machine.keeping, Machine.report_eq] at hresolve
    exact callBuilds_of_resolve (.now index _ hc hunrecorded howner) hresolve
      Array.getElem?_push_size hp.settings

end Eval

/-- In a machine that comes after a history, calling a name under which the builder
was offered builds, unless the name is bound globally. -/
def History.OfferedBuild (host : Host γ σ) (start : Machine γ σ) (history : History γ σ)
    (m : Machine γ σ) : Prop :=
  ∀ name, Offered start history name → m.globals.get? name = none →
    Eval.CallBuilds host (settings start.settings history) name m

/-- The builtin of the builder builds under the settings put in force last: at the end
of every run in which nobody keeps a value directly, and whenever an operation of the
run begins or ends. -/
theorem builtin_builds (host : Host γ σ) {fuel : Nat} {program : Program γ σ α} {m m' : Machine γ σ}
    {resolvers : List (Resolver γ)} (hm : m.builtins = { resolvers }) {result : Except Error α}
    (hr : Eval.run host fuel program m = .ok (result, m')) :
    ∃ history, Eval.watch host fuel program m = .ok (result, m', history) ∧
      (History.KeepFree history → History.OfferedBuild host m history m' ∧
        history.Throughout (History.OfferedBuild host m)) := by
  obtain ⟨history, hw⟩ := Eval.exists_history hr
  refine ⟨history, hw, fun hk => ?_⟩
  obtain ⟨hnow, hmoments⟩ := Eval.watch_traced hw
  obtain ⟨last, hlast, rfl, rfl⟩ := Eval.watch_wellKept hm hw hk
  have hbuilds {n : Nat} {x : Machine γ σ}
      (he : History.Explains host (last.history.take n) x.builtins)
      (hp : History.Precedes m (last.history.take n) x) :
      History.OfferedBuild host m (last.history.take n) x :=
    fun name => Eval.callBuilds_of_offered he hp fun y hy =>
      hlast.genuine y (List.mem_of_mem_take hy)
  constructor
  · exact fun name => Eval.callBuilds_of_offered hlast.builtins hnow hlast.genuine
  · intro k x hx
    obtain ⟨hbegan, hbefore, hafter⟩ := hmoments k x hx
    have he := hlast.moments k x hx
    exact ⟨hbegan, hbuilds he.before hbefore, hbuilds he.after hafter⟩

-- A workshop where the builder is offered, used and offered again under another name,
-- while somebody else claims the first name too late.

namespace Workshop

def program : Program Unit Unit Unit := do
  Program.run (.offerBuilder { builtinName := "object", maxDelegateDepth := 8 })
  let _ ← Program.run (.resolve "object")
  Program.run (.register ⟨"late", (· == "object"), .host ()⟩)
  Program.run (.offerBuilder { builtinName := "make", maxDelegateDepth := 2 })

def last : Machine Unit Unit where
  host := ()
  bodies := #[.builder]
  builtins :=
    ((((Environment.register {} (.object "object")).keep "object" 0
      (.function ⟨0, "object"⟩)).register ⟨"late", (· == "object"), .host ()⟩).register
        (.object "make"))
  settings := { builtinName := "make", maxDelegateDepth := 2 }

theorem run_program : Eval.run Machine.idle 1 program (.bare ()) = .ok (.ok (), last) := rfl

end Workshop

theorem builtin_builds_workshop :
    Eval.CallBuilds Machine.idle { builtinName := "make", maxDelegateDepth := 2 } "object"
      Workshop.last ∧
    Eval.CallBuilds Machine.idle { builtinName := "make", maxDelegateDepth := 2 } "make"
      Workshop.last := by
  obtain ⟨history, hw, hbuilds⟩ := builtin_builds Machine.idle rfl Workshop.run_program
  have hp : (Eval.watch Machine.idle 1 Workshop.program (.bare ())).toOption.all
      (fun (_, _, history) => decide (History.KeepFree history ∧
        (∃ x ∈ history, x.Offers "object") ∧ (∃ x ∈ history, x.Offers "make") ∧
        History.settings {} history = { builtinName := "make", maxDelegateDepth := 2 })) =
      true := by decide +kernel
  rw [hw] at hp
  obtain ⟨hfree, ⟨x, hx, hobject⟩, ⟨y, hy, hmake⟩, hsettings⟩ := of_decide_eq_true hp
  obtain ⟨hnow, -⟩ := hbuilds hfree
  constructor
  · exact hsettings ▸ hnow "object" (.during x hx hobject) rfl
  · exact hsettings ▸ hnow "make" (.during y hy hmake) rfl

end Delegation

import Delegation.Proofs.Operations

/-!
# Resolving a name in a context and apart from it

The same protocol is followed twice: on the builtins of the machine, which the
resolver may use while it is at work, and on an environment that stands alone. How
each comes to its answer is said once, with the resolvers it asks on the way
(`resolveNoted_eq`, `resolveInNoted_eq`). If the owner of a name spares the builtins,
the two do the same (`resolutions_agree`).
-/

namespace Delegation

variable {γ σ τ α : Type}

-- ---------------------------------------------------------------------------
-- Machines with other builtins
-- ---------------------------------------------------------------------------

def Machine.withBuiltins (m : Machine γ σ) (env : Environment γ) : Machine γ σ :=
  { m with builtins := env }

theorem Machine.report_withBuiltins (m : Machine γ σ) (env : Environment γ)
    (events : Unit → List Event) :
    (m.withBuiltins env).report events = (m.report events).withBuiltins env := by
  unfold Machine.report
  cases hl : m.listening <;> simp [Machine.withBuiltins, hl]

/-- What is reported when a value is kept. -/
def Environment.keepEvents (env : Environment γ) (name : String) (index : Nat) : List Event :=
  env.resolvers[index]?.toList.map fun resolver => .resolved name resolver.name

/-- The machine after a value was kept. -/
def Machine.keeping (m : Machine γ σ) (name : String) (index : Nat) (value : Value) :
    Machine γ σ :=
  (m.report fun _ => m.builtins.keepEvents name index).withBuiltins
    (m.builtins.keep name index value)

theorem Machine.host_keeping (m : Machine γ σ) (name : String) (index : Nat) (value : Value) :
    (m.keeping name index value).host = m.host := by
  rw [keeping, report_eq]
  rfl

theorem Machine.keeping_withHost (m : Machine γ σ) (t : τ) (name : String) (index : Nat)
    (value : Value) :
    (m.withHost t).keeping name index value = (m.keeping name index value).withHost t := by
  rw [keeping, report_withHost]
  rfl

/-- The steps of a resolution: a kept value, else whatever the owner is asked for. -/
def Environment.consult (env : Environment γ) (name : String) (known : Value → α) (unknown : α)
    (ask : Nat → Resolver γ → α) : α :=
  match env.cached? name with
  | some value => known value
  | none =>
    match env.owner? name with
    | none => unknown
    | some (index, resolver) => ask index resolver

namespace Eval

theorem keepIn_eq (env : Environment γ) (name : String) (index : Nat) (value : Value)
    (m : Machine γ σ) : keepIn env name index value m =
      .ok (.ok (env.keep name index value), m.report fun _ => env.keepEvents name index) := by
  unfold keepIn Environment.keepEvents
  cases env.resolvers[index]? with
  | none =>
    rw [Option.toList_none, List.map_nil, m.report_nil]
    rfl
  | some resolver => rfl

theorem keep_eq (name : String) (index : Nat) (value : Value) (m : Machine γ σ) :
    keep name index value m = .ok (.ok (), m.keeping name index value) := by
  simp only [keep, run_bind, run_machine, keepIn_eq, run_modifyMachine]
  rfl

-- ---------------------------------------------------------------------------
-- Which resolvers are asked
-- ---------------------------------------------------------------------------

/-- `resolve`, with the way to ask the resolver of an index left open. -/
def resolveBy (ask : Nat → Resolver γ → Eval γ σ Value) (name : String) : Eval γ σ Value := do
  let m ← machine
  match m.globals.get? name with
  | some value => return value
  | none =>
    match m.builtins.cached? name with
    | some value => return value
    | none =>
      match m.builtins.owner? name with
      | none => outcome (.error (.undefinedName name))
      | some (index, resolver) =>
        let value ← ask index resolver
        keep name index value
        return value

/-- `resolveIn`, with the way to ask the resolver of an index left open. -/
def resolveInBy (ask : Nat → Resolver γ → Eval γ σ Value) (env : Environment γ) (name : String) :
    Eval γ σ (Value × Environment γ) := do
  match env.cached? name with
  | some value => return (value, env)
  | none =>
    match env.owner? name with
    | none => outcome (.error (.undefinedName name))
    | some (index, resolver) =>
      let value ← ask index resolver
      return (value, ← keepIn env name index value)

theorem resolve_eq (runCode : γ → Arguments → Eval γ σ Value) (name : String) :
    resolve runCode name = resolveBy (fun _ resolver => provide runCode resolver name) name := rfl

theorem resolveIn_eq (runCode : γ → Arguments → Eval γ σ Value) (env : Environment γ)
    (name : String) : resolveIn runCode env name =
      resolveInBy (fun _ resolver => provide runCode resolver name) env name := rfl

/-- Asks a resolver and notes its index beside the state of the host. -/
def noting (ask : Nat → Resolver γ → Eval γ σ Value) (index : Nat) (resolver : Resolver γ) :
    Eval γ (σ × List Nat) Value := fun m =>
  (ask index resolver (m.withHost m.host.1)).map fun (result, m') =>
    (result, m'.withHost (m'.host, m.host.2 ++ [index]))

/-- What an evaluation does that notes beside the state of the host whom it asks: its
outcome, the machine it leaves, and the indices of those it asked. -/
def noted (x : Eval γ (σ × List Nat) α) (m : Machine γ σ) :
    Except Halt (Except Error α × Machine γ σ × List Nat) :=
  (x (m.withHost (m.host, []))).map fun (result, m') =>
    (result, m'.withHost m'.host.1, m'.host.2)

/-- A resolution in a machine, with the resolvers that it asks. -/
def resolveNoted (host : Host γ σ) (fuel : Nat) (name : String) (m : Machine γ σ) :
    Except Halt (Except Error Value × Machine γ σ × List Nat) :=
  noted (resolveBy (noting fun _ resolver => provide (runCode host fuel) resolver name) name) m

/-- A resolution in an environment that stands alone, with the resolvers that it
asks. -/
def resolveInNoted (host : Host γ σ) (fuel : Nat) (env : Environment γ) (name : String)
    (m : Machine γ σ) :
    Except Halt (Except Error (Value × Environment γ) × Machine γ σ × List Nat) :=
  noted (resolveInBy (noting fun _ resolver => provide (runCode host fuel) resolver name) env name)
    m

/-- What asking a resolver leads to: its error is passed on, its value is handed to
what follows. -/
def onward (index : Nat) (next : Value → Machine γ σ → α × Machine γ σ) :
    Except Error Value × Machine γ σ → Except Error α × Machine γ σ × List Nat
  | (.error e, m) => (.error e, m, [index])
  | (.ok value, m) => (.ok (next value m).1, (next value m).2, [index])

theorem asked_onward {index : Nat} {next : Value → Machine γ σ → α × Machine γ σ}
    {x : Except Halt (Except Error Value × Machine γ σ)} {result : Except Error α}
    {m : Machine γ σ} {asked : List Nat} (h : x.map (onward index next) = .ok (result, m, asked)) :
    asked = [index] := by
  cases x with
  | error reason => cases h
  | ok left =>
    obtain ⟨outcome, m'⟩ := left
    cases outcome <;> (cases h; rfl)

/-- A resolver is asked for a name, and what it provides is kept in the machine. -/
def askNoted (host : Host γ σ) (fuel : Nat) (name : String) (index : Nat) (resolver : Resolver γ)
    (m : Machine γ σ) : Except Halt (Except Error Value × Machine γ σ × List Nat) :=
  (provide (runCode host fuel) resolver name m).map
    (onward index fun value m => (value, m.keeping name index value))

/-- A resolver is asked for a name, and what it provides is kept in an environment that
stands alone. -/
def askInNoted (host : Host γ σ) (fuel : Nat) (env : Environment γ) (name : String) (index : Nat)
    (resolver : Resolver γ) (m : Machine γ σ) :
    Except Halt (Except Error (Value × Environment γ) × Machine γ σ × List Nat) :=
  (provide (runCode host fuel) resolver name m).map (onward index fun value m =>
    ((value, env.keep name index value), m.report fun _ => env.keepEvents name index))

/-- A resolver is asked once, and what follows asks nobody. -/
theorem noted_ask (ask : Nat → Resolver γ → Eval γ σ Value) (index : Nat) (resolver : Resolver γ)
    {rest : Value → Eval γ (σ × List Nat) α} {next : Value → Machine γ σ → α × Machine γ σ}
    (hrest : ∀ value (m : Machine γ σ) (t : σ × List Nat), rest value (m.withHost t) =
      .ok (.ok (next value m).1, (next value m).2.withHost t))
    (hnext : ∀ value m, (next value m).2.host = m.host) (m : Machine γ σ) :
    noted (noting ask index resolver >>= rest) m =
      (ask index resolver m).map (onward index next) := by
  have hm : noting ask index resolver (m.withHost (m.host, [])) =
      (ask index resolver m).map fun (result, m') => (result, m'.withHost (m'.host, [index])) := rfl
  rw [noted, run_bind, hm]
  cases ask index resolver m with
  | error reason => rfl
  | ok left =>
    obtain ⟨result, m'⟩ := left
    cases result with
    | error e => rfl
    | ok value =>
      have hhost : (next value m').2.withHost m'.host = (next value m').2 := by
        rw [← hnext value m']
        rfl
      dsimp only [Except.map]
      rw [hrest]
      exact congrArg (fun last => Except.ok (Except.ok (next value m').1, last, [index])) hhost

theorem resolveNoted_eq (host : Host γ σ) (fuel : Nat) (name : String) (m : Machine γ σ) :
    resolveNoted host fuel name m =
      match m.globals.get? name with
      | some value => .ok (.ok value, m, [])
      | none => m.builtins.consult name (fun value => .ok (.ok value, m, []))
          (.ok (.error (.undefinedName name), m, [])) fun index resolver =>
            askNoted host fuel name index resolver m := by
  unfold resolveNoted noted resolveBy Environment.consult
  rw [run_bind, run_machine]
  dsimp only [Machine.globals_withHost, Machine.builtins_withHost]
  cases m.globals.get? name with
  | some value => rfl
  | none =>
    cases m.builtins.cached? name with
    | some value => rfl
    | none =>
      cases m.builtins.owner? name with
      | none => rfl
      | some owner =>
        obtain ⟨index, resolver⟩ := owner
        refine noted_ask _ index resolver (fun value m t => ?_) (fun value m => ?_) m
        · simp only [run_bind, keep_eq, run_pure, Machine.keeping_withHost]
        · rw [Machine.host_keeping]

theorem resolveInNoted_eq (host : Host γ σ) (fuel : Nat) (env : Environment γ) (name : String)
    (m : Machine γ σ) :
    resolveInNoted host fuel env name m =
      env.consult name (fun value => .ok (.ok (value, env), m, []))
        (.ok (.error (.undefinedName name), m, [])) fun index resolver =>
          askInNoted host fuel env name index resolver m := by
  unfold resolveInNoted resolveInBy Environment.consult
  cases env.cached? name with
  | some value => rfl
  | none =>
    cases env.owner? name with
    | none => rfl
    | some owner =>
      obtain ⟨index, resolver⟩ := owner
      refine noted_ask _ index resolver (fun value m t => ?_) (fun value m => ?_) m
      · simp only [run_bind, keepIn_eq, run_pure, Machine.report_withHost]
      · rw [Machine.report_eq]

/-- What was noted is left out again. -/
def unnoted (x : Except Halt (Except Error α × Machine γ σ × List Nat)) :
    Except Halt (Except Error α × Machine γ σ) :=
  x.map fun (result, m, _) => (result, m)

theorem unnoted_ask {next : Value → Eval γ σ α} (host : Host γ σ) (fuel : Nat) (name : String)
    (index : Nat) (resolver : Resolver γ) {kept : Value → Machine γ σ → α × Machine γ σ}
    (hnext : ∀ value m, next value m = .ok (.ok (kept value m).1, (kept value m).2))
    (m : Machine γ σ) : (provide (runCode host fuel) resolver name >>= next) m =
      unnoted ((provide (runCode host fuel) resolver name m).map (onward index kept)) := by
  rw [run_bind]
  cases provide (runCode host fuel) resolver name m with
  | error reason => rfl
  | ok left =>
    obtain ⟨result, m'⟩ := left
    cases result with
    | error e => rfl
    | ok value => exact hnext value m'

theorem resolve_noted (host : Host γ σ) (fuel : Nat) (name : String) (m : Machine γ σ) :
    resolve (runCode host fuel) name m = unnoted (resolveNoted host fuel name m) := by
  rw [resolveNoted_eq, resolve_eq, resolveBy, run_bind, run_machine]
  dsimp only [Environment.consult]
  cases m.globals.get? name with
  | some value => rfl
  | none =>
    cases m.builtins.cached? name with
    | some value => rfl
    | none =>
      cases m.builtins.owner? name with
      | none => rfl
      | some owner =>
        refine unnoted_ask host fuel name owner.1 owner.2 (fun value m => ?_) m
        rw [run_bind, keep_eq]
        rfl

theorem resolveIn_noted (host : Host γ σ) (fuel : Nat) (env : Environment γ) (name : String)
    (m : Machine γ σ) :
    resolveIn (runCode host fuel) env name m = unnoted (resolveInNoted host fuel env name m) := by
  rw [resolveInNoted_eq, resolveIn_eq, resolveInBy, Environment.consult]
  cases env.cached? name with
  | some value => rfl
  | none =>
    cases env.owner? name with
    | none => rfl
    | some owner =>
      refine unnoted_ask host fuel name owner.1 owner.2 (fun value m => ?_) m
      rw [run_bind, keepIn_eq]
      rfl

-- ---------------------------------------------------------------------------
-- Resolvers that spare the builtins
-- ---------------------------------------------------------------------------

/-- The evaluation neither reads nor changes the builtins of the machine. -/
def SparesBuiltins (x : Eval γ σ α) (m : Machine γ σ) : Prop :=
  ∀ env, x (m.withBuiltins env) = (x m).map fun (result, m') => (result, m'.withBuiltins env)

theorem SparesBuiltins.builtins {x : Eval γ σ α} {m m' : Machine γ σ} (h : SparesBuiltins x m)
    {result : Except Error α} (hr : x m = .ok (result, m')) : m'.builtins = m.builtins := by
  have hm : x m = (x m).map fun (result, m') => (result, m'.withBuiltins m.builtins) :=
    h m.builtins
  rw [hr] at hm
  have hleft : m' = m'.withBuiltins m.builtins := (Prod.mk.inj (Except.ok.inj hm)).2
  rw [hleft]
  rfl

/-- The resolver of the template builder spares the builtins. -/
theorem sparesBuiltins_builder (runCode : γ → Arguments → Eval γ σ Value) {resolver : Resolver γ}
    (hb : resolver.body = .builder) (name : String) (m : Machine γ σ) :
    SparesBuiltins (provide runCode resolver name) m := by
  intro env
  rw [provide, hb]
  rfl

/-- In a machine and in an environment equal to its builtins, a resolver that spares
the builtins does the same, whatever builtins the second machine has. -/
theorem askInNoted_spares {host : Host γ σ} {fuel : Nat} {name : String} {index : Nat}
    {resolver : Resolver γ} {m : Machine γ σ}
    (h : SparesBuiltins (provide (runCode host fuel) resolver name) m) (env : Environment γ) :
    askInNoted host fuel m.builtins name index resolver (m.withBuiltins env) =
      (askNoted host fuel name index resolver m).map fun (result, m', asked) =>
        (result.map (·, m'.builtins), m'.withBuiltins env, asked) := by
  unfold askInNoted askNoted
  rw [h env]
  cases hp : provide (runCode host fuel) resolver name m with
  | error reason => rfl
  | ok left =>
    obtain ⟨result, m'⟩ := left
    cases result with
    | error e => rfl
    | ok value =>
      have hb : m'.builtins = m.builtins := h.builtins hp
      have hm : (m'.withBuiltins env).report (fun _ => m.builtins.keepEvents name index) =
          (m'.keeping name index value).withBuiltins env := by
        rw [Machine.report_withBuiltins, Machine.keeping, hb]
        rfl
      have hkept : (m'.keeping name index value).builtins = m.builtins.keep name index value :=
        congrArg (·.keep name index value) hb
      simp only [Except.map, onward, hm, hkept]

end Eval

-- ---------------------------------------------------------------------------
-- Environments
-- ---------------------------------------------------------------------------

namespace Environment

/-- An environment as it can come about: resolvers were registered and values kept, by
resolutions or directly. -/
inductive Formed : Environment γ → Prop where
  | unused : Formed {}
  | register {env : Environment γ} (resolver : Resolver γ) :
    Formed env → Formed (env.register resolver)
  | keep {env : Environment γ} (name : String) (index : Nat) (value : Value) :
    Formed env → Formed (env.keep name index value)

variable {env : Environment γ}

theorem Formed.altered {env' : Environment γ} {added : Option (Resolver γ)} (h : env.Formed)
    (ha : env.Altered added env') : env'.Formed := by
  cases ha with
  | same => exact h
  | register resolver => exact h.register resolver
  | keep name index value => exact h.keep name index value

theorem Formed.names (h : env.Formed) (name : String) :
    (env.cached? name).isSome = (env.owners.get? name).isSome := by
  induction h with
  | unused => rfl
  | register resolver _ ih => exact ih
  | @keep env kept index value _ ih =>
    by_cases hn : name = kept
    · rw [hn, cached?_keep_self, owners_keep_self]
      rfl
    · rw [cached?_keep_of_ne env hn, owners_keep_of_ne env hn, ih]

/-- A name that is not cached has an owner if anybody claims it: its owner was not
recorded, so the index found is that of a resolver. -/
theorem Formed.owner?_none_iff (h : env.Formed) {name : String} (hc : env.cached? name = none) :
    env.owner? name = none ↔ env.hasName name = false := by
  have hrecorded : env.owners.get? name = none := by simpa [hc] using h.names name
  have hcontains : env.cache.contains name = false := congrArg Option.isSome hc
  have hindex : env.ownerIndex? name = env.resolvers.findIdx? (·.claims name) := by
    rw [ownerIndex?, hrecorded]
  rw [hasName, hcontains, Bool.false_or, owner?, hindex]
  cases hf : env.resolvers.findIdx? (·.claims name) with
  | none => simp
  | some index =>
    obtain ⟨hi, -⟩ := List.findIdx?_eq_some_iff_getElem.mp hf
    simp [hi]

theorem hasName_of_cached {name : String} {value : Value} (hc : env.cached? name = some value) :
    env.hasName name = true := by
  have hcontains : env.cache.contains name = true := congrArg Option.isSome hc
  rw [hasName, hcontains, Bool.true_or]

section
variable {name : String} {known : Value → α} {unknown : α} {ask : Nat → Resolver γ → α}

theorem consult_of_cached {value : Value} (hc : env.cached? name = some value) :
    env.consult name known unknown ask = known value := by
  rw [consult, hc]

theorem consult_of_owner (hc : env.cached? name = none) {index : Nat} {resolver : Resolver γ}
    (ho : env.owner? name = some (index, resolver)) :
    env.consult name known unknown ask = ask index resolver := by
  rw [consult, hc, ho]

theorem Formed.consult_eq_iff (h : env.Formed) {last : α} (hknown : ∀ value, known value ≠ last)
    (hask : ∀ index resolver, ask index resolver ≠ last) :
    env.consult name known unknown ask = last ↔ unknown = last ∧ env.hasName name = false := by
  cases hc : env.cached? name with
  | some value => simp [consult, hc, hknown value, hasName_of_cached hc]
  | none =>
    rw [← h.owner?_none_iff hc]
    cases ho : env.owner? name with
    | none => simp [consult, hc, ho]
    | some owner => simp [consult, hc, ho, hask owner.1 owner.2]

end

end Environment

-- Whatever user code does, the builtins of a machine stay formed.

theorem records_formed (host : Host γ σ) :
    Records host fun m m' => m.builtins.Formed → m'.builtins.Formed where
  refl _ := id
  trans h h' := h' ∘ h
  loose _ _ _ _ _ := id
  note hcode operation m outcome m' hr hq _ hm := by
    obtain ⟨middle, hmiddle, ha⟩ := Eval.operation_alters
      (R := fun m m' => m.builtins.Formed → m'.builtins.Formed) (fun _ => id) (fun _ _ => id) hcode
      hr hq
    exact (hmiddle hm).altered ha.builtins

theorem Eval.run_formed {host : Host γ σ} {fuel : Nat} {program : Program γ σ α}
    {m m' : Machine γ σ} {result : Except Error α} (hm : m.builtins.Formed)
    (hr : run host fuel program m = .ok (result, m')) : m'.builtins.Formed := by
  obtain ⟨history, hw⟩ := exists_history hr
  obtain ⟨last, hlast, rfl, -⟩ := watch_related (records_formed host) hw
  exact hlast hm

-- ---------------------------------------------------------------------------
-- The two resolutions
-- ---------------------------------------------------------------------------

namespace Eval

/-- The owner of a name, asked for it, neither reads nor changes the builtins. -/
def OwnerSpares (host : Host γ σ) (fuel : Nat) (name : String) (m : Machine γ σ) : Prop :=
  ∀ index resolver, m.builtins.owner? name = some (index, resolver) →
    SparesBuiltins (provide (runCode host fuel) resolver name) m

/-- The owner of a name has failed. The error is passed on, nothing is kept, and the
next resolution asks the owner again, unless the owner itself has bound the name. -/
structure LeftOpen (host : Host γ σ) (fuel : Nat) (name : String) (index : Nat)
    (resolver : Resolver γ) (m : Machine γ σ) (e : Error) (m' : Machine γ σ) : Prop where
  passedOn : resolveNoted host fuel name m = .ok (.error e, m', [index])
  passedOnIn : resolveInNoted host fuel m.builtins name m = .ok (.error e, m', [index])
  nothingKept : OwnerSpares host fuel name m → m'.builtins = m.builtins
  askedAgain : m'.builtins = m.builtins → m'.globals.get? name = none → ∀ fuel,
    resolveNoted host fuel name m' = askNoted host fuel name index resolver m'
  askedAgainIn : ∀ fuel n,
    resolveInNoted host fuel m.builtins name n =
      askInNoted host fuel m.builtins name index resolver n

/-- The resolution of a name in a machine, and in an environment equal to its builtins
beside a machine with any others. -/
structure ResolvedAlike (host : Host γ σ) (fuel : Nat) (name : String) (m : Machine γ σ) :
    Prop where
  same : OwnerSpares host fuel name m → ∀ env,
    resolveInNoted host fuel m.builtins name (m.withBuiltins env) =
      (resolveNoted host fuel name m).map fun (result, m', asked) =>
        (result.map (·, m'.builtins), m'.withBuiltins env, asked)
  cached : ∀ value, m.builtins.cached? name = some value →
    resolveNoted host fuel name m = .ok (.ok value, m, []) ∧
    ∀ n, resolveInNoted host fuel m.builtins name n = .ok (.ok (value, m.builtins), n, [])
  failed : ∀ index resolver e m', m.builtins.cached? name = none →
    m.builtins.owner? name = some (index, resolver) →
    provide (runCode host fuel) resolver name m = .ok (.error e, m') →
    LeftOpen host fuel name index resolver m e m'
  undefined : ∀ e m', resolveNoted host fuel name m = .ok (.error e, m', []) ↔
    e = .undefinedName name ∧ m' = m ∧ m.defines name = false
  undefinedIn : ∀ n e n', resolveInNoted host fuel m.builtins name n = .ok (.error e, n', []) ↔
    e = .undefinedName name ∧ n' = n ∧ m.builtins.hasName name = false

section
variable {host : Host γ σ} {fuel : Nat} {name : String} {m m' : Machine γ σ}

theorem resolveNoted_of_owner (hg : m.globals.get? name = none)
    (hc : m.builtins.cached? name = none) {index : Nat} {resolver : Resolver γ}
    (ho : m.builtins.owner? name = some (index, resolver)) :
    resolveNoted host fuel name m = askNoted host fuel name index resolver m := by
  rw [resolveNoted_eq, hg]
  exact Environment.consult_of_owner hc ho

theorem resolveInNoted_of_owner {env : Environment γ} (hc : env.cached? name = none) {index : Nat}
    {resolver : Resolver γ} (ho : env.owner? name = some (index, resolver)) :
    resolveInNoted host fuel env name m = askInNoted host fuel env name index resolver m := by
  rw [resolveInNoted_eq]
  exact Environment.consult_of_owner hc ho

theorem leftOpen (hg : m.globals.get? name = none) (hc : m.builtins.cached? name = none)
    {index : Nat} {resolver : Resolver γ} (ho : m.builtins.owner? name = some (index, resolver))
    {e : Error} (hp : provide (runCode host fuel) resolver name m = .ok (.error e, m')) :
    LeftOpen host fuel name index resolver m e m' where
  passedOn := by
    rw [resolveNoted_of_owner hg hc ho, askNoted, hp]
    rfl
  passedOnIn := by
    rw [resolveInNoted_of_owner hc ho, askInNoted, hp]
    rfl
  nothingKept hs := (hs index resolver ho).builtins hp
  askedAgain hb hg' fuel := by
    rw [← hb] at hc ho
    exact resolveNoted_of_owner hg' hc ho
  askedAgainIn fuel n := resolveInNoted_of_owner hc ho

theorem resolveInNoted_same (hg : m.globals.get? name = none) (hs : OwnerSpares host fuel name m)
    (env : Environment γ) :
    resolveInNoted host fuel m.builtins name (m.withBuiltins env) =
      (resolveNoted host fuel name m).map fun (result, m', asked) =>
        (result.map (·, m'.builtins), m'.withBuiltins env, asked) := by
  rw [resolveInNoted_eq, resolveNoted_eq, hg]
  unfold Environment.consult
  cases hc : m.builtins.cached? name with
  | some value => rfl
  | none =>
    cases ho : m.builtins.owner? name with
    | none => rfl
    | some owner => exact askInNoted_spares (hs owner.1 owner.2 ho) env

/-- An error without anybody asked says that the name is nobody's. -/
theorem consult_undefined_iff {env : Environment γ} (hf : env.Formed) {known : Value → α}
    {ask : Nat → Resolver γ → Except Halt (Except Error α × Machine γ σ × List Nat)} {e : Error}
    (hask : ∀ index resolver, ask index resolver ≠ .ok (.error e, m', [])) :
    env.consult name (fun value => .ok (.ok (known value), m, []))
        (.ok (.error (.undefinedName name), m, [])) ask = .ok (.error e, m', []) ↔
      e = .undefinedName name ∧ m' = m ∧ env.hasName name = false := by
  refine (hf.consult_eq_iff (fun value => by simp) hask).trans ?_
  simp only [Except.ok.injEq, Prod.mk.injEq, Except.error.injEq, and_true, and_assoc]
  rw [eq_comm, eq_comm (a := m)]

theorem resolveInNoted_undefined_iff {env : Environment γ} (hf : env.Formed) {e : Error} :
    resolveInNoted host fuel env name m = .ok (.error e, m', []) ↔
      e = .undefinedName name ∧ m' = m ∧ env.hasName name = false := by
  rw [resolveInNoted_eq]
  exact consult_undefined_iff hf fun index resolver h => nomatch asked_onward h

theorem resolveNoted_undefined_iff (hg : m.globals.get? name = none) (hf : m.builtins.Formed)
    {e : Error} : resolveNoted host fuel name m = .ok (.error e, m', []) ↔
      e = .undefinedName name ∧ m' = m ∧ m.defines name = false := by
  have hcontains : m.globals.contains name = false := congrArg Option.isSome hg
  rw [resolveNoted_eq, hg, Machine.defines, hcontains, Bool.false_or]
  exact consult_undefined_iff hf fun index resolver h => nomatch asked_onward h

theorem resolvedAlike (host : Host γ σ) (fuel : Nat) (hg : m.globals.get? name = none)
    (hf : m.builtins.Formed) : ResolvedAlike host fuel name m where
  same := resolveInNoted_same hg
  cached value hc := by
    constructor
    · rw [resolveNoted_eq, hg]
      exact Environment.consult_of_cached hc
    · intro n
      rw [resolveInNoted_eq]
      exact Environment.consult_of_cached hc
  failed index resolver e m' hc ho hp := leftOpen hg hc ho hp
  undefined e m' := resolveNoted_undefined_iff hg hf
  undefinedIn n e n' := resolveInNoted_undefined_iff hf

end

/-- Resolving a name in a machine and in an environment equal to its builtins comes to
the same. A global value goes before, whatever the builtins are. -/
theorem resolutions_agree (host : Host γ σ) (fuel : Nat) (name : String) (m : Machine γ σ) :
    perform host fuel (.resolve name) m = unnoted (resolveNoted host fuel name m) ∧
    (∀ env n, perform host fuel (.resolveIn env name) n =
      unnoted (resolveInNoted host fuel env name n)) ∧
    (∀ value, m.globals.get? name = some value → ∀ env,
      (m.withBuiltins env).defines name = true ∧
      resolveNoted host fuel name (m.withBuiltins env) =
        .ok (.ok value, m.withBuiltins env, [])) ∧
    (m.globals.get? name = none → m.builtins.Formed → ResolvedAlike host fuel name m) := by
  refine ⟨resolve_noted host fuel name m, fun env n => resolveIn_noted host fuel env name n,
    fun value hg env => ⟨?_, ?_⟩, fun hg hf => resolvedAlike host fuel hg hf⟩
  · have hcontains : m.globals.contains name = true := congrArg Option.isSome hg
    change (m.globals.contains name || env.hasName name) = true
    rw [hcontains, Bool.true_or]
  · have hglobal : (m.withBuiltins env).globals.get? name = some value := hg
    rw [resolveNoted_eq, hglobal]

-- A resolver that fails the first time it is asked, with the very error of a name that
-- is nobody's.

namespace Spring

def host : Host Unit Bool where
  code _ _ := do
    let m : Machine Unit Bool ← Program.run .inspect
    if m.host then return .text "water"
    Program.run (.update fun _ => true)
    throw (.undefinedName "spring")

def resolver : Resolver Unit := ⟨"well", (· == "spring"), .host ()⟩

/-- Whether the resolver was asked before is the state of the host. -/
def start (asked : Bool) : Machine Unit Bool where
  host := asked
  builtins := Environment.register {} resolver

theorem ownerSpares (asked : Bool) : OwnerSpares host 1 "spring" (start asked) := by
  intro index owner ho
  obtain ⟨rfl, rfl⟩ : 0 = index ∧ resolver = owner := Prod.mk.inj (Option.some.inj ho)
  intro env
  cases asked <;> rfl

end Spring

theorem resolutions_agree_spring :
    (∀ env, resolveInNoted Spring.host 1 (Spring.start false).builtins "spring"
        ((Spring.start false).withBuiltins env) =
      .ok (.error (.undefinedName "spring"), (Spring.start true).withBuiltins env, [0])) ∧
    resolveNoted Spring.host 1 "spring" (Spring.start true) =
      .ok (.ok (.text "water"), (Spring.start true).keeping "spring" 0 (.text "water"), [0]) ∧
    (Spring.start true).defines "well" = false ∧
    resolveNoted Spring.host 1 "spring" ((Spring.start false).bindName "spring" .none) =
      .ok (.ok .none, (Spring.start false).bindName "spring" .none, []) := by
  have hformed : (Spring.start false).builtins.Formed := .register _ .unused
  obtain ⟨-, -, -, halike⟩ := resolutions_agree Spring.host 1 "spring" (Spring.start false)
  have hspring := halike rfl hformed
  have hopen := hspring.failed 0 Spring.resolver _ (Spring.start true) rfl rfl rfl
  obtain ⟨-, -, -, hwell⟩ := resolutions_agree Spring.host 1 "well" (Spring.start true)
  obtain ⟨-, -, hglobal, -⟩ := resolutions_agree Spring.host 1 "spring"
    ((Spring.start false).bindName "spring" .none)
  refine ⟨fun env => ?_, ?_, ?_, (hglobal _ rfl _).2⟩
  · rw [hspring.same (Spring.ownerSpares false) env, hopen.passedOn]
    rfl
  · rw [hopen.askedAgain (hopen.nothingKept (Spring.ownerSpares false)) rfl]
    rfl
  · exact (((hwell rfl hformed).undefined (.undefinedName "well") (Spring.start true)).mp rfl).2.2

end Eval

end Delegation

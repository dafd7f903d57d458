import Delegation.Proofs.EvalLaws

/-!
# Owners of builtins

The first resolver that claims a name owns it. That holds on while resolvers are
registered and values are kept, as long as a value is kept under the index of the
owner (`Kept.keep`). How a name is resolved is said once, case by case
(`resolve_resolution`).
-/

namespace Delegation

variable {γ σ : Type}

namespace Environment

/-- The second environment has come from the first: resolvers were registered and
values kept. -/
structure Grows (env env' : Environment γ) : Prop where
  resolvers : env.resolvers <+: env'.resolvers
  cached : ∀ name, (env.cached? name).isSome → (env'.cached? name).isSome

theorem Grows.refl (env : Environment γ) : env.Grows env := ⟨List.prefix_rfl, fun _ h => h⟩

theorem Grows.trans {env env' env'' : Environment γ} (h : env.Grows env') (h' : env'.Grows env'') :
    env.Grows env'' :=
  ⟨h.resolvers.trans h'.resolvers, fun name hn => h'.cached name (h.cached name hn)⟩

theorem grows_register (env : Environment γ) (resolver : Resolver γ) :
    env.Grows (env.register resolver) := ⟨List.prefix_append _ _, fun _ h => h⟩

@[simp] theorem cached?_keep_self (env : Environment γ) (name : String) (index : Nat)
    (value : Value) : (env.keep name index value).cached? name = some value :=
  env.cache.get?_insert_self name value

theorem cached?_keep_of_ne (env : Environment γ) {name other : String} (hn : other ≠ name)
    (index : Nat) (value : Value) : (env.keep name index value).cached? other = env.cached? other :=
  env.cache.get?_insert_of_ne hn value

@[simp] theorem owners_keep_self (env : Environment γ) (name : String) (index : Nat)
    (value : Value) : (env.keep name index value).owners.get? name = some index :=
  env.owners.get?_insert_self name index

theorem owners_keep_of_ne (env : Environment γ) {name other : String} (hn : other ≠ name)
    (index : Nat) (value : Value) :
    (env.keep name index value).owners.get? other = env.owners.get? other :=
  env.owners.get?_insert_of_ne hn index

theorem grows_keep (env : Environment γ) (name : String) (index : Nat) (value : Value) :
    env.Grows (env.keep name index value) where
  resolvers := List.prefix_rfl
  cached other ho := by
    by_cases hn : other = name
    · rw [hn, cached?_keep_self]
      rfl
    · rwa [cached?_keep_of_ne env hn]

/-- A claim on a name holds on in what grows from an environment. -/
theorem Grows.findIdx? {env env' : Environment γ} (h : env.Grows env') {name : String} {index : Nat}
    (hf : env.resolvers.findIdx? (·.claims name) = some index) :
    env'.resolvers.findIdx? (·.claims name) = some index := by
  obtain ⟨more, hmore⟩ := h.resolvers
  rw [← hmore, List.findIdx?_append, hf]
  rfl

theorem Grows.getElem? {env env' : Environment γ} (h : env.Grows env') {index : Nat}
    {resolver : Resolver γ} (hr : env.resolvers[index]? = some resolver) :
    env'.resolvers[index]? = some resolver := by
  obtain ⟨hi, hget⟩ := List.getElem?_eq_some_iff.mp hr
  rw [← hget]
  exact List.prefix_iff_getElem?.mp h.resolvers index hi

-- ---------------------------------------------------------------------------
-- What is kept of a name
-- ---------------------------------------------------------------------------

/-- A name has a kept value exactly when its owner is recorded. The recorded owner
is the first that claims the name, and it gave the value. -/
structure Kept (gave : String → Resolver γ → Value → Prop) (env : Environment γ) : Prop where
  names : ∀ name, (env.cached? name).isSome = (env.owners.get? name).isSome
  first : ∀ name index, env.owners.get? name = some index →
    env.resolvers.findIdx? (·.claims name) = some index
  values : ∀ name value, env.cached? name = some value → ∃ index resolver,
    env.owners.get? name = some index ∧ env.resolvers[index]? = some resolver ∧
      gave name resolver value

section
variable {gave gave' : String → Resolver γ → Value → Prop} {env : Environment γ}

theorem kept_unused (resolvers : List (Resolver γ)) : Kept gave { resolvers } where
  names _ := rfl
  first name index hi := by cases hi
  values name value hv := by cases hv

theorem Kept.mono (h : env.Kept gave)
    (hg : ∀ name resolver value, gave name resolver value → gave' name resolver value) :
    env.Kept gave' where
  names := h.names
  first := h.first
  values name value hv := by
    obtain ⟨index, resolver, hi, hr, hv⟩ := h.values name value hv
    exact ⟨index, resolver, hi, hr, hg _ _ _ hv⟩

theorem Kept.register (h : env.Kept gave) (resolver : Resolver γ) :
    (env.register resolver).Kept gave where
  names := h.names
  first name index hi := (env.grows_register resolver).findIdx? (h.first name index hi)
  values name value hv := by
    obtain ⟨index, owner, hi, hr, hv⟩ := h.values name value hv
    exact ⟨index, owner, hi, (env.grows_register resolver).getElem? hr, hv⟩

theorem Kept.ownerIndex? (h : env.Kept gave) (name : String) :
    env.ownerIndex? name = env.resolvers.findIdx? (·.claims name) := by
  unfold Environment.ownerIndex?
  cases hi : env.owners.get? name with
  | none => rfl
  | some index => exact (h.first name index hi).symm

/-- The owner of a name is the first resolver that claims it. -/
theorem Kept.owner?_iff (h : env.Kept gave) {name : String} {index : Nat} {resolver : Resolver γ} :
    env.owner? name = some (index, resolver) ↔
      env.resolvers.findIdx? (·.claims name) = some index ∧
        env.resolvers[index]? = some resolver := by
  rw [owner?, h.ownerIndex?]
  simp only [Option.bind_eq_bind, Option.bind_eq_some_iff, Option.pure_def, Option.some.injEq,
    Prod.mk.injEq]
  constructor
  · rintro ⟨_, hi, _, hr, rfl, rfl⟩
    exact ⟨hi, hr⟩
  · rintro ⟨hi, hr⟩
    exact ⟨index, hi, resolver, hr, rfl, rfl⟩

/-- A value kept under the index of the name's owner. -/
theorem Kept.keep (h : env.Kept gave) {name : String} {index : Nat} {resolver : Resolver γ}
    {value : Value} (hi : env.resolvers.findIdx? (·.claims name) = some index)
    (hr : env.resolvers[index]? = some resolver) (hg : gave name resolver value) :
    (env.keep name index value).Kept gave where
  names other := by
    by_cases hn : other = name
    · rw [hn, cached?_keep_self, owners_keep_self]
      rfl
    · rw [cached?_keep_of_ne env hn, owners_keep_of_ne env hn, h.names]
  first other recorded ho := by
    by_cases hn : other = name
    · subst hn
      rw [owners_keep_self] at ho
      cases ho
      exact hi
    · rw [owners_keep_of_ne env hn] at ho
      exact h.first other recorded ho
  values other held ho := by
    by_cases hn : other = name
    · subst hn
      rw [cached?_keep_self] at ho
      cases ho
      exact ⟨index, resolver, owners_keep_self .., hr, hg⟩
    · rw [cached?_keep_of_ne env hn] at ho
      obtain ⟨recorded, owner, hrecorded, hrest⟩ := h.values other held ho
      exact ⟨recorded, owner, (owners_keep_of_ne env hn ..).trans hrecorded, hrest⟩

end

-- ---------------------------------------------------------------------------
-- Ownership
-- ---------------------------------------------------------------------------

/-- The resolver at an index claims a name, and none before it does. -/
structure FirstClaim (env : Environment γ) (name : String) (index : Nat) (resolver : Resolver γ) :
    Prop where
  registered : env.resolvers[index]? = some resolver
  claims : resolver.claims name = true
  first : ∀ j < index, ∀ earlier, env.resolvers[j]? = some earlier → earlier.claims name = false

theorem firstClaim_iff {env : Environment γ} {name : String} {index : Nat}
    {resolver : Resolver γ} : env.FirstClaim name index resolver ↔
      env.resolvers.findIdx? (·.claims name) = some index ∧
        env.resolvers[index]? = some resolver := by
  rw [List.findIdx?_eq_some_iff_getElem]
  constructor
  · rintro ⟨hr, hc, hf⟩
    obtain ⟨hi, rfl⟩ := List.getElem?_eq_some_iff.mp hr
    refine ⟨⟨hi, hc, fun j hj => ?_⟩, hr⟩
    exact Bool.eq_false_iff.mp (hf j hj _ (List.getElem?_eq_getElem _))
  · rintro ⟨⟨hi, hc, hf⟩, hr⟩
    obtain rfl := Option.some.inj ((List.getElem?_eq_getElem hi).symm.trans hr)
    refine ⟨hr, hc, fun j hj earlier he => ?_⟩
    obtain ⟨hlt, rfl⟩ := List.getElem?_eq_some_iff.mp he
    exact Bool.eq_false_iff.mpr (hf j hj)

/-- The names with a value are those with a recorded owner, and no recorded index is
out of range. Each name belongs to the first resolver that claims it, which gave
the value kept for it, and stays with it. -/
structure Orderly (gave : String → Resolver γ → Value → Prop) (env : Environment γ) : Prop where
  names : ∀ name, env.cache.contains name = env.owners.contains name
  bounded : ∀ name index, env.owners.get? name = some index → index < env.resolvers.length
  owner : ∀ name index resolver,
    env.owner? name = some (index, resolver) ↔ env.FirstClaim name index resolver
  unowned : ∀ name, env.owner? name = none ↔
    ∀ resolver ∈ env.resolvers, resolver.claims name = false
  values : ∀ name value, env.cached? name = some value → ∃ index resolver,
    env.owner? name = some (index, resolver) ∧ gave name resolver value
  stable : ∀ name owner resolver, env.owner? name = some owner →
    (env.register resolver).owner? name = some owner

section
variable {gave : String → Resolver γ → Value → Prop} {env : Environment γ}

theorem Kept.owner?_none_iff (h : env.Kept gave) {name : String} : env.owner? name = none ↔
    ∀ resolver ∈ env.resolvers, resolver.claims name = false := by
  rw [← List.findIdx?_eq_none_iff]
  cases hf : env.resolvers.findIdx? (·.claims name) with
  | none => simp [owner?, h.ownerIndex?, hf]
  | some index =>
    obtain ⟨hi, -⟩ := List.findIdx?_eq_some_iff_getElem.mp hf
    have ho := h.owner?_iff.mpr ⟨hf, List.getElem?_eq_getElem hi⟩
    simp [ho]

theorem Kept.owner?_grows {gave' : String → Resolver γ → Value → Prop} {env' : Environment γ}
    (h : env.Kept gave) (h' : env'.Kept gave') (hg : env.Grows env') {name : String}
    {owner : Nat × Resolver γ} (ho : env.owner? name = some owner) :
    env'.owner? name = some owner := by
  obtain ⟨hf, hr⟩ := h.owner?_iff.mp ho
  exact h'.owner?_iff.mpr ⟨hg.findIdx? hf, hg.getElem? hr⟩

theorem Kept.orderly (h : env.Kept gave) : env.Orderly gave where
  names := h.names
  bounded name index hi := by
    obtain ⟨hlt, -⟩ := List.findIdx?_eq_some_iff_getElem.mp (h.first name index hi)
    exact hlt
  owner name index resolver := h.owner?_iff.trans firstClaim_iff.symm
  unowned name := h.owner?_none_iff
  values name value hv := by
    obtain ⟨index, resolver, hi, hr, hg⟩ := h.values name value hv
    exact ⟨index, resolver, h.owner?_iff.mpr ⟨h.first name index hi, hr⟩, hg⟩
  stable name owner resolver ho :=
    h.owner?_grows (h.register resolver) (env.grows_register resolver) ho

end

end Environment

-- ---------------------------------------------------------------------------
-- Resolution
-- ---------------------------------------------------------------------------

namespace Eval

/-- The ways in which the resolution of a name ends. -/
inductive Resolution (runCode : γ → Arguments → Eval γ σ Value) (name : String)
    (m : Machine γ σ) : Except Error Value → Machine γ σ → Prop where
  | global {value : Value} :
    m.globals.get? name = some value → Resolution runCode name m (.ok value) m
  | cached {value : Value} :
    m.globals.get? name = none → m.builtins.cached? name = some value →
    Resolution runCode name m (.ok value) m
  | undefined :
    m.globals.get? name = none → m.builtins.cached? name = none → m.builtins.owner? name = none →
    Resolution runCode name m (.error (.undefinedName name)) m
  | failed {index : Nat} {resolver : Resolver γ} {e : Error} {after : Machine γ σ} :
    m.globals.get? name = none → m.builtins.cached? name = none →
    m.builtins.owner? name = some (index, resolver) →
    provide runCode resolver name m = .ok (.error e, after) →
    Resolution runCode name m (.error e) after
  | provided {index : Nat} {resolver : Resolver γ} {value : Value} {after : Machine γ σ}
      (trace : Array Event) :
    m.globals.get? name = none → m.builtins.cached? name = none →
    m.builtins.owner? name = some (index, resolver) →
    provide runCode resolver name m = .ok (.ok value, after) →
    Resolution runCode name m (.ok value)
      { after with builtins := after.builtins.keep name index value, trace }

theorem resolve_resolution {runCode : γ → Arguments → Eval γ σ Value} {name : String}
    {m m' : Machine γ σ} {result : Except Error Value}
    (hr : resolve runCode name m = .ok (result, m')) : Resolution runCode name m result m' := by
  unfold resolve at hr
  rw [run_bind, run_machine] at hr
  dsimp only at hr
  cases hg : m.globals.get? name with
  | some value =>
    rw [hg] at hr
    cases hr
    exact .global hg
  | none =>
    rw [hg] at hr
    cases hc : m.builtins.cached? name with
    | some value =>
      rw [hc] at hr
      cases hr
      exact .cached hg hc
    | none =>
      rw [hc] at hr
      cases ho : m.builtins.owner? name with
      | none =>
        rw [ho] at hr
        cases hr
        exact .undefined hg hc ho
      | some owner =>
        obtain ⟨index, resolver⟩ := owner
        rw [ho] at hr
        dsimp only at hr
        rw [run_bind] at hr
        cases hp : provide runCode resolver name m with
        | error reason =>
          rw [hp] at hr
          cases hr
        | ok left =>
          obtain ⟨provided, after⟩ := left
          rw [hp] at hr
          cases provided with
          | error e =>
            cases hr
            exact .failed hg hc ho hp
          | ok value =>
            obtain ⟨trace, hk⟩ := run_keep name index value after
            dsimp only at hr
            rw [run_bind, hk] at hr
            cases hr
            exact .provided trace hg hc ho hp

/-- A name that an environment of its own resolves was kept already, or its owner
provides it. -/
theorem resolveIn_ok {runCode : γ → Arguments → Eval γ σ Value} {env env' : Environment γ}
    {name : String} {value : Value} {m m' : Machine γ σ}
    (hr : resolveIn runCode env name m = .ok (.ok (value, env'), m')) :
    env.cached? name = some value ∧ env' = env ∨
      ∃ index resolver after, env.cached? name = none ∧ env.owner? name = some (index, resolver) ∧
        provide runCode resolver name m = .ok (.ok value, after) ∧
        env' = env.keep name index value := by
  unfold resolveIn at hr
  cases hc : env.cached? name with
  | some held =>
    rw [hc] at hr
    cases hr
    exact .inl ⟨rfl, rfl⟩
  | none =>
    rw [hc] at hr
    cases ho : env.owner? name with
    | none =>
      rw [ho] at hr
      cases hr
    | some owner =>
      obtain ⟨index, resolver⟩ := owner
      rw [ho] at hr
      obtain ⟨given, after, hp, hr⟩ := bind_ok.mp hr
      obtain ⟨kept, _, hk, hr⟩ := bind_ok.mp hr
      obtain ⟨_, hrun⟩ := run_keepIn env name index given after
      cases hrun.symm.trans hk
      cases hr
      exact .inr ⟨index, resolver, after, rfl, rfl, hp, rfl⟩

theorem resolveIn_resolvers {runCode : γ → Arguments → Eval γ σ Value} {env env' : Environment γ}
    {name : String} {value : Value} {m m' : Machine γ σ}
    (hr : resolveIn runCode env name m = .ok (.ok (value, env'), m')) :
    env'.resolvers = env.resolvers := by
  rcases resolveIn_ok hr with ⟨-, rfl⟩ | ⟨_, _, _, _, _, _, rfl⟩ <;> rfl

end Eval

end Delegation

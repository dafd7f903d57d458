import Delegation.Proofs.Builtins
import Delegation.Proofs.History

/-!
# What an operation does itself

An operation runs user code and then does something to the machine that this code
has left. Apart from the heap, the functions and the events, that is little
(`Alters`). A relation between machines that all user code keeps has therefore only
to be kept by this little as well (`operation_alters`), and what is then noted down
adds one moment to those of the history (`Throughout.note`). In this way a history
tells the settings and the resolvers of every machine that comes after it (`Precedes`).
-/

namespace Delegation

variable {γ σ α : Type}

/-- The settings that an operation puts in force. -/
def Operation.installed? : Operation γ σ → Option Settings
  | offerBuilder settings => some settings
  | _ => none

/-- The resolver that an operation registers. -/
def Operation.registered? : Operation γ σ → Option (Resolver γ)
  | offerBuilder settings => some (.object settings.builtinName)
  | register resolver => some resolver
  | _ => none

namespace Environment

/-- The second environment is the first with the resolver, if one is given, or the
first with one more kept value. -/
inductive Altered (env : Environment γ) : Option (Resolver γ) → Environment γ → Prop where
  | same : Altered env none env
  | register (resolver : Resolver γ) : Altered env (some resolver) (env.register resolver)
  | keep (name : String) (index : Nat) (value : Value) :
    Altered env none (env.keep name index value)

section
variable {env env' : Environment γ} {added : Option (Resolver γ)}

theorem Altered.grows (h : env.Altered added env') : env.Grows env' := by
  cases h with
  | same => exact .refl env
  | register resolver => exact env.grows_register resolver
  | keep name index value => exact env.grows_keep name index value

theorem Altered.resolvers (h : env.Altered added env') :
    env'.resolvers = env.resolvers ++ added.toList := by
  cases h with
  | register => rfl
  | _ => exact (List.append_nil _).symm

end

end Environment

/-- What an operation has done to the machine that user code left. -/
structure Operation.Alters (operation : Operation γ σ) (m m' : Machine γ (σ × History γ σ)) :
    Prop where
  history : m'.history = m.history
  settings : m'.settings = operation.installed?.getD m.settings
  bodies : m'.bodies = m.bodies
  builtins : m.builtins.Altered operation.registered? m'.builtins

theorem Operation.Alters.nothing {operation : Operation γ σ} (hi : operation.installed? = none)
    (hr : operation.registered? = none) (m : Machine γ (σ × History γ σ)) :
    operation.Alters m m where
  history := rfl
  settings := by rw [hi, Option.getD_none]
  bodies := rfl
  builtins := hr ▸ .same

namespace Eval

section
variable {R : Machine γ σ → Machine γ σ → Prop} {runCode : γ → Arguments → Eval γ σ Value}
  (hpush : ∀ m body, R m { m with bodies := m.bodies.push body })
  (hcode : ∀ code arguments m result m', runCode code arguments m = .ok (result, m') → R m m')
  {m m' : Machine γ σ} {resolver : Resolver γ} {name : String}

include hpush hcode

theorem provide_related {result : Except Error Value}
    (hp : provide runCode resolver name m = .ok (result, m')) : R m m' := by
  unfold provide at hp
  cases hb : resolver.body with
  | builder =>
    rw [hb] at hp
    cases hp
    exact hpush m .builder
  | host code =>
    rw [hb] at hp
    exact hcode _ _ _ _ _ hp

/-- A resolution keeps at most one value, on top of what the owner's code did. -/
theorem resolve_related (hrefl : ∀ m, R m m) {result : Except Error Value}
    (hr : resolve runCode name m = .ok (result, m')) :
    ∃ middle, R m middle ∧ (m' = middle ∨ ∃ index value trace,
      m' = { middle with builtins := middle.builtins.keep name index value, trace }) := by
  have hprovide := @provide_related γ σ R runCode hpush hcode
  cases resolve_resolution hr with
  | global => exact ⟨m, hrefl m, .inl rfl⟩
  | cached => exact ⟨m, hrefl m, .inl rfl⟩
  | undefined => exact ⟨m, hrefl m, .inl rfl⟩
  | failed _ _ _ hp => exact ⟨_, hprovide hp, .inl rfl⟩
  | provided trace _ _ _ hp => exact ⟨_, hprovide hp, .inr ⟨_, _, trace, rfl⟩⟩

end

theorem operation_alters {R : Machine γ (σ × History γ σ) → Machine γ (σ × History γ σ) → Prop}
    {call : Caller γ (σ × History γ σ)} {runCode : γ → Arguments → Eval γ (σ × History γ σ) Value}
    (hrefl : ∀ m, R m m) (hpush : ∀ m body, R m { m with bodies := m.bodies.push body })
    (hcode : ∀ code arguments m result m', runCode code arguments m = .ok (result, m') → R m m')
    {operation : Operation γ σ} {m m' : Machine γ (σ × History γ σ)}
    {outcome : Except Error operation.watched.Answer}
    (hr : performWith call runCode operation.watched m = .ok (outcome, m'))
    (hq : operation.isQuiet = true → R m m') :
    ∃ middle, R m middle ∧ operation.Alters middle m' := by
  cases operation with
  | resolve name =>
    obtain ⟨middle, hm, rfl | ⟨index, value, trace, rfl⟩⟩ :=
      resolve_related hpush hcode hrefl hr
    · exact ⟨_, hm, .nothing rfl rfl _⟩
    · exact ⟨middle, hm, rfl, rfl, rfl, .keep name index value⟩
  | keep name index value =>
    obtain ⟨trace, hk⟩ := run_keep name index value m
    cases hk.symm.trans hr
    exact ⟨m, hrefl m, rfl, rfl, rfl, .keep name index value⟩
  | inspect =>
    cases hr
    exact ⟨m, hrefl m, .nothing rfl rfl m⟩
  | update change =>
    cases hr
    exact ⟨m, hrefl m, rfl, rfl, rfl, .same⟩
  | bindName name value =>
    cases hr
    exact ⟨m, hrefl m, rfl, rfl, rfl, .same⟩
  | register resolver =>
    cases hr
    exact ⟨m, hrefl m, rfl, rfl, rfl, .register resolver⟩
  | offerBuilder settings =>
    cases hr
    refine ⟨m, hrefl m, ?_⟩
    change Operation.Alters _ m (m.offerBuilder settings)
    unfold Machine.offerBuilder
    rw [Machine.report_eq]
    exact ⟨rfl, rfl, rfl, .register _⟩
  | _ => exact ⟨m', hq rfl, .nothing rfl rfl m'⟩

end Eval

-- ---------------------------------------------------------------------------
-- Machines along a history
-- ---------------------------------------------------------------------------

namespace History

/-- The machines that an operation of the history began and ended with suit what was
over before it began, and what is over with it. -/
structure Suits (P : History γ σ → Machine γ σ → Prop) (history : History γ σ) (k : Nat)
    (x : Moment γ σ) : Prop where
  began : x.began ≤ k
  before : P (history.take x.began) x.before
  after : P (history.take (k + 1)) x.after

def Throughout (P : History γ σ → Machine γ σ → Prop) (history : History γ σ) : Prop :=
  ∀ k x, history[k]? = some x → Suits P history k x

theorem Throughout.mono {P Q : History γ σ → Machine γ σ → Prop} {history : History γ σ}
    (h : Throughout P history) (hpq : ∀ earlier m, P earlier m → Q earlier m) :
    Throughout Q history := by
  intro k x hx
  obtain ⟨hbegan, hbefore, hafter⟩ := h k x hx
  exact ⟨hbegan, hpq _ _ hbefore, hpq _ _ hafter⟩

theorem Throughout.note {P : History γ σ → Machine γ σ → Prop} {earlier history : History γ σ}
    {x : Moment γ σ} (h : Throughout P history) (hp : earlier <+: history)
    (hb : x.began = earlier.length) (hbefore : P earlier x.before)
    (hafter : P (history ++ [x]) x.after) : Throughout P (history ++ [x]) := by
  intro k y hy
  rcases Nat.lt_or_ge k history.length with hlt | hge
  · rw [List.getElem?_append_left hlt] at hy
    obtain ⟨hbegan, hybefore, hyafter⟩ := h k y hy
    refine ⟨hbegan, ?_, ?_⟩
    · rwa [List.take_append_of_le_length (Nat.le_trans hbegan (Nat.le_of_lt hlt))]
    · rwa [List.take_append_of_le_length hlt]
  · rw [List.getElem?_append_right hge] at hy
    obtain ⟨hlast, rfl⟩ : k - history.length = 0 ∧ x = y := by
      simpa [List.getElem?_singleton] using hy
    obtain rfl : k = history.length := by omega
    refine ⟨hb ▸ hp.length_le, ?_, ?_⟩
    · rw [hb, List.take_append_of_le_length hp.length_le, ← List.prefix_iff_eq_take.mp hp]
      exact hbefore
    · rw [List.take_of_length_le (by simp)]
      exact hafter

end History

-- ---------------------------------------------------------------------------
-- What a history tells of the machines after it
-- ---------------------------------------------------------------------------

/-- The builtins of the second machine have come from those of the first, and no
function of the first was lost or changed. -/
structure Machine.Widens (m m' : Machine γ σ) : Prop where
  builtins : m.builtins.Grows m'.builtins
  bodies : m.bodies.toList <+: m'.bodies.toList

namespace Machine.Widens

theorem refl (m : Machine γ σ) : m.Widens m := ⟨.refl _, List.prefix_rfl⟩

theorem trans {m m' m'' : Machine γ σ} (h : m.Widens m') (h' : m'.Widens m'') : m.Widens m'' :=
  ⟨h.builtins.trans h'.builtins, h.bodies.trans h'.bodies⟩

theorem unwatched {m m' : Machine γ (σ × History γ σ)} (h : m.Widens m') :
    m.unwatched.Widens m'.unwatched := ⟨h.builtins, h.bodies⟩

theorem body {m m' : Machine γ σ} (h : m.Widens m') {serial : Nat} {body : Body γ}
    (hb : m.bodies[serial]? = some body) : m'.bodies[serial]? = some body := by
  obtain ⟨hi, -⟩ := Array.getElem?_eq_some_iff.mp hb
  obtain ⟨more, hmore⟩ := h.bodies
  rw [← Array.getElem?_toList, ← hmore, List.getElem?_append_left hi, Array.getElem?_toList, hb]

end Machine.Widens

theorem filterMap_concat {β δ : Type} (f : β → Option δ) (xs : List β) (x : β) :
    (xs ++ [x]).filterMap f = xs.filterMap f ++ (f x).toList := by
  rw [List.filterMap_append]
  cases hx : f x <;> simp [hx]

namespace History

/-- The settings put in force last, or those at the start. -/
def settings (start : Settings) (history : History γ σ) : Settings :=
  (history.filterMap fun x => x.operation.installed?).getLast?.getD start

theorem settings_append (start : Settings) (history : History γ σ) (x : Moment γ σ) :
    settings start (history ++ [x]) = x.operation.installed?.getD (settings start history) := by
  unfold settings
  rw [filterMap_concat]
  cases x.operation.installed? <;> simp

/-- The resolvers that the operations of a history registered, in order. -/
def registered (history : History γ σ) : List (Resolver γ) :=
  history.filterMap fun x => x.operation.registered?

theorem registered_append (history : History γ σ) (x : Moment γ σ) :
    registered (history ++ [x]) = registered history ++ x.operation.registered?.toList :=
  filterMap_concat _ history x

/-- What the operations of a history have left for a machine that comes after them. -/
structure Precedes (start : Machine γ σ) (history : History γ σ) (m : Machine γ σ) : Prop where
  settings : m.settings = settings start.settings history
  resolvers : m.builtins.resolvers = start.builtins.resolvers ++ registered history
  start : start.Widens m
  moments : ∀ x ∈ history, x.after.Widens m

theorem Precedes.of_same {start m m' : Machine γ σ} {history : History γ σ}
    (h : Precedes start history m) (hw : m.Widens m') (hs : m'.settings = m.settings)
    (hr : m'.builtins.resolvers = m.builtins.resolvers) : Precedes start history m' where
  settings := hs.trans h.settings
  resolvers := hr.trans h.resolvers
  start := h.start.trans hw
  moments x hx := (h.moments x hx).trans hw

end History

namespace Machine

/-- A watched machine comes after its history, and so did, in their time, the machines
that the operations of the history began and ended with. -/
structure Traced (m : Machine γ (σ × History γ σ)) (start : Machine γ σ) : Prop where
  now : History.Precedes start m.history m.unwatched
  moments : m.history.Throughout (History.Precedes start)

structure Advances (m : Machine γ (σ × History γ σ)) (start : Machine γ σ)
    (m' : Machine γ (σ × History γ σ)) : Prop where
  widens : m.Widens m'
  history : m.history <+: m'.history
  traced : m.Traced start → m'.Traced start

variable {start : Machine γ σ} {m m' m'' : Machine γ (σ × History γ σ)}

theorem Advances.trans (h : m.Advances start m') (h' : m'.Advances start m'') :
    m.Advances start m'' where
  widens := h.widens.trans h'.widens
  history := h.history.trans h'.history
  traced hm := h'.traced (h.traced hm)

theorem advances_of_same (hw : m.Widens m') (hs : m'.settings = m.settings)
    (hr : m'.builtins.resolvers = m.builtins.resolvers) (hh : m'.history = m.history) :
    m.Advances start m' where
  widens := hw
  history := hh ▸ List.prefix_rfl
  traced hm := ⟨hh ▸ hm.now.of_same hw.unwatched hs hr, hh ▸ hm.moments⟩

theorem advances_note {operation : Operation γ σ} {outcome : Except Error operation.watched.Answer}
    {middle : Machine γ (σ × History γ σ)} (hs : m.Advances start middle)
    (ha : operation.Alters middle m') :
    m.Advances start (m'.note (m.moment operation outcome m')) := by
  have hw : middle.Widens m' := ⟨ha.builtins.grows, ha.bodies ▸ List.prefix_rfl⟩
  have hprefix : m.history <+: m'.history := ha.history ▸ hs.history
  refine ⟨hs.widens.trans ⟨hw.builtins, hw.bodies⟩, hprefix.trans (List.prefix_append _ _), ?_⟩
  intro hm
  have hmiddle := hs.traced hm
  have hnow : History.Precedes start (m'.history ++ [m.moment operation outcome m'])
      m'.unwatched := by
    refine ⟨?_, ?_, hmiddle.now.start.trans hw.unwatched, fun x hx => ?_⟩
    · rw [History.settings_append, ha.history, ← hmiddle.now.settings]
      exact ha.settings
    · rw [History.registered_append, ha.history, ← List.append_assoc, ← hmiddle.now.resolvers]
      exact ha.builtins.resolvers
    · rcases List.mem_append.mp hx with hx | hx
      · exact (hmiddle.now.moments x (ha.history ▸ hx)).trans hw.unwatched
      · rw [List.mem_singleton.mp hx]
        exact .refl _
  have hmoments : m'.history.Throughout (History.Precedes start) := ha.history ▸ hmiddle.moments
  exact ⟨hnow, hmoments.note hprefix rfl hm.now hnow⟩

theorem records_advances (host : Host γ σ) (start : Machine γ σ) :
    Records host (Advances · start ·) where
  refl m := advances_of_same (.refl m) rfl rfl rfl
  trans := Advances.trans
  loose m heap bodies trace hb := advances_of_same ⟨.refl _, hb⟩ rfl rfl rfl
  note hcode operation m outcome m' hr hq _ := by
    have hpush (m : Machine γ (σ × History γ σ)) (body : Body γ) :
        m.Advances start { m with bodies := m.bodies.push body } :=
      advances_of_same ⟨.refl _, by simp⟩ rfl rfl rfl
    obtain ⟨middle, hmiddle, ha⟩ := Eval.operation_alters
      (fun m => advances_of_same (.refl m) rfl rfl rfl) hpush hcode hr hq
    exact advances_note hmiddle ha

theorem traced_start (m : Machine γ σ) : m.watched.Traced m where
  now := ⟨rfl, (List.append_nil _).symm, .refl m, fun x hx => by cases hx⟩
  moments k x hx := by cases hx

end Machine

theorem Eval.watch_traced {host : Host γ σ} {fuel : Nat} {program : Program γ σ α}
    {m m' : Machine γ σ} {result : Except Error α} {history : History γ σ}
    (hw : watch host fuel program m = .ok (result, m', history)) :
    History.Precedes m history m' ∧ history.Throughout (History.Precedes m) := by
  obtain ⟨last, ha, rfl, rfl⟩ := watch_related (Machine.records_advances host m) hw
  have hlast := ha.traced m.traced_start
  exact ⟨hlast.now, hlast.moments⟩

end Delegation

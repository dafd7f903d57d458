import Delegation.Proofs.Frozen
import Delegation.Proofs.Lens

/-!
# What freezing freezes

Freezing a value freezes the objects that are reachable from it, and no others
(`freezing_exact`). The walk stops at what is frozen already, whether it was so
before or has just been marked, which loses nothing: below a frozen object all is
frozen or still on the stack. So neither the order of two walks nor a second walk
from the same value makes a difference. Though the walk keeps one stack, it treats
the targets of a value one after the other, each with all that lies below it
(`freeze_open`).
-/

namespace Delegation

namespace Heap

variable {h h' later : Heap} {value : Value} {o : Object}

/-- A walk from the value gets to the object. -/
def ReachesObject (h : Heap) (value : Value) (o : Object) : Prop :=
  ∃ reached, h.Reaches value reached ∧ reached.object? = some o

/-- The second heap is the first with the objects frozen that are reachable from
a value. -/
structure FreezesReachable (h : Heap) (value : Value) (h' : Heap) : Prop extends
    Freezes h h' where
  frozen : ∀ o, h'.frozen o = true ↔ h.frozen o = true ∨ h.ReachesObject value o
  nextSerial : h'.nextSerial = h.nextSerial

-- ---------------------------------------------------------------------------
-- The walk
-- ---------------------------------------------------------------------------

/-- A stack is treated from its top, one value after the other. -/
theorem freezeAll_append (stack rest : List Value) :
    h.freezeAll (stack ++ rest) =
      (((h.freezeAll stack).1.freezeAll rest).1,
        (h.freezeAll stack).2 ++ ((h.freezeAll stack).1.freezeAll rest).2) := by
  induction h, stack using Heap.freezeAll.induct with
  | case1 h => simp [freezeAll.eq_1]
  | case2 h value tail ho frozen order hf ih =>
    rw [List.append_assoc] at ih
    rw [List.cons_append, freezeAll, freezeAll, dif_pos ho, dif_pos ho, ih]
    simp
  | case3 h value tail ho ih =>
    rw [List.cons_append, freezeAll, freezeAll, dif_neg ho, dif_neg ho, ih]

theorem freezeAll_eq_foldl (stack : List Value) :
    (h.freezeAll stack).1 = stack.foldl freeze h := by
  induction stack generalizing h with
  | nil => exact freezeAll_nil
  | cons value rest ih =>
    have happend := congrArg Prod.fst (h.freezeAll_append [value] rest)
    rw [List.foldl_cons, ← ih]
    exact happend

theorem freeze_open (ho : h.isOpen value = true) :
    h.freeze value = (h.targets value).foldl freeze (h.mark value) := by
  rw [freeze, freezeAll_open ho, List.append_nil, freezeAll_eq_foldl]

theorem freeze_other (ho : ¬ h.isOpen value = true) : h.freeze value = h := by
  rw [freeze, freezeAll_other ho, freezeAll_nil]

theorem nextSerial_mark (h : Heap) (value : Value) : (h.mark value).nextSerial = h.nextSerial := by
  cases value <;> rfl

theorem nextSerial_freezeAll (h : Heap) (stack : List Value) :
    (h.freezeAll stack).1.nextSerial = h.nextSerial := by
  induction h, stack using Heap.freezeAll.induct with
  | case1 h => rw [freezeAll_nil]
  | case2 h value rest ho frozen order hf ih => rw [freezeAll_open ho, ih, nextSerial_mark]
  | case3 h value rest ho ih => rw [freezeAll_other ho, ih]

-- ---------------------------------------------------------------------------
-- Only what is reachable
-- ---------------------------------------------------------------------------

theorem Freezes.reaches_iff (hf : Freezes h h') (owner value : Value) :
    h'.Reaches owner value ↔ h.Reaches owner value := by
  simp only [Reaches, hf.targets]

theorem Freezes.reachesObject_iff (hf : Freezes h h') (value : Value) (o : Object) :
    h'.ReachesObject value o ↔ h.ReachesObject value o := by
  simp only [ReachesObject, hf.reaches_iff]

/-- Whatever a walk freezes is reachable from its stack. -/
theorem frozen_of_freezeAll {stack : List Value} (hf : (h.freezeAll stack).1.frozen o = true) :
    h.frozen o = true ∨ ∃ start ∈ stack, h.ReachesObject start o := by
  induction h, stack using Heap.freezeAll.induct with
  | case1 h => exact .inl (freezeAll_nil (h := h) ▸ hf)
  | case2 h value rest ho frozen order hfreeze ih =>
    rw [freezeAll_open ho] at hf
    rcases ih hf with hmarked | ⟨start, hstart, hreach⟩
    · rcases frozen_of_mark hmarked with hbefore | hself
      · exact .inl hbefore
      · exact .inr ⟨value, List.mem_cons_self, value, .refl, hself⟩
    · rw [(Freezes.mark h value).reachesObject_iff] at hreach
      rcases List.mem_append.mp hstart with htarget | hrest
      · obtain ⟨reached, hr, hobject⟩ := hreach
        exact .inr ⟨value, List.mem_cons_self, reached, .head htarget hr, hobject⟩
      · exact .inr ⟨start, List.mem_cons_of_mem _ hrest, hreach⟩
  | case3 h value rest ho ih =>
    rw [freezeAll_other ho] at hf
    rcases ih hf with hbefore | ⟨start, hstart, hreach⟩
    · exact .inl hbefore
    · exact .inr ⟨start, List.mem_cons_of_mem _ hstart, hreach⟩

-- ---------------------------------------------------------------------------
-- All that is reachable
-- ---------------------------------------------------------------------------

theorem Freezes.frozen (hf : Freezes h h') (ho : h.frozen o = true) : h'.frozen o = true := by
  cases o with
  | inst i => exact hf.frozenInst i ho
  | record r => exact hf.frozenRecord r ho

theorem isFrozen_freeze (hk : h.Knows value) : (h.freeze value).IsFrozen value := by
  by_cases ho : h.isOpen value = true
  · rw [freeze, freezeAll_open ho]
    exact (Freezes.freezeAll _ _).keepsFrozen.isFrozen (isFrozen_mark ho)
  · rw [freeze_other ho]
    exact isFrozen_of_not_open hk ho

theorem frozenInside_freeze (hs : h.Sound) (hi : h.FrozenInside) (value : Value) :
    (h.freeze value).FrozenInside :=
  freezeAll_frozenInside hs fun owner target ho ht => .inl (hi owner target ho ht)

/-- Everything below a frozen object is frozen after the walk, so the walk cannot
have missed anything below its start. -/
theorem freeze_freezesReachable (hs : h.Sound) (hi : h.FrozenInside) (hk : h.Knows value) :
    h.FreezesReachable value (h.freeze value) where
  toFreezes := Freezes.freezeAll h [value]
  frozen o := by
    have hfreezes : Freezes h (h.freeze value) := Freezes.freezeAll h [value]
    constructor
    · intro hf
      rcases frozen_of_freezeAll hf with hbefore | ⟨start, hstart, hreach⟩
      · exact .inl hbefore
      · rw [List.mem_singleton.mp hstart] at hreach
        exact .inr hreach
    · rintro (hbefore | ⟨reached, hreach, hobject⟩)
      · exact hfreezes.frozen hbefore
      · have hafter := (hfreezes.reaches_iff value reached).mpr hreach
        exact (isFrozen_iff hobject).mp
          ((frozenInside_freeze hs hi value).reaches (isFrozen_freeze hk) hafter)
  nextSerial := nextSerial_freezeAll h [value]

-- ---------------------------------------------------------------------------
-- Two walks
-- ---------------------------------------------------------------------------

theorem heap_ext (hi : h.instances.size = h'.instances.size)
    (hr : h.records.size = h'.records.size) (hn : h.nextSerial = h'.nextSerial)
    (hinst : ∀ i, h.inst i = h'.inst i) (hrecord : ∀ r, h.record r = h'.record r) : h = h' := by
  obtain ⟨instances, records, nextSerial⟩ := h
  obtain ⟨instances', records', nextSerial'⟩ := h'
  simp only [Heap.mk.injEq]
  refine ⟨Array.ext hi fun k hk hk' => ?_, Array.ext hr fun k hk hk' => ?_, hn⟩
  · simpa [inst, hk, hk'] using hinst ⟨k⟩
  · simpa [record, hk, hk'] using hrecord ⟨k⟩

/-- Freezing the same objects leads to the same heap. -/
theorem Freezes.unique (hf : Freezes h h') (hl : Freezes h later)
    (hfrozen : ∀ o, h'.frozen o = true ↔ later.frozen o = true)
    (hn : h'.nextSerial = later.nextSerial) : h' = later := by
  refine heap_ext (hf.instanceCount.trans hl.instanceCount.symm)
    (hf.recordCount.trans hl.recordCount.symm) hn (fun i => ?_) fun r => ?_
  · have hsame : (h'.inst i).frozen = (later.inst i).frozen :=
      Bool.eq_iff_iff.mpr (hfrozen (.inst i))
    rw [hf.instances i, hl.instances i, hsame]
  · have hsame : (h'.record r).frozen = (later.record r).frozen :=
      Bool.eq_iff_iff.mpr (hfrozen (.record r))
    rw [hf.records r, hl.records r, hsame]

theorem FreezesReachable.idempotent (hf : h.FreezesReachable value h')
    (hl : h'.FreezesReachable value later) : later = h' := by
  refine Freezes.unique (hf.toFreezes.trans hl.toFreezes) hf.toFreezes (fun o => ?_) hl.nextSerial
  rw [hl.frozen, hf.reachesObject_iff, hf.frozen, or_assoc, or_self]

theorem FreezesReachable.comm {first second both both' : Heap} {x y : Value}
    (hx : h.FreezesReachable x first) (hxy : first.FreezesReachable y both)
    (hy : h.FreezesReachable y second) (hyx : second.FreezesReachable x both') : both = both' := by
  refine Freezes.unique (hx.toFreezes.trans hxy.toFreezes) (hy.toFreezes.trans hyx.toFreezes)
    (fun o => ?_) ?_
  · rw [hxy.frozen, hx.reachesObject_iff, hx.frozen, hyx.frozen, hy.reachesObject_iff, hy.frozen,
      or_right_comm]
  · rw [hxy.nextSerial, hx.nextSerial, hyx.nextSerial, hy.nextSerial]

end Heap

-- ---------------------------------------------------------------------------
-- Machines
-- ---------------------------------------------------------------------------

namespace Machine

variable {γ σ : Type} {host : Host γ σ} {m : Machine γ σ}

/-- Freezing a value ends, and freezes what is reachable from it, on whatever
graph. Freezing it once more changes nothing, and of two values either may be
frozen first. -/
theorem freezing_exact (hm : m.Reachable host) (fuel : Nat) {value : Value}
    (hk : m.heap.Knows value) :
    ∃ m', Eval.perform host fuel (.freeze value) m = .ok (.ok (), m') ∧
      m' = { m with heap := m'.heap, trace := m'.trace } ∧
      m.heap.FreezesReachable value m'.heap ∧
      (∃ again, Eval.perform host fuel (.freeze value) m' = .ok (.ok (), again) ∧
        m'.SameState again) ∧
      ∀ other, m.heap.Knows other → ∃ both first both',
        Eval.perform host fuel (.freeze other) m' = .ok (.ok (), both) ∧
        Eval.perform host fuel (.freeze other) m = .ok (.ok (), first) ∧
        Eval.perform host fuel (.freeze value) first = .ok (.ok (), both') ∧
        both.SameState both' := by
  have hs := hm.sound
  have hi := hm.frozenInside
  have hfreeze (h : Heap) (hg : m.heap.Changes h) {x : Value} (hx : m.heap.Knows x) :
      h.FreezesReachable x (h.freeze x) :=
    Heap.freeze_freezesReachable (hg.sound hs) (hg.frozenInside hs hi) (hg.knows hx)
  have hstep (x : Value) : m.heap.Changes (m.heap.freeze x) := .single (.freeze [x])
  obtain ⟨trace, hrun⟩ := Eval.run_freeze value m
  refine ⟨_, hrun, rfl, hfreeze _ .refl hk, ?_, fun other ho => ?_⟩
  · obtain ⟨later, hagain⟩ := Eval.run_freeze value { m with heap := m.heap.freeze value, trace }
    have hsame := (hfreeze _ .refl hk).idempotent (hfreeze _ (hstep value) hk)
    exact ⟨_, hagain, by simp only [SameState, hsame]⟩
  · obtain ⟨_, hboth⟩ := Eval.run_freeze other { m with heap := m.heap.freeze value, trace }
    obtain ⟨between, hfirst⟩ := Eval.run_freeze other m
    obtain ⟨_, hboth'⟩ :=
      Eval.run_freeze value { m with heap := m.heap.freeze other, trace := between }
    have hcomm := (hfreeze _ .refl hk).comm (hfreeze _ (hstep value) ho) (hfreeze _ .refl ho)
      (hfreeze _ (hstep other) hk)
    exact ⟨_, _, _, hboth, hfirst, hboth', by simp only [SameState, hcomm]⟩

-- A node that holds itself and delegates to a record that contains it; another apart.

def ring : Machine Unit Unit where
  host := ()
  heap := {
    instances := #[
      { name := "Node", maxDepth := 3, members := .ofList [("self", .inst ⟨0⟩)],
        chain := ⟨[some (.record ⟨0⟩)]⟩ },
      { name := "Apart", maxDepth := 3 }]
    records := #[{ fields := .ofList [("inner", .inst ⟨0⟩)] }] }

def makeRing : Program Unit Unit Unit := do
  let node ← Program.run (.newInstance "Node" 3)
  let shell ← Program.run (.newRecord [("inner", .inst node)])
  Program.run (.write (.inst node) "self" (.inst node))
  Program.run (.addDelegate node shell)
  discard (Program.run (.newInstance "Apart" 3))

theorem freezing_exact_ring :
    ∃ m', ring.Reachable idle ∧ ring.heap.Knows (.record ⟨0⟩) ∧
      Eval.perform idle 1 (.freeze (.record ⟨0⟩)) ring = .ok (.ok (), m') ∧
      (m'.heap.inst ⟨0⟩).frozen = true ∧ (m'.heap.record ⟨0⟩).frozen = true ∧
      ¬ (m'.heap.inst ⟨1⟩).frozen = true := by
  have hmake : Eval.run idle 1 makeRing { host := () } = .ok (.ok (), ring) := rfl
  have hm : ring.Reachable idle := ⟨{ host := () }, rfl, .single (.run 1 makeRing hmake)⟩
  have hk : ring.heap.Knows (.record ⟨0⟩) := Nat.one_pos
  obtain ⟨m', hrun, -, hfreezes, -, -⟩ := freezing_exact hm 1 hk
  have hmeets {reached : Value} (hr : ring.heap.Reaches (.record ⟨0⟩) reached) :
      reached = .record ⟨0⟩ ∨ reached = .inst ⟨0⟩ := by
    induction hr with
    | refl => exact .inl rfl
    | tail _ htarget ih =>
      have hnode : ∀ target ∈ ring.heap.targets (.inst ⟨0⟩),
          target = .record ⟨0⟩ ∨ target = .inst ⟨0⟩ := by decide
      have hshell : ∀ target ∈ ring.heap.targets (.record ⟨0⟩), target = .inst ⟨0⟩ := by decide
      rcases ih with rfl | rfl
      · exact .inr (hshell _ htarget)
      · exact hnode _ htarget
  refine ⟨m', hm, hk, hrun, ?_, ?_, fun hapart => ?_⟩
  · exact (hfreezes.frozen (.inst ⟨0⟩)).mpr (.inr ⟨.inst ⟨0⟩, .single (by decide), rfl⟩)
  · exact (hfreezes.frozen (.record ⟨0⟩)).mpr (.inr ⟨.record ⟨0⟩, .refl, rfl⟩)
  · rcases (hfreezes.frozen (.inst ⟨1⟩)).mp hapart with hbefore | ⟨reached, hr, hobject⟩
    · cases hbefore
    · rcases hmeets hr with rfl | rfl
      · cases hobject
      · cases hobject

end Machine

end Delegation

import Delegation.Proofs.Reachable

/-!
# Delegates form no cycle

An instance never lies below itself. The check before an installation walks
down from the new delegate and compares with the receiver only, and it rejects
when it runs out of depth. So an installation that passes adds an edge to an
instance from which the receiver cannot be reached, which closes no cycle.
-/

namespace Delegation

open Relation (TransGen ReflTransGen)

/-- Ways along a relation that has one edge more: the edge may come in between. -/
theorem transGen_of_added {α : Type} {r r' : α → α → Prop} {i j : α}
    (hadded : ∀ a b, r' a b → r a b ∨ a = i ∧ b = j) {a b : α} (hab : TransGen r' a b) :
    TransGen r a b ∨ ReflTransGen r a i ∧ ReflTransGen r j b := by
  induction hab with
  | single hedge =>
    rcases hadded _ _ hedge with hold | ⟨rfl, rfl⟩
    · exact .inl (.single hold)
    · exact .inr ⟨.refl, .refl⟩
  | tail _ hedge ih =>
    rcases ih with hway | ⟨hto, hfrom⟩
    · rcases hadded _ _ hedge with hold | ⟨rfl, rfl⟩
      · exact .inl (hway.tail hold)
      · exact .inr ⟨hway.to_reflTransGen, .refl⟩
    · rcases hadded _ _ hedge with hold | ⟨rfl, rfl⟩
      · exact .inr ⟨hto, hfrom.tail hold⟩
      · exact .inr ⟨hto, .refl⟩

namespace Heap

/-- Whether a level of the first instance holds the second, or a template of it. -/
def Below (h : Heap) (i j : InstanceId) : Prop :=
  ∃ delegate ∈ (h.inst i).chain.delegates, delegate.instance? = some j

def Acyclic (h : Heap) : Prop := ∀ i, ¬ TransGen h.Below i i

variable {h h' : Heap}

-- ---------------------------------------------------------------------------
-- The check
-- ---------------------------------------------------------------------------

theorem forM_ok {ε α : Type} {f : α → Except ε Unit} {xs : List α} (hf : xs.forM f = .ok ()) :
    ∀ x ∈ xs, f x = .ok () := by
  induction xs with
  | nil => simp
  | cons x xs ih =>
    obtain ⟨⟨⟩, hx, hxs⟩ := bind_ok.mp hf
    intro y hy
    rcases List.mem_cons.mp hy with rfl | hy
    · exact hx
    · exact ih hxs y hy

/-- A walk that ends well has not met the receiver. -/
theorem checkBelow_ok {receiver : InstanceId} (depth : Depth) {i : InstanceId}
    (hc : h.checkBelow receiver depth i = .ok ()) : ¬ ReflTransGen h.Below i receiver := by
  induction depth using Depth.down_induction generalizing i with
  | step depth ih =>
    rw [checkBelow, descend_eq, placementVisit] at hc
    split at hc
    case isTrue => cases hc
    case isFalse hne =>
      intro hr
      rcases hr.cases_head with heq | ⟨j, ⟨delegate, hd, hj⟩, hr⟩
      · exact hne heq
      · have hmem : j ∈ (h.inst i).chain.delegates.filterMap Value.instance? :=
          List.mem_filterMap.mpr ⟨delegate, hd, hj⟩
        obtain ⟨below, hb, hc⟩ := bind_ok.mp (forM_ok hc j hmem)
        exact ih _ below hb hc hr

theorem checkPlacement_ok {receiver j : InstanceId} {value : Value}
    (hc : h.checkPlacement receiver value = .ok ()) (hj : value.instance? = some j) :
    ¬ ReflTransGen h.Below j receiver := by
  rw [checkPlacement, hj] at hc
  obtain ⟨below, -, hc⟩ := bind_ok.mp hc
  exact checkBelow_ok below hc

-- ---------------------------------------------------------------------------
-- Changes
-- ---------------------------------------------------------------------------

theorem Acyclic.of_le (ha : h.Acyclic) (hle : ∀ i j, h'.Below i j → h.Below i j) : h'.Acyclic :=
  fun i hi => ha i (TransGen.mono hle _ _ hi)

theorem Acyclic.of_added (ha : h.Acyclic) {i j : InstanceId}
    (hadded : ∀ a b, h'.Below a b → h.Below a b ∨ a = i ∧ b = j)
    (hr : ¬ ReflTransGen h.Below j i) : h'.Acyclic := by
  intro k hk
  rcases transGen_of_added hadded hk with hway | ⟨hto, hfrom⟩
  · exact ha k hway
  · exact hr (hfrom.trans hto)

theorem below_of_chain_eq {i j : InstanceId} (hc : (h'.inst i).chain = (h.inst i).chain)
    (hb : h'.Below i j) : h.Below i j := by
  rwa [Below, hc] at hb

theorem below_of_setChain {i a b : InstanceId} {chain : Chain} {value : Value}
    (ht : (h.inst i).chain.Takes value chain)
    (hb : (h.setChain i chain).Below a b) :
    h.Below a b ∨ a = i ∧ value.instance? = some b := by
  obtain ⟨delegate, hm, hi⟩ := hb
  rw [setChain, inst_modify] at hm
  split at hm
  case isTrue hia =>
    obtain ⟨rfl, -⟩ := hia
    rcases ht.mem_delegates hm with hm | rfl
    · exact .inl ⟨delegate, hm, hi⟩
    · exact .inr ⟨rfl, hi⟩
  case isFalse => exact .inl ⟨delegate, hm, hi⟩

theorem Change.acyclic (ha : h.Acyclic) (hc : Change h h') : h'.Acyclic := by
  cases hc with
  | addInstance name maxDepth =>
    refine ha.of_le fun i j hb => ?_
    obtain ⟨delegate, hd, hi⟩ := hb
    rw [inst_addInstance] at hd
    split at hd
    · cases hd
    · exact ⟨delegate, hd, hi⟩
  | addRecord _ => exact ha.of_le fun _ _ hb => hb
  | takeSerial => exact ha.of_le fun _ _ hb => hb
  | setMember => exact ha.of_le fun j k hb => below_of_chain_eq h.chain_setMember hb
  | @setChain i chain value _ hp _ ht =>
    -- The only change that adds an edge, and the check has walked all that lies below it.
    cases hv : value.instance? with
    | none =>
      refine ha.of_le fun a b hb => (below_of_setChain ht hb).resolve_right ?_
      rintro ⟨-, hb⟩
      rw [hv] at hb
      cases hb
    | some j =>
      refine ha.of_added (fun a b hb => ?_) (checkPlacement_ok hp hv)
      refine (below_of_setChain ht hb).imp id fun hab => ⟨hab.1, ?_⟩
      exact (Option.some.inj (hv.symm.trans hab.2)).symm
  | freeze stack =>
    refine ha.of_le fun i j hb => below_of_chain_eq ?_ hb
    rw [(Freezes.freezeAll h stack).instances i]

theorem Changes.acyclic (ha : h.Acyclic) (hc : Changes h h') : h'.Acyclic :=
  hc.keeps (fun hlast ha => hlast.acyclic ha) ha

theorem acyclic_empty : Heap.Acyclic {} := by
  intro i hi
  obtain ⟨j, ⟨delegate, hd, -⟩, -⟩ := TransGen.head'_iff.mp hi
  rw [inst_of_le _ (Nat.zero_le _)] at hd
  cases hd

end Heap

-- ---------------------------------------------------------------------------
-- Runs
-- ---------------------------------------------------------------------------

namespace Machine

variable {γ σ : Type} {host : Host γ σ} {m : Machine γ σ}

theorem Reachable.acyclic (hm : m.Reachable host) : m.heap.Acyclic :=
  Heap.Changes.acyclic Heap.acyclic_empty hm.changes

/-- Whatever user code runs, no instance lies below itself. -/
theorem no_instance_below_itself (hm : m.Reachable host) (i : InstanceId) :
    ¬ TransGen m.heap.Below i i :=
  Heap.Changes.acyclic Heap.acyclic_empty hm.changes i

theorem no_widget_below_itself :
    (widget false).Reachable idle ∧ (widget false).heap.Below ⟨1⟩ ⟨0⟩ ∧
      ¬ TransGen (widget false).heap.Below ⟨1⟩ ⟨1⟩ :=
  have hbelow : (widget false).heap.Below ⟨1⟩ ⟨0⟩ := ⟨.inst ⟨0⟩, by decide, rfl⟩
  ⟨widget_reachable, hbelow, no_instance_below_itself widget_reachable ⟨1⟩⟩

end Machine

end Delegation

import Delegation.Heap.Initializer
import Delegation.Machine
import Delegation.Proofs.Assignment
import Delegation.Proofs.Change

/-!
# Known values

What the machine itself reads to go on with, a hook or an initializer, comes
from a sound heap, so it is known. So are the values that the machine lets a
program name.
-/

namespace Delegation

namespace Heap

variable {h : Heap}

theorem Sound.members (hs : h.Sound) {i : InstanceId} {name : String} {value : Value}
    (hm : (h.inst i).members.get? name = some value) : h.Knows value :=
  hs.instances i value (mem_targets.mpr (.inl (NameMap.mem_values_of_get? hm)))

theorem Sound.superValue (hs : h.Sound) (i : InstanceId) : h.Knows (h.superValue i) := by
  unfold Heap.superValue
  cases hh : (h.inst i).chain.head? with
  | none => trivial
  | some value =>
    refine hs.instances i value (mem_targets.mpr (.inr (Chain.mem_delegates.mpr ?_)))
    rw [Chain.head?, Option.join_eq_some_iff] at hh
    exact List.mem_of_mem_head? hh

theorem Sound.held (hs : h.Sound) {name : String} {slot : Slot} {value : Value}
    (hv : h.held? name slot = some value) : h.Knows value := by
  cases slot with
  | member i => exact hs.members hv
  | field r => exact hs.records r value (NameMap.mem_values_of_get? hv)

theorem lookup_known (hs : h.Sound) {name : String} {i : InstanceId} {value : Value}
    (hl : h.lookup name i = .ok (some value)) : h.Knows value := by
  by_cases hn : name = SpecialName.super.text
  · rw [lookup, lookupAt_eq, if_pos hn] at hl
    cases hl
    exact hs.superValue i
  · have hset := h.lookup_settled hn i
    rw [hl, Settled] at hset
    cases he : (h.listing i).find? (Entry.tells name) with
    | none =>
      rw [he] at hset
      cases hset
    | some entry =>
      rw [he] at hset
      cases entry with
      | tooDeep owner => cases hset
      | binding other held path slot =>
        cases hset
        obtain ⟨-, -, -, hv⟩ := h.route_of_telling (h.root i) he
        exact hs.held hv

theorem hook?_known (hs : h.Sound) {hook : SpecialName} {i : InstanceId} {method : Value}
    (hh : h.hook? hook i = some method) : h.Knows method := by
  unfold hook? at hh
  split at hh
  case h_1 serial owner name callee hl =>
    cases hh
    exact lookup_known hs hl
  case h_2 => cases hh

theorem initializerAmong_known {owner : InstanceId}
    {enter : InstanceId → Except Error (Option Initializer)}
    (he : ∀ j found, enter j = .ok (some found) → h.Knows found.method)
    {levels : List (Nat × Value)} {found : Initializer}
    (hf : initializerAmong owner enter levels = .ok (some found)) : h.Knows found.method := by
  induction levels with
  | nil => cases hf
  | cons entry rest ih =>
    obtain ⟨level, delegate⟩ := entry
    rw [initializerAmong] at hf
    split at hf
    · exact ih hf
    · obtain ⟨below, hb, hf⟩ := bind_ok.mp hf
      cases below with
      | none => exact ih hf
      | some below =>
        cases hf
        exact he _ below hb

theorem initializerAt_known (hs : h.Sound) (depth : Depth) {i : InstanceId} {found : Initializer}
    (hf : h.initializerAt depth i = .ok (some found)) : h.Knows found.method := by
  induction depth using Depth.down_induction generalizing i found with
  | step depth ih =>
    rw [initializerAt, descend_eq, initializerVisit] at hf
    split at hf
    case h_1 method hm =>
      cases hf
      unfold ownInit? at hm
      split at hm
      case h_1 hi =>
        cases hm
        exact hs.members hi
      case h_2 => cases hm
    case h_2 =>
      refine initializerAmong_known (fun j below hj => ?_) hf
      obtain ⟨deeper, hd, hj⟩ := bind_ok.mp hj
      exact ih _ deeper hd hj

end Heap

theorem Machine.heap_knows {γ σ : Type} {m : Machine γ σ} {value : Value}
    (hk : m.knows value = true) : m.heap.Knows value := by
  induction value with
  | record r =>
    simp only [knows, decide_eq_true_eq] at hk
    exact hk
  | inst i =>
    simp only [knows, decide_eq_true_eq] at hk
    exact hk
  | template t =>
    simp only [knows, Bool.and_eq_true, decide_eq_true_eq] at hk
    exact hk.2
  | method serial owner name callee ih =>
    simp only [knows, Bool.and_eq_true, decide_eq_true_eq] at hk
    exact ⟨hk.1.2, ih hk.2⟩
  | _ => trivial

end Delegation

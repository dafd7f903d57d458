import Mathlib.Data.List.Chain
import Mathlib.Order.Lattice.Nat
import Delegation.Proofs.Acyclic

/-!
# How deep delegates nest

A delegate path goes from instance to instance, each in a level of the one before.
Without cycles a path meets no instance twice, so every instance has a longest
path below it (`Acyclic.exists_nesting`). The check before an installation walks
all paths from the new delegate: it passes exactly if none of them meets the
receiver and the longest stays within the bound (`checkBelow_ok_iff`), and the
error it fails with tells which of the two is not so (`checkBelow_error`).
-/

namespace Delegation.Heap

open Relation (TransGen ReflTransGen)

/-- The instances listed lie below the first one, each in a level of the one
before it. -/
def Path (h : Heap) (i : InstanceId) (below : List InstanceId) : Prop :=
  List.IsChain h.Below (i :: below)

/-- The length of the longest delegate path of instances from an instance. -/
def Nesting (h : Heap) (i : InstanceId) (levels : Nat) : Prop :=
  IsGreatest {n | ∃ below, h.Path i below ∧ below.length = n} levels

/-- No delegate path from an instance is longer than so many levels. -/
def NestsWithin (h : Heap) (i : InstanceId) (levels : Nat) : Prop :=
  ∀ below, h.Path i below → below.length ≤ levels

/-- The longest delegate path from an instance, and the level that the instance
itself would take, stay within a bound. -/
def FitsUnder (h : Heap) (bound : Nat) (i : InstanceId) : Prop :=
  ∃ levels, h.Nesting i levels ∧ 1 + levels ≤ bound

/-- A value may become a delegate of an instance: if it is an instance or a
template, the receiver is neither it nor below it, and it fits under the
receiver's bound. -/
def MayPlace (h : Heap) (receiver : InstanceId) (value : Value) : Prop :=
  ∀ j, value.instance? = some j →
    ¬ ReflTransGen h.Below j receiver ∧ h.FitsUnder (h.inst receiver).maxDepth j

variable {h h' : Heap} {i j : InstanceId}

-- ---------------------------------------------------------------------------
-- Paths
-- ---------------------------------------------------------------------------

theorem path_nil (h : Heap) (i : InstanceId) : h.Path i [] := List.isChain_singleton i

theorem path_cons {below : List InstanceId} :
    h.Path i (j :: below) ↔ h.Below i j ∧ h.Path j below :=
  List.isChain_cons_cons

theorem nestsWithin_zero : h.NestsWithin i 0 ↔ ∀ j, ¬ h.Below i j := by
  constructor
  · intro hn j hb
    exact Nat.not_succ_le_zero 0 (hn [j] (path_cons.mpr ⟨hb, path_nil h j⟩))
  · intro hn below hp
    cases below with
    | nil => exact Nat.le_refl 0
    | cons j below => exact absurd (path_cons.mp hp).1 (hn j)

theorem nestsWithin_succ {levels : Nat} :
    h.NestsWithin i (levels + 1) ↔ ∀ j, h.Below i j → h.NestsWithin j levels := by
  constructor
  · intro hn j hb below hp
    exact Nat.le_of_succ_le_succ (hn (j :: below) (path_cons.mpr ⟨hb, hp⟩))
  · intro hn below hp
    cases below with
    | nil => exact Nat.zero_le _
    | cons j below =>
      obtain ⟨hb, hp⟩ := path_cons.mp hp
      exact Nat.succ_le_succ (hn j hb below hp)

theorem Nesting.le_iff {levels bound : Nat} (hn : h.Nesting i levels) :
    levels ≤ bound ↔ h.NestsWithin i bound := by
  obtain ⟨⟨longest, hp, hlength⟩, hgreatest⟩ := hn
  constructor
  · intro hle below hb
    exact Nat.le_trans (hgreatest ⟨below, hb, rfl⟩) hle
  · intro hw
    exact hlength ▸ hw longest hp

/-- An instance that has something below it is there. -/
theorem lt_of_below (hb : h.Below i j) : i.index < h.instances.size := by
  obtain ⟨delegate, hd, -⟩ := hb
  refine Nat.lt_of_not_le fun hle => ?_
  rw [inst_of_le h hle] at hd
  cases hd

/-- All instances of a path but the last are there. -/
theorem lt_of_path {below : List InstanceId} (hp : h.Path i below) :
    ∀ k ∈ (i :: below).dropLast, k.index < h.instances.size := by
  induction below generalizing i with
  | nil => simp
  | cons j below ih =>
    obtain ⟨hb, hp⟩ := path_cons.mp hp
    intro k hk
    rcases List.mem_cons.mp hk with rfl | hk
    · exact lt_of_below hb
    · exact ih hp k hk

/-- Without cycles no path meets an instance twice. -/
theorem Acyclic.nodup_path (ha : h.Acyclic) {below : List InstanceId} (hp : h.Path i below) :
    (i :: below).Nodup := by
  have hpairs : (i :: below).Pairwise (TransGen h.Below) :=
    (List.IsChain.imp (fun _ _ => TransGen.single) hp).pairwise
  refine hpairs.imp fun {a b} hab => ?_
  rintro rfl
  exact ha a hab

/-- Without cycles no path is longer than there are instances. -/
theorem Acyclic.length_path_le (ha : h.Acyclic) {below : List InstanceId} (hp : h.Path i below) :
    below.length ≤ h.instances.size := by
  have hnodup : ((i :: below).dropLast.map InstanceId.index).Nodup :=
    ((ha.nodup_path hp).sublist (List.dropLast_sublist _)).map fun a b hab => by
      cases a
      cases b
      exact congrArg InstanceId.mk hab
  have hrange : (i :: below).dropLast.map InstanceId.index ⊆ List.range h.instances.size := by
    intro n hn
    obtain ⟨k, hk, rfl⟩ := List.mem_map.mp hn
    exact List.mem_range.mpr (lt_of_path hp k hk)
  simpa using (hnodup.subperm hrange).length_le

/-- Without cycles every instance has a longest path below it. -/
theorem Acyclic.exists_nesting (ha : h.Acyclic) (i : InstanceId) : ∃ levels, h.Nesting i levels := by
  let lengths := {n | ∃ below, h.Path i below ∧ below.length = n}
  have hbounded : BddAbove lengths := by
    refine ⟨h.instances.size, ?_⟩
    rintro n ⟨below, hp, rfl⟩
    exact ha.length_path_le hp
  have hlengths : lengths.Nonempty := ⟨0, [], path_nil h i, rfl⟩
  exact ⟨sSup lengths, Nat.sSup_mem hlengths hbounded, fun n hn => le_csSup hbounded hn⟩

theorem not_fitsUnder {bound : Nat} {owner : String} {e : Error}
    (hd : (Depth.root bound).descend owner = .error e) : ¬ h.FitsUnder bound i := by
  rintro ⟨levels, -, hle⟩
  cases bound with
  | zero => omega
  | succ bound => cases hd

/-- An instance fits under a bound if a traversal that starts with it gets to the
end of every path, once it has entered the instance. -/
theorem Acyclic.fitsUnder_iff (ha : h.Acyclic) {bound : Nat} {owner : String} {below : Depth}
    (hd : (Depth.root bound).descend owner = .ok below) :
    h.FitsUnder bound i ↔ h.NestsWithin i below.remaining := by
  cases bound with
  | zero => cases hd
  | succ bound =>
    cases hd
    change _ ↔ h.NestsWithin i bound
    constructor
    · rintro ⟨levels, hn, hle⟩
      exact hn.le_iff.mp (by omega)
    · intro hw
      obtain ⟨levels, hn⟩ := ha.exists_nesting i
      have hle := hn.le_iff.mpr hw
      exact ⟨levels, hn, by omega⟩

section
variable (hc : ∀ k, ReflTransGen h.Below i k → (h'.inst k).chain = (h.inst k).chain)

include hc

/-- The paths from an instance depend on the chains of what lies below it only, and
so does how deep it nests. -/
theorem path_congr (below : List InstanceId) : h'.Path i below ↔ h.Path i below := by
  induction below generalizing i with
  | nil => exact iff_of_true (path_nil h' i) (path_nil h i)
  | cons j below ih =>
    rw [path_cons, path_cons, Below, Below, hc i .refl]
    exact and_congr_right fun hb => ih fun k hk => hc k (.head hb hk)

theorem nestsWithin_congr {levels : Nat} : h'.NestsWithin i levels ↔ h.NestsWithin i levels := by
  simp only [NestsWithin, path_congr hc]

theorem fitsUnder_congr {bound : Nat} : h'.FitsUnder bound i ↔ h.FitsUnder bound i := by
  simp only [FitsUnder, Nesting, path_congr hc]

end

-- ---------------------------------------------------------------------------
-- The check
-- ---------------------------------------------------------------------------

theorem mem_instances_below :
    j ∈ (h.inst i).chain.delegates.filterMap Value.instance? ↔ h.Below i j := by
  simp only [List.mem_filterMap, Below]

theorem forM_error {ε α : Type} {f : α → Except ε Unit} {xs : List α} {e : ε}
    (hf : xs.forM f = .error e) : ∃ x ∈ xs, f x = .error e := by
  induction xs with
  | nil => cases hf
  | cons x xs ih =>
    change (f x >>= fun _ => xs.forM f) = .error e at hf
    cases hx : f x with
    | error e' =>
      rw [hx] at hf
      cases hf
      exact ⟨x, List.mem_cons_self, hx⟩
    | ok u =>
      rw [hx] at hf
      obtain ⟨y, hy, he⟩ := ih hf
      exact ⟨y, List.mem_cons_of_mem _ hy, he⟩

/-- A walk that ends well has gone down every path. -/
theorem checkBelow_nests {receiver : InstanceId} (depth : Depth)
    (hc : h.checkBelow receiver depth i = .ok ()) : h.NestsWithin i depth.remaining := by
  induction depth using Depth.down_induction generalizing i with
  | step depth ih =>
    rw [checkBelow, descend_eq, placementVisit] at hc
    split at hc
    case isTrue => cases hc
    case isFalse =>
      have hentered : ∀ j, h.Below i j → ∃ below, depth.descend (h.inst i).name = .ok below ∧
          h.NestsWithin j below.remaining := by
        intro j hb
        obtain ⟨below, hd, hc⟩ := bind_ok.mp (forM_ok hc j (mem_instances_below.mpr hb))
        exact ⟨below, hd, ih _ below hd hc⟩
      obtain ⟨level, remaining⟩ := depth
      cases remaining with
      | zero =>
        refine nestsWithin_zero.mpr fun j hb => ?_
        obtain ⟨below, hd, -⟩ := hentered j hb
        cases hd
      | succ remaining =>
        refine nestsWithin_succ.mpr fun j hb => ?_
        obtain ⟨below, hd, hn⟩ := hentered j hb
        cases hd
        exact hn

/-- A walk fails because it has met the receiver, or because some path is too
long for it. -/
theorem checkBelow_error {receiver : InstanceId} {e : Error} (depth : Depth)
    (hc : h.checkBelow receiver depth i = .error e) :
    e = .delegateCycle (h.inst receiver).name ∧ ReflTransGen h.Below i receiver ∨
      (∃ owner, e = .delegateDepth owner depth.max) ∧ ¬ h.NestsWithin i depth.remaining := by
  induction depth using Depth.down_induction generalizing i with
  | step depth ih =>
    rw [checkBelow, descend_eq, placementVisit] at hc
    split at hc
    case isTrue heq =>
      cases hc
      exact .inl ⟨rfl, heq ▸ .refl⟩
    case isFalse =>
      obtain ⟨j, hj, hc⟩ := forM_error hc
      have hb := mem_instances_below.mp hj
      obtain ⟨level, remaining⟩ := depth
      cases remaining with
      | zero =>
        cases hc
        exact .inr ⟨⟨_, rfl⟩, fun hn => nestsWithin_zero.mp hn j hb⟩
      | succ remaining =>
        have hd : Depth.descend ⟨level, remaining + 1⟩ (h.inst i).name =
            .ok ⟨level + 1, remaining⟩ := rfl
        rw [← Depth.max_descend hd]
        refine (ih _ _ hd hc).imp (fun hmet => ⟨hmet.1, .head hb hmet.2⟩) fun hlong => ?_
        exact ⟨hlong.1, fun hn => hlong.2 (nestsWithin_succ.mp hn j hb)⟩

theorem checkBelow_ok_iff {receiver : InstanceId} (depth : Depth) :
    h.checkBelow receiver depth i = .ok () ↔
      ¬ ReflTransGen h.Below i receiver ∧ h.NestsWithin i depth.remaining := by
  constructor
  · exact fun hc => ⟨checkBelow_ok depth hc, checkBelow_nests depth hc⟩
  · rintro ⟨hreach, hnests⟩
    cases hc : h.checkBelow receiver depth i with
    | ok u => rfl
    | error e =>
      rcases checkBelow_error depth hc with ⟨-, hmet⟩ | ⟨-, hlong⟩
      · exact absurd hmet hreach
      · exact absurd hnests hlong

theorem instance?_of_checkPlacement_error {receiver : InstanceId} {value : Value} {e : Error}
    (hc : h.checkPlacement receiver value = .error e) : ∃ j, value.instance? = some j := by
  refine Option.ne_none_iff_exists'.mp fun hj => ?_
  simp [checkPlacement, hj] at hc

/-- An installation is rejected because the receiver lies below the value, or
because the value nests too deep for it. -/
theorem Acyclic.checkPlacement_error (ha : h.Acyclic) {receiver : InstanceId} {value : Value}
    {e : Error} (hj : value.instance? = some j) (hc : h.checkPlacement receiver value = .error e) :
    e = .delegateCycle (h.inst receiver).name ∧ ReflTransGen h.Below j receiver ∨
      (∃ owner, e = .delegateDepth owner (h.inst receiver).maxDepth) ∧
        ¬ h.FitsUnder (h.inst receiver).maxDepth j := by
  simp only [checkPlacement, hj] at hc
  cases hd : (h.root receiver).descend (h.inst receiver).name with
  | error e' =>
    rw [hd] at hc
    obtain rfl := Depth.descend_error hd
    cases hc
    exact .inr ⟨⟨_, congrArg _ (Depth.max_root _)⟩, not_fitsUnder hd⟩
  | ok below =>
    rw [hd] at hc
    have hmax : below.max = (h.inst receiver).maxDepth :=
      (Depth.max_descend hd).trans (Depth.max_root _)
    rw [ha.fitsUnder_iff hd, ← hmax]
    exact checkBelow_error below hc

theorem Acyclic.checkPlacement_ok_iff (ha : h.Acyclic) {receiver : InstanceId} {value : Value} :
    h.checkPlacement receiver value = .ok () ↔ h.MayPlace receiver value := by
  unfold MayPlace
  cases hj : value.instance? with
  | none => simp [checkPlacement, hj]
  | some j =>
    simp only [checkPlacement, hj, Option.some.injEq, forall_eq']
    cases hd : (h.root receiver).descend (h.inst receiver).name with
    | error e =>
      constructor
      · intro hc
        cases hc
      · intro hm
        exact absurd hm.2 (not_fitsUnder hd)
    | ok below =>
      rw [ha.fitsUnder_iff hd]
      exact checkBelow_ok_iff below

end Delegation.Heap

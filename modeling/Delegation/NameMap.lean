/-!
# Maps keyed by names

A map keeps its entries in strictly ascending order of the names' UTF-8 bytes.
Two maps built from the same entries are therefore equal, whatever the order
in which the entries went in.
-/

namespace Delegation

def nameBytes (name : String) : List UInt8 := name.toUTF8.data.toList

/-- Names are ordered by their UTF-8 bytes: a proper beginning comes first. -/
def nameOrder (a b : String) : Ordering := compare (nameBytes a) (nameBytes b)

theorem nameBytes_inj {a b : String} (h : nameBytes a = nameBytes b) : a = b := by
  apply String.toByteArray_inj.mp
  simp only [nameBytes, String.toUTF8] at h
  cases ha : a.toByteArray
  cases hb : b.toByteArray
  simp_all

theorem nameOrder_eq_iff {a b : String} : nameOrder a b = .eq ↔ a = b := by
  constructor
  · intro h
    exact nameBytes_inj (Std.LawfulEqOrd.eq_of_compare h)
  · rintro rfl
    exact Std.ReflOrd.compare_self

theorem nameOrder_swap (a b : String) : (nameOrder a b).swap = nameOrder b a :=
  Std.OrientedOrd.eq_swap.symm

theorem nameOrder_gt_iff {a b : String} : nameOrder a b = .gt ↔ nameOrder b a = .lt := by
  rw [← nameOrder_swap a b]
  cases nameOrder a b <;> simp

theorem nameOrder_trans {a b c : String} (hab : nameOrder a b = .lt) (hbc : nameOrder b c = .lt) :
    nameOrder a c = .lt := by
  unfold nameOrder at *
  exact Std.TransCmp.lt_trans hab hbc

/-- Each name comes before all names after it. -/
def Ascending {α : Type} (entries : List (String × α)) : Prop :=
  entries.Pairwise fun a b => nameOrder a.1 b.1 = .lt

theorem ascending_nil {α : Type} : Ascending ([] : List (String × α)) := .nil

/-- Puts an entry in its place among entries in order, over one of the same name. -/
def place {α : Type} (name : String) (value : α) : List (String × α) → List (String × α)
  | [] => [(name, value)]
  | (other, held) :: rest =>
    match nameOrder name other with
    | .lt => (name, value) :: (other, held) :: rest
    | .eq => (name, value) :: rest
    | .gt => (other, held) :: place name value rest

theorem mem_place {α : Type} {name : String} {value : α} {entries : List (String × α)}
    {entry : String × α} (h : entry ∈ place name value entries) :
    entry = (name, value) ∨ entry ∈ entries := by
  induction entries with
  | nil => simpa [place] using h
  | cons first rest ih =>
    obtain ⟨other, held⟩ := first
    unfold place at h
    split at h
    · simpa using h
    · exact (List.mem_cons.mp h).imp id (List.mem_cons_of_mem _)
    · rcases List.mem_cons.mp h with rfl | h
      · exact .inr List.mem_cons_self
      · exact (ih h).imp id (List.mem_cons_of_mem _)

theorem ascending_place {α : Type} {entries : List (String × α)} (h : Ascending entries)
    (name : String) (value : α) : Ascending (place name value entries) := by
  induction entries with
  | nil => exact List.pairwise_singleton _ _
  | cons first rest ih =>
    obtain ⟨other, held⟩ := first
    obtain ⟨hfirst, hrest⟩ := List.pairwise_cons.mp h
    unfold place
    cases ho : nameOrder name other with
    | lt =>
      refine List.pairwise_cons.mpr ⟨fun entry he => ?_, h⟩
      rcases List.mem_cons.mp he with rfl | he
      · exact ho
      · exact nameOrder_trans ho (hfirst entry he)
    | eq =>
      obtain rfl := nameOrder_eq_iff.mp ho
      exact List.pairwise_cons.mpr ⟨hfirst, hrest⟩
    | gt =>
      refine List.pairwise_cons.mpr ⟨fun entry he => ?_, ih hrest⟩
      rcases mem_place he with rfl | he
      · exact nameOrder_gt_iff.mp ho
      · exact hfirst entry he

structure NameMap (α : Type) where
  entries : List (String × α) := []
  ascending : Ascending entries := by exact ascending_nil
  deriving DecidableEq

instance {α : Type} : Inhabited (NameMap α) := ⟨{}⟩

namespace NameMap

variable {α : Type}

def empty : NameMap α := {}

def insert (map : NameMap α) (name : String) (value : α) : NameMap α :=
  ⟨place name value map.entries, ascending_place map.ascending name value⟩

def get? (map : NameMap α) (name : String) : Option α :=
  map.entries.lookup name

def contains (map : NameMap α) (name : String) : Bool :=
  (map.get? name).isSome

def names (map : NameMap α) : List String :=
  map.entries.map Prod.fst

def values (map : NameMap α) : List α :=
  map.entries.map Prod.snd

def size (map : NameMap α) : Nat :=
  map.entries.length

def isEmpty (map : NameMap α) : Bool :=
  map.entries.isEmpty

/-- Of several pairs with one name the last counts. -/
def ofList (pairs : List (String × α)) : NameMap α :=
  pairs.foldl (fun map pair => map.insert pair.1 pair.2) empty

theorem lookup_place_self (name : String) (value : α) (entries : List (String × α)) :
    (place name value entries).lookup name = some value := by
  induction entries with
  | nil => simp [place]
  | cons entry rest ih =>
    obtain ⟨other, held⟩ := entry
    unfold place
    cases h : nameOrder name other with
    | lt => simp
    | eq => simp
    | gt =>
      have hn : (name == other) = false := by
        rw [beq_eq_false_iff_ne]
        rintro rfl
        simp [nameOrder_eq_iff.mpr rfl] at h
      simp [List.lookup_cons, hn, ih]

theorem lookup_place_of_ne {name other : String} (hn : other ≠ name) (value : α)
    (entries : List (String × α)) :
    (place name value entries).lookup other = entries.lookup other := by
  have hb : (other == name) = false := by simpa using hn
  induction entries with
  | nil => simp [place, List.lookup_cons, hb]
  | cons entry rest ih =>
    obtain ⟨key, held⟩ := entry
    unfold place
    cases h : nameOrder name key with
    | lt => simp [List.lookup_cons, hb]
    | eq =>
      obtain rfl := nameOrder_eq_iff.mp h
      simp [List.lookup_cons, hb]
    | gt => simp [List.lookup_cons, ih]

@[simp] theorem get?_insert_self (map : NameMap α) (name : String) (value : α) :
    (map.insert name value).get? name = some value :=
  lookup_place_self name value map.entries

theorem get?_insert_of_ne (map : NameMap α) {name other : String} (hn : other ≠ name) (value : α) :
    (map.insert name value).get? other = map.get? other :=
  lookup_place_of_ne hn value map.entries

theorem contains_insert {map : NameMap α} {other : String} (h : map.contains other = true)
    (name : String) (value : α) : (map.insert name value).contains other = true := by
  unfold contains at h ⊢
  by_cases ho : other = name
  · simp [ho]
  · rwa [get?_insert_of_ne _ ho]

theorem mem_values_of_get? {map : NameMap α} {name : String} {value : α}
    (h : map.get? name = some value) : value ∈ map.values := by
  obtain ⟨before, after, he, -⟩ := List.lookup_eq_some_iff.mp h
  exact List.mem_map.mpr ⟨(name, value), by simp [he], rfl⟩

theorem mem_values_insert {map : NameMap α} {name : String} {value held : α}
    (h : held ∈ (map.insert name value).values) : held ∈ map.values ∨ held = value := by
  obtain ⟨entry, he, rfl⟩ := List.mem_map.mp h
  rcases mem_place he with rfl | he
  · exact .inr rfl
  · exact .inl (List.mem_map_of_mem he)

theorem mem_values_ofList {pairs : List (String × α)} {held : α}
    (h : held ∈ (ofList pairs).values) : ∃ pair ∈ pairs, pair.2 = held := by
  suffices ∀ map : NameMap α,
      held ∈ (pairs.foldl (fun map pair => map.insert pair.1 pair.2) map).values →
        held ∈ map.values ∨ ∃ pair ∈ pairs, pair.2 = held from
    (this empty h).resolve_left (by simp [values, empty])
  clear h
  induction pairs with
  | nil => exact fun map h => .inl h
  | cons pair rest ih =>
    intro map h
    rcases ih _ h with h | ⟨other, ho, rfl⟩
    · rcases mem_values_insert h with h | rfl
      · exact .inl h
      · exact .inr ⟨pair, List.mem_cons_self, rfl⟩
    · exact .inr ⟨other, List.mem_cons_of_mem _ ho, rfl⟩

theorem lookup_eq_none_of_lt {name : String} {entries : List (String × α)}
    (h : ∀ entry ∈ entries, nameOrder name entry.1 = .lt) : entries.lookup name = none := by
  induction entries with
  | nil => rfl
  | cons entry rest ih =>
    obtain ⟨other, held⟩ := entry
    have hn : (name == other) = false := by
      rw [beq_eq_false_iff_ne]
      rintro rfl
      simpa [nameOrder_eq_iff.mpr rfl] using h _ List.mem_cons_self
    rw [List.lookup_cons, hn]
    exact ih fun entry he => h entry (List.mem_cons_of_mem _ he)

/-- Entries in order are determined by what names they hold. -/
theorem eq_of_lookup_eq {xs ys : List (String × α)} (hx : Ascending xs) (hy : Ascending ys)
    (h : ∀ name, xs.lookup name = ys.lookup name) : xs = ys := by
  induction xs generalizing ys with
  | nil =>
    cases ys with
    | nil => rfl
    | cons entry rest =>
      obtain ⟨name, value⟩ := entry
      simpa [List.lookup_cons] using h name
  | cons entry rest ih =>
    obtain ⟨name, value⟩ := entry
    obtain ⟨hfirst, hrest⟩ := List.pairwise_cons.mp hx
    cases ys with
    | nil => simpa [List.lookup_cons] using h name
    | cons entry' rest' =>
      obtain ⟨name', value'⟩ := entry'
      obtain ⟨hfirst', hrest'⟩ := List.pairwise_cons.mp hy
      cases ho : nameOrder name name' with
      | lt =>
        have hnone : ((name', value') :: rest').lookup name = none :=
          lookup_eq_none_of_lt fun entry he => (List.mem_cons.mp he).elim (fun e => e ▸ ho)
            fun he => nameOrder_trans ho (hfirst' entry he)
        simpa [hnone] using h name
      | gt =>
        have hnone : ((name, value) :: rest).lookup name' = none :=
          lookup_eq_none_of_lt fun entry he =>
            (List.mem_cons.mp he).elim (fun e => e ▸ nameOrder_gt_iff.mp ho)
              fun he => nameOrder_trans (nameOrder_gt_iff.mp ho) (hfirst entry he)
        simpa [hnone] using h name'
      | eq =>
        obtain rfl := nameOrder_eq_iff.mp ho
        have hvalue : value = value' := by simpa using h name
        subst hvalue
        congr 1
        refine ih hrest hrest' fun other => ?_
        by_cases hn : other = name
        · subst hn
          rw [lookup_eq_none_of_lt hfirst, lookup_eq_none_of_lt hfirst']
        · have hb : (other == name) = false := by simpa using hn
          simpa [List.lookup_cons, hb] using h other

/-- Two maps that hold the same are equal. -/
theorem ext_get? {a b : NameMap α} (h : ∀ name, a.get? name = b.get? name) : a = b := by
  obtain ⟨xs, hx⟩ := a
  obtain ⟨ys, hy⟩ := b
  obtain rfl : xs = ys := eq_of_lookup_eq hx hy h
  rfl

theorem insert_insert_self (map : NameMap α) (name : String) (first second : α) :
    (map.insert name first).insert name second = map.insert name second := by
  refine ext_get? fun other => ?_
  by_cases ho : other = name
  · rw [ho, get?_insert_self, get?_insert_self]
  · simp only [get?_insert_of_ne _ ho]

theorem insert_comm (map : NameMap α) {name other : String} (hn : other ≠ name) (value held : α) :
    (map.insert name value).insert other held = (map.insert other held).insert name value := by
  refine ext_get? fun asked => ?_
  by_cases ha : asked = name
  · rw [ha, get?_insert_of_ne _ hn.symm, get?_insert_self, get?_insert_self]
  · rw [get?_insert_of_ne _ ha]
    by_cases ho : asked = other
    · rw [ho, get?_insert_self, get?_insert_self]
    · simp only [get?_insert_of_ne _ ho, get?_insert_of_ne _ ha]

theorem insert_of_get? {map : NameMap α} {name : String} {value : α}
    (h : map.get? name = some value) : map.insert name value = map := by
  refine ext_get? fun other => ?_
  by_cases ho : other = name
  · rw [ho, get?_insert_self, h]
  · exact get?_insert_of_ne _ ho value

end NameMap

end Delegation

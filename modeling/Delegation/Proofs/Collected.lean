import Delegation.NameMap

/-!
# Maps collected from pairs

Pairs put into a map one after the other leave it with their names in the order of
the bytes, each once, and with the value that each name came with last
(`collects_insertAll`).
-/

namespace Delegation

theorem compare_lt_iff (xs ys : List UInt8) : compare xs ys = .lt ↔ xs < ys := by
  induction xs generalizing ys with
  | nil => cases ys <;> simp
  | cons x xs ih =>
    cases ys with
    | nil => simp
    | cons y ys =>
      rw [List.compare_cons_cons, Ordering.then_eq_lt, ih, List.cons_lt_cons_iff,
        Std.compare_eq_lt, Std.compare_eq_iff_eq]

theorem nameOrder_lt_iff {a b : String} : nameOrder a b = .lt ↔ nameBytes a < nameBytes b :=
  compare_lt_iff _ _

/-- Strictly ascending in the order of the names' UTF-8 bytes. -/
structure InByteOrder (names : List String) : Prop where
  ascending : names.Pairwise fun a b => nameBytes a < nameBytes b
  distinct : names.Nodup

section
variable {α : Type} {entries : List (String × α)} {name : String}

theorem lookup_of_not_mem (hn : name ∉ entries.map Prod.fst) : entries.lookup name = none := by
  refine List.lookup_eq_none_iff.mpr fun entry he => bne_iff_ne.mpr ?_
  rintro rfl
  exact hn (List.mem_map_of_mem he)

theorem lookup_reverse_of_not_mem (hn : name ∉ entries.map Prod.fst) :
    entries.reverse.lookup name = none :=
  lookup_of_not_mem (by rwa [List.map_reverse, List.mem_reverse])

/-- Where no name occurs twice, the first entry of a name is the last. -/
theorem lookup_reverse (hd : (entries.map Prod.fst).Nodup) (name : String) :
    entries.reverse.lookup name = entries.lookup name := by
  induction entries with
  | nil => rfl
  | cons entry rest ih =>
    obtain ⟨other, held⟩ := entry
    obtain ⟨hnew, hrest⟩ := List.nodup_cons.mp hd
    rw [List.reverse_cons, List.lookup_append, ih hrest, List.lookup_cons]
    by_cases ho : name = other
    · subst ho
      simp [lookup_of_not_mem hnew]
    · have hb : (name == other) = false := beq_eq_false_iff_ne.mpr ho
      simp [List.lookup_cons, hb]

end

namespace NameMap

variable {α : Type} (map : NameMap α) {pairs : List (String × α)} {name : String}

/-- Of several pairs with one name the last counts. -/
def insertAll (pairs : List (String × α)) : NameMap α :=
  pairs.foldl (fun map pair => map.insert pair.1 pair.2) map

/-- The map that pairs make that go in one after the other. -/
structure Collects (pairs : List (String × α)) : Prop extends InByteOrder map.names where
  names : ∀ name, name ∈ map.names ↔ name ∈ pairs.map Prod.fst
  last : ∀ before name value after, pairs = before ++ (name, value) :: after →
    name ∉ after.map Prod.fst → map.get? name = some value

theorem inByteOrder : InByteOrder map.names := by
  have hascending : map.names.Pairwise fun a b => nameBytes a < nameBytes b :=
    List.pairwise_map.mpr (map.ascending.imp nameOrder_lt_iff.mp)
  refine ⟨hascending, hascending.imp ?_⟩
  rintro a _ hlt rfl
  exact List.lt_irrefl _ hlt

theorem contains_iff : map.contains name = true ↔ name ∈ map.names := by
  simp [contains, get?, names, List.lookup_isSome_iff]

@[simp] theorem insertAll_nil : map.insertAll [] = map := rfl

theorem insertAll_append (pairs later : List (String × α)) :
    map.insertAll (pairs ++ later) = (map.insertAll pairs).insertAll later :=
  List.foldl_append

theorem get?_insertAll (pairs : List (String × α)) (name : String) :
    (map.insertAll pairs).get? name = (pairs.reverse.lookup name).or (map.get? name) := by
  induction pairs generalizing map with
  | nil => rfl
  | cons pair rest ih =>
    obtain ⟨other, held⟩ := pair
    change ((map.insert other held).insertAll rest).get? name = _
    rw [ih, List.reverse_cons, List.lookup_append, Option.or_assoc]
    congr 1
    by_cases hn : name = other
    · subst hn
      simp
    · have hb : (name == other) = false := beq_eq_false_iff_ne.mpr hn
      simp [map.get?_insert_of_ne hn, List.lookup_cons, hb]

variable {map}

theorem collects_of_get? (hg : ∀ name, map.get? name = pairs.reverse.lookup name) :
    map.Collects pairs where
  toInByteOrder := map.inByteOrder
  names name := by
    rw [← map.contains_iff, contains, hg]
    simp [List.lookup_isSome_iff]
  last before name value after hp hn := by
    simp [hg, hp, List.lookup_append, lookup_reverse_of_not_mem hn]

theorem collects_insertAll (map : NameMap α) (pairs : List (String × α)) :
    (map.insertAll pairs).Collects (map.entries ++ pairs) :=
  collects_of_get? fun name => by
    rw [get?_insertAll, List.reverse_append, List.lookup_append,
      lookup_reverse map.inByteOrder.distinct]
    rfl

theorem collects_ofList (pairs : List (String × α)) : (ofList pairs).Collects pairs :=
  collects_insertAll empty pairs

/-- Names that are not written keep their values. -/
theorem get?_insertAll_of_not_mem (hn : name ∉ pairs.map Prod.fst) :
    (map.insertAll pairs).get? name = map.get? name := by
  rw [get?_insertAll, lookup_reverse_of_not_mem hn, Option.none_or]

end NameMap

end Delegation

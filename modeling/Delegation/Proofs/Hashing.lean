import Mathlib.Data.Nat.Bitwise
import Delegation.Heap.HashInput

/-!
# Equality and hashing

Values that are the same hash alike, with one exception: the two zeros are
equal as numbers, and a float hashes by its bits (`same_hash_iff`).
-/

namespace Delegation

/-- Neither hashes, or both do and by the same input. -/
inductive SameHash : Except Error HashInput → Except Error HashInput → Prop where
  | unhashable {e e' : Error} :
      e.kind = .notHashable → e'.kind = .notHashable → SameHash (.error e) (.error e')
  | hashed (input : HashInput) : SameHash (.ok input) (.ok input)

theorem sameHash_ok {u v : HashInput} : SameHash (.ok u) (.ok v) ↔ u = v := by
  constructor
  · intro hs
    cases hs
    rfl
  · rintro rfl
    exact .hashed u

/-- One value is the positive zero, the other the negative one. -/
def OppositeZeros : Value → Value → Prop
  | .float x, .float y =>
    x.isZero = true ∧ y.isZero = true ∧ x.isNegative ≠ y.isNegative
  | _, _ => False

-- ---------------------------------------------------------------------------
-- Floats
-- ---------------------------------------------------------------------------

namespace Binary64

variable {x y : Binary64}

theorem bits_inj : x.bits = y.bits ↔ x = y := by
  rw [← Binary64.mk.injEq]

theorem isZero_iff : x.isZero = true ↔ x.bits.toNat % 2 ^ 63 = 0 := by
  have hmask : (0x7fffffffffffffff : UInt64).toNat = 2 ^ 63 - 1 := rfl
  rw [isZero, magnitude, beq_iff_eq, ← UInt64.toNat_inj, UInt64.toNat_and, hmask,
    Nat.and_two_pow_sub_one_eq_mod]
  rfl

theorem isNegative_iff : x.isNegative = true ↔ x.bits.toNat / 2 ^ 63 = 1 := by
  rw [isNegative, beq_iff_eq, ← UInt64.toNat_inj, UInt64.toNat_shiftRight,
    Nat.shiftRight_eq_div_pow]
  rfl

/-- A zero is all sign. -/
theorem zero_eq_iff (hx : x.isZero = true) (hy : y.isZero = true) :
    x = y ↔ x.isNegative = y.isNegative := by
  constructor
  · rintro rfl
    rfl
  · intro hs
    have hx := isZero_iff.mp hx
    have hy := isZero_iff.mp hy
    have hs : x.bits.toNat / 2 ^ 63 = 1 ↔ y.bits.toNat / 2 ^ 63 = 1 := by
      rw [← isNegative_iff, ← isNegative_iff, hs]
    have hxlt := x.bits.toNat_lt
    have hylt := y.bits.toNat_lt
    exact bits_inj.mp (UInt64.toNat_inj.mp (by omega))

/-- Numbers that are equal have the same bits, or both are zeros. -/
theorem eq_or_zeros_of_numEq (he : x.numEq y = true) :
    x = y ∨ x.isZero = true ∧ y.isZero = true := by
  simp only [numEq, Bool.and_eq_true, Bool.or_eq_true, beq_iff_eq] at he
  exact he.2.imp bits_inj.mp id

def negativeZero : Binary64 := ⟨0x8000000000000000⟩

end Binary64

theorem wordBytes_getElem? (word : UInt64) {k : Nat} (hk : k < 8) :
    (wordBytes word)[k]?.map UInt8.toNat = some (word.toNat / 256 ^ k % 256) := by
  have hshift : (8 * k).toUInt64.toNat % 64 = 8 * k := by
    simp only [Nat.toUInt64, UInt64.toNat_ofNat']
    omega
  rw [wordBytes, List.getElem?_map, List.getElem?_range hk]
  simp only [Option.map_some, UInt64.toNat_toUInt8, UInt64.toNat_shiftRight, hshift,
    Nat.shiftRight_eq_div_pow, Nat.pow_mul]

/-- The bytes of a word determine it. -/
theorem wordBytes_inj {v w : UInt64} : wordBytes v = wordBytes w ↔ v = w := by
  constructor
  · intro hb
    have hbyte {k : Nat} (hk : k < 8) : v.toNat / 256 ^ k % 256 = w.toNat / 256 ^ k % 256 := by
      have hv := wordBytes_getElem? v hk
      rw [hb, wordBytes_getElem? w hk] at hv
      exact (Option.some.inj hv).symm
    have hlow : ∀ k ≤ 8, v.toNat % 256 ^ k = w.toNat % 256 ^ k := by
      intro k hk
      induction k with
      | zero => rw [Nat.pow_zero, Nat.mod_one, Nat.mod_one]
      | succ k ih => rw [Nat.mod_pow_succ, Nat.mod_pow_succ, ih (by omega), hbyte hk]
    have hv : v.toNat < 256 ^ 8 := v.toNat_lt
    have hw : w.toNat < 256 ^ 8 := w.toNat_lt
    have hall := hlow 8 (Nat.le_refl 8)
    rw [Nat.mod_eq_of_lt hv, Nat.mod_eq_of_lt hw] at hall
    exact UInt64.toNat_inj.mp hall
  · rintro rfl
    rfl

-- ---------------------------------------------------------------------------
-- Values
-- ---------------------------------------------------------------------------

/-- Only the zeros are the same without being equal. -/
theorem Value.eq_or_zeros_of_same {a b : Value} (hs : a.same b = true) :
    a = b ∨ ∃ x y, a = .float x ∧ b = .float y ∧ x.isZero = true ∧ y.isZero = true := by
  unfold Value.same at hs
  split at hs
  case h_1 x y =>
    rcases Binary64.eq_or_zeros_of_numEq hs with rfl | ⟨hx, hy⟩
    · exact .inl rfl
    · exact .inr ⟨x, y, rfl, rfl, hx, hy⟩
  case h_2 => exact .inl (eq_of_beq hs)

namespace Heap

variable (h : Heap)

theorem sameHash_self (value : Value) : SameHash (h.hashInput value) (h.hashInput value) := by
  cases value <;> first | exact .hashed _ | exact .unhashable rfl rfl

theorem sameHash_float_iff {x y : Binary64} :
    SameHash (h.hashInput (.float x)) (h.hashInput (.float y)) ↔ x = y := by
  rw [hashInput, hashInput, sameHash_ok, HashInput.bytes.injEq, wordBytes_inj, Binary64.bits_inj]

/-- Two values that are the same hash alike, or fail to hash both, unless they
are the two zeros. -/
theorem same_hash_iff {a b : Value} (hs : a.same b = true) :
    SameHash (h.hashInput a) (h.hashInput b) ↔ ¬ OppositeZeros a b := by
  rcases Value.eq_or_zeros_of_same hs with rfl | ⟨x, y, rfl, rfl, hx, hy⟩
  · refine iff_of_true (h.sameHash_self a) fun ho => ?_
    cases a with
    | float x => exact ho.2.2 rfl
    | _ => exact ho
  · rw [sameHash_float_iff, Binary64.zero_eq_iff hx hy]
    simp only [OppositeZeros, hx, hy, true_and, ne_eq, not_not]

theorem same_hash_negative_zero :
    (Value.float .negativeZero).same (.float .negativeZero) = true ∧
      SameHash (hashInput {} (.float .negativeZero)) (hashInput {} (.float .negativeZero)) := by
  have hs : (Value.float .negativeZero).same (.float .negativeZero) = true := rfl
  exact ⟨hs, (same_hash_iff {} hs).mpr fun ho => ho.2.2 rfl⟩

/-- The zeros are equal, and yet they hash apart. -/
theorem zeros_hash_apart :
    (Value.float ⟨0⟩).same (.float .negativeZero) = true ∧
      ¬ SameHash (hashInput {} (.float ⟨0⟩)) (hashInput {} (.float .negativeZero)) := by
  refine ⟨rfl, ?_⟩
  rw [sameHash_float_iff]
  decide

end Heap

end Delegation

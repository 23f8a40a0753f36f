import Interclus.Framework.DoubleWord

/-! # Split Counters

    A counter of `v = w + w` bits that only goes up, read one half at a
    time with any delay between two accesses.

    The low half first and the high half after it need not be the halves
    of any value the counter went through.  The low half between two equal
    readings of the high half is: the three accesses yield the value at
    the middle one. -/

namespace SplitCounter

open DoubleWord

/-- A counter, by its value at each successive access. -/
structure Counter (v : Nat) where
  value : Nat → BitVec v
  rises : ∀ n, value n ≤ value (n + 1)

theorem Counter.le {v : Nat} (c : Counter v) {m n : Nat} (h : m ≤ n) : c.value m ≤ c.value n := by
  induction h with
  | refl => exact Nat.le_refl _
  | step _ ih => exact Nat.le_trans ih (c.rises _)

section Halves
variable {w v : Nat} (hv : v = w + w)
include hv

/-- Comparing the halves. -/
theorem le_iff {x y : BitVec v} :
    x ≤ y ↔ high w x < high w y ∨ high w x = high w y ∧ low w x ≤ low w y := by
  rw [← join_le_join hv, join_halves hv, join_halves hv]

theorem high_le_high {x y : BitVec v} (h : x ≤ y) : high w x ≤ high w y := by
  rcases (le_iff hv).mp h with hlt | ⟨heq, _⟩
  · exact Nat.le_of_lt hlt
  · exact heq ▸ Nat.le_refl _

/-! ## Low half first -/

/-- Never below the first value. -/
theorem le_join_torn {x y : BitVec v} (h : x ≤ y) : x ≤ join v (high w y) (low w x) := by
  have hself : join v (high w x) (low w x) = x := join_halves hv x
  rw [← hself, join_le_join hv, hself]
  rcases (le_iff hv).mp h with hlt | ⟨heq, _⟩
  · exact .inl hlt
  · exact .inr ⟨heq, Nat.le_refl _⟩

/-- Not above the second value exactly when the low half did not fall. -/
theorem join_torn_le_iff {x y : BitVec v} :
    join v (high w y) (low w x) ≤ y ↔ low w x ≤ low w y := by
  have hself : join v (high w y) (low w y) = y := join_halves hv y
  constructor
  · intro h
    rw [← hself, join_le_join hv, hself] at h
    rcases h with hlt | ⟨_, hle⟩
    · exact absurd hlt (Nat.lt_irrefl _)
    · exact hle
  · intro h
    have hle : join v (high w y) (low w x) ≤ join v (high w y) (low w y) :=
      (join_le_join hv).mpr (.inr ⟨rfl, h⟩)
    rwa [hself] at hle

/-- One wrap of the low half in between puts the value a whole `2 ^ w` after
    the first. -/
theorem join_torn_wrap {x y : BitVec v} (h : high w y = high w x + 1) :
    join v (high w y) (low w x) = x + BitVec.twoPow v w := by
  have hlow := (low w x).isLt
  have hsquare : 2 ^ v = 2 ^ w * 2 ^ w := by rw [hv, Nat.pow_add]
  have hpow : (BitVec.twoPow v w).toNat = 2 ^ w % (2 ^ w * 2 ^ w) := by
    rw [BitVec.toNat_twoPow, hsquare]
  have hhigh : (high w y).toNat = ((high w x).toNat + 1) % 2 ^ w := by
    rw [h]
    simp [BitVec.toNat_add]
  apply BitVec.eq_of_toNat_eq
  rw [toNat_join hv, BitVec.toNat_add, hpow, hsquare, Nat.add_mod_mod, toNat_halves hv x, hhigh]
  rw [← mod_square (2 ^ w) _ hlow, Nat.add_mul, Nat.one_mul]
  congr 1
  omega

/-! ## High half twice -/

/-- The high half did not move around the access in the middle. -/
theorem join_reread {x y z : BitVec v} (hxy : x ≤ y) (hyz : y ≤ z)
    (hsame : high w x = high w z) : join v (high w x) (low w y) = y := by
  have hlow : high w x ≤ high w y := high_le_high hv hxy
  have hup : high w y ≤ high w x := hsame ▸ high_le_high hv hyz
  rw [BitVec.le_antisymm hlow hup, join_halves hv]

/-- A reading to be repeated begins again at a larger high half. -/
theorem high_lt_of_ne (c : Counter v) {n : Nat}
    (h : high w (c.value n) ≠ high w (c.value (n + 2))) :
    high w (c.value n) < high w (c.value (n + 3)) := by
  have hle : high w (c.value n) ≤ high w (c.value (n + 2)) :=
    high_le_high hv (c.le (Nat.le_add_right n 2))
  have hnext : high w (c.value (n + 2)) ≤ high w (c.value (n + 3)) :=
    high_le_high hv (c.rises (n + 2))
  have hlt : (high w (c.value n)).toNat < (high w (c.value (n + 2))).toNat :=
    Nat.lt_of_le_of_ne hle fun heq => h (BitVec.eq_of_toNat_eq heq)
  exact Nat.lt_of_lt_of_le hlt hnext

end Halves

end SplitCounter

import Mathlib.Data.BitVec
import Mathlib.Tactic.LinearCombination
import Mathlib.Tactic.Ring

/-! # Double Words

    A word of `v = w + w` bits as two halves of `w`: how the halves are put
    together and taken apart, and what shifting, multiplying, adding and
    comparing double words comes to on the halves.

    All results are at arbitrary widths. -/

namespace DoubleWord

variable {w : Nat}

/-- `(hi << w) | lo`. -/
def join (v : Nat) (hi lo : BitVec w) : BitVec v := hi.setWidth v <<< w ||| lo.setWidth v

/-- The low half. -/
def low (w : Nat) {v : Nat} (x : BitVec v) : BitVec w := x.setWidth w

/-- The high half. -/
def high (w : Nat) {v : Nat} (x : BitVec v) : BitVec w := (x >>> w).setWidth w

section Halves
variable {v : Nat} (hv : v = w + w)
include hv

theorem getLsbD_join (hi lo : BitVec w) (i : Nat) :
    (join v hi lo).getLsbD i = if i < w then lo.getLsbD i else hi.getLsbD (i - w) := by
  simp only [join, BitVec.getLsbD_or, BitVec.getLsbD_shiftLeft, BitVec.getLsbD_setWidth]
  by_cases hlow : i < w
  · simp [hlow, show i < v by omega]
  · by_cases hin : i < v
    · simp [hlow, hin, show i - w < v by omega, BitVec.getLsbD_of_ge lo i (by omega)]
    · simp [hlow, hin, BitVec.getLsbD_of_ge hi (i - w) (by omega)]

/-- The halves of a word put together again. -/
theorem join_halves (x : BitVec v) : join v (high w x) (low w x) = x := by
  apply BitVec.eq_of_getLsbD_eq
  intro i hi
  rw [getLsbD_join hv]
  by_cases hlow : i < w
  · simp [hlow, low]
  · simp [hlow, high, show i - w < w by omega, show w + (i - w) = i by omega]

theorem msb_join (hi lo : BitVec w) : (join v hi lo).msb = hi.msb := by
  rcases Nat.eq_zero_or_pos w with rfl | hw
  · subst hv
    rw [BitVec.eq_nil hi, BitVec.eq_nil lo]
    rfl
  · rw [BitVec.msb_eq_getLsbD_last, BitVec.msb_eq_getLsbD_last, getLsbD_join hv,
      if_neg (by omega), show v - 1 - w = w - 1 by omega]

theorem toNat_join (hi lo : BitVec w) : (join v hi lo).toNat = hi.toNat * 2 ^ w + lo.toNat := by
  have hhi : hi.toNat * 2 ^ w < 2 ^ v := by
    rw [hv, Nat.pow_add]
    exact Nat.mul_lt_mul_of_pos_right hi.isLt (Nat.two_pow_pos w)
  have hwide : ∀ x : BitVec w, (x.setWidth v).toNat = x.toNat := fun x =>
    BitVec.toNat_setWidth_of_le (by omega)
  rw [join, BitVec.toNat_or, BitVec.toNat_shiftLeft, hwide, hwide, Nat.shiftLeft_eq,
    Nat.mod_eq_of_lt hhi, Nat.mul_comm, ← Nat.two_pow_add_eq_or_of_lt lo.isLt]

theorem low_join (hi lo : BitVec w) : low w (join v hi lo) = lo := by
  apply BitVec.eq_of_getLsbD_eq
  intro i hi'
  rw [low, BitVec.getLsbD_setWidth, getLsbD_join hv]
  simp [hi']

theorem high_join (hi lo : BitVec w) : high w (join v hi lo) = hi := by
  apply BitVec.eq_of_getLsbD_eq
  intro i hi'
  rw [high, BitVec.getLsbD_setWidth, BitVec.getLsbD_ushiftRight, getLsbD_join hv]
  simp [hi', show w + i - w = i by omega]

/-- The halves of a word, as numbers. -/
theorem toNat_halves (x : BitVec v) : x.toNat = (high w x).toNat * 2 ^ w + (low w x).toNat := by
  rw [← toNat_join hv, join_halves hv]

/-! ## Shifts -/

theorem shiftLeft_join_lt {n : Nat} (hn : n < w) (hi lo : BitVec w) :
    join v hi lo <<< n = join v (hi <<< n ||| lo >>> (w - n)) (lo <<< n) := by
  apply BitVec.eq_of_getLsbD_eq
  intro i hi'
  rw [getLsbD_join hv, BitVec.getLsbD_shiftLeft, getLsbD_join hv]
  simp only [BitVec.getLsbD_or, BitVec.getLsbD_shiftLeft, BitVec.getLsbD_ushiftRight]
  by_cases hlow : i < w
  · simp [hlow, hi', show i - n < w by omega]
  · -- a bit of the high half comes from the low half when it is below `n`
    by_cases hcross : i - w < n
    · simp [hlow, hi', hcross, show ¬ i < n by omega, show i - n < w by omega,
        show w - n + (i - w) = i - n by omega]
    · simp [hlow, hi', hcross, show ¬ i < n by omega, show ¬ i - n < w by omega,
        show i - w < w by omega, show i - n - w = i - w - n by omega,
        BitVec.getLsbD_of_ge lo (w - n + (i - w)) (by omega)]

theorem shiftLeft_join_ge {n : Nat} (hn : w ≤ n) (hi lo : BitVec w) :
    join v hi lo <<< n = join v (lo <<< (n - w)) 0 := by
  apply BitVec.eq_of_getLsbD_eq
  intro i hi'
  rw [getLsbD_join hv, BitVec.getLsbD_shiftLeft, getLsbD_join hv]
  simp only [BitVec.getLsbD_shiftLeft]
  by_cases hlow : i < w
  · simp [hlow, show i < n by omega]
  · by_cases hout : i < n
    · simp [hlow, hout, show i - w < n - w by omega]
    · simp [hlow, hi', hout, show ¬ i - w < n - w by omega, show i - n < w by omega,
        show i - w < w by omega, show i - w - (n - w) = i - n by omega]

theorem ushiftRight_join_lt {n : Nat} (hn : n < w) (hi lo : BitVec w) :
    join v hi lo >>> n = join v (hi >>> n) (lo >>> n ||| hi <<< (w - n)) := by
  apply BitVec.eq_of_getLsbD_eq
  intro i hi'
  rw [getLsbD_join hv, BitVec.getLsbD_ushiftRight, getLsbD_join hv]
  simp only [BitVec.getLsbD_or, BitVec.getLsbD_shiftLeft, BitVec.getLsbD_ushiftRight]
  by_cases hlow : i < w
  · by_cases hcross : n + i < w
    · simp [hlow, hcross, show i < w - n by omega]
    · simp [hlow, hcross, show ¬ i < w - n by omega,
        BitVec.getLsbD_of_ge lo (n + i) (by omega), show n + i - w = i - (w - n) by omega]
  · simp [hlow, show ¬ n + i < w by omega, show n + i - w = n + (i - w) by omega]

theorem ushiftRight_join_ge {n : Nat} (hn : w ≤ n) (hi lo : BitVec w) :
    join v hi lo >>> n = join v 0 (hi >>> (n - w)) := by
  apply BitVec.eq_of_getLsbD_eq
  intro i hi'
  rw [getLsbD_join hv, BitVec.getLsbD_ushiftRight, getLsbD_join hv]
  simp only [BitVec.getLsbD_ushiftRight]
  by_cases hlow : i < w
  · simp [hlow, show ¬ n + i < w by omega, show n + i - w = n - w + i by omega]
  · simp [hlow, show ¬ n + i < w by omega, BitVec.getLsbD_of_ge hi (n + i - w) (by omega)]

theorem sshiftRight_join_lt {n : Nat} (hn : n < w) (hi lo : BitVec w) :
    (join v hi lo).sshiftRight n =
      join v (hi.sshiftRight n) (lo >>> n ||| hi <<< (w - n)) := by
  apply BitVec.eq_of_getLsbD_eq
  intro i hi'
  rw [getLsbD_join hv, BitVec.getLsbD_sshiftRight, getLsbD_join hv, msb_join hv]
  simp only [BitVec.getLsbD_or, BitVec.getLsbD_shiftLeft, BitVec.getLsbD_ushiftRight,
    BitVec.getLsbD_sshiftRight, show ¬ v ≤ i by omega]
  by_cases hlow : i < w
  · by_cases hcross : n + i < w
    · simp [hlow, hcross, show n + i < v by omega, show i < w - n by omega]
    · simp [hlow, hcross, show n + i < v by omega, show ¬ i < w - n by omega,
        BitVec.getLsbD_of_ge lo (n + i) (by omega), show n + i - w = i - (w - n) by omega]
  · -- past the top the sign fills in
    have hhigh : ¬ w ≤ i - w := by omega
    by_cases hout : n + i < v
    · simp [hlow, hhigh, hout, show ¬ n + i < w by omega, show n + (i - w) < w by omega,
        show n + i - w = n + (i - w) by omega]
    · simp [hlow, hhigh, hout, show ¬ n + (i - w) < w by omega]

theorem sshiftRight_join_ge {n : Nat} (hn : w ≤ n) (hi lo : BitVec w) :
    (join v hi lo).sshiftRight n = join v (hi.sshiftRight (w - 1)) (hi.sshiftRight (n - w)) := by
  apply BitVec.eq_of_getLsbD_eq
  intro i hi'
  rw [getLsbD_join hv, BitVec.getLsbD_sshiftRight, getLsbD_join hv, msb_join hv]
  simp only [BitVec.getLsbD_sshiftRight, show ¬ v ≤ i by omega]
  by_cases hlow : i < w
  · have hhigh : ¬ w ≤ i := by omega
    by_cases hout : n + i < v
    · simp [hlow, hhigh, hout, show ¬ n + i < w by omega, show n - w + i < w by omega,
        show n + i - w = n - w + i by omega]
    · simp [hlow, hhigh, hout, show ¬ n - w + i < w by omega]
  · -- every bit of the high half is the sign
    have hhigh : ¬ w ≤ i - w := by omega
    have hsign : hi.msb = hi.getLsbD (w - 1) := BitVec.msb_eq_getLsbD_last hi
    by_cases hfirst : i - w = 0
    · simp [hlow, hfirst, show ¬ n + i < v by omega, show ¬ w ≤ 0 by omega, hsign,
        show w - 1 < w by omega]
    · simp [hlow, hhigh, show ¬ n + i < v by omega, show ¬ w - 1 + (i - w) < w by omega]

/-! ## Arithmetic -/

omit hv in
theorem join_eq_add (hi lo : BitVec w) :
    join v hi lo = hi.setWidth v * BitVec.twoPow v w + lo.setWidth v := by
  have hdisjoint : hi.setWidth v <<< w &&& lo.setWidth v = 0#v := by
    apply BitVec.eq_of_getLsbD_eq
    intro i _
    by_cases hlow : i < w
    · simp [hlow]
    · simp [BitVec.getLsbD_of_ge lo i (by omega)]
  rw [join, ← BitVec.add_eq_or_of_and_eq_zero _ _ hdisjoint, BitVec.shiftLeft_eq_mul_twoPow]

/-- A product needs three of the four products of halves. -/
theorem join_mul_join (ah al bh bl : BitVec w) :
    join v ah al * join v bh bl = al.setWidth v * bl.setWidth v +
      (al.setWidth v * bh.setWidth v + ah.setWidth v * bl.setWidth v) <<< w := by
  have htop : BitVec.twoPow v w * BitVec.twoPow v w = 0 := by
    rw [BitVec.twoPow_mul_twoPow_eq]
    apply BitVec.eq_of_toNat_eq
    rw [BitVec.toNat_twoPow_of_le (by omega)]
    rfl
  rw [join_eq_add, join_eq_add, BitVec.shiftLeft_eq_mul_twoPow]
  linear_combination (ah.setWidth v * bh.setWidth v) * htop

omit hv in
/-- A double word as a number, reduced to its width. -/
theorem mod_square (W a : Nat) {b : Nat} (hb : b < W) :
    (a * W + b) % (W * W) = a % W * W + b := by
  have hW : 0 < W := Nat.zero_lt_of_lt hb
  have hsmall : a % W * W + b < W * W := by
    have hrow : (a % W + 1) * W ≤ W * W := Nat.mul_le_mul_right _ (Nat.mod_lt a hW)
    rw [Nat.add_mul, Nat.one_mul] at hrow
    omega
  have hsplit : a * W + b = a % W * W + b + W * W * (a / W) := by
    calc a * W + b = (a % W + W * (a / W)) * W + b := by rw [Nat.mod_add_div]
      _ = a % W * W + b + W * W * (a / W) := by ring
  rw [hsplit, Nat.add_mul_mod_self_left, Nat.mod_eq_of_lt hsmall]

omit hv in
/-- The sum of two words is below the first when it has wrapped. -/
theorem add_lt_left_iff {x t : BitVec w} : x + t < x ↔ 2 ^ w ≤ x.toNat + t.toNat := by
  have hx := x.isLt
  have ht := t.isLt
  rw [BitVec.lt_def, BitVec.toNat_add]
  by_cases hcarry : 2 ^ w ≤ x.toNat + t.toNat
  · rw [Nat.mod_eq_sub_mod hcarry, Nat.mod_eq_of_lt (by omega)]
    omega
  · rw [Nat.mod_eq_of_lt (by omega)]
    omega

/-- A carry out of the low half wraps the sum below its summand. -/
theorem join_add (hi lo t : BitVec w) :
    join v hi lo + t.setWidth v = join v (if lo + t < lo then hi + 1 else hi) (lo + t) := by
  have hlo := lo.isLt
  have ht := t.isLt
  have hsquare : 2 ^ v = 2 ^ w * 2 ^ w := by rw [hv, Nat.pow_add]
  apply BitVec.eq_of_toNat_eq
  rw [BitVec.toNat_add, toNat_join hv, toNat_join hv, hsquare,
    BitVec.toNat_setWidth_of_le (by omega), BitVec.toNat_add]
  by_cases hcarry : 2 ^ w ≤ lo.toNat + t.toNat
  · have hlow : (lo.toNat + t.toNat) % 2 ^ w = lo.toNat + t.toNat - 2 ^ w := by
      rw [Nat.mod_eq_sub_mod hcarry, Nat.mod_eq_of_lt (by omega)]
    have hsum : hi.toNat * 2 ^ w + lo.toNat + t.toNat =
        (hi.toNat + 1) * 2 ^ w + (lo.toNat + t.toNat - 2 ^ w) := by
      rw [Nat.add_mul, Nat.one_mul]
      omega
    have hnext : (hi + 1).toNat = (hi.toNat + 1) % 2 ^ w := by simp [BitVec.toNat_add]
    rw [if_pos (add_lt_left_iff.mpr hcarry), hlow, hsum, mod_square _ _ (by omega), hnext]
  · have hlow : (lo.toNat + t.toNat) % 2 ^ w = lo.toNat + t.toNat :=
      Nat.mod_eq_of_lt (Nat.lt_of_not_le hcarry)
    rw [if_neg (mt add_lt_left_iff.mp hcarry), hlow, Nat.add_assoc,
      mod_square _ _ (Nat.lt_of_not_le hcarry), Nat.mod_eq_of_lt hi.isLt]

/-! ## Order -/

theorem join_le_join {hi hi' lo lo' : BitVec w} :
    join v hi lo ≤ join v hi' lo' ↔ hi < hi' ∨ hi = hi' ∧ lo ≤ lo' := by
  rw [BitVec.le_def, toNat_join hv, toNat_join hv]
  have hlo := lo.isLt
  have hlo' := lo'.isLt
  rcases Nat.lt_trichotomy hi.toNat hi'.toNat with hlt | heq | hgt
  · have hrow : (hi.toNat + 1) * 2 ^ w ≤ hi'.toNat * 2 ^ w := Nat.mul_le_mul_right _ hlt
    rw [Nat.add_mul, Nat.one_mul] at hrow
    exact iff_of_true (by omega) (.inl hlt)
  · obtain rfl : hi = hi' := BitVec.eq_of_toNat_eq heq
    constructor
    · intro h
      exact .inr ⟨rfl, by rw [BitVec.le_def]; omega⟩
    · rintro (hlt | ⟨_, hle⟩)
      · exact absurd hlt (Nat.lt_irrefl _)
      · rw [BitVec.le_def] at hle
        omega
  · have hrow : (hi'.toNat + 1) * 2 ^ w ≤ hi.toNat * 2 ^ w := Nat.mul_le_mul_right _ hgt
    rw [Nat.add_mul, Nat.one_mul] at hrow
    refine iff_of_false (by omega) ?_
    rintro (hlt | ⟨rfl, _⟩)
    · exact absurd hlt (Nat.not_lt_of_gt hgt)
    · exact absurd hgt (Nat.lt_irrefl _)

end Halves

/-- The instance at hand: 64 bits in two words. -/
theorem two_words : 64 = 32 + 32 := rfl

end DoubleWord

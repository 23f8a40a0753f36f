import Mathlib.Data.List.GetD
import Interclus.Framework.DoubleWord
import Interclus.Framework.Words

/-! # Byte Order

    Words from their bytes, most significant first, and back; and the
    reversal of a word's low bytes, with the rule that builds the reversal
    at one width from that at half the width. -/

namespace ByteOrder

open Words

variable {w : Nat}

/-- The word whose last byte is the least significant. -/
def fromBytes (w : Nat) (bs : List U8) : BitVec w :=
  bs.foldl (fun acc b => acc <<< 8 ||| b.setWidth w) 0

/-- The low `n` bytes of a word, the most significant first. -/
def toBytes (n : Nat) (x : BitVec w) : List U8 := ((List.range n).map (byteOf x)).reverse

/-- The low `n` bytes of a word, in the other order. -/
def byteReverse (n : Nat) (x : BitVec w) : BitVec w :=
  fromBytes w ((List.range n).map (byteOf x))

theorem getElem_toBytes {n k : Nat} (x : BitVec w) (hk : k < (toBytes n x).length) :
    (toBytes n x)[k] = byteOf x (n - 1 - k) := by
  simp [toBytes]

theorem getLsbD_byteOf (x : BitVec w) (k : Nat) {i : Nat} (hi : i < 8) :
    (byteOf x k).getLsbD i = x.getLsbD (8 * k + i) := by
  simp [byteOf, hi]

theorem getLsbD_fromBytes (bs : List U8) {i : Nat} (hi : i < w) :
    (fromBytes w bs).getLsbD i = (bs.reverse.getD (i / 8) 0).getLsbD (i % 8) := by
  induction bs using List.reverseRecOn generalizing i with
  | nil => simp [fromBytes]
  | append_singleton bs b ih =>
    have hstep : fromBytes w (bs ++ [b]) = fromBytes w bs <<< 8 ||| b.setWidth w := by
      simp [fromBytes]
    rw [hstep, List.reverse_append, BitVec.getLsbD_or, BitVec.getLsbD_shiftLeft]
    by_cases hlow : i < 8
    · simp [hi, hlow, show i / 8 = 0 by omega, show i % 8 = i by omega]
    · -- one byte further up
      have hbyte : i / 8 = (i - 8) / 8 + 1 := by omega
      have hbit : i % 8 = (i - 8) % 8 := by omega
      rw [ih (by omega), hbyte, hbit]
      simp [hi, hlow, BitVec.getLsbD_of_ge b i (by omega)]

theorem getLsbD_byteReverse (n : Nat) (x : BitVec w) {i : Nat} (hi : i < w) :
    (byteReverse n x).getLsbD i =
      (decide (i < 8 * n) && x.getLsbD (8 * (n - 1 - i / 8) + i % 8)) := by
  unfold byteReverse
  rw [getLsbD_fromBytes _ hi]
  by_cases hin : i < 8 * n
  · have hbyte : i / 8 < n := by omega
    rw [List.getD_eq_getElem _ _ (by simpa using hbyte), List.getElem_reverse]
    simp [hin, getLsbD_byteOf x _ (Nat.mod_lt i (by decide))]
  · have hbyte : n ≤ i / 8 := by omega
    rw [List.getD_eq_default _ _ (by simpa using hbyte)]
    simp [hin]

/-- Reversing twice gives back what fits in the bytes reversed. -/
theorem byteReverse_byteReverse {n : Nat} (hn : 8 * n ≤ w) {x : BitVec w}
    (hx : x.toNat < 2 ^ (8 * n)) : byteReverse n (byteReverse n x) = x := by
  apply BitVec.eq_of_getLsbD_eq
  intro i hi
  rw [getLsbD_byteReverse n _ hi]
  by_cases hin : i < 8 * n
  · have hmirror : 8 * (n - 1 - i / 8) + i % 8 < 8 * n := by omega
    have hback : 8 * (n - 1 - (8 * (n - 1 - i / 8) + i % 8) / 8) +
        (8 * (n - 1 - i / 8) + i % 8) % 8 = i := by omega
    rw [getLsbD_byteReverse n _ (by omega), hback]
    simp [hin, hmirror]
  · have hzero : x.getLsbD i = false := by
      apply Nat.testBit_lt_two_pow
      exact Nat.lt_of_lt_of_le hx (Nat.pow_le_pow_right (by decide) (by omega))
    simp [hin, hzero]

theorem byteReverse_zero (n : Nat) : byteReverse n (0 : BitVec w) = 0 := by
  apply BitVec.eq_of_getLsbD_eq
  intro i hi
  rw [getLsbD_byteReverse _ _ hi]
  simp

theorem byteReverse_one (x : BitVec 8) : byteReverse 1 x = x := by
  simp [byteReverse, fromBytes, byteOf]

/-- The reversal of a double word reverses the halves and swaps them. -/
theorem join_byteReverse {v n : Nat} (hw : w = 8 * n) (hv : v = w + w) (x : BitVec v) :
    DoubleWord.join v (byteReverse n (DoubleWord.low w x)) (byteReverse n (DoubleWord.high w x)) =
      byteReverse (n + n) x := by
  apply BitVec.eq_of_getLsbD_eq
  intro i hi
  rw [DoubleWord.getLsbD_join hv, getLsbD_byteReverse _ _ hi]
  by_cases hlow : i < w
  · have hmirror : 8 * (n - 1 - i / 8) + i % 8 < w := by omega
    have hplace : 8 * (n + n - 1 - i / 8) + i % 8 = w + (8 * (n - 1 - i / 8) + i % 8) := by omega
    rw [if_pos hlow, getLsbD_byteReverse _ _ hlow, hplace]
    simp [DoubleWord.high, hmirror, show i < 8 * n by omega, show i < 8 * (n + n) by omega]
  · have hhalf : i - w < w := by omega
    have hmirror : 8 * (n - 1 - (i - w) / 8) + (i - w) % 8 < w := by omega
    have hplace : 8 * (n + n - 1 - i / 8) + i % 8 =
        8 * (n - 1 - (i - w) / 8) + (i - w) % 8 := by omega
    rw [if_neg hlow, getLsbD_byteReverse _ _ hhalf, hplace]
    simp [DoubleWord.low, hmirror, show i - w < 8 * n by omega, show i < 8 * (n + n) by omega]

/-- The reversal looks at no other bytes. -/
theorem setWidth_byteReverse {v n : Nat} (hn : 8 * n ≤ w) (x : BitVec v) :
    (byteReverse n (x.setWidth w)).setWidth v = byteReverse n x := by
  apply BitVec.eq_of_getLsbD_eq
  intro i hi
  rw [BitVec.getLsbD_setWidth, getLsbD_byteReverse _ _ hi]
  by_cases hin : i < 8 * n
  · rw [getLsbD_byteReverse _ _ (by omega), BitVec.getLsbD_setWidth]
    simp [hi, hin, show 8 * (n - 1 - i / 8) + i % 8 < w by omega]
  · by_cases hiw : i < w
    · rw [getLsbD_byteReverse _ _ hiw]
      simp [hin]
    · simp [hin, BitVec.getLsbD_of_ge (byteReverse n (x.setWidth w)) i (by omega)]

end ByteOrder

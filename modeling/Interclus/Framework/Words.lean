import Mathlib.Algebra.GroupWithZero.Nat

/-! # Machine Words

    Fixed-width words, byte-addressed memory behind a pointer, and the
    little-endian reads and writes a C program performs on it. -/

namespace Words

abbrev U8  : Type := BitVec 8
abbrev U16 : Type := BitVec 16
abbrev U32 : Type := BitVec 32
abbrev U64 : Type := BitVec 64

/-- The bytes behind a pointer. -/
abbrev Mem : Type := Nat → U8

/-- `n` bytes from offset `off`, as a list. -/
def bytesAt (m : Mem) (off n : Nat) : List U8 := (List.range n).map fun i => m (off + i)

@[simp] theorem length_bytesAt (m : Mem) (off n : Nat) : (bytesAt m off n).length = n := by
  simp [bytesAt]

theorem bytesAt_congr {m₁ m₂ : Mem} {off n : Nat} (h : ∀ i < n, m₁ (off + i) = m₂ (off + i)) :
    bytesAt m₁ off n = bytesAt m₂ off n :=
  List.map_congr_left fun i hi => h i (List.mem_range.mp hi)

/-- Equal windows are equal byte by byte. -/
theorem eq_of_bytesAt {m₁ m₂ : Mem} {off n : Nat} (h : bytesAt m₁ off n = bytesAt m₂ off n) :
    ∀ i < n, m₁ (off + i) = m₂ (off + i) := fun i hi =>
  List.map_inj_left.mp h i (List.mem_range.mpr hi)

theorem bytesAt_add (m : Mem) (off n k : Nat) :
    bytesAt m off (n + k) = bytesAt m off n ++ bytesAt m (off + n) k := by
  simp only [bytesAt, List.range_add, List.map_append, List.map_map]
  congr 2
  funext i
  simp [Nat.add_assoc]

/-! ## Little-endian reads -/

def le16 (p : Mem) (i : Nat) : U16 :=
  (p i).setWidth 16 ||| (p (i + 1)).setWidth 16 <<< 8

def le32 (p : Mem) (i : Nat) : U32 :=
  (p i).setWidth 32 ||| (p (i + 1)).setWidth 32 <<< 8 |||
    (p (i + 2)).setWidth 32 <<< 16 ||| (p (i + 3)).setWidth 32 <<< 24

def le64 (p : Mem) (i : Nat) : U64 :=
  (p i).setWidth 64 ||| (p (i + 1)).setWidth 64 <<< 8 |||
    (p (i + 2)).setWidth 64 <<< 16 ||| (p (i + 3)).setWidth 64 <<< 24 |||
    (p (i + 4)).setWidth 64 <<< 32 ||| (p (i + 5)).setWidth 64 <<< 40 |||
    (p (i + 6)).setWidth 64 <<< 48 ||| (p (i + 7)).setWidth 64 <<< 56

/-! ## Little-endian stores -/

/-- Byte `k` of a word. -/
def byteOf {w : Nat} (v : BitVec w) (k : Nat) : U8 := (v >>> (8 * k)).setWidth 8

/-- Store the four bytes of a word at `i`. -/
def putLe32 (m : Mem) (i : Nat) (v : U32) : Mem := fun j =>
  if i ≤ j ∧ j < i + 4 then byteOf v (j - i) else m j

/-- The four bytes of a word put together again. -/
theorem le32_of_bytes {m : Mem} {i : Nat} {v : U32} (h : ∀ k < 4, m (i + k) = byteOf v k) :
    le32 m i = v := by
  have h0 := h 0 (by decide)
  rw [Nat.add_zero] at h0
  unfold le32
  rw [h0, h 1 (by decide), h 2 (by decide), h 3 (by decide)]
  apply BitVec.eq_of_getLsbD_eq
  intro j hj
  simp only [byteOf, BitVec.getLsbD_or, BitVec.getLsbD_shiftLeft, BitVec.getLsbD_setWidth,
    BitVec.getLsbD_ushiftRight, hj, decide_true, Bool.true_and]
  by_cases h8 : j < 8
  · simp [h8, show j < 16 by omega, show j < 24 by omega]
  · by_cases h16 : j < 16
    · have : 8 + (j - 8) = j := by omega
      simp [h8, h16, show j < 24 by omega, show j - 8 < 32 by omega, show j - 8 < 8 by omega, this]
    · by_cases h24 : j < 24
      · have : 16 + (j - 16) = j := by omega
        simp [h8, h16, h24, show j - 8 < 32 by omega, show ¬ j - 8 < 8 by omega,
          show j - 16 < 32 by omega, show j - 16 < 8 by omega, this]
      · have : 24 + (j - 24) = j := by omega
        simp [h8, h16, h24, show j - 8 < 32 by omega, show ¬ j - 8 < 8 by omega,
          show j - 16 < 32 by omega, show ¬ j - 16 < 8 by omega,
          show j - 24 < 32 by omega, show j - 24 < 8 by omega, this]

theorem le16_of_bytes {m : Mem} {i : Nat} {v : U16} (h : ∀ k < 2, m (i + k) = byteOf v k) :
    le16 m i = v := by
  have h0 := h 0 (by decide)
  rw [Nat.add_zero] at h0
  unfold le16
  rw [h0, h 1 (by decide)]
  apply BitVec.eq_of_getLsbD_eq
  intro j hj
  simp only [byteOf, BitVec.getLsbD_or, BitVec.getLsbD_shiftLeft, BitVec.getLsbD_setWidth,
    BitVec.getLsbD_ushiftRight, hj, decide_true, Bool.true_and]
  by_cases h8 : j < 8
  · simp [h8]
  · have : 8 + (j - 8) = j := by omega
    simp [h8, show j - 8 < 16 by omega, show j - 8 < 8 by omega, this]

@[simp] theorem le32_putLe32 (m : Mem) (i : Nat) (v : U32) : le32 (putLe32 m i v) i = v :=
  le32_of_bytes fun k hk => by simp [putLe32, hk]

theorem putLe32_of_not_mem {m : Mem} {i j : Nat} (v : U32) (h : ¬ (i ≤ j ∧ j < i + 4)) :
    putLe32 m i v j = m j := if_neg h

/-- A word read depends on its four bytes only. -/
theorem le32_congr {m₁ m₂ : Mem} {i j : Nat} (h : ∀ k < 4, m₁ (i + k) = m₂ (j + k)) :
    le32 m₁ i = le32 m₂ j := by
  have h0 := h 0 (by decide)
  rw [Nat.add_zero, Nat.add_zero] at h0
  unfold le32
  rw [h0, h 1 (by decide), h 2 (by decide), h 3 (by decide)]

/-- A store leaves the words next to it alone. -/
theorem le32_putLe32_of_apart {m : Mem} {i j : Nat} (v : U32) (h : i + 4 ≤ j ∨ j + 4 ≤ i) :
    le32 (putLe32 m i v) j = le32 m j :=
  le32_congr fun k hk => putLe32_of_not_mem v (by omega)

theorem le16_congr {m₁ m₂ : Mem} {i j : Nat} (h : ∀ k < 2, m₁ (i + k) = m₂ (j + k)) :
    le16 m₁ i = le16 m₂ j := by
  have h0 := h 0 (by decide)
  rw [Nat.add_zero, Nat.add_zero] at h0
  unfold le16
  rw [h0, h 1 (by decide)]

theorem le64_congr {m₁ m₂ : Mem} {i j : Nat} (h : ∀ k < 8, m₁ (i + k) = m₂ (j + k)) :
    le64 m₁ i = le64 m₂ j := by
  have h0 := h 0 (by decide)
  rw [Nat.add_zero, Nat.add_zero] at h0
  unfold le64
  rw [h0, h 1 (by decide), h 2 (by decide), h 3 (by decide), h 4 (by decide), h 5 (by decide),
    h 6 (by decide), h 7 (by decide)]

/-- The bytes of a word read are the bytes it was read from. -/
theorem byteOf_le32 (m : Mem) (i : Nat) {k : Nat} (hk : k < 4) :
    byteOf (le32 m i) k = m (i + k) := by
  apply BitVec.eq_of_getLsbD_eq
  intro j hj
  have hhigh : ∀ (b : U8) l, 8 ≤ l → b.getLsbD l = false := fun b _ hl =>
    BitVec.getLsbD_of_ge b _ hl
  match k, hk with
  | 0, _ => simp [byteOf, le32, hj]
  | 1, _ =>
    simp [byteOf, le32, hj, show 8 + j < 32 by omega, show 8 + j < 16 by omega,
      show 8 + j < 24 by omega]
  | 2, _ =>
    simp [byteOf, le32, hj, show 16 + j < 32 by omega, show ¬ 16 + j < 16 by omega,
      show 16 + j < 24 by omega, hhigh (m i) (16 + j) (by omega),
      hhigh (m (i + 1)) (16 + j - 8) (by omega)]
  | 3, _ =>
    simp [byteOf, le32, hj, show 24 + j < 32 by omega, show ¬ 24 + j < 16 by omega,
      show ¬ 24 + j < 24 by omega, hhigh (m i) (24 + j) (by omega),
      hhigh (m (i + 1)) (24 + j - 8) (by omega), hhigh (m (i + 2)) (24 + j - 16) (by omega)]

/-! ## Double words by their bytes -/

/-- Bit `8 q + r` of a word is bit `r` of its byte `q`. -/
theorem le64_getLsbD (m : Mem) (i : Nat) {q r : Nat} (hq : q < 8) (hr : r < 8) :
    (le64 m i).getLsbD (8 * q + r) = (m (i + q)).getLsbD r := by
  have hlow : ∀ t < q, ((m (i + t)).setWidth 64 <<< (8 * t)).getLsbD (8 * q + r) = false := by
    intro t ht
    rw [BitVec.getLsbD_shiftLeft, BitVec.getLsbD_setWidth,
      BitVec.getLsbD_of_ge _ (8 * q + r - 8 * t) (by omega)]
    simp
  have hhigh : ∀ t, q < t → ((m (i + t)).setWidth 64 <<< (8 * t)).getLsbD (8 * q + r) = false := by
    intro t ht
    rw [BitVec.getLsbD_shiftLeft, decide_eq_true (show 8 * q + r < 8 * t by omega)]
    simp
  have hself : ((m (i + q)).setWidth 64 <<< (8 * q)).getLsbD (8 * q + r) =
      (m (i + q)).getLsbD r := by
    rw [BitVec.getLsbD_shiftLeft, BitVec.getLsbD_setWidth, Nat.add_sub_cancel_left]
    simp [show 8 * q + r < 64 by omega, show r < 64 by omega]
  have hall : (le64 m i).getLsbD (8 * q + r) = (List.range 8).any fun t =>
      ((m (i + t)).setWidth 64 <<< (8 * t)).getLsbD (8 * q + r) := by
    simp [le64, List.range_succ, Bool.or_assoc]
  rw [hall, Bool.eq_iff_iff, List.any_eq_true]
  constructor
  · rintro ⟨t, -, ht⟩
    rcases Nat.lt_trichotomy t q with hlt | rfl | hgt
    · rw [hlow t hlt] at ht
      cases ht
    · rwa [hself] at ht
    · rw [hhigh t hgt] at ht
      cases ht
  · intro h
    exact ⟨q, List.mem_range.mpr hq, by rw [hself]; exact h⟩

/-- The bytes of a double word read are the bytes it was read from. -/
theorem byteOf_le64 (m : Mem) (i : Nat) {k : Nat} (hk : k < 8) :
    byteOf (le64 m i) k = m (i + k) := by
  apply BitVec.eq_of_getLsbD_eq
  intro j hj
  unfold byteOf
  rw [BitVec.getLsbD_setWidth, BitVec.getLsbD_ushiftRight, decide_eq_true hj, Bool.true_and,
    le64_getLsbD m i hk hj]

/-- The eight bytes of a double word put together again. -/
theorem le64_of_bytes {m : Mem} {i : Nat} {v : U64} (h : ∀ k < 8, m (i + k) = byteOf v k) :
    le64 m i = v := by
  apply BitVec.eq_of_getLsbD_eq
  intro j hj
  have hbit := le64_getLsbD m i (show j / 8 < 8 by omega) (show j % 8 < 8 by omega)
  rw [Nat.div_add_mod] at hbit
  rw [hbit, h _ (by omega), byteOf, BitVec.getLsbD_setWidth, BitVec.getLsbD_ushiftRight,
    decide_eq_true (show j % 8 < 8 by omega), Bool.true_and, Nat.div_add_mod]

end Words

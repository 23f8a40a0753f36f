import Interclus.Core.Loader

/-! # Packed Register Types

    How the verifier's bit operations on a word of packed register types
    act on the type of one register: `reg_type` after `set_type`, after a
    join, and after `outState`, and membership in a register mask. -/

namespace Interclus

open Words

/-! ## Types are two-bit fields -/

theorem T_MASK_getLsbD (k : Nat) : T_MASK.getLsbD k = decide (k < 2) := by
  match k with
  | 0 => rfl
  | 1 => rfl
  | k + 2 =>
    have h : (3 : Nat).testBit (k + 2) = false :=
      Nat.testBit_lt_two_pow (Nat.lt_of_lt_of_le (by decide : 3 < 2 ^ 2)
        (Nat.pow_le_pow_right (by decide) (by omega)))
    have hk : ¬ k + 2 < 2 := by omega
    simp [T_MASK, BitVec.getLsbD_ofNat, h, hk]

theorem regType_getLsbD (st : U32) (r k : Nat) :
    (regType st r).getLsbD k = (decide (k < 2) && st.getLsbD (2 * r + k)) := by
  simp only [regType, BitVec.getLsbD_and, BitVec.getLsbD_ushiftRight, T_MASK_getLsbD]
  rw [Bool.and_comm]

theorem getLsbD_of_and_mask {t : U32} (ht : t &&& T_MASK = t) {k : Nat} (hk : 2 ≤ k) :
    t.getLsbD k = false := by
  rw [← ht, BitVec.getLsbD_and, T_MASK_getLsbD]
  simp [show ¬ k < 2 by omega]

/-- A register has type `t` when the two bits of its field are those of `t`. -/
theorem regType_eq_iff {st t : U32} (ht : t &&& T_MASK = t) (r : Nat) :
    regType st r = t ↔ st.getLsbD (2 * r) = t.getLsbD 0 ∧ st.getLsbD (2 * r + 1) = t.getLsbD 1 := by
  constructor
  · intro h
    constructor <;> rw [← h, regType_getLsbD] <;> simp
  · rintro ⟨h₀, h₁⟩
    apply BitVec.eq_of_getLsbD_eq
    intro k _
    rw [regType_getLsbD]
    match k with
    | 0 => simpa using h₀
    | 1 => simpa using h₁
    | k + 2 => rw [getLsbD_of_and_mask ht (by omega)]; simp

theorem setType_getLsbD (st t : U32) (r j : Nat) (hj : j < 32) :
    (setType st r t).getLsbD j =
      ((!decide (2 * r ≤ j ∧ j < 2 * r + 2) && st.getLsbD j) ||
        (decide (2 * r ≤ j) && t.getLsbD (j - 2 * r))) := by
  simp only [setType, BitVec.getLsbD_or, BitVec.getLsbD_and, BitVec.getLsbD_not,
    BitVec.getLsbD_shiftLeft, T_MASK_getLsbD, hj]
  grind

theorem regType_setType (st : U32) {t : U32} (ht : t &&& T_MASK = t) {r q : Nat} (hr : r < 16)
    (hq : q < 16) : regType (setType st r t) q = if q = r then t else regType st q := by
  have hmask : (regType st q) &&& T_MASK = regType st q := by
    simp only [regType, BitVec.and_assoc, BitVec.and_self]
  split
  · next hqr =>
    subst hqr
    rw [regType_eq_iff ht, setType_getLsbD _ _ _ _ (by omega), setType_getLsbD _ _ _ _ (by omega)]
    simp
  · next hqr =>
    rw [regType_eq_iff hmask, setType_getLsbD _ _ _ _ (by omega),
      setType_getLsbD _ _ _ _ (by omega), regType_getLsbD, regType_getLsbD]
    have h₀ : ¬ (2 * r ≤ 2 * q ∧ 2 * q < 2 * r + 2) := by omega
    have h₁ : ¬ (2 * r ≤ 2 * q + 1 ∧ 2 * q + 1 < 2 * r + 2) := by omega
    by_cases hle : r < q
    · have ht₀ := getLsbD_of_and_mask ht (show 2 ≤ 2 * q - 2 * r by omega)
      have ht₁ := getLsbD_of_and_mask ht (show 2 ≤ 2 * q + 1 - 2 * r by omega)
      simp only [ht₀, ht₁, h₀, h₁]
      simp
    · have hn₀ : ¬ 2 * r ≤ 2 * q := by omega
      have hn₁ : ¬ 2 * r ≤ 2 * q + 1 := by omega
      simp only [hn₀, hn₁]
      simp

theorem regType_and (a b : U32) (r : Nat) : regType (a &&& b) r = regType a r &&& regType b r := by
  apply BitVec.eq_of_getLsbD_eq
  intro k _
  simp only [regType_getLsbD, BitVec.getLsbD_and]
  cases decide (k < 2) <;> simp

/-! ## Registers of a mask -/

theorem regBit_getLsbD {r : Nat} (hr : r < 32) (k : Nat) :
    (regBit r).getLsbD k = decide (k = r) := by
  rw [regBit, BitVec.getLsbD_shiftLeft, BitVec.getLsbD_one]
  by_cases hkr : k = r
  · subst hkr; simp [hr]
  · by_cases hlt : k < r
    · simp [hlt, hkr]
    · simp [hkr, show k - r ≠ 0 by omega]

theorem hasReg_eq_getLsbD (m : U32) {r : Nat} (hr : r < 32) : hasReg m r = m.getLsbD r := by
  have hbit : m &&& regBit r = if m.getLsbD r then regBit r else 0 := by
    apply BitVec.eq_of_getLsbD_eq
    intro k _
    rw [BitVec.getLsbD_and, regBit_getLsbD hr]
    by_cases hkr : k = r
    · subst hkr
      cases m.getLsbD k <;> simp [regBit_getLsbD hr]
    · cases m.getLsbD r <;> simp [regBit_getLsbD hr, hkr]
  have hne : regBit r ≠ 0 := by
    intro h
    have := congrArg (fun b => BitVec.getLsbD b r) h
    simp [regBit_getLsbD hr] at this
  unfold hasReg
  rw [hbit]
  cases m.getLsbD r with
  | false => simp
  | true => simpa using hne

theorem hasReg_or (a b : U32) {r : Nat} (hr : r < 32) :
    hasReg (a ||| b) r = (hasReg a r || hasReg b r) := by
  simp only [hasReg_eq_getLsbD _ hr, BitVec.getLsbD_or]

theorem hasReg_zero (r : Nat) : hasReg 0 r = false := by
  simp [hasReg]

theorem hasReg_regBit {r q : Nat} (hr : r < 32) (hq : q < 32) :
    hasReg (regBit r) q = decide (q = r) := by
  rw [hasReg_eq_getLsbD _ hq, regBit_getLsbD hr]

/-! ## Types after an instruction -/

/-- `set_type` over a list of registers. -/
theorem regType_foldl_setType {t : U32} (ht : t &&& T_MASK = t) (f : Nat → Bool)
    (rs : List Nat) (hrs : ∀ r ∈ rs, r < 16) (st : U32) {q : Nat} (hq : q < 16) :
    regType (rs.foldl (fun out r => if f r then setType out r t else out) st) q =
      if q ∈ rs ∧ f q then t else regType st q := by
  induction rs generalizing st with
  | nil => simp
  | cons r rs ih =>
    rw [List.foldl_cons, ih (fun r' hr' => hrs r' (by simp [hr']))]
    have hr : r < 16 := hrs r (by simp)
    by_cases hqr : q = r
    · subst hqr
      cases hf : f q <;> simp [regType_setType st ht hq hq]
    · cases hf : f r <;> simp [regType_setType st ht hr hq, hqr]

theorem insnWrites_call {e : U64} (hcls : isJmpCls (insnCls e)) (hhi : insnHi e = 0x80) :
    insnWrites e = 1 := by
  have hne : ∀ c : U8, isJmpCls c → ¬ (c = 0x01 ∨ c = 0x04 ∨ c = 0x07) := by decide
  unfold insnWrites
  rw [if_neg (hne _ hcls), if_pos ⟨hcls, hhi⟩]

/-- The out-state gives the registers an instruction writes the type
    `T_SCALAR` and leaves the others as they were. -/
theorem regType_outState (e : U64) (st : U32) {q : Nat} (hq : q < 11) :
    regType (outState e st) q =
      if hasReg (insnWrites e) q then T_SCALAR else regType st q := by
  have hT : T_SCALAR &&& T_MASK = T_SCALAR := by decide
  have hmem : q ∈ regNumbers := List.mem_range.mpr hq
  have hlt : ∀ r ∈ regNumbers, r < 16 := fun r hr => by have := List.mem_range.mp hr; omega
  have hfold := regType_foldl_setType hT (hasReg (insnWrites e)) regNumbers hlt st
    (show q < 16 by omega)
  unfold outState
  split
  · next hcall =>
    rw [regType_setType _ hT (by decide) (by omega), hfold]
    by_cases hq0 : q = 0
    · subst hq0
      have : hasReg (insnWrites e) 0 = true := by
        rw [insnWrites_call hcall.1 hcall.2]; decide
      simp [this]
    · simp [hq0, hmem]
  · rw [hfold]; simp [hmem]

end Interclus

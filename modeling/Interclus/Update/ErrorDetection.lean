import Interclus.Core.Update
import Interclus.Framework.Crc

/-! # Error Detection

    `update_crc16` is a reflected CRC with the polynomial
    x^16 + x^15 + x^2 + 1, and the two bytes `crc_ok` compares it with are
    the next sixteen message bits.  So a frame is accepted when the
    register behind the whole frame is zero, and an error is missed only
    when its own register is. -/

namespace Interclus

open Words

/-! ## Frames as bits -/

/-- 0x8005, reflected. -/
def CRC16_POLY : U16 := 0xA001

/-- Bit `j` of a frame, least significant first within each byte. -/
def frameBit (m : Mem) (j : Nat) : Bool := (m (j / 8)).getLsbD (j % 8)

def byteBits (d : U8) : List Bool := (List.range 8).map d.getLsbD

def frameBits (m : Mem) (n : Nat) : List Bool := (List.range n).flatMap fun i => byteBits (m i)

theorem frameBits_succ (m : Mem) (n : Nat) :
    frameBits m (n + 1) = frameBits m n ++ byteBits (m n) := by
  simp [frameBits, List.range_succ]

@[simp] theorem length_byteBits (d : U8) : (byteBits d).length = 8 := rfl

theorem frameBits_eq (m : Mem) (n : Nat) :
    frameBits m n = (List.range (8 * n)).map (frameBit m) := by
  induction n with
  | zero => rfl
  | succ n ih =>
    rw [frameBits_succ, ih, Nat.mul_succ, List.range_add, List.map_append, List.map_map]
    congr 1
    apply List.map_congr_left
    intro i hi
    have hlt : i < 8 := List.mem_range.mp hi
    -- the bits of byte `n` are those from `8 * n` on
    have hdiv : (8 * n + i) / 8 = n := by omega
    have hmod : (8 * n + i) % 8 = i := by omega
    simp only [Function.comp_apply, frameBit, hdiv, hmod]

/-! ## The register -/

theorem crcBit_eq (crc : U16) : crcBit crc = Crc.shift CRC16_POLY crc := by
  have hlow : crc &&& 1 ≠ 0 ↔ crc.getLsbD 0 = true := by
    have hbit : crc &&& 1#16 = (BitVec.ofBool (crc.getLsbD 0)).setWidth 16 :=
      BitVec.and_one_eq_setWidth_ofBool_getLsbD
    rw [show crc &&& 1 = _ from hbit]
    cases crc.getLsbD 0 <;> decide
  unfold crcBit Crc.shift
  simp only [hlow]
  rfl

/-- Eight shifts behind a byte take its bits one by one. -/
theorem crcByte_eq (crc : U16) (d : U8) : crcByte crc d = Crc.feed CRC16_POLY crc (byteBits d) := by
  have hword : (Crc.ofBits (byteBits d) : U16) = d.setWidth 16 := by
    apply BitVec.eq_of_getLsbD_eq
    intro i hi
    rw [Crc.getLsbD_ofBits, BitVec.getLsbD_setWidth]
    by_cases h8 : i < 8
    · simp [byteBits, List.getD_eq_getElem?_getD, h8]
    · simp [byteBits, List.getD_eq_getElem?_getD, h8]
      exact fun _ => BitVec.getLsbD_of_ge d i (Nat.not_lt.mp h8)
  -- the byte is in the low half of the register before the first shift
  have hshift : crcBit = Crc.shift CRC16_POLY := funext crcBit_eq
  rw [Crc.feed_eq_iterate CRC16_POLY crc (by simp), hword, length_byteBits, ← hshift]
  exact List.foldl_const crcBit _ (List.range 8)

theorem updateCrc16_feed (m : Mem) (n : Nat) :
    updateCrc16 m n = Crc.feed CRC16_POLY 0xFFFF (frameBits m n) := by
  induction n with
  | zero => rfl
  | succ n ih =>
    rw [frameBits_succ, Crc.feed_append, ← ih, ← crcByte_eq]
    simp [updateCrc16, List.range_succ]

/-- `crc_ok` asks for a zero register behind the frame. -/
theorem crcOk_iff (p : Mem) {n : Nat} (hn : 2 ≤ n) :
    crcOk p n = true ↔ updateCrc16 p n = 0 := by
  obtain ⟨m, rfl⟩ := Nat.exists_eq_add_of_le' hn
  -- the two bytes of the CRC are one word of sixteen message bits
  let tail := byteBits (p m) ++ byteBits (p (m + 1))
  have hword : (Crc.ofBits tail : U16) = le16 p m := by
    apply BitVec.eq_of_getLsbD_eq
    intro i hi
    rw [Crc.getLsbD_ofBits, List.getD_eq_getElem?_getD]
    by_cases h8 : i < 8
    · rw [List.getElem?_append_left (by simpa using h8)]
      simp [byteBits, le16, hi, h8]
    · rw [List.getElem?_append_right (by simpa using h8)]
      have hhigh : (p m).getLsbD i = false := BitVec.getLsbD_of_ge _ i (Nat.not_lt.mp h8)
      simp [byteBits, le16, hi, h8, hhigh, show i - 8 < 8 by omega]
  have hfeed : updateCrc16 p (m + 2) =
      (Crc.shift CRC16_POLY)^[16] (updateCrc16 p m ^^^ le16 p m) := by
    rw [updateCrc16_feed, frameBits_succ, frameBits_succ, List.append_assoc, Crc.feed_append,
      ← updateCrc16_feed, Crc.feed_eq_iterate CRC16_POLY _ (by simp), hword]
    rfl
  have hpoly : CRC16_POLY.msb = true := by decide
  -- a shift never clears the register, so the sum was zero before
  rw [hfeed, Crc.iterate_shift_eq_zero hpoly]
  unfold crcOk
  rw [Nat.add_sub_cancel, decide_eq_true_iff]
  exact BitVec.xor_eq_zero_iff.symm

/-! ## Errors -/

/-- A frame with an error pattern added. -/
def flipped (p e : Mem) : Mem := fun i => p i ^^^ e i

/-- The pattern flips a bit, and all its flips lie within sixteen
    consecutive bits. -/
def Burst (e : Mem) (n : Nat) : Prop :=
  (∃ j < 8 * n, frameBit e j = true) ∧
    ∃ k, ∀ j < 8 * n, frameBit e j = true → k ≤ j ∧ j < k + 16

/-- The pattern flips an odd number of bits. -/
def OddFlips (e : Mem) (n : Nat) : Prop := (List.range (8 * n)).countP (frameBit e) % 2 = 1

theorem frameBits_flipped (p e : Mem) (n : Nat) :
    frameBits (flipped p e) n = List.zipWith (· ^^ ·) (frameBits p n) (frameBits e n) := by
  rw [frameBits_eq, frameBits_eq, frameBits_eq, List.zipWith_map, List.zipWith_self]
  apply List.map_congr_left
  intro j _
  exact BitVec.getLsbD_xor

/-- An error moves the register by its own register, from zero. -/
theorem updateCrc16_flipped (p e : Mem) (n : Nat) :
    updateCrc16 (flipped p e) n = updateCrc16 p n ^^^ Crc.feed CRC16_POLY 0 (frameBits e n) := by
  have hlen : (frameBits p n).length = (frameBits e n).length := by
    simp [frameBits_eq]
  have hxor := Crc.feed_xor CRC16_POLY 0xFFFF 0 hlen
  rw [← frameBits_flipped, ← updateCrc16_feed] at hxor
  rw [← hxor, updateCrc16_feed]
  rfl

theorem Burst.feed_ne_zero {e : Mem} {n : Nat} (h : Burst e n) :
    Crc.feed CRC16_POLY 0 (frameBits e n) ≠ 0 := by
  obtain ⟨⟨j, hj, hflip⟩, k, hwithin⟩ := h
  obtain ⟨hlow, hhigh⟩ := hwithin j hj hflip
  -- what is in front of the burst, the burst, and the rest
  obtain ⟨len, rest, hsplit, hlen, hrest⟩ :
      ∃ len rest, 8 * n = k + len + rest ∧ len ≤ 16 ∧ (rest = 0 ∨ len = 16) :=
    ⟨min 16 (8 * n - k), 8 * n - k - 16, by omega, by omega, by omega⟩
  rw [frameBits_eq, hsplit, List.range_add, List.range_add, List.map_append, List.map_append,
    List.map_map, List.map_map]
  have hpoly : CRC16_POLY.msb = true := by decide
  refine Crc.feed_burst hpoly ?_ ?_ ?_ ?_
  · intro b hb
    obtain ⟨i, hi, rfl⟩ := List.mem_map.mp hb
    have hlt : i < k := List.mem_range.mp hi
    by_contra hset
    have := hwithin i (by omega) (Bool.not_eq_false _ ▸ hset)
    omega
  · intro b hb
    obtain ⟨i, hi, rfl⟩ := List.mem_map.mp hb
    have hlt : i < rest := List.mem_range.mp hi
    by_contra hset
    have := hwithin (k + len + i) (by omega) (Bool.not_eq_false _ ▸ hset)
    omega
  · refine List.mem_map.mpr ⟨j - k, List.mem_range.mpr (by omega), ?_⟩
    rw [Function.comp_apply, Nat.add_sub_cancel' hlow]
    exact hflip
  · rw [List.length_map, List.length_range]
    exact hlen

theorem OddFlips.feed_ne_zero {e : Mem} {n : Nat} (h : OddFlips e n) :
    Crc.feed CRC16_POLY 0 (frameBits e n) ≠ 0 := by
  have hcount : (frameBits e n).count true % 2 = 1 := by
    rw [frameBits_eq, List.count_eq_countP, List.countP_map]
    simpa [OddFlips, Function.comp_def] using h
  exact Crc.feed_odd (by decide) (by decide) hcount

/-! ## Refusal -/

/-- `update_process` refuses what `crc_ok` refuses, and touches nothing. -/
theorem updateProcess_not_crcOk {p : Mem} {n : Nat} (h : crcOk p n = false) (rx : UpdateRx)
    (pend : Mem) (magic : U32) :
    ∃ detail id, updateProcess rx p n pend magic = nack rx detail id := by
  have hcrc : ¬ crcOk p n = true := fun hok => absurd (h.symm.trans hok) Bool.false_ne_true
  unfold updateProcess
  dsimp only
  split
  · exact ⟨_, _, rfl⟩
  split
    -- BEGIN asks for its length first
  · unfold processBegin
    split
    · exact ⟨_, _, rfl⟩
    · exact ⟨_, _, rfl⟩
  split
  · exact ⟨_, _, rfl⟩
  · exact ⟨_, _, rfl⟩

/-- **CRC-16 error detection.** No burst within sixteen bits and no odd
    number of flips turns an accepted frame into another accepted frame,
    and `update_process` refuses what comes of it. -/
theorem crcOk_flipped {p e : Mem} {n : Nat} (hn : 3 ≤ n) (hok : crcOk p n = true)
    (herr : Burst e n ∨ OddFlips e n) :
    crcOk (flipped p e) n = false ∧
      ∀ rx pend magic, ∃ detail id,
        updateProcess rx (flipped p e) n pend magic = nack rx detail id := by
  have hfeed : Crc.feed CRC16_POLY 0 (frameBits e n) ≠ 0 := by
    rcases herr with hburst | hodd
    · exact hburst.feed_ne_zero
    · exact hodd.feed_ne_zero
  have hbad : crcOk (flipped p e) n = false := by
    rw [Bool.eq_false_iff]
    intro hflip
    rw [crcOk_iff _ (by omega), updateCrc16_flipped, (crcOk_iff p (by omega)).mp hok] at hflip
    exact hfeed (BitVec.zero_xor.symm.trans hflip)
  exact ⟨hbad, updateProcess_not_crcOk hbad⟩

/-- A one-byte frame and its CRC; a burst across the boundary between them. -/
theorem crcOk_flipped_boundary :
    crcOk (flipped (fun i => ([0x31, 0x7E, 0x94] : List U8).getD i 0)
      (fun i => ([0x80, 0x01, 0] : List U8).getD i 0)) 3 = false := by
  refine (crcOk_flipped (by decide) (by decide) (.inl ⟨⟨7, by decide, by decide⟩, 7, ?_⟩)).1
  decide

end Interclus

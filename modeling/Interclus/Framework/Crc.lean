import Mathlib.Data.List.GetD
import Mathlib.Logic.Function.Iterate

/-! # Reflected CRCs

    A CRC register that shifts towards bit 0 and takes the message bits in
    there, of any width and for any polynomial.

    The register is linear in its content and in the message, so an error
    moves the register by the register of the error pattern alone, from
    zero.  A short burst is not lost because a shift is invertible; an odd
    number of flips is not lost because a shift keeps the parity. -/

namespace Crc

variable {w : Nat} (poly : BitVec w)

/-- One shift; the bit that falls out adds the polynomial. -/
def shift (s : BitVec w) : BitVec w := if s.getLsbD 0 then (s >>> 1) ^^^ poly else s >>> 1

/-- A message bit at bit 0. -/
def bit (b : Bool) : BitVec w := (BitVec.ofBool b).setWidth w

/-- The register behind message bits. -/
def feed (s : BitVec w) (bs : List Bool) : BitVec w :=
  bs.foldl (fun s b => shift poly (s ^^^ bit b)) s

/-! ## Linearity -/

theorem shift_xor (s t : BitVec w) : shift poly (s ^^^ t) = shift poly s ^^^ shift poly t := by
  have hcancel : ∀ a b : BitVec w, a ^^^ poly ^^^ (b ^^^ poly) = a ^^^ b := by
    intro a b
    rw [BitVec.xor_assoc, ← BitVec.xor_assoc poly b, BitVec.xor_comm poly b, BitVec.xor_assoc b,
      BitVec.xor_self, BitVec.xor_zero]
  unfold shift
  rw [BitVec.getLsbD_xor, BitVec.ushiftRight_xor_distrib]
  -- whether the polynomial is added on either side, on both, or on none
  cases s.getLsbD 0 <;> cases t.getLsbD 0
  · simp
  · simp [BitVec.xor_assoc]
  · simp only [Bool.xor_false, if_true, Bool.false_eq_true, if_false]
    rw [BitVec.xor_assoc, BitVec.xor_comm (t >>> 1), ← BitVec.xor_assoc]
  · simp [hcancel]

@[simp] theorem shift_zero : shift poly 0 = 0 := by simp [shift]

theorem bit_xor (b c : Bool) : (bit (b ^^ c) : BitVec w) = bit b ^^^ bit c := by
  cases b <;> cases c <;> simp [bit]

theorem feed_append (s : BitVec w) (bs cs : List Bool) :
    feed poly s (bs ++ cs) = feed poly (feed poly s bs) cs := List.foldl_append

/-- Two messages of one length, added bit by bit. -/
theorem feed_xor (s t : BitVec w) {bs cs : List Bool} (h : bs.length = cs.length) :
    feed poly (s ^^^ t) (List.zipWith (· ^^ ·) bs cs) = feed poly s bs ^^^ feed poly t cs := by
  induction bs generalizing cs s t with
  | nil =>
    rw [List.eq_nil_of_length_eq_zero h.symm]
    rfl
  | cons b bs ih =>
    cases cs with
    | nil => cases h
    | cons c cs =>
      -- one bit of both messages at once
      have hstep : shift poly (s ^^^ t ^^^ bit (b ^^ c)) =
          shift poly (s ^^^ bit b) ^^^ shift poly (t ^^^ bit c) := by
        rw [← shift_xor, bit_xor]
        congr 1
        ac_rfl
      show feed poly (shift poly (s ^^^ t ^^^ bit (b ^^ c))) (List.zipWith _ bs cs) = _
      rw [hstep, ih _ _ (Nat.succ.inj h)]
      rfl

/-! ## Bursts -/

/-- The bits of a word, lowest first. -/
def ofBits : List Bool → BitVec w
  | [] => 0
  | b :: bs => ofBits bs <<< 1 ^^^ bit b

theorem getLsbD_bit (b : Bool) (i : Nat) :
    (bit b : BitVec w).getLsbD i = (decide (i = 0 ∧ i < w) && b) := by
  cases b <;> cases i <;> simp [bit]

theorem getLsbD_ofBits (bs : List Bool) (i : Nat) :
    (ofBits bs : BitVec w).getLsbD i = (decide (i < w) && bs.getD i false) := by
  induction bs generalizing i with
  | nil => simp [ofBits]
  | cons b bs ih =>
    rw [ofBits, BitVec.getLsbD_xor, BitVec.getLsbD_shiftLeft, getLsbD_bit, ih]
    cases i with
    | zero => simp
    | succ i =>
      by_cases hi : i + 1 < w
      · simp [hi, show i < w by omega]
      · simp [hi]

/-- A shift undoes the shift the other way, where that loses no bit. -/
theorem shift_shiftLeft {s : BitVec w} (h : s.getLsbD (w - 1) = false) :
    shift poly (s <<< 1) = s := by
  -- the bit that goes out is clear, so the polynomial is not added
  have hlow : (s <<< 1).getLsbD 0 = false := by simp
  unfold shift
  rw [if_neg (by rw [hlow]; exact Bool.false_ne_true)]
  apply BitVec.eq_of_getLsbD_eq
  intro i hi
  rw [BitVec.getLsbD_ushiftRight, BitVec.getLsbD_shiftLeft]
  by_cases hlast : 1 + i < w
  · simp [hlast]
  · have hi' : i = w - 1 := by omega
    simp [hi', h]

/-- At most a word of message bits: the word is added at once. -/
theorem feed_eq_iterate (s : BitVec w) {bs : List Bool} (h : bs.length ≤ w) :
    feed poly s bs = (shift poly)^[bs.length] (s ^^^ ofBits bs) := by
  induction bs generalizing s with
  | nil => exact (BitVec.xor_zero).symm
  | cons b bs ih =>
    have hlen : bs.length < w := h
    -- the bits still to come go through the shift unharmed
    have htop : (ofBits bs : BitVec w).getLsbD (w - 1) = false := by
      rw [getLsbD_ofBits, List.getD_eq_default _ _ (by omega), Bool.and_false]
    have hstep : shift poly (s ^^^ ofBits (b :: bs)) = shift poly (s ^^^ bit b) ^^^ ofBits bs := by
      rw [ofBits, BitVec.xor_comm (ofBits bs <<< 1), ← BitVec.xor_assoc, shift_xor,
        shift_shiftLeft poly htop]
    show feed poly (shift poly (s ^^^ bit b)) bs = _
    rw [List.length_cons, Function.iterate_succ_apply, hstep]
    exact ih _ (Nat.le_of_lt hlen)

theorem feed_zeros (s : BitVec w) {bs : List Bool} (h : ∀ b ∈ bs, b = false) :
    feed poly s bs = (shift poly)^[bs.length] s := by
  induction bs generalizing s with
  | nil => rfl
  | cons b bs ih =>
    have hb : b = false := h b List.mem_cons_self
    have hstep : s ^^^ bit false = s := by simp [bit]
    show feed poly (shift poly (s ^^^ bit b)) bs = _
    rw [hb, hstep, List.length_cons, Function.iterate_succ_apply]
    exact ih _ fun b' hb' => h b' (List.mem_cons_of_mem _ hb')

variable {poly}

/-- The bit the polynomial sets on top tells which way a shift went. -/
theorem shift_eq_zero (hpoly : poly.msb = true) {s : BitVec w} : shift poly s = 0 ↔ s = 0 := by
  constructor
  · intro h
    unfold shift at h
    split at h
    · -- the top bit of the result is that of the polynomial
      have htop : ((s >>> 1) ^^^ poly).msb = true := by
        simp [BitVec.msb_xor, BitVec.msb_ushiftRight, hpoly]
      rw [h] at htop
      simp at htop
    · next hlow =>
      apply BitVec.eq_of_getLsbD_eq
      intro i _
      cases i with
      | zero => simpa using hlow
      | succ i =>
        have hbit := congrArg (BitVec.getLsbD · i) h
        rw [BitVec.getLsbD_ushiftRight, Nat.add_comm] at hbit
        simpa using hbit
  · rintro rfl
    exact shift_zero poly

theorem iterate_shift_eq_zero (hpoly : poly.msb = true) {s : BitVec w} (n : Nat) :
    (shift poly)^[n] s = 0 ↔ s = 0 := by
  induction n generalizing s with
  | zero => rfl
  | succ n ih => rw [Function.iterate_succ_apply, ih, shift_eq_zero hpoly]

/-- The register of an error that is a short burst is not zero. -/
theorem feed_burst (hpoly : poly.msb = true) {pre mid post : List Bool}
    (hpre : ∀ b ∈ pre, b = false) (hpost : ∀ b ∈ post, b = false) (hmid : true ∈ mid)
    (hlen : mid.length ≤ w) : feed poly 0 (pre ++ mid ++ post) ≠ 0 := by
  -- the burst is one word of the register
  have hword : (ofBits mid : BitVec w) ≠ 0 := by
    intro h
    obtain ⟨i, hi, hbit⟩ := List.mem_iff_getElem.mp hmid
    have hzero := congrArg (BitVec.getLsbD · i) h
    rw [getLsbD_ofBits, List.getD_eq_getElem _ _ hi, hbit,
      decide_eq_true (Nat.lt_of_lt_of_le hi hlen)] at hzero
    simp at hzero
  -- zeros in front keep the register zero, zeros behind cannot clear it
  rw [feed_append, feed_append, feed_zeros poly 0 hpre,
    (iterate_shift_eq_zero hpoly pre.length).mpr rfl, feed_eq_iterate poly 0 hlen,
    feed_zeros poly _ hpost]
  intro h
  rw [iterate_shift_eq_zero hpoly, iterate_shift_eq_zero hpoly] at h
  exact hword (BitVec.zero_xor.symm.trans h)

/-! ## Parity -/

/-- The exclusive or of the first `n` values. -/
def xorSum (f : Nat → Bool) : Nat → Bool
  | 0 => false
  | n + 1 => xorSum f n ^^ f n

theorem xorSum_xor (f g : Nat → Bool) (n : Nat) :
    xorSum (fun i => f i ^^ g i) n = (xorSum f n ^^ xorSum g n) := by
  induction n with
  | zero => rfl
  | succ n ih =>
    rw [xorSum, ih, xorSum, xorSum]
    simp only [Bool.xor_assoc, Bool.xor_left_comm]

theorem xorSum_succ (f : Nat → Bool) (n : Nat) :
    xorSum f (n + 1) = (f 0 ^^ xorSum (fun i => f (i + 1)) n) := by
  induction n with
  | zero => simp [xorSum]
  | succ n ih => rw [xorSum, ih, xorSum, Bool.xor_assoc]

/-- Whether an odd number of bits is set. -/
def parity (v : BitVec w) : Bool := xorSum v.getLsbD w

theorem parity_xor (v v' : BitVec w) : parity (v ^^^ v') = (parity v ^^ parity v') := by
  have hbits : (v ^^^ v').getLsbD = fun i => v.getLsbD i ^^ v'.getLsbD i := by
    funext i
    exact BitVec.getLsbD_xor
  unfold parity
  rw [hbits, xorSum_xor]

theorem parity_zero : parity (0 : BitVec w) = false := by
  have hsum : ∀ n, xorSum (0 : BitVec w).getLsbD n = false := by
    intro n
    induction n with
    | zero => rfl
    | succ n ih =>
      rw [xorSum, ih, Bool.false_xor]
      exact BitVec.getLsbD_zero
  exact hsum w

theorem parity_bit (hw : 0 < w) (b : Bool) : parity (bit b : BitVec w) = b := by
  have hsum : ∀ n, n < w → xorSum (bit b : BitVec w).getLsbD (n + 1) = b := by
    intro n hn
    induction n with
    | zero =>
      rw [xorSum, xorSum, getLsbD_bit]
      simp [hw]
    | succ n ih =>
      rw [xorSum, ih (by omega), getLsbD_bit]
      simp
  obtain ⟨n, rfl⟩ := Nat.exists_eq_succ_of_ne_zero (Nat.ne_of_gt hw)
  exact hsum n (Nat.lt_succ_self n)

/-- A shift drops one bit, and then adds an odd number. -/
theorem parity_shift (hpoly : parity poly = true) (s : BitVec w) :
    parity (shift poly s) = parity s := by
  have hright : parity (s >>> 1) = (s.getLsbD 0 ^^ parity s) := by
    have hbits : (s >>> 1).getLsbD = fun i => s.getLsbD (i + 1) := by
      funext i
      rw [BitVec.getLsbD_ushiftRight, Nat.add_comm]
    -- the sum over all bits but the one that went out
    have hsum := xorSum_succ s.getLsbD w
    rw [xorSum, BitVec.getLsbD_of_ge s w (Nat.le_refl w), Bool.xor_false] at hsum
    unfold parity
    rw [hbits, hsum, ← Bool.xor_assoc, Bool.xor_self, Bool.false_xor]
  unfold shift
  cases hlow : s.getLsbD 0 with
  | false =>
    rw [if_neg Bool.false_ne_true, hright, hlow, Bool.false_xor]
  | true =>
    rw [if_pos rfl, parity_xor, hright, hlow, hpoly]
    simp

/-- The parity of the register follows that of the message. -/
theorem parity_feed (hw : 0 < w) (hpoly : parity poly = true) (s : BitVec w) (bs : List Bool) :
    parity (feed poly s bs) = (parity s ^^ decide (bs.count true % 2 = 1)) := by
  induction bs generalizing s with
  | nil => simp [feed]
  | cons b bs ih =>
    show parity (feed poly (shift poly (s ^^^ bit b)) bs) = _
    rw [ih, parity_shift hpoly, parity_xor, parity_bit hw, Bool.xor_assoc]
    congr 1
    cases b with
    | false => simp
    | true =>
      rw [List.count_cons_self]
      by_cases hodd : bs.count true % 2 = 1
      · simp [hodd]
        omega
      · simp [hodd]
        omega

/-- The register of an error with an odd number of flips is not zero. -/
theorem feed_odd (hw : 0 < w) (hpoly : parity poly = true) {bs : List Bool}
    (h : bs.count true % 2 = 1) : feed poly 0 bs ≠ 0 := by
  intro hzero
  have hparity := parity_feed hw hpoly 0 bs
  rw [hzero, parity_zero, decide_eq_true h] at hparity
  simp at hparity

end Crc

import Interclus.Core.Helpers
import Interclus.Framework.DoubleWord

/-! # Soft 64-bit Arithmetic

    The helpers of `core/helpers.c` compute the 64-bit operations exactly:
    the shifts on the two halves of a double word, the product from three
    products of halves, the quotient and the remainder by restoring
    division.  So `ebpf_run` compiled to them is `ebpf_run`. -/

namespace Interclus

open Words DoubleWord

/-! ## Shifts -/

/-- `b & 63` is the count modulo 64, also for a negative `int`. -/
theorem count_mod (b : U32) : (b &&& 63).toNat = (b.toInt % 64).toNat := by
  have hmask : (b &&& 63).toNat = b.toNat % 64 := by
    rw [BitVec.toNat_and]
    exact Nat.and_two_pow_sub_one_eq_mod b.toNat 6
  have hb := b.isLt
  rw [hmask, BitVec.toInt_eq_toNat_cond]
  split <;> omega

theorem count_lt (b : U32) : (b &&& 63).toNat < 64 := by
  rw [count_mod]
  omega

/-- The words the helpers work on. -/
theorem joined (a : U64) : join 64 (high 32 a) (low 32 a) = a := join_halves two_words a

/-- A helper that treats counts from 32 on, counts below 32 and zero apart
    computes `f` when each of its branches does. -/
theorem by_count (g : Nat → U64) (h : Nat → Nat → U64) {z : U64} {f : Nat → U64} {n : U32}
    (hn : n.toNat < 64) (hge : ∀ k, 32 ≤ k → f k = g (k - 32))
    (hlt : ∀ k, k < 32 → f k = h k (32 - k)) (hzero : f 0 = z) :
    (if 32 ≤ n then g (n - 32).toNat else if 0 < n then h n.toNat (32 - n).toNat else z) =
      f n.toNat := by
  by_cases hwide : 32 ≤ n
  · have hcount : (n - 32).toNat = n.toNat - 32 := by bv_omega
    rw [if_pos hwide, hcount, hge _ (by bv_omega)]
  · rw [if_neg hwide]
    by_cases hpos : 0 < n
    · have hcount : (32 - n).toNat = 32 - n.toNat := by bv_omega
      rw [if_pos hpos, hcount, hlt _ (by bv_omega)]
    · have hnone : n.toNat = 0 := by bv_omega
      rw [if_neg hpos, hnone, hzero]

theorem ashldi3_eq (a : U64) (b : U32) : ashldi3 a b = a <<< (b.toInt % 64).toNat := by
  rw [← count_mod]
  conv_rhs => rw [← joined a]
  exact by_count (fun k => join 64 (low 32 a <<< k) 0)
    (fun k l => join 64 (high 32 a <<< k ||| low 32 a >>> l) (low 32 a <<< k))
    (f := fun k => join 64 (high 32 a) (low 32 a) <<< k) (count_lt b)
    (fun _ hk => shiftLeft_join_ge two_words hk _ _)
    (fun _ hk => shiftLeft_join_lt two_words hk _ _) (BitVec.shiftLeft_zero _)

theorem lshrdi3_eq (a : U64) (b : U32) : lshrdi3 a b = a >>> (b.toInt % 64).toNat := by
  rw [← count_mod]
  conv_rhs => rw [← joined a]
  exact by_count (fun k => join 64 0 (high 32 a >>> k))
    (fun k l => join 64 (high 32 a >>> k) (low 32 a >>> k ||| high 32 a <<< l))
    (f := fun k => join 64 (high 32 a) (low 32 a) >>> k) (count_lt b)
    (fun _ hk => ushiftRight_join_ge two_words hk _ _)
    (fun _ hk => ushiftRight_join_lt two_words hk _ _) (BitVec.ushiftRight_zero _)

theorem ashrdi3_eq (a : U64) (b : U32) : ashrdi3 a b = a.sshiftRight (b.toInt % 64).toNat := by
  rw [← count_mod]
  conv_rhs => rw [← joined a]
  exact by_count (fun k => join 64 ((high 32 a).sshiftRight 31) ((high 32 a).sshiftRight k))
    (fun k l => join 64 ((high 32 a).sshiftRight k) (low 32 a >>> k ||| high 32 a <<< l))
    (f := fun k => (join 64 (high 32 a) (low 32 a)).sshiftRight k) (count_lt b)
    (fun _ hk => sshiftRight_join_ge two_words hk _ _)
    (fun _ hk => sshiftRight_join_lt two_words hk _ _) BitVec.sshiftRight_zero

/-! ## Product -/

theorem muldi3_eq (a b : U64) : muldi3 a b = a * b := by
  conv_rhs => rw [← joined a, ← joined b]
  exact (join_mul_join two_words (high 32 a) (low 32 a) (high 32 b) (low 32 b)).symm

/-! ## Division -/

/-- The loop before the round for bit `i - 1`: `qr` is a lawful state of the
    division recurrence with the bits below `i` still to come, and `q` holds
    its quotient in place. -/
structure DivLoop.Tracks (a b : U64) (i : Nat) (s : DivLoop) (qr : BitVec.DivModState 64) :
    Prop where
  lawful : BitVec.DivModState.Lawful { n := a, d := b } qr
  left : qr.wn = i
  q : s.q = qr.q <<< i
  r : s.r = qr.r

/-- The next bit of the dividend, shifted into the remainder. -/
theorem shiftConcat_bit (r a : U64) (i : Nat) :
    r <<< 1 ||| (a >>> i &&& 1) = r.shiftConcat (a.getLsbD i) := by
  apply BitVec.eq_of_getLsbD_eq
  intro j hj
  have hone : (1 : U64).getLsbD j = decide (j = 0) := by
    rw [show (1 : U64) = BitVec.twoPow 64 0 by decide, BitVec.getLsbD_twoPow]
    simp [eq_comm]
  rw [BitVec.getLsbD_shiftConcat, BitVec.getLsbD_or, BitVec.getLsbD_shiftLeft, BitVec.getLsbD_and,
    BitVec.getLsbD_ushiftRight, hone]
  by_cases h0 : j = 0
  · subst h0
    simp
  · simp [h0, hj, show ¬ j < 1 by omega]

/-- The next bit of the quotient, at its place. -/
theorem shiftConcat_shiftLeft (q : U64) (i : Nat) (bit : Bool) :
    q.shiftConcat bit <<< i = q <<< (i + 1) ||| (if bit then 1#64 <<< i else 0) := by
  apply BitVec.eq_of_getLsbD_eq
  intro j hj
  have hbit : (if bit then 1#64 <<< i else 0).getLsbD j = (bit && decide (j = i)) := by
    rw [← BitVec.twoPow_eq]
    cases bit
    · simp
    · simp [hj, eq_comm]
  rw [BitVec.getLsbD_or, hbit, BitVec.getLsbD_shiftLeft, BitVec.getLsbD_shiftLeft,
    BitVec.getLsbD_shiftConcat]
  by_cases hbelow : j < i
  · simp [hbelow, show j < i + 1 by omega, show j ≠ i by omega]
  · by_cases hat : j = i
    · subst hat
      simp [hj]
    · simp [hj, hbelow, hat, show ¬ j < i + 1 by omega, show j - i < 64 by omega,
        show ¬ j - i = 0 by omega, show j - i - 1 = j - (i + 1) by omega]

/-- Step lemma: a round of the loop is a step of the recurrence. -/
theorem DivLoop.Tracks.round {a b : U64} {i : Nat} {s : DivLoop} {qr : BitVec.DivModState 64}
    (h : s.Tracks a b (i + 1) qr) :
    (udivmodRound a b i s).Tracks a b i (BitVec.divSubtractShift { n := a, d := b } qr) := by
  obtain ⟨hlawful, hleft, hq, hr⟩ := h
  have hnext := BitVec.lawful_divSubtractShift qr ⟨hlawful, by omega⟩
  have hwn : qr.wn - 1 = i := by omega
  unfold udivmodRound
  dsimp only
  rw [shiftConcat_bit, hr, hq]
  unfold BitVec.divSubtractShift at hnext ⊢
  dsimp only at hnext ⊢
  rw [hwn] at hnext ⊢
  -- the code tests `r >= b`, the recurrence whether `r` is below the divisor
  by_cases hfits : b ≤ qr.r.shiftConcat (a.getLsbD i)
  · rw [if_neg (BitVec.not_lt.mpr hfits)] at hnext ⊢
    rw [if_pos hfits]
    exact ⟨hnext, rfl, by simp [shiftConcat_shiftLeft], rfl⟩
  · rw [if_pos (BitVec.not_le.mp hfits)] at hnext ⊢
    rw [if_neg hfits]
    exact ⟨hnext, rfl, by simp [shiftConcat_shiftLeft], rfl⟩

/-- Run lemma: after `k` rounds, `64 - k` bits are left. -/
theorem udivmodRounds_tracks {a b : U64} (hb : b ≠ 0) {k : Nat} (hk : k ≤ 64) :
    ∃ qr, (udivmodRounds a b k).Tracks a b (64 - k) qr := by
  induction k with
  | zero =>
    have hpos : 0#64 < b := by bv_omega
    exact ⟨.init 64, BitVec.DivModState.lawful_init { n := a, d := b } hpos, rfl, by
      simp [udivmodRounds, BitVec.DivModState.init], rfl⟩
  | succ k ih =>
    obtain ⟨qr, hqr⟩ := ih (by omega)
    have hbit : 64 - k = 63 - k + 1 := by omega
    have hrest : 64 - (k + 1) = 63 - k := by omega
    rw [hbit] at hqr
    rw [hrest]
    exact ⟨_, hqr.round⟩

/-- The remainder leaves room for one more bit. -/
theorem udivmodRounds_fits {a b : U64} (hb : b ≠ 0) {k : Nat} (hk : k < 64) :
    2 * (udivmodRounds a b k).r.toNat + 1 < 2 ^ 64 := by
  obtain ⟨qr, hqr⟩ := udivmodRounds_tracks (a := a) hb (Nat.le_of_lt hk)
  have hwidth := hqr.lawful.hrWidth
  have hsum := hqr.lawful.hwrn
  rw [hqr.left] at hsum
  have hle : 2 ^ qr.wr ≤ 2 ^ 63 := Nat.pow_le_pow_right (by decide) (by omega)
  rw [hqr.r]
  omega

theorem udivmod_eq {a b : U64} (hb : b ≠ 0) : udivmod a b = (a / b, a % b) := by
  obtain ⟨qr, hlawful, hleft, hq, hr⟩ := udivmodRounds_tracks (a := a) hb (Nat.le_refl 64)
  unfold udivmod
  dsimp only
  rw [if_neg hb, hq, hr, BitVec.DivModState.udiv_eq_of_lawful hlawful hleft,
    BitVec.DivModState.umod_eq_of_lawful hlawful hleft]
  simp

/-! ## `ebpf_run` on RV32 -/

theorem shiftCount_mod {n : Nat} (hn : n < 64) : ((shiftCount n).toInt % 64).toNat = n := by
  rw [← count_mod, shiftCount, BitVec.toNat_and, BitVec.toNat_ofNat,
    Nat.mod_eq_of_lt (by omega : n < 2 ^ 32)]
  exact (Nat.and_two_pow_sub_one_eq_mod n 6).trans (Nat.mod_eq_of_lt hn)

theorem ashldi3_shiftCount (a : U64) {n : Nat} (hn : n < 64) :
    ashldi3 a (shiftCount n) = a <<< n := by
  rw [ashldi3_eq, shiftCount_mod hn]

theorem lshrdi3_shiftCount (a : U64) {n : Nat} (hn : n < 64) :
    lshrdi3 a (shiftCount n) = a >>> n := by
  rw [lshrdi3_eq, shiftCount_mod hn]

theorem ashrdi3_shiftCount (a : U64) {n : Nat} (hn : n < 64) :
    ashrdi3 a (shiftCount n) = a.sshiftRight n := by
  rw [ashrdi3_eq, shiftCount_mod hn]

theorem decodeInsnRv32_eq (e : U64) : decodeInsnRv32 e = decodeInsn e := by
  simp [decodeInsnRv32, decodeInsn, lshrdi3_shiftCount]

theorem loadLeRv32_eq (mem : U64 → U8) (addr : U64) (size : U8) :
    loadLeRv32 mem addr size = loadLe mem addr size := by
  simp [loadLeRv32, loadLe, ashldi3_shiftCount]

theorem aluShift_lt (is64 : Bool) (arg : U64) : aluShift is64 arg < 64 := by
  have h63 : (arg &&& 63).toNat ≤ 63 := by
    rw [BitVec.toNat_and]
    exact Nat.and_le_right
  have h31 : (arg &&& 31).toNat ≤ 31 := by
    rw [BitVec.toNat_and]
    exact Nat.and_le_right
  unfold aluShift
  split <;> omega

theorem aluSwitchRv32_eq (is64 : Bool) (o : AluOp) (i : EbpfInsn) (v arg : U64) :
    aluSwitchRv32 is64 o i v arg = aluSwitch is64 o i v arg := by
  have hshift := aluShift_lt is64 arg
  cases o with
  | mul => simp [aluSwitchRv32, aluSwitch, muldi3_eq]
  | lsh => simp [aluSwitchRv32, aluSwitch, ashldi3_shiftCount _ hshift]
  | rsh => simp [aluSwitchRv32, aluSwitch, lshrdi3_shiftCount _ hshift]
  | arsh => simp [aluSwitchRv32, aluSwitch, ashrdi3_shiftCount _ hshift]
  | _ => rfl

theorem CExpr.evalRv32_eq (undef : CExpr → U64) (e : CExpr) : e.evalRv32 undef = e.eval undef := by
  unfold CExpr.evalRv32 CExpr.eval
  by_cases hundef : e.undefined = true
  · rw [if_pos hundef, if_pos hundef]
  · rw [if_neg hundef, if_neg hundef]
    cases e with
    | div64 a b =>
      have hb : b ≠ 0 := by simpa [CExpr.undefined] using hundef
      simp [udivdi3, udivmod_eq hb]
    | mod64 a b =>
      have hb : b ≠ 0 := by simpa [CExpr.undefined] using hundef
      simp [umoddi3, udivmod_eq hb]
    | _ => rfl

theorem aluExprRv32_eq (i : EbpfInsn) (dst src : Fin 11) (regs : RegFile) :
    aluExprRv32 i dst src regs = aluExpr i dst src regs := by
  unfold aluExprRv32 aluExpr
  by_cases hdst : dst = 10
  · simp [hdst]
  · cases ho : AluOp.ofCode? i.op with
    | none => simp [hdst]
    | some o => simp [hdst, aluSwitchRv32_eq]

/-- One turn is the same turn. -/
theorem ebpfStepRv32_eq (undef : CExpr → U64) (p : EbpfProg) (m : EbpfState) :
    ebpfStepRv32 undef p m = ebpfStep undef p m := by
  have halu : ∀ i dst src m, aluStepRv32 undef i dst src m = aluStep undef i dst src m := by
    intro i dst src m
    unfold aluStepRv32 aluStep
    rw [aluExprRv32_eq]
    cases aluExpr i dst src m.regs with
    | error f => rfl
    | ok e => simp only [CExpr.evalRv32_eq]
  have hldx : ∀ i dst src m, ldxStepRv32 p i dst src m = ldxStep p i dst src m := by
    intro i dst src m
    simp only [ldxStepRv32, ldxStep, loadLeRv32_eq]
  unfold ebpfStepRv32 ebpfStep fetchExecRv32 fetchExec execInsnRv32 execInsn EbpfProg.insnAt
  simp only [decodeInsnRv32_eq, halu, hldx]

/-- What the helpers promise, and the run compiled to them. -/
structure SoftArithExact : Prop where
  mul : ∀ a b : U64, (muldi3 a b).toNat = a.toNat * b.toNat % 2 ^ 64
  div : ∀ a b : U64, b ≠ 0 → (udivdi3 a b).toNat = a.toNat / b.toNat
  mod : ∀ a b : U64, b ≠ 0 → (umoddi3 a b).toNat = a.toNat % b.toNat
  fits : ∀ a b : U64, b ≠ 0 → ∀ k < 64, 2 * (udivmodRounds a b k).r.toNat + 1 < 2 ^ 64
  shl : ∀ (a : U64) (n : U32), ashldi3 a n = a <<< (n.toInt % 64).toNat
  shr : ∀ (a : U64) (n : U32), lshrdi3 a n = a >>> (n.toInt % 64).toNat
  sar : ∀ (a : U64) (n : U32), ashrdi3 a n = a.sshiftRight (n.toInt % 64).toNat
  run : ∀ undef p fuel, ebpfRunRv32 undef p fuel = ebpfRun undef p fuel

/-- **Soft 64-bit arithmetic is exact**, for all operands and every shift
    count, and a run on RV32 is a run on a 64-bit host. -/
theorem softArith_exact : SoftArithExact where
  mul := by
    intro a b
    rw [muldi3_eq, BitVec.toNat_mul]
  div := by
    intro a b hb
    rw [udivdi3, udivmod_eq hb, BitVec.toNat_udiv]
  mod := by
    intro a b hb
    rw [umoddi3, udivmod_eq hb, BitVec.toNat_umod]
  fits := fun _ _ hb _ hk => udivmodRounds_fits hb hk
  shl := ashldi3_eq
  shr := lshrdi3_eq
  sar := ashrdi3_eq
  run := by
    intro undef p fuel
    unfold ebpfRunRv32 ebpfRun ebpfRunFrom
    rw [funext (ebpfStepRv32_eq undef p)]

end Interclus

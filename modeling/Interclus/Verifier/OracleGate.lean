import Mathlib.Data.List.Find
import Interclus.Host.Oracle
import Interclus.Verifier.Soundness

/-! # The Oracle's Verifier

    The verifier of `tools/soundness.py` against `ic_program_check`: field
    by field the two decoders agree, a turn of the one register gate is a
    round of the other, and so every image gets the same status from both. -/

namespace Interclus

open Words

/-! ## Fields -/

section Fields
variable (e : U64)

/-- A masked field keeps its value in a narrower word. -/
theorem toNat_field {w : Nat} (x m : U64) (h : m.toNat < 2 ^ w) :
    ((x &&& m).setWidth w).toNat = x.toNat &&& m.toNat := by
  rw [BitVec.toNat_setWidth, BitVec.toNat_and]
  exact Nat.mod_eq_of_lt (Nat.lt_of_le_of_lt Nat.and_le_right h)

theorem oracle_op : Oracle.op e.toNat = (insnOp e).toNat :=
  (toNat_field e 0xff (by decide)).symm

theorem oracle_dst : Oracle.dst e.toNat = (insnDst e).toNat := by
  refine Eq.trans ?_ (toNat_field (e >>> 8) 0x0f (by decide)).symm
  rw [BitVec.toNat_ushiftRight]
  rfl

theorem oracle_src : Oracle.src e.toNat = (insnSrc e).toNat := by
  refine Eq.trans ?_ (toNat_field (e >>> 12) 0x0f (by decide)).symm
  rw [BitVec.toNat_ushiftRight]
  rfl

theorem oracle_cls : Oracle.cls e.toNat = (insnCls e).toNat := by
  unfold Oracle.cls insnCls
  rw [oracle_op, BitVec.toNat_and]
  rfl

theorem oracle_hi : Oracle.hi e.toNat = (insnHi e).toNat := by
  unfold Oracle.hi insnHi
  rw [oracle_op, BitVec.toNat_and]
  rfl

theorem oracle_sx : Oracle.sx e.toNat = insnSrcX e := by
  unfold Oracle.sx insnSrcX
  rw [oracle_op, Bool.eq_iff_iff, decide_eq_true_iff, decide_eq_true_iff, ne_eq, ne_eq,
    ← BitVec.toNat_inj, BitVec.toNat_and]
  rfl

theorem oracle_imm : Oracle.imm e.toNat = (insnImm e).toNat := by
  unfold Oracle.imm insnImm
  rw [BitVec.toNat_and, BitVec.toNat_ushiftRight]
  rfl

theorem oracle_shift : e.toNat >>> 32 = (e >>> 32).toNat := (BitVec.toNat_ushiftRight e 32).symm

theorem oracle_off : Oracle.off e.toNat = (insnOff e).toInt := by
  have hfield : (e.toNat >>> 16) &&& 0xffff = (insnOff e).toNat := by
    refine Eq.trans ?_ (toNat_field (e >>> 16) 0xffff (by decide)).symm
    rw [BitVec.toNat_ushiftRight]
    rfl
  unfold Oracle.off Oracle.signed
  rw [hfield, BitVec.toInt_eq_toNat_cond]
  have hbound := (insnOff e).isLt
  split <;> split <;> omega

end Fields

theorem oracle_opcodeKnown : ∀ op : U8, Oracle.opcodeKnown op.toNat = opcodeKnown op := by
  decide +kernel

/-! ## The flow tables -/

section Tables
variable (e : U64)

theorem toNat_regBit {r : Nat} (h : r < 32) : (regBit r).toNat = 1 <<< r := by
  have hlt : 1 <<< r < 2 ^ 32 := by
    rw [Nat.shiftLeft_eq, Nat.one_mul]
    exact Nat.pow_lt_pow_right (by decide) h
  unfold regBit
  rw [BitVec.toNat_shiftLeft]
  exact Nat.mod_eq_of_lt hlt

theorem insnDst_lt : (insnDst e).toNat < 16 := by
  rw [← oracle_dst]
  exact Nat.lt_of_le_of_lt Nat.and_le_right (by decide)

theorem insnSrc_lt : (insnSrc e).toNat < 16 := by
  rw [← oracle_src]
  exact Nat.lt_of_le_of_lt Nat.and_le_right (by decide)

theorem oracle_srcBit :
    Oracle.srcBit e.toNat = (if insnSrcX e then regBit (insnSrc e).toNat else 0).toNat := by
  unfold Oracle.srcBit
  rw [oracle_sx, oracle_src]
  split
  · rw [toNat_regBit (Nat.lt_trans (insnSrc_lt e) (by decide))]
  · rfl

/-- The immediate is all of the upper half. -/
theorem insnImm_eq : insnImm e = e >>> 32 := by
  apply BitVec.eq_of_toNat_eq
  have hlt : (e >>> 32).toNat < 2 ^ 32 := by
    rw [BitVec.toNat_ushiftRight, Nat.shiftRight_eq_div_pow]
    have := e.isLt
    omega
  unfold insnImm
  rw [BitVec.toNat_and]
  exact (Nat.and_two_pow_sub_one_eq_mod _ 32).trans (Nat.mod_eq_of_lt hlt)

theorem oracle_shift_eq (k : Nat) (hk : k < 2 ^ 64) : e.toNat >>> 32 = k ↔
    insnImm e = BitVec.ofNat 64 k := by
  rw [insnImm_eq, oracle_shift, ← BitVec.toNat_inj, BitVec.toNat_ofNat, Nat.mod_eq_of_lt hk]

theorem oracle_cls_eq (k : Nat) (hk : k < 2 ^ 8) :
    Oracle.cls e.toNat = k ↔ insnCls e = BitVec.ofNat 8 k := by
  rw [oracle_cls, ← BitVec.toNat_inj, BitVec.toNat_ofNat, Nat.mod_eq_of_lt hk]

theorem oracle_hi_eq (k : Nat) (hk : k < 2 ^ 8) :
    Oracle.hi e.toNat = k ↔ insnHi e = BitVec.ofNat 8 k := by
  rw [oracle_hi, ← BitVec.toNat_inj, BitVec.toNat_ofNat, Nat.mod_eq_of_lt hk]

theorem oracle_isAlu : (Oracle.cls e.toNat = 4 ∨ Oracle.cls e.toNat = 7) ↔
    isAluCls (insnCls e) = true := by
  rw [oracle_cls_eq e 4 (by decide), oracle_cls_eq e 7 (by decide)]
  exact (decide_eq_true_iff (p := insnCls e = 4 ∨ insnCls e = 7)).symm

theorem oracle_isJmp : (Oracle.cls e.toNat = 5 ∨ Oracle.cls e.toNat = 6) ↔
    isJmpCls (insnCls e) = true := by
  rw [oracle_cls_eq e 5 (by decide), oracle_cls_eq e 6 (by decide)]
  exact (decide_eq_true_iff (p := insnCls e = 5 ∨ insnCls e = 6)).symm

theorem oracle_reads : Oracle.audReads e.toNat = (insnReads e).toNat := by
  have hdst := toNat_regBit (Nat.lt_trans (insnDst_lt e) (by decide : 16 < 32))
  have hsrc := toNat_regBit (Nat.lt_trans (insnSrc_lt e) (by decide : 16 < 32))
  have hr1 : (regBit 1).toNat = 1 <<< 1 := toNat_regBit (by decide)
  have hr2 : (regBit 2).toNat = 1 <<< 2 := toNat_regBit (by decide)
  unfold Oracle.audReads insnReads
  simp only [oracle_isAlu, oracle_isJmp]
  simp (disch := decide) only [oracle_hi_eq, oracle_cls_eq, oracle_shift_eq, oracle_srcBit,
    oracle_dst, oracle_src, apply_ite BitVec.toNat, BitVec.toNat_or, hdst, hsrc, hr1, hr2]
  rfl

theorem oracle_writes : Oracle.audWrites e.toNat = (insnWrites e).toNat := by
  have hdst := toNat_regBit (Nat.lt_trans (insnDst_lt e) (by decide : 16 < 32))
  unfold Oracle.audWrites insnWrites
  simp only [oracle_isJmp]
  simp (disch := decide) only [oracle_hi_eq, oracle_cls_eq, oracle_dst, apply_ite BitVec.toNat,
    hdst]
  rfl

/-- A jump's target, modulo the width of the program counter. -/
theorem oracle_target (pc : Nat) :
    Oracle.low 32 (pc + 1 + Oracle.off e.toNat) =
      (insnTarget e (BitVec.ofNat 32 pc)).toNat := by
  have htarget : insnTarget e (BitVec.ofNat 32 pc) =
      BitVec.ofInt 32 (pc + 1 + (insnOff e).toInt) := by
    unfold insnTarget
    rw [← BitVec.ofInt_natCast, ← BitVec.ofInt_toInt (x := (insnOff e).signExtend 32),
      BitVec.toInt_signExtend_of_le (by decide), BitVec.ofInt_add, BitVec.ofInt_add]
    rfl
  rw [htarget, BitVec.toNat_ofInt, oracle_off]
  rfl

theorem oracle_succ {pc : Nat} (hpc : pc < 64) : Oracle.audSucc e.toNat pc =
    (insnSucc e (BitVec.ofNat 32 pc)).map BitVec.toNat := by
  have hnext : (BitVec.ofNat 32 pc + 1).toNat = pc + 1 := by bv_omega
  unfold Oracle.audSucc insnSucc
  simp only [oracle_isJmp, oracle_target e]
  simp (disch := decide) only [oracle_hi_eq, apply_ite (List.map BitVec.toNat), List.map_cons,
    List.map_nil, hnext]
  rfl

end Tables

/-! ## Packed types -/

theorem oracle_bit (m : U32) {r : Nat} (hr : r < 32) : Oracle.bit m.toNat r = hasReg m r := by
  rw [hasReg_eq_getLsbD m hr, ← BitVec.testBit_toNat]
  unfold Oracle.bit Nat.testBit
  rw [Nat.and_comm, Bool.eq_iff_iff, decide_eq_true_iff, bne_iff_ne]

theorem oracle_getT (st : U32) (r : Nat) : Oracle.getT st.toNat r = (regType st r).toNat := by
  unfold Oracle.getT regType
  rw [BitVec.toNat_and, BitVec.toNat_ushiftRight]
  rfl

theorem oracle_getT_eq (st t : U32) (r : Nat) :
    Oracle.getT st.toNat r = t.toNat ↔ regType st r = t := by
  rw [oracle_getT, BitVec.toNat_inj]

/-- `st & ~(3 << (2 * r))` on unbounded integers clears the same two bits. -/
theorem oracle_setT (st : U32) {t : U32} (ht : t &&& T_MASK = t) {r : Nat} (hr : r < 16) :
    Oracle.setT st.toNat r t.toNat = (setType st r t).toNat := by
  have hthree : ∀ k, (3 : Nat).testBit k = decide (k < 2) := Nat.testBit_two_pow_sub_one 2
  apply Nat.eq_of_testBit_eq
  intro i
  unfold Oracle.setT
  rw [Nat.testBit_or, Nat.testBit_ldiff, Nat.testBit_shiftLeft, Nat.testBit_shiftLeft, hthree]
  simp only [BitVec.testBit_toNat]
  by_cases hi : i < 32
  · rw [setType_getLsbD _ _ _ _ hi]
    grind
  · rw [BitVec.getLsbD_of_ge st i (by omega), BitVec.getLsbD_of_ge (setType st r t) i (by omega)]
    simp [getLsbD_of_and_mask ht (show 2 ≤ i - 2 * r by omega)]

/-! ## One instruction -/

section Instruction
variable (e : U64) (st : U32)

theorem oracle_readFails : Oracle.readFails e.toNat st.toNat = !readsOk e st := by
  rw [Bool.eq_iff_iff, Bool.not_eq_true', readsOk, List.all_eq_false, Oracle.readFails,
    List.any_eq_true]
  refine exists_congr fun r => and_congr_right fun hr => ?_
  have hlt : r < 32 := by
    have := List.mem_range.mp hr
    omega
  have hbit := oracle_bit (insnReads e) hlt
  have hbot := oracle_getT_eq st T_BOTTOM r
  have hctx := oracle_getT_eq st T_CTX r
  have hcls : Oracle.cls e.toNat = 1 ↔ insnCls e = 0x01 := oracle_cls_eq e 1 (by decide)
  rw [decide_eq_true_iff, oracle_reads, hbit, oracle_isAlu, hcls,
    show Oracle.BOT = T_BOTTOM.toNat from rfl, show Oracle.CTX = T_CTX.toNat from rfl,
    ne_eq, hbot, hctx]
  cases hasReg (insnReads e) r with
  | false => simp
  | true =>
    simp only [Bool.not_true, Bool.false_or, decide_eq_true_eq, true_and]
    tauto

theorem oracle_divZero : Oracle.divZero e.toNat = divByImmZero e := by
  have hthirty : Oracle.hi e.toNat = 0x30 ↔ insnHi e = 0x30 := oracle_hi_eq e 0x30 (by decide)
  have hninety : Oracle.hi e.toNat = 0x90 ↔ insnHi e = 0x90 := oracle_hi_eq e 0x90 (by decide)
  have hzero : e.toNat >>> 32 = 0 ↔ insnImm e = 0 := oracle_shift_eq e 0 (by decide)
  unfold Oracle.divZero divByImmZero
  simp only [oracle_isAlu, hthirty, hninety, hzero, oracle_sx]

theorem oracle_out : Oracle.outOf e.toNat st.toNat = (outState e st).toNat := by
  have hmask : T_SCALAR &&& T_MASK = T_SCALAR := by decide
  have hcall : Oracle.hi e.toNat = 0x80 ↔ insnHi e = 0x80 := oracle_hi_eq e 0x80 (by decide)
  -- the loop over the registers, one register at a time
  have hfold : ∀ (rs : List Nat) (st : U32), (∀ r ∈ rs, r < 16) →
      rs.foldl (fun out r => if Oracle.bit (Oracle.audWrites e.toNat) r then
        Oracle.setT out r Oracle.SCAL else out) st.toNat =
      (rs.foldl (fun out r => if hasReg (insnWrites e) r then setType out r T_SCALAR else out)
        st).toNat := by
    intro rs
    induction rs with
    | nil => intro st _; rfl
    | cons r rs ih =>
      intro st hrs
      have hr : r < 16 := hrs r List.mem_cons_self
      have hset : Oracle.setT st.toNat r Oracle.SCAL = (setType st r T_SCALAR).toNat :=
        oracle_setT st hmask hr
      rw [List.foldl_cons, List.foldl_cons, oracle_writes, oracle_bit _ (by omega), hset,
        ← apply_ite BitVec.toNat, ← ih _ fun q hq => hrs q (List.mem_cons_of_mem r hq),
        oracle_writes]
  have hregs : ∀ r ∈ List.range 11, r < 16 := by decide
  unfold Oracle.outOf outState
  rw [hfold _ st hregs]
  simp only [oracle_isJmp, hcall]
  split
  · exact oracle_setT _ hmask (by decide)
  · rfl

/-- The two scans agree on every instruction of an image. -/
theorem oracle_scanOne {cnt pc : Nat} : Oracle.scanOne cnt pc e.toNat = scanInsn e pc cnt := by
  have hdst : 10 < Oracle.dst e.toNat ↔ 10 < insnDst e := by
    rw [oracle_dst, BitVec.lt_def]
    exact Iff.rfl
  have hsrc : 10 < Oracle.src e.toNat ↔ 10 < insnSrc e := by
    rw [oracle_src, BitVec.lt_def]
    exact Iff.rfl
  have hten : Oracle.dst e.toNat = 10 ↔ insnDst e = 10 := by
    rw [oracle_dst, ← BitVec.toNat_inj]
    rfl
  have hldx : Oracle.op e.toNat &&& 7 = 1 ↔ insnCls e = 0x01 := oracle_cls_eq e 1 (by decide)
  have hsix : Oracle.cls e.toNat = 6 ↔ insnCls e = 0x06 := oracle_cls_eq e 6 (by decide)
  have hswap : Oracle.hi e.toNat = 0xd0 ↔ insnHi e = 0xd0 := oracle_hi_eq e 0xd0 (by decide)
  have hexit : Oracle.hi e.toNat = 0x90 ↔ insnHi e = 0x90 := oracle_hi_eq e 0x90 (by decide)
  have hcall : Oracle.hi e.toNat = 0x80 ↔ insnHi e = 0x80 := oracle_hi_eq e 0x80 (by decide)
  have hsize : (¬ e.toNat >>> 32 ∈ [16, 32, 64]) ↔
      (e >>> 32 ≠ 16 ∧ e >>> 32 ≠ 32 ∧ e >>> 32 ≠ 64) := by
    simp (disch := decide) only [List.mem_cons, List.not_mem_nil, or_false, not_or,
      oracle_shift_eq, insnImm_eq]
    exact Iff.rfl
  -- the helper number fits its word
  have hnumber : Oracle.imm e.toNat = ((insnImm e).setWidth 32).toNat := by
    rw [oracle_imm, BitVec.toNat_setWidth]
    refine (Nat.mod_eq_of_lt ?_).symm
    rw [← oracle_imm]
    exact Nat.lt_of_le_of_lt Nat.and_le_right (by decide)
  have hhelper : (Oracle.imm e.toNat = 0 ∨ 2 < Oracle.imm e.toNat) ↔
      ((insnImm e).setWidth 32 = 0 ∨ 2 < (insnImm e).setWidth 32) := by
    rw [hnumber, BitVec.lt_def, ← BitVec.toNat_inj]
    exact Iff.rfl
  unfold Oracle.scanOne scanInsn
  simp only [hldx, oracle_isAlu, oracle_isJmp]
  simp only [hdst, hsrc, hten, hsix, hexit, hcall, hswap, hsize, hhelper, oracle_op,
    oracle_opcodeKnown, oracle_sx, oracle_off]

end Instruction

/-! ## The two gates -/

/-- The lists of the one gate hold the worklist of the other. -/
structure GateHolds (cnt : Nat) (g : Oracle.Gate) (st : Worklist.State TypeWord) : Prop where
  inM_length : g.inM.length = cnt
  pending_length : g.pending.length = cnt
  inM : ∀ i < cnt, g.inM.getD i 0 = (st.val i).bits.toNat
  pending : ∀ i < cnt, g.pending.getD i false = st.pending i

theorem getD_set_eq {α : Type} {xs : List α} {i : Nat} (hi : i < xs.length) (v d : α) (j : Nat) :
    (xs.set i v).getD j d = if j = i then v else xs.getD j d := by
  simp only [List.getD_eq_getElem?_getD]
  by_cases hj : j = i
  · subst hj
    simp [hi]
  · simp [List.getElem?_set_ne (Ne.symm hj), hj]

section Gate
variable {cnt : Nat} {g : Oracle.Gate} {st : Worklist.State TypeWord}

/-- Clearing the flag of the instruction at hand. -/
theorem GateHolds.clear {pc : Nat} (h : GateHolds cnt g st) (hpc : pc < cnt) :
    GateHolds cnt { g with pending := g.pending.set pc false }
      { st with pending := Function.update st.pending pc false } := by
  refine ⟨h.inM_length, by simp [h.pending_length], h.inM, fun i hi => ?_⟩
  show (g.pending.set pc false).getD i false = Function.update st.pending pc false i
  rw [getD_set_eq (by rw [h.pending_length]; exact hpc), Function.update_apply, h.pending i hi]

/-- Merging an out-state into one successor. -/
theorem GateHolds.merge {s : Nat} (h : GateHolds cnt g st) (hs : s < cnt) (out : U32) :
    GateHolds cnt
      (if g.inM.getD s 0 &&& out.toNat ≠ g.inM.getD s 0 then
        ⟨g.inM.set s (g.inM.getD s 0 &&& out.toNat), g.pending.set s true⟩ else g)
      (Worklist.merge st s ⟨out⟩) := by
  have hmerged : g.inM.getD s 0 &&& out.toNat = (st.val s ⊓ ⟨out⟩).bits.toNat := by
    rw [h.inM s hs, TypeWord.inf_bits, BitVec.toNat_and]
  have hchange : g.inM.getD s 0 &&& out.toNat ≠ g.inM.getD s 0 ↔
      st.val s ⊓ ⟨out⟩ ≠ st.val s := by
    rw [hmerged, h.inM s hs, ne_eq, BitVec.toNat_inj, ← TypeWord.ext_iff]
  unfold Worklist.merge
  by_cases hne : st.val s ⊓ ⟨out⟩ ≠ st.val s
  · rw [if_pos hne, if_pos (hchange.mpr hne)]
    refine ⟨by simp [h.inM_length], by simp [h.pending_length], fun i hi => ?_, fun i hi => ?_⟩
    · show (g.inM.set s _).getD i 0 = (Function.update st.val s _ i).bits.toNat
      rw [getD_set_eq (by rw [h.inM_length]; exact hs), Function.update_apply, hmerged, h.inM i hi]
      split <;> rfl
    · show (g.pending.set s true).getD i false = Function.update st.pending s true i
      rw [getD_set_eq (by rw [h.pending_length]; exact hs), Function.update_apply,
        h.pending i hi]
  · rw [if_neg hne, if_neg (mt hchange.mp hne)]
    exact h

/-- The two loops over the successors, whichever way they leave. -/
theorem GateHolds.propagate (h : GateHolds cnt g st) (out : U32) (ss : List Nat) :
    (∀ st', Worklist.propagate cnt ⟨out⟩ ss st = some st' →
      ∃ g', Oracle.mergeSucc cnt out.toNat ss g = some g' ∧ GateHolds cnt g' st') ∧
    (Worklist.propagate cnt ⟨out⟩ ss st = none →
      Oracle.mergeSucc cnt out.toNat ss g = none) := by
  induction ss generalizing g st with
  | nil =>
    refine ⟨fun st' hst' => ⟨g, rfl, ?_⟩, fun hnone => by cases hnone⟩
    cases hst'
    exact h
  | cons s ss ih =>
    rw [Worklist.propagate, Oracle.mergeSucc]
    by_cases hs : s < cnt
    · rw [if_pos hs, if_neg (Nat.not_le.mpr hs), ← apply_ite (Oracle.mergeSucc cnt out.toNat ss)]
      exact ih (h.merge hs out)
    · rw [if_neg hs, if_pos (Nat.le_of_not_lt hs)]
      exact ⟨fun _ hst' => (by cases hst'), fun _ => rfl⟩

end Gate

/-- An image held as a list. -/
def wordList (ins : List U64) : Nat → U64 := fun i => ins.getD i 0

/-- The number of a status in its `enum`. -/
def IcStatus.code : IcStatus → Nat
  | .ok => 0
  | .errNomem => 1
  | .errArgument => 2
  | .errContract => 3
  | .errValidate => 4
  | .errState => 5
  | .errPlatform => 6

section Image
variable (ins : List U64)

theorem wordList_map (pc : Nat) : (ins.map BitVec.toNat).getD pc 0 = (wordList ins pc).toNat := by
  unfold wordList
  rw [List.getD_eq_getElem?_getD, List.getElem?_map, List.getD_eq_getElem?_getD]
  cases ins[pc]? <;> rfl

variable {ins} in
/-- The scan for the first pending instruction. -/
theorem GateHolds.first {g : Oracle.Gate} {st : Worklist.State TypeWord}
    (h : GateHolds ins.length g st) :
    (List.range ins.length).find? (fun i => g.pending.getD i false) =
      Worklist.firstPending ins.length st.pending :=
  List.find?_congr fun i hi => h.pending i (List.mem_range.mp hi)

/-- A turn of the one gate is a round of the other, and they stop for the
    same reason. -/
theorem gateTurn_follows (hlen : ins.length ≤ 64) {g : Oracle.Gate}
    {st : Worklist.State TypeWord} (h : GateHolds ins.length g st) :
    (∀ st', Worklist.step (regAnalysis (wordList ins)) ins.length st = .inl st' →
      ∃ g', Oracle.gateTurn (ins.map BitVec.toNat) g = .inl g' ∧
        GateHolds ins.length g' st') ∧
    ∀ b, Worklist.step (regAnalysis (wordList ins)) ins.length st = .inr b →
      Oracle.gateTurn (ins.map BitVec.toNat) g =
        .inr (if b then Oracle.OK else Oracle.VALIDATE) := by
  unfold Worklist.step Oracle.gateTurn
  rw [List.length_map, h.first]
  cases hpc : Worklist.firstPending ins.length st.pending with
  | none =>
    refine ⟨fun _ hst' => (by cases hst'), fun b hb => ?_⟩
    cases hb
    rfl
  | some pc =>
    have hlt : pc < ins.length := (Worklist.firstPending_some hpc).1
    have hword := wordList_map ins pc
    have hchecks : (Oracle.readFails (wordList ins pc).toNat (st.val pc).bits.toNat = true ∨
        Oracle.divZero (wordList ins pc).toNat = true) ↔
        ¬ (regAnalysis (wordList ins)).check pc (st.val pc) = true := by
      rw [oracle_readFails, oracle_divZero]
      unfold regAnalysis
      rw [decide_eq_true_iff]
      cases readsOk (wordList ins pc) (st.val pc).bits <;> simp
    dsimp only
    rw [hword, h.inM pc hlt, oracle_out, oracle_succ _ (by omega)]
    by_cases hcheck : (regAnalysis (wordList ins)).check pc (st.val pc) = true
    · rw [if_pos hcheck, if_neg fun hfail => hchecks.mp hfail hcheck]
      obtain ⟨hsome, hnone⟩ := (h.clear hlt).propagate
        (outState (wordList ins pc) (st.val pc).bits)
        ((insnSucc (wordList ins pc) (BitVec.ofNat 32 pc)).map BitVec.toNat)
      cases hprop : Worklist.propagate ins.length
          ((regAnalysis (wordList ins)).out pc (st.val pc)) ((regAnalysis (wordList ins)).succs pc)
          { st with pending := Function.update st.pending pc false } with
      | some st₁ =>
        obtain ⟨g', hg', hholds⟩ := hsome st₁ hprop
        refine ⟨fun st' hst' => ⟨g', ?_, ?_⟩, fun _ hb => (by cases hb)⟩
        · rw [hg']
        · cases hst'
          exact hholds
      | none =>
        refine ⟨fun _ hst' => (by cases hst'), fun b hb => ?_⟩
        cases hb
        rw [hnone hprop]
        rfl
    · rw [if_neg hcheck, if_pos (hchecks.mpr hcheck)]
      refine ⟨fun _ hst' => (by cases hst'), fun b hb => ?_⟩
      cases hb
      rfl

/-- At the entry, every instruction is pending and only `r1` is typed. -/
theorem oracle_gateEntry (hpos : 0 < ins.length) :
    GateHolds ins.length (Oracle.gateEntry ins.length) (regEntry ins.length) := by
  refine ⟨by simp [Oracle.gateEntry], by simp [Oracle.gateEntry], fun i hi => ?_, fun i hi => ?_⟩
  · show ((List.replicate ins.length Oracle.TOP).set 0 (Oracle.CTX <<< 2)).getD i 0 =
      (Function.update (fun _ => TypeWord.mk 0xFFFFFFFF) 0 ⟨setType 0 1 T_CTX⟩ i).bits.toNat
    rw [getD_set_eq (by rw [List.length_replicate]; exact hpos), Function.update_apply]
    split
    · rfl
    · simp [hi, Oracle.TOP]
  · unfold Oracle.gateEntry regEntry
    simp [hi]

/-- The two gates run the same number of turns to the same status. -/
theorem oracle_checkRegs (hpos : 0 < ins.length) (hlen : ins.length ≤ 64) :
    Oracle.checkRegs (regFuel ins.length) (ins.map BitVec.toNat) =
      some (checkRegs (wordList ins) ins.length).code := by
  obtain ⟨b, hb⟩ := checkRegs_terminates (wordList ins) ins.length
  have hstep : ∀ g st st', GateHolds ins.length g st →
      Worklist.step (regAnalysis (wordList ins)) ins.length st = .inl st' →
      ∃ g', Oracle.gateTurn (ins.map BitVec.toNat) g = .inl g' ∧ GateHolds ins.length g' st' :=
    fun g st st' h hst => (gateTurn_follows ins hlen h).1 st' hst
  have hstop : ∀ g st b, GateHolds ins.length g st →
      Worklist.step (regAnalysis (wordList ins)) ins.length st = .inr b → True →
      ∃ code, Oracle.gateTurn (ins.map BitVec.toNat) g = .inr code ∧
        code = if b then Oracle.OK else Oracle.VALIDATE :=
    fun g st b h hst _ => ⟨_, (gateTurn_follows ins hlen h).2 b hst, rfl⟩
  obtain ⟨code, hrun, hcode⟩ :=
    Exec.run_follows (P := fun _ => True) hstep hstop (oracle_gateEntry ins hpos) hb trivial
  unfold Oracle.checkRegs checkRegs
  rw [List.length_map, hrun, hb, hcode]
  cases b <;> rfl

/-- The two scans agree on the whole image. -/
theorem oracle_scan :
    ((ins.map BitVec.toNat).zipIdx.all fun (e, pc) => Oracle.scanOne ins.length pc e) =
      (List.range ins.length).all fun pc => scanInsn (wordList ins pc) pc ins.length := by
  rw [Bool.eq_iff_iff, List.all_eq_true, List.all_eq_true]
  constructor
  · intro h pc hpc
    have hlt : pc < ins.length := List.mem_range.mp hpc
    have hget : (ins.map BitVec.toNat)[pc]? = some (wordList ins pc).toNat := by
      simp [wordList, hlt]
    have := h ((wordList ins pc).toNat, pc) (List.mem_zipIdx_iff_getElem?.mpr hget)
    rwa [← oracle_scanOne]
  · intro h
    rintro ⟨e, pc⟩ he
    have hget : (ins.map BitVec.toNat)[pc]? = some e := List.mem_zipIdx_iff_getElem?.mp he
    rw [List.getElem?_map, Option.map_eq_some_iff] at hget
    obtain ⟨w, hw, rfl⟩ := hget
    have hlt : pc < ins.length := (List.getElem?_eq_some_iff.mp hw).1
    have hword : wordList ins pc = w := by simp [wordList, hw]
    show Oracle.scanOne ins.length pc w.toNat = true
    rw [oracle_scanOne, ← hword]
    exact h pc (List.mem_range.mpr hlt)

end Image

/-- **The oracle's verifier.** Every image gets from the verifier restated
    in `tools/soundness.py` the status it gets from `ic_program_check`, and
    in as many turns of the register gate. -/
theorem oracle_icProgramCheck (ins : List U64) (hcnt : ins.length < 2 ^ 32) :
    Oracle.icProgramCheck (regFuel ins.length) (ins.map BitVec.toNat) =
      some (icProgramCheck (some (wordList ins)) (BitVec.ofNat 32 ins.length)).code := by
  have hlen : (BitVec.ofNat 32 ins.length).toNat = ins.length := by
    rw [BitVec.toNat_ofNat, Nat.mod_eq_of_lt hcnt]
  have hbounds : (ins.length = 0 ∨ 64 < ins.length) ↔
      (BitVec.ofNat 32 ins.length = 0 ∨ IC_PROG_MAX_INSNS < BitVec.ofNat 32 ins.length) := by
    rw [BitVec.lt_def, ← BitVec.toNat_inj, hlen]
    exact Iff.rfl
  unfold Oracle.icProgramCheck icProgramCheck
  dsimp only
  rw [List.length_map, hlen, oracle_scan]
  simp only [hbounds]
  split
  · rfl
  · next hin =>
    rw [← hbounds] at hin
    split
    · exact oracle_checkRegs ins (by omega) (by omega)
    · rfl

/-- Two ways into `exit`, joined by the gate. -/
theorem oracle_icProgramCheck_joined :
    icProgramCheck (some (wordList [0xb7, 0x100010055, 0x5000000b7, 0x95])) 4 = .ok ∧
      Oracle.icProgramCheck 133 [0xb7, 0x100010055, 0x5000000b7, 0x95] =
        some (icProgramCheck (some (wordList [0xb7, 0x100010055, 0x5000000b7, 0x95])) 4).code :=
  ⟨by decide +kernel, oracle_icProgramCheck [0xb7, 0x100010055, 0x5000000b7, 0x95] (by decide)⟩

end Interclus

import Interclus.Interpreter.AluConformance
import Interclus.Verifier.ContextLoads
import Interclus.Verifier.Division
import Interclus.Verifier.OracleGate

/-! # The Oracle's Interpreter

    The interpreter of `tools/soundness.py` against `ebpf_run`.  On the
    program, the context and the map that both are given, a turn of the one
    is a turn of the other: the same fault, or the same registers, program
    counter, counters and map.  Only where the C expression is undefined do
    they part, and there the Python raises. -/

namespace Interclus

open Words

/-! ## Integers and words -/

theorem low_eq (w : Nat) (z : Int) : Oracle.low w z = (BitVec.ofInt w z).toNat := by
  unfold Oracle.low
  rw [BitVec.toNat_ofInt]
  norm_cast

theorem low_natCast (w n : Nat) : Oracle.low w n = n % 2 ^ w := by
  rw [low_eq, BitVec.ofInt_natCast, BitVec.toNat_ofNat]

theorem low_toNat {w : Nat} (x : BitVec w) : Oracle.low w x.toNat = x.toNat := by
  rw [low_natCast, Nat.mod_eq_of_lt x.isLt]

theorem ofInt_toNat {w : Nat} (x : BitVec w) : BitVec.ofInt w x.toNat = x := by
  rw [BitVec.ofInt_natCast, BitVec.ofNat_toNat, BitVec.setWidth_eq]

theorem toNat_widen (x : U32) : (x.setWidth 64 : U64).toNat = x.toNat :=
  BitVec.toNat_setWidth_of_le (by decide)

/-- The masks of the 32-bit class. -/
theorem low_setWidth (x : U64) : Oracle.low 32 x.toNat = (x.setWidth 32).toNat := by
  rw [low_natCast, BitVec.toNat_setWidth]

theorem signed_toNat {w : Nat} (hw : 0 < w) (x : BitVec w) :
    Oracle.signed w x.toNat = x.toInt := by
  obtain ⟨v, rfl⟩ := Nat.exists_eq_succ_of_ne_zero (Nat.pos_iff_ne_zero.mp hw)
  have hdouble : 2 ^ (v + 1) = 2 * 2 ^ v := by rw [Nat.pow_succ, Nat.mul_comm]
  unfold Oracle.signed
  rw [BitVec.toInt_eq_toNat_cond, Nat.succ_sub_one]
  split <;> split <;> first | omega | norm_cast

/-! ## Byte order -/

theorem oracle_fromBytes (bs : List U8) : Oracle.fromBytes bs = leNat bs := by
  induction bs with
  | nil => rfl
  | cons b bs ih => rw [Oracle.fromBytes, leNat, ih]

theorem oracle_pack {w : Nat} (n : Nat) (x : BitVec w) :
    Oracle.pack n x.toNat = (List.range n).map (byteOf x) := by
  refine List.map_congr_left fun k _ => ?_
  unfold byteOf
  apply BitVec.eq_of_toNat_eq
  rw [BitVec.toNat_ofNat, BitVec.toNat_setWidth, BitVec.toNat_ushiftRight]

/-- Big-endian bytes are little-endian ones the other way round. -/
theorem toNat_fromBytes {w : Nat} {bs : List U8} (h : 8 * bs.length ≤ w) :
    (ByteOrder.fromBytes w bs).toNat = Oracle.fromBytes bs.reverse := by
  induction bs using List.reverseRecOn with
  | nil => simp [ByteOrder.fromBytes, Oracle.fromBytes]
  | append_singleton bs b ih =>
    rw [List.length_append, List.length_singleton] at h
    have hlt : leNat bs.reverse < 256 ^ bs.length := by
      have := leNat_lt bs.reverse
      rwa [List.length_reverse] at this
    have hfit : 256 * 256 ^ bs.length ≤ 2 ^ w := by
      rw [← Nat.pow_succ', show 256 = 2 ^ 8 by rfl, ← Nat.pow_mul]
      exact Nat.pow_le_pow_right (by decide) h
    have hstep : ByteOrder.fromBytes w (bs ++ [b]) =
        ByteOrder.fromBytes w bs <<< 8 ||| b.setWidth w := by
      simp [ByteOrder.fromBytes]
    have hw : b.toNat < 2 ^ w := Nat.lt_of_lt_of_le b.isLt (Nat.pow_le_pow_right (by decide)
      (by omega))
    have hb := b.isLt
    rw [hstep, List.reverse_append, BitVec.toNat_or, BitVec.toNat_shiftLeft, ih (by omega),
      BitVec.toNat_setWidth, Nat.mod_eq_of_lt hw, oracle_fromBytes, Nat.shiftLeft_eq,
      Nat.mod_eq_of_lt (by omega), ← Nat.shiftLeft_eq, ← Nat.shiftLeft_add_eq_or_of_lt hb,
      Nat.shiftLeft_eq]
    show _ = b.toNat + 256 * Oracle.fromBytes bs.reverse
    rw [oracle_fromBytes]
    omega

/-- `struct.pack` and `int.from_bytes(.., "big")` reverse the bytes. -/
theorem oracle_reverse {w n : Nat} (hn : 8 * n ≤ w) (x : BitVec w) :
    Oracle.fromBytes (Oracle.pack n x.toNat).reverse = (ByteOrder.byteReverse n x).toNat := by
  unfold ByteOrder.byteReverse
  rw [toNat_fromBytes (by simpa using hn), oracle_pack]

/-! ## The ALU -/

/-- What an arm of the oracle's ALU gives, against the expression of the C
    arm: the same value in the bits of the class, the same fault, and an
    exception only where C has no value. -/
inductive AluAgrees (undef : CExpr → U64) (w : Nat) :
    Oracle.AluOut → Except EbpfFault CExpr → Prop where
  | value {n : Nat} {x : CExpr} : x.undefined = false →
      n % 2 ^ w = (x.eval undef).toNat % 2 ^ w → AluAgrees undef w (.value n) (.ok x)
  | fault (f : EbpfFault) : AluAgrees undef w (.fault f.code.toNat) (.error f)
  | raised {x : CExpr} : x.undefined = true → AluAgrees undef w .raised (.ok x)

def classWidth (is64 : Bool) : Nat := if is64 then 64 else 32

section Alu
variable {undef : CExpr → U64}

/-- An arm that computes the same word. -/
theorem AluAgrees.same {w n : Nat} {v : U64} (h : n = v.toNat) :
    AluAgrees undef w (.value n) (.ok (.val v)) := by
  refine .value rfl ?_
  rw [h]
  rfl

/-- A division with its zero test. -/
theorem oracle_aluDivide (f : Nat → Nat → Nat) (is64 : Bool) (v arg : U64)
    {x64 x32 : CExpr} (h64 : x64.undefined = decide (arg = 0))
    (h32 : x32.undefined = decide ((arg.setWidth 32 : U32) = 0))
    (hv64 : arg ≠ 0 → f v.toNat arg.toNat = (x64.eval undef).toNat)
    (hv32 : (arg.setWidth 32 : U32) ≠ 0 →
      f (v.setWidth 32).toNat (arg.setWidth 32).toNat = (x32.eval undef).toNat) :
    AluAgrees undef (classWidth is64) (Oracle.aluDivide f is64 v.toNat arg.toNat)
      (if arg = 0 then .error .div0 else if is64 then .ok x64 else .ok x32) := by
  have hzero : arg.toNat = 0 ↔ arg = 0 := BitVec.toNat_inj (y := 0)
  have hlow : Oracle.low 32 arg.toNat = 0 ↔ (arg.setWidth 32 : U32) = 0 := by
    rw [low_setWidth]
    exact BitVec.toNat_inj (y := 0)
  unfold Oracle.aluDivide
  rw [low_setWidth v]
  by_cases harg : arg = 0
  · rw [if_pos (hzero.mpr harg), if_pos harg]
    exact .fault .div0
  · rw [if_neg (mt hzero.mp harg), if_neg harg]
    cases is64 with
    | true =>
      rw [if_pos rfl, if_pos rfl]
      exact .value (h64.trans (decide_eq_false harg)) (by rw [hv64 harg])
    | false =>
      rw [if_neg Bool.false_ne_true, if_neg Bool.false_ne_true]
      by_cases hhalf : (arg.setWidth 32 : U32) = 0
      · rw [if_pos (hlow.mpr hhalf)]
        exact .raised (h32.trans (decide_eq_true hhalf))
      · rw [if_neg (mt hlow.mp hhalf), low_setWidth arg]
        exact .value (h32.trans (decide_eq_false hhalf)) (by rw [hv32 hhalf])

/-- The shift count, masked with the width of the class less one. -/
theorem oracle_shiftCount (is64 : Bool) (arg : U64) :
    arg.toNat &&& (if is64 then 63 else 31) = aluShift is64 arg := by
  unfold aluShift
  cases is64 with
  | true => exact (BitVec.toNat_and arg 63).symm
  | false => exact (BitVec.toNat_and arg 31).symm

variable (is64 : Bool) (i : EbpfInsn) (v arg : U64)

theorem oracle_lsh : AluAgrees undef (classWidth is64)
    (.value (if is64 then Oracle.low 64 ↑(v.toNat <<< aluShift is64 arg)
      else Oracle.low 32 v.toNat <<< aluShift is64 arg))
    (aluSwitch is64 .lsh i v arg) := by
  cases is64 with
  | true =>
    refine .same ?_
    rw [if_pos rfl, low_natCast]
    exact (BitVec.toNat_shiftLeft ..).symm
  | false =>
    -- Python keeps the bits that C shifts out of its 32
    refine .value rfl ?_
    rw [if_neg Bool.false_ne_true, low_setWidth]
    show _ = (((v.setWidth 32 : U32) <<< aluShift false arg).setWidth 64).toNat % 2 ^ 32
    rw [toNat_widen, BitVec.toNat_shiftLeft]
    exact (Nat.mod_mod _ _).symm

theorem oracle_rsh : AluAgrees undef (classWidth is64)
    (.value (if is64 then v.toNat >>> aluShift is64 arg
      else Oracle.low 32 v.toNat >>> aluShift is64 arg))
    (aluSwitch is64 .rsh i v arg) := by
  cases is64 with
  | true => exact .same (BitVec.toNat_ushiftRight ..).symm
  | false =>
    refine .same ?_
    rw [if_neg Bool.false_ne_true, low_setWidth, ← BitVec.toNat_ushiftRight]
    exact (toNat_widen _).symm

theorem oracle_arsh : AluAgrees undef (classWidth is64)
    (.value (if is64 then Oracle.low 64 (Oracle.signed 64 v.toNat >>> aluShift is64 arg)
      else Oracle.low 32 (Oracle.signed 32 (Oracle.low 32 v.toNat) >>> aluShift is64 arg)))
    (aluSwitch is64 .arsh i v arg) := by
  cases is64 with
  | true =>
    refine .same ?_
    rw [if_pos rfl, signed_toNat (by decide), low_eq]
    rfl
  | false =>
    refine .value rfl ?_
    have hcount : aluShift false arg < 32 := by
      rw [aluShift_eq]
      exact Nat.mod_lt _ (by decide)
    rw [if_neg Bool.false_ne_true, low_setWidth, signed_toNat (by decide), low_eq]
    show (BitVec.sshiftRight (v.setWidth 32) _).toNat % 2 ^ 32 =
      (BitVec.sshiftRight ((v.setWidth 32).signExtend 64) _).toNat % 2 ^ 32
    rw [← sshiftRight_signExtend _ hcount, BitVec.toNat_setWidth, Nat.mod_mod]

/-- The byte swaps of the widths that the scan admits. -/
theorem oracle_swap {e : U64} (hx : insnSrcX e)
    (hsize : e >>> 32 = 16 ∨ e >>> 32 = 32 ∨ e >>> 32 = 64) :
    AluAgrees undef (classWidth is64) (Oracle.aluSwap e.toNat v.toNat)
      (aluSwitch is64 .end (decodeInsn e) v arg) := by
  have hbit : insnOp e &&& 0x08 ≠ 0 := of_decide_eq_true hx
  have himm : Oracle.imm e.toNat = (e >>> 32).toNat := by rw [oracle_imm, insnImm_eq]
  have hwidth : ((decodeInsn e).imm.setWidth 8 : U8) = (e >>> 32).setWidth 8 := by
    rw [decodeInsn_imm, insnImm_eq]
    exact BitVec.setWidth_setWidth_of_le _ (by decide)
  unfold Oracle.aluSwap aluSwitch
  rw [oracle_sx, hx, if_pos rfl, himm]
  dsimp only
  rw [decodeInsn_opcode, if_pos hbit, hwidth]
  rcases hsize with h | h | h
  · rw [h]
    refine .same ?_
    show Oracle.fromBytes (Oracle.pack 2 (Oracle.low 16 v.toNat)).reverse =
      ((bswap16 (v.setWidth 16)).setWidth 64).toNat
    rw [low_natCast, ← BitVec.toNat_setWidth, oracle_reverse (by decide), ← bswap16_eq]
    exact (BitVec.toNat_setWidth_of_le (by decide)).symm
  · rw [h]
    refine .same ?_
    show Oracle.fromBytes (Oracle.pack 4 (Oracle.low 32 v.toNat)).reverse =
      ((bswap32 (v.setWidth 32)).setWidth 64).toNat
    rw [low_natCast, ← BitVec.toNat_setWidth, oracle_reverse (by decide), ← bswap32_eq]
    exact (toNat_widen _).symm
  · rw [h]
    refine .same ?_
    show Oracle.fromBytes (Oracle.pack 8 v.toNat).reverse = (bswap64 v).toNat
    rw [oracle_reverse (by decide), ← bswap64_eq]

variable (undef) in
/-- Every arm of the two ALUs. -/
theorem oracle_aluValue {e : U64} (he : InsnAdmitted e) (halu : isAluCls (insnCls e)) {o : AluOp}
    (ho : insnHi e = o.code) : AluAgrees undef (classWidth (insnCls e = CLS_ALU64))
      (Oracle.aluValue e.toNat v.toNat arg.toNat)
      (aluSwitch (insnCls e = CLS_ALU64) o (decodeInsn e) v arg) := by
  have hhi : Oracle.hi e.toNat = o.code.toNat := by rw [oracle_hi, ho]
  have hcls : (Oracle.cls e.toNat = 7) = (insnCls e = CLS_ALU64) :=
    propext (oracle_cls_eq e 7 (by decide))
  unfold Oracle.aluValue
  simp only [hhi, hcls, oracle_shiftCount]
  generalize (decide (insnCls e = CLS_ALU64)) = is64
  cases o with
  | add =>
    refine AluAgrees.same ?_
    rw [low_eq, BitVec.ofInt_add, ofInt_toNat, ofInt_toNat]
  | sub =>
    refine AluAgrees.same ?_
    rw [low_eq, Int.sub_eq_add_neg, BitVec.ofInt_add, BitVec.ofInt_neg, ofInt_toNat, ofInt_toNat,
      ← BitVec.sub_eq_add_neg]
  | mul =>
    refine AluAgrees.same ?_
    rw [low_eq, BitVec.ofInt_mul, ofInt_toNat, ofInt_toNat]
  | div =>
    refine oracle_aluDivide _ is64 v arg rfl rfl (fun h => ?_) (fun h => ?_)
    · unfold CExpr.eval
      rw [if_neg (by simpa [CExpr.undefined] using h)]
      exact BitVec.toNat_udiv.symm
    · unfold CExpr.eval
      rw [if_neg (by simpa [CExpr.undefined] using h)]
      show _ = (((v.setWidth 32 : U32) / arg.setWidth 32).setWidth 64).toNat
      rw [toNat_widen]
      exact BitVec.toNat_udiv.symm
  | mod =>
    refine oracle_aluDivide _ is64 v arg rfl rfl (fun h => ?_) (fun h => ?_)
    · unfold CExpr.eval
      rw [if_neg (by simpa [CExpr.undefined] using h)]
      exact BitVec.toNat_umod.symm
    · unfold CExpr.eval
      rw [if_neg (by simpa [CExpr.undefined] using h)]
      show _ = (((v.setWidth 32 : U32) % arg.setWidth 32).setWidth 64).toNat
      rw [toNat_widen]
      exact BitVec.toNat_umod.symm
  | or =>
    refine AluAgrees.same ?_
    rw [← BitVec.toNat_or, low_toNat]
  | and =>
    refine AluAgrees.same ?_
    rw [← BitVec.toNat_and, low_toNat]
  | xor =>
    refine AluAgrees.same ?_
    rw [← BitVec.toNat_xor, low_toNat]
  | mov => exact AluAgrees.same rfl
  | neg =>
    refine AluAgrees.same ?_
    rw [low_eq, BitVec.ofInt_neg, ofInt_toNat]
  | lsh => exact oracle_lsh is64 _ v arg
  | rsh => exact oracle_rsh is64 _ v arg
  | arsh => exact oracle_arsh is64 _ v arg
  | «end» =>
    have hx : insnSrcX e := decide_eq_true (opcodeKnown_end _ he.known halu ho)
    exact oracle_swap is64 v arg hx (he.swapSize halu ho hx)

end Alu

/-! ## States -/

/-- The cells of a map; the list is empty where C has no map. -/
def CellsHold (cells : U32) (map : List Nat) : Option (U32 → U32) → Prop
  | none => map = []
  | some f => map.length = cells.toNat ∧ ∀ c < cells, map.getD c.toNat 0 = (f c).toNat

/-- The variables of the two loops hold the same, and the counters are below
    a step cap that is not the largest word. -/
structure InterpHolds (p : EbpfProg) (o : Oracle.Interp) (m : EbpfState) : Prop where
  regs_length : o.regs.length = 11
  regs : ∀ q : Fin 11, o.reg q.val = (m.regs q).toNat
  pc : o.pc = m.pc.toNat
  steps : o.steps = m.steps.toNat
  steps_le : o.steps ≤ p.maxSteps.toNat
  executed : o.executed = m.insnsExecuted.toNat
  executed_le : o.executed ≤ o.steps
  map : CellsHold p.mapCells o.map m.map

/-- The two runs have ended alike. -/
structure ResultHolds (cells : U32) (fault ret executed : Nat) (map : List Nat)
    (r : EbpfResult) : Prop where
  fault : fault = r.fault.code.toNat
  retval : ret = r.retval.toNat
  executed : executed = r.insnsExecuted.toNat
  map : CellsHold cells map r.map

/-- Two turns that continue alike or stop alike. -/
inductive TurnAgrees (p : EbpfProg) :
    Oracle.Interp ⊕ Oracle.Outcome → EbpfState ⊕ EbpfResult → Prop where
  | continues {o : Oracle.Interp} {m : EbpfState} :
      InterpHolds p o m → TurnAgrees p (.inl o) (.inl m)
  | stops {fault ret executed : Nat} {map : List Nat} {r : EbpfResult} :
      ResultHolds p.mapCells fault ret executed map r →
      TurnAgrees p (.inr (.returned fault ret executed map)) (.inr r)

section Turn
variable {p : EbpfProg} {o : Oracle.Interp} {m : EbpfState}

/-- Leaving the loop with a fault or a value. -/
theorem InterpHolds.stop (h : InterpHolds p o m) (f : EbpfFault) (v : U64) :
    TurnAgrees p (o.stop f.code.toNat v.toNat) (.inr (m.stop f v)) := by
  refine .stops ⟨rfl, ?_, h.executed, h.map⟩
  unfold EbpfState.stop
  cases f <;> rfl

/-- Writing a register. -/
theorem InterpHolds.advance (h : InterpHolds p o m) (hpc : m.pc.toNat + 1 < 2 ^ 32)
    (dst : Fin 11) {n : Nat} {x : U64} (hn : n = x.toNat) :
    TurnAgrees p (o.advance dst.val n) (m.advance (m.regs.set dst x)) := by
  refine .continues ⟨by simp [h.regs_length], fun q => ?_, ?_, h.steps, h.steps_le, h.executed,
    h.executed_le, h.map⟩
  · have hlt : dst.val < o.regs.length := by
      rw [h.regs_length]
      exact dst.isLt
    have hq := h.regs q
    unfold Oracle.Interp.reg at hq
    show (o.regs.set dst.val n).getD q.val 0 = (m.regs.set dst x q).toNat
    rw [getD_set_eq hlt, RegFile.set]
    by_cases hqd : q = dst
    · rw [if_pos (congrArg Fin.val hqd), if_pos hqd, hn]
    · rw [if_neg (mt Fin.ext hqd), if_neg hqd, hq]
  · show o.pc + 1 = (m.pc + 1).toNat
    rw [h.pc]
    bv_omega

/-! ## ALU instructions -/

section Instruction
variable {e : U64} {dst src : Fin 11}

theorem oracle_dst_val (hd : dst.val = (insnDst e).toNat) : Oracle.dst e.toNat = dst.val := by
  rw [oracle_dst, hd]

theorem oracle_src_val (hs : src.val = (insnSrc e).toNat) : Oracle.src e.toNat = src.val := by
  rw [oracle_src, hs]

theorem toNat_imm : Oracle.imm e.toNat = (decodeInsn e).imm.toNat := by
  have hlt : Oracle.imm e.toNat < 2 ^ 32 := Nat.lt_of_le_of_lt Nat.and_le_right (by decide)
  rw [decodeInsn_imm, BitVec.toNat_setWidth, ← oracle_imm, Nat.mod_eq_of_lt hlt]

theorem signed_imm : Oracle.signed 32 (Oracle.imm e.toNat) = (decodeInsn e).imm.toInt := by
  rw [toNat_imm, signed_toNat (by decide)]

theorem oracle_aluArg (h : InterpHolds p o m) (hs : src.val = (insnSrc e).toNat) :
    Oracle.aluArg e.toNat o = (aluArg (decodeInsn e) src m.regs).toNat := by
  have hneg : Oracle.hi e.toNat = 0x80 ↔ (decodeInsn e).op = AluOp.neg.code :=
    oracle_hi_eq e 0x80 (by decide)
  have hend : Oracle.hi e.toNat = 0xd0 ↔ (decodeInsn e).op = AluOp.end.code :=
    oracle_hi_eq e 0xd0 (by decide)
  have hcls : Oracle.cls e.toNat = 7 ↔ (decodeInsn e).cls = CLS_ALU64 :=
    oracle_cls_eq e 7 (by decide)
  have hsx : Oracle.sx e.toNat = (decodeInsn e).srcX := oracle_sx e
  have hobs : (Oracle.hi e.toNat ≠ 0x80 ∧ Oracle.hi e.toNat ≠ 0xd0) ↔
      (decodeInsn e).op ≠ AluOp.neg.code ∧ (decodeInsn e).op ≠ AluOp.end.code :=
    and_congr (not_congr hneg) (not_congr hend)
  unfold Oracle.aluArg aluArg
  by_cases hreads : (decodeInsn e).op ≠ AluOp.neg.code ∧ (decodeInsn e).op ≠ AluOp.end.code
  · rw [if_pos (hobs.mpr hreads), if_pos hreads, hsx]
    by_cases hx : (decodeInsn e).srcX = true
    · rw [if_pos hx, if_pos hx, oracle_src_val hs, h.regs, low_toNat]
    · rw [if_neg hx, if_neg hx]
      by_cases h64 : (decodeInsn e).cls = CLS_ALU64
      · rw [if_pos (hcls.mpr h64), if_pos h64, signed_imm, low_eq]
        rfl
      · rw [if_neg (mt hcls.mp h64), if_neg h64, toNat_imm, low_natCast, toNat_widen]
        exact Nat.mod_eq_of_lt (Nat.lt_trans (BitVec.isLt _) (by decide))
  · rw [if_neg (mt hobs.mp hreads), if_neg hreads]
    rfl

/-- An ALU turn, unless C divides by zero. -/
theorem aluTurn_agrees {undef : CExpr → U64} (h : InterpHolds p o m)
    (hpc : m.pc.toNat + 1 < 2 ^ 32) (he : InsnAdmitted e) (halu : isAluCls (insnCls e))
    (hd : dst.val = (insnDst e).toNat) (hs : src.val = (insnSrc e).toNat) :
    (Oracle.aluTurn e.toNat o = .inr .raised ∧
      ∃ x, aluExpr (decodeInsn e) dst src m.regs = .ok x ∧ x.undefined = true) ∨
    TurnAgrees p (Oracle.aluTurn e.toNat o) (aluStep undef (decodeInsn e) dst src m) := by
  have hten : Oracle.dst e.toNat = 10 ↔ dst = 10 := by
    rw [oracle_dst_val hd]
    exact ⟨fun hv => Fin.ext hv, fun hv => congrArg Fin.val hv⟩
  unfold Oracle.aluTurn aluStep
  dsimp only
  by_cases hfp : dst = 10
  · rw [if_pos (hten.mpr hfp)]
    unfold aluExpr
    dsimp only
    rw [if_pos hfp]
    exact .inr (h.stop .fp 0)
  · rw [if_neg (mt hten.mp hfp)]
    obtain ⟨op, hop⟩ := Option.ne_none_iff_exists'.mp (opcodeKnown_alu _ he.known halu)
    have hcode : insnHi e = op.code := (AluOp.code_of_ofCode? hop).symm
    have hmov : Oracle.hi e.toNat = 0xb0 ↔ op = .mov := by
      rw [oracle_hi_eq e 0xb0 (by decide), hcode]
      exact ⟨fun hc => AluOp.code_injective hc, fun hc => by rw [hc]; rfl⟩
    have hval : (if Oracle.hi e.toNat = 0xb0 then 0 else o.reg (Oracle.dst e.toNat)) =
        (if op = .mov then (0 : U64) else m.regs dst).toNat := by
      rw [oracle_dst_val hd, h.regs, apply_ite BitVec.toNat]
      exact if_congr hmov rfl rfl
    have hcls : Oracle.cls e.toNat = 7 ↔ insnCls e = CLS_ALU64 := oracle_cls_eq e 7 (by decide)
    have harms := oracle_aluValue undef (if op = .mov then (0 : U64) else m.regs dst)
      (aluArg (decodeInsn e) src m.regs) he halu hcode
    rw [hval, oracle_aluArg h hs]
    have hexpr : aluExpr (decodeInsn e) dst src m.regs =
        aluSwitch (insnCls e = CLS_ALU64) op (decodeInsn e) (if op = .mov then 0 else m.regs dst)
          (aluArg (decodeInsn e) src m.regs) := aluExpr_arm (i := decodeInsn e) hcode hfp
    rw [← hexpr] at harms
    generalize Oracle.aluValue e.toNat _ _ = out at harms ⊢
    generalize aluExpr (decodeInsn e) dst src m.regs = ex at harms ⊢
    cases harms with
    | value hdef hmod =>
      right
      rw [oracle_dst_val hd]
      refine h.advance hpc dst ?_
      by_cases h64 : insnCls e = CLS_ALU64
      · have htrunc : ∀ v, aluTrunc (decodeInsn e) v = v := fun v => if_pos h64
        rw [if_pos (hcls.mpr h64), low_natCast, htrunc]
        rw [decide_eq_true h64] at hmod
        exact hmod.trans (Nat.mod_eq_of_lt (BitVec.isLt _))
      · rw [if_neg (mt hcls.mp h64), aluTrunc_alu32 (i := decodeInsn e) h64, toNat_widen, BitVec.toNat_setWidth]
        rw [decide_eq_false h64] at hmod
        rw [low_natCast, low_natCast]
        exact (Nat.mod_eq_of_lt (Nat.lt_trans (Nat.mod_lt _ (by decide)) (by decide))).trans hmod
    | fault f => exact .inr (h.stop f 0)
    | raised hundef => exact .inl ⟨rfl, _, rfl, hundef⟩

/-! ## Jumps -/

/-- The tables of branch decisions. -/
theorem oracle_taken {w : Nat} (hw : 0 < w) {op : JmpOp} (hja : op ≠ .ja) (v arg : BitVec w) :
    Oracle.taken w op.code.toNat v.toNat arg.toNat =
      match jmpSwitch op v arg with
      | .taken b => some b
      | _ => none := by
  have hv := signed_toNat hw v
  have harg := signed_toNat hw arg
  have heq : v.toNat = arg.toNat ↔ v = arg := BitVec.toNat_inj
  have hset : v.toNat &&& arg.toNat ≠ 0 ↔ v &&& arg ≠ 0 := by
    rw [← BitVec.toNat_and, ne_eq, ne_eq, ← BitVec.toNat_inj, BitVec.ofNat_eq_ofNat,
      BitVec.toNat_zero]
  cases op with
  | ja => exact absurd rfl hja
  | _ => simp [Oracle.taken, JmpOp.code, jmpSwitch, heq, hset, hv, harg, BitVec.lt_def, BitVec.le_def]

theorem oracle_jmpReads : (Oracle.hi e.toNat ≠ 0x00 ∧ Oracle.hi e.toNat ≠ 0x90) ↔
    jmpReadsOperands (decodeInsn e) = true := by
  have hja : Oracle.hi e.toNat = 0x00 ↔ (decodeInsn e).op = JmpOp.ja.code :=
    oracle_hi_eq e 0x00 (by decide)
  have hexit : Oracle.hi e.toNat = 0x90 ↔ (decodeInsn e).op = JmpOp.exit.code :=
    oracle_hi_eq e 0x90 (by decide)
  unfold jmpReadsOperands
  rw [decide_eq_true_iff, ne_eq, ne_eq, hja, hexit]

theorem oracle_jmpVal (h : InterpHolds p o m) (hd : dst.val = (insnDst e).toNat) :
    (if jmpReadsOperands (decodeInsn e) = true then o.reg (Oracle.dst e.toNat) else 0) =
      (jmpVal (decodeInsn e) dst m.regs).toNat := by
  unfold jmpVal
  rw [oracle_dst_val hd, h.regs, apply_ite BitVec.toNat]
  rfl

theorem oracle_jmpArg (h : InterpHolds p o m) (hs : src.val = (insnSrc e).toNat) :
    (if jmpReadsOperands (decodeInsn e) = true then
      if Oracle.sx e.toNat then o.reg (Oracle.src e.toNat)
      else if Oracle.cls e.toNat = 6 then Oracle.imm e.toNat
      else Oracle.low 64 (Oracle.signed 32 (Oracle.imm e.toNat)) else 0) =
      (jmpArg (decodeInsn e) src m.regs).toNat := by
  have hsx : Oracle.sx e.toNat = (decodeInsn e).srcX := oracle_sx e
  have hcls : Oracle.cls e.toNat = 6 ↔ (decodeInsn e).cls = CLS_JMP32 :=
    oracle_cls_eq e 6 (by decide)
  unfold jmpArg
  by_cases hreads : jmpReadsOperands (decodeInsn e) = true
  · rw [if_pos hreads, if_pos hreads, hsx]
    by_cases hx : (decodeInsn e).srcX = true
    · rw [if_pos hx, if_pos hx, oracle_src_val hs, h.regs]
    · rw [if_neg hx, if_neg hx]
      by_cases h32 : (decodeInsn e).cls = CLS_JMP32
      · rw [if_pos (hcls.mpr h32), if_pos h32, toNat_imm, toNat_widen]
      · rw [if_neg (mt hcls.mp h32), if_neg h32, signed_imm, low_eq]
        rfl
  · rw [if_neg hreads, if_neg hreads]
    rfl

/-- What the oracle makes of a jump other than a helper call. -/
inductive JmpAgrees (hi : Nat) : Option Bool → Option JmpOut → Prop where
  | taken (b : Bool) : JmpAgrees hi (some b) (some (.taken b))
  | callFault : hi = 0x80 → JmpAgrees hi none (some .callFault)
  | none : hi ≠ 0x80 → JmpAgrees hi none none

theorem JmpAgrees.of_switch {w : Nat} (hw : 0 < w) {op : JmpOp} (hja : op ≠ .ja)
    (hexit : op ≠ .exit) (v arg : BitVec w) :
    JmpAgrees op.code.toNat (Oracle.taken w op.code.toNat v.toNat arg.toNat)
      (some (jmpSwitch op v arg)) := by
  have hswitched := jmpSwitch_switched op v arg
  rw [oracle_taken hw hja]
  generalize jmpSwitch op v arg = out at hswitched ⊢
  cases hswitched with
  | exit h => exact absurd h hexit
  | callFault hcall =>
    subst hcall
    exact .callFault rfl
  | taken b => exact .taken b

variable (dst src) in
/-- The branch decision of either class. -/
theorem oracle_decision (hexit : insnHi e ≠ JmpOp.exit.code) (regs : RegFile) :
    JmpAgrees (Oracle.hi e.toNat)
      (if Oracle.hi e.toNat = 0x00 then some true
      else if Oracle.cls e.toNat = 6 then
        Oracle.taken 32 (Oracle.hi e.toNat) (Oracle.low 32 (jmpVal (decodeInsn e) dst regs).toNat)
          (Oracle.low 32 (jmpArg (decodeInsn e) src regs).toNat)
      else Oracle.taken 64 (Oracle.hi e.toNat) (jmpVal (decodeInsn e) dst regs).toNat
        (jmpArg (decodeInsn e) src regs).toNat)
      (jmpOut (decodeInsn e) dst src regs) := by
  have hcls : Oracle.cls e.toNat = 6 ↔ (decodeInsn e).cls = CLS_JMP32 :=
    oracle_cls_eq e 6 (by decide)
  unfold jmpOut
  rw [low_setWidth, low_setWidth]
  cases hop : JmpOp.ofCode? (decodeInsn e).op with
  | none =>
    -- the two codes that name no operation
    have hfree : ∀ op : U8, JmpOp.ofCode? (op &&& 0xf0) = none →
        (op &&& 0xf0).toNat = 0xe0 ∨ (op &&& 0xf0).toNat = 0xf0 := by decide +kernel
    have hhi : Oracle.hi e.toNat = 0xe0 ∨ Oracle.hi e.toNat = 0xf0 := by
      rw [oracle_hi]
      exact hfree (insnOp e) hop
    have hnone : ∀ w a b, Oracle.taken w (Oracle.hi e.toNat) a b = none := by
      intro w a b
      rcases hhi with h | h <;> rw [h] <;> rfl
    rw [if_neg (by omega), hnone, hnone, ite_self]
    exact .none (by omega)
  | some op =>
    have hcode : insnHi e = op.code := (JmpOp.code_of_ofCode? hop).symm
    have hne : op ≠ .exit := by
      rintro rfl
      exact hexit hcode
    rw [oracle_hi, hcode]
    by_cases hja : op = .ja
    · subst hja
      have hzero : JmpOp.ja.code.toNat = 0 := rfl
      rw [if_pos hzero, Option.map_some, jmpSwitch, jmpSwitch, ite_self]
      exact .taken true
    · have hzero : op.code.toNat ≠ 0 := by
        intro h
        exact hja (JmpOp.code_injective (BitVec.eq_of_toNat_eq h))
      rw [if_neg hzero, Option.map_some]
      by_cases h32 : (decodeInsn e).cls = CLS_JMP32
      · rw [if_pos (hcls.mpr h32), if_pos h32]
        exact .of_switch (by decide) hja hne _ _
      · rw [if_neg (mt hcls.mp h32), if_neg h32]
        exact .of_switch (by decide) hja hne _ _

/-! ## Helper calls -/

/-- A cell's index, masked with the number of cells less one. -/
theorem and_low {a b : Nat} (hb : b < 2 ^ 32) : (a % 2 ^ 32) &&& b = a &&& b := by
  apply Nat.eq_of_testBit_eq
  intro i
  rw [Nat.testBit_and, Nat.testBit_and, Nat.testBit_mod_two_pow]
  by_cases hi : i < 32
  · simp [hi]
  · have hzero : b.testBit i = false :=
      Nat.testBit_lt_two_pow (Nat.lt_of_lt_of_le hb (Nat.pow_le_pow_right (by decide) (by omega)))
    simp [hzero]

theorem oracle_mapIndex {cells : U32} (hcells : cells ≠ 0) (r1 : U64) :
    r1.toNat &&& (cells.toNat - 1) = (mapIndex cells r1).toNat ∧ mapIndex cells r1 < cells := by
  have hpred : (cells - 1).toNat = cells.toNat - 1 := by bv_omega
  have heq : r1.toNat &&& (cells.toNat - 1) = (mapIndex cells r1).toNat := by
    unfold mapIndex
    rw [BitVec.toNat_and, BitVec.toNat_setWidth, hpred, and_low]
    have := cells.isLt
    omega
  refine ⟨heq, ?_⟩
  have hle : (mapIndex cells r1).toNat ≤ cells.toNat - 1 := heq ▸ Nat.and_le_right
  have hpos : 0 < cells.toNat := by bv_omega
  rw [BitVec.lt_def]
  omega

theorem oracle_mapUsable {cells : U32} {map : List Nat} (hlen : map.length = cells.toNat) :
    (map = [] ∨ map.length &&& (map.length - 1) ≠ 0) ↔ ¬ mapUsable cells = true := by
  have hnil : map = [] ↔ cells = 0 := by
    rw [← List.length_eq_zero_iff, hlen]
    exact BitVec.toNat_inj (y := 0)
  have hmask : cells ≠ 0 → (map.length &&& (map.length - 1) = 0 ↔ cells &&& (cells - 1) = 0) := by
    intro hne
    have hpred : (cells - 1).toNat = cells.toNat - 1 := by bv_omega
    rw [hlen, ← hpred, ← BitVec.toNat_and]
    exact BitVec.toNat_inj (y := 0)
  unfold mapUsable
  rw [decide_eq_true_iff, hnil]
  by_cases hzero : cells = 0
  · simp [hzero]
  · rw [ne_eq, hmask hzero]
    tauto

theorem callTurn_agrees (h : InterpHolds p o m) (hpc : m.pc.toNat + 1 < 2 ^ 32) :
    TurnAgrees p (Oracle.callTurn e.toNat o) (callStep p (decodeInsn e) m) := by
  have hone : Oracle.imm e.toNat = 1 ↔ (decodeInsn e).imm = 1 := by
    rw [toNat_imm]
    exact BitVec.toNat_inj (y := 1)
  have htwo : Oracle.imm e.toNat = 2 ↔ (decodeInsn e).imm = 2 := by
    rw [toNat_imm]
    exact BitVec.toNat_inj (y := 2)
  have hmap := h.map
  unfold Oracle.callTurn callStep
  cases hm : m.map with
  | none =>
    rw [hm] at hmap
    rw [if_pos (.inl hmap)]
    exact h.stop .call 0
  | some f =>
    rw [hm] at hmap
    obtain ⟨hlen, hcells⟩ := hmap
    dsimp only
    by_cases husable : mapUsable p.mapCells = true
    · rw [if_neg (fun hbad => (oracle_mapUsable hlen).mp hbad husable), if_pos husable]
      have hne : p.mapCells ≠ 0 := (of_decide_eq_true husable).1
      obtain ⟨hidx, hlt⟩ := oracle_mapIndex hne (m.regs 1)
      have hr1 : o.reg 1 = (m.regs 1).toNat := h.regs 1
      have hr2 : o.reg 2 = (m.regs 2).toNat := h.regs 2
      rw [hlen, hr1, hr2, hidx]
      by_cases h1 : (decodeInsn e).imm = 1
      · -- a read
        rw [if_pos (hone.mpr h1), if_pos h1]
        refine h.advance hpc 0 ?_
        rw [hcells _ hlt, low_natCast, toNat_widen]
        exact Nat.mod_eq_of_lt (Nat.lt_trans (BitVec.isLt _) (by decide))
      · rw [if_neg (mt hone.mp h1), if_neg h1]
        by_cases h2 : (decodeInsn e).imm = 2
        · -- a write, of the low word of `r2`
          rw [if_pos (htwo.mpr h2), if_pos h2]
          have hbound : (mapIndex p.mapCells (m.regs 1)).toNat < o.map.length := by
            rw [hlen]
            exact hlt
          generalize mapIndex p.mapCells (m.regs 1) = idx at hbound ⊢
          have hstored : InterpHolds p
              { o with map := o.map.set idx.toNat (Oracle.low 32 (m.regs 2).toNat) }
              { m with map := some fun c => if c = idx then (m.regs 2).setWidth 32 else f c } := by
            refine { h with map := ⟨by rw [List.length_set, hlen], fun c hc => ?_⟩ }
            show _ = (if c = idx then (m.regs 2).setWidth 32 else f c).toNat
            rw [getD_set_eq hbound, low_setWidth, hcells c hc, apply_ite BitVec.toNat]
            exact if_congr BitVec.toNat_inj rfl rfl
          exact hstored.advance hpc 0 rfl
        · rw [if_neg (mt htwo.mp h2), if_neg h2]
          exact h.stop .call 0
    · rw [if_pos ((oracle_mapUsable hlen).mpr husable), if_neg husable]
      exact h.stop .call 0

/-- A jump or a helper call. -/
theorem jmpTurn_agrees (h : InterpHolds p o m) (hpc : m.pc.toNat + 1 < 2 ^ 32)
    (hd : dst.val = (insnDst e).toNat) (hs : src.val = (insnSrc e).toNat) :
    TurnAgrees p (Oracle.jmpTurn e.toNat o) (jmpStep p (decodeInsn e) dst src m) := by
  have hcall : (Oracle.cls e.toNat = 5 ∧ Oracle.hi e.toNat = 0x80) ↔
      ((decodeInsn e).cls = CLS_JMP ∧ (decodeInsn e).op = JmpOp.call.code) :=
    and_congr (oracle_cls_eq e 5 (by decide)) (oracle_hi_eq e 0x80 (by decide))
  have hexit : Oracle.hi e.toNat = 0x90 ↔ insnHi e = JmpOp.exit.code :=
    oracle_hi_eq e 0x90 (by decide)
  unfold Oracle.jmpTurn jmpStep
  by_cases hc : (decodeInsn e).cls = CLS_JMP ∧ (decodeInsn e).op = JmpOp.call.code
  · rw [if_pos (hcall.mpr hc), if_pos hc]
    exact callTurn_agrees h hpc
  · rw [if_neg (mt hcall.mp hc), if_neg hc]
    simp only [oracle_jmpReads, Bool.decide_eq_true, oracle_jmpVal h hd, oracle_jmpArg h hs]
    by_cases hx : insnHi e = JmpOp.exit.code
    · have hr0 : o.reg 0 = (m.regs 0).toNat := h.regs 0
      have hout : jmpOut (decodeInsn e) dst src m.regs = some .exit := by
        unfold jmpOut
        rw [decodeInsn_op, hx]
        exact congrArg some (ite_self _)
      rw [if_pos (hexit.mpr hx), hout, hr0]
      exact h.stop .ok (m.regs 0)
    · rw [if_neg (mt hexit.mp hx)]
      have hdecision := oracle_decision dst src hx m.regs
      generalize (ite (Oracle.hi e.toNat = 0) _ _ : Option Bool) = decision at hdecision ⊢
      generalize jmpOut (decodeInsn e) dst src m.regs = out at hdecision ⊢
      cases hdecision with
      | taken b =>
        refine .continues { h with pc := ?_ }
        have htarget := oracle_target e m.pc.toNat
        rw [BitVec.ofNat_toNat, BitVec.setWidth_eq] at htarget
        show (if b = true then Oracle.low 32 (o.pc + 1 + Oracle.off e.toNat) else o.pc + 1) =
          (if b = true then insnTarget e m.pc else m.pc + 1).toNat
        rw [h.pc, htarget]
        cases b with
        | true => rfl
        | false =>
          rw [if_neg Bool.false_ne_true, if_neg Bool.false_ne_true]
          bv_omega
      | callFault hhi =>
        rw [if_pos hhi]
        exact h.stop .call 0
      | none hhi =>
        rw [if_neg hhi]
        exact h.stop .opcode 0

/-! ## Context loads -/

theorem oracle_loadSize : Oracle.loadSize e.toNat = (ldxSize (decodeInsn e)).toNat := by
  have hall : ∀ op : U8, (if (op.toNat >>> 3) &&& 3 = 0 then 4
      else if (op.toNat >>> 3) &&& 3 = 2 then 1 else 1 <<< ((op.toNat >>> 3) &&& 3)) =
      (if (op >>> 3) &&& 3 = 0 then (4 : U8) else if (op >>> 3) &&& 3 = 2 then 1
      else 1#8 <<< ((op >>> 3) &&& 3).toNat).toNat := by
    decide +kernel
  unfold Oracle.loadSize
  rw [oracle_op]
  exact hall (insnOp e)

/-- The context, as a list of bytes and as memory. -/
structure CtxHolds (p : EbpfProg) (ctx : List U8) : Prop where
  size : ctx.length = p.ctxSize.toNat
  bytes : ∀ k < ctx.length, p.mem (p.ctx + BitVec.ofNat 64 k) = ctx.getD k 0
  /-- The context lies above the widest load. -/
  base_ge : 8 ≤ p.ctx.toNat

/-- The two bounds tests. -/
theorem CtxHolds.bounds {ctx : List U8} (hctx : CtxHolds p ctx) (addr : U64) {size : U8}
    (hsize : size.toNat ≤ 8) :
    (addr.toNat < p.ctx.toNat ∨ ctx.length < addr.toNat - p.ctx.toNat + size.toNat) ↔
      ldxOutOfBounds p.ctx p.ctxSize addr size = true := by
  have hbase := hctx.base_ge
  have haddr := addr.isLt
  have hfit := p.ctxSize.isLt
  unfold ldxOutOfBounds
  rw [decide_eq_true_iff, BitVec.lt_def, BitVec.lt_def, BitVec.toNat_add, BitVec.toNat_sub,
    BitVec.toNat_setWidth, BitVec.toNat_setWidth, hctx.size]
  omega

/-- The bytes of a load in bounds. -/
theorem CtxHolds.slice {ctx : List U8} (hctx : CtxHolds p ctx) {addr : U64} {n : Nat}
    (hge : p.ctx.toNat ≤ addr.toNat) (hin : addr.toNat - p.ctx.toNat + n ≤ ctx.length) :
    (ctx.drop (addr.toNat - p.ctx.toNat)).take n = bytesFrom p.mem addr n := by
  apply List.ext_getElem?
  intro k
  unfold bytesFrom
  rw [List.getElem?_take, List.getElem?_drop, List.getElem?_map]
  by_cases hk : k < n
  · have hlt : addr.toNat - p.ctx.toNat + k < ctx.length := by omega
    have hbyte := hctx.bytes _ hlt
    have haddr : p.ctx + BitVec.ofNat 64 (addr.toNat - p.ctx.toNat + k) =
        addr + BitVec.ofNat 64 k := by
      apply BitVec.eq_of_toNat_eq
      rw [BitVec.toNat_add, BitVec.toNat_add, BitVec.toNat_ofNat, BitVec.toNat_ofNat]
      omega
    rw [haddr, List.getD_eq_getElem _ _ hlt] at hbyte
    rw [if_pos hk, List.getElem?_eq_getElem hlt, List.getElem?_range hk, Option.map_some, hbyte]
  · simp [hk]

theorem ldxTurn_agrees {ctx : List U8} (hctx : CtxHolds p ctx) (h : InterpHolds p o m)
    (hpc : m.pc.toNat + 1 < 2 ^ 32) (hd : dst.val = (insnDst e).toNat)
    (hs : src.val = (insnSrc e).toNat) :
    TurnAgrees p (Oracle.ldxTurn ctx p.ctx.toNat e.toNat o) (ldxStep p (decodeInsn e) dst src m) := by
  have hmode : Oracle.op e.toNat &&& 0xe0 ≠ 0x60 ↔
      (decodeInsn e).opcode &&& 0xe0 ≠ MODE_MEM := by
    rw [oracle_op, ne_eq, ne_eq, ← BitVec.toNat_inj, BitVec.toNat_and]
    exact Iff.rfl
  have hrefused : (Oracle.op e.toNat &&& 0xe0 ≠ 0x60 ∨ Oracle.src e.toNat = 10 ∨
      Oracle.dst e.toNat = 10) ↔
      ((decodeInsn e).opcode &&& 0xe0 ≠ MODE_MEM ∨ src = 10 ∨ dst = 10) := by
    rw [hmode, oracle_src_val hs, oracle_dst_val hd, Fin.ext_iff, Fin.ext_iff]
    exact Iff.rfl
  have haddr : Oracle.low 64 (o.reg (Oracle.src e.toNat) + Oracle.low 64 (Oracle.off e.toNat)) =
      (ldxAddr (decodeInsn e) src m.regs).toNat := by
    have hoff : BitVec.ofInt 64 (Oracle.low 64 (Oracle.off e.toNat)) =
        (insnOff e).signExtend 64 := by
      rw [low_eq, ofInt_toNat, oracle_off]
      rfl
    rw [oracle_src_val hs, h.regs, low_eq, BitVec.ofInt_add, ofInt_toNat, hoff]
    rfl
  have hcases := ldxSize_cases (decodeInsn e)
  have hsize : (ldxSize (decodeInsn e)).toNat ≤ 8 := by
    rcases hcases with h | h | h | h <;> rw [h] <;> decide
  unfold Oracle.ldxTurn ldxStep
  by_cases hbad : (decodeInsn e).opcode &&& 0xe0 ≠ MODE_MEM ∨ src = 10 ∨ dst = 10
  · rw [if_pos (hrefused.mpr hbad), if_pos hbad]
    exact h.stop .opcode 0
  · rw [if_neg (mt hrefused.mp hbad), if_neg hbad]
    dsimp only
    rw [haddr, oracle_loadSize]
    generalize ldxAddr (decodeInsn e) src m.regs = addr
    have hbounds := hctx.bounds addr hsize
    by_cases hout : ldxOutOfBounds p.ctx p.ctxSize addr (ldxSize (decodeInsn e)) = true
    · rw [if_pos (hbounds.mpr hout), if_pos hout]
      exact h.stop .mem 0
    · have hin := mt hbounds.mp hout
      rw [if_neg hin, if_neg hout]
      rw [not_or, Nat.not_lt, Nat.not_lt] at hin
      rw [oracle_dst_val hd]
      refine h.advance hpc dst ?_
      have hlt := leNat_lt (bytesFrom p.mem addr (ldxSize (decodeInsn e)).toNat)
      have hlen : (bytesFrom p.mem addr (ldxSize (decodeInsn e)).toNat).length ≤ 8 := by
        simpa [bytesFrom] using hsize
      rw [hctx.slice hin.1 hin.2, oracle_fromBytes, loadLe_eq _ _ hcases, BitVec.toNat_ofNat]
      exact (Nat.mod_eq_of_lt (Nat.lt_of_lt_of_le hlt
        (Nat.pow_le_pow_right (n := 256) (by decide) hlen))).symm

end Instruction

end Turn

/-! ## Runs -/

/-- Both interpreters are given the same program, context, map and step
    cap, and the cap is not the largest word. -/
structure OracleInputs (p : EbpfProg) (ins : List U64) (ctx : List U8) (cells : List Nat) :
    Prop where
  insnCnt : p.insnCnt.toNat = ins.length
  insns : ∀ i < ins.length, p.ins i = wordList ins i
  ctx : CtxHolds p ctx
  map : CellsHold p.mapCells cells p.map
  maxSteps : p.maxSteps ≠ 0xFFFFFFFF

/-- What the oracle's outcome says of the C run: the same result, or a
    division that C does not define on the way. -/
def OracleAgrees (undef : CExpr → U64) (p : EbpfProg) : Oracle.Outcome → Prop
  | .raised => ∃ m, p.Visits undef m ∧ ∃ x, turnExpr p m = some x ∧ x.undefined = true
  | .returned fault ret executed map => ∃ r,
      ebpfRun undef p (p.maxSteps.toNat + 1) = some r ∧
        ResultHolds p.mapCells fault ret executed map r

section Run
variable {undef : CExpr → U64} {p : EbpfProg} {ins : List U64} {ctx : List U8} {cells : List Nat}
  {o : Oracle.Interp} {m : EbpfState}

/-- Counting the instruction that is about to run. -/
theorem InterpHolds.fetched (h : InterpHolds p o m) (hlt : o.steps + 1 ≤ p.maxSteps.toNat) :
    InterpHolds p { o with steps := o.steps + 1, executed := o.executed + 1 } m.fetched := by
  have hmax := p.maxSteps.isLt
  have hsteps := h.steps
  have hexecuted := h.executed
  have hle := h.executed_le
  refine { h with steps := ?_, steps_le := hlt, executed := ?_, executed_le := ?_ }
  · show o.steps + 1 = (m.steps + 1).toNat
    bv_omega
  · show o.executed + 1 = (m.insnsExecuted + 1).toNat
    bv_omega
  · exact Nat.succ_le_succ hle

variable (undef) in
/-- One instruction. -/
theorem execInsn_agrees (hctx : CtxHolds p ctx) (h : InterpHolds p o m)
    (hpc : m.pc.toNat + 1 < 2 ^ 32) {e : U64} (he : InsnAdmitted e) {dst src : Fin 11}
    (hd : dst.val = (insnDst e).toNat) (hs : src.val = (insnSrc e).toNat) :
    let turn := if Oracle.cls e.toNat = 4 ∨ Oracle.cls e.toNat = 7 then Oracle.aluTurn e.toNat o
      else if Oracle.cls e.toNat = 5 ∨ Oracle.cls e.toNat = 6 then Oracle.jmpTurn e.toNat o
      else if Oracle.cls e.toNat = 1 then Oracle.ldxTurn ctx p.ctx.toNat e.toNat o
      else if Oracle.cls e.toNat = 2 ∨ Oracle.cls e.toNat = 3 then o.stop 4 0
      else o.stop 6 0
    (turn = .inr .raised ∧ isAluCls (insnCls e) = true ∧
      ∃ x, aluExpr (decodeInsn e) dst src m.regs = .ok x ∧ x.undefined = true) ∨
    TurnAgrees p turn (execInsn undef p (decodeInsn e) dst src m) := by
  have hldx : Oracle.cls e.toNat = 1 ↔ insnCls e = CLS_LDX := oracle_cls_eq e 1 (by decide)
  have hst : (Oracle.cls e.toNat = 2 ∨ Oracle.cls e.toNat = 3) ↔
      (insnCls e = CLS_ST ∨ insnCls e = CLS_STX) :=
    or_congr (oracle_cls_eq e 2 (by decide)) (oracle_cls_eq e 3 (by decide))
  intro turn
  unfold turn execInsn
  simp only [oracle_isAlu, oracle_isJmp, ← isAluCls_iff, ← isJmpCls_iff]
  by_cases halu : isAluCls (insnCls e) = true
  · rw [if_pos halu, if_pos (show isAluCls (decodeInsn e).cls = true from halu)]
    rcases aluTurn_agrees h hpc he halu hd hs with ⟨hraised, hundef⟩ | hagrees
    · exact .inl ⟨hraised, halu, hundef⟩
    · exact .inr hagrees
  right
  rw [if_neg halu, if_neg (show ¬ isAluCls (decodeInsn e).cls = true from halu)]
  by_cases hjmp : isJmpCls (insnCls e) = true
  · rw [if_pos hjmp, if_pos (show isJmpCls (decodeInsn e).cls = true from hjmp)]
    exact jmpTurn_agrees h hpc hd hs
  rw [if_neg hjmp, if_neg (show ¬ isJmpCls (decodeInsn e).cls = true from hjmp)]
  by_cases hl : insnCls e = CLS_LDX
  · rw [if_pos (hldx.mpr hl), if_pos (show (decodeInsn e).cls = CLS_LDX from hl)]
    exact ldxTurn_agrees hctx h hpc hd hs
  rw [if_neg (mt hldx.mp hl), if_neg (show ¬ (decodeInsn e).cls = CLS_LDX from hl)]
  by_cases hstore : insnCls e = CLS_ST ∨ insnCls e = CLS_STX
  · rw [if_pos (hst.mpr hstore), if_pos (show (decodeInsn e).cls = CLS_ST ∨
      (decodeInsn e).cls = CLS_STX from hstore)]
    exact h.stop .store 0
  · rw [if_neg (mt hst.mp hstore), if_neg (show ¬ ((decodeInsn e).cls = CLS_ST ∨
      (decodeInsn e).cls = CLS_STX) from hstore)]
    exact h.stop .opcode 0

variable (undef) in
/-- Step lemma: a turn of the one loop is a turn of the other. -/
theorem turn_agrees (hin : OracleInputs p ins ctx cells) (hacc : Accepted p.ins p.insnCnt)
    (h : InterpHolds p o m) :
    let turn := Oracle.turn (ins.map BitVec.toNat) ctx p.ctx.toNat p.maxSteps.toNat o
    (turn = .inr .raised ∧ ∃ x, turnExpr p m = some x ∧ x.undefined = true) ∨
    TurnAgrees p turn (ebpfStep undef p m) := by
  have hpc : (ins.map BitVec.toNat).length ≤ o.pc ↔ p.insnCnt ≤ m.pc := by
    rw [List.length_map, ← hin.insnCnt, h.pc, BitVec.le_def]
  have hsteps : p.maxSteps.toNat < o.steps + 1 ↔ p.maxSteps < m.steps + 1 := by
    have hne := hin.maxSteps
    have hle := h.steps_le
    have heq := h.steps
    bv_omega
  intro turn
  unfold turn Oracle.turn ebpfStep
  by_cases hout : p.insnCnt ≤ m.pc
  · right
    rw [if_pos (hpc.mpr hout), if_pos hout]
    exact h.stop .pc 0
  rw [if_neg (mt hpc.mp hout), if_neg hout]
  dsimp only
  by_cases hcap : p.maxSteps < m.steps + 1
  · right
    rw [if_pos (hsteps.mpr hcap), if_pos hcap]
    exact h.stop .steps 0
  rw [if_neg (mt hsteps.mp hcap), if_neg hcap]
  -- the instruction passed the scan
  have hlt : m.pc.toNat < p.insnCnt.toNat := Nat.lt_of_not_le hout
  have hadm := hacc.admitted hlt
  have hword : (ins.map BitVec.toNat).getD o.pc 0 = (p.ins m.pc.toNat).toNat := by
    rw [wordList_map, h.pc, hin.insns _ (by rw [← hin.insnCnt]; exact hlt)]
  have hfetched := h.fetched (Nat.le_of_not_lt (mt hsteps.mp hcap))
  have hroom : m.fetched.pc.toNat + 1 < 2 ^ 32 := by
    have := hacc.cnt_le
    show m.pc.toNat + 1 < 2 ^ 32
    omega
  have hregs : (p.insnAt m.pc).dst.toNat < 11 ∧ (p.insnAt m.pc).src.toNat < 11 :=
    ⟨hadm.dst_lt, hadm.src_lt⟩
  have hrange : ¬ (10 < Oracle.dst (p.ins m.pc.toNat).toNat ∨
      10 < Oracle.src (p.ins m.pc.toNat).toNat) := by
    have hd := hadm.dst_lt
    have hs := hadm.src_lt
    rw [oracle_dst, oracle_src]
    omega
  unfold fetchExec
  dsimp only
  rw [hword, if_neg hrange, dif_pos hregs]
  have hdst : (⟨_, hregs.1⟩ : Fin 11).val = (insnDst (p.ins m.pc.toNat)).toNat := rfl
  have hsrc : (⟨_, hregs.2⟩ : Fin 11).val = (insnSrc (p.ins m.pc.toNat)).toNat := rfl
  rcases execInsn_agrees undef hin.ctx hfetched hroom hadm hdst hsrc with
    ⟨hraised, halu, x, hx, hundef⟩ | hagrees
  · have hcls : (p.insnAt m.pc).cls = CLS_ALU64 ∨ (p.insnAt m.pc).cls = CLS_ALU :=
      (isAluCls_iff _).mp halu
    refine .inl ⟨hraised, x, ?_, hundef⟩
    unfold turnExpr
    dsimp only
    rw [if_neg (not_or.mpr ⟨hout, hcap⟩), dif_pos hregs.1, dif_pos hregs.2, if_pos hcls]
    exact congrArg Except.toOption hx
  · exact .inr hagrees

/-- The loops start alike. -/
theorem interpHolds_entry (hin : OracleInputs p ins ctx cells) :
    InterpHolds p ⟨(List.replicate 11 0).set 1 p.ctx.toNat, 0, 0, 0, cells⟩
      (ebpfEntry p (entryRegs p)) := by
  refine ⟨rfl, fun q => ?_, rfl, rfl, Nat.zero_le _, rfl, Nat.le_refl _, hin.map⟩
  unfold Oracle.Interp.reg
  rw [getD_set_eq (by decide)]
  show _ = (entryRegs p q).toNat
  unfold entryRegs RegFile.set
  by_cases hq : q = 1
  · subst hq
    rfl
  · have hval : q.val ≠ 1 := fun h => hq (Fin.ext h)
    rw [if_neg hval, if_neg hq, List.getD_eq_getElem?_getD, List.getElem?_replicate]
    split <;> rfl

variable (undef) in
/-- A turn of the oracle that continues. -/
theorem turn_follows (hin : OracleInputs p ins ctx cells) (hacc : Accepted p.ins p.insnCnt)
    {o' : Oracle.Interp} (h : InterpHolds p o m)
    (hturn : Oracle.turn (ins.map BitVec.toNat) ctx p.ctx.toNat p.maxSteps.toNat o = .inl o') :
    ∃ m', ebpfStep undef p m = .inl m' ∧ InterpHolds p o' m' := by
  rcases turn_agrees undef hin hacc h with ⟨hraised, _⟩ | hagrees
  · cases hturn.symm.trans hraised
  · rw [hturn] at hagrees
    generalize ebpfStep undef p m = s at hagrees ⊢
    cases hagrees with
    | continues hholds => exact ⟨_, rfl, hholds⟩

/-- The oracle ends within the step cap. -/
theorem oracle_terminates (hin : OracleInputs p ins ctx cells)
    (hacc : Accepted p.ins p.insnCnt) :
    ∃ out, Oracle.interp (ins.map BitVec.toNat) ctx p.ctx.toNat p.maxSteps.toNat
      (p.maxSteps.toNat + 1) cells = some out := by
  refine Exec.run_terminates (I := fun o => ∃ m, InterpHolds p o m)
    (fun o => p.maxSteps.toNat - o.steps) (fun o o' ⟨m, h⟩ hturn => ?_)
    ⟨_, interpHolds_entry hin⟩ (Nat.lt_succ_of_le (Nat.sub_le _ _))
  obtain ⟨m', hstep, h'⟩ := turn_follows (fun _ => 0) hin hacc h hturn
  refine ⟨⟨m', h'⟩, ?_⟩
  have hcount := congrArg BitVec.toNat (ebpfStep_steps hstep)
  have hmax := p.maxSteps.isLt
  have hne := hin.maxSteps
  have hle := h.steps_le
  have hsteps := h.steps
  have hsteps' := h'.steps
  have hle' := h'.steps_le
  bv_omega

end Run

/-- **The oracle's interpreter.** Both interpreters get the same accepted
    program, context, map and step cap; the cap is not 0xFFFFFFFF, where the
    C counter wraps before it passes the cap, and the context is not in the
    first eight bytes of memory, where the C bounds test wraps.  Then the
    interpreter restated in `tools/soundness.py` ends within the step cap:
    with the fault, the value, the number of instructions and the map that
    `ebpf_run` ends with, or by an exception, and then the C run reaches a
    division that the language does not define. -/
theorem oracle_interp (undef : CExpr → U64) {p : EbpfProg} {ins : List U64} {ctx : List U8}
    {cells : List Nat} (hin : OracleInputs p ins ctx cells)
    (hcheck : icProgramCheck (some p.ins) p.insnCnt = .ok) :
    ∃ out, Oracle.interp (ins.map BitVec.toNat) ctx p.ctx.toNat p.maxSteps.toNat
      (p.maxSteps.toNat + 1) cells = some out ∧ OracleAgrees undef p out := by
  have hacc := icProgramCheck_ok hcheck
  obtain ⟨out, hout⟩ := oracle_terminates hin hacc
  refine ⟨out, hout, ?_⟩
  -- where the oracle stops, the C run is at the same point
  obtain ⟨o, hreach, hstop⟩ := Exec.run_some hout
  have hfollows : ∀ m o o', InterpHolds p o m →
      Oracle.turn (ins.map BitVec.toNat) ctx p.ctx.toNat p.maxSteps.toNat o = .inl o' →
      ∃ m', ebpfStep undef p m = .inl m' ∧ InterpHolds p o' m' :=
    fun _ _ _ h hturn => turn_follows undef hin hacc h hturn
  obtain ⟨m, hm, h⟩ := hreach.follows hfollows (interpHolds_entry hin)
  have hpos := hacc.cnt_pos
  have hle := hacc.cnt_le
  have hcnt : p.insnCnt ≠ 0 ∧ p.insnCnt ≤ EBPF_MAX_INSNS := by
    unfold EBPF_MAX_INSNS
    constructor <;> bv_omega
  rcases turn_agrees undef hin hacc h with ⟨hraised, x, hx, hundef⟩ | hagrees
  · obtain rfl : out = .raised := Sum.inr.inj (hstop.symm.trans hraised)
    exact ⟨m, ⟨hcnt.1, hcnt.2, hm⟩, x, hx, hundef⟩
  · rw [hstop] at hagrees
    generalize hr : ebpfStep undef p m = s at hagrees
    cases hagrees with
    | stops hres =>
      obtain ⟨r', hrun⟩ := ebpfRun_terminates undef p hin.maxSteps
      refine ⟨r', hrun, ?_⟩
      unfold ebpfRun ebpfRunFrom at hrun
      rw [if_neg (not_or.mpr ⟨hcnt.1, BitVec.not_lt.mpr hcnt.2⟩)] at hrun
      rw [hm.result hr hrun]
      exact hres

/-- `r2 = 9; call 2; r0 = *(u16 *)(r1 + 2); exit` -/
def storeAndLoad : List U64 :=
  [0x00000009000002b7, 0x0000000200000085, 0x0000000000021069, 0x0000000000000095]

/-- At the window of the sweeps, over a map of one cell. -/
def storeAndLoadProg : EbpfProg where
  ins := wordList storeAndLoad
  insnCnt := 4
  mem := fun a => [1, 2, 3, 4].getD (a - 0x20000000).toNat 0
  ctx := 0x20000000
  ctxSize := 4
  maxSteps := 64
  map := some fun _ => 7
  mapCells := 1

/-- It leaves nine in the cell and returns the last two bytes. -/
theorem oracle_interp_storeAndLoad :
    ∃ out, Oracle.interp (storeAndLoad.map BitVec.toNat) [1, 2, 3, 4] 0x20000000 64 65 [7] =
        some out ∧ OracleAgrees (fun _ => 0) storeAndLoadProg out ∧
      out = .returned 0 0x0403 4 [9] := by
  have hcell : ∀ c < (1 : U32), [7].getD c.toNat 0 = (7 : U32).toNat := by
    intro c hc
    obtain rfl : c = 0 := by bv_omega
    rfl
  have hin : OracleInputs storeAndLoadProg storeAndLoad [1, 2, 3, 4] [7] :=
    ⟨rfl, fun _ _ => rfl, ⟨rfl, by decide, by decide⟩, ⟨rfl, hcell⟩, by decide⟩
  obtain ⟨out, hout, hagrees⟩ := oracle_interp (fun _ => 0) hin (by decide +kernel)
  refine ⟨out, hout, hagrees, ?_⟩
  have hrun : Oracle.interp (storeAndLoad.map BitVec.toNat) [1, 2, 3, 4] 0x20000000 64 65 [7] =
      some (.returned 0 0x0403 4 [9]) := by rfl
  exact Option.some.inj (hout.symm.trans hrun)

end Interclus

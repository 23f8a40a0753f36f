import Interclus.Framework.ByteOrder
import Interclus.Verifier.Soundness

/-! # ALU Conformance

    What the eBPF instruction set says an ALU instruction computes, stated
    at the width of its class, against what the interpreter's arms and its
    one shared truncation leave in the destination register.

    They agree on every admitted instruction but one: in the 32-bit class a
    byte swap of width 64 loses its upper half to the truncation. -/

namespace Interclus

open Words DoubleWord ByteOrder

/-! ## The instruction set -/

/-- An operation on two words of `w` bits; shift counts are taken modulo
    the width.  The byte swap has one operand and a width of its own. -/
def AluOp.apply {w : Nat} (o : AluOp) (a b : BitVec w) : BitVec w :=
  match o with
  | .add => a + b
  | .sub => a - b
  | .mul => a * b
  | .div => a / b
  | .mod => a % b
  | .or => a ||| b
  | .and => a &&& b
  | .xor => a ^^^ b
  | .mov => b
  | .neg => -a
  | .lsh => a <<< (b.toNat % w)
  | .rsh => a >>> (b.toNat % w)
  | .arsh => a.sshiftRight (b.toNat % w)
  | .end => a

/-- The second operand at `w` bits: the low bits of the register, or the
    immediate sign-extended. -/
def operand (w : Nat) (i : EbpfInsn) (src : Fin 11) (regs : RegFile) : BitVec w :=
  if i.srcX then (regs src).setWidth w else i.imm.signExtend w

/-- What an instruction leaves in `dst`. -/
def aluResult (o : AluOp) (i : EbpfInsn) (dst src : Fin 11) (regs : RegFile) : U64 :=
  if o = .end then byteReverse (i.imm.toNat / 8) (regs dst)
  else if i.cls = CLS_ALU64 then o.apply (regs dst) (operand 64 i src regs)
  else (o.apply ((regs dst).setWidth 32) (operand 32 i src regs)).setWidth 64

/-- An operation on two words of the class: no division, which can fault,
    and no byte swap. -/
def AluOp.plain (o : AluOp) : Bool := o ≠ .div ∧ o ≠ .mod ∧ o ≠ .end

/-! ## Byte swaps -/

theorem bswap16_eq (v : U16) : bswap16 v = byteReverse 2 v := by
  have h := join_byteReverse (w := 8) (v := 16) (n := 1) rfl rfl v
  rw [byteReverse_one, byteReverse_one] at h
  rw [← h]
  have hlow : (low 8 v).setWidth 16 <<< 8 = v <<< 8 := by
    apply BitVec.eq_of_getLsbD_eq
    intro i hi
    simp only [low, BitVec.getLsbD_shiftLeft, BitVec.getLsbD_setWidth]
    by_cases hin : i < 8
    · simp [hin]
    · simp [hi, show i - 8 < 8 by omega, show i - 8 < 16 by omega]
  have hhigh : (high 8 v).setWidth 16 = v >>> 8 := by
    apply BitVec.eq_of_getLsbD_eq
    intro i hi
    by_cases hin : i < 8
    · simp [high, hi, hin]
    · simp [high, hin, BitVec.getLsbD_of_ge v (8 + i) (by omega)]
  unfold bswap16 join
  rw [hlow, hhigh]

theorem bswap32_eq (v : U32) : bswap32 v = byteReverse 4 v := by
  have h := join_byteReverse (w := 16) (v := 32) (n := 2) rfl rfl v
  rw [← bswap16_eq, ← bswap16_eq] at h
  exact h

theorem bswap64_eq (v : U64) : bswap64 v = byteReverse 8 v := by
  have h := join_byteReverse (w := 32) (v := 64) (n := 4) rfl rfl v
  rw [← bswap32_eq, ← bswap32_eq] at h
  exact h

/-! ## The interpreter's arms -/

theorem AluOp.ofCode?_code (o : AluOp) : AluOp.ofCode? o.code = some o := by
  cases o <;> rfl

theorem AluOp.code_injective {o o' : AluOp} (h : o.code = o'.code) : o = o' := by
  rw [← Option.some.injEq, ← AluOp.ofCode?_code o, ← AluOp.ofCode?_code o', h]

/-- The final truncation keeps the low word. -/
theorem aluTrunc_alu32 {i : EbpfInsn} (h : i.cls ≠ CLS_ALU64) (v : U64) :
    aluTrunc i v = (v.setWidth 32).setWidth 64 := by
  unfold aluTrunc
  rw [if_neg h]
  apply BitVec.eq_of_toNat_eq
  have hmask : (0xffffffff : U64).toNat = 2 ^ 32 - 1 := by decide
  rw [BitVec.toNat_and, hmask, Nat.and_two_pow_sub_one_eq_mod,
    BitVec.toNat_setWidth_of_le (by decide), BitVec.toNat_setWidth]

theorem aluShift_eq (is64 : Bool) (arg : U64) :
    aluShift is64 arg = if is64 then arg.toNat % 64 else (arg.setWidth 32).toNat % 32 := by
  unfold aluShift
  cases is64 with
  | true => exact Nat.and_two_pow_sub_one_eq_mod arg.toNat 6
  | false =>
    show (arg &&& 31).toNat = (arg.setWidth 32).toNat % 32
    rw [BitVec.toNat_and, BitVec.toNat_setWidth]
    exact (Nat.and_two_pow_sub_one_eq_mod arg.toNat 5).trans (by omega)

/-- The arms of the 64-bit class. -/
theorem aluSwitch_alu64 {o : AluOp} (ho : o.plain) (i : EbpfInsn) (v arg : U64) :
    aluSwitch true o i v arg = .ok (.val (o.apply v arg)) := by
  cases o <;> simp_all [aluSwitch, AluOp.apply, AluOp.plain, aluShift_eq]

/-- A 64-bit arithmetic shift of the sign-extended low word, cut to 32 bits. -/
theorem sshiftRight_signExtend (a : U32) {n : Nat} (hn : n < 32) :
    ((a.signExtend 64).sshiftRight n).setWidth 32 = a.sshiftRight n := by
  apply BitVec.eq_of_getLsbD_eq
  intro i hi
  rw [BitVec.getLsbD_setWidth, BitVec.getLsbD_sshiftRight, BitVec.getLsbD_sshiftRight,
    BitVec.getLsbD_signExtend]
  by_cases hin : n + i < 32
  · simp [hi, hin, show ¬ 64 ≤ i by omega, show ¬ 32 ≤ i by omega, show n + i < 64 by omega]
  · simp [hi, hin, show ¬ 64 ≤ i by omega, show ¬ 32 ≤ i by omega, show n + i < 64 by omega]

theorem setWidth_signExtend (a : U32) : (a.signExtend 64).setWidth 32 = a := by
  simpa using sshiftRight_signExtend a (n := 0) (by decide)

/-- The arms of the 32-bit class, after the truncation: the operation on
    the low words. -/
theorem aluSwitch_alu32 {o : AluOp} (ho : o.plain) (i : EbpfInsn) (v arg : U64) :
    ∃ x, aluSwitch false o i v arg = .ok (.val x) ∧
      x.setWidth 32 = o.apply (v.setWidth 32) (arg.setWidth 32) := by
  have hback : ∀ y : U32, (y.setWidth 64).setWidth 32 = y := by
    intro y
    simp
  have hshift : aluShift false arg = (arg.setWidth 32).toNat % 32 := aluShift_eq false arg
  cases o with
  | div | mod | «end» => simp [AluOp.plain] at ho
  | lsh | rsh =>
    refine ⟨_, rfl, ?_⟩
    rw [hshift]
    exact hback _
  | arsh =>
    refine ⟨_, rfl, ?_⟩
    rw [hshift]
    exact sshiftRight_signExtend _ (Nat.mod_lt _ (by decide))
  | sub =>
    refine ⟨_, rfl, ?_⟩
    rw [BitVec.sub_eq_add_neg, BitVec.setWidth_add _ _ (by decide),
      BitVec.setWidth_neg_of_le (by decide)]
    exact (BitVec.sub_eq_add_neg _ _).symm
  | neg => exact ⟨_, rfl, BitVec.setWidth_neg_of_le (by decide)⟩
  | add => exact ⟨_, rfl, BitVec.setWidth_add _ _ (by decide)⟩
  | mul => exact ⟨_, rfl, BitVec.setWidth_mul _ _ (by decide)⟩
  | or => exact ⟨_, rfl, BitVec.setWidth_or⟩
  | and => exact ⟨_, rfl, BitVec.setWidth_and⟩
  | xor => exact ⟨_, rfl, BitVec.setWidth_xor⟩
  | mov => exact ⟨_, rfl, rfl⟩

/-! ## What a turn leaves -/

/-- After an ALU instruction that left `v` in `dst`: nothing else has
    changed but the program counter and the step counters. -/
def EbpfState.wrote (m : EbpfState) (dst : Fin 11) (v : U64) : EbpfState where
  regs := m.regs.set dst v
  pc := m.pc + 1
  steps := m.steps + 1
  insnsExecuted := m.insnsExecuted + 1
  map := m.map

section Turn
variable {undef : CExpr → U64} {p : EbpfProg} {m : EbpfState} {dst src : Fin 11} {i : EbpfInsn}
  {o : AluOp} {regs : RegFile}

/-- The arm of `switch (op)` that an operation takes. -/
theorem aluExpr_arm (ho : i.op = o.code) (hdst : dst ≠ 10) :
    aluExpr i dst src regs =
      aluSwitch (i.cls = CLS_ALU64) o i (if o = .mov then 0 else regs dst) (aluArg i src regs) := by
  have hmov : (i.op = AluOp.mov.code) = (o = .mov) := by
    rw [ho]
    exact propext ⟨AluOp.code_injective, fun h => by rw [h]⟩
  unfold aluExpr
  dsimp only
  rw [if_neg hdst, ho, AluOp.ofCode?_code, ← ho]
  simp only [hmov]

/-- The operand, for the operations that observe it. -/
theorem aluArg_operand (ho : i.op = o.code) (hneg : o ≠ .neg) (hend : o ≠ .end) :
    (i.cls = CLS_ALU64 → aluArg i src regs = operand 64 i src regs) ∧
      (aluArg i src regs).setWidth 32 = operand 32 i src regs := by
  have hobs : i.op ≠ AluOp.neg.code ∧ i.op ≠ AluOp.end.code := by
    rw [ho]
    exact ⟨fun h => hneg (AluOp.code_injective h), fun h => hend (AluOp.code_injective h)⟩
  unfold aluArg operand
  rw [if_pos hobs]
  by_cases hx : i.srcX = true
  · simp [hx]
  · simp only [hx]
    by_cases h64 : i.cls = CLS_ALU64
    · simp [h64, setWidth_signExtend]
    · simp [h64]

/-- An operation on two words, at the width of its class. -/
theorem aluExpr_plain (ho : i.op = o.code) (hplain : o.plain) (hdst : dst ≠ 10) :
    ∃ x, aluExpr i dst src regs = .ok (.val x) ∧ aluTrunc i x = aluResult o i dst src regs := by
  have hend : o ≠ .end := by
    rintro rfl
    simp [AluOp.plain] at hplain
  -- `neg` ignores its operand and `mov` what `dst` held
  have hleft : ∀ {w : Nat} (a : BitVec w) (b : BitVec w),
      o.apply (if o = .mov then 0 else a) b = o.apply a b := by
    intro w a b
    by_cases hmov : o = .mov
    · subst hmov
      rfl
    · rw [if_neg hmov]
  have hright : ∀ {w : Nat} (a b c : BitVec w), (o ≠ .neg → b = c) → o.apply a b = o.apply a c := by
    intro w a b c hbc
    by_cases hneg : o = .neg
    · subst hneg
      rfl
    · rw [hbc hneg]
  rw [aluExpr_arm ho hdst]
  unfold aluResult
  rw [if_neg hend]
  by_cases h64 : i.cls = CLS_ALU64
  · refine ⟨_, by rw [decide_eq_true h64, aluSwitch_alu64 hplain], ?_⟩
    unfold aluTrunc
    rw [if_pos h64, if_pos h64, hleft]
    exact hright _ _ _ fun hneg => (aluArg_operand ho hneg hend).1 h64
  · obtain ⟨x, hx, hlow⟩ := aluSwitch_alu32 hplain i (if o = .mov then 0 else regs dst)
      (aluArg i src regs)
    refine ⟨x, by rw [decide_eq_false h64, hx], ?_⟩
    rw [aluTrunc_alu32 h64, if_neg h64, hlow]
    have hzero : (if o = .mov then 0 else regs dst).setWidth 32 =
        if o = .mov then 0 else (regs dst).setWidth 32 := by
      split <;> rfl
    rw [hzero, hleft, hright _ _ _ fun hneg => (aluArg_operand ho hneg hend).2]

/-- The byte swap, before the truncation. -/
theorem aluExpr_swap (ho : i.op = AluOp.end.code) (hx : i.srcX) (hdst : dst ≠ 10)
    (himm : i.imm = 16 ∨ i.imm = 32 ∨ i.imm = 64) :
    aluExpr i dst src regs = .ok (.val (byteReverse (i.imm.toNat / 8) (regs dst))) := by
  have hbit : i.opcode &&& 0x08 ≠ 0 := of_decide_eq_true hx
  have hnotMov : ¬ AluOp.end = AluOp.mov := by decide
  rw [aluExpr_arm ho hdst]
  unfold aluSwitch
  dsimp only
  rw [if_pos hbit, if_neg hnotMov]
  rcases himm with h | h | h
  · have h16 : (i.imm.setWidth 8 : U8) = 16 := by rw [h]; decide
    have hswap := setWidth_byteReverse (w := 16) (n := 2) (by decide) (regs dst)
    rw [if_pos h16, bswap16_eq, hswap, h]
    rfl
  · have h16 : (i.imm.setWidth 8 : U8) ≠ 16 := by rw [h]; decide
    have h32 : (i.imm.setWidth 8 : U8) = 32 := by rw [h]; decide
    have hswap := setWidth_byteReverse (w := 32) (n := 4) (by decide) (regs dst)
    rw [if_neg h16, if_pos h32, bswap32_eq, hswap, h]
    rfl
  · have h16 : (i.imm.setWidth 8 : U8) ≠ 16 := by rw [h]; decide
    have h32 : (i.imm.setWidth 8 : U8) ≠ 32 := by rw [h]; decide
    have h64 : (i.imm.setWidth 8 : U8) = 64 := by rw [h]; decide
    rw [if_neg h16, if_neg h32, if_pos h64, bswap64_eq, h]
    rfl

end Turn

/-! ## Admitted instructions -/

/-- The turn at `m` executes an ALU instruction that passed the scan, other
    than a division, into one of `r0 .. r9`. -/
structure AdmittedAlu (p : EbpfProg) (m : EbpfState) (dst src : Fin 11) : Prop where
  scanned : scanInsn (p.ins m.pc.toNat) m.pc.toNat p.insnCnt.toNat
  cls : (p.insnAt m.pc).cls = CLS_ALU64 ∨ (p.insnAt m.pc).cls = CLS_ALU
  not_div : (p.insnAt m.pc).op ≠ AluOp.div.code
  not_mod : (p.insnAt m.pc).op ≠ AluOp.mod.code
  dst_eq : dst.val = (p.insnAt m.pc).dst.toNat
  src_eq : src.val = (p.insnAt m.pc).src.toNat
  dst_le : dst.val ≤ 9

/-- The instruction does what the instruction set says, and a byte swap
    repeated gives back what fits in its width. -/
structure AluConforms (undef : CExpr → U64) (p : EbpfProg) (m : EbpfState) (dst src : Fin 11) :
    Prop where
  result : ∃ o : AluOp, (p.insnAt m.pc).op = o.code ∧ fetchExec undef p m =
    .inl (m.wrote dst (aluResult o (p.insnAt m.pc) dst src m.regs))
  swapsBack : (p.insnAt m.pc).op = AluOp.end.code →
    (m.regs dst).toNat < 2 ^ (p.insnAt m.pc).imm.toNat →
    ∀ m₁, fetchExec undef p m = .inl m₁ →
      ∃ m₂, fetchExec undef p { m₁ with pc := m.pc } = .inl m₂ ∧ m₂.regs dst = m.regs dst

/-- A 64-bit byte swap in the 32-bit class. -/
def TruncatedSwap (i : EbpfInsn) : Prop :=
  i.cls = CLS_ALU ∧ i.op = AluOp.end.code ∧ i.imm = 64

theorem opcodeKnown_end (op : U8) : opcodeKnown op → isAluCls (op &&& 0x07) →
    op &&& 0xf0 = 0xd0 → op &&& 0x08 ≠ 0 := by
  revert op; decide +kernel

section Admitted
variable {undef : CExpr → U64} {p : EbpfProg} {m : EbpfState} {dst src : Fin 11}

theorem AdmittedAlu.isAlu (h : AdmittedAlu p m dst src) : isAluCls (insnCls (p.ins m.pc.toNat)) :=
  (isAluCls_iff _).mpr h.cls

theorem AdmittedAlu.operation (h : AdmittedAlu p m dst src) :
    ∃ o : AluOp, (p.insnAt m.pc).op = o.code := by
  have hknown := opcodeKnown_alu _ (scanInsn_admitted h.scanned).known h.isAlu
  obtain ⟨o, ho⟩ := Option.ne_none_iff_exists'.mp hknown
  exact ⟨o, (AluOp.code_of_ofCode? ho).symm⟩

/-- The scan admits three widths. -/
theorem AdmittedAlu.swapWidth (h : AdmittedAlu p m dst src)
    (ho : (p.insnAt m.pc).op = AluOp.end.code) :
    (p.insnAt m.pc).srcX ∧ ((p.insnAt m.pc).imm = 16 ∨ (p.insnAt m.pc).imm = 32 ∨
      (p.insnAt m.pc).imm = 64) := by
  have hadm := scanInsn_admitted h.scanned
  have hx : insnSrcX (p.ins m.pc.toNat) := decide_eq_true (opcodeKnown_end _ hadm.known h.isAlu ho)
  have himm : ∀ k : U64, p.ins m.pc.toNat >>> 32 = k →
      (p.insnAt m.pc).imm = (k &&& 0xffffffff).setWidth 32 := by
    rintro k rfl
    rfl
  refine ⟨hx, ?_⟩
  rcases hadm.swapSize h.isAlu ho hx with hk | hk | hk
  · exact .inl (himm 16 hk)
  · exact .inr (.inl (himm 32 hk))
  · exact .inr (.inr (himm 64 hk))

/-- They are whole bytes. -/
theorem AdmittedAlu.swapBytes (h : AdmittedAlu p m dst src)
    (ho : (p.insnAt m.pc).op = AluOp.end.code) :
    8 * ((p.insnAt m.pc).imm.toNat / 8) = (p.insnAt m.pc).imm.toNat ∧
      (p.insnAt m.pc).imm.toNat ≤ 64 := by
  rcases (h.swapWidth ho).2 with himm | himm | himm
  · rw [himm]
    decide
  · rw [himm]
    decide
  · rw [himm]
    decide

/-- A turn writes the expression of its arm, truncated, and nothing else. -/
theorem AdmittedAlu.writes (h : AdmittedAlu p m dst src) {x : U64}
    (hx : aluExpr (p.insnAt m.pc) dst src m.regs = .ok (.val x)) :
    fetchExec undef p m = .inl (m.wrote dst (aluTrunc (p.insnAt m.pc) x)) := by
  have hfields : (p.insnAt m.pc).dst.toNat < 11 ∧ (p.insnAt m.pc).src.toNat < 11 := by
    rw [← h.dst_eq, ← h.src_eq]
    exact ⟨dst.isLt, src.isLt⟩
  have hdst : (⟨(p.insnAt m.pc).dst.toNat, hfields.1⟩ : Fin 11) = dst := Fin.ext h.dst_eq.symm
  have hsrc : (⟨(p.insnAt m.pc).src.toNat, hfields.2⟩ : Fin 11) = src := Fin.ext h.src_eq.symm
  unfold fetchExec execInsn aluStep
  simp only [dif_pos hfields, hdst, hsrc, if_pos h.cls, hx]
  rfl

/-- The same instruction, whatever the registers hold. -/
theorem AdmittedAlu.again (h : AdmittedAlu p m dst src) (m₁ : EbpfState) :
    AdmittedAlu p { m₁ with pc := m.pc } dst src :=
  ⟨h.scanned, h.cls, h.not_div, h.not_mod, h.dst_eq, h.src_eq, h.dst_le⟩

theorem AdmittedAlu.dst_ne (h : AdmittedAlu p m dst src) : dst ≠ 10 := by
  rintro rfl
  exact absurd h.dst_le (by decide)

/-- The value a byte swap writes. -/
theorem AdmittedAlu.swaps (h : AdmittedAlu p m dst src)
    (ho : (p.insnAt m.pc).op = AluOp.end.code) :
    fetchExec undef p m = .inl (m.wrote dst
      (aluTrunc (p.insnAt m.pc) (byteReverse ((p.insnAt m.pc).imm.toNat / 8) (m.regs dst)))) :=
  h.writes (aluExpr_swap ho (h.swapWidth ho).1 h.dst_ne (h.swapWidth ho).2)

/-- Outside the one bad instruction the truncation keeps the swapped bytes. -/
theorem AdmittedAlu.aluTrunc_swap (h : AdmittedAlu p m dst src)
    (ho : (p.insnAt m.pc).op = AluOp.end.code) (hgood : ¬ TruncatedSwap (p.insnAt m.pc)) (v : U64) :
    aluTrunc (p.insnAt m.pc) (byteReverse ((p.insnAt m.pc).imm.toNat / 8) v) =
      byteReverse ((p.insnAt m.pc).imm.toNat / 8) v := by
  by_cases h64 : (p.insnAt m.pc).cls = CLS_ALU64
  · exact if_pos h64
  · have hcls : (p.insnAt m.pc).cls = CLS_ALU := h.cls.resolve_left h64
    have hwidth : (p.insnAt m.pc).imm = 16 ∨ (p.insnAt m.pc).imm = 32 := by
      rcases (h.swapWidth ho).2 with himm | himm | himm
      · exact .inl himm
      · exact .inr himm
      · exact absurd ⟨hcls, ho, himm⟩ hgood
    have hbytes : 8 * ((p.insnAt m.pc).imm.toNat / 8) ≤ 32 := by
      rcases hwidth with himm | himm <;> rw [himm] <;> decide
    have hlow : ∀ y : U32, ((y.setWidth 64).setWidth 32).setWidth 64 = y.setWidth 64 := by
      intro y
      simp
    rw [aluTrunc_alu32 h64, ← setWidth_byteReverse (w := 32) hbytes v, hlow]

/-- The bad instruction forgets everything in two turns. -/
theorem aluTrunc_swap_swap {i : EbpfInsn} (h : TruncatedSwap i) (v : U64) :
    aluTrunc i (byteReverse 8 (aluTrunc i v)) = 0 := by
  have h64 : i.cls ≠ CLS_ALU64 := by
    rw [h.1]
    decide
  rw [aluTrunc_alu32 h64, aluTrunc_alu32 h64]
  apply BitVec.eq_of_getLsbD_eq
  intro k hk
  rw [BitVec.getLsbD_setWidth, BitVec.getLsbD_setWidth, getLsbD_byteReverse _ _ hk,
    BitVec.getLsbD_setWidth]
  by_cases hlow : k < 32
  · -- the swap brings in the upper half, which the truncation has cleared
    have hupper : 32 ≤ 8 * (8 - 1 - k / 8) + k % 8 := by omega
    simp [BitVec.getLsbD_of_ge _ _ hupper]
  · simp [hlow]

theorem aluTrunc_zero (i : EbpfInsn) : aluTrunc i 0 = 0 := by
  unfold aluTrunc
  split
  · rfl
  · rfl

/-- A byte swap that loses nothing, of `dst` and of its result. -/
theorem AdmittedAlu.swap_keeps (h : AdmittedAlu p m dst src)
    (ho : (p.insnAt m.pc).op = AluOp.end.code)
    (hcond : ¬ TruncatedSwap (p.insnAt m.pc) ∨ m.regs dst = 0) :
    ∃ v, v = byteReverse ((p.insnAt m.pc).imm.toNat / 8) (m.regs dst) ∧
      aluTrunc (p.insnAt m.pc) v = v ∧
      aluTrunc (p.insnAt m.pc) (byteReverse ((p.insnAt m.pc).imm.toNat / 8) v) =
        byteReverse ((p.insnAt m.pc).imm.toNat / 8) v := by
  refine ⟨_, rfl, ?_⟩
  rcases hcond with hgood | hzero
  · exact ⟨h.aluTrunc_swap ho hgood _, h.aluTrunc_swap ho hgood _⟩
  · simp only [hzero, byteReverse_zero, aluTrunc_zero, and_self]

/-- Twice the same swap. -/
theorem AdmittedAlu.swapsBack (h : AdmittedAlu p m dst src)
    (ho : (p.insnAt m.pc).op = AluOp.end.code)
    (hcond : ¬ TruncatedSwap (p.insnAt m.pc) ∨ m.regs dst = 0)
    (hfits : (m.regs dst).toNat < 2 ^ (p.insnAt m.pc).imm.toNat) {m₁ : EbpfState}
    (h₁ : fetchExec undef p m = .inl m₁) :
    ∃ m₂, fetchExec undef p { m₁ with pc := m.pc } = .inl m₂ ∧ m₂.regs dst = m.regs dst := by
  obtain ⟨v, hv, honce, htwice⟩ := h.swap_keeps ho hcond
  obtain ⟨hwidth, hle⟩ := h.swapBytes ho
  have hback : byteReverse ((p.insnAt m.pc).imm.toNat / 8) v = m.regs dst := by
    rw [hv]
    exact byteReverse_byteReverse (by omega) (by rwa [hwidth])
  rw [h.swaps ho, ← hv, honce] at h₁
  obtain rfl : m.wrote dst v = m₁ := Sum.inl.inj h₁
  refine ⟨_, (h.again _).swaps ho, ?_⟩
  have hheld : (m.wrote dst v).regs dst = v := RegFile.set_self _ _ _
  show RegFile.set _ dst _ dst = m.regs dst
  rw [RegFile.set_self]
  show aluTrunc _ (byteReverse _ ((m.wrote dst v).regs dst)) = m.regs dst
  rw [hheld, htwice, hback]

/-- **ALU conformance.** An admitted ALU instruction other than a division
    does what the instruction set says exactly when it is not a 64-bit byte
    swap of the 32-bit class, or swaps zero. -/
theorem aluConforms_iff (undef : CExpr → U64) (h : AdmittedAlu p m dst src) :
    AluConforms undef p m dst src ↔ ¬ TruncatedSwap (p.insnAt m.pc) ∨ m.regs dst = 0 := by
  constructor
  · rintro ⟨_, hback⟩
    by_cases hbad : TruncatedSwap (p.insnAt m.pc)
    · -- the second swap leaves zero, so zero is what `dst` held
      have ho := hbad.2.1
      have hfits : (m.regs dst).toNat < 2 ^ (p.insnAt m.pc).imm.toNat := by
        rw [hbad.2.2]
        exact (m.regs dst).isLt
      obtain ⟨m₂, hturn, hval⟩ := hback ho hfits _ (h.swaps ho)
      have hagain : ∀ m₁ : EbpfState, fetchExec undef p { m₁ with pc := m.pc } = .inl m₂ →
          EbpfState.wrote { m₁ with pc := m.pc } dst (aluTrunc (p.insnAt m.pc)
            (byteReverse ((p.insnAt m.pc).imm.toNat / 8) (m₁.regs dst))) = m₂ := by
        intro m₁ hturn₁
        exact Sum.inl.inj (((h.again m₁).swaps ho).symm.trans hturn₁)
      obtain rfl := hagain _ hturn
      right
      rw [← hval]
      show RegFile.set _ dst _ dst = 0
      rw [RegFile.set_self]
      show aluTrunc _ (byteReverse _ (RegFile.set _ dst _ dst)) = 0
      rw [RegFile.set_self, hbad.2.2]
      exact aluTrunc_swap_swap hbad _
    · exact .inl hbad
  · intro hcond
    obtain ⟨o, ho⟩ := h.operation
    refine ⟨⟨o, ho, ?_⟩, fun hswap hfits _ h₁ => h.swapsBack hswap hcond hfits h₁⟩
    by_cases hend : o = .end
    · subst hend
      obtain ⟨v, hv, honce, _⟩ := h.swap_keeps ho hcond
      rw [h.swaps ho, ← hv, honce, hv]
      rfl
    · have hplain : o.plain := by
        have hdiv : o ≠ .div := fun hd => h.not_div (by rw [ho, hd])
        have hmod : o ≠ .mod := fun hm => h.not_mod (by rw [ho, hm])
        exact decide_eq_true ⟨hdiv, hmod, hend⟩
      obtain ⟨x, hx, hresult⟩ : ∃ x, aluExpr (p.insnAt m.pc) dst src m.regs = .ok (.val x) ∧
          aluTrunc (p.insnAt m.pc) x = aluResult o (p.insnAt m.pc) dst src m.regs :=
        aluExpr_plain ho hplain h.dst_ne
      rw [h.writes hx, hresult]

end Admitted

/-- The 64-bit byte swap of `r0` in the 32-bit class, and `exit`. -/
def shortSwap : EbpfProg where
  ins := fun k => if k = 0 then 0x00000040000000dc else 0x95
  insnCnt := 2
  mem := fun _ => 0
  ctx := 0x1000
  ctxSize := 16
  maxSteps := 64
  map := some fun _ => 0
  mapCells := 4

/-- Before its first turn, with `x` in `r0`. -/
def shortSwapEntry (x : U64) : EbpfState :=
  ebpfEntry shortSwap ((entryRegs shortSwap).set 0 x)

theorem shortSwap_admitted (x : U64) : AdmittedAlu shortSwap (shortSwapEntry x) 0 0 := by
  have hadm : AdmittedAlu shortSwap (shortSwapEntry 0) 0 0 :=
    ⟨by decide, .inr (by decide), by decide, by decide, rfl, rfl, by decide⟩
  exact ⟨hadm.scanned, hadm.cls, hadm.not_div, hadm.not_mod, hadm.dst_eq, hadm.src_eq, hadm.dst_le⟩

/-- `r0 += 5`, and `exit`. -/
def shortAdd : EbpfProg :=
  { shortSwap with ins := fun k => if k = 0 then 0x0000000500000007 else 0x95 }

theorem shortAdd_admitted (x : U64) : AdmittedAlu shortAdd (shortSwapEntry x) 0 0 := by
  have hadm : AdmittedAlu shortAdd (shortSwapEntry 0) 0 0 :=
    ⟨by decide, .inl (by decide), by decide, by decide, rfl, rfl, by decide⟩
  exact ⟨hadm.scanned, hadm.cls, hadm.not_div, hadm.not_mod, hadm.dst_eq, hadm.src_eq, hadm.dst_le⟩

/-- The swap of zero conforms, that of one does not, and an addition does
    whatever it adds to. -/
theorem aluConforms_iff_shortSwap :
    AluConforms (fun _ => 0) shortSwap (shortSwapEntry 0) 0 0 ∧
      ¬ AluConforms (fun _ => 0) shortSwap (shortSwapEntry 1) 0 0 ∧
      AluConforms (fun _ => 0) shortAdd (shortSwapEntry 1) 0 0 := by
  refine ⟨(aluConforms_iff _ (shortSwap_admitted 0)).mpr (.inr (by decide)), fun h => ?_,
    (aluConforms_iff _ (shortAdd_admitted 1)).mpr (.inl fun h => absurd h.1 (by decide))⟩
  rcases (aluConforms_iff _ (shortSwap_admitted 1)).mp h with hswap | hzero
  · exact hswap ⟨by decide, by decide, by decide⟩
  · exact absurd hzero (by decide)

/-- `bswap64` of one is `2 ^ 56`, of which the truncation leaves nothing. -/
theorem shortSwap_loses : ¬ AluConforms (fun _ => 0) shortSwap (shortSwapEntry 1) 0 0 := by
  rintro ⟨⟨o, ho, hresult⟩, _⟩
  have hswap : (shortSwap.insnAt (shortSwapEntry 1).pc).op = AluOp.end.code := by decide
  have hturn := @AdmittedAlu.swaps (fun _ => 0) _ _ _ _ (shortSwap_admitted 1) hswap
  have hend : o = .end := AluOp.code_injective (ho.symm.trans hswap)
  rw [hturn, hend] at hresult
  have hval := congrArg (fun m => EbpfState.regs m 0) (Sum.inl.inj hresult)
  exact absurd hval (by decide)

end Interclus

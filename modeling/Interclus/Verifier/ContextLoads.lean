import Interclus.Verifier.Soundness

/-! # Context Loads

    The type gate's `T_CTX` denotes a value: wherever the verifier types a
    register as the context pointer, a run of an accepted image holds
    exactly `p.ctx` there.  So a load's bounds test is decided by its
    immediate offset alone. -/

namespace Interclus

open Words

/-! ## The context tag denotes the context pointer -/

/-- The context bit of a register's type; it is set in `T_CTX`. -/
def mayCtx (st : U32) (q : Nat) : Bool := (regType st q).getLsbD 1

/-- What a run of an accepted image preserves: registers whose type still
    has the context bit hold the context pointer. -/
structure CtxTyped (p : EbpfProg) (types : Nat → U32) (m : EbpfState) : Prop where
  pc_lt : m.pc.toNat < p.insnCnt.toNat
  regs : ∀ q : Fin 11, mayCtx (types m.pc.toNat) q.val → m.regs q = p.ctx

section Typed
variable {p : EbpfProg} {types : Nat → U32}

/-- A register that may be the context pointer at a successor was not
    written, and may be it here. -/
theorem RegSolution.mayCtx_succ (sol : RegSolution p.ins p.insnCnt.toNat types) {pc pc' : U32}
    (hpc : pc.toNat < p.insnCnt.toNat) (hsucc : pc' ∈ insnSucc (p.ins pc.toNat) pc) {q : Fin 11}
    (hq : mayCtx (types pc'.toNat) q.val) :
    hasReg (insnWrites (p.ins pc.toNat)) q.val = false ∧ mayCtx (types pc.toNat) q.val := by
  have hflow := sol.flows pc.toNat hpc pc' (by rwa [BitVec.ofNat_toNat, BitVec.setWidth_eq])
  unfold mayCtx at hq
  rw [← hflow, regType_and, regType_outState _ _ q.isLt, BitVec.getLsbD_and, Bool.and_eq_true] at hq
  cases hw : hasReg (insnWrites (p.ins pc.toNat)) q.val with
  | false =>
    rw [hw, if_neg (by decide)] at hq
    exact ⟨rfl, hq.2⟩
  | true =>
    -- a write leaves `T_SCALAR`, which has no context bit
    rw [hw, if_pos rfl] at hq
    exact absurd hq.2 (by decide)

/-- At the entry only `r1` may be the context pointer. -/
theorem RegSolution.mayCtx_entry (sol : RegSolution p.ins p.insnCnt.toNat types) {q : Fin 11}
    (hq : mayCtx (types 0) q.val) : q = 1 := by
  by_contra hne
  have hval : q.val ≠ 1 := fun h => hne (Fin.ext h)
  unfold mayCtx at hq
  rw [← sol.entry, regType_and, regType_setType _ (by decide) (by decide) (by omega), if_neg hval,
    BitVec.getLsbD_and, Bool.and_eq_true] at hq
  have h0 : (regType 0 q.val).getLsbD 1 = false := by
    rw [regType_getLsbD]
    simp
  rw [h0] at hq
  exact absurd hq.2 (by decide)

/-- A step leaves the context pointer in every register typed as one. -/
theorem CtxTyped.step {undef : CExpr → U64} (sol : RegSolution p.ins p.insnCnt.toNat types)
    {m m' : EbpfState} (h : CtxTyped p types m) (hstep : ebpfStep undef p m = .inl m') :
    CtxTyped p types m' := by
  have hturn := (ebpfStep_inl hstep).2.2
  have hsucc := fetchExec_succ hturn
  refine ⟨sol.succ_lt m.pc.toNat h.pc_lt _ (by rwa [BitVec.ofNat_toNat, BitVec.setWidth_eq]), ?_⟩
  intro q hq
  obtain ⟨hw, hctx⟩ := sol.mayCtx_succ h.pc_lt hsucc hq
  rw [fetchExec_frame hturn hw]
  exact h.regs q hctx

/-- So it is there in every configuration a run visits. -/
theorem CtxTyped.of_visits {undef : CExpr → U64} (sol : RegSolution p.ins p.insnCnt.toNat types)
    (hcnt : 0 < p.insnCnt.toNat) {m : EbpfState} (hm : p.Visits undef m) : CtxTyped p types m := by
  refine hm.reaches.invariant (fun _ _ h hs => h.step sol hs) ⟨hcnt, fun q hq => ?_⟩
  rw [sol.mayCtx_entry hq]
  exact RegFile.set_self (fun _ => 0) 1 p.ctx

/-- A load's base register is typed as the context pointer. -/
theorem RegSolution.ldx_mayCtx (sol : RegSolution p.ins p.insnCnt.toNat types) {pc : Nat}
    (hpc : pc < p.insnCnt.toNat) (hcls : insnCls (p.ins pc) = CLS_LDX)
    (hsrc : (insnSrc (p.ins pc)).toNat < 11) : mayCtx (types pc) (insnSrc (p.ins pc)).toNat := by
  have hall := List.all_eq_true.mp (sol.reads pc hpc) _ (List.mem_range.mpr hsrc)
  have hread : hasReg (insnReads (p.ins pc)) (insnSrc (p.ins pc)).toNat = true := by
    rw [insnReads_ldx hcls, hasReg_regBit (by omega) (by omega)]
    simp
  simp only [hread, Bool.not_true, Bool.false_or, decide_eq_true_eq] at hall
  have hctx : regType (types pc) (insnSrc (p.ins pc)).toNat = T_CTX := by
    by_contra hne
    exact hall.2.1 ⟨hcls, hne⟩
  unfold mayCtx
  rw [hctx]
  rfl

end Typed

/-! ## The bounds test and the value -/

theorem ldxSize_cases (i : EbpfInsn) :
    ldxSize i = 1 ∨ ldxSize i = 2 ∨ ldxSize i = 4 ∨ ldxSize i = 8 := by
  have hall : ∀ op : U8, let szcode := (op >>> 3) &&& 3
      let size : U8 := if szcode = 0 then 4 else if szcode = 2 then 1 else 1#8 <<< szcode.toNat
      size = 1 ∨ size = 2 ∨ size = 4 ∨ size = 8 := by decide +kernel
  exact hall i.opcode

/-- The offset a load adds, sign-extended: the offset itself, or its
    distance below 2^64. -/
theorem toNat_signExtend_off (off : U16) :
    (off.signExtend 64).toNat =
      if off.toInt < 0 then 2 ^ 64 - (-off.toInt).toNat else off.toInt.toNat := by
  have hle := BitVec.toInt_lt (x := off)
  have hge := BitVec.le_toInt off
  have hint : (off.signExtend 64).toInt = off.toInt :=
    BitVec.toInt_signExtend_of_le (by decide)
  rw [BitVec.toInt_eq_toNat_cond] at hint
  have hlt := (off.signExtend 64).isLt
  split at hint <;> split <;> omega

/-- The 64-bit bounds test of a load off the context pointer is exact: a
    negative offset cannot wrap round to the context, which lies above the
    widest load and below 2^32. -/
theorem ldxOutOfBounds_iff {ctx : U64} {ctxSize : U32} (h8 : 8 ≤ ctx.toNat)
    (hfit : ctx.toNat + ctxSize.toNat ≤ 2 ^ 32) (off : U16) {size : U8} (hsize : size.toNat ≤ 8) :
    ldxOutOfBounds ctx ctxSize (ctx + off.signExtend 64) size ↔
      off.toInt < 0 ∨ (ctxSize.toNat : Int) < off.toInt + size.toNat := by
  have hoff := toNat_signExtend_off off
  have hle := BitVec.toInt_lt (x := off)
  have hge := BitVec.le_toInt off
  have hctx := ctx.isLt
  unfold ldxOutOfBounds
  rw [decide_eq_true_iff, BitVec.lt_def, BitVec.lt_def, BitVec.toNat_add, BitVec.toNat_add,
    BitVec.toNat_sub, BitVec.toNat_add, BitVec.toNat_setWidth, BitVec.toNat_setWidth]
  generalize (off.signExtend 64).toNat = k at hoff
  split at hoff <;> omega

/-- The value of bytes in little-endian order. -/
def leNat : List U8 → Nat
  | [] => 0
  | b :: bs => b.toNat + 256 * leNat bs

theorem leNat_lt (bs : List U8) : leNat bs < 256 ^ bs.length := by
  induction bs with
  | nil => decide
  | cons b bs ih =>
    have hb := b.isLt
    rw [leNat, List.length_cons, Nat.pow_succ]
    omega

/-- One more low byte: what `load_le` puts together byte by byte. -/
theorem leNat_cons_word (b : U8) {bs : List U8} (h : bs.length ≤ 7) :
    BitVec.ofNat 64 (leNat (b :: bs)) = b.setWidth 64 ||| BitVec.ofNat 64 (leNat bs) <<< 8 := by
  have hlt : leNat bs < 2 ^ 56 :=
    Nat.lt_of_lt_of_le (leNat_lt bs) (Nat.pow_le_pow_right (n := 256) (by decide) h)
  have hb := b.isLt
  apply BitVec.eq_of_toNat_eq
  rw [leNat, BitVec.toNat_or, BitVec.toNat_shiftLeft, BitVec.toNat_ofNat, BitVec.toNat_ofNat,
    BitVec.toNat_setWidth, Nat.mod_eq_of_lt (by omega), Nat.mod_eq_of_lt (a := b.toNat) (by omega),
    Nat.mod_eq_of_lt (a := leNat bs) (by omega), Nat.shiftLeft_eq, Nat.mod_eq_of_lt (by omega),
    Nat.or_comm, ← Nat.shiftLeft_eq, ← Nat.shiftLeft_add_eq_or_of_lt hb, Nat.shiftLeft_eq]
  omega

/-- Bytes put together from the low one up. -/
def leWord : List U8 → U64
  | [] => 0
  | b :: bs => b.setWidth 64 ||| leWord bs <<< 8

theorem leWord_eq {bs : List U8} (h : bs.length ≤ 8) : leWord bs = BitVec.ofNat 64 (leNat bs) := by
  induction bs with
  | nil => rfl
  | cons b bs ih =>
    rw [List.length_cons] at h
    rw [leNat_cons_word b (by omega), leWord, ih (by omega)]

/-- `size` bytes from an address. -/
def bytesFrom (mem : U64 → U8) (addr : U64) (size : Nat) : List U8 :=
  (List.range size).map fun k => mem (addr + BitVec.ofNat 64 k)

/-- `load_le` reads the little-endian value. -/
theorem loadLe_eq (mem : U64 → U8) (addr : U64) {size : U8}
    (h : size = 1 ∨ size = 2 ∨ size = 4 ∨ size = 8) :
    loadLe mem addr size = BitVec.ofNat 64 (leNat (bytesFrom mem addr size.toNat)) := by
  have hsize : size.toNat ≤ 8 := by
    rcases h with rfl | rfl | rfl | rfl <;> decide
  rw [← leWord_eq (by simpa [bytesFrom] using hsize)]
  -- the shifts of the tail distribute over its bytes
  rcases h with rfl | rfl | rfl | rfl <;>
    simp [loadLe, bytesFrom, leWord, List.range_succ, BitVec.shiftLeft_or_distrib,
      ← BitVec.shiftLeft_add, BitVec.or_assoc]

/-! ## Loads of an accepted image -/

/-- A load executes: the run is at it, within its step cap. -/
structure EbpfProg.ExecutesLdx (undef : CExpr → U64) (p : EbpfProg) (m : EbpfState) : Prop where
  visits : p.Visits undef m
  steps_le : m.steps + 1 ≤ p.maxSteps
  ldx : (p.insnAt m.pc).cls = CLS_LDX

/-- The bytes `ctx[off .. off + size)`. -/
def EbpfProg.ctxBytes (p : EbpfProg) (off size : Nat) : List U8 :=
  bytesFrom p.mem (p.ctx + BitVec.ofNat 64 off) size

/-- The bytes a load asks for do not lie in the context. -/
def OutsideCtx (ctxSize : U32) (i : EbpfInsn) : Prop :=
  i.off.toInt < 0 ∨ (ctxSize.toNat : Int) < i.off.toInt + (ldxSize i).toNat

/-- A load of an accepted image passes every check but the bounds test. -/
theorem EbpfProg.ExecutesLdx.step_eq {undef : CExpr → U64} {p : EbpfProg} {m : EbpfState}
    (h : p.ExecutesLdx undef m) (hacc : Accepted p.ins p.insnCnt) :
    ∃ (hd : (p.insnAt m.pc).dst.toNat < 11) (hs : (p.insnAt m.pc).src.toNat < 11),
      m.regs ⟨_, hs⟩ = p.ctx ∧
      ebpfStep undef p m =
        if ldxOutOfBounds p.ctx p.ctxSize (p.ctx + (p.insnAt m.pc).off.signExtend 64)
          (ldxSize (p.insnAt m.pc)) then m.fetched.fault .mem
        else m.fetched.advance (m.regs.set ⟨_, hd⟩
          (loadLe p.mem (p.ctx + (p.insnAt m.pc).off.signExtend 64) (ldxSize (p.insnAt m.pc)))) := by
  obtain ⟨types, sol⟩ := hacc.solution
  have htyped := CtxTyped.of_visits sol hacc.cnt_pos h.visits
  have hadm := hacc.admitted htyped.pc_lt
  have hcls : insnCls (p.ins m.pc.toNat) = CLS_LDX := h.ldx
  have hbase : m.regs ⟨(p.insnAt m.pc).src.toNat, hadm.src_lt⟩ = p.ctx :=
    htyped.regs _ (sol.ldx_mayCtx htyped.pc_lt hcls hadm.src_lt)
  refine ⟨hadm.dst_lt, hadm.src_lt, hbase, ?_⟩
  -- mode and registers: the scan and the types rule the fault out
  have hregs : ¬ ((p.insnAt m.pc).opcode &&& 0xe0 ≠ MODE_MEM ∨
      (⟨(p.insnAt m.pc).src.toNat, hadm.src_lt⟩ : Fin 11) = 10 ∨
      (⟨(p.insnAt m.pc).dst.toNat, hadm.dst_lt⟩ : Fin 11) = 10) := by
    rintro (hmode | hsrc | hdst)
    · exact hmode (opcodeKnown_ldx _ hadm.known hcls)
    · exact sol.ldx_src htyped.pc_lt hcls (congrArg Fin.val hsrc)
    · have hten : (insnDst (p.ins m.pc.toNat)).toNat = 10 := congrArg Fin.val hdst
      exact hadm.ldx_dst hcls (BitVec.eq_of_toNat_eq hten)
  have hne : ¬ (CLS_LDX = CLS_ALU64 ∨ CLS_LDX = CLS_ALU) ∧
      ¬ (CLS_LDX = CLS_JMP ∨ CLS_LDX = CLS_JMP32) := by decide
  have hpc : ¬ p.insnCnt ≤ m.pc := BitVec.not_le.mpr htyped.pc_lt
  unfold ebpfStep
  rw [if_neg hpc, if_neg (BitVec.not_lt.mpr h.steps_le)]
  unfold fetchExec
  dsimp only
  rw [dif_pos ⟨hadm.dst_lt, hadm.src_lt⟩]
  unfold execInsn
  rw [h.ldx, if_neg hne.1, if_neg hne.2, if_pos rfl]
  unfold ldxStep
  rw [if_neg hregs]
  unfold ldxAddr
  dsimp only
  rw [hbase]
  rfl

/-- **Context loads, exactly.** At every load a run of an accepted image
    executes, the base register holds the context pointer; the load faults
    when its bytes do not lie in the context, and only then, and otherwise
    loads their little-endian value. -/
theorem ldx_exact (undef : CExpr → U64) (p : EbpfProg)
    (hcheck : icProgramCheck (some p.ins) p.insnCnt = .ok) (h8 : 8 ≤ p.ctx.toNat)
    (hfit : p.ctx.toNat + p.ctxSize.toNat ≤ 2 ^ 32) {m : EbpfState} (h : p.ExecutesLdx undef m) :
    let i := p.insnAt m.pc
    ∃ (hd : i.dst.toNat < 11) (hs : i.src.toNat < 11),
      m.regs ⟨i.src.toNat, hs⟩ = p.ctx ∧
      ((∃ r, ebpfStep undef p m = .inr r ∧ r.fault = .mem) ↔ OutsideCtx p.ctxSize i) ∧
      (¬ OutsideCtx p.ctxSize i →
        ebpfStep undef p m = m.fetched.advance (m.regs.set ⟨i.dst.toNat, hd⟩
          (BitVec.ofNat 64 (leNat (p.ctxBytes i.off.toInt.toNat (ldxSize i).toNat))))) := by
  intro i
  obtain ⟨hd, hs, hbase, hstep⟩ := h.step_eq (icProgramCheck_ok hcheck)
  have hcases := ldxSize_cases i
  have hsize : (ldxSize i).toNat ≤ 8 := by
    rcases hcases with h | h | h | h <;> rw [h] <;> decide
  have hbounds : ldxOutOfBounds p.ctx p.ctxSize (p.ctx + i.off.signExtend 64) (ldxSize i) ↔
      OutsideCtx p.ctxSize i := ldxOutOfBounds_iff h8 hfit i.off hsize
  refine ⟨hd, hs, hbase, ⟨fun ⟨r, hr, _⟩ => ?_, fun hout => ?_⟩, fun hin => ?_⟩
  · -- a load in bounds continues
    by_contra hin
    rw [hstep, if_neg (mt hbounds.mp hin)] at hr
    cases hr
  · rw [hstep, if_pos (hbounds.mpr hout)]
    exact ⟨_, rfl, rfl⟩
  · have hoff : i.off.signExtend 64 = BitVec.ofNat 64 i.off.toInt.toNat := by
      have hpos : ¬ i.off.toInt < 0 := fun hneg => hin (.inl hneg)
      apply BitVec.eq_of_toNat_eq
      have hlt := BitVec.toInt_lt (x := i.off)
      rw [toNat_signExtend_off, if_neg hpos, BitVec.toNat_ofNat]
      omega
    rw [hstep, if_neg (mt hbounds.mp hin), loadLe_eq _ _ hcases, hoff]
    rfl

/-- `r0 = *(u16 *)(r1 + 2); exit`, on a context of four bytes. -/
def halfRead : EbpfProg where
  ins := fun k => [0x0000000000021069, 0x95].getD k 0
  insnCnt := 2
  mem := fun a => a.setWidth 8
  ctx := 0x1000
  ctxSize := 4
  maxSteps := 16
  map := none
  mapCells := 0

/-- Its load, at the entry, reads the last two bytes of the context. -/
theorem ldx_exact_halfRead :
    let m := ebpfEntry halfRead (entryRegs halfRead)
    let i := halfRead.insnAt m.pc
    (∃ (hd : i.dst.toNat < 11) (hs : i.src.toNat < 11),
      m.regs ⟨i.src.toNat, hs⟩ = halfRead.ctx ∧
      ((∃ r, ebpfStep (fun _ => 0) halfRead m = .inr r ∧ r.fault = .mem) ↔
        OutsideCtx halfRead.ctxSize i) ∧
      (¬ OutsideCtx halfRead.ctxSize i →
        ebpfStep (fun _ => 0) halfRead m = m.fetched.advance (m.regs.set ⟨i.dst.toNat, hd⟩
          (BitVec.ofNat 64
            (leNat (halfRead.ctxBytes i.off.toInt.toNat (ldxSize i).toNat)))))) ∧
      leNat (halfRead.ctxBytes i.off.toInt.toNat (ldxSize i).toNat) = 0x0302 :=
  ⟨ldx_exact (fun _ => 0) halfRead (by decide +kernel) (by decide) (by decide)
    ⟨⟨by decide, by decide, .refl⟩, by decide, by decide⟩, by decide⟩

end Interclus

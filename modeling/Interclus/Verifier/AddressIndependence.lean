import Interclus.Verifier.Footprint

/-! # Independence of the Context Address

    Two runs of an accepted image on the same context bytes at different
    addresses proceed in lockstep, as long as no helper call and no
    conditional jump reads the context pointer.  The relation between the
    two runs: they differ in registers only, there in `r1` only, and `r1`
    differs only while it holds the context pointer and is not typed as a
    scalar. -/

namespace Interclus

open Words

/-- The same run with its memory and context elsewhere. -/
def EbpfProg.relocated (p : EbpfProg) (mem : U64 → U8) (ctx : U64) : EbpfProg :=
  { p with mem := mem, ctx := ctx }

/-- The same `ctx_size` bytes at both context addresses. -/
def EbpfProg.SameContext (p q : EbpfProg) : Prop :=
  ∀ k < p.ctxSize.toNat, q.mem (q.ctx + BitVec.ofNat 64 k) = p.mem (p.ctx + BitVec.ofNat 64 k)

/-- The context buffer lies above the widest load and below 2^32. -/
structure EbpfProg.CtxPlaced (p : EbpfProg) : Prop where
  low : 8 ≤ p.ctx.toNat
  high : p.ctx.toNat + p.ctxSize.toNat ≤ 2 ^ 32

/-- The configurations of a run in which `r1` still holds the context
    pointer: no instruction before has written it. -/
inductive EbpfProg.HoldsCtx (undef : CExpr → U64) (p : EbpfProg) : EbpfState → Prop where
  | entry : HoldsCtx undef p (ebpfEntry p (entryRegs p))
  | next : ∀ {m m'}, HoldsCtx undef p m → ebpfStep undef p m = .inl m' →
      hasReg (insnWrites (p.ins m.pc.toNat)) 1 = false → HoldsCtx undef p m'

/-- A helper call. -/
def EbpfInsn.IsCall (i : EbpfInsn) : Prop := i.cls = CLS_JMP ∧ i.op = JmpOp.call.code

/-- A conditional jump with `r1` among its operands. -/
structure EbpfInsn.TestsR1 (i : EbpfInsn) : Prop where
  cls : i.cls = CLS_JMP ∨ i.cls = CLS_JMP32
  cond : i.op ≠ JmpOp.ja.code ∧ i.op ≠ JmpOp.call.code ∧ i.op ≠ JmpOp.exit.code
  operand : i.dst = 1 ∨ i.srcX ∧ i.src = 1

/-- No call and no test of `r1` executes while it holds the context pointer. -/
def EbpfProg.KeepsCtx (undef : CExpr → U64) (p : EbpfProg) : Prop :=
  ∀ m, p.HoldsCtx undef m → m.pc < p.insnCnt → m.steps + 1 ≤ p.maxSteps →
    ¬ (p.insnAt m.pc).IsCall ∧ ¬ (p.insnAt m.pc).TestsR1

/-! ## Who reads `r1` -/

/-- A register is not typed as a scalar. -/
def nonScalar (st : U32) (q : Nat) : Bool := !(regType st q).getLsbD 0

theorem regType_eq_ctx {st : U32} {q : Nat} (hns : nonScalar st q) (hne : regType st q ≠ T_BOTTOM) :
    regType st q = T_CTX := by
  have h0 : st.getLsbD (2 * q) = false := by
    rw [nonScalar, regType_getLsbD] at hns
    simpa using hns
  rw [regType_eq_iff (by decide)]
  cases h1 : st.getLsbD (2 * q + 1) with
  | false => exact absurd ((regType_eq_iff (by decide) q).mpr ⟨h0, h1⟩) hne
  | true => exact ⟨h0, rfl⟩

/-- Only four kinds of instruction read `r1`. -/
theorem reads_r1_cases {e : U64} (hd : (insnDst e).toNat < 11) (hs : (insnSrc e).toNat < 11)
    (h : hasReg (insnReads e) 1) :
    isAluCls (insnCls e) ∨ isJmpCls (insnCls e) ∧ insnHi e = 0x80 ∨ (decodeInsn e).TestsR1 ∨
      insnCls e = CLS_LDX := by
  by_cases halu : isAluCls (insnCls e)
  · exact .inl halu
  by_cases hjmp : isJmpCls (insnCls e)
  · by_cases hexit : insnHi e = 0x90
    · rw [insnReads_exit hjmp hexit] at h
      exact absurd h (by decide)
    by_cases hcall : insnHi e = 0x80
    · exact .inr (.inl ⟨hjmp, hcall⟩)
    by_cases hja : insnHi e = 0x00
    · have hzero : insnReads e = 0 := by
        unfold insnReads
        simp only [halu, hjmp, if_neg hexit, if_neg hcall, if_pos hja]
        rfl
      rw [hzero, hasReg_zero] at h
      cases h
    -- a conditional jump reads its operands
    refine .inr (.inr (.inl ⟨(isJmpCls_iff _).mp hjmp, ⟨hja, hcall, hexit⟩, ?_⟩))
    rw [insnReads_jmp hjmp hexit hcall hja, hasReg_or _ _ (by omega),
      hasReg_regBit (by omega) (by omega), Bool.or_eq_true, decide_eq_true_iff] at h
    rcases h with h | h
    · exact .inl (BitVec.eq_of_toNat_eq h.symm)
    · right
      split at h
      · next hx =>
        rw [hasReg_regBit (by omega) (by omega), decide_eq_true_iff] at h
        exact ⟨hx, BitVec.eq_of_toNat_eq h.symm⟩
      · rw [hasReg_zero] at h
        cases h
  · right; right; right
    by_contra hldx
    have hzero : insnReads e = 0 := by
      unfold insnReads
      dsimp only
      rw [if_neg halu, if_neg hjmp]
      exact if_neg hldx
    rw [hzero, hasReg_zero] at h
    cases h

section Types
variable {p : EbpfProg} {types : Nat → U32}

/-- `r1` is not typed as a scalar until it is written. -/
theorem RegSolution.nonScalar_succ (sol : RegSolution p.ins p.insnCnt.toNat types) {pc pc' : U32}
    (hpc : pc.toNat < p.insnCnt.toNat) (hsucc : pc' ∈ insnSucc (p.ins pc.toNat) pc)
    (hw : hasReg (insnWrites (p.ins pc.toNat)) 1 = false) (h : nonScalar (types pc.toNat) 1) :
    nonScalar (types pc'.toNat) 1 := by
  have hflow := sol.flows pc.toNat hpc pc' (by rwa [BitVec.ofNat_toNat, BitVec.setWidth_eq])
  unfold nonScalar at h ⊢
  rw [← hflow, regType_and, regType_outState _ _ (show 1 < 11 by decide), hw,
    if_neg (by decide), BitVec.getLsbD_and, Bool.not_and, h, Bool.or_true]

theorem RegSolution.nonScalar_entry (sol : RegSolution p.ins p.insnCnt.toNat types) :
    nonScalar (types 0) 1 := by
  have hctx : T_CTX.getLsbD 0 = false := by decide
  unfold nonScalar
  rw [← sol.entry, regType_and, regType_setType _ (by decide) (show 1 < 16 by decide) (by decide),
    if_pos rfl, BitVec.getLsbD_and, hctx, Bool.and_false]
  rfl

/-- Only `r1` may be typed as the context pointer. -/
structure OnlyR1 (p : EbpfProg) (types : Nat → U32) (m : EbpfState) : Prop where
  pc_lt : m.pc.toNat < p.insnCnt.toNat
  ctx : ∀ q : Fin 11, mayCtx (types m.pc.toNat) q.val → q = 1

/-- In every configuration a run visits, only `r1` may be so typed. -/
theorem OnlyR1.of_visits (sol : RegSolution p.ins p.insnCnt.toNat types) {undef : CExpr → U64}
    (hcnt : 0 < p.insnCnt.toNat) {m : EbpfState} (hm : p.Visits undef m) : OnlyR1 p types m := by
  refine hm.reaches.invariant (fun m m' h hs => ?_) ⟨hcnt, fun q hq => sol.mayCtx_entry hq⟩
  have hsucc := fetchExec_succ (ebpfStep_inl hs).2.2
  refine ⟨?_, fun q hq => h.ctx q (sol.mayCtx_succ h.pc_lt hsucc hq).2⟩
  exact sol.succ_lt m.pc.toNat h.pc_lt _ (by rwa [BitVec.ofNat_toNat, BitVec.setWidth_eq])

end Types

/-! ## Lockstep -/

/-- The two runs side by side. -/
structure Beside (undef : CExpr → U64) (types : Nat → U32) (p q : EbpfProg)
    (m₁ m₂ : EbpfState) : Prop where
  here : p.Visits undef m₁
  there : q.Visits undef m₂
  regs : RegsRel (fun r => r ≠ 1) m₁ m₂
  /-- `r1` holds the pointer in both, or the same scalar. -/
  r1 : (p.HoldsCtx undef m₁ ∧ nonScalar (types m₁.pc.toNat) 1) ∨
    (m₁.regs 1 = m₂.regs 1 ∧ mayCtx (types m₁.pc.toNat) 1 = false)

section Lockstep
variable {undef : CExpr → U64} {p : EbpfProg} {mem : U64 → U8} {ctx : U64} {types : Nat → U32}

/-- Only a load depends on where the context is. -/
theorem execInsn_relocated {i : EbpfInsn} (hcls : i.cls ≠ CLS_LDX) (dst src : Fin 11)
    (m : EbpfState) :
    execInsn undef (p.relocated mem ctx) i dst src m = execInsn undef p i dst src m := by
  unfold execInsn
  rw [if_neg hcls, if_neg hcls]
  rfl

theorem fetchExec_relocated {m : EbpfState} (hcls : insnCls (p.ins m.pc.toNat) ≠ CLS_LDX) :
    fetchExec undef (p.relocated mem ctx) m = fetchExec undef p m := by
  have hi : (p.relocated mem ctx).insnAt m.pc = p.insnAt m.pc := rfl
  rw [fetchExec_eq, fetchExec_eq, hi]
  unfold execFields
  split
  · exact execInsn_relocated (i := p.insnAt m.pc) hcls _ _ _
  · rfl

/-- A load reads the same bytes in both runs. -/
theorem load_relocated (hsame : p.SameContext (p.relocated mem ctx)) {off : U16} {size : U8}
    (hsize : size = 1 ∨ size = 2 ∨ size = 4 ∨ size = 8)
    (hin : ¬ (off.toInt < 0 ∨ (p.ctxSize.toNat : Int) < off.toInt + size.toNat)) :
    loadLe mem (ctx + off.signExtend 64) size = loadLe p.mem (p.ctx + off.signExtend 64) size := by
  have hoff : off.signExtend 64 = BitVec.ofNat 64 off.toInt.toNat := by
    have hlt := BitVec.toInt_lt (x := off)
    apply BitVec.eq_of_toNat_eq
    rw [toNat_signExtend_off, if_neg (fun hneg => hin (.inl hneg)), BitVec.toNat_ofNat]
    omega
  have hassoc : ∀ (a : U64) (k : Nat), a + BitVec.ofNat 64 off.toInt.toNat + BitVec.ofNat 64 k =
      a + BitVec.ofNat 64 (off.toInt.toNat + k) := fun a k => by
    rw [BitVec.add_assoc, ← BitVec.ofNat_add]
  rw [loadLe_eq _ _ hsize, loadLe_eq _ _ hsize, hoff]
  have hbytes : bytesFrom mem (ctx + BitVec.ofNat 64 off.toInt.toNat) size.toNat =
      bytesFrom p.mem (p.ctx + BitVec.ofNat 64 off.toInt.toNat) size.toNat := by
    refine List.map_congr_left fun k hk => ?_
    have hk' := List.mem_range.mp hk
    rw [hassoc, hassoc]
    exact hsame _ (by omega)
  rw [hbytes]

/-- What holds of `r1` after a turn of both runs. -/
theorem Beside.next (sol : RegSolution p.ins p.insnCnt.toNat types) {m₁ m₂ m₁' m₂' : EbpfState}
    (h : Beside undef types p (p.relocated mem ctx) m₁ m₂)
    (h₁ : ebpfStep undef p m₁ = .inl m₁')
    (h₂ : ebpfStep undef (p.relocated mem ctx) m₂ = .inl m₂')
    (hrel : RegsRel (AgreeAfter (p.ins m₁.pc.toNat) m₁.regs m₂.regs) m₁' m₂') :
    Beside undef types p (p.relocated mem ctx) m₁' m₂' := by
  have hcnt : 0 < p.insnCnt.toNat := by
    have := h.here.cnt_pos
    bv_omega
  have hpc := (CtxTyped.of_visits sol hcnt h.here).pc_lt
  have hsucc := fetchExec_succ (ebpfStep_inl h₁).2.2
  refine ⟨⟨h.here.cnt_pos, h.here.cnt_le, h.here.reaches.next h₁⟩,
    ⟨h.there.cnt_pos, h.there.cnt_le, h.there.reaches.next h₂⟩,
    ⟨hrel.1, fun r hr => hrel.2 r (.inr (h.regs.2 r hr))⟩, ?_⟩
  cases hw : hasReg (insnWrites (p.ins m₁.pc.toNat)) 1 with
  | true =>
    -- overwritten with the same scalar in both runs
    refine .inr ⟨hrel.2 1 (.inl hw), ?_⟩
    cases hctx : mayCtx (types m₁'.pc.toNat) 1 with
    | false => rfl
    | true =>
      have hkept := (sol.mayCtx_succ (q := 1) hpc hsucc hctx).1
      rw [show (1 : Fin 11).val = 1 from rfl, hw] at hkept
      cases hkept
  | false =>
    rcases h.r1 with ⟨hholds, hns⟩ | ⟨heq, hctx⟩
    · exact .inl ⟨hholds.next h₁ hw, sol.nonScalar_succ hpc hsucc hw hns⟩
    · refine .inr ⟨hrel.2 1 (.inr heq), ?_⟩
      cases hctx' : mayCtx (types m₁'.pc.toNat) 1 with
      | false => rfl
      | true =>
        have hkept := (sol.mayCtx_succ (q := 1) hpc hsucc hctx').2
        rw [show (1 : Fin 11).val = 1 from rfl, hctx] at hkept
        cases hkept

/-- An instruction other than a load reads the same in both runs. -/
theorem Beside.agreeOn (hacc : Accepted p.ins p.insnCnt)
    (sol : RegSolution p.ins p.insnCnt.toNat types) {m₁ m₂ : EbpfState}
    (h : Beside undef types p (p.relocated mem ctx) m₁ m₂) (hkeeps : p.KeepsCtx undef)
    (hpc : m₁.pc < p.insnCnt) (hsteps : m₁.steps + 1 ≤ p.maxSteps)
    (hcls : insnCls (p.ins m₁.pc.toNat) ≠ CLS_LDX) :
    AgreeOn (insnReads (p.ins m₁.pc.toNat)) m₁.regs m₂.regs := by
  intro r hr
  by_cases hr1 : r = 1
  · subst hr1
    rcases h.r1 with ⟨hholds, hns⟩ | ⟨heq, -⟩
    · -- `r1` is typed as the context pointer: neither ALU nor jump may read it
      exfalso
      have hadm := hacc.admitted hpc
      have hall := List.all_eq_true.mp (sol.reads _ hpc) 1 (List.mem_range.mpr (by decide))
      have hread : hasReg (insnReads (p.ins m₁.pc.toNat)) 1 = true := hr
      simp only [hread, Bool.not_true, Bool.false_or, decide_eq_true_eq] at hall
      have hctx := regType_eq_ctx hns hall.1
      obtain ⟨hcall, htest⟩ := hkeeps m₁ hholds hpc hsteps
      rcases reads_r1_cases hadm.dst_lt hadm.src_lt hread with halu | ⟨hjmp, hop⟩ | ht | hldx
      · exact hall.2.2 ⟨halu, hctx⟩
      · -- the scan admits calls of the 64-bit class only
        refine hcall ⟨?_, hop⟩
        exact ((isJmpCls_iff _).mp hjmp).resolve_right (hadm.call hjmp hop).1
      · exact htest ht
      · exact hcls hldx
    · exact heq
  · exact h.regs.2 r hr1

/-- A load of both runs. -/
theorem Beside.load (hacc : Accepted p.ins p.insnCnt) (hplaced : p.CtxPlaced)
    (hplaced' : (p.relocated mem ctx).CtxPlaced) (hsame : p.SameContext (p.relocated mem ctx))
    {m₁ m₂ : EbpfState} (h : Beside undef types p (p.relocated mem ctx) m₁ m₂)
    (hsteps : m₁.steps + 1 ≤ p.maxSteps) (hcls : insnCls (p.ins m₁.pc.toNat) = CLS_LDX) :
    Exec.OutcomeRel (RegsRel (AgreeAfter (p.ins m₁.pc.toNat) m₁.regs m₂.regs))
      (ebpfStep undef p m₁) (ebpfStep undef (p.relocated mem ctx) m₂) := by
  have hm₂ : m₂ = { m₁ with regs := m₂.regs } := h.regs.1
  have hpc₂ : m₂.pc = m₁.pc := by rw [hm₂]
  have hst₂ : m₂.steps = m₁.steps := by rw [hm₂]
  have hx₁ : p.ExecutesLdx undef m₁ := ⟨h.here, hsteps, hcls⟩
  have hx₂ : (p.relocated mem ctx).ExecutesLdx undef m₂ :=
    ⟨h.there, by rw [hst₂]; exact hsteps, by rw [hpc₂]; exact hcls⟩
  obtain ⟨hd, hs, hbase, hstep₁⟩ := hx₁.step_eq hacc
  obtain ⟨hd', hs', hbase', hstep₂⟩ := hx₂.step_eq hacc
  have hcases := ldxSize_cases (p.insnAt m₁.pc)
  have hsize : (ldxSize (p.insnAt m₁.pc)).toNat ≤ 8 := by
    rcases hcases with h | h | h | h <;> rw [h] <;> decide
  have hi : (p.relocated mem ctx).insnAt m₂.pc = p.insnAt m₁.pc := by rw [hpc₂]; rfl
  have hb₁ := ldxOutOfBounds_iff hplaced.low hplaced.high (p.insnAt m₁.pc).off hsize
  have hb₂ := ldxOutOfBounds_iff hplaced'.low hplaced'.high (p.insnAt m₁.pc).off hsize
  simp only [hi] at hstep₂
  rw [hstep₁, hstep₂]
  by_cases hout : (p.insnAt m₁.pc).off.toInt < 0 ∨
      (p.ctxSize.toNat : Int) < (p.insnAt m₁.pc).off.toInt + (ldxSize (p.insnAt m₁.pc)).toNat
  · rw [if_pos (hb₁.mpr hout), if_pos (hb₂.mpr hout), hm₂]
    rfl
  · rw [if_neg (mt hb₁.mp hout), if_neg (mt hb₂.mp hout)]
    -- the destination holds the same bytes, whatever the bases
    have hv := load_relocated hsame hcases hout
    have hw : insnWrites (p.ins m₁.pc.toNat) = regBit (insnDst (p.ins m₁.pc.toNat)).toNat := by
      unfold insnWrites
      exact if_pos (.inl hcls)
    have hf : m₂.fetched = { m₁.fetched with regs := m₂.regs } := by rw [hm₂]; rfl
    rw [hf]
    refine advance_agree m₁.fetched m₂.regs fun r hr => ?_
    by_cases hrd : r = ⟨(p.insnAt m₁.pc).dst.toNat, hd⟩
    · rw [hrd, RegFile.set_self, RegFile.set_self]
      exact hv.symm
    · rw [RegFile.set_ne _ _ _ _ hrd, RegFile.set_ne _ _ _ _ hrd]
      refine hr.resolve_left fun hwr => hrd ?_
      have hd' : (insnDst (p.ins m₁.pc.toNat)).toNat < 11 := hd
      rw [hw, hasReg_regBit (by omega) (by omega)] at hwr
      exact Fin.ext (of_decide_eq_true hwr)

theorem ebpfStep_within {p : EbpfProg} {m : EbpfState} (hpc : m.pc < p.insnCnt) :
    ebpfStep undef p m =
      if p.maxSteps < m.steps + 1 then m.fault .steps else fetchExec undef p m :=
  if_neg (BitVec.not_le.mpr hpc)

/-- Two runs side by side take steps that leave them side by side, or stop
    alike. -/
theorem Beside.step (hacc : Accepted p.ins p.insnCnt)
    (sol : RegSolution p.ins p.insnCnt.toNat types) (hkeeps : p.KeepsCtx undef)
    (hplaced : p.CtxPlaced) (hplaced' : (p.relocated mem ctx).CtxPlaced)
    (hsame : p.SameContext (p.relocated mem ctx)) {m₁ m₂ : EbpfState}
    (h : Beside undef types p (p.relocated mem ctx) m₁ m₂) :
    Exec.OutcomeRel (Beside undef types p (p.relocated mem ctx))
      (ebpfStep undef p m₁) (ebpfStep undef (p.relocated mem ctx) m₂) := by
  have hm₂ : m₂ = { m₁ with regs := m₂.regs } := h.regs.1
  have hpc₂ : m₂.pc = m₁.pc := by rw [hm₂]
  have hst₂ : m₂.steps = m₁.steps := by rw [hm₂]
  have hpc := (OnlyR1.of_visits sol hacc.cnt_pos h.here).pc_lt
  have h₁ : ebpfStep undef p m₁ =
      if p.maxSteps < m₁.steps + 1 then m₁.fault .steps else fetchExec undef p m₁ :=
    ebpfStep_within hpc
  have h₂ : ebpfStep undef (p.relocated mem ctx) m₂ =
      if p.maxSteps < m₁.steps + 1 then m₂.fault .steps
      else fetchExec undef (p.relocated mem ctx) m₂ := by
    rw [← hst₂]
    exact ebpfStep_within (by rw [hpc₂]; exact hpc)
  by_cases hsteps : p.maxSteps < m₁.steps + 1
  · -- the cap stops both
    rw [h₁, h₂, if_pos hsteps, if_pos hsteps, hm₂]
    rfl
  have hsteps' := BitVec.not_lt.mp hsteps
  have hturn : Exec.OutcomeRel (RegsRel (AgreeAfter (p.ins m₁.pc.toNat) m₁.regs m₂.regs))
      (ebpfStep undef p m₁) (ebpfStep undef (p.relocated mem ctx) m₂) := by
    by_cases hcls : insnCls (p.ins m₁.pc.toNat) = CLS_LDX
    · exact h.load hacc hplaced hplaced' hsame hsteps' hcls
    · have hreloc : fetchExec undef (p.relocated mem ctx) m₂ =
          fetchExec undef p { m₁ with regs := m₂.regs } := by
        rw [← hm₂]
        exact fetchExec_relocated (by rw [hpc₂]; exact hcls)
      rw [h₁, h₂, if_neg hsteps, if_neg hsteps, hreloc]
      exact fetchExec_agree undef p m₁ (h.agreeOn hacc sol hkeeps hpc hsteps' hcls)
  exact hturn.imp fun _ _ h₁ h₂ hrel => h.next sol h₁ h₂ hrel

end Lockstep

/-- **Context-address independence.** An accepted image runs the same on the
    same context bytes at two addresses, unless it calls a helper or tests
    `r1` while that still holds the context pointer. -/
theorem ebpfRun_relocated (undef : CExpr → U64) (p : EbpfProg) (mem : U64 → U8) (ctx : U64)
    (hcheck : icProgramCheck (some p.ins) p.insnCnt = .ok) (hplaced : p.CtxPlaced)
    (hplaced' : (p.relocated mem ctx).CtxPlaced) (hsame : p.SameContext (p.relocated mem ctx))
    (hkeeps : p.KeepsCtx undef) (fuel : Nat) :
    ebpfRun undef (p.relocated mem ctx) fuel = ebpfRun undef p fuel := by
  have hacc := icProgramCheck_ok hcheck
  obtain ⟨types, sol⟩ := hacc.solution
  unfold ebpfRun ebpfRunFrom
  by_cases hcnt : p.insnCnt = 0 ∨ EBPF_MAX_INSNS < p.insnCnt
  · rw [if_pos hcnt]
    exact if_pos hcnt
  · rw [if_neg hcnt]
    have hstep : ∀ m₁ m₂, Beside undef types p (p.relocated mem ctx) m₁ m₂ →
        Exec.OutcomeRel (Beside undef types p (p.relocated mem ctx))
          (ebpfStep undef p m₁) (ebpfStep undef (p.relocated mem ctx) m₂) :=
      fun _ _ h => h.step hacc sol hkeeps hplaced hplaced' hsame
    refine (if_neg hcnt).trans (Exec.run_lockstep hstep fuel ?_).symm
    rw [not_or] at hcnt
    refine ⟨⟨hcnt.1, BitVec.not_lt.mp hcnt.2, .refl⟩, ⟨hcnt.1, BitVec.not_lt.mp hcnt.2, .refl⟩,
      ⟨rfl, fun r hr => ?_⟩, .inl ⟨.entry, sol.nonScalar_entry⟩⟩
    show entryRegs p r = entryRegs (p.relocated mem ctx) r
    unfold entryRegs
    rw [RegFile.set_ne _ _ _ _ hr, RegFile.set_ne _ _ _ _ hr]


/-- `r6 = *(u16 *)(r1 + 2); r1 = 0; r0 = map[r1]; r0 += r6; exit`. -/
def lateCall : EbpfProg where
  ins := fun k => [0x0000000000021669, 0x01b7, 0x0000000100000085, 0x600f, 0x95].getD k 0
  insnCnt := 5
  mem := fun a => a.setWidth 8
  ctx := 0x1000
  ctxSize := 4
  maxSteps := 16
  map := some fun _ => 7
  mapCells := 4

/-- The pointer is gone from `r1` before the call. -/
theorem lateCall_keepsCtx : lateCall.KeepsCtx fun _ => 0 := by
  have hpc : ∀ m, lateCall.HoldsCtx (fun _ => 0) m → m.pc = 0 ∨ m.pc = 1 := by
    intro m hm
    induction hm with
    | entry => exact .inl rfl
    | next _ hs hw ih =>
      have hsucc := fetchExec_succ (ebpfStep_inl hs).2.2
      rcases ih with h | h <;> rw [h] at hsucc hw
      · exact .inr (List.mem_singleton.mp hsucc)
      · exact absurd hw (by decide)
  intro m hm _ _
  have hcls : (lateCall.insnAt m.pc).cls = CLS_LDX ∨ (lateCall.insnAt m.pc).cls = CLS_ALU64 := by
    rcases hpc m hm with h | h <;> rw [h] <;> decide
  have hne : (CLS_LDX ≠ CLS_JMP ∧ CLS_LDX ≠ CLS_JMP32) ∧
      CLS_ALU64 ≠ CLS_JMP ∧ CLS_ALU64 ≠ CLS_JMP32 := by decide
  refine ⟨fun hcall => ?_, fun htest => ?_⟩
  · rcases hcls with h | h
    · exact hne.1.1 (h.symm.trans hcall.1)
    · exact hne.2.1 (h.symm.trans hcall.1)
  · rcases hcls with h | h <;> rcases htest.cls with hc | hc
    · exact hne.1.1 (h.symm.trans hc)
    · exact hne.1.2 (h.symm.trans hc)
    · exact hne.2.1 (h.symm.trans hc)
    · exact hne.2.2 (h.symm.trans hc)

/-- It returns the same sum of a map cell and two context bytes at
    0x80001000. -/
theorem ebpfRun_relocated_lateCall :
    ebpfRun (fun _ => 0) (lateCall.relocated (fun a => a.setWidth 8) 0x80001000) 8 =
        ebpfRun (fun _ => 0) lateCall 8 ∧
      ∃ r, ebpfRun (fun _ => 0) lateCall 8 = some r ∧ r.fault = .ok ∧ r.retval = 0x0309 :=
  ⟨ebpfRun_relocated (fun _ => 0) lateCall (fun a => a.setWidth 8) 0x80001000 (by decide +kernel)
    ⟨by decide, by decide⟩ ⟨by decide, by decide⟩ (by unfold EbpfProg.SameContext; decide)
    lateCall_keepsCtx 8, _, rfl, by decide, by decide⟩

end Interclus

import Interclus.Verifier.RegTypes

/-! # Verifier Tables and Interpreter Steps

    The verifier's tables `insn_reads`, `insn_writes` and `insn_succ` are
    written independently of the interpreter.  This module relates them to
    `fetchExec`, one loop turn of the interpreter, for every instruction
    word:

    * `fetchExec_succ`: a turn that continues does so at a successor;
    * `execInsn_inr`: a turn that stops does so for one of the listed causes;
    * `fetchExec_frame`: a turn changes no register outside the write set;
    * `fetchExec_agree`: its outcome is the same for register files that
      agree on the read set;
    * `ebpfStep_tables`: the three tables against a whole loop turn. -/

namespace Interclus

open Words

/-! ## The two decoders -/

@[simp] theorem decodeInsn_opcode (e : U64) : (decodeInsn e).opcode = insnOp e := rfl
@[simp] theorem decodeInsn_dst (e : U64) : (decodeInsn e).dst = insnDst e := rfl
@[simp] theorem decodeInsn_src (e : U64) : (decodeInsn e).src = insnSrc e := rfl
@[simp] theorem decodeInsn_off (e : U64) : (decodeInsn e).off = insnOff e := rfl
@[simp] theorem decodeInsn_cls (e : U64) : (decodeInsn e).cls = insnCls e := rfl
@[simp] theorem decodeInsn_op (e : U64) : (decodeInsn e).op = insnHi e := rfl
@[simp] theorem decodeInsn_srcX (e : U64) : (decodeInsn e).srcX = insnSrcX e := rfl

theorem decodeInsn_imm (e : U64) : (decodeInsn e).imm = (insnImm e).setWidth 32 := rfl

/-- The interpreter compares the 32-bit immediate, the verifier the same
    bits as a 64-bit word. -/
theorem decodeInsn_imm_eq_iff (e : U64) (k : U32) :
    (decodeInsn e).imm = k ↔ insnImm e = k.setWidth 64 := by
  rw [decodeInsn_imm]
  constructor
  · rintro rfl
    have hmask : ∀ j, (0xffffffff : U64).getLsbD j = decide (j < 32) := fun j => by
      have : (0xffffffff : U64) = (BitVec.allOnes 32).setWidth 64 := by decide
      rw [this, BitVec.getLsbD_setWidth, BitVec.getLsbD_allOnes]
      by_cases hj : j < 32
      · simp [hj, show j < 64 by omega]
      · simp [hj]
    apply BitVec.eq_of_getLsbD_eq
    intro i hi
    simp only [insnImm, BitVec.getLsbD_setWidth, BitVec.getLsbD_and, hmask, hi, decide_true,
      Bool.true_and]
    cases decide (i < 32) <;> simp
  · intro h
    rw [h]
    simp

theorem jmpTarget_eq (pc : U32) (e : U64) : jmpTarget pc (decodeInsn e) = insnTarget e pc := rfl

/-! ## Classes -/

theorem isAluCls_iff (c : U8) : isAluCls c ↔ c = CLS_ALU64 ∨ c = CLS_ALU := by
  revert c; decide

theorem isJmpCls_iff (c : U8) : isJmpCls c ↔ c = CLS_JMP ∨ c = CLS_JMP32 := by
  revert c; decide

theorem not_isAluCls_of_isJmpCls {c : U8} (h : isJmpCls c) : isAluCls c = false := by
  revert c; decide

/-- Class 0 is the one the dispatch does not name. -/
theorem cls_eq_zero (i : EbpfInsn) (halu : ¬ (i.cls = CLS_ALU64 ∨ i.cls = CLS_ALU))
    (hjmp : ¬ (i.cls = CLS_JMP ∨ i.cls = CLS_JMP32)) (hldx : i.cls ≠ CLS_LDX)
    (hst : ¬ (i.cls = CLS_ST ∨ i.cls = CLS_STX)) : i.cls = 0 := by
  have key : ∀ op : U8, ¬ (op &&& 0x07 = CLS_ALU64 ∨ op &&& 0x07 = CLS_ALU) →
      ¬ (op &&& 0x07 = CLS_JMP ∨ op &&& 0x07 = CLS_JMP32) → op &&& 0x07 ≠ CLS_LDX →
      ¬ (op &&& 0x07 = CLS_ST ∨ op &&& 0x07 = CLS_STX) → op &&& 0x07 = 0 := by
    decide +kernel
  exact key i.opcode halu hjmp hldx hst

/-! ## The read set -/

/-- Two register files agree on the registers of a mask. -/
def AgreeOn (mask : U32) (regs₁ regs₂ : RegFile) : Prop :=
  ∀ q : Fin 11, hasReg mask q → regs₁ q = regs₂ q

theorem reads_alu_dst {e : U64} (hcls : isAluCls (insnCls e)) (hmov : insnHi e ≠ 0xb0)
    (h : (insnDst e).toNat < 11) : hasReg (insnReads e) (insnDst e).toNat := by
  unfold insnReads
  simp only [hcls, if_true, if_neg hmov]
  split
  · rw [hasReg_regBit (by omega) (by omega)]; simp
  · rw [hasReg_or _ _ (by omega), hasReg_regBit (by omega) (by omega)]; simp

theorem reads_alu_src {e : U64} (hcls : isAluCls (insnCls e)) (hneg : insnHi e ≠ 0x80)
    (hend : insnHi e ≠ 0xd0) (hsrc : insnSrcX e) (h : (insnSrc e).toNat < 11) :
    hasReg (insnReads e) (insnSrc e).toNat := by
  have hor : ¬ (insnHi e = 0x80 ∨ insnHi e = 0xd0) := not_or.mpr ⟨hneg, hend⟩
  unfold insnReads
  simp only [hcls, if_true, if_neg hor, hsrc]
  split
  · rw [hasReg_regBit (by omega) (by omega)]; simp
  · rw [hasReg_or _ _ (by omega), hasReg_regBit (r := (insnSrc e).toNat) (by omega) (by omega)]
    simp

theorem insnReads_jmp {e : U64} (hcls : isJmpCls (insnCls e)) (hexit : insnHi e ≠ 0x90)
    (hcall : insnHi e ≠ 0x80) (hja : insnHi e ≠ 0x00) :
    insnReads e = regBit (insnDst e).toNat |||
      (if insnSrcX e then regBit (insnSrc e).toNat else 0) := by
  have halu := not_isAluCls_of_isJmpCls hcls
  unfold insnReads
  simp only [halu, hcls, if_neg hexit, if_neg hcall, if_neg hja]
  rfl

theorem reads_jmp_dst {e : U64} (hcls : isJmpCls (insnCls e)) (hexit : insnHi e ≠ 0x90)
    (hcall : insnHi e ≠ 0x80) (hja : insnHi e ≠ 0x00) (h : (insnDst e).toNat < 11) :
    hasReg (insnReads e) (insnDst e).toNat := by
  rw [insnReads_jmp hcls hexit hcall hja, hasReg_or _ _ (by omega),
    hasReg_regBit (by omega) (by omega)]
  simp

theorem reads_jmp_src {e : U64} (hcls : isJmpCls (insnCls e)) (hexit : insnHi e ≠ 0x90)
    (hcall : insnHi e ≠ 0x80) (hja : insnHi e ≠ 0x00) (hsrc : insnSrcX e)
    (h : (insnSrc e).toNat < 11) : hasReg (insnReads e) (insnSrc e).toNat := by
  rw [insnReads_jmp hcls hexit hcall hja, hasReg_or _ _ (by omega), if_pos hsrc,
    hasReg_regBit (r := (insnSrc e).toNat) (by omega) (by omega)]
  simp

theorem insnReads_exit {e : U64} (hcls : isJmpCls (insnCls e)) (h : insnHi e = 0x90) :
    insnReads e = 1 := by
  have halu := not_isAluCls_of_isJmpCls hcls
  unfold insnReads
  simp only [halu, hcls, h]
  rfl

theorem insnReads_call {e : U64} (hcls : isJmpCls (insnCls e)) (h : insnHi e = 0x80) :
    insnReads e = if insnImm e = 2 then regBit 1 ||| regBit 2 else regBit 1 := by
  have halu := not_isAluCls_of_isJmpCls hcls
  unfold insnReads
  simp only [halu, hcls, h]
  rfl

theorem insnReads_ldx {e : U64} (hcls : insnCls e = CLS_LDX) :
    insnReads e = regBit (insnSrc e).toNat := by
  unfold insnReads
  simp only [hcls]
  rfl

theorem insnWrites_jmp {e : U64} (hcls : isJmpCls (insnCls e)) (h : insnHi e ≠ 0x80) :
    insnWrites e = 0 := by
  have hne : ∀ c : U8, isJmpCls c → ¬ (c = 0x01 ∨ c = 0x04 ∨ c = 0x07) := by decide
  unfold insnWrites
  rw [if_neg (hne _ hcls), if_neg (fun hc => h hc.2)]

/-! ## What a turn can do -/

/-- What the switch makes of an operation. -/
inductive JmpSwitched (o : JmpOp) : JmpOut → Prop where
  | exit : o = .exit → JmpSwitched o .exit
  | callFault : o = .call → JmpSwitched o .callFault
  | taken (b : Bool) : o ≠ .exit → o ≠ .call → (o = .ja → b = true) → JmpSwitched o (.taken b)

theorem jmpSwitch_switched {w : Nat} (o : JmpOp) (v arg : BitVec w) :
    JmpSwitched o (jmpSwitch o v arg) := by
  cases o with
  | exit => exact .exit rfl
  | call => exact .callFault rfl
  | ja => exact .taken true nofun nofun fun _ => rfl
  | _ => exact .taken _ nofun nofun nofun

theorem jmpOut_switched {i : EbpfInsn} {dst src : Fin 11} {regs : RegFile} {out : JmpOut}
    (h : jmpOut i dst src regs = some out) : ∃ o : JmpOp, i.op = o.code ∧ JmpSwitched o out := by
  unfold jmpOut at h
  obtain ⟨o, ho, rfl⟩ := Option.map_eq_some_iff.mp h
  refine ⟨o, (JmpOp.code_of_ofCode? ho).symm, ?_⟩
  split
  · exact jmpSwitch_switched o _ _
  · exact jmpSwitch_switched o _ _

/-- An operation is known by its code. -/
theorem JmpOp.code_injective {o o' : JmpOp} (h : o.code = o'.code) : o = o' := by
  have hback : ∀ o : JmpOp, JmpOp.ofCode? o.code = some o := by
    intro o
    cases o <;> rfl
  rw [← Option.some.injEq, ← hback o, ← hback o', h]

theorem jmpOut_taken {i : EbpfInsn} {dst src : Fin 11} {regs : RegFile} {b : Bool}
    (h : jmpOut i dst src regs = some (.taken b)) :
    i.op ≠ JmpOp.exit.code ∧ i.op ≠ JmpOp.call.code ∧ (i.op = JmpOp.ja.code → b = true) := by
  obtain ⟨o, ho, hswitched⟩ := jmpOut_switched h
  rw [ho]
  cases hswitched with
  | taken _ hexit hcall hja =>
    exact ⟨fun h => hexit (JmpOp.code_injective h), fun h => hcall (JmpOp.code_injective h),
      fun h => hja (JmpOp.code_injective h)⟩

theorem jmpOut_exit {i : EbpfInsn} {dst src : Fin 11} {regs : RegFile}
    (h : jmpOut i dst src regs = some .exit) : i.op = JmpOp.exit.code := by
  obtain ⟨o, ho, hswitched⟩ := jmpOut_switched h
  cases hswitched with
  | exit hexit => rw [ho, hexit]

theorem jmpOut_callFault {i : EbpfInsn} {dst src : Fin 11} {regs : RegFile}
    (h : jmpOut i dst src regs = some .callFault) : i.op = JmpOp.call.code := by
  obtain ⟨o, ho, hswitched⟩ := jmpOut_switched h
  cases hswitched with
  | callFault hcall => rw [ho, hcall]

/-- The 32-bit class has no helper calls, whatever its operands hold. -/
theorem jmpOut_call {i : EbpfInsn} (h : i.op = JmpOp.call.code) (dst src : Fin 11)
    (regs : RegFile) : jmpOut i dst src regs = some .callFault := by
  have hop : JmpOp.ofCode? JmpOp.call.code = some .call := by decide
  unfold jmpOut
  rw [h, hop]
  simp [jmpSwitch]

/-- How a turn can continue: the next configuration of an ALU instruction,
    a helper call, a jump and a load. -/
inductive Continues (undef : CExpr → U64) (p : EbpfProg) (i : EbpfInsn) (dst src : Fin 11)
    (m : EbpfState) : EbpfState → Prop where
  | alu (ex : CExpr) : isAluCls i.cls → aluExpr i dst src m.regs = .ok ex →
      Continues undef p i dst src m
        { m with regs := m.regs.set dst (aluTrunc i (ex.eval undef)), pc := m.pc + 1 }
  | call (v : U64) (map : U32 → U32) : i.cls = CLS_JMP → i.op = JmpOp.call.code →
      Continues undef p i dst src m
        { m with regs := m.regs.set 0 v, pc := m.pc + 1, map := some map }
  | jmp (b : Bool) : isJmpCls i.cls → jmpOut i dst src m.regs = some (.taken b) →
      Continues undef p i dst src m { m with pc := if b then jmpTarget m.pc i else m.pc + 1 }
  | ldx : i.cls = CLS_LDX → src ≠ 10 → dst ≠ 10 →
      ldxOutOfBounds p.ctx p.ctxSize (ldxAddr i src m.regs) (ldxSize i) = false →
      Continues undef p i dst src m
        { m with
          regs := m.regs.set dst (loadLe p.mem (ldxAddr i src m.regs) (ldxSize i))
          pc := m.pc + 1 }

theorem callStep_inl {p : EbpfProg} {i : EbpfInsn} {m m' : EbpfState}
    (h : callStep p i m = .inl m') :
    ∃ v map, m' = { m with regs := m.regs.set 0 v, pc := m.pc + 1, map := some map } := by
  unfold callStep EbpfState.fault EbpfState.advance at h
  split at h
  · cases h
  · next map hmap =>
    split at h
    · dsimp only at h
      split at h
      · cases h; exact ⟨_, map, by rw [← hmap]⟩
      · split at h
        · cases h; exact ⟨_, _, rfl⟩
        · cases h
    · cases h

theorem execInsn_inl {undef : CExpr → U64} {p : EbpfProg} {i : EbpfInsn} {dst src : Fin 11}
    {m m' : EbpfState} (h : execInsn undef p i dst src m = .inl m') :
    Continues undef p i dst src m m' := by
  unfold execInsn at h
  split at h
  · next hcls =>
    unfold aluStep EbpfState.fault EbpfState.advance at h
    split at h
    · cases h
    · next ex hex =>
      cases h
      exact .alu ex ((isAluCls_iff _).mpr hcls) hex
  · split at h
    · next hcls =>
      unfold jmpStep at h
      split at h
      · next hcall =>
        obtain ⟨v, map, rfl⟩ := callStep_inl h
        exact .call v map hcall.1 hcall.2
      · unfold EbpfState.fault at h
        split at h
        · cases h
        · cases h
        · cases h
        · next b hb =>
          cases h
          exact .jmp b ((isJmpCls_iff _).mpr hcls) hb
    · split at h
      · next hcls =>
        unfold ldxStep EbpfState.fault EbpfState.advance at h
        split at h
        · cases h
        · next hregs =>
          dsimp only at h
          split at h
          · cases h
          · next hb =>
            cases h
            simp only [not_or] at hregs
            exact .ldx hcls hregs.2.1 hregs.2.2 (by simpa using hb)
      · split at h <;> cases h

/-- Why a turn can stop: the exit of the program, or what each of its fault
    arms has tested. -/
inductive Stops (p : EbpfProg) (i : EbpfInsn) (dst src : Fin 11) (m : EbpfState) :
    EbpfResult → Prop where
  | exit : isJmpCls i.cls → i.op = JmpOp.exit.code → Stops p i dst src m (m.stop .ok (m.regs 0))
  | fp : isAluCls i.cls → dst = 10 → Stops p i dst src m (m.stop .fp 0)
  | div0 : isAluCls i.cls → dst ≠ 10 → i.op = AluOp.div.code ∨ i.op = AluOp.mod.code →
      aluArg i src m.regs = 0 → Stops p i dst src m (m.stop .div0 0)
  | swapSize : isAluCls i.cls → i.op = AluOp.end.code → i.srcX →
      (i.imm.setWidth 8 : U8) ≠ 16 → (i.imm.setWidth 8 : U8) ≠ 32 →
      (i.imm.setWidth 8 : U8) ≠ 64 → Stops p i dst src m (m.stop .opcode 0)
  | aluOpcode : isAluCls i.cls → AluOp.ofCode? i.op = none →
      Stops p i dst src m (m.stop .opcode 0)
  | jmpOpcode : isJmpCls i.cls → JmpOp.ofCode? i.op = none →
      Stops p i dst src m (m.stop .opcode 0)
  | call32 : i.cls = CLS_JMP32 → i.op = JmpOp.call.code → Stops p i dst src m (m.stop .call 0)
  | call : i.cls = CLS_JMP → i.op = JmpOp.call.code →
      m.map = none ∨ mapUsable p.mapCells = false ∨ i.imm ≠ 1 ∧ i.imm ≠ 2 →
      Stops p i dst src m (m.stop .call 0)
  | ldxOpcode : i.cls = CLS_LDX → i.opcode &&& 0xe0 ≠ MODE_MEM ∨ src = 10 ∨ dst = 10 →
      Stops p i dst src m (m.stop .opcode 0)
  | mem : i.cls = CLS_LDX → ldxOutOfBounds p.ctx p.ctxSize (ldxAddr i src m.regs) (ldxSize i) →
      Stops p i dst src m (m.stop .mem 0)
  | store : i.cls = CLS_ST ∨ i.cls = CLS_STX → Stops p i dst src m (m.stop .store 0)
  | noClass : i.cls = 0 → Stops p i dst src m (m.stop .opcode 0)

theorem aluSwitch_error {is64 : Bool} {o : AluOp} {i : EbpfInsn} {v arg : U64} {f : EbpfFault}
    (h : aluSwitch is64 o i v arg = .error f) :
    (f = .div0 ∧ (o = .div ∨ o = .mod) ∧ arg = 0) ∨
    (f = .opcode ∧ o = .end ∧ i.srcX ∧ (i.imm.setWidth 8 : U8) ≠ 16 ∧
      (i.imm.setWidth 8 : U8) ≠ 32 ∧ (i.imm.setWidth 8 : U8) ≠ 64) := by
  cases o
  case div | mod =>
    simp only [aluSwitch] at h
    split at h
    · next h0 => cases h; exact .inl ⟨rfl, by simp, h0⟩
    · split at h <;> cases h
  case «end» =>
    simp only [aluSwitch] at h
    split at h
    · next hx =>
      split at h
      · cases h
      · split at h
        · cases h
        · split at h
          · cases h
          · next h16 h32 h64 =>
            cases h
            exact .inr ⟨rfl, rfl, decide_eq_true hx, h16, h32, h64⟩
    · cases h
  all_goals cases h

theorem aluExpr_error {p : EbpfProg} {i : EbpfInsn} {dst src : Fin 11} {m : EbpfState}
    {f : EbpfFault} (hcls : isAluCls i.cls) (h : aluExpr i dst src m.regs = .error f) :
    Stops p i dst src m (m.stop f 0) := by
  unfold aluExpr at h
  dsimp only at h
  split at h
  · next hfp => cases h; exact .fp hcls hfp
  · next hfp =>
    split at h
    · next hop => cases h; exact .aluOpcode hcls hop
    · next o ho =>
      have hcode := AluOp.code_of_ofCode? ho
      rcases aluSwitch_error h with ⟨rfl, hdm, h0⟩ | ⟨rfl, rfl, hx, h16, h32, h64⟩
      · refine .div0 hcls hfp ?_ h0
        rcases hdm with rfl | rfl
        · exact .inl hcode.symm
        · exact .inr hcode.symm
      · exact .swapSize hcls hcode.symm hx h16 h32 h64

theorem callStep_inr {p : EbpfProg} {i : EbpfInsn} {m : EbpfState} {r : EbpfResult}
    (h : callStep p i m = .inr r) :
    r = m.stop .call 0 ∧
      (m.map = none ∨ mapUsable p.mapCells = false ∨ i.imm ≠ 1 ∧ i.imm ≠ 2) := by
  unfold callStep EbpfState.fault EbpfState.advance at h
  split at h
  · next hmap => cases h; exact ⟨rfl, .inl hmap⟩
  · split at h
    · dsimp only at h
      split at h
      · cases h
      · next h1 =>
        split at h
        · cases h
        · next h2 => cases h; exact ⟨rfl, .inr (.inr ⟨h1, h2⟩)⟩
    · next hcells => cases h; exact ⟨rfl, .inr (.inl (by simpa using hcells))⟩

theorem execInsn_inr {undef : CExpr → U64} {p : EbpfProg} {i : EbpfInsn} {dst src : Fin 11}
    {m : EbpfState} {r : EbpfResult} (h : execInsn undef p i dst src m = .inr r) :
    Stops p i dst src m r := by
  unfold execInsn at h
  split at h
  · next hcls =>
    unfold aluStep EbpfState.fault EbpfState.advance at h
    split at h
    · next f hf =>
      cases h
      exact aluExpr_error ((isAluCls_iff _).mpr hcls) hf
    · cases h
  · next halu =>
    split at h
    · next hcls =>
      have hjmp : isJmpCls i.cls := (isJmpCls_iff _).mpr hcls
      unfold jmpStep at h
      split at h
      · next hcall =>
        obtain ⟨rfl, hwhy⟩ := callStep_inr h
        exact .call hcall.1 hcall.2 hwhy
      · next hcall =>
        unfold EbpfState.fault at h
        split at h
        · next hop =>
          cases h
          exact .jmpOpcode hjmp (by simpa [jmpOut] using hop)
        · next hop =>
          cases h
          have hcode := jmpOut_callFault hop
          exact .call32 (hcls.resolve_left fun hc => hcall ⟨hc, hcode⟩) hcode
        · next hexit => cases h; exact .exit hjmp (jmpOut_exit hexit)
        · cases h
    · next hjmp =>
      split at h
      · next hcls =>
        unfold ldxStep EbpfState.fault EbpfState.advance at h
        split at h
        · next hregs => cases h; exact .ldxOpcode hcls hregs
        · dsimp only at h
          split at h
          · next hb => cases h; exact .mem hcls hb
          · cases h
      · next hldx =>
        unfold EbpfState.fault at h
        split at h
        · next hst => cases h; exact .store hst
        · next hst =>
          cases h
          exact .noClass (cls_eq_zero i halu hjmp hldx hst)

/-- The configuration an instruction executes in: the counters already
    account for it. -/
def EbpfState.fetched (m : EbpfState) : EbpfState :=
  { m with steps := m.steps + 1, insnsExecuted := m.insnsExecuted + 1 }

theorem fetchExec_inl {undef : CExpr → U64} {p : EbpfProg} {m m' : EbpfState}
    (h : fetchExec undef p m = .inl m') :
    ∃ (hd : (p.insnAt m.pc).dst.toNat < 11) (hs : (p.insnAt m.pc).src.toNat < 11),
      Continues undef p (p.insnAt m.pc) ⟨_, hd⟩ ⟨_, hs⟩ m.fetched m' := by
  unfold fetchExec at h
  dsimp only at h
  split at h
  · next hr => exact ⟨hr.1, hr.2, execInsn_inl h⟩
  · cases h

theorem fetchExec_inr {undef : CExpr → U64} {p : EbpfProg} {m : EbpfState} {r : EbpfResult}
    (h : fetchExec undef p m = .inr r) :
    (∃ (hd : (p.insnAt m.pc).dst.toNat < 11) (hs : (p.insnAt m.pc).src.toNat < 11),
      Stops p (p.insnAt m.pc) ⟨_, hd⟩ ⟨_, hs⟩ m.fetched r) ∨
    ¬ ((p.insnAt m.pc).dst.toNat < 11 ∧ (p.insnAt m.pc).src.toNat < 11) := by
  unfold fetchExec at h
  dsimp only at h
  split at h
  · next hr => exact .inl ⟨hr.1, hr.2, execInsn_inr h⟩
  · next hr => exact .inr hr

/-- A turn that continues does so at a successor of its instruction. -/
theorem fetchExec_succ {undef : CExpr → U64} {p : EbpfProg} {m m' : EbpfState}
    (h : fetchExec undef p m = .inl m') :
    m'.pc ∈ insnSucc (p.ins m.pc.toNat) m.pc := by
  obtain ⟨hd, hs, hc⟩ := fetchExec_inl h
  unfold insnSucc
  cases hc with
  | alu ex hcls _ =>
    have : ¬ isJmpCls (insnCls (p.ins m.pc.toNat)) := fun hj => by
      have := not_isAluCls_of_isJmpCls hj
      simp [EbpfProg.insnAt] at hcls
      simp [hcls] at this
    simp [this, EbpfState.fetched]
  | call v map hcls hop =>
    have hcls' : isJmpCls (insnCls (p.ins m.pc.toNat)) := (isJmpCls_iff _).mpr (.inl hcls)
    have hhi : insnHi (p.ins m.pc.toNat) = 0x80 := hop
    simp [hcls', hhi, EbpfState.fetched]
  | jmp b hcls hout =>
    obtain ⟨hexit, hcall, hja⟩ := jmpOut_taken hout
    have hcls' : isJmpCls (insnCls (p.ins m.pc.toNat)) := hcls
    have hexit' : insnHi (p.ins m.pc.toNat) ≠ 0x90 := hexit
    have hcall' : insnHi (p.ins m.pc.toNat) ≠ 0x80 := hcall
    simp only [hcls', if_true, if_neg hexit', if_neg hcall']
    split
    · next h0 =>
      have := hja h0
      subst this
      simp [EbpfState.fetched, EbpfProg.insnAt, jmpTarget_eq]
    · cases b <;> simp [EbpfState.fetched, EbpfProg.insnAt, jmpTarget_eq]
  | ldx hcls _ _ _ =>
    have : ¬ isJmpCls (insnCls (p.ins m.pc.toNat)) := by
      have hcls' : insnCls (p.ins m.pc.toNat) = CLS_LDX := hcls
      rw [hcls']; decide
    simp [this, EbpfState.fetched]

/-- A turn leaves the registers alone that `insn_writes` does not name. -/
theorem fetchExec_frame {undef : CExpr → U64} {p : EbpfProg} {m m' : EbpfState}
    (h : fetchExec undef p m = .inl m') {q : Fin 11}
    (hq : hasReg (insnWrites (p.ins m.pc.toNat)) q.val = false) : m'.regs q = m.regs q := by
  obtain ⟨hd, hs, hc⟩ := fetchExec_inl h
  have hdst : insnWrites (p.ins m.pc.toNat) = regBit (insnDst (p.ins m.pc.toNat)).toNat →
      q ≠ ⟨(p.insnAt m.pc).dst.toNat, hd⟩ := by
    rintro hw rfl
    have hd' : (insnDst (p.ins m.pc.toNat)).toNat < 11 := hd
    rw [hw, hasReg_regBit (by omega) (by omega)] at hq
    exact of_decide_eq_false hq rfl
  cases hc with
  | alu ex hcls _ =>
    -- `alu` and `ldx` write `dst`, a call `r0`, a jump nothing
    refine RegFile.set_ne _ _ _ _ (hdst ?_)
    unfold insnWrites
    exact if_pos (((isAluCls_iff _).mp hcls).elim (fun h => .inr (.inr h)) fun h => .inr (.inl h))
  | call v map hcls hop =>
    rw [insnWrites_call ((isJmpCls_iff _).mpr (.inl hcls)) hop] at hq
    refine RegFile.set_ne _ _ _ _ fun h0 => ?_
    subst h0
    exact absurd hq (by decide)
  | jmp => rfl
  | ldx hcls =>
    refine RegFile.set_ne _ _ _ _ (hdst ?_)
    unfold insnWrites
    exact if_pos (.inl hcls)

/-! ## What a turn observes -/

/-- Two configurations that differ in their registers only, and there agree
    on the registers of `P`. -/
def RegsRel (P : Fin 11 → Prop) (m₁ m₂ : EbpfState) : Prop :=
  m₂ = { m₁ with regs := m₂.regs } ∧ ∀ q, P q → m₁.regs q = m₂.regs q

/-- The registers two runs agree on after an instruction, when they agreed
    on what it reads: those it writes, and those they agreed on before. -/
def AgreeAfter (e : U64) (regs₁ regs₂ : RegFile) (q : Fin 11) : Prop :=
  hasReg (insnWrites e) q ∨ regs₁ q = regs₂ q

theorem aluExpr_congr {e : U64} {dst src : Fin 11} (hd : dst.val = (insnDst e).toNat)
    (hs : src.val = (insnSrc e).toNat) (hcls : isAluCls (insnCls e)) {regs₁ regs₂ : RegFile}
    (h : AgreeOn (insnReads e) regs₁ regs₂) :
    aluExpr (decodeInsn e) dst src regs₁ = aluExpr (decodeInsn e) dst src regs₂ := by
  have hdst : insnHi e ≠ 0xb0 → regs₁ dst = regs₂ dst := fun hmov =>
    h dst (hd ▸ reads_alu_dst hcls hmov (hd ▸ dst.isLt))
  have harg : aluArg (decodeInsn e) src regs₁ = aluArg (decodeInsn e) src regs₂ := by
    unfold aluArg
    split
    · next hop =>
      split
      · next hx => exact h src (hs ▸ reads_alu_src hcls hop.1 hop.2 hx (hs ▸ src.isLt))
      · rfl
    · rfl
  have hval : (if (decodeInsn e).op = AluOp.mov.code then 0 else regs₁ dst) =
      if (decodeInsn e).op = AluOp.mov.code then 0 else regs₂ dst := by
    split
    · rfl
    · next hmov => exact hdst hmov
  unfold aluExpr
  rw [harg, hval]

theorem jmpOut_congr {e : U64} {dst src : Fin 11} (hd : dst.val = (insnDst e).toNat)
    (hs : src.val = (insnSrc e).toNat) (hcls : isJmpCls (insnCls e))
    (hcall : insnHi e ≠ 0x80) {regs₁ regs₂ : RegFile} (h : AgreeOn (insnReads e) regs₁ regs₂) :
    jmpOut (decodeInsn e) dst src regs₁ = jmpOut (decodeInsn e) dst src regs₂ := by
  have hreads : jmpReadsOperands (decodeInsn e) →
      insnHi e ≠ 0x90 ∧ insnHi e ≠ 0x00 := fun hr => by
    simp only [jmpReadsOperands, decide_eq_true_eq] at hr
    exact ⟨hr.2, hr.1⟩
  have hval : jmpVal (decodeInsn e) dst regs₁ = jmpVal (decodeInsn e) dst regs₂ := by
    unfold jmpVal
    split
    · next hr =>
      obtain ⟨hexit, hja⟩ := hreads hr
      exact h dst (hd ▸ reads_jmp_dst hcls hexit hcall hja (hd ▸ dst.isLt))
    · rfl
  have harg : jmpArg (decodeInsn e) src regs₁ = jmpArg (decodeInsn e) src regs₂ := by
    unfold jmpArg
    split
    · next hr =>
      obtain ⟨hexit, hja⟩ := hreads hr
      split
      · next hx => exact h src (hs ▸ reads_jmp_src hcls hexit hcall hja hx (hs ▸ src.isLt))
      · rfl
    · rfl
  unfold jmpOut
  rw [hval, harg]

theorem fault_agree (P : Fin 11 → Prop) (m : EbpfState) (regs₂ : RegFile) (f : EbpfFault) :
    Exec.OutcomeRel (RegsRel P) (m.fault f) ({ m with regs := regs₂ }.fault f) := rfl

theorem advance_agree {P : Fin 11 → Prop} (m : EbpfState) {r₁ r₂ : RegFile} (regs₂ : RegFile)
    (h : ∀ q, P q → r₁ q = r₂ q) :
    Exec.OutcomeRel (RegsRel P) (m.advance r₁) ({ m with regs := regs₂ }.advance r₂) := ⟨rfl, h⟩

/-- A helper call on two register files that agree on the arguments. -/
theorem callStep_agree (p : EbpfProg) {e : U64} (hcls : isJmpCls (insnCls e))
    (hhi : insnHi e = 0x80) (m : EbpfState) {regs₂ : RegFile}
    (h : AgreeOn (insnReads e) m.regs regs₂) :
    Exec.OutcomeRel (RegsRel (AgreeAfter e m.regs regs₂)) (callStep p (decodeInsn e) m)
      (callStep p (decodeInsn e) { m with regs := regs₂ }) := by
  have h1 : m.regs 1 = regs₂ 1 := h 1 (by
    rw [insnReads_call hcls hhi]; split <;> decide)
  have h0 : ∀ q : Fin 11, hasReg 1 q.val → q = 0 := by decide
  have hset : ∀ v q, AgreeAfter e m.regs regs₂ q → m.regs.set 0 v q = RegFile.set regs₂ 0 v q := by
    intro v q hq
    by_cases hq0 : q = 0
    · subst hq0; simp
    · rw [RegFile.set_ne _ _ _ _ hq0, RegFile.set_ne _ _ _ _ hq0]
      refine hq.resolve_left fun hw => hq0 ?_
      rw [insnWrites_call hcls hhi] at hw
      exact h0 q hw
  obtain ⟨regs₁, pc, steps, executed, map⟩ := m
  dsimp only at h h1 hset ⊢
  unfold callStep
  cases map with
  | none => exact fault_agree _ ⟨regs₁, pc, steps, executed, none⟩ regs₂ _
  | some map =>
    dsimp only
    split
    · rw [← h1]
      split
      · exact advance_agree ⟨regs₁, pc, steps, executed, some map⟩ regs₂ (hset _)
      · split
        · next hi2 =>
          have himm : insnImm e = 2 := (decodeInsn_imm_eq_iff e 2).mp hi2
          have h2 : regs₁ 2 = regs₂ 2 := h 2 (by
            rw [insnReads_call hcls hhi, if_pos himm]; decide)
          rw [← h2]
          exact advance_agree ⟨regs₁, pc, steps, executed, _⟩ regs₂ (hset 0)
        · exact fault_agree _ ⟨regs₁, pc, steps, executed, some map⟩ regs₂ _
    · exact fault_agree _ ⟨regs₁, pc, steps, executed, some map⟩ regs₂ _

/-- One instruction on two register files that agree on what it reads: the
    same stop, or the same continuation up to registers that were already
    different and are not written. -/
theorem execInsn_agree (undef : CExpr → U64) (p : EbpfProg) {e : U64} {dst src : Fin 11}
    (hd : dst.val = (insnDst e).toNat) (hs : src.val = (insnSrc e).toNat) (m : EbpfState)
    {regs₂ : RegFile} (h : AgreeOn (insnReads e) m.regs regs₂) :
    Exec.OutcomeRel (RegsRel (AgreeAfter e m.regs regs₂))
      (execInsn undef p (decodeInsn e) dst src m)
      (execInsn undef p (decodeInsn e) dst src { m with regs := regs₂ }) := by
  have hset : insnWrites e = regBit dst.val → ∀ v q, AgreeAfter e m.regs regs₂ q →
      m.regs.set dst v q = RegFile.set regs₂ dst v q := by
    intro hw v q hq
    by_cases hqd : q = dst
    · subst hqd; simp
    · rw [RegFile.set_ne _ _ _ _ hqd, RegFile.set_ne _ _ _ _ hqd]
      refine hq.resolve_left fun hr => hqd ?_
      rw [hw, hasReg_regBit (by omega) (by omega)] at hr
      exact Fin.ext (of_decide_eq_true hr)
  unfold execInsn
  split
  · next hcls =>
    have halu : isAluCls (insnCls e) := (isAluCls_iff _).mpr hcls
    have hw : insnWrites e = regBit dst.val := by
      unfold insnWrites
      rw [if_pos, hd]
      exact (isAluCls_iff _).mp halu |>.elim (fun h => .inr (.inr h)) (fun h => .inr (.inl h))
    unfold aluStep
    simp only [aluExpr_congr hd hs halu h]
    split
    · rfl
    · exact advance_agree m regs₂ (hset hw _)
  · split
    · next hcls =>
      have hjmp : isJmpCls (insnCls e) := (isJmpCls_iff _).mpr hcls
      unfold jmpStep
      split
      · next hcall => exact callStep_agree p hjmp hcall.2 m h
      -- the same jump on both sides
      · have hout : jmpOut (decodeInsn e) dst src m.regs = jmpOut (decodeInsn e) dst src regs₂ := by
          by_cases hhi : insnHi e = 0x80
          · rw [jmpOut_call (i := decodeInsn e) hhi, jmpOut_call (i := decodeInsn e) hhi]
          · exact jmpOut_congr hd hs hjmp hhi h
        dsimp only
        rw [← hout]
        split
        · rfl
        · rfl
        · next hexit =>
          have h0 : m.regs 0 = regs₂ 0 := h 0 (by
            rw [insnReads_exit hjmp (jmpOut_exit hexit)]; decide)
          rw [h0]
          rfl
        · next b htaken =>
          have hw : insnWrites e = 0 := insnWrites_jmp hjmp (jmpOut_taken htaken).2.1
          refine ⟨rfl, fun q hq => hq.resolve_left ?_⟩
          rw [hw, hasReg_zero]
          simp
    · split
      · next hcls =>
        have hldx : insnCls e = CLS_LDX := hcls
        -- the address is the same, so both fault or load the same value
        have hw : insnWrites e = regBit dst.val := by
          unfold insnWrites
          rw [if_pos (.inl hldx), hd]
        have hsrc : m.regs src = regs₂ src := h src (by
          rw [insnReads_ldx hldx, ← hs, hasReg_regBit (by omega) (by omega)]; simp)
        unfold ldxStep
        have haddr : ldxAddr (decodeInsn e) src regs₂ = ldxAddr (decodeInsn e) src m.regs := by
          unfold ldxAddr; rw [hsrc]
        simp only [haddr]
        split
        · rfl
        · split
          · rfl
          · exact advance_agree m regs₂ (hset hw _)
      · split <;> rfl

/-- One loop turn on two register files that agree on what it reads. -/
theorem fetchExec_agree (undef : CExpr → U64) (p : EbpfProg) (m : EbpfState) {regs₂ : RegFile}
    (h : AgreeOn (insnReads (p.ins m.pc.toNat)) m.regs regs₂) :
    Exec.OutcomeRel (RegsRel (AgreeAfter (p.ins m.pc.toNat) m.regs regs₂))
      (fetchExec undef p m) (fetchExec undef p { m with regs := regs₂ }) := by
  unfold fetchExec
  dsimp only
  split
  · exact execInsn_agree undef p rfl rfl m.fetched h
  · exact fault_agree _ m.fetched regs₂ _

/-! ## The tables and the step loop -/

/-- Two outcomes of the instruction `e` that the program cannot tell apart:
    the same result, or configurations that differ in their registers only
    and hold the same in those `e` writes. -/
inductive SameOutcome (e : U64) : EbpfState ⊕ EbpfResult → EbpfState ⊕ EbpfResult → Prop where
  | stops (r : EbpfResult) : SameOutcome e (.inr r) (.inr r)
  | continues {m₁ m₂ : EbpfState} : m₂ = { m₁ with regs := m₂.regs } →
      (∀ q : Fin 11, hasReg (insnWrites e) q → m₁.regs q = m₂.regs q) →
      SameOutcome e (.inl m₁) (.inl m₂)

/-- What the tables promise about one turn of the loop at `m`. -/
structure TablesAgree (undef : CExpr → U64) (p : EbpfProg) (m : EbpfState) : Prop where
  succ : ∀ m', ebpfStep undef p m = .inl m' → m'.pc ∈ insnSucc (p.ins m.pc.toNat) m.pc
  writes : ∀ m', ebpfStep undef p m = .inl m' → ∀ q : Fin 11,
    hasReg (insnWrites (p.ins m.pc.toNat)) q = false → m'.regs q = m.regs q
  reads : ∀ regs₂, AgreeOn (insnReads (p.ins m.pc.toNat)) m.regs regs₂ →
    SameOutcome (p.ins m.pc.toNat) (ebpfStep undef p m) (ebpfStep undef p { m with regs := regs₂ })

theorem SameOutcome.of_agree {e : U64} {regs₁ regs₂ : RegFile} {o₁ o₂ : EbpfState ⊕ EbpfResult}
    (h : Exec.OutcomeRel (RegsRel (AgreeAfter e regs₁ regs₂)) o₁ o₂) : SameOutcome e o₁ o₂ := by
  cases o₁ with
  | inl m₁ =>
    cases o₂ with
    | inl m₂ => exact .continues h.1 fun q hq => h.2 q (.inl hq)
    | inr r₂ => exact h.elim
  | inr r₁ =>
    cases o₂ with
    | inl m₂ => exact h.elim
    | inr r₂ =>
      obtain rfl : r₁ = r₂ := h
      exact .stops r₁

/-- A turn that continues has passed both limit checks. -/
theorem ebpfStep_inl {undef : CExpr → U64} {p : EbpfProg} {m m' : EbpfState}
    (h : ebpfStep undef p m = .inl m') :
    m.pc < p.insnCnt ∧ m.steps + 1 ≤ p.maxSteps ∧ fetchExec undef p m = .inl m' := by
  unfold ebpfStep EbpfState.fault at h
  split at h
  · cases h
  · next hpc =>
    split at h
    · cases h
    · next hsteps => exact ⟨BitVec.not_le.mp hpc, BitVec.not_lt.mp hsteps, h⟩

/-- **One-step agreement.** For every instruction word, wherever it stands
    and whatever the registers, the context and the map hold: the loop
    continues at a successor, changes only registers of the write set, and
    its outcome depends only on registers of the read set. -/
theorem ebpfStep_tables (undef : CExpr → U64) (p : EbpfProg) (m : EbpfState) :
    TablesAgree undef p m where
  succ := by
    intro m' h
    exact fetchExec_succ (ebpfStep_inl h).2.2
  writes := by
    intro m' h q hq
    exact fetchExec_frame (ebpfStep_inl h).2.2 hq
  reads := by
    intro regs₂ h
    have hturn := fetchExec_agree undef p m h
    apply SameOutcome.of_agree
    unfold ebpfStep
    dsimp only
    -- the limit checks look at no register
    split
    · exact fault_agree _ m regs₂ _
    · split
      · exact fault_agree _ { m with steps := m.steps + 1 } regs₂ _
      · exact hturn

end Interclus

import Interclus.Verifier.Accepted
import Interclus.Verifier.StepAgreement

/-! # Verifier Soundness

    An accepted image never leaves its program, stores, meets an unknown
    opcode or makes a bad helper call.  What the scan admits rules these
    causes out one instruction at a time; the configurations of a run stay
    inside the image because control only moves along `insn_succ`. -/

namespace Interclus

open Words

/-! ## The configurations of a run -/

/-- The configurations `ebpf_run` passes through. -/
structure EbpfProg.Visits (undef : CExpr → U64) (p : EbpfProg) (m : EbpfState) : Prop where
  cnt_pos : p.insnCnt ≠ 0
  cnt_le : p.insnCnt ≤ EBPF_MAX_INSNS
  reaches : Exec.Reaches (ebpfStep undef p) (ebpfEntry p (entryRegs p)) m

/-- A run that returns either refused the program length or stopped at a
    configuration it visited. -/
theorem ebpfRun_some {undef : CExpr → U64} {p : EbpfProg} {fuel : Nat} {r : EbpfResult}
    (h : ebpfRun undef p fuel = some r) :
    (p.insnCnt = 0 ∨ EBPF_MAX_INSNS < p.insnCnt) ∨
      ∃ m, p.Visits undef m ∧ ebpfStep undef p m = .inr r := by
  unfold ebpfRun ebpfRunFrom at h
  split at h
  · next hcnt => exact .inl hcnt
  · next hcnt =>
    rw [not_or] at hcnt
    obtain ⟨m, hreach, hstop⟩ := Exec.run_some h
    exact .inr ⟨m, ⟨hcnt.1, BitVec.not_lt.mp hcnt.2, hreach⟩, hstop⟩

/-- How a turn stops: outside the program, at the step cap, or in its
    instruction. -/
theorem ebpfStep_inr {undef : CExpr → U64} {p : EbpfProg} {m : EbpfState} {r : EbpfResult}
    (h : ebpfStep undef p m = .inr r) :
    p.insnCnt ≤ m.pc ∨ r.fault = .steps ∨ fetchExec undef p m = .inr r := by
  unfold ebpfStep EbpfState.fault at h
  split at h
  · next hpc => exact .inl hpc
  · split at h
    · cases h; exact .inr (.inl rfl)
    · exact .inr (.inr h)

/-- A turn that continues has counted one step. -/
theorem ebpfStep_steps {undef : CExpr → U64} {p : EbpfProg} {m m' : EbpfState}
    (h : ebpfStep undef p m = .inl m') : m'.steps = m.steps + 1 := by
  obtain ⟨_, _, hc⟩ := fetchExec_inl (ebpfStep_inl h).2.2
  cases hc <;> rfl

/-- A run ends within its step cap, unless that is the largest word. -/
theorem ebpfRun_terminates (undef : CExpr → U64) (p : EbpfProg) (hmax : p.maxSteps ≠ 0xFFFFFFFF) :
    ∃ r, ebpfRun undef p (p.maxSteps.toNat + 1) = some r := by
  unfold ebpfRun ebpfRunFrom
  split
  · exact ⟨_, rfl⟩
  · have hentry : (0 : U32) ≤ p.maxSteps := Nat.zero_le p.maxSteps.toNat
    refine Exec.run_terminates (I := fun m => m.steps ≤ p.maxSteps)
      (fun m => p.maxSteps.toNat - m.steps.toNat) (fun m m' _ hs => ?_) hentry (by omega)
    -- the counter does not wrap below the cap
    have hle := (ebpfStep_inl hs).2.1
    rw [ebpfStep_steps hs]
    exact ⟨hle, by bv_omega⟩

/-! ## What the scan admits -/

/-- An instruction word that passed the scan. -/
structure InsnAdmitted (e : U64) : Prop where
  dst_lt : (insnDst e).toNat < 11
  src_lt : (insnSrc e).toNat < 11
  ldx_dst : insnCls e = CLS_LDX → insnDst e ≠ 10
  known : opcodeKnown (insnOp e)
  swapSize : isAluCls (insnCls e) → insnHi e = 0xd0 → insnSrcX e →
    e >>> 32 = 16 ∨ e >>> 32 = 32 ∨ e >>> 32 = 64
  call : isJmpCls (insnCls e) → insnHi e = 0x80 →
    insnCls e ≠ CLS_JMP32 ∧ ((decodeInsn e).imm = 1 ∨ (decodeInsn e).imm = 2)

theorem scanInsn_admitted {e : U64} {pc cnt : Nat} (h : scanInsn e pc cnt) : InsnAdmitted e := by
  unfold scanInsn at h
  by_cases hregs : 10 < insnDst e ∨ 10 < insnSrc e
  · rw [if_pos hregs] at h
    cases h
  rw [if_neg hregs] at h
  by_cases hldx : insnCls e = 0x01 ∧ insnDst e = 10
  · rw [if_pos hldx] at h
    cases h
  rw [if_neg hldx] at h
  by_cases hknown : ¬ opcodeKnown (insnOp e)
  · rw [if_pos hknown] at h
    cases h
  rw [if_neg hknown] at h
  by_cases hswap : isAluCls (insnCls e) ∧ insnHi e = 0xd0 ∧ insnSrcX e ∧
      e >>> 32 ≠ 16 ∧ e >>> 32 ≠ 32 ∧ e >>> 32 ≠ 64
  · rw [if_pos hswap] at h
    cases h
  rw [if_neg hswap] at h
  rw [not_or, BitVec.not_lt, BitVec.not_lt] at hregs
  have hd : (insnDst e).toNat ≤ 10 := hregs.1
  have hs : (insnSrc e).toNat ≤ 10 := hregs.2
  refine ⟨by omega, by omega, fun hc hd => hldx ⟨hc, hd⟩, by simpa using hknown, ?_, ?_⟩
  · intro halu hhi hx
    by_contra hne
    simp only [not_or] at hne
    exact hswap ⟨halu, hhi, hx, hne⟩
  -- a helper call: the scan admits helpers 1 and 2 only
  · intro hjmp hhi
    have hexit : insnHi e ≠ 0x90 := by rw [hhi]; decide
    simp only [hjmp, if_true, if_neg hexit, if_pos hhi] at h
    split at h
    · cases h
    · next h32 =>
      split at h
      · cases h
      · refine ⟨h32, ?_⟩
        rw [decodeInsn_imm]
        simp only [decide_eq_true_eq, not_or] at h
        obtain ⟨h0, h2⟩ := h
        bv_omega

theorem Accepted.admitted {ins : Nat → U64} {cnt : U32} (h : Accepted ins cnt) {pc : Nat}
    (hpc : pc < cnt.toNat) : InsnAdmitted (ins pc) :=
  scanInsn_admitted (h.scan pc hpc)

theorem opcodeKnown_alu (op : U8) : opcodeKnown op → isAluCls (op &&& 0x07) →
    AluOp.ofCode? (op &&& 0xf0) ≠ none := by
  revert op; decide +kernel

theorem opcodeKnown_jmp (op : U8) : opcodeKnown op → isJmpCls (op &&& 0x07) →
    JmpOp.ofCode? (op &&& 0xf0) ≠ none := by
  revert op; decide +kernel

theorem opcodeKnown_ldx (op : U8) : opcodeKnown op → op &&& 0x07 = CLS_LDX →
    op &&& 0xe0 = MODE_MEM := by
  revert op; decide +kernel

theorem opcodeKnown_cls (op : U8) : opcodeKnown op →
    ¬ (op &&& 0x07 = CLS_ST ∨ op &&& 0x07 = CLS_STX) ∧ op &&& 0x07 ≠ 0 := by
  revert op; decide +kernel

/-- A load's base register is typed as the context pointer, which `r10`
    never is. -/
theorem RegSolution.ldx_src {ins : Nat → U64} {cnt : Nat} {types : Nat → U32}
    (sol : RegSolution ins cnt types) {pc : Nat} (hpc : pc < cnt)
    (hcls : insnCls (ins pc) = CLS_LDX) : (insnSrc (ins pc)).toNat ≠ 10 := by
  intro hsrc
  have hall := List.all_eq_true.mp (sol.reads pc hpc) 10 (by decide)
  have hread : hasReg (insnReads (ins pc)) 10 = true := by
    rw [insnReads_ldx hcls, hsrc]; decide
  simp only [hread, Bool.not_true, Bool.false_or, decide_eq_true_eq] at hall
  have hctx : regType (types pc) 10 = T_CTX := by
    by_contra hne
    exact hall.2.1 ⟨hcls, hne⟩
  exact sol.fp pc hctx

/-- A division observes its second operand. -/
theorem aluArg_divMod {i : EbpfInsn} (hop : i.op = AluOp.div.code ∨ i.op = AluOp.mod.code)
    (src : Fin 11) (regs : RegFile) :
    aluArg i src regs = if i.srcX then regs src
      else if i.cls = CLS_ALU64 then i.imm.signExtend 64 else i.imm.setWidth 64 := by
  have hne : i.op ≠ AluOp.neg.code ∧ i.op ≠ AluOp.end.code := by
    rcases hop with h | h <;> rw [h] <;> decide
  unfold aluArg
  rw [if_pos hne]

/-- An immediate operand is zero at either width only when the immediate is. -/
theorem aluArg_imm_eq_zero {i : EbpfInsn} (hop : i.op = AluOp.div.code ∨ i.op = AluOp.mod.code)
    (hx : i.srcX = false) {src : Fin 11} {regs : RegFile} (h : aluArg i src regs = 0) :
    i.imm = 0 := by
  rw [aluArg_divMod hop, hx, if_neg (by decide)] at h
  split at h
  · have := congrArg BitVec.toInt h
    rw [BitVec.toInt_signExtend_of_le (by decide)] at this
    exact BitVec.eq_of_toInt_eq this
  · bv_omega

/-! ## What an accepted image can end with -/

/-- The instruction each fault of an accepted image comes from. -/
structure Blames (i : EbpfInsn) (f : EbpfFault) : Prop where
  mem : f = .mem → i.cls = CLS_LDX
  fp : f = .fp → isAluCls i.cls ∧ i.dst = 10
  div0 : f = .div0 → isAluCls i.cls ∧ (i.op = AluOp.div.code ∨ i.op = AluOp.mod.code) ∧ i.srcX

theorem blames_ok (i : EbpfInsn) : Blames i .ok := ⟨nofun, nofun, nofun⟩

theorem blames_steps (i : EbpfInsn) : Blames i .steps := ⟨nofun, nofun, nofun⟩

/-- The faults an accepted image can end with. -/
def acceptedFaults : List EbpfFault := [.ok, .steps, .mem, .div0, .fp]

/-- What the run of an accepted image preserves. -/
structure InImage (p : EbpfProg) (m : EbpfState) : Prop where
  pc_lt : m.pc.toNat < p.insnCnt.toNat
  map_some : m.map.isSome

/-- Step lemma: control moves to an instruction of the image, and the map
    stays where it is. -/
theorem InImage.step {undef : CExpr → U64} {p : EbpfProg} {types : Nat → U32}
    (sol : RegSolution p.ins p.insnCnt.toNat types) {m m' : EbpfState} (h : InImage p m)
    (hstep : ebpfStep undef p m = .inl m') : InImage p m' := by
  have hturn := (ebpfStep_inl hstep).2.2
  have hsucc := fetchExec_succ hturn
  refine ⟨sol.succ_lt m.pc.toNat h.pc_lt _ (by rwa [BitVec.ofNat_toNat, BitVec.setWidth_eq]), ?_⟩
  obtain ⟨_, _, hc⟩ := fetchExec_inl hturn
  cases hc with
  | alu => exact h.map_some
  | call => rfl
  | jmp => exact h.map_some
  | ldx => exact h.map_some

/-- Run lemma: every configuration an accepted image visits is in the image. -/
theorem InImage.of_visits {undef : CExpr → U64} {p : EbpfProg}
    (hacc : Accepted p.ins p.insnCnt) (hmap : p.map.isSome) {m : EbpfState}
    (hm : p.Visits undef m) : InImage p m := by
  obtain ⟨types, sol⟩ := hacc.solution
  exact hm.reaches.invariant (fun _ _ h hs => h.step sol hs) ⟨hacc.cnt_pos, hmap⟩

/-- A helper call without a usable map. -/
structure CallRefused (p : EbpfProg) (m : EbpfState) (r : EbpfResult) : Prop where
  fault : r.fault = .call
  cls : (p.insnAt m.pc).cls = CLS_JMP
  op : (p.insnAt m.pc).op = JmpOp.call.code
  unusable : m.map = none ∨ mapUsable p.mapCells = false

/-- One instruction of an accepted image: the causes left to stop at it. -/
theorem Stops.of_accepted {p : EbpfProg} (hacc : Accepted p.ins p.insnCnt) {m m' : EbpfState}
    (hpc : m.pc.toNat < p.insnCnt.toNat) {dst src : Fin 11}
    (hd : dst.val = (insnDst (p.ins m.pc.toNat)).toNat)
    (hs : src.val = (insnSrc (p.ins m.pc.toNat)).toNat) (hmap : m'.map = m.map) {r : EbpfResult}
    (h : Stops p (p.insnAt m.pc) dst src m' r) :
    (r.fault ∈ acceptedFaults ∧ Blames (p.insnAt m.pc) r.fault) ∨ CallRefused p m r := by
  obtain ⟨types, sol⟩ := hacc.solution
  have hadm := hacc.admitted hpc
  cases h with
  | exit => exact .inl ⟨show EbpfFault.ok ∈ _ by decide, blames_ok _⟩
  | fp hcls hfp =>
    refine .inl ⟨show EbpfFault.fp ∈ _ by decide, nofun, fun _ => ⟨hcls, ?_⟩, nofun⟩
    have hten : (insnDst (p.ins m.pc.toNat)).toNat = 10 := by rw [← hd, hfp]; rfl
    exact BitVec.eq_of_toNat_eq hten
  | div0 hcls _ hop h0 =>
    refine .inl ⟨show EbpfFault.div0 ∈ _ by decide, nofun, nofun, fun _ => ⟨hcls, hop, ?_⟩⟩
    -- an immediate zero would have failed the register gate
    by_contra hx
    have himm := aluArg_imm_eq_zero hop (by simpa using hx) h0
    have hdiv := sol.divImm m.pc.toNat hpc
    simp only [divByImmZero, decide_eq_false_iff_not] at hdiv
    exact hdiv ⟨hcls, hop, hx, (decodeInsn_imm_eq_iff _ 0).mp himm⟩
  | swapSize hcls hop hx h16 h32 h64 =>
    -- the scan compared all 32 bits of the size
    have himm : (p.insnAt m.pc).imm =
        ((p.ins m.pc.toNat >>> 32) &&& 0xffffffff).setWidth 32 := rfl
    rcases hadm.swapSize hcls hop hx with h | h | h <;> rw [h] at himm <;>
      rw [himm] at h16 h32 h64
    · exact absurd (by decide) h16
    · exact absurd (by decide) h32
    · exact absurd (by decide) h64
  | aluOpcode hcls hop => exact absurd hop (opcodeKnown_alu _ hadm.known hcls)
  | jmpOpcode hcls hop => exact absurd hop (opcodeKnown_jmp _ hadm.known hcls)
  | call32 hcls hop =>
    exact absurd hcls (hadm.call ((isJmpCls_iff _).mpr (.inr hcls)) hop).1
  | call hcls hop hwhy =>
    have himm := (hadm.call ((isJmpCls_iff _).mpr (.inl hcls)) hop).2
    rcases hwhy with hnone | hbad | ⟨h1, h2⟩
    · exact .inr ⟨rfl, hcls, hop, .inl (hmap ▸ hnone)⟩
    · exact .inr ⟨rfl, hcls, hop, .inr hbad⟩
    · exact (himm.elim h1 h2).elim
  | ldxOpcode hcls hwhy =>
    rcases hwhy with hmode | hsrc | hdst
    · exact absurd (opcodeKnown_ldx _ hadm.known hcls) hmode
    · have := sol.ldx_src hpc hcls
      rw [← hs, hsrc] at this
      exact absurd rfl this
    · have hten : (insnDst (p.ins m.pc.toNat)).toNat = 10 := by rw [← hd, hdst]; rfl
      exact absurd (BitVec.eq_of_toNat_eq hten) (hadm.ldx_dst hcls)
  | mem hcls => exact .inl ⟨show EbpfFault.mem ∈ _ by decide, fun _ => hcls, nofun, nofun⟩
  | store hcls => exact absurd hcls (opcodeKnown_cls _ hadm.known).1
  | noClass hcls => exact absurd hcls (opcodeKnown_cls _ hadm.known).2

/-- One turn of an accepted image: how it can stop. -/
theorem ebpfStep_stop_of_accepted {undef : CExpr → U64} {p : EbpfProg}
    (hacc : Accepted p.ins p.insnCnt) {m : EbpfState} (hpc : m.pc.toNat < p.insnCnt.toNat)
    {r : EbpfResult} (h : ebpfStep undef p m = .inr r) :
    (r.fault ∈ acceptedFaults ∧ Blames (p.insnAt m.pc) r.fault) ∨ CallRefused p m r := by
  rcases ebpfStep_inr h with hout | hsteps | hturn
  · exact absurd hpc (Nat.not_lt.mpr hout)
  · rw [hsteps]
    exact .inl ⟨by decide, blames_steps _⟩
  · rcases fetchExec_inr hturn with ⟨hd, hs, hst⟩ | hregs
    · have hmap' : m.fetched.map = m.map := rfl
      exact hst.of_accepted hacc hpc rfl rfl hmap'
    · have hadm := hacc.admitted hpc
      exact absurd ⟨hadm.dst_lt, hadm.src_lt⟩ hregs

theorem mapUsable_of_two_pow {cells : U32} (h : ∃ k, cells.toNat = 2 ^ k) :
    mapUsable cells = true := by
  obtain ⟨k, hk⟩ := h
  have hlt : k < 32 := (Nat.pow_lt_pow_iff_right (by decide : 1 < 2)).mp (hk ▸ cells.isLt)
  have hall : ∀ k, k < 32 → mapUsable (BitVec.ofNat 32 (2 ^ k)) = true := by decide
  have heq : cells = BitVec.ofNat 32 (2 ^ k) := by
    rw [← hk, BitVec.ofNat_toNat, BitVec.setWidth_eq]
  rw [heq]
  exact hall k hlt

/-- **Soundness.** With a map of a power-of-two number of cells, a run of an
    accepted image that returns does so with one of the faults above, at a
    configuration whose instruction the fault can be blamed on. -/
theorem ebpfRun_accepted_fault (undef : CExpr → U64) (p : EbpfProg)
    (hcheck : icProgramCheck (some p.ins) p.insnCnt = .ok) (hmap : p.map.isSome)
    (hcells : ∃ k, p.mapCells.toNat = 2 ^ k) {fuel : Nat} {r : EbpfResult}
    (hrun : ebpfRun undef p fuel = some r) :
    r.fault ∈ [EbpfFault.ok, .steps, .mem, .div0, .fp] ∧
      r.fault ∉ [EbpfFault.pc, .store, .opcode, .call] ∧
      ∃ m, p.Visits undef m ∧ ebpfStep undef p m = .inr r ∧ Blames (p.insnAt m.pc) r.fault := by
  have hacc := icProgramCheck_ok hcheck
  rcases ebpfRun_some hrun with hcnt | ⟨m, hm, hstop⟩
  · have := hacc.cnt_pos
    have := hacc.cnt_le
    unfold EBPF_MAX_INSNS at hcnt
    bv_omega
  · have hin := InImage.of_visits hacc hmap hm
    have hlast : r.fault ∈ acceptedFaults ∧ Blames (p.insnAt m.pc) r.fault := by
      rcases ebpfStep_stop_of_accepted hacc hin.pc_lt hstop with hlast | hcall
      · exact hlast
      · -- the map is there and of a size the code takes
        rcases hcall.unusable with hnone | hcells'
        · have := hin.map_some
          rw [hnone] at this
          cases this
        · rw [mapUsable_of_two_pow hcells] at hcells'
          cases hcells'
    refine ⟨hlast.1, ?_, m, hm, hstop, hlast.2⟩
    have hdisj : ∀ f ∈ acceptedFaults, f ∉ [EbpfFault.pc, .store, .opcode, .call] := by decide
    exact hdisj _ hlast.1

/-- `r0 = *(u32 *)(r1 + 0); exit`, on a context of two bytes. -/
def shortRead : EbpfProg where
  ins := fun k => [0x1061, 0x95].getD k 0
  insnCnt := 2
  mem := fun _ => 0
  ctx := 0x1000
  ctxSize := 2
  maxSteps := 16
  map := some fun _ => 0
  mapCells := 4

/-- The load faults at its own instruction. -/
theorem ebpfRun_accepted_fault_shortRead :
    ∃ r, ebpfRun (fun _ => 0) shortRead 1 = some r ∧ r.fault = .mem ∧
      r.fault ∈ [EbpfFault.ok, .steps, .mem, .div0, .fp] ∧
      r.fault ∉ [EbpfFault.pc, .store, .opcode, .call] ∧
      ∃ m, shortRead.Visits (fun _ => 0) m ∧ ebpfStep (fun _ => 0) shortRead m = .inr r ∧
        Blames (shortRead.insnAt m.pc) r.fault := by
  have hrun : ebpfRun (fun _ => 0) shortRead 1 =
      some ⟨.mem, 0, 1, shortRead.map⟩ := by rfl
  exact ⟨_, hrun, rfl, ebpfRun_accepted_fault (fun _ => 0) shortRead (by decide +kernel) rfl
    ⟨2, rfl⟩ hrun⟩

end Interclus

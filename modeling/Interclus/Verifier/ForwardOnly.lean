import Interclus.Policy.Screening
import Interclus.Verifier.Soundness

/-! # Forward Programs

    An accepted program whose branches all go forward: every instruction
    runs at most once, so a step cap of the program's length is never met.
    The two built-in policies are such programs. -/

namespace Interclus

open Words

/-- No branch of the instruction goes backward.  Exits and helper calls
    have no target. -/
def ForwardInsn (e : U64) : Prop :=
  isJmpCls (insnCls e) → insnHi e ≠ 0x90 → insnHi e ≠ 0x80 → 0 ≤ (insnOff e).toInt

instance (e : U64) : Decidable (ForwardInsn e) := by unfold ForwardInsn; infer_instance

/-- Every successor of a forward instruction comes after it. -/
theorem insnSucc_gt {e : U64} (he : ForwardInsn e) {pc s : U32} (hpc : pc.toNat < 64)
    (hs : s ∈ insnSucc e pc) : pc.toNat < s.toNat := by
  have hnext : pc.toNat < (pc + 1).toNat := by bv_omega
  have htarget : 0 ≤ (insnOff e).toInt → pc.toNat < (insnTarget e pc).toNat := by
    intro hoff
    have hval : ((insnOff e).signExtend 32).toInt = (insnOff e).toInt :=
      BitVec.toInt_signExtend_of_le (by decide)
    have hlt := BitVec.toInt_lt (x := insnOff e)
    unfold insnTarget
    rw [BitVec.toInt_eq_toNat_cond] at hval
    split at hval <;> bv_omega
  unfold insnSucc at hs
  dsimp only at hs
  by_cases hjmp : isJmpCls (insnCls e) = true
  · rw [if_pos hjmp] at hs
    by_cases hexit : insnHi e = 0x90
    · rw [if_pos hexit] at hs
      exact absurd hs List.not_mem_nil
    rw [if_neg hexit] at hs
    by_cases hja : insnHi e = 0x00
    · rw [if_pos hja, List.mem_singleton] at hs
      subst hs
      exact htarget (he hjmp hexit (by rw [hja]; decide))
    rw [if_neg hja] at hs
    by_cases hcall : insnHi e = 0x80
    · rw [if_pos hcall, List.mem_singleton] at hs
      subst hs
      exact hnext
    rw [if_neg hcall] at hs
    rcases List.mem_cons.mp hs with rfl | hs
    · exact hnext
    · rw [List.mem_singleton] at hs
      subst hs
      exact htarget (he hjmp hexit hcall)
  · rw [if_neg hjmp, List.mem_singleton] at hs
    subst hs
    exact hnext

/-- A run over a forward program: it is in the image, and has taken no more
    steps than instructions lie behind it. -/
structure ForwardRun (p : EbpfProg) (m : EbpfState) : Prop where
  pc_lt : m.pc.toNat < p.insnCnt.toNat
  steps_le : m.steps.toNat ≤ m.pc.toNat
  executed : m.insnsExecuted = m.steps

section Forward
variable {undef : CExpr → U64} {p : EbpfProg}

/-- A turn that continues has counted its instruction. -/
theorem ebpfStep_executed {m m' : EbpfState} (h : ebpfStep undef p m = .inl m') :
    m'.insnsExecuted = m.insnsExecuted + 1 := by
  obtain ⟨_, _, hc⟩ := fetchExec_inl (ebpfStep_inl h).2.2
  cases hc <;> rfl

/-- A turn that continues stays in the image and goes forward. -/
theorem ForwardRun.step (hacc : Accepted p.ins p.insnCnt)
    (hfwd : ∀ pc < p.insnCnt.toNat, ForwardInsn (p.ins pc)) {m m' : EbpfState}
    (h : ForwardRun p m) (hstep : ebpfStep undef p m = .inl m') :
    ForwardRun p m' ∧ m.pc.toNat < m'.pc.toNat := by
  obtain ⟨types, sol⟩ := hacc.solution
  have hcnt := hacc.cnt_le
  have hlt := h.pc_lt
  have hle := h.steps_le
  have hsucc := fetchExec_succ (ebpfStep_inl hstep).2.2
  have hlater := insnSucc_gt (hfwd m.pc.toNat hlt) (by omega) hsucc
  refine ⟨⟨sol.succ_lt m.pc.toNat hlt _ ?_, ?_, ?_⟩, hlater⟩
  · rwa [BitVec.ofNat_toNat, BitVec.setWidth_eq]
  · rw [ebpfStep_steps hstep]
    bv_omega
  · rw [ebpfStep_executed hstep, ebpfStep_steps hstep, h.executed]

/-- How the turn at a configuration of a forward run can stop. -/
theorem ForwardRun.stop (hacc : Accepted p.ins p.insnCnt) {m : EbpfState} (h : ForwardRun p m)
    {r : EbpfResult} (hstop : ebpfStep undef p m = .inr r) :
    r.fault ≠ .pc ∧ r.insnsExecuted ≤ p.insnCnt ∧
      (p.insnCnt ≤ p.maxSteps → r.fault ≠ .steps) := by
  have hcnt := hacc.cnt_le
  have hlt := h.pc_lt
  have hle := h.steps_le
  have hin : ¬ p.insnCnt ≤ m.pc := by bv_omega
  unfold ebpfStep at hstop
  rw [if_neg hin] at hstop
  by_cases hsteps : p.maxSteps < m.steps + 1
  · -- the cap is met, and it is less than the length
    rw [if_pos hsteps] at hstop
    obtain rfl := Sum.inr.inj hstop
    refine ⟨EbpfFault.noConfusion, ?_, fun hcap => ?_⟩
    · show m.insnsExecuted ≤ p.insnCnt
      rw [h.executed]
      bv_omega
    · exfalso
      bv_omega
  · rw [if_neg hsteps] at hstop
    have hadm := hacc.admitted hlt
    rcases fetchExec_inr hstop with ⟨hd, hs, hst⟩ | hregs
    · have hexecuted : r.insnsExecuted = m.insnsExecuted + 1 := by cases hst <;> rfl
      refine ⟨?_, ?_, fun _ => ?_⟩
      · cases hst <;> exact EbpfFault.noConfusion
      · rw [hexecuted, h.executed]
        bv_omega
      · cases hst <;> exact EbpfFault.noConfusion
    · exact absurd ⟨hadm.dst_lt, hadm.src_lt⟩ hregs

/-- **Forward programs.** An accepted program whose branches go forward ends
    within as many turns as it has instructions, whatever its step cap; it
    executes no more of them and control never leaves it; and with a step
    cap of its length it is never stopped for its steps. -/
theorem ebpfRun_forward (undef : CExpr → U64) (p : EbpfProg)
    (hcheck : icProgramCheck (some p.ins) p.insnCnt = .ok)
    (hfwd : ∀ pc < p.insnCnt.toNat, ForwardInsn (p.ins pc)) :
    ∃ r, (∀ fuel, p.insnCnt.toNat ≤ fuel → ebpfRun undef p fuel = some r) ∧
      r.fault ≠ .pc ∧ r.insnsExecuted ≤ p.insnCnt ∧
      (p.insnCnt ≤ p.maxSteps → r.fault ≠ .steps) := by
  have hacc := icProgramCheck_ok hcheck
  have hpos := hacc.cnt_pos
  have hcnt := hacc.cnt_le
  have hentry : ForwardRun p (ebpfEntry p (entryRegs p)) := ⟨hpos, Nat.le_refl _, rfl⟩
  -- the program counter only grows
  have hturn : ∀ m m', ForwardRun p m → ebpfStep undef p m = .inl m' →
      ForwardRun p m' ∧ p.insnCnt.toNat - 1 - m'.pc.toNat < p.insnCnt.toNat - 1 - m.pc.toNat := by
    intro m m' h hstep
    obtain ⟨h', hlater⟩ := h.step hacc hfwd hstep
    have hlt := h'.pc_lt
    exact ⟨h', by omega⟩
  have hfuel : p.insnCnt.toNat - 1 - (ebpfEntry p (entryRegs p)).pc.toNat < p.insnCnt.toNat := by
    omega
  obtain ⟨r, hrun⟩ := Exec.run_terminates (fun m => p.insnCnt.toNat - 1 - m.pc.toNat) hturn hentry
    hfuel
  obtain ⟨m, hreach, hstop⟩ := Exec.run_some hrun
  have hm : ForwardRun p m := hreach.invariant (fun m m' h hstep => (hturn m m' h hstep).1) hentry
  refine ⟨r, fun fuel hfuel => ?_, hm.stop hacc hstop⟩
  have hbounds : ¬ (p.insnCnt = 0 ∨ EBPF_MAX_INSNS < p.insnCnt) := by
    unfold EBPF_MAX_INSNS
    bv_omega
  obtain ⟨k, rfl⟩ := Nat.exists_eq_add_of_le hfuel
  unfold ebpfRun ebpfRunFrom
  rw [if_neg hbounds]
  exact Exec.run_mono hrun k

end Forward

/-- The screening policy, with a step cap. -/
def forwardProg (cap : U32) : EbpfProg where
  ins := policyConflict
  insnCnt := POLICY_CONFLICT_CNT
  mem := fun _ => 0
  ctx := 0x1000
  ctxSize := 48
  maxSteps := cap
  map := some fun _ => 0
  mapCells := 64

/-- With a cap of its length, and with one it can meet. -/
theorem ebpfRun_forward_screening :
    (∃ r, (∀ fuel, 34 ≤ fuel → ebpfRun (fun _ => 0) (forwardProg 34) fuel = some r) ∧
      r.fault ≠ .pc ∧ r.insnsExecuted ≤ 34 ∧ r.fault ≠ .steps) ∧
    ∃ r, (∀ fuel, 34 ≤ fuel → ebpfRun (fun _ => 0) (forwardProg 3) fuel = some r) ∧
      r.fault ≠ .pc ∧ r.insnsExecuted ≤ 34 := by
  obtain ⟨r, hrun, hpc, hexec, hsteps⟩ :=
    ebpfRun_forward (fun _ => 0) (forwardProg 34) (by decide +kernel) (by decide +kernel)
  obtain ⟨r', hrun', hpc', hexec', -⟩ :=
    ebpfRun_forward (fun _ => 0) (forwardProg 3) (by decide +kernel) (by decide +kernel)
  exact ⟨⟨r, hrun, hpc, hexec, hsteps (by decide)⟩, r', hrun', hpc', hexec'⟩

end Interclus

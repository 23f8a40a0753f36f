import Interclus.Verifier.Accepted
import Interclus.Verifier.StepAgreement

/-! # Uninitialised Registers Are Unobservable

    Two runs of an accepted image from register files that agree on `r1`
    proceed in lockstep.  The relation between the two runs: they differ in
    registers only, and agree on every register the verifier types as
    written at the current instruction. -/

namespace Interclus

open Words

/-- Registers the verifier knows to be written before `pc`. -/
def Written (types : Nat → U32) (pc : U32) (q : Fin 11) : Prop :=
  regType (types pc.toNat) q.val ≠ T_BOTTOM

/-- The lockstep relation. -/
structure InStep (types : Nat → U32) (cnt : U32) (m₁ m₂ : EbpfState) : Prop where
  pc_lt : m₁.pc.toNat < cnt.toNat
  regs : RegsRel (Written types m₁.pc) m₁ m₂

section Lockstep
variable {ins : Nat → U64} {cnt : Nat} {types : Nat → U32}

/-- What an instruction reads is written. -/
theorem RegSolution.reads_written (sol : RegSolution ins cnt types) {pc : U32}
    (hpc : pc.toNat < cnt) (q : Fin 11) (hq : hasReg (insnReads (ins pc.toNat)) q.val) :
    Written types pc q := by
  have hall := List.all_eq_true.mp (sol.reads pc.toNat hpc) q.val
    (List.mem_range.mpr q.isLt)
  simp only [hq, Bool.not_true, Bool.false_or, decide_eq_true_eq] at hall
  exact hall.1

/-- What is written at a successor is written here, or by the instruction. -/
theorem RegSolution.written_succ (sol : RegSolution ins cnt types) {pc pc' : U32}
    (hpc : pc.toNat < cnt) (hsucc : pc' ∈ insnSucc (ins pc.toNat) pc) {q : Fin 11}
    (hq : Written types pc' q) :
    hasReg (insnWrites (ins pc.toNat)) q.val ∨ Written types pc q := by
  have hflow := sol.flows pc.toNat hpc pc' (by rwa [BitVec.ofNat_toNat, BitVec.setWidth_eq])
  have hout : regType (outState (ins pc.toNat) (types pc.toNat)) q.val ≠ T_BOTTOM := by
    intro h0
    apply hq
    rw [← hflow, regType_and, h0]
    exact BitVec.and_zero
  rw [regType_outState _ _ q.isLt] at hout
  by_cases hw : hasReg (insnWrites (ins pc.toNat)) q.val
  · exact .inl hw
  · rw [if_neg hw] at hout
    exact .inr hout

/-- At the entry only `r1` is written. -/
theorem RegSolution.written_entry (sol : RegSolution ins cnt types) {q : Fin 11}
    (hq : Written types 0 q) : q = 1 := by
  by_contra hne
  apply hq
  show regType (types 0) q.val = T_BOTTOM
  have hval : q.val ≠ 1 := fun h => hne (Fin.ext h)
  rw [← sol.entry, regType_and, regType_setType _ (by decide) (by decide) (by omega),
    if_neg hval]
  have h0 : regType 0 q.val = T_BOTTOM := by
    simp [regType, T_BOTTOM]
  rw [h0]
  exact BitVec.and_zero

/-- Step lemma: related configurations take the same step. -/
theorem InStep.step {p : EbpfProg} (undef : CExpr → U64)
    (sol : RegSolution p.ins p.insnCnt.toNat types) {m₁ m₂ : EbpfState}
    (h : InStep types p.insnCnt m₁ m₂) :
    Exec.OutcomeRel (InStep types p.insnCnt) (ebpfStep undef p m₁) (ebpfStep undef p m₂) := by
  obtain ⟨hpc, heq, hregs⟩ := h
  rw [heq]
  have hagree : AgreeOn (insnReads (p.ins m₁.pc.toNat)) m₁.regs m₂.regs :=
    fun q hq => hregs q (sol.reads_written hpc q hq)
  have hturn := fetchExec_agree undef p m₁ hagree
  unfold ebpfStep
  dsimp only
  split
  · exact rfl
  · split
    · exact rfl
    · -- both run the same instruction
      refine hturn.imp fun m₁' m₂' h₁ _ hrel => ?_
      have hsucc := fetchExec_succ h₁
      refine ⟨?_, hrel.1, fun q hq => hrel.2 q ?_⟩
      · exact sol.succ_lt m₁.pc.toNat hpc _ (by rwa [BitVec.ofNat_toNat, BitVec.setWidth_eq])
      · exact (sol.written_succ hpc hsucc hq).imp_right (hregs q)

end Lockstep

/-- **Noninterference.** An accepted image runs the same from any two
    register files with the same `r1`: the same result with any amount of
    fuel, and so the same fault, return value, instruction count and map. -/
theorem ebpfRunFrom_eq_of_accepted (undef : CExpr → U64) (p : EbpfProg)
    (hcheck : icProgramCheck (some p.ins) p.insnCnt = .ok) (regs₁ regs₂ : RegFile)
    (hr1 : regs₁ 1 = regs₂ 1) (fuel : Nat) :
    ebpfRunFrom undef p regs₁ fuel = ebpfRunFrom undef p regs₂ fuel := by
  have hacc := icProgramCheck_ok hcheck
  obtain ⟨types, sol⟩ := hacc.solution
  have hentry : InStep types p.insnCnt (ebpfEntry p regs₁) (ebpfEntry p regs₂) := by
    refine ⟨hacc.cnt_pos, rfl, fun q hq => ?_⟩
    rw [sol.written_entry hq]
    exact hr1
  unfold ebpfRunFrom
  split
  · rfl
  · exact Exec.run_lockstep (fun _ _ h => h.step undef sol) fuel hentry

/-- `r2 = 7; r0 = 1; if r2 > 3 goto +1; r0 = r2; exit`. -/
def guardedReturn : EbpfProg where
  ins := fun k => [0x00000007000002b7, 0x00000001000000b7, 0x0000000300010225, 0x20bf, 0x95].getD k 0
  insnCnt := 5
  mem := fun _ => 0
  ctx := 0x1000
  ctxSize := 16
  maxSteps := 16
  map := some fun _ => 0
  mapCells := 4

/-- Junk in the other registers does not change what it returns. -/
theorem ebpfRunFrom_eq_of_accepted_guardedReturn :
    ebpfRunFrom (fun _ => 0) guardedReturn (entryRegs guardedReturn) 8 =
      ebpfRunFrom (fun _ => 0) guardedReturn (fun q => if q = 1 then 0x1000 else 99) 8 :=
  ebpfRunFrom_eq_of_accepted (fun _ => 0) guardedReturn (by decide +kernel) _ _ (by decide) 8

end Interclus

import Interclus.Verifier.Soundness

/-! # The Step Cap

    `ebpf_run` increments its 32-bit step counter and then compares it with
    `max_steps`.  For every cap but the largest word this ends each run,
    after at most `max_steps` instructions; a counter that wraps to zero
    never exceeds `0xFFFFFFFF`, so with that cap a program that keeps going
    is never stopped.

    `ebpfRun_stepCap_iff` gives the condition for each program. -/

namespace Interclus

open Words

/-! ## A program without a cap -/

section Uncapped
variable (undef : CExpr → U64) (p : EbpfProg)

/-- One turn of the loop as if there were no step cap. -/
def progTurn (m : EbpfState) : EbpfState ⊕ EbpfResult :=
  if p.insnCnt ≤ m.pc then m.fault .pc else fetchExec undef p m

/-- From `m`, `n` instructions are executed without an exit or a fault, and
    the next one is inside the image. -/
def OutlastsFrom (n : Nat) (m : EbpfState) : Prop :=
  ∃ m', Exec.after (progTurn undef p) n m = some m' ∧ m'.pc < p.insnCnt

/-- The same of a run from its entry. -/
def Outlasts (n : Nat) : Prop := OutlastsFrom undef p n (ebpfEntry p (entryRegs p))

/-- What the step cap is for: the run returns, has executed no more than
    `max_steps` instructions, and reports the cap exactly when the program
    would have gone on. -/
def StopsAtCap (r : EbpfResult) : Prop :=
  r.insnsExecuted ≤ p.maxSteps ∧ (r.fault = .steps ↔ Outlasts undef p p.maxSteps.toNat)

def EndsAtCap : Prop := ∃ fuel r, ebpfRun undef p fuel = some r ∧ StopsAtCap undef p r

end Uncapped

section Cap
variable {undef : CExpr → U64} {p : EbpfProg} {m m' : EbpfState}

/-! ## One turn -/

/-- An instruction that stops the program is counted, and does not report
    the cap. -/
theorem fetchExec_stop {r : EbpfResult} (h : fetchExec undef p m = .inr r) :
    r.insnsExecuted = m.insnsExecuted + 1 ∧ r.fault ≠ .steps := by
  unfold fetchExec at h
  dsimp only at h
  split at h
  · have hstops := execInsn_inr h
    cases hstops <;> exact ⟨rfl, nofun⟩
  · cases h
    exact ⟨rfl, nofun⟩

/-- One that does not is counted by both counters. -/
theorem fetchExec_counts (h : fetchExec undef p m = .inl m') :
    m'.steps = m.steps + 1 ∧ m'.insnsExecuted = m.insnsExecuted + 1 := by
  obtain ⟨_, _, hc⟩ := fetchExec_inl h
  cases hc <;> exact ⟨rfl, rfl⟩

theorem outlastsFrom_zero : OutlastsFrom undef p 0 m ↔ m.pc < p.insnCnt := by
  simp [OutlastsFrom, Exec.after]

/-- Outside the image the program has ended. -/
theorem not_outlastsFrom_of_outside {n : Nat} (hpc : p.insnCnt ≤ m.pc) :
    ¬ OutlastsFrom undef p n m := by
  cases n with
  | zero => simpa [outlastsFrom_zero] using hpc
  | succ n => simp [OutlastsFrom, Exec.after, progTurn, hpc, EbpfState.fault]

theorem outlastsFrom_succ {n : Nat} (hpc : m.pc < p.insnCnt) (h : fetchExec undef p m = .inl m') :
    OutlastsFrom undef p (n + 1) m ↔ OutlastsFrom undef p n m' := by
  have hin : ¬ p.insnCnt ≤ m.pc := BitVec.not_le.mpr hpc
  simp [OutlastsFrom, Exec.after, progTurn, hin, h]

theorem not_outlastsFrom_of_stop {n : Nat} {r : EbpfResult} (hpc : m.pc < p.insnCnt)
    (h : fetchExec undef p m = .inr r) : ¬ OutlastsFrom undef p (n + 1) m := by
  have hin : ¬ p.insnCnt ≤ m.pc := BitVec.not_le.mpr hpc
  simp [OutlastsFrom, Exec.after, progTurn, hin, h]

/-! ## The three outcomes of a turn -/

/-- Outside the image, before the cap is looked at. -/
theorem ebpfStep_outside (hpc : p.insnCnt ≤ m.pc) : ebpfStep undef p m = m.fault .pc := if_pos hpc

theorem ebpfStep_capped (hpc : m.pc < p.insnCnt) (hcap : p.maxSteps < m.steps + 1) :
    ebpfStep undef p m = { m with steps := m.steps + 1 }.fault .steps := by
  unfold ebpfStep
  rw [if_neg (BitVec.not_le.mpr hpc), if_pos hcap]

theorem ebpfStep_exec (hpc : m.pc < p.insnCnt) (hcap : ¬ p.maxSteps < m.steps + 1) :
    ebpfStep undef p m = fetchExec undef p m := by
  unfold ebpfStep
  rw [if_neg (BitVec.not_le.mpr hpc), if_neg hcap]

/-! ## Whole runs -/

/-- A run that stands outside the image ends there, below its cap. -/
theorem stopsAtCap_outside {n k : Nat} (hpc : p.insnCnt ≤ m.pc)
    (hsteps : m.steps.toNat + n = p.maxSteps.toNat) (hexec : m.insnsExecuted = m.steps) :
    Exec.Ends (ebpfStep undef p) (k + 1) m fun r =>
      r.insnsExecuted ≤ p.maxSteps ∧ (r.fault = .steps ↔ OutlastsFrom undef p n m) := by
  refine .stop (ebpfStep_outside hpc) ⟨?_, ?_⟩
  · show m.insnsExecuted ≤ p.maxSteps
    rw [hexec]
    bv_omega
  · exact iff_of_false nofun (not_outlastsFrom_of_outside hpc)

/-- A run that has `n` instructions left to its cap: either the cap is not
    the largest word or the program ends before it. -/
theorem run_stopsAtCap {n : Nat} (hcap : p.maxSteps ≠ 0xFFFFFFFF ∨ ¬ OutlastsFrom undef p n m)
    (hsteps : m.steps.toNat + n = p.maxSteps.toNat) (hexec : m.insnsExecuted = m.steps) :
    Exec.Ends (ebpfStep undef p) (n + 1) m fun r =>
      r.insnsExecuted ≤ p.maxSteps ∧ (r.fault = .steps ↔ OutlastsFrom undef p n m) := by
  induction n generalizing m with
  | zero =>
    by_cases hpc : p.insnCnt ≤ m.pc
    · exact stopsAtCap_outside hpc hsteps hexec
    · -- the cap is reached inside the image
      have hin : m.pc < p.insnCnt := BitVec.not_le.mp hpc
      have hout : OutlastsFrom undef p 0 m := outlastsFrom_zero.mpr hin
      have hmax : p.maxSteps ≠ 0xFFFFFFFF := hcap.resolve_right fun h => h hout
      have hover : p.maxSteps < m.steps + 1 := by bv_omega
      refine .stop (ebpfStep_capped hin hover) ⟨?_, iff_of_true rfl hout⟩
      show m.insnsExecuted ≤ p.maxSteps
      rw [hexec]
      bv_omega
  | succ n ih =>
    by_cases hpc : p.insnCnt ≤ m.pc
    · exact stopsAtCap_outside hpc hsteps hexec
    · have hin : m.pc < p.insnCnt := BitVec.not_le.mp hpc
      have hroom : ¬ p.maxSteps < m.steps + 1 := by bv_omega
      cases hturn : fetchExec undef p m with
      | inr r =>
        -- the program ends on its own
        obtain ⟨hcount, hfault⟩ := fetchExec_stop hturn
        refine .stop ((ebpfStep_exec hin hroom).trans hturn) ⟨?_, ?_⟩
        · rw [hcount, hexec]
          bv_omega
        · exact iff_of_false hfault (not_outlastsFrom_of_stop hin hturn)
      | inl m' =>
        -- one instruction less to the cap
        obtain ⟨hsteps', hexec'⟩ := fetchExec_counts hturn
        have hrest := ih (m := m') (by rwa [outlastsFrom_succ hin hturn] at hcap)
          (by rw [hsteps']; bv_omega) (by rw [hsteps', hexec', hexec])
        simp only [outlastsFrom_succ hin hturn]
        exact .turn ((ebpfStep_exec hin hroom).trans hturn) hrest

/-- With the largest cap no run reports it: the counter wraps first. -/
theorem ebpfRun_fault_ne_steps (hmax : p.maxSteps = 0xFFFFFFFF) {fuel : Nat} {r : EbpfResult}
    (h : ebpfRun undef p fuel = some r) : r.fault ≠ .steps := by
  unfold ebpfRun ebpfRunFrom at h
  split at h
  · cases h
    exact nofun
  · obtain ⟨m, _, hstop⟩ := Exec.run_some h
    by_cases hpc : p.insnCnt ≤ m.pc
    · rw [ebpfStep_outside hpc] at hstop
      cases hstop
      exact nofun
    · have hroom : ¬ p.maxSteps < m.steps + 1 := by
        rw [hmax]
        bv_omega
      rw [ebpfStep_exec (BitVec.not_le.mp hpc) hroom] at hstop
      exact (fetchExec_stop hstop).2

end Cap

/-- **The step cap.** A program of 1..64 words ends as its cap promises
    exactly when the cap is below `0xFFFFFFFF`, or the program ends on its
    own before `0xFFFFFFFF` instructions are executed. -/
theorem ebpfRun_stepCap_iff (undef : CExpr → U64) (p : EbpfProg) (hpos : 1 ≤ p.insnCnt)
    (hle : p.insnCnt ≤ 64) :
    EndsAtCap undef p ↔ p.maxSteps ≠ 0xFFFFFFFF ∨ ¬ Outlasts undef p p.maxSteps.toNat := by
  constructor
  · rintro ⟨fuel, r, hrun, _, hfault⟩
    by_cases hmax : p.maxSteps = 0xFFFFFFFF
    · exact .inr fun hout => ebpfRun_fault_ne_steps hmax hrun (hfault.mpr hout)
    · exact .inl hmax
  · intro hcap
    have hlen : ¬ (p.insnCnt = 0 ∨ EBPF_MAX_INSNS < p.insnCnt) := by
      unfold EBPF_MAX_INSNS
      bv_omega
    obtain ⟨r, hrun, hstops⟩ := run_stopsAtCap (m := ebpfEntry p (entryRegs p)) hcap
      (Nat.zero_add _) rfl
    refine ⟨p.maxSteps.toNat + 1, r, ?_, hstops⟩
    unfold ebpfRun ebpfRunFrom
    rw [if_neg hlen]
    exact hrun

/-- `ja -1`. -/
def spin (maxSteps : U32) : EbpfProg where
  ins := fun _ => 0xffff0005
  insnCnt := 1
  mem := fun _ => 0
  ctx := 0x1000
  ctxSize := 16
  maxSteps := maxSteps
  map := some fun _ => 0
  mapCells := 4

theorem ebpfRun_stepCap_iff_spin :
    EndsAtCap (fun _ => 0) (spin 3) ↔
      (3 : U32) ≠ 0xFFFFFFFF ∨ ¬ Outlasts (fun _ => 0) (spin 3) 3 :=
  ebpfRun_stepCap_iff (fun _ => 0) (spin 3) (by decide) (by decide)

/-- The jump leads back to the entry. -/
theorem spin_turn {maxSteps : U32} {m : EbpfState} (hpc : m.pc = 0) :
    fetchExec (fun _ => 0) (spin maxSteps) m = .inl m.fetched := by
  obtain ⟨i, hi⟩ : ∃ i, (spin maxSteps).insnAt m.pc = i := ⟨_, rfl⟩
  have hinsn : i = ⟨0x05, 0, 0, 0xffff, 0⟩ := by
    rw [← hi]
    show decodeInsn 0xffff0005 = _
    decide
  have hregs : i.dst.toNat < 11 ∧ i.src.toNat < 11 := by rw [hinsn]; decide
  have halu : ¬ (i.cls = CLS_ALU64 ∨ i.cls = CLS_ALU) := by rw [hinsn]; decide
  have hjmp : i.cls = CLS_JMP ∨ i.cls = CLS_JMP32 := by rw [hinsn]; decide
  have hcall : ¬ (i.cls = CLS_JMP ∧ i.op = JmpOp.call.code) := by rw [hinsn]; decide
  have hout : ∀ dst src regs, jmpOut i dst src regs = some (.taken true) := by
    intro dst src regs
    rw [hinsn]
    rfl
  have htarget : jmpTarget m.pc i = m.pc := by
    rw [hpc, hinsn]
    decide
  unfold fetchExec execInsn jmpStep
  simp only [hi, dif_pos hregs, if_neg halu, if_pos hjmp, if_neg hcall, hout, htarget, if_true]
  rfl

/-- Under the largest cap it never returns. -/
theorem spin_runs_on : (∀ fuel, ebpfRun (fun _ => 0) (spin 0xFFFFFFFF) fuel = none) ∧
    ¬ EndsAtCap (fun _ => 0) (spin 0xFFFFFFFF) := by
  have hrun : ∀ fuel (m : EbpfState), m.pc = 0 →
      Exec.run (ebpfStep (fun _ => 0) (spin 0xFFFFFFFF)) fuel m = none := by
    intro fuel
    induction fuel with
    | zero =>
      intro m _
      rfl
    | succ fuel ih =>
      intro m hpc
      have hin : m.pc < (spin 0xFFFFFFFF).insnCnt := by rw [hpc]; decide
      have hroom : ¬ (spin 0xFFFFFFFF).maxSteps < m.steps + 1 := by
        show ¬ (0xFFFFFFFF : U32) < m.steps + 1
        bv_omega
      rw [Exec.run, ebpfStep_exec hin hroom, spin_turn hpc]
      exact ih m.fetched hpc
  have hnone : ∀ fuel, ebpfRun (fun _ => 0) (spin 0xFFFFFFFF) fuel = none := fun fuel =>
    hrun fuel _ rfl
  refine ⟨hnone, ?_⟩
  rintro ⟨fuel, r, hsome, _⟩
  rw [hnone] at hsome
  cases hsome

end Interclus

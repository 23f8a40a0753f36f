import Interclus.Supervisor.LivePrograms
import Interclus.Verifier.ContextLoads

/-! # The Filter Phase

    `monitor_main` in filter mode, from `modules/monitor.c`: the live
    program runs once over each of the six input packets, without a map.
    With what the gates let through, every run ends, and a program is
    struck down for a helper call at most. -/

namespace Interclus

open Words LTS

/-! ## The built-in policy -/

/-- `EBPF_ENC`. -/
def ebpfEnc (op d s : U8) (o : U16) (i : U32) : U64 :=
  op.setWidth 64 ||| (((d &&& 0xf) ||| ((s &&& 0xf) <<< 4)).setWidth 64 <<< 8) |||
    (o.setWidth 64 <<< 16) ||| (i.setWidth 64 <<< 32)

def MOV64I (d : U8) (i : U32) : U64 := ebpfEnc 0xb7 d 0 0 i
def SLL64I (d : U8) (i : U32) : U64 := ebpfEnc 0x67 d 0 0 i
def OR64 (d s : U8) : U64 := ebpfEnc 0x4f d s 0 0
def JEQ64I (d : U8) (i : U32) (o : U16) : U64 := ebpfEnc 0x15 d 0 o i
def JNE64I (d : U8) (i : U32) (o : U16) : U64 := ebpfEnc 0x55 d 0 o i
def JGT64I (d : U8) (i : U32) (o : U16) : U64 := ebpfEnc 0x25 d 0 o i
def CALL (h : U32) : U64 := ebpfEnc 0x85 0 0 0 h
def LDXB (d s : U8) (o : U16) : U64 := ebpfEnc 0x71 d s o 0
def LDXH (d s : U8) (o : U16) : U64 := ebpfEnc 0x69 d s o 0
def LDXW (d s : U8) (o : U16) : U64 := ebpfEnc 0x61 d s o 0
def EXIT : U64 := ebpfEnc 0x95 0 0 0 0

def POLICY_MAVLINK : List U64 := [
  LDXB 2 1 0,
  MOV64I 3 0xFD,
  JNE64I 2 0xFD 19,
  LDXH 4 1 7,
  LDXB 5 1 9,
  SLL64I 5 16,
  OR64 4 5,
  JEQ64I 4 0 4,
  JEQ64I 4 33 7,
  JEQ64I 4 32 2,
  MOV64I 0 2,
  EXIT,
  LDXB 9 1 1,
  JGT64I 9 240 10,
  MOV64I 0 1,
  EXIT,
  LDXB 9 1 1,
  JGT64I 9 240 6,
  LDXW 6 1 10,
  JGT64I 6 900000000 6,
  MOV64I 0 1,
  EXIT,
  MOV64I 0 0,
  EXIT,
  MOV64I 0 3,
  EXIT,
  MOV64I 0 4,
  EXIT]

def POLICY_MAVLINK_CNT : U32 := 28

/-- The built-in policy as the program pointer sees it. -/
def policyMavlink : Nat → U64 := fun i => POLICY_MAVLINK.getD i 0

/-! ## Filter mode -/

/-- The address of `MON_INPUT`. -/
def monInputAddr (t : Target) : U32 := MON_BOX t + 0x80

/-- What filter mode hands to `ebpf_run` for packet `i`. -/
def filterProg (t : Target) (m : MonBox) (i : Nat) : EbpfProg where
  ins := if m.progCnt ≠ 0 then m.prog else policyMavlink
  insnCnt := if m.progCnt ≠ 0 then m.progCnt else POLICY_MAVLINK_CNT
  mem := fun a => m.input (a - (monInputAddr t).setWidth 64).toNat
  ctx := (monInputAddr t + m.off i).setWidth 64
  ctxSize := m.sizes i
  maxSteps := 1000000
  map := none
  mapCells := 0

section Filter
variable (undef : CExpr → U64) (t : Target)

/-- The run over packet `i`, with a turn for each step and one to stop in. -/
def filterRun (m : MonBox) (i : Nat) : Option EbpfResult :=
  ebpfRun undef (filterProg t m i) 1000001

/-- One turn of the loop over the packets: the box, and `pf`. -/
def filterTurn (acc : MonBox × U32) (i : Nat) : Option (MonBox × U32) :=
  (filterRun undef t acc.1 i).map fun r =>
    ({ acc.1 with
        verdicts := fun j => if j = i then r.retval.setWidth 32 else acc.1.verdicts j
        insns := fun j => if j = i then r.insnsExecuted else acc.1.insns j },
      if r.fault ≠ .ok then r.fault.code else acc.2)

/-- `monitor_main` in filter mode. -/
def filterPhase (m : MonBox) : Option MonBox :=
  ((List.range 6).foldlM (filterTurn undef t) (m, 0)).map fun (m, pf) => { m with progFault := pf }

/-! ## Every run ends -/

theorem filterRun_terminates (m : MonBox) (i : Nat) : ∃ r, filterRun undef t m i = some r :=
  ebpfRun_terminates undef (filterProg t m i) (show (1000000 : U32) ≠ 0xFFFFFFFF by decide)

/-- `pf` after the runs over packets `is`. -/
def runsFault (runs : Nat → Option EbpfResult) (pf : U32) (is : List Nat) : U32 :=
  is.foldl (fun pf i =>
    (runs i).elim pf fun r => if r.fault ≠ .ok then r.fault.code else pf) pf

/-- What the loop writes, no later run of it reads. -/
theorem filterTurn_spec (m : MonBox) (acc : MonBox × U32) (hacc : acc.1 = { m with
      verdicts := acc.1.verdicts, insns := acc.1.insns }) (i : Nat) :
    ∃ acc', filterTurn undef t acc i = some acc' ∧
      acc'.1 = { m with verdicts := acc'.1.verdicts, insns := acc'.1.insns } ∧
      acc'.2 = runsFault (filterRun undef t m) acc.2 [i] := by
  obtain ⟨r, hr⟩ := filterRun_terminates undef t m i
  have hsame : filterRun undef t acc.1 i = some r := by
    rw [hacc]
    exact hr
  unfold filterTurn
  rw [hsame]
  refine ⟨_, rfl, ?_, ?_⟩
  · dsimp only
    rw [hacc]
  · unfold runsFault
    rw [List.foldl_cons, hr]
    rfl

/-- The loop ends. -/
theorem filterTurns_spec (m : MonBox) (is : List Nat) (acc : MonBox × U32)
    (hacc : acc.1 = { m with verdicts := acc.1.verdicts, insns := acc.1.insns }) :
    ∃ acc', is.foldlM (filterTurn undef t) acc = some acc' ∧
      acc'.1 = { m with verdicts := acc'.1.verdicts, insns := acc'.1.insns } ∧
      acc'.2 = runsFault (filterRun undef t m) acc.2 is := by
  induction is generalizing acc with
  | nil => exact ⟨acc, rfl, hacc, rfl⟩
  | cons i is ih =>
    obtain ⟨acc₁, hturn, hacc₁, hpf₁⟩ := filterTurn_spec undef t m acc hacc i
    obtain ⟨acc', hrest, hacc', hpf'⟩ := ih acc₁ hacc₁
    refine ⟨acc', ?_, hacc', ?_⟩
    · rw [List.foldlM_cons, hturn]
      exact hrest
    · rw [hpf', hpf₁]
      rfl

/-- The phase ends, and leaves what the monitor may write. -/
theorem filterPhase_spec (m : MonBox) :
    ∃ verdicts insns, filterPhase undef t m =
      some { m with
        verdicts := verdicts, insns := insns
        progFault := runsFault (filterRun undef t m) 0 (List.range 6) } := by
  obtain ⟨acc', hrun, hacc', hpf⟩ := filterTurns_spec undef t m (List.range 6) (m, 0) rfl
  refine ⟨acc'.1.verdicts, acc'.1.insns, ?_⟩
  unfold filterPhase
  rw [hrun]
  show some { acc'.1 with progFault := acc'.2 } = _
  rw [hacc', hpf]

/-- What the phase leaves is one of the effects the monitor can have. -/
theorem filterPhase_effect {s : Sup} {m' : MonBox} (h : filterPhase undef t s.mon = some m') :
    ∃ eff : UserEffect, eff.comp = 0 ∧ eff.apply s = { s with mon := m' } := by
  obtain ⟨verdicts, insns, hrun⟩ := filterPhase_spec undef t s.mon
  rw [h] at hrun
  obtain rfl := Option.some.inj hrun
  exact ⟨.monitor verdicts insns s.mon.screenVerd s.mon.screenInsns s.mon.nativeVerd s.mon.map _,
    rfl, rfl⟩

end Filter

/-! ## How a run ends -/

/-- A run reaches a helper call within its step cap. -/
def EbpfProg.ExecutesCall (undef : CExpr → U64) (p : EbpfProg) : Prop :=
  ∃ m, p.Visits undef m ∧ m.steps + 1 ≤ p.maxSteps ∧ (p.insnAt m.pc).cls = CLS_JMP ∧
    (p.insnAt m.pc).op = JmpOp.call.code

/-- Without map cells a helper call of an accepted image stops the run. -/
theorem ebpfStep_call_refused {undef : CExpr → U64} {p : EbpfProg} (hacc : Accepted p.ins p.insnCnt)
    (hcells : p.mapCells = 0) {m : EbpfState} (hpc : m.pc.toNat < p.insnCnt.toNat)
    (hsteps : m.steps + 1 ≤ p.maxSteps) (hcls : (p.insnAt m.pc).cls = CLS_JMP)
    (hop : (p.insnAt m.pc).op = JmpOp.call.code) :
    ebpfStep undef p m = m.fetched.fault .call := by
  have hadm := hacc.admitted hpc
  have halu : ¬ (CLS_JMP = CLS_ALU64 ∨ CLS_JMP = CLS_ALU) := by decide
  have hunusable : mapUsable p.mapCells = false := by
    rw [hcells]
    decide
  unfold ebpfStep
  rw [if_neg (BitVec.not_le.mpr hpc), if_neg (BitVec.not_lt.mpr hsteps)]
  unfold fetchExec
  dsimp only
  rw [dif_pos ⟨hadm.dst_lt, hadm.src_lt⟩]
  unfold execInsn
  rw [hcls, if_neg halu, if_pos (.inl rfl)]
  unfold jmpStep
  rw [if_pos ⟨hcls, hop⟩]
  unfold callStep
  rw [hunusable]
  split <;> rfl

/-- An accepted image without map cells ends with a fault no gate could
    foresee, or with a helper call, and that exactly when it executes one. -/
theorem ebpfRun_accepted_noMap {undef : CExpr → U64} {p : EbpfProg}
    (hcheck : icProgramCheck (some p.ins) p.insnCnt = .ok) (hcells : p.mapCells = 0) {fuel : Nat}
    {r : EbpfResult} (hrun : ebpfRun undef p fuel = some r) :
    r.fault ∈ [EbpfFault.ok, .steps, .mem, .div0, .fp, .call] ∧
      (r.fault = .call ↔ p.ExecutesCall undef) := by
  have hacc := icProgramCheck_ok hcheck
  obtain ⟨types, sol⟩ := hacc.solution
  have hpc : ∀ m, p.Visits undef m → m.pc.toNat < p.insnCnt.toNat := fun m hm =>
    (CtxTyped.of_visits sol hacc.cnt_pos hm).pc_lt
  have hcnt : ¬ (p.insnCnt = 0 ∨ EBPF_MAX_INSNS < p.insnCnt) := by
    have := hacc.cnt_pos
    have := hacc.cnt_le
    unfold EBPF_MAX_INSNS
    bv_omega
  obtain ⟨m, hm, hstop⟩ := (ebpfRun_some hrun).resolve_left hcnt
  have hwhy := ebpfStep_stop_of_accepted hacc (hpc m hm) hstop
  refine ⟨?_, fun hcall => ?_, fun ⟨m', hm', hsteps, hcls, hop⟩ => ?_⟩
  · rcases hwhy with ⟨hfault, -⟩ | hcall
    · have hsub : ∀ f ∈ acceptedFaults, f ∈ [EbpfFault.ok, .steps, .mem, .div0, .fp, .call] := by
        decide
      exact hsub _ hfault
    · rw [hcall.fault]
      decide
  · rcases hwhy with ⟨hfault, -⟩ | hrefused
    · rw [hcall] at hfault
      exact absurd hfault (by decide)
    · refine ⟨m, hm, ?_, hrefused.cls, hrefused.op⟩
      -- a run stopped by its step cap reports that
      by_contra hcap
      unfold ebpfStep at hstop
      rw [if_neg (BitVec.not_le.mpr (hpc m hm)), if_pos (BitVec.not_le.mp hcap)] at hstop
      obtain rfl := Sum.inr.inj hstop
      cases hcall
  · have hrefused : ebpfStep undef _ m' = _ :=
      ebpfStep_call_refused hacc hcells (hpc m' hm') hsteps hcls hop
    unfold ebpfRun ebpfRunFrom at hrun
    rw [if_neg hcnt] at hrun
    rw [hm'.reaches.result hrefused hrun]
    rfl

/-! ## The live program -/

theorem policyMavlink_accepted :
    icProgramCheck (some policyMavlink) POLICY_MAVLINK_CNT = .ok := by decide +kernel

/-- What filter mode runs has passed the verifier, built in or loaded. -/
theorem filterProg_accepted {b : Build} {s : Sup} (h : Reachable (machine b) s) {m : MonBox}
    (hslots : m.slots = s.mon.slots) (i : Nat) :
    icProgramCheck (some (filterProg b.target m i).ins) (filterProg b.target m i).insnCnt = .ok := by
  have hprog : m.prog = s.mon.prog := congrArg ProgSlots.prog hslots
  have hcnt : m.progCnt = s.mon.progCnt := congrArg ProgSlots.progCnt hslots
  unfold filterProg
  dsimp only
  rw [hprog, hcnt]
  by_cases hlive : s.mon.progCnt ≠ 0
  · rw [if_pos hlive, if_pos hlive]
    exact ((livePrograms_reachable h).live hlive).2
  · rw [if_neg hlive, if_neg hlive]
    exact policyMavlink_accepted

/-- **Gate to runtime.** In every reachable state, whatever packets the
    filter phase is given, it ends, and each of its six runs of the live
    program ends with `OK`, `STEPS`, `MEM`, `DIV0` or `FP`, or with `CALL`:
    that exactly when the run executes a helper call. -/
theorem filterPhase_liveProgram (undef : CExpr → U64) {b : Build} {s : Sup}
    (h : Reachable (machine b) s) (off sizes : Nat → U32) (input : Mem) :
    let m := { s.mon with off := off, sizes := sizes, input := input }
    (filterPhase undef b.target m).isSome ∧
      ∀ i, i < 6 → ∃ r, filterRun undef b.target m i = some r ∧
        r.fault ∈ [EbpfFault.ok, .steps, .mem, .div0, .fp, .call] ∧
        (r.fault = .call ↔ (filterProg b.target m i).ExecutesCall undef) := by
  intro m
  refine ⟨?_, fun i _ => ?_⟩
  · obtain ⟨_, _, hrun⟩ := filterPhase_spec undef b.target m
    rw [hrun]
    rfl
  · obtain ⟨r, hr⟩ := filterRun_terminates undef b.target m i
    have hcheck := filterProg_accepted h (m := m) rfl i
    exact ⟨r, hr, ebpfRun_accepted_noMap hcheck rfl hr⟩

/-- The program `r0 = 1; exit`, on packets of no bytes. -/
theorem filterPhase_liveProgram_bootedReturn :
    let m := { bootedReturn.mon with off := fun _ => 0, sizes := fun _ => 0, input := fun _ => 0 }
    bootedReturn.mon.progCnt ≠ 0 ∧ (filterPhase (fun _ => 0) .qemu m).isSome ∧
      ∀ i, i < 6 → ∃ r, filterRun (fun _ => 0) .qemu m i = some r ∧
        r.fault ∈ [EbpfFault.ok, .steps, .mem, .div0, .fp, .call] ∧
        (r.fault = .call ↔ (filterProg .qemu m i).ExecutesCall (fun _ => 0)) := by
  have hlive : bootedReturn.mon.progCnt ≠ 0 := by decide +kernel
  have hreach : Reachable (machine (.pinning [])) bootedReturn := .init ⟨_, _, rfl⟩
  exact ⟨hlive, filterPhase_liveProgram (fun _ => 0) hreach _ _ _⟩

/-- A boot frame with the program `call 1; exit`. -/
def callFrame : List U8 :=
  [0x50, 0x52, 0x4F, 0x47, 2, 0, 0, 0,
   0x85, 0, 0, 0, 1, 0, 0, 0, 0x95, 0, 0, 0, 0, 0, 0, 0]

def bootedCall : Sup := bootMain (.pinning []) ⟨some callFrame, false⟩ .zeroed

/-- The gates load a program that the filter phase strikes down for its
    helper call. -/
theorem bootedCall_struckDown :
    Reachable (machine (.pinning [])) bootedCall ∧ bootedCall.mon.progCnt ≠ 0 ∧
      ∃ r, filterRun (fun _ => 0) .qemu bootedCall.mon 0 = some r ∧
        r.fault ∉ [EbpfFault.ok, .steps, .mem, .div0, .fp] := by
  have hrun : (filterRun (fun _ => 0) .qemu bootedCall.mon 0).map EbpfResult.fault = some .call := by
    decide +kernel
  obtain ⟨r, hr, hfault⟩ := Option.map_eq_some_iff.mp hrun
  refine ⟨.init ⟨_, _, rfl⟩, by decide +kernel, r, hr, ?_⟩
  rw [hfault]
  decide

end Interclus

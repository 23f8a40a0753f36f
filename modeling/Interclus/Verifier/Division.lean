import Interclus.Verifier.Soundness

/-! # Division in the Interpreter

    The interpreter tests the 64-bit operand of a division against zero and
    then, in the 32-bit class, divides by its low half.  The two agree for
    immediates, which fit the narrower width, and for every register whose
    low half is not zero on its own.

    `divisionSafe_iff` names the one kind of turn at which C divides by
    zero. -/

namespace Interclus

open Words

/-! ## The expression of a turn -/

/-- The ALU expression the turn at `m` evaluates. -/
def turnExpr (p : EbpfProg) (m : EbpfState) : Option CExpr :=
  let i := p.insnAt m.pc
  if p.insnCnt ≤ m.pc ∨ p.maxSteps < m.steps + 1 then none
  else if hd : i.dst.toNat < 11 then
    if hs : i.src.toNat < 11 then
      if i.cls = CLS_ALU64 ∨ i.cls = CLS_ALU then
        (aluExpr i ⟨i.dst.toNat, hd⟩ ⟨i.src.toNat, hs⟩ m.regs).toOption
      else none
    else none
  else none

/-! ## Divisions -/

/-- The turn at `m` executes a division or a modulo into one of `r0 .. r9`. -/
structure ExecutesDivision (p : EbpfProg) (m : EbpfState) : Prop where
  pc_lt : m.pc < p.insnCnt
  steps_le : m.steps + 1 ≤ p.maxSteps
  dst_lt : (p.insnAt m.pc).dst.toNat < 10
  src_lt : (p.insnAt m.pc).src.toNat < 11
  cls : isAluCls (p.insnAt m.pc).cls
  op : (p.insnAt m.pc).op = AluOp.div.code ∨ (p.insnAt m.pc).op = AluOp.mod.code

/-- The second operand at the width of the class. -/
def divisor (i : EbpfInsn) (src : Fin 11) (regs : RegFile) : U64 :=
  let arg := aluArg i src regs
  if i.cls = CLS_ALU64 then arg else (arg.setWidth 32).setWidth 64

/-- The turn divides 32 bits by a register that is not zero but whose low
    half is. -/
structure HalfZeroDivisor (p : EbpfProg) (m : EbpfState) : Prop extends ExecutesDivision p m where
  cls32 : (p.insnAt m.pc).cls = CLS_ALU
  srcX : (p.insnAt m.pc).srcX
  operand_ne : m.regs ⟨(p.insnAt m.pc).src.toNat, src_lt⟩ ≠ 0
  low_zero : (m.regs ⟨(p.insnAt m.pc).src.toNat, src_lt⟩).setWidth 32 = (0 : U32)

/-- No turn of a run divides by zero, and a division raises `div0` exactly
    when its divisor is zero. -/
structure DivisionSafe (undef : CExpr → U64) (p : EbpfProg) : Prop where
  defined : ∀ m, p.Visits undef m → ∀ e, turnExpr p m = some e → e.undefined = false
  div0_iff : ∀ m, p.Visits undef m → ∀ h : ExecutesDivision p m,
    (∃ r, ebpfStep undef p m = .inr r ∧ r.fault = .div0) ↔
      divisor (p.insnAt m.pc) ⟨(p.insnAt m.pc).src.toNat, h.src_lt⟩ m.regs = 0

theorem setWidth_eq_zero {a : U32} : a.setWidth 64 = (0 : U64) ↔ a = 0 := by
  constructor <;> intro h <;> bv_omega

/-- The arm of a division: the zero test, then an expression that is
    undefined exactly when the divisor is zero. -/
theorem aluExpr_divMod {i : EbpfInsn} {dst : Fin 11} (hdst : dst ≠ 10)
    (hop : i.op = AluOp.div.code ∨ i.op = AluOp.mod.code) (src : Fin 11) (regs : RegFile) :
    ∃ e : CExpr, (e.undefined ↔ divisor i src regs = 0) ∧
      aluExpr i dst src regs = if aluArg i src regs = 0 then .error .div0 else .ok e := by
  have hdiv : AluOp.ofCode? AluOp.div.code = some .div := by decide
  have hmod : AluOp.ofCode? AluOp.mod.code = some .mod := by decide
  unfold aluExpr divisor
  dsimp only
  rw [if_neg hdst]
  rcases hop with hop | hop
  · rw [hop, hdiv]
    by_cases h64 : i.cls = CLS_ALU64
    · refine ⟨.div64 (if AluOp.div.code = AluOp.mov.code then 0 else regs dst)
        (aluArg i src regs), ?_, ?_⟩
      · simp [CExpr.undefined, h64]
      · simp [aluSwitch, h64]
    · refine ⟨.div32 ((if AluOp.div.code = AluOp.mov.code then 0 else regs dst).setWidth 32)
        ((aluArg i src regs).setWidth 32), ?_, ?_⟩
      · rw [if_neg h64, setWidth_eq_zero]
        simp [CExpr.undefined]
      · simp [aluSwitch, h64]
  · rw [hop, hmod]
    by_cases h64 : i.cls = CLS_ALU64
    · refine ⟨.mod64 (if AluOp.mod.code = AluOp.mov.code then 0 else regs dst)
        (aluArg i src regs), ?_, ?_⟩
      · simp [CExpr.undefined, h64]
      · simp [aluSwitch, h64]
    · refine ⟨.mod32 ((if AluOp.mod.code = AluOp.mov.code then 0 else regs dst).setWidth 32)
        ((aluArg i src regs).setWidth 32), ?_, ?_⟩
      · rw [if_neg h64, setWidth_eq_zero]
        simp [CExpr.undefined]
      · simp [aluSwitch, h64]

/-- Only a division is ever undefined. -/
theorem aluExpr_undefined {i : EbpfInsn} {dst src : Fin 11} {regs : RegFile} {e : CExpr}
    (h : aluExpr i dst src regs = .ok e) (he : e.undefined) :
    dst ≠ 10 ∧ (i.op = AluOp.div.code ∨ i.op = AluOp.mod.code) := by
  unfold aluExpr at h
  dsimp only at h
  split at h
  · cases h
  · next hdst =>
    refine ⟨hdst, ?_⟩
    split at h
    · cases h
    · next o ho =>
      rw [← AluOp.code_of_ofCode? ho]
      cases o
      case div => exact .inl rfl
      case mod => exact .inr rfl
      case «end» =>
        exfalso
        simp only [aluSwitch] at h
        repeat' split at h
        all_goals cases h
        all_goals cases he
      all_goals cases h; cases he

/-- Narrowing the operand loses a nonzero value only in a register of the
    32-bit class. -/
theorem operand_ne_of_divisor_eq_zero {i : EbpfInsn} (hcls : isAluCls i.cls)
    (hop : i.op = AluOp.div.code ∨ i.op = AluOp.mod.code) {src : Fin 11} {regs : RegFile}
    (hne : aluArg i src regs ≠ 0) (h : divisor i src regs = 0) :
    i.cls = CLS_ALU ∧ i.srcX ∧ regs src ≠ 0 ∧ (regs src).setWidth 32 = (0 : U32) := by
  unfold divisor at h
  dsimp only at h
  split at h
  · exact absurd h hne
  · next h64 =>
    have h32 : i.cls = CLS_ALU := ((isAluCls_iff _).mp hcls).resolve_left h64
    rw [aluArg_divMod hop] at hne h
    rw [setWidth_eq_zero] at h
    cases hx : i.srcX with
    | true =>
      rw [hx, if_pos rfl] at hne h
      exact ⟨h32, rfl, hne, h⟩
    | false =>
      -- the immediate is 32 bits wide to begin with
      rw [hx, if_neg (by decide), if_neg h64] at hne h
      rw [BitVec.setWidth_setWidth_of_le _ (by decide), BitVec.setWidth_eq] at h
      exact absurd (setWidth_eq_zero.mpr h) hne

theorem HalfZeroDivisor.divisor_eq {p : EbpfProg} {m : EbpfState} (h : HalfZeroDivisor p m) :
    aluArg (p.insnAt m.pc) ⟨_, h.src_lt⟩ m.regs ≠ 0 ∧
      divisor (p.insnAt m.pc) ⟨_, h.src_lt⟩ m.regs = 0 := by
  have h64 : (p.insnAt m.pc).cls ≠ CLS_ALU64 := by rw [h.cls32]; decide
  have harg := aluArg_divMod h.op ⟨_, h.src_lt⟩ m.regs
  rw [h.srcX, if_pos rfl] at harg
  refine ⟨harg ▸ h.operand_ne, ?_⟩
  unfold divisor
  dsimp only
  rw [if_neg h64, harg, h.low_zero]
  rfl

section Turn
variable {p : EbpfProg} {m : EbpfState}

theorem ExecutesDivision.regs_lt (h : ExecutesDivision p m) :
    (p.insnAt m.pc).dst.toNat < 11 ∧ (p.insnAt m.pc).src.toNat < 11 :=
  ⟨by have := h.dst_lt; omega, h.src_lt⟩

theorem ExecutesDivision.dst_ne (h : ExecutesDivision p m) :
    (⟨(p.insnAt m.pc).dst.toNat, h.regs_lt.1⟩ : Fin 11) ≠ 10 := fun heq => by
  have hval := congrArg Fin.val heq
  have := h.dst_lt
  change (p.insnAt m.pc).dst.toNat = 10 at hval
  omega

/-- The turn of a division is its ALU step. -/
theorem ExecutesDivision.ebpfStep_eq (h : ExecutesDivision p m) (undef : CExpr → U64) :
    ebpfStep undef p m =
      aluStep undef (p.insnAt m.pc) ⟨_, h.regs_lt.1⟩ ⟨_, h.src_lt⟩ m.fetched := by
  unfold ebpfStep fetchExec execInsn
  rw [if_neg (BitVec.not_le.mpr h.pc_lt), if_neg (BitVec.not_lt.mpr h.steps_le)]
  dsimp only
  rw [dif_pos h.regs_lt, if_pos ((isAluCls_iff _).mp h.cls)]
  rfl

theorem ExecutesDivision.turnExpr_eq (h : ExecutesDivision p m) :
    turnExpr p m =
      (aluExpr (p.insnAt m.pc) ⟨_, h.regs_lt.1⟩ ⟨_, h.src_lt⟩ m.regs).toOption := by
  unfold turnExpr
  dsimp only
  rw [if_neg (not_or.mpr ⟨BitVec.not_le.mpr h.pc_lt, BitVec.not_lt.mpr h.steps_le⟩),
    dif_pos h.regs_lt.1, dif_pos h.src_lt, if_pos ((isAluCls_iff _).mp h.cls)]

/-- A division raises `div0` when the 64-bit operand is zero. -/
theorem ExecutesDivision.div0_iff (h : ExecutesDivision p m) (undef : CExpr → U64) :
    (∃ r, ebpfStep undef p m = .inr r ∧ r.fault = .div0) ↔
      aluArg (p.insnAt m.pc) ⟨_, h.src_lt⟩ m.regs = 0 := by
  obtain ⟨e, -, he⟩ := aluExpr_divMod h.dst_ne h.op ⟨_, h.src_lt⟩ m.regs
  have hstep := h.ebpfStep_eq undef
  unfold aluStep at hstep
  rw [show m.fetched.regs = m.regs from rfl, he] at hstep
  by_cases h0 : aluArg (p.insnAt m.pc) ⟨_, h.src_lt⟩ m.regs = 0
  · rw [if_pos h0] at hstep
    exact ⟨fun _ => h0, fun _ => ⟨_, hstep, rfl⟩⟩
  · rw [if_neg h0] at hstep
    refine ⟨fun ⟨r, hr, _⟩ => ?_, fun h => absurd h h0⟩
    rw [hstep] at hr
    cases hr

/-- What a turn that evaluates an undefined expression looks like. -/
theorem halfZeroDivisor_of_undefined {e : CExpr} (h : turnExpr p m = some e)
    (he : e.undefined) : HalfZeroDivisor p m := by
  unfold turnExpr at h
  dsimp only at h
  split at h
  · cases h
  · next hlim =>
    split at h
    · next hd =>
      split at h
      · next hs =>
        split at h
        · next hcls =>
          have hok : aluExpr (p.insnAt m.pc) ⟨_, hd⟩ ⟨_, hs⟩ m.regs = .ok e := by
            cases hx : aluExpr (p.insnAt m.pc) ⟨_, hd⟩ ⟨_, hs⟩ m.regs with
            | error f => rw [hx] at h; cases h
            | ok e' => rw [hx] at h; cases h; rfl
          -- the expression is a division whose zero test looked at another value
          obtain ⟨hdst, hop⟩ := aluExpr_undefined hok he
          have halu : isAluCls (p.insnAt m.pc).cls := (isAluCls_iff _).mpr hcls
          obtain ⟨e', hzero, hsome⟩ := aluExpr_divMod hdst hop ⟨_, hs⟩ m.regs
          rw [hok] at hsome
          split at hsome
          · cases hsome
          · next hne =>
            cases hsome
            obtain ⟨h32, hx, hreg, hlow⟩ :=
              operand_ne_of_divisor_eq_zero halu hop hne (hzero.mp he)
            rw [not_or, BitVec.not_le, BitVec.not_lt] at hlim
            have hten : (p.insnAt m.pc).dst.toNat ≠ 10 := fun h10 => hdst (Fin.ext h10)
            have hdst10 : (p.insnAt m.pc).dst.toNat < 10 := by omega
            exact { pc_lt := hlim.1, steps_le := hlim.2, dst_lt := hdst10, src_lt := hs,
                    cls := halu, op := hop, cls32 := h32, srcX := hx, operand_ne := hreg,
                    low_zero := hlow }
        · cases h
      · cases h
    · cases h

end Turn

/-- **Division safety, exactly.** The runs of a program divide by no zero
    and raise `div0` exactly on a zero divisor if and only if they never
    divide 32 bits by a register whose low half alone is zero. -/
theorem divisionSafe_iff (undef : CExpr → U64) (p : EbpfProg) :
    DivisionSafe undef p ↔ ∀ m, p.Visits undef m → ¬ HalfZeroDivisor p m := by
  constructor
  · intro hsafe m hm hhalf
    obtain ⟨hne, hzero⟩ := hhalf.divisor_eq
    obtain ⟨e, hundef, he⟩ := aluExpr_divMod hhalf.dst_ne hhalf.op ⟨_, hhalf.src_lt⟩ m.regs
    have hexpr : turnExpr p m = some e := by
      rw [hhalf.turnExpr_eq, he, if_neg hne]
      rfl
    have := hsafe.defined m hm e hexpr
    rw [hundef.mpr hzero] at this
    cases this
  · intro hno
    refine ⟨fun m hm e he => ?_, fun m hm hdiv => ?_⟩
    · by_contra hundef
      exact hno m hm (halfZeroDivisor_of_undefined he (by simpa using hundef))
    · rw [hdiv.div0_iff undef]
      constructor
      · intro h0
        unfold divisor
        dsimp only
        rw [h0]
        split <;> rfl
      · intro hzero
        by_contra hne
        obtain ⟨h32, hx, hreg, hlow⟩ := operand_ne_of_divisor_eq_zero hdiv.cls hdiv.op hne hzero
        exact hno m hm { hdiv with
          cls32 := h32, srcX := hx, operand_ne := hreg, low_zero := hlow }

/-- `r2 = 1; r2 <<= 32; r0 = 1; w0 /= w2; exit`. -/
def wideDivisor : EbpfProg where
  ins := fun k => [0x00000001000002b7, 0x0000002000000267, 0x00000001000000b7, 0x203c, 0x95].getD k 0
  insnCnt := 5
  mem := fun _ => 0
  ctx := 0x1000
  ctxSize := 16
  maxSteps := 16
  map := some fun _ => 0
  mapCells := 4

/-- The verifier accepts a program that divides by zero. -/
theorem wideDivisor_not_divisionSafe :
    icProgramCheck (some wideDivisor.ins) wideDivisor.insnCnt = .ok ∧
      ¬ DivisionSafe (fun _ => 0) wideDivisor := by
  refine ⟨by decide +kernel, fun hsafe => ?_⟩
  have hreach := Exec.Reaches.next (Exec.Reaches.next (Exec.Reaches.next
    (@Exec.Reaches.refl _ _ (ebpfStep (fun _ => 0) wideDivisor)
      (ebpfEntry wideDivisor (entryRegs wideDivisor))) rfl) rfl) rfl
  have := hsafe.defined _ ⟨by decide, by decide, hreach⟩ (.div32 1 0) (by rfl)
  exact absurd this (by decide)

end Interclus

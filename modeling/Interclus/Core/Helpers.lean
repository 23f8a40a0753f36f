import Interclus.Core.Ebpf

/-! # The 64-bit Helpers

    `core/helpers.c`: the shifts, the product and the division the compiler
    calls for 64-bit operands on RV32, and `ebpf_run` compiled to them.  A
    shift count is a C `int`, in two's complement. -/

namespace Interclus

open Words

/-! ## Shifts -/

def ashldi3 (a : U64) (b : U32) : U64 :=
  let lo : U32 := a.setWidth 32
  let hi : U32 := (a >>> 32).setWidth 32
  let b := b &&& 63
  if 32 ≤ b then
    (lo <<< (b - 32).toNat).setWidth 64 <<< 32 ||| (0 : U32).setWidth 64
  else if 0 < b then
    (hi <<< b.toNat ||| lo >>> (32 - b).toNat).setWidth 64 <<< 32 |||
      (lo <<< b.toNat).setWidth 64
  else hi.setWidth 64 <<< 32 ||| lo.setWidth 64

def lshrdi3 (a : U64) (b : U32) : U64 :=
  let lo : U32 := a.setWidth 32
  let hi : U32 := (a >>> 32).setWidth 32
  let b := b &&& 63
  if 32 ≤ b then
    (0 : U32).setWidth 64 <<< 32 ||| (hi >>> (b - 32).toNat).setWidth 64
  else if 0 < b then
    (hi >>> b.toNat).setWidth 64 <<< 32 |||
      (lo >>> b.toNat ||| hi <<< (32 - b).toNat).setWidth 64
  else hi.setWidth 64 <<< 32 ||| lo.setWidth 64

/-- `hi` is an `int`, so its right shifts are arithmetic. -/
def ashrdi3 (a : U64) (b : U32) : U64 :=
  let lo : U32 := a.setWidth 32
  let hi : U32 := (a >>> 32).setWidth 32
  let b := b &&& 63
  if 32 ≤ b then
    (hi.sshiftRight 31).setWidth 64 <<< 32 ||| (hi.sshiftRight (b - 32).toNat).setWidth 64
  else if 0 < b then
    (hi.sshiftRight b.toNat).setWidth 64 <<< 32 |||
      (lo >>> b.toNat ||| hi <<< (32 - b).toNat).setWidth 64
  else hi.setWidth 64 <<< 32 ||| lo.setWidth 64

/-! ## Product and division -/

def muldi3 (a b : U64) : U64 :=
  let al : U32 := a.setWidth 32
  let ah : U32 := (a >>> 32).setWidth 32
  let bl : U32 := b.setWidth 32
  let bh : U32 := (b >>> 32).setWidth 32
  let ll : U64 := al.setWidth 64 * bl.setWidth 64
  let lh : U64 := al.setWidth 64 * bh.setWidth 64
  let hl : U64 := ah.setWidth 64 * bl.setWidth 64
  ll + (lh + hl) <<< 32

/-- The variables of the division loop. -/
structure DivLoop where
  q : U64
  r : U64
  deriving DecidableEq, Repr

/-- The round for bit `i` of the dividend. -/
def udivmodRound (a b : U64) (i : Nat) (s : DivLoop) : DivLoop :=
  let r := s.r <<< 1 ||| (a >>> i &&& 1)
  if b ≤ r then { q := s.q ||| 1#64 <<< i, r := r - b } else { q := s.q, r := r }

/-- `k` rounds, from bit 63 down. -/
def udivmodRounds (a b : U64) : Nat → DivLoop
  | 0 => { q := 0, r := 0 }
  | k + 1 => udivmodRound a b (63 - k) (udivmodRounds a b k)

/-- Quotient and remainder. -/
def udivmod (a b : U64) : U64 × U64 :=
  if b = 0 then (0, 0)
  else
    let s := udivmodRounds a b 64
    (s.q, s.r)

def udivdi3 (a b : U64) : U64 := (udivmod a b).1

def umoddi3 (a b : U64) : U64 := (udivmod a b).2

/-! ## `ebpf_run` on RV32

    The functions of `core/ebpf.c` that shift, multiply or divide 64-bit
    words, with the helpers in place of the operators, and those that call
    them.  The other arms and functions are the same code. -/

/-- A shift count as the `int` the helpers take. -/
def shiftCount (n : Nat) : U32 := BitVec.ofNat 32 n

def decodeInsnRv32 (e : U64) : EbpfInsn where
  opcode := (e &&& 0xff).setWidth 8
  dst := (lshrdi3 e (shiftCount 8) &&& 0x0f).setWidth 8
  src := (lshrdi3 e (shiftCount 12) &&& 0x0f).setWidth 8
  off := (lshrdi3 e (shiftCount 16) &&& 0xffff).setWidth 16
  imm := (lshrdi3 e (shiftCount 32) &&& 0xffffffff).setWidth 32

def aluSwitchRv32 (is64 : Bool) (o : AluOp) (i : EbpfInsn) (v arg : U64) :
    Except EbpfFault CExpr :=
  match o with
  | .mul => .ok (.val (muldi3 v arg))
  | .lsh =>
    let shift := aluShift is64 arg
    .ok (.val (if is64 then ashldi3 v (shiftCount shift)
      else (v.setWidth 32 <<< shift).setWidth 64))
  | .rsh =>
    let shift := aluShift is64 arg
    .ok (.val (if is64 then lshrdi3 v (shiftCount shift)
      else (v.setWidth 32 >>> shift).setWidth 64))
  | .arsh =>
    let shift := aluShift is64 arg
    .ok (.val (if is64 then ashrdi3 v (shiftCount shift)
      else ashrdi3 ((v.setWidth 32).signExtend 64) (shiftCount shift)))
  | .add | .sub | .div | .mod | .or | .and | .xor | .mov | .neg | .end => aluSwitch is64 o i v arg

def CExpr.evalRv32 (undef : CExpr → U64) (e : CExpr) : U64 :=
  if e.undefined then undef e else
  match e with
  | .val v => v
  | .div64 a b => udivdi3 a b
  | .mod64 a b => umoddi3 a b
  | .div32 a b => (a / b).setWidth 64
  | .mod32 a b => (a % b).setWidth 64

def aluExprRv32 (i : EbpfInsn) (dst src : Fin 11) (regs : RegFile) : Except EbpfFault CExpr :=
  let arg := aluArg i src regs
  if dst = 10 then .error .fp
  else
    let v := if i.op = AluOp.mov.code then 0 else regs dst
    match AluOp.ofCode? i.op with
    | none => .error .opcode
    | some o => aluSwitchRv32 (i.cls = CLS_ALU64) o i v arg

def loadLeRv32 (mem : U64 → U8) (addr : U64) (size : U8) : U64 :=
  let m (k : U64) : U64 := (mem (addr + k)).setWidth 64
  if size = 1 then m 0
  else if size = 2 then m 0 ||| ashldi3 (m 1) (shiftCount 8)
  else if size = 4 then
    m 0 ||| ashldi3 (m 1) (shiftCount 8) ||| ashldi3 (m 2) (shiftCount 16) |||
      ashldi3 (m 3) (shiftCount 24)
  else
    m 0 ||| ashldi3 (m 1) (shiftCount 8) ||| ashldi3 (m 2) (shiftCount 16) |||
      ashldi3 (m 3) (shiftCount 24) ||| ashldi3 (m 4) (shiftCount 32) |||
      ashldi3 (m 5) (shiftCount 40) ||| ashldi3 (m 6) (shiftCount 48) |||
      ashldi3 (m 7) (shiftCount 56)

section Step
variable (undef : CExpr → U64) (p : EbpfProg)

def aluStepRv32 (i : EbpfInsn) (dst src : Fin 11) (m : EbpfState) : EbpfState ⊕ EbpfResult :=
  match aluExprRv32 i dst src m.regs with
  | .error f => m.fault f
  | .ok e => m.advance (m.regs.set dst (aluTrunc i (e.evalRv32 undef)))

def ldxStepRv32 (i : EbpfInsn) (dst src : Fin 11) (m : EbpfState) : EbpfState ⊕ EbpfResult :=
  if i.opcode &&& 0xe0 ≠ MODE_MEM ∨ src = 10 ∨ dst = 10 then m.fault .opcode
  else
    let addr := ldxAddr i src m.regs
    if ldxOutOfBounds p.ctx p.ctxSize addr (ldxSize i) then m.fault .mem
    else m.advance (m.regs.set dst (loadLeRv32 p.mem addr (ldxSize i)))

def execInsnRv32 (i : EbpfInsn) (dst src : Fin 11) (m : EbpfState) : EbpfState ⊕ EbpfResult :=
  if i.cls = CLS_ALU64 ∨ i.cls = CLS_ALU then aluStepRv32 undef i dst src m
  else if i.cls = CLS_JMP ∨ i.cls = CLS_JMP32 then jmpStep p i dst src m
  else if i.cls = CLS_LDX then ldxStepRv32 p i dst src m
  else if i.cls = CLS_ST ∨ i.cls = CLS_STX then m.fault .store
  else m.fault .opcode

def fetchExecRv32 (m : EbpfState) : EbpfState ⊕ EbpfResult :=
  let i := decodeInsnRv32 (p.ins m.pc.toNat)
  let m' := { m with steps := m.steps + 1, insnsExecuted := m.insnsExecuted + 1 }
  if h : i.dst.toNat < 11 ∧ i.src.toNat < 11 then
    execInsnRv32 undef p i ⟨i.dst.toNat, h.1⟩ ⟨i.src.toNat, h.2⟩ m'
  else m'.fault .opcode

def ebpfStepRv32 (m : EbpfState) : EbpfState ⊕ EbpfResult :=
  if p.insnCnt ≤ m.pc then m.fault .pc
  else if p.maxSteps < m.steps + 1 then { m with steps := m.steps + 1 }.fault .steps
  else fetchExecRv32 undef p m

def ebpfRunRv32 (fuel : Nat) : Option EbpfResult :=
  if p.insnCnt = 0 ∨ EBPF_MAX_INSNS < p.insnCnt then
    some ((ebpfEntry p (entryRegs p)).stop .pc 0)
  else Exec.run (ebpfStepRv32 undef p) fuel (ebpfEntry p (entryRegs p))

end Step

end Interclus

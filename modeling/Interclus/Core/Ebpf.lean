import Interclus.Framework.System
import Interclus.Framework.Words

/-! # The eBPF Interpreter

    `core/ebpf.c`: instruction decoding, the ALU, the jumps, context loads,
    the two map helpers, and the step loop of `ebpf_run`.

    The loop is modelled by `Exec.run` over `ebpfStep`, with fuel: whether
    it ends for a given step cap is a property of the model, not of the
    definition.  A C division whose divisor is zero has no value; the model
    takes an arbitrary function `undef` for it and keeps the division
    visible as a `CExpr`. -/

namespace Interclus

open Words

/-! ## Results and instructions -/

/-- `EBPF_OK` and the `EBPF_FAULT_*` codes. -/
inductive EbpfFault where
  | ok | pc | steps | mem | store | div0 | opcode | call | fp
  deriving DecidableEq, Repr

/-- The numbers of the faults. -/
def EbpfFault.code : EbpfFault → U32
  | .ok => 0 | .pc => 1 | .steps => 2 | .mem => 3 | .store => 4
  | .div0 => 5 | .opcode => 6 | .call => 7 | .fp => 8

/-- `struct ebpf_insn`; `off` and `imm` are two's complement. -/
structure EbpfInsn where
  opcode : U8
  dst : U8
  src : U8
  off : U16
  imm : U32
  deriving DecidableEq, Repr

def EBPF_MAX_INSNS : U32 := 64

def decodeInsn (e : U64) : EbpfInsn where
  opcode := (e &&& 0xff).setWidth 8
  dst := ((e >>> 8) &&& 0x0f).setWidth 8
  src := ((e >>> 12) &&& 0x0f).setWidth 8
  off := ((e >>> 16) &&& 0xffff).setWidth 16
  imm := ((e >>> 32) &&& 0xffffffff).setWidth 32

def CLS_LDX   : U8 := 0x01
def CLS_ST    : U8 := 0x02
def CLS_STX   : U8 := 0x03
def CLS_ALU   : U8 := 0x04
def CLS_JMP   : U8 := 0x05
def CLS_JMP32 : U8 := 0x06
def CLS_ALU64 : U8 := 0x07

def SRC_X    : U8 := 0x08
def MODE_MEM : U8 := 0x60

def EbpfInsn.cls (i : EbpfInsn) : U8 := i.opcode &&& 0x07
def EbpfInsn.op (i : EbpfInsn) : U8 := i.opcode &&& 0xf0

/-- The second operand is a register rather than the immediate. -/
def EbpfInsn.srcX (i : EbpfInsn) : Bool := i.opcode &&& SRC_X ≠ 0

/-- The `ALU_*` operations. -/
inductive AluOp where
  | add | sub | mul | div | or | and | lsh | rsh | neg | mod | xor | mov | arsh | «end»
  deriving DecidableEq, Repr

def AluOp.code : AluOp → U8
  | .add => 0x00 | .sub => 0x10 | .mul => 0x20 | .div => 0x30
  | .or  => 0x40 | .and => 0x50 | .lsh => 0x60 | .rsh => 0x70
  | .neg => 0x80 | .mod => 0x90 | .xor => 0xa0 | .mov => 0xb0
  | .arsh => 0xc0 | .end => 0xd0

def AluOp.all : List AluOp :=
  [.add, .sub, .mul, .div, .or, .and, .lsh, .rsh, .neg, .mod, .xor, .mov, .arsh, .end]

/-- The arm of `switch (op)` an ALU instruction takes; `none` is `default`. -/
def AluOp.ofCode? (op : U8) : Option AluOp := AluOp.all.find? fun o => o.code = op

theorem AluOp.code_of_ofCode? {op : U8} {o : AluOp} (h : AluOp.ofCode? op = some o) :
    o.code = op := by
  simpa using List.find?_some h

/-- The `JMP_*` operations. -/
inductive JmpOp where
  | ja | jeq | jgt | jge | jset | jne | jsgt | jsge | call | exit | jlt | jle | jslt | jsle
  deriving DecidableEq, Repr

def JmpOp.code : JmpOp → U8
  | .ja   => 0x00 | .jeq  => 0x10 | .jgt  => 0x20 | .jge  => 0x30
  | .jset => 0x40 | .jne  => 0x50 | .jsgt => 0x60 | .jsge => 0x70
  | .call => 0x80 | .exit => 0x90 | .jlt  => 0xa0 | .jle  => 0xb0
  | .jslt => 0xc0 | .jsle => 0xd0

def JmpOp.all : List JmpOp :=
  [.ja, .jeq, .jgt, .jge, .jset, .jne, .jsgt, .jsge, .call, .exit, .jlt, .jle, .jslt, .jsle]

def JmpOp.ofCode? (op : U8) : Option JmpOp := JmpOp.all.find? fun o => o.code = op

theorem JmpOp.code_of_ofCode? {op : U8} {o : JmpOp} (h : JmpOp.ofCode? op = some o) :
    o.code = op := by
  simpa using List.find?_some h

/-! ## Registers -/

/-- `uint64_t regs[11]`. -/
abbrev RegFile : Type := Fin 11 → U64

/-- The registers are numbered by `Fin 11`. -/
instance regsNeZero : NeZero 11 := ⟨by decide⟩

def RegFile.set (regs : RegFile) (r : Fin 11) (v : U64) : RegFile :=
  fun q => if q = r then v else regs q

@[simp] theorem RegFile.set_self (regs : RegFile) (r : Fin 11) (v : U64) :
    regs.set r v r = v := by
  simp [RegFile.set]

@[simp] theorem RegFile.set_ne (regs : RegFile) (r q : Fin 11) (v : U64) (h : q ≠ r) :
    regs.set r v q = regs q := by
  simp [RegFile.set, h]

/-! ## ALU -/

/-- The right-hand side an ALU arm assigns to `v`: a value, or one of the
    four divisions, which C evaluates at the width written here. -/
inductive CExpr where
  | val (v : U64)
  | div64 (a b : U64)
  | mod64 (a b : U64)
  | div32 (a b : U32)
  | mod32 (a b : U32)
  deriving DecidableEq, Repr

/-- The expression divides by zero, which C does not define. -/
def CExpr.undefined : CExpr → Bool
  | .val _ => false
  | .div64 _ b => b = 0
  | .mod64 _ b => b = 0
  | .div32 _ b => b = 0
  | .mod32 _ b => b = 0

def CExpr.eval (undef : CExpr → U64) (e : CExpr) : U64 :=
  if e.undefined then undef e else
  match e with
  | .val v => v
  | .div64 a b => a / b
  | .mod64 a b => a % b
  | .div32 a b => (a / b).setWidth 64
  | .mod32 a b => (a % b).setWidth 64

def bswap16 (v : U16) : U16 := v <<< 8 ||| v >>> 8

def bswap32 (v : U32) : U32 :=
  (bswap16 (v.setWidth 16)).setWidth 32 <<< 16 |||
    (bswap16 ((v >>> 16).setWidth 16)).setWidth 32

def bswap64 (v : U64) : U64 :=
  (bswap32 (v.setWidth 32)).setWidth 64 <<< 32 |||
    (bswap32 ((v >>> 32).setWidth 32)).setWidth 64

/-- The operand of an ALU instruction; `neg` and the byte swap never
    observe it. -/
def aluArg (i : EbpfInsn) (src : Fin 11) (regs : RegFile) : U64 :=
  if i.op ≠ AluOp.neg.code ∧ i.op ≠ AluOp.end.code then
    if i.srcX then regs src
    else if i.cls = CLS_ALU64 then i.imm.signExtend 64
    else i.imm.setWidth 64
  else 0

def aluShift (is64 : Bool) (arg : U64) : Nat :=
  if is64 then (arg &&& 63).toNat else (arg &&& 31).toNat

/-- The arms of the ALU `switch`.  `neg` negates in two's complement, as the
    compiled signed negation does on every input. -/
def aluSwitch (is64 : Bool) (o : AluOp) (i : EbpfInsn) (v arg : U64) : Except EbpfFault CExpr :=
  match o with
  | .add => .ok (.val (v + arg))
  | .sub => .ok (.val (v - arg))
  | .mul => .ok (.val (v * arg))
  | .div =>
    if arg = 0 then .error .div0
    else if is64 then .ok (.div64 v arg)
    else .ok (.div32 (v.setWidth 32) (arg.setWidth 32))
  | .mod =>
    if arg = 0 then .error .div0
    else if is64 then .ok (.mod64 v arg)
    else .ok (.mod32 (v.setWidth 32) (arg.setWidth 32))
  | .or => .ok (.val (v ||| arg))
  | .and => .ok (.val (v &&& arg))
  | .xor => .ok (.val (v ^^^ arg))
  | .mov => .ok (.val arg)
  | .lsh =>
    let shift := aluShift is64 arg
    .ok (.val (if is64 then v <<< shift else (v.setWidth 32 <<< shift).setWidth 64))
  | .rsh =>
    let shift := aluShift is64 arg
    .ok (.val (if is64 then v >>> shift else (v.setWidth 32 >>> shift).setWidth 64))
  | .arsh =>
    let shift := aluShift is64 arg
    .ok (.val (if is64 then v.sshiftRight shift
      else ((v.setWidth 32).signExtend 64).sshiftRight shift))
  | .neg => .ok (.val (-v))
  | .end =>
    let size : U8 := i.imm.setWidth 8
    if i.opcode &&& 0x08 ≠ 0 then
      if size = 16 then .ok (.val ((bswap16 (v.setWidth 16)).setWidth 64))
      else if size = 32 then .ok (.val ((bswap32 (v.setWidth 32)).setWidth 64))
      else if size = 64 then .ok (.val (bswap64 v))
      else .error .opcode
    else .ok (.val v)

/-- What an ALU instruction is about to assign: the fault it raises, or the
    expression its arm evaluates. -/
def aluExpr (i : EbpfInsn) (dst src : Fin 11) (regs : RegFile) : Except EbpfFault CExpr :=
  let arg := aluArg i src regs
  if dst = 10 then .error .fp
  else
    let v := if i.op = AluOp.mov.code then 0 else regs dst
    match AluOp.ofCode? i.op with
    | none => .error .opcode
    | some o => aluSwitch (i.cls = CLS_ALU64) o i v arg

/-- The final truncation of the 32-bit class. -/
def aluTrunc (i : EbpfInsn) (v : U64) : U64 :=
  if i.cls = CLS_ALU64 then v else v &&& 0xffffffff

/-! ## Jumps -/

inductive JmpOut where
  | taken (b : Bool)
  | callFault
  | exit
  deriving DecidableEq, Repr

/-- The arms of a jump `switch`, at the class width `w`. -/
def jmpSwitch {w : Nat} (o : JmpOp) (v arg : BitVec w) : JmpOut :=
  match o with
  | .ja => .taken true
  | .jeq => .taken (v = arg)
  | .jne => .taken (v ≠ arg)
  | .jgt => .taken (arg < v)
  | .jge => .taken (arg ≤ v)
  | .jlt => .taken (v < arg)
  | .jle => .taken (v ≤ arg)
  | .jset => .taken (v &&& arg ≠ 0)
  | .jsgt => .taken (arg.toInt < v.toInt)
  | .jsge => .taken (arg.toInt ≤ v.toInt)
  | .jslt => .taken (v.toInt < arg.toInt)
  | .jsle => .taken (v.toInt ≤ arg.toInt)
  | .call => .callFault
  | .exit => .exit

/-- `ja` and `exit` observe no operand registers. -/
def jmpReadsOperands (i : EbpfInsn) : Bool :=
  i.op ≠ JmpOp.ja.code ∧ i.op ≠ JmpOp.exit.code

def jmpArg (i : EbpfInsn) (src : Fin 11) (regs : RegFile) : U64 :=
  if jmpReadsOperands i then
    if i.srcX then regs src
    else if i.cls = CLS_JMP32 then i.imm.setWidth 64
    else i.imm.signExtend 64
  else 0

def jmpVal (i : EbpfInsn) (dst : Fin 11) (regs : RegFile) : U64 :=
  if jmpReadsOperands i then regs dst else 0

/-- The branch decision; `none` is the `default` arm. -/
def jmpOut (i : EbpfInsn) (dst src : Fin 11) (regs : RegFile) : Option JmpOut :=
  (JmpOp.ofCode? i.op).map fun o =>
    if i.cls = CLS_JMP32 then
      jmpSwitch o ((jmpVal i dst regs).setWidth 32) ((jmpArg i src regs).setWidth 32)
    else jmpSwitch o (jmpVal i dst regs) (jmpArg i src regs)

/-- `(uint32_t)((int32_t)pc + 1 + in.off)`. -/
def jmpTarget (pc : U32) (i : EbpfInsn) : U32 := pc + 1 + i.off.signExtend 32

/-! ## Context loads -/

def ldxSize (i : EbpfInsn) : U8 :=
  let szcode := (i.opcode >>> 3) &&& 3
  if szcode = 0 then 4 else if szcode = 2 then 1 else 1#8 <<< szcode.toNat

/-- `load_le`, at an address of the machine's memory. -/
def loadLe (mem : U64 → U8) (addr : U64) (size : U8) : U64 :=
  let m (k : U64) : U64 := (mem (addr + k)).setWidth 64
  if size = 1 then m 0
  else if size = 2 then m 0 ||| m 1 <<< 8
  else if size = 4 then m 0 ||| m 1 <<< 8 ||| m 2 <<< 16 ||| m 3 <<< 24
  else m 0 ||| m 1 <<< 8 ||| m 2 <<< 16 ||| m 3 <<< 24 |||
    m 4 <<< 32 ||| m 5 <<< 40 ||| m 6 <<< 48 ||| m 7 <<< 56

def ldxAddr (i : EbpfInsn) (src : Fin 11) (regs : RegFile) : U64 :=
  regs src + i.off.signExtend 64

/-- The bounds test of a load of `size` bytes at `addr`. -/
def ldxOutOfBounds (ctx : U64) (ctxSize : U32) (addr : U64) (size : U8) : Bool :=
  addr < ctx ∨ ctxSize.setWidth 64 < addr - ctx + size.setWidth 64

/-! ## The step loop -/

/-- `struct ebpf_prog`.  `ins` and `mem` are what the program pointer and
    the machine's addresses designate; `map` is `none` for `NULL`. -/
structure EbpfProg where
  ins : Nat → U64
  insnCnt : U32
  mem : U64 → U8
  ctx : U64
  ctxSize : U32
  maxSteps : U32
  map : Option (U32 → U32)
  mapCells : U32

/-- `struct ebpf_result`, with the map the run leaves behind. -/
structure EbpfResult where
  fault : EbpfFault
  retval : U64
  insnsExecuted : U32
  map : Option (U32 → U32)

/-- The loop's variables. -/
structure EbpfState where
  regs : RegFile
  pc : U32
  steps : U32
  insnsExecuted : U32
  map : Option (U32 → U32)

/-- Leaving the loop through `out`: a faulting run returns zero. -/
def EbpfState.stop (m : EbpfState) (f : EbpfFault) (retval : U64) : EbpfResult where
  fault := f
  retval := if f = .ok then retval else 0
  insnsExecuted := m.insnsExecuted
  map := m.map

def EbpfState.fault (m : EbpfState) (f : EbpfFault) : EbpfState ⊕ EbpfResult :=
  .inr (m.stop f 0)

def EbpfState.advance (m : EbpfState) (regs : RegFile) : EbpfState ⊕ EbpfResult :=
  .inl { m with regs := regs, pc := m.pc + 1 }

/-- `map_cells` is a power of two, as the code tests it. -/
def mapUsable (mapCells : U32) : Bool := mapCells ≠ 0 ∧ mapCells &&& (mapCells - 1) = 0

def mapIndex (mapCells : U32) (r1 : U64) : U32 := r1.setWidth 32 &&& (mapCells - 1)

section Step
variable (undef : CExpr → U64) (p : EbpfProg)

def aluStep (i : EbpfInsn) (dst src : Fin 11) (m : EbpfState) : EbpfState ⊕ EbpfResult :=
  match aluExpr i dst src m.regs with
  | .error f => m.fault f
  | .ok e => m.advance (m.regs.set dst (aluTrunc i (e.eval undef)))

def callStep (i : EbpfInsn) (m : EbpfState) : EbpfState ⊕ EbpfResult :=
  match m.map with
  | none => m.fault .call
  | some map =>
    if mapUsable p.mapCells then
      let idx := mapIndex p.mapCells (m.regs 1)
      if i.imm = 1 then
        m.advance (m.regs.set 0 ((map idx).setWidth 64))
      else if i.imm = 2 then
        { m with map := some fun c => if c = idx then (m.regs 2).setWidth 32 else map c }.advance
          (m.regs.set 0 0)
      else m.fault .call
    else m.fault .call

def jmpStep (i : EbpfInsn) (dst src : Fin 11) (m : EbpfState) : EbpfState ⊕ EbpfResult :=
  if i.cls = CLS_JMP ∧ i.op = JmpOp.call.code then callStep p i m
  else
    match jmpOut i dst src m.regs with
    | none => m.fault .opcode
    | some .callFault => m.fault .call
    | some .exit => .inr (m.stop .ok (m.regs 0))
    | some (.taken b) =>
      .inl { m with pc := if b then jmpTarget m.pc i else m.pc + 1 }

def ldxStep (i : EbpfInsn) (dst src : Fin 11) (m : EbpfState) : EbpfState ⊕ EbpfResult :=
  if i.opcode &&& 0xe0 ≠ MODE_MEM ∨ src = 10 ∨ dst = 10 then m.fault .opcode
  else
    let addr := ldxAddr i src m.regs
    if ldxOutOfBounds p.ctx p.ctxSize addr (ldxSize i) then m.fault .mem
    else m.advance (m.regs.set dst (loadLe p.mem addr (ldxSize i)))

/-- The class dispatch, once the register fields are known to be in range. -/
def execInsn (i : EbpfInsn) (dst src : Fin 11) (m : EbpfState) : EbpfState ⊕ EbpfResult :=
  if i.cls = CLS_ALU64 ∨ i.cls = CLS_ALU then aluStep undef i dst src m
  else if i.cls = CLS_JMP ∨ i.cls = CLS_JMP32 then jmpStep p i dst src m
  else if i.cls = CLS_LDX then ldxStep p i dst src m
  else if i.cls = CLS_ST ∨ i.cls = CLS_STX then m.fault .store
  else m.fault .opcode

/-- The instruction word at a program counter. -/
def EbpfProg.insnAt (pc : U32) : EbpfInsn := decodeInsn (p.ins pc.toNat)

/-- The loop body after the two limit checks. -/
def fetchExec (m : EbpfState) : EbpfState ⊕ EbpfResult :=
  let i := p.insnAt m.pc
  let m' := { m with steps := m.steps + 1, insnsExecuted := m.insnsExecuted + 1 }
  if h : i.dst.toNat < 11 ∧ i.src.toNat < 11 then
    execInsn undef p i ⟨i.dst.toNat, h.1⟩ ⟨i.src.toNat, h.2⟩ m'
  else m'.fault .opcode

/-- One turn of `for (;;)`. -/
def ebpfStep (m : EbpfState) : EbpfState ⊕ EbpfResult :=
  if p.insnCnt ≤ m.pc then m.fault .pc
  else if p.maxSteps < m.steps + 1 then { m with steps := m.steps + 1 }.fault .steps
  else fetchExec undef p m

/-- The loop's entry with a given register file. -/
def ebpfEntry (regs : RegFile) : EbpfState where
  regs := regs
  pc := 0
  steps := 0
  insnsExecuted := 0
  map := p.map

/-- `ebpf_run` started from the register file `regs`. -/
def ebpfRunFrom (regs : RegFile) (fuel : Nat) : Option EbpfResult :=
  if p.insnCnt = 0 ∨ EBPF_MAX_INSNS < p.insnCnt then
    some ((ebpfEntry p regs).stop .pc 0)
  else Exec.run (ebpfStep undef p) fuel (ebpfEntry p regs)

/-- `regs[11] = {0}; regs[1] = ctx`. -/
def entryRegs : RegFile := RegFile.set (fun _ => 0) 1 p.ctx

def ebpfRun (fuel : Nat) : Option EbpfResult := ebpfRunFrom undef p (entryRegs p) fuel

end Step

end Interclus

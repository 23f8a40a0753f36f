import Interclus.Framework.Rv32

/-! # The Trap Entry

    `core/trap.S`, and the register restore of `compartment_enter` in
    `core/compartment.c`, instruction by instruction.  The branches between
    the straight lines are those of the source. -/

namespace Interclus

open Words Rv32

/-! ## Symbols -/

/-- What the trap path names: its scratch stack, the forensics ring, the TCB
    pointer and what it points to, the stack and the two handlers of the
    supervisor, and the instruction a fault was raised at. -/
inductive TrapSym where
  | trapSp0
  | gRiIndex
  | gRiCause
  | gRiAddr
  | curTcb
  | tcb
  | supStackTop
  | supervisorFault
  | supervisorResume
  | insn
  deriving DecidableEq

def trapShape : Shape TrapSym where
  size
    | .trapSp0 => 64
    | .gRiIndex | .curTcb => 4
    | .gRiCause | .gRiAddr => 32
    | .tcb => 128
    | .insn => 2
    | .supStackTop | .supervisorFault | .supervisorResume => 0
  words
    | .insn => false
    | _ => true

/-- `trap_sp0_top` is the end of the scratch stack. -/
def TRAP_SP0_SIZE : U32 := 64

abbrev TrapInstr : Type := Instr TrapSym

/-! ## Entry -/

/-- `trap_entry`, up to the test for an `ecall`. -/
def trapProlog : List TrapInstr := [
  .csrrw sp .mscratch sp,
  addi sp sp (-48),
  .sw 1 0 sp,
  .sw 5 4 sp,
  .sw 6 8 sp,
  .sw 7 12 sp,
  .sw 10 16 sp,
  .sw 11 20 sp,
  .sw 28 24 sp,
  .sw 29 28 sp,
  .sw 30 32 sp,
  .sw 31 36 sp,
  .csrr t0 .mcause,
  .sw t0 40 sp,
  .li t1 8]

/-- The forensics ring, up to the test of the index. -/
def trapRecord : List TrapInstr := [
  .csrr t0 .mtval,
  .sw t0 44 sp,
  .luiHi t2 .gRiIndex 0,
  .addiLo t2 t2 .gRiIndex 0,
  .lw t3 0 t2,
  slli t4 t3 2,
  .luiHi t5 .gRiCause 0,
  .addiLo t5 t5 .gRiCause 0,
  .alu .add t5 t5 t4,
  .lw t6 40 sp,
  .sw t6 0 t5,
  .luiHi t5 .gRiAddr 0,
  .addiLo t5 t5 .gRiAddr 0,
  .alu .add t5 t5 t4,
  .lw t6 44 sp,
  .sw t6 0 t5,
  addi t3 t3 1,
  .li t4 8]

/-- The index stays at the last entry. -/
def trapIndexStop : List TrapInstr := [.li t3 7]

/-- `.Lidx_ok`, up to the test of `MPP`. -/
def trapIndexOk : List TrapInstr := [
  .sw t3 0 t2,
  .csrr t1 .mstatus,
  srli t1 t1 11,
  andi t1 t1 3,
  .li t2 3]

/-- The TCB pointer, up to its test. -/
def trapTcb : List TrapInstr := [
  .luiHi t0 .curTcb 0,
  .lwLo t0 .curTcb 0 t0]

/-! ## A fault in U-mode -/

/-- The victim's register file goes into the TCB. -/
def trapEvSave : List TrapInstr := [
  .sw 1 4 t0,
  .sw 3 12 t0,
  .sw 4 16 t0,
  .lw t1 4 sp,
  .sw t1 20 t0,
  .lw t1 8 sp,
  .sw t1 24 t0,
  .lw t1 12 sp,
  .sw t1 28 t0,
  .sw 8 32 t0,
  .sw 9 36 t0,
  .lw t1 16 sp,
  .sw t1 40 t0,
  .lw t1 20 sp,
  .sw t1 44 t0,
  .sw 12 48 t0,
  .sw 13 52 t0,
  .sw 14 56 t0,
  .sw 15 60 t0,
  .sw 16 64 t0,
  .sw 17 68 t0,
  .sw 18 72 t0,
  .sw 19 76 t0,
  .sw 20 80 t0,
  .sw 21 84 t0,
  .sw 22 88 t0,
  .sw 23 92 t0,
  .sw 24 96 t0,
  .sw 25 100 t0,
  .sw 26 104 t0,
  .sw 27 108 t0,
  -- `t3` to `t6` were spilled too
  .lw t1 24 sp,
  .sw t1 112 t0,
  .lw t1 28 sp,
  .sw t1 116 t0,
  .lw t1 32 sp,
  .sw t1 120 t0,
  .lw t1 36 sp,
  .sw t1 124 t0,
  .csrr t1 .mscratch,
  .sw t1 8 t0]

/-- `mv r, x0` for each register. -/
def zeroRegs (rs : List Reg) : List TrapInstr := rs.map fun r => mv r 0

/-- `.Lev_nosave`. -/
def trapEvNosave : List TrapInstr :=
  [.lw a0 40 sp, .lw a1 44 sp,
   -- no victim byte may survive in the frame
   .sw 0 0 sp, .sw 0 4 sp, .sw 0 8 sp, .sw 0 12 sp, .sw 0 16 sp, .sw 0 20 sp, .sw 0 24 sp,
   .sw 0 28 sp, .sw 0 32 sp, .sw 0 36 sp, .sw 0 40 sp, .sw 0 44 sp,
   .luiHi t0 .trapSp0 TRAP_SP0_SIZE, .addiLo t0 t0 .trapSp0 TRAP_SP0_SIZE, .csrw .mscratch t0] ++
  zeroRegs [1, 3, 4, 5, 6, 7, 8, 9, 12, 13, 14, 15, 16, 17, 18, 19, 20, 21, 22, 23, 24, 25, 26, 27,
    28, 29, 30, 31] ++
  [.luiHi sp .supStackTop 0, .addiLo sp sp .supStackTop 0,
   .luiHi t0 .supervisorFault 0, .addiLo t0 t0 .supervisorFault 0, .csrw .mepc t0,
   .csrr t1 .mstatus, .li t2 0x1800, .alu .or t1 t1 t2, .li t2 0x80, not t2 t2, .alu .and t1 t1 t2,
   .csrw .mstatus t1] ++
  zeroRegs [t0, t1, t2]

/-! ## A fault in M-mode -/

/-- `.Lskip`, up to the test of the length. -/
def trapSkip : List TrapInstr := [
  .csrr t1 .mepc,
  .lhu t2 0 t1,
  andi t2 t2 3,
  addi t1 t1 2,
  .li t3 3]

def trapSkipLong : List TrapInstr := [addi t1 t1 2]

/-- `.Lskip_done` and `.Lrestore`. -/
def trapRestore : List TrapInstr := [
  .csrw .mepc t1,
  .lw 1 0 sp,
  .lw 5 4 sp,
  .lw 6 8 sp,
  .lw 7 12 sp,
  .lw 10 16 sp,
  .lw 11 20 sp,
  .lw 28 24 sp,
  .lw 29 28 sp,
  .lw 30 32 sp,
  .lw 31 36 sp,
  addi sp sp 48,
  .csrrw sp .mscratch sp]

/-! ## An `ecall` -/

/-- The compartment's register file goes into its TCB. -/
def trapEcallSave : List TrapInstr := [
  .sw 1 4 t0,
  .sw 3 12 t0,
  .sw 4 16 t0,
  .lw t1 4 sp,
  .sw t1 20 t0,
  .lw t1 8 sp,
  .sw t1 24 t0,
  .sw 7 28 t0,
  .sw 8 32 t0,
  .sw 9 36 t0,
  .sw 10 40 t0,
  .sw 11 44 t0,
  .sw 12 48 t0,
  .sw 13 52 t0,
  .sw 14 56 t0,
  .sw 15 60 t0,
  .sw 16 64 t0,
  .sw 17 68 t0,
  .sw 18 72 t0,
  .sw 19 76 t0,
  .sw 20 80 t0,
  .sw 21 84 t0,
  .sw 22 88 t0,
  .sw 23 92 t0,
  .sw 24 96 t0,
  .sw 25 100 t0,
  .sw 26 104 t0,
  .sw 27 108 t0,
  .sw 28 112 t0,
  .sw 29 116 t0,
  .sw 30 120 t0,
  .sw 31 124 t0,
  .csrr t1 .mscratch,
  .sw t1 8 t0]

/-- `.Lecall_zero`. -/
def trapEcallZero : List TrapInstr :=
  [.luiHi t0 .trapSp0 TRAP_SP0_SIZE, .addiLo t0 t0 .trapSp0 TRAP_SP0_SIZE, .csrw .mscratch t0] ++
  zeroRegs [1, 3, 4, 5, 6, 7, 8, 9, 10, 11, 12, 13, 14, 15, 16, 17, 18, 19, 20, 21, 22, 23, 24, 25,
    26, 27, 28, 29, 30, 31] ++
  [.luiHi sp .supStackTop 0, .addiLo sp sp .supStackTop 0,
   .luiHi t0 .supervisorResume 0, .addiLo t0 t0 .supervisorResume 0, .csrw .mepc t0,
   .csrr t1 .mstatus, .li t2 0x1800, .alu .or t1 t1 t2, .li t2 0x80, not t2 t2, .alu .and t1 t1 t2,
   .csrw .mstatus t1]

/-! ## The whole entry -/

section Entry
variable (addr : TrapSym → U32)

/-- `beqz` around the save. -/
def saveIfTcb (save : List TrapInstr) (h : Hart) : Hart :=
  let h := run addr trapTcb h
  if h.get t0 = 0 then h else run addr save h

/-- `.Lskip`. -/
def entrySkip (h : Hart) : Returned :=
  let h := run addr trapSkip h
  let h := if h.get t2 ≠ h.get t3 then h else run addr trapSkipLong h
  mret (run addr trapRestore h)

/-- The forensics ring. -/
def entryRecord (h : Hart) : Hart :=
  let h := run addr trapRecord h
  let h := if (h.get t3).slt (h.get t4) then h else run addr trapIndexStop h
  run addr trapIndexOk h

/-- `trap_entry`. -/
def trapEntry (h : Hart) : Returned :=
  let h := run addr trapProlog h
  if h.get t0 = h.get t1 then mret (run addr trapEcallZero (saveIfTcb addr trapEcallSave h))
  else
    let h := entryRecord addr h
    if h.get t1 = h.get t2 then entrySkip addr h
    else mret (run addr trapEvNosave (saveIfTcb addr trapEvSave h))

end Entry

/-! ## Back into a compartment -/

/-- The assembly of `compartment_enter`, with the TCB in `t0` and the target
    in `a1`. -/
def enterRestore : List TrapInstr := [
  .csrw .mepc a1,
  .csrr t1 .mstatus,
  .li t2 0x21800,
  not t2 t2,
  .alu .and t1 t1 t2,
  ori t1 t1 0x80,
  .csrw .mstatus t1,
  .lw 1 4 t0,
  .lw 3 12 t0,
  .lw 4 16 t0,
  .lw 6 24 t0,
  .lw 7 28 t0,
  .lw 2 8 t0,
  .lw 8 32 t0,
  .lw 9 36 t0,
  .lw 10 40 t0,
  .lw 11 44 t0,
  .lw 12 48 t0,
  .lw 13 52 t0,
  .lw 14 56 t0,
  .lw 15 60 t0,
  .lw 16 64 t0,
  .lw 17 68 t0,
  .lw 18 72 t0,
  .lw 19 76 t0,
  .lw 20 80 t0,
  .lw 21 84 t0,
  .lw 22 88 t0,
  .lw 23 92 t0,
  .lw 24 96 t0,
  .lw 25 100 t0,
  .lw 26 104 t0,
  .lw 27 108 t0,
  .lw 28 112 t0,
  .lw 29 116 t0,
  .lw 30 120 t0,
  .lw 31 124 t0,
  .lw 5 20 t0]

def enterTcb (addr : TrapSym → U32) (target : U32) (h : Hart) : Returned :=
  mret (run addr enterRestore ((h.set t0 (addr .tcb)).set a1 target))

end Interclus

import Mathlib.Data.Nat.Bitwise
import Interclus.Framework.System
import Interclus.Framework.Words

/-! # The Oracle

    `tools/soundness.py`: the verifier and the interpreter, written a second
    time over the unbounded integers of Python.  What is never negative is a
    natural number here; what may be is an integer until it is masked. -/

namespace Interclus.Oracle

open Words

/-! ## Integers -/

/-- `z & ((1 << w) - 1)`. -/
def low (w : Nat) (z : Int) : Nat := (z % 2 ^ w).toNat

/-- `v - (1 << w) if v >= (1 << (w - 1)) else v`, for `v` below `1 << w`. -/
def signed (w v : Nat) : Int := if 2 ^ (w - 1) ≤ v then (v : Int) - 2 ^ w else v

/-- `int.from_bytes(bs, "little")`. -/
def fromBytes : List U8 → Nat
  | [] => 0
  | b :: bs => b.toNat + 256 * fromBytes bs

/-- `struct.pack` of `n` little-endian bytes. -/
def pack (n v : Nat) : List U8 := (List.range n).map fun k => BitVec.ofNat 8 (v >>> (8 * k))

/-! ## Fields -/

def op (e : Nat) : Nat := e &&& 0xff
def dst (e : Nat) : Nat := (e >>> 8) &&& 0xf
def src (e : Nat) : Nat := (e >>> 12) &&& 0xf
def off (e : Nat) : Int := signed 16 ((e >>> 16) &&& 0xffff)
def imm (e : Nat) : Nat := (e >>> 32) &&& 0xffffffff
def cls (e : Nat) : Nat := op e &&& 7
def hi (e : Nat) : Nat := op e &&& 0xf0

/-- `sx`, as a condition. -/
def sx (e : Nat) : Bool := op e &&& 8 ≠ 0

/-! ## The contract, restated -/

def OK : Nat := 0
def VALIDATE : Nat := 4
def ARGUMENT : Nat := 2

def opcodeKnown (op : Nat) : Bool :=
  let cls := op &&& 7
  let hi := op &&& 0xf0
  if cls = 1 then op &&& 0xe0 = 0x60
  else if cls = 4 ∨ cls = 7 then
    if hi = 0xd0 then op &&& 0x08 ≠ 0 else hi ≤ 0xc0
  else if cls = 5 ∨ cls = 6 then hi ≤ 0x90 ∨ (0xa0 ≤ hi ∧ hi ≤ 0xd0)
  else false

/-- `1 << src if sx else 0`. -/
def srcBit (e : Nat) : Nat := if sx e then 1 <<< src e else 0

def audReads (e : Nat) : Nat :=
  if cls e = 4 ∨ cls e = 7 then
    if hi e = 0xb0 then srcBit e
    else if hi e = 0x80 ∨ hi e = 0xd0 then 1 <<< dst e
    else 1 <<< dst e ||| srcBit e
  else if cls e = 5 ∨ cls e = 6 then
    if hi e = 0x90 then 1
    else if hi e = 0x80 then (if e >>> 32 = 2 then 1 <<< 1 ||| 1 <<< 2 else 1 <<< 1)
    else if hi e = 0 then 0
    else 1 <<< dst e ||| srcBit e
  else if cls e = 1 then 1 <<< src e
  else 0

def audWrites (e : Nat) : Nat :=
  if cls e = 1 ∨ cls e = 4 ∨ cls e = 7 then 1 <<< dst e
  else if (cls e = 5 ∨ cls e = 6) ∧ hi e = 0x80 then 1
  else 0

def audSucc (e pc : Nat) : List Nat :=
  let target := low 32 (pc + 1 + off e)
  if cls e = 5 ∨ cls e = 6 then
    if hi e = 0x90 then []
    else if hi e = 0 then [target]
    else if hi e = 0x80 then [pc + 1]
    else [pc + 1, target]
  else [pc + 1]

/-! ## The verifier, restated -/

def TOP : Nat := 0xFFFFFFFF
def BOT : Nat := 0
def SCAL : Nat := 1
def CTX : Nat := 2

/-- `(st & ~(3 << (2 * r))) | (t << (2 * r))`. -/
def setT (st r t : Nat) : Nat := Nat.ldiff st (3 <<< (2 * r)) ||| t <<< (2 * r)

def getT (st r : Nat) : Nat := (st >>> (2 * r)) &&& 3

/-- `(mask >> r) & 1`, as a condition. -/
def bit (mask r : Nat) : Bool := (mask >>> r) &&& 1 ≠ 0

/-- The loop over the registers that are read returns `VALIDATE`. -/
def readFails (e st : Nat) : Bool :=
  (List.range 11).any fun r => bit (audReads e) r ∧
    (getT st r = BOT ∨ (cls e = 1 ∧ getT st r ≠ CTX) ∨
      ((cls e = 4 ∨ cls e = 7) ∧ getT st r = CTX))

def divZero (e : Nat) : Bool :=
  (cls e = 4 ∨ cls e = 7) ∧ (hi e = 0x30 ∨ hi e = 0x90) ∧ ¬ sx e ∧ e >>> 32 = 0

def outOf (e st : Nat) : Nat :=
  let out := (List.range 11).foldl
    (fun out r => if bit (audWrites e) r then setT out r SCAL else out) st
  if (cls e = 5 ∨ cls e = 6) ∧ hi e = 0x80 then setT out 0 SCAL else out

/-- `in_m` and `pending`. -/
structure Gate where
  inM : List Nat
  pending : List Bool

/-- `for s in insn_succ(e, pc)`; `none` is `return VALIDATE`. -/
def mergeSucc (cnt out : Nat) : List Nat → Gate → Option Gate
  | [], g => some g
  | s :: ss, g =>
    if cnt ≤ s then none
    else
      let merged := g.inM.getD s 0 &&& out
      if merged ≠ g.inM.getD s 0 then
        mergeSucc cnt out ss ⟨g.inM.set s merged, g.pending.set s true⟩
      else mergeSucc cnt out ss g

/-- One turn of `while True`. -/
def gateTurn (ins : List Nat) (g : Gate) : Gate ⊕ Nat :=
  match (List.range ins.length).find? fun i => g.pending.getD i false with
  | none => .inr OK
  | some pc =>
    let e := ins.getD pc 0
    let st := g.inM.getD pc 0
    if readFails e st ∨ divZero e then .inr VALIDATE
    else
      match mergeSucc ins.length (outOf e st) (audSucc e pc)
          { g with pending := g.pending.set pc false } with
      | some g => .inl g
      | none => .inr VALIDATE

def gateEntry (cnt : Nat) : Gate where
  inM := (List.replicate cnt TOP).set 0 (CTX <<< 2)
  pending := List.replicate cnt true

/-- `check_regs`, within `fuel` turns. -/
def checkRegs (fuel : Nat) (ins : List Nat) : Option Nat :=
  Exec.run (gateTurn ins) fuel (gateEntry ins.length)

/-- One turn of the loop over the instructions: `false` is
    `return VALIDATE`. -/
def scanOne (cnt pc e : Nat) : Bool :=
  if 10 < dst e ∨ 10 < src e then false
  else if op e &&& 7 = 1 ∧ dst e = 10 then false
  else if ¬ opcodeKnown (op e) then false
  else if (cls e = 4 ∨ cls e = 7) ∧ hi e = 0xd0 ∧ sx e ∧ ¬ e >>> 32 ∈ [16, 32, 64] then false
  else if cls e = 5 ∨ cls e = 6 then
    if hi e = 0x90 then true
    else if hi e = 0x80 then
      if cls e = 6 then false
      else if sx e then false
      else ¬ (imm e = 0 ∨ 2 < imm e)
    else
      let target : Int := pc + 1 + off e
      ¬ (target < 0 ∨ cnt ≤ target)
  else true

/-- `ic_program_check`. -/
def icProgramCheck (fuel : Nat) (ins : List Nat) : Option Nat :=
  let cnt := ins.length
  if cnt = 0 ∨ 64 < cnt then some ARGUMENT
  else if ins.zipIdx.all fun (e, pc) => scanOne cnt pc e then checkRegs fuel ins
  else some VALIDATE

/-! ## The interpreter, restated -/

/-- The variables of `interp`. -/
structure Interp where
  regs : List Nat
  pc : Nat
  steps : Nat
  executed : Nat
  map : List Nat

inductive Outcome where
  /-- By a `ZeroDivisionError`. -/
  | raised
  | returned (fault ret executed : Nat) (map : List Nat)

/-- Leaving the loop. -/
def Interp.stop (m : Interp) (fault ret : Nat) : Interp ⊕ Outcome :=
  .inr (.returned fault (if fault ≠ 0 then 0 else ret) m.executed m.map)

def Interp.reg (m : Interp) (r : Nat) : Nat := m.regs.getD r 0

/-- `pc += 1`, with a register written. -/
def Interp.advance (m : Interp) (r v : Nat) : Interp ⊕ Outcome :=
  .inl { m with regs := m.regs.set r v, pc := m.pc + 1 }

/-- What the arms of the ALU assign to `v`. -/
inductive AluOut where
  | value (v : Nat)
  | fault (f : Nat)
  | raised

def aluArg (e : Nat) (m : Interp) : Nat :=
  if hi e ≠ 0x80 ∧ hi e ≠ 0xd0 then
    low 64 (if sx e then m.reg (src e) else if cls e = 7 then signed 32 (imm e) else imm e)
  else 0

/-- The arms of the ALU that may divide by zero. -/
def aluDivide (f : Nat → Nat → Nat) (is64 : Bool) (v arg : Nat) : AluOut :=
  if arg = 0 then .fault 5
  else if is64 then .value (f v arg)
  else if low 32 arg = 0 then .raised
  else .value (f (low 32 v) (low 32 arg))

/-- The arm for byte swaps. -/
def aluSwap (e v : Nat) : AluOut :=
  if sx e then
    if imm e = 16 then .value (fromBytes (pack 2 (low 16 v)).reverse)
    else if imm e = 32 then .value (fromBytes (pack 4 (low 32 v)).reverse)
    else if imm e = 64 then .value (fromBytes (pack 8 v).reverse)
    else .fault 6
  else .value v

def aluValue (e v arg : Nat) : AluOut :=
  let is64 : Bool := cls e = 7
  let sh := if is64 then 63 else 31
  if hi e = 0x00 then .value (low 64 (v + arg))
  else if hi e = 0x10 then .value (low 64 (v - arg))
  else if hi e = 0x20 then .value (low 64 (v * arg))
  else if hi e = 0x30 then aluDivide (· / ·) is64 v arg
  else if hi e = 0x90 then aluDivide (· % ·) is64 v arg
  else if hi e = 0x40 then .value (low 64 ↑(v ||| arg))
  else if hi e = 0x50 then .value (low 64 ↑(v &&& arg))
  else if hi e = 0x60 then
    .value (if is64 then low 64 ↑(v <<< (arg &&& sh)) else low 32 v <<< (arg &&& sh))
  else if hi e = 0x70 then
    .value (if is64 then v >>> (arg &&& sh) else low 32 v >>> (arg &&& sh))
  else if hi e = 0x80 then .value (low 64 (-v))
  else if hi e = 0xa0 then .value (low 64 ↑(v ^^^ arg))
  else if hi e = 0xb0 then .value arg
  else if hi e = 0xc0 then
    .value (if is64 then low 64 (signed 64 v >>> (arg &&& sh))
      else low 32 (signed 32 (low 32 v) >>> (arg &&& sh)))
  else if hi e = 0xd0 then aluSwap e v
  else .value v

def aluTurn (e : Nat) (m : Interp) : Interp ⊕ Outcome :=
  let arg := aluArg e m
  if dst e = 10 then m.stop 8 0
  else
    match aluValue e (if hi e = 0xb0 then 0 else m.reg (dst e)) arg with
    | .fault f => m.stop f 0
    | .raised => .inr .raised
    | .value v => m.advance (dst e) (low 64 (if cls e = 7 then v else low 32 v))

/-- The map helpers. -/
def callTurn (e : Nat) (m : Interp) : Interp ⊕ Outcome :=
  let len := m.map.length
  if m.map = [] ∨ len &&& (len - 1) ≠ 0 then m.stop 7 0
  else
    let idx := m.reg 1 &&& (len - 1)
    if imm e = 1 then m.advance 0 (low 64 (m.map.getD idx 0))
    else if imm e = 2 then
      { m with map := m.map.set idx (low 32 (m.reg 2)) }.advance 0 0
    else m.stop 7 0

/-- The tables of branch decisions, for the values of a class of width `w`. -/
def taken (w hi a b : Nat) : Option Bool :=
  if hi = 0x10 then some (a = b)
  else if hi = 0x50 then some (a ≠ b)
  else if hi = 0x20 then some (b < a)
  else if hi = 0x30 then some (b ≤ a)
  else if hi = 0xa0 then some (a < b)
  else if hi = 0xb0 then some (a ≤ b)
  else if hi = 0x40 then some (a &&& b ≠ 0)
  else if hi = 0x60 then some (signed w b < signed w a)
  else if hi = 0x70 then some (signed w b ≤ signed w a)
  else if hi = 0xc0 then some (signed w a < signed w b)
  else if hi = 0xd0 then some (signed w a ≤ signed w b)
  else none

def jmpTurn (e : Nat) (m : Interp) : Interp ⊕ Outcome :=
  if cls e = 5 ∧ hi e = 0x80 then callTurn e m
  else
    let operands : Bool := hi e ≠ 0x00 ∧ hi e ≠ 0x90
    let arg :=
      if operands then
        if sx e then m.reg (src e)
        else if cls e = 6 then imm e
        else low 64 (signed 32 (imm e))
      else 0
    let v := if operands then m.reg (dst e) else 0
    if hi e = 0x90 then m.stop 0 (m.reg 0)
    else
      let decision :=
        if hi e = 0x00 then some true
        else if cls e = 6 then taken 32 (hi e) (low 32 v) (low 32 arg)
        else taken 64 (hi e) v arg
      match decision with
      | none => m.stop (if hi e = 0x80 then 7 else 6) 0
      | some b => .inl { m with pc := if b then low 32 (m.pc + 1 + off e) else m.pc + 1 }

def loadSize (e : Nat) : Nat :=
  let sz := (op e >>> 3) &&& 3
  if sz = 0 then 4 else if sz = 2 then 1 else 1 <<< sz

section Run
variable (ins : List Nat) (ctx : List U8) (base maxSteps : Nat)

def ldxTurn (e : Nat) (m : Interp) : Interp ⊕ Outcome :=
  if op e &&& 0xe0 ≠ 0x60 ∨ src e = 10 ∨ dst e = 10 then m.stop 6 0
  else
    let addr := low 64 (m.reg (src e) + low 64 (off e))
    if addr < base ∨ ctx.length < addr - base + loadSize e then m.stop 3 0
    else m.advance (dst e) (fromBytes ((ctx.drop (addr - base)).take (loadSize e)))

/-- One turn of `while True`. -/
def turn (m : Interp) : Interp ⊕ Outcome :=
  if ins.length ≤ m.pc then m.stop 1 0
  else
    let m := { m with steps := m.steps + 1 }
    if maxSteps < m.steps then m.stop 2 0
    else
      let e := ins.getD m.pc 0
      let m := { m with executed := m.executed + 1 }
      if 10 < dst e ∨ 10 < src e then m.stop 6 0
      else if cls e = 4 ∨ cls e = 7 then aluTurn e m
      else if cls e = 5 ∨ cls e = 6 then jmpTurn e m
      else if cls e = 1 then ldxTurn ctx base e m
      else if cls e = 2 ∨ cls e = 3 then m.stop 4 0
      else m.stop 6 0

/-- `interp`, within `fuel` turns. -/
def interp (fuel : Nat) (map : List Nat) : Option Outcome :=
  Exec.run (turn ins ctx base maxSteps) fuel ⟨(List.replicate 11 0).set 1 base, 0, 0, 0, map⟩

end Run

end Interclus.Oracle

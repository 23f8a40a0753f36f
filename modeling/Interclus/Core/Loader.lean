import Interclus.Core.Contract
import Interclus.Core.Ebpf
import Interclus.Framework.Worklist

/-! # The Program Verifier

    `core/loader.c`: the per-instruction scan of `ic_program_check` and the
    register gate `check_regs`, an instance of the worklist loop over words
    of packed register types.

    The verifier decodes instruction words on its own, with its own opcode
    tables; nothing here refers to the interpreter's decoder. -/

namespace Interclus

open Words

def IC_PROG_MAX_INSNS : U32 := 64

/-! ## Decoding -/

def insnOp  (e : U64) : U8 := (e &&& 0xff).setWidth 8
def insnDst (e : U64) : U8 := ((e >>> 8) &&& 0x0f).setWidth 8
def insnSrc (e : U64) : U8 := ((e >>> 12) &&& 0x0f).setWidth 8
def insnOff (e : U64) : U16 := ((e >>> 16) &&& 0xffff).setWidth 16

def insnCls (e : U64) : U8 := insnOp e &&& 0x07
def insnHi  (e : U64) : U8 := insnOp e &&& 0xf0

def isAluCls (cls : U8) : Bool := cls = 0x04 ∨ cls = 0x07
def isJmpCls (cls : U8) : Bool := cls = 0x05 ∨ cls = 0x06

/-- `op & 0x08u`. -/
def insnSrcX (e : U64) : Bool := insnOp e &&& 0x08 ≠ 0

/-- `(e >> 32) & 0xffffffffu`. -/
def insnImm (e : U64) : U64 := (e >>> 32) &&& 0xffffffff

def opcodeKnown (op : U8) : Bool :=
  let cls := op &&& 0x07
  let o := op &&& 0xf0
  if cls = 0x01 then op &&& 0xe0 = 0x60
  else if cls = 0x04 ∨ cls = 0x07 then
    if o = 0xd0 then op &&& 0x08 ≠ 0 else o ≤ 0xc0
  else if cls = 0x05 ∨ cls = 0x06 then
    o ≤ 0x90 ∨ (0xa0 ≤ o ∧ o ≤ 0xd0)
  else false

/-! ## Register types -/

def T_BOTTOM : U32 := 0x0
def T_SCALAR : U32 := 0x1
def T_CTX    : U32 := 0x2
def T_MASK   : U32 := 0x3

def regType (st : U32) (r : Nat) : U32 := (st >>> (2 * r)) &&& T_MASK

def setType (st : U32) (r : Nat) (t : U32) : U32 :=
  (st &&& ~~~(T_MASK <<< (2 * r))) ||| (t <<< (2 * r))

/-- `1u << r`. -/
def regBit (r : Nat) : U32 := 1#32 <<< r

/-- `mask & (1u << r)`. -/
def hasReg (mask : U32) (r : Nat) : Bool := mask &&& regBit r ≠ 0

def insnReads (e : U64) : U32 :=
  let dst := (insnDst e).toNat
  let src := (insnSrc e).toNat
  let cls := insnCls e
  let hi := insnHi e
  if isAluCls cls then
    if hi = 0xb0 then (if insnSrcX e then regBit src else 0)
    else if hi = 0x80 ∨ hi = 0xd0 then regBit dst
    else regBit dst ||| (if insnSrcX e then regBit src else 0)
  else if isJmpCls cls then
    if hi = 0x90 then 1
    else if hi = 0x80 then (if insnImm e = 2 then regBit 1 ||| regBit 2 else regBit 1)
    else if hi = 0x00 then 0
    else regBit dst ||| (if insnSrcX e then regBit src else 0)
  else if cls = 0x01 then regBit src
  else 0

def insnWrites (e : U64) : U32 :=
  let cls := insnCls e
  if cls = 0x01 ∨ cls = 0x04 ∨ cls = 0x07 then regBit (insnDst e).toNat
  else if isJmpCls cls ∧ insnHi e = 0x80 then 1
  else 0

/-- `(uint32_t)((int32_t)pc + 1 + off)`. -/
def insnTarget (e : U64) (pc : U32) : U32 := pc + 1 + (insnOff e).signExtend 32

def insnSucc (e : U64) (pc : U32) : List U32 :=
  let hi := insnHi e
  if isJmpCls (insnCls e) then
    if hi = 0x90 then []
    else if hi = 0x00 then [insnTarget e pc]
    else if hi = 0x80 then [pc + 1]
    else [pc + 1, insnTarget e pc]
  else [pc + 1]

/-! ## The register gate -/

/-- `SCALARS_ALL` register numbers `r0 .. r10`. -/
def regNumbers : List Nat := List.range 11

/-- Every register the instruction reads is written and carries a type the
    instruction accepts. -/
def readsOk (e : U64) (st : U32) : Bool :=
  regNumbers.all fun r =>
    !hasReg (insnReads e) r ||
      (let t := regType st r
       t ≠ T_BOTTOM ∧ ¬ (insnCls e = 0x01 ∧ t ≠ T_CTX) ∧ ¬ (isAluCls (insnCls e) ∧ t = T_CTX))

/-- Division or modulo by an immediate zero. -/
def divByImmZero (e : U64) : Bool :=
  isAluCls (insnCls e) ∧ (insnHi e = 0x30 ∨ insnHi e = 0x90) ∧ ¬ insnSrcX e ∧ insnImm e = 0

/-- The out-state: writes give `T_SCALAR`, a call's return value too. -/
def outState (e : U64) (st : U32) : U32 :=
  let out := regNumbers.foldl
    (fun out r => if hasReg (insnWrites e) r then setType out r T_SCALAR else out) st
  if isJmpCls (insnCls e) ∧ insnHi e = 0x80 then setType out 0 T_SCALAR else out

/-- One word of packed register types, ordered by inclusion of its bits:
    the join of the analysis is `&`. -/
@[ext] structure TypeWord where
  bits : U32
  deriving DecidableEq, Repr

namespace TypeWord

instance : Min TypeWord := ⟨fun a b => ⟨a.bits &&& b.bits⟩⟩

instance : SemilatticeInf TypeWord where
  inf a b := ⟨a.bits &&& b.bits⟩
  le a b := a.bits &&& b.bits = a.bits
  le_refl a := BitVec.and_self
  le_trans a b c hab hbc := by
    show a.bits &&& c.bits = a.bits
    rw [← hab, BitVec.and_assoc, hbc]
  le_antisymm a b hab hba := TypeWord.ext <|
    calc a.bits = a.bits &&& b.bits := hab.symm
      _ = b.bits &&& a.bits := BitVec.and_comm ..
      _ = b.bits := hba
  inf_le_left a b := by
    show a.bits &&& b.bits &&& a.bits = a.bits &&& b.bits
    rw [BitVec.and_comm, ← BitVec.and_assoc, BitVec.and_self]
  inf_le_right a b := by
    show a.bits &&& b.bits &&& b.bits = a.bits &&& b.bits
    rw [BitVec.and_assoc, BitVec.and_self]
  le_inf a b c hab hac := by
    show a.bits &&& (b.bits &&& c.bits) = a.bits
    rw [← BitVec.and_assoc, hab, hac]

/-- The number of set bits. -/
def rank (w : TypeWord) : Nat := ((Finset.range 32).filter fun i => w.bits.getLsbD i).card

end TypeWord

/-- `check_regs` as a worklist analysis. -/
def regAnalysis (ins : Nat → U64) : Worklist.Analysis TypeWord where
  check pc st := readsOk (ins pc) st.bits ∧ ¬ divByImmZero (ins pc)
  out pc st := ⟨outState (ins pc) st.bits⟩
  succs pc := (insnSucc (ins pc) (BitVec.ofNat 32 pc)).map BitVec.toNat

/-- Every node pending and unconstrained; at the entry, `r1` is the context
    pointer and no other register is written. -/
def regEntry (cnt : Nat) : Worklist.State TypeWord where
  val := Function.update (fun _ => ⟨0xFFFFFFFF⟩) 0 ⟨setType 0 1 T_CTX⟩
  pending := fun i => i < cnt

/-- Rounds enough for any image: each either ends the loop or clears one of
    at most `32 * cnt` type bits or `cnt` pending flags. -/
def regFuel (cnt : Nat) : Nat := 33 * cnt + 1

def checkRegs (ins : Nat → U64) (cnt : Nat) : IcStatus :=
  match Worklist.run (regAnalysis ins) cnt (regFuel cnt) (regEntry cnt) with
  | some true => .ok
  | _ => .errValidate

/-! ## The per-instruction scan -/

/-- One turn of the scan loop: `false` is `return IC_ERR_VALIDATE`. -/
def scanInsn (e : U64) (pc cnt : Nat) : Bool :=
  if 10 < insnDst e ∨ 10 < insnSrc e then false
  else if insnCls e = 0x01 ∧ insnDst e = 10 then false
  else if ¬ opcodeKnown (insnOp e) then false
  else if isAluCls (insnCls e) ∧ insnHi e = 0xd0 ∧ insnSrcX e ∧
      e >>> 32 ≠ 16 ∧ e >>> 32 ≠ 32 ∧ e >>> 32 ≠ 64 then false
  else if isJmpCls (insnCls e) then
    if insnHi e = 0x90 then true
    else if insnHi e = 0x80 then
      if insnCls e = 0x06 then false
      else if insnSrcX e then false
      else
        let h : U32 := (insnImm e).setWidth 32
        ¬ (h = 0 ∨ 2 < h)
    else
      let target : Int := pc + 1 + (insnOff e).toInt
      ¬ (target < 0 ∨ cnt ≤ target)
  else true

/-- `ic_program_check`; `none` is a null program pointer. -/
def icProgramCheck (ins : Option (Nat → U64)) (cnt : U32) : IcStatus :=
  match ins with
  | none => .errArgument
  | some ins =>
    if cnt = 0 ∨ IC_PROG_MAX_INSNS < cnt then .errArgument
    else if (List.range cnt.toNat).all fun pc => scanInsn (ins pc) pc cnt.toNat then
      checkRegs ins cnt.toNat
    else .errValidate

/-- A verdict depends on the first `cnt` words only. -/
theorem icProgramCheck_congr {ins ins' : Nat → U64} {cnt : U32}
    (h : ∀ i < cnt.toNat, ins i = ins' i) :
    icProgramCheck (some ins) cnt = icProgramCheck (some ins') cnt := by
  have hscan : ((List.range cnt.toNat).all fun pc => scanInsn (ins pc) pc cnt.toNat) =
      (List.range cnt.toNat).all fun pc => scanInsn (ins' pc) pc cnt.toNat := by
    rw [Bool.eq_iff_iff, List.all_eq_true, List.all_eq_true]
    refine forall_congr' fun pc => forall_congr' fun hpc => ?_
    rw [h pc (List.mem_range.mp hpc)]
  have hregs : checkRegs ins cnt.toNat = checkRegs ins' cnt.toNat := by
    unfold checkRegs
    rw [Worklist.run_congr fun pc hpc => ?_]
    simp only [regAnalysis, h pc hpc, and_self]
  unfold icProgramCheck
  simp only [hscan, hregs]

end Interclus

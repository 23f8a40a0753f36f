import Interclus.Core.Trap
import Interclus.Framework.SatLog
import Interclus.Isolation.ArmedWindow

/-! # Exact Traps

    Three exits share the prologue of `trap_entry`: a fault in U-mode, an
    `ecall`, and a fault of the supervisor itself.  Each is one straight
    line once its branches are known.  The line is executed symbolically,
    for each value of the ring index, and the result read off.

    What the line does to the TCB is `saveTcb`, what it does to the ring is
    a record of a log of eight, and `compartment_enter` undoes the save. -/

namespace Interclus

open Words Rv32 LTS

/-! ## The state on entry -/

/-- Word `k` of what is at a symbol. -/
def symWord (addr : TrapSym → U32) (m : Mem) (s : TrapSym) (k : Nat) : U32 :=
  le32 m (addr s + BitVec.ofNat 32 (4 * k)).toNat

/-- The forensics ring of a memory. -/
def ringOf (addr : TrapSym → U32) (m : Mem) : SatLog (U32 × U32) where
  index := (symWord addr m .gRiIndex 0).toNat
  entry k := (symWord addr m .gRiCause k, symWord addr m .gRiAddr k)

/-- The link map, `trap_sp0_top` in `mscratch`, a compartment in `cur_tcb`,
    and the ring index inside the ring. -/
structure TrapState (addr : TrapSym → U32) (h : Hart) : Prop where
  placed : Placed trapShape addr
  scratch : h.csr .mscratch = addr .trapSp0 + TRAP_SP0_SIZE
  tcb : symWord addr h.mem .curTcb 0 = addr .tcb
  tcbSet : addr .tcb ≠ 0
  index : (ringOf addr h.mem).index ≤ 7

/-- What is known of the hart on entry, for a ring index; `mepc` is known
    where the instruction behind it is read. -/
def entrySym (i : Fin 8) (mepc : Sym TrapSym) : SymState TrapSym where
  regs := .reg
  csrs c :=
    if c = .mscratch then .ptr .trapSp0 TRAP_SP0_SIZE
    else if c = .mepc then mepc
    else .csr c
  mem s k :=
    if s = .curTcb ∧ k = 0 then .ptr .tcb 0
    else if s = .gRiIndex ∧ k = 0 then .lit (BitVec.ofNat 32 i)
    else .word s k

section Exits
variable {addr : TrapSym → U32} {h : Hart}

theorem TrapState.represents (hs : TrapState addr h) {i : Fin 8}
    (hi : symWord addr h.mem .gRiIndex 0 = BitVec.ofNat 32 i) {mepc : Sym TrapSym}
    (hmepc : h.csr .mepc = mepc.eval addr h) :
    Represents trapShape addr h (entrySym i mepc) h where
  regs := by
    intro r
    unfold SymState.get
    by_cases hr : r = 0
    · rw [if_pos hr, hr]
      rfl
    · rw [if_neg hr]
      rfl
  csrs := by
    intro c
    unfold entrySym
    dsimp only
    -- two CSRs are known, the others are symbols
    by_cases hscratch : c = .mscratch
    · rw [if_pos hscratch, hscratch]
      exact hs.scratch
    · rw [if_neg hscratch]
      by_cases hc : c = .mepc
      · rw [if_pos hc, hc]
        exact hmepc
      · rw [if_neg hc]
        rfl
  mem := by
    intro s k _
    unfold entrySym
    dsimp only
    -- two words are known: the TCB pointer and the ring index
    by_cases htcb : s = .curTcb ∧ k = 0
    · rw [if_pos htcb, htcb.1, htcb.2]
      exact hs.tcb.trans (BitVec.add_zero _).symm
    · rw [if_neg htcb]
      by_cases hindex : s = .gRiIndex ∧ k = 0
      · rw [if_pos hindex, hindex.1, hindex.2]
        exact hi
      · rw [if_neg hindex]
        rfl
  frame := fun _ _ => rfl

theorem TrapState.exists_index (hs : TrapState addr h) :
    ∃ i : Fin 8, symWord addr h.mem .gRiIndex 0 = BitVec.ofNat 32 i := by
  refine ⟨⟨_, Nat.lt_succ_of_le hs.index⟩, ?_⟩
  exact (BitVec.ofNat_toNat 32 _ ▸ (BitVec.setWidth_eq _).symm)

theorem tcb_word (q : Reg) : trapShape.Word .tcb (BitVec.ofNat 32 (4 * q)) := by
  revert q
  decide

/-! ## The straight lines -/

/-- Prologue and ring, for a ring index. -/
def recordLine (i : Fin 8) : List TrapInstr :=
  trapProlog ++ trapRecord ++ (if i < 7 then [] else trapIndexStop) ++ trapIndexOk

def faultLine (i : Fin 8) : List TrapInstr :=
  recordLine i ++ trapTcb ++ trapEvSave ++ trapEvNosave

def skipLine (i : Fin 8) (long : Bool) : List TrapInstr :=
  recordLine i ++ trapSkip ++ (if long then trapSkipLong else []) ++ trapRestore

def ecallLine : List TrapInstr := trapProlog ++ trapTcb ++ trapEcallSave ++ trapEcallZero

/-- The previous privilege of a trap: 3 is M-mode. -/
def trapMpp (h : Hart) : U32 := (h.csr .mstatus >>> 11) &&& 3

/-- The first branch: an `ecall`. -/
theorem prolog_cause {i : Fin 8} {mepc : Sym TrapSym}
    (hrep : Represents trapShape addr h (entrySym i mepc) h) (hp : Placed trapShape addr) :
    (run addr trapProlog h).get t0 = h.csr .mcause ∧ (run addr trapProlog h).get t1 = 8 := by
  have hcheck : ((entrySym i mepc).run trapShape trapProlog).any (fun out =>
      decide (out.get t0 = .csr .mcause ∧ out.get t1 = .lit 8)) = true := rfl
  obtain ⟨out, ⟨hcause, height⟩, hout⟩ := run_check hp hrep hcheck
  rw [hout.get_eq hcause, hout.get_eq height]
  exact ⟨rfl, rfl⟩

/-- The branch at the end of the ring. -/
theorem record_index {i : Fin 8} {mepc : Sym TrapSym}
    (hmepc : mepc = .csr .mepc ∨ mepc = .ptr .insn 0)
    (hrep : Represents trapShape addr h (entrySym i mepc) h) (hp : Placed trapShape addr) :
    ((run addr (trapProlog ++ trapRecord) h).get t3).slt
      ((run addr (trapProlog ++ trapRecord) h).get t4) = decide (i < 7) := by
  have hcheck : ∀ i : Fin 8, ∀ mepc ∈ [Sym.csr .mepc, Sym.ptr .insn 0],
      ((entrySym i mepc).run trapShape (trapProlog ++ trapRecord)).any (fun out =>
        decide (out.get t3 = .lit (BitVec.ofNat 32 i + 1) ∧ out.get t4 = .lit 8)) = true := by
    decide +kernel
  obtain ⟨out, ⟨hnext, height⟩, hout⟩ := run_check hp hrep (hcheck i mepc (by simpa using hmepc))
  have hslt : ∀ i : Fin 8, (BitVec.ofNat 32 i + 1 : U32).slt 8 = decide (i < 7) := by decide
  rw [hout.get_eq hnext, hout.get_eq height]
  exact hslt i

/-- The ring, without its branch. -/
theorem entryRecord_eq {i : Fin 8} {mepc : Sym TrapSym}
    (hmepc : mepc = .csr .mepc ∨ mepc = .ptr .insn 0)
    (hrep : Represents trapShape addr h (entrySym i mepc) h) (hp : Placed trapShape addr) :
    entryRecord addr (run addr trapProlog h) = run addr (recordLine i) h := by
  have hindex := record_index hmepc hrep hp
  unfold recordLine
  rw [run_append] at hindex
  rw [run_append, run_append, run_append]
  unfold entryRecord
  dsimp only
  rw [hindex]
  by_cases hlt : i < 7
  · rw [if_pos (decide_eq_true hlt), if_pos hlt, run_nil]
  · rw [if_neg (mt of_decide_eq_true hlt), if_neg hlt]

/-- The branch on `MPP`. -/
theorem record_mode {i : Fin 8} {mepc : Sym TrapSym}
    (hmepc : mepc = .csr .mepc ∨ mepc = .ptr .insn 0)
    (hrep : Represents trapShape addr h (entrySym i mepc) h) (hp : Placed trapShape addr) :
    (run addr (recordLine i) h).get t1 = trapMpp h ∧ (run addr (recordLine i) h).get t2 = 3 := by
  have hcheck : ∀ i : Fin 8, ∀ mepc ∈ [Sym.csr .mepc, Sym.ptr .insn 0],
      ((entrySym i mepc).run trapShape (recordLine i)).any (fun out =>
        decide (out.get t1 = .bin .and (.bin .srl (.csr .mstatus) (.lit 11)) (.lit 3) ∧
          out.get t2 = .lit 3)) = true := by
    decide +kernel
  obtain ⟨out, ⟨hmode, hthree⟩, hout⟩ := run_check hp hrep (hcheck i mepc (by simpa using hmepc))
  rw [hout.get_eq hmode, hout.get_eq hthree]
  exact ⟨by simp [Sym.eval, Op.eval, trapMpp], rfl⟩

/-! ## A fault in U-mode -/

/-- The ring after a trap is the record of a log of eight, inside the ring. -/
structure RingLogged (addr : TrapSym → U32) (m m' : Mem) (fault : U32 × U32) : Prop where
  index : (ringOf addr m').index = ((ringOf addr m).record 8 fault).index
  bound : (ringOf addr m').index ≤ 7
  entry : ∀ k < 8, (ringOf addr m').entry k = ((ringOf addr m).record 8 fault).entry k

/-- Outside the stack, the ring and the TCB no byte was written. -/
def TrapFrame (addr : TrapSym → U32) (m m' : Mem) : Prop :=
  ∀ j, (∀ s, trapShape.words s = true → ¬ InRegion trapShape addr s j) → m' j = m j

/-- How `supervisor_fault` is reached from a fault in U-mode. -/
structure FaultExit (addr : TrapSym → U32) (h : Hart) (r : Returned) : Prop where
  pc : r.pc = addr .supervisorFault
  mode : r.mode = 3
  saved : ∀ q : Reg, q ≠ 0 → symWord addr r.hart.mem .tcb q = h.get q
  cause : r.hart.get a0 = h.csr .mcause
  value : r.hart.get a1 = h.csr .mtval
  stack : r.hart.get sp = addr .supStackTop
  cleared : ∀ q : Reg, q ≠ a0 → q ≠ a1 → q ≠ sp → r.hart.get q = 0
  wiped : ∀ k < 12, symWord addr r.hart.mem .trapSp0 (4 + k) = 0
  scratch : r.hart.csr .mscratch = addr .trapSp0 + TRAP_SP0_SIZE
  ring : RingLogged addr h.mem r.hart.mem (h.csr .mcause, h.csr .mtval)
  frame : TrapFrame addr h.mem r.hart.mem

/-- The symbolic ring after a record at index `i`. -/
def RingSym (i : Fin 8) (out : SymState TrapSym) : Prop :=
  out.mem .gRiIndex 0 = .lit (if i < 7 then BitVec.ofNat 32 (i + 1) else 7) ∧
    ∀ k : Fin 8, out.mem .gRiCause (BitVec.ofNat 32 (4 * k)) =
        (if k = i then .csr .mcause else .word .gRiCause (BitVec.ofNat 32 (4 * k))) ∧
      out.mem .gRiAddr (BitVec.ofNat 32 (4 * k)) =
        (if k = i then .csr .mtval else .word .gRiAddr (BitVec.ofNat 32 (4 * k)))

instance (i : Fin 8) : DecidablePred (RingSym i) :=
  fun _ => inferInstanceAs (Decidable (_ ∧ _))

theorem RingSym.logged {i : Fin 8} {out : SymState TrapSym} {h' : Hart} (hring : RingSym i out)
    (hi : symWord addr h.mem .gRiIndex 0 = BitVec.ofNat 32 i)
    (hrep : Represents trapShape addr h out h') :
    RingLogged addr h.mem h'.mem (h.csr .mcause, h.csr .mtval) := by
  obtain ⟨hindex, hentry⟩ := hring
  have hold : (ringOf addr h.mem).index = i := by
    show (symWord addr h.mem .gRiIndex 0).toNat = i
    rw [hi, BitVec.toNat_ofNat]
    exact Nat.mod_eq_of_lt (Nat.lt_trans i.isLt (by decide))
  have hstop : ∀ i : Fin 8, (if i < 7 then BitVec.ofNat 32 (i + 1) else 7 : U32).toNat =
      if i.val + 1 < 8 then i.val + 1 else 8 - 1 := by decide
  have hnew : (ringOf addr h'.mem).index = if i.val + 1 < 8 then i.val + 1 else 8 - 1 := by
    rw [← hstop i]
    refine congrArg BitVec.toNat ((hrep.mem .gRiIndex 0 (by decide)).trans ?_)
    rw [hindex]
    rfl
  -- the words of both arrays
  have hword : ∀ k : Fin 8, trapShape.Word .gRiCause (BitVec.ofNat 32 (4 * k)) ∧
      trapShape.Word .gRiAddr (BitVec.ofNat 32 (4 * k)) := by decide
  refine ⟨?_, ?_, ?_⟩
  · rw [hnew, SatLog.record, hold]
  · rw [hnew]
    split <;> omega
  · intro k hk
    obtain ⟨hcause, haddr⟩ := hentry ⟨k, hk⟩
    obtain ⟨hcauseWord, haddrWord⟩ := hword ⟨k, hk⟩
    have hcause' := hrep.mem .gRiCause _ hcauseWord
    have haddr' := hrep.mem .gRiAddr _ haddrWord
    rw [hcause] at hcause'
    rw [haddr] at haddr'
    refine (Prod.ext hcause' haddr' : (ringOf addr h'.mem).entry k = (_, _)).trans ?_
    unfold SatLog.record
    dsimp only
    rw [hold]
    by_cases hki : k = i
    · rw [if_pos (Fin.ext hki), if_pos (Fin.ext hki), hki, Function.update_self]
      rfl
    · have hne : (⟨k, hk⟩ : Fin 8) ≠ i := fun h => hki (congrArg Fin.val h)
      rw [Function.update_of_ne hki, if_neg hne, if_neg hne]
      rfl

/-- The last `mstatus` write of both handlers returns to M-mode. -/
theorem mode_machine (m : U32) : ((m ||| 0x1800) &&& 0xFFFFFF7F) >>> 11 &&& 3 = (3 : U32) := by
  -- the bits set by the `or` survive the `and`
  have hbits : ((0x1800 : U32) &&& 0xFFFFFF7F) >>> 11 = 3 := by decide
  have habsorb : ∀ a b : U32, (a ||| b) &&& b = b := by
    intro a b
    ext k hk
    simp only [BitVec.getElem_and, BitVec.getElem_or]
    cases b[k] <;> simp
  rw [BitVec.and_or_distrib_right, BitVec.ushiftRight_or_distrib, hbits]
  exact habsorb _ 3

/-- What the straight line of a fault leaves. -/
def FaultSym (i : Fin 8) (out : SymState TrapSym) : Prop :=
  (out.csrs .mepc = .ptr .supervisorFault 0 ∧ out.csrs .mscratch = .ptr .trapSp0 TRAP_SP0_SIZE ∧
    out.csrs .mstatus =
      .bin .and (.bin .or (.csr .mstatus) (.lit 0x1800)) (.lit 0xFFFFFF7F)) ∧
  (∀ q : Reg, q ≠ 0 → out.mem .tcb (BitVec.ofNat 32 (4 * q)) = .reg q) ∧
  (out.get a0 = .csr .mcause ∧ out.get a1 = .csr .mtval ∧ out.get sp = .ptr .supStackTop 0) ∧
  (∀ q : Reg, q ≠ a0 → q ≠ a1 → q ≠ sp → out.get q = .lit 0) ∧
  (∀ k : Fin 12, out.mem .trapSp0 (BitVec.ofNat 32 (4 * (4 + k))) = .lit 0) ∧
  RingSym i out

instance (i : Fin 8) : DecidablePred (FaultSym i) :=
  fun _ => inferInstanceAs (Decidable (_ ∧ _))

theorem faultLine_check (i : Fin 8) :
    ((entrySym i (.csr .mepc)).run trapShape (faultLine i)).any
      (fun out => decide (FaultSym i out)) = true := by
  revert i
  decide +kernel

/-- The branch around a save: a compartment is running. -/
theorem saveIfTcb_eq (hs : TrapState addr h) {ss : SymState TrapSym} {line save : List TrapInstr}
    (hrep : Represents trapShape addr h ss h)
    (hcheck : (ss.run trapShape (line ++ trapTcb)).any
      (fun out => decide (out.get t0 = .ptr .tcb 0)) = true) :
    saveIfTcb addr save (run addr line h) = run addr (line ++ trapTcb ++ save) h := by
  obtain ⟨out, htcb, hout⟩ := run_check hs.placed hrep hcheck
  -- the test sees the address of the TCB
  have hne : (run addr (line ++ trapTcb) h).get t0 ≠ 0 := by
    rw [hout.get_eq htcb]
    exact fun h => hs.tcbSet ((BitVec.add_zero _).symm.trans h)
  rw [run_append] at hne
  rw [run_append, run_append]
  exact if_neg hne

/-- A fault in U-mode runs its straight line. -/
theorem trapEntry_faultLine (hs : TrapState addr h) {i : Fin 8}
    (hrep : Represents trapShape addr h (entrySym i (.csr .mepc)) h)
    (hcause : h.csr .mcause ≠ 8) (hmode : trapMpp h ≠ 3) :
    trapEntry addr h = mret (run addr (faultLine i) h) := by
  have hcheck : ∀ i : Fin 8, ((entrySym i (.csr .mepc)).run trapShape (recordLine i ++ trapTcb)).any
      (fun out => decide (out.get t0 = .ptr .tcb 0)) = true := by
    decide +kernel
  obtain ⟨hleft, height⟩ := prolog_cause hrep hs.placed
  obtain ⟨hmpp, hthree⟩ := record_mode (.inl rfl) hrep hs.placed
  unfold trapEntry faultLine
  dsimp only
  rw [hleft, height, if_neg hcause, entryRecord_eq (.inl rfl) hrep hs.placed, hmpp, hthree,
    if_neg hmode, saveIfTcb_eq hs hrep (hcheck i), ← run_append]

/-- (a) A fault in U-mode. -/
theorem trapEntry_fault (hs : TrapState addr h) (hcause : h.csr .mcause ≠ 8)
    (hmode : trapMpp h ≠ 3) : FaultExit addr h (trapEntry addr h) := by
  obtain ⟨i, hi⟩ := hs.exists_index
  have hrep : Represents trapShape addr h (entrySym i (.csr .mepc)) h := hs.represents hi rfl
  rw [trapEntry_faultLine hs hrep hcause hmode]
  obtain ⟨out, ⟨⟨hmepc, hscratch, hstatus⟩, hsaved, ⟨ha0, ha1, hsp⟩, hcleared, hwiped, hring⟩,
    hout⟩ := run_check hs.placed hrep (faultLine_check i)
  generalize run addr (faultLine i) h = h' at hout
  -- each clause is one word, register or CSR of the checked result
  have hstack : ∀ k : Fin 12, trapShape.Word .trapSp0 (BitVec.ofNat 32 (4 * (4 + k))) := by decide
  refine ⟨?_, ?_, ?_, hout.get_eq ha0, hout.get_eq ha1, ?_, ?_, ?_, hout.csr_eq hscratch,
    hring.logged hi hout, hout.frame⟩
  · exact (hout.csr_eq hmepc).trans (Sym.eval_ptr_zero _)
  · show (h'.csr .mstatus >>> 11) &&& 3 = 3
    rw [hout.csr_eq hstatus]
    exact mode_machine _
  · intro q hq
    exact hout.word_eq (tcb_word q) (hsaved q hq)
  · exact (hout.get_eq hsp).trans (Sym.eval_ptr_zero _)
  · intro q h0 h1 h2
    exact hout.get_eq (hcleared q h0 h1 h2)
  · intro k hk
    exact hout.word_eq (hstack ⟨k, hk⟩) (hwiped ⟨k, hk⟩)

/-! ## An `ecall` -/

/-- What is in a register when `supervisor_resume` is reached: the stack
    pointer and what the last instructions computed with. -/
def resumeReg (addr : TrapSym → U32) (mstatus : U32) (q : Reg) : U32 :=
  if q = sp then addr .supStackTop
  else if q = t0 then addr .supervisorResume
  else if q = t1 then (mstatus ||| 0x1800) &&& 0xFFFFFF7F
  else if q = t2 then 0xFFFFFF7F
  else 0

/-- How `supervisor_resume` is reached. -/
structure EcallExit (addr : TrapSym → U32) (h : Hart) (r : Returned) : Prop where
  pc : r.pc = addr .supervisorResume
  mode : r.mode = 3
  saved : ∀ q : Reg, q ≠ 0 → symWord addr r.hart.mem .tcb q = h.get q
  regs : ∀ q, r.hart.get q = resumeReg addr (h.csr .mstatus) q
  scratch : r.hart.csr .mscratch = addr .trapSp0 + TRAP_SP0_SIZE
  ring : ∀ k < 8, (ringOf addr r.hart.mem).entry k = (ringOf addr h.mem).entry k
  frame : TrapFrame addr h.mem r.hart.mem

def EcallSym (out : SymState TrapSym) : Prop :=
  (out.csrs .mepc = .ptr .supervisorResume 0 ∧ out.csrs .mscratch = .ptr .trapSp0 TRAP_SP0_SIZE ∧
    out.csrs .mstatus =
      .bin .and (.bin .or (.csr .mstatus) (.lit 0x1800)) (.lit 0xFFFFFF7F)) ∧
  (∀ q : Reg, q ≠ 0 → out.mem .tcb (BitVec.ofNat 32 (4 * q)) = .reg q) ∧
  (∀ q : Reg, out.get q =
    if q = sp then .ptr .supStackTop 0
    else if q = t0 then .ptr .supervisorResume 0
    else if q = t1 then .bin .and (.bin .or (.csr .mstatus) (.lit 0x1800)) (.lit 0xFFFFFF7F)
    else if q = t2 then .lit 0xFFFFFF7F
    else .lit 0) ∧
  ∀ k : Fin 8,
    out.mem .gRiCause (BitVec.ofNat 32 (4 * k)) = .word .gRiCause (BitVec.ofNat 32 (4 * k)) ∧
    out.mem .gRiAddr (BitVec.ofNat 32 (4 * k)) = .word .gRiAddr (BitVec.ofNat 32 (4 * k))

instance : DecidablePred EcallSym := fun _ => inferInstanceAs (Decidable (_ ∧ _))

theorem ecallLine_check (i : Fin 8) :
    ((entrySym i (.csr .mepc)).run trapShape ecallLine).any
      (fun out => decide (EcallSym out)) = true := by
  revert i
  decide +kernel

theorem trapEntry_ecall (hs : TrapState addr h) (hcause : h.csr .mcause = 8) :
    EcallExit addr h (trapEntry addr h) := by
  obtain ⟨i, hi⟩ := hs.exists_index
  have hrep : Represents trapShape addr h (entrySym i (.csr .mepc)) h := hs.represents hi rfl
  have hcheck : ∀ i : Fin 8, ((entrySym i (.csr .mepc)).run trapShape (trapProlog ++ trapTcb)).any
      (fun out => decide (out.get t0 = .ptr .tcb 0)) = true := by
    decide +kernel
  have hline : trapEntry addr h = mret (run addr ecallLine h) := by
    obtain ⟨hleft, height⟩ := prolog_cause hrep hs.placed
    unfold trapEntry ecallLine
    dsimp only
    rw [hleft, height, if_pos hcause, saveIfTcb_eq hs hrep (hcheck i), ← run_append]
  rw [hline]
  obtain ⟨out, ⟨⟨hmepc, hscratch, hstatus⟩, hsaved, hregs, hring⟩, hout⟩ :=
    run_check hs.placed hrep (ecallLine_check i)
  generalize run addr ecallLine h = h' at hout
  have hword : ∀ k : Fin 8, trapShape.Word .gRiCause (BitVec.ofNat 32 (4 * k)) ∧
      trapShape.Word .gRiAddr (BitVec.ofNat 32 (4 * k)) := by decide
  refine ⟨?_, ?_, ?_, ?_, hout.csr_eq hscratch, ?_, hout.frame⟩
  · exact (hout.csr_eq hmepc).trans (Sym.eval_ptr_zero _)
  · show (h'.csr .mstatus >>> 11) &&& 3 = 3
    rw [hout.csr_eq hstatus]
    exact mode_machine _
  · intro q hq
    exact hout.word_eq (tcb_word q) (hsaved q hq)
  · intro q
    refine (hout.get_eq (hregs q)).trans ?_
    unfold resumeReg
    -- the registers that are not zero, in turn
    split
    · exact Sym.eval_ptr_zero _
    split
    · exact Sym.eval_ptr_zero _
    split
    · rfl
    split <;> rfl
  · intro k hk
    obtain ⟨hcauseWord, haddrWord⟩ := hword ⟨k, hk⟩
    obtain ⟨hcause', haddr'⟩ := hring ⟨k, hk⟩
    exact Prod.ext (hout.word_eq hcauseWord hcause') (hout.word_eq haddrWord haddr')

/-! ## A fault in M-mode -/

/-- How the supervisor goes on behind a fault of its own; `len` is the
    length of the instruction. -/
structure SkipExit (addr : TrapSym → U32) (h : Hart) (len : U32) (r : Returned) : Prop where
  pc : r.pc = h.csr .mepc + len
  mode : r.mode = 3
  regs : ∀ q, r.hart.get q = h.get q
  mepc : r.hart.csr .mepc = h.csr .mepc + len
  csrs : ∀ c, c ≠ .mepc → r.hart.csr c = h.csr c
  tcb : ∀ q : Reg, symWord addr r.hart.mem .tcb q = symWord addr h.mem .tcb q
  ring : RingLogged addr h.mem r.hart.mem (h.csr .mcause, h.csr .mtval)
  frame : TrapFrame addr h.mem r.hart.mem

/-- The length of an instruction, by the low bits of its first halfword. -/
def insnLen (half : U16) : U32 := if half.setWidth 32 &&& 3 = (3 : U32) then 4 else 2

def SkipSym (i : Fin 8) (long : Bool) (out : SymState TrapSym) : Prop :=
  out.csrs .mepc = .ptr .insn (if long then 4 else 2) ∧
  (out.csrs .mscratch = .ptr .trapSp0 TRAP_SP0_SIZE ∧ out.csrs .mstatus = .csr .mstatus ∧
    out.csrs .mcause = .csr .mcause ∧ out.csrs .mtval = .csr .mtval) ∧
  (∀ q : Reg, q ≠ 0 → out.get q = .reg q) ∧
  (∀ q : Reg, out.mem .tcb (BitVec.ofNat 32 (4 * q)) = .word .tcb (BitVec.ofNat 32 (4 * q))) ∧
  RingSym i out

instance (i : Fin 8) (long : Bool) : DecidablePred (SkipSym i long) :=
  fun _ => inferInstanceAs (Decidable (_ ∧ _))

theorem skipLine_check (i : Fin 8) (long : Bool) :
    ((entrySym i (.ptr .insn 0)).run trapShape (skipLine i long)).any
      (fun out => decide (SkipSym i long out)) = true := by
  revert i long
  decide +kernel

/-- The branch on the length. -/
theorem skip_length {i : Fin 8} (hrep : Represents trapShape addr h (entrySym i (.ptr .insn 0)) h)
    (hp : Placed trapShape addr) :
    (run addr (recordLine i ++ trapSkip) h).get t2 =
        (le16 h.mem (addr .insn).toNat).setWidth 32 &&& 3 ∧
      (run addr (recordLine i ++ trapSkip) h).get t3 = 3 := by
  have hcheck : ∀ i : Fin 8,
      ((entrySym i (.ptr .insn 0)).run trapShape (recordLine i ++ trapSkip)).any (fun out =>
        decide (out.get t2 = .bin .and (.half .insn 0) (.lit 3) ∧ out.get t3 = .lit 3)) = true := by
    decide +kernel
  obtain ⟨out, ⟨hbits, hthree⟩, hout⟩ := run_check hp hrep (hcheck i)
  rw [hout.get_eq hbits, hout.get_eq hthree]
  refine ⟨?_, rfl⟩
  show (le16 h.mem (addr .insn + 0#32).toNat).setWidth 32 &&& (3 : U32) = _
  rw [BitVec.add_zero]

/-- A fault in M-mode runs its straight line. -/
theorem trapEntry_skipLine (hs : TrapState addr h) {i : Fin 8}
    (hrep : Represents trapShape addr h (entrySym i (.ptr .insn 0)) h)
    (hcause : h.csr .mcause ≠ 8) (hmode : trapMpp h = 3) :
    trapEntry addr h = mret (run addr
      (skipLine i ((le16 h.mem (addr .insn).toNat).setWidth 32 &&& 3 = (3 : U32))) h) := by
  obtain ⟨hleft, height⟩ := prolog_cause hrep hs.placed
  obtain ⟨hmpp, hthree⟩ := record_mode (.inr rfl) hrep hs.placed
  obtain ⟨hbits, hthree'⟩ := skip_length hrep hs.placed
  rw [run_append] at hbits hthree'
  unfold trapEntry skipLine
  dsimp only
  rw [hleft, height, if_neg hcause, entryRecord_eq (.inr rfl) hrep hs.placed, hmpp, hthree,
    if_pos hmode, run_append, run_append, run_append]
  unfold entrySkip
  dsimp only
  rw [hbits, hthree']
  by_cases hlong : (le16 h.mem (addr .insn).toNat).setWidth 32 &&& 3 = (3 : U32)
  · rw [if_neg (not_not.mpr hlong), if_pos (decide_eq_true hlong)]
  · rw [if_pos hlong, if_neg (mt of_decide_eq_true hlong), run_nil]

/-- (c) A fault of the supervisor. -/
theorem trapEntry_skip (hs : TrapState addr h) (hinsn : h.csr .mepc = addr .insn)
    (hcause : h.csr .mcause ≠ 8) (hmode : trapMpp h = 3) :
    SkipExit addr h (insnLen (le16 h.mem (h.csr .mepc).toNat)) (trapEntry addr h) := by
  obtain ⟨i, hi⟩ := hs.exists_index
  have hmepc : h.csr .mepc = (Sym.ptr TrapSym.insn 0).eval addr h :=
    hinsn.trans (BitVec.add_zero _).symm
  have hrep := hs.represents hi hmepc
  rw [trapEntry_skipLine hs hrep hcause hmode, hinsn]
  unfold insnLen
  -- the line was checked for both lengths
  generalize (le16 h.mem (addr .insn).toNat).setWidth 32 &&& 3 = bits
  obtain ⟨out, ⟨hnext, ⟨hscratch, hstatus, hcause', hvalue⟩, hregs, htcb, hring⟩, hout⟩ :=
    run_check hs.placed hrep (skipLine_check i (bits = (3 : U32)))
  generalize run addr (skipLine i (bits = (3 : U32))) h = h' at hout
  have hlen : h'.csr .mepc = h.csr .mepc + if bits = (3 : U32) then 4 else 2 := by
    rw [hout.csr_eq hnext, hinsn]
    -- the low bits decide between four bytes and two
    by_cases hlong : bits = (3 : U32)
    · rw [if_pos hlong, if_pos (decide_eq_true hlong)]
      rfl
    · rw [if_neg hlong, if_neg (mt of_decide_eq_true hlong)]
      rfl
  have hmstatus : h'.csr .mstatus = h.csr .mstatus := hout.csr_eq hstatus
  refine ⟨hlen, ?_, ?_, hlen, ?_, ?_, hring.logged hi hout, hout.frame⟩
  · show (h'.csr .mstatus >>> 11) &&& 3 = 3
    rw [hmstatus]
    exact hmode
  · intro q
    by_cases hq : q = 0
    · rw [hq]
      rfl
    · exact hout.get_eq (hregs q hq)
  · intro c hc
    -- `mscratch` was swapped twice, the others were only read
    cases c with
    | mepc => exact absurd rfl hc
    | mstatus => exact hmstatus
    | mscratch => exact (hout.csr_eq hscratch).trans hs.scratch.symm
    | mcause => exact hout.csr_eq hcause'
    | mtval => exact hout.csr_eq hvalue
  · intro q
    exact hout.word_eq (tcb_word q) (htcb q)

/-! ## Back into the compartment -/

/-- The words of the TCB hold a register file. -/
def TcbImage (addr : TrapSym → U32) (m : Mem) (tcb : Reg → U32) : Prop :=
  ∀ q : Reg, q ≠ 0 → symWord addr m .tcb q = tcb q

/-- The restore of `compartment_enter`: `t0` points to the TCB. -/
def enterSym : SymState TrapSym where
  regs q := if q = t0 then .ptr .tcb 0 else .reg q
  csrs := .csr
  mem := .word

def EnterSym (out : SymState TrapSym) : Prop :=
  out.csrs .mepc = .reg a1 ∧
  out.csrs .mstatus = .bin .or (.bin .and (.csr .mstatus) (.lit 0xFFFDE7FF)) (.lit 0x80) ∧
  ∀ q : Reg, q ≠ 0 → out.get q = .word .tcb (BitVec.ofNat 32 (4 * q))

instance : DecidablePred EnterSym := fun _ => inferInstanceAs (Decidable (_ ∧ _))

theorem enterRestore_check :
    (enterSym.run trapShape enterRestore).any (fun out => decide (EnterSym out)) = true := by
  decide +kernel

theorem mode_user (m : U32) : (m &&& 0xFFFDE7FF ||| 0x80) >>> 11 &&& 3 = (0 : U32) := by
  -- MPP is cleared, and the bit set after it lies below
  have hclear : (0xFFFDE7FF : U32) >>> 11 &&& 3 = 0#32 := by decide
  have hlow : (0x80 : U32) >>> 11 = 0#32 := by decide
  rw [BitVec.ushiftRight_or_distrib, hlow, BitVec.or_zero, BitVec.ushiftRight_and_distrib,
    BitVec.and_assoc, hclear, BitVec.and_zero]
  rfl

/-- U-mode starts at the target with the register file of the TCB. -/
structure Resumes (regs : Reg → U32) (target : U32) (r : Returned) : Prop where
  pc : r.pc = target
  mode : r.mode = 0
  regs : ∀ q : Reg, q ≠ 0 → r.hart.get q = regs q

theorem enterTcb_resumes (hp : Placed trapShape addr) {h' : Hart} {tcb : Reg → U32}
    (himage : TcbImage addr h'.mem tcb) (target : U32) :
    Resumes tcb target (enterTcb addr target h') := by
  let h₁ := (h'.set t0 (addr .tcb)).set a1 target
  have hrep : Represents trapShape addr h₁ enterSym h₁ := by
    refine ⟨?_, fun _ => rfl, fun _ _ _ => rfl, fun _ _ => rfl⟩
    intro q
    unfold SymState.get enterSym
    dsimp only
    by_cases hq : q = 0
    · rw [if_pos hq, hq]
      rfl
    · rw [if_neg hq]
      by_cases ht0 : q = t0
      · rw [if_pos ht0, ht0]
        exact (BitVec.add_zero _).symm
      · rw [if_neg ht0]
        rfl
  obtain ⟨out, ⟨hmepc, hstatus, hregs⟩, hout⟩ := run_check hp hrep enterRestore_check
  unfold enterTcb
  generalize run addr enterRestore _ = h₂ at hout
  refine ⟨hout.csr_eq hmepc, ?_, ?_⟩
  · show (h₂.csr .mstatus >>> 11) &&& 3 = 0
    rw [hout.csr_eq hstatus]
    exact mode_user _
  · intro q hq
    exact (hout.get_eq (hregs q hq)).trans (himage q hq)

end Exits

/-! ## From a trap to the next entry -/

/-- A call that is neither a new instantiation nor an entry of `i`. -/
def CompCall.Spares (i : Nat) : CompCall → Prop
  | .set j _ _ => j ≠ i
  | .enter j => j ≠ i
  | _ => True

/-- Such calls leave the TCB of `i` alone. -/
theorem compCalls_tcb {i : Nat} {t : CompTable} {c : CompCore} {calls : List CompCall}
    (hrun : StepsFrom compCalls ⟨t, false⟩ calls c) (hspare : ∀ call ∈ calls, call.Spares i) :
    (c.table.comps i).tcb = (t.comps i).tcb := by
  have hinv := hrun.preserves (P := CompCall.Spares i)
    (I := fun c => (c.table.comps i).tcb = (t.comps i).tcb ∧
      (c.user = true → c.table.curTcb ≠ some i)) ?_ hspare ⟨rfl, fun h => by cases h⟩
  · exact hinv.1
  · intro c call c' hspares hI hstep
    have hkernel : ∀ t' : CompTable, (⟨t', false⟩ : CompCore).user = true →
        t'.curTcb ≠ some i := fun _ h => absurd h Bool.false_ne_true
    cases call with
    | set j spec entry =>
      obtain ⟨_, rfl⟩ := hstep
      -- another compartment is set up
      have hj : i ≠ j := Ne.symm hspares
      refine ⟨?_, hkernel _⟩
      rw [compartmentSet_other hj]
      exact hI.1
    | arm j =>
      obtain ⟨_, rfl⟩ := hstep
      exact ⟨(compartmentArm_body j i c.table).tcb.trans hI.1, hkernel _⟩
    | evict j =>
      obtain ⟨_, rfl⟩ := hstep
      exact ⟨(compartmentEvict_body j i c.table).tcb.trans hI.1, hkernel _⟩
    | enter j =>
      obtain ⟨_, e, henter, _⟩ := hstep
      obtain ⟨t', user⟩ := c'
      unfold compartmentEnter at henter
      split at henter
      · cases henter
      · cases henter
        refine ⟨(compartmentArm_body j i c.table).tcb.trans hI.1, fun _ h => ?_⟩
        exact hspares (Option.some.inj h)
    | trap regs =>
      obtain ⟨huser, rfl⟩ := hstep
      refine ⟨?_, hkernel _⟩
      cases hcur : c.table.curTcb with
      | none =>
        unfold saveTcb
        rw [hcur]
        exact hI.1
      | some k =>
        have hk : i ≠ k := fun h => hI.2 huser (h ▸ hcur)
        exact ((saveTcb_body hcur regs i).2.2 hk).trans hI.1

/-- The register file `regs` is parked in the TCB of memory `m`: the TCB is
    what `saveTcb` makes of the table, and the next entry of the compartment
    resumes with exactly these registers, whatever the other compartments
    did meanwhile. -/
structure Parked (addr : TrapSym → U32) (regs : Reg → U32) (m : Mem) : Prop where
  image : ∀ (t : CompTable) i, t.curTcb = some i →
    TcbImage addr m ((saveTcb regs t).comps i).tcb
  resumes : ∀ (t : CompTable) i, t.curTcb = some i → ∀ calls c,
    StepsFrom compCalls ⟨saveTcb regs t, false⟩ calls c → (∀ call ∈ calls, call.Spares i) →
    ∀ t' e, compartmentEnter i c.table = some (t', e) →
    ∀ h' : Hart, TcbImage addr h'.mem e.regs → Resumes regs e.mepc (enterTcb addr e.mepc h')

/-- What `saveTcb` leaves in the TCB of the compartment that ran. -/
theorem saveTcb_self {t : CompTable} {i : Nat} (hi : t.curTcb = some i) (regs : Reg → U32) {q : Reg}
    (hq : q ≠ 0) : ((saveTcb regs t).comps i).tcb q = regs q := by
  unfold saveTcb
  rw [hi]
  show (if i = i then _ else _ : Compartment).tcb q = _
  rw [if_pos rfl]
  exact if_neg hq

theorem parked_of_saved {addr : TrapSym → U32} (hp : Placed trapShape addr) {regs : Reg → U32}
    {m : Mem} (hsaved : TcbImage addr m regs) : Parked addr regs m where
  image := by
    intro t i hi q hq
    rw [saveTcb_self hi regs hq]
    exact hsaved q hq
  resumes := by
    intro t i hi calls c hrun hspare t' e henter h' himage
    have hregs : ∀ q : Reg, q ≠ 0 → e.regs q = regs q := by
      intro q hq
      rw [← saveTcb_self hi regs hq, ← compCalls_tcb hrun hspare]
      unfold compartmentEnter at henter
      split at henter
      · cases henter
      · cases henter
        rw [(compartmentArm_body i i c.table).tcb]
    refine enterTcb_resumes hp (fun q hq => ?_) e.mepc
    rw [himage q hq, hregs q hq]

/-- **Traps are exact.** For every register file: a fault in U-mode reaches
    `supervisor_fault` with the file in the TCB and nothing of it anywhere
    else, an `ecall` parks it for the next entry, and a fault in M-mode
    leaves everything but `mepc` as it was.  The ring takes the trap inside
    its bounds. -/
theorem trapEntry_exact {addr : TrapSym → U32} {h : Hart} (hs : TrapState addr h) :
    (h.csr .mcause ≠ 8 → trapMpp h ≠ 3 → FaultExit addr h (trapEntry addr h)) ∧
      (h.csr .mcause = 8 → EcallExit addr h (trapEntry addr h) ∧
        Parked addr h.get (trapEntry addr h).hart.mem) ∧
      (h.csr .mcause ≠ 8 → trapMpp h = 3 → h.csr .mepc = addr .insn →
        SkipExit addr h (insnLen (le16 h.mem (h.csr .mepc).toNat)) (trapEntry addr h)) := by
  refine ⟨trapEntry_fault hs, ?_, ?_⟩
  · intro hcause
    have hexit := trapEntry_ecall hs hcause
    exact ⟨hexit, parked_of_saved hs.placed hexit.saved⟩
  · intro hcause hmode hinsn
    exact trapEntry_skip hs hinsn hcause hmode

/-! ## A link map -/

/-- The objects in RAM and three labels in flash. -/
def sampleAddr : TrapSym → U32
  | .trapSp0 => 0x20000000
  | .gRiIndex => 0x20000040
  | .gRiCause => 0x20000044
  | .gRiAddr => 0x20000064
  | .curTcb => 0x20000084
  | .tcb => 0x20000100
  | .supStackTop => 0x20000800
  | .supervisorFault => 0x1000
  | .supervisorResume => 0x1100
  | .insn => 0x1200

def sampleHart (mcause mstatus : U32) : Hart where
  x q := BitVec.ofNat 32 (1000 + q)
  csr
    | .mstatus => mstatus
    | .mscratch => 0x20000040
    | .mepc => 0x1200
    | .mcause => mcause
    | .mtval => 0x40
  mem := putLe32 (fun _ => 0) 0x20000084 0x20000100

theorem sampleHart_state (mcause mstatus : U32) :
    TrapState sampleAddr (sampleHart mcause mstatus) where
  placed := by
    refine ⟨?_, ?_⟩
    · intro s
      cases s <;> decide
    · intro s s'
      cases s <;> cases s' <;> decide
  scratch := rfl
  tcb := le32_putLe32 _ _ _
  tcbSet := by decide
  index := by
    have hzero : symWord sampleAddr (sampleHart mcause mstatus).mem .gRiIndex 0 = 0 :=
      le32_putLe32_of_apart _ (by decide)
    show (symWord _ _ _ _).toNat ≤ 7
    rw [hzero]
    decide

/-- The three exits, from one state of memory. -/
theorem trapEntry_exact_sample :
    FaultExit sampleAddr (sampleHart 5 0) (trapEntry sampleAddr (sampleHart 5 0)) ∧
      EcallExit sampleAddr (sampleHart 8 0) (trapEntry sampleAddr (sampleHart 8 0)) ∧
      SkipExit sampleAddr (sampleHart 5 0x1800) 2 (trapEntry sampleAddr (sampleHart 5 0x1800)) := by
  refine ⟨?_, ?_, ?_⟩
  · exact (trapEntry_exact (sampleHart_state 5 0)).1 (by decide) (by decide)
  · exact ((trapEntry_exact (sampleHart_state 8 0)).2.1 (by decide)).1
  · exact (trapEntry_exact (sampleHart_state 5 0x1800)).2.2 (by decide) (by decide) rfl

end Interclus

import Interclus.Supervisor.FilterPhase

/-! # Assembled Programs

    The macros of `core/ebpf_asm.h` and what the interpreter does with the
    instructions they assemble.

    `Yields` is a total-correctness judgement over the step loop: from a
    program counter and a register file, the run ends within `n` steps, with
    a fault, a return value and a map that a postcondition admits.  There is
    one rule for each macro, so a program is executed symbolically by
    applying the rules in the order of its listing. -/

namespace Interclus

open Words

/-! ## Encodings -/

def RSH64I (d : U8) (i : U32) : U64 := ebpfEnc 0x77 d 0 0 i
def ADD64I (d : U8) (i : U32) : U64 := ebpfEnc 0x07 d 0 0 i
def SUB64I (d : U8) (i : U32) : U64 := ebpfEnc 0x17 d 0 0 i
def AND64I (d : U8) (i : U32) : U64 := ebpfEnc 0x57 d 0 0 i
def MOV64 (d s : U8) : U64 := ebpfEnc 0xbf d s 0 0

theorem getLsbD_lowMask {w j : Nat} (k : Nat) (hj : j < w) :
    (BitVec.ofNat w (2 ^ k - 1)).getLsbD j = decide (j < k) := by
  rw [BitVec.getLsbD_ofNat, Nat.testBit_two_pow_sub_one, decide_eq_true hj, Bool.true_and]

/-- The decoder reads back what the macro encodes; register fields are four
    bits wide. -/
theorem decodeInsn_ebpfEnc (op d s : U8) (o : U16) (i : U32) :
    decodeInsn (ebpfEnc op d s o i) = ⟨op, d &&& 0xf, s &&& 0xf, o, i⟩ := by
  have h4 : ∀ {j}, j < 8 → (0xf : U8).getLsbD j = decide (j < 4) := getLsbD_lowMask 4
  have h4' : ∀ {j}, j < 64 → (0xf : U64).getLsbD j = decide (j < 4) := getLsbD_lowMask 4
  have h8 : ∀ {j}, j < 64 → (0xff : U64).getLsbD j = decide (j < 8) := getLsbD_lowMask 8
  have h16 : ∀ {j}, j < 64 → (0xffff : U64).getLsbD j = decide (j < 16) := getLsbD_lowMask 16
  have h32 : ∀ {j}, j < 64 → (0xffffffff : U64).getLsbD j = decide (j < 32) := getLsbD_lowMask 32
  unfold decodeInsn ebpfEnc
  congr 1
  -- bit by bit, the other fields are shifted or masked away
  all_goals
    apply BitVec.eq_of_getLsbD_eq
    intro j hj
    simp only [BitVec.getLsbD_setWidth, BitVec.getLsbD_and, BitVec.getLsbD_or,
      BitVec.getLsbD_shiftLeft, BitVec.getLsbD_ushiftRight]
    grind

/-- The number of a register in an instruction. -/
def regNo (r : Fin 11) : U8 := BitVec.ofNat 8 r.val

theorem regNo_and (r : Fin 11) : regNo r &&& 0xf = regNo r := by
  revert r
  decide

theorem toNat_regNo (r : Fin 11) : (regNo r).toNat = r.val := by
  revert r
  decide

/-- A packet as memory behind a pointer to it. -/
def packetBytes (pkt : List U8) : Mem := fun i => pkt.getD i 0

/-- The packet is the context of the run. -/
structure EbpfProg.Presents (p : EbpfProg) (pkt : List U8) : Prop where
  size : p.ctxSize.toNat = pkt.length
  fits : p.ctx.toNat + pkt.length ≤ 2 ^ 64
  bytes : ∀ i < pkt.length, p.mem (p.ctx + BitVec.ofNat 64 i) = packetBytes pkt i

/-! ## The judgement -/

/-- The program pointer designates this listing. -/
structure EbpfProg.Holds (p : EbpfProg) (code : List U64) : Prop where
  short : code.length ≤ 64
  cnt : p.insnCnt.toNat = code.length
  ins : ∀ i < code.length, p.ins i = code.getD i 0

/-- What a run leaves behind. -/
abbrev RunPost : Type := EbpfFault → U64 → Option (U32 → U32) → Prop

/-- From `pc` with `regs` and `map`, whatever number of steps were taken as
    long as the cap leaves `n` more, the run ends within `n` steps and
    leaves what `Q` admits. -/
def EbpfProg.Yields (undef : CExpr → U64) (p : EbpfProg) (n : Nat) (regs : RegFile) (pc : Nat)
    (map : Option (U32 → U32)) (Q : RunPost) : Prop :=
  ∀ k : U32, k.toNat + n ≤ p.maxSteps.toNat →
    Exec.Ends (ebpfStep undef p) n ⟨regs, BitVec.ofNat 32 pc, k, k, map⟩
      fun r => Q r.fault r.retval r.map

/-- A count below another does not wrap when it is increased. -/
theorem toNat_succ_of_lt {k c : U32} (h : k.toNat + 1 ≤ c.toNat) :
    (k + 1).toNat = k.toNat + 1 := by
  have := c.isLt
  have h1 : (1 : U32).toNat = 1 := rfl
  rw [BitVec.toNat_add]
  omega

section Rules
variable {undef : CExpr → U64} {p : EbpfProg} {code : List U64} {n pc : Nat} {regs : RegFile}
  {map : Option (U32 → U32)} {Q : RunPost}

/-- An instruction whose register fields name `d` and `s`. -/
theorem fetchExec_of_insn {m : EbpfState} {insn : EbpfInsn} (h : p.insnAt m.pc = insn)
    {d s : Fin 11} (hd : insn.dst.toNat = d.val) (hs : insn.src.toNat = s.val) :
    fetchExec undef p m = execInsn undef p insn d s m.fetched := by
  subst h
  have hreg : (p.insnAt m.pc).dst.toNat < 11 ∧ (p.insnAt m.pc).src.toNat < 11 := by omega
  obtain rfl : ⟨_, hreg.1⟩ = d := Fin.ext hd
  obtain rfl : ⟨_, hreg.2⟩ = s := Fin.ext hs
  unfold fetchExec
  dsimp only
  rw [dif_pos hreg]
  rfl

/-- The instruction of the listing at `pc` executes. -/
theorem ebpfStep_listing (hp : p.Holds code) {op : U8} {d s : Fin 11}
    {o : U16} {i : U32} (hins : code[pc]? = some (ebpfEnc op (regNo d) (regNo s) o i))
    {m : EbpfState} (hpc : m.pc = BitVec.ofNat 32 pc)
    (hsteps : m.steps.toNat + 1 ≤ p.maxSteps.toNat) :
    ebpfStep undef p m = execInsn undef p ⟨op, regNo d, regNo s, o, i⟩ d s m.fetched := by
  obtain ⟨hlt, -⟩ := List.getElem?_eq_some_iff.mp hins
  have hlen := hp.short
  have hpc' : m.pc.toNat = pc := by
    rw [hpc, BitVec.toNat_ofNat]
    omega
  have hinsn : p.insnAt m.pc = ⟨op, regNo d, regNo s, o, i⟩ := by
    unfold EbpfProg.insnAt
    rw [hpc', hp.ins pc hlt, List.getD_eq_getElem?_getD, hins, Option.getD_some, decodeInsn_ebpfEnc,
      regNo_and, regNo_and]
  have hcnt : ¬ p.insnCnt ≤ m.pc := by
    rw [BitVec.le_def, hpc', hp.cnt]
    omega
  have hcap : ¬ p.maxSteps < m.steps + 1 := by
    rw [BitVec.lt_def, toNat_succ_of_lt hsteps]
    omega
  unfold ebpfStep
  rw [if_neg hcnt, if_neg hcap, fetchExec_of_insn hinsn (toNat_regNo d) (toNat_regNo s)]

/-- Rule for an instruction that continues. -/
theorem EbpfProg.Holds.turn (hp : p.Holds code) {op : U8}
    {d s : Fin 11} {o : U16} {i : U32}
    (hins : code[pc]? = some (ebpfEnc op (regNo d) (regNo s) o i))
    {regs' : RegFile} {pc' : Nat} {map' : Option (U32 → U32)}
    (hexec : ∀ k, execInsn undef p ⟨op, regNo d, regNo s, o, i⟩ d s
      ⟨regs, BitVec.ofNat 32 pc, k, k, map⟩ = .inl ⟨regs', BitVec.ofNat 32 pc', k, k, map'⟩)
    (h : p.Yields undef n regs' pc' map' Q) : p.Yields undef (n + 1) regs pc map Q := by
  intro k hk
  have hk' : (k + 1).toNat = k.toNat + 1 := toNat_succ_of_lt (c := p.maxSteps) (by omega)
  refine .turn ?_ (h (k + 1) (by omega))
  rw [ebpfStep_listing hp hins rfl (by dsimp only; omega)]
  exact hexec (k + 1)

/-- Rule for an instruction that ends the run. -/
theorem EbpfProg.Holds.stop (hp : p.Holds code) {op : U8}
    {d s : Fin 11} {o : U16} {i : U32}
    (hins : code[pc]? = some (ebpfEnc op (regNo d) (regNo s) o i)) {f : EbpfFault} {v : U64}
    (hexec : ∀ k, execInsn undef p ⟨op, regNo d, regNo s, o, i⟩ d s
      ⟨regs, BitVec.ofNat 32 pc, k, k, map⟩ =
        .inr (EbpfState.stop ⟨regs, BitVec.ofNat 32 pc, k, k, map⟩ f v))
    (hQ : Q f (if f = .ok then v else 0) map) : p.Yields undef (n + 1) regs pc map Q := by
  intro k hk
  refine .stop (r := EbpfState.stop ⟨regs, BitVec.ofNat 32 pc, k + 1, k + 1, map⟩ f v) ?_ hQ
  rw [ebpfStep_listing hp hins rfl (by dsimp only; omega)]
  exact hexec (k + 1)

/-! ## Arithmetic -/

/-- Rule for a 64-bit ALU instruction that assigns a value. -/
theorem EbpfProg.Holds.alu64 (hp : p.Holds code) {op : U8} {d s : Fin 11} {i : U32}
    (hins : code[pc]? = some (ebpfEnc op (regNo d) (regNo s) 0 i)) (hcls : op &&& 0x07 = CLS_ALU64)
    (hd : d ≠ 10) (o : AluOp) (ho : AluOp.ofCode? (op &&& 0xf0) = some o) {v : U64}
    (hval : aluSwitch true o ⟨op, regNo d, regNo s, 0, i⟩
      (if op &&& 0xf0 = AluOp.mov.code then 0 else regs d)
      (aluArg ⟨op, regNo d, regNo s, 0, i⟩ s regs) = .ok (.val v))
    (h : p.Yields undef n (regs.set d v) (pc + 1) map Q) :
    p.Yields undef (n + 1) regs pc map Q := by
  have hcls' : (⟨op, regNo d, regNo s, 0, i⟩ : EbpfInsn).cls = CLS_ALU64 := hcls
  have hval' : aluExpr ⟨op, regNo d, regNo s, 0, i⟩ d s regs = .ok (.val v) := by
    unfold aluExpr
    dsimp only [EbpfInsn.op]
    rw [if_neg hd, ho, hcls', decide_eq_true rfl]
    exact hval
  refine hp.turn hins (fun k => ?_) h
  unfold execInsn
  rw [if_pos (.inl hcls')]
  unfold aluStep aluTrunc EbpfState.advance
  rw [hval']
  dsimp only
  rw [if_pos hcls', BitVec.ofNat_add]
  rfl

/-- The operand of a 64-bit instruction in its immediate form. -/
theorem aluArg_imm {insn : EbpfInsn} {r : Fin 11} (hcls : insn.opcode &&& 0x07 = CLS_ALU64)
    (hsrc : insn.opcode &&& SRC_X = 0) (hneg : insn.opcode &&& 0xf0 ≠ AluOp.neg.code)
    (hend : insn.opcode &&& 0xf0 ≠ AluOp.end.code) :
    aluArg insn r regs = insn.imm.signExtend 64 := by
  have hsrcX : insn.srcX = false := decide_eq_false (not_not.mpr hsrc)
  unfold aluArg
  rw [if_pos ⟨hneg, hend⟩, hsrcX, if_neg (by decide)]
  exact if_pos hcls

/-- The operand of an instruction in its register form. -/
theorem aluArg_reg {insn : EbpfInsn} {r : Fin 11} (hsrc : insn.opcode &&& SRC_X ≠ 0)
    (hneg : insn.opcode &&& 0xf0 ≠ AluOp.neg.code)
    (hend : insn.opcode &&& 0xf0 ≠ AluOp.end.code) : aluArg insn r regs = regs r := by
  have hsrcX : insn.srcX = true := decide_eq_true hsrc
  unfold aluArg
  rw [if_pos ⟨hneg, hend⟩, hsrcX, if_pos rfl]

/-- Rule for the immediate forms. -/
theorem EbpfProg.Holds.alu64i (hp : p.Holds code) {op : U8} {d : Fin 11} {i : U32}
    (hins : code[pc]? = some (ebpfEnc op (regNo d) 0 0 i)) (hd : d ≠ 10) (o : AluOp)
    (hop : op &&& 0x07 = CLS_ALU64 ∧ op &&& SRC_X = 0 ∧ op &&& 0xf0 ≠ AluOp.neg.code ∧
      op &&& 0xf0 ≠ AluOp.end.code) (ho : AluOp.ofCode? (op &&& 0xf0) = some o) {v : U64}
    (hval : aluSwitch true o ⟨op, regNo d, regNo 0, 0, i⟩
      (if op &&& 0xf0 = AluOp.mov.code then 0 else regs d) (i.signExtend 64) = .ok (.val v))
    (h : p.Yields undef n (regs.set d v) (pc + 1) map Q) :
    p.Yields undef (n + 1) regs pc map Q := by
  refine hp.alu64 (s := 0) hins hop.1 hd o ho ?_ h
  rw [aluArg_imm hop.1 hop.2.1 hop.2.2.1 hop.2.2.2]
  exact hval

/-- Rule for the register forms. -/
theorem EbpfProg.Holds.alu64r (hp : p.Holds code) {op : U8} {d s : Fin 11}
    (hins : code[pc]? = some (ebpfEnc op (regNo d) (regNo s) 0 0)) (hd : d ≠ 10) (o : AluOp)
    (hop : op &&& 0x07 = CLS_ALU64 ∧ op &&& SRC_X ≠ 0 ∧ op &&& 0xf0 ≠ AluOp.neg.code ∧
      op &&& 0xf0 ≠ AluOp.end.code) (ho : AluOp.ofCode? (op &&& 0xf0) = some o) {v : U64}
    (hval : aluSwitch true o ⟨op, regNo d, regNo s, 0, 0⟩
      (if op &&& 0xf0 = AluOp.mov.code then 0 else regs d) (regs s) = .ok (.val v))
    (h : p.Yields undef n (regs.set d v) (pc + 1) map Q) :
    p.Yields undef (n + 1) regs pc map Q := by
  refine hp.alu64 hins hop.1 hd o ho ?_ h
  rw [aluArg_reg hop.2.1 hop.2.2.1 hop.2.2.2]
  exact hval

theorem EbpfProg.Holds.mov64i (hp : p.Holds code) (d : Fin 11) (i : U32)
    (hins : code[pc]? = some (MOV64I (regNo d) i)) (hd : d ≠ 10)
    (h : p.Yields undef n (regs.set d (i.signExtend 64)) (pc + 1) map Q) :
    p.Yields undef (n + 1) regs pc map Q :=
  hp.alu64i hins hd .mov (by decide) (by decide) rfl h

theorem EbpfProg.Holds.sll64i (hp : p.Holds code) (d : Fin 11) (i : U32)
    (hins : code[pc]? = some (SLL64I (regNo d) i)) (hd : d ≠ 10)
    (h : p.Yields undef n (regs.set d (regs d <<< (i.signExtend 64 &&& 63).toNat)) (pc + 1) map Q) :
    p.Yields undef (n + 1) regs pc map Q :=
  hp.alu64i hins hd .lsh (by decide) (by decide) rfl h

theorem EbpfProg.Holds.rsh64i (hp : p.Holds code) (d : Fin 11) (i : U32)
    (hins : code[pc]? = some (RSH64I (regNo d) i)) (hd : d ≠ 10)
    (h : p.Yields undef n (regs.set d (regs d >>> (i.signExtend 64 &&& 63).toNat)) (pc + 1) map Q) :
    p.Yields undef (n + 1) regs pc map Q :=
  hp.alu64i hins hd .rsh (by decide) (by decide) rfl h

theorem EbpfProg.Holds.add64i (hp : p.Holds code) (d : Fin 11) (i : U32)
    (hins : code[pc]? = some (ADD64I (regNo d) i)) (hd : d ≠ 10)
    (h : p.Yields undef n (regs.set d (regs d + i.signExtend 64)) (pc + 1) map Q) :
    p.Yields undef (n + 1) regs pc map Q :=
  hp.alu64i hins hd .add (by decide) (by decide) rfl h

theorem EbpfProg.Holds.sub64i (hp : p.Holds code) (d : Fin 11) (i : U32)
    (hins : code[pc]? = some (SUB64I (regNo d) i)) (hd : d ≠ 10)
    (h : p.Yields undef n (regs.set d (regs d - i.signExtend 64)) (pc + 1) map Q) :
    p.Yields undef (n + 1) regs pc map Q :=
  hp.alu64i hins hd .sub (by decide) (by decide) rfl h

theorem EbpfProg.Holds.and64i (hp : p.Holds code) (d : Fin 11) (i : U32)
    (hins : code[pc]? = some (AND64I (regNo d) i)) (hd : d ≠ 10)
    (h : p.Yields undef n (regs.set d (regs d &&& i.signExtend 64)) (pc + 1) map Q) :
    p.Yields undef (n + 1) regs pc map Q :=
  hp.alu64i hins hd .and (by decide) (by decide) rfl h

theorem EbpfProg.Holds.or64 (hp : p.Holds code) (d s : Fin 11)
    (hins : code[pc]? = some (OR64 (regNo d) (regNo s))) (hd : d ≠ 10)
    (h : p.Yields undef n (regs.set d (regs d ||| regs s)) (pc + 1) map Q) :
    p.Yields undef (n + 1) regs pc map Q :=
  hp.alu64r hins hd .or (by decide) (by decide) rfl h

theorem EbpfProg.Holds.mov64 (hp : p.Holds code) (d s : Fin 11)
    (hins : code[pc]? = some (MOV64 (regNo d) (regNo s))) (hd : d ≠ 10)
    (h : p.Yields undef n (regs.set d (regs s)) (pc + 1) map Q) :
    p.Yields undef (n + 1) regs pc map Q :=
  hp.alu64r hins hd .mov (by decide) (by decide) rfl h

/-! ## Jumps -/

theorem signExtend_forward {w : Nat} {o : U16} (ho : o.toNat < 2 ^ 15) :
    o.signExtend w = BitVec.ofNat w o.toNat := by
  have hmsb : o.msb = false := by
    rw [BitVec.msb_eq_decide]
    simpa using ho
  rw [BitVec.signExtend_eq_setWidth_of_msb_false hmsb]
  apply BitVec.eq_of_toNat_eq
  rw [BitVec.toNat_setWidth, BitVec.toNat_ofNat]

/-- A forward jump. -/
theorem jmpTarget_forward {pc : Nat} {insn : EbpfInsn} (ho : insn.off.toNat < 2 ^ 15) :
    jmpTarget (BitVec.ofNat 32 pc) insn = BitVec.ofNat 32 (pc + 1 + insn.off.toNat) := by
  unfold jmpTarget
  rw [signExtend_forward ho, BitVec.ofNat_add, BitVec.ofNat_add]
  rfl

/-- Rule for the conditional 64-bit jumps against an immediate. -/
theorem EbpfProg.Holds.jmp64i (hp : p.Holds code) {op : U8} {d : Fin 11} {o : U16} {i : U32}
    (hins : code[pc]? = some (ebpfEnc op (regNo d) 0 o i)) (ho : o.toNat < 2 ^ 15) (j : JmpOp)
    (hop : op &&& 0x07 = CLS_JMP ∧ op &&& SRC_X = 0 ∧ op &&& 0xf0 ≠ JmpOp.ja.code ∧
      op &&& 0xf0 ≠ JmpOp.exit.code ∧ op &&& 0xf0 ≠ JmpOp.call.code)
    (hj : JmpOp.ofCode? (op &&& 0xf0) = some j) {b : Bool}
    (hval : jmpSwitch j (regs d) (i.signExtend 64) = .taken b)
    (hthen : b = true → p.Yields undef n regs (pc + 1 + o.toNat) map Q)
    (helse : b = false → p.Yields undef n regs (pc + 1) map Q) :
    p.Yields undef (n + 1) regs pc map Q := by
  obtain ⟨hcls, hsrc, hja, hexit, hcall⟩ := hop
  let insn : EbpfInsn := ⟨op, regNo d, regNo 0, o, i⟩
  have hcls' : insn.cls = CLS_JMP := hcls
  have hreads : jmpReadsOperands insn = true := decide_eq_true ⟨hja, hexit⟩
  have hsrcX : insn.srcX = false := decide_eq_false (not_not.mpr hsrc)
  have harg : jmpArg insn 0 regs = i.signExtend 64 := by
    unfold jmpArg
    rw [if_pos hreads, hsrcX, if_neg (by decide), hcls', if_neg (by decide)]
  have hout : jmpOut insn d 0 regs = some (.taken b) := by
    unfold jmpOut jmpVal
    rw [show insn.op = op &&& 0xf0 from rfl, hj, hcls', if_pos hreads, harg, Option.map_some,
      if_neg (by decide), hval]
  have hexec : ∀ k, execInsn undef p insn d 0 ⟨regs, BitVec.ofNat 32 pc, k, k, map⟩ =
      .inl ⟨regs, BitVec.ofNat 32 (if b then pc + 1 + o.toNat else pc + 1), k, k, map⟩ := by
    intro k
    have hncall : ¬ (insn.cls = CLS_JMP ∧ insn.op = JmpOp.call.code) := fun h => hcall h.2
    unfold execInsn
    rw [hcls', if_neg (by decide), if_pos (.inl rfl)]
    unfold jmpStep
    rw [if_neg hncall, hout]
    dsimp only
    cases b
    · rw [if_neg (by decide), if_neg (by decide), BitVec.ofNat_add]
      rfl
    · rw [if_pos rfl, if_pos rfl, jmpTarget_forward ho]
  refine hp.turn (s := 0) hins hexec ?_
  cases b
  · exact helse rfl
  · exact hthen rfl

theorem EbpfProg.Holds.jeq64i (hp : p.Holds code) (d : Fin 11) (i : U32) (o : U16)
    (hins : code[pc]? = some (JEQ64I (regNo d) i o)) (ho : o.toNat < 2 ^ 15)
    (hthen : regs d = i.signExtend 64 → p.Yields undef n regs (pc + 1 + o.toNat) map Q)
    (helse : regs d ≠ i.signExtend 64 → p.Yields undef n regs (pc + 1) map Q) :
    p.Yields undef (n + 1) regs pc map Q :=
  hp.jmp64i hins ho .jeq (by decide) (by decide) rfl (fun h => hthen (of_decide_eq_true h))
    fun h => helse (of_decide_eq_false h)

theorem EbpfProg.Holds.jne64i (hp : p.Holds code) (d : Fin 11) (i : U32) (o : U16)
    (hins : code[pc]? = some (JNE64I (regNo d) i o)) (ho : o.toNat < 2 ^ 15)
    (hthen : regs d ≠ i.signExtend 64 → p.Yields undef n regs (pc + 1 + o.toNat) map Q)
    (helse : regs d = i.signExtend 64 → p.Yields undef n regs (pc + 1) map Q) :
    p.Yields undef (n + 1) regs pc map Q :=
  hp.jmp64i hins ho .jne (by decide) (by decide) rfl (fun h => hthen (of_decide_eq_true h))
    fun h => helse (not_not.mp (of_decide_eq_false h))

theorem EbpfProg.Holds.jgt64i (hp : p.Holds code) (d : Fin 11) (i : U32) (o : U16)
    (hins : code[pc]? = some (JGT64I (regNo d) i o)) (ho : o.toNat < 2 ^ 15)
    (hthen : i.signExtend 64 < regs d → p.Yields undef n regs (pc + 1 + o.toNat) map Q)
    (helse : regs d ≤ i.signExtend 64 → p.Yields undef n regs (pc + 1) map Q) :
    p.Yields undef (n + 1) regs pc map Q :=
  hp.jmp64i hins ho .jgt (by decide) (by decide) rfl (fun h => hthen (of_decide_eq_true h))
    fun h => helse (BitVec.not_lt.mp (of_decide_eq_false h))

theorem EbpfProg.Holds.exit (hp : p.Holds code) (hins : code[pc]? = some EXIT)
    (hQ : Q .ok (regs 0) map) : p.Yields undef (n + 1) regs pc map Q :=
  hp.stop (d := 0) (s := 0) (o := 0) (i := 0)
    (show code[pc]? = some (ebpfEnc 0x95 (regNo 0) (regNo 0) 0 0) from hins) (fun _ => rfl) hQ

/-- Rule for the two instructions that return a verdict. -/
theorem EbpfProg.Holds.verdict (hp : p.Holds code) (v : U32)
    (hmov : code[pc]? = some (MOV64I (regNo 0) v)) (hexit : code[pc + 1]? = some EXIT)
    (hQ : Q .ok (v.signExtend 64) map) : p.Yields undef (n + 2) regs pc map Q :=
  hp.mov64i 0 v hmov (by decide) (hp.exit hexit hQ)

/-! ## Context loads -/

/-- Rule for a load at a forward offset from the context pointer. -/
theorem EbpfProg.Holds.ldx (hp : p.Holds code) {pkt : List U8} (hpkt : p.Presents pkt) {op : U8}
    {d s : Fin 11} {o : U16} (hins : code[pc]? = some (ebpfEnc op (regNo d) (regNo s) o 0))
    (hd : d ≠ 10) (hs : s ≠ 10) (ho : o.toNat < 2 ^ 15) (hbase : regs s = p.ctx) (size : U8)
    (hop : op &&& 0x07 = CLS_LDX ∧ op &&& 0xe0 = MODE_MEM)
    (hsize : ldxSize ⟨op, regNo d, regNo s, o, 0⟩ = size ∧ 1 ≤ size.toNat ∧ size.toNat ≤ 8)
    (hin : o.toNat + size.toNat ≤ pkt.length →
      p.Yields undef n (regs.set d (loadLe p.mem (p.ctx + BitVec.ofNat 64 o.toNat) size)) (pc + 1)
        map Q)
    (hout : pkt.length < o.toNat + size.toNat → Q .mem 0 map) :
    p.Yields undef (n + 1) regs pc map Q := by
  let insn : EbpfInsn := ⟨op, regNo d, regNo s, o, 0⟩
  have hcls : insn.cls = CLS_LDX := hop.1
  have hsize' : ldxSize insn = size := hsize.1
  obtain ⟨hpos, hle⟩ := hsize.2
  have hregs : ¬ (insn.opcode &&& 0xe0 ≠ MODE_MEM ∨ s = 10 ∨ d = 10) := by
    rintro (h | h | h)
    · exact h hop.2
    · exact hs h
    · exact hd h
  have haddr : ldxAddr insn s regs = p.ctx + BitVec.ofNat 64 o.toNat := by
    unfold ldxAddr
    rw [hbase, signExtend_forward ho]
  have hbounds : ldxOutOfBounds p.ctx p.ctxSize (p.ctx + BitVec.ofNat 64 o.toNat) size =
      decide (pkt.length < o.toNat + size.toNat) := by
    have hfits := hpkt.fits
    have hlen := hpkt.size
    have hctx := p.ctx.isLt
    unfold ldxOutOfBounds
    apply decide_eq_decide.mpr
    rw [BitVec.lt_def, BitVec.lt_def, BitVec.toNat_add, BitVec.toNat_add, BitVec.toNat_sub,
      BitVec.toNat_add, BitVec.toNat_ofNat, BitVec.toNat_setWidth, BitVec.toNat_setWidth, hlen]
    have hsize32 := p.ctxSize.isLt
    omega
  have hexec : ∀ k, execInsn undef p insn d s ⟨regs, BitVec.ofNat 32 pc, k, k, map⟩ =
      ldxStep p insn d s ⟨regs, BitVec.ofNat 32 pc, k, k, map⟩ := by
    intro k
    unfold execInsn
    rw [hcls, if_neg (by decide), if_neg (by decide), if_pos rfl]
  by_cases hfit : pkt.length < o.toNat + size.toNat
  · refine hp.stop (f := .mem) (v := 0) hins (fun k => ?_) (hout hfit)
    rw [hexec]
    unfold ldxStep
    rw [if_neg hregs]
    dsimp only
    rw [haddr, hsize', hbounds, if_pos (decide_eq_true hfit)]
    rfl
  · refine hp.turn hins (fun k => ?_) (hin (Nat.le_of_not_lt hfit))
    rw [hexec]
    unfold ldxStep
    rw [if_neg hregs]
    dsimp only
    rw [haddr, hsize', hbounds, if_neg (by simpa using hfit), BitVec.ofNat_add]
    rfl

/-- A wider value read byte by byte. -/
theorem setWidth_shiftLeft_byte {v w : Nat} (b : U8) (k : Nat) (hv : 8 + k ≤ v) (hvw : v ≤ w) :
    (b.setWidth v <<< k).setWidth w = b.setWidth w <<< k := by
  apply BitVec.eq_of_getLsbD_eq
  intro j hj
  simp only [BitVec.getLsbD_setWidth, BitVec.getLsbD_shiftLeft]
  by_cases hjv : j < v
  · grind
  · have hhigh : b.getLsbD (j - k) = false := BitVec.getLsbD_of_ge b (j - k) (by omega)
    grind

theorem setWidth_setWidth_byte {v w : Nat} (b : U8) (hv : 8 ≤ v) :
    (b.setWidth v).setWidth w = b.setWidth w := by
  apply BitVec.eq_of_getLsbD_eq
  intro j hj
  simp only [BitVec.getLsbD_setWidth]
  by_cases hjv : j < v
  · grind
  · have hhigh : b.getLsbD j = false := BitVec.getLsbD_of_ge b j (by omega)
    grind

section Loads
variable {pkt : List U8} {o : Nat}

/-- The bytes of a packet, as memory behind a pointer to it. -/
theorem EbpfProg.Presents.mem_eq (hpkt : p.Presents pkt) (k : Nat) (h : o + k < pkt.length) :
    p.mem (p.ctx + BitVec.ofNat 64 o + BitVec.ofNat 64 k) = packetBytes pkt (o + k) := by
  rw [BitVec.add_assoc, ← BitVec.ofNat_add]
  exact hpkt.bytes (o + k) h

theorem EbpfProg.Presents.loadLe_byte (hpkt : p.Presents pkt) (h : o + 1 ≤ pkt.length) :
    loadLe p.mem (p.ctx + BitVec.ofNat 64 o) 1 = (packetBytes pkt o).setWidth 64 :=
  congrArg (BitVec.setWidth 64) (hpkt.mem_eq 0 h)

theorem EbpfProg.Presents.loadLe_half (hpkt : p.Presents pkt) (h : o + 2 ≤ pkt.length) :
    loadLe p.mem (p.ctx + BitVec.ofNat 64 o) 2 = (le16 (packetBytes pkt) o).setWidth 64 := by
  have h0 := hpkt.mem_eq 0 (show o + 0 < pkt.length by omega)
  unfold le16 loadLe
  rw [if_neg (by decide), if_pos rfl, BitVec.setWidth_or,
    setWidth_shiftLeft_byte _ _ (by decide) (by decide),
    setWidth_setWidth_byte _ (by decide), ← hpkt.mem_eq 1 h]
  rw [Nat.add_zero] at h0
  rw [← h0]
  rfl

theorem EbpfProg.Presents.loadLe_word (hpkt : p.Presents pkt) (h : o + 4 ≤ pkt.length) :
    loadLe p.mem (p.ctx + BitVec.ofNat 64 o) 4 = (le32 (packetBytes pkt) o).setWidth 64 := by
  have h0 := hpkt.mem_eq 0 (show o + 0 < pkt.length by omega)
  have h1 := hpkt.mem_eq 1 (show o + 1 < pkt.length by omega)
  have h2 := hpkt.mem_eq 2 (show o + 2 < pkt.length by omega)
  unfold le32 loadLe
  rw [if_neg (by decide), if_neg (by decide), if_pos rfl, BitVec.setWidth_or, BitVec.setWidth_or,
    BitVec.setWidth_or, setWidth_shiftLeft_byte _ _ (by decide) (by decide),
    setWidth_shiftLeft_byte _ _ (by decide) (by decide),
    setWidth_shiftLeft_byte _ _ (by decide) (by decide),
    setWidth_setWidth_byte _ (by decide), ← hpkt.mem_eq 3 h, ← h2, ← h1]
  rw [Nat.add_zero] at h0
  rw [← h0]
  rfl

end Loads

theorem EbpfProg.Holds.ldxb (hp : p.Holds code) {pkt : List U8} (hpkt : p.Presents pkt)
    (d s : Fin 11) (o : U16) (hins : code[pc]? = some (LDXB (regNo d) (regNo s) o)) (hd : d ≠ 10)
    (hs : s ≠ 10) (ho : o.toNat < 2 ^ 15) (hbase : regs s = p.ctx)
    (hin : o.toNat + 1 ≤ pkt.length →
      p.Yields undef n (regs.set d ((packetBytes pkt o.toNat).setWidth 64)) (pc + 1) map Q)
    (hout : pkt.length < o.toNat + 1 → Q .mem 0 map) :
    p.Yields undef (n + 1) regs pc map Q := by
  have hsize : ∀ d s, ldxSize ⟨0x71, d, s, o, 0⟩ = 1 := by
    intro d s
    unfold ldxSize
    dsimp only
    decide
  refine hp.ldx hpkt hins hd hs ho hbase 1 (by decide) ⟨hsize _ _, by decide⟩ (fun h => ?_) hout
  rw [hpkt.loadLe_byte h]
  exact hin h

theorem EbpfProg.Holds.ldxh (hp : p.Holds code) {pkt : List U8} (hpkt : p.Presents pkt)
    (d s : Fin 11) (o : U16) (hins : code[pc]? = some (LDXH (regNo d) (regNo s) o)) (hd : d ≠ 10)
    (hs : s ≠ 10) (ho : o.toNat < 2 ^ 15) (hbase : regs s = p.ctx)
    (hin : o.toNat + 2 ≤ pkt.length →
      p.Yields undef n (regs.set d ((le16 (packetBytes pkt) o.toNat).setWidth 64)) (pc + 1) map Q)
    (hout : pkt.length < o.toNat + 2 → Q .mem 0 map) :
    p.Yields undef (n + 1) regs pc map Q := by
  have hsize : ∀ d s, ldxSize ⟨0x69, d, s, o, 0⟩ = 2 := by
    intro d s
    unfold ldxSize
    dsimp only
    decide
  refine hp.ldx hpkt hins hd hs ho hbase 2 (by decide) ⟨hsize _ _, by decide⟩ (fun h => ?_) hout
  rw [hpkt.loadLe_half h]
  exact hin h

theorem EbpfProg.Holds.ldxw (hp : p.Holds code) {pkt : List U8} (hpkt : p.Presents pkt)
    (d s : Fin 11) (o : U16) (hins : code[pc]? = some (LDXW (regNo d) (regNo s) o)) (hd : d ≠ 10)
    (hs : s ≠ 10) (ho : o.toNat < 2 ^ 15) (hbase : regs s = p.ctx)
    (hin : o.toNat + 4 ≤ pkt.length →
      p.Yields undef n (regs.set d ((le32 (packetBytes pkt) o.toNat).setWidth 64)) (pc + 1) map Q)
    (hout : pkt.length < o.toNat + 4 → Q .mem 0 map) :
    p.Yields undef (n + 1) regs pc map Q := by
  have hsize : ∀ d s, ldxSize ⟨0x61, d, s, o, 0⟩ = 4 := by
    intro d s
    unfold ldxSize
    dsimp only
    decide
  refine hp.ldx hpkt hins hd hs ho hbase 4 (by decide) ⟨hsize _ _, by decide⟩ (fun h => ?_) hout
  rw [hpkt.loadLe_word h]
  exact hin h

/-! ## Map helpers -/

/-- Rule for a helper call that continues. -/
theorem EbpfProg.Holds.call (hp : p.Holds code) (i : U32)
    (hins : code[pc]? = some (CALL i)) {f : U32 → U32} {regs' : RegFile}
    {map' : Option (U32 → U32)}
    (hexec : ∀ k, callStep p ⟨0x85, regNo 0, regNo 0, 0, i⟩
      ⟨regs, BitVec.ofNat 32 pc, k, k, some f⟩ =
        .inl ⟨regs', BitVec.ofNat 32 (pc + 1), k, k, map'⟩)
    (h : p.Yields undef n regs' (pc + 1) map' Q) : p.Yields undef (n + 1) regs pc (some f) Q := by
  refine hp.turn (d := 0) (s := 0) (o := 0) (i := i)
    (show code[pc]? = some (ebpfEnc 0x85 (regNo 0) (regNo 0) 0 i) from hins) (fun k => ?_) h
  have hcls : (⟨0x85, regNo 0, regNo 0, 0, i⟩ : EbpfInsn).cls = CLS_JMP := by
    unfold EbpfInsn.cls
    dsimp only
    decide
  have hop : (⟨0x85, regNo 0, regNo 0, 0, i⟩ : EbpfInsn).op = JmpOp.call.code := by
    unfold EbpfInsn.op
    dsimp only
    decide
  unfold execInsn
  rw [hcls, if_neg (by decide), if_pos (.inl rfl)]
  unfold jmpStep
  rw [if_pos ⟨hcls, hop⟩]
  exact hexec k

theorem EbpfProg.Holds.call1 (hp : p.Holds code) (hcells : mapUsable p.mapCells)
    (hins : code[pc]? = some (CALL 1)) {f : U32 → U32} {i : U32}
    (hidx : mapIndex p.mapCells (regs 1) = i)
    (h : p.Yields undef n (regs.set 0 ((f i).setWidth 64)) (pc + 1) (some f) Q) :
    p.Yields undef (n + 1) regs pc (some f) Q := by
  refine hp.call 1 hins (fun k => ?_) h
  unfold callStep
  dsimp only
  rw [if_pos hcells, if_pos rfl, hidx, BitVec.ofNat_add]
  rfl

theorem EbpfProg.Holds.call2 (hp : p.Holds code) (hcells : mapUsable p.mapCells)
    (hins : code[pc]? = some (CALL 2)) {f : U32 → U32} {i v : U32}
    (hidx : mapIndex p.mapCells (regs 1) = i) (hv : (regs 2).setWidth 32 = v)
    (h : p.Yields undef n (regs.set 0 0) (pc + 1) (some fun c => if c = i then v else f c) Q) :
    p.Yields undef (n + 1) regs pc (some f) Q := by
  refine hp.call 2 hins (fun k => ?_) h
  unfold callStep
  dsimp only
  rw [if_pos hcells, if_neg (by decide), if_pos rfl, hidx, hv, BitVec.ofNat_add]
  rfl

/-! ## Runs -/

/-- A whole run. -/
theorem EbpfProg.Holds.run (hp : p.Holds code) (hpos : 0 < code.length)
    (hsteps : n ≤ p.maxSteps.toNat) (h : p.Yields undef n (entryRegs p) 0 p.map Q) :
    ∃ r, (∀ fuel, n ≤ fuel → ebpfRun undef p fuel = some r) ∧ Q r.fault r.retval r.map := by
  have hcnt : ¬ (p.insnCnt = 0 ∨ EBPF_MAX_INSNS < p.insnCnt) := by
    have hlen := hp.short
    have heq := hp.cnt
    unfold EBPF_MAX_INSNS
    bv_omega
  obtain ⟨r, hr, hQ⟩ := (h 0 (by simpa using hsteps)).result
  refine ⟨r, fun fuel hfuel => ?_, hQ⟩
  unfold ebpfRun ebpfRunFrom
  rw [if_neg hcnt]
  exact hr fuel hfuel

end Rules

end Interclus

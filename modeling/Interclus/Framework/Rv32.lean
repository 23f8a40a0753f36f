import Interclus.Framework.Words

/-! # RV32 Machine Code

    Straight-line RV32 assembly with symbols, and its symbolic execution.

    * `Hart`, `Instr` and `run`: registers, CSRs and byte memory, and the
      instructions a trap handler is made of.
    * `SymState.step`: the same instructions over symbolic values and the
      words of named regions.  It refuses an access it cannot place inside
      a region.
    * `run_represents`: what the symbolic execution accepts, every hart
      does, wherever the regions were placed.

    Which symbols there are is up to the program. -/

universe u

namespace Rv32

open Words

/-! ## Harts -/

abbrev Reg : Type := Fin 32

scoped instance regsNeZero : NeZero 32 := ⟨by decide⟩

/-- The ABI names of the registers. -/
abbrev sp : Reg := 2
abbrev t0 : Reg := 5
abbrev t1 : Reg := 6
abbrev t2 : Reg := 7
abbrev a0 : Reg := 10
abbrev a1 : Reg := 11
abbrev t3 : Reg := 28
abbrev t4 : Reg := 29
abbrev t5 : Reg := 30
abbrev t6 : Reg := 31

inductive Csr where
  | mstatus
  | mscratch
  | mepc
  | mcause
  | mtval
  deriving DecidableEq

structure Hart where
  x : Reg → U32
  csr : Csr → U32
  mem : Mem

/-- A register as an operand; `x0` is hardwired. -/
def Hart.get (h : Hart) (r : Reg) : U32 := if r = 0 then 0 else h.x r

def Hart.set (h : Hart) (r : Reg) (v : U32) : Hart :=
  { h with x := fun q => if q = r then v else h.x q }

def Hart.setCsr (h : Hart) (c : Csr) (v : U32) : Hart :=
  { h with csr := fun d => if d = c then v else h.csr d }

def Hart.store (h : Hart) (a v : U32) : Hart := { h with mem := putLe32 h.mem a.toNat v }

/-! ## Instructions -/

/-- The operations of register and immediate instructions. -/
inductive Op where
  | add
  | and
  | or
  | xor
  | sll
  | srl
  deriving DecidableEq

def Op.eval : Op → U32 → U32 → U32
  | .add, a, b => a + b
  | .and, a, b => a &&& b
  | .or, a, b => a ||| b
  | .xor, a, b => a ^^^ b
  | .sll, a, b => a <<< (b &&& 31).toNat
  | .srl, a, b => a >>> (b &&& 31).toNat

/-- `%hi` of an address, shifted as `lui` does. -/
def hi20 (a : U32) : U32 := ((a + 0x800) >>> 12) <<< 12

/-- `%lo` of an address, sign-extended. -/
def lo12 (a : U32) : U32 := (a.setWidth 12).signExtend 32

/-- The upper part makes up for the sign of the lower. -/
theorem hi20_add_lo12 (a : U32) : hi20 a + lo12 a = a := by
  have hsign : (a.setWidth 12).msb = decide (2048 ≤ a.toNat % 4096) := by
    rw [BitVec.msb_eq_decide, BitVec.toNat_setWidth]
  have hhi : (hi20 a).toNat = (a.toNat + 2048) % 2 ^ 32 / 4096 * 4096 := by
    have hsum : (a + 0x800).toNat = (a.toNat + 2048) % 2 ^ 32 := BitVec.toNat_add _ _
    unfold hi20
    rw [BitVec.toNat_shiftLeft, BitVec.toNat_ushiftRight, hsum, Nat.shiftRight_eq_div_pow,
      Nat.shiftLeft_eq]
    omega
  have ha := a.isLt
  apply BitVec.eq_of_toNat_eq
  rw [BitVec.toNat_add, hhi]
  unfold lo12
  by_cases hneg : 2048 ≤ a.toNat % 4096
  · have hlo : ((a.setWidth 12).signExtend 32).toNat = a.toNat % 4096 + (2 ^ 32 - 4096) := by
      rw [BitVec.toNat_signExtend, hsign, decide_eq_true hneg]
      simp
      omega
    rw [hlo]
    omega
  · have hlo : ((a.setWidth 12).signExtend 32).toNat = a.toNat % 4096 := by
      rw [BitVec.toNat_signExtend, hsign, decide_eq_false hneg]
      simp
      omega
    rw [hlo]
    omega

/-- Instructions over the symbols `σ`; `s + k` is a symbol and an addend. -/
inductive Instr (σ : Type u) where
  /-- `lui rd, %hi(s + k)` -/
  | luiHi (rd : Reg) (s : σ) (k : U32)
  /-- `addi rd, rs, %lo(s + k)` -/
  | addiLo (rd rs : Reg) (s : σ) (k : U32)
  /-- `lw rd, %lo(s + k)(rs)` -/
  | lwLo (rd : Reg) (s : σ) (k : U32) (rs : Reg)
  | li (rd : Reg) (v : U32)
  | alui (op : Op) (rd rs : Reg) (v : U32)
  | alu (op : Op) (rd rs rt : Reg)
  | lw (rd : Reg) (off : U32) (rs : Reg)
  | lhu (rd : Reg) (off : U32) (rs : Reg)
  | sw (rt : Reg) (off : U32) (rs : Reg)
  | csrr (rd : Reg) (c : Csr)
  | csrw (c : Csr) (rs : Reg)
  | csrrw (rd : Reg) (c : Csr) (rs : Reg)

section Mnemonics
variable {σ : Type u}

def mv (rd rs : Reg) : Instr σ := .alui .add rd rs 0
def addi (rd rs : Reg) (v : U32) : Instr σ := .alui .add rd rs v
def andi (rd rs : Reg) (v : U32) : Instr σ := .alui .and rd rs v
def ori (rd rs : Reg) (v : U32) : Instr σ := .alui .or rd rs v
def not (rd rs : Reg) : Instr σ := .alui .xor rd rs 0xFFFFFFFF
def slli (rd rs : Reg) (v : U32) : Instr σ := .alui .sll rd rs v
def srli (rd rs : Reg) (v : U32) : Instr σ := .alui .srl rd rs v

end Mnemonics

/-- One instruction, with the symbols at `addr`. -/
def Instr.exec {σ : Type u} (addr : σ → U32) (h : Hart) : Instr σ → Hart
  | .luiHi rd s k => h.set rd (hi20 (addr s + k))
  | .addiLo rd rs s k => h.set rd (h.get rs + lo12 (addr s + k))
  | .lwLo rd s k rs => h.set rd (le32 h.mem (h.get rs + lo12 (addr s + k)).toNat)
  | .li rd v => h.set rd v
  | .alui op rd rs v => h.set rd (op.eval (h.get rs) v)
  | .alu op rd rs rt => h.set rd (op.eval (h.get rs) (h.get rt))
  | .lw rd off rs => h.set rd (le32 h.mem (h.get rs + off).toNat)
  | .lhu rd off rs => h.set rd ((le16 h.mem (h.get rs + off).toNat).setWidth 32)
  | .sw rt off rs => h.store (h.get rs + off) (h.get rt)
  | .csrr rd c => h.set rd (h.csr c)
  | .csrw c rs => h.setCsr c (h.get rs)
  | .csrrw rd c rs => (h.setCsr c (h.get rs)).set rd (h.csr c)

def run {σ : Type u} (addr : σ → U32) (is : List (Instr σ)) (h : Hart) : Hart :=
  is.foldl (Instr.exec addr) h

@[simp] theorem run_nil {σ : Type u} (addr : σ → U32) (h : Hart) : run addr [] h = h := rfl

theorem run_append {σ : Type u} (addr : σ → U32) (is js : List (Instr σ)) (h : Hart) :
    run addr (is ++ js) h = run addr js (run addr is h) := List.foldl_append

/-- Where `mret` leaves the handler: the target, the mode it returns to,
    and the hart. -/
structure Returned where
  pc : U32
  mode : U32
  hart : Hart

/-- `mret`; the mode is `MPP`. -/
def mret (h : Hart) : Returned := ⟨h.csr .mepc, (h.csr .mstatus >>> 11) &&& 3, h⟩

/-! ## Symbolic values -/

/-- A value over a hart `h₀` and the addresses of the symbols. -/
inductive Sym (σ : Type u) where
  | lit (v : U32)
  | ptr (s : σ) (k : U32)
  | hi (s : σ) (k : U32)
  | reg (r : Reg)
  | csr (c : Csr)
  | word (s : σ) (k : U32)
  | half (s : σ) (k : U32)
  | bin (op : Op) (a b : Sym σ)
  deriving DecidableEq

section Symbolic
variable {σ : Type u}

def Sym.eval (addr : σ → U32) (h₀ : Hart) : Sym σ → U32
  | .lit v => v
  | .ptr s k => addr s + k
  | .hi s k => hi20 (addr s + k)
  | .reg r => h₀.get r
  | .csr c => h₀.csr c
  | .word s k => le32 h₀.mem (addr s + k).toNat
  | .half s k => (le16 h₀.mem (addr s + k).toNat).setWidth 32
  | .bin op a b => op.eval (a.eval addr h₀) (b.eval addr h₀)

/-- An operation, with literals folded and pointers moved. -/
def Sym.alu (op : Op) (a b : Sym σ) : Sym σ :=
  match op, a, b with
  | op, .lit v, .lit w => .lit (op.eval v w)
  | .add, .ptr s k, .lit v => .ptr s (k + v)
  | .add, a, .lit 0 => a
  | op, a, b => .bin op a b

theorem Sym.eval_alu (addr : σ → U32) (h₀ : Hart) (op : Op) (a b : Sym σ) :
    (Sym.alu op a b).eval addr h₀ = op.eval (a.eval addr h₀) (b.eval addr h₀) := by
  unfold Sym.alu
  split
  · rfl
  · exact (BitVec.add_assoc _ _ _).symm
  · exact (BitVec.add_zero _).symm
  · rfl

/-! ## Symbolic states -/

/-- The regions behind the symbols: how long, and whether they are read and
    written by words or only read. -/
structure Shape (σ : Type u) where
  size : σ → Nat
  words : σ → Bool

/-- A word of a region. -/
def Shape.Word (shape : Shape σ) (s : σ) (k : U32) : Prop :=
  shape.words s = true ∧ k.toNat % 4 = 0 ∧ k.toNat + 4 ≤ shape.size s

instance (shape : Shape σ) (s : σ) (k : U32) : Decidable (shape.Word s k) :=
  inferInstanceAs (Decidable (_ ∧ _ ∧ _))

/-- A halfword of a region that is only read. -/
def Shape.Half (shape : Shape σ) (s : σ) (k : U32) : Prop :=
  shape.words s = false ∧ k.toNat + 2 ≤ shape.size s

instance (shape : Shape σ) (s : σ) (k : U32) : Decidable (shape.Half s k) :=
  inferInstanceAs (Decidable (_ ∧ _))

structure SymState (σ : Type u) where
  regs : Reg → Sym σ
  csrs : Csr → Sym σ
  mem : σ → U32 → Sym σ

def SymState.get (ss : SymState σ) (r : Reg) : Sym σ := if r = 0 then .lit 0 else ss.regs r

def SymState.set (ss : SymState σ) (r : Reg) (v : Sym σ) : SymState σ :=
  { ss with regs := fun q => if q = r then v else ss.regs q }

def SymState.setCsr (ss : SymState σ) (c : Csr) (v : Sym σ) : SymState σ :=
  { ss with csrs := fun d => if d = c then v else ss.csrs d }

def SymState.store [DecidableEq σ] (ss : SymState σ) (s : σ) (k : U32) (v : Sym σ) : SymState σ :=
  { ss with mem := fun r j => if r = s ∧ j = k then v else ss.mem r j }

/-- One instruction, where the access it makes is inside a region. -/
def SymState.step [DecidableEq σ] (shape : Shape σ) (ss : SymState σ) :
    Instr σ → Option (SymState σ)
  | .luiHi rd s k => some (ss.set rd (.hi s k))
  | .addiLo rd rs s k => if ss.get rs = .hi s k then some (ss.set rd (.ptr s k)) else none
  | .lwLo rd s k rs =>
    if ss.get rs = .hi s k ∧ shape.Word s k then some (ss.set rd (ss.mem s k)) else none
  | .li rd v => some (ss.set rd (.lit v))
  | .alui op rd rs v => some (ss.set rd (.alu op (ss.get rs) (.lit v)))
  | .alu op rd rs rt => some (ss.set rd (.alu op (ss.get rs) (ss.get rt)))
  | .lw rd off rs =>
    match ss.get rs with
    | .ptr s k => if shape.Word s (k + off) then some (ss.set rd (ss.mem s (k + off))) else none
    | _ => none
  | .lhu rd off rs =>
    match ss.get rs with
    | .ptr s k => if shape.Half s (k + off) then some (ss.set rd (.half s (k + off))) else none
    | _ => none
  | .sw rt off rs =>
    match ss.get rs with
    | .ptr s k => if shape.Word s (k + off) then some (ss.store s (k + off) (ss.get rt)) else none
    | _ => none
  | .csrr rd c => some (ss.set rd (ss.csrs c))
  | .csrw c rs => some (ss.setCsr c (ss.get rs))
  | .csrrw rd c rs => some ((ss.setCsr c (ss.get rs)).set rd (ss.csrs c))

def SymState.run [DecidableEq σ] (shape : Shape σ) (ss : SymState σ) (is : List (Instr σ)) :
    Option (SymState σ) := is.foldlM (SymState.step shape) ss

/-! ## What a symbolic state stands for -/

/-- The regions fit into memory and do not overlap. -/
structure Placed (shape : Shape σ) (addr : σ → U32) : Prop where
  fits : ∀ s, (addr s).toNat + shape.size s ≤ 2 ^ 32
  apart : ∀ s s', s ≠ s' →
    (addr s).toNat + shape.size s ≤ (addr s').toNat ∨
      (addr s').toNat + shape.size s' ≤ (addr s).toNat

/-- Byte `j` lies in the region of `s`. -/
def InRegion (shape : Shape σ) (addr : σ → U32) (s : σ) (j : Nat) : Prop :=
  (addr s).toNat ≤ j ∧ j < (addr s).toNat + shape.size s

/-- `h` holds what `ss` says over `h₀`; outside the word regions the memory
    is that of `h₀`. -/
structure Represents (shape : Shape σ) (addr : σ → U32) (h₀ : Hart) (ss : SymState σ) (h : Hart) :
    Prop where
  regs : ∀ r, h.get r = (ss.get r).eval addr h₀
  csrs : ∀ c, h.csr c = (ss.csrs c).eval addr h₀
  mem : ∀ s k, shape.Word s k → le32 h.mem (addr s + k).toNat = (ss.mem s k).eval addr h₀
  frame : ∀ j, (∀ s, shape.words s = true → ¬ InRegion shape addr s j) → h.mem j = h₀.mem j

section Sound
variable {shape : Shape σ} {addr : σ → U32} {h₀ h : Hart} {ss ss' : SymState σ}

/-- A register, a CSR and a word, read off. -/
theorem Represents.get_eq (hrep : Represents shape addr h₀ ss h) {r : Reg} {e : Sym σ}
    (he : ss.get r = e) : h.get r = e.eval addr h₀ := by
  rw [hrep.regs, he]

theorem Represents.csr_eq (hrep : Represents shape addr h₀ ss h) {c : Csr} {e : Sym σ}
    (he : ss.csrs c = e) : h.csr c = e.eval addr h₀ := by
  rw [hrep.csrs, he]

theorem Represents.word_eq (hrep : Represents shape addr h₀ ss h) {s : σ} {k : U32}
    (hk : shape.Word s k) {e : Sym σ} (he : ss.mem s k = e) :
    le32 h.mem (addr s + k).toNat = e.eval addr h₀ := by
  rw [hrep.mem s k hk, he]

theorem Sym.eval_ptr_zero (s : σ) : (Sym.ptr s 0).eval addr h = addr s := BitVec.add_zero _

theorem Placed.toNat_word (hp : Placed shape addr) {s : σ} {k : U32} (hk : shape.Word s k) :
    (addr s + k).toNat = (addr s).toNat + k.toNat := by
  have hfits := hp.fits s
  obtain ⟨-, -, hend⟩ := hk
  rw [BitVec.toNat_add]
  exact Nat.mod_eq_of_lt (by omega)

/-- Two words of the regions are the same or apart. -/
theorem Placed.words_apart (hp : Placed shape addr) {s s' : σ} {k k' : U32}
    (hk : shape.Word s k) (hk' : shape.Word s' k') (hne : ¬ (s = s' ∧ k = k')) :
    (addr s + k).toNat + 4 ≤ (addr s' + k').toNat ∨
      (addr s' + k').toNat + 4 ≤ (addr s + k).toNat := by
  rw [hp.toNat_word hk, hp.toNat_word hk']
  obtain ⟨-, halign, hend⟩ := hk
  obtain ⟨-, halign', hend'⟩ := hk'
  by_cases hs : s = s'
  · subst hs
    -- aligned offsets of one region
    have hoff : k.toNat ≠ k'.toNat := fun h => hne ⟨rfl, BitVec.eq_of_toNat_eq h⟩
    omega
  · have := hp.apart s s' hs
    omega

/-- A region that is only read keeps its bytes. -/
theorem Represents.half (hrep : Represents shape addr h₀ ss h) (hp : Placed shape addr) {s : σ}
    {k : U32} (hk : shape.Half s k) :
    le16 h.mem (addr s + k).toNat = le16 h₀.mem (addr s + k).toNat := by
  obtain ⟨hread, hend⟩ := hk
  have hfits := hp.fits s
  have haddr : (addr s + k).toNat = (addr s).toNat + k.toNat := by
    rw [BitVec.toNat_add]
    exact Nat.mod_eq_of_lt (by omega)
  have hbyte : ∀ i < 2, h.mem ((addr s + k).toNat + i) = h₀.mem ((addr s + k).toNat + i) := by
    intro i hi
    refine hrep.frame _ fun s' hwords hin => ?_
    unfold InRegion at hin
    by_cases hs : s = s'
    · subst hs
      exact absurd (hread.symm.trans hwords) Bool.false_ne_true
    · have := hp.apart s s' hs
      omega
  exact le16_congr hbyte

theorem Represents.set (hrep : Represents shape addr h₀ ss h) (rd : Reg) {v : U32} {w : Sym σ}
    (hv : v = w.eval addr h₀) : Represents shape addr h₀ (ss.set rd w) (h.set rd v) where
  regs := by
    intro r
    have hr := hrep.regs r
    unfold Hart.get SymState.get Hart.set SymState.set at *
    by_cases hzero : r = 0
    · rw [if_pos hzero, if_pos hzero]
      rfl
    · rw [if_neg hzero, if_neg hzero] at *
      dsimp only
      by_cases hrd : r = rd
      · rw [if_pos hrd, if_pos hrd, hv]
      · rw [if_neg hrd, if_neg hrd, hr]
  csrs := hrep.csrs
  mem := hrep.mem
  frame := hrep.frame

theorem Represents.setCsr (hrep : Represents shape addr h₀ ss h) (c : Csr) {v : U32} {w : Sym σ}
    (hv : v = w.eval addr h₀) : Represents shape addr h₀ (ss.setCsr c w) (h.setCsr c v) where
  regs := hrep.regs
  csrs := by
    intro d
    have hd := hrep.csrs d
    unfold Hart.setCsr SymState.setCsr
    dsimp only
    by_cases hc : d = c
    · rw [if_pos hc, if_pos hc, hv]
    · rw [if_neg hc, if_neg hc, hd]
  mem := hrep.mem
  frame := hrep.frame

/-- A store into a word of a region. -/
theorem Represents.store [DecidableEq σ] (hrep : Represents shape addr h₀ ss h)
    (hp : Placed shape addr) {s : σ} {k : U32} (hk : shape.Word s k) {v : U32} {w : Sym σ}
    (hv : v = w.eval addr h₀) :
    Represents shape addr h₀ (ss.store s k w) (h.store (addr s + k) v) where
  regs := hrep.regs
  csrs := hrep.csrs
  mem := by
    intro r j hj
    unfold Hart.store SymState.store
    dsimp only
    by_cases hsame : r = s ∧ j = k
    · rw [if_pos hsame, hsame.1, hsame.2, le32_putLe32, hv]
    · rw [if_neg hsame, le32_putLe32_of_apart v (hp.words_apart hk hj fun h =>
        hsame ⟨h.1.symm, h.2.symm⟩)]
      exact hrep.mem r j hj
  frame := by
    intro j hj
    rw [← hrep.frame j hj]
    refine putLe32_of_not_mem v fun hin => hj s hk.1 ?_
    rw [hp.toNat_word hk] at hin
    have hend := hk.2.2
    exact ⟨by omega, by omega⟩

/-- What a register that holds a pointer points to. -/
theorem Represents.ptr (hrep : Represents shape addr h₀ ss h) {r : Reg} {s : σ} {k : U32}
    (hr : ss.get r = .ptr s k) (off : U32) : h.get r + off = addr s + (k + off) := by
  rw [hrep.regs, hr]
  exact BitVec.add_assoc _ _ _

theorem Represents.hi (hrep : Represents shape addr h₀ ss h) {r : Reg} {s : σ} {k : U32}
    (hr : ss.get r = .hi s k) : h.get r + lo12 (addr s + k) = addr s + k := by
  rw [hrep.regs, hr]
  exact hi20_add_lo12 _

/-- A symbolic step goes on representing the hart, whichever the
    instruction. -/
theorem step_represents [DecidableEq σ] (hp : Placed shape addr)
    (hrep : Represents shape addr h₀ ss h) {i : Instr σ} (hstep : ss.step shape i = some ss') :
    Represents shape addr h₀ ss' (i.exec addr h) := by
  cases i with
  | luiHi rd s k =>
    obtain rfl := Option.some.inj hstep
    exact hrep.set rd rfl
  | addiLo rd rs s k =>
    simp only [SymState.step] at hstep
    split at hstep
    · next hrs =>
      obtain rfl := Option.some.inj hstep
      exact hrep.set rd (hrep.hi hrs)
    · cases hstep
  | lwLo rd s k rs =>
    simp only [SymState.step] at hstep
    split at hstep
    · next hrs =>
      obtain rfl := Option.some.inj hstep
      refine hrep.set rd ?_
      rw [hrep.hi hrs.1]
      exact hrep.mem s k hrs.2
    · cases hstep
  | li rd v =>
    obtain rfl := Option.some.inj hstep
    exact hrep.set rd rfl
  | alui op rd rs v =>
    obtain rfl := Option.some.inj hstep
    refine hrep.set rd ?_
    rw [Sym.eval_alu, hrep.regs]
    rfl
  | alu op rd rs rt =>
    obtain rfl := Option.some.inj hstep
    refine hrep.set rd ?_
    rw [Sym.eval_alu, hrep.regs, hrep.regs]
  | lw rd off rs =>
    simp only [SymState.step] at hstep
    split at hstep
    · next s k hrs =>
      split at hstep
      · next hword =>
        obtain rfl := Option.some.inj hstep
        refine hrep.set rd ?_
        rw [hrep.ptr hrs]
        exact hrep.mem s _ hword
      · cases hstep
    · cases hstep
  | lhu rd off rs =>
    simp only [SymState.step] at hstep
    split at hstep
    · next s k hrs =>
      split at hstep
      · next hhalf =>
        obtain rfl := Option.some.inj hstep
        refine hrep.set rd ?_
        rw [hrep.ptr hrs, hrep.half hp hhalf]
        rfl
      · cases hstep
    · cases hstep
  | sw rt off rs =>
    simp only [SymState.step] at hstep
    split at hstep
    · next s k hrs =>
      split at hstep
      · next hword =>
        obtain rfl := Option.some.inj hstep
        have hstored := hrep.store hp hword (hrep.regs rt)
        rw [← hrep.ptr hrs] at hstored
        exact hstored
      · cases hstep
    · cases hstep
  | csrr rd c =>
    obtain rfl := Option.some.inj hstep
    exact hrep.set rd (hrep.csrs c)
  | csrw c rs =>
    obtain rfl := Option.some.inj hstep
    exact hrep.setCsr c (hrep.regs rs)
  | csrrw rd c rs =>
    obtain rfl := Option.some.inj hstep
    exact (hrep.setCsr c (hrep.regs rs)).set rd (hrep.csrs c)

/-- Run lemma: what the symbolic execution of a program accepts, the hart
    does. -/
theorem run_represents [DecidableEq σ] (hp : Placed shape addr) {is : List (Instr σ)}
    (hrep : Represents shape addr h₀ ss h) (hrun : ss.run shape is = some ss') :
    Represents shape addr h₀ ss' (run addr is h) := by
  induction is generalizing ss h with
  | nil =>
    obtain rfl := Option.some.inj hrun
    exact hrep
  | cons i is ih =>
    unfold SymState.run at hrun
    rw [List.foldlM_cons] at hrun
    obtain ⟨ss₁, hstep, hrest⟩ := Option.bind_eq_some_iff.mp hrun
    exact ih (step_represents hp hrep hstep) hrest

/-- A check of the symbolic result is a fact about the hart. -/
theorem run_check [DecidableEq σ] (hp : Placed shape addr) {is : List (Instr σ)}
    (hrep : Represents shape addr h₀ ss h) {P : SymState σ → Prop} [DecidablePred P]
    (hcheck : (ss.run shape is).any (fun out => decide (P out)) = true) :
    ∃ out, P out ∧ Represents shape addr h₀ out (run addr is h) := by
  obtain ⟨out, hrun, hP⟩ := (Option.any_eq_true _ _).mp hcheck
  exact ⟨out, of_decide_eq_true hP, run_represents hp hrep hrun⟩

end Sound

end Symbolic

end Rv32

import Interclus.Verifier.ContextLoads

/-! # The Footprint of a Run

    What one turn of `ebpf_run` reads and writes in memory, for any bytecode:
    the instruction it fetches, the context bytes a load reads, the map cell
    a helper reads or writes.  A turn depends on memory through these
    accesses only and changes memory through them only; all of them lie in
    the image, the context or the map. -/

namespace Interclus

open Words

/-! ## The accesses of a turn -/

inductive EbpfAccess where
  /-- `dec[pc]`. -/
  | fetch (pc : U32)
  /-- The bytes of `load_le`. -/
  | load (addr : U64) (size : U8)
  /-- `p->map[idx]`, read by helper 1. -/
  | mapLoad (idx : U32)
  /-- `p->map[idx] = v`, by helper 2. -/
  | mapStore (idx v : U32)
  deriving DecidableEq, Repr

section Accesses
variable (p : EbpfProg)

def callAccesses (i : EbpfInsn) (m : EbpfState) : List EbpfAccess :=
  if m.map.isNone ∨ ¬ mapUsable p.mapCells then []
  else if i.imm = 1 then [.mapLoad (mapIndex p.mapCells (m.regs 1))]
  else if i.imm = 2 then [.mapStore (mapIndex p.mapCells (m.regs 1)) ((m.regs 2).setWidth 32)]
  else []

def ldxAccesses (i : EbpfInsn) (dst src : Fin 11) (m : EbpfState) : List EbpfAccess :=
  if i.opcode &&& 0xe0 ≠ MODE_MEM ∨ src = 10 ∨ dst = 10 then []
  else if ldxOutOfBounds p.ctx p.ctxSize (ldxAddr i src m.regs) (ldxSize i) then []
  else [.load (ldxAddr i src m.regs) (ldxSize i)]

def insnAccesses (i : EbpfInsn) (dst src : Fin 11) (m : EbpfState) : List EbpfAccess :=
  if i.cls = CLS_JMP ∧ i.op = JmpOp.call.code then callAccesses p i m
  else if i.cls = CLS_LDX then ldxAccesses p i dst src m
  else []

/-- None when the register fields are out of range. -/
def fieldAccesses (i : EbpfInsn) (m : EbpfState) : List EbpfAccess :=
  if h : i.dst.toNat < 11 ∧ i.src.toNat < 11 then
    insnAccesses p i ⟨i.dst.toNat, h.1⟩ ⟨i.src.toNat, h.2⟩ m
  else []

/-- The accesses of one turn of `for (;;)`, in the order it makes them. -/
def turnAccesses (m : EbpfState) : List EbpfAccess :=
  if p.insnCnt ≤ m.pc then []
  else if p.maxSteps < m.steps + 1 then []
  else .fetch m.pc :: fieldAccesses p (p.insnAt m.pc) m

end Accesses

/-! ## Reads and writes -/

/-- The map after the stores among some accesses. -/
def storeMap (accs : List EbpfAccess) (map : Option (U32 → U32)) : Option (U32 → U32) :=
  accs.foldl (fun map acc =>
    match acc with
    | .mapStore idx v => map.map fun f c => if c = idx then v else f c
    | _ => map) map

/-- Two machines hold the same in what an access reads. -/
def EbpfAccess.Agrees (p q : EbpfProg) (map map' : Option (U32 → U32)) : EbpfAccess → Prop
  | .fetch pc => q.ins pc.toNat = p.ins pc.toNat
  | .load addr size => ∀ k < size.toNat,
      q.mem (addr + BitVec.ofNat 64 k) = p.mem (addr + BitVec.ofNat 64 k)
  | .mapLoad idx => map'.map (· idx) = map.map (· idx)
  | .mapStore _ _ => True

/-- The same bounds: of the image, the context, the map and the steps. -/
structure EbpfProg.SameBounds (p q : EbpfProg) : Prop where
  insnCnt : q.insnCnt = p.insnCnt
  ctx : q.ctx = p.ctx
  ctxSize : q.ctxSize = p.ctxSize
  maxSteps : q.maxSteps = p.maxSteps
  mapCells : q.mapCells = p.mapCells

/-- A turn's outcome, with another map in it. -/
def withMap (map : Option (U32 → U32)) : EbpfState ⊕ EbpfResult → EbpfState ⊕ EbpfResult
  | .inl m => .inl { m with map := map }
  | .inr r => .inr { r with map := map }

/-- An access stays inside what the caller handed over. -/
def EbpfAccess.InBounds (p : EbpfProg) : EbpfAccess → Prop
  | .fetch pc => pc < p.insnCnt
  | .load addr size => ∀ k < size.toNat,
      p.ctx.toNat ≤ (addr + BitVec.ofNat 64 k).toNat ∧
        (addr + BitVec.ofNat 64 k).toNat < p.ctx.toNat + p.ctxSize.toNat
  | .mapLoad idx => idx < p.mapCells
  | .mapStore idx _ => idx < p.mapCells

/-- Byte `x` of memory is stored to, with the map at `mapAddr`. -/
def EbpfAccess.Stores (mapAddr : Nat) (x : Nat) : EbpfAccess → Prop
  | .mapStore idx _ => mapAddr + 4 * idx.toNat ≤ x ∧ x < mapAddr + 4 * idx.toNat + 4
  | _ => False

section Footprint
variable {undef : CExpr → U64} {p q : EbpfProg} {map' : Option (U32 → U32)}

/-- `load_le` reads its bytes and nothing else. -/
theorem loadLe_congr {mem₁ mem₂ : U64 → U8} {addr : U64} {size : U8}
    (hsize : size = 1 ∨ size = 2 ∨ size = 4 ∨ size = 8)
    (h : ∀ k < size.toNat, mem₁ (addr + BitVec.ofNat 64 k) = mem₂ (addr + BitVec.ofNat 64 k)) :
    loadLe mem₁ addr size = loadLe mem₂ addr size := by
  rw [loadLe_eq _ _ hsize, loadLe_eq _ _ hsize]
  have hbytes : bytesFrom mem₁ addr size.toNat = bytesFrom mem₂ addr size.toNat :=
    List.map_congr_left fun k hk => h k (List.mem_range.mp hk)
  rw [hbytes]

theorem callStep_footprint (hq : p.SameBounds q) {i : EbpfInsn} {m : EbpfState}
    (hnone : map'.isNone = m.map.isNone)
    (h : ∀ acc ∈ callAccesses p i m, acc.Agrees p q m.map map') :
    callStep q i { m with map := map' } =
      withMap (storeMap (callAccesses p i m) map') (callStep p i m) := by
  unfold callAccesses at h ⊢
  unfold callStep
  rw [hq.mapCells]
  cases hm : m.map with
  | none =>
    rw [hm] at hnone
    obtain rfl : map' = none := Option.isNone_iff_eq_none.mp hnone
    rfl
  | some f =>
    rw [hm] at h hnone
    obtain ⟨g, rfl⟩ : ∃ g, map' = some g := by
      cases map' with
      | none => cases hnone
      | some g => exact ⟨g, rfl⟩
    by_cases husable : mapUsable p.mapCells
    · have hnot : ¬ ((some f).isNone ∨ ¬ mapUsable p.mapCells) := fun hor =>
        hor.elim nofun fun hn => hn husable
      rw [if_neg hnot] at h ⊢
      dsimp only
      rw [if_pos husable, if_pos husable]
      by_cases h1 : i.imm = 1
      · rw [if_pos h1] at h ⊢
        have hidx : (some g).map (· (mapIndex p.mapCells (m.regs 1))) =
            (some f).map (· (mapIndex p.mapCells (m.regs 1))) := h _ List.mem_cons_self
        have hcell : g (mapIndex p.mapCells (m.regs 1)) = f (mapIndex p.mapCells (m.regs 1)) :=
          Option.some.inj hidx
        rw [if_pos h1, if_pos h1, hcell]
        rfl
      · rw [if_neg h1] at h ⊢
        rw [if_neg h1, if_neg h1]
        by_cases h2 : i.imm = 2
        · rw [if_pos h2, if_pos h2, if_pos h2]
          rfl
        · rw [if_neg h2, if_neg h2, if_neg h2]
          rfl
    · rw [if_pos (.inr husable)]
      dsimp only
      rw [if_neg husable, if_neg husable]
      rfl

theorem ldxStep_footprint (hq : p.SameBounds q) {i : EbpfInsn} {dst src : Fin 11} {m : EbpfState}
    (h : ∀ acc ∈ ldxAccesses p i dst src m, acc.Agrees p q m.map map') :
    ldxStep q i dst src { m with map := map' } =
      withMap (storeMap (ldxAccesses p i dst src m) map') (ldxStep p i dst src m) := by
  unfold ldxAccesses at h ⊢
  unfold ldxStep
  by_cases hregs : i.opcode &&& 0xe0 ≠ MODE_MEM ∨ src = 10 ∨ dst = 10
  · rw [if_pos hregs, if_pos hregs, if_pos hregs]
    rfl
  · rw [if_neg hregs] at h ⊢
    rw [if_neg hregs, if_neg hregs, hq.ctx, hq.ctxSize]
    dsimp only
    by_cases hout : ldxOutOfBounds p.ctx p.ctxSize (ldxAddr i src m.regs) (ldxSize i)
    · rw [if_pos hout, if_pos hout, if_pos hout]
      rfl
    · rw [if_neg hout] at h ⊢
      have hload : loadLe q.mem (ldxAddr i src m.regs) (ldxSize i) =
          loadLe p.mem (ldxAddr i src m.regs) (ldxSize i) :=
        loadLe_congr (ldxSize_cases i) (h _ List.mem_cons_self)
      rw [if_neg hout, if_neg hout, hload]
      rfl

theorem aluStep_footprint {i : EbpfInsn} {dst src : Fin 11} {m : EbpfState} :
    aluStep undef i dst src { m with map := map' } = withMap map' (aluStep undef i dst src m) := by
  unfold aluStep
  dsimp only
  split <;> rfl

theorem execInsn_footprint (hq : p.SameBounds q) {i : EbpfInsn} {dst src : Fin 11} {m : EbpfState}
    (hnone : map'.isNone = m.map.isNone)
    (h : ∀ acc ∈ insnAccesses p i dst src m, acc.Agrees p q m.map map') :
    execInsn undef q i dst src { m with map := map' } =
      withMap (storeMap (insnAccesses p i dst src m) map') (execInsn undef p i dst src m) := by
  have hdisj : (CLS_ALU64 ≠ CLS_LDX ∧ CLS_ALU ≠ CLS_LDX ∧ CLS_ALU64 ≠ CLS_JMP ∧
      CLS_ALU ≠ CLS_JMP) ∧ CLS_JMP ≠ CLS_LDX ∧ CLS_JMP32 ≠ CLS_LDX := by decide
  unfold insnAccesses at h ⊢
  unfold execInsn
  by_cases halu : i.cls = CLS_ALU64 ∨ i.cls = CLS_ALU
  · have hcall : ¬ (i.cls = CLS_JMP ∧ i.op = JmpOp.call.code) := by
      rintro ⟨hcls, -⟩
      rcases halu with h | h <;> rw [h] at hcls
      · exact hdisj.1.2.2.1 hcls
      · exact hdisj.1.2.2.2 hcls
    have hldx : ¬ i.cls = CLS_LDX := by
      intro hcls
      rcases halu with h | h <;> rw [h] at hcls
      · exact hdisj.1.1 hcls
      · exact hdisj.1.2.1 hcls
    rw [if_pos halu, if_pos halu, if_neg hcall, if_neg hldx]
    exact aluStep_footprint
  · rw [if_neg halu, if_neg halu]
    by_cases hjmp : i.cls = CLS_JMP ∨ i.cls = CLS_JMP32
    · rw [if_pos hjmp, if_pos hjmp]
      unfold jmpStep
      by_cases hcall : i.cls = CLS_JMP ∧ i.op = JmpOp.call.code
      · rw [if_pos hcall] at h ⊢
        rw [if_pos hcall, if_pos hcall]
        exact callStep_footprint hq hnone h
      · have hldx : ¬ i.cls = CLS_LDX := by
          intro hcls
          rcases hjmp with h | h <;> rw [h] at hcls
          · exact hdisj.2.1 hcls
          · exact hdisj.2.2 hcls
        rw [if_neg hcall, if_neg hcall, if_neg hcall, if_neg hldx]
        dsimp only
        split <;> rfl
    · have hcall : ¬ (i.cls = CLS_JMP ∧ i.op = JmpOp.call.code) := fun hc => hjmp (.inl hc.1)
      rw [if_neg hjmp, if_neg hjmp]
      by_cases hldx : i.cls = CLS_LDX
      · rw [if_neg hcall, if_pos hldx] at h ⊢
        rw [if_pos hldx, if_pos hldx]
        exact ldxStep_footprint hq h
      · rw [if_neg hldx, if_neg hldx, if_neg hcall, if_neg hldx]
        split <;> rfl

/-- The loop body behind the fetch. -/
def execFields (undef : CExpr → U64) (p : EbpfProg) (i : EbpfInsn) (m : EbpfState) :
    EbpfState ⊕ EbpfResult :=
  if h : i.dst.toNat < 11 ∧ i.src.toNat < 11 then
    execInsn undef p i ⟨i.dst.toNat, h.1⟩ ⟨i.src.toNat, h.2⟩ m
  else m.fault .opcode

theorem fetchExec_eq (m : EbpfState) :
    fetchExec undef p m = execFields undef p (p.insnAt m.pc) m.fetched := rfl

theorem execFields_footprint (hq : p.SameBounds q) {i : EbpfInsn} {m : EbpfState}
    (hnone : map'.isNone = m.map.isNone)
    (h : ∀ acc ∈ fieldAccesses p i m, acc.Agrees p q m.map map') :
    execFields undef q i { m with map := map' } =
      withMap (storeMap (fieldAccesses p i m) map') (execFields undef p i m) := by
  unfold fieldAccesses at h ⊢
  unfold execFields
  by_cases hreg : i.dst.toNat < 11 ∧ i.src.toNat < 11
  · rw [dif_pos hreg] at h ⊢
    rw [dif_pos hreg, dif_pos hreg]
    exact execInsn_footprint hq hnone h
  · rw [dif_neg hreg, dif_neg hreg, dif_neg hreg]
    rfl

/-- The accesses of a turn are its whole footprint: on a machine that agrees
    with this one in what they read, the turn has the same outcome, and the
    map changes by their stores. -/
theorem ebpfStep_footprint (hq : p.SameBounds q) {m : EbpfState}
    (hnone : map'.isNone = m.map.isNone)
    (h : ∀ acc ∈ turnAccesses p m, acc.Agrees p q m.map map') :
    ebpfStep undef q { m with map := map' } =
      withMap (storeMap (turnAccesses p m) map') (ebpfStep undef p m) := by
  unfold turnAccesses at h ⊢
  unfold ebpfStep
  rw [hq.insnCnt, hq.maxSteps]
  dsimp only at h ⊢
  by_cases hpc : p.insnCnt ≤ m.pc
  · rw [if_pos hpc, if_pos hpc, if_pos hpc]
    rfl
  by_cases hsteps : p.maxSteps < m.steps + 1
  · rw [if_neg hpc, if_neg hpc, if_neg hpc, if_pos hsteps, if_pos hsteps, if_pos hsteps]
    rfl
  rw [if_neg hpc, if_neg hsteps] at h ⊢
  have hinsn : q.insnAt m.pc = p.insnAt m.pc := congrArg decodeInsn (h _ List.mem_cons_self)
  rw [if_neg hpc, if_neg hpc, if_neg hsteps, if_neg hsteps, fetchExec_eq, fetchExec_eq]
  dsimp only
  rw [hinsn]
  exact execFields_footprint (m := m.fetched) hq hnone
    fun acc hacc => h acc (List.mem_cons_of_mem _ hacc)

/-- A turn stores nothing but what its accesses say. -/
theorem ebpfStep_stored (m : EbpfState) :
    ebpfStep undef p m = withMap (storeMap (turnAccesses p m) m.map) (ebpfStep undef p m) :=
  ebpfStep_footprint (m := m) ⟨rfl, rfl, rfl, rfl, rfl⟩ rfl fun acc _ => by
    cases acc <;> simp [EbpfAccess.Agrees]

/-! ## The bounds -/

theorem mapIndex_lt {cells : U32} (hcells : mapUsable cells) (r : U64) :
    mapIndex cells r < cells := by
  have hne : cells ≠ 0 := (of_decide_eq_true hcells).1
  have hle : mapIndex cells r ≤ cells - 1 := by
    rw [BitVec.le_def]
    unfold mapIndex
    rw [BitVec.toNat_and]
    exact Nat.and_le_right
  bv_omega

/-- The bounds test of a load excludes every wrap-around. -/
theorem load_inBounds (h8 : 8 ≤ p.ctx.toNat) (hfit : p.ctx.toNat + p.ctxSize.toNat ≤ 2 ^ 32)
    {addr : U64} {size : U8} (hsize : size.toNat ≤ 8)
    (h : ldxOutOfBounds p.ctx p.ctxSize addr size = false) :
    (EbpfAccess.load addr size).InBounds p := by
  intro k hk
  unfold ldxOutOfBounds at h
  have hnot := of_decide_eq_false h
  rw [not_or, BitVec.not_lt, BitVec.not_lt, BitVec.le_def, BitVec.le_def, BitVec.toNat_add,
    BitVec.toNat_sub, BitVec.toNat_setWidth, BitVec.toNat_setWidth] at hnot
  have haddr := addr.isLt
  rw [BitVec.toNat_add, BitVec.toNat_ofNat]
  omega

/-- Why a turn makes an access. -/
inductive AccessCause (p : EbpfProg) (m : EbpfState) : EbpfAccess → Prop where
  | fetch : m.pc < p.insnCnt → AccessCause p m (.fetch m.pc)
  | load (src : Fin 11) : (p.insnAt m.pc).cls = CLS_LDX →
      ldxOutOfBounds p.ctx p.ctxSize (ldxAddr (p.insnAt m.pc) src m.regs)
        (ldxSize (p.insnAt m.pc)) = false →
      AccessCause p m (.load (ldxAddr (p.insnAt m.pc) src m.regs) (ldxSize (p.insnAt m.pc)))
  | mapLoad : mapUsable p.mapCells → (p.insnAt m.pc).cls = CLS_JMP →
      (p.insnAt m.pc).op = JmpOp.call.code → (p.insnAt m.pc).imm = 1 →
      AccessCause p m (.mapLoad (mapIndex p.mapCells (m.regs 1)))
  | mapStore : mapUsable p.mapCells → (p.insnAt m.pc).cls = CLS_JMP →
      (p.insnAt m.pc).op = JmpOp.call.code → (p.insnAt m.pc).imm = 2 →
      fieldAccesses p (p.insnAt m.pc) m =
        [.mapStore (mapIndex p.mapCells (m.regs 1)) ((m.regs 2).setWidth 32)] →
      AccessCause p m (.mapStore (mapIndex p.mapCells (m.regs 1)) ((m.regs 2).setWidth 32))

/-- **Inversion.** Every access of a turn has one of these causes. -/
theorem turnAccesses_cause {m : EbpfState} {acc : EbpfAccess} (h : acc ∈ turnAccesses p m) :
    AccessCause p m acc := by
  unfold turnAccesses at h
  split at h
  · cases h
  next hpc =>
  split at h
  · cases h
  rcases List.mem_cons.mp h with rfl | h
  · exact .fetch (BitVec.not_le.mp hpc)
  -- behind the fetch: a helper call or a load
  have hwhole : fieldAccesses p (p.insnAt m.pc) m = fieldAccesses p (p.insnAt m.pc) m := rfl
  conv_rhs at hwhole => unfold fieldAccesses
  rw [hwhole] at h
  split at h
  · next hreg =>
    rw [dif_pos hreg] at hwhole
    unfold insnAccesses at h hwhole
    split at h
    · next hcall =>
      rw [if_pos hcall] at hwhole
      unfold callAccesses at h hwhole
      split at h
      · cases h
      · next hmap =>
        have husable : mapUsable p.mapCells := by
          by_contra hn
          exact hmap (.inr hn)
        rw [if_neg hmap] at hwhole
        split at h
        · next h1 =>
          obtain rfl := List.mem_singleton.mp h
          exact .mapLoad husable hcall.1 hcall.2 h1
        · next h1 =>
          rw [if_neg h1] at hwhole
          split at h
          · next h2 =>
            rw [if_pos h2] at hwhole
            obtain rfl := List.mem_singleton.mp h
            exact .mapStore husable hcall.1 hcall.2 h2 hwhole
          · cases h
    · split at h
      · next hcls =>
        unfold ldxAccesses at h
        split at h
        · cases h
        · split at h
          · cases h
          · next hb =>
            obtain rfl := List.mem_singleton.mp h
            exact .load _ hcls (by simpa using hb)
      · cases h
  · cases h

theorem turnAccesses_inBounds (h8 : 8 ≤ p.ctx.toNat)
    (hfit : p.ctx.toNat + p.ctxSize.toNat ≤ 2 ^ 32) {m : EbpfState} {acc : EbpfAccess}
    (h : acc ∈ turnAccesses p m) : acc.InBounds p := by
  cases turnAccesses_cause h with
  | fetch hpc => exact hpc
  | load src _ hb =>
    refine load_inBounds h8 hfit ?_ hb
    rcases ldxSize_cases (p.insnAt m.pc) with h | h | h | h <;> rw [h] <;> decide
  | mapLoad husable => exact mapIndex_lt husable _
  | mapStore husable => exact mapIndex_lt husable _

/-! ## Whole runs -/

/-- Two machines with the same image and the same context. -/
structure EbpfProg.SameInputs (p q : EbpfProg) : Prop extends p.SameBounds q where
  ins : ∀ k < p.insnCnt.toNat, q.ins k = p.ins k
  mem : ∀ a : U64, p.ctx.toNat ≤ a.toNat → a.toNat < p.ctx.toNat + p.ctxSize.toNat →
    q.mem a = p.mem a
  map : q.map = p.map

theorem EbpfProg.SameInputs.agrees (h : p.SameInputs q) {acc : EbpfAccess} (hacc : acc.InBounds p)
    (map : Option (U32 → U32)) : acc.Agrees p q map map := by
  cases acc with
  | fetch pc => exact h.ins pc.toNat hacc
  | load addr size => exact fun k hk => h.mem _ (hacc k hk).1 (hacc k hk).2
  | mapLoad idx => rfl
  | mapStore idx v => trivial

/-- The map a turn leaves behind. -/
def outcomeMap : EbpfState ⊕ EbpfResult → Option (U32 → U32)
  | .inl m => m.map
  | .inr r => r.map

/-- What one turn of a run may do to memory. -/
structure TurnContained (undef : CExpr → U64) (p : EbpfProg) (m : EbpfState) : Prop where
  inBounds : ∀ acc ∈ turnAccesses p m, acc.InBounds p
  /-- Only helper 2 stores, and it stores once. -/
  helper : ∀ idx v, .mapStore idx v ∈ turnAccesses p m →
    (p.insnAt m.pc).cls = CLS_JMP ∧ (p.insnAt m.pc).op = JmpOp.call.code ∧
      (p.insnAt m.pc).imm = 2 ∧ turnAccesses p m = [.fetch m.pc, .mapStore idx v]
  /-- The map changes by the stores among the accesses. -/
  stored : outcomeMap (ebpfStep undef p m) = storeMap (turnAccesses p m) m.map
  /-- No store reaches the context, wherever the map lies beside it. -/
  ctxKept : ∀ mapAddr, mapAddr + 4 * p.mapCells.toNat ≤ p.ctx.toNat ∨
      p.ctx.toNat + p.ctxSize.toNat ≤ mapAddr →
    ∀ acc ∈ turnAccesses p m, ∀ x, p.ctx.toNat ≤ x → x < p.ctx.toNat + p.ctxSize.toNat →
      ¬ acc.Stores mapAddr x
  /-- Nothing else is read. -/
  footprint : ∀ q map', p.SameBounds q → map'.isNone = m.map.isNone →
    (∀ acc ∈ turnAccesses p m, acc.Agrees p q m.map map') →
    ebpfStep undef q { m with map := map' } =
      withMap (storeMap (turnAccesses p m) map') (ebpfStep undef p m)

theorem turnContained (h8 : 8 ≤ p.ctx.toNat) (hfit : p.ctx.toNat + p.ctxSize.toNat ≤ 2 ^ 32)
    (m : EbpfState) : TurnContained undef p m where
  inBounds _ hacc := turnAccesses_inBounds h8 hfit hacc
  helper idx v hacc := by
    have hcons : ∃ rest, turnAccesses p m = .fetch m.pc :: rest ∧
        rest = fieldAccesses p (p.insnAt m.pc) m := by
      unfold turnAccesses at hacc ⊢
      split at hacc
      · cases hacc
      · next hpc =>
        split at hacc
        · cases hacc
        · next hsteps => exact ⟨_, by rw [if_neg hpc, if_neg hsteps], rfl⟩
    obtain ⟨rest, hrest, hfields⟩ := hcons
    cases turnAccesses_cause hacc with
    | mapStore _ hcls hop himm honly =>
      refine ⟨hcls, hop, himm, ?_⟩
      rw [hrest, hfields, honly]
  stored := by
    have hmap : ∀ map out, outcomeMap (withMap map out) = map := by
      intro map out
      cases out <;> rfl
    rw [← hmap (storeMap (turnAccesses p m) m.map) (ebpfStep undef p m)]
    exact congrArg outcomeMap (ebpfStep_stored m)
  ctxKept mapAddr hapart acc hacc x hlo hhi hstore := by
    have hin := turnAccesses_inBounds h8 hfit hacc
    cases acc with
    | mapStore idx v =>
      have hidx : idx.toNat < p.mapCells.toNat := hin
      obtain ⟨hle, hlt⟩ := hstore
      omega
    | _ => exact hstore
  footprint _ _ hq hnone h := ebpfStep_footprint hq hnone h

/-- A run depends on the image below its count and on the context bytes. -/
theorem ebpfRun_sameInputs (h8 : 8 ≤ p.ctx.toNat) (hfit : p.ctx.toNat + p.ctxSize.toNat ≤ 2 ^ 32)
    (h : p.SameInputs q) (fuel : Nat) : ebpfRun undef q fuel = ebpfRun undef p fuel := by
  have hentry : ebpfEntry q (entryRegs q) = ebpfEntry p (entryRegs p) := by
    unfold ebpfEntry entryRegs
    rw [h.map, h.ctx]
  have hstep : ebpfStep undef q = ebpfStep undef p := by
    funext m
    have hturn : ebpfStep undef q m =
        withMap (storeMap (turnAccesses p m) m.map) (ebpfStep undef p m) :=
      ebpfStep_footprint (m := m) h.toSameBounds rfl
        fun acc hacc => h.agrees (turnAccesses_inBounds h8 hfit hacc) m.map
    exact hturn.trans (ebpfStep_stored m).symm
  unfold ebpfRun ebpfRunFrom
  rw [h.insnCnt, hentry, hstep]

/-- **Containment of arbitrary bytecode.**  Whatever the image, verified or
    not, every turn of a run keeps to the image, the context and the map,
    and the run depends on nothing else. -/
theorem ebpfRun_contained (undef : CExpr → U64) (p : EbpfProg) (h8 : 8 ≤ p.ctx.toNat)
    (hfit : p.ctx.toNat + p.ctxSize.toNat ≤ 2 ^ 32) :
    (∀ m, p.Visits undef m → TurnContained undef p m) ∧
    ∀ q, p.SameInputs q → ∀ fuel, ebpfRun undef q fuel = ebpfRun undef p fuel :=
  ⟨fun m _ => turnContained h8 hfit m, fun _ hq => ebpfRun_sameInputs h8 hfit hq⟩

end Footprint

/-- An unverified image: it loads the last byte of the context, and `call 2`
    stores it. -/
def loadStore : EbpfProg where
  ins := fun k => if k = 0 then 0x0000000000031271 else 0x0000000200000085
  insnCnt := 2
  mem := fun a => if a = 0x1009 then 7 else 0
  ctx := 0x1006
  ctxSize := 4
  maxSteps := 16
  map := some fun _ => 0
  mapCells := 4

/-- The first turn loads in the context, and the second stores at the cell
    that the context address picks. -/
theorem ebpfRun_contained_loadStore :
    let m := ebpfEntry loadStore (entryRegs loadStore)
    ∃ m', ebpfStep (fun _ => 0) loadStore m = .inl m' ∧
      TurnContained (fun _ => 0) loadStore m ∧
      turnAccesses loadStore m = [.fetch 0, .load 0x1009 1] ∧
      TurnContained (fun _ => 0) loadStore m' ∧
      turnAccesses loadStore m' = [.fetch 1, .mapStore 2 7] := by
  intro m
  have hturns : (ebpfStep (fun _ => 0) loadStore m).getLeft?.map (turnAccesses loadStore) =
      some [.fetch 1, .mapStore 2 7] := by decide
  obtain ⟨m', hleft, hstores⟩ := Option.map_eq_some_iff.mp hturns
  have hstep := Sum.getLeft?_eq_some_iff.mp hleft
  obtain ⟨hcontained, -⟩ := ebpfRun_contained (fun _ => 0) loadStore (by decide) (by decide)
  exact ⟨m', hstep, hcontained m ⟨by decide, by decide, .refl⟩, by decide,
    hcontained m' ⟨by decide, by decide, .next .refl hstep⟩, hstores⟩

end Interclus

import Interclus.Framework.PathMeet
import Interclus.Verifier.Soundness

/-! # What the Register Gate Decides

    The rules the gate is there to enforce, stated over all paths through
    an image, and what `check_regs` makes of them: it checks each node while
    the analysis is still running, and accepts the images that keep the
    rules and reach each load through lower-numbered instructions. -/

namespace Interclus

open Words Worklist

/-! ## The rules -/

/-- What an instruction may read: a written register; a load, the context
    pointer; an ALU instruction, anything but it. -/
structure ReadRules (e : U64) (st : U32) (r : Nat) : Prop where
  written : regType st r ≠ T_BOTTOM
  ldxBase : insnCls e = CLS_LDX → regType st r = T_CTX
  aluArg : isAluCls (insnCls e) → regType st r ≠ T_CTX

theorem readsOk_iff (e : U64) (st : U32) :
    readsOk e st ↔ ∀ r, r < 11 → hasReg (insnReads e) r → ReadRules e st r := by
  unfold readsOk
  rw [List.all_eq_true]
  refine forall_congr' fun r => ?_
  rw [regNumbers, List.mem_range]
  refine forall_congr' fun _ => ?_
  cases hasReg (insnReads e) r with
  | false => simp
  | true =>
    simp only [Bool.not_true, Bool.false_or, decide_eq_true_eq, true_imp_iff]
    constructor
    · rintro ⟨hwritten, hldx, halu⟩
      exact ⟨hwritten, fun hcls => not_not.mp fun hne => hldx ⟨hcls, hne⟩,
        fun hcls hctx => halu ⟨hcls, hctx⟩⟩
    · rintro ⟨hwritten, hldx, halu⟩
      exact ⟨hwritten, fun h => h.2 (hldx h.1), fun h => halu h.1 h.2⟩

/-- Register types at the entry: `r1` is the context pointer, nothing else
    is written. -/
def entryTypes : TypeWord := ⟨setType 0 1 T_CTX⟩

/-- The register types of every path from the entry to an instruction. -/
def pathTypes (ins : Nat → U64) (cnt pc : Nat) : Set TypeWord :=
  pathVals (regAnalysis ins) cnt entryTypes pc

/-- The rules of the gate: control stays in the image, no immediate divisor
    is zero, and what an instruction reads it may read by the meet of the
    register types over all paths to it. -/
structure KeepsRules (ins : Nat → U64) (cnt : Nat) : Prop where
  succ_lt : ∀ pc, pc < cnt → ∀ s ∈ insnSucc (ins pc) (BitVec.ofNat 32 pc), s.toNat < cnt
  divImm : ∀ pc, pc < cnt → divByImmZero (ins pc) = false
  reads : ∀ pc, pc < cnt → ∃ w, IsGLB (pathTypes ins cnt pc) w ∧
    ∀ r, r < 11 → hasReg (insnReads (ins pc)) r → ReadRules (ins pc) w.bits r

/-- Every instruction is reachable from the entry. -/
def AllReached (ins : Nat → U64) (cnt : Nat) : Prop :=
  ∀ pc, pc < cnt → Reached (regAnalysis ins).succs (· < cnt) pc

/-- Every load is reachable through lower-numbered instructions. -/
def LoadsReachedBelow (ins : Nat → U64) (cnt : Nat) : Prop :=
  ∀ pc, pc < cnt → insnCls (ins pc) = CLS_LDX → Reached (regAnalysis ins).succs (· < pc) pc

/-! ## The transfer function distributes over the join -/

theorem setType_and (a b t : U32) (r : Nat) :
    setType (a &&& b) r t = setType a r t &&& setType b r t := by
  apply BitVec.eq_of_getLsbD_eq
  intro j _
  simp only [setType, BitVec.getLsbD_or, BitVec.getLsbD_and]
  cases (t <<< (2 * r)).getLsbD j <;> simp
  cases a.getLsbD j <;> cases b.getLsbD j <;> simp

theorem foldl_setType_and (f : Nat → Bool) (t : U32) (rs : List Nat) (a b : U32) :
    rs.foldl (fun out r => if f r then setType out r t else out) (a &&& b) =
      rs.foldl (fun out r => if f r then setType out r t else out) a &&&
        rs.foldl (fun out r => if f r then setType out r t else out) b := by
  induction rs generalizing a b with
  | nil => rfl
  | cons r rs ih =>
    simp only [List.foldl_cons]
    split
    · rw [setType_and, ih]
    · exact ih a b

theorem outState_and (e : U64) (a b : U32) :
    outState e (a &&& b) = outState e a &&& outState e b := by
  unfold outState
  simp only [foldl_setType_and]
  split
  · exact setType_and ..
  · rfl

theorem regAnalysis_out_inf (ins : Nat → U64) (pc : Nat) (a b : TypeWord) :
    (regAnalysis ins).out pc (a ⊓ b) = (regAnalysis ins).out pc a ⊓ (regAnalysis ins).out pc b :=
  TypeWord.ext (outState_and (ins pc) a.bits b.bits)

theorem regAnalysis_out_mono (ins : Nat → U64) (pc : Nat) :
    Monotone ((regAnalysis ins).out pc) := by
  intro a b hab
  rw [← inf_eq_left, ← regAnalysis_out_inf, inf_eq_left.mpr hab]

theorem mem_regAnalysis_succs {ins : Nat → U64} {pc s : Nat} :
    s ∈ (regAnalysis ins).succs pc ↔
      ∃ t ∈ insnSucc (ins pc) (BitVec.ofNat 32 pc), t.toNat = s := List.mem_map

/-! ## The start of the loop -/

theorem le_top_word (w : TypeWord) : w ≤ ⟨0xFFFFFFFF⟩ := by
  show w.bits &&& 0xFFFFFFFF = w.bits
  have : (0xFFFFFFFF : U32) = BitVec.allOnes 32 := by decide
  rw [this, BitVec.and_allOnes]

theorem regEntry_val_zero (cnt : Nat) : (regEntry cnt).val 0 = entryTypes := by
  simp [regEntry, entryTypes]

/-- The optimistic start is above the paths. -/
theorem regEntry_abovePaths {ins : Nat → U64} {cnt : Nat} (hreach : AllReached ins cnt) :
    ∀ i, i < cnt → AbovePaths (regAnalysis ins) cnt entryTypes i ((regEntry cnt).val i) := by
  intro i hi
  by_cases h0 : i = 0
  · subst h0
    rw [regEntry_val_zero]
    exact ⟨entryTypes, subset_infClosure PathVal.entry, le_refl _⟩
  · obtain ⟨v, hv⟩ := (hreach i hi).pathVal entryTypes
    rw [regEntry_val_ne cnt h0]
    exact ⟨v, subset_infClosure hv, le_top_word v⟩

theorem regEntry_pending {cnt : Nat} : ∀ i, i < cnt → (regEntry cnt).pending i = true :=
  fun _ hi => decide_eq_true hi

/-! ## Acceptance keeps the rules -/

theorem checkRegs_ok_iff {ins : Nat → U64} {cnt : Nat} :
    checkRegs ins cnt = .ok ↔
      Worklist.run (regAnalysis ins) cnt (regFuel cnt) (regEntry cnt) = some true := by
  unfold checkRegs
  constructor
  · intro h
    split at h
    · assumption
    · cases h
  · intro h
    rw [h]

theorem keepsRules_of_checkRegs {ins : Nat → U64} {cnt : Nat} (hreach : AllReached ins cnt)
    (h : checkRegs ins cnt = .ok) : KeepsRules ins cnt := by
  have hglb := run_accepts_isGLB (regAnalysis_out_inf ins) regEntry_pending
    (regEntry_val_zero cnt).le (regEntry_abovePaths hreach) (checkRegs_ok_iff.mp h)
  refine ⟨fun pc hpc s hs => ?_, fun pc hpc => ?_, fun pc hpc => ?_⟩
  · obtain ⟨_, _, _, hsucc⟩ := hglb pc hpc
    exact hsucc s.toNat (mem_regAnalysis_succs.mpr ⟨s, hs, rfl⟩)
  · obtain ⟨_, _, hcheck, _⟩ := hglb pc hpc
    simpa using (decide_eq_true_eq.mp hcheck).2
  · obtain ⟨w, hw, hcheck, _⟩ := hglb pc hpc
    exact ⟨w, hw, (readsOk_iff _ _).mp (decide_eq_true_eq.mp hcheck).1⟩

/-- Every register's type still has the scalar bit, as before any path
    arrives. -/
def AllMayScalar (w : TypeWord) : Prop := ∀ r, r < 11 → (regType w.bits r).getLsbD 0 = true

theorem AllMayScalar.inf {v w : TypeWord} (hv : AllMayScalar v) (hw : AllMayScalar w) :
    AllMayScalar (v ⊓ w) := by
  intro r hr
  rw [TypeWord.inf_bits, regType_and, BitVec.getLsbD_and, hv r hr, hw r hr]
  rfl

theorem AllMayScalar.out {w : TypeWord} (hw : AllMayScalar w) (ins : Nat → U64) (pc : Nat) :
    AllMayScalar ((regAnalysis ins).out pc w) := by
  intro r hr
  rw [regAnalysis_out_bits, regType_outState _ _ hr]
  split
  · decide
  · exact hw r hr

/-- A load is refused at such types. -/
theorem AllMayScalar.not_ldx {w : TypeWord} (hw : AllMayScalar w) {e : U64}
    (hcls : insnCls e = CLS_LDX) (hsrc : (insnSrc e).toNat < 11) : ¬ readsOk e w.bits := by
  intro hreads
  have hread : hasReg (insnReads e) (insnSrc e).toNat = true := by
    rw [insnReads_ldx hcls, hasReg_regBit (by omega) (by omega)]
    simp
  have hctx := ((readsOk_iff e w.bits).mp hreads _ hsrc hread).ldxBase hcls
  have hbit := hw _ hsrc
  rw [hctx] at hbit
  exact absurd hbit (by decide)

/-- An accepted image reaches its loads through lower-numbered
    instructions: any other load is checked before a path arrives. -/
theorem loadsReachedBelow_of_checkRegs {ins : Nat → U64} {cnt : Nat}
    (hsrc : ∀ pc, pc < cnt → (insnSrc (ins pc)).toNat < 11) (h : checkRegs ins cnt = .ok) :
    LoadsReachedBelow ins cnt := by
  intro pc hpc hcls
  by_contra hbelow
  have hstart : Unvisited (regAnalysis ins) AllMayScalar pc (regEntry cnt) := by
    refine ⟨regEntry_pending pc hpc, fun k _ hk => ?_⟩
    have h0 : k ≠ 0 := fun h0 => hk (h0 ▸ .entry)
    rw [regEntry_val_ne cnt h0]
    exact show ∀ r, r < 11 → (regType 0xFFFFFFFF r).getLsbD 0 = true by decide
  obtain ⟨w, hw, hcheck⟩ := first_check (fun _ _ hv hw => hv.inf hw)
    (fun i _ hv => hv.out ins i) hpc hbelow hstart (checkRegs_ok_iff.mp h)
  exact hw.not_ldx hcls (hsrc pc hpc) (decide_eq_true_eq.mp hcheck).1

/-! ## The rules lead to acceptance -/

/-- No register is unconstrained, as on every path. -/
def NoTop (w : TypeWord) : Prop :=
  ∀ r, r < 11 → (regType w.bits r).getLsbD 1 = true → (regType w.bits r).getLsbD 0 = false

theorem NoTop.out {w : TypeWord} (hw : NoTop w) (ins : Nat → U64) (pc : Nat) :
    NoTop ((regAnalysis ins).out pc w) := by
  intro r hr
  rw [regAnalysis_out_bits, regType_outState _ _ hr]
  split
  · decide
  · exact hw r hr

theorem noTop_of_pathVal {ins : Nat → U64} {through : Nat → Prop} {pc : Nat} {w : TypeWord}
    (h : PathVal (regAnalysis ins) through entryTypes pc w) : NoTop w :=
  h.forall (show ∀ r, r < 11 → (regType (setType 0 1 T_CTX) r).getLsbD 1 = true →
    (regType (setType 0 1 T_CTX) r).getLsbD 0 = false by decide) fun i _ hv => hv.out ins i

/-- A bit of a type is kept going up. -/
theorem regType_bit_le {v w : TypeWord} (h : v ≤ w) {r k : Nat}
    (hv : (regType v.bits r).getLsbD k = true) : (regType w.bits r).getLsbD k = true := by
  rw [← (TypeWord.le_iff v w).mp h, regType_and, BitVec.getLsbD_and, Bool.and_eq_true] at hv
  exact hv.2

theorem regType_eq_of_bits {st t : U32} {r : Nat} (ht : t &&& T_MASK = t)
    (h₀ : (regType st r).getLsbD 0 = t.getLsbD 0) (h₁ : (regType st r).getLsbD 1 = t.getLsbD 1) :
    regType st r = t := by
  rw [regType_getLsbD] at h₀ h₁
  exact (regType_eq_iff ht r).mpr ⟨by simpa using h₀, by simpa using h₁⟩

/-- What may be read at the meet of all paths may be read at a value above
    it; a load only where the scalar bit of its base is gone. -/
theorem ReadRules.mono {e : U64} {w v : TypeWord} {r : Nat} (h : ReadRules e w.bits r) (hle : w ≤ v)
    (hldx : insnCls e = CLS_LDX → (regType v.bits r).getLsbD 0 = false) :
    ReadRules e v.bits r := by
  refine ⟨fun hbot => h.written ?_, fun hcls => ?_, fun hcls hctx => h.aluArg hcls ?_⟩
  · rw [← (TypeWord.le_iff w v).mp hle, regType_and, hbot]
    exact BitVec.and_zero
  · have hbit : (regType v.bits r).getLsbD 1 = true :=
      regType_bit_le hle (by rw [h.ldxBase hcls]; rfl)
    exact regType_eq_of_bits (by decide) (hldx hcls) hbit
  · -- below the context pointer a type is that or unwritten
    have h0 : (regType w.bits r).getLsbD 0 = false := by
      rw [Bool.eq_false_iff]
      intro hbit
      have := regType_bit_le hle hbit
      rw [hctx] at this
      exact absurd this (by decide)
    cases h1 : (regType w.bits r).getLsbD 1 with
    | true => exact regType_eq_of_bits (by decide) h0 h1
    | false => exact absurd (regType_eq_of_bits (t := T_BOTTOM) (by decide) h0 h1) h.written

/-- An image that keeps the rules passes every check the loop makes, when
    its loads are reached through lower-numbered instructions. -/
theorem readsOk_of_keepsRules {ins : Nat → U64} {cnt : Nat} (hreach : AllReached ins cnt)
    (hrules : KeepsRules ins cnt) (hbelow : LoadsReachedBelow ins cnt) {st : State TypeWord}
    (hst : Exec.Reaches (Worklist.step (regAnalysis ins) cnt) (regEntry cnt) st) {pc : Nat}
    (hfirst : firstPending cnt st.pending = some pc) : readsOk (ins pc) (st.val pc).bits := by
  have hpc := (firstPending_some hfirst).1
  obtain ⟨w, hw, hreads⟩ := hrules.reads pc hpc
  have hle : w ≤ st.val pc :=
    (reaches_abovePaths (regAnalysis_out_inf ins) hst (regEntry_abovePaths hreach) hpc).le hw.1
  rw [readsOk_iff]
  intro r hr hread
  refine (hreads r hr hread).mono hle fun hcls => ?_
  -- a path through lower-numbered instructions has already been followed
  obtain ⟨v, hv⟩ := (hbelow pc hpc hcls).pathVal entryTypes
  have hlev : st.val pc ≤ v := val_le_path_below (regAnalysis_out_mono ins) regEntry_pending
    (regEntry_val_zero cnt).le hst hfirst hv
  have hmem : w ≤ v := hw.1 (hv.mono fun i hi => Nat.lt_trans hi hpc)
  have hctx : (regType v.bits r).getLsbD 1 = true :=
    regType_bit_le hmem (by rw [(hreads r hr hread).ldxBase hcls]; rfl)
  have htop := noTop_of_pathVal hv r hr hctx
  rw [Bool.eq_false_iff]
  intro hbit
  rw [regType_bit_le hlev hbit] at htop
  cases htop

theorem checkRegs_of_keepsRules {ins : Nat → U64} {cnt : Nat} (hreach : AllReached ins cnt)
    (hrules : KeepsRules ins cnt) (hbelow : LoadsReachedBelow ins cnt) :
    checkRegs ins cnt = .ok := by
  obtain ⟨b, hrun⟩ := checkRegs_terminates ins cnt
  cases b with
  | true => exact checkRegs_ok_iff.mpr hrun
  | false =>
    obtain ⟨st, hst, hstop⟩ := Exec.run_some hrun
    obtain ⟨pc, hfirst, hwhy⟩ := step_inr_false hstop
    have hpc := (firstPending_some hfirst).1
    rcases hwhy with hcheck | ⟨s, hs, hout⟩
    · have hok : (regAnalysis ins).check pc (st.val pc) = true := by
        have hdiv := hrules.divImm pc hpc
        exact decide_eq_true
          ⟨readsOk_of_keepsRules hreach hrules hbelow hst hfirst, by rw [hdiv]; decide⟩
      rw [hok] at hcheck
      cases hcheck
    · obtain ⟨t, ht, rfl⟩ := mem_regAnalysis_succs.mp hs
      exact absurd (hrules.succ_lt pc hpc t ht) (Nat.not_lt.mpr hout)

/-! ## The verdict -/

/-- The verdict on an image that passed the scan and has no unreachable
    instruction. -/
theorem icProgramCheck_ok_iff {ins : Nat → U64} {cnt : U32} (hpos : 1 ≤ cnt.toNat)
    (hle : cnt.toNat ≤ 64) (hscan : ∀ pc, pc < cnt.toNat → scanInsn (ins pc) pc cnt.toNat)
    (hreach : AllReached ins cnt.toNat) :
    icProgramCheck (some ins) cnt = .ok ↔
      KeepsRules ins cnt.toNat ∧ LoadsReachedBelow ins cnt.toNat := by
  have hcnt : ¬ (cnt = 0 ∨ IC_PROG_MAX_INSNS < cnt) := by
    unfold IC_PROG_MAX_INSNS
    bv_omega
  have hall : ((List.range cnt.toNat).all fun pc => scanInsn (ins pc) pc cnt.toNat) = true :=
    List.all_eq_true.mpr fun pc hpc => hscan pc (List.mem_range.mp hpc)
  have hcheck : icProgramCheck (some ins) cnt = checkRegs ins cnt.toNat := by
    simp only [icProgramCheck, if_neg hcnt, hall, if_true]
  rw [hcheck]
  constructor
  · intro h
    refine ⟨keepsRules_of_checkRegs hreach h, loadsReachedBelow_of_checkRegs ?_ h⟩
    exact fun pc hpc => (scanInsn_admitted (hscan pc hpc)).src_lt
  · rintro ⟨hrules, hbelow⟩
    exact checkRegs_of_keepsRules hreach hrules hbelow

/-- **Exactness, exactly.** The verdict is the one the rules ask for if and
    only if the image breaks a rule or reaches each load through
    lower-numbered instructions. -/
theorem icProgramCheck_exact_iff {ins : Nat → U64} {cnt : U32} (hpos : 1 ≤ cnt.toNat)
    (hle : cnt.toNat ≤ 64) (hscan : ∀ pc, pc < cnt.toNat → scanInsn (ins pc) pc cnt.toNat)
    (hreach : AllReached ins cnt.toNat) :
    (icProgramCheck (some ins) cnt = .ok ↔ KeepsRules ins cnt.toNat) ↔
      ¬ KeepsRules ins cnt.toNat ∨ LoadsReachedBelow ins cnt.toNat := by
  rw [icProgramCheck_ok_iff hpos hle hscan hreach]
  constructor
  · intro h
    by_cases hrules : KeepsRules ins cnt.toNat
    · exact .inr (h.mpr hrules).2
    · exact .inl hrules
  · rintro (hbroken | hbelow)
    · exact ⟨fun h => h.1, fun h => absurd h hbroken⟩
    · exact ⟨fun h => h.1, fun h => ⟨h, hbelow⟩⟩

/-- `0: goto 1; 1: r0 = *(u8 *)(r1 + 0); 2: exit`. -/
def blockFirst : Nat → U64 := fun k => [0x0005, 0x1071, 0x95].getD k 0

theorem blockFirst_allReached : ∀ pc, pc < 3 → Reached (regAnalysis blockFirst).succs (· < pc) pc := by
  have h0 : ∀ {P : Nat → Prop}, Reached (regAnalysis blockFirst).succs P 0 := .entry
  intro pc hpc
  have hcases : pc = 0 ∨ pc = 1 ∨ pc = 2 := by omega
  rcases hcases with rfl | rfl | rfl
  · exact h0
  · exact h0.step (by decide) (by decide +kernel)
  · exact (h0.step (s := 1) (by decide) (by decide +kernel)).step (by decide) (by decide +kernel)

/-- The verdict on an image with a load behind the code that leads to it. -/
theorem icProgramCheck_exact_iff_blockFirst :
    icProgramCheck (some blockFirst) 3 = .ok ↔ KeepsRules blockFirst 3 :=
  (@icProgramCheck_exact_iff blockFirst 3 (by decide) (by decide) (by decide +kernel)
    fun pc hpc => (blockFirst_allReached pc hpc).mono fun _ hi => Nat.lt_trans hi hpc).mpr
    (.inr fun pc hpc _ => blockFirst_allReached pc hpc)

/-! ## The same blocks in another order -/

/-- `0: goto 3; 1: r0 = *(u8 *)(r1 + 0); 2: exit; 3: goto 1`. -/
def blockLast : Nat → U64 := fun k => [0x20005, 0x1071, 0x95, 0xfffd0005].getD k 0

/-- Register types on the only path to each instruction. -/
def blockLastTypes (pc : Nat) : TypeWord :=
  if pc = 2 then ⟨setType (setType 0 1 T_CTX) 0 T_SCALAR⟩ else entryTypes

theorem blockLast_pathVal {pc : Nat} {w : TypeWord}
    (h : PathVal (regAnalysis blockLast) (· < 4) entryTypes pc w) : w = blockLastTypes pc := by
  induction h with
  | entry => rfl
  | @step i s v _ hi hs ih =>
    subst ih
    have hall : ∀ i, i < 4 → ∀ s ∈ (regAnalysis blockLast).succs i,
        (regAnalysis blockLast).out i (blockLastTypes i) = blockLastTypes s := by decide +kernel
    exact hall i hi s hs

theorem blockLast_allReached : AllReached blockLast 4 := by
  have h0 : Reached (regAnalysis blockLast).succs (· < 4) 0 := .entry
  have h3 : Reached (regAnalysis blockLast).succs (· < 4) 3 :=
    h0.step (by decide) (by decide +kernel)
  have h1 : Reached (regAnalysis blockLast).succs (· < 4) 1 :=
    h3.step (by decide) (by decide +kernel)
  have h2 : Reached (regAnalysis blockLast).succs (· < 4) 2 :=
    h1.step (by decide) (by decide +kernel)
  intro pc hpc
  have hcases : pc = 0 ∨ pc = 1 ∨ pc = 2 ∨ pc = 3 := by omega
  rcases hcases with rfl | rfl | rfl | rfl
  · exact h0
  · exact h1
  · exact h2
  · exact h3

theorem blockLast_keepsRules : KeepsRules blockLast 4 := by
  refine ⟨fun pc hpc s hs => ?_, by decide +kernel, fun pc hpc => ⟨blockLastTypes pc, ?_, ?_⟩⟩
  · have hsucc : ∀ pc, pc < 4 →
        (insnSucc (blockLast pc) (BitVec.ofNat 32 pc)).all (fun s => s.toNat < 4) := by
      decide +kernel
    simpa using List.all_eq_true.mp (hsucc pc hpc) s hs
  · have hpath : pathTypes blockLast 4 pc = {blockLastTypes pc} := by
      obtain ⟨w, hw⟩ := (blockLast_allReached pc hpc).pathVal entryTypes
      refine Set.eq_singleton_iff_unique_mem.mpr ⟨?_, fun v hv => blockLast_pathVal hv⟩
      exact blockLast_pathVal hw ▸ hw
    rw [hpath]
    exact isGLB_singleton
  · have hok : ∀ pc, pc < 4 → readsOk (blockLast pc) (blockLastTypes pc).bits := by decide +kernel
    exact (readsOk_iff _ _).mp (hok pc hpc)

/-- The load is refused where it stands before the code that leads to it,
    and accepted behind it. -/
theorem blockLast_not_exact :
    (∀ pc, pc < 4 → scanInsn (blockLast pc) pc 4) ∧ AllReached blockLast 4 ∧
      ¬ (icProgramCheck (some blockLast) 4 = .ok ↔ KeepsRules blockLast 4) ∧
      icProgramCheck (some blockFirst) 3 = .ok := by
  refine ⟨by decide +kernel, blockLast_allReached, fun h => ?_, by decide +kernel⟩
  exact absurd (h.mpr blockLast_keepsRules) (by decide +kernel)

end Interclus

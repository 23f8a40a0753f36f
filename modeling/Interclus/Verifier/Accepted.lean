import Interclus.Verifier.RegTypes

/-! # What Acceptance Means

    An accepted image passes the scan at every instruction and carries an
    assignment of register types to its instructions that the worklist
    left behind: each instruction's reads are allowed by its own word, and
    each word is below the out-state of every predecessor.

    The fuel of the model's worklist is always enough, so `errValidate` is
    never an artefact of it. -/

namespace Interclus

open Words

/-! ## The worklist never runs dry -/

theorem TypeWord.le_iff (a b : TypeWord) : a ≤ b ↔ a.bits &&& b.bits = a.bits := Iff.rfl

@[simp] theorem TypeWord.inf_bits (a b : TypeWord) : (a ⊓ b).bits = a.bits &&& b.bits := rfl

theorem TypeWord.rank_lt {v w : TypeWord} (h : v < w) : v.rank < w.rank := by
  have hle : v.bits &&& w.bits = v.bits := h.le
  apply Finset.card_lt_card
  refine Finset.ssubset_iff_subset_ne.mpr ⟨fun i hi => ?_, fun heq => h.ne ?_⟩
  · simp only [Finset.mem_filter] at hi ⊢
    rw [← hle, BitVec.getLsbD_and, Bool.and_eq_true] at hi
    exact ⟨hi.1, hi.2.2⟩
  · apply TypeWord.ext
    apply BitVec.eq_of_getLsbD_eq
    intro i hi
    have := Finset.ext_iff.mp heq i
    simp only [Finset.mem_filter, Finset.mem_range, hi, true_and] at this
    exact Bool.eq_iff_iff.mpr this

theorem TypeWord.rank_le (w : TypeWord) : w.rank ≤ 32 :=
  (Finset.card_filter_le _ _).trans_eq (Finset.card_range 32)

/-- The rounds `checkRegs` allows the worklist always lead to a verdict. -/
theorem checkRegs_terminates (ins : Nat → U64) (cnt : Nat) :
    ∃ b, Worklist.run (regAnalysis ins) cnt (regFuel cnt) (regEntry cnt) = some b := by
  apply Worklist.run_terminates TypeWord.rank (fun _ _ => TypeWord.rank_lt)
  have hle : ∀ i ∈ Finset.range cnt, (((regEntry cnt).val i).rank +
      if (regEntry cnt).pending i then 1 else 0) ≤ 33 := by
    intro i _
    have := ((regEntry cnt).val i).rank_le
    split <;> omega
  have hsum := Finset.sum_le_sum hle
  rw [Finset.sum_const_nat (m := 33) (fun _ _ => rfl), Finset.card_range] at hsum
  unfold Worklist.work regFuel
  omega

/-! ## The register solution -/

/-- Register types at every instruction that the register gate settled on. -/
structure RegSolution (ins : Nat → U64) (cnt : Nat) (types : Nat → U32) : Prop where
  reads : ∀ pc, pc < cnt → readsOk (ins pc) (types pc)
  divImm : ∀ pc, pc < cnt → divByImmZero (ins pc) = false
  succ_lt : ∀ pc, pc < cnt → ∀ s ∈ insnSucc (ins pc) (BitVec.ofNat 32 pc), s.toNat < cnt
  flows : ∀ pc, pc < cnt → ∀ s ∈ insnSucc (ins pc) (BitVec.ofNat 32 pc),
    types s.toNat &&& outState (ins pc) (types pc) = types s.toNat
  entry : types 0 &&& setType 0 1 T_CTX = types 0
  fp : ∀ pc, regType (types pc) 10 ≠ T_CTX

/-- `r10` is never typed as the context pointer: nothing gives it that
    type, and a join of words that do not have it does not have it. -/
theorem fp_not_ctx_inf {a b : U32} (ha : regType a 10 ≠ T_CTX) (hb : regType b 10 ≠ T_CTX) :
    regType (a &&& b) 10 ≠ T_CTX := by
  have hT : T_CTX &&& T_MASK = T_CTX := by decide
  rw [ne_eq, regType_eq_iff hT] at ha hb ⊢
  simp only [BitVec.getLsbD_and, show T_CTX.getLsbD 0 = false by decide,
    show T_CTX.getLsbD 1 = true by decide] at *
  grind

theorem fp_not_ctx_out (e : U64) {st : U32} (h : regType st 10 ≠ T_CTX) :
    regType (outState e st) 10 ≠ T_CTX := by
  rw [regType_outState e st (by decide)]
  split
  · decide
  · exact h

theorem regAnalysis_out_bits (ins : Nat → U64) (pc : Nat) (w : TypeWord) :
    ((regAnalysis ins).out pc w).bits = outState (ins pc) w.bits := rfl

theorem regEntry_val_ne (cnt : Nat) {i : Nat} (hi : i ≠ 0) :
    (regEntry cnt).val i = ⟨0xFFFFFFFF⟩ := by
  simp [regEntry, Function.update_of_ne hi]

theorem checkRegs_ok {ins : Nat → U64} {cnt : Nat} (h : checkRegs ins cnt = .ok) :
    ∃ types, RegSolution ins cnt types := by
  have hrun : Worklist.run (regAnalysis ins) cnt (regFuel cnt) (regEntry cnt) = some true := by
    unfold checkRegs at h
    split at h
    · assumption
    · cases h
  have hpend : ∀ i, i < cnt → (regEntry cnt).pending i = true := fun i hi => decide_eq_true hi
  obtain ⟨st, hreach, hle, hstable⟩ := Worklist.run_accepts hpend hrun
  -- nothing writes r10, so it is never a context pointer
  have hfp : ∀ i, regType (st.val i).bits 10 ≠ T_CTX := by
    have hout : ∀ pc (w : TypeWord), regType w.bits 10 ≠ T_CTX →
        regType ((regAnalysis ins).out pc w).bits 10 ≠ T_CTX := by
      intro pc w hw
      rw [regAnalysis_out_bits]
      exact fp_not_ctx_out (ins pc) hw
    refine Worklist.reaches_forall (P := fun _ (w : TypeWord) => regType w.bits 10 ≠ T_CTX)
      (fun _ v w hv hw => fp_not_ctx_inf hv hw) (fun pc w _ hw _ _ => hout pc w hw) hreach
      (fun i => ?_)
    by_cases hi : i = 0
    · subst hi
      exact show regType (setType 0 1 T_CTX) 10 ≠ T_CTX by decide
    · rw [regEntry_val_ne cnt hi]
      decide
  have hsucc : ∀ pc s, s ∈ insnSucc (ins pc) (BitVec.ofNat 32 pc) →
      s.toNat ∈ (regAnalysis ins).succs pc := fun pc s hs => List.mem_map_of_mem hs
  refine ⟨fun i => (st.val i).bits, ?_, ?_, ?_, ?_, ?_, hfp⟩
  · intro pc hpc
    exact (decide_eq_true_eq.mp (hstable pc hpc).check).1
  · intro pc hpc
    simpa using (decide_eq_true_eq.mp (hstable pc hpc).check).2
  · intro pc hpc s hs
    exact (hstable pc hpc).succ_lt _ (hsucc pc s hs)
  · intro pc hpc s hs
    exact (hstable pc hpc).val_le _ (hsucc pc s hs)
  · exact hle 0

/-- Everything the verifier guarantees of an accepted image. -/
structure Accepted (ins : Nat → U64) (cnt : U32) : Prop where
  cnt_pos : 0 < cnt.toNat
  cnt_le : cnt.toNat ≤ 64
  scan : ∀ pc, pc < cnt.toNat → scanInsn (ins pc) pc cnt.toNat
  solution : ∃ types, RegSolution ins cnt.toNat types

theorem icProgramCheck_ok {ins : Nat → U64} {cnt : U32} (h : icProgramCheck (some ins) cnt = .ok) :
    Accepted ins cnt := by
  simp only [icProgramCheck] at h
  split at h
  · cases h
  · next hcnt =>
    split at h
    · next hscan =>
      rw [not_or] at hcnt
      refine ⟨?_, ?_, ?_, checkRegs_ok h⟩
      · have := hcnt.1
        bv_omega
      · have := hcnt.2
        unfold IC_PROG_MAX_INSNS at this
        bv_omega
      · intro pc hpc
        exact List.all_eq_true.mp hscan pc (List.mem_range.mpr hpc)
    · cases h

end Interclus

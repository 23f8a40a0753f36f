import Interclus.Core.Compartment

/-! # PMP Containment

    What the four PMP entries of an armed compartment grant to U-mode, for
    every spec that passes the compartment gate.

    The gate asks for a 4 KiB aligned base; a NAPOT word can only encode a
    region aligned to its own size.  `pmpContains_iff`: an accepted spec is
    encoded, and enforced, exactly when its bases are aligned so. -/

namespace Interclus

open Words

/-- The SRAM and text regions a spec declares. -/
def IcCompartmentSpec.sram (s : IcCompartmentSpec) : Pmp.Region :=
  ⟨s.sramBase.toNat, s.sramSize.toNat⟩

def IcCompartmentSpec.text (s : IcCompartmentSpec) : Pmp.Region :=
  ⟨s.textBase.toNat, s.textSize.toNat⟩

/-! ## Accepted regions -/

/-- The NAPOT word of an aligned region decodes to the region. -/
theorem napotRegion_NAPOT {base size : U32} (h : regionOk base size)
    (halign : base.toNat % size.toNat = 0) :
    Pmp.napotRegion (NAPOT base size) = ⟨base.toNat, size.toNat⟩ := by
  obtain ⟨k, hk, hsize⟩ := regionOk_size h
  obtain ⟨q, hq⟩ := Nat.dvd_of_mod_eq_zero halign
  have h8 : size.toNat / 2 ^ 3 = 2 ^ k := by
    rw [hsize, Nat.pow_add, Nat.mul_div_cancel _ (by decide)]
  have h4 : base.toNat / 2 ^ 2 = 2 ^ (k + 1) * q := by
    rw [hq, hsize, show k + 3 = k + 1 + 2 by omega, Nat.pow_add 2 (k + 1) 2, Nat.mul_right_comm,
      Nat.mul_div_cancel _ (by decide)]
  have hpos : 0 < 2 ^ k := Nat.two_pow_pos k
  have hlow : 2 ^ k - 1 < 2 ^ (k + 1) := by
    have : 2 ^ k < 2 ^ (k + 1) := Nat.pow_lt_pow_right (by decide) (by omega)
    omega
  have hword : (NAPOT base size).toNat = 2 ^ (k + 1) * q + (2 ^ k - 1) := by
    have hs : ((size >>> 3) - 1).toNat = 2 ^ k - 1 := by
      have : (size >>> 3).toNat = 2 ^ k := by
        rw [BitVec.toNat_ushiftRight, Nat.shiftRight_eq_div_pow, h8]
      bv_omega
    rw [NAPOT, BitVec.toNat_or, BitVec.toNat_ushiftRight, Nat.shiftRight_eq_div_pow, h4, hs,
      Nat.two_pow_add_eq_or_of_lt hlow]
  rw [Pmp.napotRegion_encode (by omega) hword, hq, hsize]

/-! ## The four entries -/

/-- The CSRs after the arming of a compartment that was not. -/
theorem compartmentArm_csr {i : Nat} (hi : i < COMP_COUNT) {t : CompTable}
    (h : (t.comps i).armed = false) :
    pmpEntries (compartmentArm i t).csr =
      [⟨0x1B, NAPOT (t.comps i).spec.sramBase (t.comps i).spec.sramSize⟩,
       ⟨0x1D, NAPOT (t.comps i).spec.textBase (t.comps i).spec.textSize⟩,
       ⟨0x00, 0⟩, ⟨0x18, PMP_DENY⟩] := by
  unfold compartmentArm
  rw [if_neg (by simp [h, Nat.not_le.mpr hi])]
  simp [pmpEntries, csrSet, CSR_PMPCFG0, CSR_PMPADDR0, pmpCfgByte, PMP_CFGW, List.range_succ]

theorem compartmentSet_comps {i : Nat} (hi : i < COMP_COUNT) (s : IcCompartmentSpec) (entry : U32)
    (t : CompTable) : (compartmentSet i s entry t).comps i = ⟨s, entry, false, false, fun _ => 0⟩ := by
  unfold compartmentSet
  rw [if_neg (Nat.not_le.mpr hi)]
  exact if_pos rfl

/-- The CSRs after a fresh arming. -/
theorem compartmentArm_set_csr {i : Nat} (hi : i < COMP_COUNT) (s : IcCompartmentSpec)
    (entry : U32) (t : CompTable) :
    pmpEntries (compartmentArm i (compartmentSet i s entry t)).csr =
      [⟨0x1B, NAPOT s.sramBase s.sramSize⟩, ⟨0x1D, NAPOT s.textBase s.textSize⟩,
       ⟨0x00, 0⟩, ⟨0x18, PMP_DENY⟩] := by
  have hcomps := compartmentSet_comps hi s entry t
  rw [compartmentArm_csr hi (by rw [hcomps]), hcomps]

theorem pmpEntries_addr {csr : Nat → U32} {c₀ c₁ c₂ c₃ : U8} {a₀ a₁ a₂ a₃ : U32}
    (h : pmpEntries csr = [⟨c₀, a₀⟩, ⟨c₁, a₁⟩, ⟨c₂, a₂⟩, ⟨c₃, a₃⟩]) :
    csr CSR_PMPADDR0 = a₀ ∧ csr (CSR_PMPADDR0 + 1) = a₁ := by
  simp only [pmpEntries, List.range_succ, List.range_zero, List.nil_append, List.map_cons,
    List.map_nil, List.cons_append, List.cons.injEq, Pmp.Entry.mk.injEq] at h
  exact ⟨h.1.2, h.2.1.2⟩

theorem permits_rw (acc : Pmp.Access) (addr : U32) :
    Pmp.Entry.permits ⟨0x1B, addr⟩ acc = decide (acc ≠ .fetch) := by
  show Pmp.cfgPermits 0x1B acc = _
  cases acc <;> decide

theorem permits_rx (acc : Pmp.Access) (addr : U32) :
    Pmp.Entry.permits ⟨0x1D, addr⟩ acc = decide (acc ≠ .store) := by
  show Pmp.cfgPermits 0x1D acc = _
  cases acc <;> decide

theorem permits_none (acc : Pmp.Access) (addr : U32) :
    Pmp.Entry.permits ⟨0x18, addr⟩ acc = false := by
  show Pmp.cfgPermits 0x18 acc = _
  cases acc <;> decide

/-- The decision of the four entries: SRAM first, then text, then deny. -/
theorem userAccess_armed {csr : Nat → U32} {sram text : U32}
    (h : pmpEntries csr = [⟨0x1B, sram⟩, ⟨0x1D, text⟩, ⟨0x00, 0⟩, ⟨0x18, PMP_DENY⟩])
    (unmatched : Bool) (acc : Pmp.Access) (a : U32) :
    userAccess unmatched csr acc a =
      if (Pmp.napotRegion sram).holds a.toNat then decide (acc ≠ .fetch)
      else if (Pmp.napotRegion text).holds a.toNat then decide (acc ≠ .store)
      else false := by
  have hdeny : (Pmp.napotRegion PMP_DENY).holds a.toNat := Pmp.napotRegion_allOnes a.isLt
  have hrw : Pmp.cfgMode 0x1B = .napot := by decide
  have hrx : Pmp.cfgMode 0x1D = .napot := by decide
  have hoff : Pmp.cfgMode 0x00 = .off := by decide
  have hfill : Pmp.cfgMode 0x18 = .napot := by decide
  unfold userAccess
  rw [h]
  simp only [Pmp.allows, Pmp.Entry.region_napot hrw, Pmp.Entry.region_napot hrx,
    Pmp.Entry.region_off hoff, Pmp.Entry.region_napot hfill, Option.any_some, Option.any_none,
    hdeny, permits_rw, permits_rx, permits_none, if_true, Bool.false_eq_true, if_false]

/-! ## Containment -/

/-- The CSRs grant U-mode exactly the declared windows: R/W in SRAM, R/X in
    text, nothing elsewhere. -/
structure PmpContains (unmatched : Bool) (csr : Nat → U32) (s : IcCompartmentSpec) : Prop where
  sramWord : Pmp.napotRegion (csr CSR_PMPADDR0) = s.sram
  textWord : Pmp.napotRegion (csr (CSR_PMPADDR0 + 1)) = s.text
  load : ∀ a, userAccess unmatched csr .load a ↔ s.sram.holds a.toNat ∨ s.text.holds a.toNat
  store : ∀ a, userAccess unmatched csr .store a ↔ s.sram.holds a.toNat
  fetch : ∀ a, userAccess unmatched csr .fetch a ↔ s.text.holds a.toNat ∧ ¬ s.sram.holds a.toNat
  writeXorExec : ∀ a, ¬ (userAccess unmatched csr .store a ∧ userAccess unmatched csr .fetch a)

/-- Address words that decode to the declared regions contain them. -/
theorem pmpContains_of_words {csr : Nat → U32} {s : IcCompartmentSpec} {sram text : U32}
    (h : pmpEntries csr = [⟨0x1B, sram⟩, ⟨0x1D, text⟩, ⟨0x00, 0⟩, ⟨0x18, PMP_DENY⟩])
    (hsram : Pmp.napotRegion (csr CSR_PMPADDR0) = s.sram)
    (htext : Pmp.napotRegion (csr (CSR_PMPADDR0 + 1)) = s.text) (unmatched : Bool) :
    PmpContains unmatched csr s := by
  have haddr := pmpEntries_addr h
  rw [haddr.1] at hsram
  rw [haddr.2] at htext
  have hacc := userAccess_armed h unmatched
  rw [hsram, htext] at hacc
  refine ⟨haddr.1 ▸ hsram, haddr.2 ▸ htext, fun a => ?_, fun a => ?_, fun a => ?_, fun a => ?_⟩
  all_goals simp only [hacc]
  all_goals
    cases hs : s.sram.holds a.toNat <;> cases ht : s.text.holds a.toNat <;> simp

/-- **Containment.** Instantiating and arming an accepted spec grants
    exactly the declared windows if and only if both bases are aligned to
    the size of their region. -/
theorem pmpContains_iff (unmatched : Bool) (t : CompTable) {i : Nat} (hi : i < COMP_COUNT)
    {s : IcCompartmentSpec} (hcheck : icCompartmentCheck (some s) = .ok) (entry : U32) :
    PmpContains unmatched (compartmentArm i (compartmentSet i s entry t)).csr s ↔
      s.sramBase.toNat % s.sramSize.toNat = 0 ∧ s.textBase.toNat % s.textSize.toNat = 0 := by
  have hcsr := compartmentArm_set_csr hi s entry t
  generalize (compartmentArm i (compartmentSet i s entry t)).csr = csr at hcsr
  constructor
  · intro h
    have hs := Pmp.napotRegion_aligned (csr CSR_PMPADDR0)
    have ht := Pmp.napotRegion_aligned (csr (CSR_PMPADDR0 + 1))
    rw [h.sramWord] at hs
    rw [h.textWord] at ht
    exact ⟨hs, ht⟩
  · rintro ⟨hs, ht⟩
    obtain ⟨htext, hsram⟩ := icCompartmentCheck_ok hcheck
    have haddr := pmpEntries_addr hcsr
    refine pmpContains_of_words hcsr ?_ ?_ unmatched
    · rw [haddr.1]; exact napotRegion_NAPOT hsram hs
    · rw [haddr.2]; exact napotRegion_NAPOT htext ht

/-- The monitor's windows on the board. -/
def monitorSpec : IcCompartmentSpec := ⟨0x08004000, 0x2000, 0x20004000, 0x2000⟩

theorem pmpContains_monitorSpec :
    PmpContains true
      (compartmentArm 0 (compartmentSet 0 monitorSpec 0 .zeroed)).csr monitorSpec :=
  (pmpContains_iff true .zeroed (by decide) (by decide) 0).mpr (by decide)

/-- Eight KiB of SRAM at a base that is a multiple of four. -/
def skewedSpec : IcCompartmentSpec := ⟨0x2000A000, 0x1000, 0x20005000, 0x2000⟩

/-- The gate accepts it, and U-mode can store one page below the window. -/
theorem skewedSpec_not_contained :
    icCompartmentCheck (some skewedSpec) = .ok ∧
      userAccess true (compartmentArm 2 (compartmentSet 2 skewedSpec 0 .zeroed)).csr .store
        0x20004000 = true ∧
      ¬ PmpContains true (compartmentArm 2 (compartmentSet 2 skewedSpec 0 .zeroed)).csr
        skewedSpec := by
  have hstore : userAccess true (compartmentArm 2 (compartmentSet 2 skewedSpec 0 .zeroed)).csr
      .store 0x20004000 = true := by decide +kernel
  refine ⟨by decide, hstore, fun h => ?_⟩
  exact absurd ((h.store 0x20004000).mp hstore) (by decide)

end Interclus

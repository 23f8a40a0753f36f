import Interclus.Supervisor.Boot

/-! # The Restore Loop

    After the restore loop of `boot_main` a native slot is either restored
    from its mirror page or what it was before the loop.  The loop writes
    the table entry and the slot text before its gate decides, so this is
    so exactly for the pages `RestorePage` describes. -/

namespace Interclus

open Words

/-! ## Mirror pages -/

/-- The mirror page of slot `k`. -/
def mirrorOf (mirror : Mem) (k : Fin 2) : Mem := fun i => mirror (mirBase (BitVec.ofNat 32 k) + i)

def mirrorMagic (mirror : Mem) (k : Fin 2) : U32 := le32 (mirrorOf mirror k) 0
def mirrorLen (mirror : Mem) (k : Fin 2) : U32 := le32 (mirrorOf mirror k) 8
def mirrorEntry (mirror : Mem) (k : Fin 2) : U32 := le32 (mirrorOf mirror k) 12

theorem clampLen_eq_zero_iff {cap : U32} (hcap : cap ≠ 0) (len : U32) :
    clampLen cap len = 0 ↔ len = 0 := by
  unfold clampLen
  split
  · next h =>
    constructor
    · intro h0
      exact absurd h0 hcap
    · rintro rfl
      bv_omega
  · rfl

/-- Reading a page without the magic touches nothing. -/
theorem flashMirrorRead_blank {mirror : Mem} {k : Fin 2} (h : mirrorMagic mirror k ≠ MIR_MAGIC)
    (out : Mem) (cap entry : U32) :
    flashMirrorRead mirror (BitVec.ofNat 32 k) out cap entry = ⟨0, out, entry⟩ := by
  unfold flashMirrorRead
  rw [if_neg (by bv_omega)]
  exact if_pos h

/-- Reading a page with the magic. -/
theorem flashMirrorRead_magic {mirror : Mem} {k : Fin 2} (h : mirrorMagic mirror k = MIR_MAGIC)
    (out : Mem) (cap entry : U32) :
    flashMirrorRead mirror (BitVec.ofNat 32 k) out cap entry =
      ⟨clampLen cap (mirrorLen mirror k),
       fun i => if i < (clampLen cap (mirrorLen mirror k)).toNat then mirrorOf mirror k (16 + i)
         else out i,
       mirrorEntry mirror k⟩ := by
  unfold flashMirrorRead
  rw [if_neg (by bv_omega)]
  exact if_neg (not_not.mpr h)

/-! ## The descriptor gate -/

/-- The windows of both native slots are well formed. -/
theorem natSpec_regionOk (t : Target) (k : Fin 2) :
    regionOk (natSpec t k).textBase 0x1000 = true ∧
      regionOk (natSpec t k).sramBase 0x1000 = true := by
  have hall : ∀ k : Fin 2, ∀ t ∈ [Target.qemu, .board],
      regionOk (natSpec t k).textBase 0x1000 = true ∧
        regionOk (natSpec t k).sramBase 0x1000 = true := by
    decide
  exact hall k t (by cases t <;> simp)

/-- So the gate of a native descriptor is the check of its entry. -/
theorem icModuleCheck_natDesc (t : Target) (k : Fin 2) (entry : U32) :
    icModuleCheck (some (natDesc t k entry)) = .ok ↔ entry &&& 1 = 0 ∧ entry < 0x1000 := by
  obtain ⟨htext, hsram⟩ := natSpec_regionOk t k
  have hcheck : icModuleCheck (some (natDesc t k entry)) = checkNative (natDesc t k entry) := by
    simp [icModuleCheck, natDesc, IC_MODULE_NATIVE, IC_MODULE_EBPF]
  rw [hcheck]
  unfold checkNative natDesc
  simp only [htext, hsram, not_true_eq_false, if_false]
  constructor
  · intro h
    split at h
    · cases h
    · next hn =>
      rw [not_or, not_not, BitVec.not_le] at hn
      exact hn
  · rintro ⟨heven, hlt⟩
    exact if_neg (not_or.mpr ⟨not_not.mpr heven, BitVec.not_le.mpr hlt⟩)

/-! ## One iteration -/

/-- Slot `k` got its mirrored module. -/
structure SlotRestored (s s' : Sup) (k : Fin 2) : Prop where
  len : (s'.nat k).len = clampLen MIR_CODE_MAX (mirrorLen s.mirror k)
  len_ne_zero : (s'.nat k).len ≠ 0
  entry_even : (s'.nat k).entry &&& 1 = 0
  entry_lt : (s'.nat k).entry < 0x1000
  text : ∀ i < (s'.nat k).len.toNat, s'.natText k i = mirrorOf s.mirror k (16 + i)
  valid : (s'.nat k).valid = true

/-- Slot `k` did not move. -/
structure SlotKept (s s' : Sup) (k : Fin 2) : Prop where
  nat : s'.nat k = s.nat k
  text : s'.natText k = s.natText k

/-- What an iteration leaves alone besides slot `k`. -/
structure RestoreFrame (s s' : Sup) (k : Fin 2) : Prop where
  mirror : s'.mirror = s.mirror
  nat : ∀ j ≠ k, s'.nat j = s.nat j
  text : ∀ j ≠ k, s'.natText j = s.natText j

/-- What is said of slot `k` survives an iteration for another slot. -/
theorem SlotRestored.frame {s s₁ s₂ : Sup} {j k : Fin 2} (h : SlotRestored s s₁ k)
    (hf : RestoreFrame s₁ s₂ j) (hne : k ≠ j) : SlotRestored s s₂ k := by
  refine ⟨?_, ?_, ?_, ?_, fun i hi => ?_, ?_⟩ <;> rw [hf.nat k hne] at *
  · exact h.len
  · exact h.len_ne_zero
  · exact h.entry_even
  · exact h.entry_lt
  · rw [hf.text k hne]
    exact h.text i hi
  · exact h.valid

/-- Being restored depends on the mirror of the state before only. -/
theorem SlotRestored.of_mirror {s s₁ s' : Sup} {k : Fin 2} (h : SlotRestored s₁ s' k)
    (hm : s₁.mirror = s.mirror) : SlotRestored s s' k :=
  ⟨hm ▸ h.len, h.len_ne_zero, h.entry_even, h.entry_lt, hm ▸ h.text, h.valid⟩

/-- The pages the loop treats as all or nothing: blank, consistently empty,
    or admitted by the gate. -/
def RestorePage (mirror : Mem) (k : Fin 2) : Prop :=
  mirrorMagic mirror k ≠ MIR_MAGIC ∨
  (mirrorLen mirror k = 0 ∧ mirrorEntry mirror k = 0) ∨
  (mirrorLen mirror k ≠ 0 ∧ mirrorEntry mirror k &&& 1 = 0 ∧ mirrorEntry mirror k < 0x1000)

theorem restoreSlot_frame (b : Build) (s : Sup) (k : Fin 2) :
    RestoreFrame s (restoreSlot b s k) k := by
  unfold restoreSlot
  dsimp only
  split
  · exact ⟨rfl, fun j hj => if_neg hj, fun j hj => if_neg hj⟩
  · split
    · exact ⟨rfl, fun j hj => if_neg hj, fun j hj => if_neg hj⟩
    · exact ⟨rfl, fun j hj => (if_neg hj).trans (if_neg hj), fun j hj => if_neg hj⟩

/-- A blank page. -/
theorem restoreSlot_blank {b : Build} {s : Sup} {k : Fin 2}
    (h : mirrorMagic s.mirror k ≠ MIR_MAGIC) :
    SlotKept s (restoreSlot b s k) k ∧ (restoreSlot b s k).natLive = s.natLive := by
  unfold restoreSlot
  rw [flashMirrorRead_blank h]
  exact ⟨⟨if_pos rfl, if_pos rfl⟩, rfl⟩

/-- A page the magic admits and the length or the gate does not: the entry
    word has moved all the same. -/
theorem restoreSlot_refused {b : Build} {s : Sup} {k : Fin 2}
    (hmagic : mirrorMagic s.mirror k = MIR_MAGIC)
    (h : mirrorLen s.mirror k = 0 ∨
      ¬ (mirrorEntry s.mirror k &&& 1 = 0 ∧ mirrorEntry s.mirror k < 0x1000)) :
    (restoreSlot b s k).nat k = { s.nat k with entry := mirrorEntry s.mirror k } ∧
      (restoreSlot b s k).natLive = s.natLive ∧
      (mirrorLen s.mirror k = 0 → (restoreSlot b s k).natText k = s.natText k) := by
  have hentry : ∀ text, (((s.setNat k { s.nat k with entry := mirrorEntry s.mirror k }).setText k
      text).nat k) = { s.nat k with entry := mirrorEntry s.mirror k } := fun _ => if_pos rfl
  unfold restoreSlot
  rw [flashMirrorRead_magic hmagic]
  dsimp only
  rw [hentry]
  split
  · next hlen =>
    refine ⟨hentry _, rfl, fun _ => ?_⟩
    rw [Sup.setText_natText, hlen]
    exact funext fun i => if_neg (Nat.not_lt_zero i)
  · next hlen =>
    rw [clampLen_eq_zero_iff (by decide)] at hlen
    split
    · exact ⟨if_pos rfl, rfl, fun h0 => absurd h0 hlen⟩
    · next hgate =>
      rw [not_not, icModuleCheck_natDesc] at hgate
      exact absurd hgate (h.resolve_left hlen)

/-- The page brings its module back. -/
structure PageRestores (mirror : Mem) (k : Fin 2) : Prop where
  magic : mirrorMagic mirror k = MIR_MAGIC
  len : mirrorLen mirror k ≠ 0
  even : mirrorEntry mirror k &&& 1 = 0
  lt : mirrorEntry mirror k < 0x1000

/-- Length, entry and code are those of the page; only then is the slot
    valid. -/
theorem restoreSlot_slot {b : Build} {s : Sup} {k : Fin 2} (h : PageRestores s.mirror k) :
    (restoreSlot b s k).nat k =
        ⟨clampLen MIR_CODE_MAX (mirrorLen s.mirror k), mirrorEntry s.mirror k, true, false⟩ ∧
      (∀ i < (clampLen MIR_CODE_MAX (mirrorLen s.mirror k)).toNat,
        (restoreSlot b s k).natText k i = mirrorOf s.mirror k (16 + i)) ∧
      (restoreSlot b s k).natLive = k := by
  have hne : clampLen MIR_CODE_MAX (mirrorLen s.mirror k) ≠ 0 :=
    mt (clampLen_eq_zero_iff (by decide) _).mp h.len
  have hentry : ∀ text, (((s.setNat k { s.nat k with entry := mirrorEntry s.mirror k }).setText k
      text).nat k) = { s.nat k with entry := mirrorEntry s.mirror k } := fun _ => if_pos rfl
  have hgate := (icModuleCheck_natDesc b.target k _).mpr ⟨h.even, h.lt⟩
  unfold restoreSlot
  rw [flashMirrorRead_magic h.magic]
  dsimp only
  rw [hentry, if_neg hne, if_neg (not_not.mpr hgate)]
  refine ⟨Sup.setNat_nat _ _ _, fun i hi => ?_, rfl⟩
  exact (congrFun (Sup.setText_natText _ _ _) i).trans (if_pos hi)

/-- A page both the length and the gate admit. -/
theorem restoreSlot_restored {b : Build} {s : Sup} {k : Fin 2} (h : PageRestores s.mirror k) :
    SlotRestored s (restoreSlot b s k) k ∧ (restoreSlot b s k).natLive = k := by
  obtain ⟨hnat, htext, hlive⟩ := restoreSlot_slot (b := b) h
  refine ⟨⟨?_, ?_, ?_, ?_, fun i hi => ?_, ?_⟩, hlive⟩
  · rw [hnat]
  · rw [hnat]
    exact mt (clampLen_eq_zero_iff (by decide) _).mp h.len
  · rw [hnat]
    exact h.even
  · rw [hnat]
    exact h.lt
  · rw [hnat] at hi
    exact htext i hi
  · rw [hnat]

/-! ## The loop -/

/-- Slot `k` was accepted: restored, and live unless the later slot was
    restored too. -/
def SlotAccepted (s s' : Sup) (k : Fin 2) : Prop :=
  SlotRestored s s' k ∧
    (s'.natLive = k ∨ (k < s'.natLive ∧ SlotRestored s s' s'.natLive))

/-- The built-in demo, intact and enterable at its own entry. -/
def DemoIntact (b : Build) (s : Sup) : Prop :=
  s.nat 0 = ⟨b.demoLen, 0, true, false⟩ ∧ ∀ i < b.demoLen.toNat, s.natText 0 i = b.demo i

/-- All or nothing for slot `k`, from the state before the loop to the one
    after it. -/
def SlotAtomic (b : Build) (s s' : Sup) (k : Fin 2) : Prop :=
  SlotAccepted s s' k ∨ (SlotKept s s' k ∧ (k = 0 → DemoIntact b s'))

theorem natBuiltin_nat (b : Build) (s : Sup) (k : Fin 2) :
    (natBuiltin b s).nat k = if k = 0 then ⟨b.demoLen, 0, true, false⟩ else ⟨0, 0, false, false⟩ := by
  revert k
  rw [Fin.forall_fin_two]
  exact ⟨rfl, rfl⟩

theorem natBuiltin_mirror (b : Build) (s : Sup) : (natBuiltin b s).mirror = s.mirror := by
  simp only [natBuiltin, Sup.setNat, Sup.setText]

theorem natBuiltin_entry (b : Build) (s : Sup) (k : Fin 2) : ((natBuiltin b s).nat k).entry = 0 := by
  rw [natBuiltin_nat]
  split <;> rfl

theorem SlotKept.demoIntact {b : Build} {s s' : Sup} (h : SlotKept (natBuiltin b s) s' 0) :
    DemoIntact b s' := by
  refine ⟨h.nat, fun i hi => ?_⟩
  rw [h.text]
  exact if_pos hi

/-- Only the entry of slot `k` moved, to the mirrored one. -/
def SlotTorn (s s' : Sup) (k : Fin 2) : Prop :=
  s'.nat k = { s.nat k with entry := mirrorEntry s.mirror k }

/-- How an iteration can end for slot `k`. -/
def SlotOutcome (s s' : Sup) (k : Fin 2) : Prop :=
  (RestorePage s.mirror k ∧ SlotRestored s s' k) ∨
  (RestorePage s.mirror k ∧ SlotKept s s' k) ∨
  (¬ RestorePage s.mirror k ∧ SlotTorn s s' k)

/-- An iteration from a state whose entry of slot `k` is still 0. -/
theorem restoreSlot_outcome {b : Build} {s : Sup} {k : Fin 2} (hentry : (s.nat k).entry = 0) :
    SlotOutcome s (restoreSlot b s k) k ∧
      ((SlotRestored s (restoreSlot b s k) k ∧ (restoreSlot b s k).natLive = k) ∨
        ((restoreSlot b s k).natLive = s.natLive ∧
          ((restoreSlot b s k).nat k).len = (s.nat k).len)) := by
  by_cases hmagic : mirrorMagic s.mirror k = MIR_MAGIC
  · by_cases hgate : mirrorEntry s.mirror k &&& 1 = 0 ∧ mirrorEntry s.mirror k < 0x1000
    · by_cases hlen : mirrorLen s.mirror k = 0
      · obtain ⟨hnat, hlive, htext⟩ := restoreSlot_refused (b := b) hmagic (.inl hlen)
        refine ⟨.inr ?_, .inr ⟨hlive, by rw [hnat]⟩⟩
        by_cases h0 : mirrorEntry s.mirror k = 0
        · exact .inl ⟨.inr (.inl ⟨hlen, h0⟩), by rw [hnat, h0, ← hentry], htext hlen⟩
        · refine .inr ⟨?_, hnat⟩
          rintro (h | h | h)
          · exact h hmagic
          · exact h0 h.2
          · exact h.1 hlen
      · obtain ⟨hslot, hlive⟩ := restoreSlot_restored (b := b) ⟨hmagic, hlen, hgate.1, hgate.2⟩
        exact ⟨.inl ⟨.inr (.inr ⟨hlen, hgate⟩), hslot⟩, .inl ⟨hslot, hlive⟩⟩
    · obtain ⟨hnat, hlive, -⟩ := restoreSlot_refused (b := b) hmagic (.inr hgate)
      refine ⟨.inr (.inr ⟨?_, hnat⟩), .inr ⟨hlive, by rw [hnat]⟩⟩
      rintro (h | h | h)
      · exact h hmagic
      · exact hgate (by rw [h.2]; decide)
      · exact hgate h.2
  · obtain ⟨hkept, hlive⟩ := restoreSlot_blank (b := b) hmagic
    exact ⟨.inr (.inl ⟨.inl hmagic, hkept⟩), .inr ⟨hlive, by rw [hkept.nat]⟩⟩

/-- A torn slot is neither restored nor kept. -/
theorem SlotTorn.not_atomic {s s' : Sup} {k : Fin 2} (h : SlotTorn s s' k)
    (hpage : ¬ RestorePage s.mirror k) (hentry : (s.nat k).entry = 0) :
    ¬ SlotRestored s s' k ∧ ¬ SlotKept s s' k := by
  have hentry' : (s'.nat k).entry = mirrorEntry s.mirror k := by rw [h]
  constructor
  · intro hr
    have hlen : mirrorLen s.mirror k ≠ 0 :=
      mt (clampLen_eq_zero_iff (by decide) _).mpr (hr.len ▸ hr.len_ne_zero)
    exact hpage (.inr (.inr ⟨hlen, hentry' ▸ hr.entry_even, hentry' ▸ hr.entry_lt⟩))
  · intro hk
    have h0 : mirrorEntry s.mirror k = 0 := by rw [← hentry', hk.nat, hentry]
    by_cases hlen : mirrorLen s.mirror k = 0
    · exact hpage (.inr (.inl ⟨hlen, h0⟩))
    · exact hpage (.inr (.inr ⟨hlen, by rw [h0]; decide, by rw [h0]; decide⟩))

theorem bootRestore_eq (b : Build) (s : Sup) :
    bootRestore b s = restoreSlot b (restoreSlot b s 0) 1 := rfl

/-- Both slots, from before the loop to after it. -/
theorem bootRestore_outcome (b : Build) (s : Sup) (k : Fin 2) :
    SlotOutcome (natBuiltin b s) (bootRestore b (natBuiltin b s)) k := by
  have h01 : (0 : Fin 2) ≠ 1 := by decide
  have hf₀ := restoreSlot_frame b (natBuiltin b s) 0
  have hf₁ := restoreSlot_frame b (restoreSlot b (natBuiltin b s) 0) 1
  rw [bootRestore_eq]
  revert k
  rw [Fin.forall_fin_two]
  constructor
  · -- slot 0: its own iteration, then one that leaves it alone
    rcases (restoreSlot_outcome (b := b) (natBuiltin_entry b s 0)).1 with ⟨hp, h⟩ | ⟨hp, h⟩ | ⟨hp, h⟩
    · exact .inl ⟨hp, h.frame hf₁ h01⟩
    · exact .inr (.inl ⟨hp, (hf₁.nat 0 h01).trans h.nat, (hf₁.text 0 h01).trans h.text⟩)
    · exact .inr (.inr ⟨hp, (hf₁.nat 0 h01).trans h⟩)
  · -- slot 1: an iteration that leaves it alone, then its own
    have hnat₁ := hf₀.nat 1 h01.symm
    have hentry : ((restoreSlot b (natBuiltin b s) 0).nat 1).entry = 0 := by
      rw [hnat₁, natBuiltin_entry]
    have hout := (restoreSlot_outcome (b := b) hentry).1
    unfold SlotOutcome at hout
    rw [hf₀.mirror] at hout
    rcases hout with ⟨hp, h⟩ | ⟨hp, h⟩ | ⟨hp, h⟩
    · exact .inl ⟨hp, h.of_mirror hf₀.mirror⟩
    · exact .inr (.inl ⟨hp, h.nat.trans hnat₁, h.text.trans (hf₀.text 1 h01.symm)⟩)
    · refine .inr (.inr ⟨hp, ?_⟩)
      unfold SlotTorn at h ⊢
      rw [h, hnat₁, hf₀.mirror]

/-- Slot 1 is live after the loop exactly when it was restored. -/
theorem bootRestore_natLive (b : Build) (s : Sup) :
    let s' := bootRestore b (natBuiltin b s)
    (s'.natLive = 1 ∧ SlotRestored (natBuiltin b s) s' 1) ∨
      (s'.natLive = 0 ∧ ¬ SlotRestored (natBuiltin b s) s' 1) := by
  intro s'
  have hf₀ := restoreSlot_frame b (natBuiltin b s) 0
  have hlive₀ : (restoreSlot b (natBuiltin b s) 0).natLive = 0 := by
    rcases (restoreSlot_outcome (b := b) (natBuiltin_entry b s 0)).2 with ⟨-, h⟩ | ⟨h, -⟩
    · exact h
    · exact h
  have hnat₁ := hf₀.nat 1 (by decide)
  have hentry : ((restoreSlot b (natBuiltin b s) 0).nat 1).entry = 0 := by
    rw [hnat₁, natBuiltin_entry]
  rcases (restoreSlot_outcome (b := b) hentry).2 with ⟨h, hlive⟩ | ⟨hlive, hlen⟩
  · exact .inl ⟨hlive, h.of_mirror hf₀.mirror⟩
  · refine .inr ⟨hlive.trans hlive₀, fun hr => hr.len_ne_zero ?_⟩
    show ((restoreSlot b (restoreSlot b (natBuiltin b s) 0) 1).nat 1).len = 0
    rw [hlen, hnat₁]
    rfl

/-- The restore loop is all or nothing for a slot exactly when its page is
    one of `RestorePage`: a page with the magic whose length is zero and
    whose entry is not, or whose entry the gate refuses, moves the entry of
    the slot and keeps the rest of the table. -/
theorem bootRestore_slotAtomic_iff (b : Build) (s : Sup) (k : Fin 2) :
    SlotAtomic b (natBuiltin b s) (bootRestore b (natBuiltin b s)) k ↔ RestorePage s.mirror k := by
  have hout := bootRestore_outcome b s k
  rw [← natBuiltin_mirror b s]
  constructor
  · intro h
    by_contra hp
    rcases hout with ⟨hp', -⟩ | ⟨hp', -⟩ | ⟨-, htorn⟩
    · exact hp hp'
    · exact hp hp'
    · obtain ⟨hnr, hnk⟩ := htorn.not_atomic hp (natBuiltin_entry b s k)
      rcases h with h | h
      · exact hnr h.1
      · exact hnk h.1
  · intro hp
    rcases hout with ⟨-, hr⟩ | ⟨-, hk⟩ | ⟨hp', -⟩
    · refine .inl ⟨hr, ?_⟩
      -- restored; slot 1 goes live behind slot 0
      rcases bootRestore_natLive b s with ⟨hlive, h1⟩ | ⟨hlive, h1⟩
      · by_cases hk : k = 1
        · exact .inl (hlive.trans hk.symm)
        · exact .inr ⟨by rw [hlive]; omega, hlive ▸ h1⟩
      · by_cases hk : k = 1
        · exact absurd (hk ▸ hr) h1
        · exact .inl (by rw [hlive]; omega)
    · refine .inr ⟨hk, ?_⟩
      rintro rfl
      exact hk.demoIntact
    · exact absurd hp hp'

/-- A slot-0 page with the magic, no code and an odd entry. -/
def emptyPage : Mem := putLe32 (putLe32 (putLe32 (fun _ => 0) 0 MIR_MAGIC) 8 0) 12 3

/-- On that page the built-in demo loses its entry. -/
theorem emptyPage_not_slotAtomic :
    let s := { Sup.zeroed with mirror := emptyPage }
    let s' := bootRestore (Build.pinning []) (natBuiltin (Build.pinning []) s)
    (s'.nat 0).entry = 3 ∧ ¬ SlotAtomic (Build.pinning []) (natBuiltin (Build.pinning []) s) s' 0 := by
  intro s s'
  have hmagic : mirrorMagic emptyPage 0 = MIR_MAGIC := by decide +kernel
  have hlen : mirrorLen emptyPage 0 = 0 := by decide +kernel
  have hentry : (s'.nat 0).entry = 3 := by
    obtain ⟨hslot, -⟩ := restoreSlot_refused (b := Build.pinning [])
      (s := natBuiltin (Build.pinning []) s) hmagic (.inl hlen)
    have hloop : s'.nat 0 = _ := (restoreSlot_frame (Build.pinning []) _ 1).nat 0 (by decide)
    rw [hloop, hslot]
    decide +kernel
  refine ⟨hentry, ?_⟩
  rintro (h | h)
  · have heven := h.1.entry_even
    rw [hentry] at heven
    exact absurd heven (by decide)
  · have hkept := h.2 rfl
    rw [hkept.1] at hentry
    exact absurd hentry (by decide)

/-! ## Which module comes back live -/

/-- An iteration makes its slot live exactly when the page restores. -/
theorem restoreSlot_live (b : Build) (s : Sup) (k : Fin 2) :
    (PageRestores s.mirror k ∧ (restoreSlot b s k).natLive = k) ∨
      (¬ PageRestores s.mirror k ∧ (restoreSlot b s k).natLive = s.natLive) := by
  by_cases hpage : PageRestores s.mirror k
  · exact .inl ⟨hpage, (restoreSlot_restored hpage).2⟩
  · refine .inr ⟨hpage, ?_⟩
    by_cases hmagic : mirrorMagic s.mirror k = MIR_MAGIC
    · refine (restoreSlot_refused (b := b) hmagic ?_).2.1
      by_contra hgate
      rw [not_or, not_not] at hgate
      exact hpage ⟨hmagic, hgate.1, hgate.2.1, hgate.2.2⟩
    · exact (restoreSlot_blank hmagic).2

/-- Every page that restores does, whatever the other page holds. -/
theorem bootRestore_slot (b : Build) {s : Sup} {k : Fin 2} (h : PageRestores s.mirror k) :
    (bootRestore b (natBuiltin b s)).nat k =
        ⟨clampLen MIR_CODE_MAX (mirrorLen s.mirror k), mirrorEntry s.mirror k, true, false⟩ ∧
      ∀ i < (clampLen MIR_CODE_MAX (mirrorLen s.mirror k)).toNat,
        (bootRestore b (natBuiltin b s)).natText k i = mirrorOf s.mirror k (16 + i) := by
  rw [← natBuiltin_mirror b s] at h ⊢
  rw [bootRestore_eq]
  generalize natBuiltin b s = s₀ at h
  have hf₀ := restoreSlot_frame b s₀ 0
  have hf₁ := restoreSlot_frame b (restoreSlot b s₀ 0) 1
  revert k
  rw [Fin.forall_fin_two]
  constructor
  · -- slot 0: its own iteration, then one that leaves it alone
    intro h
    obtain ⟨hnat, htext, -⟩ := restoreSlot_slot (b := b) h
    rw [hf₁.nat 0 (by decide), hf₁.text 0 (by decide)]
    exact ⟨hnat, htext⟩
  · -- slot 1: the other way round
    intro h
    rw [← hf₀.mirror] at h ⊢
    obtain ⟨hnat, htext, -⟩ := restoreSlot_slot (b := b) h
    exact ⟨hnat, htext⟩

/-- The pages carry no order: slot 1 comes back live whenever its page
    restores. -/
theorem bootRestore_live (b : Build) (s : Sup) :
    (PageRestores s.mirror 1 ∧ (bootRestore b (natBuiltin b s)).natLive = 1) ∨
      (¬ PageRestores s.mirror 1 ∧ (bootRestore b (natBuiltin b s)).natLive = 0) := by
  have hbuiltin : (natBuiltin b s).natLive = 0 := by simp only [natBuiltin, Sup.setNat, Sup.setText]
  rw [← natBuiltin_mirror b s, bootRestore_eq]
  generalize natBuiltin b s = s₀ at hbuiltin
  have hlive₀ : (restoreSlot b s₀ 0).natLive = 0 := by
    rcases restoreSlot_live b s₀ 0 with ⟨-, h⟩ | ⟨-, h⟩
    · exact h
    · exact h.trans hbuiltin
  have hlast := restoreSlot_live b (restoreSlot b s₀ 0) 1
  rw [(restoreSlot_frame b s₀ 0).mirror] at hlast
  rcases hlast with ⟨hpage, hlive⟩ | ⟨hpage, hlive⟩
  · exact .inl ⟨hpage, hlive⟩
  · exact .inr ⟨hpage, hlive.trans hlive₀⟩

end Interclus

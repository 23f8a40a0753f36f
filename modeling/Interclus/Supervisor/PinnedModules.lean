import Interclus.Supervisor.NativeSlots
import Interclus.Supervisor.PendDecision
import Interclus.Supervisor.RebootOrder

/-! # Only Pinned Modules

    Where the code that can run came from: until the next boot, every
    program and every native module is the one the boot found, or one whose
    digest, as `sign_module.py` computes it, is on the trust list. -/

namespace Interclus

open Words LTS

/-! ## Packing what is there -/

theorem windowHolds_append {pend : Mem} {l l' : List U8} (h : WindowHolds pend l)
    (h' : WindowHolds (fun i => pend (l.length + i)) l') : WindowHolds pend (l ++ l') := by
  intro i hi
  by_cases hlow : i < l.length
  · rw [listMem_append_left hlow]
    exact h i hlow
  · obtain ⟨j, rfl⟩ := Nat.exists_eq_add_of_le (Nat.le_of_not_lt hlow)
    rw [List.length_append] at hi
    rw [listMem_append_right]
    exact h' j (by omega)

theorem windowHolds_word (m : Mem) : WindowHolds m (packLe 4 (le32 m 0)) := by
  intro k hk
  rw [length_packLe] at hk
  have hpacked := listMem_packLe (v := le32 m 0) [] [] hk
  have hbyte := byteOf_le32 m 0 hk
  rw [List.nil_append, List.append_nil, List.length_nil, Nat.zero_add] at hpacked
  rw [Nat.zero_add] at hbyte
  rw [hpacked, hbyte]

theorem windowHolds_insns (m : Mem) (n : Nat) :
    WindowHolds m (packInsns ((List.range n).map (insnWords m))) := by
  intro i hi
  rw [length_packInsns, List.length_map, List.length_range] at hi
  have hk : i / 8 < n := by omega
  have hbyte := packInsns_byte ((List.range n).map (insnWords m)) (i / 8) (q := i % 8)
    (by rwa [List.length_map, List.length_range]) (by omega)
  have hword : ((List.range n).map (insnWords m)).getD (i / 8) 0 = le64 m (8 * (i / 8)) := by
    rw [List.getD_eq_getElem _ _ (by rwa [List.length_map, List.length_range]), List.getElem_map,
      List.getElem_range]
    rfl
  rw [Nat.div_add_mod] at hbyte
  rw [hbyte, hword, byteOf_le64 _ _ (by omega), Nat.div_add_mod]

theorem windowHolds_bytesAt (m : Mem) (n : Nat) : WindowHolds m (bytesAt m 0 n) := by
  intro i hi
  rw [length_bytesAt] at hi
  simp [listMem, bytesAt, hi]

/-- A header of a program image, and the instructions behind it. -/
theorem windowHolds_ebpf {pend : Mem} (hkind : pendKind pend = PEND_EBPF) (n : Nat) :
    WindowHolds pend (SignModule.pendImage 1 (pendW0 pend) 0 0
      (packInsns ((List.range n).map (pendInsns pend)))) := by
  have hheader : WindowHolds pend (packLe 4 (pendW0 pend) ++ packLe 4 PEND_EBPF) := by
    rw [← hkind]
    exact windowHolds_append (windowHolds_word pend) (windowHolds_word fun i => pend (4 + i))
  exact windowHolds_append hheader (windowHolds_insns (fun i => pend (8 + i)) n)

/-- A header of a native image, and the code behind it. -/
theorem windowHolds_native {pend : Mem} (hkind : pendKind pend = PEND_NATIVE) (n : Nat) :
    WindowHolds pend (SignModule.pendImage 2 (pendW0 pend) (pendEntry pend) (pendSlot pend)
      (bytesAt (fun i => pend (16 + i)) 0 n)) := by
  have hheader : WindowHolds pend (packLe 4 (pendW0 pend) ++ packLe 4 PEND_NATIVE ++
      packLe 4 (pendEntry pend) ++ packLe 4 (pendSlot pend)) := by
    rw [← hkind]
    refine windowHolds_append (windowHolds_append (windowHolds_append ?_ ?_) ?_) ?_
    · exact windowHolds_word pend
    · exact windowHolds_word fun i => pend (4 + i)
    · exact windowHolds_word fun i => pend (8 + i)
    · exact windowHolds_word fun i => pend (12 + i)
  exact windowHolds_append hheader (windowHolds_bytesAt (fun i => pend (16 + i)) n)

/-! ## Origins -/

/-- The program the boot window left in the area. -/
structure BootedProgram (area : Mem) (prog : Nat → U64) (cnt : U32) : Prop where
  loads : Loads area
  cnt_eq : cnt = le32 area 4
  words : ∀ i < cnt.toNat, prog i = insnWords (fun j => area (8 + j)) i

/-- A program whose image is pinned. -/
structure SignedProgram (trusted : List Digest) (prog : Nat → U64) (cnt : U32) : Prop where
  cnt_le : cnt ≤ IC_PROG_MAX_INSNS
  pinned : imageSha (SignModule.pendImage 1 cnt 0 0
    (packInsns ((List.range cnt.toNat).map prog))) ∈ trusted

/-- Where the program of a slot came from, if there is one. -/
def ProgramOrigin (b : Build) (area : Mem) (prog : Nat → U64) (cnt : U32) : Prop :=
  cnt ≠ 0 → BootedProgram area prog cnt ∨ SignedProgram b.trusted prog cnt

/-- The module a boot left in the slot. -/
structure BootedModule (booted s : Sup) (k : Fin 2) : Prop where
  valid : (booted.nat k).valid = true
  len : (s.nat k).len = (booted.nat k).len
  entry : (s.nat k).entry = (booted.nat k).entry
  text : ∀ i < (s.nat k).len.toNat, s.natText k i = booted.natText k i

/-- A native module whose image is pinned, for the slot it is in. -/
structure SignedModule (trusted : List Digest) (s : Sup) (k : Fin 2) : Prop where
  len_le : (s.nat k).len ≤ 0x1F0
  pinned : imageSha (SignModule.pendImage 2 (s.nat k).len (s.nat k).entry (BitVec.ofNat 32 k)
    (bytesAt (s.natText k) 0 (s.nat k).len.toNat)) ∈ trusted

def ModuleOrigin (b : Build) (booted s : Sup) (k : Fin 2) : Prop :=
  (s.nat k).valid = true → BootedModule booted s k ∨ SignedModule b.trusted s k

/-- Where everything that can run came from. -/
structure CodeOrigins (b : Build) (area : Mem) (booted s : Sup) : Prop where
  live : ProgramOrigin b area s.mon.prog s.mon.progCnt
  shadow : ProgramOrigin b area s.mon.progB s.mon.progBCnt
  native : ∀ k, ModuleOrigin b booted s k

theorem ProgramOrigin.zero (b : Build) (area : Mem) (prog : Nat → U64) :
    ProgramOrigin b area prog 0 := fun h => absurd rfl h

theorem ProgramOrigin.congr {b : Build} {area : Mem} {prog prog' : Nat → U64} {cnt : U32}
    (h : ProgramOrigin b area prog cnt) (heq : ∀ i < cnt.toNat, prog' i = prog i) :
    ProgramOrigin b area prog' cnt := by
  intro hne
  rcases h hne with hboot | hsigned
  · exact .inl ⟨hboot.loads, hboot.cnt_eq, fun i hi => (heq i hi).trans (hboot.words i hi)⟩
  · refine .inr ⟨hsigned.cnt_le, ?_⟩
    have hwords : (List.range cnt.toNat).map prog' = (List.range cnt.toNat).map prog :=
      List.map_congr_left fun i hi => heq i (List.mem_range.mp hi)
    rw [hwords]
    exact hsigned.pinned

/-- A copy of a slot of 64 words. -/
theorem ProgramOrigin.copy {b : Build} {area : Mem} {prog prog' : Nat → U64} {cnt : U32}
    (h : ProgramOrigin b area prog cnt) (hcopy : ∀ i < 64, prog' i = prog i) :
    ProgramOrigin b area prog' cnt := by
  by_cases hzero : cnt = 0
  · rw [hzero]
    exact .zero b area prog'
  · have hle : cnt ≤ 64 := by
      rcases h hzero with hboot | hsigned
      · rw [hboot.cnt_eq]
        exact hboot.loads.2.2.1
      · exact hsigned.cnt_le
    exact h.congr fun i hi => hcopy i (by bv_omega)

/-! ## What is installed is pinned -/

theorem TrustedImage.sha_mem {trusted : List Digest} {pend : Mem} {n : U32}
    (h : TrustedImage trusted pend n) : sha256 pend n ∈ trusted := by
  obtain ⟨t, ht, hpinned⟩ := h.pinned
  have heq : t = sha256 pend n := funext fun k => (hpinned k).trans (h.digest k).symm
  exact heq ▸ ht

/-- The host's digest of an image the window holds. -/
theorem imageSha_window {pend : Mem} {image : List U8} (h : WindowHolds pend image) {n : U32}
    (hn : n.toNat = image.length) (hlen : image.length + 64 < 2 ^ 32) :
    imageSha image = sha256 pend n := by
  have hof : n = BitVec.ofNat 32 image.length := by
    apply BitVec.eq_of_toNat_eq
    rw [BitVec.toNat_ofNat, Nat.mod_eq_of_lt (by omega), hn]
  unfold imageSha
  rw [← hof]
  exact sha256_congr (by omega) fun i hi => (h i (by omega)).symm

theorem signedProgram_of_gates {b : Build} {pend : Mem} (hkind : pendKind pend = PEND_EBPF)
    (htrust : pendTrusted b.trusted pend = true) :
    SignedProgram b.trusted (pendInsns pend) (pendW0 pend) := by
  obtain ⟨-, hle, himage⟩ := (pendTrusted_ebpf_iff hkind).mp htrust
  refine ⟨hle, ?_⟩
  have hlen : (SignModule.pendImage 1 (pendW0 pend) 0 0 (packInsns
      ((List.range (pendW0 pend).toNat).map (pendInsns pend)))).length =
        8 + 8 * (pendW0 pend).toNat := by
    show (_ ++ _ ++ _ : List U8).length = _
    rw [List.length_append, List.length_append, length_packLe, length_packLe, length_packInsns,
      List.length_map, List.length_range]
  unfold IC_PROG_MAX_INSNS at hle
  rw [imageSha_window (windowHolds_ebpf hkind _) (n := 8 + pendW0 pend * 8)
    (by rw [hlen]; bv_omega) (by rw [hlen]; bv_omega)]
  exact himage.sha_mem

theorem pinned_of_native {b : Build} {pend : Mem} (hkind : pendKind pend = PEND_NATIVE)
    (htrust : pendTrusted b.trusted pend = true) :
    pendW0 pend ≤ 0x1F0 ∧
      imageSha (SignModule.pendImage 2 (pendW0 pend) (pendEntry pend) (pendSlot pend)
        (bytesAt (fun i => pend (16 + i)) 0 (pendW0 pend).toNat)) ∈ b.trusted := by
  obtain ⟨-, hle, himage⟩ := (pendTrusted_native_iff hkind).mp htrust
  refine ⟨hle, ?_⟩
  have hlen : (SignModule.pendImage 2 (pendW0 pend) (pendEntry pend) (pendSlot pend)
      (bytesAt (fun i => pend (16 + i)) 0 (pendW0 pend).toNat)).length =
        16 + (pendW0 pend).toNat := by
    show (_ ++ _ ++ _ ++ _ ++ _ : List U8).length = _
    simp only [List.length_append, length_packLe, length_bytesAt]
  rw [imageSha_window (windowHolds_native hkind _) (n := 16 + pendW0 pend)
    (by rw [hlen]; bv_omega) (by rw [hlen]; bv_omega)]
  exact himage.sha_mem

/-! ## Steps -/

/-- Both native slots hold what they held; strikes and re-arms move the
    eviction mark only. -/
structure SameModules (s s' : Sup) : Prop where
  slot : ∀ k, (s'.nat k).len = (s.nat k).len ∧ (s'.nat k).entry = (s.nat k).entry ∧
    (s'.nat k).valid = (s.nat k).valid
  text : s'.natText = s.natText

theorem SameModules.of_table {s s' : Sup} (htable : s'.natTable = s.natTable)
    (hkept : s'.kept = s.kept) : SameModules s s' := by
  have hnat : s'.nat = s.nat := congrArg NatTable.slot htable
  exact ⟨fun k => by rw [hnat]; exact ⟨rfl, rfl, rfl⟩, congrArg RoundKept.natText hkept⟩

theorem ModuleOrigin.same {b : Build} {booted s s' : Sup} {k : Fin 2}
    (h : ModuleOrigin b booted s k) (hsame : SameModules s s') : ModuleOrigin b booted s' k := by
  obtain ⟨hlen, hentry, hvalid⟩ := hsame.slot k
  intro hv
  rcases h (hvalid.symm.trans hv) with hboot | hsigned
  · refine .inl ⟨hboot.valid, hlen.trans hboot.len, hentry.trans hboot.entry, fun i hi => ?_⟩
    rw [hsame.text]
    rw [hlen] at hi
    exact hboot.text i hi
  · refine .inr ⟨hlen ▸ hsigned.len_le, ?_⟩
    rw [hlen, hentry, hsame.text]
    exact hsigned.pinned

theorem chanPoll_same (frame : Option ConsoleFrame) (s : Sup) :
    SameModules s (chanPoll frame s).2 := by
  refine ⟨fun k => ?_, (chanPoll_kept frame s).1⟩
  cases frame with
  | none => exact ⟨rfl, rfl, rfl⟩
  | some f =>
    have hpolled := framePolled f s
    have hcommand : (pollUpdate f s).2.nat = s.nat := by
      unfold pollUpdate
      dsimp only
      split <;>
      · rw [updateSendReply_eq]
    generalize chanPoll (some f) s = polled at hpolled ⊢
    cases hpolled with
    | command =>
      rw [hcommand]
      exact ⟨rfl, rfl, rfl⟩
    | rearmed tx htype hlen hslot hvalid =>
      -- the slot that is named loses its mark, and nothing else
      by_cases hk : k = slotOf (le32 f.stage 0)
      · subst hk
        show NatSlot.len (if _ then _ else _) = _ ∧ NatSlot.entry (if _ then _ else _) = _ ∧
          NatSlot.valid (if _ then _ else _) = _
        rw [if_pos rfl]
        exact ⟨rfl, rfl, rfl⟩
      · show NatSlot.len (if _ then _ else _) = _ ∧ NatSlot.entry (if _ then _ else _) = _ ∧
          NatSlot.valid (if _ then _ else _) = _
        rw [if_neg hk]
        exact ⟨rfl, rfl, rfl⟩
    | _ => exact ⟨rfl, rfl, rfl⟩

/-- A strike sets a mark. -/
theorem supervisorFault_same (b : Build) (cause : U32) (s : Sup) :
    SameModules s (supervisorFault b cause s) := by
  have hkept := supervisorFault_kept b cause s
  have htable := supervisorFault_natTable (b := b) cause s
  split at htable
  · refine ⟨fun k => ?_, congrArg RoundKept.natText hkept⟩
    have hslot : (supervisorFault b cause s).nat = s.natTable.struck :=
      (congrArg NatTable.slot htable).trans (NatTable.strike_slot _)
    rw [hslot]
    unfold NatTable.struck
    split
    · next hk =>
      rw [hk]
      exact ⟨rfl, rfl, rfl⟩
    · exact ⟨rfl, rfl, rfl⟩
  · exact .of_table htable hkept

/-- `hot_swap` installs what is pinned, or leaves the slot. -/
theorem hotSwap_modules {b : Build} {booted s s' : Sup} (h : hotSwap b s = some s') {k : Fin 2}
    (horigin : ModuleOrigin b booted s k) : ModuleOrigin b booted s' k := by
  rcases hotSwap_cases b s with ⟨-, hs⟩ | ⟨-, hs⟩ | ⟨-, hkind, ht, hg, hs⟩ | ⟨-, -, -, -, hs⟩ <;>
    rw [hs] at h
  · cases h
    exact horigin
  · cases h
    exact horigin.same ⟨fun _ => ⟨rfl, rfl, rfl⟩, rfl⟩
  · obtain ⟨s₁, hs₁, rfl⟩ := Option.map_eq_some_iff.mp h
    have hmoved := installNative_installed hs₁
    obtain ⟨hle, hpinned⟩ := pinned_of_native hkind ht
    obtain ⟨-, -, -, -, hslot⟩ := nativeGate_bounds hg
    by_cases hk : k = slotOf (pendSlot s.pend)
    · -- the slot of the image, with its code
      intro _
      have hnat : (hotAccept s₁).nat k = ⟨pendW0 s.pend, pendEntry s.pend, true, false⟩ := by
        rw [hk]
        exact hmoved.nat
      have hcode : bytesAt ((hotAccept s₁).natText k) 0 (pendW0 s.pend).toNat =
          bytesAt (fun i => s.pend (16 + i)) 0 (pendW0 s.pend).toNat := by
        refine bytesAt_congr fun i hi => ?_
        rw [Nat.zero_add, hk]
        exact (congrFun hmoved.text i).trans (if_pos hi)
      right
      constructor
      · rw [hnat]
        exact hle
      · rw [hnat]
        dsimp only
        rw [hcode, hk, ← eq_slotOf hslot]
        exact hpinned
    · obtain ⟨hnat, htext⟩ := hmoved.other k hk
      intro hv
      have hnat : (hotAccept s₁).nat k = s.nat k := hnat
      have htext : (hotAccept s₁).natText k = s.natText k := htext
      rw [hnat] at hv
      rcases horigin hv with hboot | hsigned
      · refine .inl ⟨hboot.valid, ?_, ?_, fun i hi => ?_⟩
        · rw [hnat, hboot.len]
        · rw [hnat, hboot.entry]
        · rw [hnat] at hi
          rw [htext, hboot.text i hi]
      · refine .inr ⟨?_, ?_⟩
        · rw [hnat]
          exact hsigned.len_le
        · rw [hnat, htext]
          exact hsigned.pinned
  · cases h
    exact horigin.same ⟨fun _ => ⟨rfl, rfl, rfl⟩, rfl⟩

theorem hotSwap_programs {b : Build} {area : Mem} {s s' : Sup} (h : hotSwap b s = some s')
    (hlive : ProgramOrigin b area s.mon.prog s.mon.progCnt)
    (hshadow : ProgramOrigin b area s.mon.progB s.mon.progBCnt) :
    ProgramOrigin b area s'.mon.prog s'.mon.progCnt ∧
      ProgramOrigin b area s'.mon.progB s'.mon.progBCnt := by
  rcases hotSwap_cases b s with ⟨-, hs⟩ | ⟨-, hs⟩ | ⟨-, -, -, -, hs⟩ | ⟨-, hk, ht, hg, hs⟩ <;>
    rw [hs] at h
  · cases h
    exact ⟨hlive, hshadow⟩
  · cases h
    exact ⟨hlive, hshadow⟩
  · obtain ⟨s₁, hs₁, rfl⟩ := Option.map_eq_some_iff.mp h
    show ProgramOrigin b area s₁.mon.prog s₁.mon.progCnt ∧
      ProgramOrigin b area s₁.mon.progB s₁.mon.progBCnt
    rw [(installNative_installed hs₁).mon]
    exact ⟨hlive, hshadow⟩
  · cases h
    have hsigned : ProgramOrigin b area (pendInsns s.pend) (pendW0 s.pend) := fun _ =>
      .inr (signedProgram_of_gates hk ht)
    exact ⟨hsigned.congr fun i hi => if_pos hi, hlive.copy fun i hi => if_pos hi⟩

theorem rollback_programs {b : Build} {area : Mem} {s : Sup}
    (hlive : ProgramOrigin b area s.mon.prog s.mon.progCnt)
    (hshadow : ProgramOrigin b area s.mon.progB s.mon.progBCnt) :
    ProgramOrigin b area (rollback s).mon.prog (rollback s).mon.progCnt ∧
      ProgramOrigin b area (rollback s).mon.progB (rollback s).mon.progBCnt := by
  unfold rollback
  split
  · by_cases hb : s.mon.progBCnt ≠ 0
    · simp only [if_pos hb]
      exact ⟨hshadow.copy fun i hi => if_pos hi, .zero _ _ _⟩
    · simp only [if_neg hb]
      exact ⟨.zero _ _ _, hshadow⟩
  · exact ⟨hlive, hshadow⟩

/-! ## Whole runs -/

def Event.isReset : Event → Bool
  | .reset .. => true
  | _ => false

/-- Where the programs came from. -/
def ProgSlots.Origin (b : Build) (area : Mem) (p : ProgSlots) : Prop :=
  ProgramOrigin b area p.prog p.progCnt ∧ ProgramOrigin b area p.progB p.progBCnt

section Steps
variable {b : Build} {area : Mem} {booted s s' : Sup}

theorem machineStep_programs {e : Event} (he : e.isReset = false) (h : machineStep b s e = some s')
    (hinv : s.carried.slots.Origin b area) : s'.carried.slots.Origin b area := by
  cases machineStep_moved h with
  | user u eff =>
    rw [UserEffect.apply_carried]
    exact hinv
  | ecall u regs =>
    unfold trapEcall
    rcases supervisorResume_carried b { s with comp := saveTcb regs s.comp } with hs | hs <;> rw [hs]
    · exact hinv
    · exact rollback_programs hinv.1 hinv.2
  | fault =>
    rw [trapFault_carried]
    exact hinv
  | turn seen frame s' _ hturn =>
    obtain ⟨s₁, hs₁, rfl⟩ := Option.map_eq_some_iff.mp hturn
    have hpolled : (chanPoll frame s).2.mon.slots.Origin b area := by
      rw [chanPoll_mon]
      exact hinv
    rw [endTurn_carried]
    show (hotUpdateFinalize s₁).mon.slots.Origin b area
    rw [hotUpdateFinalize_mon]
    exact hotSwap_programs hs₁ hpolled.1 hpolled.2
  | poll frame =>
    show (chanPoll frame s).2.mon.slots.Origin b area
    rw [chanPoll_mon]
    exact hinv
  | swap s' _ hswap => exact hotSwap_programs hswap hinv.1 hinv.2
  | finalize =>
    show (hotUpdateFinalize s).mon.slots.Origin b area
    rw [hotUpdateFinalize_mon]
    exact hinv
  | round =>
    rw [hotRound_carried]
    exact hinv
  | beat => exact hinv
  | stage => exact hinv
  | reset => cases he

theorem hotUpdateFinalize_same (s : Sup) : SameModules s (hotUpdateFinalize s) :=
  .of_table (hotUpdateFinalize_natTable s) (hotUpdateFinalize_kept s)

theorem machineStep_modules {e : Event} (he : e.isReset = false) (h : machineStep b s e = some s')
    {k : Fin 2} (hinv : ModuleOrigin b booted s k) : ModuleOrigin b booted s' k := by
  cases machineStep_moved h with
  | user u eff => cases eff <;> exact hinv.same ⟨fun _ => ⟨rfl, rfl, rfl⟩, rfl⟩
  | ecall u regs =>
    refine hinv.same (.of_table ?_ ?_)
    · exact supervisorResume_natTable _
    · exact supervisorResume_kept b _
  | fault u cause addr regs =>
    have hsame := supervisorFault_same b cause
      { ringRecord cause addr s with comp := saveTcb regs s.comp }
    exact hinv.same ⟨hsame.slot, hsame.text⟩
  | turn seen frame s' _ hturn =>
    obtain ⟨s₁, hs₁, rfl⟩ := Option.map_eq_some_iff.mp hturn
    have hswapped := hotSwap_modules hs₁ (hinv.same (chanPoll_same frame s))
    have hend := SameModules.of_table (endTurn_natTable (b := b) seen (chanPoll frame s).1
      (hotUpdateFinalize s₁)) (endTurn_kept b seen (chanPoll frame s).1 (hotUpdateFinalize s₁))
    exact (hswapped.same (hotUpdateFinalize_same s₁)).same hend
  | poll frame => exact hinv.same (chanPoll_same frame s)
  | swap s' _ hswap => exact hotSwap_modules hswap hinv
  | finalize => exact hinv.same (hotUpdateFinalize_same s)
  | round => exact hinv.same (.of_table (hotRound_natTable s) (scheduleRound_kept b _))
  | beat => exact hinv.same ⟨fun _ => ⟨rfl, rfl, rfl⟩, rfl⟩
  | stage => exact hinv.same ⟨fun _ => ⟨rfl, rfl, rfl⟩, rfl⟩
  | reset => cases he

end Steps

/-- What boot loads is what the boot window left in the area. -/
theorem bootMain_area (b : Build) (input : BootInput) (raw : Sup) :
    ∃ s₁ : Sup, s₁.progArea = (uartLoad input.frame raw).progArea ∧
      (bootMain b input raw).mon.slots = (loadProgram b s₁).mon.slots := by
  have hrestore : ∀ (s : Sup) (k : Fin 2), (restoreSlot b s k).mon = s.mon := by
    intro s k
    unfold restoreSlot
    dsimp only
    split
    · rfl
    · split <;> rfl
  have hloop : ∀ s : Sup, (bootRestore b s).mon.slots = s.mon.slots := fun s =>
    congrArg MonBox.slots ((hrestore _ 1).trans (hrestore s 0))
  have hframe : ∀ s : Sup, s.progArea = raw.progArea →
      (uartLoad input.frame s).progArea = (uartLoad input.frame raw).progArea := by
    intro s harea
    unfold uartLoad
    split
    · exact harea
    · rw [harea]
  have hstatus : ∀ s : Sup, (bootStatus b input s).progArea = s.progArea := by
    intro s
    unfold bootStatus
    dsimp only
    split <;> rfl
  unfold bootMain
  simp only [bootGate_eq_zero, ne_eq, not_true_eq_false, if_false]
  generalize bootFuzz 2048 = fuzz
  refine ⟨uartLoad input.frame (bootStatus b input (raw.setStatusRange 0 STATUS_WORDS fun _ => 0)),
    hframe _ (hstatus _), ?_⟩
  exact (congrArg Carried.slots (scheduleRound_carried b _)).trans (hloop _)

theorem bootMain_programs (b : Build) (input : BootInput) (raw : Sup) :
    (bootMain b input raw).carried.slots.Origin b (uartLoad input.frame raw).progArea := by
  obtain ⟨s₁, harea, hslots⟩ := bootMain_area b input raw
  show (bootMain b input raw).mon.slots.Origin b _
  rw [hslots, ← harea]
  constructor
  · show ProgramOrigin b s₁.progArea (loadProgram b s₁).mon.prog (loadProgram b s₁).mon.progCnt
    by_cases hloads : Loads s₁.progArea
    · obtain ⟨hcnt, hprog⟩ := loadProgram_of_loads b hloads
      rw [hcnt]
      exact fun _ => .inl ⟨hloads, rfl, hprog⟩
    · rw [loadProgram_of_not_loads b hloads]
      exact .zero _ _ _
  · show ProgramOrigin b s₁.progArea (loadProgram b s₁).mon.progB (loadProgram b s₁).mon.progBCnt
    rw [loadProgram_shadow]
    exact .zero _ _ _

/-- **Nothing unsigned comes to run.** In every run after a boot and before
    the next one, the live program, the one a rollback brings back and the
    module of every valid native slot is what that boot found, or has its
    digest, header to payload, on the trust list of the build. -/
theorem machine_codeOrigins {b : Build} {input : BootInput} {raw s : Sup} {es : List Event}
    (h : StepsFrom (machine b) (bootMain b input raw) es s) (hes : ∀ e ∈ es, e.isReset = false) :
    CodeOrigins b (uartLoad input.frame raw).progArea (bootMain b input raw) s := by
  have hprograms : s.carried.slots.Origin b (uartLoad input.frame raw).progArea := by
    refine h.preserves (P := fun e => e.isReset = false)
      (I := fun s => s.carried.slots.Origin b (uartLoad input.frame raw).progArea) ?_ hes
      (bootMain_programs b input raw)
    intro s e s' he hinv hstep
    exact machineStep_programs he hstep hinv
  have hmodules : ∀ k, ModuleOrigin b (bootMain b input raw) s k := by
    intro k
    refine h.preserves (P := fun e => e.isReset = false)
      (I := fun s => ModuleOrigin b (bootMain b input raw) s k) ?_ hes ?_
    · intro s e s' he hinv hstep
      exact machineStep_modules he hstep hinv
    · intro hvalid
      exact .inl ⟨hvalid, rfl, rfl, fun _ _ => rfl⟩
  exact ⟨hprograms.1, hprograms.2, hmodules⟩

/-- A build that pins `r0 = 1; exit`. -/
def returnBuild : Build := .pinning [imageSha (stageEbpfBody returnInsns)]

def Control.sweptBack : Control → Bool
  | .swept => true
  | _ => false

/-- Back in the harness after a round, that program is staged and swapped
    in. -/
theorem machine_codeOrigins_return :
    ∃ es s, StepsFrom (machine returnBuild) (bootMain returnBuild ⟨none, false⟩ .zeroed) es s ∧
      s.mon.progCnt = 2 ∧
        CodeOrigins returnBuild (uartLoad none .zeroed).progArea
          (bootMain returnBuild ⟨none, false⟩ .zeroed) s := by
  let round : List Event := List.replicate 11 (.ecall fun _ => 0)
  have hround : ((run (machineStep returnBuild) (bootMain returnBuild ⟨none, false⟩ .zeroed)
      round).map fun s => s.ctl.sweptBack) = some true := by
    decide +kernel
  obtain ⟨s₁, hs₁, hswept⟩ := Option.map_eq_some_iff.mp hround
  have hctl : s₁.ctl = .swept := by
    cases hc : s₁.ctl with
    | swept => rfl
    | _ =>
      rw [hc] at hswept
      cases hswept
  let staged : Sup :=
    { s₁ with pend := returnStaged.pend, pendOk := PROG_PEND_MAGIC, mailbox := fun _ => 0 }
  have hadm : EbpfAdmitted returnBuild returnInsns :=
    ⟨by decide, by decide, List.mem_singleton.mpr rfl, by decide +kernel⟩
  have hwin : WindowHolds staged.pend (signedBytes (stageEbpfBody returnInsns)) := fun _ _ => rfl
  obtain ⟨s', hs', hinstalled, -⟩ := hotSwap_ebpf (b := returnBuild) (s := staged)
    (by decide) hwin rfl
  have hsteps : StepsFrom (machine returnBuild) (bootMain returnBuild ⟨none, false⟩ .zeroed)
      (round ++ [.stage returnStaged.pend PROG_PEND_MAGIC fun _ => 0, .swap]) s' := by
    refine (StepsFrom.of_run (fun _ _ _ => id) hs₁).append ?_
    refine @StepsFrom.cons _ _ _ _ staged _ _ _ rfl (.cons _ _ ?_ (.nil _))
    show machineStep returnBuild staged .swap = some s'
    unfold machineStep
    rw [show staged.ctl = .swept from hctl]
    exact hs'
  have hes : ∀ e ∈ round ++ [.stage returnStaged.pend PROG_PEND_MAGIC fun _ => 0, .swap],
      e.isReset = false := by
    intro e he
    rcases List.mem_append.mp he with he | he
    · rw [List.eq_of_mem_replicate he]
      rfl
    · rcases List.mem_cons.mp he with rfl | he
      · rfl
      · rw [List.mem_singleton.mp he]
        rfl
  exact ⟨_, s', hsteps, (hinstalled hadm).cnt, machine_codeOrigins hsteps hes⟩

end Interclus

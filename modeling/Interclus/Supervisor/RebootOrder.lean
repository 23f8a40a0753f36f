import Interclus.Flash.RoundTrip
import Interclus.Supervisor.NativeSlots
import Interclus.Supervisor.Restore

/-! # Install Order Across a Reboot

    A native install goes live and is mirrored to the page of its slot.  The
    pages carry no order and the restore loop takes slot 1 last.  So the
    module that comes back live is the one installed last exactly when that
    one went into slot 1, or when slot 1 has nothing to bring back. -/

namespace Interclus

open Words LTS

/-! ## The machine with its installs -/

/-- A native module that passed the gates of `hot_swap`. -/
structure Install where
  slot : Fin 2
  len : U32
  entry : U32
  code : List U8
  len_ne_zero : len ≠ 0
  len_le : len ≤ MIR_CODE_MAX
  entry_even : entry &&& 1 = 0
  entry_lt : entry < 0x1000

/-- The module staged in `s`. -/
def stagedInstall {b : Build} {s : Sup} {k : Fin 2} (h : InstallsNative b s k) : Install where
  slot := k
  len := pendW0 s.pend
  entry := pendEntry s.pend
  code := bytesAt s.pend 16 (pendW0 s.pend).toNat
  len_ne_zero := (nativeGate_bounds h.gate).1
  len_le := (nativeGate_bounds h.gate).2.1
  entry_even := (nativeGate_bounds h.gate).2.2.1
  entry_lt := (nativeGate_bounds h.gate).2.2.2.1

/-- What `hot_swap` installs. -/
def swapInstall (b : Build) (s : Sup) : Option Install :=
  if h : InstallsNative b s (slotOf (pendSlot s.pend)) then some (stagedInstall h) else none

def eventInstall (b : Build) (s : Sup) : Event → Option Install
  | .turn frame => swapInstall b (chanPoll frame s).2
  | .swap => swapInstall b s
  | _ => none

structure Journal where
  sup : Sup
  installs : List Install

/-- The machine, with its installs on record, in order. -/
def journalMachine (b : Build) : System Journal Event where
  init o := (machine b).init o.sup ∧ o.installs = []
  step o e o' := machineStep b o.sup e = some o'.sup ∧
    o'.installs = o.installs ++ (eventInstall b o.sup e).toList

/-! ## Pages -/

/-- The page of the slot is the one `i` was mirrored to. -/
structure HoldsInstall (mirror : Mem) (i : Install) : Prop where
  magic : mirrorMagic mirror i.slot = MIR_MAGIC
  len : mirrorLen mirror i.slot = i.len
  entry : mirrorEntry mirror i.slot = i.entry
  code : bytesAt (mirrorOf mirror i.slot) 16 i.len.toNat = i.code

/-- The window of slot `k` is the same. -/
def SamePage (m m' : Mem) (k : Fin 2) : Prop := ∀ i < 0x400, mirrorOf m' k i = mirrorOf m k i

theorem SamePage.word {m m' : Mem} {k : Fin 2} (h : SamePage m m' k) {i : Nat} (hi : i + 4 ≤ 0x400) :
    le32 (mirrorOf m' k) i = le32 (mirrorOf m k) i := le32_congr fun j _ => h _ (by omega)

theorem SamePage.restores_iff {m m' : Mem} {k : Fin 2} (h : SamePage m m' k) :
    PageRestores m' k ↔ PageRestores m k := by
  have hmagic : mirrorMagic m' k = mirrorMagic m k := h.word (by omega)
  have hlen : mirrorLen m' k = mirrorLen m k := h.word (by omega)
  have hentry : mirrorEntry m' k = mirrorEntry m k := h.word (by omega)
  constructor
  · rintro ⟨h₁, h₂, h₃, h₄⟩
    exact ⟨hmagic ▸ h₁, hlen ▸ h₂, hentry ▸ h₃, hentry ▸ h₄⟩
  · rintro ⟨h₁, h₂, h₃, h₄⟩
    exact ⟨hmagic.symm ▸ h₁, hlen.symm ▸ h₂, hentry.symm ▸ h₃, hentry.symm ▸ h₄⟩

/-- Every admitted module comes back from its page. -/
theorem HoldsInstall.restores {m : Mem} {i : Install} (h : HoldsInstall m i) :
    PageRestores m i.slot where
  magic := h.magic
  len := by
    rw [h.len]
    exact i.len_ne_zero
  even := by
    rw [h.entry]
    exact i.entry_even
  lt := by
    rw [h.entry]
    exact i.entry_lt

/-! ## What an install does to the mirror -/

/-- The mirror before and after at most one install. -/
inductive Mirrored (m : Mem) : Mem → Option Install → Prop where
  | kept : Mirrored m m none
  | wrote (m' : Mem) (i : Install) : HoldsInstall m' i → (∀ k ≠ i.slot, SamePage m m' k) →
      Mirrored m m' (some i)

/-- A write lands in the page of its slot and in no other. -/
theorem flashMirrorWrite_mirrored {dev : FlashDev} (hdev : dev.Lands) {b : Build} {s : Sup}
    {k : Fin 2} (h : InstallsNative b s k) {ret : Int} {mirror' : Mem}
    (hwrite : flashMirrorWrite dev s.mirror (pendSlot s.pend) (fun i => s.pend (16 + i))
      (pendW0 s.pend) (pendEntry s.pend) = some (ret, mirror')) :
    Mirrored s.mirror mirror' (some (stagedInstall h)) := by
  have hlen : pendW0 s.pend ≤ MIR_CODE_MAX := (nativeGate_bounds h.gate).2.1
  have hslot := (nativeGate_bounds h.gate).2.2.2.2
  unfold flashMirrorWrite at hwrite
  rw [if_neg (not_or.mpr ⟨BitVec.not_lt.mpr hslot, BitVec.not_lt.mpr hlen⟩)] at hwrite
  obtain ⟨page, hpage, heq⟩ := Option.map_eq_some_iff.mp hwrite
  obtain rfl : dev.program s.mirror (mirBase (pendSlot s.pend)) page = mirror' :=
    congrArg Prod.snd heq
  have hfits := (mirrorPage_isSome_iff _ _ _ _).mp (by rw [hpage]; rfl)
  have hholds := mirrorPage_holds hpage
  rw [h.slot]
  -- the page that was programmed, seen from its slot
  have hread : ∀ i < MIR_PAGE,
      mirrorOf (dev.program s.mirror (mirBase (BitVec.ofNat 32 k)) page) k i = page i :=
    fun i hi => hdev.page _ _ _ _ hi
  have hword : ∀ i, i + 4 ≤ MIR_PAGE →
      le32 (mirrorOf (dev.program s.mirror (mirBase (BitVec.ofNat 32 k)) page) k) i = le32 page i :=
    fun i hi => le32_congr fun j _ => hread _ (by omega)
  refine .wrote _ _ ⟨?_, ?_, ?_, ?_⟩ fun j hj i hi => hdev.frame _ _ _ _ ?_
  · exact (hword 0 (by decide)).trans hholds.magic
  · exact (hword 8 (by decide)).trans hholds.len
  · exact (hword 12 (by decide)).trans hholds.entry
  · refine bytesAt_congr fun i hi => ?_
    have hi : i < (pendW0 s.pend).toNat := hi
    exact (hread _ (by unfold MIR_PAGE; omega)).trans (hholds.code i hi)
  · -- the two windows are 0x400 bytes apart
    have hjk : (j = 0 ∧ k = 1) ∨ (j = 1 ∧ k = 0) := by
      have hne : j ≠ k := hj
      omega
    rcases hjk with ⟨rfl, rfl⟩ | ⟨rfl, rfl⟩ <;> simp [mirBase, MIR_PAGE] <;> omega

theorem hotSwap_of_installs {b : Build} {s : Sup} {k : Fin 2} (h : InstallsNative b s k) :
    hotSwap b s = (installNative b s).map hotAccept := by
  unfold hotSwap
  rw [if_neg (not_not.mpr h.magic), if_neg (not_not.mpr h.trusted), if_pos h.kind, if_pos h.gate]

theorem hotSwap_mirrored {b : Build} (hdev : b.flash.Lands) {s s' : Sup}
    (h : hotSwap b s = some s') : Mirrored s.mirror s'.mirror (swapInstall b s) := by
  unfold swapInstall
  split
  · next hinst =>
    rw [hotSwap_of_installs hinst] at h
    obtain ⟨s₁, hs₁, rfl⟩ := Option.map_eq_some_iff.mp h
    obtain ⟨⟨ret, mirror'⟩, hwrite, rfl⟩ := Option.map_eq_some_iff.mp hs₁
    exact flashMirrorWrite_mirrored hdev hinst hwrite
  · next hinst =>
    have hmirror : s'.mirror = s.mirror := by
      rcases hotSwap_cases b s with ⟨-, hs⟩ | ⟨-, hs⟩ | ⟨hm, hk, ht, hg, -⟩ | ⟨-, -, -, -, hs⟩
      · cases hs.symm.trans h
        rfl
      · cases hs.symm.trans h
        rfl
      · exact absurd ⟨hm, hk, ht, hg, eq_slotOf (nativeGate_bounds hg).2.2.2.2⟩ hinst
      · cases hs.symm.trans h
        rfl
    rw [hmirror]
    exact .kept

theorem chanPoll_kept (frame : Option ConsoleFrame) (s : Sup) :
    (chanPoll frame s).2.natText = s.natText ∧ (chanPoll frame s).2.mirror = s.mirror := by
  cases frame with
  | none => exact ⟨rfl, rfl⟩
  | some f =>
    have hpolled := framePolled f s
    generalize chanPoll (some f) s = polled at hpolled ⊢
    cases hpolled with
    | command =>
      unfold pollUpdate
      dsimp only
      split <;>
      · rw [updateSendReply_eq]
        exact ⟨rfl, rfl⟩
    | _ => exact ⟨rfl, rfl⟩

theorem hotUpdateFinalize_kept (s : Sup) : (hotUpdateFinalize s).kept = s.kept := by
  rcases hotUpdateFinalize_cases s with h | ⟨ok, -, h⟩ <;> rw [h]
  unfold settle
  dsimp only
  rw [updateSendReply_eq]
  rfl

/-! ## Boot -/

/-- A boot runs the restore loop over the mirror it finds. -/
theorem bootMain_eq (b : Build) (input : BootInput) (s : Sup) :
    ∃ s₁ : Sup, s₁.mirror = s.mirror ∧
      bootMain b input s = scheduleRound b (bootRestore b (natBuiltin b s₁)) := by
  have hload : ∀ s : Sup, (loadProgram b s).mirror = s.mirror := by
    intro s
    unfold loadProgram
    dsimp only
    split
    · rfl
    · split
      · rfl
      · split
        · rfl
        · split <;> rfl
  have huart : ∀ s : Sup, (uartLoad input.frame s).mirror = s.mirror := by
    intro s
    unfold uartLoad
    split <;> rfl
  have hstatus : ∀ s : Sup, (bootStatus b input s).mirror = s.mirror := by
    intro s
    unfold bootStatus
    dsimp only
    split <;> rfl
  unfold bootMain
  simp only [bootGate_eq_zero, ne_eq, not_true_eq_false, if_false]
  refine ⟨_, ?_, rfl⟩
  exact (hload _).trans ((huart _).trans (hstatus _))

theorem bootMain_mirror (b : Build) (input : BootInput) (s : Sup) :
    (bootMain b input s).mirror = s.mirror := by
  obtain ⟨s₁, hmirror, hboot⟩ := bootMain_eq b input s
  have hf₀ := restoreSlot_frame b (natBuiltin b s₁) 0
  have hf₁ := restoreSlot_frame b (restoreSlot b (natBuiltin b s₁) 0) 1
  rw [hboot, ← hmirror]
  refine (congrArg RoundKept.mirror (scheduleRound_kept b _)).trans ?_
  exact hf₁.mirror.trans hf₀.mirror

theorem bootMain_natTable (b : Build) (input : BootInput) (s : Sup) :
    ∃ s₁ : Sup, s₁.mirror = s.mirror ∧
      (bootMain b input s).natTable = (bootRestore b (natBuiltin b s₁)).natTable ∧
      (bootMain b input s).natText = (bootRestore b (natBuiltin b s₁)).natText := by
  obtain ⟨s₁, hmirror, hboot⟩ := bootMain_eq b input s
  refine ⟨s₁, hmirror, ?_, ?_⟩ <;> rw [hboot]
  · exact scheduleRound_natTable _
  · exact congrArg RoundKept.natText (scheduleRound_kept b _)

/-- Slot 1 is live after a boot exactly when its page restores. -/
theorem bootMain_liveSlot (b : Build) (input : BootInput) (s : Sup) :
    (PageRestores s.mirror 1 ∧ (bootMain b input s).natLive = 1) ∨
      (¬ PageRestores s.mirror 1 ∧ (bootMain b input s).natLive = 0) := by
  obtain ⟨s₁, hmirror, htable, -⟩ := bootMain_natTable b input s
  have hlive : (bootMain b input s).natLive = _ := congrArg NatTable.live htable
  rw [← hmirror, hlive]
  exact bootRestore_live b s₁

/-- A mirrored module is back in its slot, live or not. -/
theorem bootMain_install {b : Build} {s : Sup} {i : Install} (h : HoldsInstall s.mirror i)
    (input : BootInput) :
    (bootMain b input s).nat i.slot = ⟨i.len, i.entry, true, false⟩ ∧
      bytesAt ((bootMain b input s).natText i.slot) 0 i.len.toNat = i.code := by
  obtain ⟨s₁, hmirror, htable, htext⟩ := bootMain_natTable b input s
  rw [← hmirror] at h
  have hslot := bootRestore_slot b h.restores
  have hclamp : clampLen MIR_CODE_MAX (mirrorLen s₁.mirror i.slot) = i.len := by
    rw [h.len]
    exact if_neg (BitVec.not_lt.mpr i.len_le)
  rw [hclamp, h.entry] at hslot
  refine ⟨(congrFun (congrArg NatTable.slot htable) i.slot).trans hslot.1, ?_⟩
  rw [htext, ← h.code]
  unfold bytesAt
  refine List.map_congr_left fun j hj => ?_
  rw [Nat.zero_add]
  exact hslot.2 j (List.mem_range.mp hj)

/-! ## Runs -/

/-- The mirror after `installs`, over what it held at the start. -/
structure MirrorInv (m₀ m : Mem) (installs : List Install) : Prop where
  last : ∀ i ∈ installs.getLast?, HoldsInstall m i
  restores : ∀ i ∈ installs, PageRestores m i.slot
  fresh : ∀ k, (∀ i ∈ installs, i.slot ≠ k) → SamePage m₀ m k

theorem MirrorInv.step {m₀ m m' : Mem} {installs : List Install} {i : Option Install}
    (h : MirrorInv m₀ m installs) (hm : Mirrored m m' i) :
    MirrorInv m₀ m' (installs ++ i.toList) := by
  cases hm with
  | kept =>
    rw [Option.toList_none, List.append_nil]
    exact h
  | wrote _ i hholds hother =>
    rw [Option.toList_some]
    refine ⟨fun j hj => ?_, fun j hj => ?_, fun k hk => ?_⟩
    · rw [List.getLast?_concat] at hj
      exact Option.some.inj hj ▸ hholds
    · by_cases hslot : j.slot = i.slot
      · exact hslot ▸ hholds.restores
      · have hj : j ∈ installs := by
          rcases List.mem_append.mp hj with hj | hj
          · exact hj
          · exact absurd (congrArg Install.slot (List.mem_singleton.mp hj)) hslot
        exact (hother _ hslot).restores_iff.mpr (h.restores j hj)
    · have hki : k ≠ i.slot := (hk i (by simp)).symm
      have hfresh := h.fresh k fun j hj => hk j (List.mem_append_left _ hj)
      exact fun n hn => (hother k hki n hn).trans (hfresh n hn)

/-- Step lemma: an event writes the mirror by the install it makes. -/
theorem machineStep_mirrored {b : Build} (hdev : b.flash.Lands) {s s' : Sup} {e : Event}
    (h : machineStep b s e = some s') : Mirrored s.mirror s'.mirror (eventInstall b s e) := by
  have hkept : eventInstall b s e = none → s'.mirror = s.mirror →
      Mirrored s.mirror s'.mirror (eventInstall b s e) := by
    intro hnone hm
    rw [hnone, hm]
    exact .kept
  cases machineStep_moved h with
  | user u eff => cases eff <;> exact hkept rfl rfl
  | ecall u regs => exact hkept rfl (congrArg RoundKept.mirror (supervisorResume_kept b _))
  | fault u cause addr regs =>
    exact hkept rfl (congrArg RoundKept.mirror (supervisorFault_kept b cause _))
  | turn seen frame s' _ hturn =>
    obtain ⟨s₁, hs₁, rfl⟩ := Option.map_eq_some_iff.mp hturn
    have hend := congrArg RoundKept.mirror (endTurn_kept b seen (chanPoll frame s).1
      (hotUpdateFinalize s₁))
    have hfinal := congrArg RoundKept.mirror (hotUpdateFinalize_kept s₁)
    have hswap := hotSwap_mirrored hdev hs₁
    rw [(chanPoll_kept frame s).2] at hswap
    rw [show (endTurn b seen (chanPoll frame s).1 (hotUpdateFinalize s₁)).mirror = s₁.mirror from
      hend.trans hfinal]
    exact hswap
  | poll frame => exact hkept rfl (chanPoll_kept frame s).2
  | swap s' _ hswap => exact hotSwap_mirrored hdev hswap
  | finalize => exact hkept rfl (congrArg RoundKept.mirror (hotUpdateFinalize_kept s))
  | round => exact hkept rfl (congrArg RoundKept.mirror (scheduleRound_kept b _))
  | beat => exact hkept rfl rfl
  | stage => exact hkept rfl rfl
  | reset area input => exact hkept rfl (bootMain_mirror b input _)

theorem mirrorInv_of_run {b : Build} (hdev : b.flash.Lands) {s₀ : Sup} {o : Journal}
    {es : List Event} (h : StepsFrom (journalMachine b) ⟨s₀, []⟩ es o) :
    MirrorInv s₀.mirror o.sup.mirror o.installs := by
  refine h.invariant (I := fun o => MirrorInv s₀.mirror o.sup.mirror o.installs) ?_ ?_
  · rintro o e o' hinv ⟨hstep, hrecord⟩
    rw [hrecord]
    exact hinv.step (machineStep_mirrored hdev hstep)
  · exact ⟨fun i hi => by simp at hi, fun i hi => by simp at hi, fun k _ n _ => rfl⟩

/-! ## The first round -/

/-- Until the native compartment faults, a round keeps the slot table and
    the code; after that nothing runs until the next round. -/
structure RoundTable (b : Build) (s₀ s : Sup) : Prop where
  inv : NativeInv b s.native
  table : ∀ e, s.ctl = .user e → s.natTable = s₀.natTable
  text : s.natText = s₀.natText

theorem nativeDone_idle (b : Build) (proof : Bool) (s : Sup) (e : UserEntry) :
    (nativeDone b proof s).ctl ≠ .user e := by
  unfold nativeDone
  dsimp only
  split
  · exact Control.noConfusion
  · exact Control.noConfusion

theorem RoundTable.step {b : Build} {s₀ s s' : Sup} {e : Event} (h : RoundTable b s₀ s)
    (he : InRound e) (hstep : machineStep b s e = some s') : RoundTable b s₀ s' := by
  have hinv := machineStep_nativeInv h.inv hstep
  cases machineStep_moved hstep with
  | user u eff hctl =>
    cases eff
    all_goals exact ⟨hinv, fun e _ => h.table u hctl, h.text⟩
  | ecall u regs hctl =>
    refine ⟨hinv, fun e _ => ?_, ?_⟩
    · exact (supervisorResume_natTable _).trans (h.table u hctl)
    · exact (congrArg RoundKept.natText (supervisorResume_kept b _)).trans h.text
  | fault u cause addr regs hctl =>
    have hcur : (saveTcb regs s.comp).curComp = u.comp :=
      (saveTcb_curComp regs s.comp).trans (h.inv.cur u hctl)
    have htext : (trapFault b cause addr regs s).natText = s.natText :=
      congrArg RoundKept.natText (supervisorFault_kept b cause _)
    refine ⟨hinv, fun e hctl' => ?_, htext.trans h.text⟩
    by_cases h2 : u.comp = 2
    · -- the native compartment faulted: the pass is over
      have hphase : s.phase = 5 := (h.inv.running u hctl h2).1
      obtain ⟨s₁, hdone⟩ := supervisorFault_done (b := b) cause
        (s := { ringRecord cause addr s with comp := saveTcb regs s.comp })
        (show (5 : U32) ≤ s.phase from hphase ▸ BitVec.le_refl _)
      have hctl' : (nativeDone b false s₁).ctl = .user e := hdone ▸ hctl'
      exact absurd hctl' (nativeDone_idle b false s₁ e)
    · have htable := supervisorFault_natTable (b := b) cause
        { ringRecord cause addr s with comp := saveTcb regs s.comp }
      rw [if_neg fun h => h2 (hcur.symm.trans h.2)] at htable
      exact htable.trans (h.table u hctl)
  | stage => exact ⟨hinv, h.table, h.text⟩
  | turn => exact he.elim
  | poll => exact he.elim
  | swap => exact he.elim
  | finalize => exact he.elim
  | round => exact he.elim
  | beat => exact he.elim
  | reset => exact he.elim

/-- The native compartment of the round is the live slot of its start. -/
theorem RoundTable.runs {b : Build} {s₀ s : Sup} (h : RoundTable b s₀ s) {e : UserEntry}
    (he : RunsNative s e) :
    s.natLive = s₀.natLive ∧
      e.mepc = (natSpec b.target s₀.natLive).textBase + (s₀.nat s₀.natLive).entry := by
  have htable := h.table e he.1
  have hmepc := (h.inv.running e he.1 he.2).2.mepc
  have hview : s.native.table = s₀.natTable := htable
  rw [hview] at hmepc
  exact ⟨congrArg NatTable.live htable, hmepc⟩

theorem roundTable_of_run {b : Build} {input : BootInput} {raw s : Sup} {es : List Event}
    (h : StepsFrom (machine b) (bootMain b input raw) es s) (hes : ∀ e ∈ es, InRound e) :
    RoundTable b (bootMain b input raw) s := by
  refine h.preserves (P := InRound) (I := RoundTable b (bootMain b input raw)) ?_ hes ?_
  · exact fun s e s' he hinv hstep => hinv.step he hstep
  · exact ⟨bootMain_nativeInv b input raw, fun e _ => rfl, rfl⟩

/-! ## The last install -/

/-- After a boot, `last` is the live module again: its slot is live, holds
    its length, entry and code, and the native compartment of the first
    round runs it. -/
structure RestoresLast (b : Build) (last : Install) (s : Sup) : Prop where
  live : s.natLive = last.slot
  slot : s.nat last.slot = ⟨last.len, last.entry, true, false⟩
  text : bytesAt (s.natText last.slot) 0 last.len.toNat = last.code
  round : ∀ es s', StepsFrom (machine b) s es s' → (∀ e ∈ es, InRound e) →
    ∀ e, RunsNative s' e → s'.natLive = last.slot ∧
      e.mepc = (natSpec b.target last.slot).textBase + last.entry ∧
      bytesAt (s'.natText last.slot) 0 last.len.toNat = last.code

/-- A boot brings the mirrored module back to its slot; so it is restored
    exactly when the slot is live. -/
theorem restoresLast_iff_live {b : Build} {raw : Sup} {last : Install}
    (h : HoldsInstall raw.mirror last) (input : BootInput) :
    RestoresLast b last (bootMain b input raw) ↔ (bootMain b input raw).natLive = last.slot := by
  constructor
  · exact fun hlast => hlast.live
  · intro hlive
    obtain ⟨hslot, htext⟩ := bootMain_install (b := b) h input
    refine ⟨hlive, hslot, htext, fun es s' hrun hes e he => ?_⟩
    have hround := roundTable_of_run hrun hes
    obtain ⟨hlive', hmepc⟩ := hround.runs he
    rw [hlive, hslot] at hmepc
    refine ⟨hlive'.trans hlive, hmepc, ?_⟩
    rw [hround.text]
    exact htext

/-- **Install order.** After any run, with any installs into any slots, a
    boot over the mirror that is left restores the module installed last if
    and only if that one went into slot 1, or no module did and the page of
    slot 1 had nothing to bring back at the start. -/
theorem reboot_restoresLast_iff {b : Build} (hdev : b.flash.Lands) {s₀ : Sup} {o : Journal}
    {es : List Event} (hrun : StepsFrom (journalMachine b) ⟨s₀, []⟩ es o) {last : Install}
    (hlast : o.installs.getLast? = some last) (input : BootInput) {raw : Sup}
    (hraw : raw.mirror = o.sup.mirror) :
    RestoresLast b last (bootMain b input raw) ↔
      last.slot = 1 ∨ ((∀ i ∈ o.installs, i.slot = 0) ∧ ¬ PageRestores s₀.mirror 1) := by
  have hinv := mirrorInv_of_run hdev hrun
  rw [← hraw] at hinv
  rw [restoresLast_iff_live (hinv.last last hlast) input]
  have hmem : last ∈ o.installs := List.mem_of_getLast? hlast
  have hslot : ∀ k : Fin 2, k = 0 ∨ k = 1 := by decide
  -- the page of slot 1 at the reboot: an install's, or the one of the start
  have hpage : PageRestores raw.mirror 1 ↔
      ¬ ((∀ i ∈ o.installs, i.slot = 0) ∧ ¬ PageRestores s₀.mirror 1) := by
    by_cases hzero : ∀ i ∈ o.installs, i.slot = 0
    · have hfresh := hinv.fresh 1 fun i hi => by rw [hzero i hi]; decide
      rw [hfresh.restores_iff]
      constructor
      · exact fun h hn => hn.2 h
      · intro h
        by_contra hn
        exact h ⟨hzero, hn⟩
    · refine iff_of_true ?_ fun h => hzero h.1
      obtain ⟨i, hi, hne⟩ := not_forall₂.mp hzero
      exact (hslot i.slot).resolve_left hne ▸ hinv.restores i hi
  rcases bootMain_liveSlot b input raw with ⟨hres, hlive⟩ | ⟨hres, hlive⟩ <;> rw [hlive]
  · constructor
    · exact fun h => .inl h.symm
    · rintro (h | h)
      · exact h.symm
      · exact absurd h (hpage.mp hres)
  · have hfree := not_not.mp (mt hpage.mpr hres)
    exact iff_of_true (hfree.1 last hmem).symm (.inr hfree)

/-! ## Slot 1, then slot 0 -/

/-- A header for four bytes of native code in slot `k`, and the code. -/
def moduleBody (k : Fin 2) : Mem :=
  putLe32 (putLe32 (putLe32 (fun _ => 0) 0 4) 4 PEND_NATIVE) 12 (BitVec.ofNat 32 k)

/-- A build that pins that module for both slots. -/
def moduleBuild : Build := .pinning [sha256 (moduleBody 0) 20, sha256 (moduleBody 1) 20]

/-- The module is staged and swapped in. -/
def installEvents (k : Fin 2) : List Event :=
  [.stage (signedImage (moduleBody k) 20) PROG_PEND_MAGIC fun _ => 0, .swap]

theorem moduleBody_header (k : Fin 2) :
    pendW0 (moduleBody k) = 4 ∧ pendKind (moduleBody k) = PEND_NATIVE ∧
      pendEntry (moduleBody k) = 0 ∧ pendSlot (moduleBody k) = BitVec.ofNat 32 k := by
  revert k
  rw [Fin.forall_fin_two]
  decide +kernel

theorem moduleBody_installs (k : Fin 2) {s : Sup} (hpend : s.pend = signedImage (moduleBody k) 20)
    (hmagic : s.pendOk = PROG_PEND_MAGIC) : InstallsNative moduleBuild s k := by
  obtain ⟨hw0, hkind, hentry, hslot⟩ := moduleBody_header k
  have hle : (4 : U32) ≤ 0x1F0 := by decide
  have hbytes : ∀ i < 16 + (4 : U32).toNat + 32,
      s.pend i = signedImage (moduleBody k) (16 + 4) i := fun i _ => congrFun hpend i
  have hword : ∀ i, i + 4 ≤ 16 → le32 s.pend i = le32 (moduleBody k) i := fun i hi =>
    signedNative_header hle hbytes hi
  have hpin : ∀ k, sha256 (moduleBody k) (16 + 4) ∈ moduleBuild.trusted := by
    rw [Fin.forall_fin_two]
    exact ⟨List.mem_cons_self, List.mem_cons_of_mem _ List.mem_cons_self⟩
  have hgate : ∀ k : Fin 2, nativeGate .qemu 4 0 (BitVec.ofNat 32 k) = true := by decide
  refine ⟨hmagic, (hword 4 (by omega)).trans hkind,
    signedNative_trusted hle hbytes (by decide) hw0 hkind (hpin k), ?_,
    (hword 12 (by omega)).trans hslot⟩
  rw [show pendW0 s.pend = 4 from (hword 0 (by omega)).trans hw0,
    show pendEntry s.pend = 0 from (hword 8 (by omega)).trans hentry,
    show pendSlot s.pend = _ from (hword 12 (by omega)).trans hslot]
  exact hgate k

/-- Back in the harness, either module can be installed. -/
theorem installEvents_run {s : Sup} (hctl : s.ctl = .swept) (is : List Install) (k : Fin 2) :
    ∃ s' i, StepsFrom (journalMachine moduleBuild) ⟨s, is⟩ (installEvents k) ⟨s', is ++ [i]⟩ ∧
      s'.ctl = .swept ∧ i.slot = k := by
  let staged : Sup :=
    { s with
      pend := signedImage (moduleBody k) 20, pendOk := PROG_PEND_MAGIC, mailbox := fun _ => 0 }
  have hinst : InstallsNative moduleBuild staged k := moduleBody_installs k rfl rfl
  have hslot : slotOf (pendSlot staged.pend) = k := by
    rw [hinst.slot]
    exact (by decide : ∀ k : Fin 2, slotOf (BitVec.ofNat 32 k) = k) k
  have hswap : ∃ i, swapInstall moduleBuild staged = some i ∧ i.slot = k := by
    unfold swapInstall
    rw [dif_pos (hslot.symm ▸ hinst)]
    exact ⟨_, rfl, hslot⟩
  obtain ⟨i, hi, hik⟩ := hswap
  -- four bytes fit the mirror page, so the install has an outcome
  have hlen : (pendW0 staged.pend).toNat ≤ 240 := by
    have hw0 : pendW0 staged.pend = 4 :=
      (signedNative_header (show (4 : U32) ≤ 0x1F0 by decide) (fun _ _ => rfl) (by omega)).trans
        (moduleBody_header k).1
    rw [hw0]
    decide
  obtain ⟨s₁, hs₁⟩ := Option.isSome_iff_exists.mp ((installNative_isSome_iff (b := moduleBuild)
    (nativeGate_bounds hinst.gate).2.1 (nativeGate_bounds hinst.gate).2.2.2.2).mpr hlen)
  have hdone : hotSwap moduleBuild staged = some (hotAccept s₁) := by
    rw [hotSwap_of_installs hinst, hs₁]
    rfl
  refine ⟨hotAccept s₁, i, @StepsFrom.cons _ _ _ _ ⟨staged, is⟩ _ _ _ ⟨rfl, ?_⟩
    (.cons _ _ ⟨?_, ?_⟩ (.nil _)), ?_, hik⟩
  · exact (List.append_nil is).symm
  · show machineStep moduleBuild staged .swap = _
    unfold machineStep
    rw [show staged.ctl = .swept from hctl]
    exact hdone
  · show is ++ [i] = is ++ (swapInstall moduleBuild staged).toList
    rw [hi]
    rfl
  · exact (hotSwap_frame hdone).1.trans hctl

/-- Slot 0, then slot 1: the second comes back. -/
theorem reboot_restoresLast_slotOne :
    ∃ s last, StepsFrom (journalMachine moduleBuild) ⟨.zeroed, []⟩
        (installEvents 0 ++ installEvents 1) s ∧ s.installs.getLast? = some last ∧
      RestoresLast moduleBuild last (bootMain moduleBuild ⟨none, false⟩ s.sup) := by
  obtain ⟨s₁, i₁, hrun₁, hctl₁, -⟩ := installEvents_run (s := .zeroed) rfl [] 0
  obtain ⟨s₂, i₂, hrun₂, -, hslot₂⟩ := installEvents_run hctl₁ ([] ++ [i₁]) 1
  have hlast : ([] ++ [i₁] ++ [i₂]).getLast? = some i₂ := rfl
  exact ⟨_, i₂, hrun₁.append hrun₂, hlast,
    (reboot_restoresLast_iff FlashDev.ram_lands (hrun₁.append hrun₂) hlast ⟨none, false⟩ rfl).mpr
      (.inl hslot₂)⟩

/-- Slot 1, then slot 0: after the boot the first of the two is live. -/
theorem reboot_forgetsLast :
    ∃ s last, StepsFrom (journalMachine moduleBuild) ⟨.zeroed, []⟩
        (installEvents 1 ++ installEvents 0) s ∧ s.installs.getLast? = some last ∧
      last.slot = 0 ∧ (bootMain moduleBuild ⟨none, false⟩ s.sup).natLive = 1 ∧
      ¬ RestoresLast moduleBuild last (bootMain moduleBuild ⟨none, false⟩ s.sup) := by
  obtain ⟨s₁, i₁, hrun₁, hctl₁, hslot₁⟩ := installEvents_run (s := .zeroed) rfl [] 1
  obtain ⟨s₂, i₂, hrun₂, -, hslot₂⟩ := installEvents_run hctl₁ ([] ++ [i₁]) 0
  have hlast : ([] ++ [i₁] ++ [i₂]).getLast? = some i₂ := rfl
  have hrun := hrun₁.append hrun₂
  have hinv := mirrorInv_of_run FlashDev.ram_lands hrun
  have hpage : PageRestores s₂.mirror 1 := hslot₁ ▸ hinv.restores i₁ (by simp)
  have hlive : (bootMain moduleBuild ⟨none, false⟩ s₂).natLive = 1 := by
    rcases bootMain_liveSlot moduleBuild ⟨none, false⟩ s₂ with ⟨-, hlive⟩ | ⟨hno, -⟩
    · exact hlive
    · exact absurd hpage hno
  refine ⟨_, i₂, hrun, hlast, hslot₂, hlive, fun h => ?_⟩
  have hone : (1 : Fin 2) = 0 := hlive.symm.trans (h.live.trans hslot₂)
  exact absurd hone (by decide)

end Interclus

import Interclus.Isolation.ArmedWindow
import Interclus.Supervisor.NativeSlots

/-! # User Windows

    The PMP entries in force while U-mode runs, over whole runs of the
    supervisor: they are those of the compartment that was entered, and
    they keep it out of the supervisor's memory, out of the timer and
    watchdog registers, out of the other compartments and out of the
    dormant native slot.  A flag that says "armed" always stands for the
    full set of entries, so the arming that is skipped changes nothing. -/

namespace Interclus

open Words LTS

/-! ## The memory map -/

/-- The windows of compartment `i` when slot `live` is wired into 2. -/
def windowOf (t : Target) (live : Fin 2) (i : Nat) : IcCompartmentSpec :=
  if i = 0 then icCompMonitor t else if i = 1 then icCompAttacker t else natSpec t live

/-- What belongs to the supervisor alone: its memory (`STATUS`, the
    mailbox, the program area with the staging window, the compartment
    table, its stack), its text, the mirror, the timer and the watchdog. -/
def supervisorRegions : Target → List Pmp.Region
  | .qemu => [⟨0x80000000, 0x100000⟩, ⟨0x80214000, 0x800⟩, ⟨0x02000000, 0xC000⟩]
  | .board => [⟨0x20000000, 0x4000⟩, ⟨0x08000000, 0x4000⟩, ⟨0x0800A000, 0x800⟩,
      ⟨0xE000F000, 0x14⟩, ⟨0xE000E000, 0x1000⟩, ⟨0x40003000, 0x10⟩]

def IcCompartmentSpec.regions (s : IcCompartmentSpec) : List Pmp.Region := [s.sram, s.text]

/-- What compartment `i` has no business in. -/
def offLimits (t : Target) (live : Fin 2) (i : Nat) : List Pmp.Region :=
  supervisorRegions t ++
    ((List.range 3).filter (· ≠ i)).flatMap (fun j => (windowOf t live j).regions) ++
    (natSpec t (otherSlot live)).regions

/-- The map keeps every window apart from what is off its limits. -/
theorem windowOf_apart (t : Target) (live : Fin 2) {i : Nat} (hi : i < 3) :
    ∀ r ∈ (windowOf t live i).regions, ∀ r' ∈ offLimits t live i, r.Apart r' := by
  have hall : ∀ t ∈ [Target.qemu, .board], ∀ live : Fin 2, ∀ i ∈ List.range 3,
      ∀ r ∈ (windowOf t live i).regions, ∀ r' ∈ offLimits t live i, r.Apart r' := by
    decide
  exact hall t (by cases t <;> simp) live i (List.mem_range.mpr hi)

/-- Each window passes the gate and is aligned to its size. -/
theorem windowOf_aligned (t : Target) (live : Fin 2) (i : Nat) :
    icCompartmentCheck (some (windowOf t live i)) = .ok ∧
      (windowOf t live i).sramBase.toNat % (windowOf t live i).sramSize.toNat = 0 ∧
      (windowOf t live i).textBase.toNat % (windowOf t live i).textSize.toNat = 0 := by
  unfold windowOf
  split
  · cases t <;> decide
  · split
    · cases t <;> decide
    · exact natSpec_aligned t live

/-! ## Flags and entries -/

/-- The four entries of an armed compartment. -/
def windowEntries (s : IcCompartmentSpec) : List Pmp.Entry :=
  [⟨0x1B, NAPOT s.sramBase s.sramSize⟩, ⟨0x1D, NAPOT s.textBase s.textSize⟩, ⟨0x00, 0⟩,
    ⟨0x18, PMP_DENY⟩]

/-- A flag stands for all four entries. -/
def FlagsTrue (t : CompTable) : Prop :=
  ∀ i < COMP_COUNT, (t.comps i).armed = true → pmpEntries t.csr = windowEntries (t.comps i).spec

/-- Dropping flags, or changing a compartment whose flag is dropped. -/
theorem FlagsTrue.of_dropped {t t' : CompTable} (h : FlagsTrue t) (hcsr : t'.csr = t.csr)
    (hdrop : ∀ i, (t'.comps i).armed = true →
      (t.comps i).armed = true ∧ (t'.comps i).spec = (t.comps i).spec) : FlagsTrue t' := by
  intro i hi harmed
  obtain ⟨hold, hspec⟩ := hdrop i harmed
  rw [hcsr, hspec]
  exact h i hi hold

theorem FlagsTrue.setComp {t : CompTable} (h : FlagsTrue t) (i : Nat) {c : Compartment}
    (hc : c.armed = true → (t.comps i).armed = true ∧ c.spec = (t.comps i).spec) :
    FlagsTrue (t.setComp i c) := by
  refine h.of_dropped rfl fun j => ?_
  show (if j = i then c else t.comps j).armed = true → _ ∧ (if j = i then c else t.comps j).spec = _
  by_cases hj : j = i
  · subst hj
    rw [if_pos rfl]
    exact hc
  · rw [if_neg hj]
    intro harmed
    exact ⟨harmed, rfl⟩

theorem FlagsTrue.set {t : CompTable} (h : FlagsTrue t) (i : Nat) (spec : IcCompartmentSpec)
    (entry : U32) : FlagsTrue (compartmentSet i spec entry t) := by
  unfold compartmentSet
  split
  · exact h
  · exact h.setComp i fun harmed => absurd harmed Bool.false_ne_true

theorem FlagsTrue.evict {t : CompTable} (h : FlagsTrue t) (i : Nat) :
    FlagsTrue (compartmentEvict i t) := by
  unfold compartmentEvict
  split
  · exact h
  · exact h.setComp i fun harmed => absurd harmed Bool.false_ne_true

theorem FlagsTrue.saved {t : CompTable} (h : FlagsTrue t) (regs : Fin 32 → U32) :
    FlagsTrue (saveTcb regs t) := by
  unfold saveTcb
  split
  · exact h
  · exact h.setComp _ fun harmed => ⟨harmed, rfl⟩

/-- A fresh arming needs no flag to have been true before. -/
theorem compartmentArm_flags {i : Nat} (hi : i < COMP_COUNT) {t : CompTable}
    (h : (t.comps i).armed = true → FlagsTrue t) :
    FlagsTrue (compartmentArm i t) ∧ ((compartmentArm i t).comps i).armed = true := by
  by_cases harmed : (t.comps i).armed = true
  · -- skipped: the flag was true already
    have hskip : compartmentArm i t = t := if_pos (.inr harmed)
    rw [hskip]
    exact ⟨h harmed, harmed⟩
  · have hcsr := compartmentArm_csr hi (Bool.eq_false_of_not_eq_true harmed)
    have hcomps : ∀ j < COMP_COUNT, (compartmentArm i t).comps j =
        { t.comps j with armed := decide (j = i) } := by
      intro j hj
      unfold compartmentArm
      rw [if_neg (not_or.mpr ⟨Nat.not_le.mpr hi, harmed⟩)]
      exact if_pos hj
    refine ⟨fun j hj hflag => ?_, ?_⟩
    · rw [hcomps j hj] at hflag
      obtain rfl : j = i := of_decide_eq_true hflag
      rw [hcomps j hj]
      exact hcsr
    · rw [hcomps i hi]
      exact decide_eq_true rfl

/-! ## The windows of a round -/

/-- The compartments are described by the map, and the flags are true. -/
structure Mapped (b : Build) (live : Fin 2) (t : CompTable) : Prop where
  spec : ∀ i < 3, (t.comps i).spec = windowOf b.target live i
  flags : FlagsTrue t

/-- While U-mode runs: the map holds, and the flag of the compartment that
    was entered is set. -/
structure InWindow (b : Build) (live : Fin 2) (t : CompTable) (e : UserEntry) : Prop where
  comp : e.comp < 3
  mapped : Mapped b live t
  armed : (t.comps e.comp).armed = true

/-- The invariant of a run. -/
def UserWindow (b : Build) (s : Sup) : Prop :=
  ∀ e, s.ctl = .user e → InWindow b s.natLive s.comp e

section Rounds
variable {b : Build} {live : Fin 2} {t : CompTable}

theorem Mapped.arm (h : Mapped b live t) {i : Nat} (hi : i < COMP_COUNT) :
    Mapped b live (compartmentArm i t) := by
  refine ⟨fun j hj => ?_, (compartmentArm_flags hi fun _ => h.flags).1⟩
  rw [(compartmentArm_body i j t).spec]
  exact h.spec j hj

theorem Mapped.evict (h : Mapped b live t) (i : Nat) : Mapped b live (compartmentEvict i t) := by
  refine ⟨fun j hj => ?_, h.flags.evict i⟩
  rw [(compartmentEvict_body i j t).spec]
  exact h.spec j hj

theorem Mapped.saved (h : Mapped b live t) (regs : Fin 32 → U32) :
    Mapped b live (saveTcb regs t) := by
  refine ⟨fun j hj => ?_, h.flags.saved regs⟩
  have hspec : ((saveTcb regs t).comps j).spec = (t.comps j).spec := by
    unfold saveTcb
    split
    · rfl
    · next i _ =>
      unfold CompTable.setComp
      dsimp only
      split
      · next hji => rw [hji]
      · rfl
  rw [hspec]
  exact h.spec j hj

/-- A new lifetime of the attacker has the attacker's windows. -/
theorem Mapped.attacker (h : Mapped b live t) (entry : U32) :
    Mapped b live (compartmentSet 1 (icCompAttacker b.target) entry t) := by
  refine ⟨fun j hj => ?_, h.flags.set 1 _ _⟩
  by_cases hj1 : j = 1
  · subst hj1
    rw [compartmentSet_comps (by decide)]
    rfl
  · rw [compartmentSet_frame hj1]
    exact h.spec j hj

/-- Whoever is entered runs in its own window. -/
theorem enterChecked_window {s : Sup} (h : Mapped b s.natLive s.comp) {i : Nat} (hi : i < 3) :
    UserWindow b (enterChecked i s) := by
  have hi4 : i < COMP_COUNT := Nat.lt_of_lt_of_le hi (by decide)
  unfold enterChecked
  split
  · intro e hctl
    cases hctl
  · split
    · next comp u henter =>
      intro e hctl
      cases hctl
      obtain ⟨-, hcomp, -⟩ := compartmentEnter_some henter
      have harm := h.arm hi4
      have hflag := (compartmentArm_flags hi4 fun _ => h.flags).2
      unfold compartmentEnter at henter
      split at henter
      · cases henter
      · cases henter
        exact ⟨hi, ⟨harm.spec, harm.flags⟩, hflag⟩
    · intro e hctl
      cases hctl

/-- At the end of a pass no compartment runs. -/
theorem nativeDone_window (proof : Bool) (s : Sup) : UserWindow b (nativeDone b proof s) := by
  intro e hctl
  unfold nativeDone at hctl
  dsimp only at hctl
  split at hctl
  · cases hctl
  · cases hctl

theorem nextMode_window {s : Sup} (h : Mapped b s.natLive s.comp) (mode : U32) :
    UserWindow b (nextMode mode s) := by
  unfold nextMode
  refine enterChecked_window (i := 0) ?_ (by decide)
  exact h.arm (i := 0) (by decide)

theorem atkSchedule_window {s : Sup} (h : Mapped b s.natLive s.comp) (v : Nat) :
    UserWindow b (atkSchedule b v s) := by
  unfold atkSchedule
  refine enterChecked_window (i := 1) ?_ (by decide)
  exact (h.attacker _).arm (i := 1) (by decide)

theorem nativePhase_window {s : Sup} (h : Mapped b s.natLive s.comp) :
    UserWindow b (nativePhase b s) := by
  unfold nativePhase
  split
  · exact nativeDone_window false _
  · refine enterChecked_window (i := 2) ?_ (by decide)
    exact h

theorem atkAdvance_window {s : Sup} (h : Mapped b s.natLive s.comp) :
    UserWindow b (atkAdvance b s) := by
  have hrecord := atkRecord_native s
  have hmapped : Mapped b (atkRecord s).natLive (atkRecord s).comp := by
    rw [show (atkRecord s).natLive = s.natLive from congrArg (fun v => v.table.live) hrecord,
      show (atkRecord s).comp = s.comp from congrArg NativeView.comp hrecord]
    exact h
  unfold atkAdvance
  dsimp only
  split
  · exact atkSchedule_window hmapped _
  · exact nativePhase_window hmapped

theorem supervisorResume_window {s : Sup} (h : Mapped b s.natLive s.comp) :
    UserWindow b (supervisorResume b s) := by
  unfold supervisorResume
  -- one case per phase
  split
  · have hrollback := rollback_native (noteVerdicts s)
    refine nextMode_window ?_ 1
    rw [show (rollback (noteVerdicts s)).natLive = s.natLive from
        congrArg (fun v => v.table.live) hrollback,
      show (rollback (noteVerdicts s)).comp = s.comp from congrArg NativeView.comp hrollback]
    exact h
  split
  · refine nextMode_window ?_ 2
    exact h
  split
  · refine atkSchedule_window ?_ 0
    exact h
  split
  · exact atkAdvance_window h
  · exact nativeDone_window true s

theorem supervisorFault_window {s : Sup} (h : Mapped b s.natLive s.comp) (cause : U32) :
    UserWindow b (supervisorFault b cause s) := by
  have hevicted : Mapped b (evictRunning cause s).natLive (evictRunning cause s).comp := by
    unfold evictRunning
    split <;> exact h.evict _
  unfold supervisorFault
  dsimp only
  split
  · exact atkAdvance_window hevicted
  split
  · exact nativeDone_window false _
  · intro e hctl
    cases hctl

/-- A round maps all three compartments anew, whatever the table held. -/
theorem scheduleRound_window (b : Build) (s : Sup) : UserWindow b (scheduleRound b s) := by
  let c₀ := compartmentSet 0 (icCompMonitor b.target) (b.monitorEntry - MON_TEXT b.target) s.comp
  let c₁ := compartmentSet 1 (icCompAttacker b.target) (b.atkEntry 0 - ATK_TEXT b.target) c₀
  let c₂ := compartmentSet 2 (natSpec b.target s.natLive) (s.nat s.natLive).entry c₁
  have h0 : c₂.comps 0 = ⟨icCompMonitor b.target, b.monitorEntry - MON_TEXT b.target, false, false,
      fun _ => 0⟩ := by
    rw [compartmentSet_frame (by decide), compartmentSet_frame (by decide),
      compartmentSet_comps (by decide)]
  have h1 : c₂.comps 1 = ⟨icCompAttacker b.target, b.atkEntry 0 - ATK_TEXT b.target, false, false,
      fun _ => 0⟩ := by
    rw [compartmentSet_frame (by decide), compartmentSet_comps (by decide)]
  have h2 : c₂.comps 2 = ⟨natSpec b.target s.natLive, (s.nat s.natLive).entry, false, false,
      fun _ => 0⟩ := compartmentSet_comps (by decide) _ _ _
  have hspec : ∀ i < 3, (c₂.comps i).spec = windowOf b.target s.natLive i := by
    intro i hi
    obtain rfl | rfl | rfl : i = 0 ∨ i = 1 ∨ i = 2 := by omega
    · rw [h0]
      rfl
    · rw [h1]
      rfl
    · rw [h2]
      rfl
  -- the monitor's flag is dropped, so this arming is a fresh one
  have hmapped : Mapped b s.natLive (compartmentArm 0 c₂) := by
    refine ⟨fun i hi => ?_, (compartmentArm_flags (by decide) fun harmed => ?_).1⟩
    · rw [(compartmentArm_body 0 i c₂).spec]
      exact hspec i hi
    · rw [h0] at harmed
      cases harmed
  unfold scheduleRound
  dsimp only
  split
  · exact enterChecked_window hmapped (by decide)
  · exact enterChecked_window hmapped (by decide)

end Rounds

/-! ## Whole runs -/

theorem bootMain_window (b : Build) (input : BootInput) (s : Sup) :
    UserWindow b (bootMain b input s) := by
  unfold bootMain
  simp only [bootGate_eq_zero, ne_eq, not_true_eq_false, if_false]
  exact scheduleRound_window b _

/-- Step lemma: whatever happens, U-mode runs in its own window. -/
theorem machineStep_window {b : Build} {s s' : Sup} {e : Event} (h : UserWindow b s)
    (hstep : machineStep b s e = some s') : UserWindow b s' := by
  cases machineStep_moved hstep with
  | user u eff => cases eff <;> exact h
  | ecall u regs hctl => exact supervisorResume_window ((h u hctl).mapped.saved regs)
  | fault u cause addr regs hctl => exact supervisorFault_window ((h u hctl).mapped.saved regs) cause
  | turn seen frame s' hctl hturn =>
    obtain ⟨s₁, hs₁, rfl⟩ := Option.map_eq_some_iff.mp hturn
    unfold endTurn
    split
    · exact scheduleRound_window b _
    · intro u hu
      exact Control.noConfusion ((hctl.symm.trans (turn_ctl hs₁).symm).trans hu)
  | poll frame hctl =>
    intro u hu
    exact Control.noConfusion ((hctl.symm.trans (chanPoll_frame frame s).2.symm).trans hu)
  | swap s' hctl hswap =>
    intro u hu
    exact Control.noConfusion ((hctl.symm.trans (hotSwap_frame hswap).1.symm).trans hu)
  | finalize hctl =>
    intro u hu
    exact Control.noConfusion ((hctl.symm.trans (hotUpdateFinalize_ctl s).symm).trans hu)
  | round => exact scheduleRound_window b _
  | beat hctl =>
    intro u hu
    exact Control.noConfusion (hctl.symm.trans hu)
  | stage => exact h
  | reset area input => exact bootMain_window b input _

theorem userWindow_reachable {b : Build} {s : Sup} (h : Reachable (machine b) s) :
    UserWindow b s := by
  refine h.invariant ?_ fun s e s' => machineStep_window
  rintro _ ⟨raw, input, rfl⟩
  exact bootMain_window b input raw

/-! ## What U-mode can reach -/

/-- Stores of U-mode, one after the other: the first one the PMP refuses
    traps, and the lifetime is over. -/
def userStores (unmatched : Bool) (csr : Nat → U32) :
    List (U32 × U8) → (U32 → U8) → U32 → U8
  | [], mem => mem
  | (a, v) :: stores, mem =>
    if userAccess unmatched csr .store a then
      userStores unmatched csr stores (Function.update mem a v)
    else mem

/-- What the PMP refuses to store to keeps its value. -/
theorem userStores_frame {unmatched : Bool} {csr : Nat → U32} {a : U32}
    (ha : userAccess unmatched csr .store a = false) (stores : List (U32 × U8)) (mem : U32 → U8) :
    userStores unmatched csr stores mem a = mem a := by
  induction stores generalizing mem with
  | nil => rfl
  | cons store stores ih =>
    obtain ⟨a', v⟩ := store
    rw [userStores]
    split
    · next hstore =>
      have hne : a ≠ a' := by
        rintro rfl
        rw [ha] at hstore
        cases hstore
      rw [ih, Function.update_of_ne hne]
    · rfl

/-- What a lifetime of compartment `i` can do to memory. -/
structure UserConfined (b : Build) (s : Sup) (i : Nat) (unmatched : Bool) : Prop where
  window : PmpContains unmatched s.comp.csr (windowOf b.target s.natLive i)
  denied : ∀ r ∈ offLimits b.target s.natLive i, ∀ a : U32, r.holds a.toNat = true →
    ∀ acc, userAccess unmatched s.comp.csr acc a = false
  stores : ∀ (stores : List (U32 × U8)) (mem : U32 → U8) (a : U32),
    (windowOf b.target s.natLive i).sram.holds a.toNat = false →
      userStores unmatched s.comp.csr stores mem a = mem a

theorem InWindow.contains {b : Build} {live : Fin 2} {t : CompTable} {e : UserEntry}
    (h : InWindow b live t e) (unmatched : Bool) :
    PmpContains unmatched t.csr (windowOf b.target live e.comp) := by
  have hi : e.comp < COMP_COUNT := Nat.lt_of_lt_of_le h.comp (by decide)
  have hcsr := h.mapped.flags e.comp hi h.armed
  rw [h.mapped.spec e.comp h.comp] at hcsr
  obtain ⟨hcheck, hsram, htext⟩ := windowOf_aligned b.target live e.comp
  obtain ⟨htextOk, hsramOk⟩ := icCompartmentCheck_ok hcheck
  have haddr := pmpEntries_addr hcsr
  refine pmpContains_of_words hcsr ?_ ?_ unmatched
  · rw [haddr.1]
    exact napotRegion_NAPOT hsramOk hsram
  · rw [haddr.2]
    exact napotRegion_NAPOT htextOk htext

/-- Any access that is granted is in one of the two windows. -/
theorem PmpContains.granted {unmatched : Bool} {csr : Nat → U32} {spec : IcCompartmentSpec}
    (h : PmpContains unmatched csr spec) {acc : Pmp.Access} {a : U32}
    (hacc : userAccess unmatched csr acc a = true) :
    ∃ r ∈ spec.regions, r.holds a.toNat = true := by
  cases acc with
  | load =>
    rcases (h.load a).mp hacc with hsram | htext
    · exact ⟨_, List.mem_cons_self, hsram⟩
    · exact ⟨_, List.mem_cons_of_mem _ List.mem_cons_self, htext⟩
  | store => exact ⟨_, List.mem_cons_self, (h.store a).mp hacc⟩
  | fetch => exact ⟨_, List.mem_cons_of_mem _ List.mem_cons_self, ((h.fetch a).mp hacc).1⟩

/-- **Isolation.** In every run after a boot, whenever U-mode runs, the PMP
    grants it the two windows of the compartment that was entered and
    nothing else: no load, store or fetch reaches the supervisor, the timer,
    the watchdog, another compartment or the dormant native slot, and no
    sequence of stores changes a byte outside its own SRAM. -/
theorem machine_userConfined {b : Build} {s : Sup} (h : Reachable (machine b) s) {e : UserEntry}
    (hctl : s.ctl = .user e) : e.comp < 3 ∧ ∀ unmatched, UserConfined b s e.comp unmatched := by
  have hwindow := userWindow_reachable h e hctl
  refine ⟨hwindow.comp, fun unmatched => ?_⟩
  have hcontains := hwindow.contains unmatched
  refine ⟨hcontains, fun r hr a ha acc => ?_, fun stores mem a ha => ?_⟩
  · by_contra hgranted
    obtain ⟨r', hr', ha'⟩ := hcontains.granted (Bool.eq_true_of_not_eq_false hgranted)
    have hapart := windowOf_apart b.target s.natLive hwindow.comp r' hr' r hr
    rw [hapart.not_holds ha'] at ha
    cases ha
  · refine userStores_frame ?_ stores mem
    rw [Bool.eq_false_iff]
    intro hstore
    rw [(hcontains.store a).mp hstore] at ha
    cases ha

/-- The first round of a blank machine: the monitor right after boot, and
    the native module, ten yields later. -/
theorem machine_userConfined_firstRound :
    (∀ unmatched, UserConfined (.pinning []) (bootMain (.pinning []) ⟨none, false⟩ .zeroed) 0
      unmatched) ∧
    ∃ s, run (machineStep (.pinning [])) (bootMain (.pinning []) ⟨none, false⟩ .zeroed)
        passYields = some s ∧
      ∀ unmatched, UserConfined (.pinning []) s 2 unmatched := by
  have hboot : (bootMain (.pinning []) ⟨none, false⟩ .zeroed).ctl.runs 0 = true := by
    decide +kernel
  have hyields : ((run (machineStep (.pinning [])) (bootMain (.pinning []) ⟨none, false⟩ .zeroed)
      passYields).map fun s => s.ctl.runs 2) = some true := by
    decide +kernel
  obtain ⟨s, hs, hnative⟩ := Option.map_eq_some_iff.mp hyields
  obtain ⟨e, hctl, hcomp⟩ := of_runs hboot
  obtain ⟨e', hctl', hcomp'⟩ := of_runs hnative
  have hconfined := (machine_userConfined (.init ⟨.zeroed, ⟨none, false⟩, rfl⟩) hctl).2
  have hconfined' := (machine_userConfined (reachable_of_run hs) hctl').2
  rw [hcomp] at hconfined
  rw [hcomp'] at hconfined'
  exact ⟨hconfined, s, hs, hconfined'⟩

end Interclus

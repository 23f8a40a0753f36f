import Interclus.Isolation.Containment
import Interclus.Supervisor.Machine
import Interclus.Supervisor.ServiceTurn

/-! # Native Slots

    Two slots hold native modules, one of them is live, and a slot that
    faults is out after one strike.  Five functions move parts of this
    table; here it is one abstract object with two operations, and each
    function is one of them, or none.

    The table is carried through a round to the windows that are armed: when
    the native compartment runs, it runs the live slot. -/

namespace Interclus

open Words LTS

/-! ## The slot table -/

/-- A module in the slot may run. -/
def NatSlot.Runs (c : NatSlot) : Prop := c.valid = true ∧ c.evicted = false

/-- `g_nat`, `g_nat_live` and `g_nat_retired`. -/
structure NatTable where
  slot : Fin 2 → NatSlot
  live : Fin 2
  retired : Bool

/-- There is a live slot that runs, or no slot does. -/
structure NatTable.Sound (t : NatTable) : Prop where
  live : t.retired = false → (t.slot t.live).Runs
  retired : t.retired = true → ∀ k, ¬ (t.slot k).Runs

/-- Slot `k` gets `c` and goes live. -/
def NatTable.activate (t : NatTable) (k : Fin 2) (c : NatSlot) : NatTable where
  slot := fun j => if j = k then c else t.slot j
  live := k
  retired := false

/-- The slots after a strike against the live one. -/
def NatTable.struck (t : NatTable) : Fin 2 → NatSlot := fun j =>
  if j = t.live then { t.slot t.live with evicted := true } else t.slot j

/-- The live slot is out; the other one goes live, or none is left. -/
def NatTable.strike (t : NatTable) : NatTable :=
  if (t.struck (otherSlot t.live)).valid ∧ ¬ (t.struck (otherSlot t.live)).evicted then
    ⟨t.struck, otherSlot t.live, false⟩
  else ⟨t.struck, t.live, true⟩

/-- Kept by the operations, with activations of the slots of `R` only. -/
structure NatTable.Closed (R : Fin 2 → Prop) (P : NatTable → Prop) : Prop where
  activate : ∀ t k c, R k → c.Runs → P t → P (t.activate k c)
  strike : ∀ t, P t → P t.strike

theorem NatTable.activate_slot (t : NatTable) (k : Fin 2) (c : NatSlot) :
    (t.activate k c).slot k = c := if_pos rfl

theorem NatTable.activate_sound {c : NatSlot} (h : c.Runs) (t : NatTable) (k : Fin 2) :
    (t.activate k c).Sound where
  live _ := by
    show ((t.activate k c).slot k).Runs
    rw [activate_slot]
    exact h
  retired hr := by cases hr

theorem eq_or_eq_otherSlot (j k : Fin 2) : j = k ∨ j = otherSlot k := by
  revert j k
  decide

theorem NatTable.struck_live (t : NatTable) : (t.struck t.live).evicted = true := by
  unfold struck
  rw [if_pos rfl]

theorem NatTable.strike_slot (t : NatTable) : t.strike.slot = t.struck := by
  unfold strike
  split <;> rfl

/-- Whatever the table was. -/
theorem NatTable.strike_sound (t : NatTable) : t.strike.Sound := by
  unfold strike
  split
  · next h =>
    refine ⟨fun _ => ⟨h.1, ?_⟩, fun hr => Bool.noConfusion hr⟩
    exact Bool.eq_false_of_not_eq_true h.2
  · next h =>
    refine ⟨fun hr => Bool.noConfusion hr, fun _ k hk => ?_⟩
    -- the struck slot is out, and the other one did not run before either
    have hk : (t.struck k).valid = true ∧ (t.struck k).evicted = false := hk
    rcases eq_or_eq_otherSlot k t.live with rfl | rfl
    · rw [t.struck_live] at hk
      exact Bool.noConfusion hk.2
    · exact h ⟨hk.1, by rw [hk.2]; decide⟩

theorem NatTable.closed_sound (R : Fin 2 → Prop) : Closed R Sound where
  activate t k _ _ hc _ := activate_sound hc t k
  strike t _ := t.strike_sound

/-- An evicted slot stays evicted until it is activated. -/
theorem NatTable.closed_evicted {R : Fin 2 → Prop} {k : Fin 2} (hk : ¬ R k) :
    Closed R fun t => (t.slot k).evicted = true where
  activate t j c hj _ h := by
    -- another slot is activated
    have hne : k ≠ j := fun h => hk (h ▸ hj)
    show (if k = j then c else t.slot k).evicted = true
    rw [if_neg hne]
    exact h
  strike t h := by
    rw [strike_slot]
    unfold struck
    split
    · rfl
    · exact h

/-! ## What the native phase rests on -/

def Sup.natTable (s : Sup) : NatTable := ⟨s.nat, s.natLive, s.natRetired⟩

structure NativeView where
  table : NatTable
  comp : CompTable
  phase : U32
  ctl : Control

def Sup.native (s : Sup) : NativeView := ⟨s.natTable, s.comp, s.phase, s.ctl⟩

/-- The native compartment describes the live slot, and is not armed yet. -/
structure NativeReady (b : Build) (v : NativeView) : Prop where
  table : v.table.Sound
  spec : (v.comp.comps 2).spec = natSpec b.target v.table.live
  entry : (v.comp.comps 2).entry = (v.table.slot v.table.live).entry
  unarmed : (v.comp.comps 2).armed = false

/-- The native compartment was entered as the live slot: at its entry, and
    with exactly its windows. -/
structure NativeEntered (b : Build) (t : NatTable) (comp : CompTable) (e : UserEntry) : Prop where
  retired : t.retired = false
  live : (t.slot t.live).Runs
  mepc : e.mepc = (natSpec b.target t.live).textBase + (t.slot t.live).entry
  windows : ∀ unmatched, PmpContains unmatched comp.csr (natSpec b.target t.live)

structure NativeInv (b : Build) (v : NativeView) : Prop where
  table : v.table.Sound
  cur : ∀ e, v.ctl = .user e → v.comp.curComp = e.comp
  waiting : ∀ e, v.ctl = .user e → e.comp ≠ 2 → NativeReady b v
  running : ∀ e, v.ctl = .user e → e.comp = 2 → v.phase = 5 ∧ NativeEntered b v.table v.comp e

theorem NativeInv.of_idle {b : Build} {v : NativeView} (h : v.table.Sound)
    (hctl : ∀ e, v.ctl ≠ .user e) : NativeInv b v :=
  ⟨h, fun e he => absurd he (hctl e), fun e he => absurd he (hctl e),
    fun e he => absurd he (hctl e)⟩

/-! ## Compartments -/

/-- Whatever leaves the table and its description alone leaves the native
    compartment ready. -/
theorem NativeReady.frame {b : Build} {v v' : NativeView} (h : NativeReady b v)
    (htable : v'.table = v.table) (hcomp : v'.comp.comps 2 = v.comp.comps 2) :
    NativeReady b v' := by
  refine ⟨?_, ?_, ?_, ?_⟩
  · rw [htable]
    exact h.table
  · rw [hcomp, htable]
    exact h.spec
  · rw [hcomp, htable]
    exact h.entry
  · rw [hcomp]
    exact h.unarmed

/-- Arming another compartment does. -/
theorem compartmentArm_frame {i j : Nat} (hij : j ≠ i) {t : CompTable}
    (h : (t.comps j).armed = false) : (compartmentArm i t).comps j = t.comps j := by
  unfold compartmentArm
  split
  · rfl
  · show (if j < COMP_COUNT then { t.comps j with armed := decide (j = i) } else t.comps j) = _
    rw [decide_eq_false hij, ← h]
    split <;> rfl

theorem compartmentSet_frame {i j : Nat} (hij : j ≠ i) (spec : IcCompartmentSpec) (entry : U32)
    (t : CompTable) : (compartmentSet i spec entry t).comps j = t.comps j := by
  unfold compartmentSet
  split
  · rfl
  · exact if_neg hij

theorem compartmentEvict_frame {i j : Nat} (hij : j ≠ i) (t : CompTable) :
    (compartmentEvict i t).comps j = t.comps j := by
  unfold compartmentEvict
  split
  · rfl
  · exact if_neg hij

/-- Both native windows are aligned to their size. -/
theorem natSpec_aligned (t : Target) (k : Fin 2) :
    icCompartmentCheck (some (natSpec t k)) = .ok ∧
      (natSpec t k).sramBase.toNat % (natSpec t k).sramSize.toNat = 0 ∧
      (natSpec t k).textBase.toNat % (natSpec t k).textSize.toNat = 0 := by
  have hall : ∀ k : Fin 2, ∀ t ∈ [Target.qemu, .board],
      icCompartmentCheck (some (natSpec t k)) = .ok ∧
        (natSpec t k).sramBase.toNat % (natSpec t k).sramSize.toNat = 0 ∧
        (natSpec t k).textBase.toNat % (natSpec t k).textSize.toNat = 0 := by
    decide
  exact hall k t (by cases t <;> simp)

/-- Entering the ready compartment arms the live slot. -/
theorem NativeReady.enter {b : Build} {v : NativeView} {comp : CompTable} {e : UserEntry}
    (h : NativeReady b v) (hretired : v.table.retired = false)
    (henter : compartmentEnter 2 v.comp = some (comp, e)) : NativeEntered b v.table comp e := by
  unfold compartmentEnter at henter
  split at henter
  · cases henter
  · cases henter
    have hcsr := compartmentArm_csr (i := 2) (by decide) h.unarmed
    have haddr := pmpEntries_addr hcsr
    rw [h.spec] at hcsr haddr
    obtain ⟨hcheck, hsram, htext⟩ := natSpec_aligned b.target v.table.live
    obtain ⟨htextOk, hsramOk⟩ := icCompartmentCheck_ok hcheck
    have hcomps : ((compartmentArm 2 v.comp).comps 2).spec = (v.comp.comps 2).spec ∧
        ((compartmentArm 2 v.comp).comps 2).entry = (v.comp.comps 2).entry := by
      unfold compartmentArm
      split <;> exact ⟨rfl, rfl⟩
    refine ⟨hretired, h.table.live hretired, ?_,
      fun unmatched => pmpContains_of_words hcsr ?_ ?_ unmatched⟩
    · dsimp only
      rw [hcomps.1, hcomps.2, h.spec, h.entry]
    · rw [haddr.1]
      exact napotRegion_NAPOT hsramOk hsram
    · rw [haddr.2]
      exact napotRegion_NAPOT htextOk htext

/-! ## A round carries the table -/

theorem compartmentEnter_some {i : Nat} {comp comp' : CompTable} {e : UserEntry}
    (h : compartmentEnter i comp = some (comp', e)) :
    comp'.curComp = i ∧ e.comp = i ∧ comp'.comps = (compartmentArm i comp).comps := by
  unfold compartmentEnter at h
  split at h
  · cases h
  · cases h
    exact ⟨rfl, rfl, rfl⟩

section Rounds
variable {b : Build}

@[simp] theorem enterChecked_natTable (i : Nat) (s : Sup) :
    (enterChecked i s).natTable = s.natTable := by
  obtain ⟨status, comp, ctl, h, -⟩ := enterChecked_frame i s
  rw [h]
  rfl

@[simp] theorem nativeDone_natTable (proof : Bool) (s : Sup) :
    (nativeDone b proof s).natTable = s.natTable := by
  unfold nativeDone
  dsimp only
  split <;> rfl

@[simp] theorem scheduleRound_natTable (s : Sup) :
    (scheduleRound b s).natTable = s.natTable := by
  unfold scheduleRound
  simp only [enterChecked_natTable]
  split <;> rfl

@[simp] theorem hotRound_natTable (s : Sup) : (hotRound b s).natTable = s.natTable :=
  scheduleRound_natTable _

@[simp] theorem endTurn_natTable (seen : U32) (ev : Nat) (s : Sup) :
    (endTurn b seen ev s).natTable = s.natTable := by
  unfold endTurn
  split
  · exact hotRound_natTable s
  · rfl

@[simp] theorem atkSchedule_natTable (v : Nat) (s : Sup) :
    (atkSchedule b v s).natTable = s.natTable := by
  unfold atkSchedule
  rw [enterChecked_natTable]
  rfl

@[simp] theorem nativePhase_natTable (s : Sup) : (nativePhase b s).natTable = s.natTable := by
  unfold nativePhase
  split
  · rw [nativeDone_natTable]
    rfl
  · rw [enterChecked_natTable]
    rfl

theorem atkRecord_native (s : Sup) : (atkRecord s).native = s.native := by
  unfold atkRecord
  dsimp only
  split <;> split <;> rfl

@[simp] theorem atkAdvance_natTable (s : Sup) : (atkAdvance b s).natTable = s.natTable := by
  have hrecord := congrArg NativeView.table (atkRecord_native s)
  unfold atkAdvance
  dsimp only
  split
  · rw [atkSchedule_natTable]
    exact hrecord
  · rw [nativePhase_natTable]
    exact hrecord

theorem rollback_native (s : Sup) : (rollback s).native = s.native := by
  unfold rollback
  split
  · dsimp only
    split <;> rfl
  · rfl

@[simp] theorem nextMode_natTable (mode : U32) (s : Sup) :
    (nextMode mode s).natTable = s.natTable := by
  unfold nextMode
  rw [enterChecked_natTable]
  rfl

@[simp] theorem supervisorResume_natTable (s : Sup) :
    (supervisorResume b s).natTable = s.natTable := by
  unfold supervisorResume
  split
  · rw [nextMode_natTable]
    exact congrArg NativeView.table (rollback_native (noteVerdicts s))
  split
  · rw [nextMode_natTable]
    rfl
  split
  · rw [atkSchedule_natTable]
    rfl
  split
  · exact atkAdvance_natTable s
  · exact nativeDone_natTable true s

/-! ## A round enters the live slot -/

/-- Entering a compartment, the native one only in phase 5 of a session
    that is not retired. -/
theorem enterChecked_inv {i : Nat} {s : Sup} (h : NativeReady b s.native)
    (hi : i = 2 → s.phase = 5 ∧ s.natRetired = false) : NativeInv b (enterChecked i s).native := by
  unfold enterChecked
  split
  · exact .of_idle h.table nofun
  · split
    · next comp e henter =>
      obtain ⟨hcur, hcomp, hcomps⟩ := compartmentEnter_some henter
      refine ⟨h.table, ?_, ?_, ?_⟩
      -- the entry that was just made: no invariant of an earlier one is needed
      · rintro _ ⟨⟩
        exact hcur.trans hcomp.symm
      · rintro _ ⟨⟩ hne
        have hne : 2 ≠ i := fun h2 => hne (hcomp.trans h2.symm)
        exact h.frame rfl ((congrFun hcomps 2).trans (compartmentArm_frame hne h.unarmed))
      · rintro _ ⟨⟩ h2
        obtain rfl : i = 2 := hcomp.symm.trans h2
        exact ⟨(hi rfl).1, h.enter (hi rfl).2 henter⟩
    · exact .of_idle h.table nofun

theorem nativeDone_inv {s : Sup} (h : s.natTable.Sound) (proof : Bool) :
    NativeInv b (nativeDone b proof s).native := by
  refine .of_idle (show (nativeDone b proof s).natTable.Sound from ?_) ?_
  · rw [nativeDone_natTable]
    exact h
  · unfold nativeDone
    dsimp only
    split
    · exact nofun
    · exact nofun

theorem nativePhase_inv {s : Sup} (h : NativeReady b s.native) :
    NativeInv b (nativePhase b s).native := by
  unfold nativePhase
  split
  · refine nativeDone_inv ?_ false
    exact h.table
  · next hrun =>
    have hretired := (not_or.mp hrun).1
    exact enterChecked_inv (h.frame rfl rfl) fun _ => ⟨rfl, Bool.eq_false_of_not_eq_true hretired⟩

theorem atkSchedule_inv {s : Sup} (h : NativeReady b s.native) (v : Nat) :
    NativeInv b (atkSchedule b v s).native := by
  have hset := compartmentSet_frame (show 2 ≠ 1 by decide) (icCompAttacker b.target)
    (b.atkEntry v - ATK_TEXT b.target) s.comp
  have hunarmed : ((compartmentSet 1 (icCompAttacker b.target)
      (b.atkEntry v - ATK_TEXT b.target) s.comp).comps 2).armed = false := by
    rw [hset]
    exact h.unarmed
  unfold atkSchedule
  refine enterChecked_inv (h.frame rfl ?_) nofun
  exact (compartmentArm_frame (show 2 ≠ 1 by decide) hunarmed).trans hset

theorem atkAdvance_inv {s : Sup} (h : NativeReady b s.native) :
    NativeInv b (atkAdvance b s).native := by
  have hrecord : NativeReady b (atkRecord s).native := (atkRecord_native s).symm ▸ h
  unfold atkAdvance
  dsimp only
  split
  · exact atkSchedule_inv hrecord _
  · exact nativePhase_inv (hrecord.frame rfl rfl)

theorem nextMode_inv {s : Sup} (h : NativeReady b s.native) (mode : U32) :
    NativeInv b (nextMode mode s).native := by
  unfold nextMode
  refine enterChecked_inv (h.frame rfl ?_) nofun
  exact compartmentArm_frame (show 2 ≠ 0 by decide) h.unarmed

theorem supervisorResume_inv {s : Sup} (htable : s.natTable.Sound)
    (hready : s.phase ≠ 5 → NativeReady b s.native) : NativeInv b (supervisorResume b s).native := by
  have hphase : ∀ v : U32, v ≠ 5 → s.phase = v → NativeReady b s.native :=
    fun v hv h => hready (h ▸ hv)
  unfold supervisorResume
  -- one case per phase; from phase 5 on the session ends
  split
  · next h =>
    have hnoted : NativeReady b (noteVerdicts s).native := (hphase 1 (by decide) h).frame rfl rfl
    exact nextMode_inv ((rollback_native _).symm ▸ hnoted) 1
  split
  · next h =>
    refine nextMode_inv ?_ 2
    exact (hphase 2 (by decide) h).frame rfl rfl
  split
  · next h =>
    refine atkSchedule_inv ?_ 0
    exact (hphase 3 (by decide) h).frame rfl rfl
  split
  · next h => exact atkAdvance_inv (hphase 4 (by decide) h)
  · exact nativeDone_inv htable true

/-- A round sets the native compartment to the live slot. -/
theorem scheduleRound_inv {s : Sup} (h : s.natTable.Sound) :
    NativeInv b (scheduleRound b s).native := by
  -- 2 is set last, and the arming of 0 that follows leaves it alone
  let others := compartmentSet 1 (icCompAttacker b.target) (b.atkEntry 0 - ATK_TEXT b.target)
    (compartmentSet 0 (icCompMonitor b.target) (b.monitorEntry - MON_TEXT b.target) s.comp)
  let comp := compartmentSet 2 (natSpec b.target s.natLive) (s.nat s.natLive).entry others
  have hset : comp.comps 2 = ⟨natSpec b.target s.natLive, (s.nat s.natLive).entry, false, false,
      fun _ => 0⟩ := compartmentSet_comps (by decide) _ _ _
  have harm : (compartmentArm 0 comp).comps 2 = comp.comps 2 :=
    compartmentArm_frame (by decide) (congrArg Compartment.armed hset)
  have hcomps := harm.trans hset
  unfold scheduleRound
  dsimp only
  refine enterChecked_inv ?_ nofun
  split <;>
  · exact ⟨h, congrArg Compartment.spec hcomps, congrArg Compartment.entry hcomps,
      congrArg Compartment.armed hcomps⟩

/-! ## One strike -/

theorem teleFault_native (slot : Fin 2) (s : Sup) : (teleFault slot s).native = s.native := by
  obtain ⟨status, h⟩ := teleFault_eq slot s
  rw [h]
  rfl

/-- The telemetry and the counters aside, retiring a slot is the strike. -/
theorem retireSlot_natTable (s : Sup) : (retireSlot s).natTable = s.natTable.strike := by
  have htele := congrArg NativeView.table (teleFault_native s.natLive
    ((s.setNat s.natLive { s.nat s.natLive with evicted := true }).setStatus S_NAT2 0))
  unfold retireSlot
  dsimp only
  generalize teleFault s.natLive _ = sent at htele
  have hslot : sent.nat = s.natTable.struck := congrArg NatTable.slot htele
  have hlive : sent.natLive = s.natLive := congrArg NatTable.live htele
  -- `retireSlot` looks at the other slot where the strike does
  rw [hslot]
  split
  · next hother =>
    have hstrike : s.natTable.strike = ⟨s.natTable.struck, otherSlot s.natLive, false⟩ :=
      if_pos hother
    rw [hstrike, ← hslot]
    rfl
  · next hother =>
    have hstrike : s.natTable.strike = ⟨s.natTable.struck, s.natLive, true⟩ := if_neg hother
    rw [hstrike, ← hslot, ← hlive]
    rfl

theorem evictRunning_native (cause : U32) (s : Sup) :
    (evictRunning cause s).native =
      { s.native with comp := compartmentEvict s.comp.curComp s.comp } := by
  unfold evictRunning
  split <;> rfl

theorem compartmentEvict_curComp (i : Nat) (t : CompTable) :
    (compartmentEvict i t).curComp = t.curComp := by
  unfold compartmentEvict
  split <;> rfl

/-- A fault is a strike in the native phase, and moves no slot before. -/
theorem supervisorFault_natTable (cause : U32) (s : Sup) :
    (supervisorFault b cause s).natTable =
      if 5 ≤ s.phase ∧ s.comp.curComp = 2 then s.natTable.strike else s.natTable := by
  have hevict := evictRunning_native cause s
  unfold supervisorFault
  generalize evictRunning cause s = evicted at hevict
  have htable : evicted.natTable = s.natTable := congrArg NativeView.table hevict
  have hphase : evicted.phase = s.phase := congrArg NativeView.phase hevict
  have hcur : evicted.comp.curComp = s.comp.curComp :=
    (congrArg (fun v => v.comp.curComp) hevict).trans (compartmentEvict_curComp _ _)
  dsimp only
  rw [hphase, hcur]
  split
  · next h4 =>
    -- an attacker faulted: the next variant is scheduled
    rw [if_neg (by rw [h4]; exact fun h => absurd h.1 (by decide)), atkAdvance_natTable, htable]
  · split
    · next h5 =>
      rw [nativeDone_natTable]
      split
      · next h2 => rw [if_pos ⟨h5, h2⟩, retireSlot_natTable, htable]
      -- in phase 5, but with another compartment current
      · next h2 => rw [if_neg fun h => h2 h.2, htable]
    · next h5 =>
      rw [if_neg fun h => h5 h.1]
      exact htable

/-- A fault from phase 5 on ends the pass. -/
theorem supervisorFault_done (cause : U32) {s : Sup} (h5 : 5 ≤ s.phase) :
    ∃ s₁, supervisorFault b cause s = nativeDone b false s₁ := by
  have hphase : (evictRunning cause s).phase = s.phase :=
    congrArg NativeView.phase (evictRunning_native cause s)
  have h4 : ¬ s.phase = 4 := fun h => absurd (h ▸ h5) (by decide)
  unfold supervisorFault
  dsimp only
  rw [hphase, if_neg h4, if_pos h5]
  exact ⟨_, rfl⟩

theorem supervisorFault_inv {s : Sup} (htable : s.natTable.Sound)
    (hready : s.comp.curComp ≠ 2 → NativeReady b s.native)
    (hphase : s.comp.curComp = 2 → s.phase = 5) (cause : U32) :
    NativeInv b (supervisorFault b cause s).native := by
  have hevict := evictRunning_native cause s
  have hsound : (supervisorFault b cause s).natTable.Sound := by
    rw [supervisorFault_natTable]
    split
    · exact s.natTable.strike_sound
    · exact htable
  unfold supervisorFault at hsound ⊢
  generalize evictRunning cause s = evicted at hevict hsound
  have hevicted : evicted.phase = s.phase := congrArg NativeView.phase hevict
  dsimp only at hsound ⊢
  split
  · next h4 =>
    -- in the attacker phase the native compartment waits
    have hcur : s.comp.curComp ≠ 2 := fun h2 => by
      rw [hevicted, hphase h2] at h4
      exact absurd h4 (by decide)
    refine atkAdvance_inv ?_
    rw [hevict]
    exact (hready hcur).frame rfl (compartmentEvict_frame hcur.symm _)
  · next h4 =>
    rw [if_neg h4] at hsound
    split
    · next h5 =>
      rw [if_pos h5, nativeDone_natTable] at hsound
      exact nativeDone_inv hsound false
    · next h5 =>
      rw [if_neg h5] at hsound
      exact .of_idle hsound nofun

end Rounds

/-! ## Re-arming and installing -/

/-- A frame that re-arms slot `k`. -/
def Rearms (k : Fin 2) : Option ConsoleFrame → Prop
  | some f => f.type = FRAME_REARM ∧ f.n = 4 ∧ le32 f.stage 0 = BitVec.ofNat 32 k
  | none => False

/-- A staged image that `hot_swap` installs into slot `k`. -/
structure InstallsNative (b : Build) (s : Sup) (k : Fin 2) : Prop where
  magic : s.pendOk = PROG_PEND_MAGIC
  kind : pendKind s.pend = PEND_NATIVE
  trusted : pendTrusted b.trusted s.pend = true
  gate : nativeGate b.target (pendW0 s.pend) (pendEntry s.pend) (pendSlot s.pend) = true
  slot : pendSlot s.pend = BitVec.ofNat 32 k

instance (b : Build) (s : Sup) (k : Fin 2) : Decidable (InstallsNative b s k) :=
  decidable_of_iff (s.pendOk = PROG_PEND_MAGIC ∧ pendKind s.pend = PEND_NATIVE ∧
      pendTrusted b.trusted s.pend = true ∧
      nativeGate b.target (pendW0 s.pend) (pendEntry s.pend) (pendSlot s.pend) = true ∧
      pendSlot s.pend = BitVec.ofNat 32 k)
    ⟨fun ⟨hm, hk, ht, hg, hs⟩ => ⟨hm, hk, ht, hg, hs⟩,
      fun h => ⟨h.magic, h.kind, h.trusted, h.gate, h.slot⟩⟩

theorem eq_slotOf {slot : U32} (h : slot ≤ 1) : slot = BitVec.ofNat 32 (slotOf slot) := by
  unfold slotOf
  split
  · next h0 => exact h0
  · next h0 =>
    show slot = 1
    bv_omega

/-- A console frame re-arms a slot, or moves nothing of this. -/
theorem chanPoll_native (frame : Option ConsoleFrame) (s : Sup) :
    (chanPoll frame s).2.native = s.native ∨
      ∃ k c, Rearms k frame ∧ c.Runs ∧
        (chanPoll frame s).2.native = { s.native with table := s.natTable.activate k c } := by
  cases frame with
  | none => exact .inl rfl
  | some f =>
    have hpolled := framePolled f s
    generalize chanPoll (some f) s = polled at hpolled ⊢
    cases hpolled with
    | command =>
      left
      unfold pollUpdate
      dsimp only
      split <;>
      · rw [updateSendReply_eq]
        rfl
    | rearmed tx htype hlen hslot hvalid =>
      exact .inr ⟨_, { s.nat (slotOf (le32 f.stage 0)) with evicted := false },
        ⟨htype, hlen, eq_slotOf hslot⟩, ⟨hvalid, rfl⟩, rfl⟩
    | _ => exact .inl rfl

/-- `hot_swap` installs into a slot, or moves nothing of this. -/
theorem hotSwap_native {b : Build} {s s' : Sup} (h : hotSwap b s = some s') :
    s'.native = s.native ∨
      ∃ k c, InstallsNative b s k ∧ c.Runs ∧ s'.natTable = s.natTable.activate k c := by
  -- nothing staged, refused, a native module, a program
  rcases hotSwap_cases b s with ⟨-, hs⟩ | ⟨-, hs⟩ | ⟨hm, hk, ht, hg, hs⟩ | ⟨-, -, -, -, hs⟩ <;>
    rw [hs] at h
  · cases h
    exact .inl rfl
  · cases h
    exact .inl rfl
  · obtain ⟨s₁, hs₁, rfl⟩ := Option.map_eq_some_iff.mp h
    obtain ⟨⟨ret, mirror⟩, -, rfl⟩ := Option.map_eq_some_iff.mp hs₁
    obtain ⟨-, -, -, -, hslot⟩ := nativeGate_bounds hg
    exact .inr ⟨_, ⟨pendW0 s.pend, pendEntry s.pend, true, false⟩,
      ⟨hm, hk, ht, hg, eq_slotOf hslot⟩, ⟨rfl, rfl⟩, rfl⟩
  · cases h
    exact .inl rfl

theorem hotUpdateFinalize_native (s : Sup) : (hotUpdateFinalize s).native = s.native := by
  unfold hotUpdateFinalize
  split
  · rfl
  · dsimp only
    split
    · rfl
    · unfold settle updateSendReply
      rw [sendFrameLimited_eq]
      rfl

/-! ## Steps -/

/-- The events that bring a slot back: a re-arm that names it, an install
    into it, a boot. -/
def Revives (b : Build) (s : Sup) (k : Fin 2) : Event → Prop
  | .turn frame => Rearms k frame ∨ InstallsNative b (chanPoll frame s).2 k
  | .poll frame => Rearms k frame
  | .swap => InstallsNative b s k
  | .reset .. => True
  | _ => False

section Steps
variable {b : Build} {R : Fin 2 → Prop} {P : NatTable → Prop}

theorem chanPoll_closed (hP : NatTable.Closed R P) {frame : Option ConsoleFrame}
    (hR : ∀ k, Rearms k frame → R k) {s : Sup} (h : P s.natTable) :
    P (chanPoll frame s).2.natTable := by
  rcases chanPoll_native frame s with hs | ⟨k, c, hk, hc, hs⟩
  · rw [show (chanPoll frame s).2.natTable = _ from congrArg NativeView.table hs]
    exact h
  · rw [show (chanPoll frame s).2.natTable = _ from congrArg NativeView.table hs]
    exact hP.activate _ k c (hR k hk) hc h

theorem hotSwap_closed (hP : NatTable.Closed R P) {s s' : Sup}
    (hR : ∀ k, InstallsNative b s k → R k) (hs : hotSwap b s = some s') (h : P s.natTable) :
    P s'.natTable := by
  rcases hotSwap_native hs with hs | ⟨k, c, hk, hc, hs⟩
  · rw [show s'.natTable = _ from congrArg NativeView.table hs]
    exact h
  · rw [hs]
    exact hP.activate _ k c (hR k hk) hc h

theorem hotUpdateFinalize_natTable (s : Sup) : (hotUpdateFinalize s).natTable = s.natTable :=
  congrArg NativeView.table (hotUpdateFinalize_native s)

theorem supervisorFault_closed (hP : NatTable.Closed R P) (cause : U32) {s : Sup}
    (h : P s.natTable) : P (supervisorFault b cause s).natTable := by
  rw [supervisorFault_natTable]
  split
  · exact hP.strike _ h
  · exact h

/-- The table moves by its operations only, and a slot is activated only by
    the events that revive it. -/
theorem machineStep_closed {s s' : Sup} {e : Event}
    (hP : NatTable.Closed (fun k => Revives b s k e) P)
    (hboot : ∀ area input, e = .reset area input → P s'.natTable)
    (hstep : machineStep b s e = some s') (h : P s.natTable) : P s'.natTable := by
  cases machineStep_moved hstep with
  | user u eff => cases eff <;> exact h
  | ecall u regs =>
    unfold trapEcall
    rw [supervisorResume_natTable]
    exact h
  | fault u cause addr regs => exact supervisorFault_closed hP cause h
  | turn seen frame s' _ hturn =>
    obtain ⟨s₁, hs₁, rfl⟩ := Option.map_eq_some_iff.mp hturn
    rw [endTurn_natTable, hotUpdateFinalize_natTable]
    exact hotSwap_closed hP (fun k => .inr) hs₁ (chanPoll_closed hP (fun k => .inl) h)
  | poll frame => exact chanPoll_closed hP (fun k => id) h
  | swap s' _ hswap => exact hotSwap_closed hP (fun k => id) hswap h
  | finalize =>
    rw [hotUpdateFinalize_natTable]
    exact h
  | round =>
    rw [hotRound_natTable]
    exact h
  | beat => exact h
  | stage => exact h
  | reset area input => exact hboot area input rfl

end Steps

/-! ## Boot -/

/-- The table at boot: not retired, and the live slot runs. -/
def NatTable.Serving (t : NatTable) : Prop := t.retired = false ∧ (t.slot t.live).Runs

theorem NatTable.Serving.sound {t : NatTable} (h : t.Serving) : t.Sound :=
  ⟨fun _ => h.2, fun hr => absurd (h.1.symm.trans hr) (by decide)⟩

/-- A page that is refused leaves the validity of its slot alone. -/
theorem restoreSlot_serving (b : Build) {s : Sup} (h : s.natTable.Serving) (k : Fin 2) :
    (restoreSlot b s k).natTable.Serving := by
  have hentry : ∀ v : U32, (s.setNat k { s.nat k with entry := v }).natTable.Serving := by
    intro v
    refine ⟨h.1, ?_⟩
    show NatSlot.Runs (if s.natLive = k then { s.nat k with entry := v } else s.nat s.natLive)
    split
    · next hk => exact hk ▸ h.2
    · exact h.2
  unfold restoreSlot
  dsimp only
  split
  · exact hentry _
  · split
    · exact hentry _
    · refine ⟨h.1, ?_⟩
      show NatSlot.Runs (if k = k then ⟨_, _, true, false⟩ else _)
      rw [if_pos rfl]
      exact ⟨rfl, rfl⟩

theorem bootRestore_serving (b : Build) (s : Sup) :
    (bootRestore b (natBuiltin b s)).natTable.Serving := by
  have hbuiltin : (natBuiltin b s).natTable.Serving := ⟨rfl, rfl, rfl⟩
  exact restoreSlot_serving b (restoreSlot_serving b hbuiltin 0) 1

/-! ## Whole runs -/

theorem bootMain_nativeInv (b : Build) (input : BootInput) (s : Sup) :
    NativeInv b (bootMain b input s).native := by
  unfold bootMain
  simp only [bootGate_eq_zero, ne_eq, not_true_eq_false, if_false]
  exact scheduleRound_inv (bootRestore_serving b _).sound

theorem NativeReady.saved {b : Build} {s : Sup} (h : NativeReady b s.native)
    (regs : Fin 32 → U32) : NativeReady b { s with comp := saveTcb regs s.comp }.native := by
  have hcomps : ((saveTcb regs s.comp).comps 2).spec = (s.comp.comps 2).spec ∧
      ((saveTcb regs s.comp).comps 2).entry = (s.comp.comps 2).entry ∧
      ((saveTcb regs s.comp).comps 2).armed = (s.comp.comps 2).armed := by
    unfold saveTcb
    split
    · exact ⟨rfl, rfl, rfl⟩
    · next i _ =>
      by_cases hi : 2 = i
      · subst hi
        exact ⟨rfl, rfl, rfl⟩
      · simp [CompTable.setComp, hi]
  exact ⟨h.table, hcomps.1.trans h.spec, hcomps.2.1.trans h.entry, hcomps.2.2.trans h.unarmed⟩

theorem saveTcb_curComp (regs : Fin 32 → U32) (t : CompTable) :
    (saveTcb regs t).curComp = t.curComp := by
  unfold saveTcb
  split <;> rfl

/-- Step lemma: every event keeps the invariant. -/
theorem machineStep_nativeInv {b : Build} {s s' : Sup} {e : Event} (h : NativeInv b s.native)
    (hstep : machineStep b s e = some s') : NativeInv b s'.native := by
  -- the table is kept sound by every event; what is left is the compartment that runs
  have htable : s'.natTable.Sound := by
    refine machineStep_closed (NatTable.closed_sound _) ?_ hstep h.table
    rintro area input rfl
    cases hstep
    exact (bootMain_nativeInv b input _).table
  cases machineStep_moved hstep with
  | user u eff => cases eff <;> exact h
  | ecall u regs hctl =>
    -- before phase 5 another compartment yields, so the native one waits
    refine supervisorResume_inv h.table fun hphase => ?_
    have hwaits : u.comp ≠ 2 := fun h2 => hphase (h.running u hctl h2).1
    exact (h.waiting u hctl hwaits).saved regs
  | fault u cause addr regs hctl =>
    have hcur : (saveTcb regs s.comp).curComp = u.comp :=
      (saveTcb_curComp regs s.comp).trans (h.cur u hctl)
    unfold trapFault
    refine supervisorFault_inv ?_ (fun hne => ?_) (fun h2 => ?_) cause
    · exact h.table
    · have hwaits : NativeReady b (ringRecord cause addr s).native :=
        h.waiting u hctl fun h2 => hne (hcur.trans h2)
      exact hwaits.saved regs
    · exact (h.running u hctl (hcur.symm.trans h2)).1
  | turn seen frame s' hctl hturn =>
    obtain ⟨s₁, hs₁, rfl⟩ := Option.map_eq_some_iff.mp hturn
    rw [endTurn_natTable] at htable
    unfold endTurn
    split
    -- the turn starts a round, or stays in the loop
    · exact scheduleRound_inv htable
    · refine .of_idle htable fun u hu => ?_
      exact Control.noConfusion ((hctl.symm.trans (turn_ctl hs₁).symm).trans hu)
  | poll frame hctl =>
    refine .of_idle htable fun u hu => ?_
    exact Control.noConfusion ((hctl.symm.trans (chanPoll_frame frame s).2.symm).trans hu)
  | swap s' hctl hswap =>
    refine .of_idle htable fun u hu => ?_
    exact Control.noConfusion ((hctl.symm.trans (hotSwap_frame hswap).1.symm).trans hu)
  | finalize =>
    rw [hotUpdateFinalize_native]
    exact h
  | round => exact scheduleRound_inv h.table
  | beat => exact h
  | stage => exact h
  | reset area input => exact bootMain_nativeInv b input _

theorem nativeInv_reachable {b : Build} {s : Sup} (h : Reachable (machine b) s) :
    NativeInv b s.native := by
  refine h.invariant (I := fun s => NativeInv b s.native) ?_ fun s e s' => machineStep_nativeInv
  rintro _ ⟨raw, input, rfl⟩
  exact bootMain_nativeInv b input raw

/-- An evicted slot stays out as long as nothing revives it. -/
theorem evicted_of_run {b : Build} {k : Fin 2} {s s' : Sup} {es : List Event}
    (h : StepsFrom ((machine b).restrict fun s e => ¬ Revives b s k e) s es s')
    (hk : (s.nat k).evicted = true) : (s'.nat k).evicted = true := by
  refine h.invariant (I := fun s => (s.nat k).evicted = true) (fun s e s' hk hstep => ?_) hk
  refine machineStep_closed (NatTable.closed_evicted hstep.1) ?_ hstep.2 hk
  rintro area input rfl
  exact absurd trivial hstep.1

/-- The native compartment runs. -/
def RunsNative (s : Sup) (e : UserEntry) : Prop := s.ctl = .user e ∧ e.comp = 2

/-- **One strike.** In every run after a boot: a session that is not retired
    has a live slot that may run, and in a retired one no slot may; the
    native compartment runs only at the entry of the live slot and within
    its windows; and a slot that faults does not run again before an
    install into it, a re-arm that names it, or a boot. -/
theorem machine_nativeSlots {b : Build} {s : Sup} (h : Reachable (machine b) s) :
    s.natTable.Sound ∧
      ∀ e, RunsNative s e → NativeEntered b s.natTable s.comp e ∧
        ∀ cause addr regs s₁, machineStep b s (.fault cause addr regs) = some s₁ →
          ∀ es s₂, StepsFrom ((machine b).restrict fun s' e' => ¬ Revives b s' s.natLive e')
              s₁ es s₂ →
            ∀ e₂, RunsNative s₂ e₂ → s₂.natLive ≠ s.natLive := by
  have hinv := nativeInv_reachable h
  refine ⟨hinv.table, fun e he => ?_⟩
  obtain ⟨hphase, hentered⟩ := hinv.running e he.1 he.2
  refine ⟨hentered, fun cause addr regs s₁ hfault es s₂ hrun e₂ he₂ hlive => ?_⟩
  have hreach : Reachable (machine b) s₂ := hrun.of_restrict.reachable (.step _ h hfault)
  have hruns := ((nativeInv_reachable hreach).running e₂ he₂.1 he₂.2).2.live
  -- the fault struck the live slot, and the run left it evicted
  have hstruck : (s₁.nat s.natLive).evicted = true := by
    dsimp only [machineStep] at hfault
    rw [he.1] at hfault
    obtain rfl := Option.some.inj hfault
    have hcur : (saveTcb regs s.comp).curComp = 2 :=
      (saveTcb_curComp regs s.comp).trans ((hinv.cur e he.1).trans he.2)
    have htable := supervisorFault_natTable (b := b) cause
      { ringRecord cause addr s with comp := saveTcb regs s.comp }
    rw [if_pos ⟨show (5 : U32) ≤ s.phase from hphase ▸ BitVec.le_refl _, hcur⟩] at htable
    have hslot := (congrArg NatTable.slot htable).trans (NatTable.strike_slot _)
    exact (congrArg NatSlot.evicted (congrFun hslot s.natLive)).trans (NatTable.struck_live _)
  have hout := evicted_of_run hrun hstruck
  -- were it live again, the compartment would run an evicted slot
  rw [← hlive] at hout
  exact absurd (hout.symm.trans hruns.2) (by decide)

def Control.runs (i : Nat) : Control → Bool
  | .user e => e.comp == i
  | _ => false

theorem of_runs {c : Control} {i : Nat} (h : c.runs i = true) : ∃ e, c = .user e ∧ e.comp = i := by
  cases c with
  | user e => exact ⟨e, rfl, eq_of_beq h⟩
  | _ => cases h

instance (k : Fin 2) (frame : Option ConsoleFrame) : Decidable (Rearms k frame) :=
  match frame with
  | some _ => inferInstanceAs (Decidable (_ ∧ _ ∧ _))
  | none => inferInstanceAs (Decidable False)

instance (b : Build) (s : Sup) (k : Fin 2) (e : Event) : Decidable (Revives b s k e) :=
  match e with
  | .turn _ => inferInstanceAs (Decidable (_ ∨ _))
  | .poll frame => inferInstanceAs (Decidable (Rearms k frame))
  | .swap => inferInstanceAs (Decidable (InstallsNative b s k))
  | .reset .. => inferInstanceAs (Decidable True)
  | .user _ | .ecall _ | .fault .. | .finalize | .round | .beat | .stage .. =>
    inferInstanceAs (Decidable False)

/-- A native image of four bytes for slot 1. -/
def spareImage : List U8 :=
  [4, 0, 0, 0, 2, 0, 0, 0, 0, 0, 0, 0, 1, 0, 0, 0, 0x05, 0x45, 0x82, 0x80]

def spareBuild : Build := .pinning [sha256 (fun i => spareImage.getD i 0) 20]

def spareWindow : Mem :=
  fun i => (spareImage ++ List.ofFn (sha256 (fun i => spareImage.getD i 0) 20)).getD i 0

def passYields : List Event := List.replicate 10 (.ecall fun _ => 0)

/-- The image installed, and another round. -/
def spareRun : List Event :=
  [.stage spareWindow PROG_PEND_MAGIC fun _ => 0, .swap, .round] ++ passYields

/-- The slot that boot filled runs in the first round and faults; what runs
    in the next round is in the other one. -/
theorem machine_nativeSlots_afterStrike :
    ∃ s e s₁ s₂ e₂, RunsNative s e ∧ NativeEntered spareBuild s.natTable s.comp e ∧
      machineStep spareBuild s (.fault 5 0 fun _ => 0) = some s₁ ∧
      run (guarded (machineStep spareBuild) fun s' e' => ¬ Revives spareBuild s' s.natLive e')
        s₁ spareRun = some s₂ ∧
      RunsNative s₂ e₂ ∧ s₂.natLive ≠ s.natLive := by
  have hrun : ((run (machineStep spareBuild) (bootMain spareBuild ⟨none, false⟩ .zeroed)
      passYields).bind fun s => (machineStep spareBuild s (.fault 5 0 fun _ => 0)).bind fun s₁ =>
        (run (guarded (machineStep spareBuild) fun s' e' => ¬ Revives spareBuild s' s.natLive e')
          s₁ spareRun).map fun s₂ => s.ctl.runs 2 && s₂.ctl.runs 2) = some true := by
    decide +kernel
  obtain ⟨s, hs, hrest⟩ := Option.bind_eq_some_iff.mp hrun
  obtain ⟨s₁, hfault, hrest⟩ := Option.bind_eq_some_iff.mp hrest
  obtain ⟨s₂, hs₂, hnative⟩ := Option.map_eq_some_iff.mp hrest
  obtain ⟨hnative, hnative₂⟩ := (Bool.and_eq_true_iff).mp hnative
  obtain ⟨e, he⟩ := of_runs hnative
  obtain ⟨e₂, he₂⟩ := of_runs hnative₂
  obtain ⟨-, hslots⟩ := machine_nativeSlots (reachable_of_run hs)
  obtain ⟨hentered, hstrike⟩ := hslots e he
  exact ⟨s, e, s₁, s₂, e₂, he, hentered, hfault, hs₂, he₂,
    hstrike 5 0 _ s₁ hfault spareRun s₂ (.of_guarded (fun _ _ _ h => h) hs₂) e₂ he₂⟩

end Interclus

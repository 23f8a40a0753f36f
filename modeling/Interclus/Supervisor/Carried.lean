import Interclus.Supervisor.Machine

/-! # What a Round Carries

    A schedule round moves registers, compartments and counters.  The
    program slots, the update transaction and the staging window it carries
    along unchanged, and it sends no update reply; only the rollback moves
    the program slots.  One lemma for each function on the way. -/

namespace Interclus

open Words

/-- The live slot, the shadow, and their counts. -/
structure ProgSlots where
  prog : Nat → U64
  progCnt : U32
  progB : Nat → U64
  progBCnt : U32

def MonBox.slots (m : MonBox) : ProgSlots := ⟨m.prog, m.progCnt, m.progB, m.progBCnt⟩

/-- The update replies among transmitted frames. -/
def replyPayloads (tx : List TxFrame) : List (List U8) :=
  tx.filterMap fun f => if f.type = FRAME_UPDATE_REPLY then some f.payload else none

/-- What a schedule round carries along. -/
structure Carried where
  slots : ProgSlots
  update : UpdateRx
  pend : Mem
  pendOk : U32
  replies : List (List U8)

def Sup.carried (s : Sup) : Carried := ⟨s.mon.slots, s.update, s.pend, s.pendOk, replyPayloads s.tx⟩

/-! ## Entering and leaving compartments -/

/-- Entering a compartment moves the compartments, the core and, when it
    refuses an evicted one, the halt words. -/
theorem enterChecked_frame (i : Nat) (s : Sup) :
    ∃ status comp ctl, enterChecked i s = { s with status := status, comp := comp, ctl := ctl } ∧
      (status S_HLOAD = s.status S_HLOAD ∧ status S_HREJ = s.status S_HREJ) ∧ ctl ≠ .swept := by
  unfold enterChecked
  split
  · exact ⟨_, _, _, rfl, ⟨rfl, rfl⟩, nofun⟩
  · split
    · exact ⟨_, _, _, rfl, ⟨rfl, rfl⟩, nofun⟩
    · exact ⟨_, _, _, rfl, ⟨rfl, rfl⟩, nofun⟩

@[simp] theorem enterChecked_carried (i : Nat) (s : Sup) :
    (enterChecked i s).carried = s.carried := by
  obtain ⟨status, comp, ctl, h, -⟩ := enterChecked_frame i s
  rw [h]
  rfl

@[simp] theorem scheduleRound_carried (b : Build) (s : Sup) :
    (scheduleRound b s).carried = s.carried := by
  unfold scheduleRound
  simp only [enterChecked_carried]
  split <;> rfl

@[simp] theorem hotRound_carried (b : Build) (s : Sup) : (hotRound b s).carried = s.carried := by
  unfold hotRound
  rw [scheduleRound_carried]
  rfl

@[simp] theorem endTurn_carried (b : Build) (seen : U32) (ev : Nat) (s : Sup) :
    (endTurn b seen ev s).carried = s.carried := by
  unfold endTurn
  split
  · rw [hotRound_carried]
  · rfl

@[simp] theorem nativeDone_carried (b : Build) (proof : Bool) (s : Sup) :
    (nativeDone b proof s).carried = s.carried := by
  unfold nativeDone
  cases b.target <;> rfl

@[simp] theorem atkSchedule_carried (b : Build) (v : Nat) (s : Sup) :
    (atkSchedule b v s).carried = s.carried := by
  unfold atkSchedule
  rw [enterChecked_carried]
  rfl

@[simp] theorem nativePhase_carried (b : Build) (s : Sup) :
    (nativePhase b s).carried = s.carried := by
  unfold nativePhase
  split
  · rw [nativeDone_carried]
    rfl
  · rw [enterChecked_carried]
    rfl

@[simp] theorem atkRecord_carried (s : Sup) : (atkRecord s).carried = s.carried := by
  unfold atkRecord
  dsimp only
  split <;> split <;> rfl

@[simp] theorem atkAdvance_carried (b : Build) (s : Sup) :
    (atkAdvance b s).carried = s.carried := by
  unfold atkAdvance
  dsimp only
  split
  · rw [atkSchedule_carried, atkRecord_carried]
  · rw [nativePhase_carried]
    exact atkRecord_carried s

@[simp] theorem nextMode_carried (mode : U32) (s : Sup) :
    (nextMode mode s).carried = s.carried := by
  unfold nextMode
  rw [enterChecked_carried]
  rfl

/-! ## Telemetry and eviction -/

/-- A bounded transmission sends its frame or nothing. -/
theorem sendFrameLimited_eq (s : Sup) (type : U8) (payload : List U8) :
    (s.sendFrameLimited type payload).2 =
      { s with
        txDrains := fun k => s.txDrains (k + 1)
        tx := s.tx ++ if s.txDrains 0 then [⟨type, payload⟩] else [] } := by
  unfold Sup.sendFrameLimited
  cases h : s.txDrains 0
  · simp
  · rfl

theorem replyPayloads_append (l l' : List TxFrame) :
    replyPayloads (l ++ l') = replyPayloads l ++ replyPayloads l' := List.filterMap_append

/-- The sixteen bytes `tele_fault` sends. -/
def telePayload (slot : Fin 2) (s : Sup) : List U8 :=
  let i := if s.riIndex ≠ 0 then s.riIndex - 1 else 0
  [byteOf i 0, BitVec.ofNat 8 s.comp.curComp, BitVec.ofNat 8 slot, s.junk 3]
    ++ wordBytes (s.riCause i.toNat) ++ wordBytes (s.riAddr i.toNat)
    ++ [BitVec.ofNat 8 s.natLive, if s.natRetired then 1 else 0, s.junk 14, s.junk 15]

/-- Telemetry moves the transmitter, and counts a frame it abandons. -/
theorem teleFault_eq (slot : Fin 2) (s : Sup) :
    ∃ status, teleFault slot s =
      { s with
        status := status
        txDrains := fun k => s.txDrains (k + 1)
        tx := s.tx ++ if s.txDrains 0 then [⟨FRAME_TELE, telePayload slot s⟩] else [] } := by
  have hsent : (s.sendFrameLimited FRAME_TELE (telePayload slot s)).2 = _ :=
    sendFrameLimited_eq s FRAME_TELE (telePayload slot s)
  unfold telePayload at hsent ⊢
  unfold teleFault
  dsimp only at hsent ⊢
  split
  · next h =>
    rw [h] at hsent
    exact ⟨_, hsent⟩
  · next h =>
    -- the frame was abandoned
    rw [h] at hsent
    exact ⟨_, congrArg (·.incStatus S_TXABORT) hsent⟩

@[simp] theorem teleFault_carried (slot : Fin 2) (s : Sup) :
    (teleFault slot s).carried = s.carried := by
  obtain ⟨status, h⟩ := teleFault_eq slot s
  rw [h]
  simp only [Sup.carried, replyPayloads_append]
  split <;> simp [replyPayloads, FRAME_TELE, FRAME_UPDATE_REPLY]

@[simp] theorem retireSlot_carried (s : Sup) : (retireSlot s).carried = s.carried := by
  unfold retireSlot
  dsimp only
  split
  · exact (teleFault_carried _ _).trans rfl
  · exact (teleFault_carried _ _).trans rfl

@[simp] theorem evictRunning_carried (cause : U32) (s : Sup) :
    (evictRunning cause s).carried = s.carried := by
  unfold evictRunning
  split <;> rfl

@[simp] theorem supervisorFault_carried (b : Build) (cause : U32) (s : Sup) :
    (supervisorFault b cause s).carried = s.carried := by
  rw [← evictRunning_carried cause s]
  unfold supervisorFault
  dsimp only
  split
  · rw [atkAdvance_carried]
  · split
    · rw [nativeDone_carried]
      split
      · rw [retireSlot_carried]
      · rfl
    · rfl

/-! ## Traps -/

theorem rollback_carried (s : Sup) :
    (rollback s).carried = { s.carried with slots := (rollback s).mon.slots } := by
  unfold rollback
  dsimp only
  split <;> rfl

/-- Only phase 1 can move the program slots, by the rollback. -/
theorem supervisorResume_carried (b : Build) (s : Sup) :
    (supervisorResume b s).carried = s.carried ∨
      (supervisorResume b s).carried =
        { s.carried with slots := (rollback (noteVerdicts s)).mon.slots } := by
  unfold supervisorResume
  split
  · rw [nextMode_carried, rollback_carried]
    exact .inr rfl
  left
  split
  · rw [nextMode_carried]
    rfl
  split
  · rw [atkSchedule_carried]
    rfl
  split
  · rw [atkAdvance_carried]
  · rw [nativeDone_carried]

theorem trapFault_carried (b : Build) (cause addr : U32) (regs : Fin 32 → U32) (s : Sup) :
    (trapFault b cause addr regs s).carried = s.carried := by
  unfold trapFault
  rw [supervisorFault_carried]
  rfl

theorem UserEffect.apply_carried (s : Sup) (eff : UserEffect) :
    (eff.apply s).carried = s.carried := by
  cases eff <;> rfl

/-- U-mode, its traps, a new round and the heartbeat. -/
def Event.carries : Event → Bool
  | .user _ => true
  | .ecall _ => true
  | .fault .. => true
  | .round => true
  | .beat => true
  | _ => false

/-- What such an event leaves as it was. -/
structure CarriedOver (s s' : Sup) : Prop where
  update : s'.update = s.update
  pend : s'.pend = s.pend
  pendOk : s'.pendOk = s.pendOk
  replies : replyPayloads s'.tx = replyPayloads s.tx

/-- Receiver, window and replies pass through every event of a round. -/
theorem machineStep_carries {b : Build} {s s' : Sup} {e : Event} (he : e.carries = true)
    (hstep : machineStep b s e = some s') : CarriedOver s s' := by
  have hslots : ∀ {t : Sup}, (∃ slots, t.carried = { s.carried with slots := slots }) →
      CarriedOver s t := by
    rintro t ⟨slots, h⟩
    exact ⟨congrArg Carried.update h, congrArg Carried.pend h, congrArg Carried.pendOk h,
      congrArg Carried.replies h⟩
  apply hslots
  cases machineStep_moved hstep with
  | user u eff => exact ⟨_, eff.apply_carried s⟩
  | ecall u regs =>
    -- only this one may move the program slots
    rcases supervisorResume_carried b { s with comp := saveTcb regs s.comp } with h | h
    · exact ⟨_, h⟩
    · exact ⟨_, h⟩
  | fault u cause addr regs => exact ⟨_, trapFault_carried b cause addr regs s⟩
  | round => exact ⟨_, hotRound_carried b s⟩
  | beat => exact ⟨_, rfl⟩
  | _ => cases he

/-- A boot discards the transaction. -/
theorem bootMain_update (b : Build) (input : BootInput) (s : Sup) :
    (bootMain b input s).update = updateReset := by
  have hrestore : ∀ (s : Sup) (k : Fin 2), (restoreSlot b s k).update = s.update := by
    intro s k
    unfold restoreSlot
    dsimp only
    split
    · rfl
    · split <;> rfl
  unfold bootMain
  simp only [bootGate_eq_zero, ne_eq, not_true_eq_false, if_false]
  refine (congrArg Carried.update (scheduleRound_carried b _)).trans ?_
  exact (hrestore _ 1).trans (hrestore _ 0)

/-! ## Memory no round writes -/

structure RoundKept where
  mailbox : Mem
  natText : Fin 2 → Mem
  mirror : Mem

def Sup.kept (s : Sup) : RoundKept := ⟨s.mailbox, s.natText, s.mirror⟩

@[simp] theorem enterChecked_kept (i : Nat) (s : Sup) : (enterChecked i s).kept = s.kept := by
  obtain ⟨status, comp, ctl, h, -⟩ := enterChecked_frame i s
  rw [h]
  rfl

@[simp] theorem scheduleRound_kept (b : Build) (s : Sup) : (scheduleRound b s).kept = s.kept := by
  unfold scheduleRound
  simp only [enterChecked_kept]
  split <;> rfl

@[simp] theorem endTurn_kept (b : Build) (seen : U32) (ev : Nat) (s : Sup) :
    (endTurn b seen ev s).kept = s.kept := by
  unfold endTurn
  split
  · exact scheduleRound_kept b _
  · rfl

@[simp] theorem nativeDone_kept (b : Build) (proof : Bool) (s : Sup) :
    (nativeDone b proof s).kept = s.kept := by
  unfold nativeDone
  cases b.target <;> rfl

@[simp] theorem atkSchedule_kept (b : Build) (v : Nat) (s : Sup) :
    (atkSchedule b v s).kept = s.kept := by
  unfold atkSchedule
  rw [enterChecked_kept]
  rfl

@[simp] theorem nativePhase_kept (b : Build) (s : Sup) : (nativePhase b s).kept = s.kept := by
  unfold nativePhase
  split
  · rw [nativeDone_kept]
    rfl
  · rw [enterChecked_kept]
    rfl

@[simp] theorem atkAdvance_kept (b : Build) (s : Sup) : (atkAdvance b s).kept = s.kept := by
  have hrecord : (atkRecord s).kept = s.kept := by
    unfold atkRecord
    dsimp only
    split <;> split <;> rfl
  unfold atkAdvance
  dsimp only
  split
  · rw [atkSchedule_kept, hrecord]
  · rw [nativePhase_kept]
    exact hrecord

@[simp] theorem nextMode_kept (mode : U32) (s : Sup) : (nextMode mode s).kept = s.kept := by
  unfold nextMode
  rw [enterChecked_kept]
  rfl

@[simp] theorem supervisorResume_kept (b : Build) (s : Sup) :
    (supervisorResume b s).kept = s.kept := by
  have hrollback : ∀ s : Sup, (rollback s).kept = s.kept := by
    intro s
    unfold rollback
    dsimp only
    split <;> rfl
  unfold supervisorResume
  split
  · rw [nextMode_kept, hrollback]
    rfl
  split
  · rw [nextMode_kept]
    rfl
  split
  · rw [atkSchedule_kept]
    rfl
  split
  · exact atkAdvance_kept b s
  · exact nativeDone_kept b true s

@[simp] theorem retireSlot_kept (s : Sup) : (retireSlot s).kept = s.kept := by
  have htele : ∀ (slot : Fin 2) (s : Sup), (teleFault slot s).kept = s.kept := by
    intro slot s
    obtain ⟨status, h⟩ := teleFault_eq slot s
    rw [h]
    rfl
  unfold retireSlot
  dsimp only
  split
  · exact (htele _ _).trans rfl
  · exact (htele _ _).trans rfl

@[simp] theorem supervisorFault_kept (b : Build) (cause : U32) (s : Sup) :
    (supervisorFault b cause s).kept = s.kept := by
  have hevict : (evictRunning cause s).kept = s.kept := by
    unfold evictRunning
    split <;> rfl
  rw [← hevict]
  unfold supervisorFault
  dsimp only
  split
  · rw [atkAdvance_kept]
  · split
    · rw [nativeDone_kept]
      split
      · rw [retireSlot_kept]
      · rfl
    · rfl

/-! ## The monitor box

    Once a round has begun, only the mode and the rollback move the box. -/

@[simp] theorem enterChecked_mon (i : Nat) (s : Sup) : (enterChecked i s).mon = s.mon := by
  obtain ⟨status, comp, ctl, h, -⟩ := enterChecked_frame i s
  rw [h]

@[simp] theorem nativeDone_mon (b : Build) (proof : Bool) (s : Sup) :
    (nativeDone b proof s).mon = s.mon := by
  unfold nativeDone
  cases b.target <;> rfl

@[simp] theorem atkAdvance_mon (b : Build) (s : Sup) : (atkAdvance b s).mon = s.mon := by
  have hrecord : (atkRecord s).mon = s.mon := by
    unfold atkRecord
    dsimp only
    split <;> split <;> rfl
  unfold atkAdvance
  dsimp only
  split
  · unfold atkSchedule
    rw [enterChecked_mon]
    exact hrecord
  · unfold nativePhase
    split
    · rw [nativeDone_mon]
      exact hrecord
    · rw [enterChecked_mon]
      exact hrecord

@[simp] theorem retireSlot_mon (s : Sup) : (retireSlot s).mon = s.mon := by
  have htele : ∀ (slot : Fin 2) (s : Sup), (teleFault slot s).mon = s.mon := by
    intro slot s
    obtain ⟨status, h⟩ := teleFault_eq slot s
    rw [h]
  unfold retireSlot
  dsimp only
  split
  · exact (htele _ _).trans rfl
  · exact (htele _ _).trans rfl

@[simp] theorem supervisorFault_mon (b : Build) (cause : U32) (s : Sup) :
    (supervisorFault b cause s).mon = s.mon := by
  have hevict : (evictRunning cause s).mon = s.mon := by
    unfold evictRunning
    split <;> rfl
  rw [← hevict]
  unfold supervisorFault
  dsimp only
  split
  · rw [atkAdvance_mon]
  · split
    · rw [nativeDone_mon]
      split
      · rw [retireSlot_mon]
      · rfl
    · rfl

theorem supervisorResume_mon (b : Build) (s : Sup) :
    ∃ mode, (supervisorResume b s).mon =
      { (if s.phase = 1 then rollback (noteVerdicts s) else s).mon with mode := mode } := by
  unfold supervisorResume nextMode
  by_cases hphase : s.phase = 1
  · rw [if_pos hphase, if_pos hphase, enterChecked_mon]
    exact ⟨_, rfl⟩
  rw [if_neg hphase, if_neg hphase]
  split
  · rw [enterChecked_mon]
    exact ⟨_, rfl⟩
  split
  · unfold atkSchedule
    rw [enterChecked_mon]
    exact ⟨s.mon.mode, rfl⟩
  split
  · rw [atkAdvance_mon]
    exact ⟨s.mon.mode, rfl⟩
  · rw [nativeDone_mon]
    exact ⟨s.mon.mode, rfl⟩

end Interclus

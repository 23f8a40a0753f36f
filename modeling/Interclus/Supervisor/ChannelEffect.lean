import Interclus.Host.UpdateFrame
import Interclus.Supervisor.ServiceTurn
import Interclus.Update.Integrity

/-! # What a Frame May Move

    `chan_poll` dispatches seven kinds of frame over four shared regions:
    the mailbox, the staging window with its magic, the native slot table
    and the update transaction.  The event it returns says which of them
    the frame has moved, and no frame reaches past the window or the
    mailbox. -/

namespace Interclus

open Words LTS

/-! ## Effects -/

/-- Equal, what was handed to the transmitter apart. -/
def AlikeButTx (s s' : Sup) : Prop := s' = { s with tx := s'.tx, txDrains := s'.txDrains }

/-- Event 0: a frame that is dropped or refused.  A COMMIT over a wrong
    digest ends its transaction. -/
def DroppedFrame (s s' : Sup) : Prop :=
  ∃ rx, (rx = s.update ∨ s.update.state = .active ∧ rx = { s.update with state := .idle }) ∧
    AlikeButTx { s with update := rx } s'

/-- Event 1: the frame becomes the mailbox image. -/
structure SwarmedFrame (f : ConsoleFrame) (s s' : Sup) : Prop where
  magic : le32 s'.mailbox 0 = MO_SHU
  count_pos : 1 ≤ (le32 s'.mailbox 4).toNat
  count_le : (le32 s'.mailbox 4).toNat ≤ 64
  len : f.n = 8 + 42 * (le32 s'.mailbox 4).toNat
  frame : s' = { s with mailbox := memcpy s.mailbox f.stage f.n }

/-- Event 2: a staged image. -/
def StagedFrame (s s' : Sup) : Prop := s' = { s with pend := s'.pend, pendOk := PROG_PEND_MAGIC }

/-- Event 3: the named slot goes live again, if it is a valid one. -/
def RearmedFrame (f : ConsoleFrame) (s s' : Sup) : Prop :=
  AlikeButTx s s' ∨
    (le32 f.stage 0 ≤ 1 ∧ (s.nat (slotOf (le32 f.stage 0))).valid = true) ∧
    AlikeButTx { s with
      nat := s'.nat, natLive := s'.natLive, natRetired := s'.natRetired, status := s'.status } s' ∧
    (∀ j ≠ slotOf (le32 f.stage 0), s'.nat j = s.nat j) ∧
    ∀ i, i ≠ S_NSLOT → i ≠ S_REARM → s'.status i = s.status i

/-- Events 5 and 6: a command of the transaction, which stores below its
    total. -/
structure CommandTaken (s s' : Sup) : Prop where
  frame : AlikeButTx { s with update := s'.update, pend := s'.pend, pendOk := s'.pendOk } s'
  below : ∀ i, s'.update.total.toNat ≤ i → s'.pend i = s.pend i

/-- Event 5 also notes the counters of the gate. -/
def Sup.marked (s : Sup) : Sup :=
  { s with updateHload := s.status S_HLOAD, updateHrej := s.status S_HREJ }

/-- What a polled frame may move, by the event it reports. -/
def FrameMoves (f : ConsoleFrame) (s s' : Sup) : Nat → Prop
  | 0 => DroppedFrame s s'
  | 1 => SwarmedFrame f s s'
  | 2 => StagedFrame s s'
  | 3 => RearmedFrame f s s'
  | 4 => AlikeButTx s s'
  | 5 => CommandTaken s.marked s'
  | 6 => CommandTaken s s'
  | _ => False

/-- Every store lies in the staging window or in the mailbox. -/
structure Confined (s s' : Sup) : Prop where
  pend : ∀ i, PROG_PEND_MAGIC_OFF ≤ i → s'.pend i = s.pend i
  mailbox : ∀ i, 8 + 42 * MAX_SWARM.toNat ≤ i → s'.mailbox i = s.mailbox i

/-- The announced length is capped while the transaction runs. -/
def UpdateRx.Capped (rx : UpdateRx) : Prop := rx.state = .active → rx.total.toNat ≤ 552

/-! ## Commands -/

/-- What a call of `update_process` moves. -/
structure StepMoves (rx : UpdateRx) (pend : Mem) (r : UpdateStep) : Prop where
  refused : r.ret = false → r.stores = [] ∧ r.magic = none ∧
    (r.rx = rx ∨ rx.state = .active ∧ r.rx = { rx with state := .idle })
  below : ∀ i, r.rx.total.toNat ≤ i → r.pend pend i = pend i
  capped : rx.Capped → r.rx.Capped ∧ ∀ i, 552 ≤ i → r.pend pend i = pend i

theorem updateProcess_moves (rx : UpdateRx) (p : Mem) (n : Nat) (pend : Mem) (magic : U32) :
    StepMoves rx pend (updateProcess rx p n pend magic) := by
  have hout := updateProcess_outcome rx p n pend magic
  generalize updateProcess rx p n pend magic = r at hout ⊢
  cases hout with
  | refused => exact ⟨fun _ => ⟨rfl, rfl, .inl rfl⟩, fun _ _ => rfl, fun h => ⟨h, fun _ _ => rfl⟩⟩
  | beginRepeat => exact ⟨nofun, fun _ _ => rfl, fun h => ⟨h, fun _ _ => rfl⟩⟩
  | opened hf => exact ⟨nofun, fun _ _ => rfl, fun _ => ⟨fun _ => hf.total_le, fun _ _ => rfl⟩⟩
  | dataRepeat => exact ⟨nofun, fun _ _ => rfl, fun h => ⟨h, fun _ _ => rfl⟩⟩
  | extended hf _ hoff =>
    -- the chunk ends inside the transaction
    have hfits := hf.fits
    rw [hoff] at hfits
    have hstores : ∀ i, rx.total.toNat ≤ i →
        applyStores pend (dataStores p rx.received.toNat (p 9).toNat) i = pend i := by
      intro i hi
      rw [applyStores_dataStores, if_neg (by omega)]
    exact ⟨nofun, hstores, fun h => ⟨h, fun i hi => hstores i (Nat.le_trans (h hf.active) hi)⟩⟩
  | commitRepeat => exact ⟨nofun, fun _ _ => rfl, fun h => ⟨h, fun _ _ => rfl⟩⟩
  | staged => exact ⟨nofun, fun _ _ => rfl, fun _ => ⟨nofun, fun _ _ => rfl⟩⟩
  | hashFailed _ hact =>
    exact ⟨fun _ => ⟨rfl, rfl, .inr ⟨hact, rfl⟩⟩, fun _ _ => rfl, fun _ => ⟨nofun, fun _ _ => rfl⟩⟩
  | aborted => exact ⟨nofun, fun _ _ => rfl, fun _ => ⟨nofun, fun _ _ => rfl⟩⟩

section Handlers
variable (f : ConsoleFrame) (s : Sup)

theorem pollUpdate_moves : FrameMoves f s (pollUpdate f s).2 (pollUpdate f s).1 := by
  have hmoves := updateProcess_moves s.update f.stage f.n s.pend s.pendOk
  unfold pollUpdate
  generalize updateProcess s.update f.stage f.n s.pend s.pendOk = r at hmoves
  dsimp only
  rw [updateSendReply_eq]
  split
  · exact ⟨rfl, hmoves.below⟩
  · split
    · exact ⟨rfl, hmoves.below⟩
    · next hret =>
      obtain ⟨hstores, hmagic, hrx⟩ := hmoves.refused (Bool.not_eq_true _ ▸ hret)
      refine ⟨r.rx, hrx, ?_⟩
      have hpend : r.pend s.pend = s.pend := by rw [UpdateStep.pend, hstores]; rfl
      have hok : r.pendMagic s.pendOk = s.pendOk := by rw [UpdateStep.pendMagic, hmagic]; rfl
      unfold AlikeButTx
      dsimp only
      rw [hpend, hok]

theorem pollProgram_moves : FrameMoves f s (pollProgram f s).2 (pollProgram f s).1 := by
  unfold pollProgram
  split
  · exact ⟨s.update, .inl rfl, rfl⟩
  · dsimp only
    split
    · exact ⟨s.update, .inl rfl, rfl⟩
    · rfl

/-- The mailbox image starts as the frame does. -/
theorem le32_memcpy {dst src : Mem} {n off : Nat} (h : off + 4 ≤ n) :
    le32 (memcpy dst src n) off = le32 src off :=
  le32_congr fun k hk => if_pos (by omega)

theorem pollSwarm_moves : FrameMoves f s (pollSwarm f s).2 (pollSwarm f s).1 := by
  unfold pollSwarm
  split
  · exact ⟨s.update, .inl rfl, rfl⟩
  · next hlen =>
    dsimp only
    split
    · exact ⟨s.update, .inl rfl, rfl⟩
    · next hshape =>
      simp only [not_or, not_not, BitVec.not_lt] at hshape
      obtain ⟨hmagic, hpos, hle, hn⟩ := hshape
      have hcnt : le32 (memcpy s.mailbox f.stage f.n) 4 = le32 f.stage 4 := le32_memcpy (by omega)
      refine ⟨(le32_memcpy (by omega)).trans hmagic, ?_, ?_, ?_, rfl⟩
      · rw [hcnt]
        bv_omega
      · rw [hcnt]
        exact hle
      · rw [hcnt]
        exact hn

theorem pollStatus_moves : FrameMoves f s (pollStatus f s).2 (pollStatus f s).1 := by
  unfold pollStatus
  split <;> rfl

theorem pollRearm_moves : FrameMoves f s (pollRearm f s).2 (pollRearm f s).1 := by
  unfold pollRearm
  split
  · exact ⟨s.update, .inl rfl, rfl⟩
  · dsimp only
    split
    · exact .inl rfl
    · next hslot =>
      rw [not_or, not_not, BitVec.not_lt] at hslot
      refine .inr ⟨hslot, rfl, fun j hj => if_neg hj, fun i hi hi' => ?_⟩
      exact (if_neg hi').trans (if_neg hi)

theorem pollNative_moves : FrameMoves f s (pollNative f s).2 (pollNative f s).1 := by
  unfold pollNative
  split
  · exact ⟨s.update, .inl rfl, rfl⟩
  · rfl

/-- Every frame. -/
theorem chanPoll_frameMoves :
    FrameMoves f s (chanPoll (some f) s).2 (chanPoll (some f) s).1 := by
  unfold chanPoll
  dsimp only
  split
  · exact ⟨s.update, .inl rfl, rfl⟩
  split
  · exact pollUpdate_moves f s
  split
  · exact pollProgram_moves f s
  split
  · exact pollSwarm_moves f s
  split
  · exact pollStatus_moves f s
  split
  · exact pollRearm_moves f s
  split
  · exact pollNative_moves f s
  · exact ⟨s.update, .inl rfl, rfl⟩

theorem AlikeButTx.mailbox {s s' : Sup} (h : AlikeButTx s s') : s'.mailbox = s.mailbox := by rw [h]

theorem StagedFrame.mailbox {s s' : Sup} (h : StagedFrame s s') : s'.mailbox = s.mailbox := by
  rw [h]

/-- Only a swarm frame moves the mailbox. -/
theorem FrameMoves.mailbox {f : ConsoleFrame} {s s' : Sup} {ev : Nat} (h : FrameMoves f s s' ev) :
    s'.mailbox = s.mailbox ∨ SwarmedFrame f s s' := by
  match ev, h with
  | 0, ⟨_, _, h⟩ => exact .inl h.mailbox
  | 1, h => exact .inr h
  | 2, h => exact .inl (StagedFrame.mailbox h)
  | 3, .inl h => exact .inl h.mailbox
  | 3, .inr h => exact .inl h.2.1.mailbox
  | 4, h => exact .inl (AlikeButTx.mailbox h)
  | 5, h => exact .inl (CommandTaken.frame h).mailbox
  | 6, h => exact .inl (CommandTaken.frame h).mailbox

/-- A frame that stages an image is no longer than the window. -/
theorem staged_len {f : ConsoleFrame} (h : ProgramFrame f ∨ NativeFrame f) :
    f.n ≤ PROG_PEND_MAGIC_OFF := by
  have hoff : PROG_PEND_MAGIC_OFF = 576 := rfl
  rcases h with h | h
  · have hcnt : (le32 f.stage 4).toNat ≤ 64 := h.cnt_le
    have hlen : f.n = 8 + (le32 f.stage 4).toNat * 8 + 32 := h.len
    omega
  · have hlen := h.len_le
    omega

/-- No frame stores past the window or the mailbox. -/
theorem chanPoll_confined (h : s.update.Capped) : Confined s (chanPoll (some f) s).2 := by
  constructor
  · intro i hi
    have hoff : PROG_PEND_MAGIC_OFF = 576 := rfl
    have hcommand : (pollUpdate f s).2.pend i = s.pend i := by
      rw [(pollUpdate_polled f s).pend]
      exact ((updateProcess_moves _ _ _ _ _).capped h).2 i (by omega)
    have hpolled := framePolled f s
    generalize chanPoll (some f) s = polled at hpolled ⊢
    cases hpolled with
    | command => exact hcommand
    | staged hf =>
      have hlen := staged_len hf
      exact if_neg (by omega)
    | quiet | swarm | rearmed => rfl
  · intro i hi
    rcases (chanPoll_frameMoves f s).mailbox with heq | hswarm
    · rw [heq]
    · have hlen := hswarm.len
      have hle := hswarm.count_le
      have hmax : MAX_SWARM.toNat = 64 := rfl
      rw [show (chanPoll (some f) s).2.mailbox = _ from congrArg Sup.mailbox hswarm.frame]
      exact if_neg (by omega)

end Handlers

/-! ## Whole runs -/

theorem chanPoll_capped (frame : Option ConsoleFrame) {s : Sup} (h : s.update.Capped) :
    (chanPoll frame s).2.update.Capped := by
  cases frame with
  | none => exact h
  | some f =>
    have hcommand : (pollUpdate f s).2.update.Capped := by
      rw [(pollUpdate_polled f s).update]
      exact ((updateProcess_moves _ _ _ _ _).capped h).1
    have hpolled := framePolled f s
    generalize chanPoll (some f) s = polled at hpolled ⊢
    cases hpolled with
    | command => exact hcommand
    | quiet | staged | swarm | rearmed => exact h

theorem hotUpdateFinalize_capped {s : Sup} (h : s.update.Capped) :
    (hotUpdateFinalize s).update.Capped := by
  rcases hotUpdateFinalize_cases s with hfinal | ⟨ok, -, hfinal⟩ <;> rw [hfinal]
  · exact h
  · rw [(settle_settled s ok).1.update]
    exact nofun

/-- No event opens a transaction longer than the window. -/
theorem machineStep_capped {b : Build} {s s' : Sup} {e : Event} (h : s.update.Capped)
    (hstep : machineStep b s e = some s') : s'.update.Capped := by
  by_cases he : e.carries = true
  · rw [(machineStep_carries he hstep).update]
    exact h
  cases machineStep_moved hstep with
  | turn seen frame s' _ hturn =>
    obtain ⟨s₁, hs₁, rfl⟩ := Option.map_eq_some_iff.mp hturn
    rw [endTurn_update]
    refine hotUpdateFinalize_capped ?_
    rw [(hotSwap_swapped hs₁).update]
    exact chanPoll_capped frame h
  | poll frame => exact chanPoll_capped frame h
  | swap s' _ hswap =>
    rw [(hotSwap_swapped hswap).update]
    exact h
  | finalize => exact hotUpdateFinalize_capped h
  | stage pend pendOk mailbox => exact h
  | reset area input =>
    rw [bootMain_update]
    exact nofun
  | _ => exact absurd rfl he

/-- Run lemma: BEGIN announces at most the window. -/
theorem capped_reachable {b : Build} {s : Sup} (h : Reachable (machine b) s) :
    s.update.Capped := by
  refine h.invariant (I := fun s => s.update.Capped) ?_ fun s e s' hI hs => machineStep_capped hI hs
  rintro s ⟨raw, input, rfl⟩
  rw [bootMain_update]
  exact nofun

/-- **Frames move only what they own.** In every state and for every frame,
    the event `chan_poll` returns bounds what the frame has moved; and where
    the transaction is capped, as it is in every reachable state, no store
    passes the staging window or the mailbox. -/
theorem chanPoll_owns (b : Build) :
    (∀ (f : ConsoleFrame) (s : Sup),
      FrameMoves f s (chanPoll (some f) s).2 (chanPoll (some f) s).1) ∧
    (∀ (f : ConsoleFrame) (s : Sup), s.update.Capped → Confined s (chanPoll (some f) s).2) ∧
    ∀ s, Reachable (machine b) s → s.update.Capped :=
  ⟨chanPoll_frameMoves, chanPoll_confined, fun _ => capped_reachable⟩

/-- A native image of sixteen zero bytes. -/
def blankNative : ConsoleFrame := ⟨3, 16, fun _ => 0⟩

/-- It is staged, and stays in the window. -/
theorem chanPoll_owns_blankNative :
    (chanPoll (some blankNative) Sup.zeroed).1 = 2 ∧
      StagedFrame Sup.zeroed (chanPoll (some blankNative) Sup.zeroed).2 ∧
      Confined Sup.zeroed (chanPoll (some blankNative) Sup.zeroed).2 := by
  have hev : (chanPoll (some blankNative) Sup.zeroed).1 = 2 := by decide
  obtain ⟨hmoves, hconfined, -⟩ := chanPoll_owns longBuild
  have hstaged := hmoves blankNative Sup.zeroed
  rw [hev] at hstaged
  exact ⟨hev, hstaged, hconfined blankNative Sup.zeroed (by intro h; cases h)⟩

/-- A COMMIT that repeats the one of transaction 1. -/
def repeatedCommit : ConsoleFrame := ⟨FRAME_UPDATE, 7, listMem (commitFrame 1)⟩

/-- Transaction 1 is staged; one image went live before it. -/
def stagedAgain : Sup :=
  { Sup.zeroed with
    status := fun i => if i = S_HLOAD then 1 else 0
    update :=
      { updateReset with id := 1, total := 48, received := 48, nextSeq := 1, state := .staged }
    pendOk := PROG_PEND_MAGIC }

/-- One byte at offset 900. -/
def strayChunk : ConsoleFrame :=
  ⟨FRAME_UPDATE, 13,
    listMem (withCrc ([UPDATE_OP_DATA] ++ packLe 4 1#32 ++ packLe 2 0#16 ++ packLe 2 900#16 ++
      [1, 7]))⟩

/-- A transaction of 1000 bytes, which no BEGIN opens. -/
def uncapped : Sup :=
  { Sup.zeroed with
    update := { updateReset with id := 1, total := 1000, received := 900, state := .active } }

/-- Event 5 moves more than the transaction and the window, and the window
    does not bound the stores of every state. -/
theorem chanPoll_owns_moreThanWindow :
    (let s' := (chanPoll (some repeatedCommit) stagedAgain).2
     (chanPoll (some repeatedCommit) stagedAgain).1 = 5 ∧
      ¬ AlikeButTx
        { stagedAgain with update := s'.update, pend := s'.pend, pendOk := s'.pendOk } s') ∧
    (chanPoll (some strayChunk) uncapped).1 = 6 ∧
      (chanPoll (some strayChunk) uncapped).2.pend 900 ≠ uncapped.pend 900 := by
  refine ⟨⟨by decide +kernel, fun h => ?_⟩, by decide +kernel, by decide +kernel⟩
  exact absurd (congrArg Sup.updateHload h) (by decide +kernel)

end Interclus

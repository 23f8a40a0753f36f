import Interclus.Update.Integrity

/-! # Retransmission

    A command the receiver took may arrive again, and the BEGIN of a
    transaction at any time while it lasts.  Neither moves anything: the
    receiver recognises what it has already done.

    The staging area is shared here: between two commands of the receiver,
    other transports may write it and `hot_swap` may take it. -/

namespace Interclus

open Words LTS

/-! ## The system -/

structure SharedUpdate where
  rx : UpdateRx
  pend : Mem
  magic : U32
  /-- The BEGIN that opened the transaction, which the code does not keep. -/
  opener : Option (Mem × Nat)

inductive SharedAction where
  /-- A command arrives. -/
  | process (p : Mem) (n : Nat)
  /-- The gate has decided on a staged image. -/
  | finish (accepted : Bool)
  /-- Somebody else writes the staging area and its magic. -/
  | others (pend : Mem) (magic : U32)

def SharedUpdate.answer (s : SharedUpdate) (p : Mem) (n : Nat) : UpdateStep :=
  updateProcess s.rx p n s.pend s.magic

def SharedUpdate.process (s : SharedUpdate) (p : Mem) (n : Nat) : SharedUpdate where
  rx := (s.answer p n).rx
  pend := (s.answer p n).pend s.pend
  magic := (s.answer p n).pendMagic s.magic
  opener := if opensTransaction s.rx p (s.answer p n) then some (p, n) else s.opener

def sharedUpdate : System SharedUpdate SharedAction where
  init s := s.rx = updateReset
  step s a s' :=
    match a with
    | .process p n => s' = s.process p n
    | .finish accepted => s.rx.state = .staged ∧ s' = { s with rx := updateFinish s.rx accepted }
    | .others pend magic => s' = { s with pend := pend, magic := magic }

/-! ## The invariant -/

/-- The receiver holds the transaction a BEGIN opened. -/
structure OpenedBy (rx : UpdateRx) (p : Mem) (n : Nat) : Prop where
  frame : BeginFrame p n
  id : rx.id = le32 p 1
  total : rx.total = le16 p 5
  sha : rx.expectedSha = beginSha p

/-- The counters of an active transaction are far from wrapping. -/
structure Counted (rx : UpdateRx) : Prop where
  next_le : rx.nextSeq.toNat ≤ rx.received.toNat
  received_le : rx.received.toNat ≤ rx.total.toNat
  total_le : rx.total.toNat ≤ 552

structure SharedInv (s : SharedUpdate) : Prop where
  counted : s.rx.state = .active → Counted s.rx
  opener : s.rx.state ≠ .idle → ∃ p n, s.opener = some (p, n) ∧ OpenedBy s.rx p n

/-- The counters behind a new chunk. -/
theorem Counted.extended_toNat {rx : UpdateRx} (h : Counted rx) {p : Mem} {n : Nat}
    (hf : DataFrame rx p n) :
    (rx.extended p).received.toNat = rx.received.toNat + (p 9).toNat ∧
      (rx.extended p).nextSeq.toNat = rx.nextSeq.toNat + 1 := by
  have hsize := hf.size_le
  have hnext := h.next_le
  have hreceived := h.received_le
  have htotal := h.total_le
  constructor
  · show (rx.received + (p 9).setWidth 16).toNat = _
    bv_omega
  · show (rx.nextSeq + 1).toNat = _
    bv_omega

theorem Counted.extended {rx : UpdateRx} (h : Counted rx) {p : Mem} {n : Nat}
    (hf : DataFrame rx p n) (hoff : le16 p 7 = rx.received) : Counted (rx.extended p) := by
  obtain ⟨hreceived, hnext⟩ := h.extended_toNat hf
  have hfits := hf.fits
  have hpos := hf.size_pos
  have hcount := h.next_le
  rw [hoff] at hfits
  refine ⟨by omega, ?_, h.total_le⟩
  rw [hreceived]
  exact hfits

/-- Step lemma: a command keeps the invariant. -/
theorem SharedInv.process {s : SharedUpdate} (h : SharedInv s) (p : Mem) (n : Nat) :
    SharedInv (s.process p n) := by
  have hout := updateProcess_outcome s.rx p n s.pend s.magic
  have hops : UPDATE_OP_DATA ≠ UPDATE_OP_BEGIN ∧ UPDATE_OP_COMMIT ≠ UPDATE_OP_BEGIN ∧
      UPDATE_OP_ABORT ≠ UPDATE_OP_BEGIN := by decide
  unfold SharedUpdate.process SharedUpdate.answer
  generalize updateProcess s.rx p n s.pend s.magic = r at hout
  cases hout with
  | refused detail id => exact ⟨h.counted, h.opener⟩
  | beginRepeat code hf hidle hid htotal hsha =>
    refine ⟨h.counted, fun _ => ?_⟩
    have ho : opensTransaction s.rx p (repeated s.rx code (le32 p 1)) = false := by
      simp [opensTransaction, hidle, hid]
    rw [ho]
    exact h.opener hidle
  -- the one outcome that changes the opener
  | opened hf hst hmagic =>
    refine ⟨fun _ => ⟨Nat.le_refl _, Nat.zero_le _, hf.total_le⟩, fun _ => ⟨p, n, ?_, ?_⟩⟩
    · have ho : opensTransaction s.rx p ⟨true, .opened p, [], some 0,
          replySet (.opened p) UPDATE_ACK 0 (le32 p 1)⟩ = true := by
        rcases hst with hst | ⟨hst, hid⟩
        · simp [opensTransaction, hf.op, hst]
        · simp [opensTransaction, hf.op, hid]
      exact if_pos ho
    · exact ⟨hf, rfl, rfl, rfl⟩
  | dataRepeat hf =>
    refine ⟨h.counted, fun hidle => ?_⟩
    rw [not_opens_of_op (by rw [hf.op]; exact hops.1)]
    exact h.opener hidle
  | extended hf hseq hoff =>
    refine ⟨fun _ => (h.counted hf.active).extended hf hoff, fun _ => ?_⟩
    rw [not_opens_of_op (by rw [hf.op]; exact hops.1)]
    obtain ⟨p₀, n₀, hp₀, hby⟩ := h.opener (by rw [hf.active]; decide)
    exact ⟨p₀, n₀, hp₀, hby.frame, hby.id, hby.total, hby.sha⟩
  | commitRepeat code hf =>
    refine ⟨h.counted, fun hidle => ?_⟩
    rw [not_opens_of_op (by rw [hf.op]; exact hops.2.1)]
    exact h.opener hidle
  | staged hf =>
    refine ⟨fun hact => (by cases hact), fun _ => ?_⟩
    rw [not_opens_of_op (by rw [hf.op]; exact hops.2.1)]
    obtain ⟨p₀, n₀, hp₀, hby⟩ := h.opener hf.not_idle
    exact ⟨p₀, n₀, hp₀, hby.frame, hby.id, hby.total, hby.sha⟩
  | hashFailed => exact ⟨fun hact => (by cases hact), fun hidle => absurd rfl hidle⟩
  | aborted => exact ⟨fun hact => (by cases hact), fun hidle => absurd rfl hidle⟩

/-- Whoever calls, the counters and the opener of a transaction are known in
    every state reached. -/
theorem sharedInv_reachable {s : SharedUpdate} (h : Reachable sharedUpdate s) : SharedInv s := by
  refine h.invariant (I := SharedInv) (fun s hinit => ?_) (fun s a s' hs hstep => ?_)
  · have hidle : s.rx.state = .idle := by
      rw [show s.rx = updateReset from hinit]
      rfl
    refine ⟨fun hact => ?_, fun hne => absurd hidle hne⟩
    rw [hidle] at hact
    cases hact
  · match a with
    | .process p n =>
      obtain rfl : s' = s.process p n := hstep
      exact hs.process p n
    | .finish accepted =>
      obtain ⟨hstaged, rfl⟩ := hstep
      refine ⟨nofun, fun _ => ?_⟩
      obtain ⟨p, n, hp, hby⟩ := hs.opener (by rw [hstaged]; decide)
      exact ⟨p, n, hp, hby.frame, hby.id, hby.total, hby.sha⟩
    | .others pend magic =>
      obtain rfl : s' = { s with pend := pend, magic := magic } := hstep
      exact ⟨hs.counted, hs.opener⟩

/-! ## The same command again -/

/-- A call that moves neither the receiver nor the staging area. -/
structure Unmoved (s : SharedUpdate) (r : UpdateStep) : Prop where
  rx : r.rx = s.rx
  pend : r.pend s.pend = s.pend
  magic : r.pendMagic s.magic = s.magic

theorem unmoved_repeated (s : SharedUpdate) (code : U8) (id : U32) :
    Unmoved s (repeated s.rx code id) := ⟨rfl, rfl, rfl⟩

/-- What the receiver took, it answers the same way again. -/
structure AnsweredAgain (s : SharedUpdate) (p : Mem) (n : Nat) : Prop where
  ret : ((s.process p n).answer p n).ret
  reply : ((s.process p n).answer p n).reply = (s.answer p n).reply
  unmoved : Unmoved (s.process p n) ((s.process p n).answer p n)

/-- A call that moved nothing happens again. -/
theorem AnsweredAgain.of_unmoved {s : SharedUpdate} {p : Mem} {n : Nat}
    (hret : (s.answer p n).ret) (h : Unmoved s (s.answer p n)) : AnsweredAgain s p n := by
  have hsame : (s.process p n).answer p n = s.answer p n := by
    unfold SharedUpdate.answer at h ⊢
    show updateProcess (s.answer p n).rx p n ((s.answer p n).pend s.pend)
      ((s.answer p n).pendMagic s.magic) = _
    unfold SharedUpdate.answer
    rw [h.rx, h.pend, h.magic]
  refine ⟨hsame ▸ hret, congrArg UpdateStep.reply hsame, ?_⟩
  rw [hsame]
  exact ⟨h.rx.trans h.rx.symm, by
    show (s.answer p n).pend ((s.answer p n).pend s.pend) = (s.answer p n).pend s.pend
    rw [h.pend, h.pend], by
    show (s.answer p n).pendMagic ((s.answer p n).pendMagic s.magic) =
      (s.answer p n).pendMagic s.magic
    rw [h.magic, h.magic]⟩

/-- A step that is recognised when its command arrives again. -/
theorem AnsweredAgain.of_repeated {s : SharedUpdate} {p : Mem} {n : Nat} {r : UpdateStep}
    (hr : s.answer p n = r) {code : U8} {id : U32}
    (hagain : (s.process p n).answer p n = repeated r.rx code id)
    (hreply : replySet r.rx code 0 id = r.reply) : AnsweredAgain s p n := by
  have hrx : (s.process p n).rx = r.rx := congrArg UpdateStep.rx hr
  refine ⟨by rw [hagain]; rfl, ?_, ?_⟩
  · rw [hagain, hr]
    exact hreply
  · rw [hagain, ← hrx]
    exact unmoved_repeated _ _ _

/-- Every command the receiver took, but an ABORT, is answered again. -/
theorem SharedInv.answeredAgain {s : SharedUpdate} (h : SharedInv s) {p : Mem} {n : Nat}
    (hret : (s.answer p n).ret) (hop : p 0 ≠ UPDATE_OP_ABORT) : AnsweredAgain s p n := by
  have hout : UpdateOutcome s.rx p n s.pend s.magic (s.answer p n) :=
    updateProcess_outcome s.rx p n s.pend s.magic
  have hnext : ∀ r, s.answer p n = r → (s.process p n).answer p n =
      updateProcess r.rx p n (r.pend s.pend) (r.pendMagic s.magic) := by
    rintro r rfl
    rfl
  have hquiet : ∀ code id, s.answer p n = repeated s.rx code id → AnsweredAgain s p n := by
    intro code id heq
    refine .of_unmoved hret ?_
    rw [heq]
    exact unmoved_repeated s code id
  generalize hr : s.answer p n = r at hout hret hquiet
  cases hout with
  | refused => cases hret
  | beginRepeat => exact hquiet _ _ rfl
  | dataRepeat => exact hquiet _ _ rfl
  | commitRepeat => exact hquiet _ _ rfl
  | opened hf hst hmagic =>
    refine .of_repeated hr ((hnext _ hr).trans ?_) rfl
    exact updateProcess_beginRepeat _ _ hf (show UpdateState.active ≠ .idle by decide) rfl rfl rfl
  | extended hf hseq hoff =>
    -- the chunk is now the one received last
    have hc := h.counted hf.active
    obtain ⟨hreceived, hcount⟩ := hc.extended_toNat hf
    have hf' : DataFrame (s.rx.extended p) p n :=
      ⟨hf.op, hf.len, hf.crc, hf.id, hf.active, hf.size_pos, hf.size_le, hf.fits⟩
    refine .of_repeated hr ((hnext _ hr).trans ?_) rfl
    refine updateProcess_dataRepeat _ _ hf' ?_ ?_ fun i hi => ?_
    · rw [hcount, hseq]
    · rw [hreceived, hoff]
    · show applyStores s.pend (dataStores p s.rx.received.toNat (p 9).toNat) _ = _
      rw [applyStores_dataStores, hoff, if_pos (by omega), Nat.add_sub_cancel_left]
  | staged hf hact hrec hsha =>
    have hf' : ShortFrame UPDATE_OP_COMMIT { s.rx with state := .staged } p n :=
      ⟨hf.op, hf.len, hf.crc, hf.id, show UpdateState.staged ≠ .idle by decide⟩
    refine .of_repeated hr ((hnext _ hr).trans ?_) rfl
    rw [updateProcess_commit _ _ hf']
    rfl
  | hashFailed => cases hret
  | aborted hf => exact absurd hf.op hop

/-- An ABORT the receiver took leaves nothing to abort. -/
theorem abort_unmoved {s : SharedUpdate} {p : Mem} {n : Nat} (hret : (s.answer p n).ret)
    (hop : p 0 = UPDATE_OP_ABORT) : Unmoved (s.process p n) ((s.process p n).answer p n) := by
  have hout : UpdateOutcome s.rx p n s.pend s.magic (s.answer p n) :=
    updateProcess_outcome s.rx p n s.pend s.magic
  have hidle : (s.process p n).rx.state = .idle := by
    show (s.answer p n).rx.state = .idle
    generalize s.answer p n = r at hout hret
    cases hout with
    | refused => cases hret
    | aborted => rfl
    | beginRepeat _ hf => exact absurd (hf.op.symm.trans hop) (by decide)
    | opened hf => exact absurd (hf.op.symm.trans hop) (by decide)
    | dataRepeat hf => exact absurd (hf.op.symm.trans hop) (by decide)
    | extended hf => exact absurd (hf.op.symm.trans hop) (by decide)
    | commitRepeat _ hf => exact absurd (hf.op.symm.trans hop) (by decide)
    | staged hf => exact absurd (hf.op.symm.trans hop) (by decide)
    | hashFailed => cases hret
  -- in the idle state nothing but a BEGIN is taken
  generalize s.process p n = s' at hidle ⊢
  have hout' : UpdateOutcome s'.rx p n s'.pend s'.magic (s'.answer p n) :=
    updateProcess_outcome s'.rx p n s'.pend s'.magic
  generalize s'.answer p n = r' at hout'
  cases hout' with
  | refused => exact ⟨rfl, rfl, rfl⟩
  | beginRepeat _ hf => exact absurd (hf.op.symm.trans hop) (by decide)
  | opened hf => exact absurd (hf.op.symm.trans hop) (by decide)
  | dataRepeat hf => exact absurd (hf.active.symm.trans hidle) (by decide)
  | extended hf => exact absurd (hf.active.symm.trans hidle) (by decide)
  | commitRepeat _ hf => exact absurd hidle hf.not_idle
  | staged hf => exact absurd hidle hf.not_idle
  | hashFailed hf => exact absurd hidle hf.not_idle
  | aborted hf => exact absurd hidle hf.not_idle

/-- The BEGIN that opened the transaction moves nothing while it lasts. -/
theorem SharedInv.opener_unmoved {s : SharedUpdate} (h : SharedInv s) (hst : s.rx.state ≠ .idle) :
    ∃ p n, s.opener = some (p, n) ∧ Unmoved s (s.answer p n) := by
  obtain ⟨p, n, hp, hby⟩ := h.opener hst
  refine ⟨p, n, hp, ?_⟩
  unfold SharedUpdate.answer
  rw [updateProcess_beginRepeat _ _ hby.frame hst hby.id hby.total hby.sha]
  exact unmoved_repeated _ _ _

/-- **Retransmission.** In every reachable state, whoever else writes the
    staging area: a BEGIN, DATA or COMMIT the receiver took is answered the
    same way when it arrives again, and moves nothing; neither does an ABORT
    it took; and the BEGIN that opened the transaction moves nothing as long
    as it is not idle. -/
theorem sharedUpdate_retransmission {s : SharedUpdate} (h : Reachable sharedUpdate s) :
    (∀ p n, (s.answer p n).ret →
      (p 0 = UPDATE_OP_BEGIN ∨ p 0 = UPDATE_OP_DATA ∨ p 0 = UPDATE_OP_COMMIT →
        AnsweredAgain s p n) ∧
      (p 0 = UPDATE_OP_ABORT → Unmoved (s.process p n) ((s.process p n).answer p n))) ∧
    (s.rx.state = .active ∨ s.rx.state = .staged ∨ s.rx.state = .done →
      ∃ p n, s.opener = some (p, n) ∧ Unmoved s (s.answer p n)) := by
  have hinv := sharedInv_reachable h
  refine ⟨fun p n hret => ⟨fun hop => hinv.answeredAgain hret ?_, fun hop => abort_unmoved hret hop⟩,
    fun hst => hinv.opener_unmoved ?_⟩
  · rcases hop with hop | hop | hop <;> rw [hop] <;> decide
  · rcases hst with hst | hst | hst <;> rw [hst] <;> decide

/-- A BEGIN and a chunk, each of them again, on a shared staging area. -/
def sharedStart : SharedUpdate := ⟨updateReset, fun _ => 0, 0, none⟩

def sharedActive : SharedUpdate := sharedStart.process sampleBegin 41

theorem sharedUpdate_retransmission_sampleChunk :
    AnsweredAgain sharedActive sampleChunk 14 ∧
      ∃ p n, sharedActive.opener = some (p, n) ∧ Unmoved sharedActive (sharedActive.answer p n) := by
  have hreach : Reachable sharedUpdate sharedActive :=
    .step (.process sampleBegin 41) (.init (s := sharedStart) rfl) rfl
  have hret : (sharedActive.answer sampleChunk 14).ret := by decide +kernel
  have hact : sharedActive.rx.state = .active := by decide +kernel
  obtain ⟨hagain, hopener⟩ := sharedUpdate_retransmission hreach
  exact ⟨(hagain _ _ hret).1 (.inr (.inl rfl)), hopener (.inl hact)⟩

end Interclus

import Interclus.Protocol.ClientTurn
import Interclus.Protocol.DeviceTurn
import Interclus.Protocol.Transaction

/-! # The Invariant of a Transfer

    It follows the transaction through three phases: while the device holds
    another id every reply under the transfer's own id is a refusal; while
    the image arrives and after the verdict every frame still in flight
    belongs to the transfer, and so does every reply that is not a refusal.
    Every step but the start of another transfer preserves it. -/

namespace Interclus

open Words LTS

/-! ## What agreement says -/

/-- The staged bytes of the promotions in a log. -/
def promotions (log : List DevEvent) : List Mem :=
  log.filterMap fun
    | .promoted pend => some pend
    | .began _ => none

/-- What a log records since the BEGIN of `tid` was first accepted. -/
def Since (tid : U32) (log after : List DevEvent) : Prop :=
  ∃ before, log = before ++ .began tid :: after ∧ .began tid ∉ before

/-- Exactly one promotion since then, of staged bytes equal to the image. -/
def PromotedOnce (tid : U32) (image : List U8) (log : List DevEvent) : Prop :=
  ∃ after pend, Since tid log after ∧ promotions after = [pend] ∧
    bytesAt pend 0 image.length = image

/-- No frame and no reply in flight names `tid`, and the device does not
    hold it. -/
structure Fresh (tid : U32) (l : Link) : Prop where
  device : l.dev.update.id ≠ tid
  frames : ∀ f ∈ l.toDev, ¬ Carries tid f
  replies : ∀ p ∈ l.toHost, ∀ r, decodeReply p = some r → r.id ≠ tid

theorem Since.append {tid : U32} {log after : List DevEvent} (h : Since tid log after)
    (events : List DevEvent) : Since tid (log ++ events) (after ++ events) := by
  obtain ⟨before, rfl, hnot⟩ := h
  exact ⟨before, by simp, hnot⟩

theorem promotions_append (l l' : List DevEvent) :
    promotions (l ++ l') = promotions l ++ promotions l' := List.filterMap_append

theorem promotions_beganEvents (bytes : Option (List U8)) (s : Sup) :
    promotions (beganEvents bytes s) = [] := by
  unfold beganEvents
  split
  · split <;> rfl
  · rfl

/-! ## Replies in flight -/

/-- A reply under `tid` is a refusal. -/
def Refusing (tid : U32) (p : List U8) : Prop :=
  ∀ r, decodeReply p = some r → r.id = tid → r.code = UPDATE_NACK

/-- A reply that is not a refusal is under `tid`, and accepts only if the
    image was accepted. -/
def Belonging (tid : U32) (accepted : Prop) (p : List U8) : Prop :=
  ∀ r, decodeReply p = some r → r.code ≠ UPDATE_NACK → r.id = tid ∧ (r.code = UPDATE_ACCEPT → accepted)

theorem Refusing.of_reply {tid : U32} {r : UpdateReply} (h : r.id = tid → r.code = UPDATE_NACK) :
    Refusing tid (replyBytes r) := by
  intro r' hr'
  obtain rfl := decodeReply_replyBytes hr'
  exact h

theorem Belonging.of_reply {tid : U32} {accepted : Prop} {r : UpdateReply}
    (h : r.code ≠ UPDATE_NACK → r.id = tid ∧ (r.code = UPDATE_ACCEPT → accepted)) :
    Belonging tid accepted (replyBytes r) := by
  intro r' hr'
  obtain rfl := decodeReply_replyBytes hr'
  exact h

theorem Belonging.mono {tid : U32} {p : List U8} {P Q : Prop} (h : Belonging tid P p) (hPQ : P → Q) :
    Belonging tid Q p := fun r hr hne => ⟨(h r hr hne).1, fun hc => hPQ ((h r hr hne).2 hc)⟩

/-! ## The invariant -/

/-- How far the device is with the transfer. -/
inductive Phase where
  | before
  | active
  | done (ok : Bool)

/-- The device, and what the log says of it. -/
def DevInv (tid : U32) (image : List U8) (s : Sup) (log : List DevEvent) : Phase → Prop
  | .before => s.update.id ≠ tid ∧ .began tid ∉ log
  | .active => OwnActive tid image s.update s.pend ∧ s.pendOk ≠ PROG_PEND_MAGIC ∧
      ∃ after, Since tid log after ∧ promotions after = []
  | .done ok => OwnDone tid image ok s.update ∧ s.pendOk ≠ PROG_PEND_MAGIC ∧
      (ok = true → PromotedOnce tid image log)

/-- Frames in flight: those sent before the transfer are ahead of its own,
    and gone once its BEGIN was accepted. -/
def FrameInv (tid : U32) (image : List U8) (frames : List (List U8)) : Phase → Prop
  | .before => ∃ old own, frames = old ++ own ∧ (∀ f ∈ old, ¬ Carries tid f) ∧
      ∀ f ∈ own, OwnFrame tid image f
  | _ => ∀ f ∈ frames, OwnFrame tid image f

/-- Replies in flight: the ones from before are ahead, and consumed once the
    client is past BEGIN. -/
def ReplyInv (tid : U32) (past : Bool) (replies : List (List U8)) (ph : Phase) : Prop :=
  ∃ old own, replies = old ++ own ∧ (∀ p ∈ old, Refusing tid p) ∧
    (∀ p ∈ own, Belonging tid (ph = .done true) p) ∧ (past = true → old = []) ∧
    (ph = .before → own = [] ∧ past = false)

structure TransferInv (tid : U32) (image : List U8) (l : Link) (ph : Phase) : Prop where
  host : l.host.tid = tid ∧ l.host.image = image
  dev : DevInv tid image l.dev l.log ph
  frames : FrameInv tid image l.toDev ph
  replies : ReplyInv tid l.host.pc.past l.toHost ph
  verdict : l.host.pc = .returned true → ph = .done true

/-! ## Channels -/

theorem FrameInv.sublist {tid : U32} {image : List U8} {fs fs' : List (List U8)} {ph : Phase}
    (h : FrameInv tid image fs ph) (hsub : fs'.Sublist fs) : FrameInv tid image fs' ph := by
  cases ph with
  | before =>
    obtain ⟨old, own, rfl, hold, hown⟩ := h
    obtain ⟨old', own', rfl, hsub₁, hsub₂⟩ := List.sublist_append_iff.mp hsub
    exact ⟨old', own', rfl, fun f hf => hold f (hsub₁.subset hf), fun f hf => hown f (hsub₂.subset hf)⟩
  | active => exact fun f hf => h f (hsub.subset hf)
  | done ok => exact fun f hf => h f (hsub.subset hf)

/-- The client sends frames of the transfer only. -/
theorem FrameInv.send {tid : U32} {image : List U8} {fs sent : List (List U8)} {ph : Phase}
    (h : FrameInv tid image fs ph) (hsent : ∀ f ∈ sent, OwnFrame tid image f) :
    FrameInv tid image (fs ++ sent) ph := by
  have happend : ∀ own, (∀ f ∈ own, OwnFrame tid image f) →
      ∀ f ∈ own ++ sent, OwnFrame tid image f := fun own hown f hf =>
    (List.mem_append.mp hf).elim (hown f) (hsent f)
  cases ph with
  | before =>
    obtain ⟨old, own, rfl, hold, hown⟩ := h
    exact ⟨old, own ++ sent, List.append_assoc _ _ _, hold, happend own hown⟩
  | active => exact happend fs h
  | done ok => exact happend fs h

/-- The frame the device takes: an old one, or one of the transfer with
    nothing but its own behind it. -/
theorem FrameInv.pop {tid : U32} {image f : List U8} {fs : List (List U8)} {ph : Phase}
    (h : FrameInv tid image (f :: fs) ph) :
    (ph = .before ∧ ¬ Carries tid f ∧ FrameInv tid image fs .before) ∨
      (OwnFrame tid image f ∧ ∀ f' ∈ fs, OwnFrame tid image f') := by
  have hall : (∀ f' ∈ f :: fs, OwnFrame tid image f') →
      OwnFrame tid image f ∧ ∀ f' ∈ fs, OwnFrame tid image f' := fun h =>
    ⟨h f (by simp), fun f' hf' => h f' (by simp [hf'])⟩
  cases ph with
  | before =>
    obtain ⟨old, own, heq, hold, hown⟩ := h
    cases old with
    | nil =>
      have heq : f :: fs = own := heq
      subst heq
      exact .inr (hall hown)
    | cons g old =>
      obtain ⟨rfl, rfl⟩ := List.cons.inj heq
      exact .inl ⟨rfl, hold f (by simp), old, own, rfl, fun f' hf' => hold f' (by simp [hf']), hown⟩
  | active => exact .inr (hall h)
  | done ok => exact .inr (hall h)

theorem ReplyInv.sublist {tid : U32} {past : Bool} {rs rs' : List (List U8)} {ph : Phase}
    (h : ReplyInv tid past rs ph) (hsub : rs'.Sublist rs) : ReplyInv tid past rs' ph := by
  obtain ⟨old, own, rfl, hold, hown, hpast, hbefore⟩ := h
  obtain ⟨old', own', rfl, hsub₁, hsub₂⟩ := List.sublist_append_iff.mp hsub
  refine ⟨old', own', rfl, fun p hp => hold p (hsub₁.subset hp), fun p hp => hown p (hsub₂.subset hp),
    fun hp => ?_, fun hb => ⟨?_, (hbefore hb).2⟩⟩
  · exact List.eq_nil_of_sublist_nil (hpast hp ▸ hsub₁)
  · exact List.eq_nil_of_sublist_nil ((hbefore hb).1 ▸ hsub₂)

theorem ReplyInv.of_past {tid : U32} {past past' : Bool} {rs : List (List U8)} {ph : Phase}
    (h : ReplyInv tid past rs ph) (hpast : past' = true → past = true) :
    ReplyInv tid past' rs ph := by
  obtain ⟨old, own, rfl, hold, hown, hold', hbefore⟩ := h
  refine ⟨old, own, rfl, hold, hown, fun hp => hold' (hpast hp), fun hb => ⟨(hbefore hb).1, ?_⟩⟩
  cases past'
  · rfl
  · exact absurd (hpast rfl) (by rw [(hbefore hb).2]; decide)

/-- Replies the device adds before it takes the transfer up. -/
theorem ReplyInv.refuse {tid : U32} {past : Bool} {rs sent : List (List U8)}
    (h : ReplyInv tid past rs .before) (hsent : ∀ p ∈ sent, Refusing tid p) :
    ReplyInv tid past (rs ++ sent) .before := by
  obtain ⟨old, own, rfl, hold, -, -, hbefore⟩ := h
  obtain ⟨rfl, hpast⟩ := hbefore rfl
  refine ⟨old ++ sent, [], by simp, fun p hp => ?_, nofun, fun h => ?_, fun _ => ⟨rfl, hpast⟩⟩
  · exact (List.mem_append.mp hp).elim (hold p) (hsent p)
  · rw [hpast] at h
    cases h

/-- Replies the device adds once it has taken the transfer up. -/
theorem ReplyInv.answer {tid : U32} {past : Bool} {rs sent : List (List U8)} {ph ph' : Phase}
    (h : ReplyInv tid past rs ph) (hph' : ph' ≠ .before) (hmono : ph = .done true → ph' = .done true)
    (hsent : ∀ p ∈ sent, Belonging tid (ph' = .done true) p) :
    ReplyInv tid past (rs ++ sent) ph' := by
  obtain ⟨old, own, rfl, hold, hown, hpast, -⟩ := h
  refine ⟨old, own ++ sent, List.append_assoc _ _ _, hold, fun p hp => ?_, hpast,
    fun hb => absurd hb hph'⟩
  exact (List.mem_append.mp hp).elim (fun hp => (hown p hp).mono hmono) (hsent p)

/-- The reply the client takes: an old one, or one of the transfer with no
    old one behind it. -/
theorem ReplyInv.pop {tid : U32} {past : Bool} {p : List U8} {rs : List (List U8)} {ph : Phase}
    (h : ReplyInv tid past (p :: rs) ph) :
    ReplyInv tid past rs ph ∧
      ((past = false ∧ Refusing tid p) ∨
        (ph ≠ .before ∧ Belonging tid (ph = .done true) p ∧ ∀ past', ReplyInv tid past' rs ph)) := by
  refine ⟨h.sublist (List.sublist_cons_self p rs), ?_⟩
  obtain ⟨old, own, heq, hold, hown, hpast, hbefore⟩ := h
  cases old with
  | nil =>
    have heq : p :: rs = own := heq
    subst heq
    have hne : ph ≠ .before := fun hb => by cases (hbefore hb).1
    exact .inr ⟨hne, hown p (by simp), fun past' =>
      ⟨[], rs, rfl, nofun, fun p' hp' => hown p' (by simp [hp']), fun _ => rfl, fun hb => absurd hb hne⟩⟩
  | cons q old =>
    obtain ⟨rfl, -⟩ := List.cons.inj heq
    refine .inl ⟨?_, hold p (by simp)⟩
    cases past
    · rfl
    · exact absurd (hpast rfl) (by simp)

/-! ## The client's steps -/

section Steps
variable {b : Build} {tid : U32} {image : List U8} {l l' : Link} {ph : Phase}

theorem TransferInv.host_waits {r : Client × List (List U8)} (h : TransferInv tid image l ph)
    (hw : Waits l.host r) : TransferInv tid image (l.hostMoved r) ph where
  host := ⟨hw.tid.trans h.host.1, hw.image.trans h.host.2⟩
  dev := h.dev
  frames := h.frames.send fun f hf => h.host.1 ▸ h.host.2 ▸ hw.sent f hf
  replies := h.replies.of_past hw.past
  verdict := fun hv => h.verdict (hw.verdict hv)

/-- A reply the client takes: it makes progress on the device's answers to
    this transfer only. -/
theorem TransferInv.recv (h : TransferInv tid image l ph) (hstep : linkStep b l .recv = some l') :
    TransferInv tid image l' ph := by
  unfold linkStep at hstep
  dsimp only at hstep
  split at hstep
  · cases hstep
  next p rest hp =>
  obtain ⟨hrest, hpop⟩ := (hp ▸ h.replies).pop
  have hinv : TransferInv tid image { l with toHost := rest } ph :=
    ⟨h.host, h.dev, h.frames, hrest, h.verdict⟩
  split at hstep
  · next r hr =>
    cases hstep
    rcases l.host.receive_cases r with hw | hprog
    · exact hinv.host_waits hw
    · rcases hpop with ⟨hpast, hrefuse⟩ | ⟨-, hbelong, hall⟩
      · -- a refusal is no progress
        have hid : r.id = tid := by
          rcases hprog.heard with hheard | hid
          · exact absurd hheard (by rw [hpast]; decide)
          · exact hid.trans h.host.1
        exact absurd (hrefuse r hr hid) hprog.code
      · obtain ⟨-, haccept⟩ := hbelong r hr hprog.code
        exact ⟨⟨hprog.tid.trans h.host.1, hprog.image.trans h.host.2⟩, h.dev,
          h.frames.send fun f hf => h.host.1 ▸ h.host.2 ▸ hprog.sent f hf, hall _,
          fun hv => haccept (hprog.verdict hv)⟩
  · cases hstep
    exact hinv

/-! ## The device's turns -/

theorem PromotedOnce.append {log events : List DevEvent} (h : PromotedOnce tid image log)
    (hevents : promotions events = []) : PromotedOnce tid image (log ++ events) := by
  obtain ⟨after, pend, hsince, hproms, hbytes⟩ := h
  exact ⟨after ++ events, pend, hsince.append events,
    by rw [promotions_append, hproms, hevents]; rfl, hbytes⟩

/-- The device does not take the transfer up. -/
theorem TransferInv.turn_before {bytes : Option (List U8)} (h : TransferInv tid image l .before)
    (hturn : l.turn b bytes = some l') (hid : (l.polled bytes).update.id ≠ tid)
    (hbegan : .began tid ∉ beganEvents bytes l.dev)
    (hsent : ∀ p ∈ replyPayloads (l.polled bytes).tx, Refusing tid p) :
    TransferInv tid image l' .before := by
  obtain ⟨s, hends, hs, sent, htx, hverdict⟩ := Link.turn_any hturn
  obtain ⟨-, hlog⟩ := h.dev
  refine ⟨hends.host ▸ h.host, ⟨?_, ?_⟩, hends.toDev ▸ h.frames, ?_, hends.host ▸ h.verdict⟩
  · rw [hends.update, hs]
    exact hid
  · rw [hends.log]
    have hpromoted : .began tid ∉ promotedEvents b (l.polled bytes) := by
      unfold promotedEvents
      split
      · split <;> simp
      · simp
    simp only [List.mem_append, not_or]
    exact ⟨hlog, hbegan, hpromoted⟩
  · rw [hends.host, hends.toHost]
    refine h.replies.refuse fun p hp => ?_
    rw [htx] at hp
    rcases List.mem_append.mp hp with hp | hp
    · exact hsent p hp
    · -- a verdict on the transaction held
      obtain ⟨r, rfl, hr⟩ := hverdict p hp
      exact Refusing.of_reply fun hrid => absurd (hr.symm.trans hrid) hid

/-- The image is arriving when the poll is over. -/
theorem TransferInv.turn_active {bytes : Option (List U8)} (h : TransferInv tid image l ph)
    (hph : ph ≠ .done true) (hturn : l.turn b bytes = some l')
    (hframes : ∀ f ∈ l.toDev, OwnFrame tid image f)
    (hact : OwnActive tid image (l.polled bytes).update (l.polled bytes).pend)
    (hmagic : (l.polled bytes).pendOk ≠ PROG_PEND_MAGIC)
    (hlog : ∃ after, Since tid (l.log ++ beganEvents bytes l.dev) after ∧ promotions after = [])
    (hsent : ∀ p ∈ replyPayloads (l.polled bytes).tx, Belonging tid False p) :
    TransferInv tid image l' .active := by
  obtain ⟨hends, hlog'⟩ := Link.turn_quiet hturn hmagic (by rw [hact.state]; decide)
  refine ⟨hends.host ▸ h.host, ⟨?_, ?_, ?_⟩, ?_, ?_, fun hv => ?_⟩
  · rw [hends.update, hends.pend]
    exact hact
  · rwa [hends.pendOk]
  · rwa [hlog']
  · rw [hends.toDev]
    exact hframes
  · rw [hends.host, hends.toHost]
    exact h.replies.answer nofun (fun h => absurd h hph) fun p hp =>
      (hsent p hp).mono False.elim
  · rw [hends.host] at hv
    exact absurd (h.verdict hv) hph

/-- The COMMIT is settled in the turn that takes it. -/
theorem TransferInv.turn_stages {f : List U8} {r : UpdateStep} (h : TransferInv tid image l .active)
    (hturn : l.turn b (some f) = some l')
    (hpoll : Polled { l.dev with tx := [] } r (l.polled (some f)))
    (hr : Staging tid image l.dev.pend l.dev.update r) : ∃ ok, TransferInv tid image l' (.done ok) := by
  obtain ⟨hact, -, after, hsince, hproms⟩ := h.dev
  have hpend : (l.polled (some f)).pend = l.dev.pend := by
    rw [hpoll.pend, UpdateStep.pend, hr.stores]
    rfl
  have hmagic : (l.polled (some f)).pendOk = PROG_PEND_MAGIC := by
    rw [hpoll.pendOk, UpdateStep.pendMagic, hr.magic]
    rfl
  have hup : (l.polled (some f)).update = { l.dev.update with state := .staged } :=
    hpoll.update.trans hr.rx
  have hmarks := hpoll.marks hr.ret hr.code
  rw [← hpoll.status] at hmarks
  obtain ⟨ok, s, hset, hok, hends, hpromoted⟩ := Link.turn_settles hturn hmagic (by rw [hup]) hmarks
  -- two replies in one turn: that the image is staged, and the verdict
  have hreplies : ∀ p ∈ replyPayloads s.tx, Belonging tid ((Phase.done ok) = .done true) p := by
    obtain ⟨sent₁, htx₁, hsent₁⟩ := hpoll.replies
    obtain ⟨sent₂, htx₂, hsent₂⟩ := hset.replies
    intro p hp
    rw [htx₂, htx₁, List.append_assoc] at hp
    rcases List.mem_append.mp hp with hp | hp
    · cases hp
    rcases List.mem_append.mp hp with hp | hp
    · obtain rfl := hsent₁ p hp
      exact Belonging.of_reply fun _ => ⟨hr.id, fun hcode => absurd (hr.code.symm.trans hcode) (by decide)⟩
    · obtain rfl := hsent₂ p hp
      refine Belonging.of_reply fun _ => ⟨?_, fun hcode => ?_⟩
      · rw [hup]
        exact hact.txn.id
      · cases ok
        · have hne : UPDATE_REJECT ≠ UPDATE_ACCEPT := by decide
          exact absurd hcode hne
        · rfl
  refine ⟨ok, hends.host ▸ h.host, ⟨?_, hends.pendOk ▸ hok, ?_⟩, hends.toDev ▸ h.frames, ?_, fun hv => ?_⟩
  · rw [hends.update, hset.update, hup]
    exact ⟨⟨hact.txn.id, hact.txn.total, hact.txn.sha⟩, rfl, rfl⟩
  -- the promotion is logged behind the BEGIN, with the image in the window
  · rintro rfl
    rw [hends.log]
    refine ⟨_, l.dev.pend, hsince.append _, ?_, hr.image⟩
    rw [promotions_append, promotions_append, promotions_beganEvents, hproms, hpromoted, hpend]
    rfl
  · rw [hends.host, hends.toHost]
    exact h.replies.answer (by simp) (by simp) hreplies
  · rw [hends.host] at hv
    cases h.verdict hv

/-- After the verdict the device only repeats it. -/
theorem TransferInv.turn_done {ok : Bool} {bytes : Option (List U8)}
    (h : TransferInv tid image l (.done ok)) (hturn : l.turn b bytes = some l')
    (hup : (l.polled bytes).update = l.dev.update) (hmagic : (l.polled bytes).pendOk = l.dev.pendOk)
    (hsent : ∀ p ∈ replyPayloads (l.polled bytes).tx, Belonging tid (Phase.done ok = .done true) p) :
    TransferInv tid image l' (.done ok) := by
  obtain ⟨hdone, hok, hproms⟩ := h.dev
  have hclear : (l.polled bytes).pendOk ≠ PROG_PEND_MAGIC := hmagic ▸ hok
  obtain ⟨hends, hlog⟩ := Link.turn_quiet hturn hclear (by rw [hup, hdone.state]; decide)
  refine ⟨hends.host ▸ h.host, ⟨?_, ?_, fun hacc => ?_⟩, hends.toDev ▸ h.frames, ?_,
    hends.host ▸ h.verdict⟩
  · rw [hends.update, hup]
    exact hdone
  · rwa [hends.pendOk]
  · rw [hlog]
    exact (hproms hacc).append (promotions_beganEvents _ _)
  · rw [hends.host, hends.toHost]
    exact h.replies.answer nofun id hsent

end Steps

end Interclus

import Interclus.Protocol.TransferInv

/-! # End-to-End Agreement

    A transfer that returns `True` was promoted, once, from the bytes it
    sent, provided nothing that names its id was in flight when it started.
    Without the proviso a reply to an earlier transfer under the same id is
    taken for an answer to this one. -/

namespace Interclus

open Words LTS

section Steps
variable {b : Build} {tid : U32} {image : List U8} {l l' : Link} {ph : Phase}

/-! ## The frames a turn takes -/

theorem beganEvents_some (f : List U8) (s : Sup) :
    beganEvents (some f) s =
      if listMem f 0 = UPDATE_OP_BEGIN ∧
          (updateProcess s.update (listMem f) f.length s.pend s.pendOk).ret then
        [.began (le32 (listMem f) 1)]
      else [] := rfl

theorem Link.polled_some (l : Link) (f : List U8) :
    Polled { l.dev with tx := [] } (updateProcess l.dev.update (listMem f) f.length l.dev.pend l.dev.pendOk)
      (l.polled (some f)) := chanPoll_polled { l.dev with tx := [] } f

/-- The replies of a poll. -/
theorem Polled.replies_eq {s s' : Sup} {r : UpdateStep} (h : Polled { s with tx := [] } r s') :
    ∀ p ∈ replyPayloads s'.tx, p = replyBytes r.reply := by
  obtain ⟨sent, htx, hsent⟩ := h.replies
  rw [htx]
  exact hsent

/-- A poll that takes no command, or one it refuses. -/
structure Silent (l : Link) (bytes : Option (List U8)) : Prop where
  update : (l.polled bytes).update = l.dev.update
  pend : (l.polled bytes).pend = l.dev.pend
  pendOk : (l.polled bytes).pendOk = l.dev.pendOk
  replies : ∀ p ∈ replyPayloads (l.polled bytes).tx, ∀ r, decodeReply p = some r →
    r.code = UPDATE_NACK
  began : beganEvents bytes l.dev = []

theorem silent_none (l : Link) : Silent l none := ⟨rfl, rfl, rfl, nofun, rfl⟩

theorem silent_corrupted {f : List U8} (h : crcOk (listMem f) f.length = false) (l : Link) :
    Silent l (some f) := by
  have hpoll := l.polled_some f
  obtain ⟨detail, id, hr⟩ := updateProcess_corrupted h l.dev.update l.dev.pend l.dev.pendOk
  rw [hr] at hpoll
  refine ⟨hpoll.update, hpoll.pend, hpoll.pendOk, fun p hp r hdec => ?_, ?_⟩
  · obtain rfl := hpoll.replies_eq p hp
    obtain rfl := decodeReply_replyBytes hdec
    rfl
  · rw [beganEvents_some, hr]
    exact if_neg fun hb => Bool.false_ne_true hb.2

/-! ## A turn, phase by phase -/

/-- A silent turn leaves the transfer where it is. -/
theorem TransferInv.turn_silent {bytes : Option (List U8)} (h : TransferInv tid image l ph)
    (hs : Silent l bytes) (hturn : l.turn b bytes = some l') : TransferInv tid image l' ph := by
  have hbelong : ∀ P, ∀ p ∈ replyPayloads (l.polled bytes).tx, Belonging tid P p :=
    fun P p hp r hr hne => absurd (hs.replies p hp r hr) hne
  cases ph with
  | before =>
    refine h.turn_before hturn ?_ ?_ fun p hp r hr _ => hs.replies p hp r hr
    · rw [hs.update]
      exact h.dev.1
    · rw [hs.began]
      exact List.not_mem_nil
  | active =>
    obtain ⟨hact, hmagic, hlog⟩ := h.dev
    refine h.turn_active nofun hturn h.frames ?_ ?_ ?_ (hbelong False)
    · rw [hs.update, hs.pend]
      exact hact
    · rwa [hs.pendOk]
    · rwa [hs.began, List.append_nil]
  | done ok => exact h.turn_done hturn hs.update hs.pendOk (hbelong _)

/-- While another id is held: a frame from before the transfer, or its
    BEGIN. -/
theorem TransferInv.deliver_before {f : List U8} (h : TransferInv tid image l .before)
    (hf : ¬ Carries tid f ∨ OwnFrame tid image f ∧ ∀ f' ∈ l.toDev, OwnFrame tid image f')
    (hturn : l.turn b (some f) = some l') : ∃ ph', TransferInv tid image l' ph' := by
  obtain ⟨hid, hlog⟩ := h.dev
  have hpoll := l.polled_some f
  have hevents := beganEvents_some f l.dev
  have hproc := updateProcess_stranger hid (hf.symm.imp_left And.left) l.dev.pend l.dev.pendOk
  dsimp only at hproc
  generalize updateProcess l.dev.update (listMem f) f.length l.dev.pend l.dev.pendOk = r
    at hpoll hevents hproc
  rcases hproc with hr | ⟨hbegin, hrx, hmagic, hstores, hret, hrid, hcode⟩
  · -- the transfer is not taken up
    refine ⟨.before, h.turn_before hturn ?_ (fun hb => ?_) fun p hp => ?_⟩
    · rw [hpoll.update]
      exact hr.id
    · rw [hevents] at hb
      split at hb
      · next hop =>
        have htid : tid = le32 (listMem f) 1 := by simpa using hb
        exact hr.began hop.1 hop.2 htid.symm
      · cases hb
    · obtain rfl := hpoll.replies_eq p hp
      exact Refusing.of_reply hr.reply
  -- its BEGIN is taken up
  · have hcarries : Carries tid f := hbegin ▸ OwnFrame.carries ⟨.begin, rfl⟩
    have hown : ∀ f' ∈ l.toDev, OwnFrame tid image f' := by
      rcases hf with hf | hf
      · exact absurd hcarries hf
      · exact hf.2
    have hop : listMem f 0 = UPDATE_OP_BEGIN := hbegin ▸ rfl
    rw [if_pos ⟨hop, hret⟩, hcarries.2] at hevents
    refine ⟨.active, h.turn_active nofun hturn hown ?_ ?_ ⟨[], ?_, rfl⟩ fun p hp => ?_⟩
    · rw [hpoll.update, hrx, hbegin]
      exact ownActive_opened _
    · rw [hpoll.pendOk, UpdateStep.pendMagic, hmagic]
      exact (by decide : (0 : U32) ≠ PROG_PEND_MAGIC)
    · rw [hevents]
      exact ⟨l.log, rfl, hlog⟩
    · obtain rfl := hpoll.replies_eq p hp
      exact Belonging.of_reply fun _ => ⟨hrid, fun h => absurd (hcode.symm.trans h) (by decide)⟩

/-- While the image arrives. -/
theorem TransferInv.deliver_active {f : List U8} (h : TransferInv tid image l .active)
    (hlen : image.length ≤ MAX_IMAGE) (hf : OwnFrame tid image f)
    (hturn : l.turn b (some f) = some l') : ∃ ph', TransferInv tid image l' ph' := by
  obtain ⟨hact, hmagic, after, hsince, hproms⟩ := h.dev
  have hpoll := l.polled_some f
  have hproc := updateProcess_arriving hact hlen hf l.dev.pendOk
  dsimp only at hproc
  generalize updateProcess l.dev.update (listMem f) f.length l.dev.pend l.dev.pendOk = r
    at hpoll hproc
  rcases hproc with hr | hr
  · refine ⟨.active, h.turn_active nofun hturn h.frames ?_ ?_
      ⟨after ++ beganEvents (some f) l.dev, hsince.append _, ?_⟩ fun p hp => ?_⟩
    · rw [hpoll.update, hpoll.pend]
      exact hr.active
    · rw [hpoll.pendOk, UpdateStep.pendMagic, hr.magic]
      exact hmagic
    · rw [promotions_append, hproms, promotions_beganEvents]
      rfl
    · obtain rfl := hpoll.replies_eq p hp
      refine Belonging.of_reply fun hne => ⟨(hr.reply hne).1, fun hcode => ?_⟩
      exact absurd ((hr.reply hne).2.symm.trans hcode) (by decide)
  · obtain ⟨ok, hinv⟩ := h.turn_stages hturn hpoll hr
    exact ⟨.done ok, hinv⟩

/-- After the verdict. -/
theorem TransferInv.deliver_done {ok : Bool} {f : List U8} (h : TransferInv tid image l (.done ok))
    (hf : OwnFrame tid image f) (hturn : l.turn b (some f) = some l') :
    TransferInv tid image l' (.done ok) := by
  obtain ⟨hdone, -, -⟩ := h.dev
  have hpoll := l.polled_some f
  obtain ⟨hrx, -, hmagic, hreply⟩ := updateProcess_done hdone hf l.dev.pend l.dev.pendOk
  generalize updateProcess l.dev.update (listMem f) f.length l.dev.pend l.dev.pendOk = r
    at hpoll hrx hmagic hreply
  refine h.turn_done hturn (hpoll.update.trans hrx) ?_ fun p hp => ?_
  · rw [hpoll.pendOk, UpdateStep.pendMagic, hmagic]
    rfl
  · obtain rfl := hpoll.replies_eq p hp
    refine Belonging.of_reply fun hne => ⟨(hreply hne).1, fun hcode => ?_⟩
    -- an ACCEPT is the final code
    cases ok
    · have hne' : UPDATE_REJECT ≠ UPDATE_ACCEPT := by decide
      exact absurd (hdone.code.symm.trans ((hreply hne).2.symm.trans hcode)) hne'
    · rfl

theorem TransferInv.deliver (h : TransferInv tid image l ph) (hlen : image.length ≤ MAX_IMAGE)
    (hstep : linkStep b l .deliver = some l') : ∃ ph', TransferInv tid image l' ph' := by
  unfold linkStep at hstep
  dsimp only at hstep
  split at hstep
  · cases hstep
  next f rest hto =>
  have hframes : FrameInv tid image (f :: rest) ph := hto ▸ h.frames
  have hinv : TransferInv tid image { l with toDev := rest } ph :=
    ⟨h.host, h.dev, hframes.sublist (List.sublist_cons_self f rest), h.replies, h.verdict⟩
  have hpop := hframes.pop
  cases ph with
  | before => exact hinv.deliver_before (hpop.imp (fun h => h.2.1) id) hstep
  | active =>
    obtain ⟨h, -⟩ | ⟨hf, -⟩ := hpop
    · cases h
    · exact hinv.deliver_active hlen hf hstep
  | done ok =>
    obtain ⟨h, -⟩ | ⟨hf, -⟩ := hpop
    · cases h
    · exact ⟨_, hinv.deliver_done hf hstep⟩

/-! ## Rounds -/

theorem TransferInv.round {e : Event} (h : TransferInv tid image l ph)
    (hstep : linkStep b l (.round e) = some l') : TransferInv tid image l' ph := by
  unfold linkStep at hstep
  dsimp only at hstep
  split at hstep
  · next he =>
    obtain ⟨s', hs', rfl⟩ := Option.map_eq_some_iff.mp hstep
    have hcarries : e.carries = true := by
      cases e <;> first | rfl | exact he
    obtain ⟨hup, hpend, hok, htx⟩ := machineStep_carries hcarries hs'
    have hreplies : l.toHost ++ replyPayloads s'.tx = l.toHost := by
      rw [htx]
      exact List.append_nil _
    refine ⟨h.host, ?_, h.frames, ?_, h.verdict⟩
    · have hdev := h.dev
      unfold Link.moved
      dsimp only
      rw [List.append_nil]
      cases ph <;> simpa only [DevInv, hup, hpend, hok] using hdev
    · show ReplyInv tid l.host.pc.past (l.toHost ++ replyPayloads s'.tx) ph
      rw [hreplies]
      exact h.replies
  · cases hstep

/-! ## Every step -/

theorem TransferInv.step {e : LinkEvent} (h : TransferInv tid image l ph)
    (hlen : image.length ≤ MAX_IMAGE) (he : e.isStart = false)
    (hstep : linkStep b l e = some l') : ∃ ph', TransferInv tid image l' ph' := by
  cases e with
  | start => cases he
  | recv => exact ⟨ph, h.recv hstep⟩
  | timeout =>
    cases hstep
    exact ⟨ph, h.host_waits l.host.timeout_waits⟩
  | deliver => exact h.deliver hlen hstep
  | idle => exact ⟨ph, h.turn_silent (silent_none l) hstep⟩
  | corrupted f =>
    unfold linkStep at hstep
    dsimp only at hstep
    split at hstep
    · cases hstep
    · next hcrc => exact ⟨ph, h.turn_silent (silent_corrupted (by simpa using hcrc) l) hstep⟩
  | round e => exact ⟨ph, h.round hstep⟩
  | loseFrame i =>
    cases hstep
    exact ⟨ph, h.host, h.dev, h.frames.sublist (List.eraseIdx_sublist _ i), h.replies, h.verdict⟩
  | loseReply i =>
    cases hstep
    exact ⟨ph, h.host, h.dev, h.frames, h.replies.sublist (List.eraseIdx_sublist _ i), h.verdict⟩

/-- A transfer that gave up stays so until the next one starts. -/
theorem linkStep_raised {e : LinkEvent} (h : l.host.pc = .raised) (he : e.isStart = false)
    (hstep : linkStep b l e = some l') : l'.host.pc = .raised := by
  obtain ⟨htimeout, hrecv⟩ := Client.raised_stays h
  have hturn : ∀ {l₁ : Link} {bytes : Option (List U8)}, l₁.turn b bytes = some l' →
      l₁.host = l.host → l'.host.pc = .raised := by
    intro l₁ bytes hturn hl
    obtain ⟨s, hends, -⟩ := Link.turn_any hturn
    rw [hends.host, hl, h]
  unfold linkStep at hstep
  cases e <;> dsimp only at hstep
  case start => cases he
  case recv =>
    split at hstep
    · cases hstep
    · split at hstep
      · next r _ =>
        cases hstep
        show (l.host.receive r).1.pc = .raised
        rw [hrecv r]
        exact h
      · cases hstep
        exact h
  case timeout =>
    cases hstep
    show l.host.timeout.1.pc = .raised
    rw [htimeout]
    exact h
  case deliver =>
    split at hstep
    · cases hstep
    · exact hturn hstep rfl
  case idle => exact hturn hstep rfl
  case corrupted f =>
    split at hstep
    · cases hstep
    · exact hturn hstep rfl
  case round e =>
    split at hstep
    · obtain ⟨s', -, rfl⟩ := Option.map_eq_some_iff.mp hstep
      exact h
    · cases hstep
  case loseFrame i =>
    cases hstep
    exact h
  case loseReply i =>
    cases hstep
    exact h

/-- A transfer starts in the phase before its BEGIN, or gives up. -/
theorem TransferInv.start (hfresh : Fresh tid l) (hstep : linkStep b l (.start tid image) = some l') :
    l'.host.pc = .raised ∨ image.length ≤ MAX_IMAGE ∧ TransferInv tid image l' .before := by
  unfold linkStep at hstep
  dsimp only at hstep
  split at hstep
  · cases hstep
    rcases l.host.start_cases tid image with h | ⟨hlen, htid, himage, hsent, hpc⟩
    · exact .inl h
    · have hnew : (l.host.start tid image).1.pc ≠ .returned true := by
        rw [hpc]
        nofun
      refine .inr ⟨hlen, ⟨htid, himage⟩, ⟨hfresh.device, List.not_mem_nil⟩,
        ⟨l.toDev, _, rfl, hfresh.frames, hsent⟩, ⟨l.toHost, [], (List.append_nil _).symm, ?_, nofun,
          fun h => ?_, fun _ => ⟨rfl, ?_⟩⟩, fun h => absurd h hnew⟩
      · exact fun p hp r hr hid => absurd hid (hfresh.replies p hp r hr)
      · exact absurd (hpc ▸ h : ClientPc.past (.exchange .begin 0) = true) (by decide)
      · exact congrArg ClientPc.past hpc
  · cases hstep

end Steps

/-! ## Agreement -/

/-- Over every interleaving of sends, losses, timeouts and turns: a transfer
    under an id nothing in flight names that returns `True` was promoted
    exactly once, from its own bytes. -/
theorem transfer_agreement {b : Build} {l₀ l₁ l : Link} {tid : U32} {image : List U8}
    {es : List LinkEvent} (hfresh : Fresh tid l₀)
    (hstart : linkStep b l₀ (.start tid image) = some l₁) (hrun : StepsFrom (linkSystem b) l₁ es l)
    (hone : ∀ e ∈ es, e.isStart = false) (hret : l.host.pc = .returned true) :
    PromotedOnce tid image l.log := by
  rcases TransferInv.start hfresh hstart with hraised | ⟨hlen, hinv⟩
  · have hpc := hrun.preserves (I := fun l => l.host.pc = .raised)
      (fun _ _ _ he h hs => linkStep_raised h he hs) hone hraised
    rw [hret] at hpc
    cases hpc
  · obtain ⟨ph, hph⟩ := hrun.preserves (I := fun l => ∃ ph, TransferInv tid image l ph)
      (fun _ _ _ he ⟨_, h⟩ hs => h.step hlen he hs) hone ⟨.before, hinv⟩
    obtain rfl := hph.verdict hret
    exact hph.dev.2.2 rfl

/-! ## A transfer that agrees -/

/-- A signed image of one instruction, a jump to itself: header, body and
    digest. -/
def spinImage : List U8 :=
  [1, 0, 0, 0, 1, 0, 0, 0, 5, 0, 255, 255, 0, 0, 0, 0,
   249, 173, 6, 150, 115, 250, 50, 153, 128, 9, 4, 33, 118, 223, 156, 109,
   198, 19, 133, 64, 187, 59, 235, 92, 171, 6, 118, 45, 97, 40, 14, 100]

/-- The board, pinning the digest of `spinImage`. -/
def spinBoard : Build :=
  { Build.pinning [fun i => listMem spinImage (16 + i)] with target := .board }

/-- The board behind its boot, and a client with the default retries. -/
def bootedLink : Link where
  dev := bootMain spinBoard ⟨none, false⟩ .zeroed
  host := ⟨6, 0, [], .ready⟩
  toDev := []
  toHost := []
  log := []

/-- The traps of a schedule round, back to the service loop. -/
def sweep : List LinkEvent := List.replicate 11 (.round (.ecall fun _ => 0))

/-- Frames and replies that arrive in turn. -/
def exchanges (n : Nat) : List LinkEvent := (List.replicate n [.deliver, .recv]).flatten

theorem transfer_agreement_spinImage : ∃ l₀ l₁ l,
    linkRun spinBoard bootedLink sweep = some l₀ ∧
      linkStep spinBoard l₀ (.start 5 spinImage) = some l₁ ∧
      linkRun spinBoard l₁ (exchanges 4 ++ [.recv]) = some l ∧ l.host.pc = .returned true ∧
      PromotedOnce 5 spinImage l.log := by
  have hrun : ((linkRun spinBoard bootedLink sweep).any fun l₀ =>
      (l₀.dev.update.id ≠ 5 ∧ l₀.toDev = [] ∧ l₀.toHost = [] : Bool) &&
      (linkStep spinBoard l₀ (.start 5 spinImage)).any fun l₁ =>
      (linkRun spinBoard l₁ (exchanges 4 ++ [.recv])).any fun l =>
        l.host.pc = .returned true) = true := by decide +kernel
  obtain ⟨l₀, h₀, hl₀⟩ := (Option.any_eq_true _ _).mp hrun
  obtain ⟨hfresh, hl₀⟩ := Bool.and_eq_true_iff.mp hl₀
  obtain ⟨l₁, h₁, hl₁⟩ := (Option.any_eq_true _ _).mp hl₀
  obtain ⟨l, hl, hret⟩ := (Option.any_eq_true _ _).mp hl₁
  obtain ⟨hid, hto, hfrom⟩ := of_decide_eq_true hfresh
  refine ⟨l₀, l₁, l, h₀, h₁, hl, of_decide_eq_true hret, ?_⟩
  refine transfer_agreement ⟨hid, ?_, ?_⟩ h₁ (linkRun_stepsFrom hl) (by decide) (of_decide_eq_true hret)
  · rw [hto]
    nofun
  · rw [hfrom]
    nofun

/-! ## A transfer that takes stale replies -/

/-- Attempts that time out until the client gives up. -/
def giveUp : List LinkEvent := List.replicate 6 .timeout

/-- The last chunk under id 5 is acknowledged three times and the verdict
    arrives late; id 6 then takes the device over, and its client gives up. -/
def staleRun : List LinkEvent :=
  sweep ++ [.start 5 spinImage] ++ exchanges 2 ++
    [.deliver, .timeout, .deliver, .timeout, .deliver, .recv, .deliver] ++ giveUp ++ sweep ++
    List.replicate 5 (.loseFrame 0) ++ [.start 6 spinImage, .deliver] ++ giveUp

/-- The late replies carry another image under id 5 to `True`, though the
    device never sees it. -/
theorem staleReplies_not_promoted :
    ¬ ∀ (b : Build) (l₀ l₁ l : Link) (tid : U32) (image : List U8) (es : List LinkEvent),
      Reachable (linkSystem b) l₀ → l₀.dev.update.id ≠ tid →
        linkStep b l₀ (.start tid image) = some l₁ → StepsFrom (linkSystem b) l₁ es l →
        (∀ e ∈ es, e.isStart = false) → l.host.pc = .returned true →
        PromotedOnce tid image l.log := by
  intro h
  have hrun : ((linkRun spinBoard bootedLink staleRun).any fun l₀ =>
      (l₀.dev.update.id ≠ 5 : Bool) &&
      (linkStep spinBoard l₀ (.start 5 [0])).any fun l₁ =>
      (linkRun spinBoard l₁ (List.replicate 4 .recv)).any fun l =>
        (l.host.pc = .returned true : Bool) && l.log.isEmpty) = true := by decide +kernel
  obtain ⟨l₀, h₀, hl₀⟩ := (Option.any_eq_true _ _).mp hrun
  obtain ⟨hid, hl₀⟩ := Bool.and_eq_true_iff.mp hl₀
  obtain ⟨l₁, h₁, hl₁⟩ := (Option.any_eq_true _ _).mp hl₀
  obtain ⟨l, hl, hend⟩ := (Option.any_eq_true _ _).mp hl₁
  obtain ⟨hret, hlog⟩ := Bool.and_eq_true_iff.mp hend
  have hinit : Reachable (linkSystem spinBoard) bootedLink :=
    .init ⟨.init ⟨_, _, rfl⟩, rfl, rfl, rfl⟩
  obtain ⟨after, pend, ⟨before, hsince, -⟩, -⟩ := h spinBoard l₀ l₁ l 5 [0] _
    ((linkRun_stepsFrom h₀).reachable hinit) (of_decide_eq_true hid) h₁ (linkRun_stepsFrom hl)
    (by decide) (of_decide_eq_true hret)
  rw [List.isEmpty_iff.mp hlog] at hsince
  simp at hsince

end Interclus

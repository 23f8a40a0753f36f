import Interclus.Protocol.ConsoleTurns

/-! # One Verdict

    On the board a transaction is staged and settled in the same turn of
    the service loop: the verdict is read off two counters that only
    `hot_swap` moves, between the poll that samples them and the
    finalization that compares.  From then on the transaction answers every
    repeat with its verdict, until another one begins. -/

namespace Interclus

open Words LTS

/-! ## Staged is no state between turns -/

/-- The transaction is not staged, and the core is not in the harness. -/
structure Unsettled (s : Sup) : Prop where
  update : s.update.state ≠ .staged
  ctl : s.ctl ≠ .swept

theorem enterChecked_ctl (i : Nat) (s : Sup) : (enterChecked i s).ctl ≠ .swept := by
  obtain ⟨status, comp, ctl, h, -, hctl⟩ := enterChecked_frame i s
  rw [h]
  exact hctl

section Board
variable {b : Build} (hb : b.target = .board)
include hb

theorem nativeDone_ctl (proof : Bool) (s : Sup) : (nativeDone b proof s).ctl ≠ .swept := by
  unfold nativeDone
  dsimp only
  rw [hb]
  exact nofun

theorem atkAdvance_ctl (s : Sup) : (atkAdvance b s).ctl ≠ .swept := by
  unfold atkAdvance
  dsimp only
  split
  · exact enterChecked_ctl 1 _
  · unfold nativePhase
    split
    · exact nativeDone_ctl hb false _
    · exact enterChecked_ctl 2 _

theorem supervisorResume_ctl (s : Sup) : (supervisorResume b s).ctl ≠ .swept := by
  unfold supervisorResume
  split
  · exact enterChecked_ctl 0 _
  split
  · exact enterChecked_ctl 0 _
  split
  · exact enterChecked_ctl 1 _
  split
  · exact atkAdvance_ctl hb s
  · exact nativeDone_ctl hb true s

theorem supervisorFault_ctl (cause : U32) (s : Sup) : (supervisorFault b cause s).ctl ≠ .swept := by
  unfold supervisorFault
  dsimp only
  split
  · exact atkAdvance_ctl hb _
  · split
    · exact nativeDone_ctl hb false _
    · exact nofun

end Board

/-! ## Polling -/

/-- A poll that stages takes the COMMIT of a complete image, and samples
    the counters. -/
structure Stages (s s' : Sup) : Prop where
  update : s'.update = { s.update with state := .staged }
  pend : s'.pend = s.pend
  pendOk : s'.pendOk = PROG_PEND_MAGIC
  marks : s'.updateHload = s'.status S_HLOAD ∧ s'.updateHrej = s'.status S_HREJ

theorem chanPoll_stages {frame : Option ConsoleFrame} {s : Sup} (hs : s.update.state ≠ .staged)
    (h : (chanPoll frame s).2.update.state = .staged) : Stages s (chanPoll frame s).2 := by
  by_cases hcommand : ∃ f ∈ frame, IsCommand f
  · obtain ⟨f, rfl, hf⟩ := hcommand
    rw [chanPoll_command hf] at h ⊢
    have hpoll := pollUpdate_polled f s
    have hout := updateProcess_outcome s.update f.stage f.n s.pend s.pendOk
    generalize updateProcess s.update f.stage f.n s.pend s.pendOk = r at hpoll hout
    rw [hpoll.update] at h
    cases hout with
    | staged _ _ _ _ =>
      have hcode : ∀ rx : UpdateRx, ∀ id, (replySet rx UPDATE_REPLY_STAGED 0 id).code =
          UPDATE_REPLY_STAGED := fun _ _ => rfl
      refine ⟨hpoll.update, hpoll.pend, hpoll.pendOk, ?_⟩
      rw [hpoll.status]
      exact hpoll.marks rfl (hcode _ _)
    | hashFailed => cases h
    | aborted => cases h
    | opened => cases h
    | extended hd => exact absurd (hd.active.symm.trans h) (by decide)
    | _ => exact absurd h hs
  · have hother : ∀ f ∈ frame, ¬ IsCommand f := fun f hf hc => hcommand ⟨f, hf, hc⟩
    rcases chanPoll_other hother s with hun | ⟨f, -, -, hupdate, -, -⟩
    · rw [hun.update] at h
      exact absurd h hs
    · rw [hupdate] at h
      exact absurd h hs

/-- A turn that does not stage leaves the transaction to the poll. -/
theorem turn_unstaged {b : Build} {seen : U32} {frame : Option ConsoleFrame} {s s' : Sup}
    (h : (chanPoll frame s).2.update.state ≠ .staged)
    (hturn : serviceTurn b seen frame s = some s') : s'.update = (chanPoll frame s).2.update := by
  obtain ⟨s₁, hs₁, rfl⟩ := Option.map_eq_some_iff.mp hturn
  have hswap := hotSwap_swapped hs₁
  have hfinal : hotUpdateFinalize s₁ = s₁ := if_pos (by rw [hswap.update]; exact h)
  rw [endTurn_update, hfinal, hswap.update]

/-! ## Settling -/

/-- The turn from `s` to `s'` settled the transaction: it is over, its code
    is the verdict of `hot_swap` as the counters have it, and the last frame
    handed to the transmitter is the reply with code and id. -/
structure Settles (frame : Option ConsoleFrame) (accepted : Bool) (s s' : Sup) : Prop where
  state : s'.update.state = .done
  code : s'.update.finalCode = if accepted then UPDATE_ACCEPT else UPDATE_REJECT
  id : s'.update.id = s.update.id
  hload : s'.status S_HLOAD = if accepted then s.status S_HLOAD + 1 else s.status S_HLOAD
  hrej : s'.status S_HREJ = if accepted then s.status S_HREJ else s.status S_HREJ + 1
  reply : s'.tx = (chanPoll frame s).2.tx ++ if (chanPoll frame s).2.txDrains 0 then
    [⟨FRAME_UPDATE_REPLY, replyBytes (finalReply s'.update accepted)⟩] else []

/-- A turn that stages settles, once `hot_swap` has an outcome. -/
theorem turn_settles {b : Build} {seen : U32} {frame : Option ConsoleFrame} {s s₁ : Sup}
    (hs : s.update.state ≠ .staged) (h : (chanPoll frame s).2.update.state = .staged)
    (hswap : hotSwap b (chanPoll frame s).2 = some s₁) :
    ∃ s' ok, serviceTurn b seen frame s = some s' ∧ Settles frame ok s s' := by
  have hstages := chanPoll_stages hs h
  have hswapped := hotSwap_swapped hswap
  have hcounters := (chanPoll_frame frame s).1
  -- the counter that moved since the poll decides
  obtain ⟨ok, hfinal, hload, hrej⟩ := hswapped.finalize hstages.pendOk h hstages.marks
  have hend := endTurn_frame b seen (chanPoll frame s).1 (hotUpdateFinalize s₁)
  have hupdate := endTurn_update b seen (chanPoll frame s).1 (hotUpdateFinalize s₁)
  have hsettled : (hotUpdateFinalize s₁).update = updateFinish s₁.update ok := by
    rw [hfinal]
    exact (settle_settled s₁ ok).1.update
  rw [hsettled] at hupdate
  -- neither the reply nor the end of the turn moves the counters
  have hfinish := hotUpdateFinalize_counters s₁
  have hload' : (endTurn b seen (chanPoll frame s).1 (hotUpdateFinalize s₁)).status S_HLOAD =
      s₁.status S_HLOAD := congrArg Prod.fst (hend.2.trans hfinish)
  have hrej' : (endTurn b seen (chanPoll frame s).1 (hotUpdateFinalize s₁)).status S_HREJ =
      s₁.status S_HREJ := congrArg Prod.snd (hend.2.trans hfinish)
  have hpolledLoad : (chanPoll frame s).2.status S_HLOAD = s.status S_HLOAD :=
    congrArg Prod.fst hcounters
  have hpolledRej : (chanPoll frame s).2.status S_HREJ = s.status S_HREJ :=
    congrArg Prod.snd hcounters
  refine ⟨_, ok, congrArg (Option.map _) hswap, ?_, ?_, ?_, ?_, ?_, ?_⟩
  · rw [hupdate]
    rfl
  · rw [hupdate]
    rfl
  · rw [hupdate]
    show s₁.update.id = _
    rw [hswapped.update, hstages.update]
  · rw [hload', hload, hpolledLoad]
  · rw [hrej', hrej, hpolledRej]
  · rw [hend.1, hupdate, hfinal]
    unfold settle
    rw [updateSendReply_eq]
    show s₁.tx ++ (if s₁.txDrains 0 then _ else _) = _
    rw [hswapped.tx, (hotSwap_frame hswap).2]

/-! ## Between turns -/

theorem bootMain_ctl (b : Build) (input : BootInput) (s : Sup) :
    (bootMain b input s).ctl ≠ .swept := by
  unfold bootMain
  simp only [bootGate_eq_zero, ne_eq, not_true_eq_false, if_false]
  exact enterChecked_ctl 0 _

theorem bootMain_unsettled (b : Build) (input : BootInput) (s : Sup) :
    Unsettled (bootMain b input s) := by
  refine ⟨?_, bootMain_ctl b input s⟩
  rw [bootMain_update]
  decide

/-- Step lemma: on the board no step ends in between. -/
theorem machineStep_unsettled {b : Build} (hb : b.target = .board) {s s' : Sup} {e : Event}
    (h : Unsettled s) (hstep : machineStep b s e = some s') : Unsettled s' := by
  cases machineStep_moved hstep with
  | user u eff => cases eff <;> exact ⟨h.update, h.ctl⟩
  | ecall u regs =>
    have hcarries := machineStep_carries rfl hstep
    exact ⟨hcarries.update ▸ h.update, supervisorResume_ctl hb _⟩
  | fault u cause addr regs =>
    have hcarries := machineStep_carries rfl hstep
    exact ⟨hcarries.update ▸ h.update, supervisorFault_ctl hb cause _⟩
  | turn seen frame s' hctl hturn =>
    have hctl' : s'.ctl ≠ .swept := by
      obtain ⟨s₁, hs₁, rfl⟩ := Option.map_eq_some_iff.mp hturn
      unfold endTurn
      split
      · exact enterChecked_ctl 0 _
      · show (hotUpdateFinalize s₁).ctl ≠ .swept
        rw [turn_ctl hs₁]
        exact h.ctl
    refine ⟨?_, hctl'⟩
    by_cases hstaged : (chanPoll frame s).2.update.state = .staged
    · obtain ⟨s₁, hs₁, -⟩ := Option.map_eq_some_iff.mp hturn
      obtain ⟨s'', ok, hturn', hsettles⟩ := turn_settles h.update hstaged hs₁
      obtain rfl := Option.some.inj (hturn.symm.trans hturn')
      rw [hsettles.state]
      decide
    · rw [turn_unstaged hstaged hturn]
      exact hstaged
  | beat => exact ⟨h.update, h.ctl⟩
  | stage => exact ⟨h.update, h.ctl⟩
  | reset area input => exact bootMain_unsettled b input _
  -- the calls of the harness
  | poll _ hctl => exact absurd hctl h.ctl
  | swap _ hctl => exact absurd hctl h.ctl
  | finalize hctl => exact absurd hctl h.ctl
  | round hctl => exact absurd hctl h.ctl

theorem unsettled_reachable {b : Build} (hb : b.target = .board) {s : Sup}
    (h : Reachable (machine b) s) : Unsettled s := by
  refine h.invariant (I := Unsettled) ?_ fun s e s' => machineStep_unsettled hb
  rintro _ ⟨raw, input, rfl⟩
  exact bootMain_unsettled b input raw

/-! ## The verdict stands -/

/-- A BEGIN of another id that is accepted. -/
def BeginsOther (s : Sup) : Option ConsoleFrame → Prop
  | some f => IsCommand f ∧ f.stage 0 = UPDATE_OP_BEGIN ∧ le32 f.stage 1 ≠ s.update.id ∧
      (updateProcess s.update f.stage f.n s.pend s.pendOk).ret = true
  | none => False

/-- The events that end a transaction that is over: another one begins, or
    a boot. -/
def Supersedes (s : Sup) : Event → Prop
  | .turn frame => BeginsOther s frame
  | .poll frame => BeginsOther s frame
  | .reset .. => True
  | _ => False

theorem chanPoll_done {frame : Option ConsoleFrame} {s : Sup} (hs : s.update.state = .done)
    (h : ¬ BeginsOther s frame) : (chanPoll frame s).2.update = s.update := by
  by_cases hcommand : ∃ f ∈ frame, IsCommand f
  · obtain ⟨f, rfl, hf⟩ := hcommand
    -- only the BEGIN of another id could move it
    have hbegins : f.stage 0 = UPDATE_OP_BEGIN → le32 f.stage 1 ≠ s.update.id →
        (updateProcess s.update f.stage f.n s.pend s.pendOk).ret ≠ true :=
      fun hop hid hret => h ⟨hf, hop, hid, hret⟩
    rw [chanPoll_command hf, (pollUpdate_polled f s).update]
    have hout := updateProcess_outcome s.update f.stage f.n s.pend s.pendOk
    generalize updateProcess s.update f.stage f.n s.pend s.pendOk = r at hout hbegins
    cases hout with
    | opened hb hst _ =>
      rcases hst with hst | ⟨-, hid⟩
      · exact absurd (hs.symm.trans hst) (by decide)
      · exact absurd rfl (hbegins hb.op (Ne.symm hid))
    | extended hd => exact absurd (hs.symm.trans hd.active) (by decide)
    | staged _ hst => exact absurd (hs.symm.trans hst) (by decide)
    | hashFailed _ hst => exact absurd (hs.symm.trans hst) (by decide)
    | aborted _ hst => exact absurd (hs.symm.trans hst) (by decide)
    | _ => rfl
  · have hother : ∀ f ∈ frame, ¬ IsCommand f := fun f hf hc => hcommand ⟨f, hf, hc⟩
    rcases chanPoll_other hother s with hun | ⟨f, -, -, hupdate, -, -⟩
    · exact hun.update
    · exact hupdate

/-- Step lemma: nothing else moves a transaction that is over. -/
theorem machineStep_done {b : Build} {s s' : Sup} {e : Event} (hs : s.update.state = .done)
    (h : ¬ Supersedes s e) (hstep : machineStep b s e = some s') : s'.update = s.update := by
  have hnot : s.update.state ≠ .staged := by rw [hs]; decide
  by_cases he : e.carries = true
  · exact (machineStep_carries he hstep).update
  cases machineStep_moved hstep with
  | turn seen frame s' _ hturn =>
    have hpoll := chanPoll_done hs h
    exact (turn_unstaged (by rw [hpoll]; exact hnot) hturn).trans hpoll
  | poll => exact chanPoll_done hs h
  | swap s' _ hswap => exact (hotSwap_swapped hswap).update
  | finalize => exact congrArg Sup.update (if_pos hnot : hotUpdateFinalize s = s)
  | stage => rfl
  | reset => exact absurd trivial h
  | _ => exact absurd rfl he

/-- A well-formed repeat of the BEGIN, or a COMMIT, of the transaction. -/
def RepeatsOwn (rx : UpdateRx) (f : ConsoleFrame) : Prop :=
  IsCommand f ∧
    (BeginFrame f.stage f.n ∧ le32 f.stage 1 = rx.id ∧ le16 f.stage 5 = rx.total ∧
        beginSha f.stage = rx.expectedSha ∨
      ShortFrame UPDATE_OP_COMMIT rx f.stage f.n)

/-- The poll of `f` hands the transmitter a reply with the final code and
    the id. -/
def AnswersVerdict (s : Sup) (f : ConsoleFrame) : Prop :=
  ∃ r, r.id = s.update.id ∧ r.code = s.update.finalCode ∧
    (chanPoll (some f) s).2.tx =
      s.tx ++ if s.txDrains 0 then [⟨FRAME_UPDATE_REPLY, replyBytes r⟩] else []

theorem answersVerdict_of_done {s : Sup} (hs : s.update.state = .done) {f : ConsoleFrame}
    (h : RepeatsOwn s.update f) : AnswersVerdict s f := by
  obtain ⟨hf, hrepeats⟩ := h
  have hanswer : ∃ id, id = s.update.id ∧
      updateProcess s.update f.stage f.n s.pend s.pendOk =
        repeated s.update s.update.finalCode id := by
    rcases hrepeats with ⟨hbegin, hid, htotal, hsha⟩ | hcommit
    · refine ⟨_, hid, ?_⟩
      have := updateProcess_beginRepeat s.pend s.pendOk hbegin (by rw [hs]; decide) hid.symm
        htotal.symm hsha.symm
      rwa [if_pos hs] at this
    · refine ⟨_, hcommit.id, ?_⟩
      rw [updateProcess_commit s.pend s.pendOk hcommit, if_pos hs]
  obtain ⟨id, hid, hproc⟩ := hanswer
  refine ⟨replySet s.update s.update.finalCode 0 id, replySet_id hid _ _, rfl, ?_⟩
  rw [chanPoll_command hf, pollUpdate_tx, hproc]
  rfl

/-- The turn settles the transaction, and from then on, until another one
    begins, no event moves it and every repeat is answered with its verdict. -/
def OneVerdict (b : Build) (seen : U32) (frame : Option ConsoleFrame) (s : Sup) : Prop :=
  ∃ s' ok, serviceTurn b seen frame s = some s' ∧ Settles frame ok s s' ∧
    ∀ es s'', StepsFrom ((machine b).restrict fun s e => ¬ Supersedes s e) s' es s'' →
      s''.update = s'.update ∧ ∀ f, RepeatsOwn s''.update f → AnswersVerdict s'' f

/-- The received image is a native one that passes every gate and is longer
    than a mirror page holds. -/
def LongImage (b : Build) (s : Sup) : Prop :=
  OversizeNative b { s with pendOk := PROG_PEND_MAGIC }

theorem oversizeNative_iff_longImage {b : Build} {s s' : Sup} (h : Stages s s') :
    OversizeNative b s' ↔ LongImage b s := by
  constructor
  · intro ho
    obtain ⟨-, hkind, htrusted, hgate, hlong⟩ := ho
    rw [h.pend] at hkind htrusted hgate hlong
    exact ⟨rfl, hkind, htrusted, hgate, hlong⟩
  · rintro ⟨-, hkind, htrusted, hgate, hlong⟩
    refine ⟨h.pendOk, ?_, ?_, ?_, ?_⟩ <;> rw [h.pend] <;> assumption

/-- **One verdict.** In every reachable state of the board the transaction
    is not staged between turns; and a turn that stages it settles it, once
    and for all, if and only if the image is not one that `hot_swap` writes
    past its page buffer. -/
theorem machine_oneVerdict {b : Build} (hb : b.target = .board) {s : Sup}
    (h : Reachable (machine b) s) (seen : U32) :
    s.update.state ≠ .staged ∧
      ∀ frame, (chanPoll frame s).2.update.state = .staged →
        (OneVerdict b seen frame s ↔ ¬ LongImage b s) := by
  have hunsettled := unsettled_reachable hb h
  refine ⟨hunsettled.update, fun frame hstaged => ?_⟩
  have hstages := chanPoll_stages hunsettled.update hstaged
  rw [← oversizeNative_iff_longImage hstages, ← hotSwap_eq_none_iff]
  constructor
  · rintro ⟨s', ok, hturn, -⟩ hnone
    obtain ⟨s₁, hs₁, -⟩ := Option.map_eq_some_iff.mp hturn
    rw [hnone] at hs₁
    cases hs₁
  · intro hsome
    obtain ⟨s₁, hs₁⟩ := Option.ne_none_iff_exists'.mp hsome
    obtain ⟨s', ok, hturn, hsettles⟩ := turn_settles hunsettled.update hstaged hs₁
    refine ⟨s', ok, hturn, hsettles, fun es s'' hrun => ?_⟩
    -- by induction over the run: over, and not moved since
    have hstands : s''.update = s'.update := by
      refine hrun.invariant (I := fun t => t.update = s'.update) (fun t e t' ht hstep => ?_) rfl
      have hdone : t.update.state = .done := by rw [ht, hsettles.state]
      rw [machineStep_done hdone hstep.1 hstep.2, ht]
    refine ⟨hstands, fun f hf => answersVerdict_of_done ?_ hf⟩
    rw [hstands, hsettles.state]

/-! ## On the console -/

/-- Behind the last chunk the COMMIT stages the image. -/
theorem transfer_staging {b : Build} {tid : U32} {image : List U8} (htid : tid ≠ 0)
    (hge : 48 ≤ image.length) (hle : image.length ≤ 552) {seen : U32} {s : Sup}
    (hreach : Reachable (machine b) s) (h : Serving seen s) (hidle : s.update.state = .idle)
    (hmagic : s.pendOk ≠ UPDATE_PEND_MAGIC) :
    ∃ s' frame, Reachable (machine b) s' ∧ Serving seen s' ∧
      (chanPoll frame s').2.update.state = .staged ∧ bytesAt s'.pend 0 image.length = image := by
  obtain ⟨s', hreach', hserving, ht⟩ := transfer_turns htid hge hle (show 1 ≤ 64 by decide)
    (by decide) hreach h hidle hmagic _ (Nat.le_refl _)
  have hall : image.length ≤ chunkCount image 64 * 64 :=
    Nat.le_of_not_lt fun h => Nat.lt_irrefl _ ((lt_chunkCount (by decide)).mpr h)
  obtain ⟨-, hstaged, -, hbytes⟩ := feed_commit hle ht hall
  have hpoll := chanPoll_polled s' (commitFrame tid)
  have hstate : (chanPoll (some (updateFrame (commitFrame tid))) s').2.update.state = .staged := by
    rw [hpoll.update]
    exact hstaged
  have hnot : s'.update.state ≠ .staged := by
    rw [show s'.update.state = .active from ht.active.state]
    decide
  refine ⟨s', _, hreach', hserving, hstate, ?_⟩
  rw [← (chanPoll_stages hnot hstate).pend, hpoll.pend]
  exact hbytes

/-- A transfer of 48 bytes that are no module is rejected once and for
    all. -/
theorem machine_oneVerdict_rejected :
    ∃ s frame, Reachable (machine longBoard) s ∧ s.update.state ≠ .staged ∧
      (chanPoll frame s).2.update.state = .staged ∧ OneVerdict longBoard 0 frame s := by
  obtain ⟨s₀, hreach₀, hserving, hidle, hok⟩ := longBoard_serving
  have hid : (1 : U32) ≠ 0 := by decide
  have hge : 48 ≤ sevens.length := by decide
  obtain ⟨s, frame, hreach, -, hstaged, hbytes⟩ := transfer_staging hid hge (by decide) hreach₀
    hserving hidle (by rw [hok]; decide)
  have hsevens : ∀ i < 48, s.pend i = 7 := by
    intro i hi
    have himage : sevens = bytesAt (fun _ => 7) 0 48 := by decide
    have hall := eq_of_bytesAt (hbytes.trans himage) i hi
    rwa [Nat.zero_add] at hall
  have hkind : pendKind s.pend = le32 (fun _ => 7) 4 :=
    le32_congr fun k hk => hsevens _ (by omega)
  have hverdict := machine_oneVerdict rfl hreach 0
  refine ⟨s, frame, hreach, hverdict.1, hstaged, (hverdict.2 frame hstaged).mpr fun hlong => ?_⟩
  have hnative : pendKind s.pend = PEND_NATIVE := hlong.kind
  exact absurd (hkind.symm.trans hnative) (by decide)

/-- The pinned module that does not fit a mirror page is staged, and the
    turn has no outcome. -/
theorem longBoard_noVerdict :
    ∃ s seen frame, Reachable (machine longBoard) s ∧ s.ctl = .service seen ∧
      (chanPoll frame s).2.update.state = .staged ∧ serviceTurn longBoard seen frame s = none ∧
      ¬ OneVerdict longBoard seen frame s := by
  obtain ⟨s₀, hreach₀, hserving₀, hidle, hok⟩ := longBoard_serving
  have hid : (1 : U32) ≠ 0 := by decide
  have hlen : (bytesAt (signedImage longBody 257) 0 289).length = 289 := length_bytesAt _ _ _
  obtain ⟨s, frame, hreach, hserving, hstaged, hbytes⟩ := transfer_staging hid
    (show 48 ≤ (bytesAt (signedImage longBody 257) 0 289).length by omega) (by omega) hreach₀
    hserving₀ hidle (by rw [hok]; decide)
  rw [hlen] at hbytes
  have hpend : ∀ i < 289, s.pend i = signedImage longBody 257 i := by
    intro i hi
    have := eq_of_bytesAt hbytes i hi
    rwa [Nat.zero_add] at this
  have hstages := chanPoll_stages (unsettled_reachable rfl hreach).update hstaged
  have hnone : serviceTurn longBoard 0 frame s = none := by
    have hover : OversizeNative longBoard (chanPoll frame s).2 :=
      longBody_oversize (List.mem_singleton.mpr rfl) hstages.pendOk
        fun i hi => (congrFun hstages.pend i).trans (hpend i hi)
    unfold serviceTurn
    dsimp only
    rw [(hotSwap_eq_none_iff _ _).mpr hover]
    rfl
  refine ⟨s, 0, frame, hreach, hserving.ctl, hstaged, hnone, ?_⟩
  rintro ⟨s', ok, hturn, -⟩
  rw [hnone] at hturn
  cases hturn

end Interclus

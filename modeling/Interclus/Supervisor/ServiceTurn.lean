import Interclus.Supervisor.Carried
import Interclus.Supervisor.Staging
import Interclus.Update.Outcome

/-! # A Turn of the Service Loop

    What the three calls of a turn do to the update transaction: the poll
    takes a command, `hot_swap` consumes what is staged, and
    `hot_update_finalize` answers a staged transaction.  A turn that stages
    settles in the same turn, unless the mirror write has no outcome. -/

namespace Interclus

open Words

/-! ## The three calls -/

/-- What `chan_poll` leaves of a command. -/
structure Polled (s : Sup) (r : UpdateStep) (s' : Sup) : Prop where
  update : s'.update = r.rx
  pend : s'.pend = r.pend s.pend
  pendOk : s'.pendOk = r.pendMagic s.pendOk
  status : s'.status = s.status
  replies : ∃ sent, replyPayloads s'.tx = replyPayloads s.tx ++ sent ∧
    ∀ p ∈ sent, p = replyBytes r.reply
  marks : r.ret = true → r.reply.code = UPDATE_REPLY_STAGED →
    s'.updateHload = s.status S_HLOAD ∧ s'.updateHrej = s.status S_HREJ

/-- Sending a reply moves the transmitter only; it goes out or is dropped. -/
structure Replied (r : UpdateReply) (s s' : Sup) : Prop where
  update : s'.update = s.update
  pend : s'.pend = s.pend
  pendOk : s'.pendOk = s.pendOk
  status : s'.status = s.status
  replies : ∃ sent, replyPayloads s'.tx = replyPayloads s.tx ++ sent ∧ ∀ p ∈ sent, p = replyBytes r

theorem updateSendReply_replied (r : UpdateReply) (s : Sup) : Replied r s (updateSendReply r s) := by
  unfold updateSendReply
  rw [sendFrameLimited_eq]
  refine ⟨rfl, rfl, rfl, rfl, _, replyPayloads_append _ _, ?_⟩
  intro p hp
  split at hp
  · simpa [replyPayloads, FRAME_UPDATE_REPLY] using hp
  · simp [replyPayloads] at hp

/-- The transmitter behind a bounded reply. -/
theorem updateSendReply_eq (r : UpdateReply) (s : Sup) :
    updateSendReply r s =
      { s with
        txDrains := fun k => s.txDrains (k + 1)
        tx := s.tx ++ if s.txDrains 0 then [⟨FRAME_UPDATE_REPLY, replyBytes r⟩] else [] } :=
  sendFrameLimited_eq s _ _

/-- An update frame is a command. -/
theorem pollUpdate_polled (f : ConsoleFrame) (s : Sup) :
    Polled s (updateProcess s.update f.stage f.n s.pend s.pendOk) (pollUpdate f s).2 := by
  unfold pollUpdate
  generalize updateProcess s.update f.stage f.n s.pend s.pendOk = r
  dsimp only
  have hsent := updateSendReply_replied r.reply
    { s with update := r.rx, pend := r.pend s.pend, pendOk := r.pendMagic s.pendOk }
  split
  · exact ⟨hsent.update, hsent.pend, hsent.pendOk, hsent.status, hsent.replies,
      fun _ _ => ⟨congrFun hsent.status _, congrFun hsent.status _⟩⟩
  · next hnot =>
    exact ⟨hsent.update, hsent.pend, hsent.pendOk, hsent.status, hsent.replies,
      fun hret hcode => absurd ⟨hret, hcode⟩ hnot⟩

theorem pollUpdate_tx (f : ConsoleFrame) (s : Sup) :
    (pollUpdate f s).2.tx = s.tx ++ if s.txDrains 0 then
      [⟨FRAME_UPDATE_REPLY,
        replyBytes (updateProcess s.update f.stage f.n s.pend s.pendOk).reply⟩] else [] := by
  unfold pollUpdate
  dsimp only
  rw [updateSendReply_eq]
  split <;> rfl

theorem chanPoll_command {f : ConsoleFrame} (h : IsCommand f) (s : Sup) :
    chanPoll (some f) s = pollUpdate f s :=
  (if_neg h.1).trans (if_pos h.2)

/-! ## Other frames -/

/-- A frame that is no command and stages nothing. -/
structure Unstaged (s s' : Sup) : Prop where
  update : s'.update = s.update
  pend : s'.pend = s.pend
  pendOk : s'.pendOk = s.pendOk

/-- What a frame that is no command does to the staging window. -/
theorem chanPoll_other {frame : Option ConsoleFrame} (h : ∀ f ∈ frame, ¬ IsCommand f) (s : Sup) :
    Unstaged s (chanPoll frame s).2 ∨
      ∃ f ∈ frame, (ProgramFrame f ∨ NativeFrame f) ∧
        (chanPoll frame s).2.update = s.update ∧
        (chanPoll frame s).2.pend = memcpy s.pend (stagedBytes f) f.n ∧
        (chanPoll frame s).2.pendOk = PROG_PEND_MAGIC := by
  cases frame with
  | none => exact .inl ⟨rfl, rfl, rfl⟩
  | some f =>
    have hpolled := framePolled f s
    generalize chanPoll (some f) s = polled at hpolled ⊢
    cases hpolled with
    | quiet ev tx => exact .inl ⟨rfl, rfl, rfl⟩
    | command hf => exact absurd hf (h f rfl)
    | staged hf => exact .inr ⟨f, rfl, hf, rfl, rfl, rfl⟩
    | swarm => exact .inl ⟨rfl, rfl, rfl⟩
    | rearmed => exact .inl ⟨rfl, rfl, rfl⟩

/-! ## Swapping and settling -/

/-- What `hot_swap` leaves of a transaction. -/
structure Swapped (s s' : Sup) : Prop where
  update : s'.update = s.update
  marks : s'.updateHload = s.updateHload ∧ s'.updateHrej = s.updateHrej
  tx : s'.tx = s.tx
  pend : s'.pend = s.pend
  pendOk : s'.pendOk ≠ PROG_PEND_MAGIC
  counters :
    (s.pendOk ≠ PROG_PEND_MAGIC ∧ s'.status S_HLOAD = s.status S_HLOAD ∧
      s'.status S_HREJ = s.status S_HREJ) ∨
    (s.pendOk = PROG_PEND_MAGIC ∧ s'.status S_HLOAD = s.status S_HLOAD + 1 ∧
      s'.status S_HREJ = s.status S_HREJ) ∨
    (s.pendOk = PROG_PEND_MAGIC ∧ s'.status S_HLOAD = s.status S_HLOAD ∧
      s'.status S_HREJ = s.status S_HREJ + 1)

theorem hotSwap_swapped {b : Build} {s s' : Sup} (h : hotSwap b s = some s') : Swapped s s' := by
  have hcleared : (0 : U32) ≠ PROG_PEND_MAGIC := by decide
  rcases hotSwap_cases b s with ⟨hm, hs⟩ | ⟨hm, hs⟩ | ⟨hm, -, -, -, hs⟩ | ⟨hm, -, -, -, hs⟩ <;>
    rw [hs] at h
  · cases h
    exact ⟨rfl, ⟨rfl, rfl⟩, rfl, rfl, hm, .inl ⟨hm, rfl, rfl⟩⟩
  · cases h
    exact ⟨rfl, ⟨rfl, rfl⟩, rfl, rfl, hcleared, .inr (.inr ⟨hm, rfl, rfl⟩)⟩
  · obtain ⟨s₁, hs₁, rfl⟩ := Option.map_eq_some_iff.mp h
    obtain ⟨⟨ret, mirror⟩, -, rfl⟩ := Option.map_eq_some_iff.mp hs₁
    exact ⟨rfl, ⟨rfl, rfl⟩, rfl, rfl, hcleared, .inr (.inl ⟨hm, rfl, rfl⟩)⟩
  · cases h
    exact ⟨rfl, ⟨rfl, rfl⟩, rfl, rfl, hcleared, .inr (.inl ⟨hm, rfl, rfl⟩)⟩

/-- What `settle` leaves. -/
structure Settled (s s' : Sup) (accepted : Bool) : Prop where
  update : s'.update = updateFinish s.update accepted
  pend : s'.pend = s.pend
  replies : ∃ sent, replyPayloads s'.tx = replyPayloads s.tx ++ sent ∧
    ∀ p ∈ sent, p = replyBytes (finalReply s.update accepted)

theorem settle_settled (s : Sup) (accepted : Bool) :
    Settled s (settle accepted s) accepted ∧ (settle accepted s).pendOk = s.pendOk := by
  have hsent := updateSendReply_replied (finalReply s.update accepted)
    { s with update := updateFinish s.update accepted }
  exact ⟨⟨hsent.update, hsent.pend, hsent.replies⟩, hsent.pendOk⟩

theorem hotUpdateFinalize_cases (s : Sup) :
    hotUpdateFinalize s = s ∨
      ∃ ok, s.update.state = .staged ∧ hotUpdateFinalize s = settle ok s := by
  unfold hotUpdateFinalize
  split
  · exact .inl rfl
  · next hst =>
    dsimp only
    split
    · exact .inl rfl
    · exact .inr ⟨_, not_not.mp hst, rfl⟩

/-- What `hot_swap` consumed, `hot_update_finalize` answers: accepted
    exactly when it was promoted. -/
theorem Swapped.finalize {s s₂ : Sup} (h : Swapped s s₂) (hmagic : s.pendOk = PROG_PEND_MAGIC)
    (hstate : s.update.state = .staged)
    (hmarks : s.updateHload = s.status S_HLOAD ∧ s.updateHrej = s.status S_HREJ) :
    ∃ ok, hotUpdateFinalize s₂ = settle ok s₂ ∧
      s₂.status S_HLOAD = (if ok then s.status S_HLOAD + 1 else s.status S_HLOAD) ∧
      s₂.status S_HREJ = (if ok then s.status S_HREJ else s.status S_HREJ + 1) := by
  have hstate₂ : s₂.update.state = .staged := by rw [h.update, hstate]
  have hfinal : ∀ ok, decide (s₂.status S_HLOAD ≠ s₂.updateHload ∧
        s₂.status S_HREJ = s₂.updateHrej) = ok →
      ¬ (s₂.status S_HLOAD = s₂.updateHload ∧ s₂.status S_HREJ = s₂.updateHrej) →
      hotUpdateFinalize s₂ = settle ok s₂ := by
    rintro ok rfl hmoved
    exact (if_neg (not_not.mpr hstate₂)).trans (if_neg hmoved)
  have hsucc : ∀ v : U32, v + 1 ≠ v := fun v => by bv_omega
  rw [h.marks.1, h.marks.2, hmarks.1, hmarks.2] at hfinal
  rcases h.counters with ⟨hm, -⟩ | ⟨-, hload, hrej⟩ | ⟨-, hload, hrej⟩
  · exact absurd hmagic hm
  · have hne : s₂.status S_HLOAD ≠ s.status S_HLOAD := hload ▸ hsucc _
    exact ⟨true, hfinal true (decide_eq_true ⟨hne, hrej⟩) fun h => hne h.1, hload, hrej⟩
  · have hne : s₂.status S_HREJ ≠ s.status S_HREJ := hrej ▸ hsucc _
    exact ⟨false, hfinal false (decide_eq_false fun h => hne h.2) fun h => hne h.2, hload, hrej⟩

/-! ## The end of a turn -/

/-- The counters of `hot_swap`. -/
def Sup.counters (s : Sup) : U32 × U32 := (s.status S_HLOAD, s.status S_HREJ)

/-- A new round sends nothing and counts nothing. -/
theorem endTurn_frame (b : Build) (seen : U32) (ev : Nat) (s : Sup) :
    (endTurn b seen ev s).tx = s.tx ∧ (endTurn b seen ev s).counters = s.counters := by
  unfold endTurn
  split
  · unfold hotRound scheduleRound
    dsimp only
    have hentered : ∀ t : Sup, (enterChecked 0 t).tx = t.tx ∧
        (enterChecked 0 t).counters = t.counters := by
      intro t
      obtain ⟨status, comp, ctl, h, hcounters, -⟩ := enterChecked_frame 0 t
      rw [h]
      exact ⟨rfl, Prod.ext hcounters.1 hcounters.2⟩
    rw [(hentered _).1, (hentered _).2]
    split <;> exact ⟨rfl, rfl⟩
  · exact ⟨rfl, rfl⟩

theorem endTurn_update (b : Build) (seen : U32) (ev : Nat) (s : Sup) :
    (endTurn b seen ev s).update = s.update :=
  congrArg Carried.update (endTurn_carried b seen ev s)

/-! ## What a turn leaves of the rest -/

theorem updateSendReply_ctl (r : UpdateReply) (s : Sup) : (updateSendReply r s).ctl = s.ctl := by
  rw [updateSendReply_eq]

/-- No frame moves the counters or the core. -/
theorem chanPoll_frame (frame : Option ConsoleFrame) (s : Sup) :
    (chanPoll frame s).2.counters = s.counters ∧ (chanPoll frame s).2.ctl = s.ctl := by
  cases frame with
  | none => exact ⟨rfl, rfl⟩
  | some f =>
    have hupdate : (pollUpdate f s).2.counters = s.counters ∧ (pollUpdate f s).2.ctl = s.ctl := by
      refine ⟨congrArg (fun st : Nat → U32 => (st S_HLOAD, st S_HREJ))
        (pollUpdate_polled f s).status, ?_⟩
      unfold pollUpdate
      dsimp only
      split <;> exact updateSendReply_ctl _ _
    have hpolled := framePolled f s
    generalize chanPoll (some f) s = polled at hpolled ⊢
    cases hpolled with
    | command => exact hupdate
    | _ => exact ⟨rfl, rfl⟩

/-- Nor does `hot_swap` move the core, and it waits for no transmitter. -/
theorem hotSwap_frame {b : Build} {s s' : Sup} (h : hotSwap b s = some s') :
    s'.ctl = s.ctl ∧ s'.txDrains = s.txDrains := by
  rcases hotSwap_cases b s with ⟨-, hs⟩ | ⟨-, hs⟩ | ⟨-, -, -, -, hs⟩ | ⟨-, -, -, -, hs⟩ <;>
    rw [hs] at h
  · cases h
    exact ⟨rfl, rfl⟩
  · cases h
    exact ⟨rfl, rfl⟩
  · obtain ⟨s₁, hs₁, rfl⟩ := Option.map_eq_some_iff.mp h
    obtain ⟨⟨ret, mirror⟩, -, rfl⟩ := Option.map_eq_some_iff.mp hs₁
    exact ⟨rfl, rfl⟩
  · cases h
    exact ⟨rfl, rfl⟩

theorem hotUpdateFinalize_ctl (s : Sup) : (hotUpdateFinalize s).ctl = s.ctl := by
  rcases hotUpdateFinalize_cases s with h | ⟨ok, -, h⟩ <;> rw [h]
  exact updateSendReply_ctl _ _

theorem hotUpdateFinalize_counters (s : Sup) : (hotUpdateFinalize s).counters = s.counters := by
  rcases hotUpdateFinalize_cases s with h | ⟨ok, -, h⟩ <;> rw [h]
  unfold settle
  rw [updateSendReply_eq]
  rfl

/-- Before the new round, a turn leaves the core in the service loop. -/
theorem turn_ctl {b : Build} {frame : Option ConsoleFrame} {s s₁ : Sup}
    (h : hotSwap b (chanPoll frame s).2 = some s₁) : (hotUpdateFinalize s₁).ctl = s.ctl := by
  rw [hotUpdateFinalize_ctl, (hotSwap_frame h).1]
  exact (chanPoll_frame frame s).2

end Interclus

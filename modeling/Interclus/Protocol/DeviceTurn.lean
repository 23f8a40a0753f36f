import Interclus.Protocol.Link
import Interclus.Supervisor.ServiceTurn

/-! # A Turn of the Device

    What one turn of the service loop does to the transaction: the poll
    takes a command, `hot_swap` consumes what is staged, and
    `hot_update_finalize` answers a staged transaction.  A turn that stages
    settles in the same turn. -/

namespace Interclus

open Words

/-! ## The poll -/

theorem chanPoll_polled (s : Sup) (f : List U8) :
    Polled s (updateProcess s.update (listMem f) f.length s.pend s.pendOk)
      (chanPoll (some (updateFrame f)) s).2 := by
  by_cases hn : f.length = 0
  · -- nothing assembled: the receiver is not called, and would refuse
    have hpoll : (chanPoll (some (updateFrame f)) s).2 = s :=
      congrArg Prod.snd (if_pos hn : chanPoll (some (updateFrame f)) s = (0, s))
    have hproc : updateProcess s.update (listMem f) f.length s.pend s.pendOk =
        nack s.update UPDATE_ERR_FORMAT 0 := if_pos hn
    rw [hpoll, hproc]
    exact ⟨rfl, rfl, rfl, rfl, ⟨[], (List.append_nil _).symm, nofun⟩, nofun⟩
  · rw [chanPoll_command ⟨hn, rfl⟩]
    exact pollUpdate_polled (updateFrame f) s

/-! ## A turn -/

/-- The state the poll of a turn leaves. -/
def Link.polled (l : Link) (bytes : Option (List U8)) : Sup :=
  (chanPoll (bytes.map updateFrame) { l.dev with tx := [] }).2

/-- What a turn leaves, from the state its last call leaves. -/
structure TurnEnds (b : Build) (l : Link) (bytes : Option (List U8)) (s : Sup) (l' : Link) :
    Prop where
  host : l'.host = l.host
  toDev : l'.toDev = l.toDev
  update : l'.dev.update = s.update
  pend : l'.dev.pend = s.pend
  pendOk : l'.dev.pendOk = s.pendOk
  toHost : l'.toHost = l.toHost ++ replyPayloads s.tx
  log : l'.log = l.log ++ (beganEvents bytes l.dev ++ promotedEvents b (l.polled bytes))

theorem Link.turn_ends {b : Build} {l l' : Link} {bytes : Option (List U8)}
    (h : l.turn b bytes = some l') :
    ∃ s₂, Swapped (l.polled bytes) s₂ ∧ hotSwap b (l.polled bytes) = some s₂ ∧
      TurnEnds b l bytes (hotUpdateFinalize s₂) l' := by
  unfold Link.turn at h
  split at h
  · next seen hctl =>
    obtain ⟨s', hs', rfl⟩ := Option.map_eq_some_iff.mp h
    obtain ⟨s₂, hs₂, rfl⟩ := Option.map_eq_some_iff.mp hs'
    refine ⟨s₂, hotSwap_swapped hs₂, hs₂, rfl, rfl, ?_, ?_, ?_, ?_, rfl⟩
    · exact congrArg Carried.update (endTurn_carried b seen _ _)
    · exact congrArg Carried.pend (endTurn_carried b seen _ _)
    · exact congrArg Carried.pendOk (endTurn_carried b seen _ _)
    · exact congrArg (fun c => l.toHost ++ Carried.replies c) (endTurn_carried b seen _ _)
  · cases h

/-- Whatever a turn does after its poll, the receiver keeps its id, and the
    only further reply is a verdict under it. -/
theorem Link.turn_any {b : Build} {l l' : Link} {bytes : Option (List U8)}
    (h : l.turn b bytes = some l') :
    ∃ s, TurnEnds b l bytes s l' ∧ s.update.id = (l.polled bytes).update.id ∧
      ∃ sent, replyPayloads s.tx = replyPayloads (l.polled bytes).tx ++ sent ∧
        ∀ p ∈ sent, ∃ r, p = replyBytes r ∧ r.id = (l.polled bytes).update.id := by
  obtain ⟨s₂, hswap, -, hends⟩ := l.turn_ends h
  refine ⟨_, hends, ?_⟩
  rcases hotUpdateFinalize_cases s₂ with hfin | ⟨ok, -, hfin⟩ <;> rw [hfin]
  · exact ⟨by rw [hswap.update], [], by rw [hswap.tx, List.append_nil], nofun⟩
  · obtain ⟨⟨hup, -, sent, htx, hsent⟩, -⟩ := settle_settled s₂ ok
    refine ⟨by rw [hup, ← hswap.update]; rfl, sent, by rw [htx, hswap.tx], fun p hp => ?_⟩
    exact ⟨_, hsent p hp, congrArg UpdateRx.id hswap.update⟩

/-- Nothing is promoted without the magic. -/
theorem promotedEvents_quiet {b : Build} {s : Sup} (h : s.pendOk ≠ PROG_PEND_MAGIC) :
    promotedEvents b s = [] := by
  have hs : hotSwap b s = some s := if_pos h
  unfold promotedEvents
  rw [hs]
  exact if_neg (not_not.mpr rfl)

/-- A turn with nothing staged is its poll. -/
theorem Link.turn_quiet {b : Build} {l l' : Link} {bytes : Option (List U8)}
    (h : l.turn b bytes = some l') (hmagic : (l.polled bytes).pendOk ≠ PROG_PEND_MAGIC)
    (hstate : (l.polled bytes).update.state ≠ .staged) :
    TurnEnds b l bytes (l.polled bytes) l' ∧ l'.log = l.log ++ beganEvents bytes l.dev := by
  obtain ⟨s₂, -, hs₂, hends⟩ := l.turn_ends h
  have hs : hotSwap b (l.polled bytes) = some (l.polled bytes) := if_pos hmagic
  obtain rfl : l.polled bytes = s₂ := Option.some.inj (hs.symm.trans hs₂)
  have hfin : hotUpdateFinalize (l.polled bytes) = l.polled bytes := if_pos hstate
  rw [hfin] at hends
  refine ⟨hends, hends.log.trans ?_⟩
  rw [promotedEvents_quiet hmagic, List.append_nil]

/-- A turn that stages settles, and accepts exactly what it promotes. -/
theorem Link.turn_settles {b : Build} {l l' : Link} {bytes : Option (List U8)}
    (h : l.turn b bytes = some l') (hmagic : (l.polled bytes).pendOk = PROG_PEND_MAGIC)
    (hstate : (l.polled bytes).update.state = .staged)
    (hmarks : (l.polled bytes).updateHload = (l.polled bytes).status S_HLOAD ∧
      (l.polled bytes).updateHrej = (l.polled bytes).status S_HREJ) :
    ∃ ok s, Settled (l.polled bytes) s ok ∧ s.pendOk ≠ PROG_PEND_MAGIC ∧
      TurnEnds b l bytes s l' ∧
      promotedEvents b (l.polled bytes) =
        if ok then [.promoted (l.polled bytes).pend] else [] := by
  obtain ⟨s₂, hswap, hs₂, hends⟩ := l.turn_ends h
  obtain ⟨ok, hfinal, hload, -⟩ := hswap.finalize hmagic hstate hmarks
  rw [hfinal] at hends
  obtain ⟨⟨hup, hpend, sent, htx, hsent⟩, hok⟩ := settle_settled s₂ ok
  rw [hswap.update] at hup hsent
  rw [hswap.pend] at hpend
  rw [hswap.tx] at htx
  refine ⟨ok, _, ⟨hup, hpend, sent, htx, hsent⟩, hok ▸ hswap.pendOk, hends, ?_⟩
  have hsucc : ∀ v : U32, v + 1 ≠ v := fun v => by bv_omega
  unfold promotedEvents
  rw [hs₂]
  dsimp only
  rw [hload]
  cases ok with
  | true => rw [if_pos rfl, if_pos rfl, if_pos (hsucc _)]
  | false => simp

end Interclus

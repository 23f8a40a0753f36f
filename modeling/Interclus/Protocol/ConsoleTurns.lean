import Interclus.Protocol.DeviceTurn
import Interclus.Protocol.Transfer

/-! # A Transfer on the Console

    The frames of a transfer, one to a turn of the service loop: as long as
    nothing is staged a turn feeds its frame to the receiver and does
    nothing else. -/

namespace Interclus

open Words LTS

/-! ## Turns -/

def Sup.receiver (s : Sup) : Receiver := ⟨s.update, s.pend, s.pendOk⟩

/-- The core is in the service loop, with every promotion seen. -/
structure Serving (seen : U32) (s : Sup) : Prop where
  ctl : s.ctl = .service seen
  seen : s.status S_HLOAD = seen

theorem pollUpdate_ev (f : ConsoleFrame) (s : Sup) : (pollUpdate f s).1 ≠ 1 := by
  unfold pollUpdate
  dsimp only
  split
  · exact show (5 : Nat) ≠ 1 by decide
  · show (if _ then 6 else 0 : Nat) ≠ 1
    split <;> decide

/-- A turn that stages nothing feeds its frame to the receiver. -/
theorem turn_feeds {b : Build} {seen : U32} {s : Sup} (h : Serving seen s) {f : List U8}
    (hf : f.length ≠ 0) (hmagic : (s.receiver.feed f).1.magic ≠ PROG_PEND_MAGIC)
    (hstate : (s.receiver.feed f).1.rx.state ≠ .staged) :
    ∃ s', machineStep b s (.turn (some (updateFrame f))) = some s' ∧ Serving seen s' ∧
      s'.receiver = (s.receiver.feed f).1 := by
  have hpoll := chanPoll_polled s f
  have hframe := chanPoll_frame (some (updateFrame f)) s
  have hev : (chanPoll (some (updateFrame f)) s).1 ≠ 1 := by
    rw [chanPoll_command ⟨hf, rfl⟩]
    exact pollUpdate_ev _ _
  generalize hpolled : chanPoll (some (updateFrame f)) s = polled at hpoll hframe hev
  have hreceiver : polled.2.receiver = (s.receiver.feed f).1 := by
    unfold Sup.receiver
    rw [hpoll.update, hpoll.pend, hpoll.pendOk]
    rfl
  have hload : polled.2.status S_HLOAD = seen := (congrArg Prod.fst hframe.1).trans h.seen
  rw [← hreceiver] at hmagic hstate
  have hswap : hotSwap b polled.2 = some polled.2 := if_pos hmagic
  have hfinal : hotUpdateFinalize polled.2 = polled.2 := if_pos hstate
  have hend : endTurn b seen polled.1 polled.2 = polled.2.incStatus 3 :=
    if_neg (not_or.mpr ⟨not_not.mpr hload, hev⟩)
  refine ⟨polled.2.incStatus 3, ?_, ⟨hframe.2.trans h.ctl, hload⟩, hreceiver⟩
  dsimp only [machineStep]
  rw [h.ctl]
  unfold serviceTurn
  dsimp only
  rw [hpolled, hswap, Option.map_some, hfinal, hend]

section Turns
variable {b : Build} {tid : U32} {image : List U8} {size : Nat} {seen : U32} {s : Sup}

theorem Transferred.not_staged {k : Nat} {r : Receiver} (h : Transferred tid image size k r) :
    r.rx.state ≠ .staged := by
  rw [h.active.state]
  decide

/-- The turn of the BEGIN. -/
theorem begin_turn (size : Nat) (htid : tid ≠ 0) (hge : 48 ≤ image.length)
    (hle : image.length ≤ 552) (h : Serving seen s) (hidle : s.update.state = .idle)
    (hmagic : s.pendOk ≠ UPDATE_PEND_MAGIC) :
    ∃ s', machineStep b s (.turn (some (updateFrame (beginFrame tid image)))) = some s' ∧
      Serving seen s' ∧ Transferred tid image size 0 s'.receiver := by
  obtain ⟨hbegin, -⟩ := feed_begin size htid hge hle (s := s.receiver) (.inl hidle) hmagic
  have hlen : (beginFrame tid image).length ≠ 0 := by
    rw [(beginFrame_begin htid hge hle).len]
    decide
  obtain ⟨s', hstep, hserving, hreceiver⟩ := turn_feeds (b := b) h hlen hbegin.magic hbegin.not_staged
  exact ⟨s', hstep, hserving, hreceiver ▸ hbegin⟩

/-- The turn of chunk `k`. -/
theorem chunk_turn (hle : image.length ≤ 552) (hpos : 1 ≤ size) (hsize : size ≤ 64)
    (h : Serving seen s) {k : Nat} (ht : Transferred tid image size k s.receiver)
    (hk : k * size < image.length) :
    ∃ s', machineStep b s (.turn (some (updateFrame (chunkFrame tid image size k)))) = some s' ∧
      Serving seen s' ∧ Transferred tid image size (k + 1) s'.receiver := by
  obtain ⟨hnext, -⟩ := feed_chunk hle hpos hsize ht hk
  have hlen : (chunkFrame tid image size k).length ≠ 0 := by
    rw [(chunkFrame_data ht.active.txn ht.active.state hle hpos hsize hk).len]
    omega
  obtain ⟨s', hstep, hserving, hreceiver⟩ := turn_feeds (b := b) h hlen hnext.magic hnext.not_staged
  exact ⟨s', hstep, hserving, hreceiver ▸ hnext⟩

/-- BEGIN and the first `n` chunks, turn by turn. -/
theorem transfer_turns (htid : tid ≠ 0) (hge : 48 ≤ image.length) (hle : image.length ≤ 552)
    (hpos : 1 ≤ size) (hsize : size ≤ 64) (hreach : Reachable (machine b) s) (h : Serving seen s)
    (hidle : s.update.state = .idle) (hmagic : s.pendOk ≠ UPDATE_PEND_MAGIC) (n : Nat)
    (hn : n ≤ chunkCount image size) :
    ∃ s', Reachable (machine b) s' ∧ Serving seen s' ∧ Transferred tid image size n s'.receiver := by
  induction n with
  | zero =>
    obtain ⟨s', hstep, hserving, ht⟩ := begin_turn (b := b) size htid hge hle h hidle hmagic
    exact ⟨s', .step _ hreach hstep, hserving, ht⟩
  | succ n ih =>
    obtain ⟨s₁, hreach₁, hserving₁, ht⟩ := ih (Nat.le_of_succ_le hn)
    obtain ⟨s', hstep, hserving, ht'⟩ :=
      chunk_turn (b := b) hle hpos hsize hserving₁ ht ((lt_chunkCount hpos).mp hn)
    exact ⟨s', .step _ hreach₁ hstep, hserving, ht'⟩

end Turns

/-! ## On the board -/

/-- The board with a pinned module that does not fit a mirror page. -/
def longBoard : Build :=
  { longBuild with
    target := .board
    monitorEntry := MON_TEXT .board
    atkEntry := fun v => ATK_TEXT .board + BitVec.ofNat 32 (16 * v) }

/-- What the service loop has seen, when the core is in it. -/
def Control.seen? : Control → Option U32
  | .service seen => some seen
  | _ => none

theorem of_seen {c : Control} {seen : U32} (h : c.seen? = some seen) : c = .service seen := by
  cases c with
  | service seen' => exact congrArg Control.service (Option.some.inj h)
  | _ => cases h

/-- Eleven yields after a boot the board is in its service loop. -/
theorem longBoard_serving :
    ∃ s, Reachable (machine longBoard) s ∧ Serving 0 s ∧ s.update.state = .idle ∧ s.pendOk = 0 := by
  let es : List Event := List.replicate 11 (.ecall fun _ => 0)
  have hrun : ((run (machineStep longBoard) (bootMain longBoard ⟨none, false⟩ .zeroed) es).map
      fun s => decide (s.ctl.seen? = some 0 ∧ s.status S_HLOAD = 0 ∧ s.update.state = .idle ∧
        s.pendOk = 0)) = some true := by
    decide +kernel
  obtain ⟨s, hs, hserving⟩ := Option.map_eq_some_iff.mp hrun
  obtain ⟨hctl, hseen, hidle, hmagic⟩ := of_decide_eq_true hserving
  exact ⟨s, reachable_of_run hs, ⟨of_seen hctl, hseen⟩, hidle, hmagic⟩

/-- An image of forty-eight sevens. -/
def sevens : List U8 := List.replicate 48 7

theorem sevens_at {i : Nat} (hi : i < 48) : listMem sevens i = 7 := by
  have hlt : i < sevens.length := by
    rw [show sevens.length = 48 from List.length_replicate]
    exact hi
  have hget : sevens[i] = 7 := List.getElem_replicate (by simpa using hi)
  exact (List.getD_eq_getElem sevens 0 hlt).trans hget

end Interclus

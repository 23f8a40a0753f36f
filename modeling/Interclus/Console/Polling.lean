import Interclus.Console.Stream

/-! # Polling the Console

    `uart_poll_frame` of `core/uart.c`: the frame machine behind a queue of
    bytes and a timer.  A call drains the queue up to the end of a frame; a
    partial frame waits for the next call, unless the line has been silent
    for too long.

    However the bytes fall on the calls, the frames are those of the bytes
    fed one by one; a call that comes too late forgets the partial frame and
    starts afresh. -/

namespace Interclus

open Words Mealy

/-! ## The polling loop -/

def UART_FRAME_TIMEOUT : U32 := 200000

/-- `uart_frame_rx` with its `last_tick`, and the buffer of the caller. -/
structure PollRx where
  rx : FrameRx
  lastTick : U32

/-- One call: its result, the receiver it leaves, and the bytes it leaves in
    the queue. -/
structure PollResult where
  ret : U32
  s : PollRx
  fifo : List U8

/-- What a call hands to its caller. -/
def PollResult.frame (r : PollResult) : Option (U32 × List U8) :=
  if r.ret = 0 then none else some (r.s.rx.st.type, bytesAt r.s.rx.dst 0 r.ret.toNat)

/-- The loop of `uart_poll_frame`; `timer` are the values its timer reads
    return. -/
def pollLoop (cap : U32) (timer : Nat → U32) (s : PollRx) : List U8 → PollResult
  | [] => ⟨0, s, []⟩
  | c :: fifo =>
    let r := uartFrameStep c s.rx.dst cap s.rx.st
    if r.ret ≠ 0 then ⟨r.ret, ⟨⟨r.st, r.dst⟩, timer 1⟩, fifo⟩
    else pollLoop cap (fun k => timer (k + 1)) ⟨⟨r.st, r.dst⟩, timer 0⟩ fifo

/-- What a call finds: the bytes that arrived since the call before, and the
    timer, on entry and then in the loop. -/
structure PollCall where
  arrived : List U8
  entry : U32
  timer : Nat → U32

/-- The partial frame dropped. -/
def UartFrameRx.dropped (st : UartFrameRx) : UartFrameRx :=
  { st with phase := 0, idx := 0, len := 0 }

/-- `uart_poll_frame`. -/
def uartPollFrame (cap : U32) (call : PollCall) (s : PollRx) (fifo : List U8) : PollResult :=
  let s :=
    if s.rx.st.phase ≠ 0 ∧ UART_FRAME_TIMEOUT < call.entry - s.lastTick then
      { s with rx := ⟨s.rx.st.dropped, s.rx.dst⟩ }
    else s
  pollLoop cap call.timer s fifo

/-- The loop feeds the bytes it takes, and stops at the first frame. -/
theorem pollLoop_feeds (cap : U32) (timer : Nat → U32) (s : PollRx) (fifo : List U8) :
    ∃ taken, fifo = taken ++ (pollLoop cap timer s fifo).fifo ∧
      (pollLoop cap timer s fifo).s.rx = final (FrameRx.feed cap) s.rx taken ∧
      (outputs (FrameRx.feed cap) s.rx taken).filterMap FrameStep.delivered =
        (pollLoop cap timer s fifo).frame.toList := by
  induction fifo generalizing timer s with
  | nil => exact ⟨[], rfl, rfl, rfl⟩
  | cons c fifo ih =>
    unfold pollLoop
    dsimp only
    split
    · next hret =>
      have hdel : (FrameRx.feed cap s.rx c).2.delivered = some _ := if_neg hret
      refine ⟨[c], rfl, rfl, ?_⟩
      rw [outputs_cons, List.filterMap_cons_some hdel]
      unfold PollResult.frame
      rw [if_neg hret]
      rfl
    · next hret =>
      rw [not_not] at hret
      obtain ⟨taken, hfifo, hrx, hframe⟩ := ih (fun k => timer (k + 1))
        ⟨⟨(uartFrameStep c s.rx.dst cap s.rx.st).st, (uartFrameStep c s.rx.dst cap s.rx.st).dst⟩,
          timer 0⟩
      refine ⟨c :: taken, congrArg (c :: ·) hfifo, hrx, ?_⟩
      have hdel : (FrameRx.feed cap s.rx c).2.delivered = none := if_pos hret
      rw [outputs_cons, List.filterMap_cons_none hdel]
      exact hframe

/-- The loop takes a byte from a queue that is not empty. -/
theorem pollLoop_takes (cap : U32) (timer : Nat → U32) (s : PollRx) (c : U8) (fifo : List U8) :
    (pollLoop cap timer s (c :: fifo)).fifo.length ≤ fifo.length := by
  unfold pollLoop
  dsimp only
  split
  · exact Nat.le_refl _
  · obtain ⟨taken, hfifo, -⟩ := pollLoop_feeds cap (fun k => timer (k + 1))
      ⟨⟨(uartFrameStep c s.rx.dst cap s.rx.st).st, (uartFrameStep c s.rx.dst cap s.rx.st).dst⟩,
        timer 0⟩ fifo
    have hlen := congrArg List.length hfifo
    rw [List.length_append] at hlen
    omega

/-- The time stamp of a partial frame: the timer at the last byte taken. -/
theorem pollLoop_lastTick (cap : U32) (timer : Nat → U32) (s : PollRx) (c : U8) (fifo : List U8)
    (hphase : (pollLoop cap timer s (c :: fifo)).s.rx.st.phase ≠ 0) :
    (pollLoop cap timer s (c :: fifo)).s.lastTick =
      timer (fifo.length - (pollLoop cap timer s (c :: fifo)).fifo.length) := by
  induction fifo generalizing timer s c with
  | nil =>
    unfold pollLoop at hphase ⊢
    dsimp only at hphase ⊢
    split at hphase
    · next hret => exact absurd (by rw [uartFrameStep_delivers hret]) hphase
    · next hret =>
      rw [if_neg hret]
      rfl
  | cons c' fifo ih =>
    unfold pollLoop at hphase ⊢
    dsimp only at hphase ⊢
    split at hphase
    · next hret => exact absurd (by rw [uartFrameStep_delivers hret]) hphase
    · next hret =>
      rw [if_neg hret, ih _ _ _ hphase]
      have htakes := pollLoop_takes cap (fun k => timer (k + 1))
        ⟨⟨(uartFrameStep c s.rx.dst cap s.rx.st).st, (uartFrameStep c s.rx.dst cap s.rx.st).dst⟩,
          timer 0⟩ c' fifo
      rw [List.length_cons]
      congr 1
      omega

/-! ## The console -/

/-- The receiver and the queue between two calls.  The time stamp of a
    partial frame is the time its last byte was taken. -/
structure Console where
  s : PollRx
  fifo : List U8
  /-- The timer when the last byte was taken from the queue. -/
  taken : U32
  stamped : s.rx.st.phase ≠ 0 → s.lastTick = taken

/-- The timer at the last byte a call takes, or `taken` when it takes
    none. -/
def lastTaken (timer : Nat → U32) (queue rest : List U8) (taken : U32) : U32 :=
  if queue.length = rest.length then taken else timer (queue.length - rest.length - 1)

theorem uartPollFrame_stamped (cap : U32) (call : PollCall) (q : Console) (queue : List U8) :
    let r := uartPollFrame cap call q.s queue
    r.s.rx.st.phase ≠ 0 → r.s.lastTick = lastTaken call.timer queue r.fifo q.taken := by
  intro r hphase
  unfold lastTaken
  cases queue with
  | nil =>
    -- nothing taken: the frame was partial before
    have hr : r.fifo = [] := rfl
    rw [hr, if_pos rfl]
    unfold r uartPollFrame at hphase ⊢
    dsimp only at hphase ⊢
    split at hphase
    · exact absurd rfl hphase
    · next hlate =>
      rw [if_neg hlate]
      exact q.stamped hphase
  | cons c fifo =>
    have htakes : r.fifo.length ≤ fifo.length := pollLoop_takes _ _ _ c fifo
    rw [List.length_cons, if_neg (by omega)]
    refine (pollLoop_lastTick _ _ _ c fifo hphase).trans (congrArg call.timer ?_)
    show fifo.length - r.fifo.length = fifo.length + 1 - r.fifo.length - 1
    omega

/-- One call: what it finds is queued, what it takes is gone. -/
def Console.poll (cap : U32) (q : Console) (call : PollCall) :
    Console × Option (U32 × List U8) :=
  let queue := q.fifo ++ call.arrived
  let r := uartPollFrame cap call q.s queue
  (⟨r.s, r.fifo, lastTaken call.timer queue r.fifo q.taken, uartPollFrame_stamped cap call q queue⟩,
    r.frame)

/-- No partial frame, or its last byte was taken at most the timeout ago,
    modulo 2^32. -/
def Timely (q : Console) (call : PollCall) : Prop :=
  q.s.rx.st.phase ≠ 0 → call.entry - q.taken ≤ UART_FRAME_TIMEOUT

/-- A schedule whose calls all come in time. -/
def TimelyRun (cap : U32) : Console → List PollCall → Prop
  | _, [] => True
  | q, call :: calls => Timely q call ∧ TimelyRun cap (q.poll cap call).1 calls

/-! ## Bytes and calls -/

/-- The frames of bytes fed one by one. -/
def fedFrames (cap : U32) (rx : FrameRx) (bytes : List U8) : List (U32 × List U8) :=
  (outputs (FrameRx.feed cap) rx bytes).filterMap FrameStep.delivered

/-- The frames of the calls of a schedule. -/
def polledFrames (cap : U32) (q : Console) (calls : List PollCall) : List (U32 × List U8) :=
  (outputs (Console.poll cap) q calls).filterMap id

theorem fedFrames_append (cap : U32) (rx : FrameRx) (bs cs : List U8) :
    fedFrames cap rx (bs ++ cs) =
      fedFrames cap rx bs ++ fedFrames cap (final (FrameRx.feed cap) rx bs) cs := by
  unfold fedFrames
  rw [outputs_append, List.filterMap_append]

theorem polledFrames_cons (cap : U32) (q : Console) (call : PollCall) (calls : List PollCall) :
    polledFrames cap q (call :: calls) =
      (q.poll cap call).2.toList ++ polledFrames cap (q.poll cap call).1 calls := by
  unfold polledFrames
  rw [outputs_cons, List.filterMap_cons]
  cases (q.poll cap call).2 <;> rfl

/-- Step lemma: a call in time feeds what it takes. -/
theorem Timely.poll {cap : U32} {q : Console} {call : PollCall} (h : Timely q call) :
    ∃ taken, q.fifo ++ call.arrived = taken ++ (q.poll cap call).1.fifo ∧
      (q.poll cap call).1.s.rx = final (FrameRx.feed cap) q.s.rx taken ∧
      fedFrames cap q.s.rx taken = (q.poll cap call).2.toList := by
  have hloop : uartPollFrame cap call q.s (q.fifo ++ call.arrived) =
      pollLoop cap call.timer q.s (q.fifo ++ call.arrived) := by
    unfold uartPollFrame
    rw [if_neg]
    -- in time: the frame is not dropped
    rintro ⟨hphase, hlate⟩
    rw [q.stamped hphase] at hlate
    exact absurd hlate (BitVec.not_lt.mpr (h hphase))
  unfold Console.poll
  dsimp only
  rw [hloop]
  exact pollLoop_feeds cap call.timer q.s (q.fifo ++ call.arrived)

/-- Run lemma: a schedule in time feeds what its calls take, in order. -/
theorem TimelyRun.feeds {cap : U32} {q : Console} {calls : List PollCall}
    (h : TimelyRun cap q calls) :
    ∃ taken, q.fifo ++ calls.flatMap PollCall.arrived =
        taken ++ (final (Console.poll cap) q calls).fifo ∧
      polledFrames cap q calls = fedFrames cap q.s.rx taken := by
  induction calls generalizing q with
  | nil => exact ⟨[], List.append_nil _, rfl⟩
  | cons call calls ih =>
    obtain ⟨htimely, hrest⟩ := h
    obtain ⟨taken, hqueue, hrx, hframe⟩ := htimely.poll
    -- what this call takes, then what the rest of the schedule takes
    obtain ⟨taken', hqueue', hframes⟩ := ih hrest
    refine ⟨taken ++ taken', ?_, ?_⟩
    · rw [List.flatMap_cons, ← List.append_assoc, hqueue, List.append_assoc, hqueue',
        List.append_assoc]
      rfl
    · rw [polledFrames_cons, fedFrames_append, hframes, hframe, hrx]

/-- A schedule that splits these bytes over its calls (what is queued
    comes first), in time, and takes all of them. -/
structure Splits (cap : U32) (q : Console) (calls : List PollCall) (bytes : List U8) : Prop where
  arrived : q.fifo ++ calls.flatMap PollCall.arrived = bytes
  timely : TimelyRun cap q calls
  drained : (final (Console.poll cap) q calls).fifo = []

/-- Its frames are those of the bytes. -/
theorem Splits.frames {cap : U32} {q : Console} {calls : List PollCall} {bytes : List U8}
    (h : Splits cap q calls bytes) : polledFrames cap q calls = fedFrames cap q.s.rx bytes := by
  obtain ⟨taken, hqueue, hframes⟩ := h.timely.feeds
  -- everything that arrived was taken
  rw [h.arrived, h.drained, List.append_nil] at hqueue
  rw [hframes, hqueue]

/-! ## A call that comes too late -/

/-- Two receivers that no byte can tell apart: the same phase, and the same
    in what the phase still reads. -/
inductive Alike : FrameRx → FrameRx → Prop where
  | start (ph type len idx sum type' len' idx' sum' : U32) (dst dst' : Mem) :
      ph = 0 ∨ ph = 1 ∨ ph = 2 →
      Alike ⟨⟨ph, type, len, idx, sum⟩, dst⟩ ⟨⟨ph, type', len', idx', sum'⟩, dst'⟩
  | typed (type sum len idx len' idx' : U32) (dst dst' : Mem) :
      Alike ⟨⟨3, type, len, idx, sum⟩, dst⟩ ⟨⟨3, type, len', idx', sum⟩, dst'⟩
  | low (type sum len idx idx' : U32) (dst dst' : Mem) :
      Alike ⟨⟨4, type, len, idx, sum⟩, dst⟩ ⟨⟨4, type, len, idx', sum⟩, dst'⟩
  | body (type len idx sum : U32) (dst dst' : Mem) : idx < len →
      (∀ i < idx.toNat, dst' i = dst i) →
      Alike ⟨⟨5, type, len, idx, sum⟩, dst⟩ ⟨⟨5, type, len, idx, sum⟩, dst'⟩
  | closing (type len sum idx idx' : U32) (dst dst' : Mem) :
      (∀ i < len.toNat, dst' i = dst i) →
      Alike ⟨⟨6, type, len, idx, sum⟩, dst⟩ ⟨⟨6, type, len, idx', sum⟩, dst'⟩

/-- A byte delivers the same frame to both, and leaves them alike. -/
theorem Alike.step {cap : U32} {s s' : FrameRx} (h : Alike s s') (b : U8) :
    Alike (FrameRx.feed cap s b).1 (FrameRx.feed cap s' b).1 ∧
      (FrameRx.feed cap s b).2.delivered = (FrameRx.feed cap s' b).2.delivered := by
  cases h with
  | start ph type len idx sum type' len' idx' sum' dst dst' hph =>
    rcases hph with rfl | rfl | rfl
    · refine ⟨.start (if b = 0x7E then 1 else 0) _ _ _ _ _ _ _ _ _ _ ?_, rfl⟩
      split <;> simp
    · refine ⟨.start (if b = 0x7E then 2 else 0) _ _ _ _ _ _ _ _ _ _ ?_, rfl⟩
      split <;> simp
    · exact ⟨.typed _ _ _ _ _ _ _ _, rfl⟩
  | typed => exact ⟨.low _ _ _ _ _ _ _, rfl⟩
  | low type sum len idx idx' dst dst' =>
    unfold FrameRx.feed
    rw [uartFrameStep_high, uartFrameStep_high]
    generalize len ||| b.setWidth 32 <<< 8 = len
    dsimp only
    split
    · exact ⟨.start 0 _ _ _ _ _ _ _ _ _ _ (.inl rfl), rfl⟩
    · by_cases h0 : len = 0
      · subst h0
        exact ⟨.closing _ _ _ _ _ _ _ (fun i hi => absurd hi (Nat.not_lt_zero i)), rfl⟩
      · rw [if_pos h0]
        exact ⟨.body _ _ _ _ _ _ (by bv_omega) (fun i hi => absurd hi (Nat.not_lt_zero i)), rfl⟩
  | body type len idx sum dst dst' hidx hdst =>
    unfold FrameRx.feed
    rw [uartFrameStep_body, uartFrameStep_body]
    dsimp only
    have hnext : (idx + 1).toNat = idx.toNat + 1 := by bv_omega
    -- the byte lands in the same place of both buffers
    have hstore : ∀ i < (idx + 1).toNat, (if i = idx.toNat then b else dst' i) =
        if i = idx.toNat then b else dst i := by
      intro i hi
      by_cases hlast : i = idx.toNat
      · rw [if_pos hlast, if_pos hlast]
      · rw [if_neg hlast, if_neg hlast]
        exact hdst i (by omega)
    by_cases hlast : idx + 1 = len
    · rw [if_pos hlast, ← hlast]
      exact ⟨.closing _ _ _ _ _ _ _ hstore, rfl⟩
    · rw [if_neg hlast]
      exact ⟨.body _ _ _ _ _ _ (by bv_omega) hstore, rfl⟩
  | closing type len sum idx idx' dst dst' hdst =>
    rw [feed_checksum, feed_checksum]
    refine ⟨.start 0 _ _ _ _ _ _ _ _ _ _ (.inl rfl), ?_⟩
    unfold FrameStep.delivered
    dsimp only
    have hbytes : bytesAt dst' 0 len.toNat = bytesAt dst 0 len.toNat :=
      bytesAt_congr fun i hi => by
        rw [Nat.zero_add]
        exact hdst i hi
    -- both deliver, or neither does
    by_cases hclose : (sum + b.setWidth 32) &&& 0xFF = 0
    · rw [if_pos hclose, hbytes]
    · rw [if_neg hclose]
      rfl

/-- A hunting machine remembers nothing. -/
theorem fedFrames_hunting (cap : U32) {st : UartFrameRx} (hst : st.phase = 0) (dst dst' : Mem)
    (bytes : List U8) :
    fedFrames cap ⟨st, dst⟩ bytes = fedFrames cap ⟨.reset, dst'⟩ bytes := by
  have hrun : ∀ s s', Alike s s' → fedFrames cap s bytes = fedFrames cap s' bytes := by
    induction bytes with
    | nil => exact fun _ _ _ => rfl
    | cons b bytes ih =>
      intro s s' h
      obtain ⟨hnext, hdel⟩ := h.step b
      unfold fedFrames
      rw [outputs_cons, outputs_cons, List.filterMap_cons, List.filterMap_cons, hdel]
      have hrest := ih _ _ hnext
      unfold fedFrames at hrest
      rw [hrest]
  obtain ⟨ph, type, len, idx, sum⟩ := st
  obtain rfl : ph = 0 := hst
  exact hrun _ _ (.start 0 _ _ _ _ _ _ _ _ _ _ (.inl rfl))

/-- A call that finds a partial frame after the timeout is a call that finds
    none. -/
theorem uartPollFrame_late (cap : U32) {q : Console} {call : PollCall}
    (hphase : q.s.rx.st.phase ≠ 0) (hlate : UART_FRAME_TIMEOUT < call.entry - q.taken)
    (queue : List U8) :
    uartPollFrame cap call q.s queue =
      pollLoop cap call.timer { q.s with rx := ⟨q.s.rx.st.dropped, q.s.rx.dst⟩ } queue := by
  unfold uartPollFrame
  rw [if_pos ⟨hphase, (q.stamped hphase).symm ▸ hlate⟩]

/-! ## Granularity -/

/-- **Polling granularity.**  Two schedules of the same bytes deliver the
    same frames, those of the bytes fed one by one.  A late call drops the
    partial frame; if it finds no bytes, what arrives next is delivered as
    from the reset state, a complete frame in particular. -/
theorem uartPollFrame_granularity (cap : U32) (q : Console) :
    (∀ (bytes : List U8) (calls calls' : List PollCall),
      Splits cap q calls bytes → Splits cap q calls' bytes →
        polledFrames cap q calls = fedFrames cap q.s.rx bytes ∧
          polledFrames cap q calls' = polledFrames cap q calls) ∧
    ∀ call : PollCall, q.s.rx.st.phase ≠ 0 → UART_FRAME_TIMEOUT < call.entry - q.taken →
      uartPollFrame cap call q.s (q.fifo ++ call.arrived) =
        pollLoop cap call.timer { q.s with rx := ⟨q.s.rx.st.dropped, q.s.rx.dst⟩ }
          (q.fifo ++ call.arrived) ∧
      (q.fifo ++ call.arrived = [] →
        (q.poll cap call).2 = none ∧ (q.poll cap call).1.s.rx.st.phase = 0 ∧
        (∀ (bytes : List U8) (calls : List PollCall), Splits cap (q.poll cap call).1 calls bytes →
          polledFrames cap (q.poll cap call).1 calls = fedFrames cap ⟨.reset, fun _ => 0⟩ bytes) ∧
        ∀ (type : U8) (payload : List U8) (calls : List PollCall),
          1 ≤ payload.length → payload.length ≤ cap.toNat → payload.length ≤ 65535 →
          Splits cap (q.poll cap call).1 calls (uartSendFrame type payload) →
            polledFrames cap (q.poll cap call).1 calls = [(type.setWidth 32, payload)]) := by
  refine ⟨fun bytes calls calls' h h' => ?_, fun call hphase hlate => ?_⟩
  · rw [h.frames, h'.frames]
    exact ⟨rfl, rfl⟩
  have hdrop := uartPollFrame_late cap hphase hlate
  refine ⟨hdrop _, fun hnone => ?_⟩
  -- the state behind the late call
  have hpoll : (q.poll cap call).1.s.rx = ⟨q.s.rx.st.dropped, q.s.rx.dst⟩ ∧
      (q.poll cap call).2 = none := by
    unfold Console.poll
    dsimp only
    rw [hdrop, hnone]
    exact ⟨rfl, rfl⟩
  obtain ⟨hrx, hframe⟩ := hpoll
  have hbytes : ∀ (bytes : List U8) (calls : List PollCall),
      Splits cap (q.poll cap call).1 calls bytes →
        polledFrames cap (q.poll cap call).1 calls =
          fedFrames cap ⟨.reset, fun _ => 0⟩ bytes := fun bytes calls h => by
    rw [h.frames, hrx]
    exact fedFrames_hunting cap rfl _ _ bytes
  refine ⟨hframe, by rw [hrx]; rfl, hbytes, fun type payload calls hpos hcap h16 h => ?_⟩
  rw [hbytes _ _ h]
  obtain ⟨-, htrace⟩ :=
    feed_frame (show UartFrameRx.reset.phase = 0 from rfl) (fun _ => 0) type payload h16 hcap
  unfold fedFrames
  have hmap := congrArg (List.filterMap id) htrace
  rw [List.filterMap_map, frameTrace, if_neg (List.length_pos_iff.mp hpos)] at hmap
  refine Eq.trans ?_ (hmap.trans ?_)
  · rfl
  · simp

/-- A console that has heard nothing. -/
def Console.reset : Console :=
  ⟨⟨⟨.reset, fun _ => 0⟩, 0⟩, [], 0, fun h => absurd rfl h⟩

/-- A call at time `t` that finds these bytes. -/
def PollCall.at (t : U32) (arrived : List U8) : PollCall := ⟨arrived, t, fun _ => t⟩

/-- A frame, its first `k` bytes in one call and the others in the next. -/
def twoCalls (k : Nat) : List PollCall :=
  [.at 5 ((uartSendFrame 1 [0x42]).take k), .at 9 ((uartSendFrame 1 [0x42]).drop k)]

/-- Behind a sync pair that nothing followed. -/
def halfHeard : Console := (Console.reset.poll 8 (.at 5 [0x7E, 0x7E])).1

/-- A frame split inside its sync pair, or inside its length; and a frame
    behind a sync pair that timed out. -/
theorem uartPollFrame_granularity_split :
    polledFrames 8 .reset (twoCalls 4) = polledFrames 8 .reset (twoCalls 1) ∧
      polledFrames 8 (halfHeard.poll 8 (.at 200006 [])).1 [.at 300000 (uartSendFrame 1 [0x42])] =
        [(1, [0x42])] := by
  have hone : Splits 8 .reset (twoCalls 1) (uartSendFrame 1 [0x42]) :=
    ⟨rfl, ⟨fun h => absurd rfl h, fun _ => by decide, trivial⟩, by decide⟩
  have hfour : Splits 8 .reset (twoCalls 4) (uartSendFrame 1 [0x42]) :=
    ⟨rfl, ⟨fun h => absurd rfl h, fun _ => by decide, trivial⟩, by decide⟩
  have hnext : Splits 8 (halfHeard.poll 8 (.at 200006 [])).1
      [.at 300000 (uartSendFrame 1 [0x42])] (uartSendFrame 1 [0x42]) :=
    ⟨rfl, ⟨fun h => absurd rfl h, trivial⟩, by decide⟩
  obtain ⟨-, hlate⟩ := (uartPollFrame_granularity 8 halfHeard).2 (.at 200006 [])
    (by decide) (by decide)
  obtain ⟨-, -, -, hframe⟩ := hlate rfl
  exact ⟨((uartPollFrame_granularity 8 .reset).1 _ _ _ hone hfour).2,
    hframe 1 [0x42] _ (by decide) (by decide) (by decide) hnext⟩

end Interclus

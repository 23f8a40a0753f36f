import Mathlib.Data.List.Chain
import Mathlib.Data.List.GetD
import Interclus.Core.Frame

/-! # Frame Streams

    The frame machine on what `uart_send_frame` puts on the wire: behind
    the header it counts the payload down byte by byte, and the checksum
    byte closes the sum.  A stream of frames is delivered frame by frame;
    what comes before a frame is ignored unless its last byte pairs up with
    the frame's first. -/

namespace Interclus

open Words Mealy

/-! ## Length and checksum -/

theorem toNat_and_ff (x : U32) : (x &&& 0xFF).toNat = x.toNat % 256 := by
  rw [BitVec.toNat_and]
  exact Nat.and_two_pow_sub_one_eq_mod x.toNat 8

/-- The two bytes of a length field. -/
theorem len_bytes {len : U32} (h : len.toNat ≤ 65535) :
    (((len &&& (0xFF : U32)).setWidth 8).setWidth 32).toNat = len.toNat % 256 ∧
      (((len >>> 8).setWidth 8).setWidth 32).toNat = len.toNat / 256 := by
  have hff := toNat_and_ff len
  exact ⟨by bv_omega, by bv_omega⟩

/-- The length field is read back as it was split. -/
theorem len_of_bytes {len : U32} (h : len.toNat ≤ 65535) :
    ((len &&& (0xFF : U32)).setWidth 8).setWidth 32 |||
      (((len >>> 8).setWidth 8).setWidth 32) <<< 8 = len := by
  obtain ⟨hlo, hhi⟩ := len_bytes h
  apply BitVec.eq_of_toNat_eq
  rw [BitVec.toNat_or, BitVec.toNat_shiftLeft, Nat.or_comm, hlo, hhi,
    Nat.mod_eq_of_lt (by rw [Nat.shiftLeft_eq]; omega),
    ← Nat.shiftLeft_add_eq_or_of_lt (Nat.mod_lt _ (by decide)), Nat.shiftLeft_eq]
  omega

/-- The two length bytes add up as they are summed. -/
theorem sum_of_bytes {len : U32} (h : len.toNat ≤ 65535) :
    ((len &&& (0xFF : U32)).setWidth 8).setWidth 32 + ((len >>> 8).setWidth 8).setWidth 32 =
      (len &&& (0xFF : U32)) + (len >>> 8) := by
  obtain ⟨hlo, hhi⟩ := len_bytes h
  apply BitVec.eq_of_toNat_eq
  rw [BitVec.toNat_add, BitVec.toNat_add, hlo, hhi, toNat_and_ff, BitVec.toNat_ushiftRight,
    Nat.shiftRight_eq_div_pow]

/-- The checksum byte closes the sum. -/
theorem checksum_closes (sum : U32) :
    (sum + (((-sum) &&& 0xFF).setWidth 8).setWidth 32) &&& 0xFF = 0 := by
  have hneg := toNat_and_ff (-sum)
  have hsum := toNat_and_ff (sum + (((-sum) &&& 0xFF).setWidth 8).setWidth 32)
  bv_omega

/-! ## A frame, part by part -/

/-- The sum over payload bytes. -/
def payloadSum (sum : U32) (payload : List U8) : U32 :=
  payload.foldl (fun sum b => sum + b.setWidth 32) sum

/-- The bytes of a payload land behind the cursor. -/
def putPayload (dst : Mem) (idx : Nat) (payload : List U8) : Mem := fun i =>
  if idx ≤ i ∧ i < idx + payload.length then payload.getD (i - idx) 0 else dst i

theorem putPayload_cons (dst : Mem) (idx : Nat) (b : U8) (rest : List U8) :
    putPayload (putPayload dst idx [b]) (idx + 1) rest = putPayload dst idx (b :: rest) := by
  funext i
  simp only [putPayload, List.length_cons, List.length_nil]
  by_cases hrest : idx + 1 ≤ i ∧ i < idx + 1 + rest.length
  · obtain ⟨k, rfl⟩ := Nat.exists_eq_add_of_le hrest.1
    rw [if_pos hrest, if_pos (by omega), Nat.add_sub_cancel_left, Nat.add_assoc,
      Nat.add_sub_cancel_left, Nat.add_comm 1 k, List.getD_cons_succ]
  · rw [if_neg hrest]
    by_cases hi : i = idx
    · subst hi
      rw [if_pos (by omega), if_pos (by omega), Nat.sub_self]
      rfl
    · rw [if_neg (by omega), if_neg (by omega)]

/-- No call delivers. -/
def Silence (rs : List FrameStep) : Prop := ∀ r ∈ rs, r.ret = 0

/-- Sync and header: the length is admitted, and the payload is next. -/
theorem feed_header (cap : U32) {st : UartFrameRx} (hst : st.phase = 0) (dst : Mem)
    (type lo hi : U8)
    (hcap : ¬ cap < lo.setWidth 32 ||| hi.setWidth 32 <<< 8) :
    let s : FrameRx := ⟨st, dst⟩
    let header := [0x7E, 0x7E, type, lo, hi]
    let len : U32 := lo.setWidth 32 ||| hi.setWidth 32 <<< 8
    final (FrameRx.feed cap) s header =
        ⟨⟨if len ≠ 0 then 5 else 6, type.setWidth 32, len, 0,
          type.setWidth 32 + lo.setWidth 32 + hi.setWidth 32⟩, dst⟩ ∧
      Silence (outputs (FrameRx.feed cap) s header) := by
  obtain ⟨ph, t, l, i, sum⟩ := st
  obtain rfl : ph = 0 := hst
  -- one line of the machine for each byte
  simp only [final_cons, outputs_cons, FrameRx.feed, uartFrameStep_sync, uartFrameStep_pair,
    uartFrameStep_type, uartFrameStep_low, uartFrameStep_high, if_true, if_neg hcap]
  simp [Silence, outputs, final]

/-- The payload is counted down into the buffer. -/
theorem feed_payload (cap : U32) (payload : List U8) (hne : payload ≠ []) (type len idx sum : U32)
    (dst : Mem) (hlen : idx.toNat + payload.length = len.toNat) :
    let s : FrameRx := ⟨⟨5, type, len, idx, sum⟩, dst⟩
    final (FrameRx.feed cap) s payload =
        ⟨⟨6, type, len, len, payloadSum sum payload⟩, putPayload dst idx.toNat payload⟩ ∧
      Silence (outputs (FrameRx.feed cap) s payload) := by
  induction payload generalizing idx sum dst with
  | nil => exact absurd rfl hne
  | cons b rest ih =>
    have hidx : (idx + 1).toNat = idx.toNat + 1 := by
      have := len.isLt
      simp only [List.length_cons] at hlen
      bv_omega
    have hstep : FrameRx.feed cap ⟨⟨5, type, len, idx, sum⟩, dst⟩ b =
        (⟨⟨if idx + 1 = len then 6 else 5, type, len, idx + 1, sum + b.setWidth 32⟩,
            putPayload dst idx.toNat [b]⟩,
          ⟨0, ⟨if idx + 1 = len then 6 else 5, type, len, idx + 1, sum + b.setWidth 32⟩,
            putPayload dst idx.toNat [b]⟩) := by
      have hput : (fun i => if i = idx.toNat then b else dst i) = putPayload dst idx.toNat [b] := by
        funext i
        unfold putPayload
        by_cases hi : i = idx.toNat
        · simp [hi]
        · rw [if_neg hi, if_neg (by simp; omega)]
      rw [← hput]
      rfl
    intro s
    rw [final_cons, outputs_cons, hstep]
    -- the last byte of the payload turns to the checksum
    by_cases hrest : rest = []
    · -- the last byte: the cursor meets the length
      subst hrest
      have hlast : idx + 1 = len := by
        apply BitVec.eq_of_toNat_eq
        rw [hidx]
        simpa using hlen
      rw [if_pos hlast, hlast]
      exact ⟨rfl, by simp [Silence, outputs]⟩
    · have hmore : idx + 1 ≠ len := by
        intro h
        have := List.length_pos_iff.mpr hrest
        have := congrArg BitVec.toNat h
        simp only [List.length_cons] at hlen
        omega
      rw [if_neg hmore]
      obtain ⟨hfinal, hsilent⟩ := ih hrest (idx + 1) (sum + b.setWidth 32)
        (putPayload dst idx.toNat [b]) (by simp only [List.length_cons] at hlen; omega)
      refine ⟨?_, ?_⟩
      · rw [hfinal, hidx, putPayload_cons]
        rfl
      · intro r hr
        rcases List.mem_cons.mp hr with rfl | hr
        · rfl
        · exact hsilent r hr

/-- The checksum byte: the frame is delivered, or dropped. -/
theorem feed_checksum (cap : U32) (type len idx sum : U32) (dst : Mem) (c : U8) :
    FrameRx.feed cap ⟨⟨6, type, len, idx, sum⟩, dst⟩ c =
      (⟨⟨0, type, len, idx, sum⟩, dst⟩,
        ⟨if (sum + c.setWidth 32) &&& 0xFF = 0 then len else 0, ⟨0, type, len, idx, sum⟩, dst⟩) :=
  rfl

/-- Behind the header the payload is next, or the checksum when there is
    none. -/
theorem feed_body (cap : U32) (payload : List U8) (type len sum : U32) (dst : Mem)
    (hlen : payload.length = len.toNat) :
    let s : FrameRx := ⟨⟨if len ≠ 0 then 5 else 6, type, len, 0, sum⟩, dst⟩
    final (FrameRx.feed cap) s payload =
        ⟨⟨6, type, len, len, payloadSum sum payload⟩, putPayload dst 0 payload⟩ ∧
      Silence (outputs (FrameRx.feed cap) s payload) := by
  by_cases hne : payload = []
  · subst hne
    obtain rfl : len = 0 := BitVec.eq_of_toNat_eq hlen.symm
    have hput : putPayload dst 0 [] = dst := funext fun i => if_neg (by simp)
    rw [hput]
    exact ⟨rfl, nofun⟩
  · have hpos := List.length_pos_iff.mpr hne
    have h0 : len ≠ 0 := fun h => by
      rw [h] at hlen
      exact absurd hlen (Nat.ne_of_gt hpos)
    rw [if_pos h0]
    exact feed_payload cap payload hne type len 0 sum dst ((Nat.zero_add _).trans hlen)

theorem bytesAt_putPayload (dst : Mem) (payload : List U8) :
    bytesAt (putPayload dst 0 payload) 0 payload.length = payload := by
  apply List.ext_getElem (length_bytesAt ..)
  intro i hi hi'
  simp only [bytesAt, putPayload, List.getElem_map, List.getElem_range, Nat.zero_add, Nat.zero_le,
    true_and, Nat.sub_zero]
  rw [if_pos hi']
  exact List.getD_eq_getElem _ _ hi'

/-- The checksum byte delivers a payload that is not empty, when it closes
    the sum. -/
theorem outputs_checksum (cap : U32) (type len sum : U32) (dst : Mem) (payload : List U8) (c : U8)
    (hlen : payload.length = len.toNat) :
    (outputs (FrameRx.feed cap) ⟨⟨6, type, len, len, sum⟩, putPayload dst 0 payload⟩
      [c]).map FrameStep.delivered =
      [if payload ≠ [] ∧ (sum + c.setWidth 32) &&& 0xFF = 0 then some (type, payload)
        else none] := by
  rw [outputs_cons, feed_checksum]
  by_cases hclose : (sum + c.setWidth 32) &&& 0xFF = 0
  · rw [if_pos hclose]
    by_cases hne : payload = []
    · subst hne
      obtain rfl : len = 0 := BitVec.eq_of_toNat_eq hlen.symm
      rfl
    · have h0 : len ≠ 0#32 := fun h =>
        hne (List.eq_nil_of_length_eq_zero (by rw [hlen, h]; rfl))
      have hread : bytesAt (putPayload dst 0 payload) 0 len.toNat = payload :=
        hlen ▸ bytesAt_putPayload dst payload
      rw [if_pos ⟨hne, hclose⟩]
      simp [outputs, FrameStep.delivered, h0, hread]
  · rw [if_neg hclose, if_neg (fun h => hclose h.2)]
    rfl

/-! ## A whole frame -/

/-- What the steps on a frame's bytes deliver: nothing, until the checksum
    byte delivers a payload that is not empty. -/
def frameTrace (f : U8 × List U8) : List (Option (U32 × List U8)) :=
  List.replicate (f.2.length + 5) none ++
    [if f.2 = [] then none else some (f.1.setWidth 32, f.2)]

theorem Silence.trace {rs : List FrameStep} (h : Silence rs) :
    rs.map FrameStep.delivered = List.replicate rs.length none := by
  rw [List.map_eq_replicate_iff]
  exact fun r hr => if_pos (h r hr)

/-- Sync pair, type and length. -/
def frameHeader (type : U8) (len : U32) : List U8 :=
  [0x7E, 0x7E, type, (len &&& 0xFF).setWidth 8, (len >>> 8).setWidth 8]

/-- The frame `uart_send_frame` makes, with `c` for the checksum. -/
def closedBy (type : U8) (payload : List U8) (c : U8) : List U8 :=
  frameHeader type (BitVec.ofNat 32 payload.length) ++ payload ++ [c]

/-- The checksum byte of `uart_send_frame`. -/
def frameChecksum (type : U8) (payload : List U8) : U8 :=
  ((-frameSum type payload) &&& (0xFF : U32)).setWidth 8

theorem uartSendFrame_closedBy (type : U8) (payload : List U8) :
    uartSendFrame type payload = closedBy type payload (frameChecksum type payload) := rfl

/-- A frame that fits the buffer is delivered by its last byte if that
    closes the sum; either way the machine hunts again. -/
theorem feed_closedBy {cap : U32} {st : UartFrameRx} (hst : st.phase = 0) (dst : Mem) (type : U8)
    (payload : List U8) (c : U8) (h16 : payload.length ≤ 65535)
    (hcap : payload.length ≤ cap.toNat) :
    let s : FrameRx := ⟨st, dst⟩
    (final (FrameRx.feed cap) s (closedBy type payload c)).st.phase = 0 ∧
      (outputs (FrameRx.feed cap) s (closedBy type payload c)).map FrameStep.delivered =
        List.replicate (payload.length + 5) none ++
          [if payload ≠ [] ∧ (frameSum type payload + c.setWidth 32) &&& 0xFF = 0 then
            some (type.setWidth 32, payload) else none] := by
  intro s
  obtain ⟨len, hlen⟩ : ∃ len, BitVec.ofNat 32 payload.length = len := ⟨_, rfl⟩
  have hn : payload.length = len.toNat := by
    rw [← hlen, BitVec.toNat_ofNat]
    exact (Nat.mod_eq_of_lt (by omega)).symm
  obtain ⟨sum, hstart, hframe⟩ : ∃ sum,
      type.setWidth 32 + (len &&& (0xFF : U32)) + (len >>> 8) = sum ∧
        frameSum type payload = payloadSum sum payload := by
    refine ⟨_, rfl, ?_⟩
    rw [← hlen]
    rfl
  -- the bytes are header, payload and checksum
  unfold closedBy frameHeader
  rw [List.append_assoc, hlen, hframe]
  have h16' : len.toNat ≤ 65535 := hn ▸ h16
  have hbytes := len_of_bytes h16'
  have hsum := sum_of_bytes h16'
  obtain ⟨hheader, hsilent⟩ := feed_header cap hst dst type
    ((len &&& (0xFF : U32)).setWidth 8) ((len >>> 8).setWidth 8) (by rw [hbytes]; bv_omega)
  rw [hbytes, BitVec.add_assoc, hsum, ← BitVec.add_assoc] at hheader
  rw [hstart] at hheader
  obtain ⟨hbody, hsilent'⟩ := feed_body cap payload (type.setWidth 32) len sum dst hn
  have hlast :=
    outputs_checksum cap (type.setWidth 32) len (payloadSum sum payload) dst payload c hn
  rw [final_append, hheader, final_append, hbody, outputs_append, outputs_append, hheader, hbody,
    List.map_append, List.map_append, hsilent.trace, hsilent'.trace, length_outputs, length_outputs,
    ← List.append_assoc, List.replicate_append_replicate]
  refine ⟨rfl, ?_⟩
  rw [hlast, Nat.add_comm payload.length 5]
  rfl

/-- A frame that fits the buffer is delivered by its last byte, and leaves
    the machine where it found it. -/
theorem feed_frame {cap : U32} {st : UartFrameRx} (hst : st.phase = 0) (dst : Mem) (type : U8)
    (payload : List U8) (h16 : payload.length ≤ 65535) (hcap : payload.length ≤ cap.toNat) :
    let s : FrameRx := ⟨st, dst⟩
    (final (FrameRx.feed cap) s (uartSendFrame type payload)).st.phase = 0 ∧
      (outputs (FrameRx.feed cap) s (uartSendFrame type payload)).map FrameStep.delivered =
        frameTrace (type, payload) := by
  intro s
  obtain ⟨hphase, htrace⟩ :=
    feed_closedBy hst dst type payload (frameChecksum type payload) h16 hcap
  refine ⟨hphase, htrace.trans ?_⟩
  have hclose : (frameSum type payload + (frameChecksum type payload).setWidth 32) &&& 0xFF = 0 :=
    checksum_closes _
  unfold frameTrace
  by_cases hne : payload = []
  · rw [if_neg (fun h => h.1 hne), if_pos hne]
  · rw [if_pos ⟨hne, hclose⟩, if_neg hne]

/-- **Round trip.** Fed the concatenated frames of any list, from a state
    that hunts for a sync pair, the machine delivers exactly the frames with
    a payload, in order and once each, on their last bytes. -/
theorem feed_stream {cap : U32} (hcap : cap.toNat ≤ 65535) (frames : List (U8 × List U8))
    (hlen : ∀ f ∈ frames, f.2.length ≤ cap.toNat) (s : FrameRx) (hst : s.st.phase = 0) :
    (final (FrameRx.feed cap) s (frames.flatMap fun f => uartSendFrame f.1 f.2)).st.phase = 0 ∧
      (outputs (FrameRx.feed cap) s (frames.flatMap fun f => uartSendFrame f.1 f.2)).map
        FrameStep.delivered = frames.flatMap frameTrace := by
  induction frames generalizing s with
  | nil => exact ⟨hst, rfl⟩
  | cons f frames ih =>
    have hf := hlen f List.mem_cons_self
    obtain ⟨hphase, htrace⟩ := feed_frame hst s.dst f.1 f.2 (by omega) hf
    obtain ⟨hphase', htrace'⟩ :=
      ih (fun g hg => hlen g (List.mem_cons_of_mem f hg))
        (final (FrameRx.feed cap) s (uartSendFrame f.1 f.2)) hphase
    rw [List.flatMap_cons, List.flatMap_cons, final_append, outputs_append, List.map_append,
      htrace']
    exact ⟨hphase', congrArg (· ++ _) htrace⟩

/-- Two frames, the second one empty, and a sync pair in the payload. -/
theorem feed_stream_syncPair :
    let s : FrameRx := ⟨.reset, fun _ => 0⟩
    let bytes := uartSendFrame 2 [0x7E, 0x7E, 9] ++ uartSendFrame 1 []
    (final (FrameRx.feed 8) s bytes).st.phase = 0 ∧
      (outputs (FrameRx.feed 8) s bytes).map FrameStep.delivered =
        List.replicate 8 none ++ [some (2, [0x7E, 0x7E, 9])] ++ List.replicate 6 none :=
  feed_stream (by decide) [(2, [0x7E, 0x7E, 9]), (1, [])] (by decide) ⟨.reset, fun _ => 0⟩ rfl

/-! ## Noise -/

/-- No two adjacent sync bytes. -/
def NoSyncPair (w : List U8) : Prop := w.IsChain fun a b => ¬ (a = 0x7E ∧ b = 0x7E)

/-- Hunting: the phase says whether the last byte was a sync byte. -/
theorem feed_noise (cap : U32) (w : List U8) (prev : U8) (hw : NoSyncPair (prev :: w))
    (st : UartFrameRx) (hst : st.phase = if prev = 0x7E then 1 else 0) (dst : Mem) :
    final (FrameRx.feed cap) ⟨st, dst⟩ w =
      ⟨{ st with phase := if w.getLastD prev = 0x7E then 1 else 0 }, dst⟩ := by
  induction w generalizing prev st with
  | nil =>
    rw [List.getLastD_nil, ← hst]
    rfl
  | cons b w ih =>
    obtain ⟨hpair, hrest⟩ := List.isChain_cons_cons.mp hw
    have hstep : FrameRx.feed cap ⟨st, dst⟩ b =
        (⟨{ st with phase := if b = 0x7E then 1 else 0 }, dst⟩,
          ⟨0, { st with phase := if b = 0x7E then 1 else 0 }, dst⟩) := by
      obtain ⟨ph, t, l, i, sum⟩ := st
      obtain rfl : ph = if prev = 0x7E then 1 else 0 := hst
      by_cases hprev : prev = 0x7E
      · have hb : ¬ b = 0x7E#8 := fun h => hpair ⟨hprev, h⟩
        rw [if_pos hprev]
        simp [FrameRx.feed, uartFrameStep, hb]
      · rw [if_neg hprev]
        rfl
    rw [final_cons, hstep, ih b hrest _ rfl, List.getLastD_cons]

/-! ## How many bytes a delivery takes -/

/-- The fewest bytes that can end in the delivery of `n` bytes. -/
def bytesTo (n : Nat) (st : UartFrameRx) : Nat :=
  if st.phase = 0 then n + 6
  else if st.phase = 1 then n + 5
  else if st.phase = 2 then n + 4
  else if st.phase = 3 then n + 3
  else if st.phase = 4 then n + 2
  else if st.len.toNat ≠ n then n + 6
  else if st.phase = 5 then n - st.idx.toNat + 1
  else 1

/-- Step lemma: a byte brings a delivery closer by at most one. -/
theorem bytesTo_step {n : Nat} (hn : n ≠ 0) (byte : U8) (dst : Mem) (cap : U32) (st : UartFrameRx) :
    bytesTo n st ≤ bytesTo n (uartFrameStep byte dst cap st).st + 1 ∧
      ((uartFrameStep byte dst cap st).ret.toNat = n → bytesTo n st ≤ 1) := by
  obtain ⟨ph, t, l, i, sum⟩ := st
  have hzero : ∀ {P : Prop}, (0 : U32).toNat = n → P := fun h => absurd h.symm hn
  by_cases h0 : ph = 0
  · subst h0
    refine ⟨?_, hzero⟩
    show n + 6 ≤ bytesTo n ⟨if byte = 0x7E then 1 else 0, t, l, i, sum⟩ + 1
    split <;> simp [bytesTo]
  by_cases h1 : ph = 1
  · subst h1
    refine ⟨?_, hzero⟩
    show n + 5 ≤ bytesTo n ⟨if byte = 0x7E then 2 else 0, t, l, i, sum⟩ + 1
    split <;> simp [bytesTo]
  by_cases h2 : ph = 2
  · subst h2
    exact ⟨Nat.le_refl _, hzero⟩
  by_cases h3 : ph = 3
  · subst h3
    exact ⟨Nat.le_refl _, hzero⟩
  by_cases h4 : ph = 4
  · subst h4
    have hfrom : bytesTo n ⟨4, t, l, i, sum⟩ = n + 2 := rfl
    rw [uartFrameStep_high, hfrom]
    generalize l ||| byte.setWidth 32 <<< 8 = len
    split
    · exact ⟨Nat.le_add_right (n + 2) 5, hzero⟩
    · refine ⟨?_, hzero⟩
      by_cases hlen : len.toNat = n
      · have h0 : len ≠ 0#32 := fun h => hn (by rw [← hlen, h]; rfl)
        simp [bytesTo, hlen, h0]
      · split <;> simp [bytesTo, hlen]
  -- one payload byte more, of the right length or of another
  by_cases h5 : ph = 5
  · subst h5
    rw [uartFrameStep_body]
    refine ⟨?_, hzero⟩
    by_cases hlen : l.toNat = n
    · have hsucc : (i + 1).toNat ≤ i.toNat + 1 := by bv_omega
      split
      · next hlast =>
        have : i.toNat + 1 = n := by bv_omega
        simp [bytesTo, hlen]
        omega
      · simp [bytesTo, hlen]
        omega
    · split <;> simp [bytesTo, hlen]
  · have hstep : uartFrameStep byte dst cap ⟨ph, t, l, i, sum⟩ =
        ⟨if (sum + byte.setWidth 32) &&& 0xFF = 0 then l else 0, ⟨0, t, l, i, sum⟩, dst⟩ := by
      simp only [uartFrameStep, if_neg h0, if_neg h1, if_neg h2, if_neg h3, if_neg h4, if_neg h5]
    have hfrom : bytesTo n ⟨ph, t, l, i, sum⟩ = if l.toNat ≠ n then n + 6 else 1 := by
      simp only [bytesTo, if_neg h0, if_neg h1, if_neg h2, if_neg h3, if_neg h4, if_neg h5]
    rw [hstep, hfrom]
    refine ⟨?_, fun hret => ?_⟩
    · show _ ≤ n + 6 + 1
      split <;> omega
    · have hlen : l.toNat = n := by
        dsimp only at hret
        split at hret
        · exact hret
        · exact hzero hret
      rw [if_neg (not_not.mpr hlen)]

/-- Run lemma: no delivery comes early. -/
theorem bytesTo_le {n : Nat} (hn : n ≠ 0) {cap : U32} (bs : List U8) (b : U8) (s : FrameRx)
    (h : (FrameRx.feed cap (final (FrameRx.feed cap) s bs) b).2.ret.toNat = n) :
    bytesTo n s.st ≤ bs.length + 1 := by
  induction bs generalizing s with
  | nil => exact (bytesTo_step hn b s.dst cap s.st).2 h
  | cons c bs ih =>
    have hrest := ih (FrameRx.feed cap s c).1 h
    have hstep := (bytesTo_step hn c s.dst cap s.st).1
    rw [List.length_cons]
    exact Nat.le_trans hstep (Nat.add_le_add_right hrest 1)

/-! ## The length field stays 16 bits wide -/

/-- The length is below 2^16, and below 2^8 between its two bytes. -/
def LenInv (st : UartFrameRx) : Prop :=
  st.len.toNat ≤ 65535 ∧ (st.phase = 4 → st.len.toNat ≤ 255)

theorem len_or_le {len : U32} (h : len.toNat ≤ 255) (b : U8) :
    (len ||| b.setWidth 32 <<< 8).toNat ≤ 65535 := by
  have hb : (b.setWidth 32 <<< 8).toNat < 2 ^ 16 := by
    have := b.isLt
    rw [BitVec.toNat_shiftLeft, Nat.shiftLeft_eq]
    bv_omega
  rw [BitVec.toNat_or]
  exact Nat.le_of_lt_succ (Nat.or_lt_two_pow (n := 16) (by omega) hb)

/-- Step lemma: the field is kept, and no call returns more. -/
theorem LenInv.step {st : UartFrameRx} (h : LenInv st) (byte : U8) (dst : Mem) (cap : U32) :
    LenInv (uartFrameStep byte dst cap st).st ∧
      (uartFrameStep byte dst cap st).ret.toNat ≤ 65535 := by
  obtain ⟨ph, t, l, i, sum⟩ := st
  obtain ⟨hlen, hlow⟩ := h
  have hb : (byte.setWidth 32 : U32).toNat ≤ 255 := by
    have := byte.isLt
    bv_omega
  -- only the two length bytes write the field, only the checksum returns it
  by_cases h3 : ph = 3
  · subst h3
    exact ⟨⟨Nat.le_trans hb (by decide), fun _ => hb⟩, Nat.zero_le _⟩
  by_cases h4 : ph = 4
  · subst h4
    have hor : (l ||| byte.setWidth 32 <<< 8).toNat ≤ 65535 := len_or_le (hlow rfl) byte
    rw [uartFrameStep_high]
    split
    · exact ⟨⟨hor, fun h => absurd h (show ¬ (0 : U32) = 4 by decide)⟩, Nat.zero_le _⟩
    · refine ⟨⟨hor, fun h => ?_⟩, Nat.zero_le _⟩
      dsimp only at h
      split at h <;> exact absurd h (by decide)
  · have hkeep : ∀ {ph' t' i' sum' : U32}, ph' ≠ 4 → LenInv ⟨ph', t', l, i', sum'⟩ :=
      fun hne => ⟨hlen, fun h => absurd h hne⟩
    simp only [uartFrameStep, if_neg h3, if_neg h4]
    split
    · exact ⟨hkeep (by split <;> decide), Nat.zero_le _⟩
    split
    · exact ⟨hkeep (by split <;> decide), Nat.zero_le _⟩
    split
    · exact ⟨hkeep (by decide), Nat.zero_le _⟩
    split
    · exact ⟨hkeep (by split <;> decide), Nat.zero_le _⟩
    · refine ⟨hkeep (by decide), ?_⟩
      dsimp only
      split
      · exact hlen
      · exact Nat.zero_le _

/-! ## Leading noise -/

/-- What the last step delivers. -/
def deliveredLast (cap : U32) (s : FrameRx) (bytes : List U8) : Option (U32 × List U8) :=
  (outputs (FrameRx.feed cap) s bytes).getLast?.bind FrameStep.delivered

theorem deliveredLast_concat (cap : U32) (s : FrameRx) (bytes : List U8) (b : U8) :
    deliveredLast cap s (bytes ++ [b]) =
      (FrameRx.feed cap (final (FrameRx.feed cap) s bytes) b).2.delivered := by
  rw [deliveredLast, outputs_concat, List.getLast?_append, List.getLast?_singleton]
  rfl

theorem deliveredLast_append (cap : U32) (s : FrameRx) (bs : List U8) {cs : List U8}
    (h : cs ≠ []) :
    deliveredLast cap s (bs ++ cs) = deliveredLast cap (final (FrameRx.feed cap) s bs) cs := by
  obtain ⟨cs, c, rfl⟩ := (List.eq_nil_or_concat cs).resolve_left h
  rw [List.concat_eq_append, ← List.append_assoc, deliveredLast_concat, deliveredLast_concat,
    final_append]

/-- A delivery returns the payload's length. -/
theorem FrameStep.ret_of_delivered {r : FrameStep} {t : U32} {payload : List U8}
    (h : r.delivered = some (t, payload)) : r.ret.toNat = payload.length := by
  unfold delivered at h
  split at h
  · cases h
  · rw [← (Prod.mk.inj (Option.some.inj h)).2, length_bytesAt]

/-- A payload of 2^16 bytes or more is not delivered. -/
theorem delivered_le {cap : U32} {s : FrameRx} (hs : LenInv s.st) {bytes : List U8} {t : U32}
    {payload : List U8} (h : deliveredLast cap s bytes = some (t, payload)) :
    payload.length ≤ 65535 := by
  -- the invariant and the bound, over the whole run
  have hstep : ∀ (s : FrameRx) (b : U8), LenInv s.st →
      LenInv (FrameRx.feed cap s b).1.st ∧ (FrameRx.feed cap s b).2.ret.toNat ≤ 65535 :=
    fun s b hs => hs.step b s.dst cap
  obtain ⟨-, hret⟩ :=
    forall_outputs (FrameRx.feed cap) (P := fun r => r.ret.toNat ≤ 65535) hstep bytes hs
  obtain ⟨r, hr, hdel⟩ := Option.bind_eq_some_iff.mp h
  rw [← FrameStep.ret_of_delivered hdel]
  exact hret r (List.mem_of_getLast? hr)

/-- Past a lone sync byte the frame is read one byte early: its second sync
    byte as the type, its type and the low byte of its length as the length. -/
theorem feed_misaligned (cap : U32) {st : UartFrameRx} (hst : st.phase = 1) (dst : Mem)
    (type lo : U8) :
    let len : U32 := type.setWidth 32 ||| lo.setWidth 32 <<< 8
    ∃ sum, final (FrameRx.feed cap) ⟨st, dst⟩ [0x7E, 0x7E, type, lo] =
      ⟨if cap < len then ⟨0, 0x7E, len, st.idx, sum⟩
        else ⟨if len ≠ 0 then 5 else 6, 0x7E, len, 0, sum⟩, dst⟩ := by
  obtain ⟨ph, t, l, i, sum⟩ := st
  obtain rfl : ph = 1 := hst
  refine ⟨0x7E + type.setWidth 32 + lo.setWidth 32, ?_⟩
  simp only [final_cons, FrameRx.feed, uartFrameStep_pair, uartFrameStep_type, uartFrameStep_low,
    uartFrameStep_high, if_true]
  by_cases hcap : cap < type.setWidth 32 ||| lo.setWidth 32 <<< 8
  · simp [hcap, final]
  · simp [hcap, final]

/-- So the frame's last byte does not deliver it: a shorter or longer
    length does not fit the bytes left, and the frame's own length is filled
    one byte before the last. -/
theorem misaligned_lost {cap : U32} {st : UartFrameRx} (hst : st.phase = 1) (dst : Mem)
    (type : U8) {payload : List U8} (hne : 1 ≤ payload.length) :
    deliveredLast cap ⟨st, dst⟩ (uartSendFrame type payload) ≠
      some (type.setWidth 32, payload) := by
  intro h
  unfold uartSendFrame at h
  dsimp only at h
  generalize ((BitVec.ofNat 32 payload.length) &&& (0xFF : U32)).setWidth 8 = lo at h
  generalize ((BitVec.ofNat 32 payload.length) >>> 8).setWidth 8 = hi at h
  generalize (((-frameSum type payload) &&& 0xFF).setWidth 8) = c at h
  obtain ⟨sum, hmis⟩ := feed_misaligned cap hst dst type lo
  rw [show [0x7E, 0x7E, type, lo, hi] ++ payload ++ [c] =
      ([0x7E, 0x7E, type, lo] ++ (hi :: payload)) ++ [c] by simp, deliveredLast_concat,
    final_append, hmis] at h
  generalize (type.setWidth 32 ||| lo.setWidth 32 <<< 8 : U32) = len at h
  have hret := FrameStep.ret_of_delivered h
  have hfew := bytesTo_le (by omega) _ _ _ hret
  rw [List.length_cons] at hfew
  by_cases hcap : cap < len
  · -- over-long for the buffer: back to hunting
    rw [if_pos hcap] at hfew
    have : payload.length + 6 ≤ payload.length + 1 + 1 := hfew
    omega
  · rw [if_neg hcap] at h hfew
    by_cases hlen : len.toNat = payload.length
    · -- its own length: the last payload byte is taken for the checksum
      have h0 : len ≠ 0 := fun h0 => by
        rw [h0] at hlen
        exact absurd hlen.symm (Nat.ne_of_gt hne)
      obtain ⟨init, b, rfl⟩ :=
        (List.eq_nil_or_concat payload).resolve_left (List.length_pos_iff.mp hne)
      rw [List.concat_eq_append, List.length_append, List.length_singleton] at hlen
      obtain ⟨hbody, -⟩ := feed_payload cap (hi :: init) (List.cons_ne_nil hi init) 0x7E
        len 0 sum dst (by rw [List.length_cons, hlen]; exact Nat.zero_add _)
      rw [if_pos h0, List.concat_eq_append, ← List.cons_append, final_append, hbody, final_cons,
        feed_checksum] at h
      exact absurd h nofun
    · -- another length: the frame ends before it is filled, or goes on behind it
      have hfar : bytesTo payload.length ⟨if len ≠ 0 then 5 else 6, 0x7E, len, 0, sum⟩ =
          payload.length + 6 := by
        split <;> simp [bytesTo, hlen]
      have : payload.length + 6 ≤ payload.length + 1 + 1 := hfar ▸ hfew
      omega

/-- **Leading noise.** Bytes without a sync pair are ignored, and the frame
    behind them is delivered by its last byte, exactly when they do not end
    in a lone sync byte (and the length fits the wire). -/
theorem deliveredLast_noise {cap : U32} {w : List U8} (hw : NoSyncPair w) (type : U8)
    {payload : List U8} (hne : 1 ≤ payload.length) (hcap : payload.length ≤ cap.toNat)
    (dst : Mem) :
    deliveredLast cap ⟨.reset, dst⟩ (w ++ uartSendFrame type payload) =
        some (type.setWidth 32, payload) ↔
      w.getLast? ≠ some 0x7E ∧ payload.length ≤ 65535 := by
  have hframe : uartSendFrame type payload ≠ [] := List.cons_ne_nil _ _
  have hzero : NoSyncPair (0 :: w) := by
    exact List.isChain_cons.mpr ⟨fun b _ h => absurd h.1 (by decide), hw⟩
  have hlast : w.getLastD 0 = 0x7E ↔ w.getLast? = some 0x7E := by
    rw [List.getLastD_eq_getLast?]
    cases w.getLast? <;> simp
  have hnoise := feed_noise cap w 0 hzero .reset rfl dst
  have hinv : LenInv .reset := ⟨by decide, by decide⟩
  constructor
  · intro h
    refine ⟨fun hend => ?_, delivered_le hinv h⟩
    -- the receiver takes the lone sync byte for the first of the frame
    rw [deliveredLast_append _ _ _ hframe, hnoise] at h
    exact misaligned_lost (if_pos (hlast.mpr hend)) dst type hne h
  · rintro ⟨hend, h16⟩
    rw [deliveredLast_append _ _ _ hframe, hnoise]
    have hphase : { UartFrameRx.reset with
        phase := if w.getLastD 0 = 0x7E then 1 else 0 }.phase = 0 := if_neg (mt hlast.mp hend)
    obtain ⟨-, htrace⟩ := feed_frame hphase dst type payload h16 hcap
    have hdel := congrArg List.getLast? htrace
    rw [frameTrace, if_neg (List.length_pos_iff.mp hne), List.getLast?_append,
      List.getLast?_singleton, List.getLast?_map] at hdel
    obtain ⟨r, hr, hr'⟩ := Option.map_eq_some_iff.mp hdel
    rw [deliveredLast, hr]
    exact hr'

/-- Noise that ends in another byte. -/
theorem deliveredLast_noise_quiet :
    deliveredLast 8 ⟨.reset, fun _ => 0⟩ ([0x01, 0x7E, 0x02] ++ uartSendFrame 1 [0x42]) =
      some (1, [0x42]) :=
  (deliveredLast_noise (by unfold NoSyncPair; decide) 1 (by decide) (by decide) _).mpr
    ⟨by decide, by decide⟩

/-- A lone sync byte in front of a frame loses it. -/
theorem deliveredLast_loneSync :
    NoSyncPair [0x7E] ∧
      deliveredLast 8 ⟨.reset, fun _ => 0⟩ ([0x7E] ++ uartSendFrame 1 [0x42]) ≠
        some (1, [0x42]) :=
  ⟨List.isChain_singleton _, by decide⟩

end Interclus

import Interclus.Console.Stream

/-! # What the Frame Machine Accepts

    The machine against the stream it was fed.  `Heard` says, phase by
    phase, what the last bytes of the stream were; it holds from the reset
    state on.  From it follow that a frame is delivered only where its
    encoding was on the wire, that the buffer is written below the
    announced length only, and that the sync hunt is never far away. -/

namespace Interclus

open Words Mealy

/-! ## The receiver and the stream behind it -/

section Hearing
variable (cap : U32)

/-- What the phase says about the stream: past the header, `len` is the
    announced length and the buffer holds the payload up to the cursor. -/
inductive Heard : List U8 → FrameRx → Prop where
  | hunt (w : List U8) (type len idx sum : U32) (dst : Mem) :
      Heard w ⟨⟨0, type, len, idx, sum⟩, dst⟩
  | sync (w : List U8) (type len idx sum : U32) (dst : Mem) :
      Heard (w ++ [0x7E]) ⟨⟨1, type, len, idx, sum⟩, dst⟩
  | paired (w : List U8) (type len idx sum : U32) (dst : Mem) :
      Heard (w ++ [0x7E, 0x7E]) ⟨⟨2, type, len, idx, sum⟩, dst⟩
  | typed (w : List U8) (type : U8) (len idx : U32) (dst : Mem) :
      Heard (w ++ [0x7E, 0x7E, type])
        ⟨⟨3, type.setWidth 32, len, idx, type.setWidth 32⟩, dst⟩
  | low (w : List U8) (type lo : U8) (idx : U32) (dst : Mem) :
      Heard (w ++ [0x7E, 0x7E, type, lo])
        ⟨⟨4, type.setWidth 32, lo.setWidth 32, idx, type.setWidth 32 + lo.setWidth 32⟩, dst⟩
  | body (w : List U8) (type lo hi : U8) (len idx : U32) (dst : Mem) :
      len = lo.setWidth 32 ||| hi.setWidth 32 <<< 8 → len ≤ cap → idx < len →
      Heard (w ++ [0x7E, 0x7E, type, lo, hi] ++ bytesAt dst 0 idx.toNat)
        ⟨⟨5, type.setWidth 32, len, idx, payloadSum
          (type.setWidth 32 + lo.setWidth 32 + hi.setWidth 32) (bytesAt dst 0 idx.toNat)⟩, dst⟩
  | closing (w : List U8) (type lo hi : U8) (len idx : U32) (dst : Mem) :
      len = lo.setWidth 32 ||| hi.setWidth 32 <<< 8 → len ≤ cap →
      Heard (w ++ [0x7E, 0x7E, type, lo, hi] ++ bytesAt dst 0 len.toNat)
        ⟨⟨6, type.setWidth 32, len, idx, payloadSum
          (type.setWidth 32 + lo.setWidth 32 + hi.setWidth 32) (bytesAt dst 0 len.toNat)⟩, dst⟩

end Hearing

/-- One payload byte more behind the cursor. -/
theorem bytesAt_store (dst : Mem) (n : Nat) (b : U8) :
    bytesAt (fun i => if i = n then b else dst i) 0 (n + 1) = bytesAt dst 0 n ++ [b] := by
  rw [bytesAt_add]
  have hkeep : bytesAt (fun i => if i = n then b else dst i) 0 n = bytesAt dst 0 n :=
    bytesAt_congr fun i hi => if_neg (by omega)
  rw [hkeep]
  simp [bytesAt]

theorem payloadSum_concat (sum : U32) (payload : List U8) (b : U8) :
    payloadSum sum (payload ++ [b]) = payloadSum sum payload + b.setWidth 32 := by
  simp [payloadSum]

/-- A byte more was heard, and the state says what of it. -/
theorem Heard.step {cap : U32} {w : List U8} {s : FrameRx} (h : Heard cap w s) (b : U8) :
    Heard cap (w ++ [b]) (FrameRx.feed cap s b).1 := by
  cases h with
  | hunt w type len idx sum dst =>
    show Heard cap (w ++ [b]) ⟨⟨if b = 0x7E then 1 else 0, type, len, idx, sum⟩, dst⟩
    split
    · next hb =>
      subst hb
      exact .sync w type len idx sum dst
    · exact .hunt _ type len idx sum dst
  | sync w type len idx sum dst =>
    show Heard cap (w ++ [0x7E] ++ [b]) ⟨⟨if b = 0x7E then 2 else 0, type, len, idx, sum⟩, dst⟩
    split
    · next hb =>
      subst hb
      rw [List.append_assoc]
      exact .paired w type len idx sum dst
    · exact .hunt _ type len idx sum dst
  | paired w type len idx sum dst =>
    rw [List.append_assoc]
    exact .typed w b len idx dst
  | typed w type len idx dst =>
    rw [List.append_assoc]
    exact .low w type b idx dst
  | low w type lo idx dst =>
    unfold FrameRx.feed
    rw [uartFrameStep_high, List.append_assoc]
    dsimp only
    split
    · exact .hunt _ _ _ _ _ _
    · next hcap =>
      have hle := BitVec.not_lt.mp hcap
      generalize hlen : lo.setWidth 32 ||| b.setWidth 32 <<< 8 = len at hle
      have hstart : w ++ ([0x7E, 0x7E, type, lo] ++ [b]) =
          w ++ [0x7E, 0x7E, type, lo, b] ++ bytesAt dst 0 (0 : U32).toNat := by simp [bytesAt]
      rw [hstart]
      by_cases h0 : len = 0
      · -- nothing to come but the checksum
        subst h0
        exact .closing w type lo b 0 0 dst hlen.symm hle
      · rw [if_pos h0]
        exact .body w type lo b len 0 dst hlen.symm hle (by bv_omega)
  | body w type lo hi len idx dst hlen hle hidx =>
    let dst' : Mem := fun i => if i = idx.toNat then b else dst i
    let sum := payloadSum (type.setWidth 32 + lo.setWidth 32 + hi.setWidth 32)
      (bytesAt dst 0 idx.toNat)
    show Heard cap (w ++ [0x7E, 0x7E, type, lo, hi] ++ bytesAt dst 0 idx.toNat ++ [b])
      ⟨⟨if idx + 1 = len then 6 else 5, type.setWidth 32, len, idx + 1, sum + b.setWidth 32⟩, dst'⟩
    have hnext : (idx + 1).toNat = idx.toNat + 1 := by bv_omega
    have hbytes : bytesAt dst' 0 (idx + 1).toNat = bytesAt dst 0 idx.toNat ++ [b] := by
      rw [hnext]
      exact bytesAt_store dst idx.toNat b
    rw [List.append_assoc, ← hbytes, show sum + b.setWidth 32 = payloadSum
      (type.setWidth 32 + lo.setWidth 32 + hi.setWidth 32) (bytesAt dst' 0 (idx + 1).toNat) by
        rw [hbytes, payloadSum_concat]]
    -- the last byte of the payload turns to the checksum
    by_cases hlast : idx + 1 = len
    · rw [if_pos hlast, hlast]
      exact .closing w type lo hi len len dst' hlen hle
    · rw [if_neg hlast]
      exact .body w type lo hi len (idx + 1) dst' hlen hle (by bv_omega)
  | closing w type lo hi len idx dst _ _ => exact .hunt _ _ _ _ _ _

/-- Run lemma: from the reset state on. -/
theorem Heard.run {cap : U32} {w : List U8} {s : FrameRx} (h : Heard cap w s) (bytes : List U8) :
    Heard cap (w ++ bytes) (final (FrameRx.feed cap) s bytes) := by
  induction bytes generalizing w s with
  | nil => rwa [List.append_nil]
  | cons b bytes ih =>
    rw [final_cons, List.append_cons]
    exact ih (h.step b)

theorem heard_reset (cap : U32) (dst : Mem) (bytes : List U8) :
    Heard cap bytes (final (FrameRx.feed cap) ⟨.reset, dst⟩ bytes) :=
  (Heard.hunt [] 0 0 0 0 dst).run bytes

/-! ## Soundness -/

/-- Only one checksum byte closes the sum. -/
theorem checksum_unique {sum : U32} {c : U8} (h : (sum + c.setWidth 32) &&& 0xFF = 0) :
    c = ((-sum) &&& (0xFF : U32)).setWidth 8 := by
  -- both say that sum and byte add up to zero modulo 256
  have hneg := toNat_and_ff (-sum)
  have hsum := toNat_and_ff (sum + c.setWidth 32)
  bv_omega

/-- The two length bytes put together. -/
theorem len_toNat (lo hi : U8) :
    (lo.setWidth 32 ||| hi.setWidth 32 <<< 8 : U32).toNat = 256 * hi.toNat + lo.toNat := by
  have hlo := lo.isLt
  have hhi := hi.isLt
  have hlow : (lo.setWidth 32 : U32).toNat = lo.toNat := by bv_omega
  have hhigh : (hi.setWidth 32 <<< 8 : U32).toNat = hi.toNat <<< 8 := by
    rw [BitVec.toNat_shiftLeft, BitVec.toNat_setWidth, Nat.shiftLeft_eq, Nat.shiftLeft_eq]
    omega
  rw [BitVec.toNat_or, hlow, hhigh, Nat.or_comm, ← Nat.shiftLeft_add_eq_or_of_lt hlo,
    Nat.shiftLeft_eq]
  omega

/-- And taken apart again. -/
theorem len_split (lo hi : U8) :
    let len : U32 := lo.setWidth 32 ||| hi.setWidth 32 <<< 8
    len &&& 0xFF = lo.setWidth 32 ∧ len >>> 8 = hi.setWidth 32 := by
  intro len
  have hlen : len.toNat = 256 * hi.toNat + lo.toNat := len_toNat lo hi
  have hand := toNat_and_ff len
  have hlo := lo.isLt
  constructor
  · apply BitVec.eq_of_toNat_eq
    rw [hand, hlen]
    bv_omega
  · apply BitVec.eq_of_toNat_eq
    rw [BitVec.toNat_ushiftRight, hlen, Nat.shiftRight_eq_div_pow]
    bv_omega

/-- The encoding of what the receiver has heard. -/
theorem uartSendFrame_heard (type lo hi : U8) (payload : List U8)
    (hlen : payload.length = (lo.setWidth 32 ||| hi.setWidth 32 <<< 8 : U32).toNat) :
    uartSendFrame type payload = [0x7E, 0x7E, type, lo, hi] ++ payload ++
      [((-payloadSum (type.setWidth 32 + lo.setWidth 32 + hi.setWidth 32) payload) &&&
        (0xFF : U32)).setWidth 8] := by
  have hofNat : BitVec.ofNat 32 payload.length = lo.setWidth 32 ||| hi.setWidth 32 <<< 8 := by
    rw [hlen, BitVec.ofNat_toNat, BitVec.setWidth_eq]
  obtain ⟨hlow, hhigh⟩ := len_split lo hi
  unfold uartSendFrame frameSum payloadSum
  dsimp only at hlow hhigh ⊢
  rw [hofNat, hlow, hhigh]
  simp

/-- A delivery, by the last byte of an encoding. -/
theorem Heard.delivers {cap : U32} {w : List U8} {s : FrameRx} (h : Heard cap w s) (b : U8) :
    let r := (FrameRx.feed cap s b).2
    r.ret ≠ 0 → r.ret ≤ cap ∧ ∃ type : U8, r.st.type = type.setWidth 32 ∧
      uartSendFrame type (bytesAt r.dst 0 r.ret.toNat) <:+ w ++ [b] := by
  intro r hret
  cases h with
  | closing w type lo hi len idx dst hlen hle =>
    have hlength : (bytesAt dst 0 len.toNat).length =
        (lo.setWidth 32 ||| hi.setWidth 32 <<< 8 : U32).toNat := by rw [length_bytesAt, hlen]
    let sum := payloadSum (type.setWidth 32 + lo.setWidth 32 + hi.setWidth 32)
      (bytesAt dst 0 len.toNat)
    have henc : uartSendFrame type (bytesAt dst 0 len.toNat) =
        [0x7E, 0x7E, type, lo, hi] ++ bytesAt dst 0 len.toNat ++
          [((-sum) &&& (0xFF : U32)).setWidth 8] := uartSendFrame_heard type lo hi _ hlength
    have hr : r = ⟨if (sum + b.setWidth 32) &&& 0xFF = 0 then len else 0,
        ⟨0, type.setWidth 32, len, idx, sum⟩, dst⟩ := rfl
    rw [hr] at hret ⊢
    by_cases hclose : (sum + b.setWidth 32) &&& 0xFF = 0
    · rw [if_pos hclose]
      refine ⟨hle, type, rfl, w, ?_⟩
      rw [henc, ← checksum_unique hclose]
      simp
    · exact absurd (if_neg hclose) hret
  | low w type lo idx dst =>
    have hzero : r.ret = 0 := by
      show (uartFrameStep _ _ _ _).ret = 0
      rw [uartFrameStep_high]
      split <;> rfl
    exact absurd hzero hret
  | hunt => exact absurd rfl hret
  | sync => exact absurd rfl hret
  | paired => exact absurd rfl hret
  | typed => exact absurd rfl hret
  | body => exact absurd rfl hret

/-- The encoding is six bytes longer than the payload. -/
theorem length_uartSendFrame (type : U8) (payload : List U8) :
    (uartSendFrame type payload).length = payload.length + 6 := by
  simp [uartSendFrame]

/-- **Soundness.** A step that returns `n` does so on the last byte of the
    encoding of the `n` bytes it delivers. -/
theorem uartFrameStep_accepts (cap : U32) (dst : Mem) (bytes : List U8) (b : U8) :
    let s := final (FrameRx.feed cap) ⟨.reset, dst⟩ bytes
    let r := (FrameRx.feed cap s b).2
    r.ret ≠ 0 →
      (1 ≤ r.ret.toNat ∧ r.ret.toNat ≤ cap.toNat) ∧
      ∃ type : U8, r.st.type = type.setWidth 32 ∧ r.ret.toNat + 6 ≤ (bytes ++ [b]).length ∧
        (bytes ++ [b]).drop ((bytes ++ [b]).length - (r.ret.toNat + 6)) =
          uartSendFrame type (bytesAt r.dst 0 r.ret.toNat) := by
  intro s r hret
  obtain ⟨hle, type, htype, hsuffix⟩ := (heard_reset cap dst bytes).delivers b hret
  have hlength : (uartSendFrame type (bytesAt r.dst 0 r.ret.toNat)).length = r.ret.toNat + 6 := by
    rw [length_uartSendFrame, length_bytesAt]
  refine ⟨⟨by bv_omega, hle⟩, type, htype, hlength ▸ hsuffix.length_le, ?_⟩
  rw [← hlength]
  exact (List.suffix_iff_eq_drop.mp hsuffix).symm

/-- A frame behind noise. -/
theorem uartFrameStep_accepts_framed :
    let s := final (FrameRx.feed 8) ⟨.reset, fun _ => 0⟩ [1, 0x7E, 0x7E, 2, 1, 0, 0x42]
    let r := (FrameRx.feed 8 s 0xBB).2
    r.ret = 1 ∧ ∃ type : U8, r.st.type = type.setWidth 32 ∧
      ([1, 0x7E, 0x7E, 2, 1, 0, 0x42] ++ [0xBB]).drop 1 =
        uartSendFrame type (bytesAt r.dst 0 1) := by
  obtain ⟨-, type, htype, -, hlast⟩ := uartFrameStep_accepts 8 (fun _ => 0)
    [1, 0x7E, 0x7E, 2, 1, 0, 0x42] 0xBB (by decide)
  exact ⟨by decide, type, htype, hlast⟩

/-! ## Bounds and resync -/

/-- Where `uart_frame_step` stores its byte, when it stores it. -/
def frameStore (st : UartFrameRx) : Option U32 := if st.phase = 5 then some st.idx else none

/-- The buffer behind a step is the buffer before it but for that store. -/
theorem uartFrameStep_dst (byte : U8) (dst : Mem) (cap : U32) (st : UartFrameRx) :
    (uartFrameStep byte dst cap st).dst =
      (frameStore st).elim dst fun idx i => if i = idx.toNat then byte else dst i := by
  unfold frameStore
  by_cases h5 : st.phase = 5
  · obtain ⟨phase, type, len, idx, sum⟩ := st
    obtain rfl : phase = 5 := h5
    rfl
  · rw [if_neg h5]
    unfold uartFrameStep
    dsimp only
    rw [if_neg h5]
    repeat' split
    all_goals rfl

/-- The store is below the announced length, which is within the buffer. -/
theorem Heard.store {cap : U32} {w : List U8} {s : FrameRx} (h : Heard cap w s) {idx : U32}
    (hstore : frameStore s.st = some idx) : idx < s.st.len ∧ s.st.len ≤ cap := by
  cases h with
  | body w type lo hi len idx' dst hlen hle hidx =>
    obtain rfl : idx' = idx := Option.some.inj hstore
    exact ⟨hidx, hle⟩
  | hunt => exact absurd hstore (by simp [frameStore])
  | sync => exact absurd hstore (by simp [frameStore])
  | paired => exact absurd hstore (by simp [frameStore])
  | typed => exact absurd hstore (by simp [frameStore])
  | low => exact absurd hstore (by simp [frameStore])
  | closing => exact absurd hstore (by simp [frameStore])

/-- The most steps that can pass before the machine hunts again. -/
def toHunt (cap : U32) (st : UartFrameRx) : Nat :=
  if st.phase = 0 then cap.toNat + 6
  else if st.phase = 1 then cap.toNat + 5
  else if st.phase = 2 then cap.toNat + 4
  else if st.phase = 3 then cap.toNat + 3
  else if st.phase = 4 then cap.toNat + 2
  else if st.phase = 5 then st.len.toNat - st.idx.toNat + 1
  else 1

/-- Step lemma: every step hunts or comes closer. -/
theorem Heard.toHunt_step {cap : U32} {w : List U8} {s : FrameRx} (h : Heard cap w s) (b : U8) :
    (FrameRx.feed cap s b).1.st.phase = 0 ∨
      toHunt cap (FrameRx.feed cap s b).1.st + 1 ≤ toHunt cap s.st := by
  cases h with
  | hunt w type len idx sum dst =>
    show (if b = 0x7E then (1 : U32) else 0) = 0 ∨
      toHunt cap ⟨if b = 0x7E then 1 else 0, type, len, idx, sum⟩ + 1 ≤ cap.toNat + 6
    split
    · exact .inr (Nat.le_refl _)
    · exact .inl rfl
  | sync w type len idx sum dst =>
    show (if b = 0x7E then (2 : U32) else 0) = 0 ∨
      toHunt cap ⟨if b = 0x7E then 2 else 0, type, len, idx, sum⟩ + 1 ≤ cap.toNat + 5
    split
    · exact .inr (Nat.le_refl _)
    · exact .inl rfl
  | paired => exact .inr (Nat.le_refl _)
  | typed => exact .inr (Nat.le_refl _)
  | low w type lo idx dst =>
    unfold FrameRx.feed
    rw [uartFrameStep_high]
    dsimp only
    split
    · exact .inl rfl
    · next hcap =>
      have hle := BitVec.not_lt.mp hcap
      refine .inr ?_
      generalize lo.setWidth 32 ||| b.setWidth 32 <<< 8 = len at hle
      show _ ≤ cap.toNat + 2
      by_cases h0 : len = 0
      · rw [if_neg (not_not.mpr h0)]
        show 1 + 1 ≤ _
        omega
      · rw [if_pos h0]
        show len.toNat - 0 + 1 + 1 ≤ _
        bv_omega
  | body w type lo hi len idx dst hlen hle hidx =>
    unfold FrameRx.feed
    rw [uartFrameStep_body]
    refine .inr ?_
    show toHunt cap ⟨if idx + 1 = len then 6 else 5, _, len, idx + 1, _⟩ + 1 ≤
      len.toNat - idx.toNat + 1
    split
    · show 1 + 1 ≤ _
      bv_omega
    · show len.toNat - (idx + 1).toNat + 1 + 1 ≤ _
      bv_omega
  | closing => exact .inl rfl

/-- Run lemma: the hunt is reached within that many steps. -/
theorem Heard.resyncs {cap : U32} {w : List U8} {s : FrameRx} (h : Heard cap w s)
    (bytes : List U8) (hlen : toHunt cap s.st ≤ bytes.length) (hpos : 0 < bytes.length) :
    ∃ k, 0 < k ∧ k ≤ bytes.length ∧
      (final (FrameRx.feed cap) s (bytes.take k)).st.phase = 0 := by
  induction bytes generalizing w s with
  | nil => exact absurd hpos (Nat.lt_irrefl 0)
  | cons b bytes ih =>
    rw [List.length_cons] at hlen
    -- this byte, or fewer than before
    rcases h.toHunt_step b with hhunt | hcloser
    · exact ⟨1, Nat.one_pos, by rw [List.length_cons]; omega, hhunt⟩
    · have hmore : 0 < toHunt cap (FrameRx.feed cap s b).1.st := by
        unfold toHunt
        repeat' split
        all_goals omega
      obtain ⟨k, hk, hle, hphase⟩ := ih (h.step b) (by omega) (by omega)
      refine ⟨k + 1, Nat.succ_pos k, by rw [List.length_cons]; omega, ?_⟩
      rw [List.take_succ_cons, final_cons]
      exact hphase

theorem toHunt_le {cap : U32} {w : List U8} {s : FrameRx} (h : Heard cap w s) :
    toHunt cap s.st ≤ cap.toNat + 6 := by
  cases h with
  | body w type lo hi len idx dst hlen hle hidx =>
    show len.toNat - idx.toNat + 1 ≤ _
    bv_omega
  | closing => exact Nat.le_add_left 1 _
  | _ => exact Nat.add_le_add_left (by decide) cap.toNat

/-- **Bounds and resync.** Whatever the stream, a store is below the
    announced length and below the cap, and every `cap + 6` steps leave the
    machine hunting at least once. -/
theorem uartFrameStep_bounded (cap : U32) (dst : Mem) (bytes : List U8) :
    let s := final (FrameRx.feed cap) ⟨.reset, dst⟩ bytes
    (∀ b, (FrameRx.feed cap s b).1.dst =
      (frameStore s.st).elim s.dst fun idx i => if i = idx.toNat then b else s.dst i) ∧
    (∀ idx, frameStore s.st = some idx → idx < s.st.len ∧ idx < cap) ∧
    ∀ window : List U8, window.length = cap.toNat + 6 →
      ∃ k, 0 < k ∧ k ≤ cap.toNat + 6 ∧
        (final (FrameRx.feed cap) s (window.take k)).st.phase = 0 := by
  intro s
  have h : Heard cap bytes s := heard_reset cap dst bytes
  refine ⟨fun b => uartFrameStep_dst b s.dst cap s.st, fun idx hstore => ?_, fun window hwin => ?_⟩
  · obtain ⟨hidx, hle⟩ := h.store hstore
    exact ⟨hidx, by bv_omega⟩
  · rw [← hwin]
    exact h.resyncs window (hwin ▸ toHunt_le h) (by omega)

end Interclus

import Interclus.Framework.System
import Interclus.Framework.Words

/-! # Console Frames

    `core/frame.c`, the byte-at-a-time frame machine, and `uart_send_frame`
    of `core/uart.c`, its inverse. -/

namespace Interclus

open Words

/-- `uart_frame_rx`, without the tick of the polling wrapper. -/
structure UartFrameRx where
  phase : U32
  type : U32
  len : U32
  idx : U32
  sum : U32
  deriving DecidableEq, Repr

/-- One call: its result, the receiver and the buffer behind it. -/
structure FrameStep where
  ret : U32
  st : UartFrameRx
  dst : Mem

/-- `uart_frame_step`. -/
def uartFrameStep (byte : U8) (dst : Mem) (cap : U32) (st : UartFrameRx) : FrameStep :=
  let b : U32 := byte.setWidth 32
  if st.phase = 0 then ⟨0, { st with phase := if byte = 0x7E then 1 else 0 }, dst⟩
  else if st.phase = 1 then ⟨0, { st with phase := if byte = 0x7E then 2 else 0 }, dst⟩
  else if st.phase = 2 then ⟨0, { st with type := b, sum := b, phase := 3 }, dst⟩
  else if st.phase = 3 then ⟨0, { st with sum := st.sum + b, len := b, phase := 4 }, dst⟩
  else if st.phase = 4 then
    let st := { st with sum := st.sum + b, len := st.len ||| b <<< 8 }
    if cap < st.len then ⟨0, { st with phase := 0 }, dst⟩
    else ⟨0, { st with idx := 0, phase := if st.len ≠ 0 then 5 else 6 }, dst⟩
  else if st.phase = 5 then
    let idx := st.idx + 1
    ⟨0, { st with idx := idx, sum := st.sum + b, phase := if idx = st.len then 6 else 5 },
      fun i => if i = st.idx.toNat then byte else dst i⟩
  else
    -- the checksum: pass or resync
    ⟨if (st.sum + b) &&& 0xFF = 0 then st.len else 0, { st with phase := 0 }, dst⟩

/-- The sync pair, the type and the first length byte. -/
theorem uartFrameStep_sync (byte : U8) (dst : Mem) (cap type len idx sum : U32) :
    uartFrameStep byte dst cap ⟨0, type, len, idx, sum⟩ =
      ⟨0, ⟨if byte = 0x7E then 1 else 0, type, len, idx, sum⟩, dst⟩ := rfl

theorem uartFrameStep_pair (byte : U8) (dst : Mem) (cap type len idx sum : U32) :
    uartFrameStep byte dst cap ⟨1, type, len, idx, sum⟩ =
      ⟨0, ⟨if byte = 0x7E then 2 else 0, type, len, idx, sum⟩, dst⟩ := rfl

theorem uartFrameStep_type (byte : U8) (dst : Mem) (cap type len idx sum : U32) :
    uartFrameStep byte dst cap ⟨2, type, len, idx, sum⟩ =
      ⟨0, ⟨3, byte.setWidth 32, len, idx, byte.setWidth 32⟩, dst⟩ := rfl

theorem uartFrameStep_low (byte : U8) (dst : Mem) (cap type len idx sum : U32) :
    uartFrameStep byte dst cap ⟨3, type, len, idx, sum⟩ =
      ⟨0, ⟨4, type, byte.setWidth 32, idx, sum + byte.setWidth 32⟩, dst⟩ := rfl

/-- The second length byte: an over-long frame is dropped. -/
theorem uartFrameStep_high (byte : U8) (dst : Mem) (cap type len idx sum : U32) :
    uartFrameStep byte dst cap ⟨4, type, len, idx, sum⟩ =
      if cap < len ||| byte.setWidth 32 <<< 8 then
        ⟨0, ⟨0, type, len ||| byte.setWidth 32 <<< 8, idx, sum + byte.setWidth 32⟩, dst⟩
      else
        ⟨0, ⟨if len ||| byte.setWidth 32 <<< 8 ≠ 0 then 5 else 6, type,
          len ||| byte.setWidth 32 <<< 8, 0, sum + byte.setWidth 32⟩, dst⟩ := rfl

/-- A payload byte. -/
theorem uartFrameStep_body (byte : U8) (dst : Mem) (cap type len idx sum : U32) :
    uartFrameStep byte dst cap ⟨5, type, len, idx, sum⟩ =
      ⟨0, ⟨if idx + 1 = len then 6 else 5, type, len, idx + 1, sum + byte.setWidth 32⟩,
        fun i => if i = idx.toNat then byte else dst i⟩ := rfl

/-- Only the checksum byte delivers: what it returns is the announced
    length, and the machine hunts again. -/
theorem uartFrameStep_delivers {byte : U8} {dst : Mem} {cap : U32} {st : UartFrameRx}
    (h : (uartFrameStep byte dst cap st).ret ≠ 0) :
    uartFrameStep byte dst cap st = ⟨st.len, { st with phase := 0 }, dst⟩ := by
  unfold uartFrameStep at h ⊢
  dsimp only at h ⊢
  by_cases h0 : st.phase = 0
  · rw [if_pos h0] at h
    exact absurd rfl h
  rw [if_neg h0] at h ⊢
  by_cases h1 : st.phase = 1
  · rw [if_pos h1] at h
    exact absurd rfl h
  rw [if_neg h1] at h ⊢
  by_cases h2 : st.phase = 2
  · rw [if_pos h2] at h
    exact absurd rfl h
  rw [if_neg h2] at h ⊢
  by_cases h3 : st.phase = 3
  · rw [if_pos h3] at h
    exact absurd rfl h
  rw [if_neg h3] at h ⊢
  by_cases h4 : st.phase = 4
  · rw [if_pos h4] at h
    split at h <;> exact absurd rfl h
  rw [if_neg h4] at h ⊢
  by_cases h5 : st.phase = 5
  · rw [if_pos h5] at h
    exact absurd rfl h
  rw [if_neg h5] at h ⊢
  -- the sum closes, or nothing is returned
  split at h
  · next hclose => rw [if_pos hclose]
  · exact absurd rfl h

/-- The running sum of `uart_send_frame` behind its loop. -/
def frameSum (type : U8) (payload : List U8) : U32 :=
  let len : U32 := BitVec.ofNat 32 payload.length
  payload.foldl (fun sum b => sum + b.setWidth 32)
    (type.setWidth 32 + (len &&& (0xFF : U32)) + (len >>> 8))

/-- The bytes `uart_send_frame` puts on the wire. -/
def uartSendFrame (type : U8) (payload : List U8) : List U8 :=
  let len : U32 := BitVec.ofNat 32 payload.length
  [0x7E, 0x7E, type, (len &&& 0xFF).setWidth 8, (len >>> 8).setWidth 8] ++ payload ++
    [((-frameSum type payload) &&& 0xFF).setWidth 8]

/-! ## Feeding bytes -/

/-- A receiver and its buffer. -/
structure FrameRx where
  st : UartFrameRx
  dst : Mem

/-- Feed one byte, into a buffer of `cap` bytes. -/
def FrameRx.feed (cap : U32) (s : FrameRx) (byte : U8) : FrameRx × FrameStep :=
  let r := uartFrameStep byte s.dst cap s.st
  (⟨r.st, r.dst⟩, r)

/-- What a call delivers: the type and the payload of a frame. -/
def FrameStep.delivered (r : FrameStep) : Option (U32 × List U8) :=
  if r.ret = 0 then none else some (r.st.type, bytesAt r.dst 0 r.ret.toNat)

/-- `{ 0, 0, 0, 0, 0 }`. -/
def UartFrameRx.reset : UartFrameRx := ⟨0, 0, 0, 0, 0⟩

end Interclus

import Interclus.Console.Stream

/-! # A Corrupted Byte

    One byte of a frame replaced, anywhere but in the sync pair and the
    length: the checksum no longer closes the sum, whatever the byte.  The
    frame is dropped on its last byte, and the next one is read as if it
    had been the first. -/

namespace Interclus

open Words Mealy

/-! ## Sums of bytes -/

/-- The sum of bytes, as a byte. -/
def byteSum (bs : List U8) : U8 := bs.foldr (fun b sum => b + sum) 0

/-- A replaced byte moves the sum by the difference. -/
theorem byteSum_set {bs : List U8} {i : Nat} {old : U8} (h : bs[i]? = some old) (b : U8) :
    byteSum (bs.set i b) + old = byteSum bs + b := by
  induction bs generalizing i with
  | nil => simp at h
  | cons c bs ih =>
    cases i with
    | zero =>
      obtain rfl : c = old := by simpa using h
      show b + byteSum bs + c = c + byteSum bs + b
      bv_omega
    | succ i =>
      have hrest := ih (i := i) (by simpa using h)
      show c + byteSum (bs.set i b) + old = c + byteSum bs + b
      rw [BitVec.add_assoc, hrest, BitVec.add_assoc]

/-- The low byte of a running sum. -/
theorem payloadSum_byte (sum : U32) (payload : List U8) :
    (payloadSum sum payload).setWidth 8 = sum.setWidth 8 + byteSum payload := by
  induction payload generalizing sum with
  | nil => exact (BitVec.add_zero _).symm
  | cons b payload ih =>
    show (payloadSum (sum + b.setWidth 32) payload).setWidth 8 =
      sum.setWidth 8 + (b + byteSum payload)
    have hb : (b.setWidth 32).setWidth 8 = b := by bv_omega
    rw [ih, BitVec.setWidth_add _ _ (by decide), hb, BitVec.add_assoc]

/-! ## Closing the sum -/

/-- The checksum byte closes the sum of this frame. -/
def Closes (type : U8) (payload : List U8) (c : U8) : Prop :=
  (frameSum type payload + c.setWidth 32) &&& 0xFF = 0

/-- What the length adds to the sum. -/
def lenSum (len : U32) : U8 := ((len &&& 0xFF) + (len >>> 8)).setWidth 8

/-- It does when the bytes it covers add up to zero. -/
theorem closes_iff (type : U8) (payload : List U8) (c : U8) :
    Closes type payload c ↔
      type + lenSum (BitVec.ofNat 32 payload.length) + byteSum payload + c = 0 := by
  generalize hlen : BitVec.ofNat 32 payload.length = len
  have hlow (x : U32) : x &&& 0xFF = 0 ↔ x.setWidth 8 = 0 := by
    have hand := toNat_and_ff x
    constructor
    · intro h
      bv_omega
    · intro h
      bv_omega
  have hsum : frameSum type payload =
      payloadSum (type.setWidth 32 + ((len &&& 0xFF) + (len >>> 8))) payload := by
    rw [← BitVec.add_assoc, ← hlen]
    rfl
  have hbyte (b : U8) : (b.setWidth 32).setWidth 8 = b := by bv_omega
  unfold Closes
  rw [hlow, hsum, BitVec.setWidth_add _ _ (by decide), payloadSum_byte,
    BitVec.setWidth_add _ _ (by decide), hbyte, hbyte, lenSum]

theorem closedBy_body (type : U8) (payload : List U8) (c : U8) :
    closedBy type payload c = frameHeader type (BitVec.ofNat 32 payload.length) ++
      (payload ++ [c]) := List.append_assoc _ _ _

/-- The positions of the type, the payload and the checksum in a frame of
    `n` payload bytes. -/
def Covered (n i : Nat) : Prop := i = 2 ∨ 5 ≤ i ∧ i < n + 6

/-- A frame with one of these replaced is the frame of another type or
    payload, or with another last byte, whose sum the last byte does not
    close. -/
theorem set_covered {type : U8} {payload : List U8} {i : Nat} (hi : Covered payload.length i)
    {b : U8} (hb : (uartSendFrame type payload)[i]? ≠ some b) :
    ∃ type' payload' c, (uartSendFrame type payload).set i b = closedBy type' payload' c ∧
      payload'.length = payload.length ∧ ¬ Closes type' payload' c := by
  have hclosed : Closes type payload (frameChecksum type payload) := checksum_closes _
  rw [uartSendFrame_closedBy] at hb ⊢
  generalize frameChecksum type payload = c at hclosed hb
  rw [closes_iff] at hclosed
  by_cases h2 : i = 2
  · -- the type
    subst h2
    refine ⟨b, payload, c, rfl, rfl, fun h => ?_⟩
    rw [closes_iff] at h
    have hne : type ≠ b := fun h => hb (congrArg some h)
    bv_omega
  · have hi5 : 5 ≤ i ∧ i < payload.length + 6 := hi.resolve_left h2
    obtain ⟨j, rfl⟩ := Nat.exists_eq_add_of_le' hi5.1
    have hheader : (frameHeader type (BitVec.ofNat 32 payload.length)).length = 5 := rfl
    rw [closedBy_body, List.getElem?_append_right (Nat.le_add_left 5 j), hheader,
      Nat.add_sub_cancel] at hb
    rw [closedBy_body, List.set_append_right _ _ (Nat.le_add_left 5 j), hheader,
      Nat.add_sub_cancel]
    by_cases hj : j < payload.length
    · -- a payload byte
      obtain ⟨old, hold⟩ : ∃ old, payload[j]? = some old := ⟨_, List.getElem?_eq_getElem hj⟩
      have hlen : (payload.set j b).length = payload.length := List.length_set
      refine ⟨type, payload.set j b, c, ?_, hlen, fun h => ?_⟩
      · rw [closedBy_body, hlen, List.set_append_left j b hj]
      · rw [closes_iff, hlen] at h
        rw [List.getElem?_append_left hj, hold] at hb
        have hsum := byteSum_set hold b
        have hne : old ≠ b := fun h => hb (congrArg some h)
        bv_omega
    · -- the checksum
      obtain rfl : j = payload.length := by omega
      refine ⟨type, payload, b, ?_, rfl, fun h => ?_⟩
      · rw [closedBy_body, List.set_append_right _ _ (Nat.le_refl _), Nat.sub_self]
        rfl
      · rw [closes_iff] at h
        rw [List.getElem?_append_right (Nat.le_refl _), Nat.sub_self] at hb
        have hne : c ≠ b := fun h => hb (congrArg some h)
        bv_omega

/-! ## The frame behind it -/

/-- **One corrupted byte.**  A frame of at most 65535 payload bytes with one
    byte of its type, payload or checksum replaced, and a frame behind it:
    the second is delivered and nothing else. -/
theorem corruptedByte_dropped {cap : U32} {st : UartFrameRx} (hst : st.phase = 0) (dst : Mem)
    (type : U8) {payload : List U8} (hcap : payload.length ≤ cap.toNat)
    (h16 : payload.length ≤ 65535) {i : Nat} (hi : Covered payload.length i) {b : U8}
    (hb : (uartSendFrame type payload)[i]? ≠ some b)
    (type' : U8) {payload' : List U8} (hpos' : 1 ≤ payload'.length)
    (hcap' : payload'.length ≤ cap.toNat) (h16' : payload'.length ≤ 65535) :
    let bytes := (uartSendFrame type payload).set i b ++ uartSendFrame type' payload'
    (outputs (FrameRx.feed cap) ⟨st, dst⟩ bytes).filterMap FrameStep.delivered =
        [(type'.setWidth 32, payload')] ∧
      (final (FrameRx.feed cap) ⟨st, dst⟩ bytes).st.phase = 0 := by
  intro bytes
  obtain ⟨type₁, payload₁, c, hset, hlen, hopen⟩ := set_covered hi hb
  have hbytes : bytes = closedBy type₁ payload₁ c ++ uartSendFrame type' payload' :=
    congrArg (· ++ _) hset
  -- the corrupted frame leaves nothing behind but the phase
  have h16₁ : payload₁.length ≤ 65535 := hlen ▸ h16
  have hcap₁ : payload₁.length ≤ cap.toNat := hlen ▸ hcap
  obtain ⟨hphase, htrace⟩ := feed_closedBy hst dst type₁ payload₁ c h16₁ hcap₁
  rw [if_neg (fun h => hopen h.2)] at htrace
  obtain ⟨s₁, hs₁⟩ :
      ∃ s₁, final (FrameRx.feed cap) ⟨st, dst⟩ (closedBy type₁ payload₁ c) = s₁ := ⟨_, rfl⟩
  rw [hs₁] at hphase
  obtain ⟨hphase', htrace'⟩ := feed_frame hphase s₁.dst type' payload' h16' hcap'
  rw [frameTrace, if_neg (List.length_pos_iff.mp hpos')] at htrace'
  have hfilter (rs : List FrameStep) :
      rs.filterMap FrameStep.delivered = (rs.map FrameStep.delivered).filterMap id := by
    rw [List.filterMap_map]
    rfl
  rw [hbytes, outputs_append, final_append, hs₁]
  refine ⟨?_, hphase'⟩
  rw [hfilter, List.map_append, htrace, htrace']
  simp

/-- A checksum replaced by a sync byte, and a sync pair in the payload
    behind it. -/
theorem corruptedByte_dropped_checksum :
    Covered 1 6 ∧ (uartSendFrame 1 [0x42])[6]? ≠ some 0x7E ∧
      (outputs (FrameRx.feed 8) ⟨.reset, fun _ => 0⟩
        ((uartSendFrame 1 [0x42]).set 6 0x7E ++ uartSendFrame 2 [0x7E, 0x7E])).filterMap
          FrameStep.delivered = [(2, [0x7E, 0x7E])] :=
  have hcovered : Covered ([0x42] : List U8).length 6 := .inr (by decide)
  have hbyte : (uartSendFrame 1 [0x42])[6]? ≠ some 0x7E := by decide
  ⟨hcovered, hbyte, (corruptedByte_dropped rfl (fun _ => 0) 1 (by decide) (by decide) hcovered
    hbyte 2 (by decide) (by decide) (by decide)).1⟩

/-- A payload whose length does not fit the header: 65536 bytes, with a
    frame among them. -/
def longPayload : List U8 := 0 :: (uartSendFrame 3 [7] ++ List.replicate 65528 0)

/-- The header says that it is empty; what follows is read as noise and
    frames. -/
theorem corruptedByte_longPayload :
    1 ≤ longPayload.length ∧ longPayload.length ≤ (65536 : U32).toNat ∧
      Covered longPayload.length 2 ∧ (uartSendFrame 1 longPayload)[2]? ≠ some 2 ∧
      (outputs (FrameRx.feed 65536) ⟨.reset, fun _ => 0⟩
        ((uartSendFrame 1 longPayload).set 2 2 ++ uartSendFrame 2 [9])).filterMap
          FrameStep.delivered ≠ [(2, [9])] := by
  have hlen : longPayload.length = 65536 := by
    have hframe : (uartSendFrame 3 [7]).length = 7 := rfl
    unfold longPayload
    rw [List.length_cons, List.length_append, List.length_replicate, hframe]
  refine ⟨by omega, hlen.le, .inl rfl, ?_, ?_⟩
  · rw [uartSendFrame_closedBy, closedBy_body, hlen]
    exact (by decide : some (1 : U8) ≠ some 2)
  -- up to the frame in the payload the bytes are fixed
  have hbytes : (uartSendFrame 1 longPayload).set 2 2 ++ uartSendFrame 2 [9] =
      ([0x7E, 0x7E, 2, 0, 0, 0] ++ uartSendFrame 3 [7]) ++
        (List.replicate 65528 0 ++ [frameChecksum 1 longPayload] ++ uartSendFrame 2 [9]) := by
    rw [uartSendFrame_closedBy, closedBy_body, hlen]
    generalize frameChecksum 1 longPayload = c
    unfold longPayload
    generalize List.replicate 65528 (0 : U8) = zeros
    simp [frameHeader]
  have hfirst : (outputs (FrameRx.feed 65536) ⟨.reset, fun _ => 0⟩
      ([0x7E, 0x7E, 2, 0, 0, 0] ++ uartSendFrame 3 [7])).filterMap FrameStep.delivered =
        [(3, [7])] := by decide
  rw [hbytes, outputs_append, List.filterMap_append, hfirst, List.singleton_append]
  intro h
  have hframe : ((3, [7]) : U32 × List U8) = (2, [9]) := (List.cons.inj h).1
  exact absurd hframe (by decide)

end Interclus

import Interclus.Console.Acceptance
import Interclus.Supervisor.LivePrograms

/-! # The Boot Frame

    From the wire to the live program: `uart_recv` hunts for a program frame
    in the boot window, `uart_load` stages it behind the image and copies it
    over the area, and `load_program` decodes what the area then holds.

    Nothing on this path compares the length of the frame with the count in
    its header.  What is live afterwards is the program of the frame exactly
    when the frame is long enough for the count the area ends up with, or
    the area does not load. -/

namespace Interclus

open Words Mealy

/-! ## The boot window -/

/-- `uart_recv`; `wire` is what comes in before the window closes. -/
def uartRecv (cap : U32) (s : FrameRx) : List U8 → U32 × Mem
  | [] => (0, s.dst)
  | c :: wire =>
    let r := uartFrameStep c s.dst cap s.st
    -- the boot path takes program frames only
    if r.ret ≠ 0 ∧ r.st.type = 1 then (r.st.len, r.dst)
    else uartRecv cap ⟨r.st, r.dst⟩ wire

/-- The call of `uart_load`: the stage is the program area from 0x400 on. -/
def bootRecv (wire : List U8) (area : Mem) : U32 × Mem :=
  uartRecv (BitVec.ofNat 32 UART_FRAME_MAX) ⟨.reset, fun i => area (0x400 + i)⟩ wire

/-- `uart_load` on the bytes of the wire. -/
def uartLoadStaged (wire : List U8) (s : Sup) : Sup :=
  let (n, stage) := bootRecv wire s.progArea
  let area : Mem := fun i => if i < 0x400 then s.progArea i else stage (i - 0x400)
  { s with progArea := memcpy area (fun i => area (0x400 + i)) n.toNat }

/-- The payload a call of `uart_recv` returns. -/
def recvFrame (r : U32 × Mem) : Option (List U8) :=
  if r.1 = 0 then none else some (bytesAt r.2 0 r.1.toNat)

/-- The frame of the boot window. -/
def bootFrame (wire : List U8) (area : Mem) : Option (List U8) := recvFrame (bootRecv wire area)

/-! ## What the window lets in -/

/-- A delivery returns the length in the parser. -/
theorem uartFrameStep_ret (c : U8) (dst : Mem) (cap : U32) (st : UartFrameRx)
    (h : (uartFrameStep c dst cap st).ret ≠ 0) :
    (uartFrameStep c dst cap st).ret = (uartFrameStep c dst cap st).st.len := by
  rw [uartFrameStep_delivers h]

theorem feed_eq (cap : U32) (s : FrameRx) (c : U8) :
    FrameRx.feed cap s c = (⟨(uartFrameStep c s.dst cap s.st).st,
      (uartFrameStep c s.dst cap s.st).dst⟩, uartFrameStep c s.dst cap s.st) := rfl

/-- `uart_recv` returns the first program frame the machine delivers. -/
theorem uartRecv_delivered (cap : U32) (s : FrameRx) (wire : List U8) :
    recvFrame (uartRecv cap s wire) =
      (((outputs (FrameRx.feed cap) s wire).filterMap FrameStep.delivered).find?
        fun f => f.1 = 1).map Prod.snd := by
  induction wire generalizing s with
  | nil => rfl
  | cons c wire ih =>
    rw [outputs_cons]
    unfold uartRecv
    dsimp only
    have hret := uartFrameStep_ret c s.dst cap s.st
    rw [feed_eq]
    dsimp only
    generalize uartFrameStep c s.dst cap s.st = r at hret
    by_cases hzero : r.ret = 0
    · -- nothing lands with this byte
      have hnone : r.delivered = none := if_pos hzero
      rw [List.filterMap_cons_none hnone, if_neg fun h => h.1 hzero, ih]
    · have hsome : r.delivered = some (r.st.type, bytesAt r.dst 0 r.ret.toNat) := if_neg hzero
      rw [List.filterMap_cons_some hsome, List.find?_cons]
      by_cases htype : r.st.type = 1
      · rw [if_pos ⟨hzero, htype⟩, ← hret hzero]
        simp only [htype, decide_true, Option.map_some]
        exact if_neg hzero
      · -- channel traffic is skipped
        rw [if_neg fun h => htype h.2, ih]
        simp only [htype, decide_false]

/-- What comes in is on the wire, within the cap. -/
theorem Heard.recv {cap : U32} {w : List U8} {s : FrameRx} (h : Heard cap w s) (wire : List U8) :
    let r := uartRecv cap s wire
    r.1 ≠ 0 → r.1 ≤ cap ∧ uartSendFrame 1 (bytesAt r.2 0 r.1.toNat) <:+: w ++ wire := by
  induction wire generalizing w s with
  | nil =>
    intro r hret
    exact absurd rfl hret
  | cons c wire ih =>
    intro r
    have hnext := ih (h.step c)
    have hdelivers := h.delivers c
    have hret := uartFrameStep_ret c s.dst cap s.st
    have hr : r = uartRecv cap s (c :: wire) := rfl
    rw [feed_eq] at hnext hdelivers
    unfold uartRecv at hr
    dsimp only at hnext hdelivers hr
    generalize uartFrameStep c s.dst cap s.st = step at hnext hdelivers hret hr
    rw [hr, List.append_cons]
    split
    · next htaken =>
      intro _
      obtain ⟨hle, type, htype, hsuffix⟩ := hdelivers htaken.1
      have hone : type = 1 := by
        rw [htaken.2] at htype
        bv_omega
      subst hone
      rw [← hret htaken.1]
      exact ⟨hle, hsuffix.isInfix.trans (List.prefix_append _ _).isInfix⟩
    · exact hnext

/-- The frame of the window was on the wire, as a program frame of 1 to 520
    payload bytes. -/
theorem bootFrame_heard {wire : List U8} {area : Mem} {payload : List U8}
    (h : bootFrame wire area = some payload) :
    (1 ≤ payload.length ∧ payload.length ≤ UART_FRAME_MAX) ∧ uartSendFrame 1 payload <:+: wire := by
  have hrecv :=
    (heard_reset (BitVec.ofNat 32 UART_FRAME_MAX) (fun i => area (0x400 + i)) []).recv wire
  unfold bootFrame recvFrame at h
  split at h
  · cases h
  · next hne =>
    obtain ⟨hle, hinfix⟩ := hrecv hne
    obtain rfl := Option.some.inj h
    rw [length_bytesAt]
    have hcap : (BitVec.ofNat 32 UART_FRAME_MAX).toNat = UART_FRAME_MAX := by decide
    refine ⟨⟨?_, ?_⟩, hinfix⟩
    · exact Nat.pos_of_ne_zero fun h0 => hne (BitVec.eq_of_toNat_eq h0)
    · rw [← hcap]
      exact hle

/-- And every such frame can come in: of a stream of frames the window takes
    the first of type 1 with a payload. -/
theorem bootFrame_stream (frames : List (U8 × List U8))
    (hlen : ∀ f ∈ frames, f.2.length ≤ UART_FRAME_MAX) (area : Mem) :
    bootFrame (frames.flatMap fun f => uartSendFrame f.1 f.2) area =
      (frames.find? fun f => f.1 = 1 ∧ f.2 ≠ []).map Prod.snd := by
  have hcap : (BitVec.ofNat 32 UART_FRAME_MAX).toNat = UART_FRAME_MAX := by decide
  unfold bootFrame bootRecv
  rw [uartRecv_delivered]
  have hmax : (BitVec.ofNat 32 UART_FRAME_MAX).toNat ≤ 65535 := by decide
  obtain ⟨-, htrace⟩ := feed_stream hmax frames (by rwa [hcap]) ⟨.reset, fun i => area (0x400 + i)⟩
    rfl
  have hmap : ∀ os : List FrameStep,
      os.filterMap FrameStep.delivered = (os.map FrameStep.delivered).filterMap id := by
    intro os
    rw [List.filterMap_map]
    rfl
  rw [hmap, htrace]
  clear htrace hlen
  induction frames with
  | nil => rfl
  | cons f frames ih =>
    have htype : f.1.setWidth 32 = 1#32 ↔ f.1 = 1#8 := by
      constructor <;> intro h <;> bv_omega
    rw [List.flatMap_cons, List.filterMap_append, List.find?_append, List.find?_cons, Option.map_or,
      ih]
    by_cases hempty : f.2 = []
    · simp [frameTrace, hempty]
    · by_cases hone : f.1 = 1#8 <;> simp [frameTrace, hempty, htype, hone]

/-! ## The stage and the area -/

/-- The payload over the first bytes of the area. -/
def laidOver (payload : List U8) (area : Mem) : Mem :=
  memcpy area (fun i => payload.getD i 0) payload.length

theorem laidOver_of_lt {payload : List U8} {area : Mem} {i : Nat} (h : i < payload.length) :
    laidOver payload area i = payload.getD i 0 := if_pos h

/-- Below the stage, `uart_load` leaves the frame over the old bytes; the
    stage itself is all it changes behind them. -/
theorem uartLoadStaged_area (wire : List U8) (s : Sup) {i : Nat} (hi : i < 0x400) :
    (uartLoadStaged wire s).progArea i = (uartLoad (bootFrame wire s.progArea) s).progArea i := by
  unfold uartLoadStaged bootFrame recvFrame
  generalize bootRecv wire s.progArea = r
  obtain ⟨n, stage⟩ := r
  dsimp only
  unfold memcpy
  by_cases hn : n = 0
  · subst hn
    exact (if_neg (Nat.not_lt_zero i)).trans (if_pos hi)
  · rw [if_neg hn]
    unfold uartLoad memcpy
    simp only [length_bytesAt]
    split
    · next hlt =>
      rw [if_neg (by omega), Nat.add_sub_cancel_left, List.getD_eq_getElem _ _ (by simpa using hlt)]
      simp [bytesAt]
    · rfl

/-! ## The area and the slot -/

/-- Only the first 520 bytes of the area matter, and `load_program` leaves
    them where they are. -/
theorem loadProgram_congr (b : Build) (s : Sup) {area : Mem}
    (h : ∀ i < 520, area i = s.progArea i) :
    loadProgram b { s with progArea := area } = { loadProgram b s with progArea := area } := by
  -- every gate sees the same words
  have hmagic : le32 area 0 = le32 s.progArea 0 := le32_congr fun k hk => h _ (by omega)
  have hcnt : le32 area 4 = le32 s.progArea 4 := le32_congr fun k hk => h _ (by omega)
  have hreset : loadReset { s with progArea := area } = { loadReset s with progArea := area } := rfl
  have harea : (loadReset s).progArea = s.progArea := rfl
  unfold loadProgram
  rw [hreset]
  dsimp only
  rw [harea, hmagic, hcnt]
  by_cases hm : le32 s.progArea 0 ≠ PROG_MAGIC
  · rw [if_pos hm, if_pos hm]
  rw [if_neg hm, if_neg hm]
  by_cases hbound : le32 s.progArea 4 = 0 ∨ IC_PROG_MAX_INSNS < le32 s.progArea 4
  · rw [if_pos hbound, if_pos hbound]
    rfl
  rw [if_neg hbound, if_neg hbound]
  -- the words decoded are the same
  have hwords : (fun i => if i < (le32 s.progArea 4).toNat then
        insnWords (fun i => area (8 + i)) i else (loadReset s).mon.prog i) =
      fun i => if i < (le32 s.progArea 4).toNat then
        insnWords (fun i => s.progArea (8 + i)) i else (loadReset s).mon.prog i := by
    -- at most 64 of them, so none lies behind byte 520
    have hmax : (le32 s.progArea 4).toNat ≤ 64 := by
      unfold IC_PROG_MAX_INSNS at hbound
      bv_omega
    funext i
    split
    · exact le64_congr fun k hk => h _ (by omega)
    · rfl
  rw [hwords]
  split
  · rfl
  · split <;> rfl

/-- **The stage refines the frame.** Byte by byte, `uart_load` and
    `load_program` do what they do with the frame at hand; only the bytes
    of the stage differ. -/
theorem loadProgram_staged (b : Build) (wire : List U8) (s : Sup) :
    loadProgram b (uartLoadStaged wire s) =
      { loadProgram b (uartLoad (bootFrame wire s.progArea) s) with
        progArea := (uartLoadStaged wire s).progArea } := by
  have hother : uartLoadStaged wire s =
      { uartLoad (bootFrame wire s.progArea) s with
        progArea := (uartLoadStaged wire s).progArea } := by
    unfold uartLoad
    split <;> rfl
  rw [hother]
  exact loadProgram_congr b _ fun i hi => uartLoadStaged_area wire s (by omega)

/-! ## The program of the frame -/

/-- Nothing is live, or what is live is the payload: its magic, its count
    and its words, all within its length. -/
def FromFrame (payload : List U8) (m : MonBox) : Prop :=
  let p : Mem := fun i => payload.getD i 0
  m.progCnt = 0 ∨
    8 + 8 * m.progCnt.toNat ≤ payload.length ∧ le32 p 0 = PROG_MAGIC ∧ le32 p 4 = m.progCnt ∧
      ∀ i < m.progCnt.toNat, m.prog i = le64 p (8 + 8 * i)

/-- The area loads, with fewer bytes in the frame than its count asks for. -/
def Completed (payload : List U8) (area : Mem) : Prop :=
  Loads (laidOver payload area) ∧
    payload.length < 8 + 8 * (le32 (laidOver payload area) 4).toNat

instance (payload : List U8) (area : Mem) : Decidable (Completed payload area) :=
  inferInstanceAs (Decidable (_ ∧ _))

/-- A frame as long as its own count asks completes nothing, whatever the
    area held before. -/
theorem not_completed_of_whole {payload : List U8}
    (hwhole : 8 + 8 * (le32 (fun i => payload.getD i 0) 4).toNat ≤ payload.length) (area : Mem) :
    ¬ Completed payload area := by
  rintro ⟨-, hshort⟩
  have hcnt : le32 (laidOver payload area) 4 = le32 (fun i => payload.getD i 0) 4 :=
    le32_congr fun k hk => laidOver_of_lt (by omega)
  rw [hcnt] at hshort
  omega

/-- The same with the frame at hand. -/
theorem uartLoad_fromFrame (b : Build) (s : Sup) (payload : List U8) :
    FromFrame payload (loadProgram b (uartLoad (some payload) s)).mon ↔
      ¬ Completed payload s.progArea := by
  have harea : (uartLoad (some payload) s).progArea = laidOver payload s.progArea := rfl
  by_cases hloads : Loads (laidOver payload s.progArea)
  · obtain ⟨hcnt, hprog⟩ := loadProgram_of_loads b (harea ▸ hloads)
    rw [harea] at hcnt hprog
    generalize (loadProgram b (uartLoad (some payload) s)).mon = m at hcnt hprog
    constructor
    · rintro (h0 | ⟨hlen, -⟩) ⟨-, hshort⟩
      · exact hloads.2.1 (hcnt ▸ h0)
      · rw [hcnt] at hlen
        omega
    · intro hwhole
      have hlen : 8 + 8 * (le32 (laidOver payload s.progArea) 4).toNat ≤ payload.length := by
        by_contra hshort
        exact hwhole ⟨hloads, by omega⟩
      -- every byte that was decoded is one of the payload
      refine .inr ⟨by rwa [hcnt], ?_, ?_, ?_⟩
      · rw [← hloads.1]
        exact le32_congr fun k hk => (laidOver_of_lt (by omega)).symm
      · rw [hcnt]
        exact le32_congr fun k hk => (laidOver_of_lt (by omega)).symm
      · intro i hi
        rw [hcnt] at hi
        rw [hprog i hi]
        refine le64_congr fun k hk => ?_
        rw [← Nat.add_assoc]
        exact laidOver_of_lt (by omega)
  · have h0 := loadProgram_of_not_loads b (s := uartLoad (some payload) s) (harea ▸ hloads)
    constructor
    · intro _ hcompleted
      exact hloads hcompleted.1
    · intro _
      exact .inl h0

/-- **The boot program is the frame's program**, exactly when the old bytes
    of the area do not complete the frame to an image that loads. -/
theorem bootProgram_iff (b : Build) (s : Sup) (wire payload : List U8)
    (hframe : bootFrame wire s.progArea = some payload) :
    FromFrame payload (loadProgram b (uartLoadStaged wire s)).mon ↔
      ¬ Completed payload s.progArea := by
  rw [loadProgram_staged, hframe]
  exact uartLoad_fromFrame b s payload

/-- The header of a program of two instructions. -/
def bareHeader : List U8 := [0x50, 0x52, 0x4F, 0x47, 2, 0, 0, 0]

/-- The area still holds `returnFrame`. -/
def loadedBefore : Sup := { Sup.zeroed with progArea := fun i => returnFrame.getD i 0 }

/-- A whole frame over zeroed memory. -/
theorem bootProgram_iff_returnFrame :
    FromFrame returnFrame
      (loadProgram (.pinning []) (uartLoadStaged (uartSendFrame 1 returnFrame) .zeroed)).mon := by
  have hframe : bootFrame (uartSendFrame 1 returnFrame) Sup.zeroed.progArea = some returnFrame := by
    decide +kernel
  exact (bootProgram_iff (.pinning []) .zeroed _ returnFrame hframe).mpr (by decide +kernel)

/-- A frame that is a header and nothing else brings the old image back to
    life. -/
theorem bootProgram_bareHeader :
    ¬ ∀ (b : Build) (s : Sup) (wire payload : List U8),
      bootFrame wire s.progArea = some payload → payload.length ≤ UART_FRAME_MAX →
        FromFrame payload (loadProgram b (uartLoadStaged wire s)).mon := by
  intro h
  have hframe : bootFrame (uartSendFrame 1 bareHeader) loadedBefore.progArea = some bareHeader := by
    decide +kernel
  have hcnt : (loadProgram (.pinning [])
      (uartLoadStaged (uartSendFrame 1 bareHeader) loadedBefore)).mon.progCnt = 2 := by
    decide +kernel
  -- the claimed length is 24, the frame has 8
  rcases h (.pinning []) loadedBefore _ bareHeader hframe (by decide) with h0 | ⟨hlen, -⟩
  · rw [hcnt] at h0
    exact absurd h0 (by decide)
  · rw [hcnt] at hlen
    exact absurd hlen (by decide)

end Interclus

import Interclus.Policy.Assembly

/-! # The Command Filter

    `POLICY_MAVLINK` against `native_filter` of `modules/monitor.c`: the
    bytecode, run over a packet of any length, faults on the packets too
    short for the fields it consults and returns the native verdict on all
    others. -/

namespace Interclus

open Words

/-! ## The native filter -/

/-- The message id `native_filter` reads. -/
def mavMsgid (p : Mem) : U32 :=
  (p 7).setWidth 32 ||| (p 8).setWidth 32 <<< 8 ||| (p 9).setWidth 32 <<< 16

/-- The loop body of `native_filter`, on the packet behind `p`. -/
def nativeVerdict (p : Mem) : U32 :=
  if p 0 ≠ 0xFD then 0
  else
    let msgid := mavMsgid p
    let len : U32 := (p 1).setWidth 32
    if msgid ≠ 0 ∧ msgid ≠ 32 ∧ msgid ≠ 33 then 2
    else if 240 < len then 3
    else if msgid = 33 then
      let lat := le32 p 10
      if 900000000 < lat then 4 else 1
    else 1

/-- `native_filter`. -/
def nativeFilter (m : MonBox) : MonBox :=
  { m with
    nativeVerd := fun i =>
      if i < 6 then nativeVerdict fun k => m.input ((m.off i).toNat + k) else m.nativeVerd i }

/-! ## What the bytecode returns -/

/-- The packet ends before a field that the policy consults behind the
    start byte. -/
def MavTooShort (pkt : List U8) : Prop :=
  pkt.length < 10 ∨
    (pkt.length < 14 ∧ mavMsgid (packetBytes pkt) = 33 ∧ packetBytes pkt 1 ≤ 240)

instance (pkt : List U8) : Decidable (MavTooShort pkt) := instDecidableOr

/-- Another start byte than MAVLink's. -/
def MavForeign (pkt : List U8) : Prop := 1 ≤ pkt.length ∧ packetBytes pkt 0 ≠ 0xFD

instance (pkt : List U8) : Decidable (MavForeign pkt) := instDecidableAnd

/-- Verdict 0 for a foreign packet, a memory fault for one that is too
    short, the native verdict otherwise. -/
def FilterPost (pkt : List U8) : RunPost := fun f v _ =>
  if MavForeign pkt then f = .ok ∧ v = 0
  else if MavTooShort pkt then f = .mem ∧ v = 0
  else f = .ok ∧ v = (nativeVerdict (packetBytes pkt)).setWidth 64

section Compare
variable {x i : U32}

/-- A jump immediate below `2^31` compares as the word itself. -/
theorem setWidth_eq_signExtend (hi : i.toNat < 2 ^ 31) :
    x.setWidth 64 = i.signExtend 64 ↔ x = i := by
  rw [BitVec.signExtend_eq_setWidth_of_msb_false (by rw [BitVec.msb_eq_decide]; simpa using hi)]
  constructor
  · intro h
    have hnat := congrArg BitVec.toNat h
    have := x.isLt
    rw [BitVec.toNat_setWidth, BitVec.toNat_setWidth] at hnat
    exact BitVec.eq_of_toNat_eq (by omega)
  · exact congrArg _

theorem signExtend_lt_setWidth (hi : i.toNat < 2 ^ 31) :
    i.signExtend 64 < x.setWidth 64 ↔ i < x := by
  rw [BitVec.signExtend_eq_setWidth_of_msb_false (by rw [BitVec.msb_eq_decide]; simpa using hi)]
  have := x.isLt
  rw [BitVec.lt_def, BitVec.lt_def, BitVec.toNat_setWidth, BitVec.toNat_setWidth]
  omega

end Compare

section Run
variable {undef : CExpr → U64} {p : EbpfProg} {pkt : List U8}

/-- The message id as the bytecode puts it together. -/
theorem msgid_register (b : Mem) :
    (le16 b 7).setWidth 64 ||| (b 9).setWidth 64 <<< 16 = (mavMsgid b).setWidth 64 := by
  unfold mavMsgid le16
  rw [BitVec.setWidth_or, BitVec.setWidth_or, BitVec.setWidth_or,
    setWidth_shiftLeft_byte _ _ (by decide) (by decide),
    setWidth_shiftLeft_byte _ _ (by decide) (by decide),
    setWidth_shiftLeft_byte _ _ (by decide) (by decide), setWidth_setWidth_byte _ (by decide),
    setWidth_setWidth_byte _ (by decide)]

theorem filterPost_foreign {map : Option (U32 → U32)} (h : MavForeign pkt) :
    FilterPost pkt .ok 0 map := by
  unfold FilterPost
  rw [if_pos h]
  exact ⟨rfl, rfl⟩

theorem filterPost_short {map : Option (U32 → U32)} (hfd : ¬ MavForeign pkt)
    (hshort : MavTooShort pkt) : FilterPost pkt .mem 0 map := by
  unfold FilterPost
  rw [if_neg hfd, if_pos hshort]
  exact ⟨rfl, rfl⟩

theorem filterPost_native {map : Option (U32 → U32)} (hfd : ¬ MavForeign pkt)
    (hlong : ¬ MavTooShort pkt) {v : U32} (hv : nativeVerdict (packetBytes pkt) = v)
    (hsmall : v.toNat < 2 ^ 31) : FilterPost pkt .ok (v.signExtend 64) map := by
  unfold FilterPost
  rw [if_neg hfd, if_neg hlong, hv]
  exact ⟨rfl, ((setWidth_eq_signExtend hsmall).mpr rfl).symm⟩

/-- A MAVLink packet that holds the header fields. -/
structure MavHeader (pkt : List U8) : Prop where
  start : packetBytes pkt 0 = 0xFD
  long : 10 ≤ pkt.length

theorem MavHeader.not_foreign (h : MavHeader pkt) : ¬ MavForeign pkt := fun hf => hf.2 h.start

theorem MavHeader.not_short (h : MavHeader pkt)
    (hfield : 14 ≤ pkt.length ∨ mavMsgid (packetBytes pkt) ≠ 33 ∨ 240 < packetBytes pkt 1) :
    ¬ MavTooShort pkt := by
  have := h.long
  rintro (hlen | ⟨hlen, hid, hsmall⟩)
  · omega
  · rcases hfield with h14 | hne | hbig
    · omega
    · exact hne hid
    · exact absurd hsmall (BitVec.not_le.mpr hbig)

/-- Past the message id, the length byte and then the latitude decide. -/
theorem nativeVerdict_allowed {b : Mem} (hstart : b 0 = 0xFD)
    (hid : mavMsgid b = 0 ∨ mavMsgid b = 32 ∨ mavMsgid b = 33) :
    nativeVerdict b =
      if 240 < b 1 then 3
      else if mavMsgid b = 33 then if 900000000 < le32 b 10 then 4 else 1
      else 1 := by
  have hallowed : ¬ (mavMsgid b ≠ 0 ∧ mavMsgid b ≠ 32 ∧ mavMsgid b ≠ 33) := by
    rintro ⟨h0, h32, h33⟩
    rcases hid with h | h | h
    · exact h0 h
    · exact h32 h
    · exact h33 h
  have hlen : (240 : U32) < (b 1).setWidth 32 ↔ 240 < b 1 := by
    rw [BitVec.lt_def, BitVec.lt_def, BitVec.toNat_setWidth]
    have := (b 1).isLt
    have h240 : (240 : U32).toNat = 240 := by decide
    have h240' : (240 : U8).toNat = 240 := by decide
    omega
  unfold nativeVerdict
  rw [if_neg (not_not.mpr hstart)]
  dsimp only
  rw [if_neg hallowed]
  simp only [hlen]

/-- The length byte as the bytecode compares it. -/
theorem length_register (b : U8) :
    (240 : U32).signExtend 64 < b.setWidth 64 ↔ 240 < b := by
  rw [BitVec.lt_def, BitVec.lt_def, BitVec.toNat_setWidth]
  have := b.isLt
  have h240 : ((240 : U32).signExtend 64).toNat = 240 := by decide
  have h240' : (240 : U8).toNat = 240 := by decide
  omega

variable {n : Nat} {regs : RegFile} {map : Option (U32 → U32)}

/-- Messages 0 and 32: the length decides. -/
theorem policyMavlink_plain (hp : p.Holds POLICY_MAVLINK) (hpkt : p.Presents pkt)
    (hmav : MavHeader pkt)
    (hid : mavMsgid (packetBytes pkt) = 0 ∨ mavMsgid (packetBytes pkt) = 32) (hr1 : regs 1 = p.ctx) :
    p.Yields undef (n + 4) regs 12 map (FilterPost pkt) := by
  have hne : mavMsgid (packetBytes pkt) ≠ 33 := by
    rcases hid with h | h <;> rw [h] <;> decide
  have hnat := nativeVerdict_allowed hmav.start
    (hid.elim .inl fun h => .inr (.inl h))
  have hlong := hmav.long
  refine hp.ldxb hpkt 9 1 1 rfl (by decide) (by decide) (by decide) hr1 (fun _ => ?_) fun hlen => ?_
  swap
  · exact absurd hlen (Nat.not_lt.mpr (Nat.le_trans (by decide) hlong))
  refine hp.jgt64i 9 240 10 rfl (by decide)
    (fun (hlen : _ < (packetBytes pkt 1).setWidth 64) => ?_)
    fun (hlen : (packetBytes pkt 1).setWidth 64 ≤ _) => ?_
  · rw [if_pos ((length_register _).mp hlen)] at hnat
    exact hp.verdict 3 rfl rfl
      (filterPost_native hmav.not_foreign (hmav.not_short (.inr (.inl hne))) hnat (by decide))
  · rw [if_neg (mt (length_register _).mpr (BitVec.not_lt.mpr hlen)), if_neg hne] at hnat
    exact hp.verdict 1 rfl rfl
      (filterPost_native hmav.not_foreign (hmav.not_short (.inr (.inl hne))) hnat (by decide))

/-- Message 33: the length, then the latitude decide. -/
theorem policyMavlink_position (hp : p.Holds POLICY_MAVLINK) (hpkt : p.Presents pkt)
    (hmav : MavHeader pkt) (hid : mavMsgid (packetBytes pkt) = 33) (hr1 : regs 1 = p.ctx) :
    p.Yields undef (n + 6) regs 16 map (FilterPost pkt) := by
  have hnat := nativeVerdict_allowed hmav.start (.inr (.inr hid))
  have hlong := hmav.long
  refine hp.ldxb hpkt 9 1 1 rfl (by decide) (by decide) (by decide) hr1 (fun _ => ?_) fun hlen => ?_
  swap
  · exact absurd hlen (Nat.not_lt.mpr (Nat.le_trans (by decide) hlong))
  refine hp.jgt64i 9 240 6 rfl (by decide)
    (fun (hlen : _ < (packetBytes pkt 1).setWidth 64) => ?_)
    fun (hlen : (packetBytes pkt 1).setWidth 64 ≤ _) => ?_
  · have hbig := (length_register _).mp hlen
    rw [if_pos hbig] at hnat
    exact hp.verdict 3 rfl rfl
      (filterPost_native hmav.not_foreign (hmav.not_short (.inr (.inr hbig))) hnat (by decide))
  have hsmall := mt (length_register _).mpr (BitVec.not_lt.mpr hlen)
  rw [if_neg hsmall, if_pos hid] at hnat
  refine hp.ldxw hpkt 6 1 10 rfl (by decide) (by decide) (by decide) hr1 (fun h14 => ?_)
    fun h14 => ?_
  swap
  · exact filterPost_short hmav.not_foreign (.inr ⟨h14, hid, BitVec.not_lt.mp hsmall⟩)
  have hnot := hmav.not_short (.inl h14)
  refine hp.jgt64i 6 900000000 6 rfl (by decide)
    (fun (hlat : _ < (le32 (packetBytes pkt) 10).setWidth 64) => ?_)
    fun (hlat : (le32 (packetBytes pkt) 10).setWidth 64 ≤ _) => ?_
  · rw [if_pos ((signExtend_lt_setWidth (by decide)).mp hlat)] at hnat
    exact hp.verdict 4 rfl rfl (filterPost_native hmav.not_foreign hnot hnat (by decide))
  · rw [if_neg (mt (signExtend_lt_setWidth (by decide)).mpr (BitVec.not_lt.mpr hlat))] at hnat
    exact hp.verdict 1 rfl rfl (filterPost_native hmav.not_foreign hnot hnat (by decide))

/-- The listing, executed symbolically. -/
theorem policyMavlink_yields (hp : p.Holds POLICY_MAVLINK) (hpkt : p.Presents pkt) :
    p.Yields undef 28 (entryRegs p) 0 map (FilterPost pkt) := by
  -- the start byte
  refine hp.ldxb hpkt 2 1 0 rfl (by decide) (by decide) (by decide) rfl (fun h1 => ?_) fun h1 => ?_
  swap
  · exact filterPost_short (fun hf => absurd hf.1 (Nat.not_le.mpr h1))
      (.inl (Nat.lt_trans h1 (by decide)))
  refine hp.mov64i 3 0xFD rfl (by decide) ?_
  refine hp.jne64i 2 0xFD 19 rfl (by decide)
    (fun (hstart : (packetBytes pkt 0).setWidth 64 ≠ _) => ?_)
    fun (hstart : (packetBytes pkt 0).setWidth 64 = _) => ?_
  · have hne : packetBytes pkt 0 ≠ 0xFD := fun h => hstart (by rw [h]; rfl)
    exact hp.verdict 0 rfl rfl (filterPost_foreign ⟨h1, hne⟩)
  have hfd : packetBytes pkt 0 = 0xFD := by
    rw [← setWidth_setWidth_byte (v := 32) _ (by decide), setWidth_eq_signExtend (by decide)]
      at hstart
    bv_omega
  have hnf : ¬ MavForeign pkt := fun hf => hf.2 hfd
  -- the message id
  refine hp.ldxh hpkt 4 1 7 rfl (by decide) (by decide) (by decide) rfl (fun _ => ?_) fun h9 => ?_
  swap
  · exact filterPost_short hnf (.inl (Nat.lt_trans h9 (by decide)))
  refine hp.ldxb hpkt 5 1 9 rfl (by decide) (by decide) (by decide) rfl (fun h10 => ?_) fun h10 => ?_
  swap
  · exact filterPost_short hnf (.inl h10)
  have hmav : MavHeader pkt := ⟨hfd, h10⟩
  have hmsgid : ∀ i : U32, i.toNat < 2 ^ 31 →
      ((le16 (packetBytes pkt) 7).setWidth 64 ||| (packetBytes pkt 9).setWidth 64 <<< 16 =
        i.signExtend 64 ↔ mavMsgid (packetBytes pkt) = i) := by
    intro i hi
    rw [msgid_register]
    exact setWidth_eq_signExtend hi
  refine hp.sll64i 5 16 rfl (by decide) ?_
  refine hp.or64 4 5 rfl (by decide) ?_
  refine hp.jeq64i 4 0 4 rfl (by decide) (fun h0 => ?_) fun h0 => ?_
  · exact policyMavlink_plain hp hpkt hmav (.inl ((hmsgid 0 (by decide)).mp h0)) rfl
  refine hp.jeq64i 4 33 7 rfl (by decide) (fun h33 => ?_) fun h33 => ?_
  · exact policyMavlink_position hp hpkt hmav ((hmsgid 33 (by decide)).mp h33) rfl
  refine hp.jeq64i 4 32 2 rfl (by decide) (fun h32 => ?_) fun h32 => ?_
  · exact policyMavlink_plain hp hpkt hmav (.inr ((hmsgid 32 (by decide)).mp h32)) rfl
  -- any other message
  have hid : mavMsgid (packetBytes pkt) ≠ 0 ∧ mavMsgid (packetBytes pkt) ≠ 32 ∧
      mavMsgid (packetBytes pkt) ≠ 33 :=
    ⟨mt (hmsgid 0 (by decide)).mpr h0, mt (hmsgid 32 (by decide)).mpr h32,
      mt (hmsgid 33 (by decide)).mpr h33⟩
  have hnat : nativeVerdict (packetBytes pkt) = 2 := by
    unfold nativeVerdict
    rw [if_neg (not_not.mpr hfd)]
    exact if_pos hid
  exact hp.verdict 2 rfl rfl
    (filterPost_native hnf (hmav.not_short (.inr (.inl hid.2.2))) hnat (by decide))

/-- The run of the built-in policy over a packet. -/
structure FiltersPacket (p : EbpfProg) (pkt : List U8) : Prop where
  ins : p.ins = policyMavlink
  cnt : p.insnCnt = POLICY_MAVLINK_CNT
  noMap : p.map = none
  steps : 28 ≤ p.maxSteps.toNat
  presents : p.Presents pkt

theorem FiltersPacket.holds (h : FiltersPacket p pkt) : p.Holds POLICY_MAVLINK where
  short := by decide
  cnt := by
    rw [h.cnt]
    rfl
  ins := fun _ _ => congrFun h.ins _

/-- **The command filter equals the native filter.**  Over a packet of any
    length, the bytecode ends within 28 steps: with verdict 0 when the
    packet does not open with the MAVLink start byte, with a memory fault
    when it is too short for the fields consulted, and with the native
    verdict otherwise; so with the native verdict on every packet of 14
    bytes or more. -/
theorem policyMavlink_refines_native (undef : CExpr → U64) (p : EbpfProg) (pkt : List U8)
    (h : FiltersPacket p pkt) :
    ∃ r, (∀ fuel, 28 ≤ fuel → ebpfRun undef p fuel = some r) ∧
      (MavForeign pkt → r.fault = .ok ∧ r.retval = 0) ∧
      (¬ MavForeign pkt → MavTooShort pkt → r.fault = .mem ∧ r.retval = 0) ∧
      (¬ MavForeign pkt → ¬ MavTooShort pkt →
        r.fault = .ok ∧ r.retval = (nativeVerdict (packetBytes pkt)).setWidth 64) ∧
      (14 ≤ pkt.length →
        r.fault = .ok ∧ r.retval = (nativeVerdict (packetBytes pkt)).setWidth 64) := by
  obtain ⟨r, hrun, hpost⟩ := h.holds.run (by decide) h.steps
    (policyMavlink_yields h.holds h.presents)
  unfold FilterPost at hpost
  refine ⟨r, hrun, fun hfd => ?_, fun hfd hshort => ?_, fun hfd hlong => ?_, fun h14 => ?_⟩
  · rwa [if_pos hfd] at hpost
  · rwa [if_neg hfd, if_pos hshort] at hpost
  · rwa [if_neg hfd, if_neg hlong] at hpost
  · have hlong : ¬ MavTooShort pkt := by
      rintro (hlen | ⟨hlen, -⟩) <;> omega
    by_cases hfd : MavForeign pkt
    · rw [if_pos hfd] at hpost
      refine ⟨hpost.1, hpost.2.trans ?_⟩
      unfold nativeVerdict
      rw [if_pos hfd.2]
      rfl
    · rwa [if_neg hfd, if_neg hlong] at hpost

end Run

/-- The policy over the position packet, with the fewest steps it needs. -/
def positionRun : EbpfProg where
  ins := policyMavlink
  insnCnt := POLICY_MAVLINK_CNT
  mem := fun a => PKT_GPI.getD (a - 0x1000).toNat 0
  ctx := 0x1000
  ctxSize := 42
  maxSteps := 28
  map := none
  mapCells := 0

theorem policyMavlink_refines_native_position :
    nativeVerdict (packetBytes PKT_GPI) = 1 ∧
    ∃ r, (∀ fuel, 28 ≤ fuel → ebpfRun (fun _ => 0) positionRun fuel = some r) ∧
      (MavForeign PKT_GPI → r.fault = .ok ∧ r.retval = 0) ∧
      (¬ MavForeign PKT_GPI → MavTooShort PKT_GPI → r.fault = .mem ∧ r.retval = 0) ∧
      (¬ MavForeign PKT_GPI → ¬ MavTooShort PKT_GPI →
        r.fault = .ok ∧ r.retval = (nativeVerdict (packetBytes PKT_GPI)).setWidth 64) ∧
      (14 ≤ PKT_GPI.length →
        r.fault = .ok ∧ r.retval = (nativeVerdict (packetBytes PKT_GPI)).setWidth 64) :=
  ⟨by decide, policyMavlink_refines_native (fun _ => 0) positionRun PKT_GPI
    ⟨rfl, rfl, rfl, by decide, ⟨rfl, by decide, by decide⟩⟩⟩

end Interclus

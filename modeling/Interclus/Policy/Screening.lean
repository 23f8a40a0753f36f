import Interclus.Policy.CommandFilter

/-! # Swarm Screening

    `POLICY_CONFLICT` counts position packets per grid cell in its map and
    flags a packet when its own cell or a neighbouring one holds more than
    three.  A run over one packet is one turn of the counting machine that
    `mirror` of `tools/inject_swarm.py` iterates; so is a sequence of runs
    with a shared map, and the alert total of the supervisor. -/

namespace Interclus

open Words

/-! ## The listing -/

def POLICY_CONFLICT : List U64 := [
  LDXH 2 1 7,
  LDXB 3 1 9,
  SLL64I 3 16,
  OR64 2 3,
  MOV64I 3 33,
  JNE64I 2 33 24,
  LDXW 4 1 10,
  LDXW 5 1 14,
  RSH64I 4 26,
  AND64I 4 7,
  RSH64I 5 26,
  AND64I 5 7,
  SLL64I 4 3,
  OR64 4 5,
  MOV64 1 4,
  CALL 1,
  MOV64 6 0,
  ADD64I 6 1,
  MOV64 1 4,
  MOV64 2 6,
  CALL 2,
  JGT64I 6 3 10,
  MOV64 1 4,
  SUB64I 1 1,
  CALL 1,
  JGT64I 0 3 6,
  MOV64 1 4,
  ADD64I 1 1,
  CALL 1,
  JGT64I 0 3 2,
  MOV64I 0 1,
  EXIT,
  MOV64I 0 5,
  EXIT]

def POLICY_CONFLICT_CNT : U32 := 34

def policyConflict : Nat → U64 := fun i => POLICY_CONFLICT.getD i 0

/-! ## The grid -/

/-- The grid cell of the latitude and longitude words. -/
def wordCell (lat lon : U32) : Nat := 8 * (lat >>> 26 &&& 7).toNat + (lon >>> 26 &&& 7).toNat

/-- The grid cell of a position packet. -/
def packetCell (b : Mem) : Nat := wordCell (le32 b 10) (le32 b 14)

theorem toNat_and_seven (x : U32) : (x &&& 7).toNat = x.toNat % 8 := by
  rw [BitVec.toNat_and]
  exact Nat.and_two_pow_sub_one_eq_mod _ 3

theorem wordCell_eq (lat lon : U32) :
    wordCell lat lon = 8 * (lat.toNat / 2 ^ 26 % 8) + lon.toNat / 2 ^ 26 % 8 := by
  unfold wordCell
  rw [toNat_and_seven, toNat_and_seven, BitVec.toNat_ushiftRight, BitVec.toNat_ushiftRight,
    Nat.shiftRight_eq_div_pow, Nat.shiftRight_eq_div_pow]

theorem wordCell_lt (lat lon : U32) : wordCell lat lon < 64 := by
  rw [wordCell_eq]
  omega

/-- Bits 26 to 28 of a word, as the bytecode shifts and masks them. -/
theorem toNat_gridBits (x : U32) :
    (x.setWidth 64 >>> 26 &&& 7).toNat = x.toNat / 2 ^ 26 % 8 := by
  rw [BitVec.toNat_and, BitVec.toNat_ushiftRight, BitVec.toNat_setWidth,
    Nat.mod_eq_of_lt (Nat.lt_trans x.isLt (by decide)), Nat.shiftRight_eq_div_pow]
  exact Nat.and_two_pow_sub_one_eq_mod _ 3

/-- The grid cell as the bytecode puts it together. -/
theorem cell_register (lat lon : U32) :
    (lat.setWidth 64 >>> 26 &&& 7) <<< 3 ||| (lon.setWidth 64 >>> 26 &&& 7) =
      BitVec.ofNat 64 (wordCell lat lon) := by
  have hlat := toNat_gridBits lat
  have hlon := toNat_gridBits lon
  apply BitVec.eq_of_toNat_eq
  rw [BitVec.toNat_or, BitVec.toNat_shiftLeft, hlat, hlon, BitVec.toNat_ofNat, wordCell_eq,
    Nat.mod_eq_of_lt (by rw [Nat.shiftLeft_eq]; omega),
    ← Nat.shiftLeft_add_eq_or_of_lt (i := 3) (by omega), Nat.shiftLeft_eq]
  omega

/-! ## The counting machine -/

/-- The neighbouring cells, in the wrapped row of 64. -/
def leftCell (c : Nat) : Nat := (c + 63) % 64
def rightCell (c : Nat) : Nat := (c + 1) % 64

/-- A cell that is crowded, or next to a crowded one. -/
def Crowded (m : Nat → Nat) (c : Nat) : Prop :=
  3 < m c ∨ 3 < m (leftCell c) ∨ 3 < m (rightCell c)

instance (m : Nat → Nat) (c : Nat) : Decidable (Crowded m c) := instDecidableOr

/-- One packet: the counts it leaves and its verdict.  `none` is a packet
    that reports no position. -/
def screenStep (m : Nat → Nat) : Option Nat → (Nat → Nat) × Nat
  | none => (m, 1)
  | some c =>
    let m' := fun d => if d = c then m d + 1 else m d
    (m', if Crowded m' c then 5 else 1)

/-- What a packet reports. -/
def reportedCell (pkt : List U8) : Option Nat :=
  if mavMsgid (packetBytes pkt) = 33 then some (packetCell (packetBytes pkt)) else none

/-! ## One run -/

/-- The map holds the counts. -/
def MapHolds (f : U32 → U32) (m : Nat → Nat) : Prop :=
  ∀ c < 64, f (BitVec.ofNat 32 c) = BitVec.ofNat 32 (m c)

/-- A run over a packet is one turn of the counting machine. -/
def ScreenPost (m : Nat → Nat) (pkt : List U8) : RunPost := fun f v map =>
  f = .ok ∧ v = BitVec.ofNat 64 (screenStep m (reportedCell pkt)).2 ∧
    ∃ g, map = some g ∧ MapHolds g (screenStep m (reportedCell pkt)).1

section Run
variable {undef : CExpr → U64} {p : EbpfProg} {n c : Nat} {regs : RegFile} {f : U32 → U32}

/-- The mask index of 64 cells. -/
theorem mapIndex_64 (r : U64) : mapIndex 64 r = BitVec.ofNat 32 (r.toNat % 64) := by
  have hmask : mapIndex 64 r = r.setWidth 32 &&& BitVec.ofNat 32 (2 ^ 6 - 1) := rfl
  apply BitVec.eq_of_toNat_eq
  rw [hmask, BitVec.toNat_and, BitVec.toNat_setWidth, BitVec.toNat_ofNat, BitVec.toNat_ofNat,
    Nat.mod_eq_of_lt (show 2 ^ 6 - 1 < 2 ^ 32 by decide), Nat.and_two_pow_sub_one_eq_mod]
  omega

theorem mapIndex_cell (hc : c < 64) : mapIndex 64 (BitVec.ofNat 64 c) = BitVec.ofNat 32 c := by
  rw [mapIndex_64, BitVec.toNat_ofNat]
  congr 1
  omega

theorem mapIndex_left :
    mapIndex 64 (BitVec.ofNat 64 c - (1 : U32).signExtend 64) = BitVec.ofNat 32 (leftCell c) := by
  have h1 : ((1 : U32).signExtend 64).toNat = 1 := by decide
  rw [mapIndex_64, BitVec.toNat_sub, h1, BitVec.toNat_ofNat]
  unfold leftCell
  congr 1
  omega

theorem mapIndex_right :
    mapIndex 64 (BitVec.ofNat 64 c + (1 : U32).signExtend 64) = BitVec.ofNat 32 (rightCell c) := by
  have h1 : ((1 : U32).signExtend 64).toNat = 1 := by decide
  rw [mapIndex_64, BitVec.toNat_add, h1, BitVec.toNat_ofNat]
  unfold rightCell
  congr 1
  omega

theorem ofNat_cell_inj {d : Nat} (hc : c < 64) (hd : d < 64) :
    BitVec.ofNat 32 d = BitVec.ofNat 32 c ↔ d = c := by
  constructor
  · intro h
    have hnat := congrArg BitVec.toNat h
    rw [BitVec.toNat_ofNat, BitVec.toNat_ofNat] at hnat
    omega
  · exact congrArg _

/-- One more packet in cell `c`. -/
theorem MapHolds.bump {m : Nat → Nat} (h : MapHolds f m) (hc : c < 64) :
    MapHolds (fun d => if d = BitVec.ofNat 32 c then BitVec.ofNat 32 (m c + 1) else f d)
      fun d => if d = c then m d + 1 else m d := by
  intro d hd
  dsimp only
  by_cases hdc : d = c
  · rw [if_pos ((ofNat_cell_inj hc hd).mpr hdc), if_pos hdc, hdc]
  · rw [if_neg (mt (ofNat_cell_inj hc hd).mp hdc), if_neg hdc]
    exact h d hd

/-- The jump over a count of three. -/
theorem count_register {k : Nat} (hk : k < 2 ^ 64) :
    (3 : U32).signExtend 64 < BitVec.ofNat 64 k ↔ 3 < k := by
  have h3 : ((3 : U32).signExtend 64).toNat = 3 := by decide
  rw [BitVec.lt_def, h3, BitVec.toNat_ofNat, Nat.mod_eq_of_lt hk]

/-- From the helper calls on, with the cell in `r4`. -/
theorem policyConflict_count (hp : p.Holds POLICY_CONFLICT) (hcells : p.mapCells = 64)
    {m : Nat → Nat} (hmap : MapHolds f m) (hm : ∀ d < 64, m d + 1 < 2 ^ 32) (hc : c < 64)
    (hr4 : regs 4 = BitVec.ofNat 64 c) {pkt : List U8} (hpkt : reportedCell pkt = some c) :
    p.Yields undef (n + 18) regs 14 (some f) (ScreenPost m pkt) := by
  have husable : mapUsable p.mapCells := by
    rw [hcells]
    decide
  have hleft : leftCell c < 64 := Nat.mod_lt _ (by decide)
  have hright : rightCell c < 64 := Nat.mod_lt _ (by decide)
  let m' : Nat → Nat := fun d => if d = c then m d + 1 else m d
  let g : U32 → U32 := fun d => if d = BitVec.ofNat 32 c then BitVec.ofNat 32 (m c + 1) else f d
  have hg : MapHolds g m' := hmap.bump hc
  have hm' : ∀ d < 64, m' d < 2 ^ 32 := by
    intro d hd
    have := hm d hd
    show (if d = c then m d + 1 else m d) < _
    split <;> omega
  have hstep : screenStep m (reportedCell pkt) = (m', if Crowded m' c then 5 else 1) := by
    rw [hpkt]
    rfl
  have hcell : ∀ d < 64, (g (BitVec.ofNat 32 d)).setWidth 64 = BitVec.ofNat 64 (m' d) := by
    intro d hd
    have := hm' d hd
    rw [hg d hd]
    apply BitVec.eq_of_toNat_eq
    rw [BitVec.toNat_setWidth, BitVec.toNat_ofNat, BitVec.toNat_ofNat]
    omega
  have hpost5 : Crowded m' c → ScreenPost m pkt .ok ((5 : U32).signExtend 64) (some g) := by
    intro h
    unfold ScreenPost
    rw [hstep, if_pos h]
    exact ⟨rfl, rfl, g, rfl, hg⟩
  have hpost1 : ¬ Crowded m' c → ScreenPost m pkt .ok ((1 : U32).signExtend 64) (some g) := by
    intro h
    unfold ScreenPost
    rw [hstep, if_neg h]
    exact ⟨rfl, rfl, g, rfl, hg⟩
  -- the own cell
  have hcount : (f (BitVec.ofNat 32 c)).setWidth 64 + (1 : U32).signExtend 64 =
      BitVec.ofNat 64 (m c + 1) := by
    have := hm c hc
    have h1 : ((1 : U32).signExtend 64).toNat = 1 := by decide
    rw [hmap c hc]
    apply BitVec.eq_of_toNat_eq
    rw [BitVec.toNat_add, h1, BitVec.toNat_setWidth, BitVec.toNat_ofNat, BitVec.toNat_ofNat]
    omega
  have hown : m' c = m c + 1 := if_pos rfl
  refine hp.mov64 1 4 rfl (by decide) ?_
  refine hp.call1 husable rfl (i := BitVec.ofNat 32 c) ?_ ?_
  · rw [hcells]
    exact (congrArg (mapIndex 64) hr4).trans (mapIndex_cell hc)
  refine hp.mov64 6 0 rfl (by decide) ?_
  refine hp.add64i 6 1 rfl (by decide) ?_
  refine hp.mov64 1 4 rfl (by decide) ?_
  refine hp.mov64 2 6 rfl (by decide) ?_
  refine hp.call2 husable rfl (i := BitVec.ofNat 32 c) (v := BitVec.ofNat 32 (m c + 1)) ?_ ?_ ?_
  · rw [hcells]
    exact (congrArg (mapIndex 64) hr4).trans (mapIndex_cell hc)
  · refine (congrArg (BitVec.setWidth 32) hcount).trans ?_
    apply BitVec.eq_of_toNat_eq
    rw [BitVec.toNat_setWidth, BitVec.toNat_ofNat, BitVec.toNat_ofNat]
    omega
  refine hp.jgt64i 6 3 10 rfl (by decide)
    (fun (h : _ < (f (BitVec.ofNat 32 c)).setWidth 64 + (1 : U32).signExtend 64) => ?_)
    fun (h : (f (BitVec.ofNat 32 c)).setWidth 64 + (1 : U32).signExtend 64 ≤ _) => ?_
  · rw [hcount, count_register (by have := hm c hc; omega)] at h
    exact hp.verdict 5 rfl rfl (hpost5 (.inl (hown ▸ h)))
  have hown3 : ¬ 3 < m' c := by
    rw [hcount] at h
    rw [hown]
    exact mt (count_register (by have := hm c hc; omega)).mpr (BitVec.not_lt.mpr h)
  -- the cell to the left
  refine hp.mov64 1 4 rfl (by decide) ?_
  refine hp.sub64i 1 1 rfl (by decide) ?_
  refine hp.call1 husable rfl (i := BitVec.ofNat 32 (leftCell c)) ?_ ?_
  · rw [hcells]
    exact (congrArg (fun r => mapIndex 64 (r - (1 : U32).signExtend 64)) hr4).trans mapIndex_left
  refine hp.jgt64i 0 3 6 rfl (by decide)
    (fun (h : _ < (g (BitVec.ofNat 32 (leftCell c))).setWidth 64) => ?_)
    fun (h : (g (BitVec.ofNat 32 (leftCell c))).setWidth 64 ≤ _) => ?_
  · rw [hcell _ hleft, count_register (Nat.lt_trans (hm' _ hleft) (by decide))] at h
    exact hp.verdict 5 rfl rfl (hpost5 (.inr (.inl h)))
  have hleft3 : ¬ 3 < m' (leftCell c) := by
    rw [hcell _ hleft] at h
    exact mt (count_register (Nat.lt_trans (hm' _ hleft) (by decide))).mpr (BitVec.not_lt.mpr h)
  -- the cell to the right
  refine hp.mov64 1 4 rfl (by decide) ?_
  refine hp.add64i 1 1 rfl (by decide) ?_
  refine hp.call1 husable rfl (i := BitVec.ofNat 32 (rightCell c)) ?_ ?_
  · rw [hcells]
    exact (congrArg (fun r => mapIndex 64 (r + (1 : U32).signExtend 64)) hr4).trans mapIndex_right
  refine hp.jgt64i 0 3 2 rfl (by decide)
    (fun (h : _ < (g (BitVec.ofNat 32 (rightCell c))).setWidth 64) => ?_)
    fun (h : (g (BitVec.ofNat 32 (rightCell c))).setWidth 64 ≤ _) => ?_
  · rw [hcell _ hright, count_register (Nat.lt_trans (hm' _ hright) (by decide))] at h
    exact hp.verdict 5 rfl rfl (hpost5 (.inr (.inr h)))
  have hright3 : ¬ 3 < m' (rightCell c) := by
    rw [hcell _ hright] at h
    exact mt (count_register (Nat.lt_trans (hm' _ hright) (by decide))).mpr (BitVec.not_lt.mpr h)
  refine hp.verdict 1 rfl rfl (hpost1 ?_)
  rintro (h | h | h)
  · exact hown3 h
  · exact hleft3 h
  · exact hright3 h

/-- The listing, executed symbolically, over a packet that reaches past the
    longitude. -/
theorem policyConflict_yields (hp : p.Holds POLICY_CONFLICT) (hcells : p.mapCells = 64)
    {pkt : List U8} (hpkt : p.Presents pkt) (hlong : 18 ≤ pkt.length) {m : Nat → Nat}
    (hmap : MapHolds f m) (hm : ∀ d < 64, m d + 1 < 2 ^ 32) :
    p.Yields undef 34 (entryRegs p) 0 (some f) (ScreenPost m pkt) := by
  have htoo : ∀ k : Nat, k ≤ 18 → ¬ pkt.length < k := fun k hk h =>
    absurd (Nat.lt_of_lt_of_le h hk) (Nat.not_lt.mpr hlong)
  -- the message id
  refine hp.ldxh hpkt 2 1 7 rfl (by decide) (by decide) (by decide) rfl (fun _ => ?_)
    fun h => absurd h (htoo _ (by decide))
  refine hp.ldxb hpkt 3 1 9 rfl (by decide) (by decide) (by decide) rfl (fun _ => ?_)
    fun h => absurd h (htoo _ (by decide))
  refine hp.sll64i 3 16 rfl (by decide) ?_
  refine hp.or64 2 3 rfl (by decide) ?_
  refine hp.mov64i 3 33 rfl (by decide) ?_
  have hmsgid : (le16 (packetBytes pkt) 7).setWidth 64 |||
      (packetBytes pkt 9).setWidth 64 <<< 16 = (33 : U32).signExtend 64 ↔
      mavMsgid (packetBytes pkt) = 33 := by
    rw [msgid_register]
    exact setWidth_eq_signExtend (by decide)
  refine hp.jne64i 2 33 24 rfl (by decide) (fun hid => ?_) fun hid => ?_
  · refine hp.verdict 1 rfl rfl ?_
    have hnone : reportedCell pkt = none := if_neg (mt hmsgid.mpr hid)
    unfold ScreenPost
    rw [hnone]
    exact ⟨rfl, rfl, f, rfl, hmap⟩
  have hcell : reportedCell pkt = some (packetCell (packetBytes pkt)) := if_pos (hmsgid.mp hid)
  -- the grid cell
  refine hp.ldxw hpkt 4 1 10 rfl (by decide) (by decide) (by decide) rfl (fun _ => ?_)
    fun h => absurd h (htoo _ (by decide))
  refine hp.ldxw hpkt 5 1 14 rfl (by decide) (by decide) (by decide) rfl (fun _ => ?_)
    fun h => absurd h (htoo _ (by decide))
  refine hp.rsh64i 4 26 rfl (by decide) ?_
  refine hp.and64i 4 7 rfl (by decide) ?_
  refine hp.rsh64i 5 26 rfl (by decide) ?_
  refine hp.and64i 5 7 rfl (by decide) ?_
  refine hp.sll64i 4 3 rfl (by decide) ?_
  refine hp.or64 4 5 rfl (by decide) ?_
  exact policyConflict_count hp hcells hmap hm (wordCell_lt _ _) (cell_register _ _) hcell

end Run

/-! ## Sequences of runs -/

/-- Runs in order, each on the map the one before left behind. -/
def ebpfRuns (undef : CExpr → U64) (fuel : Nat) :
    List EbpfProg → Option (U32 → U32) → Option (List EbpfResult × Option (U32 → U32))
  | [], map => some ([], map)
  | p :: ps, map =>
    (ebpfRun undef { p with map := map } fuel).bind fun r =>
      (ebpfRuns undef fuel ps r.map).map fun (rs, map') => (r :: rs, map')

/-- The run of the screening policy over a packet that reaches past the
    longitude. -/
structure ScreensPacket (p : EbpfProg) (pkt : List U8) : Prop where
  ins : p.ins = policyConflict
  cnt : p.insnCnt = POLICY_CONFLICT_CNT
  cells : p.mapCells = 64
  steps : 34 ≤ p.maxSteps.toNat
  presents : p.Presents pkt
  long : 18 ≤ pkt.length

section Sequences
variable {undef : CExpr → U64} {p : EbpfProg} {pkt : List U8} {f : U32 → U32} {m : Nat → Nat}

/-- One packet of a sequence. -/
theorem ScreensPacket.run (h : ScreensPacket p pkt) (hmap : MapHolds f m)
    (hm : ∀ d < 64, m d + 1 < 2 ^ 32) :
    ∃ r, (∀ fuel, 34 ≤ fuel → ebpfRun undef { p with map := some f } fuel = some r) ∧
      ScreenPost m pkt r.fault r.retval r.map := by
  let q : EbpfProg := { p with map := some f }
  have hq : q.Holds POLICY_CONFLICT :=
    ⟨by decide, by rw [show q.insnCnt = p.insnCnt from rfl, h.cnt]; rfl,
      fun _ _ => congrFun h.ins _⟩
  have hpkt : q.Presents pkt := ⟨h.presents.size, h.presents.fits, h.presents.bytes⟩
  exact hq.run (by decide) h.steps (policyConflict_yields hq h.cells hpkt h.long hmap hm)

/-- The count of a cell grows by one packet at most. -/
theorem screenStep_le (m : Nat → Nat) (o : Option Nat) (d : Nat) : (screenStep m o).1 d ≤ m d + 1 := by
  cases o with
  | none => exact Nat.le_succ _
  | some c =>
    show (if d = c then m d + 1 else m d) ≤ _
    split <;> omega

/-- A sequence of runs is a run of the counting machine. -/
theorem ebpfRuns_screen {ps : List EbpfProg} {pkts : List (List U8)}
    (h : List.Forall₂ ScreensPacket ps pkts) (hmap : MapHolds f m)
    (hm : ∀ d < 64, m d + pkts.length < 2 ^ 32) :
    ∃ rs g, (∀ fuel, 34 ≤ fuel → ebpfRuns undef fuel ps (some f) = some (rs, some g)) ∧
      rs.map (fun r => (r.fault, r.retval)) =
        (Mealy.outputs screenStep m (pkts.map reportedCell)).map
          (fun v => (EbpfFault.ok, BitVec.ofNat 64 v)) ∧
      MapHolds g (Mealy.final screenStep m (pkts.map reportedCell)) := by
  induction h generalizing f m with
  | nil => exact ⟨[], f, fun _ _ => rfl, rfl, hmap⟩
  | @cons p pkt ps pkts hscreen _ ih =>
    rw [List.length_cons] at hm
    obtain ⟨r, hr, hok, hval, g, hg, hmap'⟩ :=
      hscreen.run hmap fun d hd => by
        have := hm d hd
        omega
    obtain ⟨rs, g', hrs, hout, hfinal⟩ := ih hmap' fun d hd => by
      have := hm d hd
      have := screenStep_le m (reportedCell pkt) d
      omega
    refine ⟨r :: rs, g', fun fuel hfuel => ?_, ?_, hfinal⟩
    · rw [ebpfRuns, hr fuel hfuel, Option.bind_some, hg, hrs fuel hfuel]
      rfl
    · rw [List.map_cons, List.map_cons, Mealy.outputs_cons, List.map_cons, hout, hok, hval]

/-! ## The counts -/

/-- How many packets report cell `c`. -/
def cellCount (pkts : List (List U8)) (c : Nat) : Nat :=
  pkts.countP fun pkt => reportedCell pkt = some c

/-- The counting machine counts. -/
theorem final_screenStep (m : Nat → Nat) (pkts : List (List U8)) (c : Nat) :
    Mealy.final screenStep m (pkts.map reportedCell) c = m c + cellCount pkts c := by
  induction pkts generalizing m with
  | nil => rfl
  | cons pkt pkts ih =>
    rw [List.map_cons, Mealy.final_cons, ih]
    unfold cellCount
    rw [List.countP_cons]
    cases hcell : reportedCell pkt with
    | none => simp [screenStep]
    | some d =>
      show (if c = d then m c + 1 else m c) + _ = _
      by_cases hcd : c = d
      · subst hcd
        simp
        omega
      · simp [hcd, Ne.symm hcd]

/-- What the machine answers a packet in a sequence. -/
theorem screenStep_verdict (pkts : List (List U8)) {i : Nat} {pkt : List U8}
    (hi : pkts[i]? = some pkt) :
    (screenStep (Mealy.final screenStep (fun _ => 0) ((pkts.take i).map reportedCell))
        (reportedCell pkt)).2 =
      if mavMsgid (packetBytes pkt) = 33 ∧
        Crowded (cellCount (pkts.take (i + 1))) (packetCell (packetBytes pkt)) then 5 else 1 := by
  have hnow : Mealy.final screenStep (fun _ => 0) ((pkts.take (i + 1)).map reportedCell) =
      cellCount (pkts.take (i + 1)) := by
    funext c
    rw [final_screenStep, Nat.zero_add]
  have htake : pkts.take (i + 1) = pkts.take i ++ [pkt] := by
    rw [List.take_add_one, hi]
    rfl
  have hstep : cellCount (pkts.take (i + 1)) =
      (screenStep (Mealy.final screenStep (fun _ => 0) ((pkts.take i).map reportedCell))
        (reportedCell pkt)).1 := by
    rw [← hnow, htake, List.map_append, Mealy.final_append]
    rfl
  rw [hstep]
  unfold reportedCell
  by_cases hid : mavMsgid (packetBytes pkt) = 33
  · rw [if_pos hid]
    simp only [hid, true_and]
    rfl
  · rw [if_neg hid, if_neg fun h => hid h.1]
    rfl

theorem cellCount_le (pkts : List (List U8)) (c : Nat) : cellCount pkts c ≤ pkts.length :=
  List.countP_le_length

/-- What a sequence of screened packets ends with: no fault, the verdict of
    each packet by the counts up to and including it, and the counts. -/
structure SequenceScreened (pkts : List (List U8)) (rs : List EbpfResult) (g : U32 → U32) :
    Prop where
  length : rs.length = pkts.length
  verdict : ∀ (i : Nat) (pkt : List U8), pkts[i]? = some pkt → ∃ r, rs[i]? = some r ∧
    r.fault = .ok ∧
    r.retval = if mavMsgid (packetBytes pkt) = 33 ∧
      Crowded (cellCount (pkts.take (i + 1))) (packetCell (packetBytes pkt)) then 5 else 1
  counts : ∀ c < 64, (g (BitVec.ofNat 32 c)).toNat = cellCount pkts c

/-- Packets screened in order, on a map that starts at zero. -/
theorem ebpfRuns_counts (undef : CExpr → U64) {ps : List EbpfProg} {pkts : List (List U8)}
    (h : List.Forall₂ ScreensPacket ps pkts) (hcount : pkts.length < 2 ^ 32) :
    ∃ rs g, (∀ fuel, 34 ≤ fuel → ebpfRuns undef fuel ps (some fun _ => 0) = some (rs, some g)) ∧
      SequenceScreened pkts rs g := by
  obtain ⟨rs, g, hrun, hout, hmap⟩ := ebpfRuns_screen (f := fun _ => 0)
    (m := fun _ => 0) h (fun _ _ => rfl) (fun _ _ => by omega)
  have hlen := congrArg List.length hout
  rw [List.length_map, List.length_map, Mealy.length_outputs, List.length_map] at hlen
  refine ⟨rs, g, hrun, hlen, fun i pkt hi => ?_, fun c hc => ?_⟩
  · have hget : (rs.map fun r => (r.fault, r.retval))[i]? = _ := congrArg (fun l => l[i]?) hout
    rw [List.getElem?_map, List.getElem?_map, Mealy.getElem?_outputs, List.getElem?_map, hi,
      Option.map_some, Option.map_some, Option.map_some, ← List.map_take,
      screenStep_verdict pkts hi] at hget
    obtain ⟨r, hr, heq⟩ := Option.map_eq_some_iff.mp hget
    refine ⟨r, hr, congrArg Prod.fst heq, (congrArg Prod.snd heq).trans ?_⟩
    split <;> rfl
  · have hle := cellCount_le pkts c
    rw [hmap c hc, final_screenStep, Nat.zero_add, BitVec.toNat_ofNat, Nat.mod_eq_of_lt (by omega)]

end Sequences

end Interclus

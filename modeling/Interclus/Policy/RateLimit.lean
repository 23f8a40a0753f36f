import Interclus.Policy.Screening

/-! # Rate Limiting

    The example policy of `modules/examples/rate_limit.h` counts the frames
    of each message class in its map and lets three of a class pass.  A run
    over one packet is one turn of a counting machine, and so is a sequence
    of runs with a shared map.  The cells are 32 bits wide: a class that has
    sent `2 ^ 32` frames starts over. -/

namespace Interclus

open Words

/-! ## The listing -/

def RATE_LIMIT : List U64 := [
  LDXB 2 1 7,
  LDXB 3 1 8,
  SLL64I 3 8,
  OR64 2 3,
  LDXB 3 1 9,
  SLL64I 3 16,
  OR64 2 3,
  AND64I 2 63,
  MOV64 1 2,
  CALL 1,
  ADD64I 0 1,
  MOV64 6 0,
  MOV64 1 2,
  MOV64 2 6,
  CALL 2,
  JGT64I 6 3 2,
  MOV64I 0 1,
  EXIT,
  MOV64I 0 5,
  EXIT]

def RATE_LIMIT_CNT : U32 := 20
def RATE_LIMIT_MAP_CELLS : U32 := 64

def rateLimit : Nat → U64 := fun i => RATE_LIMIT.getD i 0

/-! ## The counting machine -/

/-- The cell of a message class: the low six bits of the message id. -/
def classCell (b : Mem) : Nat := (mavMsgid b).toNat % 64

/-- The class a packet counts for; one that ends before its message id
    counts for none. -/
def rateClass (pkt : List U8) : Option Nat :=
  if 10 ≤ pkt.length then some (classCell (packetBytes pkt)) else none

/-- One packet: the counts it leaves, its fault and its verdict. -/
def rateStep (m : Nat → Nat) : Option Nat → (Nat → Nat) × EbpfFault × Nat
  | none => (m, .mem, 0)
  | some c => (fun d => if d = c then m d + 1 else m d, .ok, if m c % 2 ^ 32 < 3 then 1 else 5)

/-- A run over a packet is one turn of the counting machine. -/
def RatePost (m : Nat → Nat) (pkt : List U8) : RunPost := fun f v map =>
  f = (rateStep m (rateClass pkt)).2.1 ∧
    v = BitVec.ofNat 64 (rateStep m (rateClass pkt)).2.2 ∧
    ∃ g, map = some g ∧ MapHolds g (rateStep m (rateClass pkt)).1

/-! ## One run -/

section Run
variable {undef : CExpr → U64} {p : EbpfProg} {n c : Nat} {regs : RegFile} {f : U32 → U32}
  {m : Nat → Nat}

/-- The class as the bytecode puts it together from the message id. -/
theorem class_register (b : Mem) :
    ((b 7).setWidth 64 ||| (b 8).setWidth 64 <<< 8 ||| (b 9).setWidth 64 <<< 16) &&&
      (63 : U32).signExtend 64 = BitVec.ofNat 64 (classCell b) := by
  have hid : (b 7).setWidth 64 ||| (b 8).setWidth 64 <<< 8 ||| (b 9).setWidth 64 <<< 16 =
      (mavMsgid b).setWidth 64 := by
    unfold mavMsgid
    rw [BitVec.setWidth_or, BitVec.setWidth_or,
      setWidth_shiftLeft_byte _ _ (by decide) (by decide),
      setWidth_shiftLeft_byte _ _ (by decide) (by decide), setWidth_setWidth_byte _ (by decide)]
  have hmask : ((63 : U32).signExtend 64).toNat = 2 ^ 6 - 1 := by decide
  have hlt := (mavMsgid b).isLt
  rw [hid]
  apply BitVec.eq_of_toNat_eq
  rw [BitVec.toNat_and, hmask, Nat.and_two_pow_sub_one_eq_mod, BitVec.toNat_setWidth,
    BitVec.toNat_ofNat]
  unfold classCell
  omega

/-- The count of a cell, with the packet at hand. -/
theorem count_next (hmap : MapHolds f m) (hc : c < 64) :
    (f (BitVec.ofNat 32 c)).setWidth 64 + (1 : U32).signExtend 64 =
      BitVec.ofNat 64 (m c % 2 ^ 32 + 1) := by
  have h1 : ((1 : U32).signExtend 64).toNat = 1 := by decide
  rw [hmap c hc]
  apply BitVec.eq_of_toNat_eq
  rw [BitVec.toNat_add, h1, BitVec.toNat_setWidth, BitVec.toNat_ofNat, BitVec.toNat_ofNat]
  omega

/-- From the helper calls on, with the class in `r2`. -/
theorem rateLimit_count (hp : p.Holds RATE_LIMIT) (hcells : p.mapCells = RATE_LIMIT_MAP_CELLS)
    (hmap : MapHolds f m) (hc : c < 64) (hr2 : regs 2 = BitVec.ofNat 64 c) {pkt : List U8}
    (hpkt : rateClass pkt = some c) :
    p.Yields undef (n + 10) regs 8 (some f) (RatePost m pkt) := by
  have husable : mapUsable p.mapCells := by
    rw [hcells]
    decide
  have hidx : mapIndex p.mapCells (BitVec.ofNat 64 c) = BitVec.ofNat 32 c := by
    rw [hcells]
    exact mapIndex_cell hc
  have hnext := count_next hmap hc
  have hstored : ((f (BitVec.ofNat 32 c)).setWidth 64 + (1 : U32).signExtend 64).setWidth 32 =
      BitVec.ofNat 32 (m c + 1) := by
    rw [hnext]
    apply BitVec.eq_of_toNat_eq
    rw [BitVec.toNat_setWidth, BitVec.toNat_ofNat, BitVec.toNat_ofNat]
    omega
  have hpost : ∀ v : U32, v.toNat = (if m c % 2 ^ 32 < 3 then 1 else 5) →
      RatePost m pkt .ok (v.signExtend 64)
        (some fun d => if d = BitVec.ofNat 32 c then BitVec.ofNat 32 (m c + 1) else f d) := by
    intro v hv
    unfold RatePost
    rw [hpkt]
    refine ⟨rfl, ?_, _, rfl, hmap.bump hc⟩
    show v.signExtend 64 = BitVec.ofNat 64 (if m c % 2 ^ 32 < 3 then 1 else 5)
    rw [← hv]
    have hsmall : v = 1 ∨ v = 5 := by
      split at hv <;> bv_omega
    rcases hsmall with rfl | rfl <;> rfl
  -- read the count, add the packet at hand, write it back
  refine hp.mov64 1 2 rfl (by decide) ?_
  refine hp.call1 husable rfl ((congrArg (mapIndex p.mapCells) hr2).trans hidx) ?_
  refine hp.add64i 0 1 rfl (by decide) ?_
  refine hp.mov64 6 0 rfl (by decide) ?_
  refine hp.mov64 1 2 rfl (by decide) ?_
  refine hp.mov64 2 6 rfl (by decide) ?_
  refine hp.call2 husable rfl ((congrArg (mapIndex p.mapCells) hr2).trans hidx) hstored ?_
  refine hp.jgt64i 6 3 2 rfl (by decide)
    (fun (h : _ < (f (BitVec.ofNat 32 c)).setWidth 64 + (1 : U32).signExtend 64) => ?_)
    fun (h : (f (BitVec.ofNat 32 c)).setWidth 64 + (1 : U32).signExtend 64 ≤ _) => ?_
  · rw [hnext, count_register (by omega)] at h
    exact hp.verdict 5 rfl rfl (hpost 5 (if_neg (by omega)).symm)
  · rw [hnext] at h
    have hfew := mt (count_register (by omega)).mpr (BitVec.not_lt.mpr h)
    exact hp.verdict 1 rfl rfl (hpost 1 (if_pos (by omega)).symm)

/-- The listing, executed symbolically over a packet of any length. -/
theorem rateLimit_yields (hp : p.Holds RATE_LIMIT) (hcells : p.mapCells = RATE_LIMIT_MAP_CELLS)
    {pkt : List U8} (hpkt : p.Presents pkt) (hmap : MapHolds f m) :
    p.Yields undef 20 (entryRegs p) 0 (some f) (RatePost m pkt) := by
  -- a packet that ends before its message id counts nowhere
  have hshort : ∀ k ≤ 10, pkt.length < k → RatePost m pkt .mem 0 (some f) := by
    intro k hk hlen
    have hnone : rateClass pkt = none := if_neg (by omega)
    unfold RatePost
    rw [hnone]
    exact ⟨rfl, rfl, f, rfl, hmap⟩
  refine hp.ldxb hpkt 2 1 7 rfl (by decide) (by decide) (by decide) rfl (fun _ => ?_)
    (hshort 8 (by decide))
  refine hp.ldxb hpkt 3 1 8 rfl (by decide) (by decide) (by decide) rfl (fun _ => ?_)
    (hshort 9 (by decide))
  refine hp.sll64i 3 8 rfl (by decide) ?_
  refine hp.or64 2 3 rfl (by decide) ?_
  refine hp.ldxb hpkt 3 1 9 rfl (by decide) (by decide) (by decide) rfl (fun hlong => ?_)
    (hshort 10 (by decide))
  refine hp.sll64i 3 16 rfl (by decide) ?_
  refine hp.or64 2 3 rfl (by decide) ?_
  refine hp.and64i 2 63 rfl (by decide) ?_
  exact rateLimit_count hp hcells hmap (Nat.mod_lt _ (by decide)) (class_register _) (if_pos hlong)

end Run

/-! ## Sequences of runs -/

/-- The run of the policy over a packet. -/
structure RatesPacket (p : EbpfProg) (pkt : List U8) : Prop where
  ins : p.ins = rateLimit
  cnt : p.insnCnt = RATE_LIMIT_CNT
  cells : p.mapCells = RATE_LIMIT_MAP_CELLS
  steps : 20 ≤ p.maxSteps.toNat
  presents : p.Presents pkt

section Sequences
variable {undef : CExpr → U64} {p : EbpfProg} {pkt : List U8} {f : U32 → U32} {m : Nat → Nat}

/-- One packet of a sequence. -/
theorem RatesPacket.run (h : RatesPacket p pkt) (hmap : MapHolds f m) :
    ∃ r, (∀ fuel, 20 ≤ fuel → ebpfRun undef { p with map := some f } fuel = some r) ∧
      RatePost m pkt r.fault r.retval r.map := by
  let q : EbpfProg := { p with map := some f }
  have hq : q.Holds RATE_LIMIT :=
    ⟨by decide, by rw [show q.insnCnt = p.insnCnt from rfl, h.cnt]; rfl,
      fun _ _ => congrFun h.ins _⟩
  have hpkt : q.Presents pkt := ⟨h.presents.size, h.presents.fits, h.presents.bytes⟩
  exact hq.run (by decide) h.steps (rateLimit_yields hq h.cells hpkt hmap)

/-- A sequence of runs is a run of the counting machine. -/
theorem ebpfRuns_rate {ps : List EbpfProg} {pkts : List (List U8)}
    (h : List.Forall₂ RatesPacket ps pkts) (hmap : MapHolds f m) :
    ∃ rs g, (∀ fuel, 20 ≤ fuel → ebpfRuns undef fuel ps (some f) = some (rs, some g)) ∧
      rs.map (fun r => (r.fault, r.retval)) =
        (Mealy.outputs rateStep m (pkts.map rateClass)).map
          (fun o => (o.1, BitVec.ofNat 64 o.2)) ∧
      MapHolds g (Mealy.final rateStep m (pkts.map rateClass)) := by
  induction h generalizing f m with
  | nil => exact ⟨[], f, fun _ _ => rfl, rfl, hmap⟩
  | @cons p pkt ps pkts hrates _ ih =>
    obtain ⟨r, hr, hfault, hval, g, hg, hmap'⟩ := hrates.run hmap
    obtain ⟨rs, g', hrs, hout, hfinal⟩ := ih hmap'
    refine ⟨r :: rs, g', fun fuel hfuel => ?_, ?_, hfinal⟩
    · rw [ebpfRuns, hr fuel hfuel, Option.bind_some, hg, hrs fuel hfuel]
      rfl
    · rw [List.map_cons, List.map_cons, Mealy.outputs_cons, List.map_cons, hout, hfault, hval]

/-- How many packets count for class `c`. -/
def classCount (pkts : List (List U8)) (c : Nat) : Nat :=
  pkts.countP fun pkt => rateClass pkt = some c

/-- The counting machine counts. -/
theorem final_rateStep (m : Nat → Nat) (pkts : List (List U8)) (c : Nat) :
    Mealy.final rateStep m (pkts.map rateClass) c = m c + classCount pkts c := by
  induction pkts generalizing m with
  | nil => rfl
  | cons pkt pkts ih =>
    rw [List.map_cons, Mealy.final_cons, ih]
    unfold classCount
    rw [List.countP_cons]
    cases hclass : rateClass pkt with
    | none => simp [rateStep]
    | some d =>
      show (if c = d then m c + 1 else m c) + _ = _
      by_cases hcd : c = d
      · subst hcd
        simp
        omega
      · simp [hcd, Ne.symm hcd]

/-- What a sequence of packets ends with.  A packet of class `c` passes as
    the first, second or third of its class since the count was last zero;
    a packet without a class faults; and the cells hold the counts. -/
structure SequenceRated (pkts : List (List U8)) (rs : List EbpfResult) (g : U32 → U32) :
    Prop where
  length : rs.length = pkts.length
  verdict : ∀ (i : Nat) (pkt : List U8), pkts[i]? = some pkt → ∃ r, rs[i]? = some r ∧
    match rateClass pkt with
    | none => r.fault = .mem ∧ r.retval = 0
    | some c => r.fault = .ok ∧
      r.retval = if classCount (pkts.take i) c % 2 ^ 32 < 3 then 1 else 5
  counts : ∀ c < 64, (g (BitVec.ofNat 32 c)).toNat = classCount pkts c % 2 ^ 32

/-- **Rate limiting.** The policy passes the verifier, and packets of any
    lengths rated in order with a step cap of at least 20, on a map that
    starts at zero, get the verdicts of their places in their classes. -/
theorem ebpfRuns_rates (undef : CExpr → U64) {ps : List EbpfProg} {pkts : List (List U8)}
    (h : List.Forall₂ RatesPacket ps pkts) :
    icProgramCheck (some rateLimit) RATE_LIMIT_CNT = .ok ∧
    ∃ rs g, (∀ fuel, 20 ≤ fuel → ebpfRuns undef fuel ps (some fun _ => 0) = some (rs, some g)) ∧
      SequenceRated pkts rs g := by
  obtain ⟨rs, g, hrun, hout, hmap⟩ := ebpfRuns_rate (f := fun _ => 0)
    (m := fun _ => 0) h (fun _ _ => rfl)
  have hlen := congrArg List.length hout
  rw [List.length_map, List.length_map, Mealy.length_outputs, List.length_map] at hlen
  refine ⟨by decide +kernel, rs, g, hrun, hlen, fun i pkt hi => ?_, fun c hc => ?_⟩
  · have hget : (rs.map fun r => (r.fault, r.retval))[i]? = _ := congrArg (fun l => l[i]?) hout
    rw [List.getElem?_map, List.getElem?_map, Mealy.getElem?_outputs, List.getElem?_map, hi,
      Option.map_some, Option.map_some, Option.map_some, ← List.map_take] at hget
    obtain ⟨r, hr, heq⟩ := Option.map_eq_some_iff.mp hget
    have hfault := congrArg Prod.fst heq
    have hval := congrArg Prod.snd heq
    refine ⟨r, hr, ?_⟩
    cases hclass : rateClass pkt with
    | none =>
      rw [hclass] at hfault hval
      exact ⟨hfault, hval⟩
    | some c =>
      rw [hclass] at hfault hval
      refine ⟨hfault, hval.trans ?_⟩
      show BitVec.ofNat 64 (if Mealy.final rateStep (fun _ => 0) _ c % 2 ^ 32 < 3 then 1 else 5) = _
      rw [final_rateStep, Nat.zero_add]
      split <;> rfl
  · rw [hmap c hc, final_rateStep, Nat.zero_add, BitVec.toNat_ofNat]

/-- A packet of message class one. -/
def classOne : List U8 := [0xFD, 0, 0, 0, 0, 0, 0, 1, 0, 0]

def classOneProg : EbpfProg where
  ins := rateLimit
  insnCnt := RATE_LIMIT_CNT
  mem := fun a => packetBytes classOne (a - 0x1000).toNat
  ctx := 0x1000
  ctxSize := 10
  maxSteps := 1000
  map := none
  mapCells := RATE_LIMIT_MAP_CELLS

/-- The fourth frame of a class alerts. -/
theorem ebpfRuns_rates_classOne :
    icProgramCheck (some rateLimit) RATE_LIMIT_CNT = .ok ∧
    ∃ rs g, (∀ fuel, 20 ≤ fuel → ebpfRuns (fun _ => 0) fuel (List.replicate 4 classOneProg)
        (some fun _ => 0) = some (rs, some g)) ∧
      SequenceRated (List.replicate 4 classOne) rs g ∧
      ∃ r, rs[3]? = some r ∧ r.retval = 5 := by
  have hpacket : RatesPacket classOneProg classOne :=
    ⟨rfl, rfl, rfl, by decide, rfl, by decide, by decide⟩
  obtain ⟨hok, rs, g, hrun, hrated⟩ := ebpfRuns_rates (fun _ => 0)
    (.cons hpacket (.cons hpacket (.cons hpacket (.cons hpacket .nil))) :
      List.Forall₂ RatesPacket (List.replicate 4 classOneProg) (List.replicate 4 classOne))
  obtain ⟨r, hr, hverdict⟩ := hrated.verdict 3 classOne rfl
  exact ⟨hok, rs, g, hrun, hrated, r, hr, hverdict.2⟩

end Sequences

end Interclus

import Interclus.Policy.Screening
import Interclus.Supervisor.Carried

/-! # The Alert Total

    `monitor_main` of `modules/monitor.c` in screening mode, the host's
    `mirror` of `tools/inject_swarm.py`, and the alert total that
    `supervisor_resume` stores: on a mailbox of position packets it is the
    number of alerts the mirror counts. -/

namespace Interclus

open Words

/-! ## The mirror -/

/-- `grid_cell`, on the integers a position packet carries. -/
def gridCell (lat lon : Int) : Nat := (lat >>> (26 : Nat) % 8 * 8 + lon >>> (26 : Nat) % 8).toNat

/-- A turn of the loop of `mirror`. -/
def mirrorStep (m : Nat → Nat) (c : Nat) : (Nat → Nat) × Nat :=
  let m := fun d => if d = c then m d + 1 else m d
  let left := m (((c : Int) - 1) % 64).toNat
  let right := m (((c : Int) + 1) % 64).toNat
  (m, if m c > 3 ∨ left > 3 ∨ right > 3 then 5 else 1)

/-- `mirror`. -/
def mirror (cells : List Nat) : List Nat := Mealy.outputs mirrorStep (fun _ => 0) cells

theorem mirrorStep_eq (m : Nat → Nat) (c : Nat) : mirrorStep m c = screenStep m (some c) := by
  have hleft : (((c : Int) - 1) % 64).toNat = leftCell c := by
    unfold leftCell
    omega
  have hright : (((c : Int) + 1) % 64).toNat = rightCell c := by
    unfold rightCell
    omega
  unfold mirrorStep
  rw [hleft, hright]
  rfl

/-- The mirror is the counting machine on packets that all report a cell. -/
theorem mirror_eq (cells : List Nat) :
    mirror cells = Mealy.outputs screenStep (fun _ => 0) (cells.map some) := by
  have hrun : ∀ m, Mealy.outputs mirrorStep m cells =
      Mealy.outputs screenStep m (cells.map some) := by
    induction cells with
    | nil => exact fun _ => rfl
    | cons c cells ih =>
      intro m
      rw [List.map_cons, Mealy.outputs_cons, Mealy.outputs_cons, mirrorStep_eq, ih]
  exact hrun _

/-- The host's cell of the signed words is the cell the bytecode computes. -/
theorem gridCell_toInt (lat lon : U32) : gridCell lat.toInt lon.toInt = wordCell lat lon := by
  have hlat := lat.isLt
  have hlon := lon.isLt
  rw [wordCell_eq]
  unfold gridCell
  rw [Int.shiftRight_eq_div_pow, Int.shiftRight_eq_div_pow, BitVec.toInt_eq_toNat_cond,
    BitVec.toInt_eq_toNat_cond]
  omega

/-! ## Screening mode -/

/-- The address of `MON_DATA`. -/
def monDataAddr (t : Target) : U32 := MON_BOX t + 0xA00

/-- What screening mode hands to `ebpf_run` for packet `i`. -/
def screeningProg (t : Target) (m : MonBox) (i : Nat) : EbpfProg where
  ins := policyConflict
  insnCnt := POLICY_CONFLICT_CNT
  mem := fun a => m.data (a - (monDataAddr t).setWidth 64).toNat
  ctx := (monDataAddr t + m.sOff i).setWidth 64
  ctxSize := m.sSizes i
  maxSteps := 1000000
  map := some fun c => m.map c.toNat
  mapCells := BitVec.ofNat 32 MAP_CELLS

section Screening
variable (undef : CExpr → U64) (t : Target)

/-- A turn of the loop over the swarm. -/
def screeningTurn (m : MonBox) (i : Nat) : Option MonBox :=
  (ebpfRun undef (screeningProg t m i) 1000001).map fun r =>
    { m with
      screenVerd := fun j => if j = i then r.retval.setWidth 32 else m.screenVerd j
      screenInsns := fun j => if j = i then r.insnsExecuted else m.screenInsns j
      map :=
        match r.map with
        | some f => fun c => if c < MAP_CELLS then f (BitVec.ofNat 32 c) else m.map c
        | none => m.map }

/-- `monitor_main` in screening mode. -/
def screeningPhase (m : MonBox) : Option MonBox :=
  (List.range m.confN.toInt.toNat).foldlM (screeningTurn undef t)
    { m with map := fun c => if c < MAP_CELLS then 0 else m.map c }

/-- `monitor_main`. -/
def monitorMain (m : MonBox) : Option MonBox :=
  if m.mode = 2 then some (nativeFilter m)
  else if m.mode = 1 then screeningPhase undef t m
  else filterPhase undef t m

end Screening

/-! ## The verdicts of a swarm -/

/-- Packet `i` of the monitor's data: 42 bytes at a multiple of 42. -/
structure SwarmStaged (m : MonBox) (pkts : List (List U8)) : Prop where
  le : pkts.length ≤ 64
  off : ∀ i < pkts.length, m.sOff i = BitVec.ofNat 32 (i * 42)
  sizes : ∀ i < pkts.length, m.sSizes i = 42
  data : ∀ (i : Nat) (pkt : List U8), pkts[i]? = some pkt → pkt = bytesAt m.data (i * 42) 42

theorem packetBytes_bytesAt {m : Mem} {off n k : Nat} (hk : k < n) :
    packetBytes (bytesAt m off n) k = m (off + k) := by
  unfold packetBytes bytesAt
  rw [List.getD_eq_getElem?_getD, List.getElem?_map, List.getElem?_range hk]
  rfl

section Verdicts
variable {undef : CExpr → U64} {t : Target} {m : MonBox} {pkts : List (List U8)}

theorem screeningProg_screens (h : SwarmStaged m pkts) {i : Nat} {pkt : List U8}
    (hi : pkts[i]? = some pkt) : ScreensPacket (screeningProg t m i) pkt := by
  obtain ⟨hlt, -⟩ := List.getElem?_eq_some_iff.mp hi
  have hle := h.le
  have hpkt := h.data i pkt hi
  have hlen : pkt.length = 42 := by
    rw [hpkt, length_bytesAt]
  have haddr : (monDataAddr t).toNat + 64 * 42 < 2 ^ 32 := by
    cases t <;> decide
  have hctx : (screeningProg t m i).ctx.toNat = (monDataAddr t).toNat + i * 42 := by
    show ((monDataAddr t + m.sOff i).setWidth 64).toNat = _
    rw [h.off i hlt, BitVec.toNat_setWidth, BitVec.toNat_add, BitVec.toNat_ofNat]
    omega
  refine ⟨rfl, rfl, rfl, show 34 ≤ (1000000 : U32).toNat by decide, ⟨?_, ?_, ?_⟩, by omega⟩
  · rw [hlen]
    exact congrArg BitVec.toNat (h.sizes i hlt)
  · rw [hctx, hlen]
    omega
  · intro k hk
    rw [hlen] at hk
    have hoff : ((screeningProg t m i).ctx + BitVec.ofNat 64 k -
        (monDataAddr t).setWidth 64).toNat = i * 42 + k := by
      rw [BitVec.toNat_sub, BitVec.toNat_add, hctx, BitVec.toNat_ofNat, BitVec.toNat_setWidth]
      omega
    rw [hpkt, packetBytes_bytesAt hk]
    exact congrArg m.data hoff

/-- The verdicts the counting machine gives the packets. -/
def swarmVerdicts (pkts : List (List U8)) : List Nat :=
  Mealy.outputs screenStep (fun _ => 0) (pkts.map reportedCell)

theorem ScreensPacket.withMap {p : EbpfProg} {pkt : List U8} (h : ScreensPacket p pkt)
    (map : Option (U32 → U32)) : ScreensPacket { p with map := map } pkt :=
  ⟨h.ins, h.cnt, h.cells, h.steps, ⟨h.presents.size, h.presents.fits, h.presents.bytes⟩, h.long⟩

/-- The box after some turns of the loop. -/
def MonBox.screened (m : MonBox) (verd insns map : Nat → U32) : MonBox :=
  { m with screenVerd := verd, screenInsns := insns, map := map }

theorem SwarmStaged.screened (h : SwarmStaged m pkts) (verd insns map : Nat → U32) :
    SwarmStaged (m.screened verd insns map) pkts := ⟨h.le, h.off, h.sizes, h.data⟩

/-- Step lemma: packet `k`, behind the counts of the packets before it. -/
theorem screeningTurn_swarm (h : SwarmStaged m pkts) {k : Nat} {pkt : List U8}
    (hk : pkts[k]? = some pkt) (verd insns : Nat → U32) {map : Nat → U32} {counts : Nat → Nat}
    (hmap : MapHolds (fun c => map c.toNat) counts) (hcounts : ∀ d < 64, counts d + 1 < 2 ^ 32) :
    ∃ verd' insns' map',
      screeningTurn undef t (m.screened verd insns map) k =
        some (m.screened verd' insns' map') ∧
      MapHolds (fun c => map' c.toNat) (screenStep counts (reportedCell pkt)).1 ∧
      verd' k = BitVec.ofNat 32 (screenStep counts (reportedCell pkt)).2 ∧
      ∀ j, j ≠ k → verd' j = verd j := by
  obtain ⟨r, hrun, hok, hval, g, hg, hmap'⟩ :=
    (screeningProg_screens (t := t) (h.screened verd insns map) hk).run hmap hcounts
  have hrun' : ebpfRun undef (screeningProg t (m.screened verd insns map) k) 1000001 = some r :=
    hrun 1000001 (by decide)
  refine ⟨fun j => if j = k then r.retval.setWidth 32 else verd j,
    fun j => if j = k then r.insnsExecuted else insns j,
    fun c => if c < MAP_CELLS then g (BitVec.ofNat 32 c) else map c, ?_, fun c hc => ?_, ?_,
    fun j hj => if_neg hj⟩
  · unfold screeningTurn
    rw [hrun', Option.map_some, hg]
    rfl
  · have hnat : (BitVec.ofNat 32 c).toNat = c := by
      rw [BitVec.toNat_ofNat]
      omega
    dsimp only
    rw [hnat]
    exact (if_pos (show c < MAP_CELLS from hc)).trans (hmap' c hc)
  · refine (if_pos rfl).trans ?_
    rw [hval]
    apply BitVec.eq_of_toNat_eq
    rw [BitVec.toNat_setWidth, BitVec.toNat_ofNat, BitVec.toNat_ofNat]
    omega

/-- Run lemma: the loop over the first `k` packets. -/
theorem screeningTurns (h : SwarmStaged m pkts) {k : Nat} (hk : k ≤ pkts.length) :
    ∃ verd insns map,
      (List.range k).foldlM (screeningTurn undef t)
        { m with map := fun c => if c < MAP_CELLS then 0 else m.map c } =
          some (m.screened verd insns map) ∧
      MapHolds (fun c => map c.toNat)
        (Mealy.final screenStep (fun _ => 0) ((pkts.take k).map reportedCell)) ∧
      ∀ (j : Nat) (v : Nat), j < k → (swarmVerdicts pkts)[j]? = some v →
        verd j = BitVec.ofNat 32 v := by
  induction k with
  | zero =>
    refine ⟨m.screenVerd, m.screenInsns, _, rfl, fun c hc => if_pos ?_, fun _ _ hj => ?_⟩
    · rw [BitVec.toNat_ofNat]
      unfold MAP_CELLS
      omega
    · exact absurd hj (Nat.not_lt_zero _)
  | succ k ih =>
    obtain ⟨verd, insns, map, hloop, hmap, hverd⟩ := ih (by omega)
    have hle := h.le
    have hi : pkts[k]? = some pkts[k] := List.getElem?_eq_getElem (by omega)
    have hcounts : ∀ d < 64,
        Mealy.final screenStep (fun _ => 0) ((pkts.take k).map reportedCell) d + 1 < 2 ^ 32 := by
      intro d _
      have hcount := cellCount_le (pkts.take k) d
      rw [List.length_take] at hcount
      rw [final_screenStep]
      omega
    obtain ⟨verd', insns', map', hturn, hmap', hnew, hold⟩ :=
      screeningTurn_swarm (t := t) h hi verd insns hmap hcounts
    refine ⟨verd', insns', map', ?_, ?_, fun j v hj hv => ?_⟩
    · rw [List.range_succ, List.foldlM_append, hloop]
      show (screeningTurn undef t (m.screened verd insns map) k >>= pure) = _
      rw [hturn]
      rfl
    · rw [List.take_add_one, hi, List.map_append, Mealy.final_append]
      exact hmap'
    · by_cases hjk : j = k
      · subst hjk
        unfold swarmVerdicts at hv
        rw [Mealy.getElem?_outputs, List.getElem?_map, hi, ← List.map_take] at hv
        rw [hnew, ← Option.some.inj hv]
      · rw [hold j hjk]
        exact hverd j v (by omega) hv

/-- Screening mode ends, with the verdicts of the counting machine. -/
theorem screeningPhase_swarm (h : SwarmStaged m pkts)
    (hn : m.confN = BitVec.ofNat 32 pkts.length) :
    ∃ verd insns map, screeningPhase undef t m = some (m.screened verd insns map) ∧
      ∀ (j : Nat) (v : Nat), (swarmVerdicts pkts)[j]? = some v → verd j = BitVec.ofNat 32 v := by
  have hle := h.le
  have hcount : m.confN.toInt.toNat = pkts.length := by
    rw [hn, BitVec.toInt_eq_toNat_cond, BitVec.toNat_ofNat]
    omega
  obtain ⟨verd, insns, map, hloop, -, hverd⟩ :=
    screeningTurns (t := t) h (Nat.le_refl _)
  refine ⟨verd, insns, map, ?_, fun j v hv => hverd j v ?_ hv⟩
  · unfold screeningPhase
    rw [hcount]
    exact hloop
  · obtain ⟨hj, -⟩ := List.getElem?_eq_some_iff.mp hv
    unfold swarmVerdicts at hj
    rwa [Mealy.length_outputs, List.length_map] at hj

end Verdicts

/-! ## The supervisor's total -/

/-- A committed mailbox of `pkts`. -/
structure MailboxSwarm (s : Sup) (pkts : List (List U8)) : Prop where
  magic : le32 s.mailbox 0 = MO_SHU
  count : le32 s.mailbox 4 = BitVec.ofNat 32 pkts.length
  pos : 1 ≤ pkts.length
  le : pkts.length ≤ 64
  data : ∀ (i : Nat) (pkt : List U8), pkts[i]? = some pkt → pkt = bytesAt s.mailbox (8 + i * 42) 42

/-- A round whose monitor has this swarm to screen. -/
structure RoundSwarm (s : Sup) (pkts : List (List U8)) : Prop where
  staged : SwarmStaged s.mon pkts
  confN : s.mon.confN = BitVec.ofNat 32 pkts.length
  conflictN : s.conflictN = BitVec.ofNat 32 pkts.length

section Total
variable {b : Build} {s : Sup} {pkts : List (List U8)}

theorem scheduleRound_swarm (h : MailboxSwarm s pkts) :
    RoundSwarm (scheduleRound b s) pkts ∧ (scheduleRound b s).phase = 1 := by
  have hle := h.le
  have hcnt : (le32 s.mailbox 4).toNat = pkts.length := by
    rw [h.count, BitVec.toNat_ofNat]
    omega
  have hguard : le32 s.mailbox 0 = MO_SHU ∧ 1 ≤ le32 s.mailbox 4 ∧ le32 s.mailbox 4 ≤ MAX_SWARM := by
    have hpos := h.pos
    have hmax : MAX_SWARM.toNat = 64 := by decide
    have hone : (1 : U32).toNat = 1 := by decide
    refine ⟨h.magic, ?_, ?_⟩
    · rw [BitVec.le_def]
      omega
    · rw [BitVec.le_def]
      omega
  unfold scheduleRound
  dsimp only
  rw [if_pos hguard]
  obtain ⟨status, comp, ctl, henter, -⟩ := enterChecked_frame 0 _
  rw [henter]
  refine ⟨⟨⟨hle, fun i hi => ?_, fun i hi => ?_, fun i pkt hi => ?_⟩, h.count, h.count⟩, rfl⟩
  · exact if_pos (hcnt ▸ hi)
  · exact if_pos (hcnt ▸ hi)
  · obtain ⟨hlt, -⟩ := List.getElem?_eq_some_iff.mp hi
    rw [h.data i pkt hi]
    unfold bytesAt
    refine List.map_congr_left fun k hk => ?_
    have hk42 := List.mem_range.mp hk
    have hin : i * 42 + k < (le32 s.mailbox 4).toNat * 42 := by omega
    rw [Nat.add_assoc]
    exact (if_pos hin).symm

/-- What the monitor may write leaves the swarm alone. -/
theorem UserEffect.apply_swarm (eff : UserEffect) (h : RoundSwarm s pkts) :
    RoundSwarm (eff.apply s) pkts ∧ (eff.apply s).phase = s.phase := by
  have hs := h.staged
  cases eff <;> exact ⟨⟨⟨hs.le, hs.off, hs.sizes, hs.data⟩, h.confN, h.conflictN⟩, rfl⟩

theorem rollback_swarm (h : RoundSwarm s pkts) : RoundSwarm (rollback s) pkts := by
  have hs := h.staged
  unfold rollback
  split
  · split <;> exact ⟨⟨hs.le, hs.off, hs.sizes, hs.data⟩, h.confN, h.conflictN⟩
  · exact h

/-- From the filter phase to the screening phase. -/
theorem trapEcall_swarm (h : RoundSwarm s pkts) (hphase : s.phase = 1) (regs : Fin 32 → U32) :
    RoundSwarm (trapEcall b regs s) pkts ∧ (trapEcall b regs s).phase = 2 ∧
      (trapEcall b regs s).mon.mode = 1 := by
  have hs := h.staged
  have hnoted : RoundSwarm (noteVerdicts { s with comp := saveTcb regs s.comp }) pkts :=
    ⟨⟨hs.le, hs.off, hs.sizes, hs.data⟩, h.confN, h.conflictN⟩
  have hrolled := rollback_swarm hnoted
  have hr := hrolled.staged
  unfold trapEcall supervisorResume
  rw [if_pos hphase]
  unfold nextMode
  obtain ⟨status, comp, ctl, henter, -⟩ := enterChecked_frame 0 _
  rw [henter]
  exact ⟨⟨⟨hr.le, hr.off, hr.sizes, hr.data⟩, hrolled.confN, hrolled.conflictN⟩, rfl, rfl⟩

/-- At the end of the screening phase the alerts are counted. -/
theorem trapEcall_alerts (hphase : s.phase = 2) (regs : Fin 32 → U32) :
    (trapEcall b regs s).status S_JINGBAO = BitVec.ofNat 32
      ((List.range s.conflictN.toNat).countP fun i => s.mon.screenVerd i = 5) := by
  have hne : ¬ s.phase = 1 := by
    rw [hphase]
    decide
  unfold trapEcall supervisorResume
  rw [if_neg hne, if_pos hphase]
  unfold nextMode enterChecked
  split
  · rfl
  · split <;> rfl

/-- A count over a table is the count over the list it holds. -/
theorem countP_range_eq {α : Type} (l : List α) (q : α → Bool) (f : Nat → Bool)
    (h : ∀ i a, l[i]? = some a → f i = q a) : (List.range l.length).countP f = l.countP q := by
  induction l generalizing f with
  | nil => rfl
  | cons a l ih =>
    rw [List.length_cons, List.range_succ_eq_map, List.countP_cons, List.countP_cons,
      List.countP_map, h 0 a rfl, ih (f ∘ Nat.succ) fun i c hi => h (i + 1) c hi]

theorem swarmVerdicts_mem (pkts : List (List U8)) : ∀ v ∈ swarmVerdicts pkts, v = 1 ∨ v = 5 := by
  refine (@Mealy.forall_outputs _ _ _ screenStep (fun _ => True) _ (fun m o _ => ⟨trivial, ?_⟩) _ _
    trivial).2
  cases o with
  | none => exact .inl rfl
  | some c =>
    show (if _ then 5 else 1) = 1 ∨ (if _ then 5 else 1) = 5
    split
    · exact .inr rfl
    · exact .inl rfl

/-- The verdicts of position packets are the mirror's. -/
theorem swarmVerdicts_mirror (h : ∀ pkt ∈ pkts, mavMsgid (packetBytes pkt) = 33) :
    swarmVerdicts pkts = mirror (pkts.map fun pkt =>
      gridCell (le32 (packetBytes pkt) 10).toInt (le32 (packetBytes pkt) 14).toInt) := by
  rw [mirror_eq]
  unfold swarmVerdicts
  rw [List.map_map]
  refine congrArg _ (List.map_congr_left fun pkt hpkt => ?_)
  rw [Function.comp_apply, gridCell_toInt]
  exact if_pos (h pkt hpkt)

/-- A mailbox of position packets, through a round: the alert total is the
    mirror's. -/
theorem round_alerts (undef : CExpr → U64) (h : MailboxSwarm s pkts)
    (hid : ∀ pkt ∈ pkts, mavMsgid (packetBytes pkt) = 33) (eff : UserEffect)
    (regs regs' : Fin 32 → U32) :
    let s₂ := trapEcall b regs (eff.apply (scheduleRound b s))
    ∃ m, monitorMain undef b.target s₂.mon = some m ∧
      (trapEcall b regs' { s₂ with mon := m }).status S_JINGBAO = BitVec.ofNat 32
        ((mirror (pkts.map fun pkt =>
          gridCell (le32 (packetBytes pkt) 10).toInt (le32 (packetBytes pkt) 14).toInt)).countP
            (· = 5)) := by
  intro s₂
  obtain ⟨hround, hphase⟩ := scheduleRound_swarm (b := b) h
  obtain ⟨heff, hphase'⟩ := eff.apply_swarm hround
  obtain ⟨hswarm, hphase₂, hmode⟩ := trapEcall_swarm (b := b) heff (hphase'.trans hphase) regs
  obtain ⟨verd, insns, map, hrun, hverd⟩ :=
    screeningPhase_swarm (t := b.target) hswarm.staged hswarm.confN
  let s₃ : Sup := { s₂ with mon := s₂.mon.screened verd insns map }
  have hphase₃ : s₃.phase = 2 := hphase₂
  refine ⟨s₂.mon.screened verd insns map, ?_, (trapEcall_alerts hphase₃ regs').trans ?_⟩
  · unfold monitorMain
    rw [hmode, if_neg (by decide), if_pos rfl]
    exact hrun
  · have hle := h.le
    have hlen : (swarmVerdicts pkts).length = pkts.length := by
      unfold swarmVerdicts
      rw [Mealy.length_outputs, List.length_map]
    have hcount : s₂.conflictN.toNat = (swarmVerdicts pkts).length := by
      rw [hlen, hswarm.conflictN, BitVec.toNat_ofNat]
      omega
    rw [← swarmVerdicts_mirror hid]
    refine congrArg _ ?_
    show (List.range s₂.conflictN.toNat).countP _ = _
    rw [hcount]
    refine countP_range_eq _ _ _ fun i v hv => ?_
    show decide (verd i = 5) = decide (v = 5)
    rw [hverd i v hv]
    rcases swarmVerdicts_mem pkts v (List.mem_of_getElem? hv) with rfl | rfl <;> rfl

end Total

/-- **Swarm screening refines its mirror.**  Packets of 18 bytes or more,
    fewer than `2^32` of them, screened in order on one map that starts at
    zero: no run faults, each verdict is decided by the counts of the
    packet's cell and its neighbours, and the map ends as the counts.  So
    the alert total of a round over a mailbox of position packets is the
    mirror's. -/
theorem policyConflict_refines_mirror (undef : CExpr → U64) :
    (∀ (ps : List EbpfProg) (pkts : List (List U8)), List.Forall₂ ScreensPacket ps pkts →
      pkts.length < 2 ^ 32 →
      ∃ rs g, (∀ fuel, 34 ≤ fuel → ebpfRuns undef fuel ps (some fun _ => 0) = some (rs, some g)) ∧
        SequenceScreened pkts rs g) ∧
    ∀ (b : Build) (s : Sup) (pkts : List (List U8)), MailboxSwarm s pkts →
      (∀ pkt ∈ pkts, mavMsgid (packetBytes pkt) = 33) →
      ∀ (eff : UserEffect) (regs regs' : Fin 32 → U32),
        let s₂ := trapEcall b regs (eff.apply (scheduleRound b s))
        ∃ m, monitorMain undef b.target s₂.mon = some m ∧
          (trapEcall b regs' { s₂ with mon := m }).status S_JINGBAO = BitVec.ofNat 32
            ((mirror (pkts.map fun pkt =>
              gridCell (le32 (packetBytes pkt) 10).toInt (le32 (packetBytes pkt) 14).toInt)).countP
                (· = 5)) :=
  ⟨fun _ _ h hcount => ebpfRuns_counts undef h hcount,
    fun _ _ _ h hid eff regs regs' => round_alerts undef h hid eff regs regs'⟩

/-- The position packet four times over, each as the context of a run. -/
def crowd : List (List U8) := List.replicate 4 PKT_GPI

def crowdRun : EbpfProg where
  ins := policyConflict
  insnCnt := POLICY_CONFLICT_CNT
  mem := fun a => PKT_GPI.getD (a - 0x1000).toNat 0
  ctx := 0x1000
  ctxSize := 42
  maxSteps := 34
  map := none
  mapCells := 64

/-- A blank machine with the crowd in its mailbox. -/
def crowdedBoard : Sup :=
  { Sup.zeroed with
    mailbox := fun i => ([0x4D, 0x52, 0x41, 0x57, 4, 0, 0, 0] ++ crowd.flatten).getD i 0 }

/-- A monitor that leaves no verdicts. -/
def silentMonitor : UserEffect :=
  .monitor (fun _ => 0) (fun _ => 0) (fun _ => 0) (fun _ => 0) (fun _ => 0) (fun _ => 0) 0

/-- The fourth packet of the crowd raises the one alert. -/
theorem policyConflict_refines_mirror_crowd :
    let s₂ := trapEcall (.pinning []) (fun _ => 0)
      (silentMonitor.apply (scheduleRound (.pinning []) crowdedBoard))
    (∃ rs g, (∀ fuel, 34 ≤ fuel →
        ebpfRuns (fun _ => 0) fuel (List.replicate 4 crowdRun) (some fun _ => 0) =
          some (rs, some g)) ∧ SequenceScreened crowd rs g) ∧
    ∃ m, monitorMain (fun _ => 0) .qemu s₂.mon = some m ∧
      (trapEcall (.pinning []) (fun _ => 0) { s₂ with mon := m }).status S_JINGBAO = 1 := by
  have hrun : ScreensPacket crowdRun PKT_GPI :=
    ⟨rfl, rfl, rfl, by decide, ⟨rfl, by decide, by decide⟩, by decide⟩
  have hdata : ∀ i < 4, PKT_GPI = bytesAt crowdedBoard.mailbox (8 + i * 42) 42 := by decide
  have hmail : MailboxSwarm crowdedBoard crowd := by
    refine ⟨by decide, by decide, by decide, by decide, fun i pkt hi => ?_⟩
    obtain ⟨hlt, hget⟩ := List.getElem?_eq_some_iff.mp hi
    rw [← hget]
    exact (List.getElem_replicate hlt).trans (hdata i (by simpa [crowd] using hlt))
  obtain ⟨hruns, hround⟩ := policyConflict_refines_mirror (fun _ => 0)
  refine ⟨hruns _ crowd (.cons hrun (.cons hrun (.cons hrun (.cons hrun .nil)))) (by decide), ?_⟩
  obtain ⟨m, hm, hstatus⟩ := hround (.pinning []) crowdedBoard crowd hmail (by decide)
    silentMonitor (fun _ => 0) (fun _ => 0)
  exact ⟨m, hm, hstatus.trans (by decide)⟩

end Interclus

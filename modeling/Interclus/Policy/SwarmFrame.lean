import Interclus.Policy.AlertTotal
import Interclus.Supervisor.ChannelEffect
import Interclus.Supervisor.PendDecision
import Interclus.Supervisor.RebootOrder
import Interclus.Supervisor.RoundOrder

/-! # A Swarm Over the Channel

    `make_gpi` of `tools/inject_swarm.py` and `swarm_payload` of
    `tools/chan_board.py`, and what the board makes of the data frame: the
    turn that takes it starts a round, and when the screening phase of that
    round ends, the STATUS window holds the verdicts of the host's mirror
    on the positions the host put in. -/

namespace Interclus

open Words LTS

/-! ## The host -/

/-- `make_gpi`; a position is the two words that `struct.pack` makes of it. -/
def makeGpi (lat lon : U32) (seq : Nat) : List U8 :=
  [0xFD, 30, 0, 0, BitVec.ofNat 8 seq, 2, 3, 0x21, 0, 0] ++
    (packLe 4 lat ++ packLe 4 lon ++ packLe 4 (50000 : U32) ++ packLe 4 (100 : U32) ++
      packLe 4 (0 : U32) ++ packLe 4 (0 : U32) ++ packLe 4 (0 : U32) ++ packLe 2 (0xFFFF : U16)) ++
    [0xAB, 0xCD]

/-- The packets of a swarm, numbered in order. -/
def swarmPkts (drones : List (U32 × U32)) : List (List U8) :=
  drones.zipIdx.map fun d => makeGpi d.1.1 d.1.2 d.2

/-- Their cells. -/
def swarmCells (drones : List (U32 × U32)) : List Nat :=
  drones.map fun d => gridCell d.1.toInt d.2.toInt

/-- `swarm_payload`. -/
def swarmPayload (drones : List (U32 × U32)) : List U8 :=
  packLe 4 MO_SHU ++ packLe 4 (lenWord drones) ++ (swarmPkts drones).flatten

/-! ## The packets -/

@[simp] theorem length_makeGpi (lat lon : U32) (seq : Nat) : (makeGpi lat lon seq).length = 42 := rfl

@[simp] theorem length_swarmPkts (drones : List (U32 × U32)) :
    (swarmPkts drones).length = drones.length := by
  rw [swarmPkts, List.length_map, List.length_zipIdx]

theorem swarmPkts_get {drones : List (U32 × U32)} {i : Nat} {pkt : List U8}
    (h : (swarmPkts drones)[i]? = some pkt) :
    ∃ d, drones[i]? = some d ∧ pkt = makeGpi d.1 d.2 i := by
  unfold swarmPkts at h
  rw [List.getElem?_map, List.getElem?_zipIdx, Nat.zero_add, Option.map_map] at h
  obtain ⟨d, hd, rfl⟩ := Option.map_eq_some_iff.mp h
  exact ⟨d, hd, rfl⟩

theorem length_swarmPkt {drones : List (U32 × U32)} : ∀ pkt ∈ swarmPkts drones, pkt.length = 42 := by
  intro pkt hpkt
  obtain ⟨i, hi⟩ := List.getElem?_of_mem hpkt
  obtain ⟨d, -, rfl⟩ := swarmPkts_get hi
  exact length_makeGpi d.1 d.2 i

/-- The board finds the words where the host put them. -/
theorem makeGpi_fields (lat lon : U32) (seq : Nat) :
    mavMsgid (packetBytes (makeGpi lat lon seq)) = 33 ∧
      le32 (packetBytes (makeGpi lat lon seq)) 10 = lat ∧
      le32 (packetBytes (makeGpi lat lon seq)) 14 = lon := by
  refine ⟨?_, le32_of_bytes fun k hk => ?_, le32_of_bytes fun k hk => ?_⟩
  · show (0x21 : U8).setWidth 32 ||| (0 : U8).setWidth 32 <<< 8 ||| (0 : U8).setWidth 32 <<< 16 = _
    decide
  · match k, hk with
    | 0, _ | 1, _ | 2, _ | 3, _ => rfl
  · match k, hk with
    | 0, _ | 1, _ | 2, _ | 3, _ => rfl

/-- Lists of one length, one behind the other. -/
theorem listMem_flatten {n : Nat} {ls : List (List U8)} (h : ∀ l ∈ ls, l.length = n) {i k : Nat}
    {l : List U8} (hi : ls[i]? = some l) (hk : k < n) :
    listMem ls.flatten (i * n + k) = listMem l k := by
  induction ls generalizing i with
  | nil => cases hi
  | cons l' ls ih =>
    have hl' := h l' List.mem_cons_self
    rw [List.flatten_cons]
    cases i with
    | zero =>
      obtain rfl : l' = l := Option.some.inj hi
      rw [Nat.zero_mul, Nat.zero_add]
      exact listMem_append_left (by omega)
    | succ i =>
      have hidx : (i + 1) * n + k = l'.length + (i * n + k) := by
        rw [hl', Nat.succ_mul]
        omega
      rw [hidx, listMem_append_right]
      exact ih (fun m hm => h m (List.mem_cons_of_mem l' hm)) hi

theorem length_swarmPayload (drones : List (U32 × U32)) :
    (swarmPayload drones).length = 8 + 42 * drones.length := by
  have hflat : ∀ ls : List (List U8), (∀ l ∈ ls, l.length = 42) →
      ls.flatten.length = 42 * ls.length := by
    intro ls hls
    rw [List.length_flatten, List.map_congr_left hls, List.map_const', List.sum_replicate,
      Nat.mul_comm]
    rfl
  rw [swarmPayload, List.length_append, hflat _ length_swarmPkt, length_swarmPkts]
  rfl

/-! ## The frame -/

section Frame
variable {f : ConsoleFrame} {drones : List (U32 × U32)} (hf : f.Carries 2 (swarmPayload drones))
include hf

/-- The header of the data frame. -/
theorem swarmFrame_header : f.n = 8 + 42 * drones.length ∧ le32 f.stage 0 = MO_SHU ∧
    le32 f.stage 4 = lenWord drones := by
  have hlen := length_swarmPayload drones
  have hn := hf.n
  have hword : ∀ i, i + 4 ≤ 8 → le32 f.stage i = le32 (listMem (swarmPayload drones)) i := by
    intro i hi
    exact le32_congr fun k hk => hf.stage _ (by omega)
  refine ⟨hn.trans hlen, (hword 0 (by omega)).trans ?_, (hword 4 (by omega)).trans ?_⟩
  · have hmagic := le32_listMem (v := MO_SHU) []
      (packLe 4 (lenWord drones) ++ (swarmPkts drones).flatten)
    rw [List.nil_append, ← List.append_assoc] at hmagic
    exact hmagic
  · have hcnt := le32_listMem (v := lenWord drones) (packLe 4 MO_SHU) (swarmPkts drones).flatten
    rw [length_packLe, ← List.append_assoc] at hcnt
    exact hcnt

/-- `chan_poll` commits it. -/
theorem swarmFrame_polled (hpos : 1 ≤ drones.length) (hle : drones.length ≤ 64) (s : Sup) :
    (chanPoll (some f) s).1 = 1 ∧
    MailboxSwarm (chanPoll (some f) s).2 (swarmPkts drones) := by
  obtain ⟨hn, hmagic, hcnt⟩ := swarmFrame_header hf
  have hcnt' : (le32 f.stage 4).toNat = drones.length := by
    rw [hcnt]
    exact lenWord_toNat (by omega)
  have hne : le32 f.stage 4 ≠ 0 := by
    intro h0
    rw [h0] at hcnt'
    exact absurd hcnt' (by simpa using by omega)
  have hmax : ¬ MAX_SWARM < le32 f.stage 4 := by
    rw [BitVec.lt_def, hcnt']
    exact Nat.not_lt.mpr hle
  have hpoll : chanPoll (some f) s = (1, { s with mailbox := memcpy s.mailbox f.stage f.n }) := by
    unfold chanPoll
    dsimp only
    rw [if_neg (by omega), hf.type, if_neg (by decide), if_neg (by decide), if_pos rfl]
    unfold pollSwarm
    dsimp only
    rw [if_neg (by omega), if_neg]
    rw [not_or, not_or, not_or, not_not, not_not, hcnt']
    exact ⟨hmagic, hne, hmax, hn⟩
  rw [hpoll]
  refine ⟨rfl, (le32_memcpy (by omega)).trans hmagic, ?_, ?_, ?_, fun i pkt hi => ?_⟩
  · rw [length_swarmPkts]
    exact (le32_memcpy (by omega)).trans hcnt
  · rwa [length_swarmPkts]
  · rwa [length_swarmPkts]
  · have hlt : i < drones.length := by
      rw [← length_swarmPkts]
      exact (List.getElem?_eq_some_iff.mp hi).1
    have hlen := length_swarmPkt pkt (List.mem_of_getElem? hi)
    show pkt = bytesAt (memcpy s.mailbox f.stage f.n) (8 + i * 42) 42
    apply List.ext_getElem
    · rw [hlen, length_bytesAt]
    · intro k hk hk'
      rw [length_bytesAt] at hk'
      have hbyte : memcpy s.mailbox f.stage f.n (8 + i * 42 + k) = listMem pkt k := by
        unfold memcpy
        rw [if_pos (by omega), hf.stage _ (by rw [length_swarmPayload]; omega)]
        unfold swarmPayload
        rw [show 8 + i * 42 + k =
          (packLe 4 MO_SHU ++ packLe 4 (lenWord drones)).length + (i * 42 + k) by
            rw [List.length_append, length_packLe, length_packLe]; omega, listMem_append_right]
        exact listMem_flatten length_swarmPkt hi hk'
      simp only [bytesAt, List.getElem_map, List.getElem_range, hbyte]
      unfold listMem
      rw [List.getD_eq_getElem _ _ hk]

end Frame

/-! ## The round -/

/-- A round whose monitor has the swarm of the mailbox to screen. -/
structure RoundMailed (s : Sup) (pkts : List (List U8)) : Prop where
  swarm : RoundSwarm s pkts
  source : s.source = 1

/-- An event that goes on waiting for the monitor: what U-mode writes, and
    what transports stage meanwhile. -/
def AwaitsMonitor : Event → Prop
  | .user _ | .stage .. => True
  | _ => False

/-- The staging gate leaves the mailbox alone. -/
theorem hotSwap_mailbox {b : Build} {s s' : Sup} (h : hotSwap b s = some s') :
    s'.mailbox = s.mailbox := by
  have hs := hotSwap_cases b s
  rw [h] at hs
  rcases hs with ⟨-, hs⟩ | ⟨-, hs⟩ | ⟨-, -, -, -, hs⟩ | ⟨-, -, -, -, hs⟩
  · rw [Option.some.inj hs]
  · rw [Option.some.inj hs]
    rfl
  · obtain ⟨s₀, hs₀, rfl⟩ := Option.map_eq_some_iff.mp hs.symm
    unfold installNative at hs₀
    obtain ⟨_, -, rfl⟩ := Option.map_eq_some_iff.mp hs₀
    rfl
  · rw [Option.some.inj hs]
    rfl

section Round
variable {b : Build} {s s' : Sup} {pkts : List (List U8)}

theorem scheduleRound_mailed (h : MailboxSwarm s pkts) : RoundMailed (scheduleRound b s) pkts := by
  refine ⟨(scheduleRound_swarm h).1, ?_⟩
  have hle := h.le
  have hpos := h.pos
  have hcnt := congrArg BitVec.toNat h.count
  rw [BitVec.toNat_ofNat] at hcnt
  have hguard : le32 s.mailbox 0 = MO_SHU ∧ 1 ≤ le32 s.mailbox 4 ∧ le32 s.mailbox 4 ≤ MAX_SWARM := by
    have hmax : MAX_SWARM.toNat = 64 := by decide
    refine ⟨h.magic, BitVec.le_def.mpr ?_, BitVec.le_def.mpr ?_⟩
    · show 1 ≤ _
      omega
    · omega
  unfold scheduleRound
  dsimp only
  rw [if_pos hguard]
  obtain ⟨status, comp, ctl, henter, -⟩ := enterChecked_frame 0 _
  rw [henter]
  rfl

/-- The monitor is entered for the filter phase of a round. -/
structure RoundStarts (b : Build) (s : Sup) : Prop where
  entered : Entered s 0 b.monitorEntry
  phase : s.phase = 1
  mode : s.mon.mode = 0

/-- The turn that takes the frame starts a round with its swarm. -/
theorem turn_mailed {f : ConsoleFrame} (hev : (chanPoll (some f) s).1 = 1)
    (hmail : MailboxSwarm (chanPoll (some f) s).2 pkts)
    (h : machineStep b s (.turn (some f)) = some s') : RoundMailed s' pkts ∧ RoundStarts b s' := by
  cases machineStep_moved h with
  | turn seen _ _ _ hturn =>
    unfold serviceTurn at hturn
    dsimp only at hturn
    obtain ⟨s₀, hswap, rfl⟩ := Option.map_eq_some_iff.mp hturn
    have hkept := congrArg RoundKept.mailbox (hotUpdateFinalize_kept s₀)
    have hbox : (supervisorReset (hotUpdateFinalize s₀)).mailbox = (chanPoll (some f) s).2.mailbox :=
      hkept.trans (hotSwap_mailbox hswap)
    have hmail' : MailboxSwarm (supervisorReset (hotUpdateFinalize s₀)) pkts :=
      ⟨hbox ▸ hmail.magic, hbox ▸ hmail.count, hmail.pos, hmail.le, hbox ▸ hmail.data⟩
    unfold endTurn
    rw [if_pos (.inr hev)]
    obtain ⟨hentered, hphase, hmode⟩ :=
      (scheduleRound_stage b (supervisorReset (hotUpdateFinalize s₀))).at_stage
    exact ⟨scheduleRound_mailed hmail', hentered, hphase, hmode⟩

/-- Where in the round the monitor is. -/
structure SameTurn (s s' : Sup) : Prop where
  phase : s'.phase = s.phase
  mode : s'.mon.mode = s.mon.mode

/-- Nothing that happens meanwhile touches the swarm. -/
theorem RoundMailed.waits {e : Event} (he : AwaitsMonitor e) (h : RoundMailed s pkts)
    (hstep : machineStep b s e = some s') : RoundMailed s' pkts ∧ SameTurn s s' := by
  cases machineStep_moved hstep with
  | user u eff =>
    obtain ⟨hswarm, hphase⟩ := eff.apply_swarm h.swarm
    refine ⟨⟨hswarm, ?_⟩, hphase, ?_⟩
    · cases eff <;> exact h.source
    · cases eff <;> rfl
  | stage pend pendOk mailbox =>
    have hs := h.swarm.staged
    exact ⟨⟨⟨⟨hs.le, hs.off, hs.sizes, hs.data⟩, h.swarm.confN, h.swarm.conflictN⟩, h.source⟩,
      rfl, rfl⟩
  | _ => exact he.elim

/-- Nor does a run of it. -/
theorem RoundMailed.waits_run {es : List Event} (hes : ∀ e ∈ es, AwaitsMonitor e)
    (h : RoundMailed s pkts) (hrun : StepsFrom (machine b) s es s') : RoundMailed s' pkts ∧ SameTurn s s' := by
  refine hrun.preserves (P := AwaitsMonitor) (I := fun s' => RoundMailed s' pkts ∧ SameTurn s s')
    (fun s₁ e s₂ he ih hstep => ?_) hes ⟨h, rfl, rfl⟩
  obtain ⟨hmailed, hsame⟩ := ih.1.waits he hstep
  exact ⟨hmailed, hsame.phase.trans ih.2.phase, hsame.mode.trans ih.2.mode⟩

/-- From the filter phase to the screening phase. -/
theorem RoundMailed.resume (h : RoundMailed s pkts) (hphase : s.phase = 1) {regs : Fin 32 → U32}
    (hstep : machineStep b s (.ecall regs) = some s') :
    RoundMailed s' pkts ∧ s'.phase = 2 ∧ s'.mon.mode = 1 := by
  cases machineStep_moved hstep with
  | ecall u _ hctl =>
    obtain ⟨hswarm, hphase₂, hmode⟩ := trapEcall_swarm (b := b) h.swarm hphase regs
    refine ⟨⟨hswarm, ?_⟩, hphase₂, hmode⟩
    have hsource : (rollback (noteVerdicts { s with comp := saveTcb regs s.comp })).source = 1 := by
      unfold rollback
      split
      · split <;> exact h.source
      · exact h.source
    unfold trapEcall supervisorResume
    rw [if_pos hphase]
    unfold nextMode
    obtain ⟨status, comp, ctl, henter, -⟩ := enterChecked_frame 0 _
    rw [henter]
    exact hsource

/-- What the end of the screening phase shows. -/
theorem RoundMailed.shown (h : RoundMailed s pkts) (hphase : s.phase = 2) (regs : Fin 32 → U32) :
    (trapEcall b regs s).status S_CHONGTU_N = BitVec.ofNat 32 pkts.length ∧
      (trapEcall b regs s).status S_LAIYUAN = 1 ∧
      ∀ i < min pkts.length 8, (trapEcall b regs s).status (S_BAN_CAIJUE + i) = s.mon.screenVerd i := by
  have hle := h.swarm.staged.le
  have hcount : s.conflictN.toNat = pkts.length := by
    rw [h.swarm.conflictN, BitVec.toNat_ofNat]
    omega
  have hne : ¬ s.phase = 1 := by
    rw [hphase]
    decide
  -- entering the monitor once more touches no word of these
  have hstatus : ∀ j < S_HALT, (trapEcall b regs s).status j =
      (noteScreening { s with comp := saveTcb regs s.comp }).status j := by
    intro j hj
    have hj' : j < 102 := hj
    unfold trapEcall supervisorResume
    rw [if_neg hne, if_pos hphase]
    unfold nextMode enterChecked
    split
    · show (if j = 103 then _ else if j = 102 then _ else _) = _
      rw [if_neg (by omega), if_neg (by omega)]
      rfl
    · split <;> rfl
  refine ⟨?_, ?_, fun i hi => ?_⟩
  · rw [hstatus _ (by decide)]
    exact h.swarm.conflictN
  · rw [hstatus _ (by decide)]
    exact h.source
  · rw [hstatus _ (by show 64 + i < 102; omega)]
    show (if 64 + i = 85 then _ else if 64 + i = 84 then _ else if 64 + i = 83 then _
      else if 64 + i = 81 then _
      else if 72 ≤ 64 + i ∧ 64 + i < 72 + min s.conflictN.toNat 8 then _
      else if 64 ≤ 64 + i ∧ 64 + i < 64 + min s.conflictN.toNat 8 then
        s.mon.screenVerd (64 + i - 64) else _) = _
    rw [hcount, if_neg (by omega), if_neg (by omega), if_neg (by omega), if_neg (by omega),
      if_neg (by omega), if_pos (by omega), Nat.add_sub_cancel_left]

end Round

/-! ## Frame to STATUS -/

/-- The host's verdicts, on the board's packets. -/
theorem swarmVerdicts_drones (drones : List (U32 × U32)) :
    swarmVerdicts (swarmPkts drones) = mirror (swarmCells drones) := by
  rw [swarmVerdicts_mirror fun pkt hpkt => ?_]
  · congr 1
    apply List.ext_getElem?
    intro i
    unfold swarmCells
    rw [List.getElem?_map, List.getElem?_map]
    cases hi : (swarmPkts drones)[i]? with
    | none =>
      have hlen := List.getElem?_eq_none_iff.mp hi
      rw [length_swarmPkts] at hlen
      rw [List.getElem?_eq_none hlen]
      rfl
    | some pkt =>
      obtain ⟨d, hd, rfl⟩ := swarmPkts_get hi
      obtain ⟨-, hlat, hlon⟩ := makeGpi_fields d.1 d.2 i
      rw [hd, Option.map_some, Option.map_some, hlat, hlon]
  · obtain ⟨i, hi⟩ := List.getElem?_of_mem hpkt
    obtain ⟨d, -, rfl⟩ := swarmPkts_get hi
    exact (makeGpi_fields d.1 d.2 i).1

/-- The end of a screening phase that left the mirror's verdicts. -/
theorem RoundMailed.mirrored {b : Build} {s : Sup} {drones : List (U32 × U32)}
    (h : RoundMailed s (swarmPkts drones)) (hle : drones.length ≤ 64) (hphase : s.phase = 2)
    (hverd : ∀ (i v : Nat), (mirror (swarmCells drones))[i]? = some v →
      s.mon.screenVerd i = BitVec.ofNat 32 v) (regs : Fin 32 → U32) :
    (trapEcall b regs s).status S_CHONGTU_N = lenWord drones ∧
      (trapEcall b regs s).status S_LAIYUAN = 1 ∧
      (trapEcall b regs s).status S_JINGBAO =
        BitVec.ofNat 32 ((mirror (swarmCells drones)).countP (· = 5)) ∧
      ∀ i v, i < 8 → (mirror (swarmCells drones))[i]? = some v →
        (trapEcall b regs s).status (S_BAN_CAIJUE + i) = BitVec.ofNat 32 v := by
  have hlen : (mirror (swarmCells drones)).length = drones.length := by
    unfold mirror swarmCells
    rw [Mealy.length_outputs, List.length_map]
  obtain ⟨hn, hsource, hshown⟩ := h.shown (b := b) hphase regs
  rw [length_swarmPkts] at hn hshown
  refine ⟨hn, hsource, (trapEcall_alerts hphase regs).trans (congrArg _ ?_), ?_⟩
  · have hcount : s.conflictN.toNat = (mirror (swarmCells drones)).length := by
      rw [hlen, h.swarm.conflictN, length_swarmPkts, BitVec.toNat_ofNat]
      omega
    rw [hcount]
    refine countP_range_eq _ _ _ fun i v hv => ?_
    rw [hverd i v hv]
    rw [← swarmVerdicts_drones] at hv
    rcases swarmVerdicts_mem _ v (List.mem_of_getElem? hv) with rfl | rfl <;> rfl
  · intro i v hi hv
    have hlt := (List.getElem?_eq_some_iff.mp hv).1
    rw [hshown i (by omega)]
    exact hverd i v hv

/-- **The data plane, end to end.** A frame of the host's swarm payload, for
    1 to 64 drones anywhere, taken in a turn of the service loop whose
    `hot_swap` has an outcome, starts a round: it enters the monitor for the
    filter phase.  Whatever the monitor leaves and transports stage from
    there on, the screening phase of that round ends, and the STATUS window
    then holds the number of drones, where they came from, the alerts of the
    host's mirror on their cells and the first eight of its verdicts. -/
theorem swarmFrame_mirrored {b : Build} (undef : CExpr → U64) {s s₁ : Sup} {f : ConsoleFrame}
    {drones : List (U32 × U32)} (hf : f.Carries 2 (swarmPayload drones))
    (hpos : 1 ≤ drones.length) (hle : drones.length ≤ 64)
    (hturn : machineStep b s (.turn (some f)) = some s₁) :
    RoundStarts b s₁ ∧
    ∀ {s₂ s₃ s₄ : Sup} {es₁ es₂ : List Event} {regs : Fin 32 → U32},
      StepsFrom (machine b) s₁ es₁ s₂ → (∀ e ∈ es₁, AwaitsMonitor e) →
      machineStep b s₂ (.ecall regs) = some s₃ →
      StepsFrom (machine b) s₃ es₂ s₄ → (∀ e ∈ es₂, AwaitsMonitor e) →
      ∃ m, monitorMain undef b.target s₄.mon = some m ∧
        ∀ regs' s₅, machineStep b { s₄ with mon := m } (.ecall regs') = some s₅ →
          s₅.status S_CHONGTU_N = lenWord drones ∧ s₅.status S_LAIYUAN = 1 ∧
            s₅.status S_JINGBAO =
              BitVec.ofNat 32 ((mirror (swarmCells drones)).countP (· = 5)) ∧
            ∀ i v, i < 8 → (mirror (swarmCells drones))[i]? = some v →
              s₅.status (S_BAN_CAIJUE + i) = BitVec.ofNat 32 v := by
  obtain ⟨hev, hmail⟩ := swarmFrame_polled hf hpos hle s
  obtain ⟨hmailed₁, hstarts⟩ := turn_mailed hev hmail hturn
  refine ⟨hstarts, ?_⟩
  intro s₂ s₃ s₄ es₁ es₂ regs hfilter hes₁ hresume hscreen hes₂
  obtain ⟨hmailed₂, hsame₂⟩ := hmailed₁.waits_run hes₁ hfilter
  obtain ⟨hmailed₃, hphase₃, hmode₃⟩ := hmailed₂.resume (hsame₂.phase.trans hstarts.phase) hresume
  obtain ⟨hmailed₄, hsame₄⟩ := hmailed₃.waits_run hes₂ hscreen
  obtain ⟨verd, insns, map, hrun, hverd⟩ :=
    screeningPhase_swarm (t := b.target) hmailed₄.swarm.staged hmailed₄.swarm.confN
  rw [swarmVerdicts_drones] at hverd
  refine ⟨s₄.mon.screened verd insns map, ?_, fun regs' s₅ hend => ?_⟩
  · unfold monitorMain
    rw [hsame₄.mode, hmode₃, if_neg (by decide), if_pos rfl]
    exact hrun
  · -- the verdicts are in place when the phase ends
    have hmailed : RoundMailed { s₄ with mon := s₄.mon.screened verd insns map }
        (swarmPkts drones) :=
      ⟨⟨hmailed₄.swarm.staged.screened verd insns map, hmailed₄.swarm.confN,
        hmailed₄.swarm.conflictN⟩, hmailed₄.source⟩
    have hphase : ({ s₄ with mon := s₄.mon.screened verd insns map } : Sup).phase = 2 :=
      hsame₄.phase.trans hphase₃
    have hscreened : ({ s₄ with mon := s₄.mon.screened verd insns map } : Sup).mon.screenVerd =
        verd := rfl
    obtain ⟨s', hs'⟩ : ∃ s', ({ s₄ with mon := s₄.mon.screened verd insns map } : Sup) = s' :=
      ⟨_, rfl⟩
    rw [hs'] at hend hmailed hphase hscreened
    have hs₅ : s₅ = trapEcall b regs' s' := by
      cases machineStep_moved hend with
      | ecall u _ hctl => rfl
    exact hs₅ ▸ hmailed.mirrored hle hphase (fun i v hv => hscreened ▸ hverd i v hv) regs'

/-- Four drones over one spot. -/
def crowdedSpot : List (U32 × U32) := List.replicate 4 (0x12772F80, 0x07362E60)

def crowdFrame : ConsoleFrame :=
  ⟨2, (swarmPayload crowdedSpot).length, listMem (swarmPayload crowdedSpot)⟩

/-- A board in its service loop, with nothing staged. -/
def idleBoard : Sup := { Sup.zeroed with ctl := .service 0 }

def Control.isUser : Control → Bool
  | .user _ => true
  | _ => false

theorem swarmFrame_mirrored_crowd :
    ∃ s₁ s₃ m s₅, machineStep (.pinning []) idleBoard (.turn (some crowdFrame)) = some s₁ ∧
      RoundStarts (.pinning []) s₁ ∧
      machineStep (.pinning []) s₁ (.ecall fun _ => 0) = some s₃ ∧
      monitorMain (fun _ => 0) .qemu s₃.mon = some m ∧
      machineStep (.pinning []) { s₃ with mon := m } (.ecall fun _ => 0) = some s₅ ∧
      s₅.status S_CHONGTU_N = 4 ∧ s₅.status S_JINGBAO = 1 := by
  have hrun : ((machineStep (.pinning []) idleBoard (.turn (some crowdFrame))).bind fun s =>
      machineStep (.pinning []) s (.ecall fun _ => 0)).map (·.ctl.isUser) = some true := by
    decide +kernel
  obtain ⟨s₃, hboth, huser⟩ := Option.map_eq_some_iff.mp hrun
  obtain ⟨s₁, hturn, hresume⟩ := Option.bind_eq_some_iff.mp hboth
  have hcarries : crowdFrame.Carries 2 (swarmPayload crowdedSpot) := ⟨rfl, rfl, fun _ _ => rfl⟩
  obtain ⟨hstarts, hround⟩ :=
    swarmFrame_mirrored (fun _ => 0) hcarries (by decide) (by decide) hturn
  obtain ⟨m, hm, hend⟩ :=
    hround (.nil s₁) (List.forall_mem_nil _) hresume (.nil s₃) (List.forall_mem_nil _)
  have hstep : ∃ s₅, machineStep (.pinning []) { s₃ with mon := m } (.ecall fun _ => 0) =
      some s₅ := by
    cases hctl : s₃.ctl with
    | user u =>
      unfold machineStep
      dsimp only
      exact ⟨_, rfl⟩
    | _ =>
      rw [hctl] at huser
      cases huser
  obtain ⟨s₅, hs₅⟩ := hstep
  obtain ⟨hn, -, halerts, -⟩ := hend _ s₅ hs₅
  exact ⟨s₁, s₃, m, s₅, hturn, hstarts, hresume, hm, hs₅, hn, halerts.trans (by decide)⟩

end Interclus

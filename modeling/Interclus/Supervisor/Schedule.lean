import Interclus.Supervisor.Channel

/-! # The Schedule

    `schedule_round`, `supervisor_resume`, `supervisor_fault` and the
    service loop of `modules/supervisor.c`.

    The functions that do not return in C (they end in an `mret`, a
    heartbeat or a jump) leave in `ctl` where the core is. -/

namespace Interclus

open Words

/-! ## Test packets -/

def PKT_GPI : List U8 := [
  0xFD, 30, 0, 0, 1, 2, 3, 0x21, 0x00, 0x00, 0x80, 0x2F, 0x77, 0x12, 0x60, 0x2E, 0x36, 0x07,
  0x50, 0xC3, 0x00, 0x00, 0x64, 0x00, 0x00, 0x00, 0x00, 0x00, 0x00, 0x00, 0x00, 0x00, 0x00, 0x00,
  0x00, 0x00, 0x00, 0x00, 0xFF, 0xFF, 0xAB, 0xCD]

def PKT_HB : List U8 := [
  0xFD, 9, 0, 0, 2, 2, 3, 0x00, 0x00, 0x00, 0x01, 0x03, 0x00, 0x00, 0x00, 0x00, 0x03, 0x03, 0x00,
  0xAA, 0xBB]

/-- What the malformed packets carry behind the latitude. -/
def pktTail : List U8 := [
  0x60, 0x2E, 0x36, 0x07, 0x50, 0xC3, 0x00, 0x00, 0x64, 0x00, 0x00, 0x00, 0x00, 0x00, 0x00, 0x00,
  0x00, 0x00, 0x00, 0x00, 0x00, 0x00, 0x00, 0x00, 0xFF, 0xFF, 0x00, 0x00]

def PKT_BADMAGIC : List U8 :=
  [0xFE, 30, 0, 0, 1, 2, 3, 0x21, 0x00, 0x00, 0x80, 0x2F, 0x77, 0x12] ++ pktTail

def PKT_BADMSGID : List U8 :=
  [0xFD, 30, 0, 0, 1, 2, 3, 0x64, 0x00, 0x00, 0x80, 0x2F, 0x77, 0x12] ++ pktTail

def PKT_BIGLEN : List U8 :=
  [0xFD, 250, 0, 0, 1, 2, 3, 0x21, 0x00, 0x00, 0x80, 0x2F, 0x77, 0x12] ++ pktTail

def PKT_BADLAT : List U8 :=
  [0xFD, 30, 0, 0, 1, 2, 3, 0x21, 0x00, 0x00, 0x00, 0x2F, 0x68, 0x59] ++ pktTail

/-- `bao`. -/
def bao : List (List U8) :=
  [PKT_GPI, PKT_HB, PKT_BADMAGIC, PKT_BADMSGID, PKT_BIGLEN, PKT_BADLAT]

/-- The offset of packet `i`. -/
def baoOff (i : Nat) : Nat := ((bao.take i).map List.length).sum

def SWARM_LON33 : List U8 := [0x60, 0x2E, 0x36, 0x07]
def SWARM_LON34 : List U8 := [0xC2, 0xBC, 0xEB, 0x00]

/-- Packet `i` of the synthetic swarm. -/
def swarmPacket (i : Nat) : List U8 :=
  PKT_GPI.take 10 ++ [0x80, 0x2F, 0x77, 0x12] ++ (if i < 4 then SWARM_LON33 else SWARM_LON34)
    ++ PKT_GPI.drop 18

/-- The verdicts the six test packets must get. -/
def want : List U32 := [1, 1, 0, 2, 3, 4]

/-! ## Entering a compartment -/

/-- `enter_checked`. -/
def enterChecked (i : Nat) (s : Sup) : Sup :=
  if compartmentEvicted i s.comp then
    { (s.setStatus S_HALT 0x48414C54).setStatus S_HALTC (0xEE00 ||| BitVec.ofNat 32 i) with
      ctl := .halted }
  else
    match compartmentEnter i s.comp with
    | some (comp, e) => { s with comp := comp, ctl := .user e }
    | none => { s with ctl := .parked }

/-! ## One schedule pass -/

/-- The six test packets land in the monitor's input. -/
def refreshInput (m : MonBox) : MonBox :=
  { m with
    off := fun i => if i < 6 then BitVec.ofNat 32 (baoOff i) else m.off i
    sizes := fun i => if i < 6 then BitVec.ofNat 32 (bao.getD i []).length else m.sizes i
    input := fun j => if j < bao.flatten.length then bao.flatten.getD j 0 else m.input j }

/-- The swarm lands in the monitor's data: `n` packets of 42 bytes. -/
def stageSwarm (m : MonBox) (n : U32) (packet : Nat → U8) : MonBox :=
  { m with
    confN := n
    sOff := fun i => if i < n.toNat then BitVec.ofNat 32 (i * 42) else m.sOff i
    sSizes := fun i => if i < n.toNat then 42 else m.sSizes i
    data := fun j => if j < n.toNat * 42 then packet j else m.data j }

/-- `schedule_round`. -/
def scheduleRound (b : Build) (s : Sup) : Sup :=
  let s := { s with mon := refreshInput s.mon }
  let cnt := le32 s.mailbox 4
  let s :=
    if le32 s.mailbox 0 = MO_SHU ∧ 1 ≤ cnt ∧ cnt ≤ MAX_SWARM then
      { s with
        conflictN := cnt, source := 1
        mon := stageSwarm s.mon cnt fun j => s.mailbox (8 + j) }
    else
      { s with
        conflictN := 8, source := 0
        mon := stageSwarm s.mon 8 fun j => (swarmPacket (j / 42)).getD (j % 42) 0 }
  let s := { s with
    mon := { s.mon with map := fun c => if c < MAP_CELLS then 0 else s.mon.map c } }
  let live := s.natLive
  let comp := compartmentSet 0 (icCompMonitor b.target) (b.monitorEntry - MON_TEXT b.target) s.comp
  let comp := compartmentSet 1 (icCompAttacker b.target) (b.atkEntry 0 - ATK_TEXT b.target) comp
  let comp := compartmentSet 2 (natSpec b.target live) (s.nat live).entry comp
  let s := { s.setProof live 0 with
    comp := compartmentArm 0 comp
    phase := 1
    mon := { s.mon with mode := 0 }
    stk0 := s.clock 0 }.ticked
  enterChecked 0 s

/-- `supervisor_reset`. -/
def supervisorReset (s : Sup) : Sup :=
  { s with
    phase := 1, inputSum := 0, stk0 := 0, alerts := 0, conflictN := 0, source := 0, atkVec := 0
    riIndex := 0
    riCause := fun i => if i < 8 then 0 else s.riCause i
    riAddr := fun i => if i < 8 then 0 else s.riAddr i }

/-- `hot_round`. -/
def hotRound (b : Build) (s : Sup) : Sup := scheduleRound b (supervisorReset s)

/-! ## The end of a pass -/

/-- `native_done`: into the harness on QEMU, into the service loop on the
    board. -/
def nativeDone (b : Build) (proof : Bool) (s : Sup) : Sup :=
  let s := s.setStatus S_NAT2 (if proof then s.natProof s.natLive else 0)
  let s := s.setStatus S_DONE 0x600DF00D
  match b.target with
  | .qemu => { s with ctl := .swept }
  | .board => { s with ctl := .service (s.status S_HLOAD) }

/-- `input_sum`. -/
def inputSum (m : MonBox) : U32 :=
  (List.range 6).foldl (fun acc i =>
    (List.range (m.sizes i).toNat).foldl (fun acc j =>
      acc + (m.input ((m.off i).toNat + j)).setWidth 32) acc) 0

/-- `atk_schedule`. -/
def atkSchedule (b : Build) (v : Nat) (s : Sup) : Sup :=
  let comp := compartmentSet 1 (icCompAttacker b.target) (b.atkEntry v - ATK_TEXT b.target) s.comp
  enterChecked 1 { s with comp := compartmentArm 1 comp }

/-- All seven lifetimes ran: the evidence of the round. -/
def atkEvidence (s : Sup) : Sup :=
  let vok := (List.range 6).all fun i =>
    s.mon.verdicts i = want.getD i 0 ∧ s.status (S_CAIJUE + i) = want.getD i 0
  let iok := inputSum s.mon = s.inputSum
  let s := s.setStatus S_VINTACT (if vok then 1 else 0)
  let s := s.setStatus S_IINTACT (if iok then 1 else 0)
  let s := s.setStatus S_INTER s.riIndex
  let s := s.setStatusRange S_LOG0C 10 fun k =>
    if k % 2 = 0 then s.riCause (k / 2) else s.riAddr (k / 2)
  s.setStatus S_NAT2 0

/-- Then the native compartment, when a slot can run. -/
def nativePhase (b : Build) (s : Sup) : Sup :=
  if s.natRetired ∨ ¬ (s.nat s.natLive).valid ∨ (s.nat s.natLive).evicted then
    nativeDone b false (s.setStatus S_NSLOT 0xFFFFFFFF)
  else
    enterChecked 2 { s.setStatus S_NSLOT (BitVec.ofNat 32 s.natLive) with phase := 5 }

/-- What `atk_advance` notes of the lifetime that ended. -/
def atkRecord (s : Sup) : Sup :=
  let v := s.atkVec
  let s := if v = 0 then s.setStatus S_OWNOOK (if s.atkOwn = 0xBEEF5EED then 1 else 0) else s
  let s := if v = 6 then s.setStatus S_RDROK (if s.atkProof = 0x5EEDC0DE then 1 else 0) else s
  { s with atkVec := v + 1 }

/-- `atk_advance`. -/
def atkAdvance (b : Build) (s : Sup) : Sup :=
  let s := atkRecord s
  if s.atkVec < 7 then atkSchedule b s.atkVec.toNat s
  else nativePhase b (atkEvidence s)

/-! ## Traps -/

/-- Phase 1 ran with a fault of the live program: back to the shadow, or to
    the built-in policy when there is none. -/
def rollback (s : Sup) : Sup :=
  if s.mon.progCnt ≠ 0 ∧ s.mon.progFault ≠ 0 then
    let mon :=
      if s.mon.progBCnt ≠ 0 then
        { s.mon with
          prog := fun i => if i < 64 then s.mon.progB i else s.mon.prog i
          progCnt := s.mon.progBCnt
          progBCnt := 0 }
      else { s.mon with progCnt := 0 }
    { s with mon := { mon with progFault := 0 } }.incStatus S_ROLL
  else s

/-- The monitor once more, in the next mode. -/
def nextMode (mode : U32) (s : Sup) : Sup :=
  enterChecked 0 { s with
    comp := compartmentArm 0 s.comp
    phase := mode + 1
    mon := { s.mon with mode := mode }
    stk0 := s.clock 0 }.ticked

/-- What phase 1 leaves in the status window. -/
def noteVerdicts (s : Sup) : Sup :=
  let cyc := s.clock 0 - s.stk0
  let s := s.ticked
  let s := s.setStatusRange S_CAIJUE 6 s.mon.verdicts
  let s := s.setStatusRange S_INSNS 6 s.mon.insns
  let s := s.setStatus S_CYC0 cyc
  { s with inputSum := inputSum s.mon }

/-- What phase 2 leaves in the status window. -/
def noteScreening (s : Sup) : Sup :=
  let cyc := s.clock 0 - s.stk0
  let s := s.ticked
  let shown := min s.conflictN.toNat 8
  let s := s.setStatusRange S_BAN_CAIJUE shown s.mon.screenVerd
  let s := s.setStatusRange S_CINSNS shown s.mon.screenInsns
  let s := { s with
    alerts := BitVec.ofNat 32
      ((List.range s.conflictN.toNat).countP fun i => s.mon.screenVerd i = 5) }
  let s := s.setStatus S_CYC1 cyc
  let s := s.setStatus S_JINGBAO s.alerts
  let s := s.setStatus S_CHONGTU_N s.conflictN
  s.setStatus S_LAIYUAN s.source

/-- What phase 3 leaves in the status window. -/
def noteNative (s : Sup) : Sup :=
  let cyc := s.clock 0 - s.stk0
  let s := s.ticked
  let natok := (List.range 6).all fun i => s.mon.nativeVerd i = want.getD i 0
  let s := s.setStatus S_CYC2 cyc
  s.setStatus S_NATOK (if natok then 1 else 0)

/-- `supervisor_resume`. -/
def supervisorResume (b : Build) (s : Sup) : Sup :=
  if s.phase = 1 then nextMode 1 (rollback (noteVerdicts s))
  else if s.phase = 2 then nextMode 2 (noteScreening s)
  else if s.phase = 3 then atkSchedule b 0 { noteNative s with phase := 4, atkVec := 0 }
  else if s.phase = 4 then atkAdvance b s
  else nativeDone b true s

/-- An evicted native slot: the other one goes live, or the phase retires. -/
def retireSlot (s : Sup) : Sup :=
  let dead := s.natLive
  let other := otherSlot dead
  let s := s.setNat dead { s.nat dead with evicted := true }
  let s := teleFault dead (s.setStatus S_NAT2 0)
  let s :=
    if (s.nat other).valid ∧ ¬ (s.nat other).evicted then
      { s with natLive := other, natRetired := false }.incStatus S_ROLL
    else { s with natRetired := true }
  s.setStatus S_NSLOT (if s.natRetired then 0xFFFFFFFF else BitVec.ofNat 32 s.natLive)

/-- The one strike of the running compartment. -/
def evictRunning (cause : U32) (s : Sup) : Sup :=
  let s := if cause &&& 0x80000000 ≠ 0 then s.incStatus S_PREEMPT else s
  { s with comp := compartmentEvict s.comp.curComp s.comp }

/-- `supervisor_fault`. -/
def supervisorFault (b : Build) (cause : U32) (s : Sup) : Sup :=
  let s := evictRunning cause s
  if s.phase = 4 then atkAdvance b s
  else if 5 ≤ s.phase then
    nativeDone b false (if s.comp.curComp = 2 then retireSlot s else s)
  else
    let haltc := (s.phase &&& 0xFF) <<< 24 ||| (cause &&& 0xFFFFFF)
    { (s.setStatus S_HALT 0x48414C54).setStatus S_HALTC haltc with ctl := .halted }

/-! ## The service loop -/

/-- The end of a turn: a new round for a promotion or a new swarm. -/
def endTurn (b : Build) (seen : U32) (ev : Nat) (s : Sup) : Sup :=
  if s.status S_HLOAD ≠ seen ∨ ev = 1 then hotRound b s else s.incStatus 3

/-- One turn of the service loop of the board. -/
def serviceTurn (b : Build) (seen : U32) (frame : Option ConsoleFrame) (s : Sup) : Option Sup :=
  let polled := chanPoll frame s
  (hotSwap b polled.2).map fun s => endTurn b seen polled.1 (hotUpdateFinalize s)

end Interclus

import Interclus.Framework.SatLog
import Interclus.Supervisor.RoundOrder

/-! # Fault Telemetry

    `trap_entry` logs a trap at the index of the forensics ring and lets
    the index stop at the last entry; `tele_fault` takes the entry in front
    of the index for the fault that caused it.  The two agree until the
    index stops. -/

namespace Interclus

open Words LTS

/-! ## The ring of a state -/

/-- The forensics ring as a log of causes and addresses. -/
def Sup.ring (s : Sup) : SatLog (U32 × U32) :=
  ⟨s.riIndex.toNat, fun i => (s.riCause i, s.riAddr i)⟩

/-- The ring, and what telemetry leaves the device by. -/
structure Forensics where
  ring : SatLog (U32 × U32)
  txDrains : Nat → Bool
  tx : List TxFrame

def Sup.forensics (s : Sup) : Forensics := ⟨s.ring, s.txDrains, s.tx⟩

/-- The record of `trap_entry` is that of a log of eight. -/
theorem ringRecord_ring {s : Sup} (h : s.ring.index ≤ 7) (cause addr : U32) :
    (ringRecord cause addr s).ring = s.ring.record 8 (cause, addr) := by
  have hlt : s.riIndex.toNat ≤ 7 := h
  have hnext : (s.riIndex + 1).toNat = s.riIndex.toNat + 1 := by
    rw [BitVec.toNat_add]
    exact Nat.mod_eq_of_lt (Nat.lt_of_le_of_lt (Nat.succ_le_succ hlt) (by decide))
  -- `trap_entry` compares signed; below 2^31 that is no difference
  have hslt : (s.riIndex + 1).slt 8 ↔ s.riIndex.toNat + 1 < 8 := by
    rw [BitVec.slt_iff_toInt_lt, BitVec.toInt_eq_toNat_of_lt (by omega), hnext]
    exact Int.ofNat_lt
  have hindex : (ringRecord cause addr s).riIndex.toNat =
      if s.riIndex.toNat + 1 < 8 then s.riIndex.toNat + 1 else 7 := by
    show (if (s.riIndex + 1).slt 8 then s.riIndex + 1 else 7 : U32).toNat = _
    by_cases hmoves : s.riIndex.toNat + 1 < 8
    · rw [if_pos (hslt.mpr hmoves), if_pos hmoves, hnext]
    · rw [if_neg (mt hslt.mp hmoves), if_neg hmoves]
      rfl
  unfold Sup.ring SatLog.record
  rw [hindex]
  congr 1
  funext i
  by_cases hi : i = s.riIndex.toNat
  · subst hi
    simp [ringRecord]
  · simp [ringRecord, hi]

/-! ## A round leaves the ring alone -/

section Frame
variable (b : Build)

@[simp] theorem enterChecked_forensics (i : Nat) (s : Sup) :
    (enterChecked i s).forensics = s.forensics := by
  obtain ⟨status, comp, ctl, h, -⟩ := enterChecked_frame i s
  rw [h]
  rfl

@[simp] theorem scheduleRound_forensics (s : Sup) :
    (scheduleRound b s).forensics = s.forensics := by
  unfold scheduleRound
  simp only [enterChecked_forensics]
  split <;> rfl

@[simp] theorem nativeDone_forensics (proof : Bool) (s : Sup) :
    (nativeDone b proof s).forensics = s.forensics := by
  unfold nativeDone
  cases b.target <;> rfl

@[simp] theorem atkSchedule_forensics (v : Nat) (s : Sup) :
    (atkSchedule b v s).forensics = s.forensics := by
  unfold atkSchedule
  rw [enterChecked_forensics]
  rfl

@[simp] theorem atkAdvance_forensics (s : Sup) : (atkAdvance b s).forensics = s.forensics := by
  have hrecord : (atkRecord s).forensics = s.forensics := by
    unfold atkRecord
    dsimp only
    split <;> split <;> rfl
  unfold atkAdvance
  dsimp only
  split
  · rw [atkSchedule_forensics, hrecord]
  · rw [← hrecord]
    unfold nativePhase
    split
    · rw [nativeDone_forensics]
      rfl
    · rw [enterChecked_forensics]
      rfl

@[simp] theorem nextMode_forensics (mode : U32) (s : Sup) :
    (nextMode mode s).forensics = s.forensics := by
  unfold nextMode
  rw [enterChecked_forensics]
  rfl

@[simp] theorem supervisorResume_forensics (s : Sup) :
    (supervisorResume b s).forensics = s.forensics := by
  have hrollback : ∀ s : Sup, (rollback s).forensics = s.forensics := by
    intro s
    unfold rollback
    dsimp only
    split <;> rfl
  unfold supervisorResume
  split
  · rw [nextMode_forensics, hrollback]
    rfl
  split
  · rw [nextMode_forensics]
    rfl
  split
  · rw [atkSchedule_forensics]
    rfl
  split
  · rw [atkAdvance_forensics]
  · rw [nativeDone_forensics]

theorem evictRunning_forensics (cause : U32) (s : Sup) :
    (evictRunning cause s).forensics = s.forensics := by
  unfold evictRunning
  split <;> rfl

/-- Before the native phase a fault sends nothing. -/
theorem supervisorFault_forensics (cause : U32) {s : Sup} (hphase : ¬ 5 ≤ s.phase) :
    (supervisorFault b cause s).forensics = s.forensics := by
  have hphase' : (evictRunning cause s).phase = s.phase :=
    congrArg NativeView.phase (evictRunning_native cause s)
  rw [← evictRunning_forensics cause s]
  unfold supervisorFault
  dsimp only
  rw [hphase', if_neg hphase]
  split
  · rw [atkAdvance_forensics]
  · rfl

end Frame

/-! ## The frame of a native fault -/

/-- Bytes 4..7 and 8..11 are the little-endian cause and address. -/
def CarriesFault (payload : List U8) (fault : U32 × U32) : Prop :=
  (payload.drop 4).take 4 = wordBytes fault.1 ∧ (payload.drop 8).take 4 = wordBytes fault.2

theorem wordBytes_inj {v w : U32} : wordBytes v = wordBytes w ↔ v = w := by
  have hbytes : ∀ u : U32, ∀ k < 4, (wordBytes u).getD (0 + k) 0 = byteOf u k := by
    intro u k hk
    simp [wordBytes, hk]
  constructor
  · intro h
    have hv := le32_of_bytes (m := fun i => (wordBytes v).getD i 0) (hbytes v)
    have hw := le32_of_bytes (m := fun i => (wordBytes w).getD i 0) (hbytes w)
    rw [← hv, h, hw]
  · exact congrArg wordBytes

/-- The payload carries the entry in front of the index. -/
theorem carriesFault_telePayload (slot : Fin 2) (s : Sup) (fault : U32 × U32) :
    CarriesFault (telePayload slot s) fault ↔ s.ring.latest = fault := by
  have hentry : (if s.riIndex ≠ 0 then s.riIndex - 1 else 0 : U32).toNat = s.riIndex.toNat - 1 := by
    split <;> bv_omega
  have hcause : ((telePayload slot s).drop 4).take 4 = wordBytes s.ring.latest.1 := by
    unfold telePayload
    dsimp only
    rw [hentry]
    rfl
  have haddr : ((telePayload slot s).drop 8).take 4 = wordBytes s.ring.latest.2 := by
    unfold telePayload
    dsimp only
    rw [hentry]
    rfl
  unfold CarriesFault
  rw [hcause, haddr, wordBytes_inj, wordBytes_inj, ← Prod.ext_iff]

/-- Retiring a slot hands one frame to the transmitter, and leaves the ring
    alone. -/
theorem retireSlot_forensics (s : Sup) :
    ∃ p, (∀ fault, CarriesFault p fault ↔ s.ring.latest = fault) ∧
      (retireSlot s).forensics =
        ⟨s.ring, fun k => s.txDrains (k + 1),
          s.tx ++ if s.txDrains 0 then [⟨FRAME_TELE, p⟩] else []⟩ := by
  -- the slot is struck before the frame is built
  let struck := (s.setNat s.natLive { s.nat s.natLive with evicted := true }).setStatus S_NAT2 0
  obtain ⟨status, h⟩ := teleFault_eq s.natLive struck
  refine ⟨telePayload s.natLive struck, carriesFault_telePayload s.natLive struck, ?_⟩
  have htele : (teleFault s.natLive struck).forensics = ⟨s.ring, fun k => s.txDrains (k + 1),
      s.tx ++ if s.txDrains 0 then [⟨FRAME_TELE, telePayload s.natLive struck⟩] else []⟩ := by
    rw [h]
    rfl
  rw [← htele]
  unfold retireSlot
  dsimp only
  split <;> rfl

/-- A fault of the native compartment sends the telemetry of the ring. -/
theorem supervisorFault_telemetry (b : Build) (cause : U32) {s : Sup} (hphase : s.phase = 5)
    (hcur : s.comp.curComp = 2) :
    ∃ p, (∀ fault, CarriesFault p fault ↔ s.ring.latest = fault) ∧
      (supervisorFault b cause s).forensics =
        ⟨s.ring, fun k => s.txDrains (k + 1),
          s.tx ++ if s.txDrains 0 then [⟨FRAME_TELE, p⟩] else []⟩ := by
  have hevict := evictRunning_native cause s
  have hphase' : (evictRunning cause s).phase = 5 :=
    (congrArg NativeView.phase hevict).trans hphase
  have hcur' : (evictRunning cause s).comp.curComp = 2 :=
    (congrArg (·.comp.curComp) hevict).trans ((compartmentEvict_curComp _ _).trans hcur)
  have hsame := evictRunning_forensics cause s
  obtain ⟨p, hcarries, hsent⟩ := retireSlot_forensics (evictRunning cause s)
  -- the eviction in front moves nothing the frame is made of
  have hring : (evictRunning cause s).ring = s.ring := congrArg Forensics.ring hsame
  have hdrains : (evictRunning cause s).txDrains = s.txDrains := congrArg Forensics.txDrains hsame
  have htx : (evictRunning cause s).tx = s.tx := congrArg Forensics.tx hsame
  rw [hring, hdrains, htx] at hsent
  rw [hring] at hcarries
  refine ⟨p, hcarries, ?_⟩
  unfold supervisorFault
  dsimp only
  rw [hphase', if_neg (by decide), if_pos (by decide), if_pos hcur', nativeDone_forensics, hsent]

/-! ## Traps of a round -/

/-- What `trap_entry` logs or lets through in a round: the end of a
    lifetime, and a fault of the supervisor, which is skipped. -/
inductive RoundTrap where
  | lifetime (l : Lifetime)
  | skipped (cause addr : U32)

/-- A round from a ring that was reset. -/
def forensicsRound (b : Build) : System Sup RoundTrap where
  init s := ∃ s₀, s₀.riIndex = 0 ∧ s = scheduleRound b s₀
  step s l s' :=
    match l with
    | .lifetime l => roundStep b s l = some s'
    | .skipped cause addr => s' = ringRecord cause addr s

/-- The fault behind the end of a lifetime. -/
def Trap.logged : Trap → List (U32 × U32)
  | .ecall _ => []
  | .fault cause addr _ => [(cause, addr)]

/-- The faults a round logged, in order. -/
def loggedFaults (traps : List RoundTrap) : List (U32 × U32) :=
  traps.flatMap fun
    | .lifetime l => l.trap.logged
    | .skipped cause addr => [(cause, addr)]

/-- Which lifetimes ended in a fault. -/
def endings (traps : List RoundTrap) : List Bool :=
  traps.flatMap fun
    | .lifetime l => [l.trap.isFault]
    | .skipped _ _ => []

/-- The stage of the round, and what its traps left in the ring. -/
structure ForensicsInv (b : Build) (s₀ : Sup) (traps : List RoundTrap) (s : Sup) : Prop where
  round : RoundInv b s₀ s (stageAfter s₀.natRuns (endings traps))
  ring : s.ring = s₀.ring.records 8 (loggedFaults traps)
  /-- Nothing was sent before the native compartment ended. -/
  quiet : (stageAfter s₀.natRuns (endings traps)).Running →
    s.txDrains = s₀.txDrains ∧ s.tx = s₀.tx

section Run
variable {b : Build} {s₀ s : Sup} {traps : List RoundTrap}

theorem ForensicsInv.index_le (h : ForensicsInv b s₀ traps s) (h₀ : s₀.riIndex = 0) :
    s.ring.index ≤ 7 := by
  rw [h.ring, SatLog.index_records (by decide) (congrArg BitVec.toNat h₀)]
  exact Nat.min_le_right _ _

theorem ForensicsInv.skipped (h : ForensicsInv b s₀ traps s) (h₀ : s₀.riIndex = 0)
    (cause addr : U32) :
    ForensicsInv b s₀ (traps ++ [.skipped cause addr]) (ringRecord cause addr s) := by
  have hendings : endings (traps ++ [.skipped cause addr]) = endings traps := by
    simp [endings]
  have hlogged : loggedFaults (traps ++ [.skipped cause addr]) =
      loggedFaults traps ++ [(cause, addr)] := by
    simp [loggedFaults]
  refine ⟨?_, ?_, ?_⟩
    -- the round does not notice
  · rw [hendings]
    have hround := h.round
    generalize stageAfter s₀.natRuns (endings traps) = st at hround
    refine ⟨?_, fun hst => (hround.waits hst).of_native rfl⟩
    have hat := hround.at_stage
    cases st <;> exact hat
  · rw [hlogged, SatLog.records_concat, ← h.ring, ringRecord_ring (h.index_le h₀)]
  · rw [hendings]
    exact h.quiet

/-- A lifetime of the monitor or an attacker, or one that yields, sends
    nothing. -/
theorem lifetime_quiet {l : Lifetime} {s' : Sup} (hindex : s.ring.index ≤ 7)
    (hphase : l.trap.isFault = true → ¬ 5 ≤ s.phase) (hstep : roundStep b s l = some s') :
    s'.forensics = ⟨s.ring.records 8 l.trap.logged, s.txDrains, s.tx⟩ := by
  unfold roundStep at hstep
  split at hstep
  · obtain rfl := Option.some.inj hstep
    cases htrap : l.trap with
    | ecall regs => exact supervisorResume_forensics b _
    | fault cause addr regs =>
      -- the trap entry logs first, then the supervisor decides
      let t := ringRecord cause addr (l.writes.apply s)
      have hrecord : t.ring = s.ring.record 8 (cause, addr) :=
        ringRecord_ring (s := l.writes.apply s) hindex cause addr
      have hsame := supervisorFault_forensics b cause (s := { t with comp := saveTcb regs t.comp })
        (hphase (congrArg Trap.isFault htrap))
      exact hsame.trans (congrArg (Forensics.mk · s.txDrains s.tx) hrecord)
  · cases hstep

/-- A fault of the native compartment: one frame, which carries the entry in
    front of the index. -/
theorem lifetime_telemetry {l : Lifetime} {s' : Sup} {cause addr : U32} {regs : Fin 32 → U32}
    (hindex : s.ring.index ≤ 7) (hphase : s.phase = 5) (hcur : s.comp.curComp = 2)
    (htrap : l.trap = .fault cause addr regs) (hstep : roundStep b s l = some s') :
    ∃ p, (∀ fault, CarriesFault p fault ↔ (s.ring.record 8 (cause, addr)).latest = fault) ∧
      s'.forensics =
        ⟨s.ring.record 8 (cause, addr), fun k => s.txDrains (k + 1),
          s.tx ++ if s.txDrains 0 then [⟨FRAME_TELE, p⟩] else []⟩ := by
  unfold roundStep at hstep
  split at hstep
  · obtain rfl := Option.some.inj hstep
    rw [htrap]
    let t := ringRecord cause addr (l.writes.apply s)
    have hrecord : t.ring = s.ring.record 8 (cause, addr) :=
      ringRecord_ring (s := l.writes.apply s) hindex cause addr
    obtain ⟨p, hcarries, hsent⟩ := supervisorFault_telemetry b cause
      (s := { t with comp := saveTcb regs t.comp }) hphase
      ((saveTcb_curComp regs t.comp).trans hcur)
    rw [show Sup.ring { t with comp := saveTcb regs t.comp } = _ from hrecord] at hcarries hsent
    exact ⟨p, hcarries, hsent⟩
  · cases hstep

/-- The end of a lifetime. -/
theorem ForensicsInv.lifetime (h : ForensicsInv b s₀ traps s) (h₀ : s₀.riIndex = 0) {l : Lifetime}
    {s' : Sup} (hstep : roundStep b s l = some s') :
    ForensicsInv b s₀ (traps ++ [.lifetime l]) s' := by
  have hround := h.round.step hstep
  have hindex := h.index_le h₀
  have hendings : endings (traps ++ [.lifetime l]) = endings traps ++ [l.trap.isFault] := by
    simp [endings]
  have hlogged : s₀.ring.records 8 (loggedFaults (traps ++ [.lifetime l])) =
      s.ring.records 8 l.trap.logged := by
    rw [h.ring]
    simp [loggedFaults, SatLog.records]
  rw [← stageAfter_concat, ← hendings] at hround
  obtain ⟨e, hctl⟩ := roundStep_user hstep
  have hst := h.round.running_of_user hctl
  obtain ⟨-, hphased, hcur⟩ := h.round.running hst
  by_cases hnative : stageAfter s₀.natRuns (endings traps) = .native ∧ l.trap.isFault = true
  · -- the one lifetime that sends
    obtain ⟨hnative, hfault⟩ := hnative
    rw [hnative] at hphased hcur
    cases htrap : l.trap with
    | ecall regs =>
      rw [htrap] at hfault
      cases hfault
    | fault cause addr regs =>
      obtain ⟨p, -, hsent⟩ := lifetime_telemetry hindex hphased hcur htrap hstep
      refine ⟨hround, ?_, ?_⟩
      · rw [hlogged, htrap]
        exact congrArg Forensics.ring hsent
      · intro hrunning
        rw [hendings, stageAfter_concat, hnative] at hrunning
        exact hrunning.elim
  · have hphase : l.trap.isFault = true → ¬ 5 ≤ s.phase := by
      intro hfault
      have hne : stageAfter s₀.natRuns (endings traps) ≠ .native := fun h => hnative ⟨h, hfault⟩
      -- every other stage comes before phase 5
      generalize stageAfter s₀.natRuns (endings traps) = st at hphased hne hst
      cases st with
      | monitor mode =>
        have hphase : s.phase = BitVec.ofNat 32 mode + 1 := hphased
        have hbound : ∀ mode : Fin 3, ¬ (5 : U32) ≤ BitVec.ofNat 32 mode + 1 := by decide
        rw [hphase]
        exact hbound mode
      | attacker v =>
        rw [hphased.1]
        decide
      | native => exact absurd rfl hne
      | done => exact hst.elim
      | halted => exact hst.elim
    have hquiet := lifetime_quiet hindex hphase hstep
    refine ⟨hround, ?_, ?_⟩
    · rw [hlogged]
      exact congrArg Forensics.ring hquiet
    · intro _
      obtain ⟨hdrains, htx⟩ := h.quiet hst
      rw [← hdrains, ← htx]
      exact ⟨congrArg Forensics.txDrains hquiet, congrArg Forensics.tx hquiet⟩

end Run

/-- The native compartment runs at the native stage only. -/
theorem RoundInv.native {b : Build} {s₀ s : Sup} {st : RoundStage} (h : RoundInv b s₀ s st)
    {e : UserEntry} (hctl : s.ctl = .user e) (hnative : e.comp = 2) :
    s.phase = 5 ∧ s.comp.curComp = 2 := by
  have hcomp : ∀ {i mepc}, Entered s i mepc → i = 2 := by
    rintro i mepc ⟨e', hctl', hi, -⟩
    cases hctl.symm.trans hctl'
    exact hi.symm.trans hnative
  cases st with
  | monitor mode => exact absurd (hcomp h.at_stage.1) (by decide)
  | attacker v => exact absurd (hcomp h.at_stage.1) (by decide)
  | native =>
    obtain ⟨⟨_, _, _, _, hcur, _⟩, hphase⟩ := h.at_stage
    exact ⟨hphase, hcur⟩
  | done => exact (h.running_of_user hctl).elim
  | halted => exact (h.running_of_user hctl).elim

/-- The ring and the frames stay those of the traps, over a whole round. -/
theorem forensicsInv_of_run {b : Build} {s₀ s : Sup} {traps : List RoundTrap}
    (h₀ : s₀.riIndex = 0) (h : StepsFrom (forensicsRound b) (scheduleRound b s₀) traps s) :
    ForensicsInv b s₀ traps s := by
  refine h.history (P := ForensicsInv b s₀) ?_ ?_
  · intro traps s l s' hinv hstep
    cases l with
    | lifetime l => exact hinv.lifetime h₀ hstep
    | skipped cause addr =>
      obtain rfl := hstep
      exact hinv.skipped h₀ cause addr
  · have hsame := scheduleRound_forensics b s₀
    exact ⟨scheduleRound_stage b s₀, congrArg Forensics.ring hsame, fun _ =>
      ⟨congrArg Forensics.txDrains hsame, congrArg Forensics.tx hsame⟩⟩

/-- **The telemetry of a round.** Whatever lifetimes and skipped faults the
    round has seen, a fault of the native compartment sends one frame, and
    the frame carries that fault if and only if at most six faults were
    logged before it, or the seventh of the round was the same. -/
theorem supervisorFault_telemetry_iff {b : Build} {s₀ s s' : Sup} {traps : List RoundTrap}
    (h₀ : s₀.riIndex = 0) (hrun : StepsFrom (forensicsRound b) (scheduleRound b s₀) traps s)
    {e : UserEntry} (hctl : s.ctl = .user e) (hnative : e.comp = 2) {l : Lifetime}
    {cause addr : U32} {regs : Fin 32 → U32} (htrap : l.trap = .fault cause addr regs)
    (hstep : roundStep b s l = some s') :
    ∃ p, s'.tx = s₀.tx ++ (if s₀.txDrains 0 then [⟨FRAME_TELE, p⟩] else []) ∧
      (CarriesFault p (cause, addr) ↔
        (loggedFaults traps).length < 7 ∨ (loggedFaults traps)[6]? = some (cause, addr)) := by
  have hinv := forensicsInv_of_run h₀ hrun
  have hst := hinv.round.running_of_user hctl
  obtain ⟨hphase, hcur⟩ := hinv.round.native hctl hnative
  obtain ⟨hdrains, htx⟩ := hinv.quiet hst
  -- what the frame carries is a question about the log alone
  obtain ⟨p, hcarries, hsent⟩ := lifetime_telemetry (hinv.index_le h₀) hphase hcur htrap hstep
  refine ⟨p, ?_, ?_⟩
  · rw [← hdrains, ← htx]
    exact congrArg Forensics.tx hsent
  · rw [hcarries, hinv.ring]
    exact SatLog.latest_record_iff (by decide) (congrArg BitVec.toNat h₀)

/-- Rounds without skipped faults. -/
theorem StepsFrom.forensics {b : Build} {s s' : Sup} {ls : List Lifetime}
    (h : StepsFrom (roundSystem b) s ls s') :
    StepsFrom (forensicsRound b) s (ls.map .lifetime) s' := by
  induction h with
  | nil s => exact .nil s
  | cons l ls hstep _ ih => exact .cons _ _ hstep ih

/-- Ten lifetimes before the native one; the last `n` fault. -/
def faultsBefore (n : Nat) : List Bool := List.replicate (10 - n) false ++ List.replicate n true

/-- The native module faults elsewhere. -/
def nativeFault : Lifetime where
  writes := (blankLifetime true).writes
  trap := .fault 7 0x1234 fun _ => 0

/-- The native module is reached, however many of the attackers fault. -/
theorem nativeFault_reached (n : Fin 8) :
    ∃ s e s', StepsFrom (forensicsRound (.pinning [])) (scheduleRound (.pinning []) armedSup)
        ((faultsBefore n).map fun fault => .lifetime (blankLifetime fault)) s ∧
      s.ctl = .user e ∧ e.comp = 2 ∧ roundStep (.pinning []) s nativeFault = some s' := by
  let ls := (faultsBefore n).map blankLifetime
  have hfaults : ls.map (fun l => l.trap.isFault) = faultsBefore n := by
    have hone : ∀ fault, (blankLifetime fault).trap.isFault = fault := by decide
    simp [ls, Function.comp_def, hone]
  have hrunning : ∀ n : Fin 8, ∀ k < 10,
      (stageAfter true ((faultsBefore n).take k)).Running := by decide
  have hlen : ls.length = 10 := by
    have := n.isLt
    simp only [ls, faultsBefore, List.length_map, List.length_append, List.length_replicate]
    omega
  obtain ⟨s, hrun⟩ := roundSystem_runs (.pinning []) armedSup ls (by
    rw [hfaults, hlen]
    exact hrunning n)
  have hnative : ∀ n : Fin 8, stageAfter true (faultsBefore n) = .native := by decide
  have hround := (roundAfter_of_run hrun).inv
  rw [hfaults, show armedSup.natRuns = true from rfl, hnative n] at hround
  obtain ⟨⟨e, hctl, hcomp, -⟩, -⟩ := hround.at_stage
  have hsteps := StepsFrom.forensics hrun
  rw [List.map_map] at hsteps
  refine ⟨s, e, nativeFault.trap.take (.pinning []) (nativeFault.writes.apply s), hsteps, hctl,
    hcomp, ?_⟩
  unfold roundStep
  rw [hctl]

/-- Behind six faults the frame carries the seventh. -/
theorem supervisorFault_telemetry_iff_six :
    ∃ s', ∃ p, s'.tx = [⟨FRAME_TELE, p⟩] ∧ CarriesFault p (7, 0x1234) ∧
      ∃ s, roundStep (.pinning []) s nativeFault = some s' := by
  obtain ⟨s, e, s', hrun, hctl, hcomp, hstep⟩ := nativeFault_reached 6
  obtain ⟨p, hsent, hcarries⟩ := supervisorFault_telemetry_iff rfl hrun hctl hcomp rfl hstep
  exact ⟨s', p, hsent, hcarries.mpr (.inl (by decide)), s, hstep⟩

/-- Behind seven it carries the last attacker's. -/
theorem supervisorFault_telemetry_seven :
    ∃ s s' p, StepsFrom (forensicsRound (.pinning [])) (scheduleRound (.pinning []) armedSup)
        ((faultsBefore 7).map fun fault => .lifetime (blankLifetime fault)) s ∧
      roundStep (.pinning []) s nativeFault = some s' ∧ s'.tx = [⟨FRAME_TELE, p⟩] ∧
      CarriesFault p (5, 0) ∧ ¬ CarriesFault p (7, 0x1234) := by
  obtain ⟨s, e, s', hrun, hctl, hcomp, hstep⟩ := nativeFault_reached 7
  have hinv := forensicsInv_of_run rfl hrun
  obtain ⟨hphase, hcur⟩ := hinv.round.native hctl hcomp
  obtain ⟨hdrains, htx⟩ := hinv.quiet (hinv.round.running_of_user hctl)
  obtain ⟨p, hcarries, hsent⟩ := lifetime_telemetry (hinv.index_le rfl) hphase hcur rfl hstep
  have hlatest : (s.ring.record 8 (7, 0x1234)).latest = (5, 0) := by
    rw [hinv.ring]
    rfl
  rw [hdrains, htx] at hsent
  rw [hlatest] at hcarries
  refine ⟨s, s', p, hrun, hstep, congrArg Forensics.tx hsent, (hcarries _).mpr rfl, fun h => ?_⟩
  exact absurd ((hcarries _).mp h) (by decide)

end Interclus

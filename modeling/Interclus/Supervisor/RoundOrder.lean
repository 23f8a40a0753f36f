import Interclus.Supervisor.NativeSlots

/-! # The Order of a Round

    A round is a chain of compartment lifetimes: each entry ends in a yield
    or a fault, and the trap decides who is entered next.  The control flow
    of `supervisor_resume` and `supervisor_fault` is a small machine over
    stages; `RoundInv` ties the phase, the vector index, the eviction flags
    and the slot table to it. -/

namespace Interclus

open Words LTS

/-! ## Stages -/

/-- Who was entered last, or how the round ended. -/
inductive RoundStage where
  | monitor (mode : Fin 3)
  | attacker (v : Fin 7)
  | native
  | done
  | halted
  deriving DecidableEq

/-- A compartment runs. -/
def RoundStage.Running : RoundStage → Prop
  | .monitor _ | .attacker _ | .native => True
  | .done | .halted => False

instance (st : RoundStage) : Decidable st.Running :=
  match st with
  | .monitor _ | .attacker _ | .native => isTrue trivial
  | .done | .halted => isFalse id

/-- What the end of a lifetime leads to. -/
def RoundStage.next (runnable : Bool) (st : RoundStage) (fault : Bool) : RoundStage :=
  match st with
  | .monitor mode =>
    if fault then .halted
    else if mode = 2 then .attacker 0
    else .monitor (mode + 1)
  | .attacker v =>
    if v < 6 then .attacker (v + 1)
    else if runnable then .native
    else .done
  | .native => .done
  | .done => .done
  | .halted => .halted

/-- The monitor in its three modes, the seven attackers, the native module
    when its slot can run, and the end. -/
def roundOrder (runnable : Bool) : List RoundStage :=
  [.monitor 0, .monitor 1, .monitor 2, .attacker 0, .attacker 1, .attacker 2, .attacker 3,
    .attacker 4, .attacker 5, .attacker 6] ++ (if runnable then [.native] else []) ++ [.done]

/-- The stage after lifetimes that ended as `faults` says. -/
def stageAfter (runnable : Bool) (faults : List Bool) : RoundStage :=
  faults.foldl (RoundStage.next runnable) (.monitor 0)

/-- A step along the order; only a fault of the monitor leaves it. -/
theorem roundOrder_next (runnable fault : Bool) (n : Nat) :
    ((roundOrder runnable).getD n .done).next runnable fault =
      if fault ∧ n < 3 then .halted else (roundOrder runnable).getD (n + 1) .done := by
  have hall : ∀ n < 12, ∀ runnable fault : Bool,
      ((roundOrder runnable).getD n .done).next runnable fault =
        if fault ∧ n < 3 then .halted else (roundOrder runnable).getD (n + 1) .done := by
    decide
  by_cases hn : n < 12
  · exact hall n hn runnable fault
  · have hlen : (roundOrder runnable).length ≤ n := by
      cases runnable <;> (unfold roundOrder; simp; omega)
    have hpast : ∀ k, n ≤ k → (roundOrder runnable).getD k .done = .done := fun k hk => by
      rw [List.getD_eq_getElem?_getD, List.getElem?_eq_none (by omega)]
      rfl
    rw [if_neg (by omega), hpast n (le_refl n), hpast (n + 1) (by omega)]
    rfl

/-- What runs is followed by something. -/
theorem lt_of_running {runnable : Bool} {n : Nat}
    (h : ((roundOrder runnable).getD n .done).Running) : n + 1 < (roundOrder runnable).length := by
  by_contra hlast
  have hdone : (roundOrder runnable).getD n .done = .done := by
    rw [List.getD_eq_getElem?_getD]
    by_cases hn : n < (roundOrder runnable).length
    · have hend : n = (roundOrder runnable).length - 1 := by omega
      rw [hend]
      cases runnable <;> rfl
    · rw [List.getElem?_eq_none (by omega)]
      rfl
  rw [hdone] at h
  exact h

theorem stageAfter_concat (runnable : Bool) (faults : List Bool) (fault : Bool) :
    stageAfter runnable (faults ++ [fault]) = (stageAfter runnable faults).next runnable fault := by
  unfold stageAfter
  rw [List.foldl_append]
  rfl

/-- The round keeps its order unless the monitor faults. -/
theorem stageAfter_eq (runnable : Bool) (faults : List Bool) :
    stageAfter runnable faults =
      if true ∈ faults.take 3 then .halted else (roundOrder runnable).getD faults.length .done := by
  induction faults using List.reverseRecOn with
  | nil => rfl
  | append_singleton faults fault ih =>
    have htake : true ∈ (faults ++ [fault]).take 3 ↔
        true ∈ faults.take 3 ∨ fault = true ∧ faults.length < 3 := by
      rw [List.take_append, List.mem_append]
      by_cases hlen : faults.length < 3
      · rw [List.take_of_length_le (l := [fault]) (by simp; omega)]
        simp [hlen, eq_comm]
      · rw [show 3 - faults.length = 0 by omega]
        simp [hlen]
    rw [stageAfter_concat, ih]
    by_cases hfault : true ∈ faults.take 3
    · rw [if_pos hfault, if_pos (htake.mpr (.inl hfault))]
      rfl
    · rw [if_neg hfault, roundOrder_next, List.length_append, List.length_singleton]
      by_cases hlast : fault = true ∧ faults.length < 3
      · rw [if_pos hlast, if_pos (htake.mpr (.inr hlast))]
      · rw [if_neg hlast, if_neg fun h => (htake.mp h).elim hfault hlast]

/-! ## Lifetimes -/

/-- What a lifetime can leave behind: anything in the memory of the
    compartment that runs, and what transports stage meanwhile. -/
structure Writes where
  mon : MonBox
  atkOwn : U32
  atkProof : U32
  natProof : U32
  pend : Mem
  pendOk : U32
  mailbox : Mem

def Writes.apply (w : Writes) (s : Sup) : Sup :=
  { s with
    mon := if s.ctl.runs 0 then w.mon else s.mon
    atkOwn := if s.ctl.runs 1 then w.atkOwn else s.atkOwn
    atkProof := if s.ctl.runs 1 then w.atkProof else s.atkProof
    natProof := fun k => if s.ctl.runs 2 ∧ k = s.natLive then w.natProof else s.natProof k
    pend := w.pend
    pendOk := w.pendOk
    mailbox := w.mailbox }

/-- How a lifetime ends. -/
inductive Trap where
  | ecall (regs : Fin 32 → U32)
  | fault (cause addr : U32) (regs : Fin 32 → U32)

def Trap.isFault : Trap → Bool
  | .ecall _ => false
  | .fault .. => true

def Trap.take (b : Build) : Trap → Sup → Sup
  | .ecall regs => trapEcall b regs
  | .fault cause addr regs => trapFault b cause addr regs

structure Lifetime where
  writes : Writes
  trap : Trap

/-- One lifetime: the compartment that was entered runs and traps. -/
def roundStep (b : Build) (s : Sup) (l : Lifetime) : Option Sup :=
  match s.ctl with
  | .user _ => some (l.trap.take b (l.writes.apply s))
  | _ => none

/-- Rounds, from any state `schedule_round` is called in. -/
def roundSystem (b : Build) : System Sup Lifetime where
  init s := ∃ s₀, s = scheduleRound b s₀
  step s l s' := roundStep b s l = some s'

/-! ## Compartments across a switch -/

/-- What a compartment is entered with. -/
structure Described (t : CompTable) (i : Nat) (spec : IcCompartmentSpec) (entry : U32) : Prop where
  spec : (t.comps i).spec = spec
  entry : (t.comps i).entry = entry
  evicted : (t.comps i).evicted = false

section Described
variable {t : CompTable} {i j : Nat} {spec : IcCompartmentSpec} {entry : U32}

theorem Described.arm (h : Described t i spec entry) :
    Described (compartmentArm j t) i spec entry := by
  unfold compartmentArm
  split
  · exact h
  · have hcomp : ∀ armed : Bool, (if i < COMP_COUNT then { t.comps i with armed := armed }
        else t.comps i).spec = spec ∧
        (if i < COMP_COUNT then { t.comps i with armed := armed } else t.comps i).entry = entry ∧
        (if i < COMP_COUNT then { t.comps i with armed := armed } else t.comps i).evicted =
          false := by
      intro armed
      split <;> exact ⟨h.spec, h.entry, h.evicted⟩
    obtain ⟨h₁, h₂, h₃⟩ := hcomp (decide (i = j))
    exact ⟨h₁, h₂, h₃⟩

theorem Described.congr {t' : CompTable} (h : Described t i spec entry)
    (hcomp : t'.comps i = t.comps i) : Described t' i spec entry :=
  ⟨by rw [hcomp]; exact h.spec, by rw [hcomp]; exact h.entry, by rw [hcomp]; exact h.evicted⟩

theorem Described.saved (h : Described t i spec entry) (regs : Fin 32 → U32) :
    Described (saveTcb regs t) i spec entry := by
  unfold saveTcb
  split
  · exact h
  · next j _ =>
    by_cases hij : i = j
    · subst hij
      refine ⟨?_, ?_, ?_⟩
      all_goals simp only [CompTable.setComp, if_true]
      · exact h.spec
      · exact h.entry
      · exact h.evicted
    · exact h.congr (if_neg hij)

theorem described_set (hi : i < COMP_COUNT) (spec : IcCompartmentSpec) (entry : U32)
    (t : CompTable) : Described (compartmentSet i spec entry t) i spec entry := by
  have hset := compartmentSet_comps hi spec entry t
  exact ⟨by rw [hset], by rw [hset], by rw [hset]⟩

end Described

/-- The compartment was entered at `mepc`, and it is not evicted. -/
def Entered (s : Sup) (i : Nat) (mepc : U32) : Prop :=
  ∃ e, s.ctl = .user e ∧ e.comp = i ∧ e.mepc = mepc ∧ s.comp.curComp = i ∧
    (s.comp.comps i).evicted = false

/-- Entering a compartment that is not evicted. -/
theorem enterChecked_entered {i : Nat} {s : Sup} {spec : IcCompartmentSpec} {entry : U32}
    (hi : i < COMP_COUNT) (h : Described s.comp i spec entry) :
    ∃ comp e, enterChecked i s = { s with comp := comp, ctl := .user e } ∧
      Entered (enterChecked i s) i (spec.textBase + entry) ∧
      ∀ j spec entry, Described s.comp j spec entry → Described comp j spec entry := by
  have hev : compartmentEvicted i s.comp = false := (if_pos hi).trans h.evicted
  have hrun : enterChecked i s = { s with
      comp := { compartmentArm i s.comp with curComp := i, curTcb := some i }
      ctl := .user ⟨i, ((compartmentArm i s.comp).comps i).spec.textBase +
        ((compartmentArm i s.comp).comps i).entry, ((compartmentArm i s.comp).comps i).tcb⟩ } := by
    unfold enterChecked compartmentEnter
    rw [hev, h.evicted]
    rfl
  have harm := h.arm (j := i)
  refine ⟨_, _, hrun, ?_, fun j spec entry hj => (hj.arm (j := i)).congr rfl⟩
  rw [hrun]
  refine ⟨_, rfl, rfl, ?_, rfl, harm.evicted⟩
  dsimp only
  rw [harm.spec, harm.entry]

/-! ## The stage of a state -/

/-- A native slot can run when the native phase comes. -/
def Sup.natRuns (s : Sup) : Bool :=
  !s.natRetired && (s.nat s.natLive).valid && !(s.nat s.natLive).evicted

/-- Where the core goes at the end of a pass. -/
def passEnd (b : Build) (s : Sup) : Control :=
  match b.target with
  | .qemu => .swept
  | .board => .service (s.status S_HLOAD)

/-- `s` is at a stage of the round started in `s₀`. -/
def AtStage (b : Build) (s₀ s : Sup) : RoundStage → Prop
  | .monitor mode =>
    Entered s 0 b.monitorEntry ∧ s.phase = BitVec.ofNat 32 mode + 1 ∧
      s.mon.mode = BitVec.ofNat 32 mode
  | .attacker v => Entered s 1 (b.atkEntry v) ∧ s.phase = 4 ∧ s.atkVec = BitVec.ofNat 32 v
  | .native =>
    Entered s 2 ((natSpec b.target s₀.natLive).textBase + (s₀.nat s₀.natLive).entry) ∧ s.phase = 5
  | .done => s.status S_DONE = 0x600DF00D ∧ s.ctl = passEnd b s
  | .halted =>
    s.ctl = .halted ∧ s.status S_HALT = 0x48414C54 ∧
      ∃ mode : Fin 3, ∃ cause,
        s.status S_HALTC = (BitVec.ofNat 32 mode + 1) <<< 24 ||| (cause &&& 0xFFFFFF)

/-- What the later entries of the round rest on. -/
structure RoundWaits (b : Build) (s₀ s : Sup) : Prop where
  monitor : Described s.comp 0 (icCompMonitor b.target) (b.monitorEntry - MON_TEXT b.target)
  native : Described s.comp 2 (natSpec b.target s₀.natLive) (s₀.nat s₀.natLive).entry
  table : s.natTable = s₀.natTable

structure RoundInv (b : Build) (s₀ s : Sup) (st : RoundStage) : Prop where
  at_stage : AtStage b s₀ s st
  waits : st.Running → RoundWaits b s₀ s

theorem base_add_offset (base addr : U32) : base + (addr - base) = addr := by bv_omega

section Stages
variable {b : Build} {s₀ s : Sup}

theorem RoundWaits.natRuns (h : RoundWaits b s₀ s) : s.natRuns = s₀.natRuns := by
  have hretired : s.natRetired = s₀.natRetired := congrArg NatTable.retired h.table
  have hlive : s.natLive = s₀.natLive := congrArg NatTable.live h.table
  have hslot : s.nat = s₀.nat := congrArg NatTable.slot h.table
  unfold Sup.natRuns
  rw [hretired, hlive, hslot]

theorem nativeDone_stage (proof : Bool) (s : Sup) : RoundInv b s₀ (nativeDone b proof s) .done := by
  refine ⟨?_, fun h => h.elim⟩
  unfold AtStage nativeDone passEnd
  cases b.target <;> exact ⟨rfl, rfl⟩

theorem nextMode_stage (h : RoundWaits b s₀ s) (mode : Fin 3) :
    RoundInv b s₀ (nextMode (BitVec.ofNat 32 mode) s) (.monitor mode) := by
  obtain ⟨comp, e, heq, hentered, hdesc⟩ := enterChecked_entered (i := 0) (by decide)
    (s := { s with
      comp := compartmentArm 0 s.comp
      phase := BitVec.ofNat 32 mode + 1
      mon := { s.mon with mode := BitVec.ofNat 32 mode }
      stk0 := s.clock 0 }.ticked) h.monitor.arm
  have hbase : (icCompMonitor b.target).textBase + (b.monitorEntry - MON_TEXT b.target) =
      b.monitorEntry := by
    cases b.target <;> exact base_add_offset _ _
  rw [hbase] at hentered
  unfold nextMode
  refine ⟨⟨hentered, ?_, ?_⟩, fun _ => ?_⟩
  · rw [heq]
    rfl
  · rw [heq]
    rfl
  · rw [heq]
    exact ⟨hdesc _ _ _ h.monitor.arm, hdesc _ _ _ h.native.arm, h.table⟩

theorem atkSchedule_stage (h : RoundWaits b s₀ s) (hphase : s.phase = 4) (v : Fin 7)
    (hvec : s.atkVec = BitVec.ofNat 32 v) : RoundInv b s₀ (atkSchedule b v s) (.attacker v) := by
  let comp := compartmentSet 1 (icCompAttacker b.target) (b.atkEntry v - ATK_TEXT b.target) s.comp
  -- a fresh lifetime: set, armed, entered; 0 and 2 stay as they were
  have hset : Described comp 1 (icCompAttacker b.target) (b.atkEntry v - ATK_TEXT b.target) :=
    described_set (by decide) _ _ _
  have hothers : ∀ j spec entry, j ≠ 1 → Described s.comp j spec entry →
      Described (compartmentArm 1 comp) j spec entry := fun j spec entry hj hdesc =>
    (hdesc.congr (compartmentSet_frame hj _ _ _)).arm
  obtain ⟨comp', e, heq, hentered, hdesc⟩ := enterChecked_entered (i := 1) (by decide)
    (s := { s with comp := compartmentArm 1 comp }) (hset.arm (j := 1))
  have hbase : (icCompAttacker b.target).textBase + (b.atkEntry v - ATK_TEXT b.target) =
      b.atkEntry v := by
    cases b.target <;> exact base_add_offset _ _
  rw [hbase] at hentered
  unfold atkSchedule
  refine ⟨⟨hentered, ?_, ?_⟩, fun _ => ?_⟩
  · rw [heq]
    exact hphase
  · rw [heq]
    exact hvec
  · rw [heq]
    exact ⟨hdesc _ _ _ (hothers _ _ _ (by decide) h.monitor),
      hdesc _ _ _ (hothers _ _ _ (by decide) h.native), h.table⟩

theorem nativePhase_stage (h : RoundWaits b s₀ s) :
    RoundInv b s₀ (nativePhase b s) (if s₀.natRuns then .native else .done) := by
  have hruns := h.natRuns
  have hiff : s.natRuns = true ↔
      ¬ (s.natRetired ∨ ¬ (s.nat s.natLive).valid ∨ (s.nat s.natLive).evicted) := by
    unfold Sup.natRuns
    cases s.natRetired <;> cases (s.nat s.natLive).valid <;> cases (s.nat s.natLive).evicted <;>
      decide
  unfold nativePhase
  split
  · next hout =>
    rw [← hruns, if_neg fun hr => hiff.mp hr hout]
    exact nativeDone_stage false _
  · next hrun =>
    rw [← hruns, if_pos (hiff.mpr hrun)]
    obtain ⟨comp, e, heq, hentered, hdesc⟩ := enterChecked_entered (i := 2) (by decide)
      (s := { s.setStatus S_NSLOT (BitVec.ofNat 32 s.natLive) with phase := 5 }) h.native
    refine ⟨⟨hentered, ?_⟩, fun _ => ?_⟩
    · rw [heq]
    · rw [heq]
      exact ⟨hdesc _ _ _ h.monitor, hdesc _ _ _ h.native, h.table⟩

/-- The lifetime of vector `v` is over, however it ended. -/
theorem atkAdvance_stage (h : RoundWaits b s₀ s) (hphase : s.phase = 4) (v : Fin 7)
    (hvec : s.atkVec = BitVec.ofNat 32 v) (fault : Bool) :
    RoundInv b s₀ (atkAdvance b s) ((RoundStage.attacker v).next s₀.natRuns fault) := by
  obtain ⟨hrecord, hnext⟩ :
      (atkRecord s).native = s.native ∧ (atkRecord s).atkVec = s.atkVec + 1 := by
    unfold atkRecord
    dsimp only
    split <;> split <;> exact ⟨rfl, rfl⟩
  have hwaits : RoundWaits b s₀ (atkRecord s) := by
    have hcomp : (atkRecord s).comp = s.comp := congrArg NativeView.comp hrecord
    refine ⟨?_, ?_, (congrArg NativeView.table hrecord).trans h.table⟩ <;> rw [hcomp]
    · exact h.monitor
    · exact h.native
  have hphase' : (atkRecord s).phase = 4 := (congrArg NativeView.phase hrecord).trans hphase
  rw [hvec] at hnext
  unfold atkAdvance RoundStage.next
  dsimp only
  by_cases hv : v < 6
  · -- another one is left
    have hvec' : (atkRecord s).atkVec = BitVec.ofNat 32 (v + 1 : Fin 7) := by
      rw [hnext]
      exact (by decide : ∀ v : Fin 7, v < 6 →
        BitVec.ofNat 32 v + 1 = BitVec.ofNat 32 (v + 1 : Fin 7)) v hv
    have hlt : (atkRecord s).atkVec < 7 := by
      rw [hvec']
      exact (by decide : ∀ w : Fin 7, BitVec.ofNat 32 w < 7) _
    have hnat : (atkRecord s).atkVec.toNat = (v + 1 : Fin 7) := by
      rw [hvec']
      exact (by decide : ∀ w : Fin 7, (BitVec.ofNat 32 w).toNat = w) _
    rw [if_pos hv, if_pos hlt, hnat]
    exact atkSchedule_stage hwaits hphase' (v + 1) hvec'
  · have hlast : v = 6 := by omega
    have hge : ¬ (atkRecord s).atkVec < 7 := by
      rw [hnext, hlast]
      decide
    rw [if_neg hv, if_neg hge]
    exact nativePhase_stage ⟨hwaits.monitor, hwaits.native, hwaits.table⟩

/-! ## The two continuations -/

/-- The phase and the vector index of a running stage. -/
def Phased (s : Sup) : RoundStage → Prop
  | .monitor mode => s.phase = BitVec.ofNat 32 mode + 1
  | .attacker v => s.phase = 4 ∧ s.atkVec = BitVec.ofNat 32 v
  | .native => s.phase = 5
  | .done | .halted => False

/-- The compartment of a running stage. -/
def RoundStage.comp : RoundStage → Nat
  | .monitor _ => 0
  | .attacker _ => 1
  | .native | .done | .halted => 2

theorem RoundWaits.of_native {t : Sup} (h : RoundWaits b s₀ s) (hnative : t.native = s.native) :
    RoundWaits b s₀ t := by
  have hcomp : t.comp = s.comp := congrArg NativeView.comp hnative
  refine ⟨?_, ?_, (congrArg NativeView.table hnative).trans h.table⟩ <;> rw [hcomp]
  · exact h.monitor
  · exact h.native

/-- A yield. -/
theorem supervisorResume_stage (h : RoundWaits b s₀ s) {st : RoundStage} (hst : Phased s st) :
    RoundInv b s₀ (supervisorResume b s) (st.next s₀.natRuns false) := by
  unfold supervisorResume
  -- one case per stage; the phase picks the branch
  cases st with
  | monitor mode =>
    have hmode : mode = 0 ∨ mode = 1 ∨ mode = 2 := by omega
    rcases hmode with rfl | rfl | rfl
    · have hphase : s.phase = 1 := hst
      rw [if_pos hphase]
      have hnoted : RoundWaits b s₀ (rollback (noteVerdicts s)) :=
        h.of_native ((rollback_native (noteVerdicts s)).trans rfl)
      exact nextMode_stage hnoted 1
    · have hphase : s.phase = 2 := hst
      rw [if_neg (by rw [hphase]; decide), if_pos hphase]
      have hnoted : RoundWaits b s₀ (noteScreening s) := h.of_native rfl
      exact nextMode_stage hnoted 2
    · have hphase : s.phase = 3 := hst
      rw [if_neg (by rw [hphase]; decide), if_neg (by rw [hphase]; decide), if_pos hphase]
      have hnoted : RoundWaits b s₀ { noteNative s with phase := 4, atkVec := 0 } :=
        ⟨h.monitor, h.native, h.table⟩
      exact atkSchedule_stage hnoted rfl 0 rfl
  | attacker v =>
    obtain ⟨hphase, hvec⟩ := hst
    rw [if_neg (by rw [hphase]; decide), if_neg (by rw [hphase]; decide),
      if_neg (by rw [hphase]; decide), if_pos hphase]
    exact atkAdvance_stage h hphase v hvec false
  | native =>
    have hphase : s.phase = 5 := hst
    rw [if_neg (by rw [hphase]; decide), if_neg (by rw [hphase]; decide),
      if_neg (by rw [hphase]; decide), if_neg (by rw [hphase]; decide)]
    exact nativeDone_stage true s
  | done => exact hst.elim
  | halted => exact hst.elim

/-- A fault of the compartment that runs. -/
theorem supervisorFault_stage (h : RoundWaits b s₀ s) {st : RoundStage} (hst : Phased s st)
    (hcur : s.comp.curComp = st.comp) (cause : U32) :
    RoundInv b s₀ (supervisorFault b cause s) (st.next s₀.natRuns true) := by
  have hevict := evictRunning_native cause s
  have hphase' : (evictRunning cause s).phase = s.phase := congrArg NativeView.phase hevict
  cases st with
  | monitor mode =>
    -- phases 1 to 3: the fail-stop
    have hphase : s.phase = BitVec.ofNat 32 mode + 1 := hst
    have hbound : ∀ mode : Fin 3, ¬ (BitVec.ofNat 32 mode + 1 : U32) = 4 ∧
        ¬ (5 : U32) ≤ BitVec.ofNat 32 mode + 1 ∧
        ((BitVec.ofNat 32 mode + 1 : U32) &&& 0xFF) <<< 24 = (BitVec.ofNat 32 mode + 1) <<< 24 := by
      decide
    obtain ⟨h4, h5, hlow⟩ := hbound mode
    unfold supervisorFault
    dsimp only
    rw [hphase', hphase, if_neg h4, if_neg h5, hlow]
    exact ⟨⟨rfl, rfl, mode, cause, rfl⟩, fun h => h.elim⟩
  | attacker v =>
    -- the next lifetime, as after a yield
    obtain ⟨hphase, hvec⟩ := hst
    have hvec' : (evictRunning cause s).atkVec = s.atkVec := by
      unfold evictRunning
      split <;> rfl
    have hcomp : (evictRunning cause s).comp = compartmentEvict 1 s.comp := by
      rw [show (evictRunning cause s).comp = _ from congrArg NativeView.comp hevict]
      exact congrArg (compartmentEvict · s.comp) hcur
    have hwaits : RoundWaits b s₀ (evictRunning cause s) := by
      refine ⟨?_, ?_, (congrArg NativeView.table hevict).trans h.table⟩ <;> rw [hcomp]
      · exact h.monitor.congr (compartmentEvict_frame (by decide) _)
      · exact h.native.congr (compartmentEvict_frame (by decide) _)
    unfold supervisorFault
    dsimp only
    rw [if_pos (hphase'.trans hphase)]
    exact atkAdvance_stage hwaits (hphase'.trans hphase) v (hvec'.trans hvec) true
  | native =>
    have hphase : s.phase = 5 := hst
    obtain ⟨s₁, hdone⟩ := supervisorFault_done (b := b) cause (s := s)
      (hphase ▸ BitVec.le_refl _)
    rw [hdone]
    exact nativeDone_stage false s₁
  | done => exact hst.elim
  | halted => exact hst.elim

/-! ## A round -/

/-- What is at a running stage is in its compartment. -/
theorem RoundInv.running {st : RoundStage} (h : RoundInv b s₀ s st) (hst : st.Running) :
    (∃ e, s.ctl = .user e) ∧ Phased s st ∧ s.comp.curComp = st.comp := by
  cases st with
  | monitor mode =>
    obtain ⟨⟨e, hctl, -, -, hcur, -⟩, hphase, -⟩ := h.at_stage
    exact ⟨⟨e, hctl⟩, hphase, hcur⟩
  | attacker v =>
    obtain ⟨⟨e, hctl, -, -, hcur, -⟩, hphase, hvec⟩ := h.at_stage
    exact ⟨⟨e, hctl⟩, ⟨hphase, hvec⟩, hcur⟩
  | native =>
    obtain ⟨⟨e, hctl, -, -, hcur, -⟩, hphase⟩ := h.at_stage
    exact ⟨⟨e, hctl⟩, hphase, hcur⟩
  | done => exact hst.elim
  | halted => exact hst.elim

/-- A compartment runs at the running stages only. -/
theorem RoundInv.running_of_user {st : RoundStage} (h : RoundInv b s₀ s st) {e : UserEntry}
    (hctl : s.ctl = .user e) : st.Running := by
  cases st with
  | done =>
    have hend : passEnd b s = .user e := h.at_stage.2.symm.trans hctl
    unfold passEnd at hend
    split at hend <;> cases hend
  | halted => cases h.at_stage.1.symm.trans hctl
  | _ => trivial

/-- Step lemma: a lifetime takes the round to the next stage. -/
theorem RoundInv.step {st : RoundStage} (h : RoundInv b s₀ s st) {l : Lifetime} {s' : Sup}
    (hstep : roundStep b s l = some s') :
    RoundInv b s₀ s' (st.next s₀.natRuns l.trap.isFault) := by
  unfold roundStep at hstep
  split at hstep
  · next e hctl =>
    obtain rfl := Option.some.inj hstep
    have hst := h.running_of_user hctl
    obtain ⟨-, hphased, hcur⟩ := h.running hst
    have hwaits := h.waits hst
    have hsaved : ∀ regs, RoundWaits b s₀
        { l.writes.apply s with comp := saveTcb regs (l.writes.apply s).comp } := fun regs =>
      ⟨hwaits.monitor.saved regs, hwaits.native.saved regs, hwaits.table⟩
    cases l.trap with
    | ecall regs =>
      refine supervisorResume_stage (hsaved regs) ?_
      cases st <;> exact hphased
    | fault cause addr regs =>
      let t := ringRecord cause addr (l.writes.apply s)
      refine supervisorFault_stage (s := { t with comp := saveTcb regs t.comp })
        ((hsaved regs).of_native rfl) ?_ ?_ cause
      · cases st <;> exact hphased
      · exact (saveTcb_curComp regs _).trans hcur
  · cases hstep

/-- `schedule_round` describes the compartments afresh and enters the
    monitor. -/
theorem scheduleRound_stage (b : Build) (s₀ : Sup) :
    RoundInv b s₀ (scheduleRound b s₀) (.monitor 0) := by
  let comp₀ :=
    compartmentSet 0 (icCompMonitor b.target) (b.monitorEntry - MON_TEXT b.target) s₀.comp
  let comp₁ := compartmentSet 1 (icCompAttacker b.target) (b.atkEntry 0 - ATK_TEXT b.target) comp₀
  let comp₂ := compartmentSet 2 (natSpec b.target s₀.natLive) (s₀.nat s₀.natLive).entry comp₁
  have hmonitor : Described (compartmentArm 0 comp₂) 0 (icCompMonitor b.target)
      (b.monitorEntry - MON_TEXT b.target) := by
    have h₀ : Described comp₀ 0 _ _ := described_set (by decide) _ _ _
    have h₁ : Described comp₁ 0 _ _ := h₀.congr (compartmentSet_frame (by decide) _ _ _)
    exact (h₁.congr (compartmentSet_frame (by decide) _ _ _)).arm
  have hnative : Described (compartmentArm 0 comp₂) 2 (natSpec b.target s₀.natLive)
      (s₀.nat s₀.natLive).entry := (described_set (by decide) _ _ _).arm
  have hbase : (icCompMonitor b.target).textBase + (b.monitorEntry - MON_TEXT b.target) =
      b.monitorEntry := by
    cases b.target <;> exact base_add_offset _ _
  -- whatever the mailbox holds, the state that is entered has these compartments
  have henter : ∀ t : Sup, t.comp = compartmentArm 0 comp₂ → t.phase = 1 → t.mon.mode = 0 →
      t.natTable = s₀.natTable → RoundInv b s₀ (enterChecked 0 t) (.monitor 0) := by
    intro t hcomp hphase hmode htable
    obtain ⟨comp, e, heq, hentered, hdesc⟩ := enterChecked_entered (i := 0) (by decide)
      (s := t) (hcomp ▸ hmonitor)
    rw [hbase] at hentered
    refine ⟨⟨hentered, ?_, ?_⟩, fun _ => ?_⟩ <;> rw [heq]
    · exact hphase
    · exact hmode
    · exact ⟨hdesc _ _ _ (hcomp ▸ hmonitor), hdesc _ _ _ (hcomp ▸ hnative), htable⟩
  unfold scheduleRound
  dsimp only
  refine henter _ ?_ rfl rfl ?_ <;> split <;> rfl

/-- A lifetime needs a compartment that runs. -/
theorem roundStep_user {l : Lifetime} {s' : Sup} (h : roundStep b s l = some s') :
    ∃ e, s.ctl = .user e := by
  unfold roundStep at h
  split at h
  · next e hctl => exact ⟨e, hctl⟩
  · cases h

/-- The round after `faults`: its stage, and its place in the order. -/
structure RoundAfter (b : Build) (s₀ : Sup) (faults : List Bool) (s : Sup) : Prop where
  inv : RoundInv b s₀ s (stageAfter s₀.natRuns faults)
  place : true ∉ faults.take 3 → faults.length < (roundOrder s₀.natRuns).length

theorem RoundAfter.step {faults : List Bool} (h : RoundAfter b s₀ faults s) {l : Lifetime}
    {s' : Sup} (hstep : roundStep b s l = some s') : RoundAfter b s₀ (faults ++ [l.trap.isFault]) s' := by
  obtain ⟨e, hctl⟩ := roundStep_user hstep
  have hrunning := h.inv.running_of_user hctl
  refine ⟨?_, fun hno => ?_⟩
  · rw [stageAfter_concat]
    exact h.inv.step hstep
  · have hno' : true ∉ faults.take 3 := fun hin =>
      hno (by rw [List.take_append]; exact List.mem_append_left _ hin)
    rw [stageAfter_eq, if_neg hno'] at hrunning
    rw [List.length_append, List.length_singleton]
    exact lt_of_running hrunning

end Stages

theorem roundAfter_of_run {b : Build} {s₀ s : Sup} {ls : List Lifetime}
    (h : StepsFrom (roundSystem b) (scheduleRound b s₀) ls s) :
    RoundAfter b s₀ (ls.map fun l => l.trap.isFault) s := by
  refine h.history (P := fun ls s => RoundAfter b s₀ (ls.map fun l => l.trap.isFault) s) ?_ ?_
  · intro ls s l s' hafter hstep
    rw [List.map_append]
    exact hafter.step hstep
  · exact ⟨scheduleRound_stage b s₀, fun _ => by cases s₀.natRuns <;> decide⟩

/-- The two ends of `enter_checked` that refuse an evicted compartment. -/
def Refused (s : Sup) : Prop :=
  s.ctl = .parked ∨
    s.ctl = .halted ∧ ∃ i < COMP_COUNT, s.status S_HALTC = 0xEE00 ||| BitVec.ofNat 32 i

theorem AtStage.not_refused {b : Build} {s₀ s : Sup} {st : RoundStage} (h : AtStage b s₀ s st) :
    ¬ Refused s := by
  have huser : ∀ {i mepc}, Entered s i mepc → ¬ Refused s := by
    rintro i mepc ⟨e, hctl, -⟩ (hr | ⟨hr, -⟩)
    · cases hctl.symm.trans hr
    · cases hctl.symm.trans hr
  cases st with
  | monitor mode => exact huser h.1
  | attacker v => exact huser h.1
  | native => exact huser h.1
  | done =>
    have hend := h.2
    unfold passEnd at hend
    rintro (hr | ⟨hr, -⟩) <;> rw [hr] at hend <;> split at hend <;> cases hend
  | halted =>
    obtain ⟨hctl, -, mode, cause, hcode⟩ := h
    rintro (hr | ⟨-, i, hi, hcode'⟩)
    · cases hctl.symm.trans hr
    · -- the phase is in the high byte, which a schedule bug leaves zero
      have hhigh : ∀ mode : Fin 3, ∀ i < COMP_COUNT,
          ((BitVec.ofNat 32 mode + 1 : U32) <<< 24) &&& 0xFF000000 ≠
            (0xEE00 ||| BitVec.ofNat 32 i) &&& 0xFF000000 := by
        decide
      have hlow : (cause &&& 0xFFFFFF) &&& 0xFF000000 = 0 := by
        rw [BitVec.and_assoc]
        exact BitVec.and_zero
      refine hhigh mode i hi ?_
      rw [← hcode', hcode, BitVec.and_or_distrib_right, hlow]
      exact BitVec.or_zero.symm

/-- **The order of a round.** From any state `schedule_round` is called in,
    and for every chain of lifetimes, whatever each leaves in its own memory
    and however it ends: the round is at a stage.  It is the fail-stop
    exactly when one of the first three lifetimes, those of the monitor,
    faulted; otherwise it is the stage the order has at this place.  At a
    running stage that compartment was entered, not evicted, and its
    lifetime has an outcome; at the last one `S_DONE` is set. -/
theorem scheduleRound_order {b : Build} {s₀ s : Sup} {ls : List Lifetime}
    (h : StepsFrom (roundSystem b) (scheduleRound b s₀) ls s) :
    ∃ st, AtStage b s₀ s st ∧
      (st = .halted ↔ true ∈ (ls.map fun l => l.trap.isFault).take 3) ∧
      (st ≠ .halted → (roundOrder s₀.natRuns)[ls.length]? = some st) ∧
      (st.Running → ∀ l, ∃ s', roundStep b s l = some s') ∧ ¬ Refused s := by
  obtain ⟨hinv, hplace⟩ := roundAfter_of_run h
  have hafter := stageAfter_eq s₀.natRuns (ls.map fun l => l.trap.isFault)
  rw [List.length_map] at hplace hafter
  refine ⟨_, hinv.at_stage, ?_⟩
  by_cases hfault : true ∈ (ls.map fun l => l.trap.isFault).take 3
  · rw [if_pos hfault] at hafter
    rw [hafter]
    exact ⟨iff_of_true rfl hfault, fun hne => absurd rfl hne, fun hst => hst.elim,
      hinv.at_stage.not_refused⟩
  · have hget := List.getElem?_eq_getElem (hplace hfault)
    rw [if_neg hfault, List.getD_eq_getElem?_getD, hget, Option.getD_some] at hafter
    have hmem : stageAfter s₀.natRuns (ls.map fun l => l.trap.isFault) ∈ roundOrder s₀.natRuns := by
      rw [hafter]
      exact List.getElem_mem _
    refine ⟨iff_of_false (fun hhalt => ?_) hfault, fun _ => hafter ▸ hget, fun hst l => ?_,
      hinv.at_stage.not_refused⟩
    · rw [hhalt] at hmem
      revert hmem
      cases s₀.natRuns <;> decide
    · obtain ⟨⟨e, hctl⟩, -⟩ := hinv.running hst
      refine ⟨l.trap.take b (l.writes.apply s), ?_⟩
      unfold roundStep
      rw [hctl]

/-- Every chain that stays on running stages happens. -/
theorem roundSystem_runs (b : Build) (s₀ : Sup) (ls : List Lifetime)
    (h : ∀ n < ls.length,
      (stageAfter s₀.natRuns ((ls.map fun l => l.trap.isFault).take n)).Running) :
    ∃ s, StepsFrom (roundSystem b) (scheduleRound b s₀) ls s := by
  induction ls using List.reverseRecOn with
  | nil => exact ⟨_, .nil _⟩
  | append_singleton ls l ih =>
    have hmap : ∀ n ≤ ls.length, ((ls ++ [l]).map fun l => l.trap.isFault).take n =
        (ls.map fun l => l.trap.isFault).take n := fun n hn => by
      rw [List.map_append, List.take_append_of_le_length (by rw [List.length_map]; exact hn)]
    obtain ⟨s, hs⟩ := ih fun n hn => by
      have hrun := h n (by rw [List.length_append]; omega)
      rwa [hmap n (by omega)] at hrun
    have hlast := h ls.length (by rw [List.length_append]; exact Nat.lt_succ_self _)
    rw [hmap _ (Nat.le_refl _), List.take_of_length_le (by rw [List.length_map])] at hlast
    obtain ⟨⟨e, hctl⟩, -⟩ := (roundAfter_of_run hs).inv.running hlast
    refine ⟨l.trap.take b (l.writes.apply s), hs.append (.cons _ _ ?_ (.nil _))⟩
    show roundStep b s l = _
    unfold roundStep
    rw [hctl]

/-- The monitor yields, everyone behind it faults. -/
def allFault : List Bool :=
  [false, false, false, true, true, true, true, true, true, true, true]

/-- A lifetime that leaves zeroed memory and ends as `fault` says. -/
def blankLifetime (fault : Bool) : Lifetime where
  writes := ⟨Sup.zeroed.mon, 0, 0, 0, fun _ => 0, 0, fun _ => 0⟩
  trap := if fault then .fault 5 0 fun _ => 0 else .ecall fun _ => 0

/-- A native module in slot 0 that can run. -/
def armedSup : Sup := Sup.zeroed.setNat 0 ⟨4, 0, true, false⟩

/-- That round still ends with `S_DONE`. -/
theorem scheduleRound_order_allFault :
    ∃ s, StepsFrom (roundSystem (.pinning [])) (scheduleRound (.pinning []) armedSup)
        (allFault.map blankLifetime) s ∧
      AtStage (.pinning []) armedSup s .done ∧ ¬ Refused s := by
  obtain ⟨s, hrun⟩ := roundSystem_runs (.pinning []) armedSup (allFault.map blankLifetime)
    (by decide)
  obtain ⟨st, hat, hhalt, horder, -, hrefused⟩ := scheduleRound_order hrun
  have hst : st ≠ .halted := fun h => absurd (hhalt.mp h) (by decide)
  have hdone : some st = some .done := (horder hst).symm.trans (by decide)
  exact ⟨s, hrun, Option.some.inj hdone ▸ hat, hrefused⟩

/-! ## The machine makes rounds -/

/-- How the traps of a run ended their lifetimes. -/
def trapFaults : List Event → List Bool
  | [] => []
  | .ecall _ :: es => false :: trapFaults es
  | .fault .. :: es => true :: trapFaults es
  | _ :: es => trapFaults es

theorem trapFaults_append (es es' : List Event) :
    trapFaults (es ++ es') = trapFaults es ++ trapFaults es' := by
  induction es with
  | nil => rfl
  | cons e es ih =>
    cases e with
    | ecall regs => exact congrArg (false :: ·) ih
    | fault cause addr regs => exact congrArg (true :: ·) ih
    | _ => exact ih

/-- Nothing written yet. -/
def Writes.none (s : Sup) : Writes :=
  ⟨s.mon, s.atkOwn, s.atkProof, s.natProof s.natLive, s.pend, s.pendOk, s.mailbox⟩

theorem Writes.none_apply (s : Sup) : (Writes.none s).apply s = s := by
  have hproof : (fun k => if s.ctl.runs 2 ∧ k = s.natLive then s.natProof s.natLive
      else s.natProof k) = s.natProof := by
    funext k
    split
    · next h => rw [h.2]
    · rfl
  unfold apply none
  rw [hproof]
  simp

/-- `t` is `s` with what the compartment that runs wrote since. -/
def WroteSince (s t : Sup) : Prop := ∃ w : Writes, t = w.apply s

/-- Writing twice is writing once. -/
theorem WroteSince.apply {s t : Sup} (h : WroteSince s t) (w : Writes) :
    WroteSince s (w.apply t) := by
  have hlast : ∀ {α : Type} (c : Prop) [Decidable c] (x y z : α),
      (if c then x else if c then y else z) = if c then x else z := by
    intro α c _ x y z
    split
    · rfl
    · rfl
  obtain ⟨w₀, rfl⟩ := h
  refine ⟨w, ?_⟩
  unfold Writes.apply
  simp only [hlast]

/-- What a compartment does in a run is among its writes. -/
theorem UserEffect.apply_writes {s : Sup} {u : UserEntry} (hctl : s.ctl = .user u)
    {eff : UserEffect} (heff : eff.comp = u.comp) : eff.apply s = (Writes.none (eff.apply s)).apply s := by
  have hruns : ∀ i, s.ctl.runs i = (eff.comp == i) := fun i => by
    rw [hctl, heff]
    rfl
  cases eff with
  | monitor => simp [Writes.apply, Writes.none, UserEffect.apply, hruns, UserEffect.comp]
  | attacker => simp [Writes.apply, Writes.none, UserEffect.apply, hruns, UserEffect.comp]
  | native =>
    simp [Writes.apply, Writes.none, UserEffect.apply, hruns, UserEffect.comp, Sup.setProof]

/-- **The machine makes rounds.** Whatever runs between `schedule_round` and
    the end of the pass is a chain of lifetimes, the last one still open. -/
theorem machine_rounds {b : Build} {s₀ s : Sup} {es : List Event}
    (h : StepsFrom (machine b) (scheduleRound b s₀) es s) (hes : ∀ e ∈ es, InRound e) :
    ∃ ls s₁, StepsFrom (roundSystem b) (scheduleRound b s₀) ls s₁ ∧ WroteSince s₁ s ∧
      (ls.map fun l => l.trap.isFault) = trapFaults es := by
  refine h.history (P := fun es s => (∀ e ∈ es, InRound e) → ∃ ls s₁,
    StepsFrom (roundSystem b) (scheduleRound b s₀) ls s₁ ∧ WroteSince s₁ s ∧
      (ls.map fun l => l.trap.isFault) = trapFaults es) ?_ ?_ hes
  · intro es s e s' ih hstep hes
    obtain ⟨ls, s₁, hrun, hwrote, hfaults⟩ := ih fun e he => hes e (List.mem_append_left _ he)
    have he := hes e (by simp)
    -- a trap closes the open lifetime, other events write in it
    have htrap : ∀ (trap : Trap) (u : UserEntry), s.ctl = .user u →
        trapFaults (es ++ [e]) = trapFaults es ++ [trap.isFault] →
        ∃ ls s₂, StepsFrom (roundSystem b) (scheduleRound b s₀) ls s₂ ∧
          WroteSince s₂ (trap.take b s) ∧
          (ls.map fun l => l.trap.isFault) = trapFaults (es ++ [e]) := by
      intro trap u hctl htraps
      obtain ⟨w, rfl⟩ := hwrote
      have hctl₁ : s₁.ctl = .user u := hctl
      refine ⟨ls ++ [⟨w, trap⟩], _, hrun.append (.cons _ _ ?_ (.nil _)),
        ⟨_, (Writes.none_apply _).symm⟩, ?_⟩
      · show roundStep b s₁ ⟨w, trap⟩ = _
        unfold roundStep
        rw [hctl₁]
      · rw [List.map_append, hfaults, htraps]
        rfl
    have hsame : trapFaults (es ++ [e]) = trapFaults es → WroteSince s₁ s' →
        ∃ ls s₂, StepsFrom (roundSystem b) (scheduleRound b s₀) ls s₂ ∧ WroteSince s₂ s' ∧
          (ls.map fun l => l.trap.isFault) = trapFaults (es ++ [e]) :=
      fun htraps hwrote' => ⟨ls, s₁, hrun, hwrote', hfaults.trans htraps.symm⟩
    have happend := trapFaults_append es [e]
    cases machineStep_moved hstep with
    | user u eff hctl heff =>
      refine hsame (happend.trans (List.append_nil _)) ?_
      rw [UserEffect.apply_writes hctl heff]
      exact hwrote.apply _
    | ecall u regs hctl => exact htrap (.ecall regs) u hctl happend
    | fault u cause addr regs hctl => exact htrap (.fault cause addr regs) u hctl happend
    | stage pend pendOk mailbox =>
      refine hsame (happend.trans (List.append_nil _)) ?_
      have hstaged : ({ s with pend := pend, pendOk := pendOk, mailbox := mailbox } : Sup) =
          ({ Writes.none s with pend := pend, pendOk := pendOk, mailbox := mailbox } :
            Writes).apply s := by
        conv_lhs => rw [← Writes.none_apply s]
        rfl
      rw [hstaged]
      exact hwrote.apply _
    | turn => exact he.elim
    | poll => exact he.elim
    | swap => exact he.elim
    | finalize => exact he.elim
    | round => exact he.elim
    | beat => exact he.elim
    | reset => exact he.elim
  · exact fun _ => ⟨[], _, .nil _, ⟨_, (Writes.none_apply _).symm⟩, rfl⟩

end Interclus

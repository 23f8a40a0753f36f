import Interclus.Supervisor.Carried
import Interclus.Supervisor.Staging

/-! # Only Verified Programs

    The monitor slot and its shadow hold verified programs whenever their
    counts are not zero.  Three writers move them (`load_program`,
    `hot_swap` and the rollback); everything else the supervisor does
    leaves the four of them alone. -/

namespace Interclus

open Words LTS

/-! ## The program slots -/

/-- An empty slot, or one that holds a verified program. -/
def Verified (prog : Nat → U64) (cnt : U32) : Prop :=
  cnt ≠ 0 → cnt ≤ 64 ∧ icProgramCheck (some prog) cnt = .ok

structure LivePrograms (p : ProgSlots) : Prop where
  live : Verified p.prog p.progCnt
  shadow : Verified p.progB p.progBCnt

theorem Verified.zero (prog : Nat → U64) : Verified prog 0 := fun h => absurd rfl h

/-- A copy of the first 64 words is as good. -/
theorem Verified.copy {prog prog' : Nat → U64} {cnt : U32} (h : Verified prog cnt)
    (hcopy : ∀ i < 64, prog' i = prog i) : Verified prog' cnt := by
  intro hne
  obtain ⟨hle, hok⟩ := h hne
  refine ⟨hle, ?_⟩
  rw [icProgramCheck_congr fun i hi => hcopy i (by bv_omega)]
  exact hok

/-- What a passed check gives. -/
theorem Verified.of_check {prog prog' : Nat → U64} {cnt : U32} (hle : cnt ≤ IC_PROG_MAX_INSNS)
    (hok : icProgramCheck (some prog) cnt = .ok) (heq : ∀ i < cnt.toNat, prog' i = prog i) :
    Verified prog' cnt := by
  intro _
  refine ⟨hle, ?_⟩
  rw [icProgramCheck_congr heq]
  exact hok

/-! ## What leaves the slots alone -/

theorem updateSendReply_mon (r : UpdateReply) (s : Sup) : (updateSendReply r s).mon = s.mon := by
  unfold updateSendReply
  rw [sendFrameLimited_eq]

theorem hotUpdateFinalize_mon (s : Sup) : (hotUpdateFinalize s).mon = s.mon := by
  unfold hotUpdateFinalize
  split
  · rfl
  · dsimp only
    split
    · rfl
    · unfold settle
      exact updateSendReply_mon _ _

/-- No console frame reaches the program slots directly. -/
theorem chanPoll_mon (frame : Option ConsoleFrame) (s : Sup) : (chanPoll frame s).2.mon = s.mon := by
  cases frame with
  | none => rfl
  | some f =>
    have hpolled := framePolled f s
    generalize chanPoll (some f) s = polled at hpolled ⊢
    cases hpolled with
    | command =>
      unfold pollUpdate
      dsimp only
      split <;> exact updateSendReply_mon _ _
    | _ => rfl

/-! ## What `load_program` admits -/

/-- The descriptor of the monitor slot passes for every admitted count. -/
theorem icModuleCheck_progDesc (t : Target) {cnt : U32} (h0 : cnt ≠ 0)
    (hle : cnt ≤ IC_PROG_MAX_INSNS) : icModuleCheck (some (progDesc t cnt)) = .ok := by
  have hbase : monProgAddr t % 8 = 0 := by cases t <;> decide
  have hcheck : icModuleCheck (some (progDesc t cnt)) = checkEbpf (progDesc t cnt) := by
    simp [icModuleCheck, progDesc]
  have hmax : cnt.toNat ≤ 64 := by
    unfold IC_PROG_MAX_INSNS at hle
    bv_omega
  have hpos : cnt.toNat ≠ 0 := fun h => h0 (BitVec.eq_of_toNat_eq h)
  have hsize : (cnt * 8).toNat = cnt.toNat * 8 := by
    rw [BitVec.toNat_mul]
    exact Nat.mod_eq_of_lt (by show cnt.toNat * 8 < 2 ^ 32; omega)
  have hbytes : ¬ (cnt * 8 % 8 ≠ 0 ∨ cnt * 8 < 8) := by
    rintro (h | h)
    · refine h (BitVec.eq_of_toNat_eq ?_)
      rw [BitVec.toNat_umod, hsize]
      exact Nat.mul_mod_left cnt.toNat 8
    · rw [BitVec.lt_def, hsize] at h
      exact absurd h (by show ¬ cnt.toNat * 8 < 8; omega)
  have hentry : ¬ ((0 : U32) % 8 ≠ 0 ∨ cnt * 8 ≤ 0) := by
    rintro (h | h)
    · exact h rfl
    · rw [BitVec.le_def, hsize] at h
      exact absurd h (by show ¬ cnt.toNat * 8 ≤ 0; omega)
  rw [hcheck]
  unfold checkEbpf progDesc
  dsimp only
  rw [if_neg fun h => h.2 hbase, if_neg hbytes, if_neg hentry]
  simp

/-- An area `load_program` would make live: its magic, a count the slot has
    room for, and instructions the verifier accepts. -/
def Loads (area : Mem) : Prop :=
  le32 area 0 = PROG_MAGIC ∧ le32 area 4 ≠ 0 ∧ le32 area 4 ≤ IC_PROG_MAX_INSNS ∧
    icProgramCheck (some (insnWords fun i => area (8 + i))) (le32 area 4) = .ok

instance (area : Mem) : Decidable (Loads area) := inferInstanceAs (Decidable (_ ∧ _ ∧ _ ∧ _))

/-- `load_program` on an area that loads. -/
theorem loadProgram_of_loads (b : Build) {s : Sup} (h : Loads s.progArea) :
    (loadProgram b s).mon.progCnt = le32 s.progArea 4 ∧
      ∀ i < (le32 s.progArea 4).toNat,
        (loadProgram b s).mon.prog i = insnWords (fun i => s.progArea (8 + i)) i := by
  obtain ⟨hmagic, h0, hle, hcheck⟩ := h
  have harea : (loadReset s).progArea = s.progArea := rfl
  unfold loadProgram
  dsimp only
  rw [harea, if_neg (not_not.mpr hmagic), if_neg (not_or.mpr ⟨h0, BitVec.not_lt.mpr hle⟩),
    if_neg (not_not.mpr (icModuleCheck_progDesc b.target h0 hle)), if_neg]
  · refine ⟨rfl, ?_⟩
    intro i hi
    exact if_pos hi
  · rw [not_not]
    exact (icProgramCheck_congr fun i hi => if_pos hi).trans hcheck

/-- And on one that does not. -/
theorem loadProgram_of_not_loads (b : Build) {s : Sup} (h : ¬ Loads s.progArea) :
    (loadProgram b s).mon.progCnt = 0 := by
  have harea : (loadReset s).progArea = s.progArea := rfl
  have hcnt : (loadReset s).mon.progCnt = 0 := rfl
  unfold loadProgram
  dsimp only
  rw [harea]
  split
  · exact hcnt
  · next hmagic =>
    split
    · exact hcnt
    · next hbound =>
      obtain ⟨h0, hle⟩ := not_or.mp hbound
      split
      · exact hcnt
      · split
        · exact hcnt
        · next hcheck =>
          refine absurd ⟨not_not.mp hmagic, h0, BitVec.not_lt.mp hle, ?_⟩ h
          rw [← not_not.mp hcheck]
          exact icProgramCheck_congr fun i hi => (if_pos hi).symm

/-! ## The three writers -/

theorem loadProgram_shadow (b : Build) (s : Sup) : (loadProgram b s).mon.progBCnt = 0 := by
  have hreset : (loadReset s).mon.progBCnt = 0 := rfl
  unfold loadProgram
  dsimp only
  split
  · exact hreset
  · split
    · exact hreset
    · split
      · exact hreset
      · split <;> exact hreset

/-- `load_program` leaves a verified program or an empty slot. -/
theorem loadProgram_live (b : Build) (s : Sup) : LivePrograms (loadProgram b s).mon.slots := by
  constructor
  · show Verified (loadProgram b s).mon.prog (loadProgram b s).mon.progCnt
    by_cases hloads : Loads s.progArea
    · obtain ⟨hcnt, hprog⟩ := loadProgram_of_loads b hloads
      obtain ⟨-, -, hle, hcheck⟩ := hloads
      rw [hcnt]
      exact .of_check hle hcheck hprog
    · rw [loadProgram_of_not_loads b hloads]
      exact .zero _
  · show Verified (loadProgram b s).mon.progB (loadProgram b s).mon.progBCnt
    rw [loadProgram_shadow]
    exact .zero _

/-- `hot_swap` keeps both slots verified. -/
theorem hotSwap_live {b : Build} {s s' : Sup} (h : hotSwap b s = some s')
    (hinv : LivePrograms s.mon.slots) : LivePrograms s'.mon.slots := by
  rcases hotSwap_cases b s with ⟨-, hs⟩ | ⟨-, hs⟩ | ⟨-, -, -, -, hs⟩ | ⟨-, -, -, hg, hs⟩ <;>
    rw [hs] at h
  · cases h
    exact hinv
  · cases h
    exact hinv
  · obtain ⟨s₁, hs₁, rfl⟩ := Option.map_eq_some_iff.mp h
    show LivePrograms s₁.mon.slots
    rw [(installNative_installed hs₁).mon]
    exact hinv
  · cases h
    obtain ⟨-, hle, hok⟩ := ebpfGate_bounds hg
    exact ⟨.of_check hle hok fun i hi => if_pos hi, hinv.live.copy fun i hi => if_pos hi⟩

/-- The rollback keeps both slots verified. -/
theorem rollback_live {s : Sup} (hinv : LivePrograms s.mon.slots) :
    LivePrograms (rollback s).mon.slots := by
  unfold rollback
  split
  · by_cases hb : s.mon.progBCnt ≠ 0
    · simp only [if_pos hb]
      exact ⟨hinv.shadow.copy fun i hi => if_pos hi, .zero _⟩
    · simp only [if_neg hb]
      exact ⟨.zero _, hinv.shadow⟩
  · exact hinv

/-! ## Whole runs -/

/-- What boot loads is what it leaves in the slots. -/
theorem bootMain_slots (b : Build) (input : BootInput) (s : Sup) :
    ∃ s₁, (bootMain b input s).mon.slots = (loadProgram b s₁).mon.slots := by
  have hrestore : ∀ (s : Sup) (k : Fin 2), (restoreSlot b s k).mon = s.mon := by
    intro s k
    unfold restoreSlot
    dsimp only
    split
    · rfl
    · split <;> rfl
  have hloop : ∀ s : Sup, (bootRestore b s).mon.slots = s.mon.slots := fun s =>
    congrArg MonBox.slots ((hrestore _ 1).trans (hrestore s 0))
  unfold bootMain
  simp only [bootGate_eq_zero, ne_eq, not_true_eq_false, if_false]
  refine ⟨uartLoad input.frame (bootStatus b input (s.setStatusRange 0 STATUS_WORDS fun _ => 0)),
    (congrArg Carried.slots (scheduleRound_carried b _)).trans (hloop _)⟩

theorem bootMain_live (b : Build) (input : BootInput) (s : Sup) :
    LivePrograms (bootMain b input s).carried.slots := by
  obtain ⟨s₁, hslots⟩ := bootMain_slots b input s
  show LivePrograms (bootMain b input s).mon.slots
  rw [hslots]
  exact loadProgram_live b s₁

theorem supervisorResume_live {b : Build} {s : Sup} (hinv : LivePrograms s.carried.slots) :
    LivePrograms (supervisorResume b s).carried.slots := by
  rcases supervisorResume_carried b s with h | h <;> rw [h]
  · exact hinv
  · exact rollback_live hinv

theorem serviceTurn_live {b : Build} {seen : U32} {frame : Option ConsoleFrame} {s s' : Sup}
    (h : serviceTurn b seen frame s = some s') (hinv : LivePrograms s.carried.slots) :
    LivePrograms s'.carried.slots := by
  obtain ⟨s₁, hs₁, rfl⟩ := Option.map_eq_some_iff.mp h
  have hpolled : LivePrograms (chanPoll frame s).2.mon.slots := by
    rw [chanPoll_mon]
    exact hinv
  rw [endTurn_carried]
  show LivePrograms (hotUpdateFinalize s₁).mon.slots
  rw [hotUpdateFinalize_mon]
  exact hotSwap_live hs₁ hpolled

/-- Every step keeps both slots verified. -/
theorem machineStep_live {b : Build} {s s' : Sup} {e : Event} (hinv : LivePrograms s.carried.slots)
    (h : machineStep b s e = some s') : LivePrograms s'.carried.slots := by
  cases machineStep_moved h with
  | user u eff =>
    rw [UserEffect.apply_carried]
    exact hinv
  | ecall => exact supervisorResume_live hinv
  | fault =>
    rw [trapFault_carried]
    exact hinv
  | turn seen frame s' _ hturn => exact serviceTurn_live hturn hinv
  | poll frame =>
    show LivePrograms (chanPoll frame s).2.mon.slots
    rw [chanPoll_mon]
    exact hinv
  | swap s' _ hswap => exact hotSwap_live hswap hinv
  | finalize =>
    show LivePrograms (hotUpdateFinalize s).mon.slots
    rw [hotUpdateFinalize_mon]
    exact hinv
  | round =>
    rw [hotRound_carried]
    exact hinv
  | beat => exact hinv
  | stage => exact hinv
  | reset area input => exact bootMain_live b input _

theorem livePrograms_reachable {b : Build} {s : Sup} (h : Reachable (machine b) s) :
    LivePrograms s.mon.slots := by
  refine Reachable.invariant (I := fun s => LivePrograms s.carried.slots) ?_ ?_ h
  · rintro s ⟨raw, input, rfl⟩
    exact bootMain_live b input raw
  · intro s e s' hinv hstep
    exact machineStep_live hinv hstep

/-- **Only verified programs are ever live.** In every reachable state, a
    program the monitor would run, and one a rollback would bring back, has
    at most 64 instructions and passed the verifier. -/
theorem machine_onlyVerified {b : Build} {s : Sup} (h : Reachable (machine b) s) :
    (s.mon.progCnt ≠ 0 →
      s.mon.progCnt ≤ 64 ∧ icProgramCheck (some s.mon.prog) s.mon.progCnt = .ok) ∧
    (s.mon.progBCnt ≠ 0 →
      s.mon.progBCnt ≤ 64 ∧ icProgramCheck (some s.mon.progB) s.mon.progBCnt = .ok) :=
  ⟨(livePrograms_reachable h).live, (livePrograms_reachable h).shadow⟩

/-- A boot frame with the program `r0 = 1; exit`. -/
def returnFrame : List U8 :=
  [0x50, 0x52, 0x4F, 0x47, 2, 0, 0, 0,
   0xB7, 0, 0, 0, 1, 0, 0, 0, 0x95, 0, 0, 0, 0, 0, 0, 0]

def bootedReturn : Sup := bootMain (.pinning []) ⟨some returnFrame, false⟩ .zeroed

theorem machine_onlyVerified_bootedReturn :
    bootedReturn.mon.progCnt = 2 ∧
      bootedReturn.mon.progCnt ≤ 64 ∧
        icProgramCheck (some bootedReturn.mon.prog) bootedReturn.mon.progCnt = .ok := by
  have hcnt : bootedReturn.mon.progCnt = 2 := by decide +kernel
  have hreach : Reachable (machine (.pinning [])) bootedReturn := .init ⟨_, _, rfl⟩
  exact ⟨hcnt, (machine_onlyVerified hreach).1 (by rw [hcnt]; decide)⟩

end Interclus

import Interclus.Framework.Rollback
import Interclus.Protocol.Verdict
import Interclus.Supervisor.FilterPhase
import Interclus.Supervisor.RoundOrder
import Interclus.Verifier.Footprint

/-! # Known-Good Programs

    A session of the board: the machine since its boot, and the images that
    finished a filter phase without a fault.  The slots of the monitor box
    are slots of `Rollback`, a filter phase is the trial of the live image,
    and `hot_swap` installs behind it; so what `supervisor_resume` rolls
    back to has finished a filter phase, and the image it struck down stays
    out of the filter phase until it is installed again. -/

namespace Interclus

open Words LTS

/-! ## Images -/

/-- A program image: its count, and the words below it. -/
structure ProgImage where
  cnt : U32
  words : List U64
  deriving DecidableEq, Repr

/-- The image in a slot, if its count is not zero. -/
def imageOf (prog : Nat → U64) (cnt : U32) : Option ProgImage :=
  if cnt = 0 then none else some ⟨cnt, (List.range cnt.toNat).map prog⟩

def ProgSlots.images (p : ProgSlots) : Rollback.Slots ProgImage :=
  ⟨imageOf p.prog p.progCnt, imageOf p.progB p.progBCnt⟩

/-- The image in the monitor slot. -/
def MonBox.image (m : MonBox) : Option ProgImage := imageOf m.prog m.progCnt

/-- The staged image. -/
def pendImage (pend : Mem) : Option ProgImage := imageOf (pendInsns pend) (pendW0 pend)

theorem imageOf_zero (prog : Nat → U64) : imageOf prog 0 = none := if_pos rfl

theorem imageOf_congr {prog prog' : Nat → U64} {cnt : U32}
    (h : ∀ i < cnt.toNat, prog' i = prog i) : imageOf prog' cnt = imageOf prog cnt := by
  have hwords : (List.range cnt.toNat).map prog' = (List.range cnt.toNat).map prog :=
    List.map_congr_left fun i hi => h i (List.mem_range.mp hi)
  unfold imageOf
  rw [hwords]

/-- A copy of the first 64 words of a verified program has its image. -/
theorem imageOf_copy {prog prog' : Nat → U64} {cnt : U32} (h : Verified prog cnt)
    (hcopy : ∀ i < 64, prog' i = prog i) : imageOf prog' cnt = imageOf prog cnt := by
  by_cases hzero : cnt = 0
  · rw [hzero, imageOf_zero, imageOf_zero]
  · have hle : cnt ≤ 64 := (h hzero).1
    exact imageOf_congr fun i hi => hcopy i (by bv_omega)

/-- Slots with the same image hold the same words below the same count. -/
theorem imageOf_eq {prog prog' : Nat → U64} {cnt cnt' : U32} (hcnt : cnt ≠ 0)
    (h : imageOf prog' cnt' = imageOf prog cnt) :
    cnt' = cnt ∧ ∀ i < cnt.toNat, prog' i = prog i := by
  unfold imageOf at h
  rw [if_neg hcnt] at h
  split at h
  · cases h
  · obtain ⟨rfl, hwords⟩ := ProgImage.mk.inj (Option.some.inj h)
    exact ⟨rfl, fun i hi => List.map_inj_left.mp hwords i (List.mem_range.mpr hi)⟩

/-! ## The six packets -/

/-- What filter mode reads of the packets. -/
structure Packets where
  off : Nat → U32
  sizes : Nat → U32
  input : Mem

def MonBox.packets (m : MonBox) : Packets := ⟨m.off, m.sizes, m.input⟩

/-- The six test packets are in place. -/
structure Packets.Six (p : Packets) : Prop where
  off : ∀ i < 6, p.off i = BitVec.ofNat 32 (baoOff i)
  sizes : ∀ i < 6, p.sizes i = BitVec.ofNat 32 (bao.getD i []).length
  input : ∀ j < bao.flatten.length, p.input j = bao.flatten.getD j 0

theorem refreshInput_six (m : MonBox) : (refreshInput m).packets.Six := by
  unfold refreshInput MonBox.packets
  constructor <;>
  · intro i hi
    dsimp only
    rw [if_pos hi]

theorem scheduleRound_six (b : Build) (s : Sup) : (scheduleRound b s).mon.packets.Six := by
  have hpackets : (scheduleRound b s).mon.packets = (refreshInput s.mon).packets := by
    unfold scheduleRound
    generalize refreshInput s.mon = m
    simp only [enterChecked_mon]
    split <;> rfl
  rw [hpackets]
  exact refreshInput_six s.mon

theorem rollback_packets (s : Sup) : (rollback s).mon.packets = s.mon.packets := by
  unfold rollback
  split
  · dsimp only
    split <;> rfl
  · rfl

/-- No step moves the packets, a round apart. -/
theorem supervisorResume_packets (b : Build) (s : Sup) :
    (supervisorResume b s).mon.packets = s.mon.packets := by
  obtain ⟨mode, hmon⟩ := supervisorResume_mon b s
  rw [hmon]
  split
  · exact rollback_packets (noteVerdicts s)
  · rfl

theorem hotSwap_packets {b : Build} {s s' : Sup} (h : hotSwap b s = some s') :
    s'.mon.packets = s.mon.packets := by
  rcases hotSwap_cases b s with ⟨-, hs⟩ | ⟨-, hs⟩ | ⟨-, -, -, -, hs⟩ | ⟨-, -, -, -, hs⟩ <;>
    rw [hs] at h
  · cases h
    rfl
  · cases h
    rfl
  · obtain ⟨s₁, hs₁, rfl⟩ := Option.map_eq_some_iff.mp h
    show s₁.mon.packets = s.mon.packets
    rw [(installNative_installed hs₁).mon]
  · cases h
    rfl

theorem machineStep_six {b : Build} {s s' : Sup} {e : Event} (h : s.mon.packets.Six)
    (hstep : machineStep b s e = some s') : s'.mon.packets.Six := by
  cases machineStep_moved hstep with
  | user u eff => cases eff <;> exact h
  | ecall u regs =>
    show (supervisorResume b _).mon.packets.Six
    rw [supervisorResume_packets]
    exact h
  | fault u cause addr regs =>
    show (supervisorFault b cause _).mon.packets.Six
    rw [supervisorFault_mon]
    exact h
  | turn seen frame s' _ hturn =>
    obtain ⟨s₁, hs₁, rfl⟩ := Option.map_eq_some_iff.mp hturn
    unfold endTurn
    split
    · exact scheduleRound_six b _
    · show (hotUpdateFinalize s₁).mon.packets.Six
      rw [hotUpdateFinalize_mon, hotSwap_packets hs₁, chanPoll_mon]
      exact h
  | poll frame =>
    rw [chanPoll_mon]
    exact h
  | swap s' _ hswap =>
    rw [hotSwap_packets hswap]
    exact h
  | finalize =>
    rw [hotUpdateFinalize_mon]
    exact h
  | round => exact scheduleRound_six b _
  | beat => exact h
  | stage => exact h
  | reset area input =>
    unfold bootMain
    simp only [bootGate_eq_zero, ne_eq, not_true_eq_false, if_false]
    exact scheduleRound_six b _

theorem six_reachable {b : Build} {s : Sup} (h : Reachable (machine b) s) :
    s.mon.packets.Six := by
  refine h.invariant (I := fun s => s.mon.packets.Six) ?_ fun s e s' => machineStep_six
  rintro _ ⟨raw, input, rfl⟩
  unfold bootMain
  simp only [bootGate_eq_zero, ne_eq, not_true_eq_false, if_false]
  exact scheduleRound_six b _

/-! ## The fault of an image -/

theorem packet_bounds (t : Target) : ∀ i < 6,
    8 ≤ (monInputAddr t).toNat + baoOff i ∧
      (monInputAddr t).toNat + bao.flatten.length < 2 ^ 32 ∧
      baoOff i + (bao.getD i []).length ≤ bao.flatten.length := by
  cases t <;> decide +kernel

/-- A box with `img` in its slot and the six packets. -/
def ProgImage.box (img : ProgImage) : MonBox :=
  refreshInput { Sup.zeroed.mon with prog := fun i => img.words.getD i 0, progCnt := img.cnt }

theorem ProgImage.box_image {prog : Nat → U64} {cnt : U32} {img : ProgImage}
    (h : imageOf prog cnt = some img) : img.box.image = some img := by
  rw [← h]
  unfold imageOf at h
  split at h
  · cases h
  · obtain rfl := Option.some.inj h
    refine imageOf_congr fun i hi => ?_
    change i < cnt.toNat at hi
    show ((List.range cnt.toNat).map prog).getD i 0 = prog i
    rw [List.getD_eq_getElem?_getD, List.getElem?_map, List.getElem?_range hi]
    rfl

section Faults
variable (undef : CExpr → U64) (t : Target)

/-- Where packet `i` lies. -/
theorem filterProg_ctx {m : MonBox} (h : m.packets.Six) {i : Nat} (hi : i < 6) :
    (filterProg t m i).ctx.toNat = (monInputAddr t).toNat + baoOff i ∧
      (filterProg t m i).ctxSize.toNat = (bao.getD i []).length := by
  obtain ⟨-, hfit, hsize⟩ := packet_bounds t i hi
  generalize bao.flatten.length = len at hfit hsize
  have hoff : (m.off i).toNat = baoOff i := by
    rw [show m.off i = _ from h.off i hi, BitVec.toNat_ofNat]
    omega
  constructor
  · show ((monInputAddr t + m.off i).setWidth 64).toNat = _
    rw [BitVec.toNat_setWidth, BitVec.toNat_add, hoff]
    omega
  · show (m.sizes i).toNat = _
    rw [show m.sizes i = _ from h.sizes i hi, BitVec.toNat_ofNat]
    omega

/-- Boxes with the same image have the same program. -/
theorem image_prog {m m' : MonBox} (h : m'.image = m.image) :
    m'.progCnt = m.progCnt ∧
      (m.progCnt ≠ 0 → ∀ k < m.progCnt.toNat, m'.prog k = m.prog k) := by
  by_cases hzero : m.progCnt = 0
  · have hnone : m'.image = none := h.trans (if_pos hzero)
    refine ⟨?_, fun hne => absurd hzero hne⟩
    by_contra hne
    have hsome : m'.image = some _ := if_neg fun h => hne (h.trans hzero.symm)
    rw [hnone] at hsome
    cases hsome
  · obtain ⟨hcnt, hwords⟩ := imageOf_eq hzero h
    exact ⟨hcnt, fun _ => hwords⟩

/-- Over the six packets a run depends on the image and nothing else. -/
theorem filterProg_sameInputs {m m' : MonBox} (h : m.packets.Six) (h' : m'.packets.Six)
    (himg : m'.image = m.image) {i : Nat} (hi : i < 6) :
    (filterProg t m i).SameInputs (filterProg t m' i) := by
  obtain ⟨-, hfit, hsize⟩ := packet_bounds t i hi
  obtain ⟨hctx, hctxSize⟩ := filterProg_ctx t h hi
  obtain ⟨hcnt, hwords⟩ := image_prog himg
  have hoff : m'.off i = m.off i := (h'.off i hi).trans (h.off i hi).symm
  have hsizes : m'.sizes i = m.sizes i := (h'.sizes i hi).trans (h.sizes i hi).symm
  refine ⟨⟨?_, ?_, hsizes, rfl, rfl⟩, fun k hk => ?_, fun a ha ha' => ?_, rfl⟩
  · show (if m'.progCnt ≠ 0 then m'.progCnt else _) = if m.progCnt ≠ 0 then m.progCnt else _
    rw [hcnt]
  · show (monInputAddr t + m'.off i).setWidth 64 = (monInputAddr t + m.off i).setWidth 64
    rw [hoff]
  · show (if m'.progCnt ≠ 0 then m'.prog else policyMavlink) k =
      (if m.progCnt ≠ 0 then m.prog else policyMavlink) k
    rw [hcnt]
    by_cases hlive : m.progCnt ≠ 0
    · rw [if_pos hlive, if_pos hlive]
      have hcount : (filterProg t m i).insnCnt = m.progCnt := if_pos hlive
      exact hwords hlive k (hcount ▸ hk)
    · rw [if_neg hlive, if_neg hlive]
  · -- a byte of packet `i` is one of the packets
    rw [hctx] at ha ha'
    rw [hctxSize] at ha'
    have hbase : ((monInputAddr t).setWidth 64).toNat = (monInputAddr t).toNat := by
      rw [BitVec.toNat_setWidth]
      omega
    have hindex : (a - (monInputAddr t).setWidth 64).toNat < bao.flatten.length := by
      rw [BitVec.toNat_sub_of_le (by rw [BitVec.le_def, hbase]; omega), hbase]
      omega
    exact (h'.input _ hindex).trans (h.input _ hindex).symm

theorem filterRun_congr {m m' : MonBox} (h : m.packets.Six) (h' : m'.packets.Six)
    (himg : m'.image = m.image) {i : Nat} (hi : i < 6) :
    filterRun undef t m' i = filterRun undef t m i := by
  obtain ⟨hlow, hfit, hsize⟩ := packet_bounds t i hi
  obtain ⟨hctx, hctxSize⟩ := filterProg_ctx t h hi
  have hend : (filterProg t m i).ctx.toNat + (filterProg t m i).ctxSize.toNat ≤ 2 ^ 32 := by
    rw [hctx, hctxSize]
    omega
  exact ebpfRun_sameInputs (hctx ▸ hlow) hend (filterProg_sameInputs t h h' himg hi) 1000001

/-- The fault a filter phase over the six packets finds in an image. -/
def imageFault (img : ProgImage) : Option U32 := (filterPhase undef t img.box).map MonBox.progFault

theorem imageFault_eq {m : MonBox} (h : m.packets.Six) {img : ProgImage}
    (himg : m.image = some img) :
    imageFault undef t img = (filterPhase undef t m).map MonBox.progFault := by
  have hruns : ∀ i < 6, filterRun undef t img.box i = filterRun undef t m i := fun i hi =>
    filterRun_congr undef t h (refreshInput_six _) ((ProgImage.box_image himg).trans himg.symm) hi
  have hfault : ∀ pf is, (∀ i ∈ is, i < 6) →
      runsFault (filterRun undef t img.box) pf is = runsFault (filterRun undef t m) pf is := by
    intro pf is his
    refine List.foldl_ext _ _ pf fun pf i hi => ?_
    rw [hruns i (his i hi)]
  obtain ⟨_, _, hbox⟩ := filterPhase_spec undef t img.box
  obtain ⟨_, _, hm⟩ := filterPhase_spec undef t m
  unfold imageFault
  rw [hbox, hm]
  exact congrArg some (hfault 0 _ fun i hi => List.mem_range.mp hi)

end Faults

/-! ## Sessions -/

/-- The machine, and the images that finished a filter phase of this session
    without a fault. -/
structure Session where
  sup : Sup
  passed : List ProgImage

/-- The filter phase of the pass is over. -/
def PastFilter (s : Sup) : Prop :=
  (∃ seen, s.ctl = .service seen) ∨ (∃ e, s.ctl = .user e) ∧ s.phase ≠ 1

/-- A filter phase yields with the fault flag that filter mode computes. -/
def FilterRan (undef : CExpr → U64) (b : Build) (s : Sup) : Event → Prop
  | .ecall _ => s.phase = 1 →
      (filterPhase undef b.target s.mon).map MonBox.progFault = some s.mon.progFault
  | _ => True

instance (undef : CExpr → U64) (b : Build) (s : Sup) (e : Event) :
    Decidable (FilterRan undef b s e) :=
  match e with
  | .ecall _ => inferInstanceAs (Decidable (s.phase = 1 → _ = some s.mon.progFault))
  | .user _ | .fault .. | .turn _ | .poll _ | .swap | .finalize | .round | .beat | .stage ..
  | .reset .. => isTrue trivial

/-- The images that passed, after an event. -/
def passedAfter (o : Session) : Event → List ProgImage
  | .ecall _ =>
    if o.sup.phase = 1 ∧ o.sup.mon.progFault = 0 then o.passed ++ o.sup.mon.image.toList
    else o.passed
  | .reset .. => []
  | _ => o.passed

def sessionStep (undef : CExpr → U64) (b : Build) (o : Session) (e : Event) : Option Session :=
  if FilterRan undef b o.sup e then (machineStep b o.sup e).map fun s => ⟨s, passedAfter o e⟩
  else none

def sessionSystem (undef : CExpr → U64) (b : Build) : System Session Event where
  init o := (machine b).init o.sup ∧ o.passed = []
  step o e o' := sessionStep undef b o e = some o'

theorem sessionStep_iff {undef : CExpr → U64} {b : Build} {o o' : Session} {e : Event} :
    sessionStep undef b o e = some o' ↔
      FilterRan undef b o.sup e ∧ machineStep b o.sup e = some o'.sup ∧
        o'.passed = passedAfter o e := by
  unfold sessionStep
  constructor
  · intro h
    split at h
    · next hran =>
      obtain ⟨s, hs, rfl⟩ := Option.map_eq_some_iff.mp h
      exact ⟨hran, hs, rfl⟩
    · cases h
  · rintro ⟨hran, hs, hpassed⟩
    rw [if_pos hran, hs, ← hpassed]
    rfl

/-- The image that `hot_swap` installs. -/
def promoted (b : Build) (s : Sup) : Option ProgImage :=
  if s.pendOk = PROG_PEND_MAGIC ∧ pendTrusted b.trusted s.pend ∧ pendKind s.pend = PEND_EBPF ∧
      ebpfGate b.target (pendW0 s.pend) (pendInsns s.pend) then
    pendImage s.pend
  else none

/-- The image that an event installs: from the staging window, or at boot. -/
def installed (b : Build) (s : Sup) : Event → Option ProgImage
  | .turn frame => promoted b (chanPoll frame s).2
  | .swap => promoted b s
  | .reset area input => (bootMain b input { s with progArea := area }).mon.image
  | _ => none

/-- The trials of a session. -/
def Session.trials (o : Session) : Rollback.Trials ProgImage :=
  ⟨o.sup.mon.slots.images, PastFilter o.sup, o.passed⟩

/-- A filter phase finds no fault in the image. -/
def FaultFree (undef : CExpr → U64) (b : Build) (img : ProgImage) : Prop :=
  imageFault undef b.target img = some 0

theorem session_reachable {undef : CExpr → U64} {b : Build} {o : Session}
    (h : Reachable (sessionSystem undef b) o) : Reachable (machine b) o.sup := by
  induction h with
  | init h => exact .init h.1
  | step e _ hstep ih => exact .step e ih (sessionStep_iff.mp hstep).2.1

/-! ## Who the core is with -/

/-- The service loop has seen every promotion. -/
def Caught (s : Sup) : Prop := ∀ seen, s.ctl = .service seen → s.status S_HLOAD = seen

theorem enterChecked_notService (i : Nat) (s : Sup) (seen : U32) :
    (enterChecked i s).ctl ≠ .service seen := by
  unfold enterChecked
  split
  · exact fun h => by cases h
  · split <;> exact fun h => by cases h

theorem enterChecked_phase (i : Nat) (s : Sup) : (enterChecked i s).phase = s.phase := by
  obtain ⟨status, comp, ctl, h, -⟩ := enterChecked_frame i s
  rw [h]

theorem enterChecked_caught (i : Nat) (s : Sup) : Caught (enterChecked i s) :=
  fun seen h => absurd h (enterChecked_notService i s seen)

theorem nativeDone_caught (b : Build) (proof : Bool) (s : Sup) : Caught (nativeDone b proof s) := by
  unfold nativeDone
  cases b.target with
  | qemu =>
    intro seen h
    cases h
  | board =>
    intro seen h
    exact Control.service.inj h

theorem atkAdvance_caught (b : Build) (s : Sup) : Caught (atkAdvance b s) := by
  unfold atkAdvance
  dsimp only
  split
  · exact enterChecked_caught 1 _
  · unfold nativePhase
    split
    · exact nativeDone_caught b false _
    · exact enterChecked_caught 2 _

theorem supervisorResume_caught (b : Build) (s : Sup) : Caught (supervisorResume b s) := by
  unfold supervisorResume
  split
  · exact enterChecked_caught 0 _
  split
  · exact enterChecked_caught 0 _
  split
  · exact enterChecked_caught 1 _
  split
  · exact atkAdvance_caught b s
  · exact nativeDone_caught b true s

theorem supervisorFault_caught (b : Build) (cause : U32) (s : Sup) :
    Caught (supervisorFault b cause s) := by
  unfold supervisorFault
  dsimp only
  split
  · exact atkAdvance_caught b _
  · split
    · exact nativeDone_caught b false _
    · intro seen h
      cases h

/-- A new round is in its filter phase, if it runs. -/
theorem scheduleRound_notPast (b : Build) (s : Sup) : ¬ PastFilter (scheduleRound b s) := by
  unfold scheduleRound
  dsimp only
  rintro (⟨seen, h⟩ | ⟨-, h⟩)
  · exact enterChecked_notService 0 _ seen h
  · exact h (enterChecked_phase 0 _)

/-- A fault of the filter phase halts. -/
theorem supervisorFault_notPast {b : Build} {cause : U32} {s : Sup} (h : s.phase = 1) :
    ¬ PastFilter (supervisorFault b cause s) := by
  have hphase : (evictRunning cause s).phase = 1 := by
    unfold evictRunning
    split <;> exact h
  unfold supervisorFault
  dsimp only
  rw [hphase, if_neg (by decide), if_neg (by decide)]
  rintro (⟨seen, h⟩ | ⟨⟨e, h⟩, -⟩) <;> cases h

theorem machineStep_caught {b : Build} {s s' : Sup} {e : Event} (h : Caught s)
    (hstep : machineStep b s e = some s') : Caught s' := by
  cases machineStep_moved hstep with
  | user u eff hctl => cases eff <;> exact h
  | ecall u regs => exact supervisorResume_caught b _
  | fault u cause addr regs => exact supervisorFault_caught b cause _
  | turn seen frame s' hctl hturn =>
    obtain ⟨s₁, hs₁, rfl⟩ := Option.map_eq_some_iff.mp hturn
    unfold endTurn
    split
    · exact enterChecked_caught 0 _
    · next hsame =>
      intro seen' hseen'
      rw [not_or, not_not] at hsame
      have hkept : (hotUpdateFinalize s₁).ctl = .service seen' := hseen'
      rw [turn_ctl hs₁, hctl] at hkept
      exact hsame.1.trans (Control.service.inj hkept)
  | beat => exact h
  | stage => exact h
  | reset area input =>
    unfold bootMain
    simp only [bootGate_eq_zero, ne_eq, not_true_eq_false, if_false]
    exact enterChecked_caught 0 _
  -- the calls of the harness
  | poll frame hctl =>
    intro seen hseen
    exact Control.noConfusion (hctl.symm.trans ((chanPoll_frame frame s).2.symm.trans hseen))
  | swap s' hctl hswap =>
    intro seen hseen
    exact Control.noConfusion (hctl.symm.trans ((hotSwap_frame hswap).1.symm.trans hseen))
  | finalize hctl =>
    intro seen hseen
    exact Control.noConfusion (hctl.symm.trans ((hotUpdateFinalize_ctl s).symm.trans hseen))
  | round => exact enterChecked_caught 0 _

theorem caught_reachable {b : Build} {s : Sup} (h : Reachable (machine b) s) : Caught s := by
  refine h.invariant (I := Caught) ?_ fun s e s' => machineStep_caught
  rintro _ ⟨raw, input, rfl⟩
  unfold bootMain
  simp only [bootGate_eq_zero, ne_eq, not_true_eq_false, if_false]
  exact enterChecked_caught 0 _

/-! ## The slots, step by step -/

section Slots
variable {b : Build} {s s' : Sup}

theorem promoted_some {img : ProgImage} (h : promoted b s = some img) :
    hotSwap b s = some (hotAccept (installEbpf s)) ∧ pendImage s.pend = some img := by
  have hnative : PEND_EBPF ≠ PEND_NATIVE := by decide
  unfold promoted at h
  split at h
  · next hgates =>
    obtain ⟨hmagic, htrust, hkind, hgate⟩ := hgates
    refine ⟨?_, h⟩
    unfold hotSwap
    rw [if_neg (not_not.mpr hmagic), if_neg (not_not.mpr htrust), hkind, if_neg hnative,
      if_pos rfl, if_pos hgate]
  · cases h

theorem promoted_none (h : promoted b s = none) (hswap : hotSwap b s = some s') :
    s'.mon = s.mon := by
  rcases hotSwap_cases b s with ⟨-, hs⟩ | ⟨-, hs⟩ | ⟨-, -, -, -, hs⟩ | ⟨hm, hk, ht, hg, -⟩
  · cases hswap.symm.trans hs
    rfl
  · cases hswap.symm.trans hs
    rfl
  · obtain ⟨s₁, hs₁, rfl⟩ := Option.map_eq_some_iff.mp (hs.symm.trans hswap)
    exact (installNative_installed hs₁).mon
  · -- past the gates there is an image
    have hsome : promoted b s = some _ :=
      (if_pos ⟨hm, ht, hk, hg⟩).trans (if_neg (ebpfGate_bounds hg).1)
    cases h.symm.trans hsome

/-- The image a promotion demotes and the one it installs. -/
theorem hotSwap_images (hlive : LivePrograms s.mon.slots) (h : hotSwap b s = some s') :
    (promoted b s = none ∧ s'.mon.slots.images = s.mon.slots.images) ∨
      ∃ img, promoted b s = some img ∧ s'.mon.slots.images = s.mon.slots.images.install img ∧
        s'.status S_HLOAD = s.status S_HLOAD + 1 := by
  cases hp : promoted b s with
  | none =>
    rw [promoted_none hp h]
    exact .inl ⟨rfl, rfl⟩
  | some img =>
    obtain ⟨hswap, himage⟩ := promoted_some hp
    obtain rfl := Option.some.inj (h.symm.trans hswap)
    refine .inr ⟨img, rfl, ?_, rfl⟩
    -- the copied words cover the live image
    have hstaged : imageOf (installEbpf s).mon.prog (pendW0 s.pend) = pendImage s.pend :=
      imageOf_congr fun i hi => if_pos hi
    have hcopied : imageOf (installEbpf s).mon.progB s.mon.progCnt =
        imageOf s.mon.prog s.mon.progCnt := imageOf_copy hlive.live fun i hi => if_pos hi
    exact congrArg₂ Rollback.Slots.mk (hstaged.trans himage) hcopied

/-- What a rollback does to the slots. -/
theorem rollback_images (hlive : LivePrograms s.mon.slots) (hcnt : s.mon.progCnt ≠ 0)
    (hfault : s.mon.progFault ≠ 0) :
    (rollback s).mon.slots.images = s.mon.slots.images.strike := by
  unfold rollback
  rw [if_pos ⟨hcnt, hfault⟩]
  dsimp only
  by_cases hshadow : s.mon.progBCnt ≠ 0
  · rw [if_pos hshadow]
    exact congrArg₂ Rollback.Slots.mk (imageOf_copy hlive.shadow fun i hi => if_pos hi)
      (imageOf_zero _)
  · rw [if_neg hshadow]
    have hempty : imageOf s.mon.progB s.mon.progBCnt = none := if_pos (not_not.mp hshadow)
    exact congrArg₂ Rollback.Slots.mk ((imageOf_zero _).trans hempty.symm) hempty

theorem rollback_counts (hcnt : s.mon.progCnt ≠ 0) (hfault : s.mon.progFault ≠ 0) :
    (rollback s).mon.progBCnt = 0 ∧ (rollback s).status S_ROLL = s.status S_ROLL + 1 := by
  unfold rollback
  rw [if_pos ⟨hcnt, hfault⟩]
  constructor
  · show MonBox.progBCnt (if _ then _ else _) = 0
    split
    · rfl
    · next hshadow => exact not_not.mp hshadow
  · rfl

end Slots

/-! ## A session is a run of trials -/

/-- A boot leaves the shadow empty and starts a round. -/
theorem bootMain_fresh (b : Build) (input : BootInput) (s : Sup) :
    (bootMain b input s).mon.progBCnt = 0 ∧ ¬ PastFilter (bootMain b input s) := by
  obtain ⟨s₁, hslots⟩ := bootMain_slots b input s
  refine ⟨(congrArg ProgSlots.progBCnt hslots).trans (loadProgram_shadow b s₁), ?_⟩
  unfold bootMain
  simp only [bootGate_eq_zero, ne_eq, not_true_eq_false, if_false]
  exact scheduleRound_notPast b _

section Refinement
variable {undef : CExpr → U64} {b : Build} {o o' : Session}

theorem supervisorResume_images (b : Build) (s : Sup) :
    (supervisorResume b s).mon.slots.images =
      if s.phase = 1 then (rollback (noteVerdicts s)).mon.slots.images
      else s.mon.slots.images := by
  obtain ⟨mode, hmon⟩ := supervisorResume_mon b s
  rw [hmon]
  split <;> rfl

/-- A yield of the filter phase ends the trial of the live image. -/
theorem ecall_trial (hreach : Reachable (machine b) o.sup) (hphase : o.sup.phase = 1)
    {regs : Fin 32 → U32} (hran : FilterRan undef b o.sup (.ecall regs))
    (hsup : o'.sup = trapEcall b regs o.sup) (hpassed : o'.passed = passedAfter o (.ecall regs)) :
    Rollback.Step (FaultFree undef b) o.trials none o'.trials := by
  obtain ⟨s, hmon, himages⟩ : ∃ s : Sup, s.mon = o.sup.mon ∧
      o'.sup.mon.slots.images = (rollback s).mon.slots.images := by
    refine ⟨noteVerdicts { o.sup with comp := saveTcb regs o.sup.comp }, rfl, ?_⟩
    rw [hsup]
    exact (supervisorResume_images b _).trans (if_pos hphase)
  have hlive : LivePrograms s.mon.slots := by
    rw [hmon]
    exact livePrograms_reachable hreach
  -- what the phase found in the live image
  have hfound : ∀ img ∈ o.trials.slots.live,
      imageFault undef b.target img = some o.sup.mon.progFault := fun img himg =>
    (imageFault_eq undef b.target (six_reachable hreach) himg).trans (hran hphase)
  have htrials : o'.trials = ⟨o'.sup.mon.slots.images, PastFilter o'.sup, o'.passed⟩ := rfl
  rw [htrials, himages, hpassed]
  by_cases hstrike : o.sup.mon.progCnt ≠ 0 ∧ o.sup.mon.progFault ≠ 0
  · have hkept : passedAfter o (.ecall regs) = o.passed := if_neg fun h => hstrike.2 h.2
    rw [← hmon] at hstrike
    rw [rollback_images hlive hstrike.1 hstrike.2, hkept, hmon]
    rw [hmon] at hstrike
    refine .strike _ fun img himg hfree => hstrike.2 ?_
    exact Option.some.inj ((hfound img himg).symm.trans hfree)
  · have hidle : rollback s = s := by
      rw [← hmon] at hstrike
      exact if_neg hstrike
    rw [hidle, hmon]
    by_cases hfree : o.sup.mon.progFault = 0
    · have hgrown : passedAfter o (.ecall regs) = o.passed ++ o.trials.slots.live.toList :=
        if_pos ⟨hphase, hfree⟩
      rw [hgrown]
      exact .pass _ fun img himg => (hfound img himg).trans (congrArg some hfree)
    · -- the built-in policy is no image
      have hnone : o.trials.slots.live = none := if_pos (not_not.mp fun h => hstrike ⟨h, hfree⟩)
      have hgrown : passedAfter o (.ecall regs) = o.passed ++ o.trials.slots.live.toList := by
        rw [hnone]
        exact (if_neg fun h => hfree h.2).trans (List.append_nil _).symm
      rw [hgrown]
      exact .pass _ fun img himg => by cases hnone.symm.trans himg

/-- A turn of the service loop leaves the slots alone, or promotes an image
    and starts a round. -/
theorem serviceTurn_images {s s' : Sup} (hreach : Reachable (machine b) s) {seen : U32}
    (hctl : s.ctl = .service seen) {frame : Option ConsoleFrame}
    (hturn : serviceTurn b seen frame s = some s') :
    (promoted b (chanPoll frame s).2 = none ∧ s'.mon.slots.images = s.mon.slots.images) ∨
      ∃ img, promoted b (chanPoll frame s).2 = some img ∧
        s'.mon.slots.images = s.mon.slots.images.install img ∧ ∃ t, s' = hotRound b t := by
  have hpolled : LivePrograms (chanPoll frame s).2.mon.slots := by
    rw [chanPoll_mon]
    exact livePrograms_reachable hreach
  obtain ⟨s₁, hs₁, hend⟩ := Option.map_eq_some_iff.mp hturn
  have hslots : s'.mon.slots.images = s₁.mon.slots.images := by
    rw [← hend]
    refine congrArg ProgSlots.images
      ((congrArg Carried.slots (endTurn_carried b seen _ _)).trans ?_)
    exact congrArg MonBox.slots (hotUpdateFinalize_mon s₁)
  rw [hslots]
  rcases hotSwap_images hpolled hs₁ with ⟨hnone, himages⟩ | ⟨img, hsome, himages, hload⟩
  · rw [chanPoll_mon] at himages
    exact .inl ⟨hnone, himages⟩
  · rw [chanPoll_mon] at himages
    refine .inr ⟨img, hsome, himages, hotUpdateFinalize s₁, ?_⟩
    -- the loop sees the promotion
    have hmoved : (hotUpdateFinalize s₁).status S_HLOAD ≠ seen := by
      have hfinal : (hotUpdateFinalize s₁).status S_HLOAD = s₁.status S_HLOAD :=
        congrArg Prod.fst (hotUpdateFinalize_counters s₁)
      have hpoll : (chanPoll frame s).2.status S_HLOAD = s.status S_HLOAD :=
        congrArg Prod.fst (chanPoll_frame frame s).1
      rw [hfinal, hload, hpoll, caught_reachable hreach seen hctl]
      bv_omega
    exact hend.symm.trans (if_pos (.inl hmoved))

/-- So it installs an image over one that had its trial, if at all. -/
theorem turn_trial (hreach : Reachable (machine b) o.sup) {seen : U32}
    (hctl : o.sup.ctl = .service seen) {frame : Option ConsoleFrame}
    (hturn : serviceTurn b seen frame o.sup = some o'.sup) (hpassed : o'.passed = o.passed) :
    Rollback.Step (FaultFree undef b) o.trials (promoted b (chanPoll frame o.sup).2) o'.trials := by
  have htried : o.trials.tried := .inl ⟨seen, hctl⟩
  have htrials : o'.trials = ⟨o'.sup.mon.slots.images, PastFilter o'.sup, o'.passed⟩ := rfl
  rw [htrials, hpassed]
  rcases serviceTurn_images hreach hctl hturn with
    ⟨hnone, himages⟩ | ⟨img, hsome, himages, t, hround⟩
  · rw [hnone, himages]
    exact .idle _ fun _ => htried
  · rw [hsome, himages, hround]
    exact .install img _ htried (scheduleRound_notPast b _)

/-- A boot starts a new session. -/
theorem boot_trials {input : BootInput} {s : Sup} (hsup : o'.sup = bootMain b input s)
    (hpassed : o'.passed = []) :
    o'.trials = ⟨⟨(bootMain b input s).mon.image, none⟩, PastFilter o'.sup, []⟩ ∧
      ¬ PastFilter o'.sup := by
  obtain ⟨hshadow, hnot⟩ := bootMain_fresh b input s
  rw [← hsup] at hshadow hnot ⊢
  refine ⟨?_, hnot⟩
  have himages : o'.sup.mon.slots.images = ⟨o'.sup.mon.image, none⟩ :=
    congrArg (Rollback.Slots.mk _) (if_pos hshadow)
  unfold Session.trials
  rw [himages, hpassed]

/-- Each step of a session of the board is a step of the trials, labelled
    with the image it installs. -/
theorem session_trials (hb : b.target = .board) (hreach : Reachable (machine b) o.sup) {e : Event}
    (hstep : (sessionSystem undef b).step o e o') :
    Rollback.Step (FaultFree undef b) o.trials (installed b o.sup e) o'.trials := by
  obtain ⟨hran, hmachine, hpassed⟩ := sessionStep_iff.mp hstep
  have hctl := (unsettled_reachable hb hreach).ctl
  have htrials : o'.trials = ⟨o'.sup.mon.slots.images, PastFilter o'.sup, o'.passed⟩ := rfl
  -- what leaves the slots and the passed images, and ends no trial
  have hidle : o'.sup.mon.slots.images = o.sup.mon.slots.images → o'.passed = o.passed →
      (PastFilter o'.sup → PastFilter o.sup) →
      Rollback.Step (FaultFree undef b) o.trials none o'.trials := by
    intro hslots hpassed htried
    rw [htrials, hslots, hpassed]
    exact .idle _ htried
  have hslots : o'.sup.carried = o.sup.carried →
      o'.sup.mon.slots.images = o.sup.mon.slots.images :=
    fun h => congrArg (fun c : Carried => c.slots.images) h
  obtain ⟨s', passed'⟩ := o'
  cases machineStep_moved hmachine with
  | user u eff =>
    refine hidle (hslots (UserEffect.apply_carried o.sup eff)) hpassed ?_
    cases eff <;> exact id
  | ecall u regs hu =>
    by_cases hphase : o.sup.phase = 1
    · exact ecall_trial hreach hphase hran rfl hpassed
    · have himages : (trapEcall b regs o.sup).mon.slots.images = o.sup.mon.slots.images :=
        (supervisorResume_images b _).trans (if_neg hphase)
      have hkept : passedAfter o (.ecall regs) = o.passed := if_neg fun h => hphase h.1
      exact hidle himages (hpassed.trans hkept) fun _ => .inr ⟨⟨u, hu⟩, hphase⟩
  | fault u cause addr regs hu =>
    refine hidle (hslots (trapFault_carried b cause addr regs o.sup)) hpassed ?_
    intro hpast
    refine .inr ⟨⟨u, hu⟩, fun hphase => ?_⟩
    exact supervisorFault_notPast (by exact hphase) hpast
  | turn seen frame s' hservice hturn => exact turn_trial hreach hservice hturn hpassed
  | beat => exact hidle rfl hpassed id
  | stage => exact hidle rfl hpassed id
  | reset area input =>
    obtain ⟨hfresh, hnot⟩ := boot_trials rfl hpassed
    rw [hfresh]
    exact .restart _ _ hnot
  -- the calls of the harness
  | poll _ h => exact absurd h hctl
  | swap _ h => exact absurd h hctl
  | finalize h => exact absurd h hctl
  | round h => exact absurd h hctl

theorem trials_inv (hb : b.target = .board) (h : Reachable (sessionSystem undef b) o) :
    Rollback.Inv (FaultFree undef b) o.trials := by
  induction h with
  | init hinit =>
    obtain ⟨⟨raw, input, hsup⟩, hpassed⟩ := hinit
    obtain ⟨hfresh, hnot⟩ := boot_trials hsup hpassed
    rw [hfresh]
    exact .fresh _ hnot
  | step e hreach hstep ih => exact (session_trials hb (session_reachable hreach) hstep).inv ih

/-- An image in neither slot stays out of a run that does not install it. -/
theorem trials_avoid (hb : b.target = .board) {img : ProgImage} {es : List Event}
    (hrun : StepsFrom ((sessionSystem undef b).restrict fun o e => installed b o.sup e ≠ some img)
      o es o')
    (hreach : Reachable (sessionSystem undef b) o) (hout : o.trials.slots.Avoids img) :
    o'.trials.slots.Avoids img := by
  refine (hrun.invariant
    (I := fun o => Reachable (sessionSystem undef b) o ∧ o.trials.slots.Avoids img) ?_
    ⟨hreach, hout⟩).2
  rintro o e o' ⟨hreach, hout⟩ ⟨hspared, hstep⟩
  exact ⟨.step e hreach hstep,
    (session_trials hb (session_reachable hreach) hstep).avoids hspared hout⟩

/-! ## The rollback -/

theorem enterChecked_roll (i : Nat) (s : Sup) :
    (enterChecked i s).status S_ROLL = s.status S_ROLL := by
  unfold enterChecked
  split
  · rfl
  · split <;> rfl

theorem machineStep_ecall {s s' : Sup} {regs : Fin 32 → U32}
    (h : machineStep b s (.ecall regs) = some s') : trapEcall b regs s = s' := by
  cases machineStep_moved h with
  | ecall => rfl

/-- A yield that strikes the live image down. -/
theorem strike_images (hreach : Reachable (machine b) o.sup) (hphase : o.sup.phase = 1)
    (hcnt : o.sup.mon.progCnt ≠ 0) (hfault : o.sup.mon.progFault ≠ 0) (regs : Fin 32 → U32) :
    (trapEcall b regs o.sup).mon.slots.images = o.sup.mon.slots.images.strike ∧
      (trapEcall b regs o.sup).mon.progBCnt = 0 ∧
      (trapEcall b regs o.sup).status S_ROLL = o.sup.status S_ROLL + 1 := by
  have hlive := livePrograms_reachable hreach
  generalize ht : noteVerdicts { o.sup with comp := saveTcb regs o.sup.comp } = t
  have hmon : t.mon = o.sup.mon := by
    rw [← ht]
    rfl
  have hroll : t.status S_ROLL = o.sup.status S_ROLL := by
    rw [← ht]
    rfl
  have hresume : trapEcall b regs o.sup = nextMode 1 (rollback t) := by
    rw [← ht]
    exact if_pos hphase
  rw [← hmon] at hlive hcnt hfault ⊢
  rw [hresume, ← hroll]
  unfold nextMode
  rw [enterChecked_mon, enterChecked_roll]
  exact ⟨rollback_images hlive hcnt hfault, rollback_counts hcnt hfault⟩

/-- **Rollback restores a known-good program.**  In a session of the board,
    whatever frames come and however its rounds end, a yield of the filter
    phase with a fault of the live image, `bad`, brings back the shadow: an
    image that finished an earlier filter phase of the session without a
    fault.  It counts one rollback, uses up the shadow, and `bad` is not in
    the slot again in any run that does not install it. -/
theorem rollback_knownGood (undef : CExpr → U64) {b : Build} (hb : b.target = .board)
    {o o' : Session} {regs : Fin 32 → U32} {bad : ProgImage}
    (ho : Reachable (sessionSystem undef b) o) (hphase : o.sup.phase = 1)
    (hbad : o.sup.mon.image = some bad) (hfault : o.sup.mon.progFault ≠ 0)
    (hstep : (sessionSystem undef b).step o (.ecall regs) o') :
    (o.sup.mon.progBCnt ≠ 0 →
      o'.sup.mon.progCnt = o.sup.mon.progBCnt ∧
      (∀ i < o.sup.mon.progBCnt.toNat, o'.sup.mon.prog i = o.sup.mon.progB i) ∧
      ∃ good ∈ o.passed, o'.sup.mon.image = some good) ∧
    o'.sup.mon.progBCnt = 0 ∧ o'.sup.status S_ROLL = o.sup.status S_ROLL + 1 ∧
    ∀ es o'', StepsFrom ((sessionSystem undef b).restrict
        fun o e => installed b o.sup e ≠ some bad) o' es o'' →
      o''.sup.mon.image ≠ some bad := by
  have hreach := session_reachable ho
  obtain ⟨hran, hmachine, -⟩ := sessionStep_iff.mp hstep
  have hcnt : o.sup.mon.progCnt ≠ 0 := by
    intro hzero
    have hnone : o.sup.mon.image = none := if_pos hzero
    rw [hnone] at hbad
    cases hbad
  have hsup : trapEcall b regs o.sup = o'.sup := machineStep_ecall hmachine
  obtain ⟨hstruck, hshadow, hroll⟩ := strike_images hreach hphase hcnt hfault regs
  rw [hsup] at hstruck hshadow hroll
  have hinv := trials_inv hb ho
  have himage : o'.sup.mon.image = imageOf o.sup.mon.progB o.sup.mon.progBCnt :=
    congrArg Rollback.Slots.live hstruck
  refine ⟨fun hne => ?_, hshadow, hroll, fun es o'' hrun => ?_⟩
  · obtain ⟨hcnt', hwords⟩ := imageOf_eq hne himage
    have hsome : imageOf o.sup.mon.progB o.sup.mon.progBCnt = some _ := if_neg hne
    exact ⟨hcnt', hwords, _, hinv.shadow _ hsome, himage.trans hsome⟩
  · -- the phase found a fault in `bad`, so it never passed
    have hfaulty : ¬ FaultFree undef b bad := by
      intro hfree
      have hfound := (imageFault_eq undef b.target (six_reachable hreach) hbad).trans (hran hphase)
      exact hfault (Option.some.inj (hfound.symm.trans hfree))
    have hout : o'.trials.slots.Avoids bad := by
      show o'.sup.mon.slots.images.Avoids bad
      rw [hstruck]
      exact hinv.avoids_strike hfaulty
    exact (trials_avoid hb hrun (.step _ ho hstep) hout).live

end Refinement

/-! ## A session with a rollback -/

/-- The program `call 1; exit` as a staged body. -/
def callBody : Mem := putLe32 (putLe32 (fun i => callFrame.getD i 0) 0 2) 4 PEND_EBPF

/-- The board, with that program pinned. -/
def callBoard : Build := { longBoard with trusted := [sha256 callBody 24] }

def callImage : ProgImage := ⟨2, [0x0000000100000085, 0x95]⟩
def returnImage : ProgImage := ⟨2, [0x00000001000000B7, 0x95]⟩

/-- With `returnFrame` in its boot window the board serves, and the program
    has passed. -/
theorem callBoard_serving :
    ∃ o, Reachable (sessionSystem (fun _ => 0) callBoard) o ∧ o.sup.ctl = .service 0 ∧
      o.sup.mon.image = some returnImage ∧ o.passed = [returnImage] := by
  let o₀ : Session := ⟨bootMain callBoard ⟨some returnFrame, false⟩ .zeroed, []⟩
  let es : List Event := List.replicate 11 (.ecall fun _ => 0)
  have hrun : ((run (sessionStep (fun _ => 0) callBoard) o₀ es).map fun o =>
      decide (o.sup.ctl.seen? = some 0 ∧ o.sup.mon.image = some returnImage ∧
        o.passed = [returnImage])) = some true := by
    decide +kernel
  obtain ⟨o, ho, hserving⟩ := Option.map_eq_some_iff.mp hrun
  obtain ⟨hseen, himage, hpassed⟩ := of_decide_eq_true hserving
  have hsteps : StepsFrom (sessionSystem (fun _ => 0) callBoard) o₀ es o :=
    .of_run (fun _ _ _ => id) ho
  exact ⟨o, hsteps.reachable (.init ⟨⟨_, _, rfl⟩, rfl⟩), of_seen hseen, himage, hpassed⟩

theorem callImage_fault : imageFault (fun _ => 0) .board callImage = some 7 := by decide +kernel

/-- The signed program passes every gate. -/
theorem callBody_promoted {s : Sup} (hpend : s.pend = signedImage callBody 24)
    (hmagic : s.pendOk = PROG_PEND_MAGIC) : promoted callBoard s = some callImage := by
  have hbody : pendBody (pendKind callBody) (pendW0 callBody) = some 24 := by decide +kernel
  have htrust : pendTrusted callBoard.trusted (signedImage callBody 24) = true :=
    signed_trusted (fun _ _ => rfl) hbody (List.mem_singleton.mpr rfl)
  have hword : ∀ i, i + 4 ≤ 24 → le32 (signedImage callBody 24) i = le32 callBody i :=
    fun i hi => signed_word (n := 24) (fun _ _ => rfl) hi
  have hw0 : pendW0 (signedImage callBody 24) = 2 := (hword 0 (by omega)).trans (by decide +kernel)
  have hkind : pendKind (signedImage callBody 24) = PEND_EBPF :=
    (hword 4 (by omega)).trans (by decide +kernel)
  have hinsns : ∀ i < 2, pendInsns (signedImage callBody 24) i = pendInsns callBody i := by
    intro i hi
    exact le64_congr fun k hk => signedImage_body (show 8 + 8 * i + k < 24 by omega)
  have himage : imageOf (pendInsns (signedImage callBody 24)) 2 = some callImage := by
    rw [imageOf_congr (show ∀ i < (2 : U32).toNat, _ from hinsns)]
    decide +kernel
  have hgate : ebpfGate callBoard.target 2 (pendInsns (signedImage callBody 24)) = true := by
    have hsame : icProgramCheck (some (pendInsns (signedImage callBody 24))) 2 =
        icProgramCheck (some (pendInsns callBody)) 2 := icProgramCheck_congr hinsns
    unfold ebpfGate
    rw [hsame]
    decide +kernel
  unfold promoted pendImage
  rw [hpend, hw0, if_pos ⟨hmagic, htrust, hkind, hgate⟩]
  exact himage

/-- On the board that serves, `call 1; exit` is installed over
    `r0 = 1; exit`. -/
theorem callBoard_installed :
    ∃ o, Reachable (sessionSystem (fun _ => 0) callBoard) o ∧
      (∃ e, o.sup.ctl = .user e ∧ e.comp = 0) ∧ o.sup.phase = 1 ∧
      o.sup.mon.slots.images = ⟨some callImage, some returnImage⟩ ∧ o.passed = [returnImage] := by
  obtain ⟨o₁, h₁, hctl₁, himage₁, hpassed₁⟩ := callBoard_serving
  -- the image is staged
  let o₂ : Session := ⟨{ o₁.sup with pend := signedImage callBody 24, pendOk := PROG_PEND_MAGIC },
    o₁.passed⟩
  have h₂ : Reachable (sessionSystem (fun _ => 0) callBoard) o₂ :=
    .step (.stage (signedImage callBody 24) PROG_PEND_MAGIC o₁.sup.mailbox) h₁ rfl
  have hctl₂ : o₂.sup.ctl = .service 0 := hctl₁
  -- and promoted by the next turn
  have hpromoted : promoted callBoard o₂.sup = some callImage := callBody_promoted rfl rfl
  obtain ⟨s₃, hturn⟩ : ∃ s₃, serviceTurn callBoard 0 none o₂.sup = some s₃ :=
    ⟨_, congrArg (Option.map _) (promoted_some hpromoted).1⟩
  have hstep : (sessionSystem (fun _ => 0) callBoard).step o₂ (.turn none) ⟨s₃, o₁.passed⟩ := by
    refine sessionStep_iff.mpr ⟨trivial, ?_, rfl⟩
    dsimp only [machineStep]
    rw [hctl₂]
    exact hturn
  refine ⟨⟨s₃, o₁.passed⟩, .step _ h₂ hstep, ?_⟩
  rcases serviceTurn_images (session_reachable h₂) hctl₂ hturn with
    ⟨hnone, -⟩ | ⟨img, hsome, himages, t, rfl⟩
  · cases hpromoted.symm.trans hnone
  · obtain rfl := Option.some.inj (hpromoted.symm.trans hsome)
    obtain ⟨⟨e, hctl, hcomp, -⟩, hphase, -⟩ :=
      (scheduleRound_stage callBoard (supervisorReset t)).at_stage
    refine ⟨⟨e, hctl, hcomp⟩, hphase, himages.trans ?_, hpassed₁⟩
    exact congrArg (Rollback.Slots.mk _) himage₁

/-- Its first filter phase strikes it down. -/
theorem rollback_knownGood_returns :
    ∃ o o' : Session, Reachable (sessionSystem (fun _ => 0) callBoard) o ∧
      o.sup.mon.image = some callImage ∧
      (sessionSystem (fun _ => 0) callBoard).step o (.ecall fun _ => 0) o' ∧
      o'.sup.mon.image = some returnImage ∧ o'.sup.mon.progBCnt = 0 ∧
      o'.sup.status S_ROLL = o.sup.status S_ROLL + 1 := by
  obtain ⟨o₃, h₃, ⟨e, hctl, hcomp⟩, hphase, himages, hpassed⟩ := callBoard_installed
  -- the monitor reports what it finds
  let eff : UserEffect := .monitor o₃.sup.mon.verdicts o₃.sup.mon.insns o₃.sup.mon.screenVerd
    o₃.sup.mon.screenInsns o₃.sup.mon.nativeVerd o₃.sup.mon.map 7
  let o₄ : Session := ⟨eff.apply o₃.sup, o₃.passed⟩
  have h₄ : Reachable (sessionSystem (fun _ => 0) callBoard) o₄ := by
    refine .step (.user eff) h₃ (sessionStep_iff.mpr ⟨trivial, ?_, rfl⟩)
    dsimp only [machineStep]
    rw [hctl]
    exact if_pos hcomp.symm
  have himage : o₄.sup.mon.image = some callImage := congrArg Rollback.Slots.live himages
  have hran : FilterRan (fun _ => 0) callBoard o₄.sup (.ecall fun _ => 0) := fun _ =>
    (imageFault_eq _ .board (six_reachable (session_reachable h₄)) himage).symm.trans
      callImage_fault
  let o₅ : Session := ⟨trapEcall callBoard (fun _ => 0) o₄.sup, passedAfter o₄ (.ecall fun _ => 0)⟩
  have hstep : (sessionSystem (fun _ => 0) callBoard).step o₄ (.ecall fun _ => 0) o₅ := by
    refine sessionStep_iff.mpr ⟨hran, ?_, rfl⟩
    have hctl₄ : o₄.sup.ctl = .user e := hctl
    dsimp only [machineStep]
    rw [hctl₄]
  have hshadow : o₄.sup.mon.progBCnt ≠ 0 := by
    intro hzero
    have hnone : imageOf o₃.sup.mon.progB o₃.sup.mon.progBCnt = none := if_pos hzero
    cases hnone.symm.trans (congrArg Rollback.Slots.shadow himages)
  have hfault : o₄.sup.mon.progFault ≠ 0 := show (7 : U32) ≠ 0 by decide
  obtain ⟨hgood, hused, hroll, -⟩ :=
    rollback_knownGood (fun _ => 0) (b := callBoard) rfl h₄ hphase himage hfault hstep
  obtain ⟨-, -, good, hmem, hback⟩ := hgood hshadow
  obtain rfl : good = returnImage := List.mem_singleton.mp (hpassed ▸ hmem)
  exact ⟨o₄, o₅, h₄, himage, hstep, hback, hused, hroll⟩

end Interclus

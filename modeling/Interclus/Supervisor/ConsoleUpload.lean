import Interclus.Console.CarvedReplies
import Interclus.Protocol.PendStage
import Interclus.Supervisor.BootFrame
import Interclus.Supervisor.PinnedModules

/-! # Programs Over the Console

    What becomes of a program that the host packs into a console frame.  In
    the boot window, `uart_recv` takes the first program frame of the wire,
    and the verifier alone decides.  At run time, `chan_poll` stages a
    frame as the image that `pend.py` would have written, and the turn that
    takes it ends with the verdict of `hot_swap` on that image. -/

namespace Interclus

open Words LTS

/-! ## The payload -/

theorem length_progPayload (insns : List U64) : (progPayload insns).length = 8 + 8 * insns.length := by
  rw [progPayload, List.length_append, List.length_append, length_packLe, length_packLe,
    length_packInsns]

/-- The header of a program, and its instructions. -/
theorem progPayload_fields (insns : List U64) :
    le32 (listMem (progPayload insns)) 0 = PROG_MAGIC ∧
      le32 (listMem (progPayload insns)) 4 = lenWord insns ∧
      ∀ k < insns.length, le64 (listMem (progPayload insns)) (8 + 8 * k) = insns.getD k 0 := by
  refine ⟨?_, ?_, fun k hk => ?_⟩
  · have hmagic := le32_listMem (v := PROG_MAGIC) [] (packLe 4 (lenWord insns) ++ packInsns insns)
    rw [List.nil_append, ← List.append_assoc] at hmagic
    exact hmagic
  · have hcnt := le32_listMem (v := lenWord insns) (packLe 4 PROG_MAGIC) (packInsns insns)
    rw [length_packLe, ← List.append_assoc] at hcnt
    exact hcnt
  · have hinsn := le64_packInsns (packLe 4 PROG_MAGIC ++ packLe 4 (lenWord insns)) insns hk
    rw [List.length_append, length_packLe, length_packLe] at hinsn
    exact hinsn

/-! ## The boot window -/

theorem consoleFrames_eq {frames : List (U8 × List U8)} (h : ∀ f ∈ frames, f.2.length < 65536) :
    consoleFrames frames = some (frames.flatMap fun f => uartSendFrame f.1 f.2) := by
  induction frames with
  | nil => rfl
  | cons f frames ih =>
    rw [consoleFrames, consoleFrame_eq f.1 (h f List.mem_cons_self),
      ih fun f hf => h f (List.mem_cons_of_mem _ hf)]
    rfl

/-- An area with the program laid over it loads as the verifier says. -/
theorem laidOver_loads {insns : List U64} (hpos : insns ≠ []) (hle : insns.length ≤ 64) (area : Mem) :
    (Loads (laidOver (progPayload insns) area) ↔
      icProgramCheck (some fun i => insns.getD i 0) (lenWord insns) = .ok) ∧
    le32 (laidOver (progPayload insns) area) 4 = lenWord insns ∧
    ∀ k < insns.length,
      insnWords (fun i => laidOver (progPayload insns) area (8 + i)) k = insns.getD k 0 := by
  obtain ⟨hmagic, hcnt, hinsns⟩ := progPayload_fields insns
  have hlen := length_progPayload insns
  have hbyte : ∀ i < 8 + 8 * insns.length,
      laidOver (progPayload insns) area i = listMem (progPayload insns) i := by
    intro i hi
    exact laidOver_of_lt (by omega)
  have hmagic' : le32 (laidOver (progPayload insns) area) 0 = PROG_MAGIC :=
    (le32_congr fun k hk => hbyte _ (by omega)).trans hmagic
  have hcnt' : le32 (laidOver (progPayload insns) area) 4 = lenWord insns :=
    (le32_congr fun k hk => hbyte _ (by omega)).trans hcnt
  have hinsns' : ∀ k < insns.length,
      insnWords (fun i => laidOver (progPayload insns) area (8 + i)) k = insns.getD k 0 := by
    intro k hk
    rw [← hinsns k hk]
    refine le64_congr fun q hq => ?_
    rw [Nat.add_assoc]
    exact hbyte _ (by omega)
  have hlen32 : (lenWord insns).toNat = insns.length := lenWord_toNat (by omega)
  have hcheck : icProgramCheck
        (some (insnWords fun i => laidOver (progPayload insns) area (8 + i))) (lenWord insns) =
      icProgramCheck (some fun i => insns.getD i 0) (lenWord insns) :=
    icProgramCheck_congr fun i hi => hinsns' i (by omega)
  refine ⟨?_, hcnt', hinsns'⟩
  unfold Loads
  rw [hmagic', hcnt', hcheck]
  constructor
  · rintro ⟨-, -, -, hok⟩
    exact hok
  · intro hok
    have hlive := List.length_pos_iff.mpr hpos
    refine ⟨rfl, ?_, ?_, hok⟩
    · intro h0
      rw [h0] at hlen32
      exact absurd hlen32 (by simpa using by omega)
    · show (lenWord insns).toNat ≤ 64
      omega

/-- **A program uploaded at boot.** Among frames of the host, the first
    program frame decides: whatever memory held before, and whatever else
    came in, after boot its instructions are live if the verifier takes
    them, and nothing is live if it does not. -/
theorem bootUpload_live {b : Build} {insns : List U64} {before after : List (U8 × List U8)}
    {wire : List U8} {raw : Sup} {input : BootInput} (hpos : insns ≠ []) (hle : insns.length ≤ 64)
    (hbefore : ∀ f ∈ before, f.1 ≠ 1 ∨ f.2 = [])
    (hlen : ∀ f ∈ before ++ after, f.2.length ≤ UART_FRAME_MAX)
    (hwire : consoleFrames (before ++ (1, progPayload insns) :: after) = some wire)
    (hinput : input.frame = bootFrame wire raw.progArea) :
    (icProgramCheck (some fun i => insns.getD i 0) (lenWord insns) = .ok →
      (bootMain b input raw).mon.progCnt = lenWord insns ∧
        ∀ k < insns.length, (bootMain b input raw).mon.prog k = insns.getD k 0) ∧
    (icProgramCheck (some fun i => insns.getD i 0) (lenWord insns) ≠ .ok →
      (bootMain b input raw).mon.progCnt = 0) := by
  have hpayload := length_progPayload insns
  have hall : ∀ f ∈ before ++ (1, progPayload insns) :: after, f.2.length ≤ UART_FRAME_MAX := by
    intro f hf
    have hmax : UART_FRAME_MAX = 520 := rfl
    rcases List.mem_append.mp hf with hf | hf
    · exact hlen f (List.mem_append_left _ hf)
    · rcases List.mem_cons.mp hf with rfl | hf
      · show (progPayload insns).length ≤ _
        omega
      · exact hlen f (List.mem_append_right _ hf)
  rw [consoleFrames_eq fun f hf => Nat.lt_of_le_of_lt (hall f hf) (by decide)] at hwire
  -- the window takes the program frame
  have hframe : input.frame = some (progPayload insns) := by
    rw [hinput, ← Option.some.inj hwire, bootFrame_stream _ hall]
    have hskip : (before.find? fun f => f.1 = 1 ∧ f.2 ≠ []) = none := by
      rw [List.find?_eq_none]
      intro f hf
      show ¬ decide (f.1 = 1 ∧ f.2 ≠ []) = true
      rw [decide_eq_true_iff, not_and_or, not_not]
      exact hbefore f hf
    have htake : progPayload insns ≠ [] := List.ne_nil_of_length_pos (by omega)
    rw [List.find?_append, hskip, Option.none_or, List.find?_cons_of_pos (by simp [htake])]
    rfl
  obtain ⟨s₁, harea, hslots⟩ := bootMain_area b input raw
  -- boot itself is not looked into any more
  generalize bootMain b input raw = booted at hslots ⊢
  have hlaid : s₁.progArea = laidOver (progPayload insns) raw.progArea := by
    rw [harea, hframe]
    rfl
  have hcount : booted.mon.progCnt = (loadProgram b s₁).mon.progCnt :=
    congrArg ProgSlots.progCnt hslots
  have hprog : booted.mon.prog = (loadProgram b s₁).mon.prog :=
    congrArg ProgSlots.prog hslots
  obtain ⟨hloads, hcnt, hinsns⟩ := laidOver_loads hpos hle raw.progArea
  rw [← hlaid] at hloads hcnt hinsns
  rw [hcount, hprog]
  constructor
  · intro hok
    obtain ⟨hlive, hwords⟩ := loadProgram_of_loads b (hloads.mpr hok)
    refine ⟨hlive.trans hcnt, fun k hk => ?_⟩
    have hk' : k < (le32 s₁.progArea 4).toNat := by
      rw [hcnt, lenWord_toNat (by omega)]
      exact hk
    exact (hwords k hk').trans (hinsns k hk)
  · intro hbad
    exact loadProgram_of_not_loads b fun h => hbad (hloads.mp h)

/-- Channel traffic, and then a program: `r0 = 1; exit`, and one that is an
    `exit` with an instruction in front of it that there is not. -/
theorem bootUpload_live_return :
    (∃ wire, consoleFrames [(2, [0]), (1, progPayload returnInsns)] = some wire ∧
      (bootMain (.pinning []) ⟨bootFrame wire Sup.zeroed.progArea, false⟩ .zeroed).mon.progCnt = 2 ∧
      ∀ k < 2, (bootMain (.pinning []) ⟨bootFrame wire Sup.zeroed.progArea, false⟩ .zeroed).mon.prog k =
        returnInsns.getD k 0) ∧
    ∃ wire, consoleFrames [(2, [0]), (1, progPayload [0xFF, 0x95])] = some wire ∧
      (bootMain (.pinning []) ⟨bootFrame wire Sup.zeroed.progArea, false⟩ .zeroed).mon.progCnt = 0 := by
  have hframes : ∀ insns : List U64, insns.length ≤ 64 → ∃ wire,
      consoleFrames ([(2, [0])] ++ (1, progPayload insns) :: []) = some wire := by
    intro insns hle
    refine ⟨_, consoleFrames_eq fun f hf => ?_⟩
    rcases List.mem_cons.mp hf with rfl | hf
    · show 1 < 65536
      decide
    · rw [List.mem_singleton.mp hf, length_progPayload]
      omega
  obtain ⟨wire, hwire⟩ := hframes returnInsns (by decide)
  obtain ⟨wire', hwire'⟩ := hframes [0xFF, 0x95] (by decide)
  have hinput : ∀ wire, (BootInput.mk (bootFrame wire Sup.zeroed.progArea) false).frame =
      bootFrame wire Sup.zeroed.progArea := fun _ => rfl
  obtain ⟨hlive, -⟩ := bootUpload_live (b := .pinning []) (by decide) (by decide) (by decide)
    (by decide) hwire (hinput wire)
  obtain ⟨hcnt, hprog⟩ := hlive (by decide +kernel)
  obtain ⟨-, hnone⟩ := bootUpload_live (b := .pinning []) (by decide) (by decide) (by decide)
    (by decide) hwire' (hinput wire')
  exact ⟨⟨wire, hwire, hcnt.trans (by decide), hprog⟩, wire', hwire', hnone (by decide +kernel)⟩

/-! ## The runtime channel -/

theorem signedPayload_eq (insns : List U64) : signedPayload insns =
    progPayload insns ++ List.ofFn (imageSha (stageEbpfBody insns)) := rfl

section Frame
variable {f : ConsoleFrame} {insns : List U64} (hf : f.Carries 1 (signedPayload insns))
include hf

/-- The header of the program frame. -/
theorem signedFrame_header : f.n = 8 + 8 * insns.length + 32 ∧ le32 f.stage 0 = PROG_MAGIC ∧
    le32 f.stage 4 = lenWord insns := by
  obtain ⟨hmagic, hcnt, -⟩ := progPayload_fields insns
  have hlen := length_progPayload insns
  have hsigned : (signedPayload insns).length = 8 + 8 * insns.length + 32 := by
    rw [signedPayload_eq, List.length_append, hlen, List.length_ofFn]
  have hword : ∀ i, i + 4 ≤ 8 → le32 f.stage i = le32 (listMem (progPayload insns)) i := by
    intro i hi
    refine le32_congr fun k hk => ?_
    rw [hf.stage _ (by omega), signedPayload_eq]
    exact listMem_append_left (by omega)
  exact ⟨hf.n.trans hsigned, (hword 0 (by omega)).trans hmagic, (hword 4 (by omega)).trans hcnt⟩

/-- Behind the header, the frame is the image that `pend.py` stages. -/
theorem signedFrame_tail {i : Nat} (hi : i < 8 * insns.length + 32) :
    f.stage (8 + i) =
      listMem (packInsns insns ++ List.ofFn (imageSha (stageEbpfBody insns))) i := by
  have hpre : (packLe 4 PROG_MAGIC ++ packLe 4 (lenWord insns)).length = 8 := by
    rw [List.length_append, length_packLe, length_packLe]
  have hn := hf.n
  rw [(signedFrame_header hf).1] at hn
  have hbytes : signedPayload insns = packLe 4 PROG_MAGIC ++ packLe 4 (lenWord insns) ++
      (packInsns insns ++ List.ofFn (imageSha (stageEbpfBody insns))) := List.append_assoc _ _ _
  rw [hf.stage _ (by omega), hbytes]
  exact listMem_behind hpre i

/-- `chan_poll` stages the image. -/
theorem signedFrame_polled (hpos : insns ≠ []) (hle : insns.length ≤ 64) (s : Sup) :
    (chanPoll (some f) s).2.pendOk = PROG_PEND_MAGIC ∧
      WindowHolds (chanPoll (some f) s).2.pend (signedBytes (stageEbpfBody insns)) := by
  obtain ⟨hn, hmagic, hcnt⟩ := signedFrame_header hf
  have hlen : (lenWord insns).toNat = insns.length := lenWord_toNat (by omega)
  have hlive := List.length_pos_iff.mpr hpos
  have hne : lenWord insns ≠ 0 := by
    intro h0
    rw [h0] at hlen
    exact absurd hlen (by simpa using by omega)
  have hmax : ¬ IC_PROG_MAX_INSNS < lenWord insns := by
    rw [BitVec.lt_def, hlen]
    exact Nat.not_lt.mpr hle
  have hsha : SHA256_LEN = 32 := rfl
  have hpoll : chanPoll (some f) s = (2, { s with
      pend := fun i => if 8 ≤ i ∧ i < f.n then f.stage i
        else putLe32 (putLe32 s.pend 0 (lenWord insns)) 4 PEND_EBPF i
      pendOk := PROG_PEND_MAGIC }) := by
    unfold chanPoll
    dsimp only
    rw [if_neg (by omega), hf.type, if_neg (by decide), if_pos rfl]
    unfold pollProgram
    dsimp only
    rw [hcnt, if_neg (not_or.mpr ⟨by omega, not_not.mpr hmagic⟩), if_neg]
    rw [not_or, not_or, not_not, hlen]
    exact ⟨hne, hmax, by omega⟩
  rw [hpoll]
  refine ⟨rfl, ?_⟩
  generalize hpend : (fun i => if 8 ≤ i ∧ i < f.n then f.stage i
    else putLe32 (putLe32 s.pend 0 (lenWord insns)) 4 PEND_EBPF i) = pend
  show WindowHolds pend _
  have hlow : ∀ i < 8, pend i = putLe32 (putLe32 s.pend 0 (lenWord insns)) 4 PEND_EBPF i := by
    intro i hi
    rw [← hpend]
    exact if_neg (by omega)
  have hw0 : le32 pend 0 = lenWord insns := by
    rw [le32_congr fun k hk => hlow (0 + k) (by omega), le32_putLe32_of_apart _ (by omega)]
    exact le32_putLe32 _ _ _
  have hkind : le32 (fun i => pend (4 + i)) 0 = PEND_EBPF := by
    have hcongr : le32 (fun i => pend (4 + i)) 0 =
        le32 (putLe32 (putLe32 s.pend 0 (lenWord insns)) 4 PEND_EBPF) 4 :=
      le32_congr fun k hk => (hlow _ (by omega)).trans (by rw [Nat.zero_add])
    exact hcongr.trans (le32_putLe32 _ _ _)
  have hhead := windowHolds_word pend
  have hsecond := windowHolds_word fun i => pend (4 + i)
  rw [hw0] at hhead
  rw [hkind] at hsecond
  have htail : WindowHolds (fun i => pend (8 + i))
      (packInsns insns ++ List.ofFn (imageSha (stageEbpfBody insns))) := by
    intro i hi
    rw [List.length_append, length_packInsns, List.length_ofFn] at hi
    rw [← signedFrame_tail hf hi, ← hpend]
    exact if_pos (by omega)
  have hbytes : signedBytes (stageEbpfBody insns) = packLe 4 (lenWord insns) ++ packLe 4 PEND_EBPF ++
      (packInsns insns ++ List.ofFn (imageSha (stageEbpfBody insns))) := List.append_assoc _ _ _
  rw [hbytes]
  exact windowHolds_append (windowHolds_append hhead hsecond) htail

end Frame

/-- **A program sent at run time.** `chan_poll` stages the image that
    `pend.py` would have written.  The turn of the service loop that takes
    the frame ends with the program live, and the one before it as its
    shadow, if the build pins the digest and the verifier takes the
    instructions; otherwise with the programs as they were.  Either way the
    native modules are untouched and nothing stays staged. -/
theorem turnUpload_decided {b : Build} {insns : List U64} {f : ConsoleFrame} {s : Sup} {seen : U32}
    (hpos : insns ≠ []) (hle : insns.length ≤ 64) (hf : f.Carries 1 (signedPayload insns))
    (hctl : s.ctl = .service seen) :
    ((chanPoll (some f) s).2.pendOk = PROG_PEND_MAGIC ∧
      WindowHolds (chanPoll (some f) s).2.pend (signedBytes (stageEbpfBody insns))) ∧
    ∃ s', machineStep b s (.turn (some f)) = some s' ∧ s'.pendOk ≠ PROG_PEND_MAGIC ∧
      SameModules s s' ∧
      (EbpfAdmitted b insns →
        s'.mon.progCnt = lenWord insns ∧ (∀ k < insns.length, s'.mon.prog k = insns.getD k 0) ∧
          s'.mon.progBCnt = s.mon.progCnt ∧ ∀ k < 64, s'.mon.progB k = s.mon.prog k) ∧
      (¬ EbpfAdmitted b insns → s'.mon.slots = s.mon.slots) := by
  obtain ⟨hmagic, hwin⟩ := signedFrame_polled hf hpos hle s
  have hmon := chanPoll_mon (some f) s
  have hsame := chanPoll_same (some f) s
  have hturn : ∀ s₁, hotSwap b (chanPoll (some f) s).2 = some s₁ →
      machineStep b s (.turn (some f)) =
        some (endTurn b seen (chanPoll (some f) s).1 (hotUpdateFinalize s₁)) := by
    intro s₁ hs₁
    unfold machineStep serviceTurn
    dsimp only
    rw [hctl]
    dsimp only
    rw [hs₁]
    rfl
  obtain ⟨s₁, hswap, hinstalled, hrefused⟩ := hotSwap_ebpf (b := b) (by omega) hwin hmagic
  refine ⟨⟨hmagic, hwin⟩, _, hturn s₁ hswap, ?_⟩
  generalize (chanPoll (some f) s).2 = polled at hmon hsame hswap hinstalled hrefused
  generalize (chanPoll (some f) s).1 = ev
  have hcarried := endTurn_carried b seen ev (hotUpdateFinalize s₁)
  have hend := SameModules.of_table (endTurn_natTable (b := b) seen ev (hotUpdateFinalize s₁))
    (endTurn_kept b seen ev (hotUpdateFinalize s₁))
  generalize endTurn b seen ev (hotUpdateFinalize s₁) = s' at hcarried hend
  have hslots : s'.mon.slots = s₁.mon.slots := by
    have hmon₁ := congrArg MonBox.slots (hotUpdateFinalize_mon s₁)
    exact (congrArg Carried.slots hcarried).trans hmon₁
  have hspent : s'.pendOk ≠ PROG_PEND_MAGIC := by
    have hok : s'.pendOk = (hotUpdateFinalize s₁).pendOk := congrArg Carried.pendOk hcarried
    rw [hok, (hotUpdateFinalize_window s₁).2]
    exact (hotSwap_swapped hswap).pendOk
  have hmid := hotUpdateFinalize_same s₁
  have hjoin : (∀ k, s₁.nat k = polled.nat k) → s₁.natText = polled.natText → SameModules s s' := by
    intro hnat htext
    refine ⟨fun k => ?_, ?_⟩
    · obtain ⟨hl, he, hv⟩ := hsame.slot k
      obtain ⟨hl₁, he₁, hv₁⟩ := hmid.slot k
      obtain ⟨hl₂, he₂, hv₂⟩ := hend.slot k
      rw [hnat k] at hl₁ he₁ hv₁
      exact ⟨hl₂.trans (hl₁.trans hl), he₂.trans (he₁.trans he), hv₂.trans (hv₁.trans hv)⟩
    · exact hend.text.trans (hmid.text.trans (htext.trans hsame.text))
  by_cases hadm : EbpfAdmitted b insns
  · have hin := hinstalled hadm
    refine ⟨hspent, hjoin (fun k => congrFun hin.nat.1 k) hin.nat.2, fun _ => ?_,
      fun h => absurd hadm h⟩
    have hcnt : s'.mon.progCnt = s₁.mon.progCnt := congrArg ProgSlots.progCnt hslots
    have hprog : s'.mon.prog = s₁.mon.prog := congrArg ProgSlots.prog hslots
    have hcntB : s'.mon.progBCnt = s₁.mon.progBCnt := congrArg ProgSlots.progBCnt hslots
    have hprogB : s'.mon.progB = s₁.mon.progB := congrArg ProgSlots.progB hslots
    refine ⟨hcnt.trans hin.cnt, fun k hk => ?_, ?_, fun k hk => ?_⟩
    · rw [hprog]
      exact hin.live k hk
    · rw [hcntB, hin.shadow_cnt, hmon]
    · rw [hprogB, hin.shadow k hk, hmon]
  · have hout := hrefused hadm
    subst hout
    refine ⟨hspent, hjoin (fun _ => rfl) rfl, fun h => absurd h hadm, fun _ => ?_⟩
    rw [hslots, ← hmon]
    rfl

/-- The frame with `r0 = 1; exit`. -/
def returnUpload : ConsoleFrame :=
  ⟨1, (signedPayload returnInsns).length, listMem (signedPayload returnInsns)⟩

/-- From a build that pins it, and from one that does not. -/
theorem turnUpload_decided_return :
    (∃ s', machineStep returnBuild { Sup.zeroed with ctl := .service 0 } (.turn (some returnUpload)) =
        some s' ∧ s'.mon.progCnt = 2 ∧ s'.mon.progBCnt = 0) ∧
    ∃ s', machineStep (.pinning []) { Sup.zeroed with ctl := .service 0 }
        (.turn (some returnUpload)) = some s' ∧ s'.mon.slots = Sup.zeroed.mon.slots := by
  have hcarries : returnUpload.Carries 1 (signedPayload returnInsns) := ⟨rfl, rfl, fun _ _ => rfl⟩
  obtain ⟨-, s', hs', -, -, hinstalled, -⟩ := turnUpload_decided (b := returnBuild)
    (s := { Sup.zeroed with ctl := .service 0 }) (by decide) (by decide) hcarries rfl
  obtain ⟨-, s'', hs'', -, -, -, hrefused⟩ := turnUpload_decided (b := .pinning [])
    (s := { Sup.zeroed with ctl := .service 0 }) (by decide) (by decide) hcarries rfl
  have hadm : EbpfAdmitted returnBuild returnInsns :=
    ⟨by decide, by decide, List.mem_singleton.mpr rfl, by decide +kernel⟩
  have hnot : ¬ EbpfAdmitted (.pinning []) returnInsns := fun h => List.not_mem_nil h.pinned
  obtain ⟨hcnt, -, hshadow, -⟩ := hinstalled hadm
  exact ⟨⟨s', hs', hcnt.trans (by decide), hshadow⟩, s'', hs'', hrefused hnot⟩

end Interclus

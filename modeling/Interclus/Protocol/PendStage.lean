import Interclus.Supervisor.PendDecision
import Interclus.Supervisor.ServiceTurn

/-! # Staging Over a Link That Loses and Delays Writes

    `_stage` of `tools/pend.py` against a board that keeps running: the
    host writes words through a debug link, which applies each of them at
    some later time or never, reads them back and writes the wrong ones
    again, and sets the magic last.  `decided` is ghost state: the windows
    `hot_swap` found the magic over. -/

namespace Interclus

open Words LTS

/-! ## The host -/

/-- A word to write, and its offset in the staging window. -/
structure PendWord where
  offset : Nat
  word : U32
  deriving DecidableEq, Repr

/-- `full` of `_write_words`. -/
def dataWords (data : List U8) : List PendWord :=
  (List.range ((data.length + 3) / 4)).map fun k => ⟨4 * k, le32 (listMem data) (4 * k)⟩

def clearWord : PendWord := ⟨PROG_PEND_MAGIC_OFF, 0⟩
def armWord : PendWord := ⟨PROG_PEND_MAGIC_OFF, PROG_PEND_MAGIC⟩

/-- Where `_stage` is. -/
inductive StagePc where
  /-- Before it invalidates the window. -/
  | clear
  /-- In a round of `_write_words`, with these words left to write. -/
  | write (round : Nat) (todo : List PendWord)
  /-- Reading back, with these words left to compare and these found wrong. -/
  | verify (round : Nat) (todo bad : List PendWord)
  /-- Before it sets the magic. -/
  | arm
  | returned
  | raised

/-- The next step of `_stage`, and the words it sends.  `shown` is whether
    the dump that is read back shows the word. -/
def stageHost (full : List PendWord) (pend : Mem) (shown : Bool) :
    StagePc → Option (StagePc × List PendWord)
  | .clear => some (.write 0 full, [clearWord])
  | .write round [] => some (.verify round full [], [])
  | .write round (w :: todo) => some (.write round todo, [w])
  | .verify round (w :: todo) bad =>
    if shown ∧ le32 pend w.offset = w.word then some (.verify round todo bad, [])
    else some (.verify round todo (bad ++ [w]), [])
  | .verify _ [] [] => some (.arm, [])
  | .verify round [] bad =>
    if round + 1 < 4 then some (.write (round + 1) bad, []) else some (.raised, [])
  | .arm => some (.returned, [armWord])
  | .returned => none
  | .raised => none

/-! ## The board -/

/-- A word lands. -/
def Sup.poke (w : PendWord) (s : Sup) : Sup :=
  if w.offset = PROG_PEND_MAGIC_OFF then { s with pendOk := w.word }
  else { s with pend := putLe32 s.pend w.offset w.word }

/-- The window an event's `hot_swap` decides on, if it finds the magic. -/
def decisions (s : Sup) : Event → List Mem
  | .turn frame =>
    let s := (chanPoll frame s).2
    if s.pendOk = PROG_PEND_MAGIC then [s.pend] else []
  | .swap => if s.pendOk = PROG_PEND_MAGIC then [s.pend] else []
  | _ => []

/-- A frame that does not write the staging window. -/
def FrameSpares (frame : Option ConsoleFrame) : Prop :=
  ∀ f ∈ frame, ¬ IsCommand f ∧ ¬ (ProgramFrame f ∨ NativeFrame f)

/-- An event through which nobody else stages. -/
def Event.Spares : Event → Prop
  | .turn frame => FrameSpares frame
  | .poll frame => FrameSpares frame
  | .stage .. => False
  | _ => True

/-! ## Both ends -/

structure StageLink where
  dev : Sup
  pc : StagePc
  /-- Sent and neither applied nor lost yet. -/
  flight : List PendWord
  decided : List Mem

inductive StageEvent where
  | host (shown : Bool)
  | land (i : Nat)
  | lose (i : Nat)
  | device (e : Event)

def StageEvent.Spares : StageEvent → Prop
  | .device e => e.Spares
  | _ => True

def stageStep (b : Build) (full : List PendWord) (l : StageLink) : StageEvent → Option StageLink
  | .host shown => (stageHost full l.dev.pend shown l.pc).map fun (pc, sent) =>
      { l with pc := pc, flight := l.flight ++ sent }
  | .land i => l.flight[i]?.map fun w =>
      { l with dev := l.dev.poke w, flight := l.flight.eraseIdx i }
  | .lose i => some { l with flight := l.flight.eraseIdx i }
  | .device e => (machineStep b l.dev e).map fun dev =>
      { l with dev := dev, decided := l.decided ++ decisions l.dev e }

/-- One call of `_stage`, to a board with nothing staged, with no word of
    an earlier call on the way. -/
def stageSystem (b : Build) (data : List U8) : System StageLink StageEvent where
  init l := l.pc = .clear ∧ l.flight = [] ∧ l.decided = [] ∧ l.dev.pendOk ≠ PROG_PEND_MAGIC
  step l e l' := e.Spares ∧ stageStep b (dataWords data) l e = some l'

/-! ## Words of the image -/

/-- The word is in the window. -/
def Held (pend : Mem) (w : PendWord) : Prop := le32 pend w.offset = w.word

section Words
variable {data : List U8}

theorem mem_dataWords {w : PendWord} (h : w ∈ dataWords data) :
    ∃ k, 4 * k < data.length ∧ w = ⟨4 * k, le32 (listMem data) (4 * k)⟩ := by
  obtain ⟨k, hk, rfl⟩ := List.mem_map.mp h
  rw [List.mem_range] at hk
  exact ⟨k, by omega, rfl⟩

/-- Below the magic. -/
theorem dataWords_below (hlen : data.length ≤ PROG_PEND_MAGIC_OFF) {w : PendWord}
    (h : w ∈ dataWords data) : w.offset < PROG_PEND_MAGIC_OFF := by
  obtain ⟨k, hk, rfl⟩ := mem_dataWords h
  exact Nat.lt_of_lt_of_le hk hlen

/-- A word of the image leaves every other one of them where it is. -/
theorem Held.put {pend : Mem} {w w' : PendWord} (h : Held pend w) (hw : w ∈ dataWords data)
    (hw' : w' ∈ dataWords data) : Held (putLe32 pend w'.offset w'.word) w := by
  obtain ⟨k, -, rfl⟩ := mem_dataWords hw
  obtain ⟨k', -, rfl⟩ := mem_dataWords hw'
  unfold Held at h ⊢
  dsimp only at h ⊢
  by_cases hk : k = k'
  · rw [hk, le32_putLe32]
  · rw [le32_putLe32_of_apart _ (by omega)]
    exact h

theorem Held.poke {s : Sup} {w w' : PendWord} (h : Held s.pend w) (hw : w ∈ dataWords data)
    (hw' : w' ∈ dataWords data ∨ w'.offset = PROG_PEND_MAGIC_OFF) : Held (s.poke w').pend w := by
  unfold Sup.poke
  split
  · exact h
  · next hoff =>
    rcases hw' with hw' | hmagic
    · exact h.put hw hw'
    · exact absurd hmagic hoff

/-- A window with every word of the image holds the image. -/
theorem windowHolds_of_held {pend : Mem} (h : ∀ w ∈ dataWords data, Held pend w) :
    WindowHolds pend data := by
  intro i hi
  have hword : le32 pend (4 * (i / 4)) = le32 (listMem data) (4 * (i / 4)) :=
    h ⟨4 * (i / 4), _⟩ (List.mem_map.mpr ⟨i / 4, List.mem_range.mpr (by omega), rfl⟩)
  have hbyte := byteOf_le32 pend (4 * (i / 4)) (show i % 4 < 4 by omega)
  rw [Nat.div_add_mod] at hbyte
  rw [← hbyte, hword, byteOf_le32 _ _ (by omega), Nat.div_add_mod]

end Words

/-! ## What the board does to the window -/

/-- An event of the board reads the window, and clears the magic when it
    decides. -/
structure Decided (s : Sup) (e : Event) (s' : Sup) : Prop where
  pend : s'.pend = s.pend
  spent : (decisions s e = [] ∧ (s'.pendOk = s.pendOk ∨ s'.pendOk ≠ PROG_PEND_MAGIC)) ∨
    (decisions s e = [s.pend] ∧ s.pendOk = PROG_PEND_MAGIC ∧ s'.pendOk ≠ PROG_PEND_MAGIC)

theorem chanPoll_spares {frame : Option ConsoleFrame} (h : FrameSpares frame) (s : Sup) :
    (chanPoll frame s).2.pend = s.pend ∧ (chanPoll frame s).2.pendOk = s.pendOk := by
  rcases chanPoll_other (fun f hf => (h f hf).1) s with hs | ⟨f, hf, hstages, -⟩
  · exact ⟨hs.pend, hs.pendOk⟩
  · exact absurd hstages (h f hf).2

theorem hotUpdateFinalize_window (s : Sup) :
    (hotUpdateFinalize s).pend = s.pend ∧ (hotUpdateFinalize s).pendOk = s.pendOk := by
  rcases hotUpdateFinalize_cases s with h | ⟨ok, -, h⟩ <;> rw [h]
  · exact ⟨rfl, rfl⟩
  · obtain ⟨hsettled, hok⟩ := settle_settled s ok
    exact ⟨hsettled.pend, hok⟩

/-- What `hot_swap` decides on. -/
theorem hotSwap_decided {b : Build} {s s' : Sup} (h : hotSwap b s = some s') :
    s'.pend = s.pend ∧ s'.pendOk ≠ PROG_PEND_MAGIC :=
  ⟨(hotSwap_swapped h).pend, (hotSwap_swapped h).pendOk⟩

theorem bootMain_unstaged (b : Build) (input : BootInput) (s : Sup) :
    (bootMain b input s).pend = s.pend ∧ (bootMain b input s).pendOk ≠ PROG_PEND_MAGIC := by
  have hrestore : ∀ (s : Sup) (k : Fin 2),
      (restoreSlot b s k).pend = s.pend ∧ (restoreSlot b s k).pendOk = s.pendOk := by
    intro s k
    unfold restoreSlot
    dsimp only
    split
    · exact ⟨rfl, rfl⟩
    · split <;> exact ⟨rfl, rfl⟩
  have hload : ∀ s : Sup, (loadProgram b s).pend = s.pend := by
    intro s
    unfold loadProgram
    dsimp only
    split
    · rfl
    · split
      · rfl
      · split
        · rfl
        · split <;> rfl
  have hframe : ∀ s : Sup, (uartLoad input.frame s).pend = s.pend := by
    intro s
    unfold uartLoad
    split <;> rfl
  have hstatus : ∀ s : Sup, (bootStatus b input s).pend = s.pend := by
    intro s
    unfold bootStatus
    dsimp only
    split <;> rfl
  have hrestored : ∀ s : Sup, (bootRestore b s).pend = s.pend ∧ (bootRestore b s).pendOk = s.pendOk :=
    fun s => ⟨(hrestore _ 1).1.trans (hrestore s 0).1, (hrestore _ 1).2.trans (hrestore s 0).2⟩
  obtain ⟨s₁, hpend, hok, hboot⟩ : ∃ s₁ : Sup, s₁.pend = s.pend ∧ s₁.pendOk = 0 ∧
      bootMain b input s = scheduleRound b (bootRestore b (natBuiltin b s₁)) := by
    unfold bootMain
    simp only [bootGate_eq_zero, ne_eq, not_true_eq_false, if_false]
    generalize bootFuzz 2048 = fuzz
    refine ⟨_, ?_, ?_, rfl⟩
    · exact (hload _).trans ((hframe _).trans (hstatus _))
    · rfl
  have hround := scheduleRound_carried b (bootRestore b (natBuiltin b s₁))
  obtain ⟨hpend₁, hok₁⟩ := hrestored (natBuiltin b s₁)
  rw [hboot]
  constructor
  · exact (congrArg Carried.pend hround).trans (hpend₁.trans hpend)
  · have hzero : (scheduleRound b (bootRestore b (natBuiltin b s₁))).pendOk = 0 :=
      (congrArg Carried.pendOk hround).trans (hok₁.trans hok)
    rw [hzero]
    decide

theorem machineStep_decided {b : Build} {s s' : Sup} {e : Event} (he : e.Spares)
    (h : machineStep b s e = some s') : Decided s e s' := by
  cases machineStep_moved h with
  | turn seen frame s' hctl hturn =>
    obtain ⟨s₁, hs₁, rfl⟩ := Option.map_eq_some_iff.mp hturn
    obtain ⟨hpend, hok⟩ := chanPoll_spares he s
    obtain ⟨hpend₁, hok₁⟩ := hotSwap_decided hs₁
    obtain ⟨hpend₂, hok₂⟩ := hotUpdateFinalize_window s₁
    have hend := endTurn_carried b seen (chanPoll frame s).1 (hotUpdateFinalize s₁)
    have hendPend : (endTurn b seen (chanPoll frame s).1 (hotUpdateFinalize s₁)).pend = s.pend :=
      (congrArg Carried.pend hend).trans (hpend₂.trans (hpend₁.trans hpend))
    have hendOk : (endTurn b seen (chanPoll frame s).1 (hotUpdateFinalize s₁)).pendOk ≠
        PROG_PEND_MAGIC := by
      rw [show (endTurn b seen (chanPoll frame s).1 (hotUpdateFinalize s₁)).pendOk = _ from
        congrArg Carried.pendOk hend]
      show (hotUpdateFinalize s₁).pendOk ≠ PROG_PEND_MAGIC
      rw [hok₂]
      exact hok₁
    refine ⟨hendPend, ?_⟩
    dsimp only [decisions]
    rw [hpend, hok]
    split
    · next hmagic => exact .inr ⟨rfl, hmagic, hendOk⟩
    · exact .inl ⟨rfl, .inr hendOk⟩
  | swap s' _ hswap =>
    obtain ⟨hpend, hok⟩ := hotSwap_decided hswap
    refine ⟨hpend, ?_⟩
    dsimp only [decisions]
    split
    · next hmagic => exact .inr ⟨rfl, hmagic, hok⟩
    · exact .inl ⟨rfl, .inr hok⟩
  | poll frame =>
    obtain ⟨hpend, hok⟩ := chanPoll_spares he s
    exact ⟨hpend, .inl ⟨rfl, .inl hok⟩⟩
  | finalize =>
    obtain ⟨hpend, hok⟩ := hotUpdateFinalize_window s
    exact ⟨hpend, .inl ⟨rfl, .inl hok⟩⟩
  | stage => exact absurd he id
  | reset area input =>
    obtain ⟨hpend, hok⟩ := bootMain_unstaged b input { s with progArea := area }
    exact ⟨hpend, .inl ⟨rfl, .inr hok⟩⟩
  | _ =>
    have hcarried := machineStep_carries rfl h
    exact ⟨hcarried.pend, .inl ⟨rfl, .inl hcarried.pendOk⟩⟩

/-! ## The invariant -/

/-- How often the magic can still be decided on, or has been. -/
def StageLink.tokens (l : StageLink) : Nat :=
  l.decided.length + (if l.dev.pendOk = PROG_PEND_MAGIC then 1 else 0) + l.flight.count armWord

/-- The magic went out. -/
def StagePc.sent : StagePc → Bool
  | .returned => true
  | _ => false

/-- What the host knows of the window. -/
def StagePc.Knows (full : List PendWord) (pend : Mem) : StagePc → Prop
  | .write _ todo => ∀ w ∈ todo, w ∈ full
  | .verify _ todo bad =>
    (∀ w ∈ bad, w ∈ full) ∧ ∃ done, full = done ++ todo ∧ ∀ w ∈ done, w ∈ bad ∨ Held pend w
  | .arm => ∀ w ∈ full, Held pend w
  | .returned => ∀ w ∈ full, Held pend w
  | _ => True

structure StageInv (full : List PendWord) (l : StageLink) : Prop where
  flight : ∀ w ∈ l.flight, w ∈ full ∨ w.offset = PROG_PEND_MAGIC_OFF
  knows : l.pc.Knows full l.dev.pend
  early : l.pc.sent = false → l.tokens = 0
  once : l.tokens ≤ 1
  whole : ∀ m ∈ l.decided, ∀ w ∈ full, Held m w

/-- Words that stay where they are keep what the host knows. -/
theorem StagePc.Knows.mono {full : List PendWord} {pend pend' : Mem} {pc : StagePc}
    (h : pc.Knows full pend) (hheld : ∀ w ∈ full, Held pend w → Held pend' w) :
    pc.Knows full pend' := by
  cases pc with
  | verify round todo bad =>
    obtain ⟨hbad, done, rfl, hdone⟩ := h
    refine ⟨hbad, done, rfl, fun w hw => (hdone w hw).imp_right (hheld w ?_)⟩
    exact List.mem_append_left _ hw
  | arm => exact fun w hw => hheld w hw (h w hw)
  | returned => exact fun w hw => hheld w hw (h w hw)
  | _ => exact h

section Invariant
variable {data : List U8}

/-- A word lands. -/
theorem StageInv.land {l : StageLink} (h : StageInv (dataWords data) l) {i : Nat} {w : PendWord}
    (hi : l.flight[i]? = some w) :
    StageInv (dataWords data) { l with dev := l.dev.poke w, flight := l.flight.eraseIdx i } := by
  have hw : w ∈ l.flight := List.mem_of_getElem? hi
  have hheld : ∀ w' ∈ dataWords data, Held l.dev.pend w' → Held (l.dev.poke w).pend w' :=
    fun w' hw' hh => hh.poke hw' (h.flight w hw)
  -- a magic that lands was on the way
  have htokens : StageLink.tokens { l with
      dev := l.dev.poke w, flight := l.flight.eraseIdx i } ≤ l.tokens := by
    have herased := (List.getElem_cons_eraseIdx_perm (List.getElem?_eq_some_iff.mp hi).1).count_eq
      armWord
    rw [(List.getElem?_eq_some_iff.mp hi).2, List.count_cons] at herased
    unfold StageLink.tokens Sup.poke
    dsimp only
    split
    · by_cases harm : w = armWord
      · rw [if_pos (beq_iff_eq.mpr harm)] at herased
        split <;> split <;> omega
      · -- any other word there takes the magic away
        next hoff =>
        have hword : w.word ≠ PROG_PEND_MAGIC := fun hmagic => harm (by
          cases w
          exact congrArg₂ PendWord.mk hoff hmagic)
        rw [if_neg (fun hb => harm (beq_iff_eq.mp hb))] at herased
        rw [if_neg hword]
        omega
    · dsimp only
      split at herased <;> omega
  refine ⟨fun w' hw' => ?_, h.knows.mono hheld, fun hsent => ?_, htokens.trans h.once, h.whole⟩
  · exact h.flight w' (List.mem_of_mem_eraseIdx hw')
  · have hearly := h.early hsent
    omega

/-- A word is lost. -/
theorem StageInv.lose {l : StageLink} (h : StageInv (dataWords data) l) (i : Nat) :
    StageInv (dataWords data) { l with flight := l.flight.eraseIdx i } := by
  have htokens : StageLink.tokens { l with flight := l.flight.eraseIdx i } ≤ l.tokens := by
    have hcount : (l.flight.eraseIdx i).count armWord ≤ l.flight.count armWord :=
      (List.eraseIdx_sublist l.flight i).count_le armWord
    unfold StageLink.tokens
    dsimp only
    omega
  refine ⟨fun w hw => ?_, h.knows, fun hsent => ?_, htokens.trans h.once, h.whole⟩
  · exact h.flight w (List.mem_of_mem_eraseIdx hw)
  · have hearly := h.early hsent
    omega

/-- The board runs on. -/
theorem StageInv.device {l : StageLink} (h : StageInv (dataWords data) l) {e : Event} {dev : Sup}
    (hdev : Decided l.dev e dev) :
    StageInv (dataWords data) { l with dev := dev, decided := l.decided ++ decisions l.dev e } := by
  have hpend : dev.pend = l.dev.pend := hdev.pend
  have hknows : l.pc.Knows (dataWords data) dev.pend := by
    rw [hpend]
    exact h.knows
  rcases hdev.spent with ⟨hnone, hok⟩ | ⟨hone, hmagic, hspent⟩
  · have htokens : StageLink.tokens { l with
        dev := dev, decided := l.decided ++ decisions l.dev e } ≤ l.tokens := by
      unfold StageLink.tokens
      dsimp only
      rw [hnone, List.append_nil]
      rcases hok with hok | hok
      · rw [hok]
      · rw [if_neg hok]
        omega
    refine ⟨h.flight, hknows, fun hsent => ?_, htokens.trans h.once, fun m hm => ?_⟩
    · have hearly := h.early hsent
      omega
    · rw [hnone, List.append_nil] at hm
      exact h.whole m hm
  · have htokens : StageLink.tokens { l with
        dev := dev, decided := l.decided ++ decisions l.dev e } = l.tokens := by
      unfold StageLink.tokens
      dsimp only
      rw [hone, if_neg hspent, if_pos hmagic, List.length_append, List.length_singleton]
    -- the magic is there, so the host was through
    have hsent : l.pc.sent = true := by
      by_contra hnot
      have hearly := h.early (Bool.eq_false_of_not_eq_true hnot)
      unfold StageLink.tokens at hearly
      rw [if_pos hmagic] at hearly
      omega
    refine ⟨h.flight, hknows, fun hs => ?_, htokens ▸ h.once, fun m hm => ?_⟩
    · exact absurd (hs.symm.trans hsent) Bool.false_ne_true
    · rcases List.mem_append.mp hm with hm | hm
      · exact h.whole m hm
      · rw [hone] at hm
        rw [List.mem_singleton.mp hm]
        have hknows := h.knows
        generalize l.pc = pc at hsent hknows
        cases pc with
        | returned => exact hknows
        | _ => cases hsent

variable (hlen : data.length ≤ PROG_PEND_MAGIC_OFF)
include hlen

/-- No word of the image is the magic. -/
theorem count_armWord {ws : List PendWord} (h : ∀ w ∈ ws, w ∈ dataWords data) :
    ws.count armWord = 0 := by
  refine List.count_eq_zero.mpr fun hmem => ?_
  exact Nat.lt_irrefl _ (dataWords_below hlen (h _ hmem))

/-- A host that has not sent the magic keeps the invariant with words of the
    image. -/
theorem StageInv.send {l : StageLink} (h : StageInv (dataWords data) l) (hl : l.pc.sent = false)
    {pc : StagePc} {sent : List PendWord}
    (hsent : ∀ w ∈ sent, w ∈ dataWords data) (hknows : pc.Knows (dataWords data) l.dev.pend) :
    StageInv (dataWords data) { l with pc := pc, flight := l.flight ++ sent } := by
  have htokens : StageLink.tokens { l with pc := pc, flight := l.flight ++ sent } = 0 := by
    have hearly := h.early hl
    have hnone := count_armWord hlen hsent
    unfold StageLink.tokens at hearly ⊢
    rw [List.count_append]
    dsimp only
    omega
  refine ⟨fun w hw => ?_, hknows, fun _ => htokens, by omega, h.whole⟩
  rcases List.mem_append.mp hw with hw | hw
  · exact h.flight w hw
  · exact .inl (hsent w hw)

/-- The host moves on. -/
theorem StageInv.host {l : StageLink} (h : StageInv (dataWords data) l) {shown : Bool}
    {pc : StagePc} {sent : List PendWord}
    (hstep : stageHost (dataWords data) l.dev.pend shown l.pc = some (pc, sent)) :
    StageInv (dataWords data) { l with pc := pc, flight := l.flight ++ sent } := by
  have hknows := h.knows
  generalize hl : l.pc = pc₀ at hstep hknows
  unfold stageHost at hstep
  split at hstep <;> (try split at hstep) <;> cases hstep
  · -- the window is invalidated
    have hearly := h.early (by rw [hl]; rfl)
    have htokens : StageLink.tokens { l with
        pc := .write 0 (dataWords data), flight := l.flight ++ [clearWord] } = 0 := by
      have hnone : [clearWord].count armWord = 0 := by decide
      unfold StageLink.tokens at hearly ⊢
      rw [List.count_append]
      dsimp only
      omega
    refine ⟨fun w hw => ?_, fun w hw => hw, fun _ => htokens, by omega, h.whole⟩
    rcases List.mem_append.mp hw with hw | hw
    · exact h.flight w hw
    · rw [List.mem_singleton.mp hw]
      exact .inr rfl
  · -- all written: read back from the start
    refine h.send hlen (by rw [hl]; rfl) (List.forall_mem_nil _) ?_
    exact ⟨List.forall_mem_nil _, [], rfl, List.forall_mem_nil _⟩
  · -- the next word
    next round w todo =>
    refine h.send hlen (by rw [hl]; rfl) ?_ ?_
    · intro w' hw'
      rw [List.mem_singleton.mp hw']
      exact hknows w List.mem_cons_self
    · exact fun w' hw' => hknows w' (List.mem_cons_of_mem w hw')
  · -- a word that reads back
    next round w todo bad hread =>
    obtain ⟨hbad, done, hdone, hheld⟩ := hknows
    refine h.send hlen (by rw [hl]; rfl) (List.forall_mem_nil _) ?_
    refine ⟨hbad, done ++ [w], by rw [hdone, List.append_assoc]; rfl, fun w' hw' => ?_⟩
    rcases List.mem_append.mp hw' with hw' | hw'
    · exact hheld w' hw'
    · rw [List.mem_singleton.mp hw']
      exact .inr hread.2
  · -- a word that does not
    next round w todo bad hread =>
    obtain ⟨hbad, done, hdone, hheld⟩ := hknows
    refine h.send hlen (by rw [hl]; rfl) (List.forall_mem_nil _) ?_
    have hw : w ∈ dataWords data := by
      rw [hdone]
      exact List.mem_append_right _ List.mem_cons_self
    refine ⟨fun w' hw' => ?_, done ++ [w], by rw [hdone, List.append_assoc]; rfl, fun w' hw' => ?_⟩
    · rcases List.mem_append.mp hw' with hw' | hw'
      · exact hbad w' hw'
      · rw [List.mem_singleton.mp hw']
        exact hw
    · rcases List.mem_append.mp hw' with hw' | hw'
      · exact (hheld w' hw').imp_left fun hb => List.mem_append_left _ hb
      · exact .inl (List.mem_append_right _ hw')
  · -- every word read back
    obtain ⟨-, done, hdone, hheld⟩ := hknows
    refine h.send hlen (by rw [hl]; rfl) (List.forall_mem_nil _) ?_
    intro w hw
    rw [hdone, List.append_nil] at hw
    exact (hheld w hw).resolve_left (List.not_mem_nil)
  · -- another round, for the wrong ones
    exact h.send hlen (by rw [hl]; rfl) (List.forall_mem_nil _) hknows.1
  · -- four rounds were not enough
    exact h.send hlen (by rw [hl]; rfl) (List.forall_mem_nil _) trivial
  · -- the magic goes out, once
    have hearly := h.early (by rw [hl]; rfl)
    have htokens : StageLink.tokens { l with pc := .returned, flight := l.flight ++ [armWord] } =
        1 := by
      have hone : [armWord].count armWord = 1 := by decide
      unfold StageLink.tokens at hearly ⊢
      rw [List.count_append]
      dsimp only
      omega
    refine ⟨fun w hw => ?_, hknows, fun hc => absurd hc.symm Bool.false_ne_true, by omega, h.whole⟩
    rcases List.mem_append.mp hw with hw | hw
    · exact h.flight w hw
    · rw [List.mem_singleton.mp hw]
      exact .inr rfl

/-- **Every step keeps the invariant.** -/
theorem stageInv_step {b : Build} {l l' : StageLink} {e : StageEvent}
    (h : StageInv (dataWords data) l) (he : e.Spares)
    (hstep : stageStep b (dataWords data) l e = some l') : StageInv (dataWords data) l' := by
  cases e with
  | host shown =>
    obtain ⟨⟨pc, sent⟩, hhost, rfl⟩ := Option.map_eq_some_iff.mp hstep
    exact h.host hlen hhost
  | land i =>
    obtain ⟨w, hw, rfl⟩ := Option.map_eq_some_iff.mp hstep
    exact h.land hw
  | lose i =>
    cases hstep
    exact h.lose i
  | device e =>
    obtain ⟨dev, hdev, rfl⟩ := Option.map_eq_some_iff.mp hstep
    exact h.device (machineStep_decided he hdev)

theorem stageInv_reachable {b : Build} {l : StageLink} (h : Reachable (stageSystem b data) l) :
    StageInv (dataWords data) l := by
  refine h.invariant (I := StageInv (dataWords data)) ?_ ?_
  · rintro ⟨dev, pc, flight, decided⟩ ⟨hpc, hflight, hdecided, hok⟩
    dsimp only at hpc hflight hdecided hok
    subst hpc hflight hdecided
    have htokens : StageLink.tokens ⟨dev, .clear, [], []⟩ = 0 := by
      simp [StageLink.tokens, hok]
    exact ⟨List.forall_mem_nil _, trivial, fun _ => htokens, by omega, List.forall_mem_nil _⟩
  · rintro l e l' hinv ⟨he, hstep⟩
    exact stageInv_step hlen hinv he hstep

end Invariant

/-- **Never half an image.** A call of `_stage`, for an image that fits in
    front of the magic, begins when the magic is not set and no word of an
    earlier call is on the way, and nobody else stages meanwhile: no
    program, native or update frame comes in and no other tool writes the
    window.  In every run of such a call against a board that keeps running,
    whatever writes the link delays or loses: while the magic is set the
    window holds the whole image, `hot_swap` decides on nothing else, it
    decides at most once, and not at all once the call has raised. -/
theorem stage_decidesWhole {b : Build} {body : List U8}
    (hlen : body.length + 32 ≤ PROG_PEND_MAGIC_OFF) {l : StageLink}
    (h : Reachable (stageSystem b (signedBytes body)) l) :
    (l.dev.pendOk = PROG_PEND_MAGIC → WindowHolds l.dev.pend (signedBytes body)) ∧
    (∀ m ∈ l.decided, WindowHolds m (signedBytes body)) ∧
    l.decided.length ≤ 1 ∧
    (l.pc = .raised → l.decided = [] ∧ l.dev.pendOk ≠ PROG_PEND_MAGIC) := by
  have hinv := stageInv_reachable (by rw [length_signedBytes]; exact hlen) h
  have honce := hinv.once
  have hearly := hinv.early
  unfold StageLink.tokens at honce hearly
  refine ⟨fun hmagic => windowHolds_of_held ?_, fun m hm => windowHolds_of_held (hinv.whole m hm),
    by omega, fun hraised => ?_⟩
  · have hknows := hinv.knows
    rw [if_pos hmagic] at hearly
    -- only a call that was through has sent the magic
    cases hpc : l.pc with
    | returned =>
      rw [hpc] at hknows
      exact hknows
    | _ =>
      have hzero := hearly (by rw [hpc]; rfl)
      omega
  · have hzero := hearly (by rw [hraised]; rfl)
    refine ⟨List.length_eq_zero_iff.mp (by omega), fun hmagic => ?_⟩
    rw [if_pos hmagic] at hzero
    omega

/-! ## A call that comes through -/

section Delivers
variable {b : Build} {data : List U8} {round : Nat} {late : List PendWord} {decided : List Mem}

/-- A word that is sent and lands, behind others that are late. -/
theorem stage_delivers (shown : Bool) {dev : Sup} {pc pc' : StagePc} {w : PendWord}
    (h : Reachable (stageSystem b data) ⟨dev, pc, late, decided⟩)
    (hhost : stageHost (dataWords data) dev.pend shown pc = some (pc', [w])) :
    Reachable (stageSystem b data) ⟨dev.poke w, pc', late, decided⟩ := by
  have hsent : Reachable (stageSystem b data) ⟨dev, pc', late ++ [w], decided⟩ := by
    refine h.step (.host shown) ⟨trivial, ?_⟩
    dsimp only [stageStep]
    rw [hhost]
    rfl
  refine hsent.step (.land late.length) ⟨trivial, ?_⟩
  dsimp only [stageStep]
  rw [List.getElem?_concat_length, List.eraseIdx_append_of_length_le (Nat.le_refl _), Nat.sub_self,
    List.eraseIdx_cons_zero, List.append_nil]
  rfl

/-- The host moves on without a word. -/
theorem stage_moves (shown : Bool) {dev : Sup} {pc pc' : StagePc}
    (h : Reachable (stageSystem b data) ⟨dev, pc, late, decided⟩)
    (hhost : stageHost (dataWords data) dev.pend shown pc = some (pc', [])) :
    Reachable (stageSystem b data) ⟨dev, pc', late, decided⟩ := by
  refine h.step (.host shown) ⟨trivial, ?_⟩
  dsimp only [stageStep]
  rw [hhost, Option.map_some, List.append_nil]

/-- Every word reads back. -/
theorem stage_verifies {dev : Sup} {bad : List PendWord} (todo : List PendWord)
    (h : Reachable (stageSystem b data) ⟨dev, .verify round todo bad, late, decided⟩)
    (hheld : ∀ w ∈ todo, Held dev.pend w) :
    Reachable (stageSystem b data) ⟨dev, .verify round [] bad, late, decided⟩ := by
  induction todo with
  | nil => exact h
  | cons w todo ih =>
    have hread : true = true ∧ le32 dev.pend w.offset = w.word := ⟨rfl, hheld w List.mem_cons_self⟩
    refine ih (stage_moves true h ?_) fun w' hw' => hheld w' (List.mem_cons_of_mem w hw')
    exact if_pos hread

/-- A dump that does not show the first word has the host write it again. -/
theorem stage_misses {dev : Sup} {w : PendWord} {ws : List PendWord}
    (hwords : dataWords data = w :: ws) (hround : round + 1 < 4)
    (h : Reachable (stageSystem b data) ⟨dev, .write round [], late, decided⟩)
    (hheld : ∀ w' ∈ ws, Held dev.pend w') :
    Reachable (stageSystem b data) ⟨dev, .write (round + 1) [w], late, decided⟩ := by
  have hverify : Reachable (stageSystem b data)
      ⟨dev, .verify round (w :: ws) [], late, decided⟩ := by
    rw [← hwords]
    exact stage_moves true h rfl
  have hbad : Reachable (stageSystem b data) ⟨dev, .verify round ws [w], late, decided⟩ := by
    refine stage_moves false hverify ?_
    have hwrong : ¬ (false = true ∧ le32 dev.pend w.offset = w.word) := fun h =>
      Bool.false_ne_true h.1
    unfold stageHost
    dsimp only
    rw [if_neg hwrong]
    rfl
  exact stage_moves true (stage_verifies ws hbad hheld) (if_pos hround)

variable (hlen : data.length ≤ PROG_PEND_MAGIC_OFF)
include hlen

/-- Every word of a round lands. -/
theorem stage_writes (ws todo : List PendWord) {dev : Sup}
    (h : Reachable (stageSystem b data) ⟨dev, .write round todo, late, decided⟩)
    (hws : ∀ w ∈ ws, w ∈ dataWords data) (hfull : ∀ w ∈ todo, w ∈ dataWords data)
    (htodo : ∀ w ∈ ws, w ∈ todo ∨ Held dev.pend w) :
    ∃ dev', Reachable (stageSystem b data) ⟨dev', .write round [], late, decided⟩ ∧
      (∀ w ∈ ws, Held dev'.pend w) ∧ dev'.ctl = dev.ctl := by
  induction todo generalizing dev with
  | nil => exact ⟨dev, h, fun w hw => (htodo w hw).resolve_left List.not_mem_nil, rfl⟩
  | cons w todo ih =>
    have hw : w ∈ dataWords data := hfull w List.mem_cons_self
    have hpoke : dev.poke w = { dev with pend := putLe32 dev.pend w.offset w.word } :=
      if_neg (dataWords_below hlen hw).ne
    have hlanded : Reachable (stageSystem b data) ⟨dev.poke w, .write round todo, late, decided⟩ :=
      stage_delivers true h rfl
    have hrest : ∀ w' ∈ ws, w' ∈ todo ∨ Held (dev.poke w).pend w' := by
      intro w' hw'
      rcases htodo w' hw' with hmem | hheld
      · rcases List.mem_cons.mp hmem with rfl | hmem
        · right
          rw [hpoke]
          exact le32_putLe32 _ _ _
        · exact .inl hmem
      · exact .inr (hheld.poke (hws w' hw') (.inl hw))
    obtain ⟨dev', hreach, hheld, hctl⟩ :=
      ih hlanded (fun w' hw' => hfull w' (List.mem_cons_of_mem w hw')) hrest
    rw [hpoke] at hctl
    exact ⟨dev', hreach, hheld, hctl⟩

/-- A round of words that all land is the last: `_stage` returns, and the
    magic is set. -/
theorem stage_ends (todo : List PendWord) {dev : Sup}
    (h : Reachable (stageSystem b data) ⟨dev, .write round todo, late, decided⟩)
    (hfull : ∀ w ∈ todo, w ∈ dataWords data)
    (htodo : ∀ w ∈ dataWords data, w ∈ todo ∨ Held dev.pend w) :
    ∃ dev', Reachable (stageSystem b data) ⟨dev', .returned, late, decided⟩ ∧
      dev'.pendOk = PROG_PEND_MAGIC ∧ dev'.ctl = dev.ctl := by
  obtain ⟨dev', hwritten, hheld, hctl⟩ :=
    stage_writes hlen (dataWords data) todo h (fun w hw => hw) hfull htodo
  have hverify : Reachable (stageSystem b data)
      ⟨dev', .verify round (dataWords data) [], late, decided⟩ :=
    stage_moves true hwritten rfl
  have harm : Reachable (stageSystem b data) ⟨dev', .arm, late, decided⟩ :=
    stage_moves true (stage_verifies _ hverify hheld) rfl
  exact ⟨dev'.poke armWord, stage_delivers true harm rfl, rfl, hctl⟩

/-- A link that holds the first word back until the magic is set, and loses
    it when it is written a second time: the third time it lands. -/
theorem stage_recovers (dev : Sup) {w : PendWord} {ws : List PendWord}
    (hok : dev.pendOk ≠ PROG_PEND_MAGIC) (hwords : dataWords data = w :: ws) :
    ∃ dev', Reachable (stageSystem b data) ⟨dev', .returned, [], []⟩ ∧
      dev'.pendOk = PROG_PEND_MAGIC ∧ dev'.ctl = dev.ctl := by
  have hw : w ∈ dataWords data := hwords ▸ List.mem_cons_self
  have hws : ∀ w' ∈ ws, w' ∈ dataWords data := fun w' hw' => hwords ▸ List.mem_cons_of_mem w hw'
  have hinit : Reachable (stageSystem b data) ⟨dev, .clear, [], []⟩ := .init ⟨rfl, rfl, rfl, hok⟩
  have hcleared : Reachable (stageSystem b data)
      ⟨dev.poke clearWord, .write 0 (w :: ws), [], []⟩ := by
    rw [← hwords]
    exact stage_delivers true hinit rfl
  -- the first word stays on the way
  have hsent : Reachable (stageSystem b data) ⟨dev.poke clearWord, .write 0 ws, [w], []⟩ :=
    hcleared.step (.host true) ⟨trivial, rfl⟩
  obtain ⟨dev₁, hwritten, hheld, hctl₁⟩ :=
    stage_writes hlen ws ws hsent hws hws fun w' hw' => .inl hw'
  have hagain : Reachable (stageSystem b data) ⟨dev₁, .write 1 [w], [w], []⟩ :=
    stage_misses hwords (by decide) hwritten hheld
  -- the second one is lost
  have hresent : Reachable (stageSystem b data) ⟨dev₁, .write 1 [], [w, w], []⟩ :=
    hagain.step (.host true) ⟨trivial, rfl⟩
  have hlost : Reachable (stageSystem b data) ⟨dev₁, .write 1 [], [w], []⟩ :=
    hresent.step (.lose 1) ⟨trivial, rfl⟩
  have hthird : Reachable (stageSystem b data) ⟨dev₁, .write 2 [w], [w], []⟩ :=
    stage_misses hwords (by decide) hlost hheld
  obtain ⟨dev₂, hended, hmagic, hctl₂⟩ := stage_ends hlen [w] hthird
    (fun w' hw' => List.mem_singleton.mp hw' ▸ hw) fun w' hw' => by
      rcases List.mem_cons.mp (hwords ▸ hw') with rfl | hw'
      · exact .inl (List.mem_singleton_self _)
      · exact .inr (hheld w' hw')
  -- and the one that was held back lands on the same value
  have hpoke : dev₂.poke w = { dev₂ with pend := putLe32 dev₂.pend w.offset w.word } :=
    if_neg (dataWords_below hlen hw).ne
  refine ⟨dev₂.poke w, hended.step (.land 0) ⟨trivial, rfl⟩, ?_, ?_⟩
  · rw [hpoke]
    exact hmagic
  · rw [hpoke]
    exact hctl₂.trans hctl₁

end Delivers

/-- The program `r0 = 1; exit`, staged over a link that holds a word back
    and loses one, and then decided on. -/
theorem stage_decidesWhole_return :
    ∃ l, Reachable (stageSystem (.pinning [imageSha (stageEbpfBody returnInsns)])
        (signedBytes (stageEbpfBody returnInsns))) l ∧
      (∀ m ∈ l.decided, WindowHolds m (signedBytes (stageEbpfBody returnInsns))) ∧
        l.decided.length = 1 ∧ l.dev.mon.progCnt = 2 := by
  obtain ⟨b, hb⟩ : ∃ b : Build, Build.pinning [imageSha (stageEbpfBody returnInsns)] = b := ⟨_, rfl⟩
  obtain ⟨data, hdata⟩ : ∃ data, signedBytes (stageEbpfBody returnInsns) = data := ⟨_, rfl⟩
  have hbody : (stageEbpfBody returnInsns).length + 32 ≤ PROG_PEND_MAGIC_OFF := by
    rw [length_stageEbpfBody]
    decide
  have hdlen : data.length = 56 := by
    rw [← hdata, length_signedBytes, length_stageEbpfBody]
    rfl
  obtain ⟨w, ws, hwords⟩ : ∃ w ws, dataWords data = w :: ws := by
    refine List.exists_cons_of_length_pos ?_
    rw [dataWords, List.length_map, List.length_range, hdlen]
    decide
  obtain ⟨dev, hstaged, hmagic, hctl⟩ := stage_recovers (b := b) (by rw [hdlen]; decide)
    { Sup.zeroed with ctl := .swept } (by decide) hwords
  have hadm : EbpfAdmitted b returnInsns :=
    hb ▸ ⟨by decide, by decide, List.mem_singleton.mpr rfl, by decide +kernel⟩
  rw [hb, hdata]
  subst hdata
  obtain ⟨hwhole, -⟩ := stage_decidesWhole hbody hstaged
  obtain ⟨s', hs', hinstalled, -⟩ := hotSwap_ebpf (b := b) (by decide) (hwhole hmagic) hmagic
  have hone : decisions dev .swap = [dev.pend] := by
    unfold decisions
    exact if_pos hmagic
  have hdecided : Reachable (stageSystem b (signedBytes (stageEbpfBody returnInsns)))
      ⟨s', .returned, [], [dev.pend]⟩ := by
    refine hstaged.step (.device .swap) ⟨trivial, ?_⟩
    have hswap : machineStep b dev .swap = some s' := by
      unfold machineStep
      dsimp only
      rw [hctl]
      exact hs'
    dsimp only [stageStep]
    rw [hswap, hone]
    rfl
  obtain ⟨-, hdecides, -, -⟩ := stage_decidesWhole hbody hdecided
  exact ⟨_, hdecided, hdecides, rfl, (hinstalled hadm).cnt.trans (by decide)⟩

end Interclus

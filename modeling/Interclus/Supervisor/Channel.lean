import Interclus.Supervisor.HotSwap

/-! # The Runtime Channel

    `chan_poll` and `tele_fault` of `modules/supervisor.c`: one assembled
    console frame per call.  The assembler owns transport validity; this
    side owns shape and policy, and moves nothing on a frame it drops. -/

namespace Interclus

open Words

/-- A frame the assembler completed: its type, its length, and the stage
    buffer it was written to. -/
structure ConsoleFrame where
  type : U8
  n : Nat
  stage : Mem

/-! ## One handler per frame type -/

/-- `FRAME_UPDATE`. -/
def pollUpdate (f : ConsoleFrame) (s : Sup) : Nat × Sup :=
  let r := updateProcess s.update f.stage f.n s.pend s.pendOk
  let s := { s with
    update := r.rx, pend := r.pend s.pend, pendOk := r.pendMagic s.pendOk }
  let s := updateSendReply r.reply s
  if r.ret ∧ r.reply.code = UPDATE_REPLY_STAGED then
    (5, { s with updateHload := s.status S_HLOAD, updateHrej := s.status S_HREJ })
  else (if r.ret then 6 else 0, s)

/-- Type 1, a program in boot layout. -/
def pollProgram (f : ConsoleFrame) (s : Sup) : Nat × Sup :=
  if f.n < 8 + SHA256_LEN ∨ le32 f.stage 0 ≠ PROG_MAGIC then (0, s)
  else
    let cnt := le32 f.stage 4
    if cnt = 0 ∨ IC_PROG_MAX_INSNS < cnt ∨ f.n ≠ 8 + cnt.toNat * 8 + SHA256_LEN then (0, s)
    else
      let pend := putLe32 s.pend 0 cnt
      let pend := putLe32 pend 4 PEND_EBPF
      (2, { s with
        pend := fun i => if 8 ≤ i ∧ i < f.n then f.stage i else pend i
        pendOk := PROG_PEND_MAGIC })

/-- Type 2, a mailbox image. -/
def pollSwarm (f : ConsoleFrame) (s : Sup) : Nat × Sup :=
  if f.n < 12 then (0, s)
  else
    let cnt := le32 f.stage 4
    if le32 f.stage 0 ≠ MO_SHU ∨ cnt = 0 ∨ MAX_SWARM < cnt ∨ f.n ≠ 8 + 42 * cnt.toNat then (0, s)
    else (1, { s with mailbox := memcpy s.mailbox f.stage f.n })

/-- The four bytes of a word, as they go on the wire. -/
def wordBytes (v : U32) : List U8 := (List.range 4).map (byteOf v)

/-- `FRAME_STATUS`: the whole guarded window goes back. -/
def pollStatus (f : ConsoleFrame) (s : Sup) : Nat × Sup :=
  if f.stage 0 ≠ 0 then (4, s)
  else (4, s.sendFrame FRAME_STATUS
    (wordBytes 0 ++ (List.range STATUS_WORDS).flatMap fun i => wordBytes (s.status i)))

/-- `FRAME_REARM`: the operator clears an eviction. -/
def pollRearm (f : ConsoleFrame) (s : Sup) : Nat × Sup :=
  if f.n ≠ 4 then (0, s)
  else
    let slot := le32 f.stage 0
    let k := slotOf slot
    if 1 < slot ∨ ¬ (s.nat k).valid then (3, s.sendFrame FRAME_REARM (bytesAt f.stage 0 4))
    else
      let s := { s.setNat k { s.nat k with evicted := false } with
        natLive := k, natRetired := false }
      let s := (s.setStatus S_NSLOT slot).incStatus S_REARM
      (3, s.sendFrame FRAME_REARM (bytesAt f.stage 0 4))

/-- Type 3, a native staging image. -/
def pollNative (f : ConsoleFrame) (s : Sup) : Nat × Sup :=
  if f.n < 16 ∨ 0x200 < f.n then (0, s)
  else (2, { s with pend := memcpy s.pend f.stage f.n, pendOk := PROG_PEND_MAGIC })

/-- `chan_poll`: the event it reports, and the state it leaves. -/
def chanPoll (frame : Option ConsoleFrame) (s : Sup) : Nat × Sup :=
  match frame with
  | none => (0, s)
  | some f =>
    if f.n = 0 then (0, s)
    else if f.type = FRAME_UPDATE then pollUpdate f s
    else if f.type = 1 then pollProgram f s
    else if f.type = 2 then pollSwarm f s
    else if f.type = FRAME_STATUS then pollStatus f s
    else if f.type = FRAME_REARM then pollRearm f s
    else if f.type = 3 then pollNative f s
    else (0, s)

/-! ## What a frame does -/

/-- A frame that reaches `update_process`. -/
def IsCommand (f : ConsoleFrame) : Prop := f.n ≠ 0 ∧ f.type = FRAME_UPDATE

/-- A type 1 frame that `chan_poll` stages. -/
structure ProgramFrame (f : ConsoleFrame) : Prop where
  type : f.type = 1
  magic : le32 f.stage 0 = PROG_MAGIC
  cnt_ne : le32 f.stage 4 ≠ 0
  cnt_le : le32 f.stage 4 ≤ IC_PROG_MAX_INSNS
  len : f.n = 8 + (le32 f.stage 4).toNat * 8 + SHA256_LEN

/-- A type 3 frame that `chan_poll` stages. -/
structure NativeFrame (f : ConsoleFrame) : Prop where
  type : f.type = 3
  len_ge : 16 ≤ f.n
  len_le : f.n ≤ 0x200

/-- The bytes a frame stages: a program gets the header of the staging
    window, a native image is taken verbatim. -/
def stagedBytes (f : ConsoleFrame) : Mem :=
  if f.type = 1 then putLe32 (putLe32 f.stage 0 (le32 f.stage 4)) 4 PEND_EBPF else f.stage

/-- What polling a frame leaves. -/
inductive FramePolled (f : ConsoleFrame) (s : Sup) : Nat × Sup → Prop
  /-- It is ignored, or only answered. -/
  | quiet (ev : Nat) (tx : List TxFrame) : FramePolled f s (ev, { s with tx := tx })
  | command : IsCommand f → FramePolled f s (pollUpdate f s)
  | staged : ProgramFrame f ∨ NativeFrame f →
      FramePolled f s (2, { s with
        pend := memcpy s.pend (stagedBytes f) f.n, pendOk := PROG_PEND_MAGIC })
  | swarm : FramePolled f s (1, { s with mailbox := memcpy s.mailbox f.stage f.n })
  | rearmed (tx : List TxFrame) : f.type = FRAME_REARM → f.n = 4 → le32 f.stage 0 ≤ 1 →
      (s.nat (slotOf (le32 f.stage 0))).valid = true →
      FramePolled f s (3,
        { (({ s.setNat (slotOf (le32 f.stage 0))
                { s.nat (slotOf (le32 f.stage 0)) with evicted := false } with
              natLive := slotOf (le32 f.stage 0), natRetired := false }).setStatus S_NSLOT
            (le32 f.stage 0)).incStatus S_REARM with tx := tx })

theorem memcpy_program (m stage : Mem) (cnt kind : U32) {n : Nat} (hn : 8 ≤ n) :
    (fun i => if 8 ≤ i ∧ i < n then stage i else putLe32 (putLe32 m 0 cnt) 4 kind i) =
      memcpy m (putLe32 (putLe32 stage 0 cnt) 4 kind) n := by
  funext i
  unfold memcpy putLe32
  by_cases h8 : 8 ≤ i
  · -- behind the header both are the frame, as far as it goes
    have h4 : ¬ (4 ≤ i ∧ i < 4 + 4) := by omega
    have h0 : ¬ (0 ≤ i ∧ i < 0 + 4) := by omega
    simp only [if_neg h4, if_neg h0, h8, true_and]
  · have hin : i < n := by omega
    have hout : ¬ (8 ≤ i ∧ i < n) := by omega
    by_cases h4 : i < 4
    · have h0 : 0 ≤ i ∧ i < 0 + 4 := by omega
      simp only [if_neg hout, if_pos hin, if_pos h0]
    · have h4 : 4 ≤ i ∧ i < 4 + 4 := by omega
      simp only [if_neg hout, if_pos hin, if_pos h4]

/-- **Inversion.** `chan_poll` does one of these with a frame. -/
theorem framePolled (f : ConsoleFrame) (s : Sup) : FramePolled f s (chanPoll (some f) s) := by
  unfold chanPoll
  dsimp only
  split
  · exact .quiet 0 s.tx
  next hn =>
  split
  · next htype => exact .command ⟨hn, htype⟩
  split
  · next htype =>
    unfold pollProgram
    split
    · exact .quiet 0 s.tx
    -- the shape checks of a program, one after the other
    · next hmagic =>
      rw [not_or, not_not] at hmagic
      dsimp only
      split
      · exact .quiet 0 s.tx
      · next hcnt =>
        rw [not_or, not_or, not_not, BitVec.not_lt] at hcnt
        have hstaged : stagedBytes f = _ := if_pos htype
        rw [memcpy_program s.pend f.stage _ _ (by omega), ← hstaged]
        exact .staged (.inl ⟨htype, hmagic.2, hcnt.1, hcnt.2.1, hcnt.2.2⟩)
  split
  · unfold pollSwarm
    dsimp only
    split
    · exact .quiet 0 s.tx
    · split
      · exact .quiet 0 s.tx
      · exact .swarm
  split
  · unfold pollStatus
    split
    · exact .quiet 4 s.tx
    · exact .quiet 4 _
  split
  · next htype =>
    unfold pollRearm
    split
    · exact .quiet 0 s.tx
    · next hlen =>
      dsimp only
      split
      · exact .quiet 3 _
      · next hslot =>
        rw [not_or, not_not, BitVec.not_lt] at hslot
        exact .rearmed _ htype (not_not.mp hlen) hslot.1 hslot.2
  split
  · next htype =>
    unfold pollNative
    split
    · exact .quiet 0 s.tx
    · next hlen =>
      rw [not_or, Nat.not_lt, Nat.not_lt] at hlen
      have hstaged : stagedBytes f = f.stage := if_neg (by rw [htype]; decide)
      rw [← hstaged]
      exact .staged (.inr ⟨htype, hlen.1, hlen.2⟩)
  · exact .quiet 0 s.tx

/-! ## Fault telemetry -/

/-- `tele_fault`; `p[3]`, `p[14]` and `p[15]` are never written. -/
def teleFault (slot : Fin 2) (s : Sup) : Sup :=
  let i := if s.riIndex ≠ 0 then s.riIndex - 1 else 0
  let payload := [byteOf i 0, BitVec.ofNat 8 s.comp.curComp, BitVec.ofNat 8 slot, s.junk 3]
    ++ wordBytes (s.riCause i.toNat) ++ wordBytes (s.riAddr i.toNat)
    ++ [BitVec.ofNat 8 s.natLive, if s.natRetired then 1 else 0, s.junk 14, s.junk 15]
  match s.sendFrameLimited FRAME_TELE payload with
  | (true, s) => s
  | (false, s) => s.incStatus S_TXABORT

end Interclus

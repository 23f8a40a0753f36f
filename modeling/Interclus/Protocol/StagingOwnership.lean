import Interclus.Protocol.ConsoleTurns
import Interclus.Update.Integrity

/-! # Who Owns the Staging Window

    While a transaction is active the staging window holds the chunks it
    acknowledged, across rounds, other commands and every frame that stages
    nothing.  `chan_poll` refuses a BEGIN while the window is taken, but it
    stages type 1 and type 3 frames at any time: one of them over a
    half-finished transaction is the one way to lose what was acknowledged. -/

namespace Interclus

open Words LTS

/-! ## The system with its history -/

/-- A device, and the chunks acknowledged since the last accepted BEGIN. -/
structure Recorded where
  sup : Sup
  chunks : List (List U8)

instance (f : ConsoleFrame) : Decidable (IsCommand f) := inferInstanceAs (Decidable (_ ∧ _))

/-- The chunks acknowledged once `frame` is polled. -/
def chunksAfterPoll (s : Sup) (frame : Option ConsoleFrame) (chunks : List (List U8)) :
    List (List U8) :=
  match frame with
  | some f =>
    let r := updateProcess s.update f.stage f.n s.pend s.pendOk
    if ¬ IsCommand f then chunks
    else if opensTransaction s.update f.stage r then []
    else if deliversChunk s.update f.stage r then chunks ++ [chunkOf f.stage]
    else chunks
  | none => chunks

def chunksAfter (s : Sup) (e : Event) (chunks : List (List U8)) : List (List U8) :=
  match e with
  | .turn frame => chunksAfterPoll s frame chunks
  | .poll frame => chunksAfterPoll s frame chunks
  | _ => chunks

/-- The machine, with the chunks on record. -/
def recordedMachine (b : Build) : System Recorded Event where
  init o := (machine b).init o.sup ∧ o.chunks = []
  step o e o' := machineStep b o.sup e = some o'.sup ∧ o'.chunks = chunksAfter o.sup e o.chunks

/-- The frame is a BEGIN that opens a transaction. -/
def FrameOpens (s : Sup) (frame : Option ConsoleFrame) : Prop :=
  ∃ f ∈ frame, IsCommand f ∧
    opensTransaction s.update f.stage (updateProcess s.update f.stage f.n s.pend s.pendOk) = true

def Opens (s : Sup) : Event → Prop
  | .turn frame => FrameOpens s frame
  | .poll frame => FrameOpens s frame
  | _ => False

/-- The frame stages other bytes over what an active transaction received. -/
def FrameOverwrites (s : Sup) (frame : Option ConsoleFrame) : Prop :=
  s.update.state = .active ∧ ∃ f ∈ frame, (ProgramFrame f ∨ NativeFrame f) ∧
    ∃ i < s.update.received.toNat, i < f.n ∧ stagedBytes f i ≠ s.pend i

/-- So does a transport outside the console. -/
def Overwrites (s : Sup) : Event → Prop
  | .turn frame => FrameOverwrites s frame
  | .poll frame => FrameOverwrites s frame
  | .stage pend _ _ => s.update.state = .active ∧ ∃ i < s.update.received.toNat, pend i ≠ s.pend i
  | _ => False

/-! ## The window of an active transaction -/

/-- While active, the transaction receives `chunks` into `pend`. -/
def Owns (rx : UpdateRx) (pend : Mem) (chunks : List (List U8)) : Prop :=
  UpdateInv ⟨rx, pend, 0, rx.expectedSha, chunks⟩

theorem Owns.of_not_active {rx : UpdateRx} {pend : Mem} {chunks : List (List U8)}
    (h : rx.state ≠ .active) : Owns rx pend chunks := fun hact => absurd hact h

/-- Only the received prefix counts. -/
theorem Owns.of_prefix {rx : UpdateRx} {pend pend' : Mem} {chunks : List (List U8)}
    (h : Owns rx pend chunks)
    (hkept : rx.state = .active → ∀ i < rx.received.toNat, pend' i = pend i) :
    Owns rx pend' chunks := by
  intro hact
  have hr := h hact
  refine ⟨hr.total_ge, hr.total_le, hr.received_le, ?_, hr.count, hr.chunks_ne, rfl⟩
  refine Eq.trans (bytesAt_congr fun i hi => ?_) hr.bytes
  rw [Nat.zero_add]
  exact hkept hact i hi

/-- A command keeps the window, with the chunk it delivers. -/
theorem Owns.process {rx : UpdateRx} {pend : Mem} {chunks : List (List U8)}
    (h : Owns rx pend chunks) (p : Mem) (n : Nat) (magic : U32) :
    let r := updateProcess rx p n pend magic
    Owns r.rx (r.pend pend)
      (if opensTransaction rx p r then []
        else if deliversChunk rx p r then chunks ++ [chunkOf p] else chunks) := by
  intro r hact
  have hsys : UpdateInv ⟨rx, pend, magic, rx.expectedSha, chunks⟩ := fun hact => by
    have hr := h hact
    exact ⟨hr.total_ge, hr.total_le, hr.received_le, hr.bytes, hr.count, hr.chunks_ne, rfl⟩
  have hr := hsys.process p n hact
  exact ⟨hr.total_ge, hr.total_le, hr.received_le, hr.bytes, hr.count, hr.chunks_ne, rfl⟩

/-- A transaction is opened where none was active. -/
theorem not_active_of_opens {rx : UpdateRx} {p : Mem} {n : Nat} {pend : Mem} {magic : U32}
    (h : opensTransaction rx p (updateProcess rx p n pend magic) = true) :
    rx.state ≠ .active := by
  have hout := updateProcess_outcome rx p n pend magic
  generalize updateProcess rx p n pend magic = r at h hout
  obtain ⟨hret, hop, hother⟩ := of_decide_eq_true h
  have hops : UPDATE_OP_BEGIN ≠ UPDATE_OP_DATA ∧ UPDATE_OP_BEGIN ≠ UPDATE_OP_COMMIT ∧
      UPDATE_OP_BEGIN ≠ UPDATE_OP_ABORT := by decide
  cases hout with
  | refused => cases hret
  | hashFailed => cases hret
  | beginRepeat _ _ hidle hid => exact absurd ⟨hidle, hid⟩ hother
  | opened _ hst _ =>
    rcases hst with hst | ⟨hst, -⟩ <;> rw [hst] <;> decide
  | dataRepeat hd => exact absurd (hop.symm.trans hd.op) hops.1
  | extended hd => exact absurd (hop.symm.trans hd.op) hops.1
  | commitRepeat _ hc => exact absurd (hop.symm.trans hc.op) hops.2.1
  | staged hc => exact absurd (hop.symm.trans hc.op) hops.2.1
  | aborted hc => exact absurd (hop.symm.trans hc.op) hops.2.2

/-! ## Turns -/

theorem chunksAfterPoll_command {f : ConsoleFrame} (h : IsCommand f) (s : Sup)
    (chunks : List (List U8)) :
    chunksAfterPoll s (some f) chunks =
      (let r := updateProcess s.update f.stage f.n s.pend s.pendOk
       if opensTransaction s.update f.stage r then []
       else if deliversChunk s.update f.stage r then chunks ++ [chunkOf f.stage] else chunks) :=
  if_neg (not_not.mpr h)

theorem chunksAfterPoll_other {frame : Option ConsoleFrame} (h : ∀ f ∈ frame, ¬ IsCommand f)
    (s : Sup) (chunks : List (List U8)) : chunksAfterPoll s frame chunks = chunks := by
  cases frame with
  | none => rfl
  | some f => exact if_pos (h f rfl)

/-- A poll keeps the window, unless its frame overwrites it. -/
theorem owns_poll {frame : Option ConsoleFrame} {s : Sup} {chunks : List (List U8)}
    (h : Owns s.update s.pend chunks) (hframe : ¬ FrameOverwrites s frame) :
    Owns (chanPoll frame s).2.update (chanPoll frame s).2.pend (chunksAfterPoll s frame chunks) := by
  by_cases hcommand : ∃ f ∈ frame, IsCommand f
  · obtain ⟨f, rfl, hf⟩ := hcommand
    have hpoll := pollUpdate_polled f s
    rw [chanPoll_command hf, chunksAfterPoll_command hf, hpoll.update, hpoll.pend]
    exact h.process f.stage f.n s.pendOk
  · have hother : ∀ f ∈ frame, ¬ IsCommand f := fun f hf hc => hcommand ⟨f, hf, hc⟩
    rw [chunksAfterPoll_other hother]
    rcases chanPoll_other hother s with hun | ⟨f, hf, hstages, hupdate, hpend, -⟩
    · rw [hun.update, hun.pend]
      exact h
    · rw [hupdate, hpend]
      refine h.of_prefix fun hact i hi => ?_
      unfold memcpy
      split
      · next hin =>
        by_contra hne
        exact hframe ⟨hact, f, hf, hstages, i, hi, hin, hne⟩
      · rfl

/-- A BEGIN takes the window over. -/
theorem owns_opens {frame : Option ConsoleFrame} {s : Sup} (h : FrameOpens s frame)
    (chunks : List (List U8)) :
    Owns (chanPoll frame s).2.update (chanPoll frame s).2.pend (chunksAfterPoll s frame chunks) := by
  obtain ⟨f, rfl, hf, hopens⟩ := h
  have hidle := not_active_of_opens hopens
  exact owns_poll (.of_not_active hidle) fun hover => hidle hover.1

/-- What follows the poll of a turn leaves the window alone. -/
theorem owns_turn {b : Build} {seen : U32} {frame : Option ConsoleFrame} {s s' : Sup}
    {chunks : List (List U8)}
    (h : Owns (chanPoll frame s).2.update (chanPoll frame s).2.pend chunks)
    (hturn : serviceTurn b seen frame s = some s') : Owns s'.update s'.pend chunks := by
  obtain ⟨s₁, hs₁, rfl⟩ := Option.map_eq_some_iff.mp hturn
  have hswap := hotSwap_swapped hs₁
  rw [← hswap.update, ← hswap.pend] at h
  have hpend : (endTurn b seen (chanPoll frame s).1 (hotUpdateFinalize s₁)).pend =
      (hotUpdateFinalize s₁).pend := congrArg Carried.pend (endTurn_carried b seen _ _)
  rw [endTurn_update, hpend]
  rcases hotUpdateFinalize_cases s₁ with hfinal | ⟨ok, -, hfinal⟩ <;> rw [hfinal]
  · exact h
  · refine .of_not_active ?_
    rw [(settle_settled s₁ ok).1.update]
    exact nofun

/-- Step lemma: whatever overwrites nothing keeps the window. -/
theorem recorded_step {b : Build} {o o' : Recorded} {e : Event}
    (h : Owns o.sup.update o.sup.pend o.chunks) (hover : ¬ Overwrites o.sup e)
    (hstep : (recordedMachine b).step o e o') : Owns o'.sup.update o'.sup.pend o'.chunks := by
  obtain ⟨hmoved, hchunks⟩ := hstep
  rw [hchunks]
  generalize o'.sup = s' at hmoved
  by_cases he : e.carries = true
  · -- a round carries receiver and window along
    have hcarries := machineStep_carries he hmoved
    have hsame : chunksAfter o.sup e o.chunks = o.chunks := by
      cases e <;> first | rfl | cases he
    rw [hcarries.update, hcarries.pend, hsame]
    exact h
  cases machineStep_moved hmoved with
  | turn seen frame s' _ hturn => exact owns_turn (owns_poll h hover) hturn
  | poll frame => exact owns_poll h hover
  | swap s' _ hswap =>
    have hswapped := hotSwap_swapped hswap
    rw [hswapped.update, hswapped.pend]
    exact h
  | finalize =>
    rcases hotUpdateFinalize_cases o.sup with hfinal | ⟨ok, -, hfinal⟩ <;> rw [hfinal]
    · exact h
    · refine .of_not_active ?_
      rw [(settle_settled o.sup ok).1.update]
      exact nofun
  | stage pend pendOk mailbox =>
    refine h.of_prefix fun hact i hi => ?_
    by_contra hne
    exact hover ⟨hact, i, hi, hne⟩
  -- a boot forgets the transaction
  | reset area input =>
    refine .of_not_active ?_
    rw [bootMain_update]
    exact nofun
  | _ => exact absurd rfl he

/-- The step that opens the transaction. -/
theorem recorded_opens {b : Build} {o o' : Recorded} {e : Event} (h : Opens o.sup e)
    (hstep : (recordedMachine b).step o e o') : Owns o'.sup.update o'.sup.pend o'.chunks := by
  obtain ⟨hmoved, hchunks⟩ := hstep
  rw [hchunks]
  generalize o'.sup = s' at hmoved
  cases machineStep_moved hmoved with
  | turn seen frame s' _ hturn => exact owns_turn (owns_opens h o.chunks) hturn
  | poll frame => exact owns_opens h o.chunks
  | _ => exact h.elim

/-! ## The COMMIT -/

/-- With everything received, the digest of the window is the digest of the
    acknowledged chunks. -/
theorem Owns.sha {rx : UpdateRx} {pend : Mem} {chunks : List (List U8)} (h : Owns rx pend chunks)
    (hact : rx.state = .active) (hrec : rx.received = rx.total) :
    sha256 pend (rx.total.setWidth 32) = imageSha chunks.flatten := by
  have hr := h hact
  have hbytes := hr.bytes
  have htotal : rx.total.toNat ≤ 552 := hr.total_le
  dsimp only at hbytes
  rw [hrec] at hbytes
  have hlen : chunks.flatten.length = rx.total.toNat := by rw [← hbytes, length_bytesAt]
  have hwidth : rx.total.setWidth 32 = BitVec.ofNat 32 chunks.flatten.length := by
    apply BitVec.eq_of_toNat_eq
    rw [hlen, BitVec.toNat_setWidth, BitVec.toNat_ofNat]
  have hnat : (BitVec.ofNat 32 chunks.flatten.length).toNat = rx.total.toNat := by
    rw [hlen, BitVec.toNat_ofNat]
    exact Nat.mod_eq_of_lt (by omega)
  rw [hwidth]
  unfold imageSha
  refine sha256_congr (by omega) fun i hi => ?_
  rw [hnat] at hi
  have hlist : listMem chunks.flatten i = (bytesAt pend 0 rx.total.toNat).getD i 0 := by
    rw [hbytes]
    rfl
  rw [hlist]
  simp [bytesAt, hi]

/-- A COMMIT of everything that was announced stages it. -/
theorem Owns.commit {rx : UpdateRx} {pend : Mem} {chunks : List (List U8)} (h : Owns rx pend chunks)
    (hact : rx.state = .active) (hrec : rx.received = rx.total)
    (hsha : imageSha chunks.flatten = rx.expectedSha) {p : Mem} {n : Nat}
    (hcommit : ShortFrame UPDATE_OP_COMMIT rx p n) (magic : U32) :
    updateProcess rx p n pend magic =
      ⟨true, { rx with state := .staged }, [], some UPDATE_PEND_MAGIC,
        replySet rx UPDATE_REPLY_STAGED 0 (le32 p 1)⟩ := by
  have hdigest := (h.sha hact hrec).trans hsha
  rw [updateProcess_commit pend magic hcommit, hact, if_neg (by decide), if_neg (by decide),
    if_neg (not_not.mpr hrec), if_pos fun i => congrFun hdigest i]

/-! ## Whole runs -/

/-- The window holds the acknowledged chunks, and a COMMIT fails on its
    digest only if that of the acknowledged chunks is not the announced
    one. -/
structure OwnsStaging (o : Recorded) : Prop where
  bytes : bytesAt o.sup.pend 0 o.sup.update.received.toNat = o.chunks.flatten
  commit : ∀ f : ConsoleFrame, ShortFrame UPDATE_OP_COMMIT o.sup.update f.stage f.n →
    o.sup.update.received = o.sup.update.total →
    imageSha o.chunks.flatten = o.sup.update.expectedSha →
    (updateProcess o.sup.update f.stage f.n o.sup.pend o.sup.pendOk).reply.code =
      UPDATE_REPLY_STAGED

/-- **Ownership.** In every run from an accepted BEGIN, with any frames,
    rounds and calls of `hot_swap` in between, no one of which stages other
    bytes over what was received: as long as the transaction is active, the
    staging window holds exactly the chunks it acknowledged, and its COMMIT
    does not fail on their account. -/
theorem recorded_ownsStaging {b : Build} {o₀ o : Recorded} {e : Event} {es : List Event}
    (hopens : Opens o₀.sup e)
    (hrun : StepsFrom ((recordedMachine b).restrict fun o e => ¬ Overwrites o.sup e) o₀ (e :: es) o)
    (hact : o.sup.update.state = .active) : OwnsStaging o := by
  have howns : Owns o.sup.update o.sup.pend o.chunks := by
    cases hrun with
    | cons _ _ hstep hrest =>
      refine hrest.invariant (I := fun o => Owns o.sup.update o.sup.pend o.chunks) ?_
        (recorded_opens hopens hstep.2)
      exact fun o e o' h hstep => recorded_step h hstep.1 hstep.2
  refine ⟨(howns hact).bytes, fun f hcommit hrec hsha => ?_⟩
  rw [howns.commit hact hrec hsha hcommit]
  rfl

/-! ## An overwritten transfer -/

section Overwritten
variable {tid : U32} {image : List U8} {size : Nat}

/-- The BEGIN of a transfer opens its transaction. -/
theorem frameOpens_begin (htid : tid ≠ 0) (hge : 48 ≤ image.length) (hle : image.length ≤ 552)
    {s : Sup} (hidle : s.update.state = .idle) (hmagic : s.pendOk ≠ UPDATE_PEND_MAGIC) :
    FrameOpens s (some (updateFrame (beginFrame tid image))) := by
  have hbegin := beginFrame_begin htid hge hle
  refine ⟨_, rfl, ⟨?_, rfl⟩, ?_⟩
  · show (beginFrame tid image).length ≠ 0
    rw [hbegin.len]
    decide
  · have hproc : updateProcess s.update (updateFrame (beginFrame tid image)).stage
        (updateFrame (beginFrame tid image)).n s.pend s.pendOk = _ :=
      updateProcess_opens s.pend s.pendOk hbegin (.inl hidle) hmagic
    rw [hproc]
    exact decide_eq_true ⟨rfl, hbegin.op, fun h => h.1 hidle⟩

theorem chunkOf_chunkFrame (hsize : size ≤ 64) (k : Nat) :
    chunkOf (listMem (chunkFrame tid image size k)) = chunkData image size k := by
  obtain ⟨-, hlen, hbytes⟩ := chunkFrame_fields tid image size k
  have hdata : (chunkData image size k).length ≤ 64 := by simp [chunkData]; omega
  have hnat : (listMem (chunkFrame tid image size k) 9).toNat = (chunkData image size k).length := by
    rw [hlen, BitVec.toNat_ofNat]
    exact Nat.mod_eq_of_lt (by omega)
  have hself : bytesAt (listMem (chunkData image size k)) 0 (chunkData image size k).length =
      chunkData image size k := bytesAt_listMem fun _ _ => rfl
  unfold chunkOf
  rw [hnat, ← hself, length_bytesAt]
  unfold bytesAt
  refine List.map_congr_left fun i hi => ?_
  rw [hbytes i (List.mem_range.mp hi), Nat.zero_add]

/-- A chunk in its turn goes on record. -/
theorem chunksAfterPoll_chunk (hle : image.length ≤ 552) (hpos : 1 ≤ size) (hsize : size ≤ 64)
    {k : Nat} {s : Sup} (h : Transferred tid image size k s.receiver) (hk : k * size < image.length)
    (chunks : List (List U8)) :
    chunksAfterPoll s (some (updateFrame (chunkFrame tid image size k))) chunks =
      chunks ++ [chunkData image size k] := by
  have hd := chunkFrame_data h.active.txn h.active.state hle hpos hsize hk
  obtain ⟨hseq, hoff⟩ := h.expects hle hk
  have hlen : (chunkFrame tid image size k).length ≠ 0 := by
    rw [hd.len]
    omega
  have hproc : updateProcess s.update (updateFrame (chunkFrame tid image size k)).stage
      (updateFrame (chunkFrame tid image size k)).n s.pend s.pendOk = _ :=
    updateProcess_extends s.pend s.pendOk hd hseq hoff
  -- it is the next chunk, not a repeat of the last
  have hnew : (le16 (listMem (chunkFrame tid image size k)) 5).toNat + 1 ≠
      s.update.nextSeq.toNat := by
    rw [show le16 (listMem (chunkFrame tid image size k)) 5 = s.update.nextSeq from hseq]
    omega
  have hop : (updateFrame (chunkFrame tid image size k)).stage 0 = UPDATE_OP_DATA := hd.op
  have hopens : ∀ r, opensTransaction s.update (updateFrame (chunkFrame tid image size k)).stage r ≠
      true := fun r => by
    rw [not_opens_of_op (by rw [hop]; decide)]
    decide
  have hdelivers : ∀ r : UpdateStep, r.ret = true →
      deliversChunk s.update (updateFrame (chunkFrame tid image size k)).stage r = true :=
    fun r hret => decide_eq_true ⟨hret, hop, hnew⟩
  rw [chunksAfterPoll_command ⟨hlen, rfl⟩]
  dsimp only
  rw [hproc, if_neg (hopens _), if_pos (hdelivers _ rfl)]
  exact congrArg (fun c => chunks ++ [c]) (chunkOf_chunkFrame hsize k)

end Overwritten

/-- A type 3 frame of sixteen zero bytes. -/
def zeroFrame : ConsoleFrame := ⟨3, 16, fun _ => 0⟩

theorem zeroFrame_not_command : ¬ IsCommand zeroFrame := fun h => absurd h.2 (by decide)

/-- A turn that takes it stages it and refuses it. -/
theorem turn_zeroFrame {b : Build} {seen : U32} {s : Sup} (hctl : s.ctl = .service seen)
    (hstate : s.update.state = .active) :
    ∃ s', machineStep b s (.turn (some zeroFrame)) = some s' ∧ s'.update = s.update ∧
      s'.pend = memcpy s.pend (fun _ => 0) 16 := by
  have hpoll : chanPoll (some zeroFrame) s =
      (2, { s with pend := memcpy s.pend (fun _ => 0) 16, pendOk := PROG_PEND_MAGIC }) := rfl
  have hkind : pendKind (chanPoll (some zeroFrame) s).2.pend = 0 := by
    have hzero : pendKind (memcpy s.pend (fun _ => 0) 16) = le32 (fun _ => 0) 4 :=
      le32_congr fun k hk => if_pos (by omega)
    rw [hpoll, show pendKind _ = _ from hzero]
    decide
  -- no kind of module: `hot_swap` refuses it
  have hsome : hotSwap b (chanPoll (some zeroFrame) s).2 ≠ none := fun hnone => by
    have hnative := ((hotSwap_eq_none_iff _ _).mp hnone).kind
    rw [hkind] at hnative
    exact absurd hnative (by decide)
  obtain ⟨s₁, hs₁⟩ := Option.ne_none_iff_exists'.mp hsome
  have hswap := hotSwap_swapped hs₁
  have hactive : s₁.update.state ≠ .staged := by
    rw [hswap.update, hpoll, hstate]
    decide
  have hfinal : hotUpdateFinalize s₁ = s₁ := if_pos hactive
  refine ⟨endTurn b seen (chanPoll (some zeroFrame) s).1 (hotUpdateFinalize s₁), ?_, ?_, ?_⟩
  · dsimp only [machineStep]
    rw [hctl]
    exact congrArg (Option.map _) hs₁
  · rw [endTurn_update, hfinal, hswap.update, hpoll]
  · rw [hfinal]
    refine (congrArg Carried.pend (endTurn_carried b seen _ s₁)).trans ?_
    show s₁.pend = _
    rw [hswap.pend, hpoll]

def sevensBegin : Event := .turn (some (updateFrame (beginFrame 1 sevens)))

def sevensChunk : Event := .turn (some (updateFrame (chunkFrame 1 sevens 48 0)))

/-- The sevens in one chunk: everything announced was acknowledged. -/
theorem longBoard_oneChunk :
    ∃ s₀ s₁ s₂ : Sup, Reachable (machine longBoard) s₀ ∧ Opens s₀ sevensBegin ∧
      (recordedMachine longBoard).step ⟨s₀, []⟩ sevensBegin ⟨s₁, []⟩ ∧
      (recordedMachine longBoard).step ⟨s₁, []⟩ sevensChunk ⟨s₂, [sevens]⟩ ∧
      Serving 0 s₂ ∧ Transferred 1 sevens 48 1 s₂.receiver := by
  obtain ⟨s₀, hreach, hserving₀, hidle, hok⟩ := longBoard_serving
  have hge : 48 ≤ sevens.length := by decide
  have hle : sevens.length ≤ 552 := by decide
  have hid : (1 : U32) ≠ 0 := by decide
  have hmagic : s₀.pendOk ≠ UPDATE_PEND_MAGIC := by
    rw [hok]
    decide
  have hopens := frameOpens_begin hid hge hle hidle hmagic
  obtain ⟨s₁, hstep₁, hserving₁, ht₁⟩ :=
    begin_turn (b := longBoard) 48 hid hge hle hserving₀ hidle hmagic
  obtain ⟨s₂, hstep₂, hserving₂, ht₂⟩ :=
    chunk_turn (b := longBoard) hle (by decide) (by decide) hserving₁ ht₁ (by decide)
  refine ⟨s₀, s₁, s₂, hreach, hopens, ⟨hstep₁, ?_⟩, ⟨hstep₂, ?_⟩, hserving₂, ht₂⟩
  · -- the BEGIN empties the record
    obtain ⟨f, hf, hcommand, hopens⟩ := hopens
    cases hf
    exact ((chunksAfterPoll_command hcommand s₀ []).trans (if_pos hopens)).symm
  · have hwhole : chunkData sevens 48 0 = sevens := by decide
    have hrecord := chunksAfterPoll_chunk hle (by decide) (by decide) ht₁ (by decide) []
    rw [hwhole] at hrecord
    exact hrecord.symm

/-- A command stages nothing. -/
theorem updateFrame_not_overwrites (s : Sup) (bs : List U8) :
    ¬ Overwrites s (.turn (some (updateFrame bs))) := by
  rintro ⟨-, f, hf, hstages, -⟩
  cases hf
  rcases hstages with h | h
  · exact absurd h.type (show FRAME_UPDATE ≠ 1 by decide)
  · exact absurd h.type (show FRAME_UPDATE ≠ 3 by decide)

/-- The transfer of the sevens owns the window. -/
theorem recorded_ownsStaging_oneChunk :
    ∃ o : Recorded, o.sup.update.state = .active ∧ OwnsStaging o := by
  obtain ⟨s₀, s₁, s₂, -, hopens, hstep₁, hstep₂, -, ht⟩ := longBoard_oneChunk
  have hactive : s₂.update.state = .active := ht.active.state
  exact ⟨⟨s₂, [sevens]⟩, hactive, recorded_ownsStaging hopens
    (.cons _ _ ⟨updateFrame_not_overwrites s₀ _, hstep₁⟩
      (.cons _ _ ⟨updateFrame_not_overwrites s₁ _, hstep₂⟩ (.nil _))) hactive⟩

/-- The digest of the sevens is not that of the same window with sixteen
    zeros staged over its start. -/
theorem sha256_overwritten {pend : Mem} (hpend : ∀ i < 48, pend i = listMem sevens i) :
    sha256 (memcpy pend (fun _ => 0) 16) (48 : U32) 0 ≠ imageSha sevens 0 := by
  have hover : sha256 (memcpy pend (fun _ => 0) 16) (48 : U32) =
      sha256 (fun i => if i < 16 then 0 else 7) (48 : U32) := by
    refine sha256_congr (by decide) fun i hi => ?_
    unfold memcpy
    by_cases hin : i < 16
    · rw [if_pos hin, if_pos hin]
    · rw [if_neg hin, if_neg hin, hpend i hi, sevens_at hi]
  have hwhole : imageSha sevens = sha256 (fun _ => 7) (48 : U32) :=
    sha256_congr (by decide) fun i hi => sevens_at hi
  rw [hover, hwhole]
  decide +kernel

/-- Then the zeros: everything was acknowledged, and the COMMIT fails on its
    digest. -/
theorem longBoard_overwritten :
    ∃ (o₀ o : Recorded) (e : Event) (es : List Event) (f : ConsoleFrame),
      Reachable (machine longBoard) o₀.sup ∧ Opens o₀.sup e ∧
        StepsFrom (recordedMachine longBoard) o₀ (e :: es) o ∧ o.sup.update.state = .active ∧
        ¬ OwnsStaging o ∧ o.sup.update.received = o.sup.update.total ∧
        imageSha o.chunks.flatten = o.sup.update.expectedSha ∧
        ShortFrame UPDATE_OP_COMMIT o.sup.update f.stage f.n ∧
        updateProcess o.sup.update f.stage f.n o.sup.pend o.sup.pendOk =
          nack { o.sup.update with state := .idle } UPDATE_ERR_HASH (le32 f.stage 1) := by
  obtain ⟨s₀, s₁, s₂, hreach, hopens, hstep₁, hstep₂, hserving, ht⟩ := longBoard_oneChunk
  have hactive : s₂.update.state = .active := ht.active.state
  obtain ⟨s₃, hturn, hupdate, hpend⟩ := turn_zeroFrame hserving.ctl hactive
  have hstep₃ : (recordedMachine longBoard).step ⟨s₂, [sevens]⟩ (.turn (some zeroFrame))
      ⟨s₃, [sevens]⟩ :=
    ⟨hturn, (chunksAfterPoll_other 
      (fun f hf => Option.mem_some_iff.mp hf ▸ zeroFrame_not_command) s₂ [sevens]).symm⟩
  have hreceived : s₂.update.received = 48 := by
    apply BitVec.eq_of_toNat_eq
    rw [show s₂.update.received.toNat = _ from ht.received]
    decide
  have htotal : s₂.update.total = 48 := ht.active.txn.total
  have hsha : s₂.update.expectedSha = imageSha sevens := ht.active.txn.sha
  have hwindow : ∀ i < 48, s₂.pend i = listMem sevens i := fun i hi =>
    ht.active.bytes i (by rw [show s₂.receiver.rx.received = 48 from hreceived]; exact hi)
  have hcommit := commitFrame_commit ht.active.txn (by rw [ht.active.state]; decide)
  have hdigest : ¬ ∀ i, sha256 s₃.pend (s₂.update.total.setWidth 32) i = s₂.update.expectedSha i := by
    rw [hpend, htotal, hsha]
    exact fun h => sha256_overwritten hwindow (h 0)
  have hflatten : [sevens].flatten = sevens := by simp
  refine ⟨⟨s₀, []⟩, ⟨s₃, [sevens]⟩, sevensBegin, [sevensChunk, .turn (some zeroFrame)],
    updateFrame (commitFrame 1), hreach, hopens,
    .cons _ _ hstep₁ (.cons _ _ hstep₂ (.cons _ _ hstep₃ (.nil _))), ?_⟩
  dsimp only
  rw [hupdate, hflatten]
  refine ⟨hactive, fun howns => ?_, hreceived.trans htotal.symm, hsha.symm, hcommit, ?_⟩
  · -- its first byte is a zero, and was acknowledged as a seven
    have hbytes := howns.bytes
    dsimp only at hbytes
    rw [hupdate, hreceived, hpend, hflatten] at hbytes
    have hzero : (0 : U8) = 7 := congrArg (fun l => l.getD 0 1) hbytes
    exact absurd hzero (by decide)
  · have hproc : updateProcess s₂.update _ _ s₃.pend s₃.pendOk = _ :=
      updateProcess_commit s₃.pend s₃.pendOk hcommit
    refine hproc.trans ?_
    rw [hactive, if_neg (by decide), if_neg (by decide),
      if_neg (not_not.mpr (hreceived.trans htotal.symm)), if_neg hdigest]
    rfl

end Interclus

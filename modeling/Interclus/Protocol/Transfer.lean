import Interclus.Protocol.Transaction

/-! # A Transfer Without Losses

    The frames of `tools/update_frame.py`, fed in order to `update_process`:
    each end builds and reads the same fields, the BEGIN and the chunks are
    acknowledged, and the COMMIT stages the image.  Back on the host, the
    reply the device packs is the reply `decode_reply` unpacks. -/

namespace Interclus

open Words Mealy

/-! ## Checksums -/

theorem updateCrc16_eq (m : Mem) (n : Nat) : updateCrc16 m n = crc16 (bytesAt m 0 n) := by
  unfold updateCrc16 crc16 bytesAt
  rw [List.foldl_map]
  simp only [Nat.zero_add]

/-- The receiver's CRC over a list in its buffer is the host's. -/
theorem updateCrc16_listMem (l post : List U8) :
    updateCrc16 (listMem (l ++ post)) l.length = crc16 l := by
  rw [updateCrc16_eq, bytesAt_listMem fun i hi => listMem_append_left hi]

theorem length_withCrc (body : List U8) : (withCrc body).length = body.length + 2 := by
  rw [withCrc, List.length_append, length_packLe]

/-- A frame the host closed with its CRC passes the receiver's. -/
theorem crcOk_withCrc (body : List U8) : crcOk (listMem (withCrc body)) (withCrc body).length := by
  have hcrc : le16 (listMem (withCrc body)) body.length = crc16 body := by
    have := le16_listMem (v := crc16 body) body []
    rwa [List.append_nil] at this
  unfold crcOk
  rw [length_withCrc, Nat.add_sub_cancel, hcrc, decide_eq_true_iff]
  exact updateCrc16_listMem body _

/-! ## The frames of a transfer -/

section Frames
variable {tid : U32} {image : List U8}

theorem beginFrame_begin (htid : tid ≠ 0) (hge : 48 ≤ image.length) (hle : image.length ≤ 552) :
    BeginFrame (listMem (beginFrame tid image)) (beginFrame tid image).length where
  op := rfl
  len := by
    unfold beginFrame
    rw [length_withCrc]
    simp [length_packLe]
  crc := crcOk_withCrc _
  id_ne := by
    have hown : OwnFrame tid image (beginFrame tid image) := ⟨.begin, rfl⟩
    rw [hown.carries.2]
    exact htid
  total_ge := by
    rw [(beginFrame_fields tid image).1, BitVec.toNat_ofNat]
    omega
  total_le := by
    rw [(beginFrame_fields tid image).1, BitVec.toNat_ofNat]
    omega

/-- Any chunk of a transfer names it. -/
theorem chunkFrame_carries (size seq : Nat) :
    le32 (listMem (chunkFrame tid image size seq)) 1 = tid := by
  obtain ⟨rest, h⟩ := chunkFrame_eq tid image size seq
  rw [h]
  exact le32_listMem [UPDATE_OP_DATA] _

theorem chunkFrame_seq (size seq : Nat) :
    le16 (listMem (chunkFrame tid image size seq)) 5 = BitVec.ofNat 16 seq := by
  obtain ⟨rest, h⟩ := chunkFrame_eq tid image size seq
  have h5 : ([UPDATE_OP_DATA] ++ packLe 4 tid).length = 5 := by simp [length_packLe]
  rw [h, ← List.append_assoc]
  exact h5 ▸ le16_listMem _ _

theorem chunkFrame_data {size seq : Nat} {rx : UpdateRx} (h : OwnTxn tid image rx)
    (hact : rx.state = .active) (hle : image.length ≤ 552) (hpos : 1 ≤ size) (hsize : size ≤ 64)
    (hseq : seq * size < image.length) :
    DataFrame rx (listMem (chunkFrame tid image size seq)) (chunkFrame tid image size seq).length := by
  have h9 : (listMem (chunkFrame tid image size seq) 9).toNat = _ := chunkFrame_size hsize seq
  have h7 := (chunkFrame_fields tid image size seq).1
  refine { op := rfl, len := ?_, crc := crcOk_withCrc _, id := (chunkFrame_carries ..).trans h.id.symm,
           active := hact, size_pos := by omega, size_le := by omega, fits := ?_ }
  · rw [h9]
    unfold chunkFrame
    dsimp only
    rw [length_withCrc]
    simp [length_packLe, chunkData]
    omega
  · rw [h7, h9, h.total_toNat hle, BitVec.toNat_ofNat]
    omega

theorem commitFrame_commit {rx : UpdateRx} (h : OwnTxn tid image rx) (hst : rx.state ≠ .idle) :
    ShortFrame UPDATE_OP_COMMIT rx (listMem (commitFrame tid)) (commitFrame tid).length where
  op := rfl
  len := by
    unfold commitFrame
    rw [length_withCrc]
    simp [length_packLe]
  crc := crcOk_withCrc _
  id := by
    obtain ⟨rest, hf⟩ := commitFrame_eq tid
    rw [hf, h.id]
    exact le32_listMem [UPDATE_OP_COMMIT] _
  not_idle := hst

end Frames

/-! ## Feeding the receiver -/

/-- The receiver and the staging area. -/
structure Receiver where
  rx : UpdateRx
  pend : Mem
  magic : U32

/-- Feed one payload. -/
def Receiver.feed (s : Receiver) (f : List U8) : Receiver × UpdateStep :=
  let r := updateProcess s.rx (listMem f) f.length s.pend s.magic
  (⟨r.rx, r.pend s.pend, r.pendMagic s.magic⟩, r)

/-- `chunks`. -/
def chunkFrames (tid : U32) (image : List U8) (size : Nat) : List (List U8) :=
  (List.range (chunkCount image size)).map (chunkFrame tid image size)

/-- A whole transfer: `begin`, `chunks`, `commit`. -/
def transferFrames (tid : U32) (image : List U8) (size : Nat) : List (List U8) :=
  [beginFrame tid image] ++ chunkFrames tid image size ++ [commitFrame tid]

/-- The acknowledgement of chunk `k`. -/
def chunkAck (tid : U32) (k : Nat) : UpdateReply := ⟨tid, BitVec.ofNat 16 (k + 1), UPDATE_ACK, 0⟩

/-- The replies to a whole transfer. -/
def transferReplies (tid : U32) (image : List U8) (size : Nat) : List UpdateReply :=
  [⟨tid, 0, UPDATE_ACK, 0⟩] ++ (List.range (chunkCount image size)).map (chunkAck tid) ++
    [⟨tid, BitVec.ofNat 16 (chunkCount image size), UPDATE_REPLY_STAGED, 0⟩]

theorem lt_chunkCount {image : List U8} {size k : Nat} (hpos : 1 ≤ size) :
    k < chunkCount image size ↔ k * size < image.length := by
  unfold chunkCount
  rw [Nat.lt_iff_add_one_le, Nat.le_div_iff_mul_le hpos, Nat.add_one_mul]
  omega

/-- The first `k` chunks have arrived. -/
structure Transferred (tid : U32) (image : List U8) (size k : Nat) (s : Receiver) : Prop where
  active : OwnActive tid image s.rx s.pend
  received : s.rx.received.toNat = min (k * size) image.length
  next : s.rx.nextSeq = BitVec.ofNat 16 k
  magic : s.magic ≠ UPDATE_PEND_MAGIC

section Feeding
variable {tid : U32} {image : List U8} {size : Nat}

theorem replySet_own {rx : UpdateRx} (h : rx.id = tid) (code : U8) :
    replySet rx code 0 tid = ⟨tid, rx.nextSeq, code, 0⟩ := by
  have hid : (replySet rx code 0 tid).id = tid := (replySet_id h.symm code 0).trans h
  unfold replySet at hid ⊢
  exact congrArg (UpdateReply.mk · rx.nextSeq code 0) hid

/-- The BEGIN. -/
theorem feed_begin (size : Nat) (htid : tid ≠ 0) (hge : 48 ≤ image.length) (hle : image.length ≤ 552)
    {s : Receiver} (hst : s.rx.state = .idle ∨ s.rx.state = .done ∧ s.rx.id ≠ tid)
    (hmagic : s.magic ≠ UPDATE_PEND_MAGIC) :
    Transferred tid image size 0 (s.feed (beginFrame tid image)).1 ∧
      (s.feed (beginFrame tid image)).2.reply = ⟨tid, 0, UPDATE_ACK, 0⟩ := by
  have hown : OwnFrame tid image (beginFrame tid image) := ⟨.begin, rfl⟩
  rw [← hown.carries.2] at hst
  have hopens := updateProcess_opens s.pend s.magic (beginFrame_begin htid hge hle) hst hmagic
  rw [hown.carries.2] at hst
  unfold Receiver.feed
  rw [hopens]
  refine ⟨⟨ownActive_opened s.pend, ?_, rfl, show (0 : U32) ≠ UPDATE_PEND_MAGIC by decide⟩, ?_⟩
  · rw [Nat.zero_mul, Nat.zero_min]
    rfl
  · show replySet (.opened _) UPDATE_ACK 0 _ = _
    rw [hown.carries.2, replySet_own hown.carries.2]
    rfl

/-- Chunk `k` is the one the receiver expects. -/
theorem Transferred.expects (hle : image.length ≤ 552) {k : Nat} {s : Receiver}
    (h : Transferred tid image size k s) (hk : k * size < image.length) :
    le16 (listMem (chunkFrame tid image size k)) 5 = s.rx.nextSeq ∧
      le16 (listMem (chunkFrame tid image size k)) 7 = s.rx.received := by
  refine ⟨by rw [chunkFrame_seq, h.next], ?_⟩
  have h7 := (chunkFrame_fields tid image size k).1
  have hreceived := h.received
  apply BitVec.eq_of_toNat_eq
  rw [h7, hreceived, BitVec.toNat_ofNat]
  omega

/-- A chunk, in its turn. -/
theorem feed_chunk (hle : image.length ≤ 552) (hpos : 1 ≤ size) (hsize : size ≤ 64) {k : Nat}
    {s : Receiver} (h : Transferred tid image size k s) (hk : k * size < image.length) :
    Transferred tid image size (k + 1) (s.feed (chunkFrame tid image size k)).1 ∧
      (s.feed (chunkFrame tid image size k)).2.reply = chunkAck tid k := by
  have hd := chunkFrame_data h.active.txn h.active.state hle hpos hsize hk
  have h9 : (listMem (chunkFrame tid image size k) 9).toNat = _ := chunkFrame_size hsize k
  have hreceived := h.received
  obtain ⟨hseq, hoff⟩ := h.expects hle hk
  have hnext : (s.rx.extended (listMem (chunkFrame tid image size k))).nextSeq =
      BitVec.ofNat 16 (k + 1) := by
    show s.rx.nextSeq + 1 = _
    rw [h.next]
    exact BitVec.ofNat_add_ofNat k 1
  unfold Receiver.feed
  rw [updateProcess_extends s.pend s.magic hd hseq hoff]
  refine ⟨⟨ownActive_extended h.active hle hsize hd hoff, ?_, hnext, h.magic⟩, ?_⟩
  · show (s.rx.received + (listMem (chunkFrame tid image size k) 9).setWidth 16).toNat = _
    rw [BitVec.toNat_add, BitVec.toNat_setWidth, h9, hreceived, Nat.add_one_mul]
    omega
  · show replySet (s.rx.extended _) UPDATE_ACK 0 _ = _
    have hid : (s.rx.extended (listMem (chunkFrame tid image size k))).id = tid := h.active.txn.id
    rw [chunkFrame_carries, replySet_own hid, hnext]
    rfl

/-- The COMMIT, behind the last chunk. -/
theorem feed_commit (hle : image.length ≤ 552) {k : Nat} {s : Receiver}
    (h : Transferred tid image size k s) (hk : image.length ≤ k * size) :
    let r := s.feed (commitFrame tid)
    r.2.reply = ⟨tid, BitVec.ofNat 16 k, UPDATE_REPLY_STAGED, 0⟩ ∧ r.1.rx.state = .staged ∧
      r.1.magic = UPDATE_PEND_MAGIC ∧ bytesAt r.1.pend 0 image.length = image := by
  have hactive := h.active.state
  have hrec : s.rx.received = s.rx.total := by
    apply BitVec.eq_of_toNat_eq
    rw [h.received, h.active.txn.total_toNat hle]
    omega
  have hcommit := commitFrame_commit h.active.txn (by rw [hactive]; decide)
  have hsha := h.active.sha_complete hle hrec
  have hfeed : updateProcess s.rx (listMem (commitFrame tid)) (commitFrame tid).length s.pend
      s.magic = ⟨true, { s.rx with state := .staged }, [], some UPDATE_PEND_MAGIC,
        replySet s.rx UPDATE_REPLY_STAGED 0 (le32 (listMem (commitFrame tid)) 1)⟩ := by
    rw [updateProcess_commit s.pend s.magic hcommit, hactive, if_neg (by decide),
      if_neg (by decide), if_neg (not_not.mpr hrec), if_pos fun i => congrFun hsha i]
  unfold Receiver.feed
  rw [hfeed]
  refine ⟨?_, rfl, rfl, bytesAt_listMem (h.active.complete hle hrec)⟩
  show replySet s.rx UPDATE_REPLY_STAGED 0 _ = _
  rw [hcommit.id, h.active.txn.id, replySet_own h.active.txn.id, h.next]

/-- The chunks, one after the other. -/
theorem feed_chunks (hle : image.length ≤ 552) (hpos : 1 ≤ size) (hsize : size ≤ 64) (n : Nat)
    (hn : n ≤ chunkCount image size) {s : Receiver} (h : Transferred tid image size 0 s) :
    let fs := (List.range n).map (chunkFrame tid image size)
    Transferred tid image size n (final Receiver.feed s fs) ∧
      (outputs Receiver.feed s fs).map UpdateStep.reply = (List.range n).map (chunkAck tid) := by
  induction n with
  | zero => exact ⟨h, rfl⟩
  | succ n ih =>
    obtain ⟨hdone, hreplies⟩ := ih (Nat.le_of_succ_le hn)
    obtain ⟨hnext, hreply⟩ := feed_chunk hle hpos hsize hdone ((lt_chunkCount hpos).mp hn)
    dsimp only at hdone hreplies ⊢
    rw [List.range_succ, List.map_append, List.map_append, List.map_singleton, List.map_singleton,
      final_append, outputs_concat, List.map_append, hreplies]
    exact ⟨hnext, congrArg (_ ++ [·]) hreply⟩

/-- The whole transfer, to a receiver that takes its BEGIN. -/
theorem feed_transfer (htid : tid ≠ 0) (hge : 48 ≤ image.length) (hle : image.length ≤ 552)
    (hpos : 1 ≤ size) (hsize : size ≤ 64) {s : Receiver}
    (hst : s.rx.state = .idle ∨ s.rx.state = .done ∧ s.rx.id ≠ tid)
    (hmagic : s.magic ≠ UPDATE_PEND_MAGIC) :
    let s' := final Receiver.feed s (transferFrames tid image size)
    (outputs Receiver.feed s (transferFrames tid image size)).map UpdateStep.reply =
        transferReplies tid image size ∧
      s'.rx.state = .staged ∧ s'.magic = UPDATE_PEND_MAGIC ∧
      bytesAt s'.pend 0 image.length = image := by
  intro s'
  obtain ⟨hbegin, hbeginReply⟩ := feed_begin size htid hge hle hst hmagic
  obtain ⟨hchunks, hchunkReplies⟩ :=
    feed_chunks hle hpos hsize (chunkCount image size) (Nat.le_refl _) hbegin
  -- the chunks cover the image, so the COMMIT finds it complete
  have hall : image.length ≤ chunkCount image size * size :=
    Nat.le_of_not_lt fun h => Nat.lt_irrefl _ ((lt_chunkCount hpos).mpr h)
  obtain ⟨hreply, hstaged⟩ := feed_commit hle hchunks hall
  refine ⟨?_, ?_⟩
  · unfold transferFrames transferReplies
    rw [outputs_append, outputs_append, List.map_append, List.map_append]
    refine congrArg₂ _ (congrArg₂ _ (congrArg ([·]) hbeginReply) hchunkReplies) (congrArg ([·]) ?_)
    rw [final_append]
    exact hreply
  · have hs' : s' = (Receiver.feed (final Receiver.feed (s.feed (beginFrame tid image)).1
        (chunkFrames tid image size)) (commitFrame tid)).1 := by
      show final Receiver.feed s _ = _
      unfold transferFrames
      rw [final_append, final_append]
      rfl
    rw [hs']
    exact hstaged

end Feeding

/-! ## Replies -/

/-- `decode_reply` unpacks what `update_send_reply` packed. -/
theorem decodeReply_replyBytes_eq (r : UpdateReply) : decodeReply (replyBytes r) = some r := by
  have hcrc : crc16 ((replyBytes r).take 8) = le16 (listMem (replyBytes r)) 8 := by
    refine Eq.symm (le16_of_bytes fun k hk => ?_)
    have hsum : updateCrc16 (fun i => ((replyBytes r).take 8).getD i 0) 8 =
        crc16 ((replyBytes r).take 8) := by
      have := updateCrc16_listMem ((replyBytes r).take 8) []
      rwa [List.append_nil] at this
    rw [← hsum]
    match k, hk with
    | 0, _ => rfl
    | 1, _ => rfl
  -- decoding gives back what was packed if it gives anything; the CRC admits it
  cases hdecoded : decodeReply (replyBytes r) with
  | some r' => rw [decodeReply_replyBytes hdecoded]
  | none =>
    unfold decodeReply at hdecoded
    dsimp only at hdecoded
    rw [if_neg (by rw [hcrc]; simp [replyBytes])] at hdecoded
    cases hdecoded

/-- **Both ends agree.** A transfer of any image of 48 to 552 bytes, in
    chunks of any size up to 64, is acknowledged frame by frame and staged
    by its COMMIT; and the host decodes every reply the device can send. -/
theorem transfer_staged {tid : U32} (htid : tid ≠ 0) {image : List U8} (hge : 48 ≤ image.length)
    (hle : image.length ≤ 552) {size : Nat} (hpos : 1 ≤ size) (hsize : size ≤ 64) {s : Receiver}
    (hidle : s.rx.state = .idle) (hmagic : s.magic ≠ UPDATE_PEND_MAGIC) :
    let s' := final Receiver.feed s (transferFrames tid image size)
    ((outputs Receiver.feed s (transferFrames tid image size)).map UpdateStep.reply =
        transferReplies tid image size ∧
      s'.rx.state = .staged ∧ s'.magic = UPDATE_PEND_MAGIC ∧
      bytesAt s'.pend 0 image.length = image) ∧
    ∀ r, decodeReply (replyBytes r) = some r := by
  exact ⟨feed_transfer htid hge hle hpos hsize (.inl hidle) hmagic, decodeReply_replyBytes_eq⟩

/-- A 48-byte image in chunks of five. -/
theorem transfer_staged_sample :
    let image : List U8 := List.replicate 48 7
    let s : Receiver := ⟨updateReset, fun _ => 0, 0⟩
    let s' := final Receiver.feed s (transferFrames 1 image 5)
    ((outputs Receiver.feed s (transferFrames 1 image 5)).map UpdateStep.reply =
        transferReplies 1 image 5 ∧
      s'.rx.state = .staged ∧ s'.magic = UPDATE_PEND_MAGIC ∧
      bytesAt s'.pend 0 image.length = image) ∧
    ∀ r, decodeReply (replyBytes r) = some r :=
  transfer_staged (by decide) (by simp) (by simp) (by decide) (by decide) rfl (by decide)

end Interclus

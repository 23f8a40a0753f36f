import Interclus.Protocol.Wire
import Interclus.Update.Integrity

/-! # One Transaction

    The receiver of `update_process` as the transfer of one image sees it:
    what a command does while another id is held, while the image arrives,
    and after the verdict.  Each is a case analysis of
    `updateProcess_outcome`. -/

namespace Interclus

open Words

/-! ## The receiver of a transfer -/

/-- The receiver holds the transaction of `image` under `tid`. -/
structure OwnTxn (tid : U32) (image : List U8) (rx : UpdateRx) : Prop where
  id : rx.id = tid
  total : rx.total = BitVec.ofNat 16 image.length
  sha : rx.expectedSha = imageSha image

/-- The image is arriving, and what arrived is staged. -/
structure OwnActive (tid : U32) (image : List U8) (rx : UpdateRx) (pend : Mem) : Prop where
  txn : OwnTxn tid image rx
  state : rx.state = .active
  received_le : rx.received.toNat ≤ image.length
  bytes : ∀ i < rx.received.toNat, pend i = listMem image i

/-- The transaction is over. -/
structure OwnDone (tid : U32) (image : List U8) (ok : Bool) (rx : UpdateRx) : Prop where
  txn : OwnTxn tid image rx
  state : rx.state = .done
  code : rx.finalCode = if ok then UPDATE_ACCEPT else UPDATE_REJECT

theorem OwnTxn.total_toNat {tid : U32} {image : List U8} {rx : UpdateRx} (h : OwnTxn tid image rx)
    (hlen : image.length ≤ MAX_IMAGE) : rx.total.toNat = image.length := by
  unfold MAX_IMAGE at hlen
  rw [h.total, BitVec.toNat_ofNat]
  exact Nat.mod_eq_of_lt (by omega)

/-- The bytes of a list, read back. -/
theorem bytesAt_listMem {pend : Mem} {l : List U8} (h : ∀ i < l.length, pend i = listMem l i) :
    bytesAt pend 0 l.length = l := by
  apply List.ext_getElem (by simp)
  intro i hi hi'
  simp only [bytesAt, List.getElem_map, List.getElem_range, Nat.zero_add]
  rw [h i hi']
  exact List.getD_eq_getElem _ _ hi'

/-! ## Refused commands -/

/-- A command whose corruption the CRC shows is refused. -/
theorem updateProcess_corrupted {p : Mem} {n : Nat} (h : crcOk p n = false) (rx : UpdateRx)
    (pend : Mem) (magic : U32) :
    ∃ detail id, updateProcess rx p n pend magic = nack rx detail id := by
  have hout := updateProcess_outcome rx p n pend magic
  generalize updateProcess rx p n pend magic = r at hout
  have hcrc : crcOk p n = true → ∃ detail id, r = nack rx detail id := fun h' => by
    rw [h] at h'
    cases h'
  cases hout with
  | refused detail id => exact ⟨detail, id, rfl⟩
  | beginRepeat _ hf => exact hcrc hf.crc
  | opened hf => exact hcrc hf.crc
  | dataRepeat hf => exact hcrc hf.crc
  | extended hf => exact hcrc hf.crc
  | commitRepeat _ hf => exact hcrc hf.crc
  | staged hf => exact hcrc hf.crc
  | hashFailed hf => exact hcrc hf.crc
  | aborted hf => exact hcrc hf.crc

/-- A reply about the id the receiver holds. -/
theorem replySet_id {rx : UpdateRx} {id : U32} (h : id = rx.id) (code detail : U8) :
    (replySet rx code detail id).id = rx.id := by
  unfold replySet
  dsimp only
  split
  · exact h
  · rfl

/-! ## While another id is held -/

/-- A command that leaves `tid` out: the receiver does not take it up, and
    a reply under it refuses. -/
structure Stranger (tid : U32) (p : Mem) (r : UpdateStep) : Prop where
  id : r.rx.id ≠ tid
  reply : r.reply.id = tid → r.reply.code = UPDATE_NACK
  began : p 0 = UPDATE_OP_BEGIN → r.ret = true → le32 p 1 ≠ tid

/-- While another id is held, only the BEGIN of the transfer brings `tid`
    in. -/
theorem updateProcess_stranger {tid : U32} {image : List U8} {rx : UpdateRx} (hid : rx.id ≠ tid)
    {f : List U8} (hf : OwnFrame tid image f ∨ ¬ Carries tid f) (pend : Mem) (magic : U32) :
    let r := updateProcess rx (listMem f) f.length pend magic
    Stranger tid (listMem f) r ∨
      (f = beginFrame tid image ∧ r.rx = .opened (listMem f) ∧ r.magic = some 0 ∧ r.stores = [] ∧
        r.ret = true ∧ r.reply.id = tid ∧ r.reply.code = UPDATE_ACK) := by
  intro r
  have hout : UpdateOutcome rx (listMem f) f.length pend magic r :=
    updateProcess_outcome rx (listMem f) f.length pend magic
  clear_value r
  -- a reply under the id the receiver holds is not under `tid`
  have hheld : ∀ (rx' : UpdateRx) (code detail : U8), rx'.id = rx.id →
      le32 (listMem f) 1 = rx.id → (replySet rx' code detail (le32 (listMem f) 1)).id = tid →
      code = UPDATE_NACK := by
    intro rx' code detail hrx' heq hreply
    rw [replySet_id (heq.trans hrx'.symm), hrx'] at hreply
    exact absurd hreply hid
  have hnot : le32 (listMem f) 1 = rx.id → le32 (listMem f) 1 ≠ tid := fun h => h ▸ hid
  cases hout with
  | refused detail id => exact .inl ⟨hid, fun _ => rfl, fun _ h => by cases h⟩
  | beginRepeat code _ _ heq => exact .inl ⟨hid, hheld rx _ _ rfl heq.symm, fun _ _ => hnot heq.symm⟩
  | opened hb _ _ =>
    by_cases htid : le32 (listMem f) 1 = tid
    · right
      have hown : OwnFrame tid image f := by
        rcases hf with hf | hf
        · exact hf
        · exact absurd ⟨by rw [hb.len]; decide, htid⟩ hf
      have hbegin : f = beginFrame tid image := by
        rcases hown.op_cases with ⟨-, h⟩ | ⟨h, -⟩ | ⟨h, -⟩
        · exact h
        · rw [hb.op] at h
          exact absurd h (by decide)
        · rw [hb.op] at h
          exact absurd h (by decide)
      exact ⟨hbegin, rfl, rfl, rfl, rfl, (replySet_id rfl _ _).trans htid, rfl⟩
    · exact .inl ⟨htid, fun h => absurd ((replySet_id rfl _ _).symm.trans h) htid, fun _ _ => htid⟩
  | dataRepeat hd => exact .inl ⟨hid, hheld rx _ _ rfl hd.id, fun _ _ => hnot hd.id⟩
  | extended hd => exact .inl ⟨hid, hheld _ _ _ rfl hd.id, fun _ _ => hnot hd.id⟩
  | commitRepeat code hc => exact .inl ⟨hid, hheld rx _ _ rfl hc.id, fun _ _ => hnot hc.id⟩
  | staged hc => exact .inl ⟨hid, hheld _ _ _ rfl hc.id, fun _ _ => hnot hc.id⟩
  | hashFailed hc => exact .inl ⟨hid, fun _ => rfl, fun _ h => by cases h⟩
  | aborted hc => exact .inl ⟨hid, hheld _ _ _ rfl hc.id, fun _ _ => hnot hc.id⟩

/-- The BEGIN of a transfer opens its transaction. -/
theorem ownActive_opened {tid : U32} {image : List U8} (pend : Mem) :
    OwnActive tid image (.opened (listMem (beginFrame tid image))) pend := by
  obtain ⟨htotal, hsha⟩ := beginFrame_fields tid image
  exact ⟨⟨(OwnFrame.carries ⟨.begin, rfl⟩).2, htotal, hsha⟩, rfl, Nat.zero_le _,
    fun i hi => absurd hi (Nat.not_lt_zero i)⟩

/-! ## While the image arrives -/

/-- A command that keeps the transaction arriving. -/
structure Arriving (tid : U32) (image : List U8) (pend : Mem) (r : UpdateStep) : Prop where
  active : OwnActive tid image r.rx (r.pend pend)
  magic : r.magic = none
  reply : r.reply.code ≠ UPDATE_NACK → r.reply.id = tid ∧ r.reply.code = UPDATE_ACK

/-- The command that stages the image. -/
structure Staging (tid : U32) (image : List U8) (pend : Mem) (rx : UpdateRx) (r : UpdateStep) :
    Prop where
  rx : r.rx = { rx with state := .staged }
  stores : r.stores = []
  magic : r.magic = some PROG_PEND_MAGIC
  ret : r.ret = true
  code : r.reply.code = UPDATE_REPLY_STAGED
  id : r.reply.id = tid
  image : bytesAt pend 0 image.length = image

/-- The length of a chunk, as its frame has it. -/
theorem chunkFrame_size {tid : U32} {image : List U8} {size : Nat} (hsize : size ≤ 64) (seq : Nat) :
    (listMem (chunkFrame tid image size seq) 9).toNat = min size (image.length - seq * size) := by
  have hdata : (chunkData image size seq).length = min size (image.length - seq * size) := by
    simp [chunkData]
  rw [(chunkFrame_fields tid image size seq).2.1, BitVec.toNat_ofNat, hdata]
  exact Nat.mod_eq_of_lt (by omega)

/-- A chunk of the transfer extends the staged prefix. -/
theorem ownActive_extended {tid : U32} {image : List U8} {rx : UpdateRx} {pend : Mem}
    {size seq : Nat} (h : OwnActive tid image rx pend) (hlen : image.length ≤ MAX_IMAGE)
    (hsize : size ≤ 64)
    (hd : DataFrame rx (listMem (chunkFrame tid image size seq))
      (chunkFrame tid image size seq).length)
    (hoff : le16 (listMem (chunkFrame tid image size seq)) 7 = rx.received) :
    OwnActive tid image (rx.extended (listMem (chunkFrame tid image size seq)))
      (applyStores pend (dataStores (listMem (chunkFrame tid image size seq))
        rx.received.toNat (listMem (chunkFrame tid image size seq) 9).toNat)) := by
  have hp9 : (listMem (chunkFrame tid image size seq) 9).toNat = _ := chunkFrame_size hsize seq
  obtain ⟨hoff', -, hbytes⟩ := chunkFrame_fields tid image size seq
  generalize listMem (chunkFrame tid image size seq) = p at *
  have hdata : (chunkData image size seq).length = (p 9).toNat := by
    rw [hp9]
    simp [chunkData]
  -- the chunk has bytes, so its offset lies in the image
  have hin : seq * size + (p 9).toNat ≤ image.length := by
    have hpos := hd.size_pos
    omega
  have hrec : rx.received.toNat = seq * size := by
    unfold MAX_IMAGE at hlen
    rw [← hoff, hoff', BitVec.toNat_ofNat]
    exact Nat.mod_eq_of_lt (by omega)
  have hnext : (rx.received + (p 9).setWidth 16).toNat = rx.received.toNat + (p 9).toNat := by
    unfold MAX_IMAGE at hlen
    have : ((p 9).setWidth 16).toNat = (p 9).toNat := by bv_omega
    rw [BitVec.toNat_add, this]
    exact Nat.mod_eq_of_lt (by omega)
  refine ⟨⟨h.txn.id, h.txn.total, h.txn.sha⟩, h.state, ?_, fun i hi => ?_⟩
  · show (rx.received + (p 9).setWidth 16).toNat ≤ _
    omega
  · have hi : i < rx.received.toNat + (p 9).toNat := hnext ▸ hi
    rw [applyStores_dataStores]
    split
    · rw [hbytes _ (by omega), listMem_chunkData (by omega)]
      congr 1
      omega
    · exact h.bytes i (by omega)

/-- Once everything arrived, the staged bytes are the image. -/
theorem OwnActive.complete {tid : U32} {image : List U8} {rx : UpdateRx} {pend : Mem}
    (h : OwnActive tid image rx pend) (hlen : image.length ≤ MAX_IMAGE)
    (hrec : rx.received = rx.total) : ∀ i < image.length, pend i = listMem image i := by
  intro i hi
  apply h.bytes
  rw [hrec, h.txn.total_toNat hlen]
  exact hi

/-- And their digest is the announced one. -/
theorem OwnActive.sha_complete {tid : U32} {image : List U8} {rx : UpdateRx} {pend : Mem}
    (h : OwnActive tid image rx pend) (hlen : image.length ≤ MAX_IMAGE)
    (hrec : rx.received = rx.total) : sha256 pend (rx.total.setWidth 32) = rx.expectedSha := by
  have hbytes := h.complete hlen hrec
  unfold MAX_IMAGE at hlen
  have hwidth : rx.total.setWidth 32 = BitVec.ofNat 32 image.length := by
    rw [h.txn.total]
    apply BitVec.eq_of_toNat_eq
    simp only [BitVec.toNat_setWidth, BitVec.toNat_ofNat]
    omega
  have hnat : (BitVec.ofNat 32 image.length).toNat = image.length := by
    rw [BitVec.toNat_ofNat]
    exact Nat.mod_eq_of_lt (by omega)
  rw [hwidth, h.txn.sha]
  unfold imageSha
  apply sha256_congr
  · omega
  · rw [hnat]
    exact hbytes

/-- While the image arrives, the commands of the transfer keep it arriving
    or stage it. -/
theorem updateProcess_arriving {tid : U32} {image : List U8} {rx : UpdateRx} {pend : Mem}
    (h : OwnActive tid image rx pend) (hlen : image.length ≤ MAX_IMAGE) {f : List U8}
    (hf : OwnFrame tid image f) (magic : U32) :
    let r := updateProcess rx (listMem f) f.length pend magic
    Arriving tid image pend r ∨ Staging tid image pend rx r := by
  intro r
  have hout : UpdateOutcome rx (listMem f) f.length pend magic r :=
    updateProcess_outcome rx (listMem f) f.length pend magic
  clear_value r
  have hid : le32 (listMem f) 1 = rx.id := hf.carries.2.trans h.txn.id.symm
  have hreply : ∀ (rx' : UpdateRx) (code detail : U8), rx'.id = rx.id →
      (replySet rx' code detail (le32 (listMem f) 1)).id = tid := by
    intro rx' code detail hrx'
    rw [replySet_id (hid.trans hrx'.symm), hrx', h.txn.id]
  have hact := h.state
  cases hout with
  | refused detail id => exact .inl ⟨h, rfl, fun hne => absurd rfl hne⟩
  | beginRepeat code _ _ _ _ _ hcode =>
    rw [if_neg (by rw [hact]; decide), if_neg (by rw [hact]; decide)] at hcode
    exact .inl ⟨h, rfl, fun _ => ⟨hreply rx _ _ rfl, hcode⟩⟩
  | opened _ hst _ =>
    rw [hact] at hst
    exact absurd hst (by simp)
  | dataRepeat _ _ _ _ => exact .inl ⟨h, rfl, fun _ => ⟨hreply rx _ _ rfl, rfl⟩⟩
  | extended hd _ hoff =>
    rcases hf.op_cases with ⟨hop, -⟩ | ⟨-, seq, rfl⟩ | ⟨hop, -⟩
    · rw [hd.op] at hop
      exact absurd hop (by decide)
    · have hsize : CHUNK_SIZE ≤ 64 := by decide
      exact .inl ⟨ownActive_extended h hlen hsize hd hoff, rfl, fun _ => ⟨hreply _ _ _ rfl, rfl⟩⟩
    · rw [hd.op] at hop
      exact absurd hop (by decide)
  | commitRepeat code _ hst =>
    rw [hact] at hst
    exact absurd hst (by simp)
  | staged hc _ hrec _ =>
    exact .inr ⟨rfl, rfl, rfl, rfl, rfl, hreply _ _ _ rfl, bytesAt_listMem (h.complete hlen hrec)⟩
  -- what arrived is the image, so its digest is the announced one
  | hashFailed hc _ hrec hsha => exact absurd (h.sha_complete hlen hrec) hsha
  -- the client never sends an ABORT
  | aborted hc =>
    rcases hf.op_cases with ⟨hop, -⟩ | ⟨hop, -⟩ | ⟨hop, -⟩ <;>
    · rw [hc.op] at hop
      exact absurd hop (by decide)

/-! ## After the verdict -/

/-- After the verdict the commands of the transfer are answered with it, or
    refused. -/
theorem updateProcess_done {tid : U32} {image : List U8} {ok : Bool} {rx : UpdateRx}
    (h : OwnDone tid image ok rx) {f : List U8} (hf : OwnFrame tid image f) (pend : Mem)
    (magic : U32) :
    let r := updateProcess rx (listMem f) f.length pend magic
    r.rx = rx ∧ r.stores = [] ∧ r.magic = none ∧
      (r.reply.code ≠ UPDATE_NACK → r.reply.id = tid ∧ r.reply.code = rx.finalCode) := by
  intro r
  have hout : UpdateOutcome rx (listMem f) f.length pend magic r :=
    updateProcess_outcome rx (listMem f) f.length pend magic
  clear_value r
  have hid : le32 (listMem f) 1 = rx.id := hf.carries.2.trans h.txn.id.symm
  have hreply : ∀ code detail, (replySet rx code detail (le32 (listMem f) 1)).id = tid :=
    fun code detail => (replySet_id hid _ _).trans h.txn.id
  have hdone := h.state
  cases hout with
  | refused detail id => exact ⟨rfl, rfl, rfl, fun hne => absurd rfl hne⟩
  | beginRepeat code _ _ _ _ _ hcode =>
    rw [if_pos hdone] at hcode
    exact ⟨rfl, rfl, rfl, fun _ => ⟨hreply _ _, hcode⟩⟩
  -- a BEGIN takes over only under another id
  | opened _ hst _ =>
    rcases hst with hst | ⟨-, hne⟩
    · rw [hdone] at hst
      cases hst
    · exact absurd hid.symm hne
  | dataRepeat hd => exact absurd (hdone.symm.trans hd.active) (by decide)
  | extended hd => exact absurd (hdone.symm.trans hd.active) (by decide)
  | commitRepeat code _ hst =>
    rcases hst with ⟨-, hcode⟩ | ⟨hst, -⟩
    · exact ⟨rfl, rfl, rfl, fun _ => ⟨hreply _ _, hcode⟩⟩
    · exact absurd (hdone.symm.trans hst) (by decide)
  | staged _ hst => exact absurd (hdone.symm.trans hst) (by decide)
  | hashFailed _ hst => exact absurd (hdone.symm.trans hst) (by decide)
  | aborted _ hst => exact absurd (hdone.symm.trans hst) (by decide)

end Interclus

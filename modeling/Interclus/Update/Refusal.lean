import Mathlib.Data.List.FinRange
import Interclus.Framework.Window
import Interclus.Update.Outcome

/-! # Refused Commands

    `update_process` again, with every payload byte read through a window
    of the `n` bytes it was given: a read behind them would make the call
    fail.  It never fails, and it is the receiver of the other modules.

    A call that refuses leaves the transaction and the staging area as they
    were, but for a COMMIT whose digest does not match. -/

namespace Interclus

open Words

/-! ## The receiver over a window -/

section Reads
variable (rx : UpdateRx) (w : Window) (n : Nat)

/-- `update_crc16`. -/
def updateCrc16Read (len : Nat) : Option U16 :=
  (List.range len).foldlM (fun crc i => do return crcByte crc (← w i)) 0xFFFF

/-- `crc_ok`. -/
def crcOkRead : Option Bool := do
  let crc ← updateCrc16Read w (n - 2)
  let sum ← read16 w (n - 2)
  return crc = sum

/-- Whether a BEGIN announces the digest of the transaction; the loop stops
    at the first byte that differs. -/
def shaMatchRead : Option Bool :=
  (List.finRange 32).allM fun i : Fin 32 => do return rx.expectedSha i = (← w (7 + i))

/-- The digest a BEGIN announces. -/
def beginShaRead : Option Digest := do
  let bytes ← (List.finRange 32).mapM fun i : Fin 32 => w (7 + i)
  return fun i => bytes.getD i 0

def processBeginRead (magic id : U32) : Option UpdateStep :=
  if n ≠ 41 then return nack rx UPDATE_ERR_FORMAT id
  else do
    let ok ← crcOkRead w n
    if ¬ ok then return nack rx UPDATE_ERR_CRC id
    else do
      let total ← read16 w 5
      if id = 0 ∨ total < 48 ∨ UPDATE_MAX_IMAGE < total then return nack rx UPDATE_ERR_FORMAT id
      else if (rx.state = .active ∨ rx.state = .staged ∨ rx.state = .done) ∧ rx.id = id then
        if rx.total ≠ total then return nack rx UPDATE_ERR_ID id
        else do
          let same ← shaMatchRead rx w
          if ¬ same then return nack rx UPDATE_ERR_ID id
          else if rx.state = .done then return repeated rx rx.finalCode id
          else if rx.state = .staged then return repeated rx UPDATE_REPLY_STAGED id
          else return repeated rx UPDATE_ACK id
      else if rx.state = .active ∨ rx.state = .staged ∨ magic = UPDATE_PEND_MAGIC then
        return nack rx UPDATE_ERR_BUSY id
      else do
        let sha ← beginShaRead w
        let rx := { updateReset with
          id := id, total := total, expectedSha := sha, state := .active }
        return ⟨true, rx, [], some 0, replySet rx UPDATE_ACK 0 id⟩

/-- Whether a chunk is the one received last, byte by byte. -/
def chunkSameRead (pend : Mem) (off len : Nat) : Option Bool :=
  (List.range len).allM fun i => do return pend (off + i) = (← w (10 + i))

/-- The stores of a chunk. -/
def chunkStoresRead (off len : Nat) : Option (List (Nat × U8)) :=
  (List.range len).mapM fun i => do return (off + i, ← w (10 + i))

def processDataRead (pend : Mem) (id : U32) : Option UpdateStep :=
  if n < 12 then return nack rx UPDATE_ERR_FORMAT id
  else do
    let seq ← read16 w 5
    let off ← read16 w 7
    let len ← w 9
    if len = 0 ∨ UPDATE_MAX_CHUNK < len ∨ n ≠ 12 + len.toNat ∨
        rx.total.toNat < off.toNat + len.toNat then return nack rx UPDATE_ERR_FORMAT id
    else if rx.state ≠ .active then return nack rx UPDATE_ERR_STATE id
    else if seq.toNat + 1 = rx.nextSeq.toNat ∧ off.toNat + len.toNat = rx.received.toNat then do
      let same ← chunkSameRead w pend off.toNat len.toNat
      if same then return repeated rx UPDATE_ACK id
      else return nack rx UPDATE_ERR_SEQUENCE id
    else if seq ≠ rx.nextSeq ∨ off ≠ rx.received then return nack rx UPDATE_ERR_SEQUENCE id
    else do
      let stores ← chunkStoresRead w off.toNat len.toNat
      let rx := { rx with
        received := rx.received + len.setWidth 16, nextSeq := rx.nextSeq + 1 }
      return ⟨true, rx, stores, none, replySet rx UPDATE_ACK 0 id⟩

/-- The id of a command long enough to hold one. -/
def commandIdRead : Option U32 := if 5 ≤ n then read32 w 1 else some 0

/-- `update_process`, on the bytes the window shows. -/
def updateProcessRead (pend : Mem) (magic : U32) : Option UpdateStep :=
  if n = 0 then return nack rx UPDATE_ERR_FORMAT 0
  else do
    let op ← w 0
    let id ← commandIdRead w n
    if op = UPDATE_OP_BEGIN then processBeginRead rx w n magic id
    else if n < 7 then return nack rx UPDATE_ERR_FORMAT id
    else do
      let ok ← crcOkRead w n
      if ¬ ok then return nack rx UPDATE_ERR_CRC id
      else if rx.state = .idle ∨ id ≠ rx.id then return nack rx UPDATE_ERR_ID id
      else if op = UPDATE_OP_DATA then processDataRead rx w n pend id
      else if op = UPDATE_OP_COMMIT then return processCommit rx n pend id
      else if op = UPDATE_OP_ABORT then return processAbort rx n id
      else return nack rx UPDATE_ERR_FORMAT id

end Reads

/-! ## Every read is inside the payload -/

section InBounds
variable {rx : UpdateRx} {p : Mem} {n : Nat} {pend : Mem} {magic id : U32}

theorem updateCrc16Read_window {len : Nat} (h : len ≤ n) :
    updateCrc16Read (window p n) len = some (updateCrc16 p len) := by
  refine foldlM_some (fun crc i hi => ?_) 0xFFFF
  rw [window_read (Nat.lt_of_lt_of_le (List.mem_range.mp hi) h)]
  rfl

theorem crcOkRead_window (h : 2 ≤ n) : crcOkRead (window p n) n = some (crcOk p n) := by
  unfold crcOkRead crcOk
  rw [updateCrc16Read_window (Nat.sub_le n 2), read16_window (show n - 2 + 1 < n by omega)]
  rfl

theorem shaMatchRead_window (h : 39 ≤ n) :
    shaMatchRead rx (window p n) = some (decide (∀ i, rx.expectedSha i = beginSha p i)) := by
  have hall : shaMatchRead rx (window p n) =
      some ((List.finRange 32).all fun i => decide (rx.expectedSha i = beginSha p i)) := by
    refine allM_some fun i _ => ?_
    rw [window_read (show 7 + i.val < n by omega)]
    rfl
  rw [hall]
  congr 1
  rw [Bool.eq_iff_iff, List.all_eq_true, decide_eq_true_iff]
  simp

theorem beginShaRead_window (h : 39 ≤ n) : beginShaRead (window p n) = some (beginSha p) := by
  have hmap : ((List.finRange 32).mapM fun i : Fin 32 => window p n (7 + i)) =
      some ((List.finRange 32).map fun i : Fin 32 => p (7 + i)) :=
    mapM_some fun i _ => window_read (show 7 + i.val < n by omega)
  unfold beginShaRead
  rw [hmap]
  refine congrArg some (funext fun i => ?_)
  show ((List.finRange 32).map fun i : Fin 32 => p (7 + i)).getD i 0 = p (7 + i)
  rw [List.getD_eq_getElem?_getD]
  simp

theorem processBeginRead_window :
    processBeginRead rx (window p n) n magic id = some (processBegin rx p n magic id) := by
  unfold processBeginRead processBegin
  by_cases hlen : n ≠ 41
  · rw [if_pos hlen, if_pos hlen]
    rfl
  have h39 : 39 ≤ n := by omega
  rw [if_neg hlen, if_neg hlen, crcOkRead_window (by omega), read16_window (by omega),
    shaMatchRead_window h39, beginShaRead_window h39]
  simp only [Option.bind_eq_bind, Option.bind_some, decide_eq_true_eq, apply_ite some]
  rfl

theorem chunkSameRead_window {off len : Nat} (h : 10 + len ≤ n) :
    chunkSameRead (window p n) pend off len =
      some (decide (∀ i < len, pend (off + i) = p (10 + i))) := by
  have hall : chunkSameRead (window p n) pend off len =
      some ((List.range len).all fun i => decide (pend (off + i) = p (10 + i))) := by
    refine allM_some fun i hi => ?_
    have := List.mem_range.mp hi
    rw [window_read (show 10 + i < n by omega)]
    rfl
  rw [hall]
  congr 1
  rw [Bool.eq_iff_iff, List.all_eq_true, decide_eq_true_iff]
  simp

theorem chunkStoresRead_window {off len : Nat} (h : 10 + len ≤ n) :
    chunkStoresRead (window p n) off len = some (dataStores p off len) := by
  refine mapM_some fun i hi => ?_
  have := List.mem_range.mp hi
  rw [window_read (show 10 + i < n by omega)]
  rfl

theorem processDataRead_window :
    processDataRead rx (window p n) n pend id = some (processData rx p n pend id) := by
  unfold processDataRead processData
  by_cases hlen : n < 12
  · rw [if_pos hlen, if_pos hlen]
    rfl
  rw [if_neg hlen, if_neg hlen, read16_window (by omega), read16_window (by omega),
    window_read (show 9 < n by omega)]
  simp only [Option.bind_eq_bind, Option.bind_some]
  split
  · rfl
  next hshape =>
  simp only [not_or, not_not] at hshape
  -- the chunk ends before the two bytes of the CRC
  rw [chunkSameRead_window (by omega), chunkStoresRead_window (by omega)]
  simp only [Option.bind_some, decide_eq_true_eq, apply_ite some]
  rfl

/-- No call reads behind its payload. -/
theorem updateProcessRead_window :
    updateProcessRead rx (window p n) n pend magic = some (updateProcess rx p n pend magic) := by
  unfold updateProcessRead updateProcess
  by_cases h0 : n = 0
  · rw [if_pos h0, if_pos h0]
    rfl
  have hid : commandIdRead (window p n) n = some (if 5 ≤ n then le32 p 1 else 0) := by
    unfold commandIdRead
    split
    · next h5 => exact read32_window (by omega)
    · rfl
  rw [if_neg h0, if_neg h0, window_read (Nat.pos_of_ne_zero h0), hid]
  simp only [Option.bind_eq_bind, Option.bind_some, processBeginRead_window,
    processDataRead_window]
  by_cases hbegin : p 0 = UPDATE_OP_BEGIN
  · rw [if_pos hbegin, if_pos hbegin]
  rw [if_neg hbegin, if_neg hbegin]
  by_cases h7 : n < 7
  · rw [if_pos h7, if_pos h7]
    rfl
  rw [if_neg h7, if_neg h7, crcOkRead_window (by omega), Option.bind_some]
  -- from here on the two are the same chain of tests
  simp only [apply_ite some]
  rfl

end InBounds

/-! ## Refusals -/

/-- The digest of the staged image is not the announced one. -/
structure DigestMismatch (rx : UpdateRx) (p : Mem) (n : Nat) (pend : Mem) : Prop where
  commit : ShortFrame UPDATE_OP_COMMIT rx p n
  active : rx.state = .active
  complete : rx.received = rx.total
  digest : sha256 pend (rx.total.setWidth 32) ≠ rx.expectedSha

/-- What a refusal leaves as it was. -/
theorem UpdateOutcome.refusal {rx : UpdateRx} {p : Mem} {n : Nat} {pend : Mem} {magic : U32}
    {r : UpdateStep} (h : UpdateOutcome rx p n pend magic r) (hret : r.ret = false) :
    r.stores = [] ∧ r.magic = none ∧
      (r.rx = rx ∨ DigestMismatch rx p n pend ∧ r.rx = { rx with state := .idle }) := by
  cases h with
  | refused => exact ⟨rfl, rfl, .inl rfl⟩
  | hashFailed hframe hactive hdone hsha =>
    exact ⟨rfl, rfl, .inr ⟨⟨hframe, hactive, hdone, hsha⟩, rfl⟩⟩
  | beginRepeat => cases hret
  | opened => cases hret
  | dataRepeat => cases hret
  | extended => cases hret
  | commitRepeat => cases hret
  | staged => cases hret
  | aborted => cases hret

/-- **Refusal.** Whatever the receiver, the staging area and the command, a
    call reads the payload below its length only, and a call that returns 0
    changes nothing, or ends a transaction whose digest does not match. -/
theorem updateProcess_refusal (rx : UpdateRx) (p : Mem) (n : Nat) (pend : Mem) (magic : U32) :
    updateProcessRead rx (window p n) n pend magic = some (updateProcess rx p n pend magic) ∧
      (∀ q : Mem, (∀ i < n, q i = p i) →
        updateProcess rx q n pend magic = updateProcess rx p n pend magic) ∧
      let r := updateProcess rx p n pend magic
      (r.ret = false → r.pend pend = pend ∧ r.pendMagic magic = magic ∧ r.stores = [] ∧
        (r.rx = rx ∨ DigestMismatch rx p n pend ∧ r.rx = { rx with state := .idle })) := by
  refine ⟨updateProcessRead_window, fun q hq => ?_, fun hret => ?_⟩
  · have hread : some (updateProcess rx q n pend magic) = some (updateProcess rx p n pend magic) :=
      updateProcessRead_window.symm.trans
        ((congrArg (updateProcessRead rx · n pend magic) (window_congr hq)).trans
          updateProcessRead_window)
    exact Option.some.inj hread
  · obtain ⟨hstores, hmagic, hrx⟩ :=
      (updateProcess_outcome rx p n pend magic).refusal hret
    refine ⟨?_, ?_, hstores, hrx⟩
    · unfold UpdateStep.pend
      rw [hstores]
      rfl
    · unfold UpdateStep.pendMagic
      rw [hmagic]
      rfl

/-- A transaction with its 48 bytes staged, and the COMMIT of it. -/
def stagedRx : UpdateRx := { updateReset with id := 1, total := 48, received := 48, state := .active }

def commitCommand : Mem := fun i => [UPDATE_OP_COMMIT, 1, 0, 0, 0, 0x61, 0xFC].getD i 0

/-- The digest of zeros is not the announced one: the transaction ends, and
    the staging area stays as it is. -/
theorem updateProcess_refusal_mismatch :
    let r := updateProcess stagedRx commitCommand 7 (fun _ => 0) 0
    r.ret = false ∧ r.pend (fun _ => 0) = (fun _ => 0) ∧ r.pendMagic 0 = 0 ∧
      r.rx = { stagedRx with state := .idle } := by
  have hret : (updateProcess stagedRx commitCommand 7 (fun _ => 0) 0).ret = false := by
    decide +kernel
  have hidle : (updateProcess stagedRx commitCommand 7 (fun _ => 0) 0).rx.state = .idle := by
    decide +kernel
  obtain ⟨-, -, h⟩ := updateProcess_refusal stagedRx commitCommand 7 (fun _ => 0) 0
  dsimp only at h ⊢
  generalize updateProcess stagedRx commitCommand 7 (fun _ => 0) 0 = r at hret hidle h ⊢
  obtain ⟨hpend, hmagic, -, hrx⟩ := h hret
  refine ⟨hret, hpend, hmagic, ?_⟩
  rcases hrx with hrx | ⟨-, hrx⟩
  · have hactive : r.rx.state = .active := congrArg UpdateRx.state hrx
    exact absurd (hactive.symm.trans hidle) (by decide)
  · exact hrx

end Interclus

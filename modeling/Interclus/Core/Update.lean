import Interclus.Core.Sha256

/-! # The Update Receiver

    `core/update.c`: the transaction state machine behind `FRAME_UPDATE`.

    One call of `update_process` returns an `UpdateStep`: its result, the
    receiver it leaves, the reply, and the stores it performed on the
    staging bytes and on the staging magic. -/

namespace Interclus

open Words

def UPDATE_MAX_IMAGE : U16 := 552
def UPDATE_MAX_CHUNK : U8 := 64

def UPDATE_OP_BEGIN  : U8 := 0x1
def UPDATE_OP_DATA   : U8 := 0x2
def UPDATE_OP_COMMIT : U8 := 0x3
def UPDATE_OP_ABORT  : U8 := 0x4

def UPDATE_ACK          : U8 := 0x80
def UPDATE_NACK         : U8 := 0x81
def UPDATE_REPLY_STAGED : U8 := 0x82
def UPDATE_ACCEPT       : U8 := 0x83
def UPDATE_REJECT       : U8 := 0x84
def UPDATE_ABORTED      : U8 := 0x85

def UPDATE_ERR_FORMAT   : U8 := 1
def UPDATE_ERR_CRC      : U8 := 2
def UPDATE_ERR_SEQUENCE : U8 := 3
def UPDATE_ERR_BUSY     : U8 := 4
def UPDATE_ERR_HASH     : U8 := 5
def UPDATE_ERR_STATE    : U8 := 6
def UPDATE_ERR_ID       : U8 := 7

def UPDATE_PEND_MAGIC : U32 := 0x444E4550

/-- `UPDATE_STATE_*`. -/
inductive UpdateState where
  | idle | active | staged | done
  deriving DecidableEq, Repr

/-- `update_rx`. -/
structure UpdateRx where
  id : U32
  total : U16
  received : U16
  nextSeq : U16
  expectedSha : Digest
  state : UpdateState
  finalCode : U8

/-- `update_reply`. -/
structure UpdateReply where
  id : U32
  nextSeq : U16
  code : U8
  detail : U8
  deriving DecidableEq, Repr

/-! ## Helpers -/

def crcBit (crc : U16) : U16 :=
  if crc &&& 1 ≠ 0 then (crc >>> 1) ^^^ 0xA001 else crc >>> 1

/-- One byte: eight shifts. -/
def crcByte (crc : U16) (d : U8) : U16 :=
  (List.range 8).foldl (fun crc _ => crcBit crc) (crc ^^^ d.setWidth 16)

def updateCrc16 (data : Mem) (len : Nat) : U16 :=
  (List.range len).foldl (fun crc i => crcByte crc (data i)) 0xFFFF

def crcOk (p : Mem) (n : Nat) : Bool := updateCrc16 p (n - 2) = le16 p (n - 2)

def replySet (rx : UpdateRx) (code detail : U8) (id : U32) : UpdateReply where
  id := if id ≠ 0 then id else rx.id
  nextSeq := rx.nextSeq
  code := code
  detail := detail

def updateReset : UpdateRx where
  id := 0
  total := 0
  received := 0
  nextSeq := 0
  expectedSha := fun _ => 0
  state := .idle
  finalCode := 0

/-! ## One command -/

/-- What one call does. -/
structure UpdateStep where
  ret : Bool
  rx : UpdateRx
  /-- The byte stores into the staging area, in order. -/
  stores : List (Nat × U8)
  /-- The store to the staging magic, if there is one. -/
  magic : Option U32
  reply : UpdateReply

/-- A call that refuses and touches nothing. -/
def nack (rx : UpdateRx) (detail : U8) (id : U32) : UpdateStep :=
  ⟨false, rx, [], none, replySet rx UPDATE_NACK detail id⟩

/-- A call that answers a repeated command and touches nothing. -/
def repeated (rx : UpdateRx) (code : U8) (id : U32) : UpdateStep :=
  ⟨true, rx, [], none, replySet rx code 0 id⟩

/-- The digest a BEGIN announces. -/
def beginSha (p : Mem) : Digest := fun i => p (7 + i)

def processBegin (rx : UpdateRx) (p : Mem) (n : Nat) (magic id : U32) : UpdateStep :=
  if n ≠ 41 then nack rx UPDATE_ERR_FORMAT id
  else if ¬ crcOk p n then nack rx UPDATE_ERR_CRC id
  else
    let total := le16 p 5
    if id = 0 ∨ total < 48 ∨ UPDATE_MAX_IMAGE < total then nack rx UPDATE_ERR_FORMAT id
    else if (rx.state = .active ∨ rx.state = .staged ∨ rx.state = .done) ∧ rx.id = id then
      -- a repeat of the BEGIN this transaction was opened by
      if rx.total ≠ total then nack rx UPDATE_ERR_ID id
      else if ¬ ∀ i, rx.expectedSha i = beginSha p i then nack rx UPDATE_ERR_ID id
      else if rx.state = .done then repeated rx rx.finalCode id
      else if rx.state = .staged then repeated rx UPDATE_REPLY_STAGED id
      else repeated rx UPDATE_ACK id
    else if rx.state = .active ∨ rx.state = .staged ∨ magic = UPDATE_PEND_MAGIC then
      nack rx UPDATE_ERR_BUSY id
    else
      let rx := { updateReset with
        id := id, total := total, expectedSha := beginSha p, state := .active }
      ⟨true, rx, [], some 0, replySet rx UPDATE_ACK 0 id⟩

/-- The stores of a DATA command, in the order of the copy loop. -/
def dataStores (p : Mem) (off len : Nat) : List (Nat × U8) :=
  (List.range len).map fun i => (off + i, p (10 + i))

def processData (rx : UpdateRx) (p : Mem) (n : Nat) (pend : Mem) (id : U32) : UpdateStep :=
  if n < 12 then nack rx UPDATE_ERR_FORMAT id
  else
    let seq := le16 p 5
    let off := le16 p 7
    let len := p 9
    if len = 0 ∨ UPDATE_MAX_CHUNK < len ∨ n ≠ 12 + len.toNat ∨
        rx.total.toNat < off.toNat + len.toNat then nack rx UPDATE_ERR_FORMAT id
    else if rx.state ≠ .active then nack rx UPDATE_ERR_STATE id
    else if seq.toNat + 1 = rx.nextSeq.toNat ∧ off.toNat + len.toNat = rx.received.toNat then
      -- a repeat of the chunk received last
      if ∀ i < len.toNat, pend (off.toNat + i) = p (10 + i) then repeated rx UPDATE_ACK id
      else nack rx UPDATE_ERR_SEQUENCE id
    else if seq ≠ rx.nextSeq ∨ off ≠ rx.received then nack rx UPDATE_ERR_SEQUENCE id
    else
      let rx := { rx with
        received := rx.received + len.setWidth 16, nextSeq := rx.nextSeq + 1 }
      ⟨true, rx, dataStores p off.toNat len.toNat, none, replySet rx UPDATE_ACK 0 id⟩

def processCommit (rx : UpdateRx) (n : Nat) (pend : Mem) (id : U32) : UpdateStep :=
  if n ≠ 7 then nack rx UPDATE_ERR_FORMAT id
  else if rx.state = .done then repeated rx rx.finalCode id
  else if rx.state = .staged then repeated rx UPDATE_REPLY_STAGED id
  else if rx.state ≠ .active then nack rx UPDATE_ERR_STATE id
  else if rx.received ≠ rx.total then nack rx UPDATE_ERR_SEQUENCE id
  else
    let digest := sha256 pend (rx.total.setWidth 32)
    if ∀ i, digest i = rx.expectedSha i then
      let rx := { rx with state := .staged }
      ⟨true, rx, [], some UPDATE_PEND_MAGIC, replySet rx UPDATE_REPLY_STAGED 0 id⟩
    else nack { rx with state := .idle } UPDATE_ERR_HASH id

def processAbort (rx : UpdateRx) (n : Nat) (id : U32) : UpdateStep :=
  if n ≠ 7 then nack rx UPDATE_ERR_FORMAT id
  else if rx.state = .active then
    let rx := { rx with state := .idle, received := 0, nextSeq := 0 }
    ⟨true, rx, [], some 0, replySet rx UPDATE_ABORTED 0 id⟩
  else nack rx UPDATE_ERR_STATE id

/-- `update_process` on the `n` bytes at `p`. -/
def updateProcess (rx : UpdateRx) (p : Mem) (n : Nat) (pend : Mem) (magic : U32) : UpdateStep :=
  if n = 0 then nack rx UPDATE_ERR_FORMAT 0
  else
    let op := p 0
    let id := if 5 ≤ n then le32 p 1 else 0
    if op = UPDATE_OP_BEGIN then processBegin rx p n magic id
    else if n < 7 then nack rx UPDATE_ERR_FORMAT id
    else if ¬ crcOk p n then nack rx UPDATE_ERR_CRC id
    else if rx.state = .idle ∨ id ≠ rx.id then nack rx UPDATE_ERR_ID id
    else if op = UPDATE_OP_DATA then processData rx p n pend id
    else if op = UPDATE_OP_COMMIT then processCommit rx n pend id
    else if op = UPDATE_OP_ABORT then processAbort rx n id
    else nack rx UPDATE_ERR_FORMAT id

def updateFinish (rx : UpdateRx) (accepted : Bool) : UpdateRx :=
  { rx with finalCode := if accepted then UPDATE_ACCEPT else UPDATE_REJECT, state := .done }

/-! ## The staging area -/

/-- Perform byte stores in order. -/
def applyStores (m : Mem) (stores : List (Nat × U8)) : Mem :=
  stores.foldl (fun m s => fun i => if i = s.1 then s.2 else m i) m

/-- The staging bytes after a call. -/
def UpdateStep.pend (r : UpdateStep) (pend : Mem) : Mem := applyStores pend r.stores

/-- The staging magic after a call. -/
def UpdateStep.pendMagic (r : UpdateStep) (magic : U32) : U32 := r.magic.getD magic

end Interclus

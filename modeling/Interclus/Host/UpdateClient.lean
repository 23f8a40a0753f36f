import Interclus.Host.UpdateFrame

/-! # The Update Client

    `Client.transfer` of `tools/update_client.py`, cut where it waits: each
    operation takes the client from one wait to the next and says which
    frames it sent in between. -/

namespace Interclus

open Words

/-- The chunk size of `transfer`. -/
def CHUNK_SIZE : Nat := 32

/-- The longest image `transfer` sends. -/
def MAX_IMAGE : Nat := 552

/-- The exchanges of a transfer. -/
inductive Stage where
  | begin
  | chunk (seq : Nat)
  | commit
  deriving DecidableEq, Repr

/-- Where the client waits. -/
inductive ClientPc where
  | ready
  /-- In `_exchange`, for a reply to this attempt. -/
  | exchange (stage : Stage) (attempt : Nat)
  /-- After COMMIT, for the verdict. -/
  | final
  | returned (ok : Bool)
  | raised
  deriving DecidableEq, Repr

structure Client where
  retries : Nat
  tid : U32
  image : List U8
  pc : ClientPc

/-! ## Exchanges -/

/-- The frame of an exchange. -/
def Stage.frame (tid : U32) (image : List U8) : Stage → List U8
  | .begin => beginFrame tid image
  | .chunk seq => chunkFrame tid image CHUNK_SIZE seq
  | .commit => commitFrame tid

/-- The `accept` of an exchange. -/
def Stage.accepts (r : UpdateReply) : Stage → Bool
  | .begin => r.code = 0x80 ∨ r.code = 0x82 ∨ r.code = 0x83 ∨ r.code = 0x84
  | .chunk seq => r.code = 0x80 ∧ seq + 1 ≤ r.nextSeq.toNat
  | .commit => r.code = 0x82 ∨ r.code = 0x83 ∨ r.code = 0x84

/-- The exchange behind an accepted one. -/
def Client.next (c : Client) : Stage → Option Stage
  | .begin => some (.chunk 0)
  | .chunk seq =>
    if seq + 1 < chunkCount c.image CHUNK_SIZE then some (.chunk (seq + 1)) else some .commit
  | .commit => none

/-- Start attempt `k` of an exchange, or give up. -/
def Client.attempt (c : Client) (stage : Stage) (k : Nat) : Client × List (List U8) :=
  if k < c.retries then ({ c with pc := .exchange stage k }, [stage.frame c.tid c.image])
  else ({ c with pc := .raised }, [])

/-- Past an accepted reply. -/
def Client.accepted (c : Client) (stage : Stage) (r : UpdateReply) : Client × List (List U8) :=
  match c.next stage with
  | some stage' => c.attempt stage' 0
  | none => ({ c with pc := if r.code = 0x82 then .final else .returned (r.code = 0x83) }, [])

/-! ## Operations -/

/-- `transfer`, up to the first wait. -/
def Client.start (c : Client) (tid : U32) (image : List U8) : Client × List (List U8) :=
  let c := { c with tid := tid, image := image }
  if image = [] ∨ MAX_IMAGE < image.length then ({ c with pc := .raised }, [])
  else c.attempt .begin 0

/-- `recv()` returned a reply. -/
def Client.receive (c : Client) (r : UpdateReply) : Client × List (List U8) :=
  match c.pc with
  | .exchange stage k =>
    if r.id ≠ c.tid then (c, [])
    else if stage.accepts r then c.accepted stage r
    else if r.code = 0x81 ∧ (r.detail = 2 ∨ r.detail = 3) then c.attempt stage (k + 1)
    else (c, [])
  | .final =>
    if r.code = 0x83 ∨ r.code = 0x84 then ({ c with pc := .returned (r.code = 0x83) }, [])
    else (c, [])
  | _ => (c, [])

/-- The deadline passed. -/
def Client.timeout (c : Client) : Client × List (List U8) :=
  match c.pc with
  | .exchange stage k => c.attempt stage (k + 1)
  | .final => ({ c with pc := .returned false }, [])
  | _ => (c, [])

end Interclus

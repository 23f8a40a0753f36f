import Interclus.Core.Loader
import Interclus.Supervisor.State

/-! # The Hot Path

    `trust_check`, `hot_swap` and `hot_update_finalize` of
    `modules/supervisor.c`: a staged image passes the digest gate, the
    trust list and the gate of its kind before it goes live. -/

namespace Interclus

open Words

/-! ## The gates of a staged image -/

def pendW0 (pend : Mem) : U32 := le32 pend 0
def pendKind (pend : Mem) : U32 := le32 pend 4
def pendEntry (pend : Mem) : U32 := le32 pend 8
def pendSlot (pend : Mem) : U32 := le32 pend 12

/-- The 32 bytes at an offset. -/
def digestAt (m : Mem) (off : Nat) : Digest := fun k => m (off + k)

/-- `trust_check`: the digest is that of the body, and it is pinned. -/
def trustCheck (trusted : List Digest) (img : Mem) (body : U32) (digest : Digest) : Bool :=
  if ¬ ∀ k, sha256 img body k = digest k then false
  else trusted.any fun t => decide (∀ k, t k = digest k)

/-- The length of header and payload, for a kind and a count it admits. -/
def pendBody (kind w0 : U32) : Option U32 :=
  if kind = PEND_NATIVE then
    if w0 = 0 ∨ 0x1F0 < w0 then none else some (16 + w0)
  else if kind = PEND_EBPF then
    if w0 = 0 ∨ IC_PROG_MAX_INSNS < w0 then none else some (8 + w0 * 8)
  else none

/-- The staged image is well formed, untampered and known. -/
def pendTrusted (trusted : List Digest) (pend : Mem) : Bool :=
  match pendBody (pendKind pend) (pendW0 pend) with
  | none => false
  | some body =>
    if BitVec.ofNat 32 (PROG_PEND_MAGIC_OFF - 8 - SHA256_LEN) < body ∨ body < 16 then false
    else trustCheck trusted pend body (digestAt pend body.toNat)

/-- The slot a native image names. -/
def slotOf (slot : U32) : Fin 2 := if slot = 0 then 0 else 1

/-- The gate of a native image. -/
def nativeGate (t : Target) (w0 entry slot : U32) : Bool :=
  if w0 = 0 ∨ 0x1F0 < w0 ∨ entry &&& 1 ≠ 0 ∨ 0x1000 ≤ entry ∨ 1 < slot then false
  else icModuleCheck (some (natDesc t (slotOf slot) entry)) = .ok

/-- The gate of an eBPF image. -/
def ebpfGate (t : Target) (w0 : U32) (ins : Nat → U64) : Bool :=
  if w0 = 0 ∨ IC_PROG_MAX_INSNS < w0 then false
  else icModuleCheck (some (progDesc t w0)) = .ok ∧ icProgramCheck (some ins) w0 = .ok

/-- The staged instructions. -/
def pendInsns (pend : Mem) : Nat → U64 := insnWords fun i => pend (8 + i)

/-! ## Installing -/

def hotReject (s : Sup) : Sup := { s.incStatus S_HREJ with pendOk := 0 }

def hotAccept (s : Sup) : Sup := { s with pendOk := 0 }.incStatus S_HLOAD

/-- Install a native image; `none` when the mirror write stores outside its
    page buffer. -/
def installNative (b : Build) (s : Sup) : Option Sup :=
  let w0 := pendW0 s.pend
  let entry := pendEntry s.pend
  let slot := pendSlot s.pend
  let k := slotOf slot
  let code : Mem := fun i => s.pend (16 + i)
  (flashMirrorWrite b.flash s.mirror slot code w0 entry).map fun (ret, mirror) =>
    let s := { s.setText k (memcpy (s.natText k) code w0.toNat) with mirror := mirror }
    let s := s.setStatus S_FPROG (BitVec.ofInt 32 ret)
    let s := { s.setNat k ⟨w0, entry, true, false⟩ with natLive := k, natRetired := false }
    let s := s.setStatus S_NSLOT slot
    let t0 := s.clock 0
    let s := s.ticked
    let s := { s with
      comp := compartmentArm 2 (compartmentSet 2 (natSpec b.target k) entry s.comp) }
    let t1 := s.clock 0
    s.ticked.setStatus S_REMAP (t1 - t0)

/-- Install an eBPF image: live to shadow, staged to live. -/
def installEbpf (s : Sup) : Sup :=
  let w0 := pendW0 s.pend
  { s with mon := { s.mon with
      progBCnt := s.mon.progCnt
      progB := fun i => if i < 64 then s.mon.prog i else s.mon.progB i
      prog := fun i => if i < w0.toNat then pendInsns s.pend i else s.mon.prog i
      progCnt := w0
      progFault := 0 } }

/-- `hot_swap`. -/
def hotSwap (b : Build) (s : Sup) : Option Sup :=
  if s.pendOk ≠ PROG_PEND_MAGIC then some s
  else if ¬ pendTrusted b.trusted s.pend then some (hotReject s)
  else if pendKind s.pend = PEND_NATIVE then
    if nativeGate b.target (pendW0 s.pend) (pendEntry s.pend) (pendSlot s.pend) then
      (installNative b s).map hotAccept
    else some (hotReject s)
  else if pendKind s.pend = PEND_EBPF then
    if ebpfGate b.target (pendW0 s.pend) (pendInsns s.pend) then
      some (hotAccept (installEbpf s))
    else some (hotReject s)
  else some (hotReject s)

/-! ## Answering the transaction -/

/-- `update_send_reply`: the ten bytes on the wire. -/
def replyBytes (r : UpdateReply) : List U8 :=
  let p : List U8 := [r.code, byteOf r.id 0, byteOf r.id 1, byteOf r.id 2, byteOf r.id 3,
    byteOf r.nextSeq 0, byteOf r.nextSeq 1, r.detail]
  let crc := updateCrc16 (fun i => p.getD i 0) 8
  p ++ [byteOf crc 0, byteOf crc 1]

def updateSendReply (r : UpdateReply) (s : Sup) : Sup :=
  (s.sendFrameLimited FRAME_UPDATE_REPLY (replyBytes r)).2

/-- The verdict on a transaction. -/
def finalReply (rx : UpdateRx) (accepted : Bool) : UpdateReply :=
  ⟨rx.id, rx.nextSeq, if accepted then UPDATE_ACCEPT else UPDATE_REJECT,
    if accepted then 0 else UPDATE_ERR_STATE⟩

/-- The transaction is over, and the host is told. -/
def settle (accepted : Bool) (s : Sup) : Sup :=
  let s := { s with update := updateFinish s.update accepted }
  updateSendReply (finalReply s.update accepted) s

/-- `hot_update_finalize`. -/
def hotUpdateFinalize (s : Sup) : Sup :=
  if s.update.state ≠ .staged then s
  else
    let hload := s.status S_HLOAD
    let hrej := s.status S_HREJ
    if hload = s.updateHload ∧ hrej = s.updateHrej then s
    else settle (hload ≠ s.updateHload ∧ hrej = s.updateHrej) s

end Interclus

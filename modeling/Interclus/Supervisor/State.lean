import Interclus.Core.Compartment
import Interclus.Core.Flash
import Interclus.Core.Platform
import Interclus.Core.Update

/-! # Supervisor State

    The globals of `modules/supervisor.c` and the memory it shares with the
    compartments, the transports and the debugger, as one record.

    What the code reads from outside is part of the state: `clock` are the
    values its timer reads will return, `txDrains` whether a bounded
    transmission will get through, `junk` what uninitialised locals hold. -/

namespace Interclus

open Words

/-! ## Build parameters -/

/-- What differs between builds of the image: the target, the pinned
    digests, the linked demo module, the flash, and linked addresses. -/
structure Build where
  target : Target
  trusted : List Digest
  demo : Mem
  demoLen : U32
  flash : FlashDev
  monitorEntry : U32
  /-- `atk_vec[7]`. -/
  atkEntry : Nat → U32

/-! ## Memory -/

/-- The two native slots are numbered by `Fin 2`. -/
instance slotsNeZero : NeZero 2 := ⟨by decide⟩

/-- `struct nat_slot`. -/
structure NatSlot where
  len : U32
  entry : U32
  valid : Bool
  evicted : Bool
  deriving DecidableEq, Repr

/-- The monitor box slots the supervisor reads or writes. -/
structure MonBox where
  mode : U32
  off : Nat → U32
  sizes : Nat → U32
  input : Mem
  confN : U32
  sOff : Nat → U32
  sSizes : Nat → U32
  data : Mem
  map : Nat → U32
  verdicts : Nat → U32
  insns : Nat → U32
  screenVerd : Nat → U32
  screenInsns : Nat → U32
  nativeVerd : Nat → U32
  prog : Nat → U64
  progCnt : U32
  progB : Nat → U64
  progBCnt : U32
  progFault : U32

/-- A frame handed to the transmitter. -/
structure TxFrame where
  type : U8
  payload : List U8
  deriving DecidableEq, Repr

/-- Where the core is between two supervisor calls. -/
inductive Control where
  /-- In U-mode, in the compartment entered last. -/
  | user (e : UserEntry)
  /-- In the service loop of the board, which has seen this `S_HLOAD`. -/
  | service (seen : U32)
  /-- Back in the test harness of the QEMU target. -/
  | swept
  /-- In a fail-stop heartbeat. -/
  | halted
  /-- In the fail-stop of `compartment_enter`. -/
  | parked

structure Sup where
  status : Nat → U32
  mailbox : Mem
  progArea : Mem
  pend : Mem
  pendOk : U32
  mon : MonBox
  nat : Fin 2 → NatSlot
  natLive : Fin 2
  natRetired : Bool
  natText : Fin 2 → Mem
  /-- The first word of each native SRAM window. -/
  natProof : Fin 2 → U32
  mirror : Mem
  comp : CompTable
  update : UpdateRx
  updateHload : U32
  updateHrej : U32
  riIndex : U32
  riCause : Nat → U32
  riAddr : Nat → U32
  phase : U32
  inputSum : U32
  stk0 : U32
  alerts : U32
  conflictN : U32
  source : U32
  atkVec : U32
  atkOwn : U32
  atkProof : U32
  clock : Nat → U32
  txDrains : Nat → Bool
  junk : Nat → U8
  tx : List TxFrame
  ctl : Control

/-! ## A blank machine -/

/-- A build of the QEMU target that pins `trusted`, with an empty demo. -/
def Build.pinning (trusted : List Digest) : Build where
  target := .qemu
  trusted := trusted
  demo := fun _ => 0
  demoLen := 4
  flash := .ram
  monitorEntry := MON_TEXT .qemu
  atkEntry := fun v => ATK_TEXT .qemu + BitVec.ofNat 32 (16 * v)

/-- All memory zero. -/
def Sup.zeroed : Sup where
  status := fun _ => 0
  mailbox := fun _ => 0
  progArea := fun _ => 0
  pend := fun _ => 0
  pendOk := 0
  mon := ⟨0, fun _ => 0, fun _ => 0, fun _ => 0, 0, fun _ => 0, fun _ => 0, fun _ => 0, fun _ => 0,
    fun _ => 0, fun _ => 0, fun _ => 0, fun _ => 0, fun _ => 0, fun _ => 0, 0, fun _ => 0, 0, 0⟩
  nat := fun _ => ⟨0, 0, false, false⟩
  natLive := 0
  natRetired := false
  natText := fun _ _ => 0
  natProof := fun _ => 0
  mirror := fun _ => 0
  comp := .zeroed
  update := updateReset
  updateHload := 0
  updateHrej := 0
  riIndex := 0
  riCause := fun _ => 0
  riAddr := fun _ => 0
  phase := 0
  inputSum := 0
  stk0 := 0
  alerts := 0
  conflictN := 0
  source := 0
  atkVec := 0
  atkOwn := 0
  atkProof := 0
  clock := fun _ => 0
  txDrains := fun _ => true
  junk := fun _ => 0
  tx := []
  ctl := .swept

/-! ## Small writes -/

def Sup.setStatus (s : Sup) (i : Nat) (v : U32) : Sup :=
  { s with status := fun j => if j = i then v else s.status j }

/-- `STATUS[i]++`. -/
def Sup.incStatus (s : Sup) (i : Nat) : Sup := s.setStatus i (s.status i + 1)

/-- `STATUS[base + k] = v k` for `k < n`. -/
def Sup.setStatusRange (s : Sup) (base n : Nat) (v : Nat → U32) : Sup :=
  { s with status := fun j => if base ≤ j ∧ j < base + n then v (j - base) else s.status j }

/-- Past one `TIMER_NOW()`. -/
def Sup.ticked (s : Sup) : Sup := { s with clock := fun k => s.clock (k + 1) }

def Sup.setNat (s : Sup) (k : Fin 2) (slot : NatSlot) : Sup :=
  { s with nat := fun j => if j = k then slot else s.nat j }

def Sup.setText (s : Sup) (k : Fin 2) (text : Mem) : Sup :=
  { s with natText := fun j => if j = k then text else s.natText j }

/-- `*(volatile uint32_t *)NAT_SRAM = v`, for slot `k`. -/
def Sup.setProof (s : Sup) (k : Fin 2) (v : U32) : Sup :=
  { s with natProof := fun j => if j = k then v else s.natProof j }

@[simp] theorem Sup.setNat_nat (s : Sup) (k : Fin 2) (slot : NatSlot) :
    (s.setNat k slot).nat k = slot := if_pos rfl

@[simp] theorem Sup.setText_natText (s : Sup) (k : Fin 2) (text : Mem) :
    (s.setText k text).natText k = text := if_pos rfl

/-- `uart_send_frame`. -/
def Sup.sendFrame (s : Sup) (type : U8) (payload : List U8) : Sup :=
  { s with tx := s.tx ++ [⟨type, payload⟩] }

/-- `uart_send_frame_limited`: whether the frame went out. -/
def Sup.sendFrameLimited (s : Sup) (type : U8) (payload : List U8) : Bool × Sup :=
  let s' := { s with txDrains := fun k => s.txDrains (k + 1) }
  if s.txDrains 0 then (true, s'.sendFrame type payload) else (false, s')

/-- The other native slot, `k ^ 1`. -/
def otherSlot (k : Fin 2) : Fin 2 := 1 - k

/-- `nat_spec`. -/
def natSpec (t : Target) (k : Fin 2) : IcCompartmentSpec :=
  if k = 0 then ⟨NAT_TEXT t, 0x1000, NAT_SRAM t, 0x1000⟩
  else ⟨NAT2_TEXT t, 0x1000, NAT2_SRAM t, 0x1000⟩

/-- The descriptor of a native module at `entry` in slot `k`. -/
def natDesc (t : Target) (k : Fin 2) (entry : U32) : IcModuleDesc :=
  ⟨IC_MODULE_MAGIC, IC_CONTRACT_VERSION, IC_MODULE_NATIVE, (natSpec t k).textBase, 0x1000,
    (natSpec t k).sramBase, 0x1000, entry, 0⟩

/-- The descriptor of `cnt` instructions in the monitor slot. -/
def progDesc (t : Target) (cnt : U32) : IcModuleDesc :=
  ⟨IC_MODULE_MAGIC, IC_CONTRACT_VERSION, IC_MODULE_EBPF, monProgAddr t, cnt * 8, 0, 0, 0, 0⟩

/-- `memcpy` of `n` bytes to the start of `dst`. -/
def memcpy (dst src : Mem) (n : Nat) : Mem := fun i => if i < n then src i else dst i

/-- The instruction words of an image of bytes. -/
def insnWords (m : Mem) : Nat → U64 := fun i => le64 m (8 * i)

end Interclus

import Interclus.Core.Contract

/-! # The Platform

    `core/platform.h`, with the generated `descriptions/demo.h`: the
    address map of the two build targets, the layout of the staging area,
    the STATUS words, and the descriptors that ship with the image. -/

namespace Interclus

open Words

/-- `QEMU_TARGET` or the board. -/
inductive Target where
  | qemu | board
  deriving DecidableEq, Repr

/-! ## Address map -/

def MON_TEXT : Target → U32
  | .qemu => 0x80100000 | .board => 0x08004000
def ATK_TEXT : Target → U32
  | .qemu => 0x80102000 | .board => 0x08006000
def MON_BOX : Target → U32
  | .qemu => 0x80200000 | .board => 0x20004000
def ATK_BOX : Target → U32
  | .qemu => 0x80208000 | .board => 0x20008000
def NAT_TEXT : Target → U32
  | .qemu => 0x80210000 | .board => 0x2000A000
def NAT_SRAM : Target → U32
  | .qemu => 0x80211000 | .board => 0x2000B000
def NAT2_TEXT : Target → U32
  | .qemu => 0x80212000 | .board => 0x2000C000
def NAT2_SRAM : Target → U32
  | .qemu => 0x80213000 | .board => 0x2000D000

/-- The address of `MON_PROG`. -/
def monProgAddr (t : Target) : U32 := MON_BOX t + 0x1600

def MAP_CELLS : Nat := 64

def PROG_MAGIC : U32 := 0x474F5250

/-- `MO_SHU`, the mailbox magic. -/
def MO_SHU : U32 := 0x5741524D
def MAX_SWARM : U32 := 64

/-! ## The staging area -/

def PROG_PEND_MAGIC : U32 := 0x444E4550

/-- The offset of the staging magic behind the staged body. -/
def PROG_PEND_MAGIC_OFF : Nat := 0x240

def PEND_EBPF : U32 := 1
def PEND_NATIVE : U32 := 2

def SHA256_LEN : Nat := 32

/-! ## STATUS words -/

def S_CAIJUE : Nat := 16
def S_INSNS : Nat := 24
def S_VINTACT : Nat := 32
def S_IINTACT : Nat := 33
def S_OWNOOK : Nat := 34
def S_INTER : Nat := 40
def S_LOG0C : Nat := 41
def S_DONE : Nat := 56
def S_BAN_CAIJUE : Nat := 64
def S_CINSNS : Nat := 72
def S_CYC0 : Nat := 80
def S_CYC1 : Nat := 81
def S_CYC2 : Nat := 82
def S_JINGBAO : Nat := 83
def S_CHONGTU_N : Nat := 84
def S_LAIYUAN : Nat := 85
def S_NATOK : Nat := 86
def S_RDROK : Nat := 87
def S_GATE : Nat := 88
def S_LOAD : Nat := 89
def S_UTX : Nat := 90
def S_URX : Nat := 91
def S_NAT2 : Nat := 92
def S_HLOAD : Nat := 93
def S_HREJ : Nat := 94
def S_ROLL : Nat := 95
def S_REMAP : Nat := 96
def S_NSLOT : Nat := 97
def S_REARM : Nat := 98
def S_FPROG : Nat := 99
def S_PREEMPT : Nat := 100
def S_TXABORT : Nat := 101
def S_HALT : Nat := 102
def S_HALTC : Nat := 103
def S_FUZZA : Nat := 104
def S_FUZZR : Nat := 105

def STATUS_WORDS : Nat := 106

/-- The STATUS word `STATUS_NAME` points at. -/
def statusNameWord : Target → Nat
  | .qemu => 0x110 / 4 | .board => 0x10 / 4

/-! ## Console frame types -/

def FRAME_TELE : U8 := 0xF
def FRAME_REARM : U8 := 0xE
def FRAME_STATUS : U8 := 0xD
def FRAME_UPDATE : U8 := 0x4
def FRAME_UPDATE_REPLY : U8 := 0xC

/-- The longest program frame of the boot window. -/
def UART_FRAME_MAX : Nat := 520

/-! ## Shipped descriptors -/

def icCompMonitor : Target → IcCompartmentSpec
  | .qemu => ⟨0x80100000, 0x2000, 0x80200000, 0x2000⟩
  | .board => ⟨0x8004000, 0x2000, 0x20004000, 0x2000⟩

def icCompAttacker : Target → IcCompartmentSpec
  | .qemu => ⟨0x80102000, 0x2000, 0x80208000, 0x2000⟩
  | .board => ⟨0x8006000, 0x2000, 0x20008000, 0x2000⟩

def icCompNative : Target → IcCompartmentSpec
  | .qemu => ⟨0x80210000, 0x1000, 0x80211000, 0x1000⟩
  | .board => ⟨0x2000A000, 0x1000, 0x2000B000, 0x1000⟩

/-- A descriptor that declares the windows of a spec. -/
def specDesc (kind : U16) (s : IcCompartmentSpec) (entryOffset : U32) : IcModuleDesc :=
  ⟨IC_MODULE_MAGIC, 1, kind, s.textBase, s.textSize, s.sramBase, s.sramSize, entryOffset, 0⟩

def icModuleMonitor (t : Target) : IcModuleDesc := specDesc IC_MODULE_EBPF (icCompMonitor t) 0
def icModuleAttacker (t : Target) : IcModuleDesc := specDesc IC_MODULE_NATIVE (icCompAttacker t) 0
def icModuleNativedemo (t : Target) : IcModuleDesc := specDesc IC_MODULE_NATIVE (icCompNative t) 0

/-- `policies/mavlink.h` and `policies/screening.h`: 28 and 34 words. -/
def icModuleMavlink : IcModuleDesc :=
  ⟨IC_MODULE_MAGIC, IC_CONTRACT_VERSION, IC_MODULE_EBPF, 0, 28 * 8, 0, 0, 0, 0⟩

def icModuleScreening : IcModuleDesc :=
  ⟨IC_MODULE_MAGIC, IC_CONTRACT_VERSION, IC_MODULE_EBPF, 0, 34 * 8, 0, 256, 0, 0⟩

end Interclus

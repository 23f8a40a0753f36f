import Interclus.Core.Contract
import Interclus.Framework.Pmp

/-! # The Compartment Table

    `core/compartment.c`: the table of PMP compartments, and the PMP CSRs
    its switches write. -/

namespace Interclus

open Words

def COMP_COUNT : Nat := 4

/-! ## PMP encodings -/

def NAPOT (base size : U32) : U32 := (base >>> 2) ||| ((size >>> 3) - 1)

def PMP_DENY : U32 := 0xFFFFFFFF

def CSR_PMPCFG0 : Nat := 0x3a0
def CSR_PMPADDR0 : Nat := 0x3b0

/-- R/W NAPOT, R/X NAPOT, off, and the deny-all filler. -/
def PMP_CFGW : U32 := 0x1B ||| 0x1D <<< 8 ||| 0x00 <<< 16 ||| 0x18 <<< 24

/-! ## The table -/

/-- `struct compartment`. -/
structure Compartment where
  spec : IcCompartmentSpec
  entry : U32
  armed : Bool
  evicted : Bool
  tcb : Fin 32 → U32

/-- The table, its globals, and the PMP CSRs of the core. -/
structure CompTable where
  comps : Nat → Compartment
  /-- `cur_tcb`, as the index of the compartment it points into. -/
  curTcb : Option Nat
  curComp : Nat
  cfgw : U32
  csr : Nat → U32

/-- The zeroed `.comp_state` section. -/
def CompTable.zeroed : CompTable where
  comps := fun _ => ⟨⟨0, 0, 0, 0⟩, 0, false, false, fun _ => 0⟩
  curTcb := none
  curComp := 0
  cfgw := 0
  csr := fun _ => 0

def CompTable.setComp (t : CompTable) (i : Nat) (c : Compartment) : CompTable :=
  { t with comps := fun j => if j = i then c else t.comps j }

def csrSet (t : CompTable) (csr : Nat) (v : U32) : CompTable :=
  { t with csr := fun n => if n = csr then v else t.csr n }

def compartmentSet (i : Nat) (spec : IcCompartmentSpec) (entry : U32) (t : CompTable) :
    CompTable :=
  if COMP_COUNT ≤ i then t
  else t.setComp i ⟨spec, entry, false, false, fun _ => 0⟩

def compartmentArm (i : Nat) (t : CompTable) : CompTable :=
  if COMP_COUNT ≤ i ∨ (t.comps i).armed then t
  else
    let spec := (t.comps i).spec
    let t := csrSet t CSR_PMPCFG0 0
    let t := csrSet t CSR_PMPADDR0 (NAPOT spec.sramBase spec.sramSize)
    let t := csrSet t (CSR_PMPADDR0 + 1) (NAPOT spec.textBase spec.textSize)
    let t := csrSet t (CSR_PMPADDR0 + 2) 0
    let t := csrSet t (CSR_PMPADDR0 + 3) PMP_DENY
    let t := csrSet t CSR_PMPCFG0 PMP_CFGW
    { t with
      cfgw := PMP_CFGW
      comps := fun j =>
        if j < COMP_COUNT then { t.comps j with armed := decide (j = i) } else t.comps j }

def compartmentEvict (i : Nat) (t : CompTable) : CompTable :=
  if COMP_COUNT ≤ i then t
  else t.setComp i { t.comps i with evicted := true, armed := false }

def compartmentEvicted (i : Nat) (t : CompTable) : Bool :=
  if i < COMP_COUNT then (t.comps i).evicted else true

/-- What `mret` hands to U-mode: the target and the restored registers. -/
structure UserEntry where
  comp : Nat
  mepc : U32
  regs : Fin 32 → U32

/-- `compartment_enter`; `none` is the parked core of an evicted
    compartment. -/
def compartmentEnter (i : Nat) (t : CompTable) : Option (CompTable × UserEntry) :=
  if (t.comps i).evicted then none
  else
    let t := compartmentArm i t
    some ({ t with curComp := i, curTcb := some i },
      ⟨i, (t.comps i).spec.textBase + (t.comps i).entry, (t.comps i).tcb⟩)

/-- The victim's registers land in the TCB of the running compartment. -/
def saveTcb (regs : Fin 32 → U32) (t : CompTable) : CompTable :=
  match t.curTcb with
  | none => t
  | some i => t.setComp i { t.comps i with
      tcb := fun r => if r = 0 then (t.comps i).tcb 0 else regs r }

/-! ## The armed policy -/

/-- Byte `i` of `pmpcfg0`. -/
def pmpCfgByte (cfg0 : U32) (i : Nat) : U8 := (cfg0 >>> (8 * i)).setWidth 8

/-- The four entries the CSRs of a core hold. -/
def pmpEntries (csr : Nat → U32) : List Pmp.Entry :=
  (List.range 4).map fun i => ⟨pmpCfgByte (csr CSR_PMPCFG0) i, csr (CSR_PMPADDR0 + i)⟩

/-- U-mode access to a byte under the CSRs of a core. -/
def userAccess (unmatched : Bool) (csr : Nat → U32) (acc : Pmp.Access) (a : U32) : Bool :=
  Pmp.allows unmatched acc a.toNat (pmpEntries csr) 0

end Interclus

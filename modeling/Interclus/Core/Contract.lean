import Interclus.Framework.Words

/-! # The Core Contract

    `core/contract.h`: status codes, compartment specs and module
    descriptors, and the descriptor gates of `core/loader.c`. -/

namespace Interclus

open Words

def IC_CONTRACT_VERSION : U16 := 1
def IC_MODULE_MAGIC : U32 := 0x494E434C

/-- `ic_status`. -/
inductive IcStatus where
  | ok | errNomem | errArgument | errContract | errValidate | errState | errPlatform
  deriving DecidableEq, Repr

/-- `ic_compartment_spec`. -/
structure IcCompartmentSpec where
  textBase : U32
  textSize : U32
  sramBase : U32
  sramSize : U32
  deriving DecidableEq, Repr

def IC_MODULE_EBPF : U16 := 1
def IC_MODULE_NATIVE : U16 := 2

/-- `ic_module_desc`. -/
structure IcModuleDesc where
  magic : U32
  contractVer : U16
  kind : U16
  textBase : U32
  textSize : U32
  sramBase : U32
  sramSize : U32
  entryOffset : U32
  reserved : U32
  deriving DecidableEq, Repr

def IC_MIN_REGION : U32 := 0x400

/-! ## Descriptor gates -/

def regionOk (base size : U32) : Bool :=
  base % 0x1000 = 0 ∧ IC_MIN_REGION ≤ size ∧ size &&& (size - 1) = 0 ∧ base < base + size

/-- `ic_compartment_check`; `none` is a null spec pointer. -/
def icCompartmentCheck : Option IcCompartmentSpec → IcStatus
  | none => .errArgument
  | some s =>
    if ¬ regionOk s.textBase s.textSize then .errArgument
    else if ¬ regionOk s.sramBase s.sramSize then .errArgument
    else .ok

def checkNative (d : IcModuleDesc) : IcStatus :=
  if ¬ regionOk d.textBase d.textSize then .errArgument
  else if ¬ regionOk d.sramBase d.sramSize then .errArgument
  else if d.entryOffset &&& 1 ≠ 0 ∨ d.textSize ≤ d.entryOffset then .errArgument
  else .ok

def checkEbpf (d : IcModuleDesc) : IcStatus :=
  if d.textBase ≠ 0 ∧ d.textBase % 8 ≠ 0 then .errArgument
  else if d.textSize % 8 ≠ 0 ∨ d.textSize < 8 then .errArgument
  else if d.entryOffset % 8 ≠ 0 ∨ d.textSize ≤ d.entryOffset then .errArgument
  else if d.sramSize ≠ 0 ∧ d.sramBase % 4 ≠ 0 then .errArgument
  else if d.sramBase ≠ 0 ∧ d.sramSize = 0 then .errArgument
  else .ok

/-- `ic_module_check`; `none` is a null descriptor pointer. -/
def icModuleCheck : Option IcModuleDesc → IcStatus
  | none => .errArgument
  | some d =>
    if d.magic ≠ IC_MODULE_MAGIC then .errContract
    else if d.contractVer ≠ IC_CONTRACT_VERSION then .errContract
    else if d.kind ≠ IC_MODULE_EBPF ∧ d.kind ≠ IC_MODULE_NATIVE then .errArgument
    else if d.reserved ≠ 0 then .errArgument
    else if d.kind = IC_MODULE_EBPF then checkEbpf d
    else checkNative d

theorem icCompartmentCheck_ok {s : IcCompartmentSpec} (h : icCompartmentCheck (some s) = .ok) :
    regionOk s.textBase s.textSize ∧ regionOk s.sramBase s.sramSize := by
  simp only [icCompartmentCheck] at h
  split at h
  · cases h
  · next ht =>
    split at h
    · cases h
    · next hs => exact ⟨Decidable.not_not.mp ht, Decidable.not_not.mp hs⟩

theorem icCompartmentCheck_iff (s : IcCompartmentSpec) :
    icCompartmentCheck (some s) = .ok ↔
      regionOk s.textBase s.textSize ∧ regionOk s.sramBase s.sramSize := by
  refine ⟨icCompartmentCheck_ok, fun ⟨htext, hsram⟩ => ?_⟩
  unfold icCompartmentCheck
  dsimp only
  rw [if_neg (not_not.mpr htext), if_neg (not_not.mpr hsram)]

/-- An accepted region is a power of two of at least 1 KiB below the end of
    the address space. -/
theorem regionOk_size {base size : U32} (h : regionOk base size) :
    ∃ k, k < 29 ∧ size.toNat = 2 ^ (k + 3) := by
  simp only [regionOk, decide_eq_true_eq] at h
  obtain ⟨-, hmin, hpow, -⟩ := h
  have hne : size.toNat ≠ 0 := by
    unfold IC_MIN_REGION at hmin
    bv_omega
  have hsub : (size - 1).toNat = size.toNat - 1 := by bv_omega
  have hand : size.toNat &&& (size.toNat - 1) = 0 := by
    rw [← hsub, ← BitVec.toNat_and, hpow]
    rfl
  obtain ⟨j, hj⟩ := (Nat.and_sub_one_eq_zero_iff_isPowerOfTwo hne).mp hand
  have hj32 : j < 32 := (Nat.pow_lt_pow_iff_right (by decide : 1 < 2)).mp (hj ▸ size.isLt)
  have hj3 : 3 ≤ j := by
    rcases Nat.lt_or_ge j 3 with hlt | hge
    · have : 2 ^ j ≤ 2 ^ 3 := Nat.pow_le_pow_right (by decide) (by omega)
      unfold IC_MIN_REGION at hmin
      bv_omega
    · exact hge
  exact ⟨j - 3, by omega, by rw [hj]; congr 1; omega⟩

end Interclus

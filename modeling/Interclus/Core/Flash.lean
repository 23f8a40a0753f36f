import Interclus.Framework.Words

/-! # The Flash Mirror

    `core/flash.c`: the two mirror pages of the native slots.  The mirror
    region is byte-addressed from its base; slot 1 starts at `0x400`.

    `page` is a local array of the writer: a store outside it has no
    defined outcome, which the model writes as `none`. -/

namespace Interclus

open Words

def MIR_MAGIC : U32 := 0x4D495234

/-- `sizeof page`. -/
def MIR_PAGE : Nat := 256

/-- The longest code either side accepts. -/
def MIR_CODE_MAX : U32 := 0x1F0

def mirBase (slot : U32) : Nat := if slot = 0 then 0 else 0x400

/-- Erasing a page and programming it: what the flash holds afterwards. -/
structure FlashDev where
  program : Mem → Nat → Mem → Mem

/-- The RAM-backed mirror of the QEMU target. -/
def FlashDev.ram : FlashDev where
  program m base page := fun i => if base ≤ i ∧ i < base + MIR_PAGE then page (i - base) else m i

/-- A programmed page reads back as written, and no other byte moves. -/
structure FlashDev.Lands (dev : FlashDev) : Prop where
  page : ∀ m base page i, i < MIR_PAGE → dev.program m base page (base + i) = page i
  frame : ∀ m base page i, i < base ∨ base + MIR_PAGE ≤ i → dev.program m base page i = m i

theorem FlashDev.ram_lands : FlashDev.ram.Lands where
  page m base page i hi := by
    show (if base ≤ base + i ∧ base + i < base + MIR_PAGE then _ else _) = _
    rw [if_pos ⟨by omega, by omega⟩, Nat.add_sub_cancel_left]
  frame m base page i hi := by
    show (if base ≤ i ∧ i < base + MIR_PAGE then _ else _) = _
    rw [if_neg (by omega)]

/-- One byte store into the page buffer. -/
def pageStore (page : Mem) (i : Nat) (v : U8) : Option Mem :=
  if i < MIR_PAGE then some fun j => if j = i then v else page j else none

/-- The page image: header words, then the code. -/
def mirrorPage (slot : U32) (code : Mem) (len entry : U32) : Option Mem :=
  let page : Mem := fun _ => 0xFF
  let page := putLe32 page 0 MIR_MAGIC
  let page := putLe32 page 4 slot
  let page := putLe32 page 8 len
  let page := putLe32 page 12 entry
  (List.range len.toNat).foldlM (fun page i => pageStore page (16 + i) (code i)) page

/-- `flash_mirror_write`: its result and the mirror afterwards. -/
def flashMirrorWrite (dev : FlashDev) (mirror : Mem) (slot : U32) (code : Mem) (len entry : U32) :
    Option (Int × Mem) :=
  if 1 < slot ∨ MIR_CODE_MAX < len then some (-1, mirror)
  else (mirrorPage slot code len entry).map fun page =>
    (0, dev.program mirror (mirBase slot) page)

/-- What `flash_mirror_read` returns and leaves in its out-parameters. -/
structure MirrorRead where
  len : U32
  out : Mem
  entry : U32

/-- `if (len > cap) len = cap`. -/
def clampLen (cap len : U32) : U32 := if cap < len then cap else len

theorem clampLen_le (cap len : U32) : clampLen cap len ≤ cap := by
  unfold clampLen
  split
  · exact BitVec.le_refl _
  · next h => exact BitVec.not_lt.mp h

/-- `flash_mirror_read` into `out` and `entry`. -/
def flashMirrorRead (mirror : Mem) (slot : U32) (out : Mem) (cap entry : U32) : MirrorRead :=
  if 1 < slot then ⟨0, out, entry⟩
  else
    let src : Mem := fun i => mirror (mirBase slot + i)
    if le32 src 0 ≠ MIR_MAGIC then ⟨0, out, entry⟩
    else
      let len := clampLen cap (le32 src 8)
      ⟨len, fun i => if i < len.toNat then src (16 + i) else out i, le32 src 12⟩

end Interclus

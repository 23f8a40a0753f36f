import Interclus.Host.UpdateFrame

/-! # Staged Images

    `tools/sign_module.py` and `tools/pend.py`: the bodies whose digests
    are pinned, and the image that is staged, body and digest. -/

namespace Interclus

open Words

/-- `b"".join(struct.pack("<Q", e) for e in insns)`. -/
def packInsns (insns : List U64) : List U8 := insns.flatMap (packLe 8)

/-- `pend_image`. -/
def SignModule.pendImage (kind w0 entry slot : U32) (payload : List U8) : List U8 :=
  if kind = 1 then packLe 4 w0 ++ packLe 4 kind ++ payload
  else packLe 4 w0 ++ packLe 4 kind ++ packLe 4 entry ++ packLe 4 slot ++ payload

/-- The length word of a header. -/
def lenWord {α : Type} (l : List α) : U32 := BitVec.ofNat 32 l.length

/-- The body of `stage_ebpf`. -/
def stageEbpfBody (insns : List U64) : List U8 :=
  packLe 4 (lenWord insns) ++ packLe 4 (1 : U32) ++ packInsns insns

/-- The body of `stage_native`. -/
def stageNativeBody (code : List U8) (entry slot : U32) : List U8 :=
  packLe 4 (lenWord code) ++ packLe 4 (2 : U32) ++ packLe 4 entry ++ packLe 4 slot ++ code

/-- What `_stage` writes: the body, and its digest behind it. -/
def signedBytes (body : List U8) : List U8 := body ++ List.ofFn (imageSha body)

/-- `sign_module.py` pins the bodies that `pend.py` stages. -/
theorem stageEbpfBody_eq (insns : List U64) :
    stageEbpfBody insns = SignModule.pendImage 1 (lenWord insns) 0 0 (packInsns insns) := rfl

theorem stageNativeBody_eq (code : List U8) (entry slot : U32) :
    stageNativeBody code entry slot = SignModule.pendImage 2 (lenWord code) entry slot code := rfl

end Interclus

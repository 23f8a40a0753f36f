import Interclus.Core.Update

/-! # Host Frames

    `tools/update_frame.py`: the frames of a transfer, and the decoding of
    a reply.  An image is the exact staging body, header to digest. -/

namespace Interclus

open Words

/-! ## Packing -/

/-- The bytes of a list, as the receiver's buffer holds them. -/
def listMem (l : List U8) : Mem := fun i => l.getD i 0

/-- `n` little-endian bytes. -/
def packLe {w : Nat} (n : Nat) (v : BitVec w) : List U8 := (List.range n).map (byteOf v)

/-- `crc16`. -/
def crc16 (data : List U8) : U16 := data.foldl crcByte 0xFFFF

/-- `_crc`. -/
def withCrc (body : List U8) : List U8 := body ++ packLe 2 (crc16 body)

/-- `hashlib.sha256(image).digest()`. -/
def imageSha (image : List U8) : Digest := sha256 (listMem image) (BitVec.ofNat 32 image.length)

/-! ## Frames -/

/-- `begin`. -/
def beginFrame (tid : U32) (image : List U8) : List U8 :=
  withCrc ([UPDATE_OP_BEGIN] ++ packLe 4 tid ++ packLe 2 (BitVec.ofNat 16 image.length) ++
    List.ofFn (imageSha image))

/-- The bytes of chunk `seq`. -/
def chunkData (image : List U8) (size seq : Nat) : List U8 := (image.drop (seq * size)).take size

/-- Element `seq` of `chunks`. -/
def chunkFrame (tid : U32) (image : List U8) (size seq : Nat) : List U8 :=
  let data := chunkData image size seq
  withCrc ([UPDATE_OP_DATA] ++ packLe 4 tid ++ packLe 2 (BitVec.ofNat 16 seq) ++
    packLe 2 (BitVec.ofNat 16 (seq * size)) ++ [BitVec.ofNat 8 data.length] ++ data)

/-- The length of `chunks`. -/
def chunkCount (image : List U8) (size : Nat) : Nat := (image.length + size - 1) / size

/-- `commit`. -/
def commitFrame (tid : U32) : List U8 := withCrc ([UPDATE_OP_COMMIT] ++ packLe 4 tid)

/-! ## Replies -/

/-- `decode_reply`. -/
def decodeReply (payload : List U8) : Option UpdateReply :=
  let p := listMem payload
  if payload.length ≠ 10 ∨ crc16 (payload.take 8) ≠ le16 p 8 then none
  else some ⟨le32 p 1, le16 p 5, p 0, p 7⟩

end Interclus

import Mathlib.Data.List.GetD
import Interclus.Protocol.Link

/-! # On the Wire

    What each end reads in the frames the other end builds: the fields of
    the client's frames at the offsets `update_process` looks at, and the
    reply the client decodes from the ten bytes of the device. -/

namespace Interclus

open Words

/-! ## Bytes of a list -/

theorem listMem_append_left {l l' : List U8} {i : Nat} (h : i < l.length) :
    listMem (l ++ l') i = listMem l i := List.getD_append l l' 0 i h

theorem listMem_append_right {l l' : List U8} (i : Nat) :
    listMem (l ++ l') (l.length + i) = listMem l' i := by
  unfold listMem
  rw [List.getD_append_right _ _ _ _ (Nat.le_add_right _ _), Nat.add_sub_cancel_left]

/-- Behind a prefix of known length. -/
theorem listMem_behind {l l' : List U8} {n : Nat} (hn : l.length = n) (i : Nat) :
    listMem (l ++ l') (n + i) = listMem l' i := hn ▸ listMem_append_right i

theorem listMem_ofFn {n : Nat} (f : Fin n → U8) (k : Fin n) : listMem (List.ofFn f) k = f k := by
  unfold listMem
  rw [List.getD_eq_getElem _ _ (by simp), List.getElem_ofFn]

theorem length_packLe {w : Nat} (n : Nat) (v : BitVec w) : (packLe n v).length = n := by
  simp [packLe]

/-- A packed word, behind what precedes it. -/
theorem listMem_packLe {w n k : Nat} {v : BitVec w} (pre post : List U8) (hk : k < n) :
    listMem (pre ++ (packLe n v ++ post)) (pre.length + k) = byteOf v k := by
  rw [listMem_append_right, listMem_append_left (by rwa [length_packLe])]
  simp [listMem, packLe, hk]

theorem le32_listMem {v : U32} (pre post : List U8) :
    le32 (listMem (pre ++ (packLe 4 v ++ post))) pre.length = v :=
  le32_of_bytes fun _ hk => listMem_packLe pre post hk

theorem le16_listMem {v : U16} (pre post : List U8) :
    le16 (listMem (pre ++ (packLe 2 v ++ post))) pre.length = v :=
  le16_of_bytes fun _ hk => listMem_packLe pre post hk

/-! ## The client's frames -/

section Frames
variable (tid : U32) (image : List U8)

theorem beginFrame_eq : ∃ rest, beginFrame tid image =
    [UPDATE_OP_BEGIN] ++ (packLe 4 tid ++ (packLe 2 (BitVec.ofNat 16 image.length) ++
      (List.ofFn (imageSha image) ++ rest))) := by
  simp only [beginFrame, withCrc, List.append_assoc]
  exact ⟨_, rfl⟩

theorem chunkFrame_eq (size seq : Nat) : ∃ rest, chunkFrame tid image size seq =
    [UPDATE_OP_DATA] ++ (packLe 4 tid ++ (packLe 2 (BitVec.ofNat 16 seq) ++
      (packLe 2 (BitVec.ofNat 16 (seq * size)) ++
        ([BitVec.ofNat 8 (chunkData image size seq).length] ++
          (chunkData image size seq ++ rest))))) := by
  simp only [chunkFrame, withCrc, List.append_assoc]
  exact ⟨_, rfl⟩

theorem commitFrame_eq : ∃ rest, commitFrame tid = [UPDATE_OP_COMMIT] ++ (packLe 4 tid ++ rest) := by
  simp only [commitFrame, withCrc, List.append_assoc]
  exact ⟨_, rfl⟩

end Frames

/-- A frame that names `tid`. -/
def Carries (tid : U32) (f : List U8) : Prop := 5 ≤ f.length ∧ le32 (listMem f) 1 = tid

/-- A frame of the transfer of `image` under `tid`. -/
def OwnFrame (tid : U32) (image f : List U8) : Prop := ∃ stage : Stage, f = stage.frame tid image

/-- Every frame of a transfer names its id. -/
theorem OwnFrame.carries {tid : U32} {image f : List U8} (h : OwnFrame tid image f) :
    Carries tid f := by
  have hcarries : ∀ op rest, Carries tid ([op] ++ (packLe 4 tid ++ rest)) := by
    intro op rest
    refine ⟨?_, le32_listMem [op] rest⟩
    rw [List.length_append, List.length_append, length_packLe, List.length_singleton]
    omega
  obtain ⟨stage, rfl⟩ := h
  cases stage with
  | begin =>
    obtain ⟨rest, h⟩ := beginFrame_eq tid image
    exact (show Stage.begin.frame tid image = _ from h) ▸ hcarries _ _
  | chunk seq =>
    obtain ⟨rest, h⟩ := chunkFrame_eq tid image CHUNK_SIZE seq
    exact (show (Stage.chunk seq).frame tid image = _ from h) ▸ hcarries _ _
  | commit =>
    obtain ⟨rest, h⟩ := commitFrame_eq tid
    exact (show Stage.commit.frame tid image = _ from h) ▸ hcarries _ _

/-- The first byte tells the frames of a transfer apart. -/
theorem OwnFrame.op_cases {tid : U32} {image f : List U8} (h : OwnFrame tid image f) :
    (listMem f 0 = UPDATE_OP_BEGIN ∧ f = beginFrame tid image) ∨
    (listMem f 0 = UPDATE_OP_DATA ∧ ∃ seq, f = chunkFrame tid image CHUNK_SIZE seq) ∨
    (listMem f 0 = UPDATE_OP_COMMIT ∧ f = commitFrame tid) := by
  obtain ⟨stage, rfl⟩ := h
  cases stage with
  | begin => exact .inl ⟨rfl, rfl⟩
  | chunk seq => exact .inr (.inl ⟨rfl, seq, rfl⟩)
  | commit => exact .inr (.inr ⟨rfl, rfl⟩)

/-- The length and the digest a BEGIN announces. -/
theorem beginFrame_fields (tid : U32) (image : List U8) :
    le16 (listMem (beginFrame tid image)) 5 = BitVec.ofNat 16 image.length ∧
      beginSha (listMem (beginFrame tid image)) = imageSha image := by
  obtain ⟨rest, h⟩ := beginFrame_eq tid image
  rw [h, ← List.append_assoc]
  constructor
  · exact le16_listMem ([UPDATE_OP_BEGIN] ++ packLe 4 tid) _
  · have h7 : ([UPDATE_OP_BEGIN] ++ packLe 4 tid ++ packLe 2 (BitVec.ofNat 16 image.length)).length
        = 7 := by
      simp [length_packLe]
    funext k
    rw [← List.append_assoc]
    calc listMem _ (7 + k) = listMem (List.ofFn (imageSha image) ++ rest) k := listMem_behind h7 k
      _ = listMem (List.ofFn (imageSha image)) k := listMem_append_left (by simp)
      _ = imageSha image k := listMem_ofFn _ k

/-- The offset and the bytes of a chunk. -/
theorem chunkFrame_fields (tid : U32) (image : List U8) (size seq : Nat) :
    le16 (listMem (chunkFrame tid image size seq)) 7 = BitVec.ofNat 16 (seq * size) ∧
      listMem (chunkFrame tid image size seq) 9 =
        BitVec.ofNat 8 (chunkData image size seq).length ∧
      ∀ i < (chunkData image size seq).length,
        listMem (chunkFrame tid image size seq) (10 + i) = listMem (chunkData image size seq) i := by
  obtain ⟨rest, h⟩ := chunkFrame_eq tid image size seq
  have h7 : ([UPDATE_OP_DATA] ++ packLe 4 tid ++ packLe 2 (BitVec.ofNat 16 seq)).length = 7 := by
    simp [length_packLe]
  have h9 : ([UPDATE_OP_DATA] ++ packLe 4 tid ++ packLe 2 (BitVec.ofNat 16 seq) ++
      packLe 2 (BitVec.ofNat 16 (seq * size))).length = 9 := by
    simp [length_packLe]
  rw [h]
  refine ⟨?_, ?_, fun i hi => ?_⟩
  · rw [← List.append_assoc, ← List.append_assoc]
    exact h7 ▸ le16_listMem _ _
  · rw [← List.append_assoc, ← List.append_assoc, ← List.append_assoc]
    exact listMem_behind h9 0
  · rw [← List.append_assoc, ← List.append_assoc, ← List.append_assoc, Nat.add_assoc 9 1 i]
    calc listMem _ (9 + (1 + i)) = listMem _ (1 + i) := listMem_behind h9 (1 + i)
      _ = listMem (chunkData image size seq ++ rest) i := listMem_behind rfl i
      _ = listMem (chunkData image size seq) i := listMem_append_left hi

/-- A chunk is a piece of the image. -/
theorem listMem_chunkData {image : List U8} {size seq i : Nat}
    (hi : i < (chunkData image size seq).length) :
    listMem (chunkData image size seq) i = listMem image (seq * size + i) := by
  unfold chunkData at hi ⊢
  rw [List.length_take] at hi
  unfold listMem
  rw [List.getD_eq_getElem?_getD, List.getD_eq_getElem?_getD, List.getElem?_take,
    if_pos (by omega), List.getElem?_drop]

/-! ## The device's replies -/

/-- The client decodes nothing but the reply the device sent. -/
theorem decodeReply_replyBytes {r r' : UpdateReply} (h : decodeReply (replyBytes r) = some r') :
    r' = r := by
  have hid : le32 (listMem (replyBytes r)) 1 = r.id := by
    refine le32_of_bytes fun k hk => ?_
    match k, hk with
    | 0, _ => rfl
    | 1, _ => rfl
    | 2, _ => rfl
    | 3, _ => rfl
  have hseq : le16 (listMem (replyBytes r)) 5 = r.nextSeq := by
    refine le16_of_bytes fun k hk => ?_
    match k, hk with
    | 0, _ => rfl
    | 1, _ => rfl
  unfold decodeReply at h
  dsimp only at h
  split at h
  · cases h
  · rw [hid, hseq] at h
    exact (Option.some.inj h).symm

end Interclus

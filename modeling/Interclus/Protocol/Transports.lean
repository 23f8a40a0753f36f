import Interclus.Protocol.DeviceTurn
import Interclus.Protocol.Transfer

/-! # Transports and the Gate

    An image reaches the staging window as a type 1 frame, as a type 3
    frame or as an update transaction.  Each transport has its own limit on
    the length, the gate another.  This module compares them over every
    image the gate admits. -/

namespace Interclus

open Words

/-! ## Images the gate admits -/

/-- The staged bytes pass every gate of `hot_swap`. -/
def PassesGates (b : Build) (pend : Mem) : Prop :=
  pendTrusted b.trusted pend = true ∧
    (pendKind pend = PEND_NATIVE ∧
        nativeGate b.target (pendW0 pend) (pendEntry pend) (pendSlot pend) = true ∨
      pendKind pend = PEND_EBPF ∧ ebpfGate b.target (pendW0 pend) (pendInsns pend) = true)

/-- `hot_swap` past its gates. -/
def hotInstall (b : Build) (s : Sup) : Option Sup :=
  if pendKind s.pend = PEND_NATIVE then (installNative b s).map hotAccept
  else some (hotAccept (installEbpf s))

theorem hotSwap_of_passes {b : Build} {s : Sup} (hmagic : s.pendOk = PROG_PEND_MAGIC)
    (h : PassesGates b s.pend) : hotSwap b s = hotInstall b s := by
  obtain ⟨htrust, hgate⟩ := h
  unfold hotSwap hotInstall
  rw [if_neg (not_not.mpr hmagic), if_neg (not_not.mpr htrust)]
  rcases hgate with ⟨hkind, hgate⟩ | ⟨hkind, hgate⟩
  · rw [if_pos hkind, if_pos hkind, if_pos hgate]
  · have hne : ¬ pendKind s.pend = PEND_NATIVE := by
      rw [hkind]
      decide
    rw [if_neg hne, if_neg hne, if_pos hkind, if_pos hgate]

/-- A staging image: header, payload and digest, as long as its header
    says, that `hot_swap` admits when it is written into a blank window. -/
structure AcceptedImage (b : Build) (image : List U8) : Prop where
  len : ∃ body, pendBody (pendKind (listMem image)) (pendW0 (listMem image)) = some body ∧
    image.length = body.toNat + SHA256_LEN
  passes : PassesGates b (listMem image)

section Accepted
variable {b : Build} {image : List U8}

/-- The kinds of image there are, with their lengths. -/
theorem AcceptedImage.cases (h : AcceptedImage b image) :
    (pendKind (listMem image) = PEND_NATIVE ∧ 1 ≤ (pendW0 (listMem image)).toNat ∧
        (pendW0 (listMem image)).toNat ≤ 496 ∧
        image.length = 16 + (pendW0 (listMem image)).toNat + 32) ∨
      (pendKind (listMem image) = PEND_EBPF ∧ 1 ≤ (pendW0 (listMem image)).toNat ∧
        (pendW0 (listMem image)).toNat ≤ 64 ∧
        image.length = 8 + (pendW0 (listMem image)).toNat * 8 + 32) := by
  obtain ⟨body, hbody, hlen⟩ := h.len
  have hsha : SHA256_LEN = 32 := rfl
  unfold pendBody at hbody
  unfold IC_PROG_MAX_INSNS at hbody
  split at hbody
  · next hkind =>
    split at hbody
    · cases hbody
    · next hw0 =>
      obtain rfl := Option.some.inj hbody
      refine .inl ⟨hkind, ?_, ?_, ?_⟩ <;> bv_omega
  · split at hbody
    · next hkind =>
      split at hbody
      · cases hbody
      · next hw0 =>
        obtain rfl := Option.some.inj hbody
        refine .inr ⟨hkind, ?_, ?_, ?_⟩ <;> bv_omega
    · cases hbody

theorem AcceptedImage.len_bounds (h : AcceptedImage b image) :
    48 ≤ image.length ∧ image.length ≤ 552 := by
  rcases h.cases with ⟨-, hpos, hle, hlen⟩ | ⟨-, hpos, hle, hlen⟩ <;> omega

/-- The trust check looks at the body and its digest only. -/
theorem trustCheck_congr {trusted : List Digest} {m₁ m₂ : Mem} {body : U32}
    (hbody : body.toNat + 64 < 2 ^ 32) (h : ∀ i < body.toNat + 32, m₁ i = m₂ i) :
    trustCheck trusted m₁ body (digestAt m₁ body.toNat) =
      trustCheck trusted m₂ body (digestAt m₂ body.toNat) := by
  have hsha : sha256 m₁ body = sha256 m₂ body := sha256_congr hbody fun i hi => h i (by omega)
  have hdigest : digestAt m₁ body.toNat = digestAt m₂ body.toNat :=
    funext fun k => h _ (by omega)
  unfold trustCheck
  rw [hsha, hdigest]

/-- The words of an image are those of its bytes. -/
theorem pendInsns_congr {m₁ m₂ : Mem} {n k : Nat} (h : ∀ i < 8 + n * 8, m₁ i = m₂ i) (hk : k < n) :
    pendInsns m₁ k = pendInsns m₂ k := by
  have hbyte : ∀ j < 8, m₁ (8 + (8 * k + j)) = m₂ (8 + (8 * k + j)) := fun j hj => h _ (by omega)
  have h0 := hbyte 0 (by decide)
  rw [Nat.add_zero] at h0
  unfold pendInsns insnWords le64
  dsimp only
  rw [h0, hbyte 1 (by decide), hbyte 2 (by decide), hbyte 3 (by decide), hbyte 4 (by decide),
    hbyte 5 (by decide), hbyte 6 (by decide), hbyte 7 (by decide)]

/-- The gates look at the image only. -/
theorem AcceptedImage.passes_of (h : AcceptedImage b image) {pend : Mem}
    (hpend : ∀ i < image.length, pend i = listMem image i) : PassesGates b pend := by
  have hlen := h.len_bounds
  have hword : ∀ i, i + 4 ≤ image.length → le32 pend i = le32 (listMem image) i := fun i hi =>
    le32_congr fun k hk => hpend _ (by omega)
  have hw0 : pendW0 pend = pendW0 (listMem image) := hword 0 (by omega)
  have hkind : pendKind pend = pendKind (listMem image) := hword 4 (by omega)
  have hentry : pendEntry pend = pendEntry (listMem image) := hword 8 (by omega)
  have hslot : pendSlot pend = pendSlot (listMem image) := hword 12 (by omega)
  obtain ⟨body, hbody, hlength⟩ := h.len
  have hsha : SHA256_LEN = 32 := rfl
  have htrust : pendTrusted b.trusted pend = pendTrusted b.trusted (listMem image) := by
    unfold pendTrusted
    rw [hw0, hkind, hbody]
    dsimp only
    rw [trustCheck_congr (by omega) fun i hi => hpend i (by omega)]
  refine ⟨htrust.trans h.passes.1, ?_⟩
  rw [hw0, hkind, hentry, hslot]
  refine h.passes.2.imp_right fun hebpf => ⟨hebpf.1, ?_⟩
  -- only an eBPF image has its words looked at
  rcases h.cases with ⟨hnative, -⟩ | ⟨-, -, -, hcnt⟩
  · rw [hebpf.1] at hnative
    exact absurd hnative (by decide)
  · rw [← hebpf.2]
    unfold ebpfGate
    rw [icProgramCheck_congr fun k hk => pendInsns_congr (fun i hi => hpend i (by omega)) hk]

end Accepted

/-! ## Transports -/

/-- A way to send an image; an update transaction has a name and a chunk
    size. -/
inductive Transport where
  | program
  | native
  | update (tid : U32) (size : Nat)

/-- The frames that carry an image. -/
def Transport.frames (image : List U8) : Transport → List ConsoleFrame
  | .program =>
      let payload := packLe 4 PROG_MAGIC ++ image.take 4 ++ image.drop 8
    [⟨1, payload.length, listMem payload⟩]
  | .native => [⟨3, image.length, listMem image⟩]
  | .update tid size => (transferFrames tid image size).map updateFrame

/-- The transport is meant for the image, and the receiver can take it: an
    update needs the staging window free and no other transaction open. -/
def Transport.Serves (image : List U8) (s : Sup) : Transport → Prop
  | .program => pendKind (listMem image) = PEND_EBPF
  | .native => pendKind (listMem image) = PEND_NATIVE
  | .update tid size => tid ≠ 0 ∧ 1 ≤ size ∧ size ≤ 64 ∧
      (s.update.state = .idle ∨ s.update.state = .done ∧ s.update.id ≠ tid) ∧
      s.pendOk ≠ PROG_PEND_MAGIC

/-- Poll frames, one after the other. -/
def pollAll (s : Sup) (fs : List ConsoleFrame) : Sup :=
  fs.foldl (fun s f => (chanPoll (some f) s).2) s

/-- The image is staged as it is, and it passes the gates of `hot_swap`.
    What becomes of it behind the gates is not a matter of transport: of a
    native image of more than 240 bytes the install has no outcome. -/
structure Delivered (b : Build) (image : List U8) (s : Sup) : Prop where
  bytes : bytesAt s.pend 0 image.length = image
  magic : s.pendOk = PROG_PEND_MAGIC
  passes : PassesGates b s.pend

section Delivery
variable {b : Build} {image : List U8}

/-- So `hot_swap` goes on to install it. -/
theorem Delivered.swap {s : Sup} (h : Delivered b image s) : hotSwap b s = hotInstall b s :=
  hotSwap_of_passes h.magic h.passes

theorem Delivered.of_bytes (h : AcceptedImage b image) {s : Sup}
    (hbytes : bytesAt s.pend 0 image.length = image) (hmagic : s.pendOk = PROG_PEND_MAGIC) :
    Delivered b image s := by
  refine ⟨hbytes, hmagic, h.passes_of fun i hi => ?_⟩
  have hget : (bytesAt s.pend 0 image.length).getD i 0 = image.getD i 0 := by rw [hbytes]
  simpa [bytesAt, hi, listMem] using hget

theorem chanPoll_type3 {f : ConsoleFrame} (hn : f.n ≠ 0) (htype : f.type = 3) (s : Sup) :
    chanPoll (some f) s = pollNative f s := by
  simp [chanPoll, hn, htype, FRAME_UPDATE, FRAME_STATUS, FRAME_REARM]

theorem chanPoll_type1 {f : ConsoleFrame} (hn : f.n ≠ 0) (htype : f.type = 1) (s : Sup) :
    chanPoll (some f) s = pollProgram f s := by
  simp [chanPoll, hn, htype, FRAME_UPDATE]

/-- A type 3 frame delivers whatever fits its limit. -/
theorem native_delivers (h : AcceptedImage b image) (hlen : image.length ≤ 0x200) (s : Sup) :
    Delivered b image (pollAll s (Transport.native.frames image)) := by
  have hbounds := h.len_bounds
  have hpoll : pollAll s (Transport.native.frames image) =
      { s with pend := memcpy s.pend (listMem image) image.length, pendOk := PROG_PEND_MAGIC } := by
    show (chanPoll (some ⟨3, image.length, listMem image⟩) s).2 = _
    rw [chanPoll_type3 (show image.length ≠ 0 by omega) rfl]
    unfold pollNative
    rw [if_neg (by dsimp only; omega)]
  rw [hpoll]
  exact .of_bytes h (bytesAt_listMem fun i hi => if_pos hi) rfl

/-- And drops what does not. -/
theorem native_drops (hlen : 0x200 < image.length) (s : Sup) :
    pollAll s (Transport.native.frames image) = s := by
  show (chanPoll (some ⟨3, image.length, listMem image⟩) s).2 = _
  rw [chanPoll_type3 (show image.length ≠ 0 by omega) rfl]
  unfold pollNative
  rw [if_pos (.inr hlen)]

/-- The payload of a type 1 frame: the boot header in place of the staging
    header. -/
theorem programPayload_drop (hlen : 8 ≤ image.length) (i : Nat) :
    listMem (packLe 4 PROG_MAGIC ++ image.take 4 ++ image.drop 8) (8 + i) =
      listMem image (8 + i) := by
  have h8 : (packLe 4 PROG_MAGIC ++ image.take 4).length = 8 := by
    rw [List.length_append, length_packLe, List.length_take]
    omega
  rw [listMem_behind h8]
  simp [listMem, List.getD_eq_getElem?_getD]

/-- A type 1 frame delivers every eBPF image. -/
theorem program_delivers (h : AcceptedImage b image) (hkind : pendKind (listMem image) = PEND_EBPF)
    (s : Sup) : Delivered b image (pollAll s (Transport.program.frames image)) := by
  obtain ⟨hpos, hle, hlen⟩ : 1 ≤ (pendW0 (listMem image)).toNat ∧
      (pendW0 (listMem image)).toNat ≤ 64 ∧
      image.length = 8 + (pendW0 (listMem image)).toNat * 8 + 32 := by
    rcases h.cases with ⟨hnative, -⟩ | ⟨-, hebpf⟩
    · rw [hkind] at hnative
      exact absurd hnative (by decide)
    · exact hebpf
  have hmax : (pendW0 (listMem image)) ≤ IC_PROG_MAX_INSNS := hle
  generalize hpayload : packLe 4 PROG_MAGIC ++ image.take 4 ++ image.drop 8 = payload
  have hn : payload.length = image.length := by
    rw [← hpayload, List.length_append, List.length_append, length_packLe, List.length_take,
      List.length_drop]
    omega
  have hmagic : le32 (listMem payload) 0 = PROG_MAGIC := by
    rw [← hpayload, List.append_assoc]
    exact le32_listMem [] _
  have hcnt : le32 (listMem payload) 4 = pendW0 (listMem image) := by
    refine le32_congr fun k hk => ?_
    rw [← hpayload, List.append_assoc, listMem_behind (length_packLe 4 PROG_MAGIC),
      listMem_append_left (by rw [List.length_take]; omega)]
    simp [listMem, List.getD_eq_getElem?_getD, hk]
  have htail : ∀ i, 8 ≤ i → listMem payload i = listMem image i := fun i hi => by
    obtain ⟨j, rfl⟩ := Nat.exists_eq_add_of_le hi
    rw [← hpayload]
    exact programPayload_drop (by omega) j
  -- the two header words are rewritten, the rest is copied
  have hpoll : pollAll s (Transport.program.frames image) =
      { s with
        pend := fun i => if 8 ≤ i ∧ i < payload.length then listMem payload i
          else putLe32 (putLe32 s.pend 0 (pendW0 (listMem image))) 4 PEND_EBPF i
        pendOk := PROG_PEND_MAGIC } := by
    show (chanPoll (some ⟨1, _, listMem (packLe 4 PROG_MAGIC ++ image.take 4 ++ image.drop 8)⟩) s).2
      = _
    rw [hpayload, chanPoll_type1 (show payload.length ≠ 0 by omega) rfl]
    unfold pollProgram
    dsimp only
    have hshape : ¬ (pendW0 (listMem image) = 0 ∨ IC_PROG_MAX_INSNS < pendW0 (listMem image) ∨
        payload.length ≠ 8 + (pendW0 (listMem image)).toNat * 8 + SHA256_LEN) := by
      rintro (h0 | hlong | hne)
      · rw [h0] at hpos
        exact absurd hpos (by decide)
      · exact absurd hmax (BitVec.not_le.mpr hlong)
      · exact hne (hn.trans hlen)
    rw [if_neg (not_or.mpr ⟨by omega, not_not.mpr hmagic⟩), hcnt, if_neg hshape]
  rw [hpoll]
  refine .of_bytes h (bytesAt_listMem fun i hi => ?_) rfl
  dsimp only
  by_cases h8 : 8 ≤ i
  · rw [if_pos ⟨h8, by omega⟩]
    exact htail i h8
  · rw [if_neg (fun h => h8 h.1)]
    unfold putLe32
    by_cases h4 : 4 ≤ i
    · rw [if_pos (by omega), ← hkind]
      exact (byteOf_le32 _ 4 (by omega)).trans (congrArg _ (by omega))
    · rw [if_neg (by omega), if_pos (by omega)]
      exact (byteOf_le32 _ 0 (by omega)).trans (congrArg _ (by omega))

/-- Update frames are fed to the receiver. -/
theorem pollAll_receiver (fs : List (List U8)) (s : Sup) :
    let s' := pollAll s (fs.map updateFrame)
    (⟨s'.update, s'.pend, s'.pendOk⟩ : Receiver) =
      Mealy.final Receiver.feed ⟨s.update, s.pend, s.pendOk⟩ fs := by
  induction fs generalizing s with
  | nil => rfl
  | cons f fs ih =>
    have hpolled := chanPoll_polled s f
    have hstep := ih (chanPoll (some (updateFrame f)) s).2
    rw [hpolled.update, hpolled.pend, hpolled.pendOk] at hstep
    exact hstep

/-- An update transaction delivers every image. -/
theorem update_delivers (h : AcceptedImage b image) {tid : U32} {size : Nat} {s : Sup}
    (hserves : (Transport.update tid size).Serves image s) :
    Delivered b image (pollAll s ((Transport.update tid size).frames image)) := by
  obtain ⟨htid, hpos, hsize, hst, hmagic⟩ := hserves
  have hbounds := h.len_bounds
  have hfed := feed_transfer htid hbounds.1 hbounds.2 hpos hsize
    (s := ⟨s.update, s.pend, s.pendOk⟩) hst hmagic
  rw [← pollAll_receiver] at hfed
  exact .of_bytes h hfed.2.2.2 hfed.2.2.1

end Delivery

/-! ## Capacity -/

/-- Every transport meant for the image delivers it, from every state it
    can be sent in. -/
def AllDeliver (b : Build) (image : List U8) : Prop :=
  ∀ (s : Sup) (t : Transport), t.Serves image s → Delivered b image (pollAll s (t.frames image))

/-- **Capacity against the gate.** The type 1 frame and the update
    transaction carry every image the gate admits to the gate as it is.  The
    type 3 frame counts header and digest against 512 bytes, so it carries a
    native image only up to 464 bytes of code, where the gate admits 496. -/
theorem allDeliver_iff (b : Build) (image : List U8) (h : AcceptedImage b image) :
    AllDeliver b image ↔
      (pendKind (listMem image) = PEND_NATIVE → (pendW0 (listMem image)).toNat ≤ 464) := by
  constructor
  · intro hall hkind
    rcases h.cases with ⟨-, -, -, hlen⟩ | ⟨hebpf, -⟩
    · -- longer images are dropped, so a free window stays free
      by_contra hlong
      have hdelivered := hall Sup.zeroed .native hkind
      rw [native_drops (by omega)] at hdelivered
      exact absurd hdelivered.magic (by decide)
    · rw [hkind] at hebpf
      exact absurd hebpf (by decide)
  · intro hshort s t hserves
    cases t with
    | program => exact program_delivers h hserves s
    | native =>
      rcases h.cases with ⟨hkind, -, -, hlen⟩ | ⟨hebpf, -⟩
      · have := hshort hkind
        exact native_delivers h (by omega) s
      · rw [show pendKind (listMem image) = PEND_NATIVE from hserves] at hebpf
        exact absurd hebpf (by decide)
    | update tid size => exact update_delivers h hserves

/-! ## A native image of 465 bytes -/

/-- A header for `w0` bytes of native code in slot 0, and the code. -/
def nativeBody (w0 : U32) : Mem := putLe32 (putLe32 (fun _ => 0) 0 w0) 4 PEND_NATIVE

/-- That module with its digest. -/
def nativeImage (w0 : U32) : List U8 :=
  bytesAt (signedImage (nativeBody w0) (16 + w0)) 0 (16 + w0.toNat + 32)

/-- A build that pins it. -/
def nativeBuild (w0 : U32) : Build := .pinning [sha256 (nativeBody w0) (16 + w0)]

theorem nativeBody_header (w0 : U32) :
    pendW0 (nativeBody w0) = w0 ∧ pendKind (nativeBody w0) = PEND_NATIVE ∧
      pendEntry (nativeBody w0) = 0 ∧ pendSlot (nativeBody w0) = 0 := by
  have hbehind : ∀ i, 8 ≤ i → le32 (nativeBody w0) i = 0 := fun i hi => by
    refine (le32_congr fun k _ => ?_).trans (show le32 (fun _ => 0) 0 = 0 from rfl)
    unfold nativeBody
    rw [putLe32_of_not_mem _ (by omega), putLe32_of_not_mem _ (by omega)]
  refine ⟨?_, le32_putLe32 _ 4 _, hbehind 8 (by omega), hbehind 12 (by omega)⟩
  refine (le32_congr fun k hk => ?_).trans (le32_putLe32 (fun _ => 0) 0 w0)
  exact putLe32_of_not_mem _ (by omega)

section NativeImage
variable {w0 : U32}

theorem nativeImage_byte {i : Nat} (hi : i < 16 + w0.toNat + 32) :
    listMem (nativeImage w0) i = signedImage (nativeBody w0) (16 + w0) i := by
  unfold listMem nativeImage
  rw [List.getD_eq_getElem _ _ (by rwa [length_bytesAt])]
  simp [bytesAt]

theorem nativeImage_header (hle : w0 ≤ 0x1F0) :
    pendW0 (listMem (nativeImage w0)) = w0 ∧
      pendKind (listMem (nativeImage w0)) = PEND_NATIVE ∧
      pendEntry (listMem (nativeImage w0)) = 0 ∧ pendSlot (listMem (nativeImage w0)) = 0 := by
  obtain ⟨hw0, hkind, hentry, hslot⟩ := nativeBody_header w0
  have hword : ∀ i, i + 4 ≤ 16 → le32 (listMem (nativeImage w0)) i = le32 (nativeBody w0) i :=
    fun i hi => signedNative_header hle (fun j hj => nativeImage_byte hj) hi
  exact ⟨(hword 0 (by omega)).trans hw0, (hword 4 (by omega)).trans hkind,
    (hword 8 (by omega)).trans hentry, (hword 12 (by omega)).trans hslot⟩

/-- A build that pins it admits it, up to 496 bytes. -/
theorem nativeImage_accepted (hpos : w0 ≠ 0) (hle : w0 ≤ 0x1F0) :
    AcceptedImage (nativeBuild w0) (nativeImage w0) := by
  obtain ⟨hw0, hkind, hentry, hslot⟩ := nativeImage_header hle
  refine ⟨⟨16 + w0, ?_, ?_⟩, ?_, .inl ⟨hkind, ?_⟩⟩
  · rw [hkind, hw0]
    unfold pendBody
    rw [if_pos rfl, if_neg (not_or.mpr ⟨hpos, BitVec.not_lt.mpr hle⟩)]
  · have hnat : (16 + w0).toNat = 16 + w0.toNat := by bv_omega
    rw [hnat]
    exact length_bytesAt _ _ _
  · exact signedNative_trusted hle (fun i hi => nativeImage_byte hi) hpos (nativeBody_header w0).1
      (nativeBody_header w0).2.1 (List.mem_singleton.mpr rfl)
  · rw [hw0, hentry, hslot]
    have hgate : ¬ (w0 = 0 ∨ 0x1F0 < w0 ∨ (0 : U32) &&& 1 ≠ 0 ∨ 0x1000 ≤ (0 : U32) ∨
        1 < (0 : U32)) := by
      rintro (h | h | h | h | h)
      · exact hpos h
      · exact absurd hle (BitVec.not_le.mpr h)
      · exact absurd h (by decide)
      · exact absurd h (by decide)
      · exact absurd h (by decide)
    unfold nativeGate
    rw [if_neg hgate]
    exact (by decide : decide (icModuleCheck (some (natDesc .qemu 0 0)) = .ok) = true)

end NativeImage

/-- 464 bytes of code go through every transport. -/
theorem allDeliver_iff_longest :
    AllDeliver (nativeBuild 464) (nativeImage 464) ↔
      (pendKind (listMem (nativeImage 464)) = PEND_NATIVE →
        (pendW0 (listMem (nativeImage 464))).toNat ≤ 464) :=
  allDeliver_iff _ _ (nativeImage_accepted (by decide) (by decide))

/-- 465 bytes pass the gate and are lost on the way. -/
theorem nativeImage_lost :
    AcceptedImage (nativeBuild 465) (nativeImage 465) ∧
      ¬ AllDeliver (nativeBuild 465) (nativeImage 465) := by
  have hle : (465 : U32) ≤ 0x1F0 := by decide
  refine ⟨nativeImage_accepted (by decide) hle, fun hall => ?_⟩
  have hlong : 0x200 < (nativeImage 465).length := by
    rw [nativeImage, length_bytesAt]
    decide
  have hdelivered := hall Sup.zeroed .native (nativeImage_header hle).2.1
  rw [native_drops hlong] at hdelivered
  exact absurd hdelivered.magic (by decide)

end Interclus

import Interclus.Host.PendImage
import Interclus.Protocol.Wire
import Interclus.Supervisor.LivePrograms

/-! # The Verdict on a Staged Module

    `tools/pend.py` builds an image and `hot_swap` takes it apart again:
    what the fields of a window that holds an image are, and that a module
    is installed as the host packed it or not at all. -/

namespace Interclus

open Words

/-! ## Packed instructions -/

theorem length_packInsns (insns : List U64) : (packInsns insns).length = 8 * insns.length := by
  induction insns with
  | nil => rfl
  | cons v insns ih =>
    have hcons : packInsns (v :: insns) = packLe 8 v ++ packInsns insns := rfl
    rw [hcons, List.length_append, length_packLe, ih, List.length_cons]
    omega

/-- Byte `q` of instruction `k`. -/
theorem packInsns_byte (insns : List U64) (k : Nat) {q : Nat} (hk : k < insns.length) (hq : q < 8) :
    listMem (packInsns insns) (8 * k + q) = byteOf (insns.getD k 0) q := by
  induction insns generalizing k with
  | nil => exact absurd hk (Nat.not_lt_zero k)
  | cons v insns ih =>
    have hcons : packInsns (v :: insns) = packLe 8 v ++ packInsns insns := rfl
    rw [hcons]
    cases k with
    | zero =>
      rw [Nat.mul_zero, Nat.zero_add, List.getD_cons_zero]
      have hword := listMem_packLe (v := v) [] (packInsns insns) hq
      rwa [List.nil_append, List.length_nil, Nat.zero_add] at hword
    | succ k =>
      rw [show 8 * (k + 1) + q = 8 + (8 * k + q) by omega, List.getD_cons_succ,
        listMem_behind (length_packLe 8 v)]
      exact ih k (Nat.lt_of_succ_lt_succ hk)

theorem le64_packInsns (pre : List U8) (insns : List U64) {k : Nat} (hk : k < insns.length) :
    le64 (listMem (pre ++ packInsns insns)) (pre.length + 8 * k) = insns.getD k 0 := by
  refine le64_of_bytes fun q hq => ?_
  rw [Nat.add_assoc, listMem_append_right]
  exact packInsns_byte insns k hk hq

/-! ## The fields of a body -/

/-- A word behind a prefix of known length. -/
theorem le32_behind {pre post : List U8} {v : U32} {n : Nat} (hn : pre.length = n) :
    le32 (listMem (pre ++ (packLe 4 v ++ post))) n = v := hn ▸ le32_listMem pre post

theorem stageEbpfBody_append (insns : List U64) :
    stageEbpfBody insns = packLe 4 (lenWord insns) ++ (packLe 4 (1 : U32) ++ packInsns insns) :=
  List.append_assoc ..

theorem length_stageEbpfBody (insns : List U64) : (stageEbpfBody insns).length = 8 + 8 * insns.length := by
  rw [stageEbpfBody_append, List.length_append, List.length_append, length_packLe, length_packLe,
    length_packInsns]
  omega

/-- The header of a program image, and its instructions. -/
theorem stageEbpfBody_fields (insns : List U64) :
    pendW0 (listMem (stageEbpfBody insns)) = lenWord insns ∧
      pendKind (listMem (stageEbpfBody insns)) = PEND_EBPF ∧
      ∀ k < insns.length, pendInsns (listMem (stageEbpfBody insns)) k = insns.getD k 0 := by
  refine ⟨?_, ?_, fun k hk => ?_⟩
  · rw [stageEbpfBody_append]
    exact le32_listMem [] _
  · rw [stageEbpfBody_append]
    exact le32_listMem (packLe 4 (lenWord insns)) _
  · have hpre : (packLe 4 (lenWord insns) ++ packLe 4 (1 : U32)).length = 8 := by
      simp [length_packLe]
    have hword := le64_packInsns (packLe 4 (lenWord insns) ++ packLe 4 (1 : U32)) insns hk
    rw [hpre] at hword
    have hinsn : pendInsns (listMem (stageEbpfBody insns)) k =
        le64 (listMem (stageEbpfBody insns)) (8 + 8 * k) := by
      refine le64_congr fun q _ => ?_
      rw [Nat.add_assoc]
    exact hinsn.trans hword

section Native
variable (code : List U8) (entry slot : U32)

theorem stageNativeBody_append : stageNativeBody code entry slot = packLe 4 (lenWord code) ++
    (packLe 4 (2 : U32) ++ (packLe 4 entry ++ (packLe 4 slot ++ code))) := by
  unfold stageNativeBody
  simp only [List.append_assoc]

theorem length_stageNativeBody : (stageNativeBody code entry slot).length = 16 + code.length := by
  rw [stageNativeBody_append]
  simp only [List.length_append, length_packLe]
  omega

/-- The header of a native image, and its code. -/
theorem stageNativeBody_fields :
    pendW0 (listMem (stageNativeBody code entry slot)) = lenWord code ∧
      pendKind (listMem (stageNativeBody code entry slot)) = PEND_NATIVE ∧
      pendEntry (listMem (stageNativeBody code entry slot)) = entry ∧
      pendSlot (listMem (stageNativeBody code entry slot)) = slot ∧
      ∀ i, listMem (stageNativeBody code entry slot) (16 + i) = listMem code i := by
  have h8 : (packLe 4 (lenWord code) ++ packLe 4 (2 : U32)).length = 8 := by simp [length_packLe]
  have h12 : (packLe 4 (lenWord code) ++ packLe 4 (2 : U32) ++ packLe 4 entry).length = 12 := by
    simp [length_packLe]
  have h16 : (packLe 4 (lenWord code) ++ packLe 4 (2 : U32) ++ packLe 4 entry ++
      packLe 4 slot).length = 16 := by
    simp [length_packLe]
  rw [stageNativeBody_append]
  refine ⟨le32_listMem [] _, le32_listMem (packLe 4 (lenWord code)) _, ?_, ?_, fun i => ?_⟩
  · rw [← List.append_assoc]
    exact le32_behind h8
  · rw [← List.append_assoc, ← List.append_assoc]
    exact le32_behind h12
  · rw [← List.append_assoc, ← List.append_assoc, ← List.append_assoc]
    exact listMem_behind h16 i

end Native

/-! ## A window that holds an image -/

/-- The bytes of `data` are at the start of the window. -/
def WindowHolds (pend : Mem) (data : List U8) : Prop := ∀ i < data.length, pend i = listMem data i

/-- A frame of this type that carries a payload. -/
structure ConsoleFrame.Carries (f : ConsoleFrame) (type : U8) (payload : List U8) : Prop where
  type : f.type = type
  n : f.n = payload.length
  stage : WindowHolds f.stage payload

theorem length_signedBytes (body : List U8) : (signedBytes body).length = body.length + 32 := by
  simp [signedBytes]

section Window
variable {pend : Mem} {body : List U8} (h : WindowHolds pend (signedBytes body))
include h

theorem WindowHolds.byte {i : Nat} (hi : i < body.length) : pend i = listMem body i := by
  rw [h i (by rw [length_signedBytes]; omega)]
  exact listMem_append_left hi

theorem WindowHolds.word {i : Nat} (hi : i + 4 ≤ body.length) : le32 pend i = le32 (listMem body) i :=
  le32_congr fun _ _ => h.byte (by omega)

theorem WindowHolds.digest (k : Fin 32) : pend (body.length + k) = imageSha body k := by
  rw [h _ (by rw [length_signedBytes]; omega)]
  unfold signedBytes
  rw [listMem_append_right, listMem_ofFn]

/-- The device hashes what the host hashed, so what is left of the digest
    gate is the trust list. -/
theorem WindowHolds.trusted_iff {trusted : List Digest} {n : U32} (hn : n.toNat = body.length)
    (hlen : body.length + 64 < 2 ^ 32) :
    TrustedImage trusted pend n ↔ imageSha body ∈ trusted := by
  have hsha : sha256 pend n = imageSha body := by
    have hof : n = BitVec.ofNat 32 body.length := BitVec.eq_of_toNat_eq (by
      rw [BitVec.toNat_ofNat, Nat.mod_eq_of_lt (by omega), hn])
    unfold imageSha
    rw [← hof]
    exact sha256_congr (by omega) fun i hi => h.byte (by omega)
  have hdigest : ∀ k : Fin 32, pend (n.toNat + k) = imageSha body k := by
    intro k
    rw [hn]
    exact h.digest k
  constructor
  · rintro ⟨-, t, ht, hpinned⟩
    have heq : t = imageSha body := funext fun k => (hpinned k).trans (hdigest k)
    exact heq ▸ ht
  · intro hmem
    refine ⟨fun k => ?_, _, hmem, fun k => (hdigest k).symm⟩
    rw [hsha, hdigest]

end Window

/-! ## The gates -/

theorem lenWord_toNat {α : Type} {l : List α} (h : l.length < 2 ^ 32) :
    (lenWord l).toNat = l.length := by
  rw [lenWord, BitVec.toNat_ofNat, Nat.mod_eq_of_lt h]

/-- The trust gate of a program image. -/
theorem pendTrusted_ebpf_iff {trusted : List Digest} {pend : Mem} (hkind : pendKind pend = PEND_EBPF) :
    pendTrusted trusted pend = true ↔
      pendW0 pend ≠ 0 ∧ pendW0 pend ≤ IC_PROG_MAX_INSNS ∧
        TrustedImage trusted pend (8 + pendW0 pend * 8) := by
  have hne : ¬ pendKind pend = PEND_NATIVE := by
    rw [hkind]
    decide
  unfold pendTrusted pendBody
  rw [if_neg hne, if_pos hkind]
  by_cases hbad : pendW0 pend = 0 ∨ IC_PROG_MAX_INSNS < pendW0 pend
  · rw [if_pos hbad]
    refine ⟨fun h => absurd h Bool.false_ne_true, ?_⟩
    rintro ⟨h0, hle, -⟩
    exact hbad.elim (absurd · h0) (absurd · (BitVec.not_lt.mpr hle))
  · rw [if_neg hbad]
    obtain ⟨h0, hle⟩ := not_or.mp hbad
    have hle := BitVec.not_lt.mp hle
    have hfits : ¬ (BitVec.ofNat 32 (PROG_PEND_MAGIC_OFF - 8 - SHA256_LEN) < 8 + pendW0 pend * 8 ∨
        8 + pendW0 pend * 8 < 16) := by
      unfold IC_PROG_MAX_INSNS at hle
      unfold PROG_PEND_MAGIC_OFF SHA256_LEN
      bv_omega
    dsimp only
    rw [if_neg hfits, trustCheck_iff]
    exact ⟨fun h => ⟨h0, hle, h⟩, fun h => h.2.2⟩

/-- And of a native image. -/
theorem pendTrusted_native_iff {trusted : List Digest} {pend : Mem}
    (hkind : pendKind pend = PEND_NATIVE) :
    pendTrusted trusted pend = true ↔
      pendW0 pend ≠ 0 ∧ pendW0 pend ≤ 0x1F0 ∧ TrustedImage trusted pend (16 + pendW0 pend) := by
  unfold pendTrusted pendBody
  rw [if_pos hkind]
  by_cases hbad : pendW0 pend = 0 ∨ 0x1F0 < pendW0 pend
  · rw [if_pos hbad]
    refine ⟨fun h => absurd h Bool.false_ne_true, ?_⟩
    rintro ⟨h0, hle, -⟩
    exact hbad.elim (absurd · h0) (absurd · (BitVec.not_lt.mpr hle))
  · rw [if_neg hbad]
    obtain ⟨h0, hle⟩ := not_or.mp hbad
    have hle := BitVec.not_lt.mp hle
    have hfits : ¬ (BitVec.ofNat 32 (PROG_PEND_MAGIC_OFF - 8 - SHA256_LEN) < 16 + pendW0 pend ∨
        16 + pendW0 pend < 16) := by
      unfold PROG_PEND_MAGIC_OFF SHA256_LEN
      bv_omega
    dsimp only
    rw [if_neg hfits, trustCheck_iff]
    exact ⟨fun h => ⟨h0, hle, h⟩, fun h => h.2.2⟩

theorem ebpfGate_iff {t : Target} {w0 : U32} {ins : Nat → U64} :
    ebpfGate t w0 ins = true ↔
      w0 ≠ 0 ∧ w0 ≤ IC_PROG_MAX_INSNS ∧ icProgramCheck (some ins) w0 = .ok := by
  refine ⟨ebpfGate_bounds, ?_⟩
  rintro ⟨h0, hle, hok⟩
  unfold ebpfGate
  rw [if_neg (not_or.mpr ⟨h0, BitVec.not_lt.mpr hle⟩)]
  exact decide_eq_true ⟨icModuleCheck_progDesc t h0 hle, hok⟩

theorem nativeGate_iff {t : Target} {w0 entry slot : U32} :
    nativeGate t w0 entry slot = true ↔
      w0 ≠ 0 ∧ w0 ≤ 0x1F0 ∧ entry &&& 1 = 0 ∧ entry < 0x1000 ∧ slot ≤ 1 := by
  refine ⟨nativeGate_bounds, ?_⟩
  rintro ⟨h0, hle, heven, hlt, hslot⟩
  have hbounds : ¬ (w0 = 0 ∨ 0x1F0 < w0 ∨ entry &&& 1 ≠ 0 ∨ 0x1000 ≤ entry ∨ 1 < slot) := by
    simp only [not_or, not_not, BitVec.not_lt, BitVec.not_le, ne_eq]
    exact ⟨h0, hle, heven, hlt, hslot⟩
  unfold nativeGate
  rw [if_neg hbounds]
  exact decide_eq_true ((icModuleCheck_natDesc t _ entry).mpr ⟨heven, hlt⟩)

/-- A staged image either passes the gates of its kind or is refused. -/
theorem hotSwap_of_reject {b : Build} {s : Sup} (hmagic : s.pendOk = PROG_PEND_MAGIC)
    (hnative : pendKind s.pend = PEND_NATIVE → pendTrusted b.trusted s.pend = true →
      ¬ nativeGate b.target (pendW0 s.pend) (pendEntry s.pend) (pendSlot s.pend) = true)
    (hebpf : pendKind s.pend = PEND_EBPF → pendTrusted b.trusted s.pend = true →
      ¬ ebpfGate b.target (pendW0 s.pend) (pendInsns s.pend) = true) :
    hotSwap b s = some (hotReject s) := by
  rcases hotSwap_cases b s with ⟨hm, -⟩ | ⟨-, hs⟩ | ⟨-, hk, ht, hg, -⟩ | ⟨-, hk, ht, hg, -⟩
  · exact absurd hmagic hm
  · exact hs
  · exact absurd hg (hnative hk ht)
  · exact absurd hg (hebpf hk ht)

theorem hotSwap_of_ebpf {b : Build} {s : Sup} (hmagic : s.pendOk = PROG_PEND_MAGIC)
    (hkind : pendKind s.pend = PEND_EBPF) (htrust : pendTrusted b.trusted s.pend = true)
    (hgate : ebpfGate b.target (pendW0 s.pend) (pendInsns s.pend) = true) :
    hotSwap b s = some (hotAccept (installEbpf s)) := by
  have hne : ¬ pendKind s.pend = PEND_NATIVE := by
    rw [hkind]
    decide
  unfold hotSwap
  rw [if_neg (not_not.mpr hmagic), if_neg (not_not.mpr htrust), if_neg hne, if_pos hkind,
    if_pos hgate]

theorem hotSwap_of_native {b : Build} {s : Sup} (hmagic : s.pendOk = PROG_PEND_MAGIC)
    (hkind : pendKind s.pend = PEND_NATIVE) (htrust : pendTrusted b.trusted s.pend = true)
    (hgate : nativeGate b.target (pendW0 s.pend) (pendEntry s.pend) (pendSlot s.pend) = true) :
    hotSwap b s = (installNative b s).map hotAccept := by
  unfold hotSwap
  rw [if_neg (not_not.mpr hmagic), if_neg (not_not.mpr htrust), if_pos hkind, if_pos hgate]

/-! ## Programs -/

/-- A program `hot_swap` takes. -/
structure EbpfAdmitted (b : Build) (insns : List U64) : Prop where
  nonempty : insns ≠ []
  len_le : insns.length ≤ 64
  pinned : imageSha (stageEbpfBody insns) ∈ b.trusted
  verified : icProgramCheck (some fun i => insns.getD i 0) (lenWord insns) = .ok

/-- The program is live, and what was live is its shadow. -/
structure EbpfInstalled (insns : List U64) (s s' : Sup) : Prop where
  live : ∀ i < insns.length, s'.mon.prog i = insns.getD i 0
  cnt : s'.mon.progCnt = lenWord insns
  shadow : ∀ i < 64, s'.mon.progB i = s.mon.prog i
  shadow_cnt : s'.mon.progBCnt = s.mon.progCnt
  nat : s'.nat = s.nat ∧ s'.natText = s.natText
  pendOk : s'.pendOk = 0
  counted : s'.status S_HLOAD = s.status S_HLOAD + 1 ∧ s'.status S_HREJ = s.status S_HREJ

section Ebpf
variable {b : Build} {s : Sup} {insns : List U64} (hlen : insns.length < 2 ^ 32)
  (hwin : WindowHolds s.pend (signedBytes (stageEbpfBody insns)))
include hlen hwin

/-- What the device reads of a program image. -/
theorem WindowHolds.ebpf_fields : pendW0 s.pend = lenWord insns ∧ pendKind s.pend = PEND_EBPF ∧
    ∀ k < insns.length, pendInsns s.pend k = insns.getD k 0 := by
  obtain ⟨hw0, hkind, hinsns⟩ := stageEbpfBody_fields insns
  have hbody := length_stageEbpfBody insns
  refine ⟨?_, ?_, fun k hk => ?_⟩
  · exact (hwin.word (i := 0) (by omega)).trans hw0
  · exact (hwin.word (i := 4) (by omega)).trans hkind
  · rw [← hinsns k hk]
    exact le64_congr fun q _ => hwin.byte (by omega)

/-- The gates a program image meets are those it is admitted by. -/
theorem WindowHolds.ebpf_admitted : EbpfAdmitted b insns ↔
    pendTrusted b.trusted s.pend = true ∧
      ebpfGate b.target (pendW0 s.pend) (pendInsns s.pend) = true := by
  obtain ⟨hw0, hkind, hinsns⟩ := hwin.ebpf_fields hlen
  have hlen32 := lenWord_toNat hlen
  have hverified : icProgramCheck (some (pendInsns s.pend)) (lenWord insns) =
      icProgramCheck (some fun i => insns.getD i 0) (lenWord insns) :=
    icProgramCheck_congr fun i hi => hinsns i (by omega)
  have hzero : lenWord insns ≠ 0 ↔ insns ≠ [] := by
    rw [← List.length_pos_iff]
    bv_omega
  have hmax : lenWord insns ≤ IC_PROG_MAX_INSNS ↔ insns.length ≤ 64 := by
    unfold IC_PROG_MAX_INSNS
    bv_omega
  have hpinned : insns.length ≤ 64 →
      (TrustedImage b.trusted s.pend (8 + lenWord insns * 8) ↔
        imageSha (stageEbpfBody insns) ∈ b.trusted) := by
    intro hle
    have hbody := length_stageEbpfBody insns
    exact hwin.trusted_iff (by bv_omega) (by omega)
  rw [pendTrusted_ebpf_iff hkind, ebpfGate_iff, hw0, hverified]
  constructor
  · intro h
    have hbounds := And.intro (hzero.mpr h.nonempty) (hmax.mpr h.len_le)
    exact ⟨⟨hbounds.1, hbounds.2, (hpinned h.len_le).mpr h.pinned⟩,
      hbounds.1, hbounds.2, h.verified⟩
  · rintro ⟨⟨h0, hle, himage⟩, -, -, hok⟩
    have hle := hmax.mp hle
    exact ⟨hzero.mp h0, hle, (hpinned hle).mp himage, hok⟩

/-- A staged program is installed as the host packed it, or refused. -/
theorem hotSwap_ebpf (hmagic : s.pendOk = PROG_PEND_MAGIC) :
    ∃ s', hotSwap b s = some s' ∧
      (EbpfAdmitted b insns → EbpfInstalled insns s s') ∧
      (¬ EbpfAdmitted b insns → s' = hotReject s) := by
  obtain ⟨hw0, hkind, hinsns⟩ := hwin.ebpf_fields hlen
  have hadmitted := hwin.ebpf_admitted (b := b) hlen
  by_cases hadm : EbpfAdmitted b insns
  · obtain ⟨htrust, hgate⟩ := hadmitted.mp hadm
    refine ⟨_, hotSwap_of_ebpf hmagic hkind htrust hgate, fun _ => ?_, fun h => absurd hadm h⟩
    have hcnt : (pendW0 s.pend).toNat = insns.length := by
      rw [hw0]
      exact lenWord_toNat hlen
    refine ⟨fun i hi => ?_, hw0, fun i hi => if_pos hi, rfl, ⟨rfl, rfl⟩, rfl, ⟨rfl, rfl⟩⟩
    rw [← hinsns i hi]
    exact if_pos (by omega)
  · refine ⟨_, hotSwap_of_reject hmagic (fun hk => ?_) (fun _ ht hg => ?_),
      fun h => absurd h hadm, fun _ => rfl⟩
    · exact absurd (hk.symm.trans hkind) (by decide)
    · exact hadm (hadmitted.mpr ⟨ht, hg⟩)

end Ebpf

/-! ## Native modules -/

/-- A native module `hot_swap` takes. -/
structure NativeAdmitted (b : Build) (code : List U8) (entry slot : U32) : Prop where
  nonempty : code ≠ []
  len_le : code.length ≤ 0x1F0
  pinned : imageSha (stageNativeBody code entry slot) ∈ b.trusted
  entry_even : entry &&& 1 = 0
  entry_lt : entry < 0x1000
  slot_le : slot ≤ 1

/-- The module is in its slot, and the other slot and the programs are
    what they were. -/
structure CodeInstalled (code : List U8) (entry slot : U32) (s s' : Sup) : Prop where
  nat : s'.nat (slotOf slot) = ⟨lenWord code, entry, true, false⟩
  text : ∀ i < code.length, s'.natText (slotOf slot) i = listMem code i
  other : ∀ j ≠ slotOf slot, s'.nat j = s.nat j ∧ s'.natText j = s.natText j
  mon : s'.mon = s.mon
  pendOk : s'.pendOk = 0
  counted : s'.status S_HLOAD = s.status S_HLOAD + 1 ∧ s'.status S_HREJ = s.status S_HREJ

section Native
variable {b : Build} {s : Sup} {code : List U8} {entry slot : U32} (hlen : code.length < 2 ^ 32)
  (hwin : WindowHolds s.pend (signedBytes (stageNativeBody code entry slot)))
include hlen hwin

theorem WindowHolds.native_fields : pendW0 s.pend = lenWord code ∧ pendKind s.pend = PEND_NATIVE ∧
    pendEntry s.pend = entry ∧ pendSlot s.pend = slot ∧
      ∀ i < code.length, s.pend (16 + i) = listMem code i := by
  obtain ⟨hw0, hkind, hentry, hslot, hcode⟩ := stageNativeBody_fields code entry slot
  have hbody := length_stageNativeBody code entry slot
  refine ⟨?_, ?_, ?_, ?_, fun i hi => ?_⟩
  · exact (hwin.word (i := 0) (by omega)).trans hw0
  · exact (hwin.word (i := 4) (by omega)).trans hkind
  · exact (hwin.word (i := 8) (by omega)).trans hentry
  · exact (hwin.word (i := 12) (by omega)).trans hslot
  · rw [← hcode i]
    exact hwin.byte (by omega)

theorem WindowHolds.native_admitted : NativeAdmitted b code entry slot ↔
    pendTrusted b.trusted s.pend = true ∧
      nativeGate b.target (pendW0 s.pend) (pendEntry s.pend) (pendSlot s.pend) = true := by
  obtain ⟨hw0, hkind, hentry, hslot, -⟩ := hwin.native_fields hlen
  have hlen32 := lenWord_toNat hlen
  have hzero : lenWord code ≠ 0 ↔ code ≠ [] := by
    rw [← List.length_pos_iff]
    bv_omega
  have hmax : lenWord code ≤ 0x1F0 ↔ code.length ≤ 0x1F0 := by bv_omega
  have hpinned : code.length ≤ 0x1F0 →
      (TrustedImage b.trusted s.pend (16 + lenWord code) ↔
        imageSha (stageNativeBody code entry slot) ∈ b.trusted) := by
    intro hle
    have hbody := length_stageNativeBody code entry slot
    exact hwin.trusted_iff (by bv_omega) (by omega)
  rw [pendTrusted_native_iff hkind, nativeGate_iff, hw0, hentry, hslot]
  constructor
  · intro h
    have hbounds := And.intro (hzero.mpr h.nonempty) (hmax.mpr h.len_le)
    exact ⟨⟨hbounds.1, hbounds.2, (hpinned h.len_le).mpr h.pinned⟩,
      hbounds.1, hbounds.2, h.entry_even, h.entry_lt, h.slot_le⟩
  · rintro ⟨⟨h0, hle, himage⟩, -, -, heven, hlt, hslot⟩
    have hle := hmax.mp hle
    exact ⟨hzero.mp h0, hle, (hpinned hle).mp himage, heven, hlt, hslot⟩

/-- A staged native module is installed as the host packed it, or refused,
    or overruns the page of its mirror. -/
theorem hotSwap_native_staged (hmagic : s.pendOk = PROG_PEND_MAGIC) :
    (NativeAdmitted b code entry slot → code.length ≤ 240 →
      ∃ s', hotSwap b s = some s' ∧ CodeInstalled code entry slot s s') ∧
    (NativeAdmitted b code entry slot → 240 < code.length → hotSwap b s = none) ∧
    (¬ NativeAdmitted b code entry slot → hotSwap b s = some (hotReject s)) := by
  obtain ⟨hw0, hkind, hentry, hslot, hcode⟩ := hwin.native_fields hlen
  have hadmitted := hwin.native_admitted (b := b) hlen
  have hcnt : (pendW0 s.pend).toNat = code.length := by
    rw [hw0]
    exact lenWord_toNat hlen
  -- the verdict is the mirror's
  have hinstall : NativeAdmitted b code entry slot →
      hotSwap b s = (installNative b s).map hotAccept ∧
        ((installNative b s).isSome ↔ code.length ≤ 240) := by
    intro hadm
    obtain ⟨htrust, hgate⟩ := hadmitted.mp hadm
    obtain ⟨-, hle, -, -, hslot⟩ := nativeGate_bounds hgate
    refine ⟨hotSwap_of_native hmagic hkind htrust hgate, ?_⟩
    rw [installNative_isSome_iff hle hslot, hcnt]
  refine ⟨fun hadm hfits => ?_, fun hadm hlong => ?_, fun hadm => ?_⟩
  · obtain ⟨hswap, hsome⟩ := hinstall hadm
    obtain ⟨s₁, hs₁⟩ := Option.isSome_iff_exists.mp (hsome.mpr hfits)
    have hmoved := installNative_installed hs₁
    obtain ⟨hload, hrej⟩ := hotAccept_status s₁
    refine ⟨hotAccept s₁, by rw [hswap, hs₁]; rfl, ?_⟩
    rw [← hslot]
    refine {
      nat := hmoved.nat.trans ?_
      text := fun i hi => ?_
      other := hmoved.other
      mon := hmoved.mon
      pendOk := rfl
      counted := ⟨hload.trans (by rw [hmoved.hload]), hrej.trans hmoved.hrej⟩ }
    · rw [hw0, hentry]
    · rw [← hcode i hi]
      exact (congrFun hmoved.text i).trans (if_pos (by omega))
  · obtain ⟨hswap, hsome⟩ := hinstall hadm
    have hnone := Option.not_isSome_iff_eq_none.mp (mt hsome.mp (Nat.not_le.mpr hlong))
    rw [hswap, hnone]
    rfl
  · refine hotSwap_of_reject hmagic (fun _ ht hg => ?_) (fun hk => ?_)
    · exact hadm (hadmitted.mpr ⟨ht, hg⟩)
    · exact absurd (hk.symm.trans hkind) (by decide)

end Native

/-! ## Both kinds -/

/-- **What is staged is what runs.** A window that holds what `stage_ebpf`
    writes ends with exactly those instructions live, and one that holds
    what `stage_native` writes, of at most 240 bytes of code, with exactly
    that code in its slot, when the digest of the body is pinned and the
    gate of its kind admits it; every other image is refused and moves
    nothing that runs.  From 241 bytes on, `flash_mirror_write` overruns its
    page with code that the gates admit, and the swap has no outcome. -/
theorem hotSwap_staged {b : Build} {s : Sup} (hmagic : s.pendOk = PROG_PEND_MAGIC) :
    (∀ insns : List U64, insns.length < 2 ^ 32 →
      WindowHolds s.pend (signedBytes (stageEbpfBody insns)) →
        ∃ s', hotSwap b s = some s' ∧
          (EbpfAdmitted b insns → EbpfInstalled insns s s') ∧
          (¬ EbpfAdmitted b insns → s' = hotReject s)) ∧
    (∀ (code : List U8) (entry slot : U32), code.length < 2 ^ 32 →
      WindowHolds s.pend (signedBytes (stageNativeBody code entry slot)) →
        (NativeAdmitted b code entry slot → code.length ≤ 240 →
          ∃ s', hotSwap b s = some s' ∧ CodeInstalled code entry slot s s') ∧
        (NativeAdmitted b code entry slot → 240 < code.length → hotSwap b s = none) ∧
        (¬ NativeAdmitted b code entry slot → hotSwap b s = some (hotReject s))) :=
  ⟨fun _ hlen hwin => hotSwap_ebpf hlen hwin hmagic,
    fun _ _ _ hlen hwin => hotSwap_native_staged hlen hwin hmagic⟩

/-- `r0 = 1; exit`. -/
def returnInsns : List U64 := [0x1000000B7, 0x95]

/-- Its image, staged. -/
def returnStaged : Sup :=
  { Sup.zeroed with
    pend := listMem (signedBytes (stageEbpfBody returnInsns)), pendOk := PROG_PEND_MAGIC }

/-- `li a0, 1; ret`, for slot 1. -/
def returnCode : List U8 := [0x05, 0x45, 0x82, 0x80]

def returnCodeStaged : Sup :=
  { Sup.zeroed with
    pend := listMem (signedBytes (stageNativeBody returnCode 0 1)), pendOk := PROG_PEND_MAGIC }

/-- A build that pins the image of one of them installs that one and refuses
    the other. -/
theorem hotSwap_staged_return :
    ((∃ s', hotSwap (.pinning [imageSha (stageEbpfBody returnInsns)]) returnStaged = some s' ∧
        EbpfInstalled returnInsns returnStaged s') ∧
      hotSwap (.pinning [imageSha (stageEbpfBody returnInsns)]) returnCodeStaged =
        some (hotReject returnCodeStaged)) ∧
    (∃ s', hotSwap (.pinning [imageSha (stageNativeBody returnCode 0 1)]) returnCodeStaged = some s' ∧
        CodeInstalled returnCode 0 1 returnCodeStaged s') ∧
      hotSwap (.pinning [imageSha (stageNativeBody returnCode 0 1)]) returnStaged =
        some (hotReject returnStaged) := by
  have hwin : WindowHolds returnStaged.pend (signedBytes (stageEbpfBody returnInsns)) :=
    fun _ _ => rfl
  have hwinCode : WindowHolds returnCodeStaged.pend (signedBytes (stageNativeBody returnCode 0 1)) :=
    fun _ _ => rfl
  have hapart : imageSha (stageEbpfBody returnInsns) ≠ imageSha (stageNativeBody returnCode 0 1) :=
    fun h => absurd (congrFun h 0) (by decide +kernel)
  have hebpf : ∀ b, ∃ s', hotSwap b returnStaged = some s' ∧
      (EbpfAdmitted b returnInsns → EbpfInstalled returnInsns returnStaged s') ∧
      (¬ EbpfAdmitted b returnInsns → s' = hotReject returnStaged) :=
    fun b => (hotSwap_staged rfl).1 returnInsns (by decide) hwin
  refine ⟨⟨?_, ?_⟩, ?_, ?_⟩
  · obtain ⟨s', hs', hinstalled, -⟩ := hebpf (.pinning [imageSha (stageEbpfBody returnInsns)])
    exact ⟨s', hs', hinstalled
      ⟨by decide, by decide, List.mem_singleton.mpr rfl, by decide +kernel⟩⟩
  · exact ((hotSwap_staged rfl).2 returnCode 0 1 (by decide) hwinCode).2.2 fun h =>
      hapart (List.mem_singleton.mp h.pinned).symm
  · exact ((hotSwap_staged rfl).2 returnCode 0 1 (by decide) hwinCode).1
      ⟨by decide, by decide, List.mem_singleton.mpr rfl, by decide, by decide, by decide⟩ (by decide)
  · obtain ⟨s', hs', -, hrefused⟩ := hebpf (.pinning [imageSha (stageNativeBody returnCode 0 1)])
    rw [hs', hrefused fun h => hapart (List.mem_singleton.mp h.pinned)]

end Interclus

import Interclus.Flash.RoundTrip
import Interclus.Supervisor.Restore

/-! # The Staging Gate

    `hot_swap` either refuses a staged image and moves nothing that runs,
    or installs exactly what was staged.  The one way out is the mirror
    write of a native image that does not fit the page buffer. -/

namespace Interclus

open Words

/-! ## What acceptance says -/

/-- The trailing bytes are the digest of the first `body`, and pinned. -/
structure TrustedImage (trusted : List Digest) (pend : Mem) (body : U32) : Prop where
  digest : ∀ k : Fin 32, sha256 pend body k = pend (body.toNat + k)
  pinned : ∃ t ∈ trusted, ∀ k : Fin 32, t k = pend (body.toNat + k)

/-- A refused image: recorded, and nothing that runs moved. -/
structure Rejected (s s' : Sup) : Prop where
  hrej : s'.status S_HREJ = s.status S_HREJ + 1
  hload : s'.status S_HLOAD = s.status S_HLOAD
  mon : s'.mon = s.mon
  nat : s'.nat = s.nat
  natText : s'.natText = s.natText
  natLive : s'.natLive = s.natLive ∧ s'.natRetired = s.natRetired

/-- An installed native image. -/
structure NativeAccepted (b : Build) (s s' : Sup) : Prop where
  kind : pendKind s.pend = PEND_NATIVE
  len_pos : 1 ≤ pendW0 s.pend
  len_le : pendW0 s.pend ≤ 0x1F0
  trusted : TrustedImage b.trusted s.pend (16 + pendW0 s.pend)
  entry_even : pendEntry s.pend &&& 1 = 0
  entry_lt : pendEntry s.pend < 0x1000
  slot_le : pendSlot s.pend ≤ 1
  nat : s'.nat (slotOf (pendSlot s.pend)) = ⟨pendW0 s.pend, pendEntry s.pend, true, false⟩
  text : ∀ i, s'.natText (slotOf (pendSlot s.pend)) i =
    if i < (pendW0 s.pend).toNat then s.pend (16 + i) else s.natText (slotOf (pendSlot s.pend)) i
  other : ∀ j ≠ slotOf (pendSlot s.pend), s'.nat j = s.nat j ∧ s'.natText j = s.natText j
  mon : s'.mon = s.mon

/-- An installed eBPF image. -/
structure EbpfAccepted (b : Build) (s s' : Sup) : Prop where
  kind : pendKind s.pend = PEND_EBPF
  len_pos : 1 ≤ pendW0 s.pend
  len_le : pendW0 s.pend ≤ IC_PROG_MAX_INSNS
  trusted : TrustedImage b.trusted s.pend (8 + pendW0 s.pend * 8)
  verified : icProgramCheck (some (pendInsns s.pend)) (pendW0 s.pend) = .ok
  live : ∀ i < (pendW0 s.pend).toNat, s'.mon.prog i = pendInsns s.pend i
  cnt : s'.mon.progCnt = pendW0 s.pend
  shadow : ∀ i < 64, s'.mon.progB i = s.mon.prog i
  shadow_cnt : s'.mon.progBCnt = s.mon.progCnt
  nat : s'.nat = s.nat ∧ s'.natText = s.natText

/-- The staging gate is atomic on this state. -/
def HotSwapAtomic (b : Build) (s : Sup) : Prop :=
  ∃ s', hotSwap b s = some s' ∧
    (s.pendOk ≠ PROG_PEND_MAGIC → s' = s) ∧
    (s.pendOk = PROG_PEND_MAGIC → s'.pendOk = 0 ∧
      (Rejected s s' ∨
        (s'.status S_HLOAD = s.status S_HLOAD + 1 ∧ s'.status S_HREJ = s.status S_HREJ ∧
          (NativeAccepted b s s' ∨ EbpfAccepted b s s'))))

/-- A staged native image that passes every gate and is longer than the
    mirror page holds. -/
structure OversizeNative (b : Build) (s : Sup) : Prop where
  magic : s.pendOk = PROG_PEND_MAGIC
  kind : pendKind s.pend = PEND_NATIVE
  trusted : pendTrusted b.trusted s.pend = true
  gate : nativeGate b.target (pendW0 s.pend) (pendEntry s.pend) (pendSlot s.pend) = true
  long : 240 < (pendW0 s.pend).toNat

/-! ## The gates -/

theorem trustCheck_iff {trusted : List Digest} {img : Mem} {body : U32} :
    trustCheck trusted img body (digestAt img body.toNat) = true ↔ TrustedImage trusted img body := by
  unfold trustCheck
  constructor
  · intro h
    split at h
    · cases h
    · next hd =>
      obtain ⟨t, ht, heq⟩ := List.any_eq_true.mp h
      exact ⟨not_not.mp hd, t, ht, of_decide_eq_true heq⟩
  · rintro ⟨hd, t, ht, heq⟩
    exact (if_neg (not_not.mpr hd)).trans (List.any_eq_true.mpr ⟨t, ht, decide_eq_true heq⟩)

theorem pendTrusted_native {trusted : List Digest} {pend : Mem} (hkind : pendKind pend = PEND_NATIVE)
    (h : pendTrusted trusted pend = true) : TrustedImage trusted pend (16 + pendW0 pend) := by
  unfold pendTrusted pendBody at h
  rw [if_pos hkind] at h
  split at h
  · cases h
  · next body hbody =>
    split at hbody
    · cases hbody
    · obtain rfl := Option.some.inj hbody
      split at h
      · cases h
      · exact trustCheck_iff.mp h

theorem pendTrusted_ebpf {trusted : List Digest} {pend : Mem} (hkind : pendKind pend = PEND_EBPF)
    (h : pendTrusted trusted pend = true) : TrustedImage trusted pend (8 + pendW0 pend * 8) := by
  unfold pendTrusted pendBody at h
  rw [if_neg (by rw [hkind]; decide), if_pos hkind] at h
  split at h
  · cases h
  · next body hbody =>
    split at hbody
    · cases hbody
    · obtain rfl := Option.some.inj hbody
      split at h
      · cases h
      · exact trustCheck_iff.mp h

theorem nativeGate_bounds {t : Target} {w0 entry slot : U32} (h : nativeGate t w0 entry slot = true) :
    w0 ≠ 0 ∧ w0 ≤ 0x1F0 ∧ entry &&& 1 = 0 ∧ entry < 0x1000 ∧ slot ≤ 1 := by
  unfold nativeGate at h
  split at h
  · cases h
  · next hn =>
    simp only [not_or, not_not, BitVec.not_lt, BitVec.not_le, ne_eq] at hn
    exact hn

theorem ebpfGate_bounds {t : Target} {w0 : U32} {ins : Nat → U64} (h : ebpfGate t w0 ins = true) :
    w0 ≠ 0 ∧ w0 ≤ IC_PROG_MAX_INSNS ∧ icProgramCheck (some ins) w0 = .ok := by
  unfold ebpfGate at h
  split at h
  · cases h
  · next hn =>
    rw [not_or, BitVec.not_lt] at hn
    exact ⟨hn.1, hn.2, (of_decide_eq_true h).2⟩

/-! ## What one call does -/

/-- The ways through `hot_swap`. -/
theorem hotSwap_cases (b : Build) (s : Sup) :
    (s.pendOk ≠ PROG_PEND_MAGIC ∧ hotSwap b s = some s) ∨
    (s.pendOk = PROG_PEND_MAGIC ∧ hotSwap b s = some (hotReject s)) ∨
    (s.pendOk = PROG_PEND_MAGIC ∧ pendKind s.pend = PEND_NATIVE ∧
      pendTrusted b.trusted s.pend = true ∧
      nativeGate b.target (pendW0 s.pend) (pendEntry s.pend) (pendSlot s.pend) = true ∧
      hotSwap b s = (installNative b s).map hotAccept) ∨
    (s.pendOk = PROG_PEND_MAGIC ∧ pendKind s.pend = PEND_EBPF ∧
      pendTrusted b.trusted s.pend = true ∧
      ebpfGate b.target (pendW0 s.pend) (pendInsns s.pend) = true ∧
      hotSwap b s = some (hotAccept (installEbpf s))) := by
  unfold hotSwap
  by_cases hmagic : s.pendOk = PROG_PEND_MAGIC
  · rw [if_neg (not_not.mpr hmagic)]
    by_cases htrust : pendTrusted b.trusted s.pend = true
    · rw [if_neg (not_not.mpr htrust)]
      by_cases hnative : pendKind s.pend = PEND_NATIVE
      · rw [if_pos hnative]
        split
        · next hgate => exact .inr (.inr (.inl ⟨hmagic, hnative, htrust, hgate, rfl⟩))
        · exact .inr (.inl ⟨hmagic, rfl⟩)
      · rw [if_neg hnative]
        split
        · next hebpf =>
          split
          · next hgate => exact .inr (.inr (.inr ⟨hmagic, hebpf, htrust, hgate, rfl⟩))
          · exact .inr (.inl ⟨hmagic, rfl⟩)
        · exact .inr (.inl ⟨hmagic, rfl⟩)
    · rw [if_pos htrust]
      exact .inr (.inl ⟨hmagic, rfl⟩)
  · exact .inl ⟨hmagic, if_pos hmagic⟩

/-- A native install is defined when the code fits the page. -/
theorem installNative_isSome_iff {b : Build} {s : Sup} (hlen : pendW0 s.pend ≤ 0x1F0)
    (hslot : pendSlot s.pend ≤ 1) :
    (installNative b s).isSome ↔ (pendW0 s.pend).toNat ≤ 240 := by
  have hbounds : ¬ (1 < pendSlot s.pend ∨ MIR_CODE_MAX < pendW0 s.pend) :=
    not_or.mpr ⟨BitVec.not_lt.mpr hslot, BitVec.not_lt.mpr hlen⟩
  simp only [installNative, flashMirrorWrite, Option.isSome_map, if_neg hbounds,
    mirrorPage_isSome_iff]

/-- The one call with no defined outcome. -/
theorem hotSwap_eq_none_iff (b : Build) (s : Sup) : hotSwap b s = none ↔ OversizeNative b s := by
  constructor
  · intro h
    rcases hotSwap_cases b s with ⟨-, hs⟩ | ⟨-, hs⟩ | ⟨hm, hk, ht, hg, hs⟩ | ⟨-, -, -, -, hs⟩
    · rw [h] at hs
      cases hs
    · rw [h] at hs
      cases hs
    · obtain ⟨-, hlen, -, -, hslot⟩ := nativeGate_bounds hg
      refine ⟨hm, hk, ht, hg, ?_⟩
      by_contra hfits
      have hsome := (installNative_isSome_iff (b := b) hlen hslot).mpr (by omega)
      obtain ⟨s₁, hs₁⟩ := Option.isSome_iff_exists.mp hsome
      rw [h, hs₁] at hs
      cases hs
    · rw [h] at hs
      cases hs
  · intro h
    obtain ⟨-, hlen, -, -, hslot⟩ := nativeGate_bounds h.gate
    have hlong : ¬ (installNative b s).isSome := by
      rw [installNative_isSome_iff hlen hslot]
      exact Nat.not_le.mpr h.long
    unfold hotSwap
    rw [if_neg (not_not.mpr h.magic), if_neg (not_not.mpr h.trusted), if_pos h.kind, if_pos h.gate,
      Option.not_isSome_iff_eq_none.mp hlong]
    rfl

/-- What a native install moves. -/
structure NativeInstalled (s s' : Sup) : Prop where
  nat : s'.nat (slotOf (pendSlot s.pend)) = ⟨pendW0 s.pend, pendEntry s.pend, true, false⟩
  text : s'.natText (slotOf (pendSlot s.pend)) =
    memcpy (s.natText (slotOf (pendSlot s.pend))) (fun i => s.pend (16 + i)) (pendW0 s.pend).toNat
  other : ∀ j ≠ slotOf (pendSlot s.pend), s'.nat j = s.nat j ∧ s'.natText j = s.natText j
  mon : s'.mon = s.mon
  pend : s'.pend = s.pend ∧ s'.pendOk = s.pendOk
  hload : s'.status S_HLOAD = s.status S_HLOAD
  hrej : s'.status S_HREJ = s.status S_HREJ

theorem installNative_installed {b : Build} {s s' : Sup} (h : installNative b s = some s') :
    NativeInstalled s s' := by
  unfold installNative at h
  obtain ⟨⟨ret, mirror⟩, -, rfl⟩ := Option.map_eq_some_iff.mp h
  exact ⟨if_pos rfl, if_pos rfl, fun j hj => ⟨if_neg hj, if_neg hj⟩, rfl, ⟨rfl, rfl⟩, rfl, rfl⟩

theorem hotReject_rejected (s : Sup) : Rejected s (hotReject s) :=
  ⟨rfl, rfl, rfl, rfl, rfl, rfl, rfl⟩

theorem hotAccept_status (s : Sup) :
    (hotAccept s).status S_HLOAD = s.status S_HLOAD + 1 ∧
      (hotAccept s).status S_HREJ = s.status S_HREJ := ⟨rfl, rfl⟩

/-! ## Atomicity -/

theorem one_le_of_ne_zero {v : U32} (h : v ≠ 0) : 1 ≤ v := by bv_omega

/-- An accepted native image. -/
theorem nativeAccepted_of_install {b : Build} {s s₁ : Sup} (hkind : pendKind s.pend = PEND_NATIVE)
    (htrust : pendTrusted b.trusted s.pend = true)
    (hgate : nativeGate b.target (pendW0 s.pend) (pendEntry s.pend) (pendSlot s.pend) = true)
    (h : NativeInstalled s s₁) : NativeAccepted b s (hotAccept s₁) := by
  obtain ⟨hpos, hlen, heven, hlt, hslot⟩ := nativeGate_bounds hgate
  exact {
    kind := hkind
    len_pos := one_le_of_ne_zero hpos
    len_le := hlen
    trusted := pendTrusted_native hkind htrust
    entry_even := heven
    entry_lt := hlt
    slot_le := hslot
    nat := h.nat
    text := fun i => congrFun h.text i
    other := h.other
    mon := h.mon }

/-- An accepted eBPF image. -/
theorem ebpfAccepted_of_install {b : Build} {s : Sup} (hkind : pendKind s.pend = PEND_EBPF)
    (htrust : pendTrusted b.trusted s.pend = true)
    (hgate : ebpfGate b.target (pendW0 s.pend) (pendInsns s.pend) = true) :
    EbpfAccepted b s (hotAccept (installEbpf s)) := by
  obtain ⟨hpos, hlen, hok⟩ := ebpfGate_bounds hgate
  exact {
    kind := hkind
    len_pos := one_le_of_ne_zero hpos
    len_le := hlen
    trusted := pendTrusted_ebpf hkind htrust
    verified := hok
    live := fun i hi => if_pos hi
    cnt := rfl
    shadow := fun i hi => if_pos hi
    shadow_cnt := rfl
    nat := ⟨rfl, rfl⟩ }

/-- The staging gate is atomic exactly when no native image longer than a
    mirror page passes it. -/
theorem hotSwap_atomic_iff (b : Build) (s : Sup) : HotSwapAtomic b s ↔ ¬ OversizeNative b s := by
  constructor
  · rintro ⟨s', hs', -⟩ hover
    rw [(hotSwap_eq_none_iff b s).mpr hover] at hs'
    cases hs'
  · intro hover
    rcases hotSwap_cases b s with ⟨hm, h⟩ | ⟨hm, h⟩ | ⟨hm, hk, ht, hg, h⟩ | ⟨hm, hk, ht, hg, h⟩
    · exact ⟨s, h, fun _ => rfl, fun hm' => absurd hm' hm⟩
    · exact ⟨hotReject s, h, fun hm' => absurd hm hm', fun _ => ⟨rfl, .inl (hotReject_rejected s)⟩⟩
    · cases hinst : installNative b s with
      | none =>
        rw [hinst] at h
        exact absurd ((hotSwap_eq_none_iff b s).mp h) hover
      | some s₁ =>
        rw [hinst] at h
        have hmoved := installNative_installed hinst
        obtain ⟨hload, hrej⟩ := hotAccept_status s₁
        refine ⟨hotAccept s₁, h, fun hm' => absurd hm hm', fun _ => ⟨rfl, .inr ⟨?_, ?_, ?_⟩⟩⟩
        · rw [hload, hmoved.hload]
        · rw [hrej, hmoved.hrej]
        · exact .inl (nativeAccepted_of_install hk ht hg hmoved)
    · obtain ⟨hload, hrej⟩ := hotAccept_status (installEbpf s)
      refine ⟨_, h, fun hm' => absurd hm hm', fun _ => ⟨rfl, .inr ⟨hload, hrej, ?_⟩⟩⟩
      exact .inr (ebpfAccepted_of_install hk ht hg)

/-! ## Signed images -/

/-- A body with its digest behind it. -/
def signedImage (body : Mem) (n : U32) : Mem := fun i =>
  if h : n.toNat ≤ i ∧ i - n.toNat < 32 then sha256 body n ⟨i - n.toNat, h.2⟩ else body i

theorem signedImage_body {body : Mem} {n : U32} {i : Nat} (h : i < n.toNat) :
    signedImage body n i = body i := dif_neg (by omega)

theorem signedImage_digest (body : Mem) (n : U32) (k : Fin 32) :
    signedImage body n (n.toNat + k) = sha256 body n k := by
  unfold signedImage
  rw [dif_pos ⟨by omega, by omega⟩]
  congr 1
  exact Fin.ext (Nat.add_sub_cancel_left _ _)

/-- A build that pins the digest of a body trusts the signed body. -/
theorem signedImage_trusted {trusted : List Digest} {body : Mem} {n : U32}
    (hn : n.toNat + 64 < 2 ^ 32) (hpin : sha256 body n ∈ trusted) :
    TrustedImage trusted (signedImage body n) n where
  digest k := by
    rw [signedImage_digest, sha256_congr hn fun i hi => signedImage_body hi]
  pinned := ⟨_, hpin, fun k => (signedImage_digest body n k).symm⟩

section Signed
variable {trusted : List Digest} {body pend : Mem} {n w0 : U32}

theorem pendBody_bounds {kind : U32} (h : pendBody kind w0 = some n) :
    16 ≤ n.toNat ∧ n.toNat ≤ 520 := by
  unfold pendBody IC_PROG_MAX_INSNS at h
  split at h
  · split at h
    · cases h
    · cases h
      bv_omega
  · split at h
    · split at h
      · cases h
      · cases h
        bv_omega
    · cases h

/-- A signed image, staged whole, has the words of its body. -/
theorem signed_word (hpend : ∀ i < n.toNat + 32, pend i = signedImage body n i) {i : Nat}
    (hi : i + 4 ≤ n.toNat) : le32 pend i = le32 body i :=
  le32_congr fun k _ => (hpend _ (by omega)).trans (signedImage_body (by omega))

/-- And a build that pins the body trusts it. -/
theorem signed_trusted (hpend : ∀ i < n.toNat + 32, pend i = signedImage body n i)
    (hbody : pendBody (pendKind body) (pendW0 body) = some n) (hpin : sha256 body n ∈ trusted) :
    pendTrusted trusted pend = true := by
  obtain ⟨hlow, hhigh⟩ := pendBody_bounds hbody
  have hw0 : pendW0 pend = pendW0 body := signed_word hpend (by omega)
  have hkind : pendKind pend = pendKind body := signed_word hpend (by omega)
  have hsigned : TrustedImage trusted (signedImage body n) n :=
    signedImage_trusted (by omega) hpin
  have himage : TrustedImage trusted pend n := by
    obtain ⟨hdigest, t, ht, hpinned⟩ := hsigned
    have htail : ∀ k : Fin 32, pend (n.toNat + k) = signedImage body n (n.toNat + k) :=
      fun k => hpend _ (by omega)
    refine ⟨fun k => ?_, t, ht, fun k => ?_⟩
    · rw [htail, sha256_congr (by omega) fun i hi => hpend i (by omega)]
      exact hdigest k
    · rw [htail]
      exact hpinned k
  unfold pendTrusted
  rw [hkind, hw0, hbody]
  dsimp only
  rw [if_neg, trustCheck_iff.mpr himage]
  unfold PROG_PEND_MAGIC_OFF SHA256_LEN
  bv_omega

/-- A signed native module has the header of its body. -/
theorem signedNative_header (hle : w0 ≤ 0x1F0)
    (hpend : ∀ i < 16 + w0.toNat + 32, pend i = signedImage body (16 + w0) i) {i : Nat}
    (hi : i + 4 ≤ 16) : le32 pend i = le32 body i :=
  signed_word (n := 16 + w0) (fun j hj => hpend j (by bv_omega)) (by bv_omega)

theorem signedNative_trusted (hle : w0 ≤ 0x1F0)
    (hpend : ∀ i < 16 + w0.toNat + 32, pend i = signedImage body (16 + w0) i) (hpos : w0 ≠ 0)
    (hw0 : pendW0 body = w0) (hkind : pendKind body = PEND_NATIVE)
    (hpin : sha256 body (16 + w0) ∈ trusted) : pendTrusted trusted pend = true := by
  refine signed_trusted (fun j hj => hpend j (by bv_omega)) ?_ hpin
  rw [hkind, hw0]
  unfold pendBody
  rw [if_pos rfl, if_neg (not_or.mpr ⟨hpos, BitVec.not_lt.mpr hle⟩)]

end Signed

/-- A header for 241 bytes of native code in slot 0, and the code. -/
def longBody : Mem := putLe32 (putLe32 (fun _ => 0) 0 241) 4 PEND_NATIVE

/-- Wherever it is staged, a build that pins that module trusts it, and
    installing it writes past the page. -/
theorem longBody_oversize {b : Build} (hpin : sha256 longBody 257 ∈ b.trusted) {s : Sup}
    (hmagic : s.pendOk = PROG_PEND_MAGIC)
    (hpend : ∀ i < 289, s.pend i = signedImage longBody 257 i) : OversizeNative b s := by
  have hle : (241 : U32) ≤ 0x1F0 := by decide
  have hword : ∀ i, i + 4 ≤ 16 → le32 s.pend i = le32 longBody i := fun i hi =>
    signedNative_header hle hpend hi
  have hw0 : pendW0 longBody = 241 := by decide +kernel
  have hkind : pendKind longBody = PEND_NATIVE := by decide +kernel
  have hentry : pendEntry s.pend = 0 := (hword 8 (by omega)).trans (by decide +kernel)
  have hslot : pendSlot s.pend = 0 := (hword 12 (by omega)).trans (by decide +kernel)
  have hlen : pendW0 s.pend = 241 := (hword 0 (by omega)).trans hw0
  have hgate : nativeGate b.target (pendW0 s.pend) (pendEntry s.pend) (pendSlot s.pend) = true := by
    rw [hlen, hentry, hslot]
    cases b.target <;> decide
  exact {
    magic := hmagic
    kind := (hword 4 (by omega)).trans hkind
    trusted := signedNative_trusted hle hpend (by decide) hw0 hkind hpin
    gate := hgate
    long := by
      rw [hlen]
      decide }

/-- A build that pins that module, and its image staged. -/
def longBuild : Build := .pinning [sha256 longBody 257]
def longStaged : Sup :=
  { Sup.zeroed with pend := signedImage longBody 257, pendOk := PROG_PEND_MAGIC }

/-- The module passes every gate, and installing it writes past the page. -/
theorem longStaged_not_atomic :
    hotSwap longBuild longStaged = none ∧ ¬ HotSwapAtomic longBuild longStaged := by
  have hover : OversizeNative longBuild longStaged :=
    longBody_oversize (List.mem_singleton.mpr rfl) rfl fun _ _ => rfl
  have hnone : hotSwap longBuild longStaged = none := (hotSwap_eq_none_iff _ _).mpr hover
  refine ⟨hnone, ?_⟩
  rintro ⟨s', hs', -⟩
  rw [hnone] at hs'
  cases hs'

end Interclus

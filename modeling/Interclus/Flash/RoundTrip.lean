import Interclus.Core.Flash

/-! # The Mirror Round Trip

    A page written for a slot is read back as it was, and the other slot's
    page stays what it was.  The page buffer holds 256 bytes, the header
    takes 16 of them; `mirrorRoundTrip_iff` says that code of at most 240
    bytes is exactly what fits. -/

namespace Interclus

open Words

/-! ## The page image -/

/-- The copy loop, started on any page. -/
theorem foldlM_pageStore (code page : Mem) (n : Nat) :
    (List.range n).foldlM (fun page i => pageStore page (16 + i) (code i)) page =
      if n ≤ 240 then some fun j => if 16 ≤ j ∧ j < 16 + n then code (j - 16) else page j
      else none := by
  induction n with
  | zero =>
    rw [if_pos (by omega)]
    show some page = some _
    congr 1
    funext j
    rw [if_neg (by omega)]
  | succ n ih =>
    rw [List.range_succ, List.foldlM_append, ih]
    by_cases hn : n ≤ 240
    · rw [if_pos hn]
      simp only [List.foldlM_cons, List.foldlM_nil, Option.bind_eq_bind, Option.bind_some, pageStore,
        MIR_PAGE]
      -- byte n lands inside the page or stops the loop
      by_cases hn' : n + 1 ≤ 240
      · rw [if_pos (by omega), if_pos hn']
        simp only [Option.bind_some, Option.pure_def]
        congr 1
        funext j
        by_cases hj : j = 16 + n
        · rw [if_pos hj, if_pos (by omega), hj, Nat.add_sub_cancel_left]
        · rw [if_neg hj]
          by_cases hin : 16 ≤ j ∧ j < 16 + n
          · rw [if_pos hin, if_pos (by omega)]
          · rw [if_neg hin, if_neg (by omega)]
      · rw [if_neg (by omega), if_neg hn']
        rfl
    -- already stopped
    · rw [if_neg hn, if_neg (by omega)]
      rfl

/-- A page image exists when the code fits behind the header. -/
theorem mirrorPage_isSome_iff (slot : U32) (code : Mem) (len entry : U32) :
    (mirrorPage slot code len entry).isSome ↔ len.toNat ≤ 240 := by
  unfold mirrorPage
  rw [foldlM_pageStore]
  split <;> simp_all

/-- The fields a page image holds. -/
structure PageHolds (page : Mem) (slot : U32) (code : Mem) (len entry : U32) : Prop where
  magic : le32 page 0 = MIR_MAGIC
  slot : le32 page 4 = slot
  code : ∀ i < len.toNat, page (16 + i) = code i
  len : le32 page 8 = len
  entry : le32 page 12 = entry

theorem mirrorPage_holds {slot : U32} {code : Mem} {len entry : U32} {page : Mem}
    (h : mirrorPage slot code len entry = some page) : PageHolds page slot code len entry := by
  unfold mirrorPage at h
  rw [foldlM_pageStore] at h
  split at h
  · obtain rfl := Option.some.inj h
    -- the header words lie below the code, each over the earlier ones
    have hhead : ∀ (m : Mem) (i : Nat), i + 4 ≤ 16 →
        le32 (fun j => if 16 ≤ j ∧ j < 16 + len.toNat then code (j - 16) else m j) i =
          le32 m i := by
      intro m i hi
      exact le32_congr fun k hk => if_neg (by omega)
    have hbelow : ∀ (m : Mem) (i j : Nat) (v : U32), i + 4 ≤ j →
        le32 (putLe32 m j v) i = le32 m i := by
      intro m i j v hij
      exact le32_putLe32_of_apart v (.inr hij)
    refine ⟨?_, ?_, fun i hi => ?_, ?_, ?_⟩
    · rw [hhead _ _ (by decide), hbelow _ _ _ _ (by decide), hbelow _ _ _ _ (by decide),
        hbelow _ _ _ _ (by decide), le32_putLe32]
    · rw [hhead _ _ (by decide), hbelow _ _ _ _ (by decide), hbelow _ _ _ _ (by decide),
        le32_putLe32]
    · show (if 16 ≤ 16 + i ∧ 16 + i < 16 + len.toNat then code (16 + i - 16) else _) = code i
      rw [if_pos ⟨by omega, by omega⟩, Nat.add_sub_cancel_left]
    · rw [hhead _ _ (by decide), hbelow _ _ _ _ (by decide), le32_putLe32]
    · rw [hhead _ _ (by decide), le32_putLe32]
  · cases h

/-! ## Reading back -/

/-- Reading a page the flash holds. -/
theorem flashMirrorRead_page {mirror page code : Mem} {slot len entry : U32} (hslot : slot ≤ 1)
    (hlen : len ≤ MIR_CODE_MAX) (hpage : PageHolds page slot code len entry)
    (hfits : 16 + len.toNat ≤ MIR_PAGE)
    (hm : ∀ i < MIR_PAGE, mirror (mirBase slot + i) = page i) (out : Mem) (e : U32) :
    flashMirrorRead mirror slot out MIR_CODE_MAX e =
      ⟨len, fun i => if i < len.toNat then code i else out i, entry⟩ := by
  have hword : ∀ i, i + 4 ≤ MIR_PAGE → le32 (fun i => mirror (mirBase slot + i)) i = le32 page i :=
    fun i hi => le32_congr fun k hk => hm (i + k) (by omega)
  unfold flashMirrorRead
  rw [if_neg (BitVec.not_lt.mpr hslot)]
  dsimp only
  rw [hword 0 (by decide), hword 8 (by decide), hword 12 (by decide), hpage.magic, hpage.len,
    hpage.entry, if_neg (by simp), clampLen, if_neg (BitVec.not_lt.mpr hlen)]
  congr 1
  funext i
  split
  · next hi => rw [hm (16 + i) (by omega), hpage.code i hi]
  · rfl

/-- A read of a slot whose window did not change. -/
theorem flashMirrorRead_congr {m₁ m₂ : Mem} {slot : U32}
    (h : ∀ i < 0x400, m₁ (mirBase slot + i) = m₂ (mirBase slot + i)) (out : Mem) {cap : U32}
    (hcap : cap ≤ MIR_CODE_MAX) (e : U32) :
    flashMirrorRead m₁ slot out cap e = flashMirrorRead m₂ slot out cap e := by
  have hword : ∀ i, i + 4 ≤ 0x400 → le32 (fun i => m₁ (mirBase slot + i)) i =
      le32 (fun i => m₂ (mirBase slot + i)) i :=
    fun i hi => le32_congr fun k hk => h (i + k) (by omega)
  unfold flashMirrorRead
  split
  · rfl
  · dsimp only
    rw [hword 0 (by decide), hword 8 (by decide), hword 12 (by decide)]
    split
    · rfl
    · have hle := clampLen_le cap (le32 (fun i => m₂ (mirBase slot + i)) 8)
      generalize clampLen cap (le32 (fun i => m₂ (mirBase slot + i)) 8) = len at hle
      congr 1
      funext i
      split
      · next hi =>
        apply h
        unfold MIR_CODE_MAX at hcap
        bv_omega
      · rfl

/-! ## The round trip -/

/-- A write stays inside its page, and if it reports success the slot reads
    back as written and the other slot as before. -/
def MirrorRoundTrip (dev : FlashDev) (mirror : Mem) (slot : U32) (code : Mem) (len entry : U32) :
    Prop :=
  ∃ ret mirror', flashMirrorWrite dev mirror slot code len entry = some (ret, mirror') ∧
    (ret = 0 → ∀ (out : Mem) (e : U32),
      ((flashMirrorRead mirror' slot out MIR_CODE_MAX e).len = len ∧
        (∀ i < len.toNat, (flashMirrorRead mirror' slot out MIR_CODE_MAX e).out i = code i) ∧
        (flashMirrorRead mirror' slot out MIR_CODE_MAX e).entry = entry) ∧
      flashMirrorRead mirror' (1 - slot) out MIR_CODE_MAX e =
        flashMirrorRead mirror (1 - slot) out MIR_CODE_MAX e)

/-- **Round trip, exactly.** On a flash that holds what is programmed into
    it, code of an admitted length makes the round trip if and only if it
    is at most 240 bytes long. -/
theorem mirrorRoundTrip_iff {dev : FlashDev} (hdev : dev.Lands) (mirror : Mem) {slot : U32}
    (hslot : slot ≤ 1) (code : Mem) {len : U32} (hmax : len ≤ MIR_CODE_MAX) (entry : U32) :
    MirrorRoundTrip dev mirror slot code len entry ↔ len.toNat ≤ 240 := by
  have hadmit : ¬ (1 < slot ∨ MIR_CODE_MAX < len) :=
    not_or.mpr ⟨BitVec.not_lt.mpr hslot, BitVec.not_lt.mpr hmax⟩
  constructor
  · rintro ⟨ret, mirror', hwrite, -⟩
    unfold flashMirrorWrite at hwrite
    rw [if_neg hadmit] at hwrite
    obtain ⟨page, hpage, -⟩ := Option.map_eq_some_iff.mp hwrite
    exact (mirrorPage_isSome_iff slot code len entry).mp (by rw [hpage]; rfl)
  · intro hfits
    obtain ⟨page, hpage⟩ :=
      Option.isSome_iff_exists.mp ((mirrorPage_isSome_iff slot code len entry).mpr hfits)
    refine ⟨0, dev.program mirror (mirBase slot) page, ?_, fun _ out e => ⟨?_, ?_⟩⟩
    · unfold flashMirrorWrite
      rw [if_neg hadmit, hpage]
      rfl
    · rw [flashMirrorRead_page hslot hmax (mirrorPage_holds hpage) (by unfold MIR_PAGE; omega)
        (fun i hi => hdev.page mirror (mirBase slot) page i hi)]
      exact ⟨rfl, fun i hi => if_pos hi, rfl⟩
    · -- the other slot's window lies outside the page
      apply flashMirrorRead_congr _ _ (BitVec.le_refl _)
      intro i hi
      apply hdev.frame
      have hother : slot = 0 ∧ 1 - slot = 1 ∨ slot = 1 ∧ 1 - slot = 0 := by bv_omega
      unfold MIR_PAGE
      rcases hother with ⟨h, h'⟩ | ⟨h, h'⟩ <;> rw [h'] <;> rw [h] <;> simp [mirBase] <;> omega

/-- The RAM-backed mirror carries sixteen bytes. -/
theorem mirrorRoundTrip_ram :
    MirrorRoundTrip .ram (fun _ => 0xFF) 1 (fun i => BitVec.ofNat 8 i) 16 2 :=
  (mirrorRoundTrip_iff FlashDev.ram_lands _ (by decide) _ (by decide) 2).mpr (by decide)

/-- One byte more than fits is stored past the page buffer. -/
theorem mirrorRoundTrip_241 :
    flashMirrorWrite .ram (fun _ => 0xFF) 0 (fun _ => 0) 241 0 = none ∧
      ¬ MirrorRoundTrip .ram (fun _ => 0xFF) 0 (fun _ => 0) 241 0 := by
  have hpage : mirrorPage 0 (fun _ => 0) 241 0 = none := by
    have h := mt (mirrorPage_isSome_iff 0 (fun _ => 0) 241 0).mp (by decide)
    simpa using h
  have hnone : flashMirrorWrite .ram (fun _ => 0xFF) 0 (fun _ => 0) 241 0 = none := by
    unfold flashMirrorWrite
    rw [if_neg (by decide), hpage]
    rfl
  refine ⟨hnone, ?_⟩
  rintro ⟨ret, mirror', hwrite, -⟩
  rw [hnone] at hwrite
  cases hwrite

end Interclus

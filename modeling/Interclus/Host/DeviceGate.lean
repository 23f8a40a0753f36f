import Interclus.Host.Describe

/-! # The Host Gate and the Device Gate

    `tools/describe.py` and `core/loader.c` check descriptions by the same
    rules, the one on unbounded integers, the other on words.  What the host
    lets through passes on the device exactly when its numbers still obey
    the rules modulo `2 ^ 32`, its regions end below `2 ^ 32`, and the entry
    offsets of eBPF modules are multiples of eight; of a `board:` override
    the host checks none of it. -/

namespace Interclus

open Words Fallible

/-! ## Words -/

/-- `region_ok` on the low words of two numbers. -/
theorem regionOk_ofNat (base size : Nat) :
    regionOk (BitVec.ofNat 32 base) (BitVec.ofNat 32 size) = true ↔
      base % ALIGN = 0 ∧ MIN_SIZE ≤ size % 2 ^ 32 ∧
      size % 2 ^ 32 &&& (size % 2 ^ 32 - 1) = 0 ∧ base % 2 ^ 32 + size % 2 ^ 32 < 2 ^ 32 := by
  have hb : (BitVec.ofNat 32 base).toNat = base % 2 ^ 32 := BitVec.toNat_ofNat base 32
  have hs : (BitVec.ofNat 32 size).toNat = size % 2 ^ 32 := BitVec.toNat_ofNat size 32
  generalize BitVec.ofNat 32 base = b at hb ⊢
  generalize BitVec.ofNat 32 size = s at hs ⊢
  have halign : b % 0x1000 = 0 ↔ base % ALIGN = 0 := by
    unfold ALIGN
    rw [← BitVec.toNat_inj, BitVec.toNat_umod, hb]
    simp
  have hmin : IC_MIN_REGION ≤ s ↔ MIN_SIZE ≤ size % 2 ^ 32 := by
    rw [BitVec.le_def, hs]
    rfl
  have hpow : 0 < size % 2 ^ 32 → (s &&& (s - 1) = 0 ↔ size % 2 ^ 32 &&& (size % 2 ^ 32 - 1) = 0) := by
    intro hpos
    have hpred : (s - 1).toNat = size % 2 ^ 32 - 1 := by bv_omega
    rw [← BitVec.toNat_inj, BitVec.toNat_and, hpred, hs]
    rfl
  have hwrap : 0 < size % 2 ^ 32 → (b < b + s ↔ base % 2 ^ 32 + size % 2 ^ 32 < 2 ^ 32) := by
    intro hpos
    rw [BitVec.lt_def, BitVec.toNat_add, hb, hs]
    omega
  unfold regionOk
  rw [decide_eq_true_iff, halign, hmin]
  unfold MIN_SIZE
  constructor
  · rintro ⟨h₁, h₂, h₃, h₄⟩
    exact ⟨h₁, h₂, (hpow (by omega)).mp h₃, (hwrap (by omega)).mp h₄⟩
  · rintro ⟨h₁, h₂, h₃, h₄⟩
    exact ⟨h₁, h₂, (hpow (by omega)).mpr h₃, (hwrap (by omega)).mpr h₄⟩

/-! ## Constants -/

/-- The natural number `n`, which some type holds. -/
def Yaml.Fits (v : Yaml) (n : Nat) : Prop := v.int? = some (n : Int) ∧ n < 2 ^ 64

theorem Yaml.Fits.unique {v : Yaml} {n n' : Nat} (h : v.Fits n) (h' : v.Fits n') : n = n' :=
  Int.ofNat.inj (Option.some.inj (h.1.symm.trans h'.1))

/-- A constant has a value when its number fits. -/
theorem hexLiteral_value {v : Yaml} {l : HexLiteral} (h : hexLiteral v = .ok l) {w : U32} :
    l.value = some w ↔ ∃ n, v.Fits n ∧ w = BitVec.ofNat 32 n := by
  unfold hexLiteral at h
  cases hint : v.int? with
  | some z =>
    rw [hint] at h
    cases h
    unfold HexLiteral.value
    constructor
    · intro hvalue
      dsimp only at hvalue
      split at hvalue
      · next hz =>
        obtain ⟨n, rfl⟩ := Int.eq_ofNat_of_zero_le hz.1
        exact ⟨n, ⟨hint, by omega⟩, (Option.some.inj hvalue).symm⟩
      · cases hvalue
    · rintro ⟨n, ⟨hn, hlt⟩, rfl⟩
      cases hint.symm.trans hn
      exact if_pos ⟨by omega, by omega⟩
  | none =>
    rw [hint] at h
    constructor
    · intro hvalue
      cases v <;> cases h
      cases hvalue
    · rintro ⟨n, ⟨hn, -⟩, -⟩
      cases hint.symm.trans hn

/-- The words of a spec. -/
def SpecField.word (s : IcCompartmentSpec) : SpecField → U32
  | .textBase => s.textBase
  | .textSize => s.textSize
  | .sramBase => s.sramBase
  | .sramSize => s.sramSize

/-- What the compiler makes of the four numbers of a dict. -/
theorem specLiterals_value {c : Mapping} {l : SpecLiterals} (h : specLiterals c = .ok l)
    {s : IcCompartmentSpec} :
    l.value = some s ↔ ∀ f : SpecField, ∃ n, (c.get f.key).Fits n ∧ f.word s = BitVec.ofNat 32 n := by
  unfold specLiterals at h
  obtain ⟨textBase, htb, h⟩ := bind_ok.mp h
  obtain ⟨textSize, hts, h⟩ := bind_ok.mp h
  obtain ⟨sramBase, hsb, h⟩ := bind_ok.mp h
  obtain ⟨sramSize, hss, h⟩ := bind_ok.mp h
  cases h
  have hsplit : SpecLiterals.value ⟨textBase, textSize, sramBase, sramSize⟩ = some s ↔
      textBase.value = some s.textBase ∧ textSize.value = some s.textSize ∧
        sramBase.value = some s.sramBase ∧ sramSize.value = some s.sramSize := by
    unfold SpecLiterals.value
    simp only [Option.bind_eq_bind, Option.bind_eq_some_iff, Option.pure_def]
    constructor
    · rintro ⟨w₁, h₁, w₂, h₂, w₃, h₃, w₄, h₄, heq⟩
      cases heq
      exact ⟨h₁, h₂, h₃, h₄⟩
    · rintro ⟨h₁, h₂, h₃, h₄⟩
      exact ⟨_, h₁, _, h₂, _, h₃, _, h₄, rfl⟩
  rw [hsplit, hexLiteral_value htb, hexLiteral_value hts, hexLiteral_value hsb,
    hexLiteral_value hss]
  constructor
  · rintro ⟨h₁, h₂, h₃, h₄⟩ f
    cases f with
    | textBase => exact h₁
    | textSize => exact h₂
    | sramBase => exact h₃
    | sramSize => exact h₄
  · intro hall
    exact ⟨hall .textBase, hall .textSize, hall .sramBase, hall .sramSize⟩

/-! ## Fitting numbers -/

/-- The rules of the host on low words, for a region that ends below
    `2 ^ 32`. -/
def LowRegion (base size : Nat) : Prop :=
  base % ALIGN = 0 ∧ MIN_SIZE ≤ size % 2 ^ 32 ∧
    size % 2 ^ 32 &&& (size % 2 ^ 32 - 1) = 0 ∧ base % 2 ^ 32 + size % 2 ^ 32 < 2 ^ 32

def RegionFits (c : Mapping) (base size : SpecField) : Prop :=
  ∃ b s, (c.get base.key).Fits b ∧ (c.get size.key).Fits s ∧ LowRegion b s

/-- Both regions of a dict. -/
structure SpecFits (c : Mapping) : Prop where
  text : RegionFits c .textBase .textSize
  sram : RegionFits c .sramBase .sramSize

/-- The entry of module `m` lies in the text of `c`, on low words. -/
def EntryInside (m c : Mapping) : Prop :=
  ∃ entry textSize, m.entryOffset.Fits entry ∧ (c.get SpecField.textSize.key).Fits textSize ∧
    entry % 2 ^ 32 < textSize % 2 ^ 32

/-- The entry of an eBPF module is that of an instruction. -/
def EntryAligned (m : Mapping) : Prop :=
  (m.get "kind").isKey "ebpf" = true → ∀ entry : Nat, m.entryOffset.int? = some (entry : Int) →
    entry % 8 = 0

/-! ## What the device makes of it -/

/-- A declaration compiles to a spec that passes. -/
def SpecLiterals.Passes (l : SpecLiterals) : Prop :=
  ∃ s ∈ l.value, icCompartmentCheck (some s) = .ok

/-- A declaration compiles to a descriptor that passes. -/
def ModuleDecl.Passes (m : ModuleDecl) : Prop := ∃ d ∈ m.value, icModuleCheck (some d) = .ok

instance (l : SpecLiterals) : Decidable l.Passes :=
  inferInstanceAs (Decidable (∃ s ∈ l.value, icCompartmentCheck (some s) = .ok))

instance (m : ModuleDecl) : Decidable m.Passes :=
  inferInstanceAs (Decidable (∃ d ∈ m.value, icModuleCheck (some d) = .ok))

/-- What the gate of the device lets through. -/
structure HeaderBody.Passes (h : HeaderBody) : Prop where
  specs : ∀ t, ∀ d ∈ (h.decls t).specs, d.spec.Passes
  modules : ∀ t, ∀ d ∈ (h.decls t).modules, d.Passes

theorem specLiterals_passes {c : Mapping} {l : SpecLiterals} (h : specLiterals c = .ok l) :
    l.Passes ↔ SpecFits c := by
  constructor
  · rintro ⟨s, hs, hcheck⟩
    have hfields := (specLiterals_value h).mp hs
    obtain ⟨htext, hsram⟩ := (icCompartmentCheck_iff s).mp hcheck
    obtain ⟨tb, htb, hwtb⟩ := hfields .textBase
    obtain ⟨ts, hts, hwts⟩ := hfields .textSize
    obtain ⟨sb, hsb, hwsb⟩ := hfields .sramBase
    obtain ⟨ss, hss, hwss⟩ := hfields .sramSize
    rw [show s.textBase = _ from hwtb, show s.textSize = _ from hwts, regionOk_ofNat] at htext
    rw [show s.sramBase = _ from hwsb, show s.sramSize = _ from hwss, regionOk_ofNat] at hsram
    exact ⟨⟨tb, ts, htb, hts, htext⟩, ⟨sb, ss, hsb, hss, hsram⟩⟩
  · rintro ⟨⟨tb, ts, htb, hts, htext⟩, ⟨sb, ss, hsb, hss, hsram⟩⟩
    refine ⟨⟨BitVec.ofNat 32 tb, BitVec.ofNat 32 ts, BitVec.ofNat 32 sb, BitVec.ofNat 32 ss⟩,
      (specLiterals_value h).mpr fun f => ?_, (icCompartmentCheck_iff _).mpr
        ⟨(regionOk_ofNat tb ts).mpr htext, (regionOk_ofNat sb ss).mpr hsram⟩⟩
    cases f with
    | textBase => exact ⟨tb, htb, rfl⟩
    | textSize => exact ⟨ts, hts, rfl⟩
    | sramBase => exact ⟨sb, hsb, rfl⟩
    | sramSize => exact ⟨ss, hss, rfl⟩

/-- A spec that passes is aligned for words of eight bytes. -/
theorem regionOk_words {base size : U32} (h : regionOk base size = true) :
    base % 8 = 0 ∧ base % 4 = 0 ∧ size % 8 = 0 ∧ 8 ≤ size := by
  obtain ⟨k, hk, hsize⟩ := regionOk_size h
  have hpow : size.toNat = 8 * 2 ^ k := by
    rw [hsize, Nat.pow_add, Nat.mul_comm]
  have hpos : 0 < 2 ^ k := Nat.two_pow_pos k
  unfold regionOk at h
  have halign : base.toNat % 0x1000 = 0 := congrArg BitVec.toNat (of_decide_eq_true h).1
  exact ⟨BitVec.eq_of_toNat_eq (show base.toNat % 8 = 0 by omega),
    BitVec.eq_of_toNat_eq (show base.toNat % 4 = 0 by omega),
    BitVec.eq_of_toNat_eq (show size.toNat % 8 = 0 by omega), by bv_omega⟩

/-- The check of a descriptor that declares the windows of a spec that
    passes. -/
theorem icModuleCheck_specDesc {s : IcCompartmentSpec} {e : U32}
    (hs : icCompartmentCheck (some s) = .ok) (he : e &&& 1 = 0) (kind : ModuleKind) :
    icModuleCheck (some (specDesc kind.value s e)) = .ok ↔
      e < s.textSize ∧ (kind = .ebpf → e % 8 = 0) := by
  obtain ⟨htext, hsram⟩ := (icCompartmentCheck_iff s).mp hs
  cases kind with
  | native =>
    have hcheck : icModuleCheck (some (specDesc IC_MODULE_NATIVE s e)) =
        if s.textSize ≤ e then .errArgument else .ok := by
      show checkNative (specDesc IC_MODULE_NATIVE s e) = _
      unfold checkNative specDesc
      dsimp only
      rw [if_neg (not_not.mpr htext), if_neg (not_not.mpr hsram)]
      exact if_congr (or_iff_right (not_not.mpr he)) rfl rfl
    show icModuleCheck (some (specDesc IC_MODULE_NATIVE s e)) = .ok ↔ _
    rw [hcheck]
    constructor
    · intro h
      refine ⟨?_, fun hkind => by cases hkind⟩
      by_contra hout
      rw [if_pos (BitVec.not_lt.mp hout)] at h
      cases h
    · exact fun h => if_neg (BitVec.not_le.mpr h.1)
  | ebpf =>
    obtain ⟨hbase, -, hsize, hmin⟩ := regionOk_words htext
    obtain ⟨-, hbox, hboxSize, hboxMin⟩ := regionOk_words hsram
    have hne : s.sramSize ≠ 0 := by bv_omega
    have hcheck : icModuleCheck (some (specDesc IC_MODULE_EBPF s e)) =
        if e % 8 ≠ 0 ∨ s.textSize ≤ e then .errArgument else .ok := by
      show checkEbpf (specDesc IC_MODULE_EBPF s e) = _
      unfold checkEbpf specDesc
      dsimp only
      rw [if_neg fun h => h.2 hbase, if_neg (not_or.mpr ⟨not_not.mpr hsize, BitVec.not_lt.mpr hmin⟩)]
      refine if_congr Iff.rfl rfl ?_
      rw [if_neg fun h => h.2 hbox, if_neg fun h => hne h.2]
    show icModuleCheck (some (specDesc IC_MODULE_EBPF s e)) = .ok ↔ _
    rw [hcheck]
    constructor
    · intro h
      split at h
      · cases h
      · next hin =>
        rw [not_or, not_not] at hin
        exact ⟨BitVec.not_le.mp hin.2, fun _ => hin.1⟩
    · exact fun h => if_neg (not_or.mpr ⟨not_not.mpr (h.2 rfl), BitVec.not_le.mpr h.1⟩)

theorem uint_ok {v : Yaml} {what : String} {n : Nat} (h : uint v what = .ok n) :
    v.int? = some (n : Int) := by
  unfold uint at h
  split at h
  · next z hz =>
    split at h
    · cases h
    · next hneg =>
      cases h
      rw [hz, Int.toNat_of_nonneg (Int.not_lt.mp hneg)]
  · cases h

/-- The low bits of an even number. -/
theorem even_ofNat {n : Nat} (h : n % 2 = 0) : BitVec.ofNat 32 n &&& 1 = 0 := by
  refine BitVec.eq_of_toNat_eq ?_
  rw [BitVec.toNat_and, BitVec.toNat_ofNat]
  show (n % 2 ^ 32) &&& 1 = 0
  rw [Nat.and_one_is_mod]
  omega

/-- A module in a compartment that passes, with what the host checked. -/
theorem moduleDecl_passes {m c : Mapping} {d : ModuleDecl} {what : String}
    (hspec : specLiterals c = .ok d.spec) (hfits : SpecFits c)
    (hentry : uint m.entryOffset what = .ok d.entry) (heven : d.entry % 2 = 0)
    (hkind : d.kind = .ebpf ↔ (m.get "kind").isKey "ebpf" = true) :
    d.Passes ↔ EntryInside m c ∧ EntryAligned m := by
  obtain ⟨s, hs, hcheck⟩ := (specLiterals_passes hspec).mpr hfits
  obtain ⟨textSize, hsize, hword⟩ := (specLiterals_value hspec).mp hs .textSize
  have hword' : s.textSize.toNat = textSize % 2 ^ 32 := by
    rw [show s.textSize = _ from hword]
    exact BitVec.toNat_ofNat textSize 32
  have hentryNat : (BitVec.ofNat 32 d.entry).toNat = d.entry % 2 ^ 32 :=
    BitVec.toNat_ofNat d.entry 32
  have hlt : BitVec.ofNat 32 d.entry < s.textSize ↔ d.entry % 2 ^ 32 < textSize % 2 ^ 32 := by
    rw [BitVec.lt_def, hentryNat, hword']
  have hmod : BitVec.ofNat 32 d.entry % 8 = 0 ↔ d.entry % 8 = 0 := by
    have hzero : (0 : U32).toNat = 0 := rfl
    have height : (8 : U32).toNat = 8 := rfl
    rw [← BitVec.toNat_inj, BitVec.toNat_umod, hentryNat, hzero, height]
    omega
  have hmodule := icModuleCheck_specDesc hcheck (even_ofNat heven) d.kind
  have hint := uint_ok hentry
  rw [hlt, hmod, hkind] at hmodule
  have hvalue : d.value =
      (HexLiteral.num d.entry).value.map (specDesc d.kind.value s) := by
    unfold ModuleDecl.value
    rw [hs]
    generalize (HexLiteral.num d.entry).value = e
    cases e <;> rfl
  constructor
  · rintro ⟨desc, hdesc, hok⟩
    rw [hvalue] at hdesc
    obtain ⟨e, he, rfl⟩ := Option.map_eq_some_iff.mp hdesc
    unfold HexLiteral.value at he
    dsimp only at he
    split at he
    · next hrange =>
      obtain rfl := Option.some.inj he
      rw [BitVec.ofInt_natCast] at hok
      obtain ⟨hinside, haligned⟩ := hmodule.mp hok
      refine ⟨⟨d.entry, textSize, ⟨hint, by omega⟩, hsize, hinside⟩, fun hebpf entry hentry => ?_⟩
      obtain rfl : d.entry = entry := Int.ofNat.inj (Option.some.inj (hint.symm.trans hentry))
      exact haligned hebpf
    · cases he
  · rintro ⟨⟨entry, textSize', ⟨hint', hrange⟩, hsize', hinside⟩, haligned⟩
    obtain rfl := hsize.unique hsize'
    obtain rfl : d.entry = entry := Int.ofNat.inj (Option.some.inj (hint.symm.trans hint'))
    refine ⟨specDesc d.kind.value s (BitVec.ofNat 32 d.entry), ?_,
      hmodule.mpr ⟨hinside, fun hebpf => haligned hebpf d.entry hint⟩⟩
    rw [hvalue]
    unfold HexLiteral.value
    dsimp only
    rw [if_pos ⟨by omega, by omega⟩, BitVec.ofInt_natCast]
    rfl

/-! ## What the host checks leave open -/

/-- A checked field is a natural number that keeps the rules. -/
theorem checkField_ok {name : String} {c : Mapping} {f : SpecField} {u : PUnit}
    (h : checkField name c f = .ok u) :
    ∃ n : Nat, (c.get f.key).int? = some (n : Int) ∧ (f.isBase = true → n % ALIGN = 0) ∧
      (f.isSize = true → MIN_SIZE ≤ n ∧ n &&& (n - 1) = 0) := by
  unfold checkField at h
  obtain ⟨n, hn, h⟩ := bind_ok.mp h
  obtain ⟨_, hbase, h⟩ := bind_ok.mp h
  have hsize := failIf_ok.mp h
  have hbase := failIf_ok.mp hbase
  refine ⟨n, uint_ok hn, fun hf => ?_, fun hf => ?_⟩
  · by_contra hne
    exact hbase ⟨hf, hne⟩
  · have hrule := not_or.mp fun hbad => hsize ⟨hf, hbad⟩
    exact ⟨Nat.not_lt.mp hrule.1, not_not.mp hrule.2⟩

theorem checkCompartment_ok {name : String} {c : Mapping} {u : PUnit}
    (h : checkCompartment name c = .ok u) (f : SpecField) :
    ∃ n : Nat, (c.get f.key).int? = some (n : Int) ∧ (f.isBase = true → n % ALIGN = 0) ∧
      (f.isSize = true → MIN_SIZE ≤ n ∧ n &&& (n - 1) = 0) := by
  have hmem : f ∈ specFields := by cases f <;> decide
  exact checkField_ok (forM_ok.mp h f hmem)

/-- What is left to a region the host checked: it ends below `2 ^ 32`. -/
def RegionEnds (c : Mapping) (base size : SpecField) : Prop :=
  ∃ b s, (c.get base.key).Fits b ∧ (c.get size.key).Fits s ∧ s < 2 ^ 32 ∧ b % 2 ^ 32 + s < 2 ^ 32

structure SpecEnds (c : Mapping) : Prop where
  text : RegionEnds c .textBase .textSize
  sram : RegionEnds c .sramBase .sramSize

/-- A power of two has one bit. -/
theorem pow_lt {n : Nat} (hpow : n &&& (n - 1) = 0) (hlow : n % 2 ^ 32 ≠ 0) : n < 2 ^ 32 := by
  have hne : n ≠ 0 := by
    rintro rfl
    exact hlow rfl
  obtain ⟨k, rfl⟩ := (Nat.and_sub_one_eq_zero_iff_isPowerOfTwo hne).mp hpow
  by_contra hge
  have hk : 32 ≤ k := by
    by_contra hlt
    exact hge (Nat.pow_lt_pow_right (by decide) (Nat.not_le.mp hlt))
  exact hlow (Nat.mod_eq_zero_of_dvd (Nat.pow_dvd_pow 2 hk))

theorem regionFits_iff {name : String} {c : Mapping} {u : PUnit}
    (h : checkCompartment name c = .ok u) {base size : SpecField} (hbase : base.isBase = true)
    (hsize : size.isSize = true) : RegionFits c base size ↔ RegionEnds c base size := by
  obtain ⟨b, hb, halign, -⟩ := checkCompartment_ok h base
  obtain ⟨s, hs, -, hrules⟩ := checkCompartment_ok h size
  obtain ⟨hmin, hpow⟩ := hrules hsize
  have halign := halign hbase
  have hnum : ∀ {v : Yaml} {n n' : Nat}, v.int? = some (n : Int) → v.Fits n' → n' = n :=
    fun hn h => Int.ofNat.inj (Option.some.inj (h.1.symm.trans hn))
  constructor
  · rintro ⟨b', s', hb', hs', -, hmin', -, hend⟩
    obtain rfl := hnum hb hb'
    obtain rfl := hnum hs hs'
    have hlt : s' < 2 ^ 32 := pow_lt hpow (by unfold MIN_SIZE at hmin'; omega)
    rw [Nat.mod_eq_of_lt hlt] at hend
    exact ⟨b', s', hb', hs', hlt, hend⟩
  · rintro ⟨b', s', hb', hs', hlt, hend⟩
    obtain rfl := hnum hb hb'
    obtain rfl := hnum hs hs'
    refine ⟨b', s', hb', hs', halign, ?_⟩
    rw [Nat.mod_eq_of_lt hlt]
    exact ⟨hmin, hpow, hend⟩

theorem specFits_iff {name : String} {c : Mapping} {u : PUnit}
    (h : checkCompartment name c = .ok u) : SpecFits c ↔ SpecEnds c :=
  ⟨fun ⟨ht, hs⟩ => ⟨(regionFits_iff h rfl rfl).mp ht, (regionFits_iff h rfl rfl).mp hs⟩,
    fun ⟨ht, hs⟩ => ⟨(regionFits_iff h rfl rfl).mpr ht, (regionFits_iff h rfl rfl).mpr hs⟩⟩

/-- An entry the host checked against a text below `2 ^ 32` lies inside. -/
theorem entryInside_of_check {name what : String} {m c r : Mapping} {t : Target} {entry : Nat}
    {u : PUnit} (hentry : uint m.entryOffset what = .ok entry)
    (hcheck : checkEntry name c entry t = .ok u) (hr : resolved c t = .ok r) (hends : SpecEnds r) :
    EntryInside m r := by
  obtain ⟨-, textSize, -, hsize, hlt, -⟩ := hends.text
  unfold checkEntry at hcheck
  obtain ⟨r', hr', hcheck⟩ := bind_ok.mp hcheck
  obtain rfl := Except.ok.inj (hr.symm.trans hr')
  rw [hsize.1] at hcheck
  have hin := failIf_ok.mp hcheck
  have hbelow : entry < textSize := by omega
  refine ⟨entry, textSize, ⟨uint_ok hentry, by omega⟩, hsize, ?_⟩
  rw [Nat.mod_eq_of_lt hlt, Nat.mod_eq_of_lt (by omega)]
  exact hbelow

/-! ## What the host gate keeps -/

theorem ident_ok {v : Yaml} {what name : String} (h : ident v what = .ok name) :
    v = .str name := by
  have hempty : isIdent "" = false := by decide
  unfold ident at h
  cases htruthy : v.truthy with
  | true =>
    rw [htruthy, if_pos rfl] at h
    split at h
    · split at h
      · cases h
        rfl
      · cases h
    · cases h
  | false =>
    rw [htruthy, if_neg (by decide)] at h
    dsimp only at h
    rw [hempty, if_neg (by decide)] at h
    cases h

/-- A compartment of the document, and what was checked of it. -/
structure KeptCompartment (item : Yaml) (c : String × Mapping) : Prop where
  item : item = .dict c.2
  name : c.2.get "name" = .str c.1
  board : checkCompartment c.1 c.2 = .ok ⟨⟩
  qemu : ∃ r, resolved c.2 .qemu = .ok r ∧ checkCompartment c.1 r = .ok ⟨⟩

theorem addCompartment_ok {acc acc' : List (String × Mapping)} {item : Yaml}
    (h : addCompartment acc item = .ok acc') :
    ∃ c, acc' = acc ++ [c] ∧ KeptCompartment item c := by
  unfold addCompartment at h
  obtain ⟨c, hc, h⟩ := bind_ok.mp h
  obtain ⟨name, hname, h⟩ := bind_ok.mp h
  obtain ⟨_, -, h⟩ := bind_ok.mp h
  obtain ⟨_, hboard, h⟩ := bind_ok.mp h
  obtain ⟨r, hr, h⟩ := bind_ok.mp h
  obtain ⟨_, hqemu, h⟩ := bind_ok.mp h
  cases h
  have hitem : item = .dict c := by
    cases item <;> cases hc
    rfl
  exact ⟨(name, c), rfl, hitem, ident_ok hname, hboard, r, hr, hqemu⟩

/-- What was checked of a module. -/
structure ModuleChecked (compartments : List (String × Mapping)) (m : Mapping) (name : String)
    (kind : ModuleKind) : Prop where
  kind : lookupKey KINDS (m.get "kind") = some kind
  entry : ∃ c entry what, lookupKey compartments (m.get "compartment") = some c ∧
    uint m.entryOffset what = .ok entry ∧ entry % 2 = 0 ∧
    ∀ t, checkEntry name c entry t = .ok ⟨⟩

theorem checkModule_ok {compartments : List (String × Mapping)} {m : Mapping} {name : String}
    {kind : ModuleKind} (h : checkModule compartments m = .ok (name, kind)) :
    ModuleChecked compartments m name kind := by
  unfold checkModule at h
  obtain ⟨name', -, h⟩ := bind_ok.mp h
  split at h
  · cases h
  · next kind' hkind =>
    split at h
    · cases h
    · next c hc =>
      obtain ⟨entry, hentry, h⟩ := bind_ok.mp h
      obtain ⟨_, heven, h⟩ := bind_ok.mp h
      obtain ⟨_, hboard, h⟩ := bind_ok.mp h
      obtain ⟨_, hqemu, h⟩ := bind_ok.mp h
      cases h
      refine ⟨hkind, c, entry, _, hc, hentry, not_not.mp (failIf_ok.mp heven), fun t => ?_⟩
      cases t with
      | qemu => exact hqemu
      | board => exact hboard

/-- A module of the document. -/
structure KeptModule (compartments : List (String × Mapping)) (item : Yaml) (m : ModuleEntry) :
    Prop where
  item : item = .dict m.doc
  checked : ModuleChecked compartments m.doc m.name m.kind

theorem addModule_ok {compartments : List (String × Mapping)} {acc acc' : List ModuleEntry}
    {item : Yaml} (h : addModule compartments acc item = .ok acc') :
    ∃ m, acc' = acc ++ [m] ∧ KeptModule compartments item m := by
  unfold addModule at h
  obtain ⟨m, hm, h⟩ := bind_ok.mp h
  obtain ⟨⟨name, kind⟩, hcheck, h⟩ := bind_ok.mp h
  obtain ⟨_, -, h⟩ := bind_ok.mp h
  cases h
  have hitem : item = .dict m := by
    cases item <;> cases hm
    rfl
  exact ⟨⟨name, m, kind⟩, rfl, hitem, checkModule_ok hcheck⟩

/-! ## The condition -/

def Yaml.dict? : Yaml → Option Mapping
  | .dict entries => some entries
  | _ => none

/-- The dicts of the list under a key of the document. -/
def Yaml.dicts (doc : Yaml) (key : String) : List Mapping :=
  match doc with
  | .dict entries =>
    match Mapping.get entries key with
    | .list items => items.filterMap Yaml.dict?
    | _ => []
  | _ => []

/-- The compartment a module names. -/
def Yaml.compartmentOf (doc : Yaml) (m : Mapping) : Option Mapping :=
  match m.get "compartment" with
  | .str name => (doc.dicts "compartments").find? fun c => (c.get "name").isKey name
  | _ => none

/-- A `board:` override, which the host applies but does not check. -/
def Overridden (c : Mapping) (t : Target) : Prop := t = .board ∧ (c.get t.key).truthy = true

/-- What the host leaves open: the end of a region, all of a `board:`
    override, and the alignment of an eBPF entry. -/
structure FitsDevice (doc : Yaml) : Prop where
  ends : ∀ c ∈ doc.dicts "compartments", ∀ t r, ¬ Overridden c t → resolved c t = .ok r →
    SpecEnds r
  overrides : ∀ c ∈ doc.dicts "compartments", ∀ t r, Overridden c t → resolved c t = .ok r →
    SpecFits r
  entries : ∀ m ∈ doc.dicts "modules", ∀ c, doc.compartmentOf m = some c →
    EntryAligned m ∧ ∀ t r, Overridden c t → resolved c t = .ok r → EntryInside m r

/-! ## The two gates -/

/-- What an accepted document went through. -/
structure Compiled (doc : Yaml) (h : HeaderBody) (cs : List (String × Mapping))
    (ms : List ModuleEntry) : Prop where
  compartments : doc.dicts "compartments" = cs.map Prod.snd
  keptCompartments : ∀ c ∈ cs, ∃ item, KeptCompartment item c
  modules : doc.dicts "modules" = ms.map ModuleEntry.doc
  keptModules : ∀ m ∈ ms, ∃ item, KeptModule cs item m
  decls : ∀ t, decls cs ms t = .ok (h.decls t)

theorem items_ok {v : Yaml} {items : List Yaml} (h : v.items = .ok items) :
    v = .list items ∨ v.truthy = false ∧ items = [] := by
  unfold Yaml.items at h
  split at h
  · split at h
    · cases h
      exact .inl rfl
    · cases h
  · next hfalse =>
    cases h
    exact .inr ⟨Bool.eq_false_iff.mpr hfalse, rfl⟩

/-- The dicts of a list that was gone through. -/
theorem dicts_eq {R : Yaml → β → Prop} {f : β → Mapping}
    (hR : ∀ item b, R item b → item = .dict (f b)) {entries : Mapping} {key : String}
    {items : List Yaml} {bs : List β} (hitems : (Mapping.get entries key).items = .ok items)
    (hbs : List.Forall₂ R items bs) : (Yaml.dict entries).dicts key = bs.map f := by
  have hlist : items.filterMap Yaml.dict? = bs.map f := by
    clear hitems
    induction hbs with
    | nil => rfl
    | @cons item b items bs hb _ ih =>
      have hdict : item.dict? = some (f b) := by
        rw [hR item b hb]
        rfl
      rw [List.filterMap_cons_some hdict, ih, List.map_cons]
  rw [← hlist]
  show (match Mapping.get entries key with
    | .list items => items.filterMap Yaml.dict?
    | _ => []) = _
  rcases items_ok hitems with h | ⟨hfalse, rfl⟩
  · rw [h]
  · split
    · next items h =>
      rw [h] at hfalse
      cases items with
      | nil => rfl
      | cons => cases hfalse
    · rfl

theorem describe_compiled {doc : Yaml} {h : HeaderBody} (hok : describe doc = .ok h) :
    ∃ cs ms, Compiled doc h cs ms := by
  unfold describe at hok
  obtain ⟨entries, hdoc, hok⟩ := bind_ok.mp hok
  obtain ⟨version, hversion, hok⟩ := bind_ok.mp hok
  obtain ⟨_, -, hok⟩ := bind_ok.mp hok
  obtain ⟨items, hitems, hok⟩ := bind_ok.mp hok
  obtain ⟨cs, hcs, hok⟩ := bind_ok.mp hok
  obtain ⟨items', hitems', hok⟩ := bind_ok.mp hok
  obtain ⟨ms, hms, hok⟩ := bind_ok.mp hok
  obtain ⟨board, hboard, hok⟩ := bind_ok.mp hok
  obtain ⟨qemu, hqemu, hok⟩ := bind_ok.mp hok
  cases hok
  obtain ⟨_, rfl, hkept⟩ := foldlM_ok (f := addCompartment)
    (fun _ _ _ h => addCompartment_ok h) hcs
  obtain ⟨_, rfl, hkept'⟩ := foldlM_ok (f := addModule _) (fun _ _ _ h => addModule_ok h) hms
  -- a falsy document has no version
  obtain rfl : doc = .dict entries := by
    split at hdoc
    · cases doc <;> cases hdoc
      rfl
    · cases hdoc
      cases hversion
  refine ⟨cs, ms, dicts_eq (fun _ _ h => KeptCompartment.item h) hitems hkept, fun c hc => ?_,
    dicts_eq (fun _ _ h => KeptModule.item h) hitems' hkept', fun m hm => ?_, fun t => ?_⟩
  · obtain ⟨item, -, h⟩ := related_right hkept hc
    exact ⟨item, h⟩
  · obtain ⟨item, -, h⟩ := related_right hkept' hm
    exact ⟨item, h⟩
  · -- equal declarations are not branched on
    split
    · cases t with
      | qemu => exact hqemu
      | board => exact hboard
    · next heq =>
      cases t with
      | qemu => exact hqemu.trans (congrArg _ (not_not.mp heq).symm)
      | board => exact hboard

theorem kind_ebpf {v : Yaml} {kind : ModuleKind} (h : lookupKey KINDS v = some kind) :
    kind = .ebpf ↔ v.isKey "ebpf" = true := by
  cases v with
  | str s =>
    have hkinds : KINDS.lookup s = if s = "ebpf" then some .ebpf
        else if s = "native" then some .native else none := by
      unfold KINDS
      rw [List.lookup_cons, List.lookup_cons, List.lookup_nil]
      split <;> split <;> simp_all
    have hkind : KINDS.lookup s = some kind := h
    rw [hkinds] at hkind
    show kind = .ebpf ↔ decide (s = "ebpf") = true
    rw [decide_eq_true_iff]
    split at hkind
    · next hs =>
      cases hkind
      exact ⟨fun _ => hs, fun _ => rfl⟩
    · next hs =>
      refine ⟨fun hk => ?_, fun h => absurd h hs⟩
      rw [hk] at hkind
      split at hkind <;> cases hkind
  | _ => cases h

section Gates
variable {doc : Yaml} {h : HeaderBody} {cs : List (String × Mapping)} {ms : List ModuleEntry}

theorem Compiled.compartmentOf (hc : Compiled doc h cs ms) (m : Mapping) :
    doc.compartmentOf m = lookupKey cs (m.get "compartment") := by
  have hfind : ∀ name, (cs.map Prod.snd).find? (fun c => (c.get "name").isKey name) =
      cs.lookup name := by
    intro name
    have hnames : ∀ c ∈ cs, c.2.get "name" = .str c.1 := fun c hmem =>
      (hc.keptCompartments c hmem).elim fun _ hk => hk.name
    clear hc
    induction cs with
    | nil => rfl
    | cons c cs ih =>
      have hrest := ih fun c' hc' => hnames c' (List.mem_cons_of_mem c hc')
      have hkey : (c.2.get "name").isKey name = (name == c.1) := by
        rw [hnames c List.mem_cons_self, beq_eq_decide]
        exact decide_eq_decide.mpr eq_comm
      rw [List.map_cons, List.find?_cons, List.lookup_cons, hkey, hrest]
  unfold Yaml.compartmentOf lookupKey
  rw [hc.compartments]
  cases m.get "compartment" with
  | str name => exact hfind name
  | _ => rfl

/-- What the declarations of a target come from. -/
theorem Compiled.specs (hc : Compiled doc h cs ms) (t : Target) :
    List.Forall₂ (fun c d => specDecl t c = .ok d) cs (h.decls t).specs ∧
      List.Forall₂ (fun m d => moduleDecl cs t m = .ok d) ms (h.decls t).modules := by
  have hdecls := hc.decls t
  unfold Interclus.decls at hdecls
  obtain ⟨specs, hspecs, hdecls⟩ := bind_ok.mp hdecls
  obtain ⟨mods, hmods, hdecls⟩ := bind_ok.mp hdecls
  rw [← Except.ok.inj hdecls]
  exact ⟨mapM_ok.mp hspecs, mapM_ok.mp hmods⟩

theorem specDecl_ok {t : Target} {c : String × Mapping} {d : SpecDecl} (h : specDecl t c = .ok d) :
    ∃ r, resolved c.2 t = .ok r ∧ specLiterals r = .ok d.spec := by
  unfold specDecl at h
  obtain ⟨r, hr, h⟩ := bind_ok.mp h
  obtain ⟨l, hl, h⟩ := bind_ok.mp h
  cases h
  exact ⟨r, hr, hl⟩

/-- The specs pass when every compartment fits. -/
theorem Compiled.specs_pass (hc : Compiled doc h cs ms) :
    (∀ t, ∀ d ∈ (h.decls t).specs, d.spec.Passes) ↔
      ∀ c ∈ cs, ∀ t r, resolved c.2 t = .ok r → SpecFits r := by
  constructor
  · intro hpass c hmem t r hr
    obtain ⟨d, hd, hdecl⟩ := related_left (hc.specs t).1 hmem
    obtain ⟨r', hr', hl⟩ := specDecl_ok hdecl
    obtain rfl := Except.ok.inj (hr.symm.trans hr')
    exact (specLiterals_passes hl).mp (hpass t d hd)
  · intro hfits t d hd
    obtain ⟨c, hmem, hdecl⟩ := related_right (hc.specs t).1 hd
    obtain ⟨r, hr, hl⟩ := specDecl_ok hdecl
    exact (specLiterals_passes hl).mpr (hfits c hmem t r hr)

/-- What a checked module declares. -/
structure Declares (cs : List (String × Mapping)) (m : ModuleEntry) (t : Target) (d : ModuleDecl)
    (c r : Mapping) : Prop where
  compartment : lookupKey cs (m.doc.get "compartment") = some c
  resolved : resolved c t = .ok r
  spec : specLiterals r = .ok d.spec
  kind : d.kind = .ebpf ↔ (m.doc.get "kind").isKey "ebpf" = true
  entry : ∃ what, uint m.doc.entryOffset what = .ok d.entry
  even : d.entry % 2 = 0
  checked : checkEntry m.name c d.entry t = .ok ⟨⟩

theorem Compiled.declares (hc : Compiled doc h cs ms) {m : ModuleEntry} (hmem : m ∈ ms)
    {t : Target} {d : ModuleDecl} (hd : moduleDecl cs t m = .ok d) :
    ∃ c r, Declares cs m t d c r := by
  obtain ⟨_, hkept⟩ := hc.keptModules m hmem
  obtain ⟨c, entry, what, hfound, hentry, heven, hcheck⟩ := hkept.checked.entry
  unfold moduleDecl at hd
  rw [hfound] at hd
  obtain ⟨r, hr, hd⟩ := bind_ok.mp hd
  obtain ⟨entry', hentry', hd⟩ := bind_ok.mp hd
  obtain ⟨l, hl, hd⟩ := bind_ok.mp hd
  cases hd
  obtain rfl : entry = entry' :=
    Int.ofNat.inj (Option.some.inj ((uint_ok hentry).symm.trans (uint_ok hentry')))
  exact ⟨c, r, hfound, hr, hl, kind_ebpf hkept.checked.kind, ⟨what, hentry⟩, heven, hcheck t⟩

theorem mem_of_lookupKey {v : Yaml} {c : Mapping} (hfound : lookupKey cs v = some c) :
    ∃ name, (name, c) ∈ cs := by
  cases v with
  | str name =>
    obtain ⟨before, after, hcs, -⟩ := List.lookup_eq_some_iff.mp hfound
    exact ⟨name, hcs ▸ List.mem_append_right before List.mem_cons_self⟩
  | _ => cases hfound

/-- The modules pass when, in fitting compartments, every entry fits. -/
theorem Compiled.modules_pass (hc : Compiled doc h cs ms)
    (hfits : ∀ c ∈ cs, ∀ t r, resolved c.2 t = .ok r → SpecFits r) :
    (∀ t, ∀ d ∈ (h.decls t).modules, d.Passes) ↔
      ∀ m ∈ ms, ∀ c, lookupKey cs (m.doc.get "compartment") = some c →
        ∀ t r, resolved c t = .ok r → EntryInside m.doc r ∧ EntryAligned m.doc := by
  have hiff : ∀ {m t d c r}, Declares cs m t d c r →
      (d.Passes ↔ EntryInside m.doc r ∧ EntryAligned m.doc) := by
    intro m t d c r hdecl
    obtain ⟨name, hmem⟩ := mem_of_lookupKey hdecl.compartment
    obtain ⟨what, hentry⟩ := hdecl.entry
    exact moduleDecl_passes hdecl.spec (hfits _ hmem t r hdecl.resolved) hentry hdecl.even
      hdecl.kind
  constructor
  · intro hpass m hmem c hfound t r hr
    obtain ⟨d, hd, hdecl⟩ := related_left (hc.specs t).2 hmem
    obtain ⟨c', r', hdeclares⟩ := hc.declares hmem hdecl
    obtain rfl := Option.some.inj (hfound.symm.trans hdeclares.compartment)
    obtain rfl := Except.ok.inj (hr.symm.trans hdeclares.resolved)
    exact (hiff hdeclares).mp (hpass t d hd)
  · intro hrules t d hd
    obtain ⟨m, hmem, hdecl⟩ := related_right (hc.specs t).2 hd
    obtain ⟨c, r, hdeclares⟩ := hc.declares hmem hdecl
    exact (hiff hdeclares).mpr (hrules m hmem c hdeclares.compartment t r hdeclares.resolved)

/-- Past an override that is not checked, the host has checked the result. -/
theorem KeptCompartment.checked {item : Yaml} {c : String × Mapping} (hk : KeptCompartment item c)
    {t : Target} (hnot : ¬ Overridden c.2 t) {r : Mapping} (hr : resolved c.2 t = .ok r) :
    checkCompartment c.1 r = .ok ⟨⟩ := by
  cases t with
  | qemu =>
    obtain ⟨r', hr', hcheck⟩ := hk.qemu
    obtain rfl := Except.ok.inj (hr.symm.trans hr')
    exact hcheck
  | board =>
    have hplain : resolved c.2 .board = .ok c.2 := if_neg fun htruthy => hnot ⟨rfl, htruthy⟩
    obtain rfl := Except.ok.inj (hr.symm.trans hplain)
    exact hk.board

/-- Every compartment fits when the checked regions end and the overrides
    keep the rules. -/
theorem Compiled.specFits_iff (hc : Compiled doc h cs ms) :
    (∀ c ∈ cs, ∀ t r, resolved c.2 t = .ok r → SpecFits r) ↔
      ∀ c ∈ doc.dicts "compartments", ∀ t r, resolved c t = .ok r →
        (¬ Overridden c t → SpecEnds r) ∧ (Overridden c t → SpecFits r) := by
  rw [hc.compartments]
  constructor
  · intro hfits _ hmem t r hr
    obtain ⟨c, hc', rfl⟩ := List.mem_map.mp hmem
    obtain ⟨_, hk⟩ := hc.keptCompartments c hc'
    exact ⟨fun hnot => (Interclus.specFits_iff (hk.checked hnot hr)).mp (hfits c hc' t r hr),
      fun _ => hfits c hc' t r hr⟩
  · intro hfits c hmem t r hr
    obtain ⟨hends, hover⟩ := hfits c.2 (List.mem_map_of_mem hmem) t r hr
    obtain ⟨_, hk⟩ := hc.keptCompartments c hmem
    by_cases hnot : Overridden c.2 t
    · exact hover hnot
    · exact (Interclus.specFits_iff (hk.checked hnot hr)).mpr (hends hnot)

/-- And every entry fits when the eBPF ones are aligned and those of the
    overrides inside. -/
theorem Compiled.entries_iff (hc : Compiled doc h cs ms)
    (hends : ∀ c ∈ doc.dicts "compartments", ∀ t r, ¬ Overridden c t → resolved c t = .ok r →
      SpecEnds r) :
    (∀ m ∈ ms, ∀ c, lookupKey cs (m.doc.get "compartment") = some c →
        ∀ t r, resolved c t = .ok r → EntryInside m.doc r ∧ EntryAligned m.doc) ↔
      ∀ m ∈ doc.dicts "modules", ∀ c, doc.compartmentOf m = some c →
        EntryAligned m ∧ ∀ t r, Overridden c t → resolved c t = .ok r → EntryInside m r := by
  rw [hc.modules]
  constructor
  · intro hrules _ hmem c hfound
    obtain ⟨m, hm, rfl⟩ := List.mem_map.mp hmem
    rw [hc.compartmentOf] at hfound
    obtain ⟨name, hmem'⟩ := mem_of_lookupKey hfound
    obtain ⟨_, hk⟩ := hc.keptCompartments _ hmem'
    obtain ⟨r, hr, -⟩ := hk.qemu
    exact ⟨(hrules m hm c hfound .qemu r hr).2, fun t r _ hr => (hrules m hm c hfound t r hr).1⟩
  · intro hrules m hmem c hfound t r hr
    obtain ⟨haligned, hinside⟩ := hrules m.doc (List.mem_map_of_mem hmem) c
      ((hc.compartmentOf m.doc).trans hfound)
    refine ⟨?_, haligned⟩
    by_cases hnot : Overridden c t
    · exact hinside t r hnot hr
    · obtain ⟨name, hmem'⟩ := mem_of_lookupKey hfound
      obtain ⟨_, hk⟩ := hc.keptModules m hmem
      obtain ⟨c', entry, what, hfound', hentry, -, hcheck⟩ := hk.checked.entry
      obtain rfl := Option.some.inj (hfound.symm.trans hfound')
      have hdict : c ∈ doc.dicts "compartments" :=
        hc.compartments ▸ List.mem_map_of_mem (f := Prod.snd) hmem'
      exact entryInside_of_check hentry (hcheck t) hr (hends c hdict t r hnot hr)

end Gates

/-- **The host gate and the device gate.**  Of a document that
    `describe.py` accepts, the declarations of both targets pass the checks
    of the device exactly when the document fits it: no checked region
    reaches `2 ^ 32`, a `board:` override keeps the rules, and the entries
    of eBPF modules are multiples of eight. -/
theorem describe_passes_iff {doc : Yaml} {h : HeaderBody} (hok : describe doc = .ok h) :
    h.Passes ↔ FitsDevice doc := by
  obtain ⟨cs, ms, hc⟩ := describe_compiled hok
  constructor
  · rintro ⟨hspecs, hmods⟩
    have hfits := hc.specs_pass.mp hspecs
    have hsplit := hc.specFits_iff.mp hfits
    have hends : ∀ c ∈ doc.dicts "compartments", ∀ t r, ¬ Overridden c t →
        resolved c t = .ok r → SpecEnds r := fun c hmem t r hnot hr => (hsplit c hmem t r hr).1 hnot
    exact ⟨hends, fun c hmem t r hover hr => (hsplit c hmem t r hr).2 hover,
      (hc.entries_iff hends).mp ((hc.modules_pass hfits).mp hmods)⟩
  · rintro ⟨hends, hovers, hentries⟩
    have hfits := hc.specFits_iff.mpr fun c hmem t r hr =>
      ⟨fun hnot => hends c hmem t r hnot hr, fun hover => hovers c hmem t r hover hr⟩
    exact ⟨hc.specs_pass.mpr hfits,
      (hc.modules_pass hfits).mpr ((hc.entries_iff hends).mpr hentries)⟩

/-! ## Documents -/

/-- A compartment with its four numbers, and the bases that move on QEMU. -/
def demoCompartment (name : String) (textBase sramBase size qemuText qemuSram : Int) : Yaml :=
  .dict [(.str "name", .str name), (.str "text_base", .int textBase),
    (.str "text_size", .int size), (.str "sram_base", .int sramBase),
    (.str "sram_size", .int size),
    (.str "qemu", .dict [(.str "text_base", .int qemuText), (.str "sram_base", .int qemuSram)])]

def demoModule (name kind compartment : String) : Yaml :=
  .dict [(.str "name", .str name), (.str "kind", .str kind),
    (.str "compartment", .str compartment), (.str "entry_offset", .int 0)]

/-- `descriptions/demo.yaml`. -/
def demoDoc : Yaml :=
  .dict [(.str "contract_version", .int 1),
    (.str "compartments", .list [
      demoCompartment "monitor" 0x08004000 0x20004000 0x2000 0x80100000 0x80200000,
      demoCompartment "attacker" 0x08006000 0x20008000 0x2000 0x80102000 0x80208000,
      demoCompartment "native" 0x2000A000 0x2000B000 0x1000 0x80210000 0x80211000]),
    (.str "modules", .list [demoModule "monitor" "ebpf" "monitor",
      demoModule "attacker" "native" "attacker", demoModule "nativedemo" "native" "native"])]

/-- The shipped header is compiled from the shipped description. -/
theorem describe_demo :
    ∃ h, describe demoDoc = .ok h ∧ ∀ t,
      (h.decls t).specs.map (fun d => d.spec.value) =
        [some (icCompMonitor t), some (icCompAttacker t), some (icCompNative t)] ∧
      (h.decls t).modules.map ModuleDecl.value =
        [some (icModuleMonitor t), some (icModuleAttacker t), some (icModuleNativedemo t)] := by
  refine ⟨_, rfl, fun t => ?_⟩
  cases t <;> decide

/-- A document with a compartment and an eBPF module in it. -/
def policyDoc (override : Mapping) (entryOffset : Int) : Yaml :=
  .dict [(.str "contract_version", .int 1),
    (.str "compartments", .list [.dict [(.str "name", .str "policy"),
      (.str "text_base", .int 0x08004000), (.str "text_size", .int 0x2000),
      (.str "sram_base", .int 0x20004000), (.str "sram_size", .int 0x2000),
      (.str "board", .dict override)]]),
    (.str "modules", .list [.dict [(.str "name", .str "filter"), (.str "kind", .str "ebpf"),
      (.str "compartment", .str "policy"), (.str "entry_offset", .int entryOffset)]])]

/-- An entry at the second instruction passes on the device. -/
theorem describe_passes_iff_second :
    ∃ h, describe (policyDoc [] 8) = .ok h ∧ h.Passes ∧ FitsDevice (policyDoc [] 8) := by
  have hrun : ∃ h, describe (policyDoc [] 8) = .ok h ∧
      ∀ t ∈ [Target.qemu, .board], (∀ d ∈ (h.decls t).specs, d.spec.Passes) ∧
        ∀ d ∈ (h.decls t).modules, d.Passes := by
    refine ⟨_, rfl, ?_⟩
    decide
  obtain ⟨h, hok, hrun⟩ := hrun
  have hmem : ∀ t, t ∈ [Target.qemu, .board] := fun t => by cases t <;> decide
  have hpass : h.Passes := ⟨fun t => (hrun t (hmem t)).1, fun t => (hrun t (hmem t)).2⟩
  exact ⟨h, hok, hpass, (describe_passes_iff hok).mp hpass⟩

/-- An entry inside an instruction passes on the host, and not on the
    device; nor does what a `board:` override moves off its page. -/
theorem describe_acceptsRefused :
    (∃ h, describe (policyDoc [] 2) = .ok h ∧ ¬ h.Passes) ∧
      ∃ h, describe (policyDoc [(.str "text_base", .int 0x08004004)] 8) = .ok h ∧ ¬ h.Passes := by
  refine ⟨⟨_, rfl, fun h => ?_⟩, _, rfl, fun h => ?_⟩
  · exact absurd (h.modules .qemu) (by decide)
  · exact absurd (h.specs .board) (by decide)

end Interclus

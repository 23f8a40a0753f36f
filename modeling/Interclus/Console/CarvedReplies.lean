import Interclus.Console.Corruption
import Interclus.Console.TapStream
import Interclus.Host.UartFrame

/-! # Replies Carved Out of the Tap

    The board puts out text and frames; `carve` finds the frames in what
    the host has tapped of them, whatever text is around them, wherever the
    tap ends, and whatever text the end of the ring has turned to zeros. -/

namespace Interclus

open Words LTS

/-! ## The sum over a frame -/

theorem ofNat_intSum (bs : List U8) : BitVec.ofNat 8 (intSum bs) = byteSum bs := by
  induction bs with
  | nil => rfl
  | cons b bs ih =>
    show BitVec.ofNat 8 (b.toNat + intSum bs) = b + byteSum bs
    rw [BitVec.ofNat_add, ih, BitVec.ofNat_toNat, BitVec.setWidth_eq]

/-- What the host adds up over a frame is what the board does. -/
theorem intSum_closes (type : U8) (payload : List U8) (c : U8) :
    let len : U32 := BitVec.ofNat 32 payload.length
    (intSum ([type, (len &&& (0xFF : U32)).setWidth 8, (len >>> 8).setWidth 8] ++ payload) + c.toNat) &&&
        0xFF = 0 ↔ Closes type payload c := by
  intro len
  have hsum : BitVec.ofNat 8 (intSum ([type, (len &&& (0xFF : U32)).setWidth 8, (len >>> 8).setWidth 8] ++
      payload) + c.toNat) = type + lenSum len + byteSum payload + c := by
    rw [BitVec.ofNat_add, ofNat_intSum, BitVec.ofNat_toNat, BitVec.setWidth_eq]
    show type + ((len &&& (0xFF : U32)).setWidth 8 + ((len >>> 8).setWidth 8 + byteSum payload)) + c = _
    unfold lenSum
    rw [BitVec.setWidth_add _ _ (by decide), ← BitVec.add_assoc, ← BitVec.add_assoc,
      BitVec.add_assoc type]
    rfl
  rw [closes_iff, ← hsum, Nat.and_two_pow_sub_one_eq_mod _ 8]
  constructor
  · intro h
    apply BitVec.eq_of_toNat_eq
    rw [BitVec.toNat_ofNat]
    exact h
  · intro h
    have hnat := congrArg BitVec.toNat h
    rwa [BitVec.toNat_ofNat] at hnat

/-! ## The frame builder -/

/-- The frames that the host makes are the board's. -/
theorem consoleFrame_eq (ftype : U8) {payload : List U8} (h : payload.length < 65536) :
    consoleFrame ftype payload = some (uartSendFrame ftype payload) := by
  obtain ⟨len, hlen⟩ : ∃ len : U32, BitVec.ofNat 32 payload.length = len := ⟨_, rfl⟩
  have hpack : packLe 2 (BitVec.ofNat 16 payload.length) =
      [(len &&& (0xFF : U32)).setWidth 8, (len >>> 8).setWidth 8] := by
    have hff := toNat_and_ff len
    show [byteOf _ 0, byteOf _ 1] = _
    unfold byteOf
    subst hlen
    congr 1
    · bv_omega
    · congr 1
      bv_omega
  have hcloses := (intSum_closes ftype payload (frameChecksum ftype payload)).mpr
    (checksum_closes _)
  rw [hlen, Nat.and_two_pow_sub_one_eq_mod _ 8] at hcloses
  unfold consoleFrame
  rw [if_pos h, hpack]
  obtain ⟨sum, hsum⟩ : ∃ sum, intSum ([ftype, (len &&& (0xFF : U32)).setWidth 8,
      (len >>> 8).setWidth 8] ++ payload) = sum := ⟨_, rfl⟩
  have hcheck : BitVec.ofInt 8 (-(sum : Int)) = frameChecksum ftype payload := by
    apply BitVec.eq_of_toNat_eq
    have hlt := (frameChecksum ftype payload).isLt
    rw [hsum] at hcloses
    rw [BitVec.toNat_ofInt]
    omega
  rw [uartSendFrame_closedBy, closedBy, hlen, ← hcheck, ← hsum]
  rfl

/-! ## Looking for a frame -/

theorem findSync_cons {b : U8} (hb : b ≠ 0x7E) (s : List U8) :
    findSync (b :: s) = (findSync s).map (· + 1) := by
  cases s with
  | nil => rfl
  | cons c s =>
    rw [findSync, if_neg fun h => hb h.1]

/-- Text is passed over. -/
theorem findSync_text {bs : List U8} (hbs : (0x7E : U8) ∉ bs) (s : List U8) :
    findSync (bs ++ s) = (findSync s).map (· + bs.length) := by
  induction bs with
  | nil => exact Option.map_id'.symm
  | cons b bs ih =>
    have hb : b ≠ 0x7E := fun h => hbs (h ▸ List.mem_cons_self)
    rw [List.cons_append, findSync_cons hb, ih fun h => hbs (List.mem_cons_of_mem b h),
      Option.map_map]
    rfl

theorem carve_text {ftype : U8} {bs : List U8} (hbs : (0x7E : U8) ∉ bs) (s : List U8) :
    carve ftype (bs ++ s) = carve ftype s := by
  rw [carve, carve, findSync_text hbs]
  cases findSync s with
  | none => rfl
  | some i =>
    have hdrop : (bs ++ s).drop (i + bs.length) = s.drop i := by
      rw [Nat.add_comm, List.drop_append, List.drop_eq_nil_of_le (Nat.le_add_right _ _),
        Nat.add_sub_cancel_left, List.nil_append]
    simp only [Option.map_some, hdrop]

theorem carve_nil (ftype : U8) : carve ftype [] = [] := by
  rw [carve]
  rfl

/-! ## A frame -/

/-- The length bytes, as the host reads them. -/
theorem carveLen_frame {len : U32} (hlen : len.toNat ≤ 65535) (type : U8) (s : List U8) :
    carveLen (frameHeader type len ++ s) = len.toNat := by
  show ((len &&& (0xFF : U32)).setWidth 8).toNat ||| ((len >>> 8).setWidth 8).toNat <<< 8 = len.toNat
  have hff := toNat_and_ff len
  have hlo : ((len &&& (0xFF : U32)).setWidth 8).toNat = len.toNat % 256 := by bv_omega
  have hhi : ((len >>> 8).setWidth 8).toNat = len.toNat / 256 := by bv_omega
  rw [Nat.or_comm, hlo, hhi, ← Nat.shiftLeft_add_eq_or_of_lt (Nat.mod_lt _ (by decide)),
    Nat.shiftLeft_eq]
  omega

/-- A whole frame is found. -/
theorem carve_frame {ftype type : U8} {payload : List U8} (hlen : payload.length ≤ 460)
    (s : List U8) :
    carve ftype (uartSendFrame type payload ++ s) =
      (if type = ftype then [payload] else []) ++ carve ftype s := by
  obtain ⟨len, hpl⟩ : ∃ len : U32, BitVec.ofNat 32 payload.length = len := ⟨_, rfl⟩
  have hn : len.toNat = payload.length := by
    rw [← hpl, BitVec.toNat_ofNat]
    exact Nat.mod_eq_of_lt (by omega)
  have hcloses := (intSum_closes type payload (frameChecksum type payload)).mpr (checksum_closes _)
  have hbytes : uartSendFrame type payload ++ s =
      frameHeader type len ++ (payload ++ (frameChecksum type payload :: s)) := by
    rw [uartSendFrame_closedBy, closedBy, hpl, List.append_assoc, List.append_assoc]
    rfl
  have hheader : (frameHeader type len).length = 5 := rfl
  rw [hpl] at hcloses
  obtain ⟨bytes, hall⟩ : ∃ bytes,
      frameHeader type len ++ (payload ++ (frameChecksum type payload :: s)) = bytes := ⟨_, rfl⟩
  have hpre : (frameHeader type len ++ payload).length = 5 + payload.length := by
    rw [List.length_append, hheader]
  have hbody : (bytes.take (5 + payload.length)).drop 2 =
      [type, (len &&& (0xFF : U32)).setWidth 8, (len >>> 8).setWidth 8] ++ payload := by
    rw [← hall, ← List.append_assoc, List.take_left' hpre]
    rfl
  have hcheck : bytes.getD (5 + payload.length) 0 = frameChecksum type payload := by
    rw [← hall, ← List.append_assoc, List.getD_append_right _ _ _ _ (by omega), hpre, Nat.sub_self]
    rfl
  have hrest : bytes.drop (5 + payload.length + 1) = s := by
    rw [← hall, ← List.append_assoc, ← List.drop_drop, List.drop_left' hpre]
    rfl
  have hlength : bytes.length = 5 + payload.length + 1 + s.length := by
    rw [← hall, ← List.append_assoc, List.length_append, hpre, List.length_cons]
    omega
  have hfind : findSync bytes = some 0 := by
    rw [← hall]
    rfl
  have hln : carveLen bytes = payload.length := by
    rw [← hall, carveLen_frame (by omega), hn]
  rw [hbytes, hall, carve, hfind]
  dsimp only
  rw [List.drop_zero, hln, if_neg (by omega), if_neg (by omega), if_neg (by omega), hbody, hcheck,
    hrest]
  -- the sum closes, so the frame is taken out if it is of this type
  by_cases htype : type = ftype
  · subst htype
    rw [if_pos ⟨hcloses, rfl⟩, if_pos rfl]
    rfl
  · rw [if_neg fun h => htype (Option.some.inj h.2), if_neg htype]
    rfl

/-- The beginning of a frame is not. -/
theorem carve_unfinished {ftype type : U8} {payload s : List U8} (hlen : payload.length ≤ 460)
    (hs : s <+: uartSendFrame type payload) (hne : s ≠ uartSendFrame type payload) :
    carve ftype s = [] := by
  obtain ⟨len, hpl⟩ : ∃ len : U32, BitVec.ofNat 32 payload.length = len := ⟨_, rfl⟩
  have hn : len.toNat = payload.length := by
    rw [← hpl, BitVec.toNat_ofNat]
    exact Nat.mod_eq_of_lt (by omega)
  rw [uartSendFrame_closedBy, closedBy, hpl, List.append_assoc] at hs hne
  by_cases hshort : s.length < 5
  · -- the length is not there yet
    match s, hs, hshort with
    | [], _, _ => exact carve_nil ftype
    | [a], _, _ =>
      rw [carve]
      rfl
    | a :: b :: s, hs, hshort =>
      obtain ⟨ha, hs⟩ := List.cons_prefix_cons.mp hs
      obtain ⟨hb, -⟩ := List.cons_prefix_cons.mp hs
      subst ha hb
      rw [carve]
      have hfind : findSync (0x7E :: 0x7E :: s) = some 0 := rfl
      rw [hfind]
      exact if_pos hshort
  · -- the end is not there yet
    obtain ⟨t, rfl⟩ := List.prefix_of_prefix_length_le (List.prefix_append _ _) hs
      (Nat.le_of_not_lt hshort)
    have ht := (List.prefix_append_right_inj _).mp hs
    have htlen : t.length < payload.length + 1 := by
      rcases Nat.lt_or_ge t.length (payload ++ [frameChecksum type payload]).length with h | h
      · rwa [List.length_append] at h
      · exact absurd (congrArg _ (ht.eq_of_length_le h)) hne
    have hheader : (frameHeader type len).length = 5 := rfl
    have hfind : findSync (frameHeader type len ++ t) = some 0 := rfl
    rw [carve, hfind]
    dsimp only
    rw [List.drop_zero, carveLen_frame (by omega), hn, if_neg (by simp [hheader]),
      if_neg (by omega), if_pos (by rw [List.length_append, hheader]; omega)]

/-! ## What the board puts out -/

/-- A part of the board's output. -/
inductive TapPart where
  | text (bs : List U8)
  | frame (type : U8) (payload : List U8)

def TapPart.bytes : TapPart → List U8
  | .text bs => bs
  | .frame type payload => uartSendFrame type payload

/-- Text has no sync byte, and a frame is not longer than the host takes. -/
def TapPart.Clean : TapPart → Prop
  | .text bs => (0x7E : U8) ∉ bs
  | .frame _ payload => payload.length ≤ 460

/-- The payload, of a frame of this type. -/
def TapPart.ofType (ftype : U8) : TapPart → Option (List U8)
  | .text _ => none
  | .frame type payload => if type = ftype then some payload else none

theorem carve_part {ftype : U8} {p : TapPart} (hp : p.Clean) (s : List U8) :
    carve ftype (p.bytes ++ s) = (p.ofType ftype).toList ++ carve ftype s := by
  cases p with
  | text bs => exact carve_text hp s
  | frame type payload =>
    refine (carve_frame hp s).trans ?_
    unfold TapPart.ofType
    dsimp only
    by_cases htype : type = ftype
    · rw [if_pos htype, if_pos htype]
      rfl
    · rw [if_neg htype, if_neg htype]
      rfl

/-- What begins a part is not found in it. -/
theorem carve_part_begun {ftype : U8} {p : TapPart} (hp : p.Clean) {s : List U8}
    (hs : s <+: p.bytes) : carve ftype s <+: (p.ofType ftype).toList := by
  by_cases hwhole : s = p.bytes
  · have hpart : carve ftype (p.bytes ++ []) = _ := carve_part hp []
    rw [List.append_nil, carve_nil, List.append_nil] at hpart
    rw [hwhole, hpart]
  · cases p with
    | text bs =>
      have hsync : (0x7E : U8) ∉ s := fun h => hp (hs.subset h)
      have hcarve : carve ftype (s ++ []) = _ := carve_text hsync []
      rw [List.append_nil, carve_nil] at hcarve
      rw [hcarve]
      exact List.nil_prefix
    | frame type payload =>
      rw [carve_unfinished hp hs hwhole]
      exact List.nil_prefix

/-- Whole parts, and what is behind them. -/
theorem carve_parts {ftype : U8} {ps : List TapPart} (hclean : ∀ p ∈ ps, p.Clean) (s : List U8) :
    carve ftype (ps.flatMap TapPart.bytes ++ s) =
      ps.filterMap (TapPart.ofType ftype) ++ carve ftype s := by
  induction ps with
  | nil => rfl
  | cons p ps ih =>
    rw [List.flatMap_cons, List.append_assoc, carve_part (hclean p List.mem_cons_self),
      ih fun q hq => hclean q (List.mem_cons_of_mem p hq), List.filterMap_cons, ← List.append_assoc]
    cases p.ofType ftype <;> rfl

/-- Wherever the tap ends. -/
theorem carve_begun {ftype : U8} {ps : List TapPart} (hclean : ∀ p ∈ ps, p.Clean) {tap : List U8}
    (htap : tap <+: ps.flatMap TapPart.bytes) :
    carve ftype tap <+: ps.filterMap (TapPart.ofType ftype) := by
  induction ps generalizing tap with
  | nil =>
    rw [List.prefix_nil.mp htap, carve_nil]
    exact List.nil_prefix
  | cons p ps ih =>
    have hp := hclean p List.mem_cons_self
    have hcons : (p :: ps).filterMap (TapPart.ofType ftype) =
        (p.ofType ftype).toList ++ ps.filterMap (TapPart.ofType ftype) := by
      rw [List.filterMap_cons]
      cases p.ofType ftype <;> rfl
    rw [List.flatMap_cons] at htap
    rw [hcons]
    rcases List.prefix_or_prefix_of_prefix htap (List.prefix_append p.bytes _) with h | h
    · exact (carve_part_begun hp h).trans (List.prefix_append _ _)
    · obtain ⟨t, rfl⟩ := h
      rw [carve_part hp]
      exact (List.prefix_append_right_inj _).mpr
        (ih (fun q hq => hclean q (List.mem_cons_of_mem p hq))
          ((List.prefix_append_right_inj _).mp htap))

/-! ## Zeros in the text -/

/-- The places are in none of the frames, from place `k` on. -/
def SparesFrames (wraps : List Nat) : Nat → List TapPart → Prop
  | _, [] => True
  | k, .text bs :: ps => SparesFrames wraps (k + bs.length) ps
  | k, .frame type payload :: ps =>
    (∀ i ∈ wraps, i < k ∨ k + (uartSendFrame type payload).length ≤ i) ∧
      SparesFrames wraps (k + (uartSendFrame type payload).length) ps

/-- The parts with zeros in their text. -/
def blankedParts (wraps : List Nat) : Nat → List TapPart → List TapPart
  | _, [] => []
  | k, .text bs :: ps => .text (blanked wraps k bs) :: blankedParts wraps (k + bs.length) ps
  | k, .frame type payload :: ps =>
    .frame type payload :: blankedParts wraps (k + (uartSendFrame type payload).length) ps

theorem SparesFrames.left {wraps : List Nat} {k : Nat} {ps qs : List TapPart}
    (h : SparesFrames wraps k (ps ++ qs)) : SparesFrames wraps k ps := by
  induction ps generalizing k with
  | nil => trivial
  | cons p ps ih =>
    cases p with
    | text bs => exact ih h
    | frame type payload => exact ⟨h.1, ih h.2⟩

/-- Their bytes are those of the parts with zeros. -/
theorem bytes_blankedParts {wraps : List Nat} {k : Nat} {ps : List TapPart}
    (h : SparesFrames wraps k ps) :
    (blankedParts wraps k ps).flatMap TapPart.bytes =
      blanked wraps k (ps.flatMap TapPart.bytes) := by
  induction ps generalizing k with
  | nil => rfl
  | cons p ps ih =>
    rw [List.flatMap_cons, blanked_append]
    cases p with
    | text bs =>
      rw [blankedParts, List.flatMap_cons, ih h]
      rfl
    | frame type payload =>
      rw [blankedParts, List.flatMap_cons, ih h.2]
      congr 1
      exact (blanked_spared h.1).symm

theorem sync_not_mem_blanked {wraps : List Nat} {k : Nat} {bs : List U8} (h : (0x7E : U8) ∉ bs) :
    (0x7E : U8) ∉ blanked wraps k bs := by
  intro hmem
  obtain ⟨i, hi, heq⟩ := List.mem_mapIdx.mp hmem
  split at heq
  · cases heq
  · exact h (heq ▸ List.getElem_mem hi)

theorem blankedParts_clean {wraps : List Nat} {k : Nat} {ps : List TapPart}
    (h : ∀ p ∈ ps, p.Clean) : ∀ p ∈ blankedParts wraps k ps, p.Clean := by
  induction ps generalizing k with
  | nil => exact nofun
  | cons p ps ih =>
    have hp := h p List.mem_cons_self
    have hps := ih (k := k + p.bytes.length) fun q hq => h q (List.mem_cons_of_mem p hq)
    intro q hq
    cases p with
    | text bs =>
      rcases List.mem_cons.mp hq with rfl | hq
      · exact sync_not_mem_blanked hp
      · exact hps q hq
    | frame type payload =>
      rcases List.mem_cons.mp hq with rfl | hq
      · exact hp
      · exact hps q hq

theorem blankedParts_ofType (ftype : U8) (wraps : List Nat) (k : Nat) (ps : List TapPart) :
    (blankedParts wraps k ps).filterMap (TapPart.ofType ftype) =
      ps.filterMap (TapPart.ofType ftype) := by
  induction ps generalizing k with
  | nil => rfl
  | cons p ps ih =>
    cases p with
    | text bs => exact ih _
    | frame type payload =>
      rw [blankedParts, List.filterMap_cons, List.filterMap_cons, ih]

/-! ## Runs -/

/-- **Every reply is carved, and nothing else.** Text and frames that were in
    the ring whole when a `pump` began, from a board that goes on meanwhile
    to a host that keeps up.  When the `pump` is over, the host has the
    beginning of what was put out, with zeros in the places that wrapped
    around in the `pump` that took them and nowhere else; and where none of
    these places is in a frame, `carve` finds all the frames of a type that
    were put out before, and beyond them only the first of those that
    followed, each once and in order. -/
theorem vuart_repliesCarved {cap : U32} {l l' : VuLink} {es : List VuEvent}
    (h : Reachable ((vuSystem cap).restrict KeepsUp) l)
    (hrun : StepsFrom ((vuSystem cap).restrict KeepsUp) l (.pump :: es) l')
    (hidle : l'.host = .idle) (hlen : l'.put.length < 2 ^ 32)
    {before after : List TapPart} (hclean : ∀ p ∈ before ++ after, p.Clean)
    (hbefore : before.flatMap TapPart.bytes <+: l.copied)
    (hafter : l'.put <+: (before ++ after).flatMap TapPart.bytes) :
    l'.tap = blanked l'.wraps 0 (l'.put.take l'.tap.length) ∧
      (SparesFrames l'.wraps 0 (before ++ after) → ∀ ftype,
        before.filterMap (TapPart.ofType ftype) <+: carve ftype l'.tap ∧
          carve ftype l'.tap <+: (before ++ after).filterMap (TapPart.ofType ftype)) := by
  have hreach := hrun.reachable h
  have htapped := (txInv_reachable hreach.of_restrict hlen).tapped
  have hundropped := undropped_reachable hreach hlen
  have htap : l'.tap = blanked l'.wraps 0 (l'.put.take l'.tap.length) := by
    rw [← hundropped, List.take_append_of_le_length htapped.within]
    exact htapped.bytes
  refine ⟨htap, fun hspared ftype => ⟨?_, ?_⟩⟩
  · -- a `pump` takes in what was copied before
    obtain ⟨t, ht⟩ := (blanked_begins l'.wraps 0 hbefore).trans
      (pump_takes h.of_restrict hrun.of_restrict hlen hidle)
    rw [← ht, ← bytes_blankedParts hspared.left, carve_parts (blankedParts_clean fun p hp =>
      hclean p (List.mem_append_left _ hp)), blankedParts_ofType]
    exact List.prefix_append _ _
  · have hbegun : carve ftype l'.tap <+:
        (blankedParts l'.wraps 0 (before ++ after)).filterMap (TapPart.ofType ftype) := by
      refine carve_begun (blankedParts_clean hclean) ?_
      rw [bytes_blankedParts hspared, htap]
      exact blanked_begins _ _ ((List.take_prefix _ _).trans hafter)
    rwa [blankedParts_ofType] at hbegun

instance (l : VuLink) (e : VuEvent) : Decidable (KeepsUp l e) :=
  match e with
  | .putc _ => inferInstanceAs (Decidable (_ < _))
  | .poll _ | .reuse _ | .dev _ | .vsend _ | .pump | .host => inferInstanceAs (Decidable True)

/-- The board puts out bytes. -/
def puts (bs : List U8) : List VuEvent := bs.flatMap fun c => [.putc c, .dev 0, .dev 0]

/-- Text that almost fills the ring, which the host taps; then a reply, and
    text across the end of the ring. -/
def answerRun : List VuEvent :=
  puts (List.replicate 1012 0x76) ++ (.pump :: List.replicate 259 .host) ++
    puts (rearmFrame.bytes ++ List.replicate 8 0x76)

/-- The host taps, and the board starts to print meanwhile. -/
def pumpRun : List VuEvent :=
  .pump :: (List.replicate 100 .host ++ puts [0x0A] ++ List.replicate 159 .host)

def answerParts : List TapPart :=
  [.text (List.replicate 1012 0x76), .frame 0xE [1, 0, 0, 0], .text (List.replicate 8 0x76)]

theorem answerParts_clean : ∀ p ∈ answerParts ++ [.text [0x0A]], p.Clean := by
  have htext : ∀ n, (0x7E : U8) ∉ List.replicate n 0x76 := by
    intro n hmem
    exact absurd (List.eq_of_mem_replicate hmem) (by decide)
  rintro p (_ | ⟨_, _ | ⟨_, _ | ⟨_, _ | ⟨_, hp⟩⟩⟩⟩)
  · exact htext 1012
  · show 4 ≤ 460
    decide
  · exact htext 8
  · show (0x7E : U8) ∉ [0x0A]
    decide
  · cases hp

theorem vuart_repliesCarved_acrossEnd :
    ∃ l l', LTS.run (guarded (vuStep 8) KeepsUp) vuQuiet answerRun = some l ∧
      LTS.run (guarded (vuStep 8) KeepsUp) l pumpRun = some l' ∧
      l'.wraps = [1024, 1025, 1026, 1027, 1028, 1029] ∧
      [[1, 0, 0, 0]] <+: carve 0xE l'.tap ∧ carve 0xE l'.tap <+: [[1, 0, 0, 0]] := by
  have hruns : ((LTS.run (guarded (vuStep 8) KeepsUp) vuQuiet answerRun).bind fun l =>
      (LTS.run (guarded (vuStep 8) KeepsUp) l pumpRun).map fun l' =>
        decide (l.copied = answerParts.flatMap TapPart.bytes ∧ l'.host = .idle ∧
          l'.wraps = [1024, 1025, 1026, 1027, 1028, 1029] ∧
          l'.put = (answerParts ++ [TapPart.text [0x0A]]).flatMap TapPart.bytes)) = some true := by
    decide +kernel
  obtain ⟨l, hl, hrest⟩ := Option.bind_eq_some_iff.mp hruns
  obtain ⟨l', hl', hfacts⟩ := Option.map_eq_some_iff.mp hrest
  have hall := of_decide_eq_true hfacts
  obtain ⟨hcopied, hidle, hwraps, hput'⟩ := hall
  have hsteps : StepsFrom ((vuSystem 8).restrict KeepsUp) vuQuiet answerRun l :=
    .of_guarded (fun _ _ _ h => h) hl
  have hsteps' : StepsFrom ((vuSystem 8).restrict KeepsUp) l pumpRun l' :=
    .of_guarded (fun _ _ _ h => h) hl'
  have hlen : l'.put.length < 2 ^ 32 := by
    rw [hput']
    decide +kernel
  -- the end of the ring is in the text behind the reply
  have hspared : SparesFrames l'.wraps 0 (answerParts ++ [.text [0x0A]]) := by
    rw [hwraps]
    exact ⟨by decide +kernel, trivial⟩
  exact ⟨l, l', hl, hl', hwraps, (vuart_repliesCarved (hsteps.reachable (.init vuQuiet_start))
    hsteps' hidle hlen answerParts_clean (hcopied ▸ List.prefix_rfl)
    (hput' ▸ List.prefix_rfl)).2 hspared 0xE⟩

end Interclus

import Interclus.Console.RingFrames

/-! # What the Host Taps

    `pump` reads the counters and the ring a word at a time while the board
    keeps writing.  `TAP` is nevertheless the beginning of what the board
    copied, with zeros where a `pump` met the end of the ring, and what the
    board copied is, as long as the host keeps up, the beginning of what it
    put out. -/

namespace Interclus

open Words LTS

/-! ## Zeros in a stream -/

/-- `bs`, from place `k` on, with zeros at some places. -/
def blanked (blanks : List Nat) (k : Nat) (bs : List U8) : List U8 :=
  bs.mapIdx fun i b => if k + i ∈ blanks then 0 else b

theorem length_blanked (blanks : List Nat) (k : Nat) (bs : List U8) :
    (blanked blanks k bs).length = bs.length := List.length_mapIdx

theorem blanked_append (blanks : List Nat) (k : Nat) (bs cs : List U8) :
    blanked blanks k (bs ++ cs) = blanked blanks k bs ++ blanked blanks (k + bs.length) cs := by
  unfold blanked
  rw [List.mapIdx_append]
  congr 2
  funext i b
  rw [Nat.add_assoc, Nat.add_comm bs.length]

theorem blanked_begins (blanks : List Nat) (k : Nat) {bs cs : List U8} (h : bs <+: cs) :
    blanked blanks k bs <+: blanked blanks k cs := by
  obtain ⟨ds, rfl⟩ := h
  rw [blanked_append]
  exact List.prefix_append _ _

/-- Only the places it covers matter. -/
theorem blanked_congr {blanks blanks' : List Nat} {k : Nat} {bs : List U8}
    (h : ∀ i, k ≤ i → i < k + bs.length → (i ∈ blanks ↔ i ∈ blanks')) :
    blanked blanks k bs = blanked blanks' k bs := by
  apply List.ext_getElem?
  intro i
  unfold blanked
  rw [List.getElem?_mapIdx, List.getElem?_mapIdx]
  by_cases hi : i < bs.length
  · simp only [h (k + i) (Nat.le_add_right _ _) (Nat.add_lt_add_left hi k)]
  · rw [List.getElem?_eq_none (Nat.le_of_not_lt hi)]
    rfl

theorem blanked_spared {blanks : List Nat} {k : Nat} {bs : List U8}
    (h : ∀ i ∈ blanks, i < k ∨ k + bs.length ≤ i) : blanked blanks k bs = bs := by
  have hnone : blanked blanks k bs = blanked [] k bs := by
    refine blanked_congr fun i hle hlt => ⟨fun hi => ?_, fun hi => absurd hi List.not_mem_nil⟩
    rcases h i hi with h | h <;> omega
  rw [hnone]
  exact List.mapIdx_eq_iff.mpr fun i => by simp

/-! ## The invariant -/

/-- The byte stored and not yet counted. -/
def VuDevPc.stored : VuDevPc → List U8
  | .publish c => [c]
  | _ => []

/-- The byte that passed the tests of `uart_tap`. -/
def VuDevPc.inHand : VuDevPc → List U8
  | .fill c | .publish c => [c]
  | _ => []

/-- The first `n` of what was copied are tapped, with zeros where they
    wrapped around. -/
structure Tapped (wraps : List Nat) (copied tap : List U8) (n : Nat) : Prop where
  bytes : tap = blanked wraps 0 (copied.take n)
  within : n ≤ copied.length
  behind : ∀ i ∈ wraps, i < n

/-- A `pump` under way up to `tw`, from `rd` on. -/
structure Pumps (wraps : List Nat) (copied tap : List U8) (rd tw : Nat) : Prop where
  tapped : Tapped wraps copied tap rd
  after : rd ≤ tw
  within : tw ≤ copied.length

/-- The words read so far hold their part of the stream. -/
structure Dumps (copied : List U8) (tr tw : Nat) (got : List U32) : Prop where
  words : got.length ≤ 256
  bytes : ∀ i, tr ≤ i → i < tw → i % 1024 < 4 * got.length →
    (got.flatMap (packLe 4))[i % 1024]? = copied[i]?

/-- What the host has, where it is. -/
def TapHolds (wraps : List Nat) (copied tap : List U8) (rd : Nat) : VuHostPc → Prop
  | .idle | .fill .. => Tapped wraps copied tap rd
  | .pump tw => Pumps wraps copied tap rd tw
  | .dump tw tr got => tr = rd ∧ Pumps wraps copied tap rd tw ∧ Dumps copied tr tw got
  | .ack tw => Tapped wraps copied tap tw ∧ rd ≤ tw

/-- The tx words, and what the tx ring holds. -/
structure TxRing (v : Vuart) (copied stored inHand put : List U8) : Prop where
  magic : v.magic = VU_MAGIC
  flags : v.flags = 1
  wr : v.txWr.toNat = copied.length
  read : v.txRd.toNat ≤ copied.length
  ring : Ring.Holds 1024 v.tx (copied ++ stored) v.txRd.toNat
  room : inHand ≠ [] → copied.length < v.txRd.toNat + 1024
  put : (copied ++ inHand).Sublist put

structure TxInv (l : VuLink) : Prop where
  ring : TxRing l.v l.copied l.dev.stored l.dev.inHand l.put
  host : TapHolds l.wraps l.copied l.tap l.v.txRd.toNat l.host

theorem TxInv.start {l : VuLink} (h : l.Start) : TxInv l := by
  obtain ⟨⟨v, hv⟩, hdev, -, hhost, htap, -, -, -, -, hput, hcopied, hwraps⟩ := h
  obtain ⟨v', dev, s, host, tap, sent, pub, staged, heard, put, copied, wraps⟩ := l
  dsimp only at hv hdev hhost htap hput hcopied hwraps
  subst hv hdev hhost htap hput hcopied hwraps
  exact ⟨⟨rfl, rfl, rfl, Nat.le_refl _, .empty, fun h => absurd rfl h, List.Sublist.refl _⟩,
    ⟨rfl, Nat.le_refl _, nofun⟩⟩

/-! ## What `pump` cuts out -/

theorem length_flatMap_packLe (got : List U32) :
    (got.flatMap (packLe 4)).length = 4 * got.length := by
  induction got with
  | nil => rfl
  | cons w got ih =>
    rw [List.flatMap_cons, List.length_append, length_packLe, ih, List.length_cons]
    omega

/-- A word read. -/
theorem Dumps.read {copied stored : List U8} {tx : Mem} {tr tw : Nat} {got : List U32}
    (h : Dumps copied tr tw got) (hring : Ring.Holds 1024 tx (copied ++ stored) tr)
    (hwithin : tw ≤ copied.length) (hlt : got.length < 256) :
    Dumps copied tr tw (got ++ [le32 tx (4 * got.length)]) := by
  have hlen := length_flatMap_packLe got
  refine ⟨?_, fun i hi hitw hidx => ?_⟩
  · rw [List.length_append]
    exact hlt
  · rw [List.length_append, List.length_singleton] at hidx
    rw [List.flatMap_append, List.flatMap_singleton]
    by_cases hold : i % 1024 < 4 * got.length
    · rw [List.getElem?_append_left (by omega)]
      exact h.bytes i hi hitw hold
    · -- in this word
      have hget := List.getElem?_eq_getElem (l := copied) (i := i) (by omega)
      have hslot := hring.slot i _ hi (by rw [List.getElem?_append_left (by omega), hget])
      rw [List.getElem?_append_right (by omega), packLe_le32, hlen, hget]
      unfold bytesAt
      rw [List.getElem?_map, List.getElem?_range (by omega), Option.map_some,
        Nat.add_sub_cancel' (by omega), hslot]

/-- More words laid out than were read: the others are zeros. -/
theorem flatMap_getD (got : List U32) (n : Nat) :
    ((List.range (got.length + n)).flatMap fun i => packLe 4 (got.getD i 0)) =
      got.flatMap (packLe 4) ++ List.replicate (n * 4) 0 := by
  have hread : (List.range got.length).map (fun i => got.getD i 0) = got := by
    apply List.ext_getElem
    · rw [List.length_map, List.length_range]
    · intro i hi hi'
      rw [List.getElem_map, List.getElem_range, List.getD_eq_getElem _ _ hi']
  have hzero : (List.range n).map (fun i => got.getD (got.length + i) 0) = List.replicate n 0 := by
    rw [List.eq_replicate_iff]
    refine ⟨by rw [List.length_map, List.length_range], fun w hw => ?_⟩
    obtain ⟨i, -, rfl⟩ := List.mem_map.mp hw
    exact List.getD_eq_default _ _ (Nat.le_add_right _ _)
  have hpack : packLe 4 (0 : U32) = List.replicate 4 0 := rfl
  rw [List.range_add, List.flatMap_append, List.flatMap_map]
  congr 1
  · rw [← List.flatMap_map (fun i => got.getD i 0) (packLe 4), hread]
  · rw [← List.flatMap_map (fun i => got.getD (got.length + i) 0) (packLe 4), hzero,
      List.flatMap_replicate, hpack, List.flatten_replicate_replicate]

theorem mem_pumpWraps {tw tr i : Nat} :
    i ∈ pumpWraps tw tr ↔ (tr ≤ i ∧ i < tw) ∧ 1024 ≤ tr % 1024 + (i - tr) := by
  unfold pumpWraps
  rw [List.mem_filter, List.mem_range'_1, decide_eq_true_iff]
  omega

/-- The whole ring read: the cut is the part of the stream between the
    counters, with zeros where it wraps around. -/
theorem pumpBytes_eq {copied : List U8} {tr tw : Nat} {got : List U32} (h : Dumps copied tr tw got)
    (hall : got.length = 256) (hle : tr ≤ tw) (hfits : tw ≤ tr + 1024)
    (hwithin : tw ≤ copied.length) :
    pumpBytes tw tr got = blanked (pumpWraps tw tr) tr ((copied.drop tr).take (tw - tr)) := by
  have hring : (got.flatMap (packLe 4)).length = 1024 := by
    rw [length_flatMap_packLe, hall]
  have hstart : tr % 1024 < 1024 := Nat.mod_lt _ (by decide)
  have hn : ((tw : Int) - tr).toNat = tw - tr := by omega
  have hlaid := flatMap_getD got 768
  rw [hall] at hlaid
  have hroom : tw - tr ≤ ((got.flatMap (packLe 4) ++ List.replicate (768 * 4) 0).drop
      (tr % 1024)).length := by
    rw [List.length_drop, List.length_append, hring, List.length_replicate]
    omega
  unfold pumpBytes pyTake
  dsimp only
  rw [hlaid, and_1023, if_pos (by omega), hn, List.take_append_of_le_length hroom]
  apply List.ext_getElem?
  intro k
  unfold blanked
  rw [List.getElem?_mapIdx]
  by_cases hk : k < tw - tr
  · have hmem : tr + k ∈ pumpWraps tw tr ↔ 1024 ≤ tr % 1024 + k := by
      rw [mem_pumpWraps, Nat.add_sub_cancel_left]
      omega
    have hget := List.getElem?_eq_getElem (l := copied) (i := tr + k) (by omega)
    rw [List.getElem?_take_of_lt hk, List.getElem?_take_of_lt hk, List.getElem?_drop,
      List.getElem?_drop, hget, Option.map_some]
    by_cases hwrap : tr % 1024 + k < 1024
    · -- before the end of the ring
      have hidx : (tr + k) % 1024 = tr % 1024 + k := by omega
      rw [if_neg (mt hmem.mp (by omega)), List.getElem?_append_left (by omega), ← hidx, ← hget]
      exact h.bytes (tr + k) (by omega) (by omega) (by omega)
    · -- behind it
      rw [if_pos (hmem.mpr (by omega)), List.getElem?_append_right (by omega),
        List.getElem?_replicate_of_lt (by omega)]
  · have hlt : ∀ l : List U8, (l.take (tw - tr))[k]? = none := by
      intro l
      rw [List.getElem?_eq_none]
      exact (List.length_take_le _ _).trans (Nat.le_of_not_lt hk)
    rw [hlt, hlt]
    rfl

/-- Bytes at both ends of the ring: those that wrapped around are zeros. -/
example : pumpBytes 1030 1020 ((List.range 256).map fun i =>
    le32 (fun j => BitVec.ofNat 8 (7 * j + 1)) (4 * i)) = [0xE5, 0xEC, 0xF3, 0xFA, 0, 0, 0, 0, 0, 0] := by
  decide +kernel

theorem Tapped.length {wraps : List Nat} {copied tap : List U8} {n : Nat}
    (h : Tapped wraps copied tap n) : tap.length = n := by
  rw [h.bytes, length_blanked, List.length_take_of_le h.within]

/-- What a `pump` adds. -/
theorem Tapped.pump {wraps : List Nat} {copied tap : List U8} {tr tw : Nat} {got : List U32}
    (h : Tapped wraps copied tap tr) (hd : Dumps copied tr tw got) (hall : got.length = 256)
    (hle : tr ≤ tw) (hfits : tw ≤ tr + 1024) (hwithin : tw ≤ copied.length) :
    Tapped (wraps ++ pumpWraps tw tr) copied (tap ++ pumpBytes tw tr got) tw := by
  have hmem : ∀ i ∈ pumpWraps tw tr, tr ≤ i ∧ i < tw := fun i hi =>
    (mem_pumpWraps.mp hi).1
  have hlen : (copied.take tr).length = tr := List.length_take_of_le h.within
  refine ⟨?_, hwithin, fun i hi => ?_⟩
  · have hold : blanked (wraps ++ pumpWraps tw tr) 0 (copied.take tr) =
        blanked wraps 0 (copied.take tr) := by
      refine blanked_congr fun i _ hlt => ?_
      rw [List.mem_append, or_iff_left fun hi => ?_]
      have := hmem i hi
      omega
    have hnew : blanked (wraps ++ pumpWraps tw tr) tr ((copied.drop tr).take (tw - tr)) =
        blanked (pumpWraps tw tr) tr ((copied.drop tr).take (tw - tr)) := by
      refine blanked_congr fun i hi _ => ?_
      rw [List.mem_append, or_iff_right fun hi' => ?_]
      exact absurd (h.behind i hi') (Nat.not_lt.mpr hi)
    have hcut : copied.take tw = copied.take tr ++ (copied.drop tr).take (tw - tr) := by
      rw [← List.take_add, Nat.add_sub_cancel' hle]
    rw [pumpBytes_eq hd hall hle hfits hwithin, h.bytes, ← hold, ← hnew, hcut, blanked_append, hlen,
      Nat.zero_add]
  · rcases List.mem_append.mp hi with hi | hi
    · exact Nat.lt_of_lt_of_le (h.behind i hi) hle
    · exact (hmem i hi).2

/-! ## Steps -/

theorem take_concat {copied : List U8} {n : Nat} (h : n ≤ copied.length) (more : List U8) :
    (copied ++ more).take n = copied.take n := List.take_append_of_le_length h

/-- The stream goes on. -/
theorem Tapped.grows {wraps : List Nat} {copied tap : List U8} {n : Nat}
    (h : Tapped wraps copied tap n) (more : List U8) : Tapped wraps (copied ++ more) tap n := by
  refine ⟨?_, ?_, h.behind⟩
  · rw [take_concat h.within, h.bytes]
  · rw [List.length_append]
    exact Nat.le_add_right_of_le h.within

theorem TapHolds.grows {wraps : List Nat} {copied tap : List U8} {rd : Nat} {pc : VuHostPc}
    (h : TapHolds wraps copied tap rd pc) (more : List U8) :
    TapHolds wraps (copied ++ more) tap rd pc := by
  have hpumps : ∀ tw, Pumps wraps copied tap rd tw → Pumps wraps (copied ++ more) tap rd tw := by
    intro tw hp
    refine ⟨hp.tapped.grows more, hp.after, ?_⟩
    rw [List.length_append]
    exact Nat.le_add_right_of_le hp.within
  cases pc with
  | idle | fill f todo wr => exact Tapped.grows h more
  | pump tw => exact hpumps tw h
  | dump tw tr got =>
    obtain ⟨htr, hp, hd⟩ := h
    refine ⟨htr, hpumps tw hp, hd.words, fun i hi hlt hidx => ?_⟩
    have hwithin := hp.within
    rw [List.getElem?_append_left (by omega)]
    exact hd.bytes i hi hlt hidx
  | ack tw => exact ⟨h.1.grows more, h.2⟩

/-- No byte on its way to the ring. -/
def VuDevPc.Empty (dev : VuDevPc) : Prop := dev.stored = [] ∧ dev.inHand = []

theorem empty_ite {p : Prop} [Decidable p] {dev dev' : VuDevPc} (h : dev.Empty) (h' : dev'.Empty) :
    (if p then dev else dev').Empty := by
  by_cases hp : p
  · rwa [if_pos hp]
  · rwa [if_neg hp]

theorem TxRing.empty {v : Vuart} {copied put : List U8} {dev : VuDevPc}
    (h : TxRing v copied [] [] put) (hdev : dev.Empty) :
    TxRing v copied dev.stored dev.inHand put := by
  rw [hdev.1, hdev.2]
  exact h

/-- A byte stored, and then counted. -/
theorem TxRing.fill {v : Vuart} {copied put : List U8} {c : U8} (h : TxRing v copied [] [c] put) :
    TxRing (v.txFill c) copied [c] [c] put := by
  have hroom := h.room (List.cons_ne_nil _ _)
  have hring := h.ring
  rw [List.append_nil] at hring
  refine ⟨h.magic, h.flags, h.wr, h.read, hring.put c hroom ?_ fun k hk => ?_, h.room, h.put⟩
  · unfold Vuart.txFill
    dsimp only
    rw [toNat_and_1023, h.wr, if_pos rfl]
  · unfold Vuart.txFill
    dsimp only
    rw [toNat_and_1023, h.wr, if_neg hk]

theorem TxRing.publish {v : Vuart} {copied put : List U8} {c : U8}
    (h : TxRing v copied [c] [c] put) (hlen : put.length < 2 ^ 32) :
    TxRing v.txPublish (copied ++ [c]) [] [] put := by
  have hwr := h.wr
  have hread := h.read
  have hput := h.put.length_le
  rw [List.length_append, List.length_singleton] at hput
  refine ⟨h.magic, h.flags, ?_, ?_, ?_, fun hne => absurd rfl hne, ?_⟩
  · show (v.txWr + 1).toNat = (copied ++ [c]).length
    rw [List.length_append, List.length_singleton, BitVec.toNat_add, hwr]
    exact Nat.mod_eq_of_lt (by simpa using by omega)
  · rw [List.length_append]
    exact Nat.le_add_right_of_le hread
  · rw [List.append_nil]
    exact h.ring
  · rw [List.append_nil]
    exact h.put

/-- The board's next access. -/
theorem TxInv.devNext {cap : U32} {l l' : VuLink} (h : TxInv l) {t : U32}
    (hstep : l.devNext cap t = some l') (hlen : l.put.length < 2 ^ 32) : TxInv l' := by
  have hring := h.ring
  unfold VuLink.devNext at hstep
  split at hstep
  · cases hstep
  · next hpc =>
    obtain rfl := Option.some.inj hstep
    rw [hpc] at hring
    exact ⟨hring.empty (empty_ite ⟨rfl, rfl⟩ ⟨rfl, rfl⟩), h.host⟩
  · next hpc =>
    obtain rfl := Option.some.inj hstep
    rw [hpc] at hring
    exact ⟨hring, h.host⟩
  · next c hpc =>
    obtain rfl := Option.some.inj hstep
    rw [hpc] at hring
    have hring' : TxRing l.v.rxTake l.copied [] [] l.put :=
      ⟨hring.magic, hring.flags, hring.wr, hring.read, hring.ring, hring.room, hring.put⟩
    exact ⟨hring'.empty (empty_ite ⟨rfl, rfl⟩ ⟨rfl, rfl⟩), h.host⟩
  · next c hpc =>
    obtain rfl := Option.some.inj hstep
    rw [hpc] at hring
    exact ⟨hring.fill, h.host⟩
  · next c hpc =>
    obtain rfl := Option.some.inj hstep
    rw [hpc] at hring
    exact ⟨hring.publish hlen, h.host.grows [c]⟩

/-- A call of `uart_putc`. -/
theorem TxInv.putc {l : VuLink} (h : TxInv l) (hpc : l.dev = .away) (c : U8) :
    TxInv { l with dev := if l.v.TapReady then .fill c else .away, put := l.put ++ [c] } := by
  have hring := h.ring
  rw [hpc] at hring
  have hput := hring.put
  rw [show VuDevPc.away.inHand = [] from rfl, List.append_nil] at hput
  refine ⟨?_, h.host⟩
  by_cases hready : l.v.TapReady
  · -- there is room for it
    have hroom : l.copied.length < l.v.txRd.toNat + 1024 := by
      have hdist := BitVec.lt_def.mp hready.2.2
      have hwr := hring.wr
      have hread := hring.read
      rw [BitVec.toNat_sub_of_le (BitVec.le_def.mpr (hwr ▸ hread)), hwr] at hdist
      exact Nat.sub_lt_iff_lt_add hread |>.mp hdist |>.trans_eq (Nat.add_comm _ _)
    rw [if_pos hready]
    exact ⟨hring.magic, hring.flags, hring.wr, hring.read, hring.ring, fun _ => hroom,
      hput.append_right [c]⟩
  · rw [if_neg hready]
    refine ⟨hring.magic, hring.flags, hring.wr, hring.read, hring.ring, hring.room, ?_⟩
    show (l.copied ++ []).Sublist (l.put ++ [c])
    rw [List.append_nil]
    exact hput.trans (List.sublist_append_left _ _)

/-- The host's next access. -/
theorem TxInv.hostNext {l l' : VuLink} (h : TxInv l) (hstep : l.hostNext = some l')
    (hlen : l.put.length < 2 ^ 32) : TxInv l' := by
  have hring := h.ring
  have hhost := h.host
  unfold VuLink.hostNext at hstep
  split at hstep
  · cases hstep
  · next hpc =>
    obtain rfl := Option.some.inj hstep
    rw [hpc] at hhost
    exact ⟨⟨hring.magic, hring.flags, hring.wr, hring.read, hring.ring, hring.room, hring.put⟩,
      hhost⟩
  · next hpc =>
    obtain rfl := Option.some.inj hstep
    rw [hpc] at hhost
    exact ⟨⟨hring.magic, hring.flags, hring.wr, hring.read, hring.ring, hring.room, hring.put⟩,
      hhost⟩
  · next tw hpc =>
    obtain rfl := Option.some.inj hstep
    rw [hpc] at hhost
    refine ⟨hring, ?_⟩
    dsimp only
    split
    · exact hhost.tapped
    · exact ⟨rfl, hhost, Nat.zero_le _, fun i _ _ hidx => absurd hidx (Nat.not_lt_zero _)⟩
  · next tw tr got hpc =>
    rw [hpc] at hhost
    obtain ⟨rfl, hp, hd⟩ := hhost
    split at hstep
    · next hlt =>
      obtain rfl := Option.some.inj hstep
      exact ⟨hring, rfl, hp, hd.read hring.ring hp.within hlt⟩
    · next hall =>
      obtain rfl := Option.some.inj hstep
      have hwithin := hp.within
      have hfits := hring.ring.fits
      have hwords := hd.words
      rw [List.length_append] at hfits
      exact ⟨hring, hp.tapped.pump hd (by omega) hp.after (by omega) hwithin, hp.after⟩
  · next tw hpc =>
    obtain rfl := Option.some.inj hstep
    rw [hpc] at hhost
    obtain ⟨htapped, hafter⟩ := hhost
    have hwithin := htapped.within
    have hput := hring.put.length_le
    rw [List.length_append] at hput
    have htw : (BitVec.ofNat 32 tw).toNat = tw := by
      rw [BitVec.toNat_ofNat]
      exact Nat.mod_eq_of_lt (by omega)
    refine ⟨⟨hring.magic, hring.flags, hring.wr, ?_, ?_, fun hne => ?_, hring.put⟩, ?_⟩
    · show (BitVec.ofNat 32 tw).toNat ≤ l.copied.length
      rwa [htw]
    · show Ring.Holds 1024 l.v.tx (l.copied ++ l.dev.stored) (BitVec.ofNat 32 tw).toNat
      rw [htw]
      refine hring.ring.take hafter ?_
      rw [List.length_append]
      exact Nat.le_add_right_of_le hwithin
    · show l.copied.length < (BitVec.ofNat 32 tw).toNat + 1024
      have := hring.room hne
      omega
    · show Tapped l.wraps l.copied l.tap (BitVec.ofNat 32 tw).toNat
      rwa [htw]

/-! ## Runs -/

/-- No access of either end takes what is tapped out of step with what was
    copied, as long as the counters do not wrap. -/
theorem TxInv.step {cap : U32} {l l' : VuLink} {e : VuEvent} (h : TxInv l)
    (hstep : vuStep cap l e = some l') (hlen : l.put.length < 2 ^ 32) : TxInv l' := by
  have hhost := h.host
  have hring := h.ring
  cases e with
  | dev t => exact h.devNext hstep hlen
  | host => exact h.hostNext hstep hlen
  | putc c =>
    simp only [vuStep] at hstep
    split at hstep
    · next hpc =>
      obtain rfl := Option.some.inj hstep
      exact h.putc hpc c
    · cases hstep
  | poll t =>
    simp only [vuStep] at hstep
    split at hstep
    · next hpc =>
      obtain rfl := Option.some.inj hstep
      rw [hpc] at hring
      exact ⟨hring, h.host⟩
    · cases hstep
  | reuse dst =>
    simp only [vuStep] at hstep
    split at hstep
    · obtain rfl := Option.some.inj hstep
      exact ⟨h.ring, h.host⟩
    · cases hstep
  | vsend f =>
    simp only [vuStep] at hstep
    split at hstep
    · next hpc =>
      obtain rfl := Option.some.inj hstep
      rw [hpc] at hhost
      unfold VuLink.vsend
      dsimp only
      split
      · exact h
      · exact ⟨h.ring, hhost⟩
    · cases hstep
  | pump =>
    simp only [vuStep] at hstep
    split at hstep
    · next hpc =>
      obtain rfl := Option.some.inj hstep
      rw [hpc] at hhost
      exact ⟨h.ring, hhost, hring.wr ▸ hring.read, hring.wr.le⟩
    · cases hstep

/-- What was copied, as far as it is tapped. -/
theorem TxInv.tapped {l : VuLink} (h : TxInv l) :
    Tapped l.wraps l.copied l.tap l.tap.length := by
  obtain ⟨n, hn⟩ : ∃ n, Tapped l.wraps l.copied l.tap n := by
    have hhost := h.host
    cases hpc : l.host with
    | idle | fill f todo wr =>
      rw [hpc] at hhost
      exact ⟨_, hhost⟩
    | pump tw =>
      rw [hpc] at hhost
      exact ⟨_, hhost.tapped⟩
    | dump tw tr got =>
      rw [hpc] at hhost
      exact ⟨_, hhost.2.1.tapped⟩
    | ack tw =>
      rw [hpc] at hhost
      exact ⟨_, hhost.1⟩
  rwa [hn.length]

/-- A host that keeps up: less than a ring is put out beyond what it has
    acknowledged. -/
def KeepsUp (l : VuLink) : VuEvent → Prop
  | .putc _ => l.put.length < l.v.txRd.toNat + 1024
  | _ => True

/-- Nothing has been dropped. -/
def Undropped (l : VuLink) : Prop := l.copied ++ l.dev.inHand = l.put

/-- With a host that keeps up no access drops a byte. -/
theorem Undropped.step {cap : U32} {l l' : VuLink} {e : VuEvent} (h : Undropped l) (hinv : TxInv l)
    (hkeeps : KeepsUp l e) (hstep : vuStep cap l e = some l') : Undropped l' := by
  unfold Undropped at h ⊢
  cases e with
  | putc c =>
    simp only [vuStep] at hstep
    split at hstep
    · next hpc =>
      obtain rfl := Option.some.inj hstep
      rw [hpc] at h
      have hput : l.copied = l.put := (List.append_nil _).symm.trans h
      -- the tests pass
      have hring := hinv.ring
      have hready : l.v.TapReady := by
        refine ⟨hring.magic, by rw [hring.flags]; decide, BitVec.lt_def.mpr ?_⟩
        have hread := hring.read
        have hroom : l.put.length < l.v.txRd.toNat + 1024 := hkeeps
        rw [BitVec.toNat_sub_of_le (BitVec.le_def.mpr (hring.wr ▸ hread)), hring.wr, hput]
        show l.put.length - l.v.txRd.toNat < 1024
        omega
      dsimp only
      rw [if_pos hready, hput]
      rfl
    · cases hstep
  | dev t =>
    simp only [vuStep] at hstep
    unfold VuLink.devNext at hstep
    split at hstep
    · cases hstep
    · next hpc =>
      obtain rfl := Option.some.inj hstep
      rw [hpc] at h
      have hempty : (if l.v.RxReady then VuDevPc.load else .away).Empty :=
        empty_ite ⟨rfl, rfl⟩ ⟨rfl, rfl⟩
      dsimp only
      rw [hempty.2]
      exact h
    · next hpc =>
      obtain rfl := Option.some.inj hstep
      rw [hpc] at h
      exact h
    · next c hpc =>
      obtain rfl := Option.some.inj hstep
      rw [hpc] at h
      have hempty : (l.takes cap c t).dev.Empty := empty_ite ⟨rfl, rfl⟩ ⟨rfl, rfl⟩
      rw [hempty.2]
      exact h
    · next hpc =>
      obtain rfl := Option.some.inj hstep
      rw [hpc] at h
      exact h
    · next hpc =>
      obtain rfl := Option.some.inj hstep
      rw [hpc] at h
      exact (List.append_nil _).trans h
  | host =>
    simp only [vuStep] at hstep
    unfold VuLink.hostNext at hstep
    split at hstep
    · cases hstep
    · cases hstep
      exact h
    · cases hstep
      exact h
    · cases hstep
      exact h
    · split at hstep <;> cases hstep <;> exact h
    · cases hstep
      exact h
  | vsend f =>
    simp only [vuStep] at hstep
    split at hstep <;> cases hstep
    unfold VuLink.vsend
    dsimp only
    split <;> exact h
  | poll t =>
    simp only [vuStep] at hstep
    split at hstep
    · next hpc =>
      obtain rfl := Option.some.inj hstep
      rw [hpc] at h
      exact h
    · cases hstep
  | reuse dst | pump =>
    simp only [vuStep] at hstep
    split at hstep <;> cases hstep
    exact h

/-- So it holds in every state reached. -/
theorem txInv_reachable {cap : U32} {l : VuLink} (h : Reachable (vuSystem cap) l)
    (hlen : l.put.length < 2 ^ 32) : TxInv l := by
  induction h with
  | init hstart => exact .start hstart
  | step e _ hstep ih =>
    have hle := (vuStep_extends hstep).put.length_le
    exact (ih (by omega)).step hstep (by omega)

/-- The host in a `pump` that takes in `n` bytes at least, or behind one. -/
def Pumping (n : Nat) (l : VuLink) : Prop :=
  n ≤ l.tap.length ∨
    match l.host with
    | .pump tw | .dump tw .. | .ack tw => n ≤ tw
    | .idle | .fill .. => False

/-- A `pump` that takes in `n` bytes goes on until it has. -/
theorem Pumping.step {cap : U32} {n : Nat} {l l' : VuLink} {e : VuEvent} (h : Pumping n l)
    (hinv : TxInv l) (hstep : vuStep cap l e = some l') : Pumping n l' := by
  rcases h with h | h
  · exact .inl (h.trans (vuStep_extends hstep).tap.length_le)
  have hhost := hinv.host
  have hread := hinv.ring.read
  cases e with
  | host =>
    simp only [vuStep] at hstep
    unfold VuLink.hostNext at hstep
    split at hstep
    · cases hstep
    · next hpc =>
      rw [hpc] at h
      exact h.elim
    · next hpc =>
      rw [hpc] at h
      exact h.elim
    · next tw hpc =>
      obtain rfl := Option.some.inj hstep
      rw [hpc] at h hhost
      by_cases heq : tw = l.v.txRd.toNat
      · -- nothing to read
        left
        show n ≤ l.tap.length
        rw [hhost.tapped.length, ← heq]
        exact h
      · right
        dsimp only
        rw [if_neg heq]
        exact h
    · next hpc =>
      rw [hpc] at h
      split at hstep <;> cases hstep <;> exact .inr h
    · next tw hpc =>
      obtain rfl := Option.some.inj hstep
      rw [hpc] at h hhost
      left
      show n ≤ l.tap.length
      rw [hhost.1.length]
      exact h
  | vsend f | pump =>
    simp only [vuStep] at hstep
    split at hstep
    · next hpc =>
      rw [hpc] at h
      exact h.elim
    · cases hstep
  | dev t =>
    right
    simp only [vuStep] at hstep
    unfold VuLink.devNext at hstep
    split at hstep <;> cases hstep <;> exact h
  | poll t | reuse dst | putc c =>
    right
    simp only [vuStep] at hstep
    split at hstep <;> cases hstep
    exact h

/-- A `pump` that has run to its end took in all that was copied before it
    began. -/
theorem pump_takes {cap : U32} {l l' : VuLink} (h : Reachable (vuSystem cap) l)
    {es : List VuEvent} (hrun : StepsFrom (vuSystem cap) l (.pump :: es) l')
    (hlen : l'.put.length < 2 ^ 32) (hidle : l'.host = .idle) :
    blanked l'.wraps 0 l.copied <+: l'.tap := by
  have hall : ∀ s, StepsFrom (vuSystem cap) l (.pump :: es) s → s.put.length < 2 ^ 32 →
      TxInv s ∧ l.copied <+: s.copied ∧ Pumping l.copied.length s := by
    intro s hs hslen
    cases hs with
    | cons _ _ hpump hrest =>
      rename_i l₁
      refine hrest.invariant (I := fun s => s.put.length < 2 ^ 32 →
        TxInv s ∧ l.copied <+: s.copied ∧ Pumping l.copied.length s) ?_ ?_ hslen
      · intro s e s' ih hstep hlen'
        have hext := vuStep_extends hstep
        have hle := hext.put.length_le
        obtain ⟨hinv, hcopied, hpumping⟩ := ih (by omega)
        exact ⟨hinv.step hstep (by omega), hcopied.trans hext.copied, hpumping.step hinv hstep⟩
      · -- it begins with what is copied by then
        intro hlen₁
        have hext := vuStep_extends hpump
        have hle := hext.put.length_le
        have hinv := txInv_reachable h (by omega)
        refine ⟨hinv.step hpump (by omega), hext.copied, .inr ?_⟩
        have hstep : vuStep cap l .pump = some l₁ := hpump
        simp only [vuStep] at hstep
        split at hstep <;> cases hstep
        exact hinv.ring.wr.ge
  obtain ⟨hinv, hcopied, hpumping⟩ := hall l' hrun hlen
  rcases hpumping with hle | hpc
  · rw [hinv.tapped.bytes]
    exact blanked_begins _ _ (List.prefix_take_iff.mpr ⟨hcopied, hle⟩)
  · rw [hidle] at hpc
    exact hpc.elim

/-- Nor does a run. -/
theorem undropped_reachable {cap : U32} {l : VuLink}
    (h : Reachable ((vuSystem cap).restrict KeepsUp) l) (hlen : l.put.length < 2 ^ 32) :
    Undropped l := by
  induction h with
  | init hstart =>
    obtain ⟨-, hdev, -, -, -, -, -, -, -, hput, hcopied, -⟩ := hstart
    unfold Undropped
    rw [hdev, hput, hcopied]
    rfl
  | step e hreach hs ih =>
    obtain ⟨hkeeps, hstep⟩ := hs
    have hle := (vuStep_extends hstep).put.length_le
    exact (ih (by omega)).step (txInv_reachable hreach.of_restrict (by omega)) hkeeps hstep

end Interclus

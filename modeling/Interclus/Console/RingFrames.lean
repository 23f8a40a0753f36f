import Interclus.Console.Vuart
import Interclus.Protocol.Wire

/-! # Frames Through the Ring

    What `vsend` publishes, the board hears: whole frames, each once and in
    order, however its reads fall between the host's writes.  The invariant
    says which part of the published bytes the ring holds, that the
    receiver has been fed the part before, and that the bytes published so
    far leave a receiver hunting, so that no call of `uart_poll_frame` finds
    a partial frame to drop. -/

namespace Interclus

open Words Mealy LTS

/-! ## Words of the ring -/

theorem and_1023 (n : Nat) : n &&& 1023 = n % 1024 := Nat.and_two_pow_sub_one_eq_mod n 10

theorem toNat_and_1023 (x : U32) : (x &&& 1023).toNat = x.toNat % 1024 := by
  rw [BitVec.toNat_and]
  exact and_1023 x.toNat

/-- Bytes as words at consecutive offsets of the ring. -/
def ringWords (pos : Nat) (bs : List U8) : List (Nat × U32) :=
  (List.range (bs.length / 4)).map fun k => ((pos + 4 * k) % 1024, le32 (listMem bs) (4 * k))

theorem ringWords_append (pos : Nat) {bs : List U8} (hbs : 4 ∣ bs.length) (cs : List U8) :
    ringWords pos (bs ++ cs) = ringWords pos bs ++ ringWords (pos + bs.length) cs := by
  obtain ⟨n, hn⟩ := hbs
  unfold ringWords
  rw [List.length_append, hn, show (4 * n + cs.length) / 4 = n + cs.length / 4 by omega,
    List.range_add, List.map_append, Nat.mul_div_cancel_left n (by decide), List.map_map]
  congr 1
  · refine List.map_congr_left fun k hk => ?_
    have hlt := List.mem_range.mp hk
    refine Prod.ext rfl (le32_congr fun j hj => ?_)
    exact listMem_append_left (by omega)
  · refine List.map_congr_left fun k _ => Prod.ext ?_ (le32_congr fun j hj => ?_)
    · show (pos + 4 * (n + k)) % 1024 = (pos + 4 * n + 4 * k) % 1024
      congr 1
      omega
    · show listMem (bs ++ cs) (4 * (n + k) + j) = listMem cs (4 * k + j)
      rw [show 4 * (n + k) + j = bs.length + (4 * k + j) by omega]
      exact listMem_append_right _

/-- The first word. -/
theorem ringWords_cons (pos : Nat) {bs : List U8} (hne : bs ≠ []) (hbs : 4 ∣ bs.length) :
    ringWords pos bs =
      (pos % 1024, le32 (listMem (bs.take 4)) 0) :: ringWords (pos + 4) (bs.drop 4) := by
  have hlen : 0 < bs.length := List.length_pos_iff.mpr hne
  have htake : (bs.take 4).length = 4 := by
    rw [List.length_take]
    omega
  have hdvd : 4 ∣ (bs.take 4).length := ⟨1, htake⟩
  have hsplit := ringWords_append pos hdvd (bs.drop 4)
  rw [List.take_append_drop, htake] at hsplit
  rw [hsplit]
  unfold ringWords
  rw [htake]
  rfl

theorem packLe_le32 (m : Mem) (i : Nat) : packLe 4 (le32 m i) = bytesAt m i 4 :=
  List.map_congr_left fun _ hk => byteOf_le32 m i (List.mem_range.mp hk)

theorem packLe_take {bs : List U8} (hlen : 4 ≤ bs.length) :
    packLe 4 (le32 (listMem (bs.take 4)) 0) = bs.take 4 := by
  rw [packLe_le32]
  obtain ⟨a, b, c, d, rest, rfl⟩ : ∃ a b c d rest, bs = a :: b :: c :: d :: rest := by
    match bs, hlen with
    | a :: b :: c :: d :: rest, _ => exact ⟨a, b, c, d, rest, rfl⟩
  rfl

/-- A word written behind the stream. -/
theorem holds_putWord {m : Mem} {stream : List U8} {rd : Nat}
    (h : Ring.Holds 1024 m stream rd) (hwords : 4 ∣ stream.length)
    (hroom : stream.length + 4 ≤ rd + 1024) (w : U32) :
    Ring.Holds 1024 (putLe32 m (stream.length % 1024) w) (stream ++ packLe 4 w) rd := by
  have hlen := length_packLe 4 w
  refine h.extend (by omega) (fun j a hj => ?_) (fun i hi hlt => ?_)
  · have hj4 : j < 4 := hlen ▸ (List.getElem?_eq_some_iff.mp hj).1
    have hidx : (stream.length + j) % 1024 = stream.length % 1024 + j := by omega
    unfold packLe at hj
    rw [List.getElem?_map, List.getElem?_range hj4] at hj
    obtain rfl : byteOf w j = a := Option.some.inj hj
    unfold putLe32
    rw [hidx, if_pos (by omega), Nat.add_sub_cancel_left]
  · refine putLe32_of_not_mem w ?_
    -- a slot of the word is less than a revolution ahead
    rintro ⟨hge, hlt4⟩
    have hne := Ring.mod_ne (n := 1024) (i := i)
      (j := stream.length + (i % 1024 - stream.length % 1024)) (by omega) (by omega)
    omega

/-! ## What `vsend` writes -/

theorem padded_words (data : List U8) : 4 ∣ (padded data).length := by
  unfold padded
  rw [List.length_append, List.length_replicate]
  omega

theorem vsendGap_words {wr : Nat} (hwr : 4 ∣ wr) (data : List U8) : 4 ∣ vsendGap wr data := by
  unfold vsendGap
  rw [and_1023]
  split <;> omega

/-- The bytes of a `vsend`: the gap zeroed, and the data. -/
def vsendBytes (wr : Nat) (data : List U8) : List U8 :=
  List.replicate (vsendGap wr data) 0 ++ data

theorem length_vsendBytes (wr : Nat) (data : List U8) :
    (vsendBytes wr data).length = vsendGap wr data + data.length := by
  rw [vsendBytes, List.length_append, List.length_replicate]

/-- Its words lie one behind the other in the ring. -/
theorem vsendWrites_eq {wr : Nat} (hwr : 4 ∣ wr) {data : List U8} (hdata : 4 ∣ data.length) :
    vsendWrites wr data = ringWords wr (vsendBytes wr data) := by
  obtain ⟨g, hg⟩ := vsendGap_words hwr data
  obtain ⟨n, hn⟩ := hdata
  unfold vsendBytes
  rw [ringWords_append wr (by rw [List.length_replicate, hg]; exact ⟨g, rfl⟩), List.length_replicate]
  unfold vsendWrites ringWords
  dsimp only
  rw [List.length_replicate, hg, hn, show (4 * g + 3) / 4 = g by omega,
    show (4 * n + 3) / 4 = n by omega, Nat.mul_div_cancel_left g (by decide),
    Nat.mul_div_cancel_left n (by decide)]
  simp only [and_1023]
  congr 1
  refine List.map_congr_left fun k hk => Prod.ext rfl ?_
  have hlt := List.mem_range.mp hk
  -- a word of zeros
  have hzero : ∀ i, listMem (List.replicate (4 * g) (0 : U8)) i = 0 := fun i => by
    unfold listMem
    rw [List.getD_eq_getElem?_getD, List.getElem?_replicate]
    split <;> rfl
  exact (le32_of_bytes (v := 0) fun j _ => (hzero _).trans (by simp [byteOf])).symm

/-! ## Feeding what was sent -/

/-- Zeros leave a hunting receiver as it is. -/
theorem feed_zeros (cap : U32) (n : Nat) {s : FrameRx} (hst : s.st.phase = 0) :
    (final (FrameRx.feed cap) s (List.replicate n 0)).st.phase = 0 ∧
      fedFrames cap s (List.replicate n 0) = [] := by
  induction n with
  | zero => exact ⟨hst, rfl⟩
  | succ n ih =>
    have hstep : FrameRx.feed cap s 0 = (s, ⟨0, s.st, s.dst⟩) := by
      obtain ⟨⟨ph, type, len, idx, sum⟩, dst⟩ := s
      obtain rfl : ph = 0 := hst
      rfl
    rw [List.replicate_succ]
    unfold fedFrames at ih ⊢
    rw [final_cons, outputs_cons, hstep]
    exact ih

/-- The frames of a trace of deliveries. -/
theorem fedFrames_trace (cap : U32) (s : FrameRx) (bytes : List U8) {n : Nat}
    {last : Option (U32 × List U8)}
    (h : (outputs (FrameRx.feed cap) s bytes).map FrameStep.delivered =
      List.replicate n none ++ [last]) : fedFrames cap s bytes = last.toList := by
  have hframes : fedFrames cap s bytes =
      ((outputs (FrameRx.feed cap) s bytes).map FrameStep.delivered).filterMap id := by
    rw [List.filterMap_map]
    rfl
  rw [hframes, h, List.filterMap_append, List.filterMap_replicate_of_none rfl]
  cases last <;> rfl

/-- A sent frame between zeros is heard as what it is. -/
theorem feed_sent {cap : U32} (hcap : cap.toNat ≤ 65535) (f : SentFrame)
    (hlen : f.payload.length ≤ cap.toNat) (wr : Nat) {s : FrameRx} (hst : s.st.phase = 0) :
    (final (FrameRx.feed cap) s (vsendBytes wr (padded f.bytes))).st.phase = 0 ∧
      fedFrames cap s (vsendBytes wr (padded f.bytes)) = f.heardAs.toList := by
  unfold vsendBytes
  obtain ⟨hgap, hgap'⟩ := feed_zeros cap (vsendGap wr (padded f.bytes)) hst
  rw [final_append, fedFrames_append, hgap', List.nil_append]
  obtain ⟨s', hs'⟩ : ∃ s', final (FrameRx.feed cap) s
      (List.replicate (vsendGap wr (padded f.bytes)) 0) = s' := ⟨_, rfl⟩
  rw [hs'] at hgap ⊢
  -- the frame, and the zeros behind it
  obtain ⟨hphase, htrace⟩ := feed_closedBy hgap s'.dst f.type f.payload f.check (by omega) hlen
  obtain ⟨hpad, hpad'⟩ := feed_zeros cap ((4 - f.bytes.length % 4) % 4) hphase
  unfold padded
  rw [final_append, fedFrames_append]
  refine ⟨hpad, ?_⟩
  have hframe := fedFrames_trace cap ⟨s'.st, s'.dst⟩ f.bytes htrace
  exact (congrArg₂ (· ++ ·) hframe hpad').trans (List.append_nil _)

/-! ## Receivers that no byte tells apart -/

theorem Alike.phase {s s' : FrameRx} (h : Alike s s') : s.st.phase = s'.st.phase := by
  cases h <;> rfl

/-- Between frames the buffer may be used for something else. -/
theorem Alike.reuse {s s' : FrameRx} (h : Alike s s') (hst : s.st.phase = 0) (dst : Mem) :
    Alike ⟨s.st, dst⟩ s' := by
  have hst' := h.phase ▸ hst
  obtain ⟨⟨ph, type, len, idx, sum⟩, dst₁⟩ := s
  obtain ⟨⟨ph', type', len', idx', sum'⟩, dst'⟩ := s'
  obtain rfl : ph = 0 := hst
  obtain rfl : ph' = 0 := hst'
  exact .start 0 _ _ _ _ _ _ _ _ _ _ (.inl rfl)

/-! ## The invariant -/

/-- A receiver that has been fed these bytes. -/
def fedRx (cap : U32) (bytes : List U8) : FrameRx :=
  final (FrameRx.feed cap) ⟨.reset, fun _ => 0⟩ bytes

/-- The frames it heard. -/
def fedHeard (cap : U32) (bytes : List U8) : List (U32 × List U8) :=
  fedFrames cap ⟨.reset, fun _ => 0⟩ bytes

/-- The rx words, and what the rx ring holds. -/
structure RxRing (v : Vuart) (published staged : List U8) : Prop where
  magic : v.magic = VU_MAGIC
  wr : v.rxWr.toNat = published.length
  words : 4 ∣ published.length
  read : v.rxRd.toNat ≤ published.length
  ring : Ring.Holds 1024 v.rx (published ++ staged) v.rxRd.toNat

/-- What the receiver has been fed and heard when it has taken `rd` bytes,
    and what the published bytes amount to. -/
structure RxFed (cap : U32) (rx : FrameRx) (rd : Nat) (sent : List SentFrame)
    (published : List U8) (heard : List (U32 × List U8)) : Prop where
  settled : (fedRx cap published).st.phase = 0
  frames : fedHeard cap published = sent.filterMap SentFrame.heardAs
  rx : Alike rx (fedRx cap (published.take rd))
  heard : heard = fedHeard cap (published.take rd)

/-- What the board knows where it is: outside the polling loop, that no
    frame is partial. -/
def DevHolds (l : VuLink) : Prop :=
  match l.dev with
  | .away | .fill _ | .publish _ => l.s.rx.st.phase = 0
  | .look => True
  | .load => l.v.rxRd.toNat < l.published.length
  | .bump c => l.published[l.v.rxRd.toNat]? = some c

/-- What is left of a `vsend`: the words of its bytes that are not written,
    for which there is room. -/
structure FillHolds (cap : U32) (published staged : List U8) (rd : Nat) (f : SentFrame)
    (todo : List (Nat × U32)) (wr : Nat) (rest : List U8) : Prop where
  bytes : staged ++ rest = vsendBytes published.length (padded f.bytes)
  todo : todo = ringWords (published.length + staged.length) rest
  words : 4 ∣ staged.length
  behind : wr = published.length + staged.length + rest.length
  room : wr ≤ rd + 1024
  fits : f.payload.length ≤ cap.toNat

def HostHolds (cap : U32) (l : VuLink) : Prop :=
  match l.host with
  | .fill f todo wr => ∃ rest, FillHolds cap l.published l.staged l.v.rxRd.toNat f todo wr rest
  | _ => l.staged = []

structure RxInv (cap : U32) (l : VuLink) : Prop where
  ring : RxRing l.v l.published l.staged
  fed : RxFed cap l.s.rx l.v.rxRd.toNat l.sent l.published l.heard
  dev : DevHolds l
  host : HostHolds cap l

/-- A `vsend` that finds room for its gap too, and a payload that fits the
    board's buffer. -/
def Roomy (cap : U32) (l : VuLink) : VuEvent → Prop
  | .vsend f =>
    f.payload.length ≤ cap.toNat ∧
      l.v.rxWr.toNat + (vsendGap l.v.rxWr.toNat (padded f.bytes) + (padded f.bytes).length) ≤
        l.v.rxRd.toNat + 1024
  | _ => True

theorem RxInv.start {cap : U32} {l : VuLink} (h : l.Start) : RxInv cap l := by
  obtain ⟨⟨v, hv⟩, hdev, hphase, hhost, -, hsent, hpub, hstaged, hheard, -, -, -⟩ := h
  obtain ⟨v', dev, ⟨⟨st, dst⟩, tick⟩, host, tap, sent, pub, staged, heard, put, copied, wraps⟩ := l
  dsimp only at hv hdev hphase hhost hsent hpub hstaged hheard
  subst hv hdev hhost hsent hpub hstaged hheard
  obtain ⟨ph, type, len, idx, sum⟩ := st
  obtain rfl : ph = 0 := hphase
  exact ⟨⟨rfl, rfl, Nat.dvd_zero 4, Nat.le_refl _, .empty⟩,
    ⟨rfl, rfl, .start 0 _ _ _ _ _ _ _ _ _ _ (.inl rfl), rfl⟩, rfl, rfl⟩

/-! ## The board's steps -/

theorem fedRx_concat (cap : U32) (bytes : List U8) (c : U8) :
    fedRx cap (bytes ++ [c]) = (FrameRx.feed cap (fedRx cap bytes) c).1 := by
  unfold fedRx
  rw [final_append]
  rfl

theorem fedHeard_concat (cap : U32) (bytes : List U8) (c : U8) :
    fedHeard cap (bytes ++ [c]) =
      fedHeard cap bytes ++ (FrameRx.feed cap (fedRx cap bytes) c).2.delivered.toList := by
  unfold fedHeard fedRx
  rw [fedFrames_append]
  rfl

/-- A byte taken. -/
theorem RxInv.takes {cap : U32} {l : VuLink} (h : RxInv cap l) {c : U8} (t : U32)
    (hc : l.published[l.v.rxRd.toNat]? = some c) : RxInv cap (l.takes cap c t) := by
  have hlt : l.v.rxRd.toNat < l.published.length := (List.getElem?_eq_some_iff.mp hc).1
  have hwr := h.ring.wr
  have hnext : (l.v.rxRd + 1).toNat = l.v.rxRd.toNat + 1 := by
    have := l.v.rxWr.isLt
    rw [BitVec.toNat_add]
    exact Nat.mod_eq_of_lt (by simpa using by omega)
  have htake : l.published.take (l.v.rxRd.toNat + 1) =
      l.published.take l.v.rxRd.toNat ++ [c] := by
    rw [List.take_add_one, hc]
    rfl
  obtain ⟨hrx, hdel⟩ := h.fed.rx.step c
  refine ⟨⟨h.ring.magic, hwr, h.ring.words, ?_, ?_⟩, ⟨h.fed.settled, h.fed.frames, ?_, ?_⟩, ?_, ?_⟩
  · exact hnext.trans_le hlt
  · refine hnext ▸ h.ring.ring.take (Nat.le_succ _) ?_
    rw [List.length_append]
    omega
  · show Alike _ (fedRx cap (l.published.take (l.v.rxRd + 1).toNat))
    rw [hnext, htake, fedRx_concat]
    exact hrx
  · show l.heard ++ _ = fedHeard cap (l.published.take (l.v.rxRd + 1).toNat)
    rw [hnext, htake, fedHeard_concat, ← hdel, ← h.fed.heard]
    rfl
  · -- a call that returns a frame leaves none behind
    unfold DevHolds VuLink.takes
    dsimp only
    by_cases hret : (uartFrameStep c l.s.rx.dst cap l.s.rx.st).ret ≠ 0
    · rw [if_pos hret]
      exact congrArg (fun r => r.st.phase) (uartFrameStep_delivers hret)
    · rw [if_neg hret]
      trivial
  · have hhost := h.host
    unfold HostHolds at hhost ⊢
    show match l.host with
      | .fill f todo wr =>
        ∃ rest, FillHolds cap l.published l.staged (l.v.rxRd + 1).toNat f todo wr rest
      | _ => l.staged = []
    split at hhost
    · obtain ⟨rest, hrest⟩ := hhost
      refine ⟨rest, hrest.bytes, hrest.todo, hrest.words, hrest.behind, ?_, hrest.fits⟩
      have := hrest.room
      omega
    · exact hhost

/-- The board's next access. -/
theorem RxInv.devNext {cap : U32} {l l' : VuLink} (h : RxInv cap l) {t : U32}
    (hstep : l.devNext cap t = some l') : RxInv cap l' := by
  have hdev := h.dev
  unfold VuLink.devNext at hstep
  unfold DevHolds at hdev
  split at hstep
  · cases hstep
  · -- looked: a byte is there, or everything published has been taken
    obtain rfl := Option.some.inj hstep
    refine ⟨h.ring, h.fed, ?_, h.host⟩
    by_cases hready : l.v.RxReady
    · have hlt : l.v.rxRd.toNat < l.published.length := h.ring.wr ▸ hready.2
      unfold DevHolds
      dsimp only
      rwa [if_pos hready]
    · have hle := BitVec.le_def.mp (BitVec.not_lt.mp fun hlt => hready ⟨h.ring.magic, hlt⟩)
      have hphase := h.fed.rx.phase
      rw [List.take_of_length_le (h.ring.wr ▸ hle), h.fed.settled] at hphase
      unfold DevHolds
      dsimp only
      rwa [if_neg hready]
  · next hpc =>
    obtain rfl := Option.some.inj hstep
    rw [hpc] at hdev
    refine ⟨h.ring, h.fed, ?_, h.host⟩
    have hfront := h.ring.ring.front (by rw [List.length_append]; omega)
    rw [List.getElem?_append_left hdev, ← toNat_and_1023] at hfront
    exact hfront
  · next c hpc =>
    obtain rfl := Option.some.inj hstep
    rw [hpc] at hdev
    exact h.takes t hdev
  · next c hpc =>
    obtain rfl := Option.some.inj hstep
    rw [hpc] at hdev
    exact ⟨⟨h.ring.magic, h.ring.wr, h.ring.words, h.ring.read, h.ring.ring⟩, h.fed, hdev, h.host⟩
  · next c hpc =>
    obtain rfl := Option.some.inj hstep
    rw [hpc] at hdev
    exact ⟨⟨h.ring.magic, h.ring.wr, h.ring.words, h.ring.read, h.ring.ring⟩, h.fed, hdev, h.host⟩

/-! ## The host's steps -/

/-- `vsend` starts to write. -/
theorem RxInv.vsend {cap : U32} {l : VuLink} (h : RxInv cap l) (hpc : l.host = .idle)
    {f : SentFrame} (hroomy : Roomy cap l (.vsend f)) : RxInv cap (l.vsend f) := by
  unfold VuLink.vsend
  dsimp only
  split
  · exact h
  · have hstaged := h.host
    unfold HostHolds at hstaged
    rw [hpc] at hstaged
    obtain ⟨hfits, hroom⟩ := hroomy
    have hwr := h.ring.wr
    rw [hwr] at hroom ⊢
    refine ⟨h.ring, h.fed, h.dev, vsendBytes l.published.length (padded f.bytes), ?_⟩
    show FillHolds cap l.published l.staged _ _ _ _ _
    rw [hstaged]
    have hlen := length_vsendBytes l.published.length (padded f.bytes)
    refine ⟨rfl, vsendWrites_eq h.ring.words (padded_words _), Nat.dvd_zero 4, ?_, ?_, hfits⟩
    · rw [hlen, List.length_nil]
      omega
    · show _ ≤ l.v.rxRd.toNat + 1024
      omega

/-- A word written. -/
theorem RxInv.write {cap : U32} {l : VuLink} (h : RxInv cap l) {f : SentFrame} {off : Nat}
    {w : U32} {todo : List (Nat × U32)} {wr : Nat} (hpc : l.host = .fill f ((off, w) :: todo) wr) :
    RxInv cap { l with
      v := { l.v with rx := putLe32 l.v.rx off w }
      host := .fill f todo wr
      staged := l.staged ++ packLe 4 w } := by
  have hhost := h.host
  unfold HostHolds at hhost
  rw [hpc] at hhost
  obtain ⟨rest, hrest⟩ := hhost
  have hpub := h.ring.words
  have hstaged := hrest.words
  have hroom := hrest.room
  have hbehind := hrest.behind
  have htotal := congrArg List.length hrest.bytes
  have hgap := vsendGap_words hpub (padded f.bytes)
  have hdata := padded_words f.bytes
  rw [List.length_append, length_vsendBytes] at htotal
  -- the next word of the bytes that are left
  have hne : rest ≠ [] := by
    intro hnil
    have htodo := hrest.todo
    rw [hnil] at htodo
    cases htodo
  have hpos : 0 < rest.length := List.length_pos_iff.mpr hne
  have hwords : 4 ∣ rest.length := by omega
  have htodo := hrest.todo
  rw [ringWords_cons _ hne hwords] at htodo
  obtain ⟨⟨hoff, hw⟩, htodo⟩ := by
    simpa only [List.cons.injEq, Prod.mk.injEq] using htodo
  have hbytes : packLe 4 w = rest.take 4 := hw ▸ packLe_take (by omega)
  have hlen4 : (rest.take 4).length = 4 := hbytes ▸ length_packLe 4 w
  refine ⟨⟨h.ring.magic, h.ring.wr, hpub, h.ring.read, ?_⟩, h.fed, h.dev, rest.drop 4, ?_⟩
  · have hput := holds_putWord h.ring.ring (w := w)
      (by rw [List.length_append]; omega) (by rw [List.length_append]; omega)
    rw [List.length_append, ← hoff, List.append_assoc] at hput
    exact hput
  · rw [hbytes]
    refine ⟨?_, ?_, ?_, ?_, hroom, hrest.fits⟩
    · show l.staged ++ rest.take 4 ++ rest.drop 4 = _
      rw [List.append_assoc, List.take_append_drop]
      exact hrest.bytes
    · show todo = ringWords (l.published.length + (l.staged ++ rest.take 4).length) (rest.drop 4)
      rw [List.length_append, hlen4, ← Nat.add_assoc]
      exact htodo
    · show 4 ∣ (l.staged ++ rest.take 4).length
      rw [List.length_append, hlen4]
      omega
    · show wr = l.published.length + (l.staged ++ rest.take 4).length + (rest.drop 4).length
      rw [List.length_append, hlen4, List.length_drop]
      omega

/-- The frame published. -/
theorem RxInv.publish {cap : U32} (hcap : cap.toNat ≤ 65535) {l : VuLink} (h : RxInv cap l)
    {f : SentFrame} {wr : Nat} (hpc : l.host = .fill f [] wr)
    (hlen : (l.published ++ l.staged).length < 2 ^ 32) :
    RxInv cap { l with
      v := { l.v with rxWr := BitVec.ofNat 32 wr }
      host := .idle
      sent := l.sent ++ [f]
      published := l.published ++ l.staged
      staged := [] } := by
  have hhost := h.host
  unfold HostHolds at hhost
  rw [hpc] at hhost
  obtain ⟨rest, hrest⟩ := hhost
  obtain rfl : rest = [] := by
    by_contra hne
    have htotal := congrArg List.length hrest.bytes
    have hgap := vsendGap_words h.ring.words (padded f.bytes)
    have hdata := padded_words f.bytes
    have hstaged := hrest.words
    rw [List.length_append, length_vsendBytes] at htotal
    have htodo := hrest.todo
    rw [ringWords_cons _ hne (by omega)] at htodo
    cases htodo
  have hbytes := hrest.bytes
  have hbehind := hrest.behind
  have hread := h.ring.read
  rw [List.append_nil] at hbytes
  rw [List.length_nil] at hbehind
  obtain ⟨hphase, hheard⟩ := feed_sent hcap f hrest.fits l.published.length h.fed.settled
  rw [← hbytes] at hphase hheard
  have htake : (l.published ++ l.staged).take l.v.rxRd.toNat = l.published.take l.v.rxRd.toNat :=
    List.take_append_of_le_length hread
  refine ⟨⟨h.ring.magic, ?_, ?_, ?_, ?_⟩, ⟨?_, ?_, ?_, ?_⟩, ?_, rfl⟩
  · show (BitVec.ofNat 32 wr).toNat = (l.published ++ l.staged).length
    rw [List.length_append] at hlen ⊢
    rw [BitVec.toNat_ofNat, Nat.mod_eq_of_lt (by omega), hbehind, Nat.add_zero]
  · show 4 ∣ (l.published ++ l.staged).length
    rw [List.length_append]
    exact Nat.dvd_add h.ring.words hrest.words
  · show l.v.rxRd.toNat ≤ (l.published ++ l.staged).length
    rw [List.length_append]
    omega
  · show Ring.Holds 1024 l.v.rx (l.published ++ l.staged ++ []) l.v.rxRd.toNat
    rw [List.append_nil]
    exact h.ring.ring
  · show (fedRx cap (l.published ++ l.staged)).st.phase = 0
    unfold fedRx
    rw [final_append]
    exact hphase
  · show fedHeard cap (l.published ++ l.staged) = (l.sent ++ [f]).filterMap SentFrame.heardAs
    unfold fedHeard
    rw [fedFrames_append, List.filterMap_append]
    refine congrArg₂ (· ++ ·) h.fed.frames (hheard.trans ?_)
    cases hf : f.heardAs with
    | none => rw [List.filterMap_cons_none hf]; rfl
    | some x => rw [List.filterMap_cons_some hf]; rfl
  · show Alike l.s.rx (fedRx cap ((l.published ++ l.staged).take l.v.rxRd.toNat))
    rw [htake]
    exact h.fed.rx
  · show l.heard = fedHeard cap ((l.published ++ l.staged).take l.v.rxRd.toNat)
    rw [htake]
    exact h.fed.heard
  · -- what the board is about to take is still there
    have hdev := h.dev
    unfold DevHolds at hdev ⊢
    dsimp only
    split at hdev
    · exact hdev
    · exact hdev
    · exact hdev
    · trivial
    · rw [List.length_append]
      omega
    · rw [List.getElem?_append_left (List.getElem?_eq_some_iff.mp hdev).1]
      exact hdev

/-- The host's next access. -/
theorem RxInv.hostNext {cap : U32} (hcap : cap.toNat ≤ 65535) {l l' : VuLink} (h : RxInv cap l)
    (hstep : l.hostNext = some l') (hlen : l'.published.length < 2 ^ 32) : RxInv cap l' := by
  have hhost := h.host
  unfold HostHolds at hhost
  unfold VuLink.hostNext at hstep
  split at hstep
  · cases hstep
  · next hpc =>
    obtain rfl := Option.some.inj hstep
    exact h.write hpc
  · next hpc =>
    obtain rfl := Option.some.inj hstep
    exact h.publish hcap hpc hlen
  · next hpc =>
    obtain rfl := Option.some.inj hstep
    rw [hpc] at hhost
    refine ⟨h.ring, h.fed, h.dev, ?_⟩
    unfold HostHolds
    dsimp only
    split
    · next hfill => split at hfill <;> cases hfill
    · exact hhost
  · next hpc =>
    rw [hpc] at hhost
    split at hstep
    · obtain rfl := Option.some.inj hstep
      exact ⟨h.ring, h.fed, h.dev, hhost⟩
    · obtain rfl := Option.some.inj hstep
      exact ⟨h.ring, h.fed, h.dev, hhost⟩
  · next hpc =>
    obtain rfl := Option.some.inj hstep
    rw [hpc] at hhost
    exact ⟨⟨h.ring.magic, h.ring.wr, h.ring.words, h.ring.read, h.ring.ring⟩, h.fed, h.dev, hhost⟩

/-! ## Runs -/

/-- No access of either end loses, tears or repeats a byte of the ring. -/
theorem RxInv.step {cap : U32} (hcap : cap.toNat ≤ 65535) {l l' : VuLink} {e : VuEvent}
    (h : RxInv cap l) (hroomy : Roomy cap l e) (hstep : vuStep cap l e = some l')
    (hlen : l'.published.length < 2 ^ 32) : RxInv cap l' := by
  have hdev := h.dev
  have hhost := h.host
  unfold DevHolds at hdev
  unfold HostHolds at hhost
  cases e with
  | poll t =>
    simp only [vuStep] at hstep
    split at hstep
    · next hpc =>
      -- no frame is partial, so none is dropped
      rw [hpc] at hdev
      rw [if_neg fun hlate => hlate.1 hdev] at hstep
      obtain rfl := Option.some.inj hstep
      exact ⟨h.ring, h.fed, trivial, h.host⟩
    · cases hstep
  | reuse dst =>
    simp only [vuStep] at hstep
    split at hstep
    · next hpc =>
      obtain rfl := Option.some.inj hstep
      rw [hpc] at hdev
      refine ⟨h.ring, ⟨h.fed.settled, h.fed.frames, h.fed.rx.reuse hdev dst, h.fed.heard⟩, ?_, h.host⟩
      unfold DevHolds
      dsimp only
      rw [hpc]
      exact hdev
    · cases hstep
  | putc c =>
    simp only [vuStep] at hstep
    split at hstep
    · next hpc =>
      obtain rfl := Option.some.inj hstep
      rw [hpc] at hdev
      refine ⟨h.ring, h.fed, ?_, h.host⟩
      unfold DevHolds
      dsimp only
      by_cases hready : l.v.TapReady
      · rwa [if_pos hready]
      · rwa [if_neg hready]
    · cases hstep
  | dev t => exact h.devNext hstep
  | vsend f =>
    simp only [vuStep] at hstep
    split at hstep
    · next hpc =>
      obtain rfl := Option.some.inj hstep
      exact h.vsend hpc hroomy
    · cases hstep
  | pump =>
    simp only [vuStep] at hstep
    split at hstep
    · next hpc =>
      obtain rfl := Option.some.inj hstep
      rw [hpc] at hhost
      exact ⟨h.ring, h.fed, h.dev, hhost⟩
    · cases hstep
  | host => exact h.hostNext hcap hstep hlen

/-- So nothing is lost in any run, as long as the counters do not wrap. -/
theorem rxInv_reachable {cap : U32} (hcap : cap.toNat ≤ 65535) {l : VuLink}
    (h : Reachable ((vuSystem cap).restrict (Roomy cap)) l) (hlen : l.published.length < 2 ^ 32) :
    RxInv cap l := by
  induction h with
  | init hstart => exact .start hstart
  | step e _ hs ih =>
    obtain ⟨hroomy, hstep⟩ := hs
    have hle := (vuStep_extends hstep).published.length_le
    exact (ih (Nat.lt_of_le_of_lt hle hlen)).step hcap hroomy hstep hlen

/-- What has been taken is heard, and is the beginning of what was sent. -/
theorem RxInv.heard_begins {cap : U32} {l : VuLink} (h : RxInv cap l) :
    l.heard <+: l.sent.filterMap SentFrame.heardAs := by
  rw [h.fed.heard, ← h.fed.frames]
  obtain ⟨rest, hrest⟩ := List.take_prefix l.v.rxRd.toNat l.published
  refine ⟨fedFrames cap (fedRx cap (l.published.take l.v.rxRd.toNat)) rest, ?_⟩
  unfold fedHeard fedRx
  rw [← fedFrames_append, hrest]

/-- **No frame is lost, torn or heard twice.** However the board's reads and
    writes fall between the host's, as long as every `vsend` finds room for
    its gap too, every payload fits the board's buffer, nothing arrives at
    the USART and fewer than 2^32 bytes are published: the frames the board
    hears are the first of those published whose payload is not empty and
    whose checksum closes, in order and once each, and all of them once the
    ring is empty; and no call of `uart_poll_frame` finds a partial frame. -/
theorem vuart_framesArrive {cap : U32} (hcap : cap.toNat ≤ 65535) {l : VuLink}
    (h : Reachable ((vuSystem cap).restrict (Roomy cap)) l) (hlen : l.published.length < 2 ^ 32) :
    l.heard <+: l.sent.filterMap SentFrame.heardAs ∧
      (l.v.rxRd = l.v.rxWr → l.heard = l.sent.filterMap SentFrame.heardAs) ∧
      (l.dev = .away → l.s.rx.st.phase = 0) := by
  have hinv := rxInv_reachable hcap h hlen
  refine ⟨hinv.heard_begins, fun hempty => ?_, fun haway => ?_⟩
  · rw [hinv.fed.heard, hempty, hinv.ring.wr, List.take_length]
    exact hinv.fed.frames
  · have hdev := hinv.dev
    unfold DevHolds at hdev
    rwa [haway] at hdev

instance (cap : U32) (l : VuLink) (e : VuEvent) : Decidable (Roomy cap l e) :=
  match e with
  | .vsend _ => inferInstanceAs (Decidable (_ ∧ _))
  | .poll _ | .reuse _ | .putc _ | .dev _ | .pump | .host => inferInstanceAs (Decidable True)

/-- Both ends before anything is sent. -/
def vuQuiet : VuLink where
  v := vuArm ⟨0, 0, 0, 0, 0, 0, fun _ => 0, fun _ => 0⟩
  dev := .away
  s := ⟨⟨.reset, fun _ => 0⟩, 0⟩
  host := .idle
  tap := []
  sent := []
  published := []
  staged := []
  heard := []
  put := []
  copied := []
  wraps := []

theorem vuQuiet_start : vuQuiet.Start :=
  ⟨⟨_, rfl⟩, rfl, rfl, rfl, rfl, rfl, rfl, rfl, rfl, rfl, rfl, rfl⟩

def rearmFrame : SentFrame := ⟨0xE, [1, 0, 0, 0], frameChecksum 0xE [1, 0, 0, 0]⟩

/-- A frame on its way: half of it written when the board first looks. -/
def rearmRun : List VuEvent :=
  [.vsend rearmFrame, .host, .poll 0, .dev 0, .host, .host, .host, .poll 7] ++
    List.replicate 30 (.dev 7) ++ [.poll 9] ++ List.replicate 7 (.dev 9)

theorem vuart_framesArrive_rearm :
    ∃ l, LTS.run (guarded (vuStep 8) (Roomy 8)) vuQuiet rearmRun = some l ∧ l.v.rxRd = l.v.rxWr ∧
      l.heard = l.sent.filterMap SentFrame.heardAs ∧ l.heard = [(0xE, [1, 0, 0, 0])] := by
  have hrun : (LTS.run (guarded (vuStep 8) (Roomy 8)) vuQuiet rearmRun).map (fun l =>
      decide (l.v.rxRd = l.v.rxWr ∧ l.published.length < 2 ^ 32 ∧ l.heard = [(0xE, [1, 0, 0, 0])])) =
        some true := by decide +kernel
  obtain ⟨l, hl, hfacts⟩ := Option.map_eq_some_iff.mp hrun
  obtain ⟨hempty, hlen, hheard⟩ := of_decide_eq_true hfacts
  have hsteps : StepsFrom ((vuSystem 8).restrict (Roomy 8)) vuQuiet rearmRun l :=
    .of_guarded (fun _ _ _ h => h) hl
  have hreach := hsteps.reachable (.init vuQuiet_start)
  have harrive := vuart_framesArrive (by decide) hreach hlen
  exact ⟨l, hl, hempty, harrive.2.1 hempty, hheard⟩

/-- Without that room: four bytes of a frame land on one that is not read,
    and the board hears the last frame in place of the first. -/
example :
    let first : SentFrame := ⟨0xE, List.replicate 769 0, frameChecksum 0xE (List.replicate 769 0)⟩
    let second : SentFrame := ⟨0xD, List.replicate 238 0, frameChecksum 0xD (List.replicate 238 0)⟩
    let third : SentFrame := ⟨0xE, [7], frameChecksum 0xE [7]⟩
    let run := [.vsend first] ++ List.replicate 195 .host ++ [.vsend second] ++
      List.replicate 62 .host ++ [.poll 0] ++ List.replicate 12 (.dev 0) ++ [.vsend third] ++
      List.replicate 4 .host ++ List.replicate 9 (.dev 0)
    (LTS.run (vuStep 1000) vuQuiet run).map (·.heard) = some [(0xE, [7])] := by
  decide +kernel

end Interclus

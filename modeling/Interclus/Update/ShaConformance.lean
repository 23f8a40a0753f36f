import Interclus.Core.Sha256
import Interclus.Framework.Sha2

/-! # SHA-256 Conformance

    The one-call `sha256` against the standard: its constants, one block,
    the loop over whole blocks with the padded message as the invariant,
    and the tail of one or two blocks as the rest of the padded message. -/

namespace Interclus

open Words ByteOrder Sha2

/-! ## Constants -/

theorem getD_eq_toList (a : Array U32) {t : Nat} (ht : t < a.toList.length) :
    a.getD t 0 = a.toList[t] := by
  have hsize : t < a.size := by simpa using ht
  simp [hsize]

/-- `K[64]` holds the constants of the standard. -/
theorem sha256_K_eq {t : Nat} (ht : t < 64) : SHA256_K.getD t 0 = K t := by
  have htable : RootTable 3 312 SHA256_K.toList := by decide +kernel
  have hlen : t < SHA256_K.toList.length := ht
  rw [getD_eq_toList SHA256_K hlen]
  exact (htable.eq hlen).symm

/-- The state as a hash value. -/
def Sha256State.hash (s : Sha256State) : Hash := ⟨s.a, s.b, s.c, s.d, s.e, s.f, s.g, s.h⟩

theorem sha256Init_hash : sha256Init.hash = H₀ := by
  have htable : RootTable 2 20 sha256Init.hash.words := by decide +kernel
  have hroot : ∀ t (ht : t < sha256Init.hash.words.length),
      rootFraction 2 (Nat.nth Nat.Prime t) = sha256Init.hash.words[t] := fun _ ht => htable.eq ht
  unfold H₀
  dsimp only
  rw [hroot 0 (by decide), hroot 1 (by decide), hroot 2 (by decide), hroot 3 (by decide),
    hroot 4 (by decide), hroot 5 (by decide), hroot 6 (by decide), hroot 7 (by decide)]
  rfl

/-! ## One block -/

theorem ROR_eq (x : U32) {n : Nat} (hn : n < 32) : ROR x n = x.rotateRight n := by
  rw [BitVec.rotateRight_def, Nat.mod_eq_of_lt hn, ROR]

/-- The schedule so far: the first `n` words. -/
def Scheduled (M : Nat → U32) (n : Nat) (w : Array U32) : Prop :=
  w.size = n ∧ ∀ t < n, w.getD t 0 = schedule M t

theorem Scheduled.push {M : Nat → U32} {n : Nat} {w : Array U32} (h : Scheduled M n w) {x : U32}
    (hx : x = schedule M n) : Scheduled M (n + 1) (w.push x) := by
  obtain ⟨rfl, hword⟩ := h
  refine ⟨Array.size_push _, fun t ht => ?_⟩
  by_cases hlast : t = w.size
  · subst hlast
    simp [hx]
  · rw [← hword t (by omega)]
    simp [Array.getElem?_push, hlast]

/-- One turn of the second loop of the schedule. -/
def scheduleTurn (w : Array U32) (i : Nat) : Array U32 :=
  let w15 := w.getD (i - 15) 0
  let w2 := w.getD (i - 2) 0
  let s0 := ROR w15 7 ^^^ ROR w15 18 ^^^ w15 >>> 3
  let s1 := ROR w2 17 ^^^ ROR w2 19 ^^^ w2 >>> 10
  w.push (w.getD (i - 16) 0 + s0 + w.getD (i - 7) 0 + s1)

theorem Scheduled.turn {M : Nat → U32} {n : Nat} {w : Array U32} (h : Scheduled M n w)
    (hn : 16 ≤ n) : Scheduled M (n + 1) (scheduleTurn w n) := by
  refine h.push ?_
  have hsigma0 : ∀ x, ROR x 7 ^^^ ROR x 18 ^^^ x >>> 3 = sigma0 x := by
    intro x
    rw [ROR_eq x (by decide), ROR_eq x (by decide), sigma0]
  have hsigma1 : ∀ x, ROR x 17 ^^^ ROR x 19 ^^^ x >>> 10 = sigma1 x := by
    intro x
    rw [ROR_eq x (by decide), ROR_eq x (by decide), sigma1]
  rw [hsigma0, hsigma1, h.2 (n - 15) (by omega), h.2 (n - 2) (by omega), h.2 (n - 16) (by omega),
    h.2 (n - 7) (by omega), schedule_ge _ hn]
  ac_rfl

/-- The first loop of the schedule. -/
theorem scheduled_input (p : Mem) {n : Nat} (hn : n ≤ 16) :
    Scheduled (fun t => be32 p (4 * t)) n
      ((List.range n).foldl (fun w i => w.push (be32 p (4 * i))) #[]) := by
  induction n with
  | zero => exact ⟨rfl, fun t ht => absurd ht (Nat.not_lt_zero t)⟩
  | succ n ih =>
    rw [List.range_succ, List.foldl_append, List.foldl_cons, List.foldl_nil]
    have hword := schedule_lt (fun t => be32 p (4 * t)) (show n < 16 by omega)
    exact (ih (by omega)).push hword.symm

/-- The second loop of the schedule. -/
theorem Scheduled.turns {M : Nat → U32} {w : Array U32} (h : Scheduled M 16 w) (n : Nat) :
    Scheduled M (16 + n) ((List.range' 16 n).foldl scheduleTurn w) := by
  induction n with
  | zero => exact h
  | succ n ih =>
    rw [List.range'_concat, List.foldl_append, List.foldl_cons, List.foldl_nil, Nat.one_mul]
    exact ih.turn (by omega)

/-- The schedule is the recurrence of the standard. -/
theorem sha256Schedule_eq (p : Mem) :
    Scheduled (fun t => be32 p (4 * t)) 64 (sha256Schedule p) :=
  (scheduled_input p (Nat.le_refl 16)).turns 48

/-- A turn of the compression loop is a step of the standard. -/
theorem sha256Round_hash (s : Sha256State) (k w : U32) :
    (sha256Round s k w).hash = round s.hash k w := by
  unfold sha256Round
  simp only [ROR_eq _ (show 6 < 32 by decide), ROR_eq _ (show 11 < 32 by decide),
    ROR_eq _ (show 25 < 32 by decide), ROR_eq _ (show 2 < 32 by decide),
    ROR_eq _ (show 13 < 32 by decide), ROR_eq _ (show 22 < 32 by decide)]
  rfl

theorem sha256Block_hash (h : Sha256State) (p : Mem) :
    (sha256Block h p).hash = compress h.hash fun t => be32 p (4 * t) := by
  have hrounds : ∀ n ≤ 64, ((List.range n).foldl (fun s i =>
      sha256Round s (SHA256_K.getD i 0) ((sha256Schedule p).getD i 0)) h).hash =
      rounds h.hash (schedule fun t => be32 p (4 * t)) n := by
    intro n hn
    induction n with
    | zero => rfl
    | succ n ih =>
      rw [List.range_succ, List.foldl_append]
      show (sha256Round _ _ _).hash = round _ _ _
      rw [sha256Round_hash, ih (by omega), sha256_K_eq (by omega),
        (sha256Schedule_eq p).2 n (by omega)]
  unfold compress
  rw [← hrounds 64 (Nat.le_refl _)]
  rfl

theorem be32_eq (p : Mem) (i : Nat) :
    be32 p i = fromBytes 32 ((List.range 4).map fun j => p (i + j)) := by
  have hlist : (List.range 4).map (fun j => p (i + j)) = [p i, p (i + 1), p (i + 2), p (i + 3)] :=
    rfl
  rw [hlist, be32]
  simp [fromBytes, BitVec.shiftLeft_or_distrib, ← BitVec.shiftLeft_add]

/-- A block that a memory shares with a byte string. -/
theorem sha256Block_chain {h : Sha256State} {p : Mem} {bs : List U8} {i : Nat}
    (hh : h.hash = chain bs i) (hi : 64 * i + 64 ≤ bs.length)
    (hp : ∀ k < 64, p k = bs.getD (64 * i + k) 0) :
    (sha256Block h p).hash = chain bs (i + 1) := by
  rw [sha256Block_hash, hh, chain]
  apply compress_congr
  intro t ht
  rw [blockWord_eq ht hi, be32_eq]
  congr 1
  apply List.map_congr_left
  intro j hj
  have hj4 : j < 4 := List.mem_range.mp hj
  exact hp _ (by omega)

/-! ## The loop -/

/-- The message behind the pointer. -/
def message (data : Mem) (len : U32) : List U8 := bytesAt data 0 len.toNat

section Message
variable {data : Mem} {len : U32}

theorem pad_message {k : Nat} (hk : k < len.toNat) :
    (pad (message data len)).getD k 0 = data k := by
  have hmsg : k < (message data len).length := by simpa [message] using hk
  rw [pad, List.getD_append _ _ _ _ hmsg, List.getD_eq_getElem _ _ hmsg]
  simp [message, bytesAt]

theorem length_message : (message data len).length = len.toNat := by simp [message]

/-- The loop over whole blocks: it follows the chain of the padded message,
    and leaves at the last multiple of 64. -/
theorem sha256Blocks_chain (hlen : len.toNat + 64 < 2 ^ 32) {fuel j : Nat} {i : U32}
    {h : Sha256State} (hj : j ≤ len.toNat / 64) (hfuel : len.toNat / 64 - j < fuel)
    (hi : i.toNat = 64 * j) (hh : h.hash = chain (pad (message data len)) j) :
    (sha256Blocks data len fuel i h).1.hash =
        chain (pad (message data len)) (len.toNat / 64) ∧
      (sha256Blocks data len fuel i h).2.toNat = 64 * (len.toNat / 64) := by
  induction fuel generalizing j i h with
  | zero => exact absurd hfuel (Nat.not_lt_zero _)
  | succ fuel ih =>
    have hpos : (i + 64).toNat = 64 * (j + 1) := by bv_omega
    unfold sha256Blocks
    by_cases hnext : i + 64 ≤ len
    · -- one more whole block of the message, hence of the padded message
      have hin : 64 * (j + 1) ≤ len.toNat := by
        rw [← hpos]
        exact hnext
      have hblock : ∀ k < 64, data (i.toNat + k) =
          (pad (message data len)).getD (64 * j + k) 0 := by
        intro k hk
        rw [pad_message (by omega), hi]
      have hroom : 64 * j + 64 ≤ (pad (message data len)).length := by
        rw [length_pad, length_message]
        omega
      rw [if_pos hnext]
      exact ih (by omega) (by omega) hpos (sha256Block_chain hh hroom hblock)
    · -- less than a block is left, so `j` blocks were all of them
      have hout : len.toNat < 64 * (j + 1) := by
        rw [← hpos]
        exact Nat.lt_of_not_le hnext
      obtain rfl : j = len.toNat / 64 := by omega
      rw [if_neg hnext]
      exact ⟨hh, hi⟩

/-! ## The tail -/

/-- `zlen`. -/
def tailLength (r : Nat) : Nat := if r + 1 ≤ 56 then 64 else 128

/-- The tail ends the padded message. -/
theorem tailLength_eq (l : Nat) : tailLength (l % 64) = l % 64 + zeros l + 9 := by
  rw [tailLength, zeros_eq]
  split <;> omega

theorem length_pad_message : (pad (message data len)).length =
    64 * (len.toNat / 64) + tailLength (len.toNat % 64) := by
  rw [length_pad, length_message, tailLength_eq]
  omega

/-- The tail, byte by byte. -/
theorem sha256Tail_eq {i : U32} (hi : i.toNat = 64 * (len.toNat / 64)) {k : Nat}
    (hk : k < tailLength (len.toNat % 64)) :
    sha256Tail data len i k = (pad (message data len)).getD (64 * (len.toNat / 64) + k) 0 := by
  have hr : (len - i).toNat = len.toNat % 64 := by bv_omega
  have hzlen : (if len.toNat % 64 + 1 ≤ 56 then 64 else 128) =
      len.toNat % 64 + zeros len.toNat + 9 := tailLength_eq len.toNat
  have hbits : len.setWidth 64 * 8 = BitVec.ofNat 64 (8 * len.toNat) := by
    apply BitVec.eq_of_toNat_eq
    simp [Nat.mul_comm]
  rw [tailLength_eq] at hk
  unfold sha256Tail
  simp only [hr, hzlen, hbits]
  by_cases hmsg : k < len.toNat % 64
  · -- the rest of the message
    rw [if_neg (by omega), if_pos hmsg, pad_message (by omega), hi]
  · -- the padding
    have hin : k - len.toNat % 64 < (padding len.toNat).length := by
      rw [length_padding]
      omega
    have hpad : (pad (message data len)).getD (64 * (len.toNat / 64) + k) 0 =
        (padding len.toNat)[k - len.toNat % 64] := by
      rw [pad, List.getD_append_right _ _ _ _ (by rw [length_message]; omega), length_message,
        List.getD_eq_getElem _ _ (by rw [length_padding]; omega)]
      congr 1
      omega
    rw [hpad, getElem_padding]
    by_cases hlength : len.toNat % 64 + zeros len.toNat + 1 ≤ k
    · -- a byte of the length
      rw [if_pos (by omega), if_neg (by omega), if_neg (by omega), byteOf]
      congr 3
      omega
    · -- the marker, then zeros
      rw [if_neg (by omega), if_neg hmsg]
      by_cases hmark : k = len.toNat % 64
      · rw [if_pos hmark, if_pos (by omega)]
      · rw [if_neg hmark, if_neg (by omega), if_pos (by omega)]

/-- The rest of the message and the padding. -/
theorem bytesAt_sha256Tail {i : U32} (hi : i.toNat = 64 * (len.toNat / 64)) :
    bytesAt (sha256Tail data len i) 0 (tailLength (len.toNat % 64)) =
      bytesAt data i.toNat (len.toNat % 64) ++ padding len.toNat := by
  have hmsg : message data len =
      bytesAt data 0 (64 * (len.toNat / 64)) ++ bytesAt data i.toNat (len.toNat % 64) := by
    have hsplit := bytesAt_add data 0 (64 * (len.toNat / 64)) (len.toNat % 64)
    rw [Nat.div_add_mod, Nat.zero_add, ← hi] at hsplit
    rw [message, hsplit, ← hi]
  have hdrop : (pad (message data len)).drop (64 * (len.toNat / 64)) =
      bytesAt data i.toNat (len.toNat % 64) ++ padding len.toNat := by
    rw [pad, length_message, hmsg, List.append_assoc]
    exact List.drop_left' (length_bytesAt _ _ _)
  rw [← hdrop]
  apply List.ext_getElem
  · rw [length_bytesAt, List.length_drop, length_pad_message]
    omega
  · intro k hk hk'
    rw [length_bytesAt] at hk
    have hbyte : (bytesAt (sha256Tail data len i) 0 (tailLength (len.toNat % 64)))[k] =
        sha256Tail data len i k := by simp [bytesAt]
    have hin : 64 * (len.toNat / 64) + k < (pad (message data len)).length := by
      rw [length_pad_message]
      omega
    rw [hbyte, sha256Tail_eq hi hk, List.getElem_drop, List.getD_eq_getElem _ _ hin]

/-! ## The digest -/

/-- The state after the tail. -/
def sha256Final (h : Sha256State) (tail : Mem) (r : Nat) : Sha256State :=
  let h := sha256Block h tail
  if r + 1 ≤ 56 then h else sha256Block h fun k => tail (64 + k)

/-- The tail finishes the chain. -/
theorem sha256Final_chain {h : Sha256State} {i : U32}
    (hh : h.hash = chain (pad (message data len)) (len.toNat / 64))
    (hi : i.toNat = 64 * (len.toNat / 64)) :
    (sha256Final h (sha256Tail data len i) (len.toNat % 64)).hash =
      chain (pad (message data len)) ((pad (message data len)).length / 64) := by
  have hfirst : ∀ k < 64, sha256Tail data len i k =
      (pad (message data len)).getD (64 * (len.toNat / 64) + k) 0 := by
    intro k hk
    apply sha256Tail_eq hi
    unfold tailLength
    split <;> omega
  have hroom : 64 * (len.toNat / 64) + 64 ≤ (pad (message data len)).length := by
    rw [length_pad_message, tailLength]
    split <;> omega
  have hblock := sha256Block_chain hh hroom hfirst
  unfold sha256Final
  dsimp only
  rw [length_pad_message, tailLength]
  split
  · have hone : (64 * (len.toNat / 64) + 64) / 64 = len.toNat / 64 + 1 := by omega
    rw [hone]
    exact hblock
  · next hr =>
    -- the length does not fit behind the marker: a second block
    have hsecond : ∀ k < 64, sha256Tail data len i (64 + k) =
        (pad (message data len)).getD (64 * (len.toNat / 64 + 1) + k) 0 := by
      intro k hk
      have hk' : 64 + k < tailLength (len.toNat % 64) := by
        rw [tailLength, if_neg hr]
        omega
      rw [sha256Tail_eq hi hk', Nat.mul_add, Nat.add_assoc]
    have htwo : (64 * (len.toNat / 64) + 128) / 64 = len.toNat / 64 + 1 + 1 := by omega
    have hroom' : 64 * (len.toNat / 64 + 1) + 64 ≤ (pad (message data len)).length := by
      rw [length_pad_message, tailLength, if_neg hr]
      omega
    rw [htwo]
    exact sha256Block_chain hblock hroom' hsecond

/-- The eight words, byte by byte. -/
theorem digest_bytes (s : Sha256State) :
    (List.ofFn fun k : Fin 32 => (sha256Word s (k.val / 4) >>> (8 * (3 - k.val % 4))).setWidth 8) =
      s.hash.words.flatMap (toBytes 4) := by
  rfl

/-- What the standard asks of a call: the digest; the loop, with turns to
    spare, over exactly the whole blocks; and the tail that pads the rest. -/
structure ShaConforms (data : Mem) (len : U32) : Prop where
  digest : List.ofFn (sha256 data len) = digest (message data len)
  loop : ∀ fuel, len.toNat / 64 < fuel →
    (sha256Blocks data len fuel 0 sha256Init).1.hash =
        chain (pad (message data len)) (len.toNat / 64) ∧
      (sha256Blocks data len fuel 0 sha256Init).2.toNat = 64 * (len.toNat / 64)
  tail : ∀ i : U32, i.toNat = 64 * (len.toNat / 64) →
    bytesAt (sha256Tail data len i) 0 (tailLength (len.toNat % 64)) =
      bytesAt data i.toNat (len.toNat % 64) ++ padding len.toNat

/-- **SHA-256 conformance**, for every length whose last block does not
    wrap the position. -/
theorem sha256_conforms (data : Mem) (len : U32) (hlen : len.toNat ≤ 2 ^ 32 - 65) :
    ShaConforms data len := by
  have hloop : ∀ fuel, len.toNat / 64 < fuel →
      (sha256Blocks data len fuel 0 sha256Init).1.hash =
          chain (pad (message data len)) (len.toNat / 64) ∧
        (sha256Blocks data len fuel 0 sha256Init).2.toNat = 64 * (len.toNat / 64) := by
    intro fuel hfuel
    exact sha256Blocks_chain (by omega) (Nat.zero_le _) (by omega) rfl sha256Init_hash
  refine ⟨?_, hloop, fun i hi => bytesAt_sha256Tail hi⟩
  obtain ⟨hh, hi⟩ := hloop (len.toNat / 64 + 1) (Nat.lt_succ_self _)
  have hr : (len - (sha256Blocks data len (len.toNat / 64 + 1) 0 sha256Init).2).toNat =
      len.toNat % 64 := by bv_omega
  have hfinal := sha256Final_chain hh hi
  unfold sha256
  dsimp only
  rw [hr]
  refine (digest_bytes (sha256Final _ _ _)).trans ?_
  rw [hfinal]
  rfl

end Message

/-- `abc`. -/
def abc : Mem := fun k => [0x61, 0x62, 0x63].getD k 0

/-- The digest that the standard gives for `abc`. -/
theorem sha256_conforms_abc :
    ShaConforms abc 3 ∧ digest [0x61, 0x62, 0x63] =
      [0xba, 0x78, 0x16, 0xbf, 0x8f, 0x01, 0xcf, 0xea, 0x41, 0x41, 0x40, 0xde, 0x5d, 0xae, 0x22,
       0x23, 0xb0, 0x03, 0x61, 0xa3, 0x96, 0x17, 0x7a, 0x9c, 0xb4, 0x10, 0xff, 0x61, 0xf2, 0x00,
       0x15, 0xad] := by
  have habc := sha256_conforms abc 3 (by decide)
  refine ⟨habc, habc.digest.symm.trans ?_⟩
  decide +kernel

end Interclus

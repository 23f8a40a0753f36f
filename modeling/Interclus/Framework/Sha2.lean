import Mathlib.Analysis.SpecialFunctions.Pow.NthRootLemmas
import Mathlib.Data.Nat.Nth
import Mathlib.Data.Nat.Prime.Defs
import Interclus.Framework.ByteOrder

/-! # The Secure Hash Standard

    SHA-256 of a byte string as FIPS 180-4 defines it: the constants by
    their roots, the message schedule by its recurrence, the padding by the
    congruence its zeros solve.  Nothing here is meant to be run. -/

namespace Sha2

open Words ByteOrder

/-! ## Constants -/

/-- The first 32 bits of the fractional part of the `n`-th root of `m`. -/
def rootFraction (n m : Nat) : U32 := BitVec.ofNat 32 (Nat.nthRoot n (m * 2 ^ (32 * n)))

/-- `K_t`, from the cube root of the `t`-th prime. -/
noncomputable def K (t : Nat) : U32 := rootFraction 3 (Nat.nth Nat.Prime t)

/-- A hash value, and the working variables of a step: eight words. -/
structure Hash where
  a : U32
  b : U32
  c : U32
  d : U32
  e : U32
  f : U32
  g : U32
  h : U32

def Hash.words (H : Hash) : List U32 := [H.a, H.b, H.c, H.d, H.e, H.f, H.g, H.h]

/-- `H⁽⁰⁾`, from the square roots of the first eight primes. -/
noncomputable def H₀ : Hash :=
  let root i := rootFraction 2 (Nat.nth Nat.Prime i)
  ⟨root 0, root 1, root 2, root 3, root 4, root 5, root 6, root 7⟩

/-! ## Functions -/

def Ch (x y z : U32) : U32 := (x &&& y) ^^^ (~~~x &&& z)

def Maj (x y z : U32) : U32 := (x &&& y) ^^^ (x &&& z) ^^^ (y &&& z)

def Sigma0 (x : U32) : U32 := x.rotateRight 2 ^^^ x.rotateRight 13 ^^^ x.rotateRight 22

def Sigma1 (x : U32) : U32 := x.rotateRight 6 ^^^ x.rotateRight 11 ^^^ x.rotateRight 25

def sigma0 (x : U32) : U32 := x.rotateRight 7 ^^^ x.rotateRight 18 ^^^ x >>> 3

def sigma1 (x : U32) : U32 := x.rotateRight 17 ^^^ x.rotateRight 19 ^^^ x >>> 10

/-! ## Compression -/

/-- The message schedule `W_t` of a block of words `M`. -/
def schedule (M : Nat → U32) (t : Nat) : U32 :=
  if t < 16 then M t
  else sigma1 (schedule M (t - 2)) + schedule M (t - 7) + sigma0 (schedule M (t - 15)) +
    schedule M (t - 16)
termination_by t

/-- One step. -/
def round (v : Hash) (k w : U32) : Hash :=
  let T₁ := v.h + Sigma1 v.e + Ch v.e v.f v.g + k + w
  let T₂ := Sigma0 v.a + Maj v.a v.b v.c
  ⟨T₁ + T₂, v.a, v.b, v.c, v.d + T₁, v.e, v.f, v.g⟩

/-- The working variables after `t` steps. -/
noncomputable def rounds (H : Hash) (W : Nat → U32) : Nat → Hash
  | 0 => H
  | t + 1 => round (rounds H W t) (K t) (W t)

/-- The next hash value from a block. -/
noncomputable def compress (H : Hash) (M : Nat → U32) : Hash :=
  let v := rounds H (schedule M) 64
  ⟨H.a + v.a, H.b + v.b, H.c + v.c, H.d + v.d, H.e + v.e, H.f + v.f, H.g + v.g, H.h + v.h⟩

/-! ## Padding and parsing -/

theorem zeros_exist (l : Nat) : ∃ k, (l + 1 + k) % 64 = 56 :=
  ⟨55 + (64 - l % 64), by omega⟩

/-- The zero bytes of the padding: the least `k ≥ 0` with
    `l + 1 + k ≡ 56 (mod 64)`. -/
def zeros (l : Nat) : Nat := Nat.find (zeros_exist l)

/-- A one bit, the zeros, and the length in bits. -/
def padding (l : Nat) : List U8 :=
  0x80 :: List.replicate (zeros l) 0 ++ toBytes 8 (BitVec.ofNat 64 (8 * l))

def pad (msg : List U8) : List U8 := msg ++ padding msg.length

/-- Word `t` of block `i`. -/
def blockWord (bs : List U8) (i t : Nat) : U32 :=
  fromBytes 32 ((bs.drop (64 * i + 4 * t)).take 4)

/-- The hash value after `i` blocks. -/
noncomputable def chain (bs : List U8) : Nat → Hash
  | 0 => H₀
  | i + 1 => compress (chain bs i) (blockWord bs i)

/-- The message digest. -/
noncomputable def digest (msg : List U8) : List U8 :=
  (chain (pad msg) ((pad msg).length / 64)).words.flatMap (toBytes 4)

/-! ## Reading the definitions -/

theorem schedule_lt (M : Nat → U32) {t : Nat} (h : t < 16) : schedule M t = M t := by
  rw [schedule, if_pos h]

theorem schedule_ge (M : Nat → U32) {t : Nat} (h : 16 ≤ t) :
    schedule M t = sigma1 (schedule M (t - 2)) + schedule M (t - 7) +
      sigma0 (schedule M (t - 15)) + schedule M (t - 16) := by
  rw [schedule, if_neg (Nat.not_lt.mpr h)]

/-- A schedule looks at sixteen words. -/
theorem schedule_congr {M M' : Nat → U32} (h : ∀ t < 16, M t = M' t) (t : Nat) :
    schedule M t = schedule M' t := by
  induction t using Nat.strong_induction_on with
  | _ t ih =>
    by_cases ht : t < 16
    · rw [schedule_lt M ht, schedule_lt M' ht, h t ht]
    · have hge : 16 ≤ t := Nat.not_lt.mp ht
      rw [schedule_ge M hge, schedule_ge M' hge, ih (t - 2) (by omega), ih (t - 7) (by omega),
        ih (t - 15) (by omega), ih (t - 16) (by omega)]

theorem compress_congr {M M' : Nat → U32} (h : ∀ t < 16, M t = M' t) (H : Hash) :
    compress H M = compress H M' := by
  have hsched : schedule M = schedule M' := funext (schedule_congr h)
  unfold compress
  rw [hsched]

/-- The two cases of the padding. -/
theorem zeros_eq (l : Nat) : zeros l = if l % 64 + 1 ≤ 56 then 55 - l % 64 else 119 - l % 64 := by
  rw [zeros, Nat.find_eq_iff]
  split
  · exact ⟨by omega, fun k hk => by omega⟩
  · exact ⟨by omega, fun k hk => by omega⟩

theorem length_padding (l : Nat) : (padding l).length = zeros l + 9 := by
  simp [padding, toBytes]

theorem length_pad (msg : List U8) : (pad msg).length = msg.length + zeros msg.length + 9 := by
  rw [pad, List.length_append, length_padding, Nat.add_assoc]

/-- The padding byte by byte. -/
theorem getElem_padding {l k : Nat} (hk : k < (padding l).length) :
    (padding l)[k] = if k = 0 then 0x80 else if k < zeros l + 1 then 0
      else byteOf (BitVec.ofNat 64 (8 * l)) (zeros l + 8 - k) := by
  cases k with
  | zero => rfl
  | succ k =>
    rw [if_neg (Nat.succ_ne_zero k)]
    simp only [padding, List.cons_append, List.getElem_cons_succ]
    by_cases hzero : k < zeros l
    · rw [if_pos (by omega), List.getElem_append_left (by simpa using hzero),
        List.getElem_replicate]
    · rw [if_neg (by omega), List.getElem_append_right (by simpa using hzero), getElem_toBytes]
      congr 1
      rw [List.length_replicate]
      omega

/-- The words of a block that lies inside the padded message. -/
theorem blockWord_eq {bs : List U8} {i t : Nat} (ht : t < 16) (hi : 64 * i + 64 ≤ bs.length) :
    blockWord bs i t =
      fromBytes 32 ((List.range 4).map fun j => bs.getD (64 * i + (4 * t + j)) 0) := by
  have hwindow : (bs.drop (64 * i + 4 * t)).take 4 =
      (List.range 4).map fun j => bs.getD (64 * i + (4 * t + j)) 0 := by
    apply List.ext_getElem
    · simp
      omega
    · intro j hj _
      have hj4 : j < 4 := by
        simp at hj
        omega
      rw [List.getElem_take, List.getElem_drop, List.getElem_map, List.getElem_range,
        List.getD_eq_getElem _ _ (by omega)]
      congr 1
      omega
  rw [blockWord, hwindow]

/-! ## Computing the constants -/

/-- A root is found by trying its integer part. -/
theorem rootFraction_eq {n m a : Nat} {x : U32}
    (hle : (a * 2 ^ 32 + x.toNat) ^ n ≤ m * 2 ^ (32 * n))
    (hlt : m * 2 ^ (32 * n) < (a * 2 ^ 32 + x.toNat + 1) ^ n) : rootFraction n m = x := by
  have hroot := Nat.nthRoot_eq_of_le_of_lt hle hlt
  unfold rootFraction
  rw [hroot]
  apply BitVec.eq_of_toNat_eq
  rw [BitVec.toNat_ofNat]
  have hx := x.isLt
  omega

/-- The members of a set below a bound, listed in order, are its first
    members. -/
theorem nth_eq_getElem_filter {p : Nat → Prop} [DecidablePred p] {n t : Nat}
    (ht : t < ((List.range n).filter p).length) :
    Nat.nth p t = ((List.range n).filter p)[t] := by
  induction n with
  | zero => simp at ht
  | succ n ih =>
    have hsplit : (List.range (n + 1)).filter p =
        (List.range n).filter p ++ [n].filter p := by
      rw [List.range_succ, List.filter_append]
    simp only [hsplit] at ht ⊢
    by_cases hold : t < ((List.range n).filter p).length
    · rw [List.getElem_append_left hold, ih hold]
    · -- the last one is `n`, with `t` members below it
      have hn : p n := by
        by_contra hn
        simp [hn] at ht
        omega
      have hcount : Nat.count p n = t := by
        rw [Nat.count, List.countP_eq_length_filter]
        simp [hn] at ht
        omega
      have hnth : Nat.nth p t = n := by rw [← hcount, Nat.nth_count hn]
      rw [List.getElem_append_right (Nat.not_lt.mp hold), hnth]
      simp [hn]

/-- A table of root fractions of the first primes, all of them below
    `bound`, with roots below 8. -/
def RootTable (n bound : Nat) (xs : List U32) : Prop :=
  xs.length ≤ ((List.range bound).filter Nat.Prime).length ∧
    ∀ x ∈ ((List.range bound).filter Nat.Prime).zip xs, ∃ a < 8,
      (a * 2 ^ 32 + x.2.toNat) ^ n ≤ x.1 * 2 ^ (32 * n) ∧
        x.1 * 2 ^ (32 * n) < (a * 2 ^ 32 + x.2.toNat + 1) ^ n

instance (n bound : Nat) (xs : List U32) : Decidable (RootTable n bound xs) :=
  inferInstanceAs (Decidable (_ ∧ _))

theorem RootTable.eq {n bound : Nat} {xs : List U32} (h : RootTable n bound xs) {t : Nat}
    (ht : t < xs.length) : rootFraction n (Nat.nth Nat.Prime t) = xs[t] := by
  have hprime : t < ((List.range bound).filter Nat.Prime).length := Nat.lt_of_lt_of_le ht h.1
  have hzip : t < (((List.range bound).filter Nat.Prime).zip xs).length := by
    rw [List.length_zip]
    exact Nat.lt_min.mpr ⟨hprime, ht⟩
  have hmem := List.getElem_mem hzip
  rw [List.getElem_zip] at hmem
  obtain ⟨a, _, hle, hlt⟩ := h.2 _ hmem
  rw [nth_eq_getElem_filter hprime]
  exact rootFraction_eq hle hlt

end Sha2

import Mathlib.Data.List.Basic
import Interclus.Framework.Words

/-! # SHA-256

    `core/sha256.c`: the block function, the block loop, and the padded
    tail. -/

namespace Interclus

open Words

/-- `uint8_t[32]`. -/
abbrev Digest : Type := Fin 32 → U8

def SHA256_K : Array U32 := #[
  0x428a2f98, 0x71374491, 0xb5c0fbcf, 0xe9b5dba5,
  0x3956c25b, 0x59f111f1, 0x923f82a4, 0xab1c5ed5,
  0xd807aa98, 0x12835b01, 0x243185be, 0x550c7dc3,
  0x72be5d74, 0x80deb1fe, 0x9bdc06a7, 0xc19bf174,
  0xe49b69c1, 0xefbe4786, 0x0fc19dc6, 0x240ca1cc,
  0x2de92c6f, 0x4a7484aa, 0x5cb0a9dc, 0x76f988da,
  0x983e5152, 0xa831c66d, 0xb00327c8, 0xbf597fc7,
  0xc6e00bf3, 0xd5a79147, 0x06ca6351, 0x14292967,
  0x27b70a85, 0x2e1b2138, 0x4d2c6dfc, 0x53380d13,
  0x650a7354, 0x766a0abb, 0x81c2c92e, 0x92722c85,
  0xa2bfe8a1, 0xa81a664b, 0xc24b8b70, 0xc76c51a3,
  0xd192e819, 0xd6990624, 0xf40e3585, 0x106aa070,
  0x19a4c116, 0x1e376c08, 0x2748774c, 0x34b0bcb5,
  0x391c0cb3, 0x4ed8aa4a, 0x5b9cca4f, 0x682e6ff3,
  0x748f82ee, 0x78a5636f, 0x84c87814, 0x8cc70208,
  0x90befffa, 0xa4506ceb, 0xbef9a3f7, 0xc67178f2]

def ROR (x : U32) (n : Nat) : U32 := x >>> n ||| x <<< (32 - n)

/-! ## Blocks -/

/-- `uint32_t h[8]`. -/
structure Sha256State where
  a : U32
  b : U32
  c : U32
  d : U32
  e : U32
  f : U32
  g : U32
  h : U32
  deriving DecidableEq, Repr

/-- A big-endian word of a block. -/
def be32 (p : Mem) (i : Nat) : U32 :=
  (p i).setWidth 32 <<< 24 ||| (p (i + 1)).setWidth 32 <<< 16 |||
    (p (i + 2)).setWidth 32 <<< 8 ||| (p (i + 3)).setWidth 32

/-- The message schedule `w[64]`. -/
def sha256Schedule (p : Mem) : Array U32 :=
  let w := (List.range 16).foldl (fun w i => w.push (be32 p (4 * i))) #[]
  (List.range' 16 48).foldl (fun w i =>
    let w15 := w.getD (i - 15) 0
    let w2 := w.getD (i - 2) 0
    let s0 := ROR w15 7 ^^^ ROR w15 18 ^^^ w15 >>> 3
    let s1 := ROR w2 17 ^^^ ROR w2 19 ^^^ w2 >>> 10
    w.push (w.getD (i - 16) 0 + s0 + w.getD (i - 7) 0 + s1)) w

/-- One turn of the compression loop. -/
def sha256Round (s : Sha256State) (k w : U32) : Sha256State :=
  let S1 := ROR s.e 6 ^^^ ROR s.e 11 ^^^ ROR s.e 25
  let ch := (s.e &&& s.f) ^^^ (~~~s.e &&& s.g)
  let t1 := s.h + S1 + ch + k + w
  let S0 := ROR s.a 2 ^^^ ROR s.a 13 ^^^ ROR s.a 22
  let maj := (s.a &&& s.b) ^^^ (s.a &&& s.c) ^^^ (s.b &&& s.c)
  let t2 := S0 + maj
  ⟨t1 + t2, s.a, s.b, s.c, s.d + t1, s.e, s.f, s.g⟩

def sha256Block (h : Sha256State) (p : Mem) : Sha256State :=
  let w := sha256Schedule p
  let s := (List.range 64).foldl
    (fun s i => sha256Round s (SHA256_K.getD i 0) (w.getD i 0)) h
  ⟨h.a + s.a, h.b + s.b, h.c + s.c, h.d + s.d, h.e + s.e, h.f + s.f, h.g + s.g, h.h + s.h⟩

/-! ## Messages -/

def sha256Init : Sha256State :=
  ⟨0x6a09e667, 0xbb67ae85, 0x3c6ef372, 0xa54ff53a,
   0x510e527f, 0x9b05688c, 0x1f83d9ab, 0x5be0cd19⟩

/-- The loop over whole blocks: the state and the position it ends at. -/
def sha256Blocks (data : Mem) (len : U32) : Nat → U32 → Sha256State → Sha256State × U32
  | 0, i, h => (h, i)
  | fuel + 1, i, h =>
    if i + 64 ≤ len then
      sha256Blocks data len fuel (i + 64) (sha256Block h fun k => data (i.toNat + k))
    else (h, i)

/-- `tail[128]`, the rest of the message with its padding: a message of
    `len` bytes of which `r` start at `data + i`. -/
def sha256Tail (data : Mem) (len i : U32) : Mem := fun k =>
  let r := (len - i).toNat
  let zlen := if r + 1 ≤ 56 then 64 else 128
  if zlen - 8 ≤ k ∧ k < zlen then
    ((len.setWidth 64 * 8) >>> (8 * (zlen - 1 - k))).setWidth 8
  else if k < r then data (i.toNat + k)
  else if k = r then 0x80
  else 0

def sha256Word (h : Sha256State) (k : Nat) : U32 :=
  match k with
  | 0 => h.a | 1 => h.b | 2 => h.c | 3 => h.d
  | 4 => h.e | 5 => h.f | 6 => h.g | _ => h.h

/-- `sha256`.  The fuel is one turn for each whole block and one to leave
    the loop. -/
def sha256 (data : Mem) (len : U32) : Digest :=
  let (h, i) := sha256Blocks data len (len.toNat / 64 + 1) 0 sha256Init
  let tail := sha256Tail data len i
  let h := sha256Block h tail
  let h := if (len - i).toNat + 1 ≤ 56 then h else sha256Block h fun k => tail (64 + k)
  fun k => (sha256Word h (k.val / 4) >>> (8 * (3 - k.val % 4))).setWidth 8

/-! ## What a digest depends on -/

theorem sha256Schedule_congr {p q : Mem} (h : ∀ k < 64, p k = q k) :
    sha256Schedule p = sha256Schedule q := by
  have hwords : (List.range 16).foldl (fun w i => w.push (be32 p (4 * i))) #[] =
      (List.range 16).foldl (fun w i => w.push (be32 q (4 * i))) #[] := by
    refine List.foldl_ext _ _ _ fun w i hi => ?_
    have hi : i < 16 := List.mem_range.mp hi
    unfold be32
    rw [h (4 * i) (by omega), h (4 * i + 1) (by omega), h (4 * i + 2) (by omega),
      h (4 * i + 3) (by omega)]
  unfold sha256Schedule
  rw [hwords]

theorem sha256Block_congr {p q : Mem} (h : ∀ k < 64, p k = q k) (st : Sha256State) :
    sha256Block st p = sha256Block st q := by
  unfold sha256Block
  rw [sha256Schedule_congr h]

/-- The block loop of two messages with the same first `len` bytes, from a
    position inside them. -/
theorem sha256Blocks_congr {p q : Mem} {len : U32} (hlen : len.toNat + 64 < 2 ^ 32)
    (h : ∀ k < len.toNat, p k = q k) (fuel : Nat) {i : U32} (hi : i.toNat ≤ len.toNat)
    (st : Sha256State) :
    sha256Blocks p len fuel i st = sha256Blocks q len fuel i st ∧
      (sha256Blocks p len fuel i st).2.toNat ≤ len.toNat := by
  induction fuel generalizing i st with
  | zero => exact ⟨rfl, hi⟩
  | succ fuel ih =>
    unfold sha256Blocks
    by_cases hnext : i + 64 ≤ len
    · have hpos : (i + 64).toNat = i.toNat + 64 := by bv_omega
      have hblock : ∀ k < 64, p (i.toNat + k) = q (i.toNat + k) := by
        intro k hk
        apply h
        bv_omega
      rw [if_pos hnext, if_pos hnext, sha256Block_congr hblock]
      exact ih (by bv_omega) _
    · rw [if_neg hnext, if_neg hnext]
      exact ⟨rfl, hi⟩

theorem sha256Tail_congr {p q : Mem} {len i : U32} (hi : i.toNat ≤ len.toNat)
    (h : ∀ k < len.toNat, p k = q k) : sha256Tail p len i = sha256Tail q len i := by
  funext k
  unfold sha256Tail
  by_cases hk : k < (len - i).toNat
  · have hbyte : p (i.toNat + k) = q (i.toNat + k) := h _ (by bv_omega)
    simp only [if_pos hk, hbyte]
  · simp only [if_neg hk]

/-- The digest of `len` bytes depends on those bytes only. -/
theorem sha256_congr {p q : Mem} {len : U32} (hlen : len.toNat + 64 < 2 ^ 32)
    (h : ∀ k < len.toNat, p k = q k) : sha256 p len = sha256 q len := by
  obtain ⟨hblocks, hpos⟩ :=
    sha256Blocks_congr hlen h (len.toNat / 64 + 1) (i := 0) (Nat.zero_le _) sha256Init
  have htail := sha256Tail_congr hpos h
  unfold sha256
  rw [← hblocks]
  simp only [htail]

end Interclus

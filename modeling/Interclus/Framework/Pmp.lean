import Interclus.Framework.Words

/-! # RISC-V Physical Memory Protection

    The U-mode access decision of the RV32 privileged architecture for
    single bytes: the lowest-numbered entry whose region holds the address
    decides by its permission bits.

    * `Entry.region`: the region an entry covers, for the four address
      matching modes;
    * `napotRegion_encode`: the word that encodes a naturally aligned
      power-of-two region decodes to it;
    * `napotRegion_aligned`: no word decodes to anything else. -/

namespace Pmp

open Words

/-! ## Entries -/

inductive Access where
  | load | store | fetch
  deriving DecidableEq, Repr

inductive Mode where
  | off | tor | na4 | napot
  deriving DecidableEq, Repr

/-- A configuration byte with its address word. -/
structure Entry where
  cfg : U8
  addr : U32
  deriving DecidableEq, Repr

/-- The `A` field of a configuration byte. -/
def cfgMode (cfg : U8) : Mode :=
  if cfg.getLsbD 4 then (if cfg.getLsbD 3 then .napot else .na4)
  else if cfg.getLsbD 3 then .tor else .off

/-- The `R`, `W` and `X` bits of a configuration byte. -/
def cfgPermits (cfg : U8) : Access → Bool
  | .load => cfg.getLsbD 0
  | .store => cfg.getLsbD 1
  | .fetch => cfg.getLsbD 2

def Entry.permits (e : Entry) (acc : Access) : Bool := cfgPermits e.cfg acc

/-- A range of byte addresses. -/
structure Region where
  base : Nat
  size : Nat
  deriving DecidableEq, Repr

def Region.holds (r : Region) (a : Nat) : Bool := r.base ≤ a ∧ a < r.base + r.size

@[simp] theorem Region.holds_iff (r : Region) (a : Nat) :
    r.holds a ↔ r.base ≤ a ∧ a < r.base + r.size := by
  simp [Region.holds]

/-- Two regions share no address. -/
def Region.Apart (r r' : Region) : Prop := r.base + r.size ≤ r'.base ∨ r'.base + r'.size ≤ r.base

instance (r r' : Region) : Decidable (r.Apart r') := inferInstanceAs (Decidable (_ ∨ _))

theorem Region.Apart.not_holds {r r' : Region} (h : r.Apart r') {a : Nat} (ha : r.holds a = true) :
    r'.holds a = false := by
  rw [holds_iff] at ha
  rw [Bool.eq_false_iff, ne_eq, holds_iff]
  rcases h with h | h <;> omega

/-- The number of one bits below the lowest zero bit. -/
def trailingOnes (w : U32) : Nat :=
  ((List.range 32).find? fun k => !w.toNat.testBit k).getD 32

/-- The naturally aligned power-of-two region an address word encodes: the
    trailing ones give the size, the bits above them the base. -/
def napotRegion (w : U32) : Region where
  base := w.toNat / 2 ^ (trailingOnes w + 1) * 2 ^ (trailingOnes w + 3)
  size := 2 ^ (trailingOnes w + 3)

/-- The region of an entry; `prev` is the address word below it. -/
def Entry.region (e : Entry) (prev : U32) : Option Region :=
  match cfgMode e.cfg with
  | .off => none
  | .tor => some ⟨4 * prev.toNat, 4 * e.addr.toNat - 4 * prev.toNat⟩
  | .na4 => some ⟨4 * e.addr.toNat, 4⟩
  | .napot => some (napotRegion e.addr)

theorem Entry.region_napot {cfg : U8} (h : cfgMode cfg = .napot) (addr prev : U32) :
    Entry.region ⟨cfg, addr⟩ prev = some (napotRegion addr) := by
  simp only [Entry.region, h]

theorem Entry.region_off {cfg : U8} (h : cfgMode cfg = .off) (addr prev : U32) :
    Entry.region ⟨cfg, addr⟩ prev = none := by
  simp only [Entry.region, h]

/-- The decision of a list of entries, lowest-numbered first; `unmatched`
    is the machine's answer for an address no entry covers. -/
def allows (unmatched : Bool) (acc : Access) (a : Nat) : List Entry → U32 → Bool
  | [], _ => unmatched
  | e :: es, prev =>
    if (e.region prev).any fun r => r.holds a then e.permits acc
    else allows unmatched acc a es e.addr

/-! ## Encoding -/

theorem trailingOnes_eq {w : U32} {k : Nat} (hk : k < 32) (hones : ∀ j < k, w.toNat.testBit j)
    (hzero : w.toNat.testBit k = false) : trailingOnes w = k := by
  have hfind : (List.range 32).find? (fun j => !w.toNat.testBit j) = some k := by
    rw [List.find?_range_eq_some]
    exact ⟨by simp [hzero], List.mem_range.mpr hk, fun j hj => by simp [hones j hj]⟩
  unfold trailingOnes
  rw [hfind]
  rfl

/-- The word with base `2 ^ (k + 3) * q` and size `2 ^ (k + 3)`. -/
theorem napotRegion_encode {w : U32} {k q : Nat} (hk : k < 32)
    (hw : w.toNat = 2 ^ (k + 1) * q + (2 ^ k - 1)) :
    napotRegion w = ⟨2 ^ (k + 3) * q, 2 ^ (k + 3)⟩ := by
  have hlow : 2 ^ k - 1 < 2 ^ (k + 1) := by
    have : 2 ^ k < 2 ^ (k + 1) := Nat.pow_lt_pow_right (by decide) (by omega)
    omega
  have ht : trailingOnes w = k := by
    apply trailingOnes_eq hk
    · intro j hj
      rw [hw, Nat.testBit_two_pow_mul_add _ hlow]
      simp [show j < k + 1 by omega, hj]
    · rw [hw, Nat.testBit_two_pow_mul_add _ hlow]
      simp
  have hdiv : w.toNat / 2 ^ (k + 1) = q := by
    rw [hw, Nat.mul_add_div (Nat.two_pow_pos _), Nat.div_eq_of_lt hlow, Nat.add_zero]
  unfold napotRegion
  rw [ht, hdiv, Nat.mul_comm]

/-- Every word encodes a naturally aligned region. -/
theorem napotRegion_aligned (w : U32) : (napotRegion w).base % (napotRegion w).size = 0 :=
  Nat.mul_mod_left _ _

/-- The all-ones word covers the whole address space. -/
theorem napotRegion_allOnes {a : Nat} (ha : a < 2 ^ 32) : (napotRegion 0xFFFFFFFF).holds a := by
  have hr : napotRegion 0xFFFFFFFF = ⟨0, 2 ^ 35⟩ := by decide +kernel
  rw [hr, Region.holds_iff]
  exact ⟨Nat.zero_le a, show a < 0 + 2 ^ 35 by omega⟩

end Pmp

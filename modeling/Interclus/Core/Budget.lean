import Interclus.Core.Platform
import Interclus.Framework.SplitCounter
import Interclus.Framework.System

/-! # The Budget Timer

    `BUDGET_ARM` of `core/platform.h`: the deadline the supervisor arms
    before every compartment entry.  A 64-bit timer is read through two
    32-bit registers, and a 64-bit compare register written through two. -/

namespace Interclus

open Words DoubleWord SplitCounter

/-- The budget of one entry. -/
def BUDGET_TICKS : U32 := 2000000

/-! ## Registers -/

/-- `mtimecmp` of hart 0, or `STK_CMP_LO`. -/
def cmpLoAddr : Target → U32
  | .qemu => 0x02004000 | .board => 0xE000F010

/-- The upper half, `cmp[1]` or `STK_CMP_HI`. -/
def cmpHiAddr : Target → U32
  | .qemu => 0x02004004 | .board => 0xE000F014

def STK_SR : U32 := 0xE000F004
def PFIC_IENR0 : U32 := 0xE000E100
def PFIC_IPRR0 : U32 := 0xE000E280

/-- The machine timer, `mtime` or the SysTick counter: its value at each
    access that `BUDGET_ARM` makes. -/
abbrev Timer := Counter 64

/-! ## Reading the timer -/

/-- The two halves, and the accesses that read the earlier and the later. -/
structure HalfReads where
  hi : U32
  lo : U32
  first : Nat
  last : Nat

/-- `uint32_t now = mt[0], hi = mt[1];` -/
def mtimeRead (timer : Timer) (n : Nat) : HalfReads where
  lo := low 32 (timer.value n)
  hi := high 32 (timer.value (n + 1))
  first := n
  last := n + 1

/-- One turn of
    `do { hi = STK_CNT_HI; lo0 = STK_CNT; } while (hi != STK_CNT_HI);`. -/
def stkTurn (timer : Timer) (n : Nat) : Nat ⊕ HalfReads :=
  let hi := high 32 (timer.value n)
  let lo0 := low 32 (timer.value (n + 1))
  if hi ≠ high 32 (timer.value (n + 2)) then .inl (n + 3)
  else .inr { hi := hi, lo := lo0, first := n, last := n + 1 }

/-- The reads, from access `n` on. -/
def budgetReads (timer : Timer) (fuel n : Nat) : Target → Option HalfReads
  | .qemu => some (mtimeRead timer n)
  | .board => Exec.run (stkTurn timer) fuel n

/-! ## Setting the compare register -/

/-- The stores, in order. -/
def budgetStores (target : Target) (r : HalfReads) (ticks : U32) : List (U32 × U32) :=
  let lo := r.lo + ticks
  let hi := if lo < r.lo then r.hi + 1 else r.hi
  [(cmpHiAddr target, 0xFFFFFFFF), (cmpLoAddr target, lo), (cmpHiAddr target, hi)] ++
    match target with
    | .qemu => []
    | .board => [(STK_SR, 0), (PFIC_IPRR0, 1 <<< 12), (PFIC_IENR0, 1 <<< 12)]

/-- `BUDGET_ARM(ticks)`: what it read and what it stores. -/
def budgetArm (target : Target) (timer : Timer) (fuel n : Nat) (ticks : U32) :
    Option (HalfReads × List (U32 × U32)) := do
  let r ← budgetReads timer fuel n target
  return (r, budgetStores target r ticks)

/-- The compare register after a store. -/
def cmpStore (target : Target) (cmp : U64) (store : U32 × U32) : U64 :=
  if store.1 = cmpHiAddr target then join 64 store.2 (low 32 cmp)
  else if store.1 = cmpLoAddr target then join 64 (high 32 cmp) store.2
  else cmp

def cmpAfter (target : Target) (cmp : U64) (stores : List (U32 × U32)) : U64 :=
  stores.foldl (cmpStore target) cmp

end Interclus

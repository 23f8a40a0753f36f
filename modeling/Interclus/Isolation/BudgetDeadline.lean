import Interclus.Core.Budget

/-! # The Budget Deadline

    The compare value `BUDGET_ARM` leaves, against the one it means: the
    timer at some moment of its reads, plus the budget.

    The board reads the high half again and repeats until it has not
    moved, so its deadline is exact.  `QEMU_TARGET` reads each half once,
    low first.  When the low half wraps between the two, the new high half
    is taken with the old low half and the deadline is a whole `2 ^ 32`
    ticks late. -/

namespace Interclus

open Words DoubleWord SplitCounter

/-! ## The stores -/

section Stores
variable (target : Target) (cmp : U64) (r : HalfReads) (ticks : U32)

theorem cmpStore_hi (hi : U32) :
    cmpStore target cmp (cmpHiAddr target, hi) = join 64 hi (low 32 cmp) :=
  if_pos rfl

theorem cmpStore_lo (lo : U32) :
    cmpStore target cmp (cmpLoAddr target, lo) = join 64 (high 32 cmp) lo := by
  have hne : cmpLoAddr target ≠ cmpHiAddr target := by cases target <;> decide
  unfold cmpStore
  rw [if_neg hne, if_pos rfl]

/-- The carry into the high half is the carry of the sum. -/
theorem cmpAfter_stores :
    cmpAfter target cmp (budgetStores target r ticks) =
      join 64 r.hi r.lo + ticks.setWidth 64 := by
  -- what the board writes behind the compare register leaves it alone
  have hbehind : ∀ c : U64, cmpStore .board (cmpStore .board (cmpStore .board c (STK_SR, 0))
      (PFIC_IPRR0, 1 <<< 12)) (PFIC_IENR0, 1 <<< 12) = c := by
    intro c
    rfl
  have hthree : cmpAfter target cmp (budgetStores target r ticks) =
      cmpStore target (cmpStore target (cmpStore target cmp (cmpHiAddr target, 0xFFFFFFFF))
        (cmpLoAddr target, r.lo + ticks))
        (cmpHiAddr target, if r.lo + ticks < r.lo then r.hi + 1 else r.hi) := by
    cases target with
    | qemu => rfl
    | board => exact hbehind _
  rw [hthree, cmpStore_hi, cmpStore_lo, cmpStore_hi, low_join two_words, join_add two_words]

/-- The first two stores leave the largest high half in place. -/
theorem cmpAfter_take {k : Nat} (h0 : 0 < k) (h3 : k < 3) :
    ∃ lo : U32, cmpAfter target cmp ((budgetStores target r ticks).take k) = join 64 0xFFFFFFFF lo := by
  obtain rfl | rfl : k = 1 ∨ k = 2 := by omega
  · exact ⟨low 32 cmp, cmpStore_hi target cmp _⟩
  · refine ⟨r.lo + ticks, ?_⟩
    show cmpStore target (cmpStore target cmp (cmpHiAddr target, 0xFFFFFFFF))
      (cmpLoAddr target, r.lo + ticks) = _
    rw [cmpStore_hi, cmpStore_lo, high_join two_words]

end Stores

/-- Later than any time whose high half is not the largest. -/
theorem lt_join_top {now : U64} (h : high 32 now < 0xFFFFFFFF) (lo : U32) :
    now < join 64 0xFFFFFFFF lo := by
  apply BitVec.not_le.mp
  rw [SplitCounter.le_iff two_words, high_join two_words, low_join two_words]
  rintro (hlt | ⟨heq, _⟩)
  · exact absurd (BitVec.lt_trans h hlt) (BitVec.lt_irrefl _)
  · exact absurd (heq ▸ h) (BitVec.lt_irrefl _)

/-! ## The reads -/

/-- The repeated read ends: each turn but the last moves on to a larger
    high half. -/
theorem stkTurn_ends (timer : Timer) (n : Nat) :
    ∃ fuel r, Exec.run (stkTurn timer) fuel n = some r := by
  have hturn : ∀ m m', True → stkTurn timer m = .inl m' →
      True ∧ 2 ^ 32 - (high 32 (timer.value m')).toNat <
        2 ^ 32 - (high 32 (timer.value m)).toNat := by
    intro m m' _ h
    unfold stkTurn at h
    dsimp only at h
    split at h
    · next hmoved =>
      obtain rfl := Sum.inl.inj h
      have hlt := BitVec.lt_def.mp (high_lt_of_ne two_words timer hmoved)
      have hbound := (high 32 (timer.value (m + 3))).isLt
      exact ⟨trivial, by omega⟩
    · cases h
  exact ⟨_, Exec.run_terminates _ hturn trivial (Nat.lt_succ_self _)⟩

/-- It ends with the value of the timer at the later of the two reads. -/
theorem stkTurn_exact {timer : Timer} {fuel n : Nat} {r : HalfReads}
    (h : Exec.run (stkTurn timer) fuel n = some r) :
    r.last = r.first + 1 ∧ join 64 r.hi r.lo = timer.value r.last := by
  obtain ⟨m, _, hstop⟩ := Exec.run_some h
  unfold stkTurn at hstop
  dsimp only at hstop
  split at hstop
  · cases hstop
  · next hsame =>
    obtain rfl := Sum.inr.inj hstop
    exact ⟨rfl, join_reread two_words (timer.rises m) (timer.rises (m + 1)) (not_not.mp hsame)⟩

/-! ## The deadline -/

/-- What arming is for.  The deadline is the budget after a value the timer
    may have had between the two reads, hence no later than the budget after
    the second; and until the last store the compare register stays ahead
    of the time. -/
structure ArmsDeadline (target : Target) (timer : Timer) (cmp : U64) (ticks : U32)
    (r : HalfReads) (stores : List (U32 × U32)) : Prop where
  between : ∃ t, timer.value r.first ≤ t ∧ t ≤ timer.value r.last ∧
    cmpAfter target cmp stores = t + ticks.setWidth 64
  slice : (timer.value r.last).toNat + ticks.toNat < 2 ^ 64 →
    (cmpAfter target cmp stores).toNat ≤ (timer.value r.last).toNat + ticks.toNat
  ahead : ∀ k now, 0 < k → k < 3 → high 32 now < 0xFFFFFFFF →
    now < cmpAfter target cmp (stores.take k)

/-- The reads end, and what is armed is the intended deadline. -/
def DeadlineIntended (target : Target) (timer : Timer) (n : Nat) (cmp : U64) (ticks : U32) : Prop :=
  ∃ fuel r stores, budgetArm target timer fuel n ticks = some (r, stores) ∧
    ArmsDeadline target timer cmp ticks r stores

theorem armsDeadline_iff {target : Target} {timer : Timer} {cmp : U64} {ticks : U32}
    {r : HalfReads} :
    ArmsDeadline target timer cmp ticks r (budgetStores target r ticks) ↔
      timer.value r.first ≤ join 64 r.hi r.lo ∧ join 64 r.hi r.lo ≤ timer.value r.last := by
  constructor
  · rintro ⟨⟨t, hfirst, hlast, hcmp⟩, _, _⟩
    rw [cmpAfter_stores] at hcmp
    rw [add_right_cancel hcmp]
    exact ⟨hfirst, hlast⟩
  · rintro ⟨hfirst, hlast⟩
    -- the value read is itself the `t` asked for
    refine ⟨⟨_, hfirst, hlast, cmpAfter_stores ..⟩, fun hroom => ?_, fun k now h0 h3 hnow => ?_⟩
    · have hticks : (ticks.setWidth 64).toNat = ticks.toNat :=
        BitVec.toNat_setWidth_of_le (by decide)
      rw [BitVec.le_def] at hlast
      rw [cmpAfter_stores, BitVec.toNat_add, hticks, Nat.mod_eq_of_lt (by omega)]
      omega
    · obtain ⟨lo, hlo⟩ := cmpAfter_take target cmp r ticks h0 h3
      rw [hlo]
      exact lt_join_top hnow lo

/-- **The budget deadline.**  On the board the deadline is always the
    intended one; on `QEMU_TARGET` it is when the low half of the timer has
    not fallen between its two reads. -/
theorem budgetArm_deadline_iff (target : Target) (timer : Timer) (n : Nat) (cmp : U64)
    (ticks : U32) :
    DeadlineIntended target timer n cmp ticks ↔
      target = .board ∨ low 32 (timer.value n) ≤ low 32 (timer.value (n + 1)) := by
  cases target with
  | board =>
    obtain ⟨fuel, r, hrun⟩ := stkTurn_ends timer n
    obtain ⟨hlast, hvalue⟩ := stkTurn_exact hrun
    refine iff_of_true
      ⟨fuel, r, budgetStores .board r ticks, ?_, armsDeadline_iff.mpr ?_⟩ (.inl rfl)
    · unfold budgetArm budgetReads
      rw [hrun]
      rfl
    · rw [hvalue, hlast]
      exact ⟨timer.rises r.first, BitVec.le_refl _⟩
  | qemu =>
    have harm : ∀ fuel, budgetArm .qemu timer fuel n ticks =
        some (mtimeRead timer n, budgetStores .qemu (mtimeRead timer n) ticks) := fun _ => rfl
    -- the torn value is never too early, only too late
    have hfirst := le_join_torn two_words (timer.rises n)
    constructor
    · rintro ⟨fuel, r, stores, hsome, harmed⟩
      obtain ⟨rfl, rfl⟩ := Prod.mk.inj (Option.some.inj ((harm fuel).symm.trans hsome))
      exact .inr ((join_torn_le_iff two_words).mp (armsDeadline_iff.mp harmed).2)
    · rintro (hboard | hlow)
      · cases hboard
      · exact ⟨0, _, _, harm 0, armsDeadline_iff.mpr
          ⟨hfirst, (join_torn_le_iff two_words).mpr hlow⟩⟩

/-- A wrap between the two reads of `QEMU_TARGET` is a deadline `2 ^ 32`
    ticks after the budget that began with the first. -/
theorem budgetArm_late {timer : Timer} {n : Nat} (cmp : U64) (ticks : U32)
    (h : high 32 (timer.value (n + 1)) = high 32 (timer.value n) + 1) :
    cmpAfter .qemu cmp (budgetStores .qemu (mtimeRead timer n) ticks) =
      timer.value n + 0x100000000 + ticks.setWidth 64 := by
  have hjoin : join 64 (mtimeRead timer n).hi (mtimeRead timer n).lo =
      timer.value n + 0x100000000 := join_torn_wrap two_words h
  rw [cmpAfter_stores, hjoin]

/-- A timer whose low half wraps after the first access. -/
def wrapping : Timer where
  value n := if n = 0 then 0xFFFFFFF0 else 0x100000010
  rises n := by
    cases n with
    | zero => decide
    | succ n => exact BitVec.le_refl _

theorem budgetArm_wrapping_late :
    cmpAfter .qemu 0xFFFFFFFFFFFFFFFF (budgetStores .qemu (mtimeRead wrapping 0) BUDGET_TICKS) =
        0x1FFFFFFF0 + 2000000 ∧
      ¬ DeadlineIntended .qemu wrapping 0 0xFFFFFFFFFFFFFFFF BUDGET_TICKS := by
  refine ⟨budgetArm_late _ _ (by decide), ?_⟩
  rintro ⟨fuel, r, stores, hsome, harmed⟩
  obtain ⟨rfl, rfl⟩ := Prod.mk.inj (Option.some.inj hsome)
  have hlast := (armsDeadline_iff.mp harmed).2
  exact absurd hlast (by decide)

end Interclus

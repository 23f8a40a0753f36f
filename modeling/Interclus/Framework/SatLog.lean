import Mathlib.Data.List.Induction
import Mathlib.Logic.Function.Basic

/-! # Saturating Logs

    A log of `n` entries with an index that stops at the last one: entries
    are recorded in order until the index is there, and from then on each
    replaces the last.  Nothing here knows what is logged. -/

universe u

/-- The next free entry, and the entries. -/
structure SatLog (α : Type u) where
  index : Nat
  entry : Nat → α

namespace SatLog

variable {α : Type u} {n : Nat} {l : SatLog α} {x : α} {xs : List α}

/-- Write at the index and move it on, up to `n - 1`. -/
def record (n : Nat) (l : SatLog α) (x : α) : SatLog α where
  index := if l.index + 1 < n then l.index + 1 else n - 1
  entry := Function.update l.entry l.index x

def records (n : Nat) (l : SatLog α) (xs : List α) : SatLog α := xs.foldl (record n) l

/-- The entry in front of the index. -/
def latest (l : SatLog α) : α := l.entry (l.index - 1)

theorem records_concat : l.records n (xs ++ [x]) = (l.records n xs).record n x := by
  simp only [records, List.foldl_append, List.foldl_cons, List.foldl_nil]

/-- The index counts what was recorded, as far as it goes. -/
theorem index_records (hn : 0 < n) (h : l.index = 0) :
    (l.records n xs).index = min xs.length (n - 1) := by
  induction xs using List.reverseRecOn with
  | nil =>
    rw [List.length_nil, Nat.zero_min]
    exact h
  | append_singleton xs x ih =>
    rw [records_concat, record, ih, List.length_append, List.length_singleton]
    dsimp only
    split <;> omega

/-- An entry in front of the last one keeps what was recorded there. -/
theorem entry_records (hn : 0 < n) (h : l.index = 0) {i : Nat} (hi : i < n - 1)
    (hlen : i < xs.length) : some ((l.records n xs).entry i) = xs[i]? := by
  induction xs using List.reverseRecOn with
  | nil => exact absurd hlen (Nat.not_lt_zero _)
  | append_singleton xs x ih =>
    have hindex : (l.records n xs).index = min xs.length (n - 1) := index_records hn h
    rw [List.length_append, List.length_singleton] at hlen
    rw [records_concat, record]
    dsimp only
    by_cases hlast : i < xs.length
    · -- the record went behind `i`
      have hne : i ≠ (l.records n xs).index := by omega
      rw [Function.update_of_ne hne, ih hlast, List.getElem?_append_left hlast]
    · have hi' : i = xs.length := by omega
      have heq : i = (l.records n xs).index := by omega
      rw [← heq, Function.update_self, hi', List.getElem?_concat_length]

/-- The entry in front of the index is the record just made, as long as the
    index moves; afterwards it is the last but one of the log. -/
theorem latest_record_iff (hn : 1 < n) (h : l.index = 0) :
    ((l.records n xs).record n x).latest = x ↔ xs.length < n - 1 ∨ xs[n - 2]? = some x := by
  have hindex : (l.records n xs).index = min xs.length (n - 1) :=
    index_records (Nat.lt_of_succ_lt hn) h
  unfold latest record
  dsimp only
  by_cases hlen : xs.length < n - 1
  · -- the index moves past the record, and the record is in front of it
    have hmoves : (l.records n xs).index + 1 < n := by omega
    rw [if_pos hmoves, Nat.add_sub_cancel, Function.update_self]
    exact iff_of_true rfl (.inl hlen)
  · have hstays : ¬ (l.records n xs).index + 1 < n := by omega
    have hne : n - 1 - 1 ≠ (l.records n xs).index := by omega
    have hentry : some ((l.records n xs).entry (n - 2)) = xs[n - 2]? :=
      entry_records (Nat.lt_of_succ_lt hn) h (by omega) (by omega)
    rw [if_neg hstays, Function.update_of_ne hne, ← hentry, Option.some_inj]
    exact (or_iff_right hlen).symm

end SatLog

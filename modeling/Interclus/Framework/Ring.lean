import Mathlib.Data.List.Basic

/-! # Rings

    A stream that passes through a ring of `n` slots.  The producer appends
    to the stream and the consumer takes from its front; position `i` of
    the stream lives in slot `i % n`, from when it is written to when it is
    taken. -/

namespace Ring

variable {α : Type u}

/-- The slots hold what is not taken of the stream. -/
structure Holds (n : Nat) (slots : Nat → α) (stream : List α) (rd : Nat) : Prop where
  taken : rd ≤ stream.length
  fits : stream.length ≤ rd + n
  slot : ∀ i a, rd ≤ i → stream[i]? = some a → slots (i % n) = a

variable {n : Nat} {slots slots' : Nat → α} {stream : List α} {rd : Nat}

/-- Positions less than a revolution apart are in different slots. -/
theorem mod_ne {i j : Nat} (hij : i < j) (hj : j < i + n) : i % n ≠ j % n := by
  intro h
  obtain ⟨k, rfl⟩ := Nat.exists_eq_add_of_lt hij
  have hsub := Nat.sub_mod_eq_zero_of_mod_eq h.symm
  rw [show i + k + 1 - i = k + 1 by omega, Nat.mod_eq_of_lt (by omega)] at hsub
  exact Nat.succ_ne_zero k hsub

theorem Holds.empty : Holds n slots ([] : List α) 0 :=
  ⟨Nat.le_refl _, Nat.zero_le _, fun i a _ h => by cases h⟩

/-- The consumer's slot. -/
theorem Holds.front (h : Holds n slots stream rd) (hlt : rd < stream.length) :
    stream[rd]? = some (slots (rd % n)) := by
  have hget := List.getElem?_eq_getElem hlt
  rw [hget, h.slot rd _ (Nat.le_refl _) hget]

/-- The consumer takes. -/
theorem Holds.take (h : Holds n slots stream rd) {rd' : Nat} (hle : rd ≤ rd')
    (hlen : rd' ≤ stream.length) : Holds n slots stream rd' := by
  refine ⟨hlen, ?_, fun i a hi ha => h.slot i a (Nat.le_trans hle hi) ha⟩
  have := h.fits
  omega

/-- The producer writes what comes next, and nothing else that is not
    taken. -/
theorem Holds.extend (h : Holds n slots stream rd) {more : List α}
    (hroom : stream.length + more.length ≤ rd + n)
    (hnew : ∀ j a, more[j]? = some a → slots' ((stream.length + j) % n) = a)
    (hold : ∀ i, rd ≤ i → i < stream.length → slots' (i % n) = slots (i % n)) :
    Holds n slots' (stream ++ more) rd := by
  have htaken := h.taken
  refine ⟨?_, ?_, fun i a hi ha => ?_⟩
  · rw [List.length_append]
    omega
  · rw [List.length_append]
    exact hroom
  · by_cases hlt : i < stream.length
    · rw [List.getElem?_append_left hlt] at ha
      rw [hold i hi hlt]
      exact h.slot i a hi ha
    · rw [List.getElem?_append_right (by omega)] at ha
      have hval := hnew (i - stream.length) a ha
      rwa [show stream.length + (i - stream.length) = i by omega] at hval

/-- The producer writes one element. -/
theorem Holds.put (h : Holds n slots stream rd) (a : α) (hroom : stream.length < rd + n)
    (hnew : slots' (stream.length % n) = a)
    (hold : ∀ k, k ≠ stream.length % n → slots' k = slots k) :
    Holds n slots' (stream ++ [a]) rd := by
  refine h.extend hroom (fun j b hj => ?_) (fun i hi hlt => ?_)
  · cases j with
    | zero =>
      obtain rfl : a = b := Option.some.inj hj
      exact hnew
    | succ j => cases hj
  · exact hold _ (mod_ne hlt (by omega))

/-- Slots read while the consumer stands still keep their elements, however
    far the producer goes. -/
theorem Holds.kept (h : Holds n slots stream rd) {more : List α}
    (h' : Holds n slots' (stream ++ more) rd) {i : Nat} (hi : rd ≤ i) (hlt : i < stream.length) :
    slots' (i % n) = slots (i % n) := by
  have hget := List.getElem?_eq_getElem hlt
  rw [h.slot i _ hi hget]
  exact h'.slot i _ hi (by rw [List.getElem?_append_left hlt, hget])

end Ring

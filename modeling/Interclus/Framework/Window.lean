import Interclus.Framework.Words

/-! # Windows

    A memory that can be read in part: a read outside the window fails, and
    so does the computation that made it.  A computation over a window that
    succeeds has read inside it only. -/

namespace Words

/-- What a read at an index gives, if it is allowed. -/
abbrev Window : Type := Nat → Option U8

/-- The first `n` bytes of a memory. -/
def window (m : Mem) (n : Nat) : Window := fun i => if i < n then some (m i) else none

@[simp] theorem window_read {m : Mem} {n i : Nat} (h : i < n) : window m n i = some (m i) :=
  if_pos h

/-- The window holds nothing else of the memory. -/
theorem window_congr {m₁ m₂ : Mem} {n : Nat} (h : ∀ i < n, m₁ i = m₂ i) :
    window m₁ n = window m₂ n := by
  funext i
  unfold window
  split
  · next hi => rw [h i hi]
  · rfl

/-! ## Little-endian reads -/

def read16 (w : Window) (i : Nat) : Option U16 := do
  let a ← w i
  let b ← w (i + 1)
  return a.setWidth 16 ||| b.setWidth 16 <<< 8

def read32 (w : Window) (i : Nat) : Option U32 := do
  let a ← w i
  let b ← w (i + 1)
  let c ← w (i + 2)
  let d ← w (i + 3)
  return a.setWidth 32 ||| b.setWidth 32 <<< 8 ||| c.setWidth 32 <<< 16 ||| d.setWidth 32 <<< 24

@[simp] theorem read16_window {m : Mem} {n i : Nat} (h : i + 1 < n) :
    read16 (window m n) i = some (le16 m i) := by
  simp [read16, le16, h, show i < n by omega]

@[simp] theorem read32_window {m : Mem} {n i : Nat} (h : i + 3 < n) :
    read32 (window m n) i = some (le32 m i) := by
  simp [read32, le32, h, show i < n by omega, show i + 1 < n by omega, show i + 2 < n by omega]

/-! ## Loops -/

section Loops
variable {α : Type} {β : Type}

/-- A loop whose every read is allowed. -/
theorem foldlM_some {f : β → α → Option β} {g : β → α → β} {l : List α}
    (h : ∀ b, ∀ a ∈ l, f b a = some (g b a)) (b : β) : l.foldlM f b = some (l.foldl g b) := by
  induction l generalizing b with
  | nil => rfl
  | cons a l ih =>
    rw [List.foldlM_cons, h b a List.mem_cons_self]
    exact ih (fun b a ha => h b a (List.mem_cons_of_mem _ ha)) (g b a)

theorem mapM_some {f : α → Option β} {g : α → β} {l : List α} (h : ∀ a ∈ l, f a = some (g a)) :
    l.mapM f = some (l.map g) := by
  induction l with
  | nil => rfl
  | cons a l ih =>
    rw [List.mapM_cons, h a List.mem_cons_self, ih fun a ha => h a (List.mem_cons_of_mem _ ha)]
    rfl

/-- A loop that stops at the first mismatch. -/
theorem allM_some {f : α → Option Bool} {g : α → Bool} {l : List α}
    (h : ∀ a ∈ l, f a = some (g a)) : l.allM f = some (l.all g) := by
  induction l with
  | nil => rfl
  | cons a l ih =>
    -- the loop goes on behind a match only
    have hrest := ih fun a ha => h a (List.mem_cons_of_mem _ ha)
    rw [List.allM, h a List.mem_cons_self, List.all_cons]
    cases g a with
    | false => rfl
    | true => exact hrest

end Loops

end Words

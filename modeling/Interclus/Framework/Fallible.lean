import Mathlib.Data.List.Forall2

/-! # Programs That Can Fail

    What it takes for a computation in `Except` to succeed: of a sequence,
    of a guard, of a pass over a list, and of a loop that appends one result
    for each item. -/

namespace Fallible

variable {ε : Type u} {α β : Type v}

/-- Fails with `e` where `p` holds. -/
def failIf (p : Prop) [Decidable p] (e : ε) : Except ε PUnit := if p then .error e else .ok ⟨⟩

theorem failIf_ok {p : Prop} [Decidable p] {e : ε} {u : PUnit} :
    failIf p e = .ok u ↔ ¬ p := by
  unfold failIf
  split
  · next h => exact ⟨fun hok => (by cases hok), fun hnot => absurd h hnot⟩
  · next h => exact ⟨fun _ => h, fun _ => rfl⟩

theorem bind_ok {x : Except ε α} {f : α → Except ε β} {b : β} :
    x >>= f = .ok b ↔ ∃ a, x = .ok a ∧ f a = .ok b := by
  cases x with
  | error e => exact ⟨fun h => (by cases h), fun ⟨_, h, _⟩ => (by cases h)⟩
  | ok a => exact ⟨fun h => ⟨a, rfl, h⟩, fun ⟨_, ha, h⟩ => (by cases ha; exact h)⟩

theorem forM_ok {f : α → Except ε PUnit} {l : List α} {u : PUnit} :
    forM l f = .ok u ↔ ∀ a ∈ l, f a = .ok ⟨⟩ := by
  induction l with
  | nil => exact ⟨fun _ a ha => (by cases ha), fun _ => rfl⟩
  | cons a l ih =>
    rw [List.forM_cons, bind_ok, List.forall_mem_cons, ← ih]
    exact ⟨fun ⟨⟨⟩, ha, hl⟩ => ⟨ha, hl⟩, fun ⟨ha, hl⟩ => ⟨⟨⟩, ha, hl⟩⟩

theorem mapM_ok {f : α → Except ε β} {l : List α} {bs : List β} :
    l.mapM f = .ok bs ↔ List.Forall₂ (fun a b => f a = .ok b) l bs := by
  induction l generalizing bs with
  | nil =>
    rw [List.mapM_nil, List.forall₂_nil_left_iff]
    exact ⟨fun h => (by cases h; rfl), fun h => (by rw [h]; rfl)⟩
  | cons a l ih =>
    rw [List.mapM_cons, List.forall₂_cons_left_iff, bind_ok]
    simp only [bind_ok, ih]
    constructor
    · rintro ⟨b, hb, bs', hbs, h⟩
      cases h
      exact ⟨b, bs', hb, hbs, rfl⟩
    · rintro ⟨b, bs', hb, hbs, rfl⟩
      exact ⟨b, hb, bs', hbs, rfl⟩

section Related
variable {R : α → β → Prop} {l : List α} {bs : List β}

theorem related_left (h : List.Forall₂ R l bs) {a : α} (ha : a ∈ l) : ∃ b ∈ bs, R a b := by
  induction h with
  | nil => cases ha
  | @cons a' b l bs hab _ ih =>
    rcases List.mem_cons.mp ha with rfl | ha
    · exact ⟨b, List.mem_cons_self, hab⟩
    · obtain ⟨b', hb', hR⟩ := ih ha
      exact ⟨b', List.mem_cons_of_mem b hb', hR⟩

theorem related_right (h : List.Forall₂ R l bs) {b : β} (hb : b ∈ bs) : ∃ a ∈ l, R a b :=
  related_left h.flip hb

end Related

/-- A loop that appends to what it has a result related to its item. -/
theorem foldlM_ok {f : List β → α → Except ε (List β)} {R : α → β → Prop}
    (hstep : ∀ acc a acc', f acc a = .ok acc' → ∃ b, acc' = acc ++ [b] ∧ R a b)
    {l : List α} {acc acc' : List β} (h : l.foldlM f acc = .ok acc') :
    ∃ bs, acc' = acc ++ bs ∧ List.Forall₂ R l bs := by
  induction l generalizing acc with
  | nil =>
    cases h
    exact ⟨[], (List.append_nil _).symm, .nil⟩
  | cons a l ih =>
    rw [List.foldlM_cons] at h
    obtain ⟨acc₁, h₁, hrest⟩ := bind_ok.mp h
    obtain ⟨b, rfl, hb⟩ := hstep acc a acc₁ h₁
    obtain ⟨bs, rfl, hbs⟩ := ih hrest
    exact ⟨b :: bs, by rw [List.append_assoc]; rfl, .cons hb hbs⟩

end Fallible

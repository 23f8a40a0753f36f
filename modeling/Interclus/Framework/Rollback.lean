/-! # One-Step Rollback

    A live item, a shadow of the item it replaced, and trials of the live
    one.  An item that fails its trial is struck: the shadow goes live and
    is used up.  When items are installed only over a live one that had its
    trial, what a strike brings back has passed one, and what was struck
    stays out until it is brought in again. -/

namespace Rollback

variable {α : Type u}

structure Slots (α : Type u) where
  live : Option α
  shadow : Option α

def Slots.install (s : Slots α) (a : α) : Slots α := ⟨some a, s.live⟩

def Slots.strike (s : Slots α) : Slots α := ⟨s.shadow, none⟩

/-- The slots, whether the live item has had its trial, and the items that
    passed one, in order. -/
structure Trials (α : Type u) where
  slots : Slots α
  tried : Prop
  passed : List α

/-- Steps, labelled with the item they bring in from outside; `ok` is what a
    trial tests. -/
inductive Step (ok : α → Prop) (t : Trials α) : Option α → Trials α → Prop where
  | idle (tried : Prop) : (tried → t.tried) → Step ok t none ⟨t.slots, tried, t.passed⟩
  | pass (tried : Prop) : (∀ a ∈ t.slots.live, ok a) →
      Step ok t none ⟨t.slots, tried, t.passed ++ t.slots.live.toList⟩
  | strike (tried : Prop) : (∀ a ∈ t.slots.live, ¬ ok a) →
      Step ok t none ⟨t.slots.strike, tried, t.passed⟩
  | install (a : α) (tried : Prop) : t.tried → ¬ tried →
      Step ok t (some a) ⟨t.slots.install a, tried, t.passed⟩
  /-- A new session. -/
  | restart (live : Option α) (tried : Prop) : ¬ tried → Step ok t live ⟨⟨live, none⟩, tried, []⟩

/-- An item that passed is good; the live one has passed once it was tried,
    and the shadow always has. -/
structure Inv (ok : α → Prop) (t : Trials α) : Prop where
  live : t.tried → ∀ a ∈ t.slots.live, a ∈ t.passed
  shadow : ∀ a ∈ t.slots.shadow, a ∈ t.passed
  passed : ∀ a ∈ t.passed, ok a

/-- In neither slot. -/
structure Slots.Avoids (s : Slots α) (a : α) : Prop where
  live : s.live ≠ some a
  shadow : s.shadow ≠ some a

section Steps
variable {ok : α → Prop} {t t' : Trials α}

/-- A new session has tried nothing. -/
theorem Inv.fresh (live : Option α) {tried : Prop} (h : ¬ tried) :
    Inv ok ⟨⟨live, none⟩, tried, []⟩ where
  live ht := absurd ht h
  shadow _ ha := by cases ha
  passed _ ha := by cases ha

/-- A step keeps the shadow among the items that passed, and the live one
    too once it was tried. -/
theorem Step.inv {l : Option α} (h : Step ok t l t') (hinv : Inv ok t) : Inv ok t' := by
  cases h with
  | idle tried htried => exact ⟨fun ht => hinv.live (htried ht), hinv.shadow, hinv.passed⟩
  | pass tried hok =>
    refine ⟨fun _ a ha => ?_, fun a ha => List.mem_append_left _ (hinv.shadow a ha), fun a ha => ?_⟩
    · exact List.mem_append_right _ (Option.mem_toList.mpr ha)
    · rcases List.mem_append.mp ha with ha | ha
      · exact hinv.passed a ha
      · exact hok a (Option.mem_toList.mp ha)
  | strike tried _ => exact ⟨fun _ => hinv.shadow, fun a ha => (by cases ha), hinv.passed⟩
  | install a tried ht hnot =>
    exact ⟨fun ht' => absurd ht' hnot, hinv.live ht, hinv.passed⟩
  | restart _ _ hnot => exact .fresh _ hnot

/-- An item in neither slot stays out of a step that does not bring it in. -/
theorem Step.avoids {l : Option α} (h : Step ok t l t') {a : α} (hl : l ≠ some a)
    (hout : t.slots.Avoids a) : t'.slots.Avoids a := by
  cases h with
  | idle | pass => exact hout
  | strike => exact ⟨hout.shadow, fun heq => by cases heq⟩
  | install => exact ⟨hl, hout.live⟩
  | restart => exact ⟨hl, fun heq => by cases heq⟩

/-- A bad item is in neither slot once it is struck. -/
theorem Inv.avoids_strike (h : Inv ok t) {a : α} (hbad : ¬ ok a) : t.slots.strike.Avoids a :=
  ⟨fun heq => hbad (h.passed a (h.shadow a heq)), fun heq => by cases heq⟩

end Steps

end Rollback

import Mathlib.Order.SupClosed
import Interclus.Framework.Worklist

/-! # Worklist Iteration Against All Paths

    What the worklist loop computes, in terms of the paths of the graph:
    each path from the entry node carries a value to the node it ends in,
    and for a transfer function that distributes over meets the loop
    accepts with the greatest lower bound of these at every node.

    On the way there the loop checks nodes at values above that bound.
    `val_le_path_below` and `first_check` say how far above: a node is
    checked below the values of the paths that come through lower-numbered
    nodes, and when there is no such path, it is first checked at a value
    no path has contributed to. -/

namespace Worklist

/-! ## Paths -/

/-- The nodes a path reaches from the entry, when each node it leaves is one
    of `through`. -/
inductive Reached (succs : Nat → List Nat) (through : Nat → Prop) : Nat → Prop where
  | entry : Reached succs through 0
  | step : ∀ {i s}, Reached succs through i → through i → s ∈ succs i → Reached succs through s

theorem Reached.mono {succs : Nat → List Nat} {P Q : Nat → Prop} (hPQ : ∀ i, P i → Q i) {i : Nat}
    (h : Reached succs P i) : Reached succs Q i := by
  induction h with
  | entry => exact .entry
  | step _ ht hs ih => exact ih.step (hPQ _ ht) hs

section Paths
variable {L : Type u}

/-- The values paths carry from the entry, where `v₀` enters, to a node. -/
inductive PathVal (A : Analysis L) (through : Nat → Prop) (v₀ : L) : Nat → L → Prop where
  | entry : PathVal A through v₀ 0 v₀
  | step : ∀ {i s v}, PathVal A through v₀ i v → through i → s ∈ A.succs i →
      PathVal A through v₀ s (A.out i v)

/-- The values of all paths inside the graph that end in a node. -/
def pathVals (A : Analysis L) (n : Nat) (v₀ : L) (i : Nat) : Set L :=
  {v | PathVal A (· < n) v₀ i v}

theorem Reached.pathVal {A : Analysis L} {through : Nat → Prop} {i : Nat}
    (h : Reached A.succs through i) (v₀ : L) : ∃ v, PathVal A through v₀ i v := by
  induction h with
  | entry => exact ⟨v₀, .entry⟩
  | step _ ht hs ih =>
    obtain ⟨v, hv⟩ := ih
    exact ⟨_, hv.step ht hs⟩

theorem PathVal.mono {A : Analysis L} {P Q : Nat → Prop} (hPQ : ∀ i, P i → Q i) {v₀ v : L} {i : Nat}
    (h : PathVal A P v₀ i v) : PathVal A Q v₀ i v := by
  induction h with
  | entry => exact .entry
  | step _ ht hs ih => exact ih.step (hPQ _ ht) hs

/-- What the entry value has and the transfer function keeps, the values of
    all paths have. -/
theorem PathVal.forall {A : Analysis L} {through : Nat → Prop} {v₀ : L} {P : L → Prop} (h₀ : P v₀)
    (hout : ∀ i v, P v → P (A.out i v)) {i : Nat} {v : L} (h : PathVal A through v₀ i v) : P v := by
  induction h with
  | entry => exact h₀
  | step _ _ _ ih => exact hout _ _ ih

end Paths

/-! ## The loop stays below the paths it has followed -/

section Below
variable {L : Type u} [SemilatticeInf L] {A : Analysis L} {n : Nat} {v₀ : L}

/-- Along a path through stable nodes the values are below the path's. -/
theorem val_le_path (hmono : ∀ i, Monotone (A.out i)) {st : State L} (h₀ : st.val 0 ≤ v₀)
    {through : Nat → Prop} (hstable : ∀ i, through i → Stable A n st i) {i : Nat} {v : L}
    (h : PathVal A through v₀ i v) : st.val i ≤ v := by
  induction h with
  | entry => exact h₀
  | step _ ht hs ih => exact ((hstable _ ht).val_le _ hs).trans (hmono _ ih)

variable [DecidableEq L]

/-- The lowest pending node comes first: the node checked next is below the
    values of the paths through the nodes before it. -/
theorem val_le_path_below (hmono : ∀ i, Monotone (A.out i)) {st₀ st : State L}
    (hpend : ∀ i, i < n → st₀.pending i = true) (h₀ : st₀.val 0 ≤ v₀)
    (hreach : Exec.Reaches (step A n) st₀ st) {i : Nat}
    (hfirst : firstPending n st.pending = some i) {v : L} (h : PathVal A (· < i) v₀ i v) :
    st.val i ≤ v := by
  obtain ⟨hi, -, hlower⟩ := firstPending_some hfirst
  have hsettled : Settled A n st :=
    hreach.invariant (fun _ _ hs hstep => step_settled hs hstep)
      (fun i hi hp => absurd (hpend i hi) (by simp [hp]))
  have hle : st.val 0 ≤ st₀.val 0 :=
    hreach.invariant (I := fun st => st.val 0 ≤ st₀.val 0)
      (fun _ _ hs hstep => (step_val_le hstep 0).trans hs) (le_refl _)
  exact val_le_path hmono (hle.trans h₀)
    (fun j hj => hsettled j (Nat.lt_trans hj hi) (hlower j hj)) h

end Below

/-! ## The loop stays above the meet of all paths -/

section Above
variable {L : Type u} [SemilatticeInf L] {A : Analysis L} {n : Nat} {v₀ : L}

/-- A value that some paths to the node bring about. -/
def AbovePaths (A : Analysis L) (n : Nat) (v₀ : L) (i : Nat) (v : L) : Prop :=
  ∃ m ∈ infClosure (pathVals A n v₀ i), m ≤ v

theorem AbovePaths.inf {i : Nat} {v w : L} (hv : AbovePaths A n v₀ i v)
    (hw : AbovePaths A n v₀ i w) : AbovePaths A n v₀ i (v ⊓ w) := by
  obtain ⟨a, ha, hav⟩ := hv
  obtain ⟨b, hb, hbw⟩ := hw
  exact ⟨a ⊓ b, infClosed_infClosure ha hb, inf_le_inf hav hbw⟩

/-- A finite meet of path values is passed on to one of the paths that go
    one step further. -/
theorem AbovePaths.out (hinf : ∀ i a b, A.out i (a ⊓ b) = A.out i a ⊓ A.out i b) {i : Nat}
    (hi : i < n) {v : L} (h : AbovePaths A n v₀ i v) {s : Nat} (hs : s ∈ A.succs i) :
    AbovePaths A n v₀ s (A.out i v) := by
  obtain ⟨m, hm, hmv⟩ := h
  have hclosed : InfClosed {w | A.out i w ∈ infClosure (pathVals A n v₀ s)} := by
    intro a ha b hb
    show A.out i (a ⊓ b) ∈ infClosure (pathVals A n v₀ s)
    rw [hinf]
    exact infClosed_infClosure ha hb
  have hsub : pathVals A n v₀ i ⊆ {w | A.out i w ∈ infClosure (pathVals A n v₀ s)} :=
    fun w hw => subset_infClosure (PathVal.step hw hi hs)
  refine ⟨A.out i m, infClosure_min hsub hclosed hm, ?_⟩
  rw [← inf_eq_left, ← hinf, inf_eq_left.mpr hmv]

/-- A lower bound of the paths' values is below every value above them. -/
theorem AbovePaths.le {i : Nat} {v w : L} (h : AbovePaths A n v₀ i v)
    (hw : w ∈ lowerBounds (pathVals A n v₀ i)) : w ≤ v := by
  obtain ⟨m, hm, hmv⟩ := h
  rw [← lowerBounds_infClosure] at hw
  exact (hw hm).trans hmv

variable [DecidableEq L]

/-- Every value a run passes through stays above the paths. -/
theorem reaches_abovePaths (hinf : ∀ i a b, A.out i (a ⊓ b) = A.out i a ⊓ A.out i b)
    {st₀ st : State L} (hreach : Exec.Reaches (step A n) st₀ st)
    (h₀ : ∀ i, i < n → AbovePaths A n v₀ i (st₀.val i)) {i : Nat} (hi : i < n) :
    AbovePaths A n v₀ i (st.val i) := by
  have hall : ∀ i, i < n → AbovePaths A n v₀ i (st.val i) := by
    refine reaches_forall (P := fun i v => i < n → AbovePaths A n v₀ i v)
      (fun i v w hv hw hi => (hv hi).inf (hw hi)) (fun i v hi hv s hs _ => ?_) hreach h₀
    exact (hv hi).out hinf hi hs
  exact hall i hi

/-- **The loop computes the meet over all paths** when it accepts. -/
theorem run_accepts_isGLB (hinf : ∀ i a b, A.out i (a ⊓ b) = A.out i a ⊓ A.out i b)
    {st₀ : State L} (hpend : ∀ i, i < n → st₀.pending i = true) (hentry : st₀.val 0 ≤ v₀)
    (h₀ : ∀ i, i < n → AbovePaths A n v₀ i (st₀.val i)) {fuel : Nat}
    (hrun : run A n fuel st₀ = some true) :
    ∀ i, i < n → ∃ v, IsGLB (pathVals A n v₀ i) v ∧ A.check i v = true ∧ ∀ s ∈ A.succs i, s < n := by
  obtain ⟨st, hreach, hle, hstable⟩ := run_accepts hpend hrun
  have hmono : ∀ i, Monotone (A.out i) := fun i a b hab => by
    rw [← inf_eq_left, ← hinf, inf_eq_left.mpr hab]
  intro i hi
  refine ⟨st.val i, ⟨fun v hv => ?_, fun w hw => ?_⟩, (hstable i hi).check, (hstable i hi).succ_lt⟩
  · exact val_le_path hmono ((hle 0).trans hentry) hstable hv
  · exact (reaches_abovePaths hinf hreach h₀ hi).le hw

end Above

/-! ## The first check of a node -/

section First
variable {L : Type u} [SemilatticeInf L] [DecidableEq L] {A : Analysis L} {n : Nat}

/-- Node `i` has not been checked yet, and neither it nor a node before it
    has a value from a path, unless through nodes before `i`. -/
structure Unvisited (A : Analysis L) (P : L → Prop) (i : Nat) (st : State L) : Prop where
  pending : st.pending i = true
  fresh : ∀ k, k ≤ i → ¬ Reached A.succs (· < i) k → P (st.val k)

/-- Step lemma: only lower nodes come before `i`, and none of those reached
    passes a value on to `i`. -/
theorem Unvisited.step {P : L → Prop} (hinf : ∀ v w, P v → P w → P (v ⊓ w))
    (hout : ∀ i v, P v → P (A.out i v)) {i : Nat} (hi : i < n)
    (hbelow : ¬ Reached A.succs (· < i) i) {st st' : State L} (h : Unvisited A P i st)
    (hstep : step A n st = .inl st') :
    Unvisited A P i st' ∨ ∃ v, P v ∧ A.check i v = true := by
  obtain ⟨pc, hf, hc, hpr⟩ := step_inl hstep
  obtain ⟨hpc, -, hlower⟩ := firstPending_some hf
  rcases Nat.lt_trichotomy pc i with hlt | rfl | hgt
  · left
    refine ⟨?_, ?_⟩
    · have hquiet := (propagate_lowers hpr).1.quiet i
      dsimp only at hquiet
      rw [Function.update_of_ne (Nat.ne_of_gt hlt), h.pending] at hquiet
      cases hp : st'.pending i with
      | true => rfl
      | false => exact absurd (hquiet hp).1 (by decide)
    · have hall : ∀ k, k ≤ i → ¬ Reached A.succs (· < i) k → P (st'.val k) := by
        refine propagate_forall (P := fun k v => k ≤ i → ¬ Reached A.succs (· < i) k → P v)
          (fun k v w hv hw hk hr => hinf v w (hv hk hr) (hw hk hr)) (fun s hs _ hr => ?_) hpr
          h.fresh
        exact hout pc _ (h.fresh pc (Nat.le_of_lt hlt) fun hreached => hr (hreached.step hlt hs))
      exact hall
  · exact .inr ⟨_, h.fresh pc (Nat.le_refl pc) hbelow, hc⟩
  · have := hlower i hgt
    rw [h.pending] at this
    cases this

/-- Run lemma: when no path comes to `i` through lower-numbered nodes, the
    loop accepts only if `i` passes its check at a value without a path's
    contribution. -/
theorem first_check {P : L → Prop} (hinf : ∀ v w, P v → P w → P (v ⊓ w))
    (hout : ∀ i v, P v → P (A.out i v)) {i : Nat} (hi : i < n)
    (hbelow : ¬ Reached A.succs (· < i) i) {st₀ : State L} (h₀ : Unvisited A P i st₀) {fuel : Nat}
    (hrun : run A n fuel st₀ = some true) : ∃ v, P v ∧ A.check i v = true := by
  obtain ⟨st, hreach, hstop⟩ := Exec.run_some hrun
  have hinv : Unvisited A P i st ∨ ∃ v, P v ∧ A.check i v = true := by
    refine hreach.invariant (I := fun st => Unvisited A P i st ∨ ∃ v, P v ∧ A.check i v = true)
      (fun s s' hs hstep => ?_) (.inl h₀)
    rcases hs with hs | hdone
    · exact hs.step hinf hout hi hbelow hstep
    · exact .inr hdone
  rcases hinv with hun | hdone
  · have := step_inr_true hstop i hi
    rw [hun.pending] at this
    cases this
  · exact hdone

end First

end Worklist

import Mathlib.Algebra.BigOperators.Group.Finset.Basic
import Mathlib.Algebra.Order.BigOperators.Group.Finset
import Mathlib.Order.Lattice
import Interclus.Framework.System

/-! # Worklist Iteration

    A forward dataflow analysis over the nodes `0 .. n-1` of a graph, with
    values in a meet-semilattice.  The loop takes the first pending node,
    checks its value, and meets the node's out-value into each successor;
    a successor whose value changes becomes pending again.  A failed check
    or a successor outside the graph rejects the graph.

    Main results:

    * `run_accepts`: when the loop accepts, every node passes its check at
      its final value and the final values are a post-fixed point.
    * `reaches_forall`: predicates closed under meets and transfer hold of
      every value the loop passes through.
    * `run_terminates`: with a rank on the values, a computable amount of
      fuel is always enough.
-/

namespace Worklist

/-! ## The loop -/

/-- What the loop does at a node: the check on the node's value, the value
    it passes on, and where control may go next. -/
structure Analysis (L : Type u) where
  check : Nat → L → Bool
  out : Nat → L → L
  succs : Nat → List Nat

/-- Node values and pending flags. -/
structure State (L : Type u) where
  val : Nat → L
  pending : Nat → Bool

section Loop
variable {L : Type u} [SemilatticeInf L] [DecidableEq L]

/-- Meet `o` into node `s`, which becomes pending if its value changes. -/
def merge (st : State L) (s : Nat) (o : L) : State L :=
  let merged := st.val s ⊓ o
  if merged ≠ st.val s then
    { val := Function.update st.val s merged
      pending := Function.update st.pending s true }
  else st

/-- Meet `o` into each successor in turn; `none` at one outside the graph. -/
def propagate (n : Nat) (o : L) : List Nat → State L → Option (State L)
  | [], st => some st
  | s :: ss, st => if s < n then propagate n o ss (merge st s o) else none

def firstPending (n : Nat) (pending : Nat → Bool) : Option Nat :=
  (List.range n).find? pending

/-- One round: `inr true` at the fixed point, `inr false` on a rejection. -/
def step (A : Analysis L) (n : Nat) (st : State L) : State L ⊕ Bool :=
  match firstPending n st.pending with
  | none => .inr true
  | some pc =>
    if A.check pc (st.val pc) then
      match propagate n (A.out pc (st.val pc)) (A.succs pc)
          { st with pending := Function.update st.pending pc false } with
      | some st' => .inl st'
      | none => .inr false
    else .inr false

def run (A : Analysis L) (n : Nat) (fuel : Nat) (st : State L) : Option Bool :=
  Exec.run (step A n) fuel st

/-- The loop looks at the analysis inside the graph only. -/
theorem step_congr {A B : Analysis L} {n : Nat}
    (h : ∀ pc < n, A.check pc = B.check pc ∧ A.out pc = B.out pc ∧ A.succs pc = B.succs pc)
    (st : State L) : step A n st = step B n st := by
  unfold step
  cases hpc : firstPending n st.pending with
  | none => rfl
  | some pc =>
    obtain ⟨hcheck, hout, hsuccs⟩ := h pc (List.mem_range.mp (List.mem_of_find?_eq_some hpc))
    simp only [hcheck, hout, hsuccs]

theorem run_congr {A B : Analysis L} {n : Nat}
    (h : ∀ pc < n, A.check pc = B.check pc ∧ A.out pc = B.out pc ∧ A.succs pc = B.succs pc)
    (fuel : Nat) (st : State L) : run A n fuel st = run B n fuel st := by
  unfold run
  rw [funext (step_congr h)]

end Loop

/-! ## Rounds only go down -/

section Order
variable {L : Type u} [SemilatticeInf L]

/-- `st'` comes from `st` by lowering values; a node not pending afterwards
    was not pending before and kept its value. -/
structure Lowers (st st' : State L) : Prop where
  val_le : ∀ i, st'.val i ≤ st.val i
  quiet : ∀ i, st'.pending i = false → st.pending i = false ∧ st'.val i = st.val i

theorem Lowers.refl (st : State L) : Lowers st st :=
  ⟨fun _ => le_refl _, fun _ h => ⟨h, rfl⟩⟩

theorem Lowers.trans {st₁ st₂ st₃ : State L} (h₁₂ : Lowers st₁ st₂) (h₂₃ : Lowers st₂ st₃) :
    Lowers st₁ st₃ := by
  refine ⟨fun i => (h₂₃.val_le i).trans (h₁₂.val_le i), fun i hi => ?_⟩
  obtain ⟨hp, hv⟩ := h₂₃.quiet i hi
  obtain ⟨hp', hv'⟩ := h₁₂.quiet i hp
  exact ⟨hp', hv.trans hv'⟩

end Order

section Rounds
variable {L : Type u} [SemilatticeInf L] [DecidableEq L]

theorem merge_lowers (st : State L) (s : Nat) (o : L) : Lowers st (merge st s o) := by
  unfold merge
  by_cases h : st.val s ⊓ o ≠ st.val s
  · rw [if_pos h]
    refine ⟨fun i => ?_, fun i hi => ?_⟩
    · by_cases his : i = s
      · subst his; simp
      · simp [Function.update_of_ne his]
    · by_cases his : i = s
      · subst his; simp at hi
      · simpa [Function.update_of_ne his] using hi
  · rw [if_neg h]; exact .refl st

theorem merge_val_le (st : State L) (s : Nat) (o : L) : (merge st s o).val s ≤ o := by
  unfold merge
  by_cases h : st.val s ⊓ o ≠ st.val s
  · rw [if_pos h]; simp
  · rw [if_neg h]; exact inf_eq_left.mp (not_not.mp h)

theorem propagate_lowers {n : Nat} {o : L} {ss : List Nat} {st st' : State L}
    (h : propagate n o ss st = some st') :
    Lowers st st' ∧ ∀ s ∈ ss, s < n ∧ st'.val s ≤ o := by
  induction ss generalizing st with
  | nil =>
    obtain rfl : st = st' := Option.some.inj h
    exact ⟨.refl st, by simp⟩
  | cons s ss ih =>
    rw [propagate] at h
    split at h
    · next hs =>
      obtain ⟨hlow, hss⟩ := ih h
      refine ⟨(merge_lowers st s o).trans hlow, fun t ht => ?_⟩
      rcases List.mem_cons.mp ht with rfl | ht
      · exact ⟨hs, (hlow.val_le t).trans (merge_val_le st t o)⟩
      · exact hss t ht
    · cases h

/-! ## Settled nodes -/

/-- Node `i` passes its check and its out-value has reached its successors. -/
structure Stable (A : Analysis L) (n : Nat) (st : State L) (i : Nat) : Prop where
  check : A.check i (st.val i) = true
  succ_lt : ∀ s ∈ A.succs i, s < n
  val_le : ∀ s ∈ A.succs i, st.val s ≤ A.out i (st.val i)

/-- Every node that is not pending is stable. -/
def Settled (A : Analysis L) (n : Nat) (st : State L) : Prop :=
  ∀ i, i < n → st.pending i = false → Stable A n st i

theorem firstPending_none {n : Nat} {pending : Nat → Bool}
    (h : firstPending n pending = none) : ∀ i, i < n → pending i = false := by
  intro i hi
  have := List.find?_eq_none.mp h i (List.mem_range.mpr hi)
  simpa using this

theorem firstPending_some {n pc : Nat} {pending : Nat → Bool}
    (h : firstPending n pending = some pc) :
    pc < n ∧ pending pc = true ∧ ∀ j, j < pc → pending j = false := by
  obtain ⟨hp, hlt, hlower⟩ := List.find?_range_eq_some.mp h
  exact ⟨List.mem_range.mp hlt, hp, fun j hj => by simpa using hlower j hj⟩

/-- What a round that continues has done: it took the first pending node,
    which passed its check, and propagated its out-value. -/
theorem step_inl {A : Analysis L} {n : Nat} {st st' : State L} (h : step A n st = .inl st') :
    ∃ pc, firstPending n st.pending = some pc ∧ A.check pc (st.val pc) = true ∧
      propagate n (A.out pc (st.val pc)) (A.succs pc)
        { st with pending := Function.update st.pending pc false } = some st' := by
  unfold step at h
  cases hf : firstPending n st.pending with
  | none => rw [hf] at h; cases h
  | some pc =>
    rw [hf] at h
    dsimp only at h
    split at h
    · next hc =>
      cases hpr : propagate n (A.out pc (st.val pc)) (A.succs pc)
          { st with pending := Function.update st.pending pc false } with
      | none => rw [hpr] at h; cases h
      | some st₂ =>
        rw [hpr] at h
        obtain rfl : st₂ = st' := Sum.inl.inj h
        exact ⟨pc, rfl, hc, hpr⟩
    · cases h

theorem propagate_none {n : Nat} {o : L} {ss : List Nat} {st : State L}
    (h : propagate n o ss st = none) : ∃ s ∈ ss, n ≤ s := by
  induction ss generalizing st with
  | nil => cases h
  | cons s ss ih =>
    rw [propagate] at h
    split at h
    · obtain ⟨t, ht, hn⟩ := ih h
      exact ⟨t, List.mem_cons_of_mem s ht, hn⟩
    · next hs => exact ⟨s, List.mem_cons_self, Nat.le_of_not_lt hs⟩

/-- A round that rejects has found a failed check at the first pending node,
    or a successor outside the graph. -/
theorem step_inr_false {A : Analysis L} {n : Nat} {st : State L} (h : step A n st = .inr false) :
    ∃ pc, firstPending n st.pending = some pc ∧
      (A.check pc (st.val pc) = false ∨ ∃ s ∈ A.succs pc, n ≤ s) := by
  unfold step at h
  cases hf : firstPending n st.pending with
  | none => rw [hf] at h; cases h
  | some pc =>
    rw [hf] at h
    refine ⟨pc, rfl, ?_⟩
    dsimp only at h
    split at h
    · cases hpr : propagate n (A.out pc (st.val pc)) (A.succs pc)
          { st with pending := Function.update st.pending pc false } with
      | none => exact .inr (propagate_none hpr)
      | some st₂ => rw [hpr] at h; cases h
    · next hc => exact .inl (by simpa using hc)

theorem step_val_le {A : Analysis L} {n : Nat} {st st' : State L} (h : step A n st = .inl st')
    (i : Nat) : st'.val i ≤ st.val i := by
  obtain ⟨pc, _, _, hpr⟩ := step_inl h
  exact (propagate_lowers hpr).1.val_le i

/-- Step lemma: a round keeps every node that is not pending stable. -/
theorem step_settled {A : Analysis L} {n : Nat} {st st' : State L}
    (hst : Settled A n st) (h : step A n st = .inl st') : Settled A n st' := by
  obtain ⟨pc, _, hc, hpr⟩ := step_inl h
  obtain ⟨hlow, hss⟩ := propagate_lowers hpr
  intro i hi hpi
  obtain ⟨hp₁, hv⟩ := hlow.quiet i hpi
  by_cases hipc : i = pc
  · -- the node just processed: its successors were met with its out-value
    subst hipc
    exact ⟨hv ▸ hc, fun s hs => (hss s hs).1, fun s hs => hv ▸ (hss s hs).2⟩
  · -- any other node kept its value while its successors went down
    have hp : st.pending i = false := by simpa [Function.update_of_ne hipc] using hp₁
    have hstable := hst i hi hp
    refine ⟨?_, hstable.succ_lt, fun s hs => ?_⟩
    · rw [hv]; exact hstable.check
    · rw [hv]; exact (hlow.val_le s).trans (hstable.val_le s hs)

theorem step_inr_true {A : Analysis L} {n : Nat} {st : State L} (h : step A n st = .inr true) :
    ∀ i, i < n → st.pending i = false := by
  unfold step at h
  cases hf : firstPending n st.pending with
  | none => exact firstPending_none hf
  | some pc =>
    rw [hf] at h
    dsimp only at h
    split at h
    · split at h <;> cases h
    · cases h

/-- Run lemma: an accepting run ends in values at which every node is
    stable, below the values it started from. -/
theorem run_accepts {A : Analysis L} {n fuel : Nat} {st₀ : State L}
    (h₀ : ∀ i, i < n → st₀.pending i = true) (h : run A n fuel st₀ = some true) :
    ∃ st, Exec.Reaches (step A n) st₀ st ∧ (∀ i, st.val i ≤ st₀.val i) ∧
      ∀ i, i < n → Stable A n st i := by
  obtain ⟨st, hreach, hstop⟩ := Exec.run_some h
  have hsettled : Settled A n st :=
    hreach.invariant (fun _ _ hs hstep => step_settled hs hstep)
      (fun i hi hp => absurd (h₀ i hi) (by simp [hp]))
  have hle : ∀ i, st.val i ≤ st₀.val i :=
    hreach.invariant (I := fun st => ∀ i, st.val i ≤ st₀.val i)
      (fun _ _ hs hstep i => (step_val_le hstep i).trans (hs i)) (fun _ => le_refl _)
  exact ⟨st, hreach, hle, fun i hi => hsettled i hi (step_inr_true hstop i hi)⟩

/-! ## Predicates of all values -/

/-- Meeting `o` into a node lowers that node to the meet and leaves the
    others. -/
theorem merge_val (st : State L) (s : Nat) (o : L) :
    (merge st s o).val = Function.update st.val s (st.val s ⊓ o) := by
  unfold merge
  by_cases h : st.val s ⊓ o ≠ st.val s
  · rw [if_pos h]
  · rw [if_neg h, not_not.mp h, Function.update_eq_self]

section Predicates
variable {P : Nat → L → Prop}

theorem merge_forall (hinf : ∀ i v w, P i v → P i w → P i (v ⊓ w)) {st : State L} {s : Nat} {o : L}
    (ho : P s o) (h : ∀ i, P i (st.val i)) : ∀ i, P i ((merge st s o).val i) := by
  intro i
  rw [merge_val]
  by_cases his : i = s
  · subst his
    rw [Function.update_self]
    exact hinf _ _ _ (h i) ho
  · rw [Function.update_of_ne his]
    exact h i

theorem propagate_forall (hinf : ∀ i v w, P i v → P i w → P i (v ⊓ w)) {n : Nat} {o : L}
    {ss : List Nat} (ho : ∀ s ∈ ss, P s o) {st st' : State L}
    (hpr : propagate n o ss st = some st') (h : ∀ i, P i (st.val i)) : ∀ i, P i (st'.val i) := by
  induction ss generalizing st with
  | nil => cases hpr; exact h
  | cons s ss ih =>
    rw [propagate] at hpr
    split at hpr
    · exact ih (fun t ht => ho t (List.mem_cons_of_mem s ht)) hpr
        (merge_forall hinf (ho s List.mem_cons_self) h)
    · cases hpr

/-- A predicate of nodes and values that is closed under meets and passed on
    by the transfer function holds of every value a run passes through. -/
theorem reaches_forall {A : Analysis L} {n : Nat}
    (hinf : ∀ i v w, P i v → P i w → P i (v ⊓ w))
    (hout : ∀ i v, i < n → P i v → ∀ s ∈ A.succs i, P s (A.out i v))
    {st₀ st : State L} (hreach : Exec.Reaches (step A n) st₀ st) (h₀ : ∀ i, P i (st₀.val i)) :
    ∀ i, P i (st.val i) := by
  refine hreach.invariant (I := fun st => ∀ i, P i (st.val i)) (fun s s' hs hstep => ?_) h₀
  obtain ⟨pc, hf, _, hpr⟩ := step_inl hstep
  exact propagate_forall hinf (hout pc _ (firstPending_some hf).1 (hs pc)) hpr hs

end Predicates

end Rounds

/-! ## Termination -/

/-- Remaining work: the rank of every value plus one for each pending node. -/
def work {L : Type u} (rank : L → Nat) (n : Nat) (st : State L) : Nat :=
  ∑ i ∈ Finset.range n, (rank (st.val i) + if st.pending i then 1 else 0)

theorem work_clear_lt {L : Type u} {rank : L → Nat} {n pc : Nat} {st : State L} (hpc : pc < n)
    (hp : st.pending pc = true) :
    work rank n { st with pending := Function.update st.pending pc false } < work rank n st := by
  refine Finset.sum_lt_sum (fun i _ => ?_) ⟨pc, Finset.mem_range.mpr hpc, ?_⟩
  · by_cases hi : i = pc
    · subst hi; simp
    · simp [Function.update_of_ne hi]
  · simp [hp]

section Termination
variable {L : Type u} [SemilatticeInf L] [DecidableEq L]

theorem work_merge_le {rank : L → Nat} (hrank : ∀ v w : L, v < w → rank v < rank w) {n : Nat}
    (st : State L) (s : Nat) (o : L) : work rank n (merge st s o) ≤ work rank n st := by
  unfold merge
  by_cases h : st.val s ⊓ o ≠ st.val s
  · rw [if_pos h]
    refine Finset.sum_le_sum fun i _ => ?_
    by_cases his : i = s
    · subst his
      have := hrank _ _ (lt_of_le_of_ne (inf_le_left (b := o)) h)
      simp only [Function.update_self, if_true]
      split <;> omega
    · simp [Function.update_of_ne his]
  · rw [if_neg h]

theorem work_propagate_le {rank : L → Nat} (hrank : ∀ v w : L, v < w → rank v < rank w)
    {n : Nat} {o : L} {ss : List Nat} {st st' : State L}
    (h : propagate n o ss st = some st') : work rank n st' ≤ work rank n st := by
  induction ss generalizing st with
  | nil => cases h; exact le_refl _
  | cons s ss ih =>
    rw [propagate] at h
    split at h
    · exact (ih h).trans (work_merge_le hrank st s o)
    · cases h

/-- Every round that continues does some of the remaining work. -/
theorem work_step_lt {rank : L → Nat} (hrank : ∀ v w : L, v < w → rank v < rank w)
    {A : Analysis L} {n : Nat} {st st' : State L} (h : step A n st = .inl st') :
    work rank n st' < work rank n st := by
  obtain ⟨pc, hf, _, hpr⟩ := step_inl h
  obtain ⟨hlt, hp, -⟩ := firstPending_some hf
  exact (work_propagate_le hrank hpr).trans_lt (work_clear_lt hlt hp)

/-- With more fuel than remaining work the loop reaches a verdict. -/
theorem run_terminates (rank : L → Nat) (hrank : ∀ v w : L, v < w → rank v < rank w)
    {A : Analysis L} {n fuel : Nat} {st : State L} (h : work rank n st < fuel) :
    ∃ b, run A n fuel st = some b :=
  Exec.run_terminates (I := fun _ => True) (work rank n)
    (fun _ _ _ hs => ⟨trivial, work_step_lt hrank hs⟩) trivial h

end Termination

end Worklist

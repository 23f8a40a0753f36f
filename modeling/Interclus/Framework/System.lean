/-! # Transition Systems

    Three small execution frameworks, all independent of any particular
    program:

    * `LTS.System`: a labelled transition system given by an initial
      predicate and a step relation, with labelled runs, reachability and
      the invariant rule.
    * `Exec`: the iteration of a deterministic step function that either
      continues or stops with a result, with the invariant rule for the
      configurations it passes through and the lockstep rule for two
      iterations side by side.
    * `Mealy`: a deterministic machine that takes one input after another
      and answers each.
-/

/-! ## Labelled transition systems -/

namespace LTS

variable {State : Type u} {Label : Type v}

/-- A labelled transition system. -/
structure System (State : Type u) (Label : Type v) where
  init : State → Prop
  step : State → Label → State → Prop

/-- Runs of a system, with the labels they fire. -/
inductive StepsFrom (sys : System State Label) : State → List Label → State → Prop where
  | nil  : ∀ s, StepsFrom sys s [] s
  | cons : ∀ {s s' s''} (l : Label) (ls : List Label),
             sys.step s l s' → StepsFrom sys s' ls s'' → StepsFrom sys s (l :: ls) s''

/-- States reachable from an initial state. -/
inductive Reachable (sys : System State Label) : State → Prop where
  | init : ∀ {s}, sys.init s → Reachable sys s
  | step : ∀ {s s'} (l : Label), Reachable sys s → sys.step s l s' → Reachable sys s'

/-- The invariant rule: what holds initially and is preserved by every step
    holds in every reachable state. -/
theorem Reachable.invariant {sys : System State Label} {I : State → Prop}
    (hinit : ∀ s, sys.init s → I s)
    (hstep : ∀ s l s', I s → sys.step s l s' → I s')
    {s : State} (h : Reachable sys s) : I s := by
  induction h with
  | init h => exact hinit _ h
  | step l _ hs ih => exact hstep _ l _ ih hs

/-- What every step with a label of some kind preserves, a run of such
    labels preserves. -/
theorem StepsFrom.preserves {sys : System State Label} {P : Label → Prop} {I : State → Prop}
    (hstep : ∀ s l s', P l → I s → sys.step s l s' → I s')
    {s s' : State} {ls : List Label} (h : StepsFrom sys s ls s') (hP : ∀ l ∈ ls, P l) (h₀ : I s) :
    I s' := by
  induction h with
  | nil s => exact h₀
  | cons l ls hs _ ih =>
    exact ih (fun l' hl' => hP l' (List.mem_cons_of_mem l hl'))
      (hstep _ l _ (hP l List.mem_cons_self) h₀ hs)

/-- What every step preserves, a run preserves. -/
theorem StepsFrom.invariant {sys : System State Label} {I : State → Prop}
    (hstep : ∀ s l s', I s → sys.step s l s' → I s')
    {s s' : State} {ls : List Label} (h : StepsFrom sys s ls s') (h₀ : I s) : I s' :=
  h.preserves (P := fun _ => True) (fun s l s' _ => hstep s l s') (fun _ _ => trivial) h₀

/-- What holds of the labels so far and the state, and is kept when a step
    adds its label, holds of a run. -/
theorem StepsFrom.history {sys : System State Label} {P : List Label → State → Prop}
    (hstep : ∀ ls s l s', P ls s → sys.step s l s' → P (ls ++ [l]) s')
    {s s' : State} {ls : List Label} (h : StepsFrom sys s ls s') (h₀ : P [] s) : P ls s' := by
  have hfrom : ∀ pre, P pre s → P (pre ++ ls) s' := by
    clear h₀
    induction h with
    | nil s =>
      intro pre hpre
      rw [List.append_nil]
      exact hpre
    | cons l ls hs _ ih =>
      intro pre hpre
      have hrest := ih (pre ++ [l]) (hstep pre _ l _ hpre hs)
      rwa [List.append_assoc] at hrest
  exact hfrom [] h₀

theorem StepsFrom.reachable {sys : System State Label} {s s' : State} {ls : List Label}
    (h : StepsFrom sys s ls s') (h₀ : Reachable sys s) : Reachable sys s' :=
  h.invariant (I := Reachable sys) (fun _ l _ hr hs => .step l hr hs) h₀

theorem StepsFrom.append {sys : System State Label} {s s' s'' : State} {ls ls' : List Label}
    (h : StepsFrom sys s ls s') (h' : StepsFrom sys s' ls' s'') :
    StepsFrom sys s (ls ++ ls') s'' := by
  induction h with
  | nil s => exact h'
  | cons l ls hs _ ih => exact .cons l _ hs (ih h')

/-- The steps of a system that `P` admits. -/
def System.restrict (sys : System State Label) (P : State → Label → Prop) :
    System State Label where
  init := sys.init
  step s l s' := P s l ∧ sys.step s l s'

/-- A run of a restricted system is a run of the system. -/
theorem StepsFrom.of_restrict {sys : System State Label} {P : State → Label → Prop}
    {s s' : State} {ls : List Label} (h : StepsFrom (sys.restrict P) s ls s') :
    StepsFrom sys s ls s' := by
  induction h with
  | nil s => exact .nil s
  | cons l ls hs _ ih => exact .cons l ls hs.2 ih

theorem Reachable.of_restrict {sys : System State Label} {P : State → Label → Prop} {s : State}
    (h : Reachable (sys.restrict P) s) : Reachable sys s := by
  induction h with
  | init h => exact .init h
  | step l _ hs ih => exact .step l ih hs.2

/-- Take labels in order, where each has an outcome. -/
def run (step : State → Label → Option State) (s : State) : List Label → Option State
  | [] => some s
  | l :: ls => (step s l).bind fun s' => run step s' ls

theorem StepsFrom.of_run {sys : System State Label} {step : State → Label → Option State}
    (hsys : ∀ s l s', step s l = some s' → sys.step s l s') {s s' : State} {ls : List Label}
    (h : run step s ls = some s') : StepsFrom sys s ls s' := by
  induction ls generalizing s with
  | nil =>
    cases h
    exact .nil _
  | cons l ls ih =>
    obtain ⟨s₁, hstep, hrest⟩ := Option.bind_eq_some_iff.mp h
    exact .cons l ls (hsys s l s₁ hstep) (ih hrest)

/-- A step function where `P` admits the step. -/
def guarded (step : State → Label → Option State) (P : State → Label → Prop)
    [∀ s l, Decidable (P s l)] (s : State) (l : Label) : Option State :=
  if P s l then step s l else none

theorem StepsFrom.of_guarded {sys : System State Label} {step : State → Label → Option State}
    (hsys : ∀ s l s', step s l = some s' → sys.step s l s') {P : State → Label → Prop}
    [∀ s l, Decidable (P s l)] {s s' : State} {ls : List Label}
    (h : run (guarded step P) s ls = some s') : StepsFrom (sys.restrict P) s ls s' := by
  refine StepsFrom.of_run (fun s l s' hstep => ?_) h
  unfold guarded at hstep
  split at hstep
  · next hP => exact ⟨hP, hsys s l s' hstep⟩
  · cases hstep

end LTS

/-! ## Iterated step functions -/

namespace Exec

variable {M : Type u} {R : Type v}

/-- Iterate `step` until it stops; `none` when the fuel runs out first. -/
def run (step : M → M ⊕ R) : Nat → M → Option R
  | 0, _ => none
  | fuel + 1, m =>
    match step m with
    | .inl m' => run step fuel m'
    | .inr r => some r

/-- The configuration after `n` steps; `none` when it has stopped before. -/
def after (step : M → M ⊕ R) : Nat → M → Option M
  | 0, m => some m
  | n + 1, m =>
    match step m with
    | .inl m' => after step n m'
    | .inr _ => none

/-- The configurations an iteration started at `m₀` passes through. -/
inductive Reaches (step : M → M ⊕ R) (m₀ : M) : M → Prop where
  | refl : Reaches step m₀ m₀
  | next : ∀ {m m'}, Reaches step m₀ m → step m = .inl m' → Reaches step m₀ m'

theorem Reaches.head {step : M → M ⊕ R} {m₀ m₁ m : M} (h₀ : step m₀ = .inl m₁)
    (h : Reaches step m₁ m) : Reaches step m₀ m := by
  induction h with
  | refl => exact .next .refl h₀
  | next _ hs ih => exact .next ih hs

/-- A configuration invariant of an iteration. -/
theorem Reaches.invariant {step : M → M ⊕ R} {I : M → Prop}
    (hstep : ∀ m m', I m → step m = .inl m' → I m')
    {m₀ m : M} (h : Reaches step m₀ m) (h₀ : I m₀) : I m := by
  induction h with
  | refl => exact h₀
  | next _ hs ih => exact hstep _ _ ih hs

/-- An iteration that stops does so at a configuration it passes through. -/
theorem run_some {step : M → M ⊕ R} {fuel : Nat} {m₀ : M} {r : R}
    (h : run step fuel m₀ = some r) : ∃ m, Reaches step m₀ m ∧ step m = .inr r := by
  induction fuel generalizing m₀ with
  | zero => simp [run] at h
  | succ fuel ih =>
    rw [run] at h
    cases hs : step m₀ with
    | inl m₁ =>
      rw [hs] at h
      obtain ⟨m, hm, hr⟩ := ih h
      exact ⟨m, hm.head hs, hr⟩
    | inr r' =>
      rw [hs] at h
      cases h
      exact ⟨m₀, .refl, hs⟩

/-- More fuel changes no result. -/
theorem run_mono {step : M → M ⊕ R} {fuel : Nat} {m₀ : M} {r : R} (h : run step fuel m₀ = some r)
    (k : Nat) : run step (fuel + k) m₀ = some r := by
  induction fuel generalizing m₀ with
  | zero => cases h
  | succ fuel ih =>
    rw [run] at h
    rw [Nat.succ_add, run]
    cases hs : step m₀ with
    | inl m₁ =>
      rw [hs] at h
      exact ih h
    | inr r' =>
      rw [hs] at h
      exact h

/-- An iteration runs on from each configuration it passes through. -/
theorem Reaches.run_eq {step : M → M ⊕ R} {m₀ m : M} (h : Reaches step m₀ m) :
    ∃ k, ∀ fuel, run step (k + fuel) m₀ = run step fuel m := by
  induction h with
  | refl => exact ⟨0, fun fuel => by rw [Nat.zero_add]⟩
  | next _ hs ih =>
    obtain ⟨k, hk⟩ := ih
    refine ⟨k + 1, fun fuel => ?_⟩
    rw [Nat.add_assoc, Nat.add_comm 1, hk, run, hs]

/-- It stops at one configuration only. -/
theorem Reaches.result {step : M → M ⊕ R} {m₀ m : M} (h : Reaches step m₀ m) {r r' : R}
    (hstop : step m = .inr r') {fuel : Nat} (hrun : run step fuel m₀ = some r) : r = r' := by
  obtain ⟨k, hk⟩ := h.run_eq
  have hlong := run_mono hrun (k + 1)
  rw [show fuel + (k + 1) = k + (fuel + 1) by omega, hk, run, hstop] at hlong
  exact (Option.some.inj hlong).symm

/-- An iteration that follows another turn by turn passes through
    configurations related to those of the other. -/
theorem Reaches.follows {C : Type w} {S : Type x} {step : M → M ⊕ R} {stepC : C → C ⊕ S}
    {rel : C → M → Prop}
    (hstep : ∀ c m m', rel c m → step m = .inl m' → ∃ c', stepC c = .inl c' ∧ rel c' m')
    {m₀ m : M} (h : Reaches step m₀ m) {c₀ : C} (h₀ : rel c₀ m₀) :
    ∃ c, Reaches stepC c₀ c ∧ rel c m := by
  induction h with
  | refl => exact ⟨c₀, .refl, h₀⟩
  | next _ hs ih =>
    obtain ⟨c, hreach, hrel⟩ := ih
    obtain ⟨c', hc, hrel'⟩ := hstep c _ _ hrel hs
    exact ⟨c', hreach.next hc, hrel'⟩

/-- An iteration that decreases a measure as long as it continues stops. -/
theorem run_terminates {step : M → M ⊕ R} {I : M → Prop} (measure : M → Nat)
    (hstep : ∀ m m', I m → step m = .inl m' → I m' ∧ measure m' < measure m) {fuel : Nat} {m : M}
    (h : I m) (hfuel : measure m < fuel) : ∃ r, run step fuel m = some r := by
  induction fuel generalizing m with
  | zero => exact absurd hfuel (Nat.not_lt_zero _)
  | succ fuel ih =>
    rw [run]
    cases hs : step m with
    | inr r => exact ⟨r, rfl⟩
    | inl m' =>
      obtain ⟨hI, hlt⟩ := hstep m m' h hs
      exact ih hI (Nat.lt_of_lt_of_le hlt (Nat.lt_succ_iff.mp hfuel))

/-- An iteration that takes several steps for each step of another, and
    stops where the other does, stops whenever the other does. -/
theorem run_simulates {C : Type w} {S : Type x} {step : M → M ⊕ R} {stepC : C → C ⊕ S}
    {rel : C → M → Prop} {res : R → S}
    (hstep : ∀ c m m', rel c m → step m = .inl m' → ∃ c', Reaches stepC c c' ∧ rel c' m')
    (hstop : ∀ c m r, rel c m → step m = .inr r →
      ∃ c', Reaches stepC c c' ∧ stepC c' = .inr (res r))
    {fuel : Nat} {c : C} {m : M} {r : R} (h : rel c m) (hrun : run step fuel m = some r) :
    ∃ fuelC, run stepC fuelC c = some (res r) := by
  induction fuel generalizing c m with
  | zero => cases hrun
  | succ fuel ih =>
    rw [run] at hrun
    cases hs : step m with
    | inl m' =>
      rw [hs] at hrun
      obtain ⟨c', hreach, hrel⟩ := hstep c m m' h hs
      obtain ⟨fuelC, hC⟩ := ih hrel hrun
      obtain ⟨k, hk⟩ := hreach.run_eq
      exact ⟨k + fuelC, by rw [hk, hC]⟩
    | inr r' =>
      rw [hs] at hrun
      obtain rfl : r' = r := Option.some.inj hrun
      obtain ⟨c', hreach, hlast⟩ := hstop c m r' h hs
      obtain ⟨k, hk⟩ := hreach.run_eq
      exact ⟨k + 1, by rw [hk, run, hlast]⟩

/-- An iteration that follows another turn by turn, and stops where it stops
    with a result of `P`, follows its run to such a result. -/
theorem run_follows {C : Type w} {S : Type x} {step : M → M ⊕ R} {stepC : C → C ⊕ S}
    {rel : C → M → Prop} {P : R → Prop} {res : R → S → Prop}
    (hstep : ∀ c m m', rel c m → step m = .inl m' → ∃ c', stepC c = .inl c' ∧ rel c' m')
    (hstop : ∀ c m r, rel c m → step m = .inr r → P r → ∃ s, stepC c = .inr s ∧ res r s)
    {fuel : Nat} {c : C} {m : M} {r : R} (h : rel c m) (hrun : run step fuel m = some r)
    (hr : P r) : ∃ s, run stepC fuel c = some s ∧ res r s := by
  induction fuel generalizing c m with
  | zero => cases hrun
  | succ fuel ih =>
    rw [run] at hrun
    rw [run]
    cases hs : step m with
    | inl m' =>
      rw [hs] at hrun
      obtain ⟨c', hc, hrel⟩ := hstep c m m' h hs
      rw [hc]
      exact ih hrel hrun
    | inr r' =>
      rw [hs] at hrun
      obtain rfl : r' = r := Option.some.inj hrun
      obtain ⟨s, hc, hres⟩ := hstop c m r' h hs hr
      rw [hc]
      exact ⟨s, rfl, hres⟩

/-- Total correctness: within `n` turns the iteration stops, with a result
    that `Q` admits. -/
def Ends (step : M → M ⊕ R) (n : Nat) (m : M) (Q : R → Prop) : Prop :=
  ∃ r, run step n m = some r ∧ Q r

theorem Ends.stop {step : M → M ⊕ R} {n : Nat} {m : M} {r : R} {Q : R → Prop}
    (h : step m = .inr r) (hQ : Q r) : Ends step (n + 1) m Q := by
  refine ⟨r, ?_, hQ⟩
  rw [run, h]

theorem Ends.turn {step : M → M ⊕ R} {n : Nat} {m m' : M} {Q : R → Prop} (h : step m = .inl m')
    (hrest : Ends step n m' Q) : Ends step (n + 1) m Q := by
  obtain ⟨r, hr, hQ⟩ := hrest
  refine ⟨r, ?_, hQ⟩
  rw [run, h]
  exact hr

/-- One result, with any fuel from `n` on. -/
theorem Ends.result {step : M → M ⊕ R} {n : Nat} {m : M} {Q : R → Prop} (h : Ends step n m Q) :
    ∃ r, (∀ fuel, n ≤ fuel → run step fuel m = some r) ∧ Q r := by
  obtain ⟨r, hr, hQ⟩ := h
  refine ⟨r, fun fuel hfuel => ?_, hQ⟩
  obtain ⟨k, rfl⟩ := Nat.exists_eq_add_of_le hfuel
  exact run_mono hr k

/-- Two step outcomes agree when both continue in related configurations or
    both stop with the same result. -/
def OutcomeRel (rel : M → M → Prop) : M ⊕ R → M ⊕ R → Prop
  | .inl m₁, .inl m₂ => rel m₁ m₂
  | .inr r₁, .inr r₂ => r₁ = r₂
  | _, _ => False

/-- Weakening, knowing the configurations both steps continue in. -/
theorem OutcomeRel.imp {rel rel' : M → M → Prop} {o₁ o₂ : M ⊕ R} (h : OutcomeRel rel o₁ o₂)
    (himp : ∀ m₁ m₂, o₁ = .inl m₁ → o₂ = .inl m₂ → rel m₁ m₂ → rel' m₁ m₂) :
    OutcomeRel rel' o₁ o₂ := by
  cases o₁ with
  | inl m₁ =>
    cases o₂ with
    | inl m₂ => exact himp m₁ m₂ rfl rfl h
    | inr r₂ => exact h.elim
  | inr r₁ =>
    cases o₂ with
    | inl m₂ => exact h.elim
    | inr r₂ => exact h

/-- The lockstep rule: related configurations whose steps agree run to the
    same result with any amount of fuel. -/
theorem run_lockstep {step₁ step₂ : M → M ⊕ R} {rel : M → M → Prop}
    (hstep : ∀ m₁ m₂, rel m₁ m₂ → OutcomeRel rel (step₁ m₁) (step₂ m₂))
    (fuel : Nat) {m₁ m₂ : M} (h : rel m₁ m₂) :
    run step₁ fuel m₁ = run step₂ fuel m₂ := by
  induction fuel generalizing m₁ m₂ with
  | zero => rfl
  | succ fuel ih =>
    have hout := hstep m₁ m₂ h
    simp only [run]
    cases h₁ : step₁ m₁ <;> cases h₂ : step₂ m₂ <;> rw [h₁, h₂] at hout
    · exact ih hout
    · exact hout.elim
    · exact hout.elim
    · exact congrArg some hout

end Exec

/-! ## Machines that answer their inputs -/

namespace Mealy

variable {S : Type u} {I : Type v} {O : Type w}

/-- The state behind a list of inputs. -/
def final (step : S → I → S × O) (s : S) (is : List I) : S :=
  is.foldl (fun s i => (step s i).1) s

/-- The answers to a list of inputs. -/
def outputs (step : S → I → S × O) : S → List I → List O
  | _, [] => []
  | s, i :: is => (step s i).2 :: outputs step (step s i).1 is

variable (step : S → I → S × O)

theorem final_cons (s : S) (i : I) (is : List I) :
    final step s (i :: is) = final step (step s i).1 is := rfl

theorem outputs_cons (s : S) (i : I) (is : List I) :
    outputs step s (i :: is) = (step s i).2 :: outputs step (step s i).1 is := rfl

theorem final_append (s : S) (is js : List I) :
    final step s (is ++ js) = final step (final step s is) js := List.foldl_append

theorem outputs_append (s : S) (is js : List I) :
    outputs step s (is ++ js) = outputs step s is ++ outputs step (final step s is) js := by
  induction is generalizing s with
  | nil => rfl
  | cons i is ih => rw [List.cons_append, outputs_cons, outputs_cons, ih, final_cons, List.cons_append]

@[simp] theorem length_outputs (s : S) (is : List I) : (outputs step s is).length = is.length := by
  induction is generalizing s with
  | nil => rfl
  | cons i is ih => rw [outputs_cons, List.length_cons, List.length_cons, ih]

/-- What every step preserves, a run preserves; what every step from such a
    state answers, a run answers throughout. -/
theorem forall_outputs {Inv : S → Prop} {P : O → Prop}
    (hstep : ∀ s i, Inv s → Inv (step s i).1 ∧ P (step s i).2) (is : List I) {s : S} (h : Inv s) :
    Inv (final step s is) ∧ ∀ o ∈ outputs step s is, P o := by
  induction is generalizing s with
  | nil => exact ⟨h, nofun⟩
  | cons i is ih =>
    obtain ⟨hinv, hout⟩ := hstep s i h
    obtain ⟨hfinal, houts⟩ := ih hinv
    refine ⟨hfinal, fun o ho => ?_⟩
    rcases List.mem_cons.mp ho with rfl | ho
    · exact hout
    · exact houts o ho

/-- Each answer is the machine's at the state behind the inputs before. -/
theorem getElem?_outputs (s : S) (is : List I) (k : Nat) :
    (outputs step s is)[k]? = is[k]?.map fun i => (step (final step s (is.take k)) i).2 := by
  induction is generalizing s k with
  | nil => rfl
  | cons i is ih =>
    cases k with
    | zero => rfl
    | succ k =>
      rw [outputs_cons, List.getElem?_cons_succ, List.getElem?_cons_succ, ih]
      rfl

/-- The last answer is the answer to the last input. -/
theorem outputs_concat (s : S) (is : List I) (i : I) :
    outputs step s (is ++ [i]) = outputs step s is ++ [(step (final step s is) i).2] :=
  outputs_append step s is [i]

end Mealy

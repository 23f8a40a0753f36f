import Interclus.Framework.System
import Interclus.Isolation.Containment

/-! # The Armed Window

    Arming is skipped when the flag of a compartment is set, so the flag
    has to mean that the CSRs still hold its spec.  It does, whatever the
    order of the calls on the table: at most one flag is set, and the CSRs
    encode the spec of that compartment as it was given last. -/

namespace Interclus

open Words LTS

/-! ## The flag -/

/-- The two address CSRs encode a spec. -/
def Encodes (csr : Nat → U32) (spec : IcCompartmentSpec) : Prop :=
  csr CSR_PMPADDR0 = NAPOT spec.sramBase spec.sramSize ∧
    csr (CSR_PMPADDR0 + 1) = NAPOT spec.textBase spec.textSize

/-- At most one flag is set, and the CSRs encode the spec it stands for. -/
structure ArmedInv (t : CompTable) : Prop where
  unique : ∀ i j, i < COMP_COUNT → j < COMP_COUNT →
    (t.comps i).armed → (t.comps j).armed → i = j
  encoded : ∀ i, i < COMP_COUNT → (t.comps i).armed → Encodes t.csr (t.comps i).spec

/-- Dropping flags, or changing a compartment whose flag is dropped. -/
theorem ArmedInv.of_dropped {t t' : CompTable} (h : ArmedInv t) (hcsr : t'.csr = t.csr)
    (hdrop : ∀ i, (t'.comps i).armed → (t.comps i).armed ∧ (t'.comps i).spec = (t.comps i).spec) :
    ArmedInv t' where
  unique := by
    intro i j hi hj harmed harmed'
    exact h.unique i j hi hj (hdrop i harmed).1 (hdrop j harmed').1
  encoded := by
    intro i hi harmed
    obtain ⟨hold, hspec⟩ := hdrop i harmed
    rw [hcsr, hspec]
    exact h.encoded i hi hold

theorem ArmedInv.setComp {t : CompTable} (h : ArmedInv t) (i : Nat) {c : Compartment}
    (hc : c.armed → (t.comps i).armed ∧ c.spec = (t.comps i).spec) : ArmedInv (t.setComp i c) := by
  refine h.of_dropped rfl fun j => ?_
  show ((if j = i then c else t.comps j).armed : Bool) → _ ∧
    (if j = i then c else t.comps j).spec = _
  by_cases hj : j = i
  · subst hj
    rw [if_pos rfl]
    exact hc
  · rw [if_neg hj]
    intro harmed
    exact ⟨harmed, rfl⟩

/-- `compartment_set` drops the flag of the compartment it writes. -/
theorem ArmedInv.set {t : CompTable} (h : ArmedInv t) (i : Nat) (spec : IcCompartmentSpec)
    (entry : U32) : ArmedInv (compartmentSet i spec entry t) := by
  unfold compartmentSet
  split
  · exact h
  · exact h.setComp i fun harmed => absurd harmed Bool.false_ne_true

theorem ArmedInv.evict {t : CompTable} (h : ArmedInv t) (i : Nat) :
    ArmedInv (compartmentEvict i t) := by
  unfold compartmentEvict
  split
  · exact h
  · exact h.setComp i fun harmed => absurd harmed Bool.false_ne_true

theorem ArmedInv.saveTcb {t : CompTable} (h : ArmedInv t) (regs : Fin 32 → U32) :
    ArmedInv (saveTcb regs t) := by
  unfold Interclus.saveTcb
  split
  · exact h
  · next i _ => exact h.setComp i fun harmed => ⟨harmed, rfl⟩

/-- `compartment_arm` sets one flag and drops the others, with the CSRs
    written; or the flag was set. -/
theorem ArmedInv.arm {t : CompTable} (h : ArmedInv t) {i : Nat} (hi : i < COMP_COUNT) :
    ArmedInv (compartmentArm i t) ∧ ((compartmentArm i t).comps i).armed := by
  unfold compartmentArm
  split
  · next hskip =>
    -- skipped: the flag was set
    have harmed : (t.comps i).armed := hskip.resolve_left (Nat.not_le.mpr hi)
    exact ⟨h, harmed⟩
  · -- the flags of the four compartments are those of `j = i`
    have hflag : ∀ j, j < COMP_COUNT → ∀ c : Compartment,
        (if j < COMP_COUNT then { c with armed := decide (j = i) } else c).armed =
          decide (j = i) := by
      intro j hj c
      rw [if_pos hj]
    refine ⟨⟨?_, ?_⟩, ?_⟩
    · intro j k hj hk harmed harmed'
      rw [show (CompTable.comps _ j).armed = _ from hflag j hj _, decide_eq_true_iff] at harmed
      rw [show (CompTable.comps _ k).armed = _ from hflag k hk _, decide_eq_true_iff] at harmed'
      rw [harmed, harmed']
    · intro j hj harmed
      rw [show (CompTable.comps _ j).armed = _ from hflag j hj _, decide_eq_true_iff] at harmed
      subst harmed
      dsimp only
      rw [if_pos hj]
      exact ⟨rfl, rfl⟩
    · rw [show (CompTable.comps _ i).armed = _ from hflag i hi _, decide_eq_true_iff]

/-! ## What a call leaves of a compartment -/

/-- Spec, entry and TCB: what the flags are not. -/
structure SameBody (c c' : Compartment) : Prop where
  spec : c'.spec = c.spec
  entry : c'.entry = c.entry
  tcb : c'.tcb = c.tcb

theorem compartmentArm_body (i j : Nat) (t : CompTable) :
    SameBody (t.comps j) ((compartmentArm i t).comps j) := by
  unfold compartmentArm
  split
  · exact ⟨rfl, rfl, rfl⟩
  · show SameBody (t.comps j)
      (if j < COMP_COUNT then { t.comps j with armed := decide (j = i) } else t.comps j)
    split <;> exact ⟨rfl, rfl, rfl⟩

theorem compartmentEvict_body (i j : Nat) (t : CompTable) :
    SameBody (t.comps j) ((compartmentEvict i t).comps j) := by
  unfold compartmentEvict
  split
  · exact ⟨rfl, rfl, rfl⟩
  · show SameBody (t.comps j)
      (if j = i then { t.comps i with evicted := true, armed := false } else t.comps j)
    split
    · next hj =>
      subst hj
      exact ⟨rfl, rfl, rfl⟩
    · exact ⟨rfl, rfl, rfl⟩

theorem compartmentSet_other {i j : Nat} (hj : j ≠ i) (spec : IcCompartmentSpec) (entry : U32)
    (t : CompTable) : (compartmentSet i spec entry t).comps j = t.comps j := by
  unfold compartmentSet
  split
  · rfl
  · exact if_neg hj

/-- Arming keeps the mark of an eviction. -/
theorem compartmentArm_evicted (i j : Nat) (t : CompTable) :
    ((compartmentArm i t).comps j).evicted = (t.comps j).evicted := by
  unfold compartmentArm
  split
  · rfl
  · show (if j < COMP_COUNT then { t.comps j with armed := decide (j = i) }
      else t.comps j).evicted = _
    split <;> rfl

/-- A trap out of U-mode writes the TCB of the compartment that ran, and
    nothing else of the table. -/
theorem saveTcb_body {t : CompTable} {k : Nat} (hk : t.curTcb = some k) (regs : Fin 32 → U32)
    (j : Nat) :
    ((saveTcb regs t).comps j).spec = (t.comps j).spec ∧
      ((saveTcb regs t).comps j).entry = (t.comps j).entry ∧
      (j ≠ k → ((saveTcb regs t).comps j).tcb = (t.comps j).tcb) := by
  unfold saveTcb
  rw [hk]
  show (if j = k then _ else t.comps j).spec = _ ∧ (if j = k then _ else t.comps j).entry = _ ∧
    (j ≠ k → (if j = k then _ else t.comps j).tcb = _)
  by_cases hj : j = k
  · subst hj
    rw [if_pos rfl]
    exact ⟨rfl, rfl, fun h => absurd rfl h⟩
  · rw [if_neg hj]
    exact ⟨rfl, rfl, fun _ => rfl⟩

/-! ## Calls in any order -/

/-- A call on the table, or the trap out of U-mode that follows an entry. -/
inductive CompCall where
  | set (i : Nat) (spec : IcCompartmentSpec) (entry : U32)
  | arm (i : Nat)
  | evict (i : Nat)
  | enter (i : Nat)
  | trap (regs : Fin 32 → U32)

/-- The table, and whether the core is in U-mode. -/
structure CompCore where
  table : CompTable
  user : Bool

/-- From the zeroed table, whatever the CSRs hold. -/
def compCalls : System CompCore CompCall where
  init c := c.user = false ∧ ∃ csr, c.table = { CompTable.zeroed with csr := csr }
  step c l c' :=
    match l with
    | .set i spec entry => i < COMP_COUNT ∧ c' = ⟨compartmentSet i spec entry c.table, false⟩
    | .arm i => i < COMP_COUNT ∧ c' = ⟨compartmentArm i c.table, false⟩
    | .evict i => i < COMP_COUNT ∧ c' = ⟨compartmentEvict i c.table, false⟩
    | .enter i => i < COMP_COUNT ∧ ∃ e, compartmentEnter i c.table = some (c'.table, e) ∧
        c'.user = true
    | .trap regs => c.user = true ∧ c' = ⟨saveTcb regs c.table, false⟩

/-- The spec and entry given to compartment `i` last. -/
def lastGiven (i : Nat) (calls : List CompCall) : Option (IcCompartmentSpec × U32) :=
  calls.foldl (fun given call =>
    match call with
    | .set j spec entry => if j = i then some (spec, entry) else given
    | _ => given) none

/-- Compartment `i` was set and not entered since. -/
def unentered (i : Nat) (calls : List CompCall) : Bool :=
  calls.foldl (fun fresh call =>
    match call with
    | .set j _ _ => if j = i then true else fresh
    | .enter j => if j = i then false else fresh
    | _ => fresh) false

@[simp] theorem lastGiven_concat (i : Nat) (calls : List CompCall) (call : CompCall) :
    lastGiven i (calls ++ [call]) =
      match call with
      | .set j spec entry => if j = i then some (spec, entry) else lastGiven i calls
      | _ => lastGiven i calls := by
  simp only [lastGiven, List.foldl_append, List.foldl_cons, List.foldl_nil]

@[simp] theorem unentered_concat (i : Nat) (calls : List CompCall) (call : CompCall) :
    unentered i (calls ++ [call]) =
      match call with
      | .set j _ _ => if j = i then true else unentered i calls
      | .enter j => if j = i then false else unentered i calls
      | _ => unentered i calls := by
  simp only [unentered, List.foldl_append, List.foldl_cons, List.foldl_nil]

/-- What the calls so far say about the table. -/
structure CallInv (calls : List CompCall) (c : CompCore) : Prop where
  armed : ArmedInv c.table
  given : ∀ i spec entry, lastGiven i calls = some (spec, entry) →
    (c.table.comps i).spec = spec ∧ (c.table.comps i).entry = entry
  fresh : ∀ i, unentered i calls = true → ∀ r, (c.table.comps i).tcb r = 0
  ran : c.user = true → ∃ k, c.table.curTcb = some k ∧ unentered k calls = false

theorem CallInv.nil {c : CompCore} (hinit : compCalls.init c) : CallInv [] c := by
  obtain ⟨huser, csr, htable⟩ := hinit
  refine ⟨⟨?_, ?_⟩, ?_, ?_, ?_⟩
  · intro i j _ _ harmed _
    rw [htable] at harmed
    exact absurd harmed Bool.false_ne_true
  · intro i _ harmed
    rw [htable] at harmed
    exact absurd harmed Bool.false_ne_true
  · intro i spec entry hgiven
    exact absurd hgiven (by simp [lastGiven])
  · intro i _ r
    rw [htable]
    rfl
  · intro h
    exact absurd (huser.symm.trans h) Bool.false_ne_true

/-- A call that is no `compartment_set` and no entry, and leaves the bodies
    alone. -/
theorem CallInv.sameBody {calls : List CompCall} {c : CompCore} (h : CallInv calls c)
    {call : CompCall} {t : CompTable} (harmed : ArmedInv t)
    (hbody : ∀ i, SameBody (c.table.comps i) (t.comps i))
    (hgiven : ∀ i, lastGiven i (calls ++ [call]) = lastGiven i calls)
    (hfresh : ∀ i, unentered i (calls ++ [call]) = unentered i calls) :
    CallInv (calls ++ [call]) ⟨t, false⟩ where
  armed := harmed
  given := by
    intro i spec entry hlast
    rw [hgiven] at hlast
    rw [(hbody i).spec, (hbody i).entry]
    exact h.given i spec entry hlast
  fresh := by
    intro i hi
    rw [hfresh] at hi
    rw [(hbody i).tcb]
    exact h.fresh i hi
  ran := by
    intro huser
    exact absurd huser Bool.false_ne_true

theorem CallInv.set {calls : List CompCall} {c : CompCore} (h : CallInv calls c) {i : Nat}
    (hi : i < COMP_COUNT) (spec : IcCompartmentSpec) (entry : U32) :
    CallInv (calls ++ [.set i spec entry]) ⟨compartmentSet i spec entry c.table, false⟩ := by
  -- the compartment that is set, and the others
  have hself : (compartmentSet i spec entry c.table).comps i =
      ⟨spec, entry, false, false, fun _ => 0⟩ := by
    unfold compartmentSet
    rw [if_neg (Nat.not_le.mpr hi)]
    exact if_pos rfl
  refine ⟨h.armed.set i spec entry, ?_, ?_, ?_⟩
  · intro j spec' entry' hlast
    simp only [lastGiven_concat] at hlast
    by_cases hj : i = j
    · rw [if_pos hj] at hlast
      subst hj
      rw [hself]
      cases hlast
      exact ⟨rfl, rfl⟩
    · rw [if_neg hj] at hlast
      rw [compartmentSet_other (Ne.symm hj)]
      exact h.given j spec' entry' hlast
  · intro j hfresh
    simp only [unentered_concat] at hfresh
    by_cases hj : i = j
    · subst hj
      intro r
      rw [hself]
    · rw [if_neg hj] at hfresh
      rw [compartmentSet_other (Ne.symm hj)]
      exact h.fresh j hfresh
  · intro huser
    exact absurd huser Bool.false_ne_true

theorem CallInv.enter {calls : List CompCall} {c : CompCore} (h : CallInv calls c) {i : Nat}
    (hi : i < COMP_COUNT) {t : CompTable} {e : UserEntry}
    (henter : compartmentEnter i c.table = some (t, e)) :
    CallInv (calls ++ [.enter i]) ⟨t, true⟩ := by
  unfold compartmentEnter at henter
  split at henter
  · cases henter
  · injection henter with henter
    injection henter with ht
    subst ht
    -- the table is the armed one, with the globals set
    have hbody := fun j => compartmentArm_body i j c.table
    refine ⟨(h.armed.arm hi).1.of_dropped rfl fun j harmed => ⟨harmed, rfl⟩, ?_, ?_, ?_⟩
    · intro j spec entry hlast
      simp only [lastGiven_concat] at hlast
      have hgiven := h.given j spec entry hlast
      rw [← (hbody j).spec, ← (hbody j).entry] at hgiven
      exact hgiven
    · intro j hfresh r
      simp only [unentered_concat] at hfresh
      by_cases hj : i = j
      · rw [if_pos hj] at hfresh
        exact absurd hfresh Bool.false_ne_true
      · rw [if_neg hj] at hfresh
        have hzero := h.fresh j hfresh r
        rw [← (hbody j).tcb] at hzero
        exact hzero
    · intro _
      refine ⟨i, rfl, ?_⟩
      simp only [unentered_concat, if_pos]

/-- A trap parks registers in the TCB of a compartment that was entered. -/
theorem CallInv.trap {calls : List CompCall} {c : CompCore} (h : CallInv calls c)
    (huser : c.user = true) (regs : Fin 32 → U32) :
    CallInv (calls ++ [.trap regs]) ⟨saveTcb regs c.table, false⟩ := by
  obtain ⟨k, hk, hentered⟩ := h.ran huser
  refine ⟨h.armed.saveTcb regs, ?_, ?_, ?_⟩
  · intro j spec entry hlast
    simp only [lastGiven_concat] at hlast
    obtain ⟨hspec, hentry, _⟩ := saveTcb_body hk regs j
    rw [hspec, hentry]
    exact h.given j spec entry hlast
  · intro j hfresh
    simp only [unentered_concat] at hfresh
    -- the one that ran is not fresh
    have hj : j ≠ k := by
      rintro rfl
      exact absurd (hfresh.symm.trans hentered) (by simp)
    rw [(saveTcb_body hk regs j).2.2 hj]
    exact h.fresh j hfresh
  · intro huser'
    exact absurd huser' Bool.false_ne_true

theorem CallInv.step {calls : List CompCall} {c c' : CompCore} {call : CompCall}
    (h : CallInv calls c) (hstep : compCalls.step c call c') : CallInv (calls ++ [call]) c' := by
  cases call with
  | set i spec entry =>
    obtain ⟨hi, rfl⟩ := hstep
    exact h.set hi spec entry
  | arm i =>
    obtain ⟨hi, rfl⟩ := hstep
    exact h.sameBody (h.armed.arm hi).1 (fun j => compartmentArm_body i j c.table)
      (fun j => by simp) (fun j => by simp)
  | evict i =>
    obtain ⟨_, rfl⟩ := hstep
    exact h.sameBody (h.armed.evict i) (fun j => compartmentEvict_body i j c.table)
      (fun j => by simp) (fun j => by simp)
  | enter i =>
    obtain ⟨hi, e, henter, huser⟩ := hstep
    obtain ⟨t, user⟩ := c'
    cases huser
    exact h.enter hi henter
  | trap regs =>
    obtain ⟨huser, rfl⟩ := hstep
    exact h.trap huser regs

theorem compCalls_inv {c₀ c : CompCore} {calls : List CompCall} (hinit : compCalls.init c₀)
    (h : StepsFrom compCalls c₀ calls c) : CallInv calls c :=
  h.history (fun _ _ _ _ hinv hstep => hinv.step hstep) (CallInv.nil hinit)

/-! ## The window of an entry -/

/-- What U-mode starts under, when compartment `i` is entered. -/
structure OwnWindow (i : Nat) (calls : List CompCall) (t t' : CompTable) (e : UserEntry) :
    Prop where
  live : (t.comps i).evicted = false ∧ (t'.comps i).evicted = false
  armed : (t'.comps i).armed
  encoded : Encodes t'.csr (t'.comps i).spec
  given : ∀ spec entry, lastGiven i calls = some (spec, entry) →
    Encodes t'.csr spec ∧ e.mepc = spec.textBase + entry
  fresh : unentered i calls = true → ∀ r, e.regs r = 0

theorem CallInv.ownWindow {calls : List CompCall} {c : CompCore} (h : CallInv calls c) {i : Nat}
    (hi : i < COMP_COUNT) {t : CompTable} {e : UserEntry}
    (henter : compartmentEnter i c.table = some (t, e)) : OwnWindow i calls c.table t e := by
  unfold compartmentEnter at henter
  split at henter
  · cases henter
  · next hlive =>
    injection henter with henter
    injection henter with ht he
    subst ht he
    have hbody := compartmentArm_body i i c.table
    obtain ⟨hinv, harmed⟩ := h.armed.arm hi
    have hencoded := hinv.encoded i hi harmed
    refine ⟨⟨Bool.eq_false_iff.mpr hlive, ?_⟩, harmed, hencoded, ?_, ?_⟩
    · show ((compartmentArm i c.table).comps i).evicted = false
      rw [compartmentArm_evicted]
      exact Bool.eq_false_iff.mpr hlive
    · intro spec entry hlast
      obtain ⟨hspec, hentry⟩ := h.given i spec entry hlast
      rw [hbody.spec, hspec] at hencoded
      refine ⟨hencoded, ?_⟩
      show ((compartmentArm i c.table).comps i).spec.textBase +
        ((compartmentArm i c.table).comps i).entry = _
      rw [hbody.spec, hbody.entry, hspec, hentry]
    · intro hfresh r
      show ((compartmentArm i c.table).comps i).tcb r = 0
      rw [hbody.tcb]
      exact h.fresh i hfresh r

/-- Whatever the order of the calls, the CSRs hold the spec of the one
    compartment whose flag is set, and an entry that reaches U-mode runs in
    the window its compartment was given last. -/
theorem compartmentEnter_ownWindow {c₀ c : CompCore} {calls : List CompCall}
    (hinit : compCalls.init c₀) (hrun : StepsFrom compCalls c₀ calls c) :
    ArmedInv c.table ∧
      ∀ i t e, i < COMP_COUNT → compartmentEnter i c.table = some (t, e) →
        OwnWindow i calls c.table t e := by
  have hinv := compCalls_inv hinit hrun
  refine ⟨hinv.armed, ?_⟩
  intro i t e hi henter
  exact hinv.ownWindow hi henter

/-- A compartment armed, set again, and entered. -/
theorem compartmentEnter_ownWindow_reset :
    ∃ t e, compartmentEnter 2 (compartmentSet 2 ⟨0x2000, 0x100, 0x8000, 0x200⟩ 8
        (compartmentArm 2 (compartmentSet 2 ⟨0x1000, 0x100, 0x8000, 0x200⟩ 4
          CompTable.zeroed))) = some (t, e) ∧
      Encodes t.csr ⟨0x2000, 0x100, 0x8000, 0x200⟩ ∧ ∀ r, e.regs r = 0 := by
  have hrun : StepsFrom compCalls ⟨CompTable.zeroed, false⟩
      [.set 2 ⟨0x1000, 0x100, 0x8000, 0x200⟩ 4, .arm 2, .set 2 ⟨0x2000, 0x100, 0x8000, 0x200⟩ 8]
      ⟨compartmentSet 2 ⟨0x2000, 0x100, 0x8000, 0x200⟩ 8
        (compartmentArm 2 (compartmentSet 2 ⟨0x1000, 0x100, 0x8000, 0x200⟩ 4
          CompTable.zeroed)), false⟩ :=
    .cons _ _ ⟨by decide, rfl⟩ (.cons _ _ ⟨by decide, rfl⟩ (.cons _ _ ⟨by decide, rfl⟩ (.nil _)))
  obtain ⟨_, hwindow⟩ := compartmentEnter_ownWindow ⟨rfl, _, rfl⟩ hrun
  have hentry := hwindow 2 _ _ (by decide) rfl
  exact ⟨_, _, rfl, (hentry.given _ _ rfl).1, hentry.fresh rfl⟩

end Interclus

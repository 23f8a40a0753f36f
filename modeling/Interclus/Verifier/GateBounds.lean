import Interclus.Verifier.Accepted

/-! # The Bounds of the Register Gate

    `check_regs` once more, this time over its arrays: every read and write
    of `in_m`, `pending` and `ins` goes through an index that may be out of
    range, and every update of a type word is a step of its own.

    The array loop simulates the worklist of `checkRegs`, so it ends, with
    the same status; none of its accesses leaves the first `cnt` elements;
    and a type word only ever loses bits. -/

namespace Interclus

open Words

/-! ## Array accesses -/

/-- An access past the elements in use. -/
inductive Overrun where
  | ins (i : Nat)
  | inM (i : Nat)
  | pending (i : Nat)
  deriving DecidableEq, Repr

section Arrays
variable {α : Type}

/-- `xs[i]`. -/
def readAt (err : Nat → Overrun) (xs : Array α) (i : Nat) : Except Overrun α :=
  match xs[i]? with
  | some x => .ok x
  | none => .error (err i)

/-- `xs[i] = v`. -/
def writeAt (err : Nat → Overrun) (xs : Array α) (i : Nat) (v : α) : Except Overrun (Array α) :=
  if i < xs.size then .ok (xs.setIfInBounds i v) else .error (err i)

theorem readAt_ok {err : Nat → Overrun} {xs : Array α} {i : Nat} (h : i < xs.size) (d : α) :
    readAt err xs i = .ok (xs.getD i d) := by
  simp [readAt, h]

theorem writeAt_ok {err : Nat → Overrun} {xs : Array α} {i : Nat} (h : i < xs.size) (v : α) :
    writeAt err xs i v = .ok (xs.setIfInBounds i v) :=
  if_pos h

theorem getD_setIfInBounds {xs : Array α} {i : Nat} (h : i < xs.size) (v d : α) :
    (fun j => (xs.setIfInBounds i v).getD j d) = Function.update (fun j => xs.getD j d) i v := by
  funext j
  by_cases hj : j = i
  · subst hj
    simp [h]
  · rw [Function.update_of_ne hj]
    simp [Array.getElem?_setIfInBounds_ne (Ne.symm hj)]

end Arrays

/-! ## The loop -/

/-- The variables of `check_regs` between two accesses: the arrays, the
    out-state of the instruction at hand, and its successors still to be
    visited. -/
structure GateState where
  inM : Array U32
  pending : Array Bool
  out : U32
  succ : List U32

/-- The scan for the first pending instruction. -/
def findPending (pending : Array Bool) : List Nat → Except Overrun (Option Nat)
  | [] => .ok none
  | i :: is => do
    if ← readAt .pending pending i then
      pure (some i)
    else
      findPending pending is

/-- `in_m[s] &= out`, with `pending[s]` set when that changes the word. -/
def mergeAt (g : GateState) (s : Nat) : Except Overrun GateState := do
  let old ← readAt .inM g.inM s
  let merged := old &&& g.out
  if merged ≠ old then
    let inM ← writeAt .inM g.inM s merged
    let pending ← writeAt .pending g.pending s true
    pure { g with inM := inM, pending := pending }
  else
    pure g

section Loop
variable (ins : Array U64)

/-- The checks on a pending instruction, and its successors. -/
def visitAt (g : GateState) (pc : Nat) : Except Overrun (GateState ⊕ IcStatus) := do
  let pending ← writeAt .pending g.pending pc false
  let e ← readAt .ins ins pc
  let st ← readAt .inM g.inM pc
  if readsOk e st ∧ ¬ divByImmZero e then
    pure (.inl { g with
      pending := pending
      out := outState e st
      succ := insnSucc e (BitVec.ofNat 32 pc) })
  else
    pure (.inr .errValidate)

/-- A turn of the loop over the successors, or of the outer loop once they
    are done. -/
def gateTurn (g : GateState) : Except Overrun (GateState ⊕ IcStatus) :=
  match g.succ with
  | s :: succ =>
    if ins.size ≤ s.toNat then
      pure (.inr .errValidate)
    else
      return .inl (← mergeAt { g with succ := succ } s.toNat)
  | [] => do
    match ← findPending g.pending (List.range ins.size) with
    | none => pure (.inr .ok)
    | some pc => visitAt ins g pc

def gateStep (g : GateState) : GateState ⊕ Except Overrun IcStatus :=
  match gateTurn ins g with
  | .ok (.inl g') => .inl g'
  | .ok (.inr status) => .inr (.ok status)
  | .error o => .inr (.error o)

end Loop

/-- Every instruction pending and unconstrained, but for the entry. -/
def gateEntry (cnt : Nat) : Except Overrun GateState := do
  let inM ← writeAt .inM (Array.replicate cnt 0xFFFFFFFF) 0 (setType 0 1 T_CTX)
  pure { inM := inM, pending := Array.replicate cnt true, out := 0, succ := [] }

/-! ## The arrays as a worklist -/

/-- Both arrays have an element for each instruction. -/
structure GateState.Sized (g : GateState) (cnt : Nat) : Prop where
  inM : g.inM.size = cnt
  pending : g.pending.size = cnt

/-- The worklist state the arrays hold. -/
def GateState.worklist (g : GateState) : Worklist.State TypeWord where
  val := fun i => ⟨g.inM.getD i 0xFFFFFFFF⟩
  pending := fun i => g.pending.getD i false

/-- The instruction words as a function. -/
def wordsOf (ins : Array U64) : Nat → U64 := fun i => ins.getD i 0

/-- The variables after the checks on `pc` have passed. -/
def GateState.visited (g : GateState) (ins : Array U64) (pc : Nat) : GateState :=
  { g with
    pending := g.pending.setIfInBounds pc false
    out := outState (wordsOf ins pc) (g.worklist.val pc).bits
    succ := insnSucc (wordsOf ins pc) (BitVec.ofNat 32 pc) }

theorem findPending_eq {pending : Array Bool} {is : List Nat} (h : ∀ i ∈ is, i < pending.size) :
    findPending pending is = .ok (is.find? fun i => pending.getD i false) := by
  induction is with
  | nil => rfl
  | cons i is ih =>
    have hi : i < pending.size := h i List.mem_cons_self
    have hrest := ih fun j hj => h j (List.mem_cons_of_mem i hj)
    rw [findPending, readAt_ok hi false, List.find?_cons]
    cases hp : pending.getD i false with
    | true => rfl
    | false => exact hrest

/-- A merge into an instruction of the image. -/
theorem mergeAt_eq {g : GateState} {cnt s : Nat} (hg : g.Sized cnt) (hs : s < cnt) :
    ∃ g', mergeAt g s = .ok g' ∧ g'.Sized cnt ∧ g'.succ = g.succ ∧ g'.out = g.out ∧
      g'.worklist = Worklist.merge g.worklist s ⟨g.out⟩ := by
  have hinM : s < g.inM.size := by rw [hg.inM]; exact hs
  have hpending : s < g.pending.size := by rw [hg.pending]; exact hs
  unfold mergeAt Worklist.merge
  rw [readAt_ok hinM 0xFFFFFFFF]
  by_cases hchange : g.inM.getD s 0xFFFFFFFF &&& g.out ≠ g.inM.getD s 0xFFFFFFFF
  · -- both arrays are written
    have hword : g.worklist.val s ⊓ ⟨g.out⟩ ≠ g.worklist.val s := by
      intro heq
      exact hchange (congrArg TypeWord.bits heq)
    refine ⟨{ g with
      inM := g.inM.setIfInBounds s (g.inM.getD s 0xFFFFFFFF &&& g.out)
      pending := g.pending.setIfInBounds s true }, ?_, ?_, rfl, rfl, ?_⟩
    · simp only [bind, Except.bind, if_pos hchange, writeAt_ok hinM, writeAt_ok hpending]
      rfl
    · exact ⟨by simp [hg.inM], by simp [hg.pending]⟩
    · rw [if_pos hword]
      unfold GateState.worklist
      dsimp only
      rw [getD_setIfInBounds hpending]
      congr 1
      funext i
      have hval := congrFun (getD_setIfInBounds hinM (g.inM.getD s 0xFFFFFFFF &&& g.out)
        0xFFFFFFFF) i
      by_cases hi : i = s
      · subst hi
        rw [Function.update_self] at hval ⊢
        exact TypeWord.ext hval
      · rw [Function.update_of_ne hi] at hval ⊢
        exact TypeWord.ext hval
  · have hword : ¬ (g.worklist.val s ⊓ ⟨g.out⟩ ≠ g.worklist.val s) := by
      intro hne
      exact hne (TypeWord.ext (not_not.mp hchange))
    refine ⟨g, ?_, hg, rfl, rfl, ?_⟩
    · simp only [bind, Except.bind, if_neg hchange]
      rfl
    · rw [if_neg hword]

section Simulation
variable {ins : Array U64} {g : GateState}

/-! ## One step -/

/-- A turn of the loop over the successors. -/
theorem gateStep_succ {s : U32} {succ : List U32} (hg : g.Sized ins.size)
    (hsucc : g.succ = s :: succ) (hs : s.toNat < ins.size) :
    ∃ g', gateStep ins g = .inl g' ∧ g'.Sized ins.size ∧ g'.succ = succ ∧ g'.out = g.out ∧
      g'.worklist = Worklist.merge g.worklist s.toNat ⟨g.out⟩ := by
  have hg' : GateState.Sized { g with succ := succ } ins.size := ⟨hg.inM, hg.pending⟩
  obtain ⟨g', hmerge, hrest⟩ := mergeAt_eq hg' hs
  refine ⟨g', ?_, hrest⟩
  unfold gateStep gateTurn
  rw [hsucc]
  simp only [if_neg (Nat.not_le_of_lt hs), hmerge]
  rfl

/-- A successor outside the image rejects it. -/
theorem gateStep_leaves {s : U32} {succ : List U32} (hsucc : g.succ = s :: succ)
    (hs : ins.size ≤ s.toNat) : gateStep ins g = .inr (.ok .errValidate) := by
  unfold gateStep gateTurn
  rw [hsucc]
  simp only [if_pos hs]
  rfl

/-- The scan finds what the worklist finds. -/
theorem findPending_worklist (hg : g.Sized ins.size) :
    findPending g.pending (List.range ins.size) =
      .ok (Worklist.firstPending ins.size g.worklist.pending) := by
  apply findPending_eq
  intro i hi
  rw [hg.pending]
  exact List.mem_range.mp hi

/-- Nothing pending: the image is accepted. -/
theorem gateStep_done (hg : g.Sized ins.size) (hsucc : g.succ = [])
    (hnone : Worklist.firstPending ins.size g.worklist.pending = none) :
    gateStep ins g = .inr (.ok .ok) := by
  unfold gateStep gateTurn
  rw [hsucc]
  simp only [findPending_worklist hg, hnone]
  rfl

/-- The checks on the first pending instruction. -/
theorem gateStep_visit {pc : Nat} (hg : g.Sized ins.size) (hsucc : g.succ = [])
    (hsome : Worklist.firstPending ins.size g.worklist.pending = some pc) :
    gateStep ins g =
      if (regAnalysis (wordsOf ins)).check pc (g.worklist.val pc) then .inl (g.visited ins pc)
      else .inr (.ok .errValidate) := by
  have hpc : pc < ins.size := (Worklist.firstPending_some hsome).1
  have hpending : pc < g.pending.size := by rw [hg.pending]; exact hpc
  have hinM : pc < g.inM.size := by rw [hg.inM]; exact hpc
  unfold gateStep gateTurn visitAt
  rw [hsucc]
  simp only [findPending_worklist hg, hsome, bind, Except.bind, writeAt_ok hpending,
    readAt_ok hpc 0, readAt_ok hinM 0xFFFFFFFF]
  by_cases hcheck : readsOk (ins.getD pc 0) (g.inM.getD pc 0xFFFFFFFF) = true ∧
      ¬ divByImmZero (ins.getD pc 0) = true
  · have hpass : (regAnalysis (wordsOf ins)).check pc (g.worklist.val pc) = true :=
      decide_eq_true hcheck
    rw [if_pos hcheck, if_pos hpass]
    rfl
  · have hfail : ¬ (regAnalysis (wordsOf ins)).check pc (g.worklist.val pc) = true :=
      fun h => hcheck (of_decide_eq_true h)
    rw [if_neg hcheck, if_neg hfail]
    rfl

variable (ins) in
/-- A visit clears the flag and writes nothing else. -/
theorem visited_worklist {pc : Nat} (hpc : pc < g.pending.size) :
    (g.visited ins pc).worklist =
      { g.worklist with pending := Function.update g.worklist.pending pc false } := by
  unfold GateState.worklist GateState.visited
  dsimp only
  rw [getD_setIfInBounds hpc]

theorem visited_sized {pc : Nat} (hg : g.Sized ins.size) : (g.visited ins pc).Sized ins.size :=
  ⟨hg.inM, by simp [GateState.visited, hg.pending]⟩

/-- Step lemma: whatever the loop has pending, one more step stays inside
    the arrays and no type word gains a bit. -/
theorem gateStep_cases (hg : g.Sized ins.size) :
    (∃ g', gateStep ins g = .inl g' ∧ g'.Sized ins.size ∧
      ∀ i, g'.worklist.val i ≤ g.worklist.val i) ∨
    ∃ status, gateStep ins g = .inr (.ok status) := by
  cases hsucc : g.succ with
  | cons s succ =>
    by_cases hs : s.toNat < ins.size
    · -- a merge is a meet
      obtain ⟨g', hstep, hsized, _, _, hmerge⟩ := gateStep_succ hg hsucc hs
      refine .inl ⟨g', hstep, hsized, fun i => ?_⟩
      rw [hmerge]
      exact (Worklist.merge_lowers _ _ _).val_le i
    · exact .inr ⟨_, gateStep_leaves hsucc (Nat.le_of_not_lt hs)⟩
  | nil =>
    cases hpc : Worklist.firstPending ins.size g.worklist.pending with
    | none => exact .inr ⟨_, gateStep_done hg hsucc hpc⟩
    | some pc =>
      have hvisit := gateStep_visit hg hsucc hpc
      split at hvisit
      · -- a visit writes `pending` only
        exact .inl ⟨_, hvisit, visited_sized hg, fun i => le_refl _⟩
      · exact .inr ⟨_, hvisit⟩

theorem gateStep_inl {g' : GateState} (hg : g.Sized ins.size) (h : gateStep ins g = .inl g') :
    g'.Sized ins.size ∧ ∀ i, g'.worklist.val i ≤ g.worklist.val i := by
  rcases gateStep_cases hg with ⟨g₁, hstep, hstays⟩ | ⟨status, hstep⟩
  · obtain rfl : g₁ = g' := Sum.inl.inj (hstep.symm.trans h)
    exact hstays
  · cases hstep.symm.trans h

/-- No access leaves the arrays. -/
theorem gateStep_inBounds (hg : g.Sized ins.size) (o : Overrun) :
    gateStep ins g ≠ .inr (.error o) := by
  intro h
  rcases gateStep_cases hg with ⟨g₁, hstep, _⟩ | ⟨status, hstep⟩
  · cases hstep.symm.trans h
  · cases hstep.symm.trans h

/-! ## One round -/

/-- The loop over the successors is the worklist's propagation: it comes to
    its end with the same state, or to the successor that rejects. -/
theorem gate_propagates {o : Option (Worklist.State TypeWord)} (hg : g.Sized ins.size)
    (h : Worklist.propagate ins.size ⟨g.out⟩ (g.succ.map BitVec.toNat) g.worklist = o) :
    ∃ g', Exec.Reaches (gateStep ins) g g' ∧
      (∀ st, o = some st → g'.Sized ins.size ∧ g'.succ = [] ∧ g'.worklist = st) ∧
      (o = none → gateStep ins g' = .inr (.ok .errValidate)) := by
  generalize hsucc : g.succ = succ at h
  induction succ generalizing g with
  | nil =>
    refine ⟨g, .refl, ?_, ?_⟩
    · rintro st rfl
      exact ⟨hg, hsucc, Option.some.inj h⟩
    · rintro rfl
      cases h
  | cons s succ ih =>
    rw [List.map_cons, Worklist.propagate] at h
    split at h
    · next hs =>
      obtain ⟨g₁, hstep, hsized, hsucc₁, hout, hmerge⟩ := gateStep_succ hg hsucc hs
      rw [← hmerge, ← hout] at h
      obtain ⟨g', hreach, hrest⟩ := ih hsized hsucc₁ h
      exact ⟨g', hreach.head hstep, hrest⟩
    · next hs =>
      subst h
      refine ⟨g, .refl, ?_, fun _ => gateStep_leaves hsucc (Nat.le_of_not_lt hs)⟩
      intro st hst
      cases hst

/-- Between two rounds the arrays hold a worklist state. -/
structure Holds (ins : Array U64) (g : GateState) (st : Worklist.State TypeWord) : Prop where
  sized : g.Sized ins.size
  done : g.succ = []
  holds : g.worklist = st

def gateVerdict (b : Bool) : Except Overrun IcStatus := .ok (if b then .ok else .errValidate)

theorem Holds.round {st st' : Worklist.State TypeWord} (h : Holds ins g st)
    (hstep : Worklist.step (regAnalysis (wordsOf ins)) ins.size st = .inl st') :
    ∃ g', Exec.Reaches (gateStep ins) g g' ∧ Holds ins g' st' := by
  obtain ⟨hg, hsucc, rfl⟩ := h
  obtain ⟨pc, hpc, hcheck, hprop⟩ := Worklist.step_inl hstep
  have hvisit := gateStep_visit hg hsucc hpc
  rw [if_pos hcheck] at hvisit
  have hpending : pc < g.pending.size := by
    rw [hg.pending]
    exact (Worklist.firstPending_some hpc).1
  rw [← visited_worklist ins hpending] at hprop
  obtain ⟨g', hreach, hends, -⟩ := gate_propagates (visited_sized hg) hprop
  obtain ⟨hsized, hdone, hholds⟩ := hends st' rfl
  exact ⟨g', hreach.head hvisit, hsized, hdone, hholds⟩

theorem Holds.verdict {st : Worklist.State TypeWord} {b : Bool} (h : Holds ins g st)
    (hstep : Worklist.step (regAnalysis (wordsOf ins)) ins.size st = .inr b) :
    ∃ g', Exec.Reaches (gateStep ins) g g' ∧ gateStep ins g' = .inr (gateVerdict b) := by
  obtain ⟨hg, hsucc, rfl⟩ := h
  unfold Worklist.step at hstep
  cases hpc : Worklist.firstPending ins.size g.worklist.pending with
  | none =>
    rw [hpc] at hstep
    obtain rfl : true = b := Sum.inr.inj hstep
    exact ⟨g, .refl, gateStep_done hg hsucc hpc⟩
  | some pc =>
    have hvisit := gateStep_visit hg hsucc hpc
    have hpending : pc < g.pending.size := by
      rw [hg.pending]
      exact (Worklist.firstPending_some hpc).1
    rw [hpc] at hstep
    dsimp only at hstep
    split at hstep
    · next hcheck =>
      -- rejected by a successor
      rw [if_pos hcheck] at hvisit
      split at hstep
      · cases hstep
      · next hprop =>
        obtain rfl : false = b := Sum.inr.inj hstep
        rw [← visited_worklist ins hpending] at hprop
        obtain ⟨g', hreach, -, hlast⟩ := gate_propagates (visited_sized hg) hprop
        exact ⟨g', hreach.head hvisit, hlast rfl⟩
    · next hcheck =>
      -- rejected by a check
      obtain rfl : false = b := Sum.inr.inj hstep
      rw [if_neg hcheck] at hvisit
      exact ⟨g, .refl, hvisit⟩

/-! ## Whole runs -/

/-- A run of the array loop from `g₀`: it ends with the status of
    `checkRegs`, no access on the way leaves the arrays, and each type word
    is included in what it was at any earlier point. -/
structure GateRuns (ins : Array U64) (g₀ : GateState) : Prop where
  ends : ∃ fuel, Exec.run (gateStep ins) fuel g₀ = some (.ok (checkRegs (wordsOf ins) ins.size))
  inBounds : ∀ g, Exec.Reaches (gateStep ins) g₀ g → ∀ o, gateStep ins g ≠ .inr (.error o)
  falling : ∀ g g', Exec.Reaches (gateStep ins) g₀ g → Exec.Reaches (gateStep ins) g g' →
    ∀ pc < ins.size, ∃ v v', g.inM[pc]? = some v ∧ g'.inM[pc]? = some v' ∧ v' &&& v = v'

theorem Sized.of_reaches {g' : GateState} (hg : g.Sized ins.size)
    (h : Exec.Reaches (gateStep ins) g g') : g'.Sized ins.size :=
  h.invariant (I := fun g => g.Sized ins.size) (fun _ _ hs hstep => (gateStep_inl hs hstep).1) hg

theorem worklist_falls {g' : GateState} (hg : g.Sized ins.size)
    (h : Exec.Reaches (gateStep ins) g g') (i : Nat) : g'.worklist.val i ≤ g.worklist.val i := by
  refine (h.invariant (I := fun g' => g'.Sized ins.size ∧
    g'.worklist.val i ≤ g.worklist.val i) (fun g₁ g₂ hs hstep => ?_) ⟨hg, le_refl _⟩).2
  obtain ⟨hsized, hle⟩ := gateStep_inl hs.1 hstep
  exact ⟨hsized, (hle i).trans hs.2⟩

end Simulation

/-- The entry write is inside `in_m` when there is an instruction, and
    leaves the worklist's entry. -/
theorem gateEntry_holds {ins : Array U64} (hpos : 0 < ins.size) :
    ∃ g₀, gateEntry ins.size = .ok g₀ ∧ Holds ins g₀ (regEntry ins.size) := by
  have hsize : 0 < (Array.replicate ins.size (0xFFFFFFFF : U32)).size := by simpa using hpos
  refine ⟨_, by simp only [gateEntry, writeAt_ok hsize]; rfl, ⟨by simp, by simp⟩, rfl, ?_⟩
  unfold GateState.worklist regEntry
  dsimp only
  congr 1
  · funext i
    have hval := congrFun (getD_setIfInBounds hsize (setType 0 1 T_CTX) 0xFFFFFFFF) i
    by_cases hi : i = 0
    · subst hi
      rw [Function.update_self] at hval ⊢
      exact TypeWord.ext hval
    · rw [Function.update_of_ne hi] at hval ⊢
      refine TypeWord.ext (hval.trans ?_)
      by_cases hlt : i < ins.size <;> simp [hlt]
  · funext i
    by_cases hlt : i < ins.size <;> simp [hlt]

/-- **The register gate ends in bounds.** For any words whatever, at least
    one: the loop reaches its status, every index stays below their number,
    and every type word only loses bits. -/
theorem checkRegs_bounded (ins : Array U64) (hpos : 1 ≤ ins.size) :
    ∃ g₀, gateEntry ins.size = .ok g₀ ∧ GateRuns ins g₀ := by
  obtain ⟨g₀, hentry, hholds⟩ := gateEntry_holds hpos
  refine ⟨g₀, hentry, ?_, fun g hg => ?_, fun g g' hg hg' pc hpc => ?_⟩
  · obtain ⟨b, hb⟩ := checkRegs_terminates (wordsOf ins) ins.size
    have hround : ∀ g st st', Holds ins g st →
        Worklist.step (regAnalysis (wordsOf ins)) ins.size st = .inl st' →
        ∃ g', Exec.Reaches (gateStep ins) g g' ∧ Holds ins g' st' := fun _ _ _ h => h.round
    have hverdict : ∀ g st b, Holds ins g st →
        Worklist.step (regAnalysis (wordsOf ins)) ins.size st = .inr b →
        ∃ g', Exec.Reaches (gateStep ins) g g' ∧ gateStep ins g' = .inr (gateVerdict b) :=
      fun _ _ _ h => h.verdict
    obtain ⟨fuel, hfuel⟩ := Exec.run_simulates hround hverdict hholds hb
    refine ⟨fuel, hfuel.trans ?_⟩
    unfold checkRegs gateVerdict
    rw [hb]
    cases b <;> rfl
  · exact gateStep_inBounds (Sized.of_reaches hholds.sized hg)
  · have hsized := Sized.of_reaches hholds.sized hg
    have hsized' := Sized.of_reaches hsized hg'
    have hle := worklist_falls hsized hg' pc
    have hin : pc < g.inM.size := by rw [hsized.inM]; exact hpc
    have hin' : pc < g'.inM.size := by rw [hsized'.inM]; exact hpc
    refine ⟨g.inM[pc], g'.inM[pc], by simp, by simp, ?_⟩
    have hbits := (TypeWord.le_iff _ _).mp hle
    simpa [GateState.worklist, hin, hin'] using hbits

/-- `ja -1`, an image of one instruction that jumps to itself. -/
theorem checkRegs_bounded_selfLoop :
    ∃ g₀, gateEntry 1 = .ok g₀ ∧ GateRuns #[0xffff0005] g₀ :=
  checkRegs_bounded #[0xffff0005] (by decide)

end Interclus

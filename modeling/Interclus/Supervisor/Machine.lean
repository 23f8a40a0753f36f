import Interclus.Framework.System
import Interclus.Supervisor.Boot

/-! # Whole Runs

    The supervisor as a transition system: boot, traps out of U-mode, the
    service loop of the board, the harness calls of the QEMU target, and
    what transports stage from outside.  A step without a defined outcome
    has no successor. -/

namespace Interclus

open Words LTS

/-! ## U-mode -/

/-- What a compartment can leave in memory: the monitor its result slots,
    the attacker its own box, the native module its proof word. -/
inductive UserEffect where
  | monitor (verdicts insns screenVerd screenInsns nativeVerd map : Nat → U32) (progFault : U32)
  | attacker (own proof : U32)
  | native (proof : U32)

def UserEffect.comp : UserEffect → Nat
  | .monitor .. => 0
  | .attacker .. => 1
  | .native .. => 2

def UserEffect.apply (s : Sup) : UserEffect → Sup
  | .monitor verdicts insns screenVerd screenInsns nativeVerd map progFault =>
    { s with mon := { s.mon with
        verdicts := verdicts, insns := insns, screenVerd := screenVerd
        screenInsns := screenInsns, nativeVerd := nativeVerd, map := map
        progFault := progFault } }
  | .attacker own proof => { s with atkOwn := own, atkProof := proof }
  | .native proof => s.setProof s.natLive proof

/-! ## Traps -/

/-- The forensics ring of `trap_entry`. -/
def ringRecord (cause addr : U32) (s : Sup) : Sup :=
  { s with
    riCause := fun i => if i = s.riIndex.toNat then cause else s.riCause i
    riAddr := fun i => if i = s.riIndex.toNat then addr else s.riAddr i
    riIndex := if (s.riIndex + 1).slt 8 then s.riIndex + 1 else 7 }

/-- `trap_entry` for an `ecall`. -/
def trapEcall (b : Build) (regs : Fin 32 → U32) (s : Sup) : Sup :=
  supervisorResume b { s with comp := saveTcb regs s.comp }

/-- `trap_entry` for any other trap out of U-mode. -/
def trapFault (b : Build) (cause addr : U32) (regs : Fin 32 → U32) (s : Sup) : Sup :=
  let s := ringRecord cause addr s
  supervisorFault b cause { s with comp := saveTcb regs s.comp }

/-! ## Events -/

inductive Event where
  | user (eff : UserEffect)
  | ecall (regs : Fin 32 → U32)
  | fault (cause addr : U32) (regs : Fin 32 → U32)
  /-- A turn of the service loop, with the frame that arrived. -/
  | turn (frame : Option ConsoleFrame)
  /-- The calls of the QEMU harness. -/
  | poll (frame : Option ConsoleFrame)
  | swap
  | finalize
  | round
  | beat
  /-- A transport writes the staging window and the mailbox. -/
  | stage (pend : Mem) (pendOk : U32) (mailbox : Mem)
  /-- A reset, with what the program area holds by then. -/
  | reset (area : Mem) (input : BootInput)

/-- One step; `none` where the event cannot happen or has no outcome. -/
def machineStep (b : Build) (s : Sup) : Event → Option Sup
  | .user eff =>
    match s.ctl with
    | .user e => if eff.comp = e.comp then some (eff.apply s) else none
    | _ => none
  | .ecall regs =>
    match s.ctl with
    | .user _ => some (trapEcall b regs s)
    | _ => none
  | .fault cause addr regs =>
    match s.ctl with
    | .user _ => some (trapFault b cause addr regs s)
    | _ => none
  | .turn frame =>
    match s.ctl with
    | .service seen => serviceTurn b seen frame s
    | _ => none
  | .poll frame =>
    match s.ctl with
    | .swept => some (chanPoll frame s).2
    | _ => none
  | .swap =>
    match s.ctl with
    | .swept => hotSwap b s
    | _ => none
  | .finalize =>
    match s.ctl with
    | .swept => some (hotUpdateFinalize s)
    | _ => none
  | .round =>
    match s.ctl with
    | .swept => some (hotRound b s)
    | _ => none
  | .beat =>
    match s.ctl with
    | .halted => some (s.incStatus 3)
    | _ => none
  | .stage pend pendOk mailbox => some { s with pend := pend, pendOk := pendOk, mailbox := mailbox }
  | .reset area input => some (bootMain b input { s with progArea := area })

/-- What each event does, where it can happen. -/
inductive Moved (b : Build) (s : Sup) : Event → Sup → Prop where
  | user (u : UserEntry) (eff : UserEffect) : s.ctl = .user u → eff.comp = u.comp →
      Moved b s (.user eff) (eff.apply s)
  | ecall (u : UserEntry) (regs : Fin 32 → U32) : s.ctl = .user u →
      Moved b s (.ecall regs) (trapEcall b regs s)
  | fault (u : UserEntry) (cause addr : U32) (regs : Fin 32 → U32) : s.ctl = .user u →
      Moved b s (.fault cause addr regs) (trapFault b cause addr regs s)
  | turn (seen : U32) (frame : Option ConsoleFrame) (s' : Sup) : s.ctl = .service seen →
      serviceTurn b seen frame s = some s' → Moved b s (.turn frame) s'
  | poll (frame : Option ConsoleFrame) : s.ctl = .swept →
      Moved b s (.poll frame) (chanPoll frame s).2
  | swap (s' : Sup) : s.ctl = .swept → hotSwap b s = some s' → Moved b s .swap s'
  | finalize : s.ctl = .swept → Moved b s .finalize (hotUpdateFinalize s)
  | round : s.ctl = .swept → Moved b s .round (hotRound b s)
  | beat : s.ctl = .halted → Moved b s .beat (s.incStatus 3)
  | stage (pend : Mem) (pendOk : U32) (mailbox : Mem) :
      Moved b s (.stage pend pendOk mailbox)
        { s with pend := pend, pendOk := pendOk, mailbox := mailbox }
  | reset (area : Mem) (input : BootInput) :
      Moved b s (.reset area input) (bootMain b input { s with progArea := area })

/-- **Inversion.** A step that happens did what its event does. -/
theorem machineStep_moved {b : Build} {s s' : Sup} {e : Event} (h : machineStep b s e = some s') :
    Moved b s e s' := by
  unfold machineStep at h
  split at h
  · split at h
    · next u hctl =>
      split at h
      · next heff =>
        cases h
        exact .user u _ hctl heff
      · cases h
    · cases h
  · split at h
    · next u hctl =>
      cases h
      exact .ecall u _ hctl
    · cases h
  · split at h
    · next u hctl =>
      cases h
      exact .fault u _ _ _ hctl
    · cases h
  · split at h
    · next seen hctl => exact .turn seen _ _ hctl h
    · cases h
  · split at h
    · next hctl =>
      cases h
      exact .poll _ hctl
    · cases h
  · split at h
    · next hctl => exact .swap _ hctl h
    · cases h
  · split at h
    · next hctl =>
      cases h
      exact .finalize hctl
    · cases h
  · split at h
    · next hctl =>
      cases h
      exact .round hctl
    · cases h
  · split at h
    · next hctl =>
      cases h
      exact .beat hctl
    · cases h
  · cases h
    exact .stage _ _ _
  · cases h
    exact .reset _ _

/-- The events of a round: U-mode, its traps, and transports that stage
    meanwhile. -/
def InRound : Event → Prop
  | .user _ | .ecall _ | .fault .. | .stage .. => True
  | _ => False

/-- Started by a boot from any memory. -/
def machine (b : Build) : System Sup Event where
  init s := ∃ raw input, s = bootMain b input raw
  step s e s' := machineStep b s e = some s'

/-- What a run from a boot reaches is reachable. -/
theorem reachable_of_run {b : Build} {input : BootInput} {raw s : Sup} {es : List Event}
    (h : run (machineStep b) (bootMain b input raw) es = some s) : Reachable (machine b) s := by
  have hsteps : StepsFrom (machine b) (bootMain b input raw) es s := .of_run (fun _ _ _ => id) h
  exact hsteps.reachable (.init ⟨raw, input, rfl⟩)

end Interclus

import Interclus.Supervisor.Schedule

/-! # Boot

    `boot_gate`, `load_program`, `uart_load` and `boot_main` of
    `modules/supervisor.c`: from raw memory to the first compartment. -/

namespace Interclus

open Words

/-! ## The boot gate -/

/-- `spec_match`. -/
def specMatch (a b : IcCompartmentSpec) : Bool := a = b

/-- The checks of `boot_gate`, in order, with the code of each. -/
def bootChecks (t : Target) : List (Bool × U32) :=
  let mon : IcCompartmentSpec := ⟨MON_TEXT t, 8192, MON_BOX t, 8192⟩
  let atk : IcCompartmentSpec := ⟨ATK_TEXT t, 8192, ATK_BOX t, 8192⟩
  [(icCompartmentCheck (some (icCompMonitor t)) = .ok, 1),
   (icCompartmentCheck (some (icCompAttacker t)) = .ok, 2),
   (icModuleCheck (some (icModuleMonitor t)) = .ok, 3),
   (icModuleCheck (some (icModuleAttacker t)) = .ok, 4),
   (icModuleCheck (some icModuleMavlink) = .ok, 5),
   (icModuleCheck (some icModuleScreening) = .ok, 6),
   (specMatch (icCompMonitor t) mon, 7),
   (specMatch (icCompAttacker t) atk, 8),
   (icCompartmentCheck (some (icCompNative t)) = .ok, 9),
   (icModuleCheck (some (icModuleNativedemo t)) = .ok, 10),
   (specMatch (icCompNative t) (natSpec t 0), 11),
   (icCompartmentCheck (some (natSpec t 1)) = .ok, 12)]

/-- `boot_gate`: the code of the first check that fails, 0 when all pass. -/
def bootGate (t : Target) : U32 :=
  match (bootChecks t).find? fun c => !c.1 with
  | some c => c.2
  | none => 0

/-- The shipped descriptions pass their own gate on both targets. -/
theorem bootGate_eq_zero (t : Target) : bootGate t = 0 := by
  cases t <;> decide

/-! ## The boot program -/

/-- `uart_load`: a program frame of the boot window lands in `PROG_AREA`. -/
def uartLoad (frame : Option (List U8)) (s : Sup) : Sup :=
  match frame with
  | none => s
  | some bytes =>
    { s with progArea := memcpy s.progArea (fun i => bytes.getD i 0) bytes.length }

/-- What `load_program` clears first. -/
def loadReset (s : Sup) : Sup :=
  let s := { s with mon := { s.mon with progCnt := 0, progBCnt := 0, progFault := 0 } }
  [S_LOAD, S_HLOAD, S_HREJ, S_ROLL, S_REARM, S_PREEMPT, S_TXABORT].foldl
    (fun s i => s.setStatus i 0) s

/-- `load_program`. -/
def loadProgram (b : Build) (s : Sup) : Sup :=
  let s := loadReset s
  if le32 s.progArea 0 ≠ PROG_MAGIC then s
  else
    let cnt := le32 s.progArea 4
    if cnt = 0 ∨ IC_PROG_MAX_INSNS < cnt then s.setStatus S_LOAD 2
    else if icModuleCheck (some (progDesc b.target cnt)) ≠ .ok then s.setStatus S_LOAD 3
    else
      let src := insnWords fun i => s.progArea (8 + i)
      let s := { s with mon := { s.mon with
        prog := fun i => if i < cnt.toNat then src i else s.mon.prog i } }
      if icProgramCheck (some s.mon.prog) cnt ≠ .ok then s.setStatus S_LOAD 4
      else { s with mon := { s.mon with progCnt := cnt } }.setStatus S_LOAD 1

/-! ## The boot fuzz -/

def xorshift (st : U32) : U32 :=
  let st := st ^^^ (st <<< 13)
  let st := st ^^^ (st >>> 17)
  st ^^^ (st <<< 5)

/-- One random image of eight instructions, and the generator behind it. -/
def fuzzImage (st : U32) : U32 × List U64 :=
  (List.range 8).foldl (fun (st, ins) _ =>
    let lo := xorshift st
    let hi := xorshift lo
    (hi, ins ++ [lo.setWidth 64 ||| (hi.setWidth 64 <<< 32)])) (st, [])

/-- The verdicts on `rounds` random images: accepted and rejected. -/
def bootFuzz (rounds : Nat) : U32 × U32 :=
  let (_, acc, rej) := (List.range rounds).foldl (fun (st, acc, rej) _ =>
    let (st, ins) := fuzzImage st
    if icProgramCheck (some fun i => ins.getD i 0) 8 = .ok then (st, acc + 1, rej)
    else (st, acc, rej + 1)) ((0xC0FFEE1 : U32), (0 : U32), (0 : U32))
  (acc, rej)

/-! ## The native slots -/

/-- The table before the restore loop: the built-in demo in slot 0. -/
def natBuiltin (b : Build) (s : Sup) : Sup :=
  let s := s.setText 0 (memcpy (s.natText 0) b.demo b.demoLen.toNat)
  let s := (s.setNat 0 ⟨b.demoLen, 0, true, false⟩).setNat 1 ⟨0, 0, false, false⟩
  { s with natLive := 0, natRetired := false }

/-- One iteration of the restore loop. -/
def restoreSlot (b : Build) (s : Sup) (k : Fin 2) : Sup :=
  let r := flashMirrorRead s.mirror (BitVec.ofNat 32 k) (s.natText k) MIR_CODE_MAX (s.nat k).entry
  -- the out-parameters are the live table entry and the slot text
  let s := (s.setNat k { s.nat k with entry := r.entry }).setText k r.out
  if r.len = 0 then s
  else if icModuleCheck (some (natDesc b.target k (s.nat k).entry)) ≠ .ok then s.setProof k 0
  else { s.setNat k ⟨r.len, (s.nat k).entry, true, false⟩ with natLive := k }

/-- The restore loop of `boot_main`. -/
def bootRestore (b : Build) (s : Sup) : Sup := [0, 1].foldl (restoreSlot b) s

/-! ## The boot path -/

/-- What boot meets on its wires: the frame of the boot window, and whether
    the loopback of the board echoed. -/
structure BootInput where
  frame : Option (List U8)
  loopback : Bool

/-- `STATUS_NAME`: the bytes of the boot message, padded to words. -/
def nameBytes : Mem := fun i =>
  ([0x50, 0x4D, 0x50, 0x2D, 0x45, 0x42, 0x50, 0x46, 0x2D, 0x33, 0, 0] : List U8).getD i 0

/-- The status window of a fresh session, past the gate. -/
def bootStatus (b : Build) (input : BootInput) (s : Sup) : Sup :=
  let s := s.setStatus S_GATE 0xC0DE0000
  let s := (s.setStatus 0 0xDEADBEEF).setStatus 1 0xC0DE0008
  let s := s.setStatusRange (statusNameWord b.target) 3 fun i => le32 nameBytes (4 * i)
  let s := (s.setStatus S_UTX (s.clock 1 - s.clock 0)).ticked.ticked
  match b.target with
  | .qemu => s
  | .board => s.setStatus S_URX (if input.loopback then 1 else 0)

/-- `boot_main`. -/
def bootMain (b : Build) (input : BootInput) (s : Sup) : Sup :=
  let s := s.setStatusRange 0 STATUS_WORDS fun _ => 0
  let gate := bootGate b.target
  if gate ≠ 0 then { s.setStatus S_GATE (0xC0DE0000 ||| gate) with ctl := .halted }
  else
    let s := bootStatus b input s
    let s := loadProgram b (uartLoad input.frame s)
    let s := { s with update := updateReset, updateHload := 0, updateHrej := 0, pendOk := 0 }
    let fuzz := bootFuzz 2048
    let s := (s.setStatus S_FUZZA fuzz.1).setStatus S_FUZZR fuzz.2
    scheduleRound b (bootRestore b (natBuiltin b s))

end Interclus

import Interclus.Host.UpdateClient
import Interclus.Supervisor.Carried

/-! # The Link

    The update client and the board's supervisor on one console: two FIFO
    channels that lose and delay, and corrupted frames the checksums
    catch.  `log` is ghost state: what the device accepted and promoted
    since the current transfer started. -/

namespace Interclus

open Words LTS

/-- What the log records. -/
inductive DevEvent where
  /-- A BEGIN of this id was accepted. -/
  | began (id : U32)
  /-- `hot_swap` promoted these staged bytes. -/
  | promoted (pend : Mem)

structure Link where
  dev : Sup
  host : Client
  toDev : List (List U8)
  toHost : List (List U8)
  log : List DevEvent

/-! ## The device side -/

/-- An update frame in the stage of the assembler. -/
def updateFrame (bytes : List U8) : ConsoleFrame := ⟨FRAME_UPDATE, bytes.length, listMem bytes⟩

/-- The device moved to `s'`, started with an empty transmitter. -/
def Link.moved (l : Link) (s' : Sup) (events : List DevEvent) : Link :=
  { l with
    dev := { s' with tx := [] }
    toHost := l.toHost ++ replyPayloads s'.tx
    log := l.log ++ events }

/-- The BEGIN a turn accepts. -/
def beganEvents (bytes : Option (List U8)) (s : Sup) : List DevEvent :=
  match bytes with
  | some f =>
    if listMem f 0 = UPDATE_OP_BEGIN ∧
        (updateProcess s.update (listMem f) f.length s.pend s.pendOk).ret then
      [.began (le32 (listMem f) 1)]
    else []
  | none => []

/-- The promotion of a turn, from the state its poll leaves. -/
def promotedEvents (b : Build) (polled : Sup) : List DevEvent :=
  match hotSwap b polled with
  | some s' => if s'.status S_HLOAD ≠ polled.status S_HLOAD then [.promoted polled.pend] else []
  | none => []

/-- What a turn of the service loop adds to the log. -/
def turnEvents (b : Build) (bytes : Option (List U8)) (s : Sup) : List DevEvent :=
  beganEvents bytes s ++ promotedEvents b (chanPoll (bytes.map updateFrame) s).2

/-- One turn of the service loop. -/
def Link.turn (b : Build) (bytes : Option (List U8)) (l : Link) : Option Link :=
  match l.dev.ctl with
  | .service seen =>
    let s := { l.dev with tx := [] }
    (serviceTurn b seen (bytes.map updateFrame) s).map fun s' =>
      l.moved s' (turnEvents b bytes s)
  | _ => none

/-- The events of a schedule round. -/
def Event.ofRound : Event → Bool
  | .user _ => true
  | .ecall _ => true
  | .fault .. => true
  | .beat => true
  | _ => false

/-! ## The host side -/

/-- The client moved, and sent frames. -/
def Link.hostMoved (l : Link) (r : Client × List (List U8)) : Link :=
  { l with host := r.1, toDev := l.toDev ++ r.2 }

/-- `transfer` can be called. -/
def ClientPc.free : ClientPc → Bool
  | .ready => true
  | .returned _ => true
  | .raised => true
  | _ => false

/-! ## Steps -/

inductive LinkEvent where
  | start (tid : U32) (image : List U8)
  | recv
  | timeout
  /-- A turn that takes the next frame. -/
  | deliver
  /-- A turn without a frame. -/
  | idle
  /-- A turn that takes a frame whose corruption the CRC shows. -/
  | corrupted (bytes : List U8)
  | round (e : Event)
  | loseFrame (i : Nat)
  | loseReply (i : Nat)

def LinkEvent.isStart : LinkEvent → Bool
  | .start .. => true
  | _ => false

def linkStep (b : Build) (l : Link) : LinkEvent → Option Link
  | .start tid image =>
    if l.host.pc.free then
      some (Link.hostMoved { l with log := [] } (l.host.start tid image))
    else none
  | .recv =>
    match l.toHost with
    | [] => none
    | payload :: rest =>
      let l := { l with toHost := rest }
      match decodeReply payload with
      | some r => some (l.hostMoved (l.host.receive r))
      | none => some l
  | .timeout => some (l.hostMoved l.host.timeout)
  | .deliver =>
    match l.toDev with
    | [] => none
    | bytes :: rest => Link.turn b (some bytes) { l with toDev := rest }
  | .idle => l.turn b none
  | .corrupted bytes =>
    if crcOk (listMem bytes) bytes.length then none else l.turn b (some bytes)
  | .round e =>
    if e.ofRound then
      (machineStep b { l.dev with tx := [] } e).map fun s' => l.moved s' []
    else none
  | .loseFrame i => some { l with toDev := l.toDev.eraseIdx i }
  | .loseReply i => some { l with toHost := l.toHost.eraseIdx i }

/-- Started with silent channels and a device in any state it can be in. -/
def linkSystem (b : Build) : System Link LinkEvent where
  init l := Reachable (machine b) l.dev ∧ l.host.pc = .ready ∧ l.toDev = [] ∧ l.toHost = []
  step l e l' := linkStep b l e = some l'

/-- Take events in order. -/
def linkRun (b : Build) (l : Link) : List LinkEvent → Option Link
  | [] => some l
  | e :: es => (linkStep b l e).bind fun l' => linkRun b l' es

theorem linkRun_stepsFrom {b : Build} {l l' : Link} {es : List LinkEvent}
    (h : linkRun b l es = some l') : StepsFrom (linkSystem b) l es l' := by
  induction es generalizing l with
  | nil =>
    cases h
    exact .nil _
  | cons e es ih =>
    obtain ⟨l₁, hstep, hrest⟩ := Option.bind_eq_some_iff.mp h
    exact .cons e es hstep (ih hrest)

end Interclus

import Interclus.Console.Polling
import Interclus.Framework.Ring
import Interclus.Host.UpdateFrame

/-! # The Debugger as the Wire

    The ring words at `VUART` of `core/platform.h` and the two ends of
    them: `uart_getc` and `uart_tap` of `core/uart.c` on the board, `vsend`
    and `pump` of `tools/chan_board.py` on the host, which reaches a word
    at a time while the board runs.

    Every access to a word that the other end may write is a step of its
    own, and the two ends interleave freely.  Nothing arrives at the
    peripheral meanwhile. -/

namespace Interclus

open Words Mealy

/-! ## The words and the rings -/

def VU_MAGIC : U32 := 0x54524156

/-- `VUART`, `VU_RX` and `VU_TX`. -/
structure Vuart where
  magic : U32
  rxWr : U32
  rxRd : U32
  flags : U32
  txWr : U32
  txRd : U32
  rx : Mem
  tx : Mem

/-- `vu_arm`. -/
def vuArm (v : Vuart) : Vuart :=
  { v with rxWr := 0, rxRd := 0, txWr := 0, txRd := 0, flags := 1, magic := VU_MAGIC }

/-- The test of `uart_getc`. -/
def Vuart.RxReady (v : Vuart) : Prop := v.magic = VU_MAGIC ∧ v.rxRd < v.rxWr

/-- The tests of `uart_tap`. -/
def Vuart.TapReady (v : Vuart) : Prop :=
  v.magic = VU_MAGIC ∧ v.flags &&& 1 ≠ 0 ∧ v.txWr - v.txRd < 1024

instance (v : Vuart) : Decidable v.RxReady := inferInstanceAs (Decidable (_ ∧ _))

instance (v : Vuart) : Decidable v.TapReady := inferInstanceAs (Decidable (_ ∧ _))

def Vuart.rxFront (v : Vuart) : U8 := v.rx (v.rxRd &&& 1023).toNat

def Vuart.rxTake (v : Vuart) : Vuart := { v with rxRd := v.rxRd + 1 }

def Vuart.txFill (c : U8) (v : Vuart) : Vuart :=
  { v with tx := fun i => if i = (v.txWr &&& 1023).toNat then c else v.tx i }

def Vuart.txPublish (v : Vuart) : Vuart := { v with txWr := v.txWr + 1 }

/-- `uart_getc`, with what waits at the peripheral. -/
def uartGetc (v : Vuart) (wire : List U8) : Option U8 × Vuart × List U8 :=
  if v.RxReady then (some v.rxFront, v.rxTake, wire) else (wire.head?, v, wire.tail)

/-- `uart_tap`. -/
def uartTap (c : U8) (v : Vuart) : Vuart :=
  if v.TapReady then (v.txFill c).txPublish else v

/-! ## The board -/

/-- Where the board is. -/
inductive VuDevPc where
  /-- Outside `uart_poll_frame` and `uart_putc`. -/
  | away
  /-- In the polling loop, before a call of `uart_getc`. -/
  | look
  /-- Its test passed. -/
  | load
  /-- The byte loaded. -/
  | bump (c : U8)
  /-- In `uart_tap`, its tests passed. -/
  | fill (c : U8)
  /-- The byte stored. -/
  | publish (c : U8)
  deriving DecidableEq

/-! ## The host -/

/-- A frame the host makes, with any checksum. -/
structure SentFrame where
  type : U8
  payload : List U8
  check : U8
  deriving DecidableEq, Repr

def SentFrame.bytes (f : SentFrame) : List U8 := closedBy f.type f.payload f.check

/-- What a receiver makes of it. -/
def SentFrame.heardAs (f : SentFrame) : Option (U32 × List U8) :=
  if f.payload ≠ [] ∧ (frameSum f.type f.payload + f.check.setWidth 32) &&& 0xFF = 0 then
    some (f.type.setWidth 32, f.payload)
  else none

/-- `data + b"\x00" * (-len(data) % 4)`. -/
def padded (data : List U8) : List U8 :=
  data ++ List.replicate ((4 - data.length % 4) % 4) 0

/-- `gap` of `vsend`. -/
def vsendGap (wr : Nat) (data : List U8) : Nat :=
  if 1024 < (wr &&& 1023) + data.length then 1024 - (wr &&& 1023) else 0

/-- The words that `vsend` writes into the ring, and their offsets. -/
def vsendWrites (wr : Nat) (data : List U8) : List (Nat × U32) :=
  let gap := vsendGap wr data
  ((List.range ((gap + 3) / 4)).map fun k => ((wr + 4 * k) &&& 1023, 0)) ++
    (List.range ((data.length + 3) / 4)).map fun k =>
      ((wr + gap + 4 * k) &&& 1023, le32 (listMem data) (4 * k))

/-- `l[:n]`, for any integer. -/
def pyTake {α : Type} (l : List α) (n : Int) : List α :=
  if 0 ≤ n then l.take n.toNat else l.take (l.length - n.natAbs)

/-- What `pump` cuts out of its ring.  It reads 256 words and lays out 1024,
    the others zero, so what it finds behind the 1024th byte is zeros and
    not the bytes that wrapped around. -/
def pumpBytes (tw tr : Nat) (got : List U32) : List U8 :=
  let ring := (List.range 1024).flatMap fun i => packLe 4 (got.getD i 0)
  let n : Int := (tw : Int) - tr
  let start := tr &&& 1023
  pyTake (ring.drop start ++ pyTake ring (max 0 (start + n - 1024))) n

/-- The places between the counters that wrap around. -/
def pumpWraps (tw tr : Nat) : List Nat :=
  (List.range' tr (tw - tr)).filter fun i => 1024 ≤ tr % 1024 + (i - tr)

/-- Where the host is. -/
inductive VuHostPc where
  | idle
  /-- In `vsend`, with these words left to write and `VUART[1]` behind
      them. -/
  | fill (f : SentFrame) (todo : List (Nat × U32)) (wr : Nat)
  /-- In `pump`, before it reads `VUART[5]`. -/
  | pump (tw : Nat)
  /-- In `read_words`. -/
  | dump (tw tr : Nat) (got : List U32)
  /-- `TAP` extended, before it writes `VUART[5]`. -/
  | ack (tw : Nat)
  deriving DecidableEq

/-! ## Both ends -/

structure VuLink where
  v : Vuart
  dev : VuDevPc
  /-- The receiver of `uart_poll_frame`, and its buffer. -/
  s : PollRx
  host : VuHostPc
  /-- `TAP`. -/
  tap : List U8
  /-- The frames published to the board so far, ghost state like the rest:
      the bytes they came to, those written and not published, the frames
      the board took for ones, the bytes it put out, those it copied, and
      the places of these that wrapped around in the `pump` that took them. -/
  sent : List SentFrame
  published : List U8
  staged : List U8
  heard : List (U32 × List U8)
  put : List U8
  copied : List U8
  wraps : List Nat

/-- Armed, and nothing on the way. -/
def VuLink.Start (l : VuLink) : Prop :=
  (∃ v, l.v = vuArm v) ∧ l.dev = .away ∧ l.s.rx.st.phase = 0 ∧ l.host = .idle ∧ l.tap = [] ∧
    l.sent = [] ∧ l.published = [] ∧ l.staged = [] ∧ l.heard = [] ∧ l.put = [] ∧ l.copied = [] ∧
    l.wraps = []

inductive VuEvent where
  /-- A call of `uart_poll_frame`, at a tick. -/
  | poll (t : U32)
  /-- The frame buffer used for something else between two calls. -/
  | reuse (dst : Mem)
  /-- A call of `uart_putc`. -/
  | putc (c : U8)
  /-- The next access of the board, and the tick it stamps. -/
  | dev (t : U32)
  | vsend (f : SentFrame)
  | pump
  /-- The next access of the host. -/
  | host

/-- A byte from the ring goes through the polling loop. -/
def VuLink.takes (cap : U32) (c : U8) (t : U32) (l : VuLink) : VuLink :=
  let r := uartFrameStep c l.s.rx.dst cap l.s.rx.st
  { l with
    v := l.v.rxTake
    s := ⟨⟨r.st, r.dst⟩, t⟩
    dev := if r.ret ≠ 0 then .away else .look
    heard := l.heard ++ r.delivered.toList }

/-- The board's next access. -/
def VuLink.devNext (cap : U32) (t : U32) (l : VuLink) : Option VuLink :=
  match l.dev with
  | .away => none
  | .look => some { l with dev := if l.v.RxReady then .load else .away }
  | .load => some { l with dev := .bump l.v.rxFront }
  | .bump c => some (l.takes cap c t)
  | .fill c => some { l with v := l.v.txFill c, dev := .publish c }
  | .publish c => some { l with v := l.v.txPublish, dev := .away, copied := l.copied ++ [c] }

/-- The host's next access. -/
def VuLink.hostNext (l : VuLink) : Option VuLink :=
  match l.host with
  | .idle => none
  | .fill f ((off, w) :: todo) wr =>
    some { l with
      v := { l.v with rx := putLe32 l.v.rx off w }
      host := .fill f todo wr
      staged := l.staged ++ packLe 4 w }
  | .fill f [] wr =>
    some { l with
      v := { l.v with rxWr := BitVec.ofNat 32 wr }
      host := .idle
      sent := l.sent ++ [f]
      published := l.published ++ l.staged
      staged := [] }
  | .pump tw =>
    some { l with host := if tw = l.v.txRd.toNat then .idle else .dump tw l.v.txRd.toNat [] }
  | .dump tw tr got =>
    if got.length < 256 then
      some { l with host := .dump tw tr (got ++ [le32 l.v.tx (4 * got.length)]) }
    else
      some { l with
        host := .ack tw
        tap := l.tap ++ pumpBytes tw tr got
        wraps := l.wraps ++ pumpWraps tw tr }
  | .ack tw => some { l with v := { l.v with txRd := BitVec.ofNat 32 tw }, host := .idle }

/-- `vsend` finds the room it waits for, or sleeps. -/
def VuLink.vsend (f : SentFrame) (l : VuLink) : VuLink :=
  let data := padded f.bytes
  let wr := l.v.rxWr.toNat
  if (1024 : Int) - ((wr : Int) - l.v.rxRd.toNat) < data.length then l
  else { l with host := .fill f (vsendWrites wr data) (wr + vsendGap wr data + data.length) }

def vuStep (cap : U32) (l : VuLink) : VuEvent → Option VuLink
  | .poll t =>
    match l.dev with
    | .away =>
      some { l with
        dev := .look
        s := if l.s.rx.st.phase ≠ 0 ∧ UART_FRAME_TIMEOUT < t - l.s.lastTick then
            { l.s with rx := ⟨l.s.rx.st.dropped, l.s.rx.dst⟩ }
          else l.s }
    | _ => none
  | .reuse dst =>
    match l.dev with
    | .away => some { l with s := { l.s with rx := ⟨l.s.rx.st, dst⟩ } }
    | _ => none
  | .putc c =>
    match l.dev with
    | .away => some { l with dev := if l.v.TapReady then .fill c else .away, put := l.put ++ [c] }
    | _ => none
  | .dev t => l.devNext cap t
  | .vsend f =>
    match l.host with
    | .idle => some (l.vsend f)
    | _ => none
  | .pump =>
    match l.host with
    | .idle => some { l with host := .pump l.v.txWr.toNat }
    | _ => none
  | .host => l.hostNext

/-- The system of both ends. -/
def vuSystem (cap : U32) : LTS.System VuLink VuEvent where
  init := VuLink.Start
  step l e l' := vuStep cap l e = some l'

/-! ## What grows -/

/-- What was published, put out, copied and tapped stays so. -/
structure VuLink.Extends (l l' : VuLink) : Prop where
  published : l.published <+: l'.published
  put : l.put <+: l'.put
  copied : l.copied <+: l'.copied
  tap : l.tap <+: l'.tap

theorem VuLink.Extends.same {l l' : VuLink} (h₁ : l'.published = l.published)
    (h₂ : l'.put = l.put) (h₃ : l'.copied = l.copied) (h₄ : l'.tap = l.tap) : l.Extends l' :=
  ⟨h₁ ▸ List.prefix_rfl, h₂ ▸ List.prefix_rfl, h₃ ▸ List.prefix_rfl, h₄ ▸ List.prefix_rfl⟩

theorem VuLink.devNext_extends {cap : U32} {t : U32} {l l' : VuLink}
    (h : l.devNext cap t = some l') : l.Extends l' := by
  unfold VuLink.devNext at h
  split at h
  · cases h
  · cases h
    exact .same rfl rfl rfl rfl
  · cases h
    exact .same rfl rfl rfl rfl
  · cases h
    exact .same rfl rfl rfl rfl
  · cases h
    exact .same rfl rfl rfl rfl
  · cases h
    exact ⟨List.prefix_rfl, List.prefix_rfl, List.prefix_append _ _, List.prefix_rfl⟩

theorem VuLink.hostNext_extends {l l' : VuLink} (h : l.hostNext = some l') : l.Extends l' := by
  unfold VuLink.hostNext at h
  split at h
  · cases h
  · cases h
    exact .same rfl rfl rfl rfl
  · cases h
    exact ⟨List.prefix_append _ _, List.prefix_rfl, List.prefix_rfl, List.prefix_rfl⟩
  · cases h
    exact .same rfl rfl rfl rfl
  · split at h
    · cases h
      exact .same rfl rfl rfl rfl
    · cases h
      exact ⟨List.prefix_rfl, List.prefix_rfl, List.prefix_rfl, List.prefix_append _ _⟩
  · cases h
    exact .same rfl rfl rfl rfl

/-- A step takes nothing back. -/
theorem vuStep_extends {cap : U32} {l l' : VuLink} {e : VuEvent} (h : vuStep cap l e = some l') :
    l.Extends l' := by
  cases e with
  | dev t => exact VuLink.devNext_extends h
  | host => exact VuLink.hostNext_extends h
  | vsend f =>
    simp only [vuStep] at h
    split at h <;> cases h
    unfold VuLink.vsend
    dsimp only
    split <;> exact .same rfl rfl rfl rfl
  | putc c =>
    simp only [vuStep] at h
    split at h <;> cases h
    exact ⟨List.prefix_rfl, List.prefix_append _ _, List.prefix_rfl, List.prefix_rfl⟩
  | poll t | reuse dst | pump =>
    simp only [vuStep] at h
    split at h <;> cases h
    exact .same rfl rfl rfl rfl

/-! ## The steps in one piece -/

/-- The accesses of `uart_tap`, with nothing in between. -/
theorem uartTap_steps (cap : U32) (l : VuLink) (hdev : l.dev = .away) (c : U8) (t : U32) :
    ∃ es, (LTS.run (vuStep cap) l es).map (fun l' => (l'.v, l'.dev)) =
      some (uartTap c l.v, .away) := by
  unfold uartTap
  by_cases h : l.v.TapReady
  · refine ⟨[.putc c, .dev t, .dev t], ?_⟩
    simp only [LTS.run, vuStep, VuLink.devNext, hdev, h, if_true, Option.bind_some]
    rfl
  · refine ⟨[.putc c], ?_⟩
    simp only [LTS.run, vuStep, hdev, h, if_false, Option.bind_some]
    rfl

/-- The accesses of `uart_getc`, with nothing in between and nothing at the
    peripheral; a byte it returns goes to the frame machine. -/
theorem uartGetc_steps (cap : U32) (l : VuLink) (hdev : l.dev = .look) (t : U32) :
    ∃ es, (LTS.run (vuStep cap) l es).map (fun l' => (l'.v, l'.s.rx)) =
      some ((uartGetc l.v []).2.1,
        ((uartGetc l.v []).1.map fun c => (FrameRx.feed cap l.s.rx c).1).getD l.s.rx) := by
  unfold uartGetc
  by_cases h : l.v.RxReady
  · refine ⟨[.dev t, .dev t, .dev t], ?_⟩
    simp only [LTS.run, vuStep, VuLink.devNext, hdev, h, if_true, Option.bind_some]
    rfl
  · refine ⟨[.dev t], ?_⟩
    simp only [LTS.run, vuStep, VuLink.devNext, hdev, h, if_false, Option.bind_some]
    rfl

end Interclus

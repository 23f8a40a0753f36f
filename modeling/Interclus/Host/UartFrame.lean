import Interclus.Host.PendImage

/-! # The Console Tools

    `tools/uart_frame.py`, which frames what the host sends, and `carve` of
    `tools/chan_board.py`, which finds the board's frames in what the host
    tapped. -/

namespace Interclus

open Words

/-! ## Making frames -/

/-- `sum`, of bytes. -/
def intSum (bs : List U8) : Nat := (bs.map BitVec.toNat).sum

/-- `frame`; `struct.pack` refuses a length of more than two bytes. -/
def consoleFrame (ftype : U8) (payload : List U8) : Option (List U8) :=
  if payload.length < 65536 then
    let body := [ftype] ++ packLe 2 (BitVec.ofNat 16 payload.length) ++ payload
    some ([0x7E, 0x7E] ++ body ++ [BitVec.ofInt 8 (-(intSum body : Int))])
  else none

/-- `prog_payload`. -/
def progPayload (insns : List U64) : List U8 :=
  packLe 4 (0x474F5250 : U32) ++ packLe 4 (lenWord insns) ++ packInsns insns

/-- The payload of `signed_prog`: the boot layout, and the digest of the
    image that is staged of it. -/
def signedPayload (insns : List U64) : List U8 :=
  packLe 4 (0x474F5250 : U32) ++ packLe 4 (lenWord insns) ++ packInsns insns ++
    List.ofFn (imageSha (stageEbpfBody insns))

/-- Frames that are written one after the other. -/
def consoleFrames : List (U8 × List U8) → Option (List U8)
  | [] => some []
  | f :: frames => (consoleFrame f.1 f.2).bind fun bytes => (consoleFrames frames).map (bytes ++ ·)

/-! ## Finding frames -/

/-- Where the first sync pair is. -/
def findSync : List U8 → Option Nat
  | a :: b :: rest =>
    if a = 0x7E ∧ b = 0x7E then some 0 else (findSync (b :: rest)).map (· + 1)
  | _ => none

/-- The length word of a frame. -/
def carveLen (s : List U8) : Nat := (s.getD 3 0).toNat ||| (s.getD 4 0).toNat <<< 8

/-- `carve`, from where it looks for the next frame. -/
def carve (ftype : U8) (tap : List U8) : List (List U8) :=
  match findSync tap with
  | none => []
  | some i =>
    let s := tap.drop i
    let ln := carveLen s
    if s.length < 5 then []
    else if 460 < ln then carve ftype (s.drop 1)
    else if s.length < 5 + ln + 1 then []
    else
      let body := (s.take (5 + ln)).drop 2
      let rest := carve ftype (s.drop (5 + ln + 1))
      if (intSum body + (s.getD (5 + ln) 0).toNat) &&& 0xFF = 0 ∧ body.head? = some ftype then
        body.drop 3 :: rest
      else rest
termination_by tap.length
decreasing_by
  all_goals
    rw [List.length_drop, List.length_drop]
    rw [List.length_drop] at *
    omega

end Interclus

import Interclus.Protocol.Wire

/-! # A Turn of the Client

    What a timeout or a reply does to a client that waits: it keeps its
    transfer and sends frames of it, and the only replies it makes progress
    on are positive ones, under its own id or at the end. -/

namespace Interclus

open Words

/-- The client has accepted a reply to its BEGIN, and waits. -/
def ClientPc.past : ClientPc → Bool
  | .exchange .begin _ => false
  | .exchange _ _ => true
  | .final => true
  | _ => false

/-! ## What every operation keeps -/

/-- The transfer stays, and the frames sent are frames of it. -/
structure KeepsTransfer (c : Client) (r : Client × List (List U8)) : Prop where
  tid : r.1.tid = c.tid
  image : r.1.image = c.image
  sent : ∀ f ∈ r.2, OwnFrame c.tid c.image f

/-- No progress: what the client waits for, it waited for before. -/
structure Waits (c : Client) (r : Client × List (List U8)) : Prop extends KeepsTransfer c r where
  past : r.1.pc.past = true → c.pc.past = true
  verdict : r.1.pc = .returned true → c.pc = .returned true

theorem Waits.refl (c : Client) : Waits c (c, []) := ⟨⟨rfl, rfl, nofun⟩, id, id⟩

/-- Starting an attempt sends its frame or gives up. -/
theorem Client.attempt_keeps (c : Client) (stage : Stage) (k : Nat) :
    KeepsTransfer c (c.attempt stage k) ∧
      ((c.attempt stage k).1.pc = .exchange stage k ∨ (c.attempt stage k).1.pc = .raised) := by
  unfold Client.attempt
  split
  · refine ⟨⟨rfl, rfl, fun f hf => ⟨stage, ?_⟩⟩, .inl rfl⟩
    simpa using hf
  · exact ⟨⟨rfl, rfl, nofun⟩, .inr rfl⟩

/-- Another attempt of the same exchange is no progress. -/
theorem Client.attempt_waits {c : Client} {stage : Stage} {k : Nat} (hpc : c.pc = .exchange stage k) :
    Waits c (c.attempt stage (k + 1)) := by
  obtain ⟨hkeeps, hpc' | hpc'⟩ := c.attempt_keeps stage (k + 1)
  · refine ⟨hkeeps, fun h => ?_, fun h => ?_⟩
    · rw [hpc'] at h
      rw [hpc]
      cases stage <;> exact h
    · rw [hpc'] at h
      cases h
  · refine ⟨hkeeps, fun h => ?_, fun h => ?_⟩ <;>
    · rw [hpc'] at h
      cases h

/-! ## Timeouts and replies -/

theorem Client.timeout_waits (c : Client) : Waits c c.timeout := by
  unfold Client.timeout
  split
  · next hpc => exact Client.attempt_waits hpc
  · next hpc => exact ⟨⟨rfl, rfl, nofun⟩, nofun, nofun⟩
  · exact .refl c

/-- What the client makes progress on. -/
structure Progress (c : Client) (r : UpdateReply) (res : Client × List (List U8)) : Prop
    extends KeepsTransfer c res where
  heard : c.pc.past = true ∨ r.id = c.tid
  code : r.code ≠ UPDATE_NACK
  verdict : res.1.pc = .returned true → r.code = UPDATE_ACCEPT

/-- An exchange accepts no refusal. -/
theorem Stage.accepts_code {r : UpdateReply} {stage : Stage} (h : stage.accepts r = true) :
    r.code ≠ UPDATE_NACK := by
  intro hcode
  cases stage <;> simp [Stage.accepts, hcode, UPDATE_NACK] at h

/-- Past an accepted reply the client starts the next exchange, waits for
    the verdict, or has it. -/
theorem Client.accepted_keeps (c : Client) (stage : Stage) (r : UpdateReply) :
    KeepsTransfer c (c.accepted stage r) ∧
      ((c.accepted stage r).1.pc = .returned true → r.code = UPDATE_ACCEPT) := by
  unfold Client.accepted
  split
  · next stage' _ =>
    obtain ⟨hkeeps, hpc | hpc⟩ := c.attempt_keeps stage' 0
    · refine ⟨hkeeps, fun h => ?_⟩
      rw [hpc] at h
      cases h
    · refine ⟨hkeeps, fun h => ?_⟩
      rw [hpc] at h
      cases h
  · refine ⟨⟨rfl, rfl, nofun⟩, fun h => ?_⟩
    dsimp only at h
    split at h
    · cases h
    · simpa [UPDATE_ACCEPT] using h

theorem Client.receive_cases (c : Client) (r : UpdateReply) :
    Waits c (c.receive r) ∨ Progress c r (c.receive r) := by
  unfold Client.receive
  split
  · next stage k hpc =>
    split
    · exact .inl (.refl c)
    next hid =>
    split
    · next hacc =>
      obtain ⟨hkeeps, hverdict⟩ := c.accepted_keeps stage r
      exact .inr ⟨hkeeps, .inr (not_not.mp hid), Stage.accepts_code hacc, hverdict⟩
    split
    · exact .inl (Client.attempt_waits hpc)
    · exact .inl (.refl c)
  · next hpc =>
    split
    · next hcode =>
      refine .inr ⟨⟨rfl, rfl, nofun⟩, .inl (by rw [hpc]; rfl), ?_, fun h => ?_⟩
      · rcases hcode with hcode | hcode <;> rw [hcode] <;> decide
      · simpa [UPDATE_ACCEPT] using h
    · exact .inl (.refl c)
  · exact .inl (.refl c)

/-! ## Starting and giving up -/

/-- A transfer that starts sends its BEGIN, of an image of a length the
    receiver takes, or gives up. -/
theorem Client.start_cases (c : Client) (tid : U32) (image : List U8) :
    (c.start tid image).1.pc = .raised ∨
      image.length ≤ MAX_IMAGE ∧ (c.start tid image).1.tid = tid ∧
        (c.start tid image).1.image = image ∧
        (∀ f ∈ (c.start tid image).2, OwnFrame tid image f) ∧
        (c.start tid image).1.pc = .exchange .begin 0 := by
  unfold Client.start
  dsimp only
  split
  · exact .inl rfl
  · next hlen =>
    obtain ⟨hkeeps, hpc | hpc⟩ :=
      ({ c with tid := tid, image := image } : Client).attempt_keeps .begin 0
    · exact .inr ⟨not_lt.mp fun h => hlen (.inr h), hkeeps.tid, hkeeps.image, hkeeps.sent, hpc⟩
    · exact .inl hpc

/-- A transfer that gave up stays so. -/
theorem Client.raised_stays {c : Client} (h : c.pc = .raised) :
    c.timeout = (c, []) ∧ ∀ r, c.receive r = (c, []) := by
  unfold Client.timeout Client.receive
  rw [h]
  exact ⟨rfl, fun _ => rfl⟩

end Interclus

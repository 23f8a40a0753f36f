import Interclus.Core.Platform
import Interclus.Framework.System
import Interclus.Update.Outcome

/-! # Update Transaction Integrity

    The receiver, its staging area and an environment that consumes staged
    images, as a transition system.  Two history variables record what the
    commands announced and what was acknowledged; the code does not see
    them.

    The invariant of a transaction in progress (`Receiving`) says that the
    staging bytes are the acknowledged chunks; `updateSystem_integrity`
    draws the three guarantees of the receiver from it. -/

namespace Interclus

open Words LTS

/-! ## The system -/

structure UpdateSys where
  rx : UpdateRx
  pend : Mem
  magic : U32
  /-- The digest announced by the BEGIN that opened the transaction. -/
  announced : Digest
  /-- The chunks acknowledged since, repeats left out. -/
  acked : List (List U8)

inductive UpdateAction where
  /-- A command arrives. -/
  | process (p : Mem) (n : Nat)
  /-- The gate has decided on a staged image. -/
  | finish (accepted : Bool)
  /-- The staging magic is consumed. -/
  | clearMagic

/-- The command opened a transaction rather than repeat the BEGIN of the
    one at hand. -/
def opensTransaction (rx : UpdateRx) (p : Mem) (r : UpdateStep) : Bool :=
  r.ret ∧ p 0 = UPDATE_OP_BEGIN ∧ ¬ (rx.state ≠ .idle ∧ rx.id = le32 p 1)

/-- The command delivered a chunk rather than repeat the last one. -/
def deliversChunk (rx : UpdateRx) (p : Mem) (r : UpdateStep) : Bool :=
  r.ret ∧ p 0 = UPDATE_OP_DATA ∧ (le16 p 5).toNat + 1 ≠ rx.nextSeq.toNat

/-- The payload of a DATA command. -/
def chunkOf (p : Mem) : List U8 := bytesAt p 10 (p 9).toNat

def UpdateSys.process (s : UpdateSys) (p : Mem) (n : Nat) : UpdateSys :=
  let r := updateProcess s.rx p n s.pend s.magic
  { rx := r.rx
    pend := r.pend s.pend
    magic := r.pendMagic s.magic
    announced := if opensTransaction s.rx p r then beginSha p else s.announced
    acked :=
      if opensTransaction s.rx p r then []
      else if deliversChunk s.rx p r then s.acked ++ [chunkOf p] else s.acked }

def updateSystem : System UpdateSys UpdateAction where
  init s := s.rx = updateReset
  step s a s' :=
    match a with
    | .process p n => s' = s.process p n
    | .finish accepted => s.rx.state = .staged ∧ s' = { s with rx := updateFinish s.rx accepted }
    | .clearMagic => s' = { s with magic := 0 }

/-! ## Stores -/

theorem mem_dataStores {p : Mem} {off len : Nat} {s : Nat × U8} :
    s ∈ dataStores p off len ↔ ∃ i < len, s = (off + i, p (10 + i)) := by
  simp [dataStores, eq_comm]

theorem applyStores_append (m : Mem) (ss ts : List (Nat × U8)) :
    applyStores m (ss ++ ts) = applyStores (applyStores m ss) ts :=
  List.foldl_append

/-- The copy loop of a DATA command. -/
theorem applyStores_dataStores (m p : Mem) (off len i : Nat) :
    applyStores m (dataStores p off len) i =
      if off ≤ i ∧ i < off + len then p (10 + (i - off)) else m i := by
  induction len with
  | zero => rw [if_neg (by omega)]; rfl
  | succ len ih =>
    have hsplit : dataStores p off (len + 1) =
        dataStores p off len ++ [(off + len, p (10 + len))] := by
      simp [dataStores, List.range_succ]
    rw [hsplit, applyStores_append]
    show (if i = off + len then p (10 + len) else applyStores m (dataStores p off len) i) = _
    by_cases hi : i = off + len
    · rw [if_pos hi, if_pos (by omega), hi, Nat.add_sub_cancel_left]
    · rw [if_neg hi, ih]
      by_cases hin : off ≤ i ∧ i < off + len
      · rw [if_pos hin, if_pos (by omega)]
      · rw [if_neg hin, if_neg (by omega)]

theorem bytesAt_dataStores (m p : Mem) (off len : Nat) :
    bytesAt (applyStores m (dataStores p off len)) 0 (off + len) =
      bytesAt m 0 off ++ bytesAt p 10 len := by
  rw [bytesAt_add]
  congr 1
  · apply bytesAt_congr
    intro i hi
    rw [applyStores_dataStores, if_neg (by omega)]
  · unfold bytesAt
    apply List.map_congr_left
    intro i hi
    have := List.mem_range.mp hi
    rw [applyStores_dataStores, if_pos (by omega)]
    congr 1
    omega

/-! ## The invariant -/

/-- A transaction in progress. -/
structure Receiving (s : UpdateSys) : Prop where
  total_ge : 48 ≤ s.rx.total.toNat
  total_le : s.rx.total.toNat ≤ 552
  received_le : s.rx.received.toNat ≤ s.rx.total.toNat
  bytes : bytesAt s.pend 0 s.rx.received.toNat = s.acked.flatten
  count : s.rx.nextSeq.toNat = s.acked.length
  chunks_ne : ∀ c ∈ s.acked, c ≠ []
  sha : s.rx.expectedSha = s.announced

/-- The receiver's invariant: while active, it is receiving. -/
def UpdateInv (s : UpdateSys) : Prop := s.rx.state = .active → Receiving s

/-- Non-empty chunks are no more than their bytes. -/
theorem length_le_flatten {α : Type} {l : List (List α)} (h : ∀ c ∈ l, c ≠ []) :
    l.length ≤ l.flatten.length := by
  induction l with
  | nil => simp
  | cons c cs ih =>
    have hc := List.length_pos_iff.mpr (h c (by simp))
    have := ih fun c' hc' => h c' (by simp [hc'])
    simp only [List.length_cons, List.flatten_cons, List.length_append]
    omega

/-- Sequence numbers stay as small as the image. -/
theorem Receiving.count_le {s : UpdateSys} (h : Receiving s) :
    s.rx.nextSeq.toNat ≤ s.rx.received.toNat := by
  have := length_le_flatten h.chunks_ne
  rw [← h.bytes, length_bytesAt] at this
  rw [h.count]
  exact this

theorem not_opens_of_op {rx : UpdateRx} {p : Mem} {r : UpdateStep}
    (h : p 0 ≠ UPDATE_OP_BEGIN) : opensTransaction rx p r = false := by
  simp [opensTransaction, h]

theorem not_delivers_of_op {rx : UpdateRx} {p : Mem} {r : UpdateStep}
    (h : p 0 ≠ UPDATE_OP_DATA) : deliversChunk rx p r = false := by
  simp [deliversChunk, h]

/-- Step lemma: a command keeps the invariant. -/
theorem UpdateInv.process {s : UpdateSys} (h : UpdateInv s) (p : Mem) (n : Nat) :
    UpdateInv (s.process p n) := by
  have hout := updateProcess_outcome s.rx p n s.pend s.magic
  unfold UpdateSys.process
  generalize updateProcess s.rx p n s.pend s.magic = r at hout
  -- a call that touches nothing and is neither a BEGIN nor a chunk
  have hquiet : r.rx = s.rx → r.stores = [] → opensTransaction s.rx p r = false →
      deliversChunk s.rx p r = false →
      UpdateInv { rx := r.rx, pend := r.pend s.pend, magic := r.pendMagic s.magic,
                  announced := if opensTransaction s.rx p r then beginSha p else s.announced,
                  acked := if opensTransaction s.rx p r then [] else
                    if deliversChunk s.rx p r then s.acked ++ [chunkOf p] else s.acked } := by
    intro hrx hst ho hd hact
    have hr := h (hrx ▸ hact)
    simp only [ho, hd, hrx, UpdateStep.pend, hst]
    exact ⟨hr.total_ge, hr.total_le, hr.received_le, hr.bytes, hr.count, hr.chunks_ne, hr.sha⟩
  have hops : UPDATE_OP_BEGIN ≠ UPDATE_OP_DATA ∧ UPDATE_OP_COMMIT ≠ UPDATE_OP_DATA ∧
      UPDATE_OP_COMMIT ≠ UPDATE_OP_BEGIN := by decide
  cases hout with
  | refused detail id => exact hquiet rfl rfl (by rfl) (by rfl)
  | beginRepeat code hf hidle hid htotal hsha =>
    refine hquiet rfl rfl ?_ (not_delivers_of_op (by rw [hf.op]; exact hops.1))
    simp [opensTransaction, hidle, hid]
  | opened hf hst hmagic =>
    intro _
    have ho : opensTransaction s.rx p ⟨true, .opened p, [], some 0,
        replySet (.opened p) UPDATE_ACK 0 (le32 p 1)⟩ = true := by
      rcases hst with hst | ⟨hst, hid⟩
      · simp [opensTransaction, hf.op, hst]
      · simp [opensTransaction, hf.op, hid]
    simp only [ho, if_true]
    exact ⟨hf.total_ge, hf.total_le, Nat.zero_le _, rfl, rfl, by simp, rfl⟩
  | dataRepeat hf hseq hoff hsame =>
    refine hquiet rfl rfl (not_opens_of_op (by rw [hf.op]; exact hops.1.symm)) ?_
    simp [deliversChunk, hseq]
  | extended hf hseq hoff =>
    intro _
    have hr := h hf.active
    have ho : opensTransaction s.rx p ⟨true, s.rx.extended p,
        dataStores p s.rx.received.toNat (p 9).toNat, none,
        replySet (s.rx.extended p) UPDATE_ACK 0 (le32 p 1)⟩ = false :=
      not_opens_of_op (by rw [hf.op]; exact hops.1.symm)
    have hd : deliversChunk s.rx p ⟨true, s.rx.extended p,
        dataStores p s.rx.received.toNat (p 9).toNat, none,
        replySet (s.rx.extended p) UPDATE_ACK 0 (le32 p 1)⟩ = true := by
      simp [deliversChunk, hf.op, hseq]
    have hfits := hf.fits
    rw [hoff] at hfits
    have htotal := hr.total_le
    have hreceived : (s.rx.extended p).received.toNat = s.rx.received.toNat + (p 9).toNat := by
      show (s.rx.received + (p 9).setWidth 16).toNat = _
      have := hf.size_le
      bv_omega
    have hnext : (s.rx.extended p).nextSeq.toNat = s.rx.nextSeq.toNat + 1 := by
      show (s.rx.nextSeq + 1).toNat = _
      have := hr.count_le
      bv_omega
    simp only [ho, hd, if_true, Bool.false_eq_true, if_false]
    refine ⟨hr.total_ge, hr.total_le, ?_, ?_, ?_, ?_, hr.sha⟩
    · dsimp only
      rw [hreceived]
      exact hfits
    · dsimp only [UpdateStep.pend]
      rw [hreceived, bytesAt_dataStores, hr.bytes, List.flatten_append]
      simp [chunkOf]
    · dsimp only
      rw [hnext, hr.count, List.length_append]
      rfl
    · intro c hc
      rcases List.mem_append.mp hc with hc | hc
      · exact hr.chunks_ne c hc
      · rw [List.mem_singleton.mp hc]
        refine List.ne_nil_of_length_pos ?_
        rw [chunkOf, length_bytesAt]
        exact hf.size_pos
  | commitRepeat code hf hst =>
    exact hquiet rfl rfl (not_opens_of_op (by rw [hf.op]; exact hops.2.2))
      (not_delivers_of_op (by rw [hf.op]; exact hops.2.1))
  | staged hf hact hrec hsha => intro hst; cases hst
  | hashFailed hf hact hrec hsha => intro hst; cases hst
  | aborted hf hact => intro hst; cases hst

/-- Run lemma: the invariant holds in every reachable state. -/
theorem updateInv_reachable {s : UpdateSys} (h : Reachable updateSystem s) : UpdateInv s := by
  refine h.invariant (I := UpdateInv) (fun s hinit hact => ?_) (fun s a s' hs hstep => ?_)
  · rw [show s.rx = updateReset from hinit] at hact
    cases hact
  · match a with
    | .process p n =>
      obtain rfl : s' = s.process p n := hstep
      exact hs.process p n
    | .finish accepted =>
      obtain ⟨_, rfl⟩ := hstep
      intro hact
      cases hact
    | .clearMagic =>
      obtain rfl : s' = { s with magic := 0 } := hstep
      intro hact
      have hr := hs hact
      exact ⟨hr.total_ge, hr.total_le, hr.received_le, hr.bytes, hr.count, hr.chunks_ne, hr.sha⟩

/-! ## Guarantees -/

/-- What a command may store into the staging area. -/
theorem stores_lt_total {s : UpdateSys} (hinv : UpdateInv s) (p : Mem) (n : Nat) {st : Nat × U8}
    (hst : st ∈ (updateProcess s.rx p n s.pend s.magic).stores) :
    st.1 < (updateProcess s.rx p n s.pend s.magic).rx.total.toNat ∧
      48 ≤ (updateProcess s.rx p n s.pend s.magic).rx.total.toNat ∧
      (updateProcess s.rx p n s.pend s.magic).rx.total.toNat ≤ 552 := by
  have hout := updateProcess_outcome s.rx p n s.pend s.magic
  generalize updateProcess s.rx p n s.pend s.magic = r at hout hst
  cases hout with
  | extended hf hseq hoff =>
    have hr := hinv hf.active
    have hfits := hf.fits
    rw [hoff] at hfits
    obtain ⟨i, hi, rfl⟩ := mem_dataStores.mp hst
    refine ⟨?_, hr.total_ge, hr.total_le⟩
    show s.rx.received.toNat + i < s.rx.total.toNat
    omega
  | _ => exact absurd hst List.not_mem_nil

/-- The magic is set by the commit of a complete, matching image only. -/
theorem magic_set {s : UpdateSys} (hinv : UpdateInv s) (p : Mem) (n : Nat)
    (hm : (updateProcess s.rx p n s.pend s.magic).magic = some UPDATE_PEND_MAGIC) :
    p 0 = UPDATE_OP_COMMIT ∧ s.rx.state = .active ∧ s.rx.received = s.rx.total ∧
      sha256 s.pend (s.rx.total.setWidth 32) = s.announced := by
  have hout := updateProcess_outcome s.rx p n s.pend s.magic
  generalize updateProcess s.rx p n s.pend s.magic = r at hout hm
  cases hout with
  | staged hf hact hrec hsha => exact ⟨hf.op, hact, hrec, hsha.trans (hinv hact).sha⟩
  | opened => exact absurd (Option.some.inj hm) (by decide)
  | aborted => exact absurd (Option.some.inj hm) (by decide)
  | _ => cases hm

/-- **Integrity.** In every reachable state of the receiver: the staging
    bytes of an active transaction are the acknowledged chunks in order;
    no command stores outside the announced image, so none reaches the
    magic; and the magic is set only by the commit of a complete image
    whose digest is the one its BEGIN announced. -/
theorem updateSystem_integrity {s : UpdateSys} (h : Reachable updateSystem s) :
    (s.rx.state = .active →
      s.rx.received.toNat ≤ s.rx.total.toNat ∧
      bytesAt s.pend 0 s.rx.received.toNat = s.acked.flatten ∧
      s.rx.nextSeq.toNat = s.acked.length) ∧
    ∀ p n,
      (∀ st ∈ (updateProcess s.rx p n s.pend s.magic).stores,
        st.1 < (updateProcess s.rx p n s.pend s.magic).rx.total.toNat ∧
        48 ≤ (updateProcess s.rx p n s.pend s.magic).rx.total.toNat ∧
        (updateProcess s.rx p n s.pend s.magic).rx.total.toNat ≤ 552 ∧
        st.1 < PROG_PEND_MAGIC_OFF) ∧
      ((updateProcess s.rx p n s.pend s.magic).magic = some UPDATE_PEND_MAGIC →
        p 0 = UPDATE_OP_COMMIT ∧ s.rx.state = .active ∧ s.rx.received = s.rx.total ∧
        sha256 s.pend (s.rx.total.setWidth 32) = s.announced) := by
  have hinv := updateInv_reachable h
  refine ⟨fun hact => ?_, fun p n => ⟨fun st hst => ?_, fun hm => magic_set hinv p n hm⟩⟩
  · have hr := hinv hact
    exact ⟨hr.received_le, hr.bytes, hr.count⟩
  · obtain ⟨hlt, hge, hle⟩ := stores_lt_total hinv p n hst
    refine ⟨hlt, hge, hle, ?_⟩
    unfold PROG_PEND_MAGIC_OFF
    omega

/-- A BEGIN of 48 bytes under id 1, and its first chunk of two bytes. -/
def sampleBegin : Mem := fun k =>
  (([1, 1, 0, 0, 0, 48, 0] ++ List.replicate 32 0 ++ [0x9f, 0x81] : List U8)).getD k 0

def sampleChunk : Mem := fun k => [2, 1, 0, 0, 0, 0, 0, 0, 0, 2, 7, 9, 250, 207].getD k 0

def sampleStart : UpdateSys := ⟨updateReset, fun _ => 0, 0, fun _ => 0, []⟩

/-- The receiver after both commands. -/
def sampleActive : UpdateSys := (sampleStart.process sampleBegin 41).process sampleChunk 14

theorem updateSystem_integrity_sampleActive :
    sampleActive.rx.state = .active ∧ sampleActive.acked = [[7, 9]] ∧
      (sampleActive.rx.received.toNat ≤ sampleActive.rx.total.toNat ∧
        bytesAt sampleActive.pend 0 sampleActive.rx.received.toNat = sampleActive.acked.flatten ∧
        sampleActive.rx.nextSeq.toNat = sampleActive.acked.length) := by
  have hact : sampleActive.rx.state = .active := by decide +kernel
  have hstart : Reachable updateSystem sampleStart := .init rfl
  have hreach : Reachable updateSystem sampleActive :=
    .step (.process sampleChunk 14) (.step (.process sampleBegin 41) hstart rfl) rfl
  exact ⟨hact, by decide +kernel, (updateSystem_integrity hreach).1 hact⟩

end Interclus

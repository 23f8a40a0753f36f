import Mathlib.Logic.Basic
import Interclus.Core.Update

/-! # What an Update Command Can Do

    `updateProcess_outcome` says once what a call of `update_process` can
    do: refuse, answer a repeat, or take one of the five steps of a
    transaction.  Everything proved about the receiver is a case analysis
    of it. -/

namespace Interclus

open Words

/-! ## Outcomes -/

/-- The receiver a fresh BEGIN leaves. -/
def UpdateRx.opened (p : Mem) : UpdateRx :=
  { updateReset with
    id := le32 p 1, total := le16 p 5, expectedSha := beginSha p, state := .active }

/-- The receiver a fresh chunk leaves. -/
def UpdateRx.extended (rx : UpdateRx) (p : Mem) : UpdateRx :=
  { rx with received := rx.received + (p 9).setWidth 16, nextSeq := rx.nextSeq + 1 }

/-- A BEGIN the receiver may take as one. -/
structure BeginFrame (p : Mem) (n : Nat) : Prop where
  op : p 0 = UPDATE_OP_BEGIN
  len : n = 41
  crc : crcOk p n
  id_ne : le32 p 1 ≠ 0
  total_ge : 48 ≤ (le16 p 5).toNat
  total_le : (le16 p 5).toNat ≤ 552

/-- A DATA that fits the transaction. -/
structure DataFrame (rx : UpdateRx) (p : Mem) (n : Nat) : Prop where
  op : p 0 = UPDATE_OP_DATA
  len : n = 12 + (p 9).toNat
  crc : crcOk p n
  id : le32 p 1 = rx.id
  active : rx.state = .active
  size_pos : 0 < (p 9).toNat
  size_le : (p 9).toNat ≤ 64
  fits : (le16 p 7).toNat + (p 9).toNat ≤ rx.total.toNat

/-- A COMMIT or ABORT of the transaction. -/
structure ShortFrame (op : U8) (rx : UpdateRx) (p : Mem) (n : Nat) : Prop where
  op : p 0 = op
  len : n = 7
  crc : crcOk p n
  id : le32 p 1 = rx.id
  not_idle : rx.state ≠ .idle

inductive UpdateOutcome (rx : UpdateRx) (p : Mem) (n : Nat) (pend : Mem) (magic : U32) :
    UpdateStep → Prop where
  | refused (detail : U8) (id : U32) : UpdateOutcome rx p n pend magic (nack rx detail id)
  | beginRepeat (code : U8) : BeginFrame p n → rx.state ≠ .idle → rx.id = le32 p 1 →
      rx.total = le16 p 5 → rx.expectedSha = beginSha p →
      code = (if rx.state = .done then rx.finalCode
        else if rx.state = .staged then UPDATE_REPLY_STAGED else UPDATE_ACK) →
      UpdateOutcome rx p n pend magic (repeated rx code (le32 p 1))
  | opened : BeginFrame p n → rx.state = .idle ∨ rx.state = .done ∧ rx.id ≠ le32 p 1 →
      magic ≠ UPDATE_PEND_MAGIC →
      UpdateOutcome rx p n pend magic
        ⟨true, .opened p, [], some 0, replySet (.opened p) UPDATE_ACK 0 (le32 p 1)⟩
  | dataRepeat : DataFrame rx p n → (le16 p 5).toNat + 1 = rx.nextSeq.toNat →
      (le16 p 7).toNat + (p 9).toNat = rx.received.toNat →
      (∀ i < (p 9).toNat, pend ((le16 p 7).toNat + i) = p (10 + i)) →
      UpdateOutcome rx p n pend magic (repeated rx UPDATE_ACK (le32 p 1))
  | extended : DataFrame rx p n → le16 p 5 = rx.nextSeq → le16 p 7 = rx.received →
      UpdateOutcome rx p n pend magic
        ⟨true, rx.extended p, dataStores p rx.received.toNat (p 9).toNat, none,
          replySet (rx.extended p) UPDATE_ACK 0 (le32 p 1)⟩
  | commitRepeat (code : U8) : ShortFrame UPDATE_OP_COMMIT rx p n →
      rx.state = .done ∧ code = rx.finalCode ∨ rx.state = .staged ∧ code = UPDATE_REPLY_STAGED →
      UpdateOutcome rx p n pend magic (repeated rx code (le32 p 1))
  | staged : ShortFrame UPDATE_OP_COMMIT rx p n → rx.state = .active → rx.received = rx.total →
      sha256 pend (rx.total.setWidth 32) = rx.expectedSha →
      UpdateOutcome rx p n pend magic
        ⟨true, { rx with state := .staged }, [], some UPDATE_PEND_MAGIC,
          replySet rx UPDATE_REPLY_STAGED 0 (le32 p 1)⟩
  | hashFailed : ShortFrame UPDATE_OP_COMMIT rx p n → rx.state = .active →
      rx.received = rx.total → sha256 pend (rx.total.setWidth 32) ≠ rx.expectedSha →
      UpdateOutcome rx p n pend magic (nack { rx with state := .idle } UPDATE_ERR_HASH (le32 p 1))
  | aborted : ShortFrame UPDATE_OP_ABORT rx p n → rx.state = .active →
      UpdateOutcome rx p n pend magic
        ⟨true, { rx with state := .idle, received := 0, nextSeq := 0 }, [], some 0,
          replySet { rx with state := .idle, received := 0, nextSeq := 0 } UPDATE_ABORTED 0
            (le32 p 1)⟩

/-! ## One lemma for each command -/

section Commands
variable {rx : UpdateRx} {p : Mem} {n : Nat} {pend : Mem} {magic : U32}

theorem processBegin_outcome (hop : p 0 = UPDATE_OP_BEGIN) (hn : n = 41 → 5 ≤ n) :
    UpdateOutcome rx p n pend magic
      (processBegin rx p n magic (if 5 ≤ n then le32 p 1 else 0)) := by
  unfold processBegin
  by_cases hlen : n ≠ 41
  · rw [if_pos hlen]
    exact .refused _ _
  · rw [if_neg hlen, if_pos (hn (not_not.mp hlen))]
    by_cases hcrc : ¬ crcOk p n
    · rw [if_pos hcrc]
      exact .refused _ _
    · rw [if_neg hcrc]
      dsimp only
      split
      · exact .refused _ _
      · next hbad =>
        simp only [not_or] at hbad
        have hge := hbad.2.1
        have hle := hbad.2.2
        have hframe : BeginFrame p n := {
          op := hop, len := not_not.mp hlen, crc := by simpa using hcrc, id_ne := hbad.1
          total_ge := by bv_omega
          total_le := by unfold UPDATE_MAX_IMAGE at hle; bv_omega }
        -- the BEGIN of the transaction at hand, or one that may take over
        split
        · next hown =>
          have hidle : rx.state ≠ .idle := by
            rcases hown.1 with h | h | h <;> rw [h] <;> decide
          split
          · exact .refused _ _
          · next htotal =>
            split
            · exact .refused _ _
            · next hsha =>
              have hsha' : rx.expectedSha = beginSha p := funext (not_not.mp hsha)
              have hrep := fun code =>
                @UpdateOutcome.beginRepeat rx p n pend magic code hframe hidle hown.2
                  (not_not.mp htotal) hsha'
              split
              · next h => exact hrep _ (if_pos h).symm
              · next h =>
                split
                · next h' => exact hrep _ (by rw [if_neg h, if_pos h'])
                · next h' => exact hrep _ (by rw [if_neg h, if_neg h'])
        · next hown =>
          split
          · exact .refused _ _
          · next hbusy =>
            simp only [not_or] at hbusy
            refine .opened hframe ?_ hbusy.2.2
            cases hst : rx.state with
            | idle => exact .inl rfl
            | active => exact absurd hst hbusy.1
            | staged => exact absurd hst hbusy.2.1
            | done => exact .inr ⟨rfl, fun hid => hown ⟨.inr (.inr hst), hid⟩⟩

theorem processData_outcome (hop : p 0 = UPDATE_OP_DATA) (hcrc : crcOk p n)
    (hid : le32 p 1 = rx.id) :
    UpdateOutcome rx p n pend magic (processData rx p n pend (le32 p 1)) := by
  unfold processData
  split
  · exact .refused _ _
  · dsimp only
    split
    · exact .refused _ _
    · next hbad =>
      simp only [not_or] at hbad
      obtain ⟨hne, hmax, hlen, hfits⟩ := hbad
      split
      · exact .refused _ _
      · next hact =>
        have hframe : DataFrame rx p n := {
          op := hop, len := not_not.mp hlen, crc := hcrc, id := hid, active := not_not.mp hact
          size_pos := by bv_omega
          size_le := by unfold UPDATE_MAX_CHUNK at hmax; bv_omega
          fits := by omega }
        -- the chunk received last again, or the next one
        split
        · next hdup =>
          split
          · next hsame => exact .dataRepeat hframe hdup.1 hdup.2 hsame
          · exact .refused _ _
        · split
          · exact .refused _ _
          · next hseq =>
            simp only [not_or, not_not] at hseq
            rw [hseq.2]
            exact .extended hframe hseq.1 hseq.2

theorem processCommit_outcome (hop : p 0 = UPDATE_OP_COMMIT) (hcrc : crcOk p n)
    (hidle : rx.state ≠ .idle) (hid : le32 p 1 = rx.id) :
    UpdateOutcome rx p n pend magic (processCommit rx n pend (le32 p 1)) := by
  unfold processCommit
  split
  · exact .refused _ _
  · next hlen =>
    have hframe : ShortFrame UPDATE_OP_COMMIT rx p n := ⟨hop, not_not.mp hlen, hcrc, hid, hidle⟩
    split
    · next hst => exact .commitRepeat _ hframe (.inl ⟨hst, rfl⟩)
    · split
      · next hst => exact .commitRepeat _ hframe (.inr ⟨hst, rfl⟩)
      · split
        · exact .refused _ _
        · next hact =>
          split
          · exact .refused _ _
          · next hrec =>
            dsimp only
            split
            · next hsha =>
              exact .staged hframe (not_not.mp hact) (not_not.mp hrec) (funext hsha)
            · next hsha =>
              exact .hashFailed hframe (not_not.mp hact) (not_not.mp hrec)
                fun h => hsha fun i => congrFun h i

theorem processAbort_outcome (hop : p 0 = UPDATE_OP_ABORT) (hcrc : crcOk p n)
    (hidle : rx.state ≠ .idle) (hid : le32 p 1 = rx.id) :
    UpdateOutcome rx p n pend magic (processAbort rx n (le32 p 1)) := by
  unfold processAbort
  split
  · exact .refused _ _
  · next hlen =>
    split
    · next hact => exact .aborted ⟨hop, not_not.mp hlen, hcrc, hid, hidle⟩ hact
    · exact .refused _ _

end Commands

/-- **Inversion.** Every call has one of the outcomes above. -/
theorem updateProcess_outcome (rx : UpdateRx) (p : Mem) (n : Nat) (pend : Mem) (magic : U32) :
    UpdateOutcome rx p n pend magic (updateProcess rx p n pend magic) := by
  unfold updateProcess
  by_cases h0 : n = 0
  · rw [if_pos h0]
    exact .refused _ _
  rw [if_neg h0]
  dsimp only
  by_cases hbegin : p 0 = UPDATE_OP_BEGIN
  · rw [if_pos hbegin]
    exact processBegin_outcome hbegin (by omega)
  rw [if_neg hbegin]
  by_cases hlen : n < 7
  · rw [if_pos hlen]
    exact .refused _ _
  rw [if_neg hlen, if_pos (show 5 ≤ n by omega)]
  by_cases hcrc : ¬ crcOk p n
  · rw [if_pos hcrc]
    exact .refused _ _
  rw [if_neg hcrc]
  have hcrc' : crcOk p n = true := by simpa using hcrc
  -- the commands on the transaction at hand
  split
  · exact .refused _ _
  · next hid =>
    simp only [not_or, not_not] at hid
    split
    · next hop => exact processData_outcome hop hcrc' hid.2
    · split
      · next hop => exact processCommit_outcome hop hcrc' hid.1 hid.2
      · split
        · next hop => exact processAbort_outcome hop hcrc' hid.1 hid.2
        · exact .refused _ _

/-! ## What a well-formed command gets -/

section Answers
variable {rx : UpdateRx} {p : Mem} {n : Nat} (pend : Mem) (magic : U32)

theorem updateProcess_begin (hf : BeginFrame p n) :
    updateProcess rx p n pend magic =
      if (rx.state = .active ∨ rx.state = .staged ∨ rx.state = .done) ∧ rx.id = le32 p 1 then
        if rx.total ≠ le16 p 5 then nack rx UPDATE_ERR_ID (le32 p 1)
        else if ¬ ∀ i, rx.expectedSha i = beginSha p i then nack rx UPDATE_ERR_ID (le32 p 1)
        else if rx.state = .done then repeated rx rx.finalCode (le32 p 1)
        else if rx.state = .staged then repeated rx UPDATE_REPLY_STAGED (le32 p 1)
        else repeated rx UPDATE_ACK (le32 p 1)
      else if rx.state = .active ∨ rx.state = .staged ∨ magic = UPDATE_PEND_MAGIC then
        nack rx UPDATE_ERR_BUSY (le32 p 1)
      else ⟨true, .opened p, [], some 0, replySet (.opened p) UPDATE_ACK 0 (le32 p 1)⟩ := by
  have hge := hf.total_ge
  have hle := hf.total_le
  have hgood : ¬ (le32 p 1 = 0 ∨ le16 p 5 < 48 ∨ UPDATE_MAX_IMAGE < le16 p 5) := by
    unfold UPDATE_MAX_IMAGE
    rintro (hid | hlow | hhigh)
    · exact hf.id_ne hid
    · bv_omega
    · bv_omega
  have hlen : ¬ n = 0 := by
    rw [hf.len]
    decide
  have hid : 5 ≤ n := by
    rw [hf.len]
    decide
  unfold updateProcess
  rw [if_neg hlen]
  dsimp only
  rw [if_pos hf.op, if_pos hid]
  unfold processBegin
  rw [if_neg (not_not.mpr hf.len), if_neg (not_not.mpr hf.crc)]
  dsimp only
  rw [if_neg hgood]
  rfl

/-- The BEGIN of the transaction at hand is answered by its state. -/
theorem updateProcess_beginRepeat (hf : BeginFrame p n) (hst : rx.state ≠ .idle)
    (hid : rx.id = le32 p 1) (htotal : rx.total = le16 p 5) (hsha : rx.expectedSha = beginSha p) :
    updateProcess rx p n pend magic =
      repeated rx (if rx.state = .done then rx.finalCode
        else if rx.state = .staged then UPDATE_REPLY_STAGED else UPDATE_ACK) (le32 p 1) := by
  have hown : rx.state = .active ∨ rx.state = .staged ∨ rx.state = .done := by
    cases h : rx.state with
    | idle => exact absurd h hst
    | active => exact .inl rfl
    | staged => exact .inr (.inl rfl)
    | done => exact .inr (.inr rfl)
  rw [updateProcess_begin pend magic hf, if_pos ⟨hown, hid⟩, if_neg (not_not.mpr htotal),
    if_neg (not_not.mpr fun i => congrFun hsha i)]
  split
  · rfl
  · split <;> rfl

/-- A BEGIN opens a transaction when none of another name is under way and
    nothing is staged. -/
theorem updateProcess_opens (hf : BeginFrame p n)
    (hst : rx.state = .idle ∨ rx.state = .done ∧ rx.id ≠ le32 p 1)
    (hmagic : magic ≠ UPDATE_PEND_MAGIC) :
    updateProcess rx p n pend magic =
      ⟨true, .opened p, [], some 0, replySet (.opened p) UPDATE_ACK 0 (le32 p 1)⟩ := by
  have hother : ¬ ((rx.state = .active ∨ rx.state = .staged ∨ rx.state = .done) ∧
      rx.id = le32 p 1) := by
    rintro ⟨hown, hid⟩
    rcases hst with h | ⟨-, hne⟩
    · simp [h] at hown
    · exact hne hid
  have hbusy : ¬ (rx.state = .active ∨ rx.state = .staged ∨ magic = UPDATE_PEND_MAGIC) := by
    rcases hst with h | ⟨h, -⟩ <;> simp [h, hmagic]
  rw [updateProcess_begin pend magic hf, if_neg hother, if_neg hbusy]

theorem updateProcess_data (hf : DataFrame rx p n) :
    updateProcess rx p n pend magic =
      if (le16 p 5).toNat + 1 = rx.nextSeq.toNat ∧
          (le16 p 7).toNat + (p 9).toNat = rx.received.toNat then
        if ∀ i < (p 9).toNat, pend ((le16 p 7).toNat + i) = p (10 + i) then
          repeated rx UPDATE_ACK (le32 p 1)
        else nack rx UPDATE_ERR_SEQUENCE (le32 p 1)
      else if le16 p 5 ≠ rx.nextSeq ∨ le16 p 7 ≠ rx.received then
        nack rx UPDATE_ERR_SEQUENCE (le32 p 1)
      else ⟨true, rx.extended p, dataStores p (le16 p 7).toNat (p 9).toNat, none,
        replySet (rx.extended p) UPDATE_ACK 0 (le32 p 1)⟩ := by
  have hpos := hf.size_pos
  have hmax := hf.size_le
  have hfits := hf.fits
  have hlen := hf.len
  have hgood : ¬ (p 9 = 0 ∨ UPDATE_MAX_CHUNK < p 9 ∨ n ≠ 12 + (p 9).toNat ∨
      rx.total.toNat < (le16 p 7).toNat + (p 9).toNat) := by
    unfold UPDATE_MAX_CHUNK
    rintro (h | h | h | h)
    · rw [h] at hpos
      exact absurd hpos (by decide)
    · bv_omega
    · exact h hlen
    · omega
  have hops : ¬ UPDATE_OP_DATA = UPDATE_OP_BEGIN := by decide
  have hid : ¬ (rx.state = .idle ∨ le32 p 1 ≠ rx.id) := by simp [hf.active, hf.id]
  have hn : ¬ n = 0 ∧ 5 ≤ n ∧ ¬ n < 7 ∧ ¬ n < 12 := by omega
  unfold updateProcess processData
  rw [if_neg hn.1]
  dsimp only
  rw [hf.op, if_neg hops, if_pos hn.2.1, if_neg hn.2.2.1, if_neg (not_not.mpr hf.crc), if_neg hid,
    if_pos rfl, if_neg hn.2.2.2, if_neg hgood, if_neg (not_not.mpr hf.active)]
  rfl

/-- The chunk received last is acknowledged again. -/
theorem updateProcess_dataRepeat (hf : DataFrame rx p n)
    (hseq : (le16 p 5).toNat + 1 = rx.nextSeq.toNat)
    (hoff : (le16 p 7).toNat + (p 9).toNat = rx.received.toNat)
    (hsame : ∀ i < (p 9).toNat, pend ((le16 p 7).toNat + i) = p (10 + i)) :
    updateProcess rx p n pend magic = repeated rx UPDATE_ACK (le32 p 1) := by
  rw [updateProcess_data pend magic hf, if_pos ⟨hseq, hoff⟩, if_pos hsame]

/-- The next chunk is stored. -/
theorem updateProcess_extends (hf : DataFrame rx p n) (hseq : le16 p 5 = rx.nextSeq)
    (hoff : le16 p 7 = rx.received) :
    updateProcess rx p n pend magic =
      ⟨true, rx.extended p, dataStores p rx.received.toNat (p 9).toNat, none,
        replySet (rx.extended p) UPDATE_ACK 0 (le32 p 1)⟩ := by
  have hnew : ¬ ((le16 p 5).toNat + 1 = rx.nextSeq.toNat ∧
      (le16 p 7).toNat + (p 9).toNat = rx.received.toNat) := by
    rw [hseq]
    omega
  rw [updateProcess_data pend magic hf, if_neg hnew, if_neg (by simp [hseq, hoff]), hoff]

theorem updateProcess_commit (hf : ShortFrame UPDATE_OP_COMMIT rx p n) :
    updateProcess rx p n pend magic =
      if rx.state = .done then repeated rx rx.finalCode (le32 p 1)
      else if rx.state = .staged then repeated rx UPDATE_REPLY_STAGED (le32 p 1)
      else if rx.received ≠ rx.total then nack rx UPDATE_ERR_SEQUENCE (le32 p 1)
      else if ∀ i, sha256 pend (rx.total.setWidth 32) i = rx.expectedSha i then
        ⟨true, { rx with state := .staged }, [], some UPDATE_PEND_MAGIC,
          replySet rx UPDATE_REPLY_STAGED 0 (le32 p 1)⟩
      else nack { rx with state := .idle } UPDATE_ERR_HASH (le32 p 1) := by
  have hlen := hf.len
  have hops : ¬ UPDATE_OP_COMMIT = UPDATE_OP_BEGIN ∧ ¬ UPDATE_OP_COMMIT = UPDATE_OP_DATA := by
    decide
  have hid : ¬ (rx.state = .idle ∨ le32 p 1 ≠ rx.id) := by simp [hf.not_idle, hf.id]
  have hn : ¬ n = 0 ∧ 5 ≤ n ∧ ¬ n < 7 := by omega
  -- past the common checks; what is left depends on the state
  unfold updateProcess processCommit
  rw [if_neg hn.1]
  dsimp only
  rw [hf.op, if_neg hops.1, if_pos hn.2.1, if_neg hn.2.2, if_neg (not_not.mpr hf.crc), if_neg hid,
    if_neg hops.2, if_pos rfl, if_neg (not_not.mpr hlen)]
  split
  · rfl
  · next hdone =>
    split
    · rfl
    · next hstaged =>
      have hact : rx.state = .active := by
        cases h : rx.state with
        | idle => exact absurd h hf.not_idle
        | active => rfl
        | staged => exact absurd h hstaged
        | done => exact absurd h hdone
      rw [if_neg (not_not.mpr hact)]
      rfl

end Answers

end Interclus

import RudpEngine.AckEnumeration

/-!
# Looking into the history of a header

The word count of a header has four bits, the history it is read into has eight
words. `ProcessReceivedAcks` takes as lost what lies behind the words the header
claims to have, and looks up everything else, so a count above eight makes it
look behind the history as soon as a header acknowledges more than 256 packets.
-/

namespace RudpEngine

namespace NetPacketNotify

/-- The indices the second loop of `ProcessReceivedAcks` passes to `IsDelivered`. -/
def lookedUp : ℕ → List ℕ
  | 0 => []
  | n + 1 => n :: lookedUp n

def historyLookups (p : NetPacketNotify) (h : NotificationHeader) : List ℕ :=
  if 0 < p.getSequenceDelta h ∧ h.ackedSeq.gt p.outAckSeq then
    lookedUp (reportLost (fun _ _ _ => ()) (h.historyWordCount * bitsPerWord) (h.ackedSeq.diff p.outAckSeq).toNat
      p.outAckSeq.inc ()).1
  else []

theorem mem_lookedUp {i : ℕ} : ∀ {n : ℕ}, i ∈ lookedUp n ↔ i < n
  | 0 => by simp [lookedUp]
  | n + 1 => by
    rw [lookedUp, List.mem_cons, mem_lookedUp]
    omega

section
variable {σ : Type} (f : σ → Seq → Bool → σ)

theorem reportLost_fst (historyBits : ℕ) : ∀ (n : ℕ) (cur : Seq) (s : σ),
    (reportLost f historyBits n cur s).1 = min n historyBits
  | 0, _, _ => (Nat.zero_min _).symm
  | n + 1, cur, s => by
    unfold reportLost
    split_ifs with hlt
    · rw [reportLost_fst historyBits n]
      omega
    · show n + 1 = min (n + 1) historyBits
      omega

theorem reportHistory_congr {hist hist' : History} : ∀ (n : ℕ) (cur : Seq) (s : σ),
    (∀ i ∈ lookedUp n, hist.isDelivered i = hist'.isDelivered i) → reportHistory f hist n cur s = reportHistory f hist' n cur s
  | 0, _, _, _ => rfl
  | n + 1, cur, s, heq => by
    unfold reportHistory
    rw [heq n (List.mem_cons_self ..), reportHistory_congr n _ _ fun i hi => heq i (List.mem_cons_of_mem _ hi)]

end

/-- What `Update` does with a header depends on the bits it looks up, and on no other bit of the history. -/
theorem update_congr {σ : Type} (f : σ → Seq → Bool → σ) (p : NetPacketNotify) (h : NotificationHeader) (hist : History)
    (heq : ∀ i ∈ p.historyLookups h, h.history.isDelivered i = hist.isDelivered i) (s : σ) :
    p.update f { h with history := hist } s = p.update f h s := by
  have hdelta : p.getSequenceDelta { h with history := hist } = p.getSequenceDelta h := rfl
  by_cases hd : 0 < p.getSequenceDelta h
  · have hprocess : p.processReceivedAcks f { h with history := hist } s = p.processReceivedAcks f h s := by
      unfold processReceivedAcks
      cases hgt : h.ackedSeq.gt p.outAckSeq with
      | false => simp only [Bool.false_eq_true, if_false]
      | true =>
        simp only [if_true]
        rw [historyLookups, if_pos ⟨hd, hgt⟩, reportLost_fst] at heq
        have hfst := reportLost_fst f (h.historyWordCount * bitsPerWord) (h.ackedSeq.diff p.outAckSeq).toNat p.outAckSeq.inc s
        rw [← hfst] at heq
        rw [reportHistory_congr f _ _ _ heq]
    unfold update
    simp only [hdelta, if_pos hd, hprocess]
    rfl
  · unfold update
    simp only [hdelta, if_neg hd]

/-- Every index is inside the history exactly for the headers that are refused, that acknowledge at most 256 packets, or that
claim no more words than the history has. -/
theorem lookups_inside_iff (p : NetPacketNotify) (h : NotificationHeader) :
    (∀ i ∈ p.historyLookups h, i < maxSequenceHistoryLength) ↔
      p.getSequenceDelta h ≤ 0 ∨ h.ackedSeq.diff p.outAckSeq ≤ maxSequenceHistoryLength ∨ h.historyWordCount ≤ 8 := by
  have hmax : maxSequenceHistoryLength = 256 := rfl
  have hbits : bitsPerWord = 32 := rfl
  unfold historyLookups
  rw [hmax, hbits]
  split_ifs with hc
  · obtain ⟨hd, hgt⟩ := hc
    have hpos := (SequenceNumber.gt_iff_diff (by decide) _ _).mp hgt
    rw [reportLost_fst]
    constructor
    · intro hall
      by_contra hnot
      have hlast := hall 256 (mem_lookedUp.mpr (by omega))
      omega
    · intro hcond i hi
      have hlt := mem_lookedUp.mp hi
      omega
  · have hle : p.getSequenceDelta h ≤ 0 ∨ h.ackedSeq.diff p.outAckSeq ≤ 0 := by
      by_contra hnot
      push Not at hnot
      exact hc ⟨hnot.1, (SequenceNumber.gt_iff_diff (by decide) _ _).mpr hnot.2⟩
    constructor
    · intro _
      omega
    · intro _ i hi
      cases hi

/-- The bytes of a header with sequence number 1 that acknowledges 256, with a word count of sixteen on the wire. -/
def longHeader : List Byte := leBytes 4 (PackedHeader.pack (Seq.ofInt 1) (Seq.ofInt 256) 15) ++ List.replicate 32 0

/-- A peer that is silent for 257 packets makes the object read behind its history with one header. -/
theorem lookups_outside : ¬ ∀ (first : Seq) (s : NotifyRun), (notifyCallSystem first).Reach NotifyRun.FewUnNotified s →
    ∀ r : BitReader, (readHeader r).1 = true →
      ∀ i ∈ s.notify.historyLookups (readHeader r).2.1, i < maxSequenceHistoryLength := by
  intro h
  obtain ⟨hreach, hcommitted, hnotified, hin⟩ := NotifyRun.unanswered_sends 257 (by decide)
  have henum := NotifyRun.reach_inStep hreach
  have hall := h _ _ hreach (BitReader.ofBytes longHeader 288) (by decide +kernel)
  obtain ⟨hwaits, -⟩ := henum
  generalize NotifyRun.send^[257] NotifyRun.start = s at *
  have hout := hwaits.waits.outSeq
  have hack := hwaits.waits.outAckSeq
  rw [NotifyRun.unNotified, hcommitted, hnotified] at hout
  rw [hnotified] at hack
  have hout : s.notify.outSeq = Seq.ofInt 257 := hout
  have hack : s.notify.outAckSeq = Seq.ofInt (-1) := hack
  have hheader : (readHeader (BitReader.ofBytes longHeader 288)).2.1.seq = Seq.ofInt 1 ∧
      (readHeader (BitReader.ofBytes longHeader 288)).2.1.ackedSeq = Seq.ofInt 256 ∧
      (readHeader (BitReader.ofBytes longHeader 288)).2.1.historyWordCount = 16 := by decide +kernel
  generalize (readHeader (BitReader.ofBytes longHeader 288)).2.1 = header at hall hheader
  obtain ⟨hseq, hacked, hcount⟩ := hheader
  have hdelta : s.notify.getSequenceDelta header = 1 := by
    unfold getSequenceDelta
    rw [hseq, hacked, hin, hout, hack]
    decide
  have hdiff : header.ackedSeq.diff s.notify.outAckSeq = 257 := by
    rw [hacked, hack]
    decide
  rw [lookups_inside_iff, hdelta, hdiff, hcount] at hall
  exact absurd hall (by decide)

end NetPacketNotify

end RudpEngine

import RudpEngine.PacketNotify
import Mathlib.Data.List.Basic

/-!
# What a header reports

`ProcessReceivedAcks` calls its functor once for every own packet the header
acknowledges, oldest first, and treats the state the functor captures as one
value. So a call is a fold over the list of the notifications, and what it does
to the object itself does not depend on the functor.
-/

namespace RudpEngine

namespace NotificationHeader

def notifications (h : NotificationHeader) : ℕ → Seq → List (Seq × Bool)
  | 0, _ => []
  | n + 1, cur =>
    (cur, decide (n + 1 ≤ h.historyWordCount * bitsPerWord) && h.history.isDelivered n) :: notifications h n cur.inc

theorem notifications_length (h : NotificationHeader) : ∀ (n : ℕ) (cur : Seq), (h.notifications n cur).length = n
  | 0, _ => rfl
  | n + 1, cur => by rw [notifications, List.length_cons, notifications_length h n]

/-- The `k`-th notification of `n` is about the `k`-th packet, and its bit is the `n - k - 1`-th. -/
theorem getElem?_notifications (h : NotificationHeader) : ∀ (n : ℕ) (x : ℤ) (k : ℕ), k < n →
    (h.notifications n (Seq.ofInt x))[k]? = some (Seq.ofInt (x + k),
      decide (n - k ≤ h.historyWordCount * bitsPerWord) && h.history.isDelivered (n - k - 1))
  | 0, _, _, hk => absurd hk (Nat.not_lt_zero _)
  | n + 1, x, 0, _ => by simp [notifications]
  | n + 1, x, k + 1, hk => by
    have hinc : (Seq.ofInt x).inc = Seq.ofInt (x + 1) := SequenceNumber.inc_ofInt (by decide) x
    have ih := getElem?_notifications h n (x + 1) k (Nat.lt_of_succ_lt_succ hk)
    rw [notifications, List.getElem?_cons_succ, hinc, ih]
    have hx : x + 1 + (k : ℤ) = x + ((k + 1 : ℕ) : ℤ) := by push_cast; ring
    have hn : n + 1 - (k + 1) = n - k := Nat.succ_sub_succ n k
    rw [hx, hn]

end NotificationHeader

namespace NetPacketNotify

variable (p : NetPacketNotify) (h : NotificationHeader)

section
variable {σ : Type} (f : σ → Seq → Bool → σ)

theorem reportHistory_eq (hist : History) (bits : ℕ) : ∀ (n : ℕ), n ≤ bits → ∀ (cur : Seq) (s : σ),
    h.history = hist → h.historyWordCount * bitsPerWord = bits →
    reportHistory f hist n cur s = (h.notifications n cur).foldl (fun s e => f s e.1 e.2) s
  | 0, _, _, _, _, _ => rfl
  | n + 1, hn, cur, s, hh, hb => by
    rw [reportHistory, NotificationHeader.notifications, List.foldl_cons,
      reportHistory_eq hist bits n (Nat.le_of_succ_le hn) _ _ hh hb, hb, decide_eq_true hn, hh]
    rfl

theorem report_eq : ∀ (n : ℕ) (cur : Seq) (s : σ),
    (let r := reportLost f (h.historyWordCount * bitsPerWord) n cur s
     reportHistory f h.history r.1 r.2.1 r.2.2) = (h.notifications n cur).foldl (fun s e => f s e.1 e.2) s
  | 0, _, _ => rfl
  | n + 1, cur, s => by
    unfold reportLost
    split_ifs with hlt
    · rw [NotificationHeader.notifications, List.foldl_cons, decide_eq_false (Nat.not_le.mpr hlt), Bool.false_and]
      exact report_eq n cur.inc (f s cur false)
    · exact reportHistory_eq h f _ _ (n + 1) (Nat.not_lt.mp hlt) cur s rfl rfl

end

def notifications : List (Seq × Bool) :=
  if h.ackedSeq.gt p.outAckSeq then h.notifications (h.ackedSeq.diff p.outAckSeq).toNat p.outAckSeq.inc else []

def acksProcessed : NetPacketNotify :=
  if h.ackedSeq.gt p.outAckSeq then
    { p with
      ackRecord := (p.updateInAckSeqAck (h.ackedSeq.diff p.outAckSeq).toNat h.ackedSeq).1
      inAckSeqAck :=
        if (p.updateInAckSeqAck (h.ackedSeq.diff p.outAckSeq).toNat h.ackedSeq).2.gt p.inAckSeqAck then
          (p.updateInAckSeqAck (h.ackedSeq.diff p.outAckSeq).toNat h.ackedSeq).2
        else p.inAckSeqAck
      outAckSeq := h.ackedSeq
      waitingForFlushSeqAck := if h.ackedSeq.gt p.waitingForFlushSeqAck then h.ackedSeq else p.waitingForFlushSeqAck }
  else p

section
variable {σ : Type} (f : σ → Seq → Bool → σ) (s : σ)

theorem processReceivedAcks_eq : p.processReceivedAcks f h s =
    (p.acksProcessed h, (p.notifications h).foldl (fun s e => f s e.1 e.2) s) := by
  unfold processReceivedAcks acksProcessed notifications
  cases h.ackedSeq.gt p.outAckSeq with
  | true =>
    simp only [if_true]
    rw [← report_eq h f]
  | false => rfl

theorem update_of_delta (hd : 0 < p.getSequenceDelta h) : p.update f h s =
    (((p.acksProcessed h).internalUpdate h (p.getSequenceDelta h)).1,
      ((p.acksProcessed h).internalUpdate h (p.getSequenceDelta h)).2,
      (p.notifications h).foldl (fun s e => f s e.1 e.2) s) := by
  unfold update
  simp only [if_pos hd, processReceivedAcks_eq]

end

/-! ## Fields that stay -/

@[simp] theorem acksProcessed_outSeq : (p.acksProcessed h).outSeq = p.outSeq := by
  unfold acksProcessed; split_ifs <;> rfl

@[simp] theorem acksProcessed_inSeq : (p.acksProcessed h).inSeq = p.inSeq := by
  unfold acksProcessed; split_ifs <;> rfl

@[simp] theorem acksProcessed_inAckSeq : (p.acksProcessed h).inAckSeq = p.inAckSeq := by
  unfold acksProcessed; split_ifs <;> rfl

@[simp] theorem acksProcessed_inSeqHistory : (p.acksProcessed h).inSeqHistory = p.inSeqHistory := by
  unfold acksProcessed; split_ifs <;> rfl

theorem acksProcessed_outAckSeq :
    (p.acksProcessed h).outAckSeq = if h.ackedSeq.gt p.outAckSeq then h.ackedSeq else p.outAckSeq := by
  unfold acksProcessed
  cases h.ackedSeq.gt p.outAckSeq <;> rfl

theorem makeRoom_fields : (p.makeRoom h).outSeq = p.outSeq ∧ (p.makeRoom h).outAckSeq = p.outAckSeq ∧
    (p.makeRoom h).inSeq = p.inSeq ∧ (p.makeRoom h).inAckSeq = p.inAckSeq ∧
    (p.makeRoom h).inSeqHistory = p.inSeqHistory ∧ (p.makeRoom h).ackRecord = p.ackRecord ∧
    (p.makeRoom h).writtenHistoryWordCount = p.writtenHistoryWordCount := by
  unfold makeRoom setWaitForSequenceHistoryFlush
  split_ifs <;> exact ⟨rfl, rfl, rfl, rfl, rfl, rfl, rfl⟩

theorem internalUpdate_fields (d : ℤ) : (p.internalUpdate h d).1.outSeq = p.outSeq ∧
    (p.internalUpdate h d).1.outAckSeq = p.outAckSeq ∧ (p.internalUpdate h d).1.ackRecord = p.ackRecord ∧
    (p.internalUpdate h d).1.writtenHistoryWordCount = p.writtenHistoryWordCount := by
  obtain ⟨h1, h2, -, -, -, h3, h4⟩ := p.makeRoom_fields h
  unfold internalUpdate ackSeqWith
  simp only
  split_ifs <;> exact ⟨h1, h2, h3, h4⟩

/-- The flush mode at the end of `InternalUpdate` is the one its head decided on. -/
theorem internalUpdate_waiting (d : ℤ) :
    (p.internalUpdate h d).1.isWaitingForSequenceHistoryFlush = (p.makeRoom h).isWaitingForSequenceHistoryFlush := by
  unfold internalUpdate ackSeqWith
  simp only
  split_ifs <;> rfl

theorem internalUpdate_of_not_waiting (d : ℤ) (hw : (p.makeRoom h).isWaitingForSequenceHistoryFlush = false) :
    p.internalUpdate h d = ({ p.makeRoom h with inSeq := h.seq }, d) := by
  unfold internalUpdate
  simp only [hw, Bool.not_false, if_true]

end NetPacketNotify

end RudpEngine

import RudpEngine.NotifyLink

/-!
# What a header makes of an end

A packet that fits is accepted by an end that does not wait for a flush. One
that does not fit makes it wait for its next packet, and until that is
acknowledged it records everything up to the newest packet as lost and leaves
`InAckSeqAck` where it is. A whole range after `InAckSeqAck` packets fit again.
-/

namespace RudpEngine

open NetPacketNotify NotifyEnd

/-! ## One header -/

namespace NetPacketNotify

variable {p : NetPacketNotify} {h : NotificationHeader}

theorem acksProcessed_of_same (hsame : h.ackedSeq = p.outAckSeq) : p.acksProcessed h = p := by
  unfold acksProcessed
  rw [hsame, NetConnection.seq_gt_self]
  rfl

theorem internalUpdate_accepts (hwait : p.isWaitingForSequenceHistoryFlush = false)
    (hfit : p.willSequenceFitInSequenceHistory h.seq = true) (d : ℤ) :
    (p.internalUpdate h d).1 = { p with inSeq := h.seq } ∧ p.flushStatuses h = [] := by
  have hroom : p.makeRoom h = p := by
    unfold makeRoom
    rw [hfit, Bool.not_true, Bool.and_false]
    rfl
  have hwait' : (p.makeRoom h).isWaitingForSequenceHistoryFlush = false := by
    rw [hroom]
    exact hwait
  unfold flushStatuses
  rw [internalUpdate_of_not_waiting _ _ _ hwait', hroom, hwait]
  exact ⟨rfl, if_neg (by simp)⟩

theorem getSequenceDelta_pos_of {x i q r n : ℤ} (hseq : h.seq = Seq.ofInt x) (hin : p.inSeq = Seq.ofInt i)
    (hx : i < x ∧ x < i + 2 ^ 13) (hacked : h.ackedSeq = Seq.ofInt q) (hout : p.outAckSeq = Seq.ofInt r)
    (hq : r ≤ q ∧ q < r + 2 ^ 13) (hn : p.outSeq = Seq.ofInt n) (hlast : q < n ∧ n < q + 2 ^ 13) :
    0 < p.getSequenceDelta h := by
  have hnew := (Seq.gt_iff x i).mpr (by omega)
  have hge := (Seq.ge_iff q r).mpr (by omega)
  have hgt := (Seq.gt_iff n q).mpr (by omega)
  have hdiff := (SequenceNumber.gt_iff_diff (n := 14) (by decide) _ _).mp hnew
  unfold getSequenceDelta
  rw [hseq, hin, hacked, hout, hn, hnew, hge, hgt]
  exact hdiff

end NetPacketNotify

namespace NotifyEnd

variable {e e' e'' o : NotifyEnd} {header : NotificationHeader} {first peerFirst : ℤ} {n m i w v x q : ℕ}

/-! ## Sending -/

def sendHeader (e : NotifyEnd) : NotifyEnd :=
  (e.writeHeader (PacketHeader.new (packetHeaderSize * 8)) false).commitAndIncrementOutSeq

theorem sendHeader_eq (e : NotifyEnd) : e.sendHeader = { e with
    notify := { e.notify with
      ackRecord := e.notify.ackRecord ++ [(e.notify.outSeq, e.notify.inAckSeq)]
      writtenHistoryWordCount := 0
      writtenInAckSeq := e.notify.inAckSeq
      outSeq := e.notify.outSeq.inc }
    written := none
    sent := e.sent ++ [(e.notify.header, e.recorded.length)] } := by
  have hone : e.notify.currentHistoryWordCount ≠ 0 := Nat.one_le_iff_ne_zero.mp (le_max_left _ _)
  unfold sendHeader NotifyEnd.writeHeader NotifyEnd.commitAndIncrementOutSeq NetPacketNotify.writeHeader
  simp only [Bool.false_eq_true, false_and, if_false]
  rw [if_neg hone]
  unfold NetPacketNotify.commitAndIncrementOutSeq
  simp only [if_neg hone]
  rfl

structure SentMore (n : ℕ) (e e' : NotifyEnd) : Prop where
  length : e'.sent.length = e.sent.length + n
  keeps : e.sent <+: e'.sent
  newer : ∀ k, e.sent.length ≤ k → k < e'.sent.length → ∃ header, e'.sent[k]? = some (header, e.recorded.length)
  recorded : e'.recorded = e.recorded
  reported : e'.reported = e.reported
  placed : ∀ {first : ℤ} {l : List Bool} {i w : ℕ}, Placed first l i w e.notify → Placed first l i w e'.notify
  received : e'.received = e.received
  outAckSeq : e'.notify.outAckSeq = e.notify.outAckSeq
  waitingForFlushSeqAck : e'.notify.waitingForFlushSeqAck = e.notify.waitingForFlushSeqAck

theorem sentMore_refl (e : NotifyEnd) : SentMore 0 e e :=
  ⟨rfl, List.prefix_refl _, fun _ h1 h2 => absurd h2 (Nat.not_lt.mpr h1), rfl, rfl, fun h => h, rfl, rfl, rfl⟩

theorem SentMore.trans (h : SentMore n e e') (h' : SentMore m e' e'') : SentMore (n + m) e e'' := by
  refine ⟨?_, h.keeps.trans h'.keeps, ?_, h'.recorded.trans h.recorded, h'.reported.trans h.reported,
    fun hp => h'.placed (h.placed hp), h'.received.trans h.received, h'.outAckSeq.trans h.outAckSeq,
    h'.waitingForFlushSeqAck.trans h.waitingForFlushSeqAck⟩
  · rw [h'.length, h.length, Nat.add_assoc]
  · intro k hlo hhi
    rcases Nat.lt_or_ge k e'.sent.length with hk | hk
    · obtain ⟨header, hget⟩ := h.newer k hlo hk
      exact ⟨header, getElem?_of_prefix h'.keeps hget⟩
    · rw [← h.recorded]
      exact h'.newer k hk hhi

theorem sentMore_sendHeader (e : NotifyEnd) : SentMore 1 e e.sendHeader := by
  rw [sendHeader_eq]
  refine ⟨List.length_append, List.prefix_append _ _, ?_, rfl, rfl, fun hp => hp.congr rfl rfl rfl rfl, rfl, rfl, rfl⟩
  intro k hlo hhi
  have hhi : k < (e.sent ++ [(e.notify.header, e.recorded.length)]).length := hhi
  rw [List.length_append, List.length_singleton] at hhi
  obtain rfl : k = e.sent.length := by omega
  exact ⟨e.notify.header, List.getElem?_concat_length⟩

theorem SentMore.marked (h : SentMore n e e') : e'.marked = e.marked := congrArg (List.map Prod.snd) h.recorded

/-! ## Taking in a header -/

/-- The end does not wait for a flush, and has not since its last packet was acknowledged. -/
def Calm (e : NotifyEnd) : Prop := e.notify.waitingForFlushSeqAck = e.notify.outAckSeq

theorem Calm.sentMore (h : e.Calm) (hmore : SentMore n e e') : e'.Calm := by
  unfold Calm
  rw [hmore.waitingForFlushSeqAck, hmore.outAckSeq]
  exact h

theorem Calm.ackInSeq (h : e.Calm) (isAck : Bool) : (e.ackInSeq isAck).Calm := h

theorem Calm.acksProcessed (h : e.Calm) (header : NotificationHeader) :
    (e.notify.acksProcessed header).waitingForFlushSeqAck = (e.notify.acksProcessed header).outAckSeq := by
  unfold Calm at h
  unfold NetPacketNotify.acksProcessed
  cases hgt : header.ackedSeq.gt e.notify.outAckSeq with
  | true => simp only [if_true, h, hgt]
  | false => simp only [Bool.false_eq_true, if_false, h]

theorem update_accepts (hd : 0 < e.notify.getSequenceDelta header)
    (hcalm : (e.notify.acksProcessed header).waitingForFlushSeqAck = (e.notify.acksProcessed header).outAckSeq)
    (hplaced : Placed peerFirst e.marked i v (e.notify.acksProcessed header)) (hseq : header.seq = Seq.ofInt (peerFirst + x))
    (hfit : (e.notify.acksProcessed header).willSequenceFitInSequenceHistory header.seq = true) :
    (e.update header).Calm ∧ (e.update header).recorded = e.recorded ∧
      Placed peerFirst e.marked (x + 1) v (e.update header).notify := by
  have hwait : (e.notify.acksProcessed header).isWaitingForSequenceHistoryFlush = false := by
    unfold isWaitingForSequenceHistoryFlush
    rw [hcalm]
    exact NetConnection.seq_gt_self _
  obtain ⟨hupdate, hflush⟩ := internalUpdate_accepts hwait hfit (e.notify.getSequenceDelta header)
  rw [update_of_pos hd, hupdate, hflush, List.append_nil]
  refine ⟨hcalm, rfl, ?_, hplaced.inAckSeq, hplaced.inAckSeqAck, hplaced.history⟩
  show header.seq = _
  rw [hseq, Nat.cast_succ, ← Int.add_assoc, Int.add_sub_cancel]

/-- With nothing delivered that the peer may not know of, an end that waits records everything up to the packet as lost. -/
theorem update_waits (hd : 0 < e.notify.getSequenceDelta header)
    (hwait : (e.notify.acksProcessed header).isWaitingForSequenceHistoryFlush = true)
    (hplaced : Placed peerFirst e.marked i v (e.notify.acksProcessed header)) (hwindow : Window e.marked i v)
    (hrecorded : e.marked.length = i) (hbelow : ∀ k, e.marked[k]? = some true → k < v)
    (hseq : header.seq = Seq.ofInt (peerFirst + x)) (hix : i ≤ x) (hnear : x + 1 < i + 2 ^ 13) :
    Placed peerFirst (e.update header).marked (x + 1) v (e.update header).notify ∧
      (e.update header).marked = e.marked ++ marks false (x + 1 - i) ∧
      (e.update header).notify.waitingForFlushSeqAck = (e.notify.acksProcessed header).waitingForFlushSeqAck := by
  have hle := hwindow.le
  have hroom : (e.notify.acksProcessed header).makeRoom header = e.notify.acksProcessed header := by
    unfold makeRoom
    rw [hwait]
    rfl
  have hnone : (e.notify.acksProcessed header).getHasUnacknowledgedAcks = false := by
    rw [← Bool.not_eq_true, hplaced.getHasUnacknowledgedAcks hwindow (by omega)]
    rintro ⟨k, hk, hlen⟩
    have hlt := hbelow k hk
    rw [if_pos (by omega)] at hlen
    omega
  have hlast : header.seq = Seq.ofInt (peerFirst + (x + 1 : ℕ) - 1) := by
    rw [hseq, Nat.cast_succ, ← Int.add_assoc, Int.add_sub_cancel]
  have hnew : (e.notify.acksProcessed header).newInSeqToAck header = header.seq := by
    unfold NetPacketNotify.newInSeqToAck
    rw [hnone, Bool.and_false]
    rfl
  rw [← hroom] at hplaced hwait
  have hm : ((e.notify.acksProcessed header).makeRoom header).newInSeqToAck header = Seq.ofInt (peerFirst + (x + 1 : ℕ) - 1) := by
    rw [hroom, hnew, hlast]
  obtain ⟨hflushed, -, hsnd⟩ := hplaced.flushed hwait hm (by omega) (by omega) (by omega) (by omega)
    (e.notify.getSequenceDelta header)
  have hmarked : (e.update header).marked = e.marked ++ marks false (x + 1 - i) := by
    rw [update_of_pos hd, marked, List.map_append, hsnd, hrecorded]
    rfl
  refine ⟨?_, hmarked, ?_⟩
  · rw [hmarked, ← hrecorded, update_of_pos hd]
    exact hflushed
  · rw [update_of_pos hd]
    show ((e.notify.acksProcessed header).internalUpdate header _).1.waitingForFlushSeqAck = _
    rw [internalUpdate_of_waiting _ hwait, hroom]
    split_ifs <;> rfl

/-- A packet that does not fit makes the end wait for its next packet, if there is a delivered one the peer may not know of. -/
theorem update_enters (hd : 0 < e.notify.getSequenceDelta header)
    (hcalm : (e.notify.acksProcessed header).waitingForFlushSeqAck = (e.notify.acksProcessed header).outAckSeq)
    (hplaced : Placed peerFirst e.marked i w (e.notify.acksProcessed header)) (hwindow : Window e.marked i w)
    (hrecorded : e.marked.length = i) (hun : (e.notify.acksProcessed header).getHasUnacknowledgedAcks = true)
    (hseq : header.seq = Seq.ofInt (peerFirst + x)) (hix : i ≤ x) (hroom : w + 256 < x + 1) (hfar : x + 1 < w + 2 ^ 14)
    (hnear : x + 1 < i + 2 ^ 13) :
    ∃ i', i ≤ i' ∧ i' ≤ x + 1 ∧ Placed peerFirst (e.update header).marked i' w (e.update header).notify ∧
      (e.update header).marked = e.marked ++ marks false (i' - i) ∧
      (e.update header).notify.waitingForFlushSeqAck = e.notify.outSeq := by
  have hfit := hplaced.willSequenceFitInSequenceHistory hwindow hix hfar
  rw [← hseq, decide_eq_false (by omega)] at hfit
  have hquiet : (e.notify.acksProcessed header).isWaitingForSequenceHistoryFlush = false := by
    unfold isWaitingForSequenceHistoryFlush
    rw [hcalm]
    exact NetConnection.seq_gt_self _
  have hmake : (e.notify.acksProcessed header).makeRoom header = (e.notify.acksProcessed header).setWaitForSequenceHistoryFlush := by
    unfold makeRoom
    rw [hquiet, hfit, hun]
    rfl
  have hwait : ((e.notify.acksProcessed header).makeRoom header).isWaitingForSequenceHistoryFlush = true := by
    rw [hmake]
    exact acksProcessed_gt hd
  have hstay : Placed peerFirst e.marked i w ((e.notify.acksProcessed header).makeRoom header) := by
    rw [hmake]
    exact hplaced.congr rfl rfl rfl rfl
  have hwaiting : ((e.notify.acksProcessed header).internalUpdate header (e.notify.getSequenceDelta header)).1.waitingForFlushSeqAck =
      e.notify.outSeq := by
    rw [internalUpdate_of_waiting _ hwait, hmake, ← acksProcessed_outSeq e.notify header]
    split_ifs <;> rfl
  obtain ⟨m, hm, hclose, hmx, hmnear, -⟩ := hstay.newInSeqToAck hwindow hseq hix hfar (by omega)
  by_cases him : i ≤ m
  · obtain ⟨hflushed, -, hsnd⟩ := hstay.flushed hwait hm him (by omega) hmnear (by omega) (e.notify.getSequenceDelta header)
    have hmarked : (e.update header).marked = e.marked ++ marks false (m - i) := by
      rw [update_of_pos hd, marked, List.map_append, hsnd, hrecorded]
      rfl
    refine ⟨m, him, hmx, ?_, hmarked, ?_⟩
    · rw [hmarked, ← hrecorded, update_of_pos hd]
      exact hflushed
    · rw [update_of_pos hd]
      exact hwaiting
  · -- there is no room behind what is recorded
    have hge := mt (Seq.ge_iff (peerFirst + m - 1) (peerFirst + i - 1)).mp (by omega)
    have hflush : (e.notify.acksProcessed header).flushStatuses header = [] := by
      unfold flushStatuses
      rw [hm, hstay.inSeq, if_neg fun hc => hge hc.2]
    have hmarked : (e.update header).marked = e.marked := by
      rw [update_of_pos hd, hflush, List.append_nil]
      rfl
    refine ⟨i, Nat.le_refl i, by omega, ?_, ?_, ?_⟩
    · rw [hmarked, update_of_pos hd]
      show Placed peerFirst e.marked i w ((e.notify.acksProcessed header).internalUpdate header _).1
      rw [internalUpdate_of_waiting _ hwait, hm, hstay.inSeq, if_neg hge]
      exact hstay
    · rw [hmarked, Nat.sub_self]
      exact (List.append_nil _).symm
    · rw [update_of_pos hd]
      exact hwaiting

/-! ## A header of the peer -/

theorem Coupled.count_le (h : Coupled first peerFirst e o) (hget : o.sent[x]? = some (header, q)) :
    q ≤ o.recorded.length ∧ q ≤ e.sent.length := by
  obtain ⟨i', w', hpeer⟩ := h.peerReceives
  have hle := (h.peerSends.sent x _ hget).le
  have hrecorded := hpeer.window.recorded
  have harrived := hpeer.arrived
  rw [length_marked] at hle hrecorded
  exact ⟨hle, by omega⟩

theorem Coupled.delta_pos (h : Coupled first peerFirst e o) (hget : o.sent[x]? = some (header, q)) {l : List Bool}
    (hplaced : Placed peerFirst l i w e.notify) (hix : i ≤ x) (hnear : x + 1 < i + 2 ^ 13) (hq : e.reported.length ≤ q)
    (hlast : e.sent.length + 1 < q + 2 ^ 13) : 0 < e.notify.getSequenceDelta header := by
  have hcount := (h.count_le hget).2
  have hle := h.sends.le
  have hfew := h.sends.few
  have hheader := h.peerSends.sent x _ hget
  exact getSequenceDelta_pos_of hheader.seq hplaced.inSeq (by omega) hheader.ackedSeq h.sends.waits.outAckSeq (by omega)
    h.sends.waits.outSeq (by omega)

theorem Coupled.length_reported (h : Coupled first peerFirst e o) (hget : o.sent[x]? = some (header, q))
    (hd : 0 < e.notify.getSequenceDelta header) (hq : e.reported.length ≤ q) : (e.update header).reported.length = q := by
  obtain ⟨i', w', hpeer⟩ := h.peerReceives
  have hfew := h.sends.few
  exact (reported_update h.sends hpeer h.peerSends hget (by omega) hd).2

theorem Coupled.calm_update (h : Coupled first peerFirst e o) (hcalm : e.Calm) (hget : o.sent[x]? = some (header, q))
    (hold : e.received ≤ x) (hx : x < 256) (hq : e.reported.length ≤ q) (hlast : e.sent.length + 1 < q + 2 ^ 13) :
    (e.update header).Calm ∧ (e.update header).recorded = e.recorded ∧ (e.update header).received = x + 1 ∧
      (e.update header).reported.length = q ∧
      ∃ v : ℕ, Placed peerFirst (e.update header).marked (x + 1) v (e.update header).notify ∧
        (q = e.reported.length → (v : ℤ) = e.settled) := by
  obtain ⟨i, w, hr⟩ := h.receives
  obtain ⟨i', w', hpeer⟩ := h.peerReceives
  obtain ⟨hreceived, hsettled⟩ := hr.counts (hr.near h.peerSends.few)
  have hwi := hr.window.le
  have hri := hr.window.recorded
  have hfew := h.sends.few
  have hlen := e.length_marked
  have hd := h.delta_pos hget hr.placed (by omega) (by omega) hq hlast
  have hheader := h.peerSends.sent x _ hget
  obtain ⟨v, hplaced, hwindow, hv⟩ : ∃ v, Placed peerFirst e.marked i v (e.notify.acksProcessed header) ∧
      Window e.marked i v ∧ (q = e.reported.length → v = w) := by
    by_cases hsame : q = e.reported.length
    · subst hsame
      rw [acksProcessed_of_same (hheader.ackedSeq.trans h.sends.waits.outAckSeq.symm)]
      exact ⟨w, hr.placed, hr.window, fun _ => rfl⟩
    · obtain ⟨v, -, hplaced, hwindow, -⟩ := acksProcessed_window h.sends hpeer h.peerSends hget (by omega) hd hr
        fun own _ _ => by omega
      exact ⟨v, hplaced, hwindow, fun heq => absurd heq hsame⟩
  have hseq := hheader.seq
  have hfit := hplaced.willSequenceFitInSequenceHistory hwindow (show i ≤ x by omega) (by omega)
  rw [decide_eq_true (by omega), ← show header.seq = _ from hseq] at hfit
  obtain ⟨hcalm', hrecorded, hplaced'⟩ := update_accepts hd (hcalm.acksProcessed header) hplaced hseq hfit
  have hmarked : (e.update header).marked = e.marked := congrArg (List.map Prod.snd) hrecorded
  rw [← hmarked] at hplaced'
  exact ⟨hcalm', hrecorded, received_eq hplaced' (by rw [hrecorded]; omega) (by rw [hrecorded]; omega),
    h.length_reported hget hd hq, v, hplaced', fun heq => by rw [hsettled, hv heq]⟩

theorem placed_ackInSeq (hp : Placed peerFirst e.marked i w e.notify) (hle : e.marked.length ≤ i)
    (hnear : i < e.marked.length + 2 ^ 13) (isAck : Bool) :
    Placed peerFirst (e.ackInSeq isAck).marked i w (e.ackInSeq isAck).notify ∧
      (e.ackInSeq isAck).marked = e.marked ++ marks isAck (i - e.marked.length) := by
  obtain ⟨hplaced, -, hsnd⟩ := hp.ackSeqWith hle hnear isAck
  rw [← hp.inSeq] at hplaced hsnd
  have hmarked : (e.ackInSeq isAck).marked = e.marked ++ marks isAck (i - e.marked.length) := by
    rw [marked_ackInSeq, hsnd]
  refine ⟨?_, hmarked⟩
  rw [hmarked]
  exact hplaced

/-! ## An end that does not wait -/

theorem Coupled.settled_le (h : Coupled first peerFirst e o) : ∃ w : ℕ, e.settled = w ∧ w ≤ e.received := by
  obtain ⟨i, w, hr⟩ := h.receives
  obtain ⟨hi, hw⟩ := hr.counts (hr.near h.peerSends.few)
  exact ⟨w, hw, hi.symm ▸ hr.window.le⟩

/-- An end that does not wait, has sent `n` headers, is told of `r` packets and has recorded `k` of the `m` that have come. -/
structure Quiet (n r k m : ℕ) (e : NotifyEnd) : Prop where
  calm : e.Calm
  sent : e.sent.length = n
  reported : e.reported.length = r
  recorded : e.recorded.length = k
  received : e.received = m

variable {d r k : ℕ}

theorem Quiet.sentMore (h : Quiet n r k m e) (hmore : SentMore d e e') : Quiet (n + d) r k m e' := by
  refine ⟨h.calm.sentMore hmore, ?_, ?_, ?_, ?_⟩
  · rw [hmore.length, h.sent]
  · rw [hmore.reported, h.reported]
  · rw [hmore.recorded, h.recorded]
  · rw [hmore.received, h.received]

theorem Quiet.newer (h : Quiet n r k m e) (hmore : SentMore d e e') (hlo : n ≤ x) (hhi : x < n + d) :
    ∃ header, e'.sent[x]? = some (header, k) := by
  obtain ⟨header, hget⟩ := hmore.newer x (by rw [h.sent]; exact hlo) (by rw [hmore.length, h.sent]; exact hhi)
  rw [h.recorded] at hget
  exact ⟨header, hget⟩

theorem Quiet.update (h : Quiet n r k m e) (hc : Coupled first peerFirst e o) (hget : o.sent[x]? = some (header, q))
    (hold : m ≤ x) (hx : x < 256) (hq : r ≤ q) (hlast : n + 1 < q + 2 ^ 13) : Quiet n q k (x + 1) (e.update header) := by
  obtain ⟨hcalm, hrecorded, hreceived, hreported, -⟩ := hc.calm_update h.calm hget (by rw [h.received]; exact hold) hx
    (by rw [h.reported]; exact hq) (by rw [h.sent]; exact hlast)
  refine ⟨hcalm, ?_, hreported, ?_, hreceived⟩
  · rw [sent_update, h.sent]
  · rw [hrecorded, h.recorded]

theorem Quiet.ackInSeq (h : Quiet n r k m e) (hc : Coupled first peerFirst e o) (isAck : Bool) :
    Quiet n r m m (e.ackInSeq isAck) := by
  obtain ⟨i, w, hr⟩ := hc.receives
  have hnear := hr.near hc.peerSends.few
  have hrecorded := hr.window.recorded
  obtain rfl : i = m := (hr.counts hnear).1.symm.trans h.received
  rw [← length_marked] at hnear
  obtain ⟨hplaced, hmarked⟩ := placed_ackInSeq hr.placed hrecorded hnear isAck
  have hlen : (e.ackInSeq isAck).recorded.length = i := by
    rw [← length_marked, hmarked, List.length_append, length_marks]
    omega
  exact ⟨h.calm.ackInSeq isAck, h.sent, h.reported, hlen, received_eq hplaced (by omega) (by omega)⟩

/-! ## An end with one delivered packet -/

/-- All `i` packets that have come are recorded, the first one as delivered, and `w` are known to the peer. -/
structure OneDelivered (peerFirst : ℤ) (i w : ℕ) (e : NotifyEnd) : Prop where
  placed : Placed peerFirst e.marked i w e.notify
  recorded : e.marked.length = i
  delivered : ∀ k, e.marked[k]? = some true ↔ k = 0

theorem OneDelivered.pos (h : OneDelivered peerFirst i w e) : 0 < i := by
  have hlt := lt_of_getElem? ((h.delivered 0).mpr rfl)
  rw [h.recorded] at hlt
  exact hlt

theorem OneDelivered.window (h : OneDelivered peerFirst i w e) (hle : w ≤ i) (hnear : i < w + 2 ^ 14)
    (hw : w + 256 < i → 0 < w) : Window e.marked i w := by
  have hrecorded := h.recorded
  refine ⟨by omega, hle, by omega, hnear, fun hlong => ⟨hrecorded, fun k hk => ?_⟩⟩
  rw [(h.delivered k).mp hk]
  exact hw hlong

theorem OneDelivered.sentMore (h : OneDelivered peerFirst i w e) (hmore : SentMore n e e') : OneDelivered peerFirst i w e' := by
  refine ⟨?_, ?_, ?_⟩
  · rw [hmore.marked]
    exact hmore.placed h.placed
  · rw [hmore.marked]
    exact h.recorded
  · rw [hmore.marked]
    exact h.delivered

theorem OneDelivered.lost (h : OneDelivered peerFirst i w e) (hmarked : e'.marked = e.marked ++ marks false (n - i))
    (hin : i ≤ n) (hplaced : Placed peerFirst e'.marked n v e'.notify) : OneDelivered peerFirst n v e' := by
  have hrecorded := h.recorded
  refine ⟨hplaced, ?_, fun k => ?_⟩
  · rw [hmarked, List.length_append, length_marks]
    omega
  · rw [hmarked, getElem?_append_marks, h.delivered]
    simp

theorem OneDelivered.enters (h : OneDelivered peerFirst 1 0 e) (hc : Coupled first peerFirst e o) (hcalm : e.Calm)
    (hget : o.sent[x]? = some (header, e.reported.length)) (hx : 256 ≤ x) (hfar : x < 2 ^ 13)
    (hlast : e.sent.length + 1 < e.reported.length + 2 ^ 13) :
    ∃ i', i' ≤ x + 1 ∧ OneDelivered peerFirst i' 0 (e.update header) ∧
      (e.update header).notify.waitingForFlushSeqAck = e.notify.outSeq ∧
      (e.update header).reported.length = e.reported.length := by
  have hwindow := h.window (by omega) (by omega) (by omega)
  have hheader := hc.peerSends.sent x _ hget
  have hd := hc.delta_pos hget h.placed (by omega) (by omega) (Nat.le_refl _) hlast
  have hsame : e.notify.acksProcessed header = e.notify :=
    acksProcessed_of_same (hheader.ackedSeq.trans hc.sends.waits.outAckSeq.symm)
  have hun : e.notify.getHasUnacknowledgedAcks = true :=
    (h.placed.getHasUnacknowledgedAcks hwindow (by have := h.recorded; omega)).mpr
      ⟨0, (h.delivered 0).mpr rfl, by rw [h.recorded]; decide⟩
  obtain ⟨i', hle, hlast', hplaced, hmarked, hwaiting⟩ := update_enters hd (hcalm.acksProcessed header)
    (hsame.symm ▸ h.placed) hwindow h.recorded (hsame.symm ▸ hun) hheader.seq (by omega) (by omega) (by omega) (by omega)
  exact ⟨i', hlast', h.lost hmarked hle hplaced, hwaiting, hc.length_reported hget hd (Nat.le_refl _)⟩

/-- As long as packet 1 is not acknowledged, the end that waits for it records everything as lost. -/
theorem OneDelivered.flushes (h : OneDelivered peerFirst i w e) (hd : 0 < e.notify.getSequenceDelta header)
    (hplaced : Placed peerFirst e.marked i 1 (e.notify.acksProcessed header))
    (hwaiting : (e.notify.acksProcessed header).waitingForFlushSeqAck = Seq.ofInt (first + 1))
    (hout : (e.notify.acksProcessed header).outAckSeq = Seq.ofInt first) (hseq : header.seq = Seq.ofInt (peerFirst + x))
    (hix : i ≤ x) (hnear : x + 1 < i + 2 ^ 13) (hfar : x < 2 ^ 14) :
    OneDelivered peerFirst (x + 1) 1 (e.update header) ∧
      (e.update header).notify.waitingForFlushSeqAck = Seq.ofInt (first + 1) := by
  have hpos := h.pos
  have hone : OneDelivered peerFirst i 1 { e with notify := e.notify.acksProcessed header } := ⟨hplaced, h.recorded, h.delivered⟩
  have hwindow : Window e.marked i 1 := hone.window (by omega) (by omega) (fun _ => Nat.one_pos)
  have hwait : (e.notify.acksProcessed header).isWaitingForSequenceHistoryFlush = true := by
    unfold isWaitingForSequenceHistoryFlush
    rw [hwaiting, hout, Seq.gt_iff]
    omega
  obtain ⟨hplaced', hmarked, hsame⟩ := update_waits hd hwait hplaced hwindow h.recorded
    (fun k hk => by rw [(h.delivered k).mp hk]; exact Nat.one_pos) hseq hix hnear
  exact ⟨h.lost hmarked (by omega) hplaced', hsame.trans hwaiting⟩

theorem OneDelivered.acked (h : OneDelivered peerFirst i 0 e) (hc : Coupled first peerFirst e o)
    (hwaiting : e.notify.waitingForFlushSeqAck = Seq.ofInt (first + 1)) (hreported : e.reported.length = 0)
    {own : NotificationHeader} (hown : e.sent[0]? = some (own, 1)) (hget : o.sent[x]? = some (header, 1))
    (hix : i ≤ x) (hnear : x + 1 < i + 2 ^ 13) (hfar : x < 2 ^ 14) (hlast : e.sent.length < 2 ^ 13) :
    OneDelivered peerFirst (x + 1) 1 (e.update header) ∧
      (e.update header).notify.waitingForFlushSeqAck = Seq.ofInt (first + 1) ∧ (e.update header).reported.length = 1 := by
  have hheader := hc.peerSends.sent x _ hget
  have hsent := (List.getElem?_eq_some_iff.mp hown).1
  have hwaits := hc.sends.waits
  rw [hreported] at hwaits
  have hacked : header.ackedSeq = Seq.ofInt (first + (0 : ℕ) + (1 : ℕ) - 1) := by
    rw [show header.ackedSeq = _ from hheader.ackedSeq]
    congr 1
    omega
  have hdiff : header.ackedSeq.diff e.notify.outAckSeq = (1 : ℕ) := by
    rw [hacked, hwaits.outAckSeq, Seq.diff_of_lt (by omega) (by omega)]
    omega
  have hentry := hc.sends.entry (q := 1) (by omega) hown
  rw [hreported] at hentry
  have hplaced := h.placed.acksProcessed hwaits (f := 1) (by omega) hacked hdiff (fun _ => hentry) fun _ => by omega
  rw [if_pos (by omega)] at hplaced
  have hgt := (ackedSeq_gt_iff hdiff).mpr Nat.one_pos
  have hd := hc.delta_pos hget h.placed hix hnear (by omega) (by omega)
  have hkeeps : header.ackedSeq.gt e.notify.waitingForFlushSeqAck = false := by
    rw [hacked, hwaiting, ← Bool.not_eq_true, Seq.gt_iff]
    omega
  rw [← and_assoc]
  refine ⟨h.flushes hd hplaced ?_ ?_ hheader.seq hix hnear hfar, hc.length_reported hget hd (by omega)⟩
  · unfold NetPacketNotify.acksProcessed
    rw [if_pos hgt]
    simp only [hkeeps, Bool.false_eq_true, if_false]
    exact hwaiting
  · rw [acksProcessed_outAckSeq, if_pos hgt, hacked]
    congr 1
    omega

theorem OneDelivered.again (h : OneDelivered peerFirst i 1 e) (hc : Coupled first peerFirst e o)
    (hwaiting : e.notify.waitingForFlushSeqAck = Seq.ofInt (first + 1)) (hreported : e.reported.length = 1)
    (hget : o.sent[x]? = some (header, 1)) (hix : i ≤ x) (hnear : x + 1 < i + 2 ^ 13) (hfar : x < 2 ^ 14)
    (hlast : e.sent.length < 2 ^ 13) :
    OneDelivered peerFirst (x + 1) 1 (e.update header) ∧
      (e.update header).notify.waitingForFlushSeqAck = Seq.ofInt (first + 1) ∧ (e.update header).reported.length = 1 := by
  have hheader := hc.peerSends.sent x _ hget
  have hout := hc.sends.waits.outAckSeq
  rw [hreported] at hout
  have hsame : e.notify.acksProcessed header = e.notify := acksProcessed_of_same (hheader.ackedSeq.trans hout.symm)
  have hd := hc.delta_pos hget h.placed hix hnear (by omega) (by omega)
  rw [← and_assoc]
  refine ⟨h.flushes hd (hsame.symm ▸ h.placed) ?_ ?_ hheader.seq hix hnear hfar, hc.length_reported hget hd (by omega)⟩
  · rw [hsame]
    exact hwaiting
  · rw [hsame, hout]
    congr 1
    omega

/-! ## A whole range later -/

theorem willSequenceFit_wrapped {p : NetPacketNotify} {l : List Bool} (hp : Placed first l i w p) (hlo : w + 2 ^ 14 ≤ x + 1)
    (hhi : x + 1 < w + 2 ^ 14 + 256) : p.willSequenceFitInSequenceHistory (Seq.ofInt (first + x)) = true := by
  have hwrap : Seq.ofInt (first + x) = Seq.ofInt (first + x - 2 ^ 14) := by
    rw [Seq.ofInt_eq_iff]
    omega
  have hge := (Seq.ge_iff (first + x - 2 ^ 14) (first + w - 1)).mpr (by omega)
  unfold willSequenceFitInSequenceHistory
  rw [hwrap, hp.inAckSeqAck, maxSequenceHistoryLength, hge, Bool.true_and, Seq.diff_of_lt (by omega) (by omega), decide_eq_true_eq]
  omega

/-- One word holds what is left of the history behind `InAckSeqAck` then. -/
theorem currentHistoryWordCount_wrapped {p : NetPacketNotify} {l : List Bool} (hp : Placed first l i w p) (hlo : w + 2 ^ 14 ≤ l.length)
    (hhi : l.length ≤ w + 2 ^ 14 + 32) : p.currentHistoryWordCount = 1 := by
  have hwrap : Seq.ofInt (first + l.length - 1) = Seq.ofInt (first + l.length - 1 - 2 ^ 14) := by
    rw [Seq.ofInt_eq_iff]
    omega
  have hge := (Seq.ge_iff (first + l.length - 1 - 2 ^ 14) (first + w - 1)).mpr (by omega)
  have hlength : p.getCurrentSequenceHistoryLength ≤ 32 := by
    unfold getCurrentSequenceHistoryLength
    rw [hp.inAckSeq, hp.inAckSeqAck, hwrap, if_pos hge, Seq.diff_of_lt (by omega) (by omega)]
    omega
  unfold currentHistoryWordCount
  rw [bitsPerWord]
  omega

/-- All `i` packets that have come are recorded, number `2 ^ 14` as delivered, and the peer is taken to know of the first one
only; its packet 2 is the newest one that is acknowledged. -/
structure Wrapped (first peerFirst : ℤ) (i : ℕ) (e : NotifyEnd) : Prop where
  calm : e.Calm
  placed : Placed peerFirst e.marked i 1 e.notify
  recorded : e.marked.length = i
  delivered : e.marked[2 ^ 14]? = some true
  outAckSeq : e.notify.outAckSeq = Seq.ofInt (first + 2)
  outSeq : e.notify.outSeq = Seq.ofInt (first + 3)

theorem wrapped_ackInSeq (hcalm : e.Calm) (hplaced : Placed peerFirst e.marked i 1 e.notify) (hlt : e.marked.length < i)
    (hnear : i < e.marked.length + 2 ^ 13) (hdelivered : e.marked[2 ^ 14]? = some true ∨ i = 2 ^ 14 + 1)
    (hout : e.notify.outAckSeq = Seq.ofInt (first + 2)) (hnext : e.notify.outSeq = Seq.ofInt (first + 3)) :
    Wrapped first peerFirst i (e.ackInSeq true) := by
  obtain ⟨hplaced', hmarked⟩ := placed_ackInSeq hplaced (Nat.le_of_lt hlt) hnear true
  refine ⟨hcalm.ackInSeq true, hplaced', ?_, ?_, hout, hnext⟩
  · rw [hmarked, List.length_append, length_marks]
    omega
  · rw [hmarked, getElem?_append_marks]
    exact hdelivered.imp_right fun hi => ⟨rfl, by omega, by omega⟩

/-- The packet with the number of `InAckSeqAck` comes together with the ack of a later packet than the one the end waits for;
what was sent with that is no longer newer than `InAckSeqAck`. -/
theorem OneDelivered.wraps (h : OneDelivered peerFirst i 1 e) (hc : Coupled first peerFirst e o)
    (hwaiting : e.notify.waitingForFlushSeqAck = Seq.ofInt (first + 1)) (hreported : e.reported.length = 1)
    (hsent : e.sent.length = 3) {own : NotificationHeader} (hown : e.sent[2]? = some (own, i))
    (hget : o.sent[2 ^ 14]? = some (header, 3)) (hold : 1 + 2 ^ 13 < i) (hfar : i < 2 ^ 14) :
    Wrapped first peerFirst (2 ^ 14 + 1) ((e.update header).ackInSeq true) := by
  have hheader := hc.peerSends.sent _ _ hget
  have hwaits := hc.sends.waits
  rw [hreported, hsent] at hwaits
  have hacked : header.ackedSeq = Seq.ofInt (first + (1 : ℕ) + (2 : ℕ) - 1) := by
    rw [show header.ackedSeq = _ from hheader.ackedSeq]
    congr 1
    omega
  have hdiff : header.ackedSeq.diff e.notify.outAckSeq = (2 : ℕ) := by
    rw [hacked, hwaits.outAckSeq, Seq.diff_of_lt (by omega) (by omega)]
    omega
  have hentry := hc.sends.entry (q := 3) (by omega) hown
  rw [hreported] at hentry
  have hplaced := h.placed.acksProcessed hwaits (f := i) (by omega) hacked hdiff (fun _ => hentry) fun _ => by omega
  rw [if_neg (by omega)] at hplaced
  have hgt := (ackedSeq_gt_iff hdiff).mpr Nat.two_pos
  have hd := hc.delta_pos hget h.placed (by omega) (by omega) (by omega) (by omega)
  have hmoves : header.ackedSeq.gt e.notify.waitingForFlushSeqAck = true := by
    rw [hacked, hwaiting, Seq.gt_iff]
    omega
  have hcalm : (e.notify.acksProcessed header).waitingForFlushSeqAck = (e.notify.acksProcessed header).outAckSeq := by
    unfold NetPacketNotify.acksProcessed
    rw [if_pos hgt]
    simp only [hmoves, if_true]
  have hseq : header.seq = Seq.ofInt (peerFirst + (2 ^ 14 : ℕ)) := hheader.seq
  have hfit := willSequenceFit_wrapped hplaced (x := 2 ^ 14) (by omega) (by omega)
  rw [← hseq] at hfit
  obtain ⟨hcalm', hrecorded, hplaced'⟩ := update_accepts hd hcalm hplaced hseq hfit
  obtain ⟨hout, houtAck, -, -⟩ := (e.notify.acksProcessed header).internalUpdate_fields header (e.notify.getSequenceDelta header)
  have hmarked : (e.update header).marked = e.marked := congrArg (List.map Prod.snd) hrecorded
  have hlen := h.recorded
  rw [← hmarked] at hplaced' hlen
  refine wrapped_ackInSeq hcalm' hplaced' (by omega) (by omega) (.inr rfl) ?_ ?_
  · rw [update_of_pos hd]
    show ((e.notify.acksProcessed header).internalUpdate header _).1.outAckSeq = _
    rw [houtAck, acksProcessed_outAckSeq, if_pos hgt, hacked]
    congr 1
    omega
  · rw [update_of_pos hd]
    refine hout.trans ((acksProcessed_outSeq _ _).trans (hwaits.outSeq.trans ?_))
    congr 1
    omega

theorem Wrapped.next (h : Wrapped first peerFirst i e) (hseq : header.seq = Seq.ofInt (peerFirst + x))
    (hacked : header.ackedSeq = Seq.ofInt (first + 2)) (hix : i ≤ x) (hhi : x + 1 < 2 ^ 14 + 257) :
    Wrapped first peerFirst (x + 1) ((e.update header).ackInSeq true) := by
  have hlo := (List.getElem?_eq_some_iff.mp h.delivered).1
  have hrecorded := h.recorded
  have hd : 0 < e.notify.getSequenceDelta header := getSequenceDelta_pos_of hseq h.placed.inSeq (by omega) hacked h.outAckSeq
    (by omega) h.outSeq (by omega)
  have hsame := acksProcessed_of_same (hacked.trans h.outAckSeq.symm)
  have hfit := willSequenceFit_wrapped h.placed (x := x) (by omega) (by omega)
  rw [← hseq] at hfit
  obtain ⟨hcalm, hkept, hplaced⟩ := update_accepts hd (h.calm.acksProcessed header) (hsame.symm ▸ h.placed) hseq (hsame.symm ▸ hfit)
  obtain ⟨hout, houtAck, -, -⟩ := (e.notify.acksProcessed header).internalUpdate_fields header (e.notify.getSequenceDelta header)
  have hmarked : (e.update header).marked = e.marked := congrArg (List.map Prod.snd) hkept
  have hdelivered := h.delivered
  rw [← hmarked] at hplaced hrecorded hdelivered hlo
  refine wrapped_ackInSeq hcalm hplaced (by omega) (by omega) (.inl hdelivered) ?_ ?_
  · rw [update_of_pos hd]
    exact houtAck.trans (hsame.symm ▸ h.outAckSeq)
  · rw [update_of_pos hd]
    exact hout.trans ((acksProcessed_outSeq _ _).trans h.outSeq)

/-- What lies behind the words of a header is reported as lost. -/
theorem update_tells_lost (hwaits : Waits first e.reported.length n e.notify) (hd : 0 < e.notify.getSequenceDelta header)
    (hdiff : header.ackedSeq.diff e.notify.outAckSeq = m) {k : ℕ} (hk : e.reported.length ≤ k)
    (hbehind : k + 32 * header.historyWordCount < e.reported.length + m) :
    ((e.update header).reported.map Prod.snd)[k]? = some false := by
  have hout : ¬ m - (k - e.reported.length) ≤ header.historyWordCount * bitsPerWord := by
    rw [bitsPerWord]
    omega
  rw [update_of_pos hd, hwaits.notifications hdiff, List.getElem?_map, List.getElem?_append_right hk,
    NotificationHeader.getElem?_notifications header m _ _ (by omega), decide_eq_false hout, Bool.false_and]
  rfl

end NotifyEnd

end RudpEngine

import RudpEngine.Receive
import RudpEngine.Run

/-!
# Every packet is notified once, in order

The number committed last, the number notified last and the ack record of a
`NetPacketNotify` stay in step for any headers the peer sends: a header can
only acknowledge what lies between the two numbers, and the record has one
entry for each number there.
-/

namespace RudpEngine

/-- A `NetPacketNotify` with the numbers `CommitAndIncrementOutSeq` has committed and the calls of the functor of `Update`. -/
structure NotifyRun where
  notify : NetPacketNotify
  committed : List Seq
  notified : List (Seq × Bool)

inductive NotifyCall
  | writeHeader (writer : BitWriter) (bRefresh : Bool)
  | commitAndIncrementOutSeq
  | ackSeq (seq : Seq)
  | nakSeq (seq : Seq)
  | update (header : NotificationHeader)

namespace NotifyRun

variable (s : NotifyRun)

def commitAndIncrementOutSeq : NotifyRun :=
  { s with
    notify := s.notify.commitAndIncrementOutSeq
    committed := if s.notify.writtenHistoryWordCount = 0 then s.committed else s.committed ++ [s.notify.outSeq] }

def update (header : NotificationHeader) : NotifyRun :=
  let (notify, _, notified) := s.notify.update (fun log seq delivered => log ++ [(seq, delivered)]) header s.notified
  { s with notify := notify, notified := notified }

def next : NotifyCall → NotifyRun
  | .writeHeader writer bRefresh => { s with notify := (s.notify.writeHeader writer bRefresh).2.1 }
  | .commitAndIncrementOutSeq => s.commitAndIncrementOutSeq
  | .ackSeq seq => { s with notify := s.notify.ackSeq seq }
  | .nakSeq seq => { s with notify := s.notify.nakSeq seq }
  | .update header => s.update header

/-- Behind an `Init`, of an object in any state. -/
structure Start (initialOutSeq : Seq) (s : NotifyRun) : Prop where
  notify : ∃ (p : NetPacketNotify) (initialInSeq : Seq), s.notify = p.init initialInSeq initialOutSeq
  committed : s.committed = []
  notified : s.notified = []

def unNotified : ℕ := s.committed.length - s.notified.length

def FewUnNotified (s : NotifyRun) (a : NotifyCall) : Prop := (s.next a).unNotified < 2 ^ 13

end NotifyRun

def notifyCallSystem (initialOutSeq : Seq) : System NotifyRun NotifyCall := ⟨NotifyRun.Start initialOutSeq, NotifyRun.next⟩

def numbersFrom (first : ℤ) (n : ℕ) : List Seq := (List.range n).map fun k : ℕ => Seq.ofInt (first + k)

@[simp] theorem length_numbersFrom (first : ℤ) (n : ℕ) : (numbersFrom first n).length = n := by
  rw [numbersFrom, List.length_map, List.length_range]

theorem numbersFrom_add (first : ℤ) (m n : ℕ) :
    numbersFrom first (m + n) = numbersFrom first m ++ numbersFrom (first + m) n := by
  unfold numbersFrom
  rw [List.range_add, List.map_append, List.map_map]
  congr 1
  apply List.map_congr_left
  intro k _
  rw [Function.comp_apply, Nat.cast_add, Int.add_assoc]

theorem numbersFrom_succ (first : ℤ) (n : ℕ) : numbersFrom first (n + 1) = numbersFrom first n ++ [Seq.ofInt (first + n)] := by
  rw [numbersFrom, List.range_succ, List.map_append]
  rfl

theorem getElem?_numbersFrom (first : ℤ) {n k : ℕ} (hk : k < n) : (numbersFrom first n)[k]? = some (Seq.ofInt (first + k)) := by
  rw [numbersFrom, List.getElem?_map, List.getElem?_range hk]
  rfl

namespace NetPacketNotify

theorem notifications_fst (h : NotificationHeader) : ∀ (n : ℕ) (x : ℤ),
    (h.notifications n (Seq.ofInt x)).map Prod.fst = numbersFrom x n
  | 0, _ => rfl
  | n + 1, x => by
    have hinc : (Seq.ofInt x).inc = Seq.ofInt (x + 1) := SequenceNumber.inc_ofInt (by decide) x
    rw [NotificationHeader.notifications, List.map_cons, hinc, notifications_fst h n (x + 1), Nat.add_comm n 1,
      numbersFrom_add x 1 n]
    simp [numbersFrom]

/-- The object knows the packets from `first` on: `d` of them are notified and `w` more are committed. -/
structure Waits (first : ℤ) (d w : ℕ) (p : NetPacketNotify) : Prop where
  outSeq : p.outSeq = Seq.ofInt (first + d + w)
  outAckSeq : p.outAckSeq = Seq.ofInt (first + d - 1)
  ackRecord : p.ackRecord.map Prod.fst = numbersFrom (first + d) w

variable {first : ℤ} {d w : ℕ} {p p' : NetPacketNotify} {h : NotificationHeader}

theorem Waits.congr (hp : Waits first d w p) (h1 : p'.outSeq = p.outSeq) (h2 : p'.outAckSeq = p.outAckSeq)
    (h3 : p'.ackRecord = p.ackRecord) : Waits first d w p' :=
  ⟨h1.trans hp.outSeq, h2.trans hp.outAckSeq, by rw [h3, hp.ackRecord]⟩

theorem waits_init (p : NetPacketNotify) (initialInSeq initialOutSeq : Seq) :
    Waits initialOutSeq.value 0 0 (p.init initialInSeq initialOutSeq) := by
  refine ⟨?_, ?_, rfl⟩
  · rw [Nat.cast_zero, Int.add_zero, Int.add_zero]
    exact (SequenceNumber.ofInt_value_self (by decide) _).symm
  · rw [Nat.cast_zero, Int.add_zero]
    rfl

theorem Waits.writeHeader (hp : Waits first d w p) (writer : BitWriter) (bRefresh : Bool) :
    Waits first d w (p.writeHeader writer bRefresh).2.1 := by
  unfold NetPacketNotify.writeHeader
  split_ifs
  · exact hp
  · exact hp.congr rfl rfl rfl
  · exact hp.congr rfl rfl rfl

theorem Waits.commitAndIncrementOutSeq (hp : Waits first d w p) (hwritten : p.writtenHistoryWordCount ≠ 0) :
    Waits first d (w + 1) p.commitAndIncrementOutSeq := by
  rw [NetPacketNotify.commitAndIncrementOutSeq, if_neg hwritten]
  refine ⟨?_, hp.outAckSeq, ?_⟩
  · show p.outSeq.inc = _
    rw [hp.outSeq, Nat.cast_succ, ← Int.add_assoc]
    exact SequenceNumber.inc_ofInt (by decide) _
  · show (p.ackRecord ++ [(p.outSeq, p.writtenInAckSeq)]).map Prod.fst = _
    rw [List.map_append, hp.ackRecord, numbersFrom_succ, hp.outSeq]
    rfl

theorem Waits.ackSeqWith (hp : Waits first d w p) (q : Seq) (isAck : Bool) : Waits first d w (p.ackSeqWith q isAck) := by
  unfold NetPacketNotify.ackSeqWith
  exact hp.congr rfl rfl rfl

theorem Waits.acked (hp : Waits first d w p) (hw : w < 2 ^ 13) (hd : 0 < p.getSequenceDelta h) :
    ∃ m ≤ w, h.ackedSeq = Seq.ofInt (first + d + m - 1) ∧ h.ackedSeq.diff p.outAckSeq = m := by
  obtain ⟨-, -, hge, hgt⟩ := getSequenceDelta_pos hd
  obtain ⟨-, hhi⟩ := SequenceNumber.diff_bounds (by decide) h.ackedSeq p.outAckSeq
  have hge := (SequenceNumber.ge_iff_diff (by decide) _ _).mp hge
  have hval := SequenceNumber.ofInt_add_diff (by decide) h.ackedSeq (first + d - 1)
  have hlast : SequenceNumber.ofInt 14 (first + d - 1) = p.outAckSeq := hp.outAckSeq.symm
  rw [hlast] at hval
  obtain ⟨m, hm⟩ := Int.eq_ofNat_of_zero_le hge
  rw [hm] at hval hhi
  have hacked : h.ackedSeq = Seq.ofInt (first + d + m - 1) := by
    rw [← hval, Seq.ofInt]
    congr 1
    omega
  refine ⟨m, ?_, hacked, hm⟩
  -- the comparison with `OutSeq` is one of the integers, the difference being within the half range
  rcases Nat.eq_zero_or_pos m with rfl | hpos
  · exact Nat.zero_le w
  · rw [hacked, hp.outSeq] at hgt
    have hlt := (SequenceNumber.gt_ofInt (n := 14) (by decide) (x := first + d + w) (y := first + d + m - 1)
      (by omega) (by omega)).symm.trans hgt
    have hlt := of_decide_eq_true hlt
    omega

theorem Waits.updateInAckSeqAck (hp : Waits first d w p) {m : ℕ} (hm : 0 < m) (hmw : m ≤ w)
    (hacked : h.ackedSeq = Seq.ofInt (first + d + m - 1)) :
    ∃ inAckSeq, p.ackRecord[m - 1]? = some (h.ackedSeq, inAckSeq) ∧
      p.updateInAckSeqAck m h.ackedSeq = (p.ackRecord.drop m, inAckSeq) := by
  have hlen : p.ackRecord.length = w := by
    rw [← List.length_map Prod.fst, hp.ackRecord, length_numbersFrom]
  have hlt : m - 1 < p.ackRecord.length := by omega
  have hfst : (p.ackRecord[m - 1]).1 = h.ackedSeq := by
    have hget := getElem?_numbersFrom (first + d) (n := w) (k := m - 1) (by omega)
    rw [← hp.ackRecord, List.getElem?_map, List.getElem?_eq_getElem hlt, Option.map_some] at hget
    rw [hacked, Option.some.inj hget]
    congr 1
    omega
  have hdrop : p.ackRecord.drop (m - 1) = p.ackRecord[m - 1] :: p.ackRecord.drop m := by
    rw [List.drop_eq_getElem_cons hlt, Nat.sub_add_cancel hm]
  refine ⟨(p.ackRecord[m - 1]).2, ?_, ?_⟩
  · rw [List.getElem?_eq_getElem hlt, ← hfst]
  · unfold NetPacketNotify.updateInAckSeqAck
    simp only [hlen, hmw, if_true, hdrop, hfst]

/-- The packets a header acknowledges are notified, one after the other, and leave the record. -/
theorem Waits.update (hp : Waits first d w p) (hw : w < 2 ^ 13) (hd : 0 < p.getSequenceDelta h) :
    ∃ m ≤ w, (p.notifications h).map Prod.fst = numbersFrom (first + d) m ∧
      Waits first (d + m) (w - m) ((p.acksProcessed h).internalUpdate h (p.getSequenceDelta h)).1 := by
  obtain ⟨m, hmw, hacked, hdiff⟩ := hp.acked hw hd
  obtain ⟨h1, h2, h3, -⟩ := (p.acksProcessed h).internalUpdate_fields h (p.getSequenceDelta h)
  have hgt : h.ackedSeq.gt p.outAckSeq = decide (0 < m) := by
    rw [Bool.eq_iff_iff, SequenceNumber.gt_iff_diff (by decide), hdiff, Int.natCast_pos, decide_eq_true_eq]
  refine ⟨m, hmw, ?_, ?_⟩
  · unfold notifications
    rcases Nat.eq_zero_or_pos m with rfl | hpos
    · rw [hgt]
      rfl
    · have hinc : p.outAckSeq.inc = Seq.ofInt (first + d) := by
        rw [hp.outAckSeq, Seq.ofInt, SequenceNumber.inc_ofInt (by decide), Int.sub_add_cancel]
        rfl
      rw [hgt, decide_eq_true hpos, if_pos rfl, hdiff, hinc]
      exact notifications_fst h m (first + d)
  · apply Waits.congr _ h1 h2 h3
    have hout : first + (d + m : ℕ) + (w - m : ℕ) = first + d + w := by omega
    rcases Nat.eq_zero_or_pos m with rfl | hpos
    · unfold acksProcessed
      rw [hgt]
      exact hp
    · obtain ⟨inAckSeq, -, hupdate⟩ := hp.updateInAckSeqAck hpos hmw hacked
      unfold acksProcessed
      rw [hgt, decide_eq_true hpos, if_pos rfl, hdiff, Int.toNat_natCast, hupdate]
      refine ⟨?_, ?_, ?_⟩
      · rw [hout]
        exact hp.outSeq
      · show h.ackedSeq = _
        rw [hacked]
        congr 1
        push_cast
        ring
      · show (p.ackRecord.drop m).map Prod.fst = _
        have hsplit := numbersFrom_add (first + d) m (w - m)
        rw [Nat.add_sub_cancel' hmw] at hsplit
        have hlen : (numbersFrom (first + d) m).length = m := length_numbersFrom _ _
        rw [List.map_drop, hp.ackRecord, hsplit, List.drop_left' hlen, Nat.cast_add, Int.add_assoc]

end NetPacketNotify

namespace NotifyRun

open NetPacketNotify

/-- `UpdateInAckSeqAck` finds the entry of the packet that `header` acknowledges. -/
def FindsRecord (p : NetPacketNotify) (header : NotificationHeader) : Prop :=
  (header.ackedSeq.diff p.outAckSeq).toNat ≤ p.ackRecord.length ∧
    ∃ inAckSeq, p.ackRecord[(header.ackedSeq.diff p.outAckSeq).toNat - 1]? = some (header.ackedSeq, inAckSeq) ∧
      (p.updateInAckSeqAck (header.ackedSeq.diff p.outAckSeq).toNat header.ackedSeq).2 = inAckSeq

/-- What was committed and what was notified, for a run from `first` on. -/
structure Enumerated (first : Seq) (s : NotifyRun) : Prop where
  committed : s.committed = numbersFrom first.value s.committed.length
  notified : s.notified.map Prod.fst = numbersFrom first.value s.notified.length
  ackRecord : s.notified.map Prod.fst ++ s.notify.ackRecord.map Prod.fst = s.committed
  outSeq : s.notify.outSeq = Seq.ofInt (first.value + s.committed.length)
  outAckSeq : s.notify.outAckSeq = (s.notified.getLast?.map Prod.fst).getD (Seq.ofInt (first.value - 1))
  finds : ∀ header, 0 < s.notify.getSequenceDelta header → header.ackedSeq.gt s.notify.outAckSeq = true →
    FindsRecord s.notify header

structure InStep (first : ℤ) (s : NotifyRun) : Prop where
  committed : s.committed = numbersFrom first s.committed.length
  notified : s.notified.map Prod.fst = numbersFrom first s.notified.length
  le : s.notified.length ≤ s.committed.length
  waits : s.notify.Waits first s.notified.length s.unNotified

variable {first : ℤ} {s : NotifyRun}

theorem InStep.notify (h : InStep first s) {p : NetPacketNotify} (hp : p.Waits first s.notified.length s.unNotified) :
    InStep first { s with notify := p } := ⟨h.committed, h.notified, h.le, hp⟩

theorem InStep.commitAndIncrementOutSeq (h : InStep first s) : InStep first s.commitAndIncrementOutSeq := by
  obtain ⟨hcommitted, hnotified, hle, hwaits⟩ := h
  unfold NotifyRun.commitAndIncrementOutSeq
  by_cases hwritten : s.notify.writtenHistoryWordCount = 0
  · rw [if_pos hwritten, NetPacketNotify.commitAndIncrementOutSeq, if_pos hwritten]
    exact ⟨hcommitted, hnotified, hle, hwaits⟩
  · have hwaits' := hwaits.commitAndIncrementOutSeq hwritten
    have hcount : s.unNotified + 1 = s.committed.length + 1 - s.notified.length := by unfold unNotified; omega
    rw [if_neg hwritten]
    refine ⟨?_, hnotified, ?_, ?_⟩
    · show s.committed ++ [s.notify.outSeq] = _
      have hout : first + s.notified.length + s.unNotified = first + s.committed.length := by unfold unNotified; omega
      rw [List.length_append, List.length_singleton, numbersFrom_succ, ← hcommitted, hwaits.outSeq, hout]
    · show s.notified.length ≤ (s.committed ++ [s.notify.outSeq]).length
      rw [List.length_append]
      exact Nat.le_add_right_of_le hle
    · show Waits first s.notified.length ((s.committed ++ [s.notify.outSeq]).length - s.notified.length) _
      rw [List.length_append, List.length_singleton, ← hcount]
      exact hwaits'

theorem foldl_append_pairs : ∀ (es log : List (Seq × Bool)),
    es.foldl (fun log e => log ++ [(e.1, e.2)]) log = log ++ es
  | [], log => (List.append_nil log).symm
  | e :: es, log => by
    rw [List.foldl_cons, foldl_append_pairs es, List.append_assoc]
    rfl

theorem InStep.update (h : InStep first s) (hfew : s.unNotified < 2 ^ 13) (header : NotificationHeader) :
    InStep first (s.update header) := by
  obtain ⟨hcommitted, hnotified, hle, hwaits⟩ := h
  unfold NotifyRun.update
  by_cases hd : 0 < s.notify.getSequenceDelta header
  · obtain ⟨m, hm, hfst, hnext⟩ := hwaits.update hfew hd
    rw [update_of_delta _ _ _ _ hd, foldl_append_pairs]
    have hlen : (s.notify.notifications header).length = m := by
      rw [← List.length_map Prod.fst, hfst, length_numbersFrom]
    refine ⟨hcommitted, ?_, ?_, ?_⟩
    · rw [List.map_append, hnotified, hfst, List.length_append, hlen, numbersFrom_add]
    · show (s.notified ++ s.notify.notifications header).length ≤ s.committed.length
      rw [List.length_append, hlen]
      unfold unNotified at hm
      omega
    · show Waits first (s.notified ++ s.notify.notifications header).length
        (s.committed.length - (s.notified ++ s.notify.notifications header).length) _
      rw [List.length_append, hlen, ← Nat.sub_sub]
      exact hnext
  · unfold NetPacketNotify.update
    simp only [if_neg hd]
    exact ⟨hcommitted, hnotified, hle, hwaits⟩

theorem InStep.next (h : InStep first s) (hfew : s.unNotified < 2 ^ 13) (a : NotifyCall) : InStep first (s.next a) := by
  cases a with
  | writeHeader writer bRefresh => exact h.notify (h.waits.writeHeader writer bRefresh)
  | commitAndIncrementOutSeq => exact h.commitAndIncrementOutSeq
  | ackSeq seq => exact h.notify (h.waits.ackSeqWith seq true)
  | nakSeq seq => exact h.notify (h.waits.ackSeqWith seq false)
  | update header => exact h.update hfew header

theorem reach_inStep {initialOutSeq : Seq} (h : (notifyCallSystem initialOutSeq).Reach FewUnNotified s) :
    InStep initialOutSeq.value s ∧ s.unNotified < 2 ^ 13 := by
  refine System.Reach.invariant (I := fun s => InStep initialOutSeq.value s ∧ s.unNotified < 2 ^ 13) ?_ ?_ h
  · rintro s ⟨⟨p, initialInSeq, hnotify⟩, hcommitted, hnotified⟩
    have hun : s.unNotified = 0 := by rw [unNotified, hcommitted, hnotified]; rfl
    refine ⟨⟨?_, ?_, ?_, ?_⟩, ?_⟩
    · rw [hcommitted]; rfl
    · rw [hnotified]; rfl
    · rw [hcommitted, hnotified]
      exact Nat.le_refl 0
    · rw [hun, hnotified, hnotify]
      exact waits_init p initialInSeq initialOutSeq
    · rw [hun]
      decide
  · exact fun s a ⟨hs, hfew⟩ ha => ⟨hs.next hfew a, ha⟩

theorem InStep.enumerated {initialOutSeq : Seq} (h : InStep initialOutSeq.value s) (hfew : s.unNotified < 2 ^ 13) :
    Enumerated initialOutSeq s := by
  obtain ⟨hcommitted, hnotified, hle, hwaits⟩ := h
  have hcount : s.notified.length + s.unNotified = s.committed.length := Nat.add_sub_cancel' hle
  refine ⟨hcommitted, hnotified, ?_, ?_, ?_, ?_⟩
  · rw [hnotified, hwaits.ackRecord, ← numbersFrom_add, hcount]
    exact hcommitted.symm
  · rw [hwaits.outSeq, ← hcount, Nat.cast_add, Int.add_assoc]
  · rw [hwaits.outAckSeq, ← List.getLast?_map, hnotified]
    cases s.notified.length with
    | zero => rfl
    | succ n =>
      rw [numbersFrom_succ, List.getLast?_concat, Option.getD_some, Nat.cast_succ]
      congr 1
      omega
  · intro header hd hgt
    obtain ⟨m, hm, hacked, hdiff⟩ := hwaits.acked hfew hd
    have hpos := (SequenceNumber.gt_iff_diff (by decide) _ _).mp hgt
    rw [hdiff] at hpos
    obtain ⟨inAckSeq, hget, hupdate⟩ := hwaits.updateInAckSeqAck (by exact_mod_cast hpos) hm hacked
    have hlen : s.notify.ackRecord.length = s.unNotified := by
      rw [← List.length_map Prod.fst, hwaits.ackRecord, length_numbersFrom]
    unfold FindsRecord
    rw [hdiff, Int.toNat_natCast, hlen]
    exact ⟨hm, inAckSeq, hget, by rw [hupdate]⟩

end NotifyRun

namespace NotifyRun

/-- A header is written, without refreshing another, and committed. -/
def send (s : NotifyRun) : NotifyRun :=
  (s.next (.writeHeader (PacketHeader.new (packetHeaderSize * 8)) false)).next .commitAndIncrementOutSeq

def start : NotifyRun := ⟨NetPacketNotify.new.init (Seq.ofInt 0) (Seq.ofInt 0), [], []⟩

theorem start_start : Start (Seq.ofInt 0) start := ⟨⟨_, _, rfl⟩, rfl, rfl⟩

structure Unanswered (n : ℕ) (s : NotifyRun) : Prop where
  reach : (notifyCallSystem (Seq.ofInt 0)).Reach FewUnNotified s
  committed : s.committed.length = n
  notified : s.notified = []
  inSeq : s.notify.inSeq = Seq.ofInt 0

theorem committed_of_written {s : NotifyRun} (h : s.notify.writtenHistoryWordCount ≠ 0) :
    s.commitAndIncrementOutSeq.committed = s.committed ++ [s.notify.outSeq] := if_neg h

theorem inSeq_commitAndIncrementOutSeq (p : NetPacketNotify) : p.commitAndIncrementOutSeq.inSeq = p.inSeq := by
  unfold NetPacketNotify.commitAndIncrementOutSeq
  split_ifs <;> rfl

theorem Unanswered.send {n : ℕ} {s : NotifyRun} (h : Unanswered n s) (hn : n + 1 < 2 ^ 13) : Unanswered (n + 1) s.send := by
  obtain ⟨hreach, hcommitted, hnotified, hin⟩ := h
  have hwritten : (notifyCallSystem (Seq.ofInt 0)).Reach FewUnNotified
      (s.next (.writeHeader (PacketHeader.new (packetHeaderSize * 8)) false)) := by
    apply System.Reach.next (a := NotifyCall.writeHeader (PacketHeader.new (packetHeaderSize * 8)) false) hreach
    show s.committed.length - s.notified.length < 2 ^ 13
    omega
  have hcount : (s.next (.writeHeader (PacketHeader.new (packetHeaderSize * 8)) false)).notify.writtenHistoryWordCount ≠ 0 := by
    have hone : 1 ≤ s.notify.currentHistoryWordCount := le_max_left _ _
    exact Nat.ne_of_gt hone
  have hlen : s.send.committed.length = n + 1 := by
    refine (congrArg List.length (committed_of_written hcount)).trans ?_
    rw [List.length_append, List.length_singleton]
    exact congrArg (· + 1) hcommitted
  refine ⟨System.Reach.next (a := NotifyCall.commitAndIncrementOutSeq) hwritten ?_, hlen, hnotified, ?_⟩
  · exact (Nat.sub_le _ _).trans_lt (hlen.trans_lt hn)
  · exact (inSeq_commitAndIncrementOutSeq _).trans hin

theorem unanswered_sends : ∀ n < 2 ^ 13, Unanswered n (send^[n] start)
  | 0, _ => ⟨.init start_start, rfl, rfl, rfl⟩
  | n + 1, hn => by
    rw [Function.iterate_succ_apply']
    exact (unanswered_sends n (Nat.lt_of_succ_lt hn)).send hn

end NotifyRun

/-- Every committed number is notified at most once and in order, and those that are not yet have their entries in the
record, whatever the peer sends. -/
theorem acks_enumerated {initialOutSeq : Seq} {s : NotifyRun} (h : (notifyCallSystem initialOutSeq).Reach NotifyRun.FewUnNotified s) :
    s.Enumerated initialOutSeq := by
  obtain ⟨hs, hfew⟩ := NotifyRun.reach_inStep h
  exact hs.enumerated hfew

/-- Three packets are sent, and a header acknowledges the second and not the first. -/
theorem acks_enumerated_three :
    ((NotifyRun.send^[3] NotifyRun.start).update ⟨⟨[1, 0, 0, 0, 0, 0, 0, 0], rfl⟩, 1, Seq.ofInt 1, Seq.ofInt 1⟩).notified =
        [(Seq.ofInt 0, false), (Seq.ofInt 1, true)] ∧
      ((NotifyRun.send^[3] NotifyRun.start).update
        ⟨⟨[1, 0, 0, 0, 0, 0, 0, 0], rfl⟩, 1, Seq.ofInt 1, Seq.ofInt 1⟩).Enumerated (Seq.ofInt 0) := by
  have hreach := (NotifyRun.unanswered_sends 3 (by decide)).reach
  refine ⟨by decide +kernel, acks_enumerated (System.Reach.next (a := NotifyCall.update
    ⟨⟨[1, 0, 0, 0, 0, 0, 0, 0], rfl⟩, 1, Seq.ofInt 1, Seq.ofInt 1⟩) hreach ?_)⟩
  show NotifyRun.unNotified _ < 2 ^ 13
  decide +kernel

end RudpEngine

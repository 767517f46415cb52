import RudpEngine.ReceiveWindow

/-!
# Two ends that acknowledge each other's packets

Each end sends headers and takes in those of the other in any order, any number
of times or never. Every end keeps a log of the statuses it has recorded in its
receive history and of those `Update` has reported to it. What is reported to
the one end is the first part of what the other end has recorded, in every run
in which no sequence number comes further behind than its range.
-/

namespace RudpEngine

open NetPacketNotify

/-- An end with the header written last, the headers sent and both logs; each header has the number of statuses that were
recorded when it was written. -/
structure NotifyEnd where
  notify : NetPacketNotify
  written : Option (NotificationHeader × ℕ)
  sent : List (NotificationHeader × ℕ)
  recorded : List (Seq × Bool)
  reported : List (Seq × Bool)

inductive NotifyLinkAction
  | writeHeader (writer : BitWriter) (bRefresh : Bool)
  | commitAndIncrementOutSeq
  | ackSeq
  | nakSeq
  | update (k : ℕ)

namespace NotifyEnd

variable (e : NotifyEnd)

def writeHeader (writer : BitWriter) (bRefresh : Bool) : NotifyEnd :=
  let (ok, notify, _) := e.notify.writeHeader writer bRefresh
  let count := notify.writtenHistoryWordCount
  let header : NotificationHeader := ⟨e.notify.inSeqHistory.firstWords count, count, e.notify.outSeq, e.notify.inAckSeq⟩
  { e with
    notify := notify
    written := if ok then some (header, e.recorded.length) else e.written }

def commitAndIncrementOutSeq : NotifyEnd :=
  if e.notify.writtenHistoryWordCount = 0 then e
  else
    { e with
      notify := e.notify.commitAndIncrementOutSeq
      written := none
      sent := e.sent ++ e.written.toList }

/-- `AckSeq` and `NakSeq` of the newest packet. -/
def ackInSeq (isAck : Bool) : NotifyEnd :=
  { e with
    notify := e.notify.ackSeqWith e.notify.inSeq isAck
    recorded := e.recorded ++ e.notify.statuses e.notify.inSeq isAck }

def update (header : NotificationHeader) : NotifyEnd :=
  let (notify, _, reported) :=
    e.notify.update (fun log seq delivered => log ++ [(seq, delivered)]) header e.reported
  { e with
    notify := notify
    recorded :=
      if 0 < e.notify.getSequenceDelta header then
        e.recorded ++ (e.notify.acksProcessed header).flushStatuses header
      else e.recorded
    reported := reported }

def received : ℕ := e.recorded.length + e.notify.inSeq.ahead e.notify.inAckSeq

/-- The packets of the peer that it is known to have been told about, up to `InAckSeqAck`. -/
def settled : ℤ := e.received - e.notify.inSeq.ahead e.notify.inAckSeqAck

end NotifyEnd

structure NotifyLink where
  ends : Bool → NotifyEnd

namespace NotifyLink

variable (s : NotifyLink)

def setEnd (b : Bool) (e : NotifyEnd) : NotifyLink := ⟨Function.update s.ends b e⟩

/-- End `b` takes in the `k`-th header of the other end. -/
def update (b : Bool) (k : ℕ) : NotifyLink :=
  match (s.ends (!b)).sent[k]? with
  | none => s
  | some (header, _) => s.setEnd b ((s.ends b).update header)

def next (s : NotifyLink) : Bool × NotifyLinkAction → NotifyLink
  | (b, .writeHeader writer bRefresh) => s.setEnd b ((s.ends b).writeHeader writer bRefresh)
  | (b, .commitAndIncrementOutSeq) => s.setEnd b (s.ends b).commitAndIncrementOutSeq
  | (b, .ackSeq) => s.setEnd b ((s.ends b).ackInSeq true)
  | (b, .nakSeq) => s.setEnd b ((s.ends b).ackInSeq false)
  | (b, .update k) => s.update b k

/-- Both ends are behind an `Init` with matching sequence numbers, and no header is written. -/
def Start (first : Bool → Seq) (s : NotifyLink) : Prop :=
  ∀ b, ∃ p : NetPacketNotify, p.writtenHistoryWordCount = 0 ∧
    s.ends b = ⟨p.init (Seq.ofInt ((first (!b)).value - 1)) (first b), none, [], [], []⟩

/-- Fewer than half a range of packets is outstanding, and no header comes after as many later ones. -/
def Assumed (s : NotifyLink) (a : Bool × NotifyLinkAction) : Prop :=
  (∀ b, ((s.next a).ends b).sent.length < ((s.next a).ends b).reported.length + 2 ^ 13) ∧
    ∀ k, a.2 = .update k → (s.ends (!a.1)).sent.length ≤ k + 2 ^ 13

/-- A header with a newer number is taken in where the numbers `Update` compares are within their range: the packet it
acknowledges is one of the last of the end, its own packet is not a whole range ahead of `InAckSeqAck`, and the number
that was sent with the acknowledged packet is not half a range behind. -/
def InRange (s : NotifyLink) (a : Bool × NotifyLinkAction) : Prop :=
  ∀ k header count, a.2 = .update k → (s.ends (!a.1)).sent[k]? = some (header, count) →
    header.seq.gt (s.ends a.1).notify.inSeq = true →
      (s.ends a.1).sent.length < count + 2 ^ 14 ∧ (k : ℤ) + 1 < (s.ends a.1).settled + 2 ^ 14 ∧
        ∀ own, (s.ends a.1).reported.length < count → (s.ends a.1).sent[count - 1]? = some own →
          (s.ends a.1).settled ≤ own.2 + 2 ^ 13

/-- End `b` is told of its packets, from the first on, what the other end has recorded. -/
structure ToldTruly (first : Bool → Seq) (b : Bool) (s : NotifyLink) : Prop where
  recorded : (s.ends (!b)).recorded.map Prod.fst = numbersFrom (first b).value (s.ends (!b)).recorded.length
  reported : (s.ends b).reported <+: (s.ends (!b)).recorded

end NotifyLink

def notifyLinkSystem (first : Bool → Seq) : System NotifyLink (Bool × NotifyLinkAction) :=
  ⟨NotifyLink.Start first, NotifyLink.next⟩

/-! ## The acks of a header -/

namespace NetPacketNotify

variable {first peerFirst : ℤ} {d m n i w : ℕ} {l : List Bool} {p : NetPacketNotify} {h : NotificationHeader}

theorem ackedSeq_gt_iff (hdiff : h.ackedSeq.diff p.outAckSeq = m) : h.ackedSeq.gt p.outAckSeq = true ↔ 0 < m := by
  rw [SequenceNumber.gt_iff_diff (by decide), hdiff]
  exact Int.natCast_pos

theorem Waits.notifications (hp : Waits first d n p) (hdiff : h.ackedSeq.diff p.outAckSeq = m) :
    p.notifications h = h.notifications m (Seq.ofInt (first + d)) := by
  have hgt := ackedSeq_gt_iff hdiff
  unfold NetPacketNotify.notifications
  rcases Nat.eq_zero_or_pos m with rfl | hpos
  · rw [if_neg (mt hgt.mp (Nat.lt_irrefl 0))]
    rfl
  · have hinc : p.outAckSeq.inc = Seq.ofInt (first + d) := by
      rw [hp.outAckSeq, Seq.ofInt, SequenceNumber.inc_ofInt (by decide), Int.sub_add_cancel]
      rfl
    rw [if_pos (hgt.mpr hpos), hdiff, hinc, Int.toNat_natCast]

theorem Waits.ackRecord_acksProcessed (hp : Waits first d n p) (hm : m ≤ n) (hacked : h.ackedSeq = Seq.ofInt (first + d + m - 1))
    (hdiff : h.ackedSeq.diff p.outAckSeq = m) : (p.acksProcessed h).ackRecord = p.ackRecord.drop m := by
  have hgt := ackedSeq_gt_iff hdiff
  unfold NetPacketNotify.acksProcessed
  rcases Nat.eq_zero_or_pos m with rfl | hpos
  · rw [if_neg (mt hgt.mp (Nat.lt_irrefl 0)), List.drop_zero]
  · obtain ⟨inAckSeq, -, hupdate⟩ := hp.updateInAckSeqAck hpos hm hacked
    rw [if_pos (hgt.mpr hpos), hdiff, Int.toNat_natCast, hupdate]

theorem acksProcessed_gt (hd : 0 < p.getSequenceDelta h) : (p.acksProcessed h).outSeq.gt (p.acksProcessed h).outAckSeq = true := by
  obtain ⟨-, -, hge, hgt⟩ := getSequenceDelta_pos hd
  rw [acksProcessed_outSeq, acksProcessed_outAckSeq]
  cases hnew : h.ackedSeq.gt p.outAckSeq with
  | true => exact hgt
  | false =>
    have hle := mt (SequenceNumber.gt_iff_diff (n := 14) (by decide) _ _).mpr (Bool.eq_false_iff.mp hnew)
    have hge := (SequenceNumber.ge_iff_diff (n := 14) (by decide) _ _).mp hge
    have hsame : h.ackedSeq = p.outAckSeq := by
      have hvalue := SequenceNumber.ofInt_add_diff (n := 14) (by decide) h.ackedSeq p.outAckSeq.value
      rw [SequenceNumber.ofInt_value_self (by decide)] at hvalue
      rw [← hvalue, show h.ackedSeq.diff p.outAckSeq = 0 by omega, Int.add_zero, SequenceNumber.ofInt_value_self (by decide)]
    rw [← hsame]
    exact hgt

theorem written_acksProcessed (p : NetPacketNotify) (h : NotificationHeader) :
    (p.acksProcessed h).writtenInAckSeq = p.writtenInAckSeq ∧
      (p.acksProcessed h).writtenHistoryWordCount = p.writtenHistoryWordCount := by
  unfold acksProcessed
  split_ifs <;> exact ⟨rfl, rfl⟩

theorem writtenInAckSeq_internalUpdate (p : NetPacketNotify) (h : NotificationHeader) (delta : ℤ) :
    (p.internalUpdate h delta).1.writtenInAckSeq = p.writtenInAckSeq := by
  unfold internalUpdate ackSeqWith makeRoom setWaitForSequenceHistoryFlush
  simp only
  split_ifs <;> rfl

theorem Window.advance (hw : Window l i w) (hle : w ≤ n) (hn : n ≤ l.length) : Window l i n := by
  have hrecorded := hw.recorded
  have hnear := hw.near
  refine ⟨hrecorded, by omega, by omega, by omega, fun hlong => ?_⟩
  obtain ⟨hall, hbelow⟩ := hw.flushed (by omega)
  exact ⟨hall, fun k hk => (hbelow k hk).trans_le hle⟩

/-- The number sent with the packet that is acknowledged becomes `InAckSeqAck`, where it is ahead by less than half a range. -/
theorem Placed.acksProcessed (hp : Placed peerFirst l i w p) (hwaits : Waits first d n p) {f : ℕ} (hm : m ≤ n)
    (hacked : h.ackedSeq = Seq.ofInt (first + d + m - 1)) (hdiff : h.ackedSeq.diff p.outAckSeq = m)
    (hrecord : 0 < m → (p.ackRecord.map Prod.snd)[m - 1]? = some (Seq.ofInt (peerFirst + f - 1)))
    (hf : 0 < m → f < w + 2 ^ 14 ∧ w ≤ f + 2 ^ 13) :
    Placed peerFirst l i (if 0 < m ∧ w < f ∧ f < w + 2 ^ 13 then f else w) (p.acksProcessed h) := by
  have hgt := ackedSeq_gt_iff hdiff
  unfold NetPacketNotify.acksProcessed
  rcases Nat.eq_zero_or_pos m with rfl | hpos
  · rw [if_neg (mt hgt.mp (Nat.lt_irrefl 0)), if_neg (fun hc => absurd hc.1 (Nat.lt_irrefl 0))]
    exact hp
  · obtain ⟨hfar, hnear⟩ := hf hpos
    obtain ⟨inAckSeq, hget, hupdate⟩ := hwaits.updateInAckSeqAck hpos hm hacked
    have hin : inAckSeq = Seq.ofInt (peerFirst + f - 1) := by
      have := hrecord hpos
      rw [List.getElem?_map, hget] at this
      exact Option.some.inj this
    have hcmp := Seq.gt_iff (peerFirst + f - 1) (peerFirst + w - 1)
    rw [if_pos (hgt.mpr hpos), hdiff, Int.toNat_natCast, hupdate, hin, hp.inAckSeqAck]
    by_cases hnew : (Seq.ofInt (peerFirst + f - 1)).gt (Seq.ofInt (peerFirst + w - 1)) = true
    · have hlt := hcmp.mp hnew
      rw [if_pos (by omega : 0 < m ∧ w < f ∧ f < w + 2 ^ 13)]
      exact ⟨hp.inSeq, hp.inAckSeq, if_pos hnew, hp.history⟩
    · have hlt := mt hcmp.mpr hnew
      rw [if_neg (by omega : ¬ (0 < m ∧ w < f ∧ f < w + 2 ^ 13))]
      exact ⟨hp.inSeq, hp.inAckSeq, if_neg hnew, hp.history⟩

end NetPacketNotify

/-! ## One end and its peer -/

namespace NotifyEnd

def marked (e : NotifyEnd) : List Bool := e.recorded.map Prod.snd

/-- A header sent as packet `x` by an end with the recorded statuses `l`: what lies behind its words the peer, to which `r`
packets are reported, has been told. -/
structure HeaderOf (first peerFirst : ℤ) (l : List Bool) (r x : ℕ) (hd : NotificationHeader × ℕ) : Prop where
  seq : hd.1.seq = Seq.ofInt (first + x)
  ackedSeq : hd.1.ackedSeq = Seq.ofInt (peerFirst + hd.2 - 1)
  le : hd.2 ≤ l.length
  words : hd.1.historyWordCount ≤ 8
  history : ∀ j < 32 * hd.1.historyWordCount,
    (hd.1.history.isDelivered j = true ↔ ∃ k, k + j + 1 = hd.2 ∧ l[k]? = some true)
  older : ∀ k, l[k]? = some true → k + 32 * hd.1.historyWordCount < hd.2 → k < r

/-- The receiving side of `e`, for the packets of `o` from `first` on. -/
structure Receives (first : ℤ) (i w : ℕ) (e o : NotifyEnd) : Prop where
  placed : Placed first e.marked i w e.notify
  window : Window e.marked i w
  numbers : e.recorded.map Prod.fst = numbersFrom first e.recorded.length
  arrived : i ≤ o.sent.length
  kept : ∀ k, e.marked[k]? = some true → k < o.reported.length ∨ w ≤ k
  told : o.reported <+: e.recorded
  seen : ∀ x hd, x < i → o.sent[x]? = some hd → hd.2 ≤ e.reported.length

/-- The sending side of `e`, whose headers acknowledge the packets of `o` from `peerFirst` on. -/
structure Sends (first peerFirst : ℤ) (e o : NotifyEnd) : Prop where
  waits : Waits first e.reported.length (e.sent.length - e.reported.length) e.notify
  le : e.reported.length ≤ e.sent.length
  few : e.sent.length < e.reported.length + 2 ^ 13
  record : e.notify.ackRecord.map Prod.snd =
    (e.sent.drop e.reported.length).map fun hd => Seq.ofInt (peerFirst + hd.2 - 1)
  sent : ∀ x hd, e.sent[x]? = some hd → HeaderOf first peerFirst e.marked o.reported.length x hd
  written : ∀ hd, e.written = some hd → HeaderOf first peerFirst e.marked o.reported.length e.sent.length hd ∧
    e.notify.writtenInAckSeq = Seq.ofInt (peerFirst + hd.2 - 1)
  pending : e.notify.writtenHistoryWordCount = 0 ↔ e.written = none
  words : e.notify.writtenHistoryWordCount ≤ 8
  ordered : (e.sent ++ e.written.toList).Pairwise fun hd hd' => hd.2 ≤ hd'.2

section
variable {first peerFirst : ℤ} {i w : ℕ} {e e' o o' : NotifyEnd}

theorem getElem?_of_prefix {α : Type} {l l' : List α} (h : l <+: l') {k : ℕ} {x : α} (hk : l[k]? = some x) : l'[k]? = some x := by
  obtain ⟨hlt, rfl⟩ := List.getElem?_eq_some_iff.mp hk
  exact List.prefix_iff_getElem?.mp h k hlt

@[simp] theorem length_marked (e : NotifyEnd) : e.marked.length = e.recorded.length := List.length_map ..

theorem HeaderOf.mono {l l' : List Bool} {r r' x : ℕ} {hd : NotificationHeader × ℕ}
    (h : HeaderOf first peerFirst l r x hd) (hl : l <+: l') (hr : r ≤ r') : HeaderOf first peerFirst l' r' x hd := by
  have hle := h.le
  have hsame : ∀ k, k < hd.2 → l'[k]? = l[k]? := fun k hk => by
    rw [List.prefix_iff_getElem?.mp hl k (by omega), List.getElem?_eq_getElem (by omega)]
  refine ⟨h.seq, h.ackedSeq, h.le.trans hl.length_le, h.words, ?_, ?_⟩
  · intro j hj
    rw [h.history j hj]
    apply exists_congr
    intro k
    apply and_congr_right
    intro hk
    rw [hsame k (by omega)]
  · intro k hk hlt
    rw [hsame k (by omega)] at hk
    exact (h.older k hk hlt).trans_le hr

/-! ## Steps of the peer -/

theorem Receives.peer (h : Receives first i w e o) (hsent : o.sent <+: o'.sent)
    (hreported : o.reported.length ≤ o'.reported.length) (htold : o'.reported <+: e.recorded) : Receives first i w e o' := by
  refine ⟨h.placed, h.window, h.numbers, h.arrived.trans hsent.length_le, ?_, htold, ?_⟩
  · intro k hk
    exact (h.kept k hk).imp_left fun hlt => hlt.trans_le hreported
  · intro x hd hx hget
    have harrived := h.arrived
    have hsame := List.prefix_iff_getElem?.mp hsent x (by omega)
    rw [hsame, ← List.getElem?_eq_getElem] at hget
    exact h.seen x hd hx hget

theorem Sends.peer (h : Sends first peerFirst e o) (hreported : o.reported.length ≤ o'.reported.length) :
    Sends first peerFirst e o' :=
  ⟨h.waits, h.le, h.few, h.record, fun x hd hget => (h.sent x hd hget).mono (List.prefix_refl _) hreported,
    fun hd hw => ⟨(h.written hd hw).1.mono (List.prefix_refl _) hreported, (h.written hd hw).2⟩, h.pending, h.words, h.ordered⟩

theorem Receives.near (h : Receives first i w e o) (ho : o.sent.length < o.reported.length + 2 ^ 13) :
    i < e.recorded.length + 2 ^ 13 := by
  have harrived := h.arrived
  have hle := h.told.length_le
  omega

/-! ## Sending -/

theorem writeHeader_cases (e : NotifyEnd) (writer : BitWriter) (bRefresh : Bool) (hwords : e.notify.writtenHistoryWordCount ≤ 8) :
    e.writeHeader writer bRefresh = e ∨ ∃ count, e.notify.currentHistoryWordCount ≤ count ∧ count ≤ 8 ∧
      e.writeHeader writer bRefresh = { e with
        notify := { e.notify with writtenHistoryWordCount := count, writtenInAckSeq := e.notify.inAckSeq }
        written := some (⟨e.notify.inSeqHistory.firstWords count, count, e.notify.outSeq, e.notify.inAckSeq⟩,
          e.recorded.length) } := by
  have hcount : e.notify.currentHistoryWordCount ≤ 8 := by
    unfold currentHistoryWordCount
    omega
  unfold writeHeader NetPacketNotify.writeHeader
  by_cases hrefused : bRefresh = true ∧ e.notify.writtenHistoryWordCount < e.notify.currentHistoryWordCount
  · rw [if_pos hrefused]
    exact .inl rfl
  · rw [if_neg hrefused]
    right
    refine ⟨if bRefresh then e.notify.writtenHistoryWordCount else e.notify.currentHistoryWordCount, ?_, ?_, rfl⟩
    · cases bRefresh with
      | true => exact Nat.le_of_not_lt fun hlt => hrefused ⟨rfl, hlt⟩
      | false => exact Nat.le_refl _
    · cases bRefresh with
      | true => exact hwords
      | false => exact hcount

/-- A header that is written now holds everything the peer may not have been told. -/
theorem Receives.headerOf (h : Receives peerFirst i w e o) (hnear : i < e.recorded.length + 2 ^ 13) {x : ℕ}
    (hseq : e.notify.outSeq = Seq.ofInt (first + x)) {count : ℕ} (hcurrent : e.notify.currentHistoryWordCount ≤ count)
    (hcount : count ≤ 8) : HeaderOf first peerFirst e.marked o.reported.length x
      (⟨e.notify.inSeqHistory.firstWords count, count, e.notify.outSeq, e.notify.inAckSeq⟩, e.recorded.length) := by
  have hplaced := h.placed
  have hlen := e.length_marked
  refine ⟨hseq, ?_, hlen.ge, hcount, ?_, ?_⟩
  · rw [← hlen]
    exact hplaced.inAckSeq
  · intro j hj
    have hj : j < 32 * count := hj
    show (e.notify.inSeqHistory.firstWords count).isDelivered j = true ↔ ∃ k, k + j + 1 = e.recorded.length ∧ _
    rw [SequenceHistory.isDelivered_firstWords _ hj, hplaced.history, ← hlen]
    exact SequenceHistory.isDelivered_pushed _ (by omega)
  · intro k hk hlt
    have hlt : k + 32 * count < e.recorded.length := hlt
    refine (h.kept k hk).resolve_right fun hle => ?_
    have hreach := h.window.reach_le hk hle
    have hrecorded := h.window.recorded
    have hhistory := hplaced.getCurrentSequenceHistoryLength h.window (by omega)
    rw [if_pos (by omega)] at hhistory
    have hwords : max 1 (min 8 ((e.notify.getCurrentSequenceHistoryLength + bitsPerWord - 1) / bitsPerWord)) ≤ count := hcurrent
    rw [hhistory, bitsPerWord] at hwords
    omega

theorem Receives.writeHeader (h : Receives peerFirst i w e o) (hs : Sends first peerFirst e o) (writer : BitWriter)
    (bRefresh : Bool) : Receives peerFirst i w (e.writeHeader writer bRefresh) o := by
  rcases e.writeHeader_cases writer bRefresh hs.words with he | ⟨count, -, -, he⟩
  · rw [he]
    exact h
  · rw [he]
    exact ⟨h.placed.congr rfl rfl rfl rfl, h.window, h.numbers, h.arrived, h.kept, h.told, h.seen⟩

theorem Sends.writeHeader (hs : Sends first peerFirst e o) (h : Receives peerFirst i w e o)
    (ho : o.sent.length < o.reported.length + 2 ^ 13) (writer : BitWriter) (bRefresh : Bool) :
    Sends first peerFirst (e.writeHeader writer bRefresh) o := by
  rcases e.writeHeader_cases writer bRefresh hs.words with he | ⟨count, hcurrent, hcount, he⟩
  · rw [he]
    exact hs
  · have hone : 1 ≤ e.notify.currentHistoryWordCount := le_max_left _ _
    have hseq : e.notify.outSeq = Seq.ofInt (first + e.sent.length) := by
      have hle := hs.le
      rw [hs.waits.outSeq]
      congr 1
      omega
    have hheader := h.headerOf (h.near ho) hseq hcurrent hcount
    rw [he]
    refine ⟨hs.waits.congr rfl rfl rfl, hs.le, hs.few, hs.record, hs.sent, ?_, ?_, hcount, ?_⟩
    · intro hd hw
      obtain rfl := Option.some.inj hw
      refine ⟨hheader, ?_⟩
      rw [← e.length_marked]
      exact h.placed.inAckSeq
    · constructor
      · intro hzero
        have hzero : count = 0 := hzero
        omega
      · intro hnone
        cases hnone
    · have hordered := (List.pairwise_append.mp hs.ordered).1
      refine List.pairwise_append.mpr ⟨hordered, List.pairwise_singleton _ _, ?_⟩
      intro hd hmem hd' hmem'
      obtain ⟨x, hx⟩ := List.mem_iff_getElem?.mp hmem
      obtain rfl := List.mem_singleton.mp hmem'
      have hle := (hs.sent x hd hx).le
      rw [length_marked] at hle
      exact hle

theorem commit_cases (hs : Sends first peerFirst e o) :
    e.commitAndIncrementOutSeq = e ∨ ∃ hd, e.written = some hd ∧ e.notify.writtenHistoryWordCount ≠ 0 ∧
      e.commitAndIncrementOutSeq =
        { e with notify := e.notify.commitAndIncrementOutSeq, written := none, sent := e.sent ++ [hd] } := by
  unfold NotifyEnd.commitAndIncrementOutSeq
  by_cases hzero : e.notify.writtenHistoryWordCount = 0
  · exact .inl (if_pos hzero)
  · rw [if_neg hzero]
    cases hw : e.written with
    | none => exact absurd (hs.pending.mpr hw) hzero
    | some hd => exact .inr ⟨hd, rfl, hzero, rfl⟩

theorem Receives.commitAndIncrementOutSeq (h : Receives peerFirst i w e o) (hs : Sends first peerFirst e o) :
    Receives peerFirst i w e.commitAndIncrementOutSeq o := by
  rcases commit_cases hs with he | ⟨hd, -, hzero, he⟩
  · rw [he]
    exact h
  · have hplaced : Placed peerFirst e.marked i w e.notify.commitAndIncrementOutSeq := by
      unfold NetPacketNotify.commitAndIncrementOutSeq
      rw [if_neg hzero]
      exact h.placed.congr rfl rfl rfl rfl
    rw [he]
    exact ⟨hplaced, h.window, h.numbers, h.arrived, h.kept, h.told, h.seen⟩

theorem Sends.commitAndIncrementOutSeq (hs : Sends first peerFirst e o)
    (hfew : e.commitAndIncrementOutSeq.sent.length < e.commitAndIncrementOutSeq.reported.length + 2 ^ 13) :
    Sends first peerFirst e.commitAndIncrementOutSeq o := by
  rcases commit_cases hs with he | ⟨hd, hw, hzero, he⟩
  · rw [he]
    exact hs
  · have hle := hs.le
    have hwaits := hs.waits.commitAndIncrementOutSeq hzero
    obtain ⟨hheader, hin⟩ := hs.written hd hw
    have hlen : (e.sent ++ [hd]).length - e.reported.length = e.sent.length - e.reported.length + 1 := by
      rw [List.length_append, List.length_singleton]
      omega
    rw [he] at hfew ⊢
    refine ⟨?_, ?_, hfew, ?_, ?_, ?_, ?_, ?_, ?_⟩
    · show Waits first e.reported.length ((e.sent ++ [hd]).length - e.reported.length) _
      rw [hlen]
      exact hwaits
    · show e.reported.length ≤ (e.sent ++ [hd]).length
      rw [List.length_append]
      omega
    · have hrecord : e.notify.commitAndIncrementOutSeq.ackRecord =
          e.notify.ackRecord ++ [(e.notify.outSeq, e.notify.writtenInAckSeq)] := by
        unfold NetPacketNotify.commitAndIncrementOutSeq
        rw [if_neg hzero]
      show List.map Prod.snd e.notify.commitAndIncrementOutSeq.ackRecord = List.map _ ((e.sent ++ [hd]).drop e.reported.length)
      rw [hrecord, List.map_append, hs.record, List.drop_append_of_le_length hle, List.map_append]
      simp only [List.map_cons, List.map_nil, hin]
    · intro x hd' hget
      have hget : (e.sent ++ [hd])[x]? = some hd' := hget
      rcases Nat.lt_or_ge x e.sent.length with hlt | hge
      · rw [List.getElem?_append_left hlt] at hget
        exact hs.sent x hd' hget
      · obtain ⟨hlt, -⟩ := List.getElem?_eq_some_iff.mp hget
        rw [List.length_append, List.length_singleton] at hlt
        obtain rfl : x = e.sent.length := by omega
        rw [List.getElem?_concat_length] at hget
        obtain rfl := Option.some.inj hget
        exact hheader
    · intro hd' hnone
      cases hnone
    · have hdone : e.notify.commitAndIncrementOutSeq.writtenHistoryWordCount = 0 := by
        unfold NetPacketNotify.commitAndIncrementOutSeq
        rw [if_neg hzero]
      exact iff_of_true hdone rfl
    · show e.notify.commitAndIncrementOutSeq.writtenHistoryWordCount ≤ 8
      unfold NetPacketNotify.commitAndIncrementOutSeq
      rw [if_neg hzero]
      exact Nat.zero_le 8
    · have hordered := hs.ordered
      rw [hw] at hordered
      show ((e.sent ++ [hd]) ++ []).Pairwise _
      rw [List.append_nil]
      exact hordered

/-! ## Recording -/

theorem marked_ackInSeq (e : NotifyEnd) (isAck : Bool) :
    (e.ackInSeq isAck).marked = e.marked ++ (e.notify.statuses e.notify.inSeq isAck).map Prod.snd := List.map_append

theorem Receives.ackInSeq (h : Receives peerFirst i w e o) (hnear : i < e.recorded.length + 2 ^ 13) (isAck : Bool) :
    Receives peerFirst i w (e.ackInSeq isAck) o := by
  have hrecorded := h.window.recorded
  have hlen := e.length_marked
  obtain ⟨hplaced, hfst, hsnd⟩ := h.placed.ackSeqWith hrecorded (by omega) isAck
  rw [← h.placed.inSeq] at hplaced hfst hsnd
  have hmarked : (e.ackInSeq isAck).marked = e.marked ++ marks isAck (i - e.marked.length) := by
    rw [marked_ackInSeq, hsnd]
  refine ⟨?_, ?_, ?_, h.arrived, ?_, h.told.trans (List.prefix_append _ _), h.seen⟩
  · rw [hmarked]
    exact hplaced
  · rw [hmarked]
    refine ⟨?_, h.window.le, ?_, h.window.near, ?_⟩
    · rw [List.length_append, length_marks]
      omega
    · rw [List.length_append, length_marks]
      omega
    · intro hlong
      obtain ⟨hall, hbelow⟩ := h.window.flushed hlong
      refine ⟨by rw [List.length_append, length_marks]; omega, fun k hk => ?_⟩
      rcases getElem?_append_marks.mp hk with hk | ⟨-, hpos, -⟩
      · exact hbelow k hk
      · omega
  · show (e.recorded ++ _).map Prod.fst = numbersFrom peerFirst (e.recorded ++ _).length
    have hstatuses : (e.notify.statuses e.notify.inSeq isAck).length = i - e.marked.length := by
      rw [← List.length_map Prod.fst, hfst, length_numbersFrom]
    rw [List.map_append, List.length_append, h.numbers, hfst, hstatuses, numbersFrom_add, hlen]
  · intro k hk
    rw [hmarked] at hk
    rcases getElem?_append_marks.mp hk with hk | ⟨-, hpos, hlast⟩
    · exact h.kept k hk
    · have hpending := h.window.pending (by omega)
      right
      omega

theorem Sends.ackInSeq (hs : Sends first peerFirst e o) (isAck : Bool) : Sends first peerFirst (e.ackInSeq isAck) o := by
  have hmarked : e.marked <+: (e.ackInSeq isAck).marked := by
    rw [marked_ackInSeq]
    exact List.prefix_append _ _
  exact ⟨hs.waits.ackSeqWith _ _, hs.le, hs.few, hs.record, fun x hd hget => (hs.sent x hd hget).mono hmarked (Nat.le_refl _),
    fun hd hw => ⟨(hs.written hd hw).1.mono hmarked (Nat.le_refl _), (hs.written hd hw).2⟩, hs.pending, hs.words, hs.ordered⟩

/-! ## Taking in a header -/

theorem update_of_not_pos {header : NotificationHeader} (hd : ¬ 0 < e.notify.getSequenceDelta header) : e.update header = e := by
  unfold NotifyEnd.update NetPacketNotify.update
  simp only [if_neg hd]

theorem update_of_pos {header : NotificationHeader} (hd : 0 < e.notify.getSequenceDelta header) :
    e.update header = { e with
      notify := ((e.notify.acksProcessed header).internalUpdate header (e.notify.getSequenceDelta header)).1
      recorded := e.recorded ++ (e.notify.acksProcessed header).flushStatuses header
      reported := e.reported ++ e.notify.notifications header } := by
  unfold NotifyEnd.update
  simp only [update_of_delta _ _ _ _ hd, NotifyRun.foldl_append_pairs, if_pos hd]

theorem recorded_update (e : NotifyEnd) (header : NotificationHeader) : e.recorded <+: (e.update header).recorded := by
  by_cases hd : 0 < e.notify.getSequenceDelta header
  · rw [update_of_pos hd]
    exact List.prefix_append _ _
  · exact ⟨[], by rw [update_of_not_pos hd, List.append_nil]⟩

theorem sent_update (e : NotifyEnd) (header : NotificationHeader) : (e.update header).sent = e.sent := by
  by_cases hd : 0 < e.notify.getSequenceDelta header
  · rw [update_of_pos hd]
  · rw [update_of_not_pos hd]

theorem reported_le_update (e : NotifyEnd) (header : NotificationHeader) :
    e.reported.length ≤ (e.update header).reported.length := by
  by_cases hd : 0 < e.notify.getSequenceDelta header
  · rw [update_of_pos hd]
    exact (List.prefix_append _ _).length_le
  · rw [update_of_not_pos hd]

theorem Sends.entry (hs : Sends first peerFirst e o) {q : ℕ} (hlt : e.reported.length < q) {own : NotificationHeader × ℕ}
    (hown : e.sent[q - 1]? = some own) :
    (e.notify.ackRecord.map Prod.snd)[q - e.reported.length - 1]? = some (Seq.ofInt (peerFirst + own.2 - 1)) := by
  rw [hs.record, List.getElem?_map, List.getElem?_drop, show e.reported.length + (q - e.reported.length - 1) = q - 1 by omega, hown]
  rfl

theorem HeaderOf.le_recorded {hd : NotificationHeader × ℕ} {r x : ℕ} (h : HeaderOf first peerFirst o.marked r x hd) :
    hd.2 ≤ o.recorded.length :=
  o.length_marked ▸ h.le

/-- What a header that is taken in acknowledges: all packets up to the last one its sender has recorded. -/
theorem Sends.acks (hs : Sends first peerFirst e o) (hpeer : Receives first i w o e) {header : NotificationHeader} {q : ℕ}
    (hacked : header.ackedSeq = Seq.ofInt (first + q - 1)) (hq : q ≤ o.recorded.length) (hrange : e.sent.length < q + 2 ^ 14)
    (hd : 0 < e.notify.getSequenceDelta header) :
    e.reported.length ≤ q ∧ header.ackedSeq.diff e.notify.outAckSeq = (q - e.reported.length : ℕ) := by
  obtain ⟨m, hm, hacked', hdiff⟩ := hs.waits.acked (by have := hs.few; omega) hd
  have hle := hs.le
  have hfew := hs.few
  have hlen := o.length_marked
  have hrecorded := hpeer.window.recorded
  have harrived := hpeer.arrived
  rw [hacked, Seq.ofInt_eq_iff] at hacked'
  have hsum : e.reported.length + m = q := by omega
  exact ⟨by omega, by rw [hdiff]; congr 1; omega⟩

/-- The notifications of a header are what its sender has recorded. -/
theorem notifications_eq {header : NotificationHeader} {x q r : ℕ} (hheader : HeaderOf peerFirst first o.marked r x (header, q))
    (hnumbers : o.recorded.map Prod.fst = numbersFrom first o.recorded.length) (hr : r ≤ q) :
    header.notifications (q - r) (Seq.ofInt (first + r)) = (o.recorded.drop r).take (q - r) := by
  have hle : q ≤ o.marked.length := hheader.le
  have hhistory : ∀ j < 32 * header.historyWordCount,
      (header.history.isDelivered j = true ↔ ∃ k, k + j + 1 = q ∧ o.marked[k]? = some true) := hheader.history
  rw [length_marked] at hle
  apply List.ext_getElem?
  intro k
  by_cases hk : k < q - r
  · have hlt : r + k < o.recorded.length := by omega
    have hfst : (o.recorded[r + k]).1 = Seq.ofInt (first + r + k) := by
      have hget := getElem?_numbersFrom first hlt
      rw [← hnumbers, List.getElem?_map, List.getElem?_eq_getElem hlt, Option.map_some] at hget
      rw [Option.some.inj hget]
      congr 1
      push_cast
      ring
    have hsnd : (o.recorded[r + k]).2 = true ↔ o.marked[r + k]? = some true := by
      rw [marked, List.getElem?_map, List.getElem?_eq_getElem hlt, Option.map_some, Option.some_inj]
    have hbits : bitsPerWord = 32 := rfl
    have hdelivered : (decide (q - r - k ≤ header.historyWordCount * bitsPerWord) && header.history.isDelivered (q - r - k - 1)) =
        (o.recorded[r + k]).2 := by
      rw [Bool.eq_iff_iff, hsnd, Bool.and_eq_true, decide_eq_true_eq, hbits]
      constructor
      · rintro ⟨hin, hbit⟩
        obtain ⟨k', hk', hget⟩ := (hhistory (q - r - k - 1) (by omega)).mp hbit
        obtain rfl : k' = r + k := by omega
        exact hget
      · intro hget
        -- a packet behind the words is reported already
        have hin : q - r - k ≤ header.historyWordCount * 32 := by
          by_contra hout
          have hbehind : r + k + 32 * header.historyWordCount < q := by omega
          have := hheader.older (r + k) hget hbehind
          omega
        exact ⟨hin, (hhistory (q - r - k - 1) (by omega)).mpr ⟨r + k, by omega, hget⟩⟩
    rw [NotificationHeader.getElem?_notifications header _ _ _ hk, hdelivered, List.getElem?_take_of_lt hk, List.getElem?_drop,
      List.getElem?_eq_getElem hlt, ← hfst]
  · rw [List.getElem?_eq_none (by rw [NotificationHeader.notifications_length]; omega),
      List.getElem?_eq_none (by rw [List.length_take]; omega)]

structure Coupled (first peerFirst : ℤ) (e o : NotifyEnd) : Prop where
  receives : ∃ i w, Receives peerFirst i w e o
  sends : Sends first peerFirst e o
  peerReceives : ∃ i w, Receives first i w o e
  peerSends : Sends peerFirst first o e

section
variable {header : NotificationHeader} {x q i' w' : ℕ} (hs : Sends first peerFirst e o) (hpeer : Receives first i' w' o e)
  (hpeerSends : Sends peerFirst first o e) (hget : o.sent[x]? = some (header, q)) (hrange : e.sent.length < q + 2 ^ 14)
  (hd : 0 < e.notify.getSequenceDelta header)
include hs hpeer hpeerSends hget hrange hd

theorem acksProcessed_window (hr : Receives peerFirst i w e o)
    (hbehind : ∀ own, e.reported.length < q → e.sent[q - 1]? = some own → w ≤ own.2 + 2 ^ 13) :
    ∃ v, w ≤ v ∧ Placed peerFirst e.marked i v (e.notify.acksProcessed header) ∧ Window e.marked i v ∧
      ∀ k, e.marked[k]? = some true → k < o.reported.length ∨ v ≤ k := by
  have hheader := hpeerSends.sent x _ hget
  have hq : q ≤ o.recorded.length := hheader.le_recorded
  obtain ⟨hle, hdiff⟩ := hs.acks hpeer hheader.ackedSeq hq hrange hd
  have hrecorded := hpeer.window.recorded
  have harrived := hpeer.arrived
  have hlen := o.length_marked
  have hsum : first + e.reported.length + (q - e.reported.length : ℕ) - 1 = first + q - 1 := by omega
  rcases Nat.eq_or_lt_of_le hle with heq | hlt
  · have hnone : ¬ 0 < q - e.reported.length := by omega
    have hplaced := hr.placed.acksProcessed hs.waits (f := 0) (by omega) (by rw [hsum]; exact hheader.ackedSeq) hdiff
      (fun hpos => absurd hpos hnone) fun hpos => absurd hpos hnone
    rw [if_neg fun hc => hnone hc.1] at hplaced
    exact ⟨w, Nat.le_refl w, hplaced, hr.window, hr.kept⟩
  · -- the number sent with the packet that is acknowledged
    have hin : q - 1 < e.sent.length := by omega
    have hown : e.sent[q - 1]? = some e.sent[q - 1] := List.getElem?_eq_getElem hin
    have hcount : e.sent[q - 1].2 ≤ e.marked.length := (hs.sent _ _ hown).le
    have hseen := hpeer.seen (q - 1) _ (by omega) hown
    have hfar := hr.window.near
    have hle := hr.window.recorded
    have hplaced := hr.placed.acksProcessed hs.waits (f := e.sent[q - 1].2) (by omega) (by rw [hsum]; exact hheader.ackedSeq)
      hdiff (fun _ => hs.entry hlt hown) fun _ => ⟨by omega, hbehind _ hlt hown⟩
    by_cases hnew : 0 < q - e.reported.length ∧ w < e.sent[q - 1].2 ∧ e.sent[q - 1].2 < w + 2 ^ 13
    · rw [if_pos hnew] at hplaced
      refine ⟨_, by omega, hplaced, hr.window.advance (by omega) hcount, fun k hk => ?_⟩
      rcases Nat.lt_or_ge k e.sent[q - 1].2 with hlt | hge
      · exact .inl (hlt.trans_le hseen)
      · exact .inr hge
    · rw [if_neg hnew] at hplaced
      exact ⟨w, Nat.le_refl w, hplaced, hr.window, hr.kept⟩

/-- The log of what is reported is then the first part of what the sender of the header has recorded. -/
theorem reported_update : (e.update header).reported = o.recorded.take q ∧ (e.update header).reported.length = q := by
  have hheader := hpeerSends.sent x _ hget
  have hq : q ≤ o.recorded.length := hheader.le_recorded
  obtain ⟨hle, hdiff⟩ := hs.acks hpeer hheader.ackedSeq hq hrange hd
  have htold := List.prefix_iff_eq_take.mp hpeer.told
  have htake : (e.update header).reported = o.recorded.take q := by
    rw [update_of_pos hd]
    calc e.reported ++ e.notify.notifications header
        = e.reported ++ (o.recorded.drop e.reported.length).take (q - e.reported.length) := by
          rw [hs.waits.notifications hdiff, notifications_eq hheader hpeer.numbers hle]
      _ = o.recorded.take e.reported.length ++ (o.recorded.drop e.reported.length).take (q - e.reported.length) := by
          rw [← htold]
      _ = o.recorded.take q := by rw [← List.take_add, Nat.add_sub_cancel' hle]
  refine ⟨htake, ?_⟩
  rw [htake, List.length_take]
  omega

theorem update_receives (hr : Receives peerFirst i w e o) (hxi : i ≤ x) (hfar : x + 1 < w + 2 ^ 14)
    (hbehind : ∀ own, e.reported.length < q → e.sent[q - 1]? = some own → w ≤ own.2 + 2 ^ 13) :
    ∃ i₂ w₂, Receives peerFirst i₂ w₂ (e.update header) o := by
  obtain ⟨v, hv, hplaced, hwindow, hkept⟩ := acksProcessed_window hs hpeer hpeerSends hget hrange hd hr hbehind
  obtain ⟨-, hreported⟩ := reported_update hs hpeer hpeerSends hget hrange hd
  have hx : x < o.sent.length := (List.getElem?_eq_some_iff.mp hget).1
  have hlen := e.length_marked
  have htold := hr.told.length_le
  have hfew := hpeerSends.few
  obtain ⟨n, i₂, w₂, hplaced₂, hmoved, hfst, hsnd⟩ := hplaced.internalUpdate hwindow (acksProcessed_gt hd)
    (hpeerSends.sent x _ hget).seq hxi (by omega) (by omega) (e.notify.getSequenceDelta header)
  have hmarked : (e.update header).marked = e.marked ++ marks false n := by
    rw [update_of_pos hd, marked, List.map_append, hsnd]
    rfl
  refine ⟨i₂, w₂, ?_, ?_, ?_, ?_, ?_, hr.told.trans (e.recorded_update header), ?_⟩
  · rw [hmarked, update_of_pos hd]
    exact hplaced₂
  · rw [hmarked]
    exact hmoved.window
  · have hflush : ((e.notify.acksProcessed header).flushStatuses header).length = n := by
      rw [← List.length_map Prod.fst, hfst, length_numbersFrom]
    rw [update_of_pos hd]
    show (e.recorded ++ _).map Prod.fst = numbersFrom peerFirst (e.recorded ++ _).length
    rw [List.map_append, List.length_append, hr.numbers, hfst, hflush, numbersFrom_add, hlen]
  · exact hmoved.le_seq.trans hx
  · intro k hk
    rw [hmarked] at hk
    rcases getElem?_append_marks.mp hk with hk | ⟨hf, -⟩
    · refine (hkept k hk).imp_right fun hle => ?_
      by_contra hlt
      have := hmoved.kept k hk (by omega)
      omega
    · cases hf
  · intro x' hd' hx' hget'
    have hle : x' ≤ x := by
      have := hmoved.le_seq
      omega
    rw [hreported]
    -- the counts of the headers grow with their numbers
    have hordered := (List.pairwise_append.mp hpeerSends.ordered).1
    rcases Nat.eq_or_lt_of_le hle with rfl | hlt
    · rw [hget] at hget'
      obtain rfl := Option.some.inj hget'
      exact Nat.le_refl q
    · obtain ⟨h1, he1⟩ := List.getElem?_eq_some_iff.mp hget'
      obtain ⟨h2, he2⟩ := List.getElem?_eq_some_iff.mp hget
      have := List.pairwise_iff_getElem.mp hordered x' x h1 h2 hlt
      rw [he1, he2] at this
      exact this

theorem update_sends : Sends first peerFirst (e.update header) o := by
  have hheader := hpeerSends.sent x _ hget
  have hq : q ≤ o.recorded.length := hheader.le_recorded
  obtain ⟨hle, hdiff⟩ := hs.acks hpeer hheader.ackedSeq hq hrange hd
  obtain ⟨-, hreported⟩ := reported_update hs hpeer hpeerSends hget hrange hd
  have hrecorded := hpeer.window.recorded
  have harrived := hpeer.arrived
  have hfew := hs.few
  have hlen := o.length_marked
  obtain ⟨m, hm, hnumbers, hwaits⟩ := hs.waits.update (by omega) hd
  obtain ⟨-, -, hrecord, hwords⟩ := (e.notify.acksProcessed header).internalUpdate_fields header
    (e.notify.getSequenceDelta header)
  have hin := writtenInAckSeq_internalUpdate (e.notify.acksProcessed header) header (e.notify.getSequenceDelta header)
  obtain ⟨hin', hwords'⟩ := written_acksProcessed e.notify header
  have hm' : e.reported.length + m = q := by
    have hcount : (e.reported ++ e.notify.notifications header).length = q := by
      rw [update_of_pos hd] at hreported
      exact hreported
    have hlength := congrArg List.length hnumbers
    rw [List.length_map, length_numbersFrom] at hlength
    rw [← hcount, List.length_append, hlength]
  have hdrop := hs.waits.ackRecord_acksProcessed (h := header) hm (by rw [hheader.ackedSeq]; congr 1; omega)
    (by rw [hdiff]; congr 1; omega)
  have hgrown : e.marked <+: (e.update header).marked := (e.recorded_update header).map _
  refine ⟨?_, ?_, ?_, ?_, ?_, ?_, ?_, ?_, ?_⟩
  · rw [hreported, update_of_pos hd, ← hm', ← Nat.sub_sub]
    exact hwaits
  · rw [hreported, update_of_pos hd]
    show q ≤ e.sent.length
    omega
  · rw [hreported, update_of_pos hd]
    show e.sent.length < q + 2 ^ 13
    omega
  · rw [hreported, update_of_pos hd, hrecord, hdrop, List.map_drop, hs.record, ← List.map_drop, List.drop_drop, hm']
  · intro x' hd' hget'
    rw [update_of_pos hd] at hget'
    exact (hs.sent x' hd' hget').mono hgrown (Nat.le_refl _)
  · intro hd' hw
    rw [update_of_pos hd] at hw
    obtain ⟨hvalid, hsame⟩ := hs.written hd' hw
    refine ⟨?_, ?_⟩
    · rw [show (e.update header).sent = e.sent by rw [update_of_pos hd]]
      exact hvalid.mono hgrown (Nat.le_refl _)
    · rw [update_of_pos hd, ← hsame, hin, hin']
  · rw [update_of_pos hd, hwords, hwords']
    exact hs.pending
  · rw [update_of_pos hd, hwords, hwords']
    exact hs.words
  · rw [update_of_pos hd]
    exact hs.ordered

/-- A header in range is taken in. -/
theorem update_coupled (hr : Receives peerFirst i w e o) (hxi : i ≤ x) (hfar : x + 1 < w + 2 ^ 14)
    (hbehind : ∀ own, e.reported.length < q → e.sent[q - 1]? = some own → w ≤ own.2 + 2 ^ 13) :
    Coupled first peerFirst (e.update header) o := by
  obtain ⟨htake, hreported⟩ := reported_update hs hpeer hpeerSends hget hrange hd
  have hle : e.reported.length ≤ (e.update header).reported.length := by
    rw [update_of_pos hd]
    exact (List.prefix_append _ _).length_le
  have hsent : e.sent <+: (e.update header).sent := ⟨[], by rw [sent_update, List.append_nil]⟩
  exact ⟨update_receives hs hpeer hpeerSends hget hrange hd hr hxi hfar hbehind,
    update_sends hs hpeer hpeerSends hget hrange hd,
    ⟨i', w', hpeer.peer hsent hle (by rw [htake]; exact List.take_prefix _ _)⟩, hpeerSends.peer hle⟩

end

/-! ## Any step -/

theorem received_eq (hp : Placed peerFirst e.marked i w e.notify) (hrecorded : e.recorded.length ≤ i)
    (hnear : i < e.recorded.length + 2 ^ 14) : e.received = i := by
  have hlen := e.length_marked
  have hpending : e.notify.inSeq.ahead e.notify.inAckSeq = i - e.marked.length := by
    rw [hp.inSeq, hp.inAckSeq]
    exact Seq.ahead_ofInt (by omega) (by omega)
  unfold received
  omega

theorem settled_eq (hp : Placed peerFirst e.marked i w e.notify) (hreceived : e.received = i) (hle : w ≤ i)
    (hnear : i < w + 2 ^ 14) : e.settled = w := by
  have hwindow : e.notify.inSeq.ahead e.notify.inAckSeqAck = i - w := by
    rw [hp.inSeq, hp.inAckSeqAck]
    exact Seq.ahead_ofInt (by omega) (by omega)
  unfold settled
  omega

theorem Receives.counts (h : Receives peerFirst i w e o) (hnear : i < e.recorded.length + 2 ^ 13) :
    e.received = i ∧ e.settled = w := by
  have hlen := e.length_marked
  have hrecorded := h.window.recorded
  have hreceived := received_eq h.placed (by omega) (by omega)
  exact ⟨hreceived, settled_eq h.placed hreceived h.window.le h.window.near⟩

theorem Coupled.own (h : Coupled first peerFirst e o) (hreceives : ∀ i w, Receives peerFirst i w e o → Receives peerFirst i w e' o)
    (hsends : Sends first peerFirst e' o) (hsent : e.sent <+: e'.sent) (hreported : e'.reported = e.reported) :
    Coupled first peerFirst e' o := by
  obtain ⟨⟨i, w, hr⟩, -, ⟨i', w', hpeer⟩, hpeerSends⟩ := h
  refine ⟨⟨i, w, hreceives i w hr⟩, hsends, ⟨i', w', hpeer.peer hsent (by rw [hreported]) ?_⟩, hpeerSends.peer (by rw [hreported])⟩
  rw [hreported]
  exact hpeer.told

theorem Coupled.writeHeader (h : Coupled first peerFirst e o) (writer : BitWriter) (bRefresh : Bool) :
    Coupled first peerFirst (e.writeHeader writer bRefresh) o := by
  obtain ⟨i, w, hr⟩ := h.receives
  refine h.own (fun i w hr => hr.writeHeader h.sends writer bRefresh) (h.sends.writeHeader hr h.peerSends.few writer bRefresh) ?_ ?_
  · rcases e.writeHeader_cases writer bRefresh h.sends.words with he | ⟨count, -, -, he⟩
    all_goals exact ⟨[], by rw [he, List.append_nil]⟩
  · rcases e.writeHeader_cases writer bRefresh h.sends.words with he | ⟨count, -, -, he⟩ <;> rw [he]

theorem Coupled.commitAndIncrementOutSeq (h : Coupled first peerFirst e o)
    (hfew : e.commitAndIncrementOutSeq.sent.length < e.commitAndIncrementOutSeq.reported.length + 2 ^ 13) :
    Coupled first peerFirst e.commitAndIncrementOutSeq o := by
  refine h.own (fun i w hr => hr.commitAndIncrementOutSeq h.sends) (h.sends.commitAndIncrementOutSeq hfew) ?_ ?_
  · rcases commit_cases h.sends with he | ⟨hd, -, -, he⟩
    · exact ⟨[], by rw [he, List.append_nil]⟩
    · exact ⟨[hd], by rw [he]⟩
  · rcases commit_cases h.sends with he | ⟨hd, -, -, he⟩ <;> rw [he]

theorem Coupled.ackInSeq (h : Coupled first peerFirst e o) (isAck : Bool) : Coupled first peerFirst (e.ackInSeq isAck) o :=
  h.own (fun _ _ hr => hr.ackInSeq (hr.near h.peerSends.few) isAck) (h.sends.ackInSeq isAck) (List.prefix_refl _) rfl

theorem Coupled.symm (h : Coupled first peerFirst e o) : Coupled peerFirst first o e :=
  ⟨h.peerReceives, h.peerSends, h.receives, h.sends⟩

theorem Coupled.update (h : Coupled first peerFirst e o) {header : NotificationHeader} {x q : ℕ}
    (hget : o.sent[x]? = some (header, q)) (hlate : o.sent.length ≤ x + 2 ^ 13)
    (hrange : header.seq.gt e.notify.inSeq = true → e.sent.length < q + 2 ^ 14 ∧ (x : ℤ) + 1 < e.settled + 2 ^ 14 ∧
      ∀ own, e.reported.length < q → e.sent[q - 1]? = some own → e.settled ≤ own.2 + 2 ^ 13) :
    Coupled first peerFirst (e.update header) o := by
  by_cases hd : 0 < e.notify.getSequenceDelta header
  · obtain ⟨⟨i, w, hr⟩, hs, ⟨i', w', hpeer⟩, hpeerSends⟩ := h
    have hnew := (SequenceNumber.gt_iff_diff (by decide) _ _).mpr (getSequenceDelta_pos hd).2.1
    obtain ⟨hrange, hfar, hbehind⟩ := hrange hnew
    obtain ⟨-, hsettled⟩ := hr.counts (hr.near hpeerSends.few)
    have hx : x < o.sent.length := (List.getElem?_eq_some_iff.mp hget).1
    have hfew := hpeerSends.few
    have harrived := hr.arrived
    have hrecorded := hr.window.recorded
    have htold := hr.told.length_le
    have hlen := e.length_marked
    -- the header is newer than `InSeq` in the order of the packets too
    rw [show header.seq = _ from (hpeerSends.sent x _ hget).seq, hr.placed.inSeq, Seq.gt_iff] at hnew
    rw [hsettled] at hfar hbehind
    exact update_coupled hs hpeer hpeerSends hget hrange hd hr (by omega) (by omega) fun own hlt hown => by
      have := hbehind own hlt hown
      omega
  · rw [update_of_not_pos hd]
    exact h

end

end NotifyEnd

namespace NotifyLink

variable {first : Bool → Seq} {s : NotifyLink}

open NotifyEnd

@[simp] theorem setEnd_same (s : NotifyLink) (b : Bool) (e : NotifyEnd) : (s.setEnd b e).ends b = e := Function.update_self ..

@[simp] theorem setEnd_not (s : NotifyLink) (b : Bool) (e : NotifyEnd) : (s.setEnd b e).ends (!b) = s.ends (!b) :=
  Function.update_of_ne (by simp) ..

def AllCoupled (first : Bool → Seq) (s : NotifyLink) : Prop :=
  ∀ b, Coupled (first b).value (first (!b)).value (s.ends b) (s.ends (!b))

theorem allCoupled_setEnd (b : Bool) {e : NotifyEnd}
    (he : Coupled (first b).value (first (!b)).value e (s.ends (!b))) : AllCoupled first (s.setEnd b e) := by
  intro c
  rcases eq_or_ne c b with rfl | hne
  · rw [setEnd_same, setEnd_not]
    exact he
  · obtain rfl := Bool.eq_not.mpr hne
    rw [setEnd_not, Bool.not_not, setEnd_same]
    exact he.symm

theorem AllCoupled.next (h : AllCoupled first s) (a : Bool × NotifyLinkAction) (hassumed : s.Assumed a) (hrange : s.InRange a) :
    AllCoupled first (s.next a) := by
  obtain ⟨b, act⟩ := a
  obtain ⟨hfew, hlate⟩ := hassumed
  have hb := h b
  cases act with
  | writeHeader writer bRefresh => exact allCoupled_setEnd b (hb.writeHeader writer bRefresh)
  | commitAndIncrementOutSeq =>
    have hfew := hfew b
    unfold NotifyLink.next at hfew
    simp only [setEnd_same] at hfew
    exact allCoupled_setEnd b (hb.commitAndIncrementOutSeq hfew)
  | ackSeq => exact allCoupled_setEnd b (hb.ackInSeq true)
  | nakSeq => exact allCoupled_setEnd b (hb.ackInSeq false)
  | update k =>
    show AllCoupled first (s.update b k)
    unfold NotifyLink.update
    cases hget : (s.ends (!b)).sent[k]? with
    | none => exact h
    | some hd => exact allCoupled_setEnd b (hb.update hget (hlate k rfl) (hrange k hd.1 hd.2 rfl hget))

theorem coupled_init (p q : NetPacketNotify) (hp : p.writtenHistoryWordCount = 0) (hq : q.writtenHistoryWordCount = 0)
    (first peerFirst : Seq) : Coupled first.value peerFirst.value
      ⟨p.init (Seq.ofInt (peerFirst.value - 1)) first, none, [], [], []⟩
      ⟨q.init (Seq.ofInt (first.value - 1)) peerFirst, none, [], [], []⟩ := by
  have hplaced : ∀ (p : NetPacketNotify) (first peerFirst : Seq),
      Placed peerFirst.value [] 0 0 (p.init (Seq.ofInt (peerFirst.value - 1)) first) := by
    intro p first peerFirst
    refine ⟨?_, ?_, ?_, rfl⟩
    all_goals
      rw [show ((peerFirst.value : ℤ) + ((_ : ℕ) : ℤ) - 1) = peerFirst.value - 1 by simp]
      rfl
  have hhalf : 0 < 0 + 2 ^ 13 := by omega
  have hwindow : Window [] 0 0 := ⟨Nat.le_refl 0, Nat.le_refl 0, fun h => h, by omega, by omega⟩
  have hreceives : ∀ (p q : NetPacketNotify) (first peerFirst : Seq), Receives peerFirst.value 0 0
      ⟨p.init (Seq.ofInt (peerFirst.value - 1)) first, none, [], [], []⟩
      ⟨q.init (Seq.ofInt (first.value - 1)) peerFirst, none, [], [], []⟩ :=
    fun p q first peerFirst => ⟨hplaced p first peerFirst, hwindow, rfl, Nat.le_refl 0, by simp [marked], List.prefix_refl _, by simp⟩
  have hsends : ∀ (p q : NetPacketNotify), p.writtenHistoryWordCount = 0 → ∀ (first peerFirst : Seq),
      Sends first.value peerFirst.value
        ⟨p.init (Seq.ofInt (peerFirst.value - 1)) first, none, [], [], []⟩
        ⟨q.init (Seq.ofInt (first.value - 1)) peerFirst, none, [], [], []⟩ :=
    fun p q hp first peerFirst => ⟨waits_init p _ first, Nat.le_refl 0, hhalf, rfl, by simp, by simp, iff_of_true hp rfl,
      hp.trans_le (Nat.zero_le 8), List.Pairwise.nil⟩
  exact ⟨⟨0, 0, hreceives p q first peerFirst⟩, hsends p q hp first peerFirst, ⟨0, 0, hreceives q p peerFirst first⟩,
    hsends q p hq peerFirst first⟩

theorem reach_coupled (h : (notifyLinkSystem first).Reach (fun s a => s.Assumed a ∧ s.InRange a) s) : AllCoupled first s := by
  refine System.Reach.invariant (I := AllCoupled first) ?_ (fun s a hs ha => hs.next a ha.1 ha.2) h
  intro s hstart b
  obtain ⟨p, hp, he⟩ := hstart b
  obtain ⟨q, hq, he'⟩ := hstart (!b)
  rw [he, he', Bool.not_not]
  exact coupled_init p q hp hq (first b) (first (!b))

/-! ## Steps in range -/

section
variable {ok : NotifyLink → Bool × NotifyLinkAction → Prop} {b c : Bool} {q x y : ℕ} {header : NotificationHeader}

theorem update_eq (hget : (s.ends (!b)).sent[x]? = some (header, q)) : s.update b x = s.setEnd b ((s.ends b).update header) := by
  unfold NotifyLink.update
  rw [hget]

def Few (s : NotifyLink) : Prop := ∀ b, (s.ends b).sent.length < (s.ends b).reported.length + 2 ^ 13

theorem Few.setEnd (h : s.Few) (b : Bool) {e : NotifyEnd} (he : e.sent.length < e.reported.length + 2 ^ 13) : (s.setEnd b e).Few := by
  intro c
  rcases eq_or_ne c b with rfl | hne
  · rw [setEnd_same]
    exact he
  · obtain rfl := Bool.eq_not.mpr hne
    rw [setEnd_not]
    exact h _

theorem Few.update (h : s.Few) (hget : (s.ends (!b)).sent[x]? = some (header, q)) : (s.update b x).Few := by
  have hreported := (s.ends b).reported_le_update header
  have hb := h b
  rw [update_eq hget]
  exact h.setEnd b (by rw [sent_update]; omega)

/-- The conditions on steps that allow every step that takes in no header and keeps few packets outstanding. -/
def Allows (ok : NotifyLink → Bool × NotifyLinkAction → Prop) : Prop :=
  ∀ s a, (∀ k, a.2 ≠ .update k) → (s.next a).Few → ok s a

theorem allows_assumed : Allows Assumed := fun _ _ ha hfew => ⟨hfew, fun k hk => absurd hk (ha k)⟩

theorem allows_inRange : Allows fun s a => s.Assumed a ∧ s.InRange a := fun s a ha hfew =>
  ⟨allows_assumed s a ha hfew, fun k _ _ hk => absurd hk (ha k)⟩

theorem assumed_update (hc : c = !b) (hfew : s.Few) (hget : (s.ends c).sent[x]? = some (header, q))
    (hlate : (s.ends c).sent.length ≤ x + 2 ^ 13) : s.Assumed (b, .update x) := by
  subst hc
  refine ⟨hfew.update hget, fun k hk => ?_⟩
  obtain rfl : x = k := NotifyLinkAction.update.inj hk
  exact hlate

/-- While the numbers are small, a header that acknowledges no less than is known is in range. -/
theorem inRange_update (hc : c = !b) (hfew : s.Few) (hget : (s.ends c).sent[x]? = some (header, q))
    (hlate : (s.ends c).sent.length ≤ x + 2 ^ 13) (hq : (s.ends b).reported.length ≤ q) (hx : x + 1 < 2 ^ 14)
    (hsettled : (s.ends b).settled = y) (hnear : y ≤ 2 ^ 13) : s.Assumed (b, .update x) ∧ s.InRange (b, .update x) := by
  have hb := hfew b
  refine ⟨assumed_update hc hfew hget hlate, ?_⟩
  subst hc
  intro k header' count hk hget' _
  obtain rfl : x = k := NotifyLinkAction.update.inj hk
  have hsame : (header, q) = (header', count) := Option.some.inj (hget.symm.trans hget')
  obtain ⟨rfl, rfl⟩ := Prod.mk.inj hsame
  exact ⟨by simp only; omega, by simp only; omega, fun own _ _ => by simp only; omega⟩

end

def fresh (first : Bool → Seq) : NotifyLink :=
  ⟨fun b => ⟨NetPacketNotify.new.init (Seq.ofInt ((first (!b)).value - 1)) (first b), none, [], [], []⟩⟩

theorem start_fresh (first : Bool → Seq) : (fresh first).Start first := fun _ => ⟨NetPacketNotify.new, rfl, rfl⟩

theorem few_fresh (first : Bool → Seq) : (fresh first).Few := fun _ => show 0 < 0 + 2 ^ 13 by decide

/-! ## A packet and its answer -/

/-- Each end sends a packet, the second one when the first is delivered. -/
def answer : List (Bool × NotifyLinkAction) :=
  [(true, .writeHeader (PacketHeader.new (packetHeaderSize * 8)) false), (true, .commitAndIncrementOutSeq), (false, .update 0),
    (false, .ackSeq), (false, .writeHeader (PacketHeader.new (packetHeaderSize * 8)) false), (false, .commitAndIncrementOutSeq),
    (true, .update 0)]

def answered (n : ℕ) : NotifyLink :=
  (notifyLinkSystem fun _ => Seq.ofInt 0).runFrom (fresh fun _ => Seq.ofInt 0) (answer.take n)

theorem few_answered (n : ℕ) (hn : n ≤ 7) : (answered n).Few := by
  unfold Few
  interval_cases n <;> decide +kernel

theorem reach_answered : (notifyLinkSystem fun _ => Seq.ofInt 0).Reach (fun s a => s.Assumed a ∧ s.InRange a) (answered 7) := by
  have hsent : (notifyLinkSystem fun _ => Seq.ofInt 0).Reach (fun s a => s.Assumed a ∧ s.InRange a) (answered 2) :=
    .next (a := (true, NotifyLinkAction.commitAndIncrementOutSeq))
      (.next (a := (true, NotifyLinkAction.writeHeader (PacketHeader.new (packetHeaderSize * 8)) false)) (.init (start_fresh _))
        (allows_inRange _ _ (by simp) (few_answered 1 (by decide))))
      (allows_inRange _ _ (by simp) (few_answered 2 (by decide)))
  have htaken : (notifyLinkSystem fun _ => Seq.ofInt 0).Reach (fun s a => s.Assumed a ∧ s.InRange a) (answered 3) :=
    .next (a := (false, NotifyLinkAction.update 0)) hsent
      (inRange_update (c := true) (y := 0) rfl (few_answered 2 (by decide)) (List.getElem?_eq_getElem (by decide +kernel))
        (by decide +kernel) (by decide +kernel) (by decide) (by decide +kernel) (by decide))
  have htold : (notifyLinkSystem fun _ => Seq.ofInt 0).Reach (fun s a => s.Assumed a ∧ s.InRange a) (answered 6) :=
    .next (a := (false, NotifyLinkAction.commitAndIncrementOutSeq))
      (.next (a := (false, NotifyLinkAction.writeHeader (PacketHeader.new (packetHeaderSize * 8)) false))
        (.next (a := (false, NotifyLinkAction.ackSeq)) htaken
          (allows_inRange _ _ (by simp) (few_answered 4 (by decide))))
        (allows_inRange _ _ (by simp) (few_answered 5 (by decide))))
      (allows_inRange _ _ (by simp) (few_answered 6 (by decide)))
  exact .next (a := (true, NotifyLinkAction.update 0)) htold
    (inRange_update (c := false) (y := 0) rfl (few_answered 6 (by decide)) (List.getElem?_eq_getElem (by decide +kernel))
      (by decide +kernel) (by decide +kernel) (by decide) (by decide +kernel) (by decide))

end NotifyLink

/-- In every run in range, what is reported to either end is what the other end has recorded. -/
theorem acks_told_truly {first : Bool → Seq} {s : NotifyLink}
    (h : (notifyLinkSystem first).Reach (fun s a => s.Assumed a ∧ s.InRange a) s) (b : Bool) : s.ToldTruly first b := by
  obtain ⟨-, -, ⟨i, w, hpeer⟩, -⟩ := NotifyLink.reach_coupled h b
  exact ⟨hpeer.numbers, hpeer.told⟩

theorem acks_told_truly_answered : ((NotifyLink.answered 7).ends true).reported = [(Seq.ofInt 0, true)] ∧
    (NotifyLink.answered 7).ToldTruly (fun _ => Seq.ofInt 0) true :=
  ⟨by decide +kernel, acks_told_truly NotifyLink.reach_answered true⟩

end RudpEngine

import RudpEngine.AckSeq
import RudpEngine.AssembleFrame
import RudpEngine.Notifications

/-!
# Taking in a header

`ReceivedPacket` behind `ReadHeader`, split at its two decisions: whether the
header moves the receive window, and whether the connection then waits for a
flush of the sequence history.
-/

namespace RudpEngine

namespace NetPacketNotify

variable {p : NetPacketNotify} {h : NotificationHeader}

/-- A positive delta is that of a newer packet, whose ack is of a packet sent. -/
theorem getSequenceDelta_pos (hd : 0 < p.getSequenceDelta h) :
    p.getSequenceDelta h = h.seq.diff p.inSeq ∧ 0 < h.seq.diff p.inSeq ∧ h.ackedSeq.ge p.outAckSeq = true ∧
      p.outSeq.gt h.ackedSeq = true := by
  unfold getSequenceDelta at hd ⊢
  cases hc : (h.seq.gt p.inSeq && h.ackedSeq.ge p.outAckSeq && p.outSeq.gt h.ackedSeq) with
  | false => simp [hc] at hd
  | true =>
    simp only [Bool.and_eq_true] at hc
    exact ⟨if_pos rfl, (SequenceNumber.gt_iff_diff (by decide) _ _).mp hc.1.1, hc.1.2, hc.2⟩

theorem inSeq_internalUpdate {x : ℤ} (hx : p.inSeq = Seq.ofInt x) :
    (p.internalUpdate h (h.seq.diff p.inSeq)).1.inSeq =
      Seq.ofInt (x + (p.internalUpdate h (h.seq.diff p.inSeq)).2) ∧
    ((p.makeRoom h).isWaitingForSequenceHistoryFlush = false →
      (p.internalUpdate h (h.seq.diff p.inSeq)).2 = h.seq.diff p.inSeq) := by
  obtain ⟨-, -, hin, -⟩ := p.makeRoom_fields h
  have hnew : ∀ q : Seq, q = Seq.ofInt (x + q.diff p.inSeq) := by
    intro q
    rw [hx]
    exact (SequenceNumber.ofInt_add_diff (by decide) q x).symm
  cases hw : (p.makeRoom h).isWaitingForSequenceHistoryFlush with
  | false =>
    rw [internalUpdate_of_not_waiting _ _ _ hw]
    exact ⟨hnew h.seq, fun _ => rfl⟩
  | true =>
    refine ⟨?_, fun hf => by cases hf⟩
    unfold internalUpdate
    simp only [hw, Bool.not_true, Bool.false_eq_true, if_false]
    generalize (if (!(p.makeRoom h).willSequenceFitInSequenceHistory h.seq && (p.makeRoom h).getHasUnacknowledgedAcks) = true
      then _ else _) = q
    cases hge : q.ge (p.makeRoom h).inSeq with
    | true =>
      simp only [if_true, hin]
      exact hnew q
    | false =>
      simp only [Bool.false_eq_true, if_false, hin, Int.add_zero]
      exact hx

/-- In the flush mode the newest packet is recorded as lost, or nothing is received. -/
theorem internalUpdate_settled (d : ℤ) (hw : (p.makeRoom h).isWaitingForSequenceHistoryFlush = true) :
    (p.internalUpdate h d).1.inSeq.gt (p.internalUpdate h d).1.inAckSeq = false ∨
      (p.internalUpdate h d).1.inSeq = p.inSeq ∧ (p.internalUpdate h d).1.inAckSeq = p.inAckSeq ∧
        (p.internalUpdate h d).2 = 0 := by
  obtain ⟨-, -, hin, hack, -⟩ := p.makeRoom_fields h
  unfold internalUpdate
  simp only [hw, Bool.not_true, Bool.false_eq_true, if_false]
  generalize (if (!(p.makeRoom h).willSequenceFitInSequenceHistory h.seq && (p.makeRoom h).getHasUnacknowledgedAcks) = true
    then _ else _) = q
  cases q.ge (p.makeRoom h).inSeq with
  | true => exact .inl (gt_ackSeqWith _ q false)
  | false => exact .inr ⟨hin, hack, rfl⟩

end NetPacketNotify

namespace NetChannel

def Holds (ch : NetChannel) (b : OutReadyBunch) : Prop :=
  b ∈ ch.outBunchQueue ∨ ∃ id l, ch.outUnAckedBunches.find? id = some l ∧ b ∈ l

structure Requeued (ch ch' : NetChannel) : Prop where
  moved : ch.SendMoved ch'
  holds : ∀ b, ch'.Holds b → ch.Holds b

theorem holds_of_find {ch : NetChannel} {id : ℤ} {b : OutReadyBunch}
    (h : b ∈ (ch.outUnAckedBunches.find? id).getD []) : ch.Holds b := by
  cases hl : ch.outUnAckedBunches.find? id with
  | none => rw [hl] at h; cases h
  | some l =>
    rw [hl] at h
    exact .inr ⟨id, l, hl, h⟩

theorem holds_erase {ch : NetChannel} {id : ℤ} {b : OutReadyBunch}
    (h : ∃ k l, (ch.outUnAckedBunches.erase id).find? k = some l ∧ b ∈ l) : ch.Holds b := by
  obtain ⟨k, l, hl, hb⟩ := h
  rw [SortedMap.find?_erase] at hl
  split_ifs at hl
  exact .inr ⟨k, l, hl, hb⟩

theorem requeued_acked (id : ℤ) (ch : NetChannel) : ch.Requeued (ch.acked id) := by
  refine ⟨rfl, ?_⟩
  rintro b (hb | hb)
  · exact .inl hb
  · exact holds_erase hb

theorem requeued_nacked (id : ℤ) (ch : NetChannel) : ch.Requeued (ch.nacked id) := by
  refine ⟨rfl, ?_⟩
  rintro b (hb | hb)
  · rw [nacked, List.foldr_cons_eq_append] at hb
    rcases List.mem_append.mp hb with hb | hb
    · rw [List.map_id'] at hb
      exact holds_of_find hb
    · exact .inl hb
  · exact holds_erase hb

theorem requeued_forceRetransmitAllUnAcked (ch : NetChannel) : ch.Requeued ch.forceRetransmitAllUnAcked := by
  refine ⟨rfl, ?_⟩
  have hfold : ∀ (es : List (ℤ × List OutReadyBunch)) (queue : List OutReadyBunch) (b : OutReadyBunch),
      b ∈ es.foldr (fun e queue => e.2.foldr List.cons queue) queue → b ∈ queue ∨ ∃ e ∈ es, b ∈ e.2 := by
    intro es
    induction es with
    | nil => exact fun queue b hb => .inl hb
    | cons e es ih =>
      intro queue b hb
      rw [List.foldr_cons, List.foldr_cons_eq_append, List.map_id'] at hb
      rcases List.mem_append.mp hb with hb | hb
      · exact .inr ⟨e, List.mem_cons_self .., hb⟩
      · rcases ih queue b hb with hb | ⟨e', he', hb⟩
        · exact .inl hb
        · exact .inr ⟨e', List.mem_cons_of_mem _ he', hb⟩
  rintro b (hb | ⟨id, l, hl, -⟩)
  · rcases hfold _ _ b hb with hb | ⟨⟨id, l⟩, he, hb⟩
    · exact .inl hb
    · exact .inr ⟨id, l, (ch.outUnAckedBunches.find?_eq_some).mpr he, hb⟩
  · rw [forceRetransmitAllUnAcked, SortedMap.find?_empty] at hl
    cases hl

end NetChannel

namespace NetConnection

variable {c : NetConnection} {header : NotificationHeader} {reader : RecvPacketReader}

/-! ## Notifications -/

theorem consume_state {σ : Type} (func : σ → ℤ → ℕ → σ) (r : ConnectionChannelRecord) (id : ℤ) (s : σ) :
    ∃ is : List ℕ, (r.consumeChannelRecordsForPacket func id s).2.2 = is.foldl (fun s i => func s id i) s := by
  have hloop : ∀ (es : List ChannelRecordEntry) (previous : Option ℤ) (s : σ),
      ∃ is : List ℕ, (ConnectionChannelRecord.consumeLoop func id es previous s).2 = is.foldl (fun s i => func s id i) s := by
    intro es
    induction es with
    | nil => exact fun _ s => ⟨[], rfl⟩
    | cons e es ih =>
      intro previous s
      unfold ConnectionChannelRecord.consumeLoop
      split_ifs
      · exact ⟨[], rfl⟩
      · obtain ⟨is, his⟩ := ih (some e.value) (func s id e.value.toNat)
        exact ⟨e.value.toNat :: is, his⟩
      · exact ih previous s
  unfold ConnectionChannelRecord.consumeChannelRecordsForPacket
  cases r.entryRecord with
  | nil => exact ⟨[], rfl⟩
  | cons e es =>
    simp only
    split_ifs
    · exact ⟨[], rfl⟩
    · exact hloop es none s

structure ChannelsRelated (R : NetChannel → NetChannel → Prop) (c c' : NetConnection) : Prop where
  length : c'.channels.length = c.channels.length
  absent : ∀ i, c.channel? i = none → c'.channel? i = none
  channel : ∀ i ch, c.channel? i = some ch → ∃ ch', c'.channel? i = some ch' ∧ R ch ch'

theorem ChannelsRelated.trans {R : NetChannel → NetChannel → Prop} (hR : ∀ x y z, R x y → R y z → R x z)
    {c c' c'' : NetConnection} (h : ChannelsRelated R c c') (h' : ChannelsRelated R c' c'') : ChannelsRelated R c c'' := by
  refine ⟨h'.length.trans h.length, fun i hi => h'.absent i (h.absent i hi), ?_⟩
  intro i ch hi
  obtain ⟨ch', hi', hr⟩ := h.channel i ch hi
  obtain ⟨ch'', hi'', hr'⟩ := h'.channel i ch' hi'
  exact ⟨ch'', hi'', hR _ _ _ hr hr'⟩

theorem ChannelsRelated.same {R : NetChannel → NetChannel → Prop} (hR : ∀ x, R x x) {c c' : NetConnection}
    (h : c'.channels = c.channels) : ChannelsRelated R c c' := by
  have hch : ∀ i, c'.channel? i = c.channel? i := fun i => by rw [channel?, channel?, h]
  exact ⟨by rw [h], fun i hi => by rw [hch, hi], fun i ch hi => ⟨ch, by rw [hch, hi], hR ch⟩⟩

theorem ChannelsRelated.modifyChannel {R : NetChannel → NetChannel → Prop} (hR : ∀ x, R x x) (c : NetConnection) (i : ℕ)
    {f : NetChannel → NetChannel} (hf : ∀ ch, R ch (f ch)) : ChannelsRelated R c (c.modifyChannel i f) := by
  refine ⟨List.length_modify .., ?_, ?_⟩
  · intro j hj
    rw [channel?_modifyChannel, hj]
    split_ifs <;> rfl
  · intro j ch hj
    rw [channel?_modifyChannel, hj]
    split_ifs
    · exact ⟨f ch, rfl, hf ch⟩
    · exact ⟨ch, rfl, hR ch⟩

theorem requeued_refl (ch : NetChannel) : ch.Requeued ch := ⟨rfl, fun _ h => h⟩

theorem requeued_trans (ch ch' ch'' : NetChannel) (h : ch.Requeued ch') (h' : ch'.Requeued ch'') : ch.Requeued ch'' := by
  obtain ⟨hm, hh⟩ := h
  obtain ⟨hm', hh'⟩ := h'
  refine ⟨?_, fun b hb => hh b (hh' b hb)⟩
  unfold NetChannel.SendMoved at hm hm' ⊢
  rw [hm', hm]

theorem foldl_modifyChannel (f : ℤ → NetChannel → NetChannel) (id : ℤ) (is : List ℕ) : ∀ c : NetConnection,
    ∃ cs, is.foldl (fun c i => c.modifyChannel i (f id)) c = { c with channels := cs } ∧ cs.length = c.channels.length := by
  induction is with
  | nil => exact fun c => ⟨c.channels, rfl, rfl⟩
  | cons i is ih =>
    intro c
    obtain ⟨cs, h, hlen⟩ := ih (c.modifyChannel i (f id))
    exact ⟨cs, h, hlen.trans (List.length_modify ..)⟩

structure NotifyFrame (c c' : NetConnection) : Prop where
  conn : c' = { c with
    channels := c'.channels
    record := c'.record
    state := c'.state
    outAckPacketId := c'.outAckPacketId
    lastNotifiedSendPacketId := c'.lastNotifiedSendPacketId }
  channels : ChannelsRelated NetChannel.Requeued c c'

theorem NotifyFrame.trans {c c' c'' : NetConnection} (h : NotifyFrame c c') (h' : NotifyFrame c' c'') :
    NotifyFrame c c'' := by
  refine ⟨?_, h.channels.trans requeued_trans h'.channels⟩
  rw [h'.conn, h.conn]

theorem NotifyFrame.of_channels {c c' : NetConnection} (hc : c'.channels = c.channels) (h : c' = { c with
    channels := c'.channels, record := c'.record, state := c'.state, outAckPacketId := c'.outAckPacketId,
    lastNotifiedSendPacketId := c'.lastNotifiedSendPacketId }) : NotifyFrame c c' :=
  ⟨h, .same requeued_refl hc⟩

theorem foldl_modifyChannel_frame (f : ℤ → NetChannel → NetChannel) (hf : ∀ id ch, NetChannel.Requeued ch (f id ch))
    (id : ℤ) (is : List ℕ) : ∀ c : NetConnection, NotifyFrame c (is.foldl (fun c i => c.modifyChannel i (f id)) c) := by
  induction is with
  | nil => exact fun c => .of_channels rfl rfl
  | cons i is ih =>
    intro c
    have hone : NotifyFrame c (c.modifyChannel i (f id)) :=
      ⟨rfl, .modifyChannel requeued_refl c i (hf id)⟩
    exact hone.trans (ih _)

theorem recivedAck_frame (c : NetConnection) (id : ℤ) : NotifyFrame c (c.recivedAck id) := by
  unfold recivedAck
  simp only
  obtain ⟨is, his⟩ := consume_state (fun (c : NetConnection) (ackedId : ℤ) (i : ℕ) => c.modifyChannel i fun ch => ch.acked ackedId)
    c.record id { c with outAckPacketId := id }
  have hfold := foldl_modifyChannel_frame (fun id ch => ch.acked id) NetChannel.requeued_acked id is { c with outAckPacketId := id }
  rw [← his] at hfold
  have hstart : NotifyFrame c { c with outAckPacketId := id } := .of_channels rfl rfl
  split_ifs
  · exact (hstart.trans hfold).trans (.of_channels rfl rfl)
  · exact (hstart.trans hfold).trans (.of_channels rfl rfl)

theorem recivedNack_frame (c : NetConnection) (id : ℤ) : NotifyFrame c (c.recivedNack id) := by
  unfold recivedNack
  simp only
  obtain ⟨is, his⟩ := consume_state (fun (c : NetConnection) (nackedId : ℤ) (i : ℕ) => c.modifyChannel i fun ch => ch.nacked nackedId)
    c.record id c
  have hfold := foldl_modifyChannel_frame (fun id ch => ch.nacked id) NetChannel.requeued_nacked id is c
  rw [← his] at hfold
  split_ifs
  · exact hfold.trans (.of_channels rfl rfl)
  · exact hfold.trans (.of_channels rfl rfl)

theorem handlePacketNotification_frame (c : NetConnection) (q : Seq) (delivered : Bool) :
    NotifyFrame c (c.handlePacketNotification q delivered) := by
  have hstart : NotifyFrame c { c with lastNotifiedSendPacketId := c.lastNotifiedSendPacketId + 1 } := .of_channels rfl rfl
  unfold handlePacketNotification
  simp only
  split_ifs
  · exact hstart
  · exact hstart.trans (recivedAck_frame _ _)
  · exact hstart.trans (recivedNack_frame _ _)

def notified (c : NetConnection) (header : NotificationHeader) : NetConnection :=
  (c.packetNotify.notifications header).foldl (fun c e => c.handlePacketNotification e.1 e.2) c

def notifyUpdated (c : NetConnection) (header : NotificationHeader) : NetPacketNotify × ℤ :=
  (c.packetNotify.acksProcessed header).internalUpdate header (c.packetNotify.getSequenceDelta header)

theorem notified_frame (c : NetConnection) (header : NotificationHeader) : NotifyFrame c (c.notified header) := by
  have hfold : ∀ (es : List (Seq × Bool)) (c : NetConnection),
      NotifyFrame c (es.foldl (fun c e => c.handlePacketNotification e.1 e.2) c) := by
    intro es
    induction es with
    | nil => exact fun c => .of_channels rfl rfl
    | cons e es ih => exact fun c => (c.handlePacketNotification_frame e.1 e.2).trans (ih _)
  exact hfold _ c

/-! ## The header -/

theorem receivedHeader_of_not_pos (hd : ¬ 0 < c.packetNotify.getSequenceDelta header) : c.receivedHeader header reader =
    { c with pendingDispatchPacketReaders := c.pendingDispatchPacketReaders ++ [reader] } := by
  unfold receivedHeader
  simp only [if_neg hd]

theorem receivedHeader_of_waiting (hd : 0 < c.packetNotify.getSequenceDelta header)
    (hw : (c.notifyUpdated header).1.isWaitingForSequenceHistoryFlush = true) : c.receivedHeader header reader =
    { (c.notified header).mapChannels NetChannel.forceRetransmitAllUnAcked with
      packetNotify := (c.notifyUpdated header).1
      hasDirtyAcks := (c.notified header).hasDirtyAcks + 1
      inPacketId := (c.notified header).inPacketId + (c.notifyUpdated header).2 } := by
  unfold receivedHeader
  simp only [if_pos hd, NetPacketNotify.update_of_delta _ _ _ _ hd]
  rw [notifyUpdated] at hw
  rw [if_pos hw]
  rfl

theorem receivedHeader_of_accepted (hd : 0 < c.packetNotify.getSequenceDelta header)
    (hw : (c.notifyUpdated header).1.isWaitingForSequenceHistoryFlush = false) : c.receivedHeader header reader =
    { c.notified header with
      packetNotify := (c.notifyUpdated header).1
      inPacketId := (c.notified header).inPacketId + c.packetNotify.getSequenceDelta header
      pendingDispatchPacketReaders := (c.notified header).pendingDispatchPacketReaders ++ [reader] } := by
  unfold receivedHeader
  simp only [if_pos hd, NetPacketNotify.update_of_delta _ _ _ _ hd]
  rw [notifyUpdated] at hw
  rw [if_neg (by rw [hw]; exact Bool.false_ne_true)]
  rfl

theorem notifyUpdated_fields (c : NetConnection) (header : NotificationHeader) :
    (c.notifyUpdated header).1.outSeq = c.packetNotify.outSeq ∧
      (c.notifyUpdated header).1.outAckSeq = (c.packetNotify.acksProcessed header).outAckSeq := by
  obtain ⟨h1, h2, -, -⟩ := (c.packetNotify.acksProcessed header).internalUpdate_fields header
    (c.packetNotify.getSequenceDelta header)
  exact ⟨h1.trans (NetPacketNotify.acksProcessed_outSeq _ _), h2⟩

theorem notifyUpdated_inSeq (hd : 0 < c.packetNotify.getSequenceDelta header) {x : ℤ}
    (hx : c.packetNotify.inSeq = Seq.ofInt x) :
    (c.notifyUpdated header).1.inSeq = Seq.ofInt (x + (c.notifyUpdated header).2) ∧
      ((c.notifyUpdated header).1.isWaitingForSequenceHistoryFlush = false →
        (c.notifyUpdated header).2 = c.packetNotify.getSequenceDelta header) := by
  obtain ⟨hdelta, -⟩ := NetPacketNotify.getSequenceDelta_pos hd
  have hin := NetPacketNotify.acksProcessed_inSeq c.packetNotify header
  obtain ⟨h1, h2⟩ := NetPacketNotify.inSeq_internalUpdate (p := c.packetNotify.acksProcessed header) (h := header)
    (hin.trans hx)
  have hwait := (c.packetNotify.acksProcessed header).internalUpdate_waiting header (c.packetNotify.getSequenceDelta header)
  rw [hin, ← hdelta] at h1 h2
  refine ⟨h1, fun hw => h2 ?_⟩
  rw [← hwait]
  exact hw

structure ReceiveFrame (c c' : NetConnection) : Prop where
  conn : c' = { c with
    channels := c'.channels
    packetNotify := c'.packetNotify
    pendingDispatchPacketReaders := c'.pendingDispatchPacketReaders
    record := c'.record
    state := c'.state
    hasDirtyAcks := c'.hasDirtyAcks
    inPacketId := c'.inPacketId
    outAckPacketId := c'.outAckPacketId
    lastNotifiedSendPacketId := c'.lastNotifiedSendPacketId }
  channels : ChannelsRelated NetChannel.Requeued c c'

theorem mapChannels_related {R : NetChannel → NetChannel → Prop} (c : NetConnection) {f : NetChannel → NetChannel}
    (hf : ∀ ch, R ch (f ch)) : ChannelsRelated R c (c.mapChannels f) := by
  refine ⟨List.length_map .., ?_, ?_⟩
  · intro i hi
    rw [channel?_mapChannels, hi]; rfl
  · intro i ch hi
    exact ⟨f ch, by rw [channel?_mapChannels, hi]; rfl, hf ch⟩

theorem receivedHeader_frame (c : NetConnection) (header : NotificationHeader) (reader : RecvPacketReader) :
    ReceiveFrame c (c.receivedHeader header reader) := by
  obtain ⟨hconn, hchannels⟩ := c.notified_frame header
  by_cases hd : 0 < c.packetNotify.getSequenceDelta header
  · cases hw : (c.notifyUpdated header).1.isWaitingForSequenceHistoryFlush with
    | true =>
      rw [receivedHeader_of_waiting hd hw]
      have hforce : ChannelsRelated NetChannel.Requeued c
          ((c.notified header).mapChannels NetChannel.forceRetransmitAllUnAcked) :=
        hchannels.trans requeued_trans (mapChannels_related _ NetChannel.requeued_forceRetransmitAllUnAcked)
      refine ⟨?_, hforce.trans requeued_trans (.same requeued_refl rfl)⟩
      simp only [mapChannels]
      rw [hconn]
    | false =>
      rw [receivedHeader_of_accepted hd hw]
      refine ⟨?_, hchannels.trans requeued_trans (.same requeued_refl rfl)⟩
      rw [hconn]
  · rw [receivedHeader_of_not_pos hd]
    exact ⟨rfl, .same requeued_refl rfl⟩

theorem receivedPacket_cases (c : NetConnection) (reader : RecvPacketReader) :
    c.receivedPacket reader = c ∨ ∃ header r, c.receivedPacket reader = c.receivedHeader header r := by
  unfold receivedPacket
  generalize NetPacketNotify.readHeader reader.header = read
  obtain ⟨ok, header, buffer⟩ := read
  cases ok with
  | true => exact .inr ⟨header, _, rfl⟩
  | false => exact .inl rfl

theorem receivedPacket_frame (c : NetConnection) (reader : RecvPacketReader) : ReceiveFrame c (c.receivedPacket reader) := by
  rcases c.receivedPacket_cases reader with heq | ⟨header, r, heq⟩
  · rw [heq]
    exact ⟨rfl, .same requeued_refl rfl⟩
  · rw [heq]
    exact c.receivedHeader_frame header r

end NetConnection

end RudpEngine

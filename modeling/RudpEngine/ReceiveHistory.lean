import RudpEngine.StaleDatagram

/-!
# What is dispatched and what is acknowledged

`ReceivedPacket` accepts a packet and `DispatchPendingPacket` acknowledges the
newest packet id behind each payload it dispatches, whichever packet the
payload came in. The two agree packet by packet where nothing accepted is
pending when a packet is accepted, and no packet is dispatched late.
-/

namespace RudpEngine

theorem SequenceHistory.isDelivered_firstWords {s : ℕ} (h : SequenceHistory s) {n i : ℕ} (hi : i < 32 * n) :
    (h.firstWords n).isDelivered i = h.isDelivered i := by
  have hword : i / 32 < n := by omega
  rw [isDelivered_eq, isDelivered_eq, wordsBit, wordsBit, firstWords]
  simp only [List.getD_eq_getElem?_getD]
  congr 1
  by_cases hlen : i / 32 < h.storage.length
  · rw [List.getElem?_append_left (by rw [List.length_take]; omega), List.getElem?_take_of_lt hword]
  · rw [List.getElem?_append_right (by rw [List.length_take]; omega), List.length_take,
      List.getElem?_eq_none (Nat.le_of_not_lt hlen), List.getElem?_replicate]
    split_ifs <;> rfl

namespace NetPacketNotify

variable {p : NetPacketNotify} {h : NotificationHeader}

/-- The sequence number up to which the flush mode takes everything as lost. -/
def newInSeqToAck (p : NetPacketNotify) (h : NotificationHeader) : Seq :=
  if !p.willSequenceFitInSequenceHistory h.seq && p.getHasUnacknowledgedAcks then
    Seq.ofInt (p.inAckSeqAck.value + (maxSequenceHistoryLength - p.getCurrentSequenceHistoryLength : ℤ))
  else h.seq

theorem internalUpdate_of_waiting (d : ℤ) (hw : (p.makeRoom h).isWaitingForSequenceHistoryFlush = true) :
    p.internalUpdate h d =
      if ((p.makeRoom h).newInSeqToAck h).ge (p.makeRoom h).inSeq then
        (({ p.makeRoom h with inSeq := (p.makeRoom h).newInSeqToAck h } : NetPacketNotify).nakSeq
          ((p.makeRoom h).newInSeqToAck h), ((p.makeRoom h).newInSeqToAck h).diff (p.makeRoom h).inSeq)
      else (p.makeRoom h, 0) := by
  unfold internalUpdate
  simp only [hw, Bool.not_true, Bool.false_eq_true, if_false]
  rfl

/-- The flush mode can record nothing: what it would take as lost lies behind the newest packet. -/
def Stuck (p : NetPacketNotify) (h : NotificationHeader) : Prop :=
  (p.makeRoom h).isWaitingForSequenceHistoryFlush = true ∧ ((p.makeRoom h).newInSeqToAck h).ge p.inSeq = false

/-- Recording one more packet behind `a`, for what the history says about each packet. -/
theorem history_recorded {hist : History} {a : ℤ} {S T : ℤ → Prop}
    (hS : ∀ i : ℕ, i < 256 → (hist.isDelivered i = true ↔ S (a - i))) {n : ℕ} {isAck : Bool}
    (hnew : 0 < n → (isAck = true ↔ T (a + n))) (hgap : ∀ x, a < x → x < a + n → ¬ T x) (hold : ∀ x ≤ a, T x ↔ S x) :
    ∀ i : ℕ, i < 256 → ((SequenceHistory.recorded isAck n hist).isDelivered i = true ↔ T (a + n - i)) := by
  intro i hi
  rcases Nat.eq_zero_or_pos n with rfl | hn
  · rw [SequenceHistory.recorded, hS i hi, ← hold _ (by omega)]
    simp
  · rw [SequenceHistory.isDelivered_recorded (by decide) isAck hn hist hi]
    by_cases h0 : i = 0
    · subst h0
      rw [if_pos rfl, hnew hn]
      simp
    · rw [if_neg h0]
      by_cases hin : i < n
      · rw [if_pos hin]
        simp only [Bool.false_eq_true, false_iff]
        exact hgap _ (by omega) (by omega)
      · rw [if_neg hin, hS _ (by omega), hold _ (by omega)]
        have : a - ((i - n : ℕ) : ℤ) = a + n - i := by omega
        rw [this]

end NetPacketNotify

/-! ## The log of a receiver -/

namespace NetConnection

/-- The packet id of a header: its sequence number, seen from the newest packet. -/
def packetIdOf (c : NetConnection) (header : NotificationHeader) : ℤ :=
  c.inPacketId + header.seq.diff c.packetNotify.inSeq

def ackedPacketId (c : NetConnection) : ℤ := c.inPacketId + c.packetNotify.inAckSeq.diff c.packetNotify.inSeq

/-- What the header written now says about each packet it has a bit for. -/
def reports (c : NetConnection) : List (ℤ × Bool) :=
  (List.range (32 * c.packetNotify.currentHistoryWordCount)).map fun i =>
    (c.ackedPacketId - (i : ℕ), c.packetNotify.header.history.isDelivered i)

end NetConnection

/-- One round of `DispatchPendingPacket`: the packet whose payload it was given, the connection before and behind it. -/
structure DispatchRound where
  packetId : ℤ
  payload : List Byte
  before : NetConnection
  after : NetConnection

/-- The payload is handed on bunch by bunch, and the newest packet id is acknowledged behind it. -/
def DispatchRound.HandedOn (d : DispatchRound) : Prop :=
  d.after = { NetConnection.dispatchBunches (d.before.payloadBunches d.payload) d.before with
    packetNotify := d.before.packetNotify.ackSeq (Seq.ofInt d.before.inPacketId) }

/-- A connection with the packet ids and payloads that wait and that were accepted, the rounds of the dispatch, and what
was told to the sender. -/
structure ReceiveLog where
  conn : NetConnection
  queued : List (ℤ × List Byte)
  accepted : List (ℤ × List Byte)
  dispatched : List DispatchRound
  reported : List (ℤ × Bool)

namespace ReceiveLog

open NetConnection

variable (s : ReceiveLog)

def receivedPacket (reader : RecvPacketReader) : ReceiveLog :=
  let header := (NetPacketNotify.readHeader reader.header).2.1
  let conn := s.conn.receivedPacket reader
  let isQueued := decide (s.conn.pendingDispatchPacketReaders.length < conn.pendingDispatchPacketReaders.length)
  { s with
    conn := conn
    queued := if isQueued then s.queued ++ [(s.conn.packetIdOf header, reader.payload)] else s.queued
    accepted :=
      if isQueued ∧ 0 < s.conn.packetNotify.getSequenceDelta header then
        s.accepted ++ [(s.conn.packetIdOf header, reader.payload)]
      else s.accepted }

/-- One round of the dispatch, for the packet that waits first. -/
def dispatchFront (reader : RecvPacketReader) : ReceiveLog :=
  { s with
    conn := s.conn.dispatchReader reader
    queued := s.queued.tail
    dispatched := s.dispatched ++
      (s.queued.head?.map fun e => ⟨e.1, reader.payload, s.conn, s.conn.dispatchReader reader⟩).toList }

def dispatchPendingPacket : ReceiveLog :=
  s.conn.pendingDispatchPacketReaders.foldl dispatchFront { s with conn := { s.conn with pendingDispatchPacketReaders := [] } }

def acceptedIds : List ℤ := s.accepted.map Prod.fst

def handedOn : List (ℤ × List Byte) := s.dispatched.map fun d => (d.packetId, d.payload)

def flushPacket (nowUs : ℕ) : ReceiveLog :=
  { s with
    conn := (s.conn.flushPacket nowUs).2
    reported := if s.conn.outPacketQueue.isEmpty then s.reported else s.reported ++ s.conn.reports }

def receiveSystem : System ReceiveLog ConnectionAction where
  init s := AfterAnyInit s.conn ∧ s.queued = [] ∧ s.accepted = [] ∧ s.dispatched = [] ∧ s.reported = []
  next s
    | .receive reader => s.receivedPacket reader
    | .dispatch => s.dispatchPendingPacket
    | .flush nowUs => s.flushPacket nowUs
    | .assemble keepAliveDue => { s with conn := s.conn.assembleOutgoingPackets keepAliveDue }
    | .channels cs => { s with conn := { s.conn with channels := cs } }

/-- A header is taken in where its packet can be dispatched and acknowledged by its own id: nothing accepted is
pending, or nothing is recorded; and a stale packet is the copy of one that was accepted. -/
def HeaderKept (header : NotificationHeader) : Prop :=
  if 0 < s.conn.packetNotify.getSequenceDelta header then
    s.conn.Settled ∨ (s.conn.packetNotify.acksProcessed header).Stuck header
  else s.conn.packetIdOf header ∈ s.acceptedIds

def StepOpen (_ : ConnectionAction) : Prop := s.conn.state ≠ .closed

def StepKept (a : ConnectionAction) : Prop :=
  s.conn.state ≠ .closed ∧ ∀ reader, a = .receive reader →
    (NetPacketNotify.readHeader reader.header).1 = true → s.HeaderKept (NetPacketNotify.readHeader reader.header).2.1

/-- The receive history ends with packet `a` and tells the packets that were accepted from the others; at most the
newest packet is accepted and not recorded. -/
structure Agrees (s : ReceiveLog) (a : ℤ) : Prop where
  inSeq : s.conn.packetNotify.inSeq = Seq.ofInt s.conn.inPacketId
  inAckSeq : s.conn.packetNotify.inAckSeq = Seq.ofInt a
  le : a ≤ s.conn.inPacketId
  near : s.conn.inPacketId - a < 2 ^ 13
  history : ∀ i : ℕ, i < 256 → (s.conn.packetNotify.inSeqHistory.isDelivered i = true ↔ a - i ∈ s.acceptedIds)
  newest : a < s.conn.inPacketId → s.conn.inPacketId ∈ s.acceptedIds
  accepted : ∀ e ∈ s.accepted, e.1 ≤ a ∧ e ∈ s.handedOn ∨ a < s.conn.inPacketId ∧ e.1 = s.conn.inPacketId ∧ e ∈ s.queued
  queued : ∀ e ∈ s.queued, e.1 ∈ s.acceptedIds
  dispatched : ∀ d ∈ s.dispatched, d.packetId ∈ s.acceptedIds ∧ d.HandedOn
  payloads : s.queued.map Prod.snd = s.conn.pendingDispatchPacketReaders.map RecvPacketReader.payload
  reported : ∀ e ∈ s.reported, e.2 = false → e.1 ≤ a ∧ e.1 ∉ s.acceptedIds

section
variable {s : ReceiveLog} {a : ℤ}

theorem Agrees.frame (h : s.Agrees a) {conn : NetConnection} (h1 : conn.packetNotify.inSeq = s.conn.packetNotify.inSeq)
    (h2 : conn.packetNotify.inAckSeq = s.conn.packetNotify.inAckSeq)
    (h3 : conn.packetNotify.inSeqHistory = s.conn.packetNotify.inSeqHistory) (h4 : conn.inPacketId = s.conn.inPacketId)
    (h5 : conn.pendingDispatchPacketReaders = s.conn.pendingDispatchPacketReaders) :
    ({ s with conn := conn } : ReceiveLog).Agrees a := by
  constructor
  · exact h1.trans (by rw [h4]; exact h.inSeq)
  · exact h2.trans h.inAckSeq
  · rw [h4]; exact h.le
  · rw [h4]; exact h.near
  · rw [h3]; exact h.history
  · rw [h4]; exact h.newest
  · rw [h4]; exact h.accepted
  · exact h.queued
  · exact h.dispatched
  · rw [h5]; exact h.payloads
  · exact h.reported

theorem Agrees.inAckSeqDiff (h : s.Agrees a) :
    s.conn.packetNotify.inAckSeq.diff s.conn.packetNotify.inSeq = a - s.conn.inPacketId := by
  have := h.le
  have := h.near
  rw [h.inSeq, h.inAckSeq]
  exact SequenceNumber.diff_ofInt (by decide) (by omega) (by omega)

theorem Agrees.settled_iff (h : s.Agrees a) : s.conn.Settled ↔ a = s.conn.inPacketId := by
  have hle := h.le
  have hnear := h.near
  have hgt : (Seq.ofInt s.conn.inPacketId).gt (Seq.ofInt a) = decide (a < s.conn.inPacketId) :=
    SequenceNumber.gt_ofInt (by decide) (by omega) (by omega)
  rw [Settled, h.inAckSeq, hgt, decide_eq_false_iff_not]
  omega

/-! ## Reporting -/

theorem Agrees.reports (h : s.Agrees a) : ∀ e ∈ s.conn.reports, e.2 = false → e.1 ≤ a ∧ e.1 ∉ s.acceptedIds := by
  intro e he hlost
  obtain ⟨i, hi, rfl⟩ := List.mem_map.mp he
  have hi := List.mem_range.mp hi
  have hcount : s.conn.packetNotify.currentHistoryWordCount ≤ 8 := by
    unfold NetPacketNotify.currentHistoryWordCount
    omega
  have hid : s.conn.ackedPacketId = a := by
    rw [ackedPacketId, h.inAckSeqDiff]
    ring
  have hlost : s.conn.packetNotify.inSeqHistory.isDelivered i = false := by
    rw [← SequenceHistory.isDelivered_firstWords _ hi]
    exact hlost
  simp only [hid]
  refine ⟨by omega, fun hmem => ?_⟩
  rw [(h.history i (by omega)).mpr hmem] at hlost
  cases hlost

theorem flushPacket_receiveSide (c : NetConnection) (nowUs : ℕ) :
    (c.flushPacket nowUs).2.packetNotify.inSeq = c.packetNotify.inSeq ∧
      (c.flushPacket nowUs).2.packetNotify.inAckSeq = c.packetNotify.inAckSeq ∧
      (c.flushPacket nowUs).2.packetNotify.inSeqHistory = c.packetNotify.inSeqHistory ∧
      (c.flushPacket nowUs).2.inPacketId = c.inPacketId ∧
      (c.flushPacket nowUs).2.pendingDispatchPacketReaders = c.pendingDispatchPacketReaders := by
  have hcommit : ∀ p : NetPacketNotify, p.commitAndIncrementOutSeq.inSeq = p.inSeq ∧
      p.commitAndIncrementOutSeq.inAckSeq = p.inAckSeq ∧ p.commitAndIncrementOutSeq.inSeqHistory = p.inSeqHistory := by
    intro p
    unfold NetPacketNotify.commitAndIncrementOutSeq
    split_ifs <;> exact ⟨rfl, rfl, rfl⟩
  unfold NetConnection.flushPacket tryDequeuePacket
  cases c.outPacketQueue with
  | nil => exact ⟨rfl, rfl, rfl, rfl, rfl⟩
  | cons packet rest =>
    simp only [updatePacketHeader, ConnectionPacketBuilder.buildEnd, writeHeaderCallback, NetPacketNotify.writeHeader]
    obtain ⟨h1, h2, h3⟩ := hcommit { c.packetNotify with
      writtenHistoryWordCount := c.packetNotify.currentHistoryWordCount
      writtenInAckSeq := c.packetNotify.inAckSeq }
    simp only [Bool.false_eq_true, false_and, if_false]
    exact ⟨h1, h2, h3, trivial, trivial⟩

theorem Agrees.flushPacket (h : s.Agrees a) (nowUs : ℕ) : (s.flushPacket nowUs).Agrees a := by
  obtain ⟨h1, h2, h3, h4, h5⟩ := flushPacket_receiveSide s.conn nowUs
  have hframe := h.frame h1 h2 h3 h4 h5
  refine { hframe with reported := ?_ }
  unfold ReceiveLog.flushPacket
  simp only
  split_ifs
  · exact h.reported
  · intro e he
    rcases List.mem_append.mp he with he | he
    · exact h.reported e he
    · exact h.reports e he

/-! ## Dispatching -/

/-- Behind the first payload the newest packet is acknowledged, and no payload changes that. -/
theorem foldl_dispatchReader_notify (rs : List RecvPacketReader) : ∀ c : NetConnection, c.Settled →
    (rs.foldl dispatchReader c).packetNotify = c.packetNotify := by
  induction rs with
  | nil => exact fun c _ => rfl
  | cons r rs ih =>
    intro c hc
    have hone : (c.dispatchReader r).packetNotify = c.packetNotify := by
      by_cases hstate : c.state = .closed
      · rw [dispatchReader_of_closed hstate, hc.ackSeq]
      · rw [dispatchReader_eq hstate]
        exact hc.ackSeq
    rw [List.foldl_cons, ih _ (c.dispatchReader_settled r), hone]

theorem dispatchPendingPacket_notify (c : NetConnection) : c.dispatchPendingPacket.packetNotify =
    if c.pendingDispatchPacketReaders = [] then c.packetNotify else c.packetNotify.ackSeq (Seq.ofInt c.inPacketId) := by
  unfold NetConnection.dispatchPendingPacket
  cases c.pendingDispatchPacketReaders with
  | nil => rfl
  | cons r rs =>
    have hone : ∀ c : NetConnection, (c.dispatchReader r).packetNotify = c.packetNotify.ackSeq (Seq.ofInt c.inPacketId) := by
      intro c
      by_cases hstate : c.state = .closed
      · rw [dispatchReader_of_closed hstate]
      · rw [dispatchReader_eq hstate]
    rw [List.foldl_cons, foldl_dispatchReader_notify rs _ (dispatchReader_settled _ r), hone, if_neg (List.cons_ne_nil r rs)]

theorem Agrees.eq_of_nil (h : s.Agrees a) (hnil : s.conn.pendingDispatchPacketReaders = []) : a = s.conn.inPacketId := by
  have hqueued : s.queued = [] := List.map_eq_nil_iff.mp (h.payloads.trans (by rw [hnil]; rfl))
  refine le_antisymm h.le (Int.not_lt.mp fun hlt => ?_)
  obtain ⟨e, he, hid⟩ := List.mem_map.mp (h.newest hlt)
  rcases h.accepted e he with ⟨hle, -⟩ | ⟨-, -, hmem⟩
  · omega
  · rw [hqueued] at hmem
    cases hmem

/-- The rounds of the dispatch, while the packets that wait and their payloads go together. -/
structure Rounds (s s' : ReceiveLog) (rs : List RecvPacketReader) : Prop where
  conn : s'.conn = rs.foldl NetConnection.dispatchReader s.conn
  queued : s'.queued = []
  accepted : s'.accepted = s.accepted
  reported : s'.reported = s.reported
  handedOn : s'.handedOn = s.handedOn ++ s.queued
  dispatched : (∀ d ∈ s.dispatched, d.HandedOn) → ∀ d ∈ s'.dispatched, d.HandedOn

theorem foldl_dispatchFront_rounds (rs : List RecvPacketReader) : ∀ s : ReceiveLog, s.conn.state ≠ .closed →
    s.queued.map Prod.snd = rs.map RecvPacketReader.payload → Rounds s (rs.foldl dispatchFront s) rs := by
  induction rs with
  | nil =>
    intro s _ hpayloads
    have hqueued : s.queued = [] := List.map_eq_nil_iff.mp hpayloads
    exact ⟨rfl, hqueued, rfl, rfl, by rw [hqueued, List.append_nil]; rfl, fun h => h⟩
  | cons r rs ih =>
    intro s hstate hpayloads
    obtain ⟨⟨id, payload⟩, rest, hqueued⟩ : ∃ e rest, s.queued = e :: rest := by
      cases hq : s.queued with
      | nil => rw [hq] at hpayloads; cases hpayloads
      | cons e rest => exact ⟨e, rest, rfl⟩
    rw [hqueued] at hpayloads
    obtain ⟨rfl, hrest⟩ := List.cons.inj hpayloads
    have hone : s.dispatchFront r = { s with
        conn := s.conn.dispatchReader r
        queued := rest
        dispatched := s.dispatched ++ [⟨id, r.payload, s.conn, s.conn.dispatchReader r⟩] } := by
      rw [dispatchFront, hqueued]
      rfl
    have hopen : (s.conn.dispatchReader r).state ≠ .closed := by
      rw [(s.conn.dispatchReader_dispatched r).1]
      exact hstate
    rw [List.foldl_cons, hone]
    have hall := ih { s with
      conn := s.conn.dispatchReader r
      queued := rest
      dispatched := s.dispatched ++ [⟨id, r.payload, s.conn, s.conn.dispatchReader r⟩] } hopen hrest
    refine ⟨hall.conn, hall.queued, hall.accepted, hall.reported, ?_, fun hd => hall.dispatched ?_⟩
    · rw [hall.handedOn, hqueued]
      simp [ReceiveLog.handedOn]
    · intro d hmem
      rcases List.mem_append.mp hmem with hmem | hmem
      · exact hd d hmem
      · obtain rfl := List.mem_singleton.mp hmem
        exact dispatchReader_eq hstate r

theorem dispatchPendingPacket_rounds (hstate : s.conn.state ≠ .closed)
    (hpayloads : s.queued.map Prod.snd = s.conn.pendingDispatchPacketReaders.map RecvPacketReader.payload) :
    Rounds { s with conn := { s.conn with pendingDispatchPacketReaders := [] } } s.dispatchPendingPacket
      s.conn.pendingDispatchPacketReaders :=
  foldl_dispatchFront_rounds _ _ hstate hpayloads

theorem Agrees.dispatchPendingPacket (h : s.Agrees a) (hstate : s.conn.state ≠ .closed) :
    s.dispatchPendingPacket.Agrees s.conn.inPacketId := by
  have hrounds := dispatchPendingPacket_rounds hstate h.payloads
  have hconn : s.dispatchPendingPacket.conn = s.conn.dispatchPendingPacket := hrounds.conn
  have hids : s.dispatchPendingPacket.acceptedIds = s.acceptedIds := congrArg (List.map Prod.fst) hrounds.accepted
  have hframe := s.conn.dispatchPendingPacket_dispatched.1
  have hid : s.conn.dispatchPendingPacket.inPacketId = s.conn.inPacketId := by rw [hframe]
  have hpending : s.conn.dispatchPendingPacket.pendingDispatchPacketReaders = [] := by rw [hframe]
  have hin : s.conn.dispatchPendingPacket.packetNotify.inSeq = s.conn.packetNotify.inSeq := by rw [hframe]
  -- what is recorded now: the packets up to the newest one, which alone is new
  have hnotify : s.conn.dispatchPendingPacket.packetNotify.inAckSeq = Seq.ofInt s.conn.inPacketId ∧
      ∀ i : ℕ, i < 256 → (s.conn.dispatchPendingPacket.packetNotify.inSeqHistory.isDelivered i = true ↔
        s.conn.inPacketId - i ∈ s.acceptedIds) := by
    obtain ⟨n, hn⟩ := Int.eq_ofNat_of_zero_le (Int.sub_nonneg.mpr h.le)
    have hid : s.conn.inPacketId = a + n := by omega
    have hnear := h.near
    rw [dispatchPendingPacket_notify]
    split_ifs with hnil
    · rw [← h.eq_of_nil hnil]
      exact ⟨h.inAckSeq, h.history⟩
    · rw [NetPacketNotify.ackSeq, hid, NetPacketNotify.ackSeqWith_eq h.inAckSeq (by omega)]
      refine ⟨rfl, NetPacketNotify.history_recorded (S := (· ∈ s.acceptedIds)) h.history ?_ ?_ fun x _ => Iff.rfl⟩
      · intro hpos
        have := h.newest (by omega)
        rw [hid] at this
        exact ⟨fun _ => this, fun _ => rfl⟩
      · intro x hlo hhi hmem
        obtain ⟨e, he, rfl⟩ := List.mem_map.mp hmem
        rcases h.accepted e he with ⟨hle, -⟩ | ⟨-, heq, -⟩ <;> omega
  constructor
  · rw [hconn, hin, hid, h.inSeq]
  · rw [hconn]
    exact hnotify.1
  · rw [hconn]
    exact le_of_eq hid.symm
  · rw [hconn, hid]
    omega
  · rw [hconn, hids]
    exact hnotify.2
  · intro hlt
    rw [hconn, hid] at hlt
    exact absurd hlt (lt_irrefl _)
  · intro e he
    rw [hrounds.accepted] at he
    rw [hrounds.handedOn]
    left
    rcases h.accepted e he with ⟨hle, hmem⟩ | ⟨-, heq, hmem⟩
    · exact ⟨hle.trans h.le, List.mem_append_left _ hmem⟩
    · exact ⟨le_of_eq heq, List.mem_append_right _ hmem⟩
  · intro e he
    rw [hrounds.queued] at he
    cases he
  · intro d hd
    refine ⟨?_, hrounds.dispatched (fun d hd => (h.dispatched d hd).2) d hd⟩
    have hmem : (d.packetId, d.payload) ∈ s.dispatchPendingPacket.handedOn := List.mem_map_of_mem hd
    rw [hrounds.handedOn] at hmem
    rw [hids]
    rcases List.mem_append.mp hmem with hmem | hmem
    · obtain ⟨d', hd', heq⟩ := List.mem_map.mp hmem
      have hid' : d'.packetId = d.packetId := congrArg Prod.fst heq
      rw [← hid']
      exact (h.dispatched d' hd').1
    · exact h.queued _ hmem
  · rw [hrounds.queued, hconn, hpending]
    rfl
  · rw [hrounds.reported, hids]
    intro e he hlost
    obtain ⟨hle, hmem⟩ := h.reported e he hlost
    exact ⟨hle.trans h.le, hmem⟩

/-! ## Receiving -/

theorem Agrees.queue (h : s.Agrees a) {conn : NetConnection} (h1 : conn.packetNotify.inSeq = s.conn.packetNotify.inSeq)
    (h2 : conn.packetNotify.inAckSeq = s.conn.packetNotify.inAckSeq)
    (h3 : conn.packetNotify.inSeqHistory = s.conn.packetNotify.inSeqHistory) (h4 : conn.inPacketId = s.conn.inPacketId)
    {r : RecvPacketReader}
    (h5 : conn.pendingDispatchPacketReaders = s.conn.pendingDispatchPacketReaders ++ [r]) {x : ℤ}
    (hx : x ∈ s.acceptedIds) : ({ s with conn := conn, queued := s.queued ++ [(x, r.payload)] } : ReceiveLog).Agrees a := by
  have hsame : ({ s with conn := { conn with pendingDispatchPacketReaders := s.conn.pendingDispatchPacketReaders } } :
      ReceiveLog).Agrees a := h.frame h1 h2 h3 h4 rfl
  refine ⟨hsame.inSeq, hsame.inAckSeq, hsame.le, hsame.near, hsame.history, hsame.newest, ?_, ?_, hsame.dispatched, ?_,
    hsame.reported⟩
  · intro e he
    rcases hsame.accepted e he with hdone | ⟨hlt, heq, hmem⟩
    · exact .inl hdone
    · exact .inr ⟨hlt, heq, List.mem_append_left _ hmem⟩
  · intro y hy
    rcases List.mem_append.mp hy with hy | hy
    · exact h.queued y hy
    · obtain rfl := List.mem_singleton.mp hy
      exact hx
  · show (s.queued ++ [(x, r.payload)]).map Prod.snd = conn.pendingDispatchPacketReaders.map RecvPacketReader.payload
    rw [h5, List.map_append, List.map_append, h.payloads]
    rfl

/-- The flush mode takes the packets up to a new one as lost. -/
theorem Agrees.nak (h : s.Agrees s.conn.inPacketId) {conn : NetConnection} {d : ℕ} (hd : d < 2 ^ 13)
    (h1 : conn.packetNotify.inSeq = Seq.ofInt (s.conn.inPacketId + d))
    (h2 : conn.packetNotify.inAckSeq = Seq.ofInt (s.conn.inPacketId + d))
    (h3 : conn.packetNotify.inSeqHistory = SequenceHistory.recorded false d s.conn.packetNotify.inSeqHistory)
    (h4 : conn.inPacketId = s.conn.inPacketId + d)
    (h5 : conn.pendingDispatchPacketReaders = s.conn.pendingDispatchPacketReaders) :
    ({ s with conn := conn } : ReceiveLog).Agrees (s.conn.inPacketId + d) := by
  have hbelow : ∀ x ∈ s.acceptedIds, x ≤ s.conn.inPacketId := by
    intro x hx
    obtain ⟨e, he, rfl⟩ := List.mem_map.mp hx
    rcases h.accepted e he with ⟨hle, -⟩ | ⟨hlt, -⟩
    · exact hle
    · exact absurd hlt (lt_irrefl _)
  constructor
  · rw [h1, h4]
  · exact h2
  · exact le_of_eq h4.symm
  · show conn.inPacketId - _ < _
    rw [h4]; omega
  · rw [h3]
    refine NetPacketNotify.history_recorded (S := (· ∈ s.acceptedIds)) h.history ?_ ?_ fun x _ => Iff.rfl
    · intro hpos
      simp only [Bool.false_eq_true, false_iff]
      intro hmem
      have := hbelow _ hmem
      omega
    · intro x hlo _ hmem
      have := hbelow _ hmem
      omega
  · intro hlt
    have hlt : s.conn.inPacketId + (d : ℤ) < conn.inPacketId := hlt
    omega
  · intro e he
    rcases h.accepted e he with ⟨hle, hmem⟩ | ⟨hlt, -⟩
    · exact .inl ⟨by omega, hmem⟩
    · exact absurd hlt (lt_irrefl _)
  · exact h.queued
  · exact h.dispatched
  · rw [h5]; exact h.payloads
  · intro e he hlost
    obtain ⟨hle, hmem⟩ := h.reported e he hlost
    exact ⟨by omega, hmem⟩

theorem Agrees.accept (h : s.Agrees s.conn.inPacketId) {conn : NetConnection} {d : ℤ} (hpos : 0 < d) (hd : d < 2 ^ 13)
    (h1 : conn.packetNotify.inSeq = Seq.ofInt (s.conn.inPacketId + d))
    (h2 : conn.packetNotify.inAckSeq = s.conn.packetNotify.inAckSeq)
    (h3 : conn.packetNotify.inSeqHistory = s.conn.packetNotify.inSeqHistory)
    (h4 : conn.inPacketId = s.conn.inPacketId + d) (reader : RecvPacketReader)
    (h5 : conn.pendingDispatchPacketReaders = s.conn.pendingDispatchPacketReaders ++ [reader]) :
    ({ s with
      conn := conn
      queued := s.queued ++ [(s.conn.inPacketId + d, reader.payload)]
      accepted := s.accepted ++ [(s.conn.inPacketId + d, reader.payload)] } : ReceiveLog).Agrees s.conn.inPacketId := by
  have hids : ({ s with
      conn := conn
      queued := s.queued ++ [(s.conn.inPacketId + d, reader.payload)]
      accepted := s.accepted ++ [(s.conn.inPacketId + d, reader.payload)] } : ReceiveLog).acceptedIds =
        s.acceptedIds ++ [s.conn.inPacketId + d] := List.map_append
  have hnew : ∀ x ≤ s.conn.inPacketId, x ∈ s.acceptedIds ++ [s.conn.inPacketId + d] ↔ x ∈ s.acceptedIds := by
    intro x hx
    rw [List.mem_append, List.mem_singleton]
    exact or_iff_left (by omega)
  constructor
  · rw [h1, h4]
  · exact h2.trans h.inAckSeq
  · show s.conn.inPacketId ≤ conn.inPacketId
    omega
  · show conn.inPacketId - s.conn.inPacketId < 2 ^ 13
    omega
  · intro i hi
    rw [h3, h.history i hi, hids]
    exact (hnew _ (by omega)).symm
  · intro _
    rw [hids]
    show conn.inPacketId ∈ _
    rw [h4]
    exact List.mem_append_right _ (List.mem_singleton_self _)
  · intro e he
    rcases List.mem_append.mp he with he | he
    · rcases h.accepted e he with hle | ⟨hlt, -⟩
      · exact .inl hle
      · exact absurd hlt (lt_irrefl _)
    · obtain rfl := List.mem_singleton.mp he
      exact .inr ⟨by rw [h4]; omega, h4.symm, List.mem_append_right _ (List.mem_singleton_self _)⟩
  · rw [hids]
    intro e he
    rcases List.mem_append.mp he with he | he
    · exact List.mem_append_left _ (h.queued e he)
    · obtain rfl := List.mem_singleton.mp he
      exact List.mem_append_right _ (List.mem_singleton_self _)
  · rw [hids]
    exact fun e he => ⟨List.mem_append_left _ (h.dispatched e he).1, (h.dispatched e he).2⟩
  · show (s.queued ++ [_]).map Prod.snd = conn.pendingDispatchPacketReaders.map RecvPacketReader.payload
    rw [h5, List.map_append, List.map_append, h.payloads]
    rfl
  · rw [hids]
    intro e he hlost
    obtain ⟨hle, hmem⟩ := h.reported e he hlost
    exact ⟨hle, fun hin => hmem ((hnew _ hle).mp hin)⟩

theorem notified_receiveSide (c : NetConnection) (header : NotificationHeader) :
    (c.notified header).inPacketId = c.inPacketId ∧
      (c.notified header).pendingDispatchPacketReaders = c.pendingDispatchPacketReaders := by
  rw [(c.notified_frame header).conn]
  exact ⟨rfl, rfl⟩

theorem notifyUpdated_of_not_waiting {c : NetConnection} {header : NotificationHeader}
    (hw : (c.notifyUpdated header).1.isWaitingForSequenceHistoryFlush = false) :
    (c.notifyUpdated header).1.inSeq = header.seq ∧ (c.notifyUpdated header).1.inAckSeq = c.packetNotify.inAckSeq ∧
      (c.notifyUpdated header).1.inSeqHistory = c.packetNotify.inSeqHistory := by
  obtain ⟨-, -, -, hack, hhist, -⟩ := (c.packetNotify.acksProcessed header).makeRoom_fields header
  unfold notifyUpdated at hw ⊢
  rw [NetPacketNotify.internalUpdate_waiting] at hw
  rw [NetPacketNotify.internalUpdate_of_not_waiting _ _ _ hw]
  exact ⟨rfl, hack.trans (NetPacketNotify.acksProcessed_inAckSeq _ _),
    hhist.trans (NetPacketNotify.acksProcessed_inSeqHistory _ _)⟩

theorem Agrees.receivedHeader (h : s.Agrees a) {header : NotificationHeader} (hkept : s.HeaderKept header)
    (reader : RecvPacketReader) :
    let conn := s.conn.receivedHeader header reader
    let isQueued := s.conn.pendingDispatchPacketReaders.length < conn.pendingDispatchPacketReaders.length
    ∃ a', ({ s with
      conn := conn
      queued := if isQueued then s.queued ++ [(s.conn.packetIdOf header, reader.payload)] else s.queued
      accepted :=
        if isQueued ∧ 0 < s.conn.packetNotify.getSequenceDelta header then
          s.accepted ++ [(s.conn.packetIdOf header, reader.payload)]
        else s.accepted } : ReceiveLog).Agrees a' := by
  obtain ⟨hid, hpending⟩ := notified_receiveSide s.conn header
  unfold HeaderKept at hkept
  by_cases hd : 0 < s.conn.packetNotify.getSequenceDelta header
  · rw [if_pos hd] at hkept
    cases hw : (s.conn.notifyUpdated header).1.isWaitingForSequenceHistoryFlush with
    | true =>
      -- nothing is queued; the newest packets are recorded as lost, or nothing is recorded
      rw [receivedHeader_of_waiting hd hw]
      simp only [mapChannels, hpending, lt_irrefl, false_and, if_false]
      have hroom : ((s.conn.packetNotify.acksProcessed header).makeRoom header).isWaitingForSequenceHistoryFlush = true := by
        rw [← NetPacketNotify.internalUpdate_waiting _ _ (s.conn.packetNotify.getSequenceDelta header)]
        exact hw
      obtain ⟨-, -, hin, hack, hhist, -⟩ := (s.conn.packetNotify.acksProcessed header).makeRoom_fields header
      rw [NetPacketNotify.acksProcessed_inSeq] at hin
      rw [NetPacketNotify.acksProcessed_inAckSeq] at hack
      rw [NetPacketNotify.acksProcessed_inSeqHistory] at hhist
      unfold NetPacketNotify.Stuck at hkept
      simp only [NetConnection.notifyUpdated, NetPacketNotify.internalUpdate_of_waiting _ hroom]
      generalize (s.conn.packetNotify.acksProcessed header).makeRoom header = p at hin hack hhist hkept
      generalize p.newInSeqToAck header = q at hkept
      rw [hin]
      rw [NetPacketNotify.acksProcessed_inSeq] at hkept
      cases hge : q.ge s.conn.packetNotify.inSeq with
      | false =>
        exact ⟨a, h.frame hin hack hhist ((Int.add_zero _).trans hid) rfl⟩
      | true =>
        have hsame := h.settled_iff.mp (hkept.resolve_right fun hs => by rw [hs.2] at hge; cases hge)
        obtain ⟨d, hdiff⟩ := Int.eq_ofNat_of_zero_le ((SequenceNumber.ge_iff_diff (by decide) _ _).mp hge)
        have hlt := (SequenceNumber.diff_bounds (by decide) q s.conn.packetNotify.inSeq).2
        have hq : q = Seq.ofInt (s.conn.inPacketId + d) := by
          rw [← hdiff, h.inSeq]
          exact (SequenceNumber.ofInt_add_diff (by decide) q _).symm
        rw [hsame] at h
        have hd : d < 2 ^ 13 := by rw [hdiff] at hlt; omega
        have hnak := NetPacketNotify.ackSeqWith_eq (p := { p with inSeq := q }) (hack.trans h.inAckSeq) hd false
        rw [← hq] at hnak
        refine ⟨_, h.nak hd ?_ ?_ ?_ ?_ rfl⟩
        · simp only [if_true, NetPacketNotify.nakSeq, hnak]
          exact hq
        · simp only [if_true, NetPacketNotify.nakSeq, hnak]
          exact hq
        · simp only [if_true, NetPacketNotify.nakSeq, hnak]
          rw [hhist]
        · simp only [if_true, hid, hdiff]
    | false =>
      rw [receivedHeader_of_accepted hd hw]
      obtain ⟨hin, hack, hhist⟩ := notifyUpdated_of_not_waiting hw
      have hsame : a = s.conn.inPacketId := by
        refine h.settled_iff.mp (hkept.resolve_right fun hs => ?_)
        have hwait := NetPacketNotify.internalUpdate_waiting (s.conn.packetNotify.acksProcessed header) header
          (s.conn.packetNotify.getSequenceDelta header)
        rw [hs.1] at hwait
        exact absurd (hwait.symm.trans hw) (by decide)
      have hdelta := (NetPacketNotify.getSequenceDelta_pos hd).1
      have hlt := (SequenceNumber.diff_bounds (by decide) header.seq s.conn.packetNotify.inSeq).2
      have hseq : header.seq = Seq.ofInt (s.conn.inPacketId + s.conn.packetNotify.getSequenceDelta header) := by
        rw [hdelta, h.inSeq]
        exact (SequenceNumber.ofInt_add_diff (by decide) header.seq _).symm
      have hpacket : s.conn.packetIdOf header = s.conn.inPacketId + s.conn.packetNotify.getSequenceDelta header := by
        rw [packetIdOf, hdelta]
      rw [hsame] at h
      simp only [hpending, List.length_append, List.length_singleton, Nat.lt_succ_self, hd, true_and, if_true, hpacket, hid]
      exact ⟨_, h.accept hd (by rw [hdelta]; omega) (hin.trans hseq) hack hhist rfl reader rfl⟩
  · rw [if_neg hd] at hkept
    rw [receivedHeader_of_not_pos hd]
    simp only [List.length_append, List.length_singleton, Nat.lt_succ_self, hd, and_false, if_true, if_false]
    exact ⟨a, by refine h.queue (r := reader) ?_ ?_ ?_ ?_ ?_ hkept <;> rfl⟩

theorem Agrees.receivedPacket (h : s.Agrees a) {reader : RecvPacketReader}
    (hkept : (NetPacketNotify.readHeader reader.header).1 = true →
      s.HeaderKept (NetPacketNotify.readHeader reader.header).2.1) : ∃ a', (s.receivedPacket reader).Agrees a' := by
  unfold ReceiveLog.receivedPacket NetConnection.receivedPacket
  generalize NetPacketNotify.readHeader reader.header = read at hkept
  obtain ⟨ok, header, buffer⟩ := read
  cases ok with
  | false =>
    simp only [Bool.false_eq_true, if_false, lt_irrefl, decide_false, false_and]
    exact ⟨a, h⟩
  | true =>
    simp only [if_true, decide_eq_true_eq]
    exact h.receivedHeader (hkept rfl) _

/-! ## Runs -/

theorem reach_agrees (h : receiveSystem.Reach StepKept s) : ∃ a, s.Agrees a := by
  refine System.Reach.invariant (I := fun s => ∃ a, s.Agrees a) ?_ ?_ h
  · rintro s ⟨⟨isServer, n, state, cs, incomingSequence, outgoingSequence, hconn⟩, h1, h2, h3, h4⟩
    rw [initSequence_of_new rfl] at hconn
    have hfields : s.conn.packetNotify.inSeq = Seq.ofInt (incomingSequence - 1) ∧
        s.conn.packetNotify.inAckSeq = Seq.ofInt (incomingSequence - 1) ∧
        s.conn.packetNotify.inSeqHistory = SequenceHistory.reset 256 ∧ s.conn.inPacketId = incomingSequence - 1 ∧
        s.conn.pendingDispatchPacketReaders = [] := by
      rw [hconn]
      exact ⟨rfl, rfl, rfl, rfl, rfl⟩
    obtain ⟨hin, hack, hhist, hid, hpending⟩ := hfields
    refine ⟨incomingSequence - 1, by rw [hin, hid], hack, le_of_eq hid.symm, by rw [hid]; omega, ?_, ?_, ?_, ?_, ?_, ?_, ?_⟩
    · intro i _
      rw [hhist, SequenceHistory.isDelivered_reset, acceptedIds, h2]
      simp
    · intro hlt
      omega
    · rw [h2]; exact fun x hx => by cases hx
    · rw [h1]; exact fun x hx => by cases hx
    · rw [h3]; exact fun x hx => by cases hx
    · rw [h1, hpending]; rfl
    · rw [h4]; exact fun x hx => by cases hx
  · rintro s act ⟨a, hI⟩ ⟨hopen, hkept⟩
    cases act with
    | assemble keepAliveDue =>
      have hconn := (assemble_frame s.conn keepAliveDue).conn
      refine ⟨a, hI.frame ?_ ?_ ?_ ?_ ?_⟩ <;> rw [hconn]
    | flush nowUs => exact ⟨a, hI.flushPacket nowUs⟩
    | receive reader => exact hI.receivedPacket (hkept reader rfl)
    | dispatch => exact ⟨_, hI.dispatchPendingPacket hopen⟩
    | channels cs => exact ⟨a, hI.frame rfl rfl rfl rfl rfl⟩

/-- The receive history agrees with the packets: of the newest ones it holds as delivered those that were accepted, whose
payloads were handed on, and as lost those that were not accepted; and no packet that was told lost is dispatched. -/
structure Told (s : ReceiveLog) : Prop where
  history : s.conn.pendingDispatchPacketReaders = [] → s.conn.packetNotify.inAckSeq = Seq.ofInt s.conn.inPacketId ∧
    ∀ i : ℕ, i < 256 →
      (s.conn.packetNotify.inSeqHistory.isDelivered i = true ↔
        ∃ payload, (s.conn.inPacketId - i, payload) ∈ s.accepted ∧ (s.conn.inPacketId - i, payload) ∈ s.handedOn) ∧
      (s.conn.packetNotify.inSeqHistory.isDelivered i = false ↔ s.conn.inPacketId - i ∉ s.acceptedIds)
  handedOn : ∀ d ∈ s.dispatched, d.HandedOn
  reported : ∀ e ∈ s.reported, e.2 = false → ∀ d ∈ s.dispatched, d.packetId ≠ e.1

theorem Agrees.told (h : s.Agrees a) : s.Told := by
  refine ⟨?_, fun d hd => (h.dispatched d hd).2, ?_⟩
  · intro hnil
    rw [h.eq_of_nil hnil] at h
    refine ⟨h.inAckSeq, fun i hi => ⟨?_, ?_⟩⟩
    · rw [h.history i hi]
      constructor
      · intro hacc
        obtain ⟨⟨id, payload⟩, hmem, rfl⟩ := List.mem_map.mp hacc
        rcases h.accepted _ hmem with ⟨-, hhanded⟩ | ⟨hlt, -⟩
        · exact ⟨payload, hmem, hhanded⟩
        · exact absurd hlt (lt_irrefl _)
      · rintro ⟨payload, hmem, -⟩
        exact List.mem_map_of_mem hmem
    · rw [← h.history i hi, Bool.not_eq_true]
  · intro e he hlost d hd heq
    exact (h.reported e he hlost).2 (heq ▸ (h.dispatched d hd).1)

/-- Where every packet is taken in while its own id can be acknowledged, dispatching and acknowledging agree. -/
theorem dispatch_acks_agree (h : receiveSystem.Reach StepKept s) : s.Told := by
  obtain ⟨a, ha⟩ := reach_agrees h
  exact ha.told

end

def receiver : ReceiveLog where
  conn := ({ NetConnection.new true 2 .open with channels := openServer.channels }.initSequence 0 0).2
  queued := []
  accepted := []
  dispatched := []
  reported := []

theorem receiver_init : receiveSystem.init receiver :=
  ⟨⟨true, 2, .open, openServer.channels, 0, 0, rfl⟩, rfl, rfl, rfl, rfl⟩

def gapRun : List ConnectionAction := [.receive (datagram 0 (-1) 1), .dispatch, .receive (datagram 2 (-1) 2), .dispatch]

theorem dispatch_acks_agree_gap : (receiveSystem.runFrom receiver gapRun).Told ∧
    (receiveSystem.runFrom receiver gapRun).acceptedIds = [0, 2] ∧
    (List.range 3).map (receiveSystem.runFrom receiver gapRun).conn.packetNotify.inSeqHistory.isDelivered =
      [true, false, true] := by
  have hkept : ∀ (s : ReceiveLog) (seq : ℤ) (chSequence : ℕ), s.conn.state ≠ .closed → s.conn.Settled →
      0 < s.conn.packetNotify.getSequenceDelta
        (NetPacketNotify.readHeader (datagram seq (-1) chSequence).header).2.1 →
      s.StepKept (.receive (datagram seq (-1) chSequence)) := by
    intro s seq chSequence hopen hsettled hpos
    refine ⟨hopen, ?_⟩
    rintro reader h -
    obtain rfl := ConnectionAction.receive.inj h
    rw [HeaderKept, if_pos hpos]
    exact .inl hsettled
  have hdispatch : ∀ s : ReceiveLog, s.conn.state ≠ .closed → s.StepKept .dispatch := by
    intro s hopen
    refine ⟨hopen, ?_⟩
    intro reader h
    cases h
  have hreach : receiveSystem.Reach StepKept (receiveSystem.runFrom receiver gapRun) := by
    refine .next (.next (.next (.next (.init receiver_init) ?_) ?_) ?_) ?_
    · refine hkept _ 0 1 (by decide +kernel) ?_ (by decide +kernel)
      show _ = false
      decide +kernel
    · exact hdispatch _ (by decide +kernel)
    · refine hkept _ 2 2 (by decide +kernel) ?_ (by decide +kernel)
      show _ = false
      decide +kernel
    · exact hdispatch _ (by decide +kernel)
  exact ⟨dispatch_acks_agree hreach, by decide +kernel, by decide +kernel⟩

/-- Two packets are accepted before the next dispatch: the first one is dispatched and recorded as lost. -/
theorem dispatched_packet_lost : ¬ ∀ s, receiveSystem.Reach StepOpen s → s.Told := by
  intro h
  have hreach : receiveSystem.Reach StepOpen
      (receiveSystem.runFrom receiver [.receive (datagram 0 (-1) 1), .receive (datagram 1 (-1) 2), .dispatch]) := by
    refine .next (.next (.next (.init receiver_init) ?_) ?_) ?_
    all_goals
      show _ ≠ _
      decide +kernel
  have htold := ((h _ hreach).history (by decide +kernel)).2 1 (by decide)
  have hlost : (receiveSystem.runFrom receiver [.receive (datagram 0 (-1) 1), .receive (datagram 1 (-1) 2),
      .dispatch]).conn.packetNotify.inSeqHistory.isDelivered 1 = false := by decide +kernel
  rw [htold.2] at hlost
  exact hlost (by decide +kernel)

end ReceiveLog

end RudpEngine

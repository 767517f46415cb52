import RudpEngine.Dispatch
import RudpEngine.HeaderTrip
import RudpEngine.Receive
import RudpEngine.RecordGroups
import RudpEngine.Run

/-!
# The send side stays in step

A connection counts its packets four times over: by the id of the next packet,
by the id notified last, by the sequence numbers of the packet notification and
by the markers of the channel record. `SendSync` says how they go together, and
every operation keeps it as long as the connection is not closed.
-/

namespace RudpEngine

namespace NetConnection

/-- The id of the first packet that waits, or of the next packet if none does. -/
def firstUnsent (c : NetConnection) : ℤ := c.outPacketId - c.outPacketQueue.length

/-- The packets sent and not yet notified. -/
def unNotified (c : NetConnection) : ℤ := c.firstUnsent - 1 - c.lastNotifiedSendPacketId

structure SendSync (c : NetConnection) : Prop where
  handler : c.handler = defaultProcessor
  outSeq : c.packetNotify.outSeq = Seq.ofInt c.firstUnsent
  outAckSeq : c.packetNotify.outAckSeq = Seq.ofInt c.lastNotifiedSendPacketId
  inSeq : c.packetNotify.inSeq = Seq.ofInt c.inPacketId
  lt : c.lastNotifiedSendPacketId < c.firstUnsent
  queue : c.outPacketQueue.map OutReadyPacket.outPacketId =
    (List.range c.outPacketQueue.length).map fun k : ℕ => c.firstUnsent + k
  record : ∃ gs, c.record.Groups c.lastNotifiedSendPacketId c.outPacketId gs

variable {c : NetConnection}

/-! ## Assembling -/

namespace Assembling

structure Begun (last : ℤ) (a : Assembling) : Prop where
  record : ∃ gs, a.conn.record.Groups last a.conn.outPacketId gs
  lt : last < a.conn.outPacketId
  packet : ∀ p, a.packet = some p → p.outPacketId = a.conn.outPacketId ∧ a.conn.record.lastPacketId = a.conn.outPacketId

variable {last : ℤ} {a : Assembling}

theorem Begun.createNewPacket (h : Begun last a) :
    Begun last { a.createNewPacket.2 with packet := some a.createNewPacket.1 } := by
  obtain ⟨gs, hgs⟩ := h.record
  obtain ⟨hlast, hgs'⟩ := hgs.pushPacketId
  refine ⟨hgs', h.lt, ?_⟩
  intro p hp
  cases hp
  exact ⟨rfl, hlast⟩

theorem Begun.finish {p : OutReadyPacket} (h : Begun last a) (hp : a.packet = some p) :
    Begun last { a.finish p with packet := none } := by
  obtain ⟨gs, hgs⟩ := h.record
  refine ⟨⟨gs, hgs.finish (h.packet p hp).2⟩, Int.lt_add_one_of_le (le_of_lt h.lt), ?_⟩
  intro q hq
  cases hq

theorem Begun.packetFor (h : Begun last a) (size : ℕ) :
    Begun last { (a.packetFor size).2 with packet := some (a.packetFor size).1 } := by
  unfold Assembling.packetFor
  cases hp : a.packet with
  | none =>
    simp only
    split_ifs
    · exact ((h.createNewPacket).finish rfl).createNewPacket
    · exact h.createNewPacket
  | some packet =>
    simp only
    split_ifs
    · exact (h.finish hp).createNewPacket
    · refine ⟨h.record, h.lt, ?_⟩
      intro q hq
      cases hq
      exact h.packet packet hp

theorem append_outPacketId (p : OutReadyPacket) (bunch : OutReadyBunch) :
    (ConnectionPacketBuilder.append p bunch).2.outPacketId = p.outPacketId := by
  unfold ConnectionPacketBuilder.append
  split_ifs <;> rfl

theorem Begun.dequeue (h : Begun last a) {index : ℕ} {ch : NetChannel} (hch : a.conn.channel? index = some ch)
    (rest : List OutReadyBunch) : Begun last { a with conn := a.conn.setChannel index { ch with outBunchQueue := rest } } ∧
      ({ a with conn := a.conn.setChannel index { ch with outBunchQueue := rest } } : Assembling).conn.channel? index =
        some { ch with outBunchQueue := rest } := by
  refine ⟨⟨h.record, h.lt, h.packet⟩, ?_⟩
  rw [channel?_setChannel (lt_of_channel? hch), if_pos rfl]

theorem Begun.takeAndPlace (h : Begun last a) {index : ℕ} {ch : NetChannel} {bunch : OutReadyBunch}
    {rest : List OutReadyBunch} (hch : a.conn.channel? index = some ch)
    (hov : (a.takeAndPlace index ch bunch rest).overflow = false) : Begun last (a.takeAndPlace index ch bunch rest) := by
  obtain ⟨hb, hset⟩ := h.dequeue hch rest
  unfold Assembling.takeAndPlace at hov ⊢
  generalize ({ a with conn := a.conn.setChannel index { ch with outBunchQueue := rest } } : Assembling) = b at hb hset hov ⊢
  rcases placeBunch_cases hset bunch with ⟨-, he⟩ | ⟨-, he | ⟨ch', -, he⟩⟩
  · rw [he]
    exact ⟨hb.record, hb.lt, hb.packet⟩
  · rw [he] at hov; cases hov
  · have hpf := hb.packetFor bunch.totalSize
    rw [he]
    generalize b.packetFor bunch.totalSize = pf at hpf
    obtain ⟨packet, a'⟩ := pf
    obtain ⟨gs, hgs⟩ := hpf.record
    obtain ⟨hid, hlast⟩ := hpf.packet packet rfl
    obtain ⟨hopen, gs₀, g, -, hgs'⟩ := hgs.pushChannelRecord hlast hpf.lt ch.chIndex
    simp only at hid hgs' hopen ⊢
    rw [hid]
    refine ⟨⟨_, hgs'⟩, hpf.lt, ?_⟩
    intro p hp
    cases hp
    exact ⟨(append_outPacketId packet bunch).trans hid, hopen⟩

theorem Begun.takeAndPlace_record (h : Begun last a) {index : ℕ} {ch : NetChannel} {bunch : OutReadyBunch}
    {rest : List OutReadyBunch} (hch : a.conn.channel? index = some ch) :
    ∃ gs, (a.takeAndPlace index ch bunch rest).conn.record.Groups last
      (a.takeAndPlace index ch bunch rest).conn.outPacketId gs := by
  cases hov : (a.takeAndPlace index ch bunch rest).overflow with
  | false => exact (h.takeAndPlace hch hov).record
  | true =>
    obtain ⟨hb, hset⟩ := h.dequeue hch rest
    unfold Assembling.takeAndPlace at hov ⊢
    generalize ({ a with conn := a.conn.setChannel index { ch with outBunchQueue := rest } } : Assembling) = b
      at hb hset hov ⊢
    have hpf := hb.packetFor bunch.totalSize
    obtain ⟨hid, hlast⟩ := hpf.packet _ rfl
    obtain ⟨gs, hgs⟩ := hpf.record
    obtain ⟨-, gs₀, g, -, hgs'⟩ := hgs.pushChannelRecord hlast hpf.lt ch.chIndex
    rcases placeBunch_cases hset bunch with ⟨-, he⟩ | ⟨-, he | ⟨ch', -, he⟩⟩
    · rw [he]
      exact hb.record
    · rw [he]
      simp only at hid hgs' ⊢
      rw [hid]
      exact ⟨_, hgs'⟩
    · rw [he]
      simp only at hid hgs' ⊢
      rw [hid]
      exact ⟨_, hgs'⟩

theorem Begun.confirm (h : Begun last a) : ∃ gs, a.confirm.conn.record.Groups last a.confirm.conn.outPacketId gs := by
  unfold Assembling.confirm
  cases hp : a.packet with
  | none => exact h.record
  | some p =>
    simp only
    split_ifs
    · exact h.record
    · exact (h.finish hp).record

end Assembling

open Assembling

theorem assemble_record (keepAliveDue : Bool) {gs : List (List ℕ)} {last : ℤ} (hgs : c.record.Groups last c.outPacketId gs)
    (hlt : last < c.outPacketId) (hov : ¬ c.OverflowsReliableBuffer) :
    ∃ gs, (c.assembleOutgoingPackets keepAliveDue).record.Groups last
      (c.assembleOutgoingPackets keepAliveDue).outPacketId gs := by
  cases hreq : c.isRequireAssembleBunch with
  | false =>
    rw [assembleOutgoingPackets, hreq]
    cases keepAliveDue with
    | true =>
      obtain ⟨hlast, gs', hgs'⟩ := hgs.pushPacketId
      exact ⟨gs', hgs'.finish hlast⟩
    | false => exact ⟨gs, hgs⟩
  | true =>
    have hov' := assembling_overflow hreq hov
    have hbegun : c.assembling.overflow = false → Begun last c.assembling :=
      passes_invariant (I := fun a => a.overflow = false → Begun last a)
        (fun _ _ _ _ _ hI hb hch _ h => (hI hb).takeAndPlace hch h) _ _ _
        (fun _ => ⟨⟨gs, hgs⟩, hlt, fun p hp => by cases hp⟩)
    rw [assembleOutgoingPackets, hreq]
    simp only [Bool.not_true, Bool.false_eq_true, if_false, hov']
    exact (hbegun hov').confirm

theorem assemble_ids (keepAliveDue : Bool) (hov : ¬ c.OverflowsReliableBuffer) : ∃ new : List OutReadyPacket,
    (c.assembleOutgoingPackets keepAliveDue).outPacketQueue = c.outPacketQueue ++ new ∧
      (c.assembleOutgoingPackets keepAliveDue).outPacketId = c.outPacketId + new.length ∧
      new.map OutReadyPacket.outPacketId = (List.range new.length).map fun k : ℕ => c.outPacketId + k := by
  cases hreq : c.isRequireAssembleBunch with
  | false =>
    rw [assembleOutgoingPackets, hreq]
    cases keepAliveDue with
    | true => exact ⟨_, c.keepAlive_packetsExact.outPacketQueue, rfl, by simp⟩
    | false => exact ⟨[], (List.append_nil _).symm, by simp, rfl⟩
  | true =>
    obtain ⟨log, new, hass⟩ := assemble_assembled keepAliveDue hreq (assembling_overflow hreq hov)
    exact ⟨new, hass.outPacketQueue, hass.outPacketId, hass.ids⟩

/-! ## Notifications -/

/-- The notification of `q` is of the next packet, and the record has that packet's channels first: consuming them
succeeds and calls the functor for exactly these. -/
structure Consumes (c : NetConnection) (q : Seq) : Prop where
  matched : Seq.ofInt (c.lastNotifiedSendPacketId + 1) = q
  consumed : ∃ (called : List ℕ) (record : ConnectionChannelRecord),
    (∀ i, i ∈ called ↔ i ∈ c.record.channelsOf (c.lastNotifiedSendPacketId + 1)) ∧
    ∀ {σ : Type} (func : σ → ℤ → ℕ → σ) (s : σ),
      c.record.consumeChannelRecordsForPacket func (c.lastNotifiedSendPacketId + 1) s =
        (true, record, called.foldl (fun s i => func s (c.lastNotifiedSendPacketId + 1) i) s)

structure NotifiedBy (c : NetConnection) (n : ℕ) (c' : NetConnection) : Prop where
  conn : c' = { c with
    channels := c'.channels
    record := c'.record
    outAckPacketId := c'.outAckPacketId
    lastNotifiedSendPacketId := c.lastNotifiedSendPacketId + n }
  length : c'.channels.length = c.channels.length
  record : ∃ gs, c'.record.Groups (c.lastNotifiedSendPacketId + n) c.outPacketId gs

theorem handlePacketNotification_next {gs : List (List ℕ)} (hgs : c.record.Groups c.lastNotifiedSendPacketId c.outPacketId gs)
    (hlt : c.lastNotifiedSendPacketId + 1 < c.outPacketId) (delivered : Bool) :
    Consumes c (Seq.ofInt (c.lastNotifiedSendPacketId + 1)) ∧
      NotifiedBy c 1 (c.handlePacketNotification (Seq.ofInt (c.lastNotifiedSendPacketId + 1)) delivered) := by
  obtain ⟨g, gs', rfl, hgs', hconsume⟩ := hgs.consume hlt
  have hchannels : c.record.channelsOf (c.lastNotifiedSendPacketId + 1) = g := by
    have := ConnectionChannelRecord.channelsOf_eq hgs.entries (k := 0) (g := g) rfl
    rwa [Nat.cast_zero, Int.add_zero] at this
  refine ⟨⟨rfl, ConnectionChannelRecord.calls g none, _, ?_, hconsume⟩, ?_⟩
  · intro i
    rw [ConnectionChannelRecord.mem_calls, hchannels]
  · unfold handlePacketNotification
    simp only [ne_eq, not_true_eq_false, if_false]
    cases delivered with
    | true =>
      obtain ⟨cs, hcs, hlen⟩ := foldl_modifyChannel (fun id ch => ch.acked id) (c.lastNotifiedSendPacketId + 1)
        (ConnectionChannelRecord.calls g none) { c with
          lastNotifiedSendPacketId := c.lastNotifiedSendPacketId + 1, outAckPacketId := c.lastNotifiedSendPacketId + 1 }
      simp only [if_true, recivedAck, hconsume, hcs]
      exact ⟨rfl, hlen, _, hgs'⟩
    | false =>
      obtain ⟨cs, hcs, hlen⟩ := foldl_modifyChannel (fun id ch => ch.nacked id) (c.lastNotifiedSendPacketId + 1)
        (ConnectionChannelRecord.calls g none) { c with lastNotifiedSendPacketId := c.lastNotifiedSendPacketId + 1 }
      simp only [Bool.false_eq_true, if_false, if_true, recivedNack, hconsume, hcs]
      exact ⟨rfl, hlen, _, hgs'⟩

/-- The notifications of a header, in order: each finds its packet, and all leave the connection open. -/
theorem foldl_notifications (h : NotificationHeader) : ∀ (n : ℕ) (c : NetConnection) (gs : List (List ℕ)),
    c.record.Groups c.lastNotifiedSendPacketId c.outPacketId gs → c.lastNotifiedSendPacketId + n < c.outPacketId →
    NotifiedBy c n ((h.notifications n (Seq.ofInt (c.lastNotifiedSendPacketId + 1))).foldl
        (fun c e => c.handlePacketNotification e.1 e.2) c) ∧
      ∀ k e, (h.notifications n (Seq.ofInt (c.lastNotifiedSendPacketId + 1)))[k]? = some e →
        Consumes (((h.notifications n (Seq.ofInt (c.lastNotifiedSendPacketId + 1))).take k).foldl
          (fun c e => c.handlePacketNotification e.1 e.2) c) e.1
  | 0, c, gs, hgs, _ => by
    refine ⟨⟨?_, rfl, gs, ?_⟩, fun k e he => by simp [NotificationHeader.notifications] at he⟩
    · rw [Nat.cast_zero, Int.add_zero]; rfl
    · rw [Nat.cast_zero, Int.add_zero]; exact hgs
  | n + 1, c, gs, hgs, hlt => by
    have hinc : (Seq.ofInt (c.lastNotifiedSendPacketId + 1)).inc = Seq.ofInt (c.lastNotifiedSendPacketId + 1 + 1) :=
      SequenceNumber.inc_ofInt (by decide) _
    rw [NotificationHeader.notifications, hinc]
    generalize hb : (decide (n + 1 ≤ h.historyWordCount * bitsPerWord) && h.history.isDelivered n) = delivered
    obtain ⟨hfirst, hone⟩ := handlePacketNotification_next hgs (by push_cast at hlt; omega) delivered
    obtain ⟨hconn, hlen, gs', hgs'⟩ := hone
    generalize hc' : c.handlePacketNotification (Seq.ofInt (c.lastNotifiedSendPacketId + 1)) delivered = c'
      at hconn hlen hgs'
    have hlast : c'.lastNotifiedSendPacketId = c.lastNotifiedSendPacketId + 1 := by rw [hconn]; rfl
    have hout : c'.outPacketId = c.outPacketId := by rw [hconn]
    have ih := foldl_notifications h n c' gs' (by rw [hlast, hout]; exact hgs')
      (by rw [hlast, hout]; push_cast at hlt; omega)
    rw [hlast] at ih
    obtain ⟨⟨hconn', hlen', gs'', hgs''⟩, hall⟩ := ih
    rw [List.foldl_cons, hc']
    refine ⟨⟨?_, hlen'.trans hlen, gs'', ?_⟩, ?_⟩
    · rw [hconn', hconn]
      simp only
      congr 1
      push_cast; ring
    · rw [hlast, hout] at hgs''
      convert hgs'' using 1
      push_cast; ring
    · intro k e he
      cases k with
      | zero =>
        obtain rfl : (Seq.ofInt (c.lastNotifiedSendPacketId + 1), delivered) = e := by simpa using he
        exact hfirst
      | succ k =>
        rw [List.take_succ_cons, List.foldl_cons, hc']
        exact hall k e (by simpa using he)

/-! ## The operations -/

theorem SendSync.assembled (h : c.SendSync) (keepAliveDue : Bool) (new : List OutReadyPacket)
    (hqueue : (c.assembleOutgoingPackets keepAliveDue).outPacketQueue = c.outPacketQueue ++ new)
    (hid : (c.assembleOutgoingPackets keepAliveDue).outPacketId = c.outPacketId + new.length)
    (hids : new.map OutReadyPacket.outPacketId = (List.range new.length).map fun k : ℕ => c.outPacketId + k)
    (hrecord : ∃ gs, (c.assembleOutgoingPackets keepAliveDue).record.Groups c.lastNotifiedSendPacketId
      (c.assembleOutgoingPackets keepAliveDue).outPacketId gs) : (c.assembleOutgoingPackets keepAliveDue).SendSync := by
  have hframe := (assemble_frame c keepAliveDue).conn
  generalize hc' : c.assembleOutgoingPackets keepAliveDue = c' at hframe hqueue hid hrecord
  have hfirst : c'.firstUnsent = c.firstUnsent := by
    unfold firstUnsent
    rw [hqueue, hid, List.length_append]
    push_cast; ring
  have hlast : c'.lastNotifiedSendPacketId = c.lastNotifiedSendPacketId := by rw [hframe]
  constructor
  · rw [hframe]; exact h.handler
  · rw [hfirst, ← h.outSeq, hframe]
  · rw [hlast, ← h.outAckSeq, hframe]
  · rw [hframe]; exact h.inSeq
  · rw [hlast, hfirst]; exact h.lt
  · rw [hfirst, hqueue, List.map_append, h.queue, hids, List.length_append, List.range_add, List.map_append, List.map_map]
    congr 1
    apply List.map_congr_left
    intro k _
    simp only [Function.comp_apply, firstUnsent]
    push_cast; ring
  · rw [hlast]; exact hrecord

theorem SendSync.last_lt (h : c.SendSync) : c.lastNotifiedSendPacketId < c.outPacketId := by
  have hlt := h.lt
  unfold firstUnsent at hlt
  omega

theorem SendSync.assemble_of_room (h : c.SendSync) (keepAliveDue : Bool) (hov : ¬ c.OverflowsReliableBuffer) :
    (c.assembleOutgoingPackets keepAliveDue).SendSync := by
  obtain ⟨new, hqueue, hid, hids⟩ := assemble_ids (c := c) keepAliveDue hov
  obtain ⟨gs, hgs⟩ := h.record
  exact h.assembled keepAliveDue new hqueue hid hids (assemble_record keepAliveDue hgs h.last_lt hov)

theorem SendSync.assemble (h : c.SendSync) (keepAliveDue : Bool)
    (hopen : (c.assembleOutgoingPackets keepAliveDue).state ≠ .closed) :
    (c.assembleOutgoingPackets keepAliveDue).SendSync := by
  rcases assemble_state c keepAliveDue with ⟨-, hclosed⟩ | ⟨hov, -⟩
  · exact absurd hclosed hopen
  · exact h.assemble_of_room keepAliveDue hov

theorem outSeq_written (p : NetPacketNotify) (packet : OutReadyPacket) (nowUs : ℕ) :
    (builtHeader p packet nowUs).2.commitAndIncrementOutSeq.outSeq = p.outSeq.inc := by
  have hone := one_le_currentHistoryWordCount p
  have hwritten := builtHeader_written p packet nowUs
  rw [NetPacketNotify.commitAndIncrementOutSeq, if_neg (by omega)]
  simp [builtHeader, ConnectionPacketBuilder.buildEnd, writeHeaderCallback, NetPacketNotify.writeHeader]

theorem builtHeader_outPacketId (p : NetPacketNotify) (packet : OutReadyPacket) (nowUs : ℕ) :
    (builtHeader p packet nowUs).1.outPacketId = packet.outPacketId := by
  unfold builtHeader ConnectionPacketBuilder.buildEnd
  generalize writeHeaderCallback defaultProcessor _ p = r
  rfl

theorem written_fields (p : NetPacketNotify) (packet : OutReadyPacket) (nowUs : ℕ) :
    (builtHeader p packet nowUs).2.commitAndIncrementOutSeq.outAckSeq = p.outAckSeq ∧
      (builtHeader p packet nowUs).2.commitAndIncrementOutSeq.inSeq = p.inSeq := by
  unfold NetPacketNotify.commitAndIncrementOutSeq
  simp only [builtHeader, ConnectionPacketBuilder.buildEnd, writeHeaderCallback, NetPacketNotify.writeHeader]
  split_ifs <;> exact ⟨rfl, rfl⟩

theorem flushPacket_cons {packet : OutReadyPacket} {rest : List OutReadyPacket} (hq : c.outPacketQueue = packet :: rest)
    (hhandler : c.handler = defaultProcessor) (nowUs : ℕ) : c.flushPacket nowUs =
      (some (builtHeader c.packetNotify packet nowUs).1, { c with
        outPacketQueue := rest
        packetNotify := (builtHeader c.packetNotify packet nowUs).2.commitAndIncrementOutSeq }) := by
  unfold flushPacket tryDequeuePacket
  rw [hq]
  simp only [updatePacketHeader, hhandler]
  rfl

theorem flushPacket_nil (hq : c.outPacketQueue = []) (nowUs : ℕ) : c.flushPacket nowUs = (none, c) := by
  unfold flushPacket tryDequeuePacket
  rw [hq]

theorem SendSync.flush (h : c.SendSync) (nowUs : ℕ) : (c.flushPacket nowUs).2.SendSync := by
  cases hq : c.outPacketQueue with
  | nil =>
    rw [flushPacket_nil hq]
    exact h
  | cons packet rest =>
    rw [flushPacket_cons hq h.handler]
    have hfirst : firstUnsent { c with outPacketQueue := rest } = c.firstUnsent + 1 := by
      unfold firstUnsent
      rw [hq, List.length_cons]
      push_cast; ring
    have hlt := h.lt
    obtain ⟨hack, hin⟩ := written_fields c.packetNotify packet nowUs
    constructor
    · exact h.handler
    · show (builtHeader c.packetNotify packet nowUs).2.commitAndIncrementOutSeq.outSeq =
        Seq.ofInt (firstUnsent { c with outPacketQueue := rest })
      rw [outSeq_written, h.outSeq, hfirst]
      exact SequenceNumber.inc_ofInt (by decide) _
    · exact hack.trans h.outAckSeq
    · exact hin.trans h.inSeq
    · show c.lastNotifiedSendPacketId < firstUnsent { c with outPacketQueue := rest }
      rw [hfirst]; omega
    · show rest.map OutReadyPacket.outPacketId =
        (List.range rest.length).map fun k : ℕ => firstUnsent { c with outPacketQueue := rest } + k
      have hqueue := h.queue
      rw [hq, List.length_cons, List.range_succ_eq_map, List.map_cons, List.map_cons, List.map_map] at hqueue
      rw [hfirst, (List.cons.inj hqueue).2]
      apply List.map_congr_left
      intro k _
      simp only [Function.comp_apply, Nat.succ_eq_add_one]
      push_cast; ring
    · exact h.record

theorem SendSync.acknowledged (h : c.SendSync) {header : NotificationHeader}
    (hd : 0 < c.packetNotify.getSequenceDelta header) : ∃ n : ℕ,
      c.lastNotifiedSendPacketId + n < c.firstUnsent ∧
      (c.packetNotify.acksProcessed header).outAckSeq = Seq.ofInt (c.lastNotifiedSendPacketId + n) ∧
      c.packetNotify.notifications header = header.notifications n (Seq.ofInt (c.lastNotifiedSendPacketId + 1)) := by
  obtain ⟨-, -, hge, hgt⟩ := NetPacketNotify.getSequenceDelta_pos hd
  have hdiff := (SequenceNumber.ge_iff_diff (by decide) _ _).mp hge
  obtain ⟨-, hhi⟩ := SequenceNumber.diff_bounds (by decide) header.ackedSeq c.packetNotify.outAckSeq
  obtain ⟨n, hn⟩ := Int.eq_ofNat_of_zero_le hdiff
  have hacked : header.ackedSeq = Seq.ofInt (c.lastNotifiedSendPacketId + n) := by
    have := SequenceNumber.ofInt_add_diff (n := 14) (by decide) header.ackedSeq c.lastNotifiedSendPacketId
    rw [← this, ← hn, h.outAckSeq]
    rfl
  refine ⟨n, ?_, ?_, ?_⟩
  · have hlt := h.lt
    have hhalf : (2 : ℤ) ^ (14 - 1) = 8192 := by norm_num
    rw [hn, hhalf] at hhi
    by_cases hfew : c.firstUnsent - c.lastNotifiedSendPacketId < 2 ^ 13
    · have := SequenceNumber.gt_ofInt (n := 14) (by decide) (x := c.firstUnsent) (y := c.lastNotifiedSendPacketId + n)
        (by norm_num at hfew ⊢; omega) (by norm_num; omega)
      rw [hacked, h.outSeq] at hgt
      rw [show SequenceNumber.gt (Seq.ofInt c.firstUnsent) (Seq.ofInt (c.lastNotifiedSendPacketId + n)) = _ from this,
        decide_eq_true_eq] at hgt
      exact hgt
    · -- a header acknowledges less than a half range
      norm_num at hfew
      omega
  · rw [NetPacketNotify.acksProcessed_outAckSeq]
    split_ifs with hlast
    · exact hacked
    · -- nothing new is acknowledged
      have hle : ¬ 0 < header.ackedSeq.diff c.packetNotify.outAckSeq := fun hpos =>
        hlast ((SequenceNumber.gt_iff_diff (by decide) _ _).mpr hpos)
      have hz : n = 0 := by omega
      rw [h.outAckSeq, hz]; simp
  · unfold NetPacketNotify.notifications
    have hinc : c.packetNotify.outAckSeq.inc = Seq.ofInt (c.lastNotifiedSendPacketId + 1) := by
      rw [h.outAckSeq]
      exact SequenceNumber.inc_ofInt (by decide) _
    split_ifs with hlast
    · rw [hinc, hn]; rfl
    · have hle : ¬ 0 < header.ackedSeq.diff c.packetNotify.outAckSeq := fun hpos =>
        hlast ((SequenceNumber.gt_iff_diff (by decide) _ _).mpr hpos)
      have hz : n = 0 := by omega
      rw [hz]; rfl

theorem SendSync.receivedHeader (h : c.SendSync) (header : NotificationHeader)
    (reader : RecvPacketReader) : (c.receivedHeader header reader).SendSync := by
  by_cases hd : 0 < c.packetNotify.getSequenceDelta header
  · obtain ⟨n, hlt, hack, hnotes⟩ := h.acknowledged hd
    obtain ⟨gs, hgs⟩ := h.record
    obtain ⟨⟨hconn, -, hrecord⟩, -⟩ := foldl_notifications header n c gs hgs
      (by unfold firstUnsent at hlt; omega)
    rw [← hnotes] at hconn hrecord
    change (c.notified header) = _ at hconn
    change ∃ gs, (c.notified header).record.Groups _ _ gs at hrecord
    obtain ⟨hout, hacks⟩ := c.notifyUpdated_fields header
    obtain ⟨hin, hsame⟩ := notifyUpdated_inSeq hd h.inSeq
    rw [hack] at hacks
    have hid : (c.notified header).inPacketId = c.inPacketId := by rw [hconn]
    have hlast : (c.notified header).lastNotifiedSendPacketId = c.lastNotifiedSendPacketId + n := by rw [hconn]
    have hnext : (c.notified header).outPacketId = c.outPacketId := by rw [hconn]
    have hqueue : (c.notified header).outPacketQueue = c.outPacketQueue := by rw [hconn]
    have hhandler : (c.notified header).handler = c.handler := by rw [hconn]
    rw [← hlast] at hacks hlt hrecord
    rw [← hnext] at hrecord
    have hfirst : (c.notified header).firstUnsent = c.firstUnsent := by
      unfold firstUnsent
      rw [hnext, hqueue]
    rw [← hfirst] at hlt
    cases hw : (c.notifyUpdated header).1.isWaitingForSequenceHistoryFlush with
    | true =>
      rw [receivedHeader_of_waiting hd hw]
      refine ⟨hhandler.trans h.handler, ?_, hacks, ?_, hlt, ?_, hrecord⟩
      · exact hout.trans (h.outSeq.trans (congrArg Seq.ofInt hfirst.symm))
      · show (c.notifyUpdated header).1.inSeq = Seq.ofInt ((c.notified header).inPacketId + (c.notifyUpdated header).2)
        rw [hid]; exact hin
      · show (c.notified header).outPacketQueue.map _ = (List.range (c.notified header).outPacketQueue.length).map
          fun k : ℕ => (c.notified header).firstUnsent + k
        rw [hqueue, hfirst]; exact h.queue
    | false =>
      rw [receivedHeader_of_accepted hd hw]
      refine ⟨hhandler.trans h.handler, ?_, hacks, ?_, hlt, ?_, hrecord⟩
      · exact hout.trans (h.outSeq.trans (congrArg Seq.ofInt hfirst.symm))
      · show (c.notifyUpdated header).1.inSeq =
          Seq.ofInt ((c.notified header).inPacketId + c.packetNotify.getSequenceDelta header)
        rw [hid, ← hsame hw]; exact hin
      · show (c.notified header).outPacketQueue.map _ = (List.range (c.notified header).outPacketQueue.length).map
          fun k : ℕ => (c.notified header).firstUnsent + k
        rw [hqueue, hfirst]; exact h.queue
  · rw [receivedHeader_of_not_pos hd]
    exact ⟨h.handler, h.outSeq, h.outAckSeq, h.inSeq, h.lt, h.queue, h.record⟩

theorem SendSync.receivedPacket (h : c.SendSync) (reader : RecvPacketReader) :
    (c.receivedPacket reader).SendSync := by
  rcases c.receivedPacket_cases reader with heq | ⟨header, r, heq⟩
  · rw [heq]
    exact h
  · rw [heq]
    exact h.receivedHeader header r

theorem SendSync.channels (h : c.SendSync) (cs : List (Option NetChannel)) : SendSync { c with channels := cs } :=
  ⟨h.handler, h.outSeq, h.outAckSeq, h.inSeq, h.lt, h.queue, h.record⟩

theorem SendSync.dispatchPendingPacket (h : c.SendSync) : c.dispatchPendingPacket.SendSync := by
  have hd := c.dispatchPendingPacket_dispatched.1
  generalize c.dispatchPendingPacket = c' at hd
  rw [hd]
  exact ⟨h.handler, h.outSeq, h.outAckSeq, h.inSeq, h.lt, h.queue, h.record⟩

/-! ## The runs -/

inductive ConnectionAction
  | assemble (keepAliveDue : Bool)
  | flush (nowUs : ℕ)
  | receive (reader : RecvPacketReader)
  | dispatch
  | channels (cs : List (Option NetChannel))

/-- A connection from `start` on, with any datagrams coming in and the channels changed at will in between. -/
def connectionSystem (start : NetConnection → Prop) : System NetConnection ConnectionAction where
  init := start
  next c
    | .assemble keepAliveDue => c.assembleOutgoingPackets keepAliveDue
    | .flush nowUs => (c.flushPacket nowUs).2
    | .receive reader => c.receivedPacket reader
    | .dispatch => c.dispatchPendingPacket
    | .channels cs => { c with channels := cs }

/-- The connection is not closed and fewer than a half range of packets are not notified. -/
def InWindow (c : NetConnection) : Prop := c.state ≠ .closed ∧ c.unNotified < 2 ^ 13

/-- What the bookkeeping is for: packets are sent under the sequence number of their id, and every notification
finds its packet. -/
structure InStep (c : NetConnection) : Prop where
  sent : ∀ nowUs packet c' payload, c.flushPacket nowUs = (some packet, c') →
    (peerReads (packet.header.take packetHeaderSize ++ payload)).2.2.seq = Seq.ofInt packet.outPacketId
  outAckSeq : c.packetNotify.outAckSeq = Seq.ofInt c.lastNotifiedSendPacketId
  inSeq : c.packetNotify.inSeq = Seq.ofInt c.inPacketId
  notified : ∀ header, 0 < c.packetNotify.getSequenceDelta header → ∀ k e,
    (c.packetNotify.notifications header)[k]? = some e →
      Consumes (((c.packetNotify.notifications header).take k).foldl (fun c e => c.handlePacketNotification e.1 e.2) c) e.1

theorem SendSync.head_outPacketId (h : c.SendSync) {first : OutReadyPacket} {rest : List OutReadyPacket}
    (hq : c.outPacketQueue = first :: rest) : first.outPacketId = c.firstUnsent := by
  have hqueue := h.queue
  rw [hq, List.length_cons, List.range_succ_eq_map, List.map_cons, List.map_cons] at hqueue
  have hid := (List.cons.inj hqueue).1
  rw [Nat.cast_zero, Int.add_zero] at hid
  exact hid

theorem SendSync.inStep (h : c.SendSync) : c.InStep := by
  refine ⟨?_, h.outAckSeq, h.inSeq, ?_⟩
  · intro nowUs packet c' payload hflush
    cases hq : c.outPacketQueue with
    | nil =>
      rw [flushPacket_nil hq] at hflush
      cases hflush
    | cons first rest =>
      rw [flushPacket_cons hq h.handler] at hflush
      obtain ⟨hpacket, -⟩ := Prod.mk.inj hflush
      obtain rfl := Option.some.inj hpacket
      obtain ⟨-, -, hseq, -⟩ := peerReads_wire c.packetNotify first nowUs payload
      rw [wireHeader] at hseq
      rw [hseq, h.outSeq, builtHeader_outPacketId, h.head_outPacketId hq]
  · intro header hd k e he
    obtain ⟨n, hlt, -, hnotes⟩ := h.acknowledged hd
    obtain ⟨gs, hgs⟩ := h.record
    obtain ⟨-, hall⟩ := foldl_notifications header n c gs hgs (by unfold firstUnsent at hlt; omega)
    rw [hnotes] at he ⊢
    exact hall k e he

end NetConnection

end RudpEngine

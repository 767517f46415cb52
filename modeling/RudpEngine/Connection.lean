import RudpEngine.Channel
import RudpEngine.ChannelRecord
import RudpEngine.Processor

/-!
# Connections

`NetConnection` without its sockets: assembling bunches into packets, writing
the header of a packet when it is flushed, taking in a datagram's header and
dispatching the payloads that wait. Telemetry and round-trip times are left
out; `released` is the log of the message buffers given back.
-/

namespace RudpEngine

inductive EConnectionState
  | invalid
  | closed
  | pending
  | open
  deriving DecidableEq

def maxChSequence : ℕ := 1024

structure NetConnection where
  isServer : Bool
  handler : UdpConnectionProcessor
  initInReliable : ℕ
  initOutReliable : ℕ
  channels : List (Option NetChannel)
  outPacketQueue : List OutReadyPacket
  packetNotify : NetPacketNotify
  pendingDispatchPacketReaders : List RecvPacketReader
  record : ConnectionChannelRecord
  state : EConnectionState
  hasDirtyAcks : ℕ
  inPacketId : ℤ
  outPacketId : ℤ
  outAckPacketId : ℤ
  lastNotifiedSendPacketId : ℤ
  released : List NetMessage

namespace NetConnection

/-- `NetConnection()` and `InitBase`, with the number of channels of the driver. -/
def new (isServer : Bool) (maxChannelsSize : ℕ) (state : EConnectionState) : NetConnection where
  isServer := isServer
  handler := {}
  initInReliable := 0
  initOutReliable := 0
  channels := List.replicate maxChannelsSize none
  outPacketQueue := []
  packetNotify := NetPacketNotify.new.init (Seq.ofInt (-1)) (Seq.ofInt 0)
  pendingDispatchPacketReaders := []
  record := ConnectionChannelRecord.new
  state := state
  hasDirtyAcks := 0
  inPacketId := -1
  outPacketId := 0
  outAckPacketId := 0
  lastNotifiedSendPacketId := -1
  released := []

variable (c : NetConnection)

def channel? (index : ℕ) : Option NetChannel := (c.channels[index]?).join

def setChannel (index : ℕ) (ch : NetChannel) : NetConnection := { c with channels := c.channels.set index (some ch) }

def modifyChannel (index : ℕ) (f : NetChannel → NetChannel) : NetConnection :=
  { c with channels := c.channels.modify index (Option.map f) }

def mapChannels (f : NetChannel → NetChannel) : NetConnection := { c with channels := c.channels.map (Option.map f) }

section
variable {c}

theorem lt_of_channel? {i : ℕ} {ch : NetChannel} (h : c.channel? i = some ch) : i < c.channels.length := by
  by_contra hlt
  rw [channel?, List.getElem?_eq_none (Nat.le_of_not_lt hlt)] at h
  simp at h

theorem channel?_setChannel {i : ℕ} (hi : i < c.channels.length) (ch : NetChannel) (j : ℕ) :
    (c.setChannel i ch).channel? j = if j = i then some ch else c.channel? j := by
  rw [channel?, setChannel, List.getElem?_set]
  by_cases hj : j = i
  · subst hj; simp [hi]
  · rw [if_neg (Ne.symm hj), if_neg hj]; rfl

@[simp] theorem length_setChannel (i : ℕ) (ch : NetChannel) : (c.setChannel i ch).channels.length = c.channels.length :=
  List.length_set

theorem channel?_modifyChannel (i : ℕ) (f : NetChannel → NetChannel) (j : ℕ) :
    (c.modifyChannel i f).channel? j = if j = i then (c.channel? j).map f else c.channel? j := by
  rw [channel?, modifyChannel, List.getElem?_modify]
  by_cases hj : j = i
  · subst hj
    rw [if_pos rfl, channel?]
    rcases c.channels[j]? with _ | (_ | ch) <;> simp
  · rw [if_neg hj, channel?]
    simp [Ne.symm hj]

theorem of_channel?_modifyChannel {c : NetConnection} {i j : ℕ} {f : NetChannel → NetChannel} {ch : NetChannel}
    (h : (c.modifyChannel i f).channel? j = some ch) :
    (∃ ch₀, j = i ∧ c.channel? j = some ch₀ ∧ f ch₀ = ch) ∨ j ≠ i ∧ c.channel? j = some ch := by
  rw [channel?_modifyChannel] at h
  by_cases hji : j = i
  · rw [if_pos hji] at h
    obtain ⟨ch₀, hch₀, hf⟩ := Option.map_eq_some_iff.mp h
    exact .inl ⟨ch₀, hji, hch₀, hf⟩
  · rw [if_neg hji] at h
    exact .inr ⟨hji, h⟩

@[simp] theorem channel?_mapChannels (f : NetChannel → NetChannel) (j : ℕ) :
    (c.mapChannels f).channel? j = (c.channel? j).map f := by
  rw [channel?, mapChannels, List.getElem?_map, channel?]
  rcases c.channels[j]? with _ | (_ | ch) <;> rfl

end

def close : NetConnection := { c with state := .closed }

/-- `GameNetConnection::CreateChannelByName` for the channels that exist, `Control` and `Actor`. -/
def createChannelByName (index : ℕ) : NetConnection :=
  c.setChannel index (NetChannel.init index c.initInReliable c.initOutReliable)

def createInitialChannels : NetConnection := (c.createChannelByName 0).createChannelByName 1

def initSequence (incomingSequence outgoingSequence : ℤ) : Bool × NetConnection :=
  if c.inPacketId = -1 then
    let inPacketId := incomingSequence - 1
    let initInReliable := (incomingSequence % maxChSequence).toNat
    let initOutReliable := (outgoingSequence % maxChSequence).toNat
    let c := { c with
      inPacketId := inPacketId
      outPacketId := outgoingSequence
      outAckPacketId := outgoingSequence - 1
      lastNotifiedSendPacketId := outgoingSequence - 1
      initInReliable := initInReliable
      initOutReliable := initOutReliable
      pendingDispatchPacketReaders := []
      record := { c.record with entryRecord := [] }
      packetNotify := c.packetNotify.init (Seq.ofInt inPacketId) (Seq.ofInt outgoingSequence) }
    (true, c.mapChannels fun ch => ch.updateChannelSeq initInReliable initOutReliable)
  else (false, c)

/-! ## Assembling packets -/

def isRequireAssembleBunch : Bool :=
  c.channels.any fun
    | some ch => ch.bOpen && ch.hasReadyBunch
    | none => false

def keepAlive : NetConnection :=
  let packet := { ConnectionPacketBuilder.buildStart with outPacketId := c.outPacketId }
  { c with
    record := c.record.pushPacketId c.outPacketId
    outPacketId := c.outPacketId + 1
    outPacketQueue := c.outPacketQueue ++ [packet.packetSealed] }

/-- The locals of `AssembleOutgoingPackets` next to the connection; `overflow` is its early return. -/
structure Assembling where
  conn : NetConnection
  packet : Option OutReadyPacket
  readyPackets : List OutReadyPacket
  overflow : Bool

namespace Assembling

variable (a : Assembling)

def createNewPacket : OutReadyPacket × Assembling :=
  ({ ConnectionPacketBuilder.buildStart with outPacketId := a.conn.outPacketId },
    { a with conn := { a.conn with record := a.conn.record.pushPacketId a.conn.outPacketId } })

def finish (packet : OutReadyPacket) : Assembling :=
  { a with
    conn := { a.conn with outPacketId := a.conn.outPacketId + 1 }
    readyPackets := a.readyPackets ++ [packet.packetSealed] }

def packetFor (requireSize : ℕ) : OutReadyPacket × Assembling :=
  let (packet, a) := match a.packet with
    | none => a.createNewPacket
    | some packet => (packet, a)
  if ConnectionPacketBuilder.packetMaxSize < (packet.totalSize + requireSize) % 2 ^ 32 then
    (a.finish packet).createNewPacket
  else (packet, a)

/-- The body of the loop over one channel's queue, for a bunch taken from it. -/
def placeBunch (index : ℕ) (bunch : OutReadyBunch) : Assembling :=
  if ChannelBunchBuilder.isHeaderOnlyBunch bunch || decide (ConnectionPacketBuilder.packetMaxSize < bunch.totalSize) then
    { a with conn := { a.conn with released := a.conn.released ++ ChannelBunchBuilder.discardOutReadyBunch bunch } }
  else
    let (packet, a) := a.packetFor bunch.totalSize
    let chIndex := ((a.conn.channel? index).map NetChannel.chIndex).getD 0
    let a := { a with conn := { a.conn with record := a.conn.record.pushChannelRecord packet.outPacketId chIndex } }
    match (a.conn.channel? index).bind fun ch => ch.addUnAckedOutBunch packet.outPacketId bunch with
    | none => { a with conn := a.conn.close, overflow := true }
    | some ch =>
      { a with
        conn := a.conn.setChannel index ch
        packet := some (ConnectionPacketBuilder.append packet bunch).2 }

/-- The loop over one channel's queue, and whether it took a bunch. -/
def drainChannel (index : ℕ) : ℕ → Assembling → Bool × Assembling
  | 0, a => (false, a)
  | fuel + 1, a =>
    if a.overflow then (true, a)
    else
      match (a.conn.channel? index).bind NetChannel.dequeueReadyBunch with
      | none => (false, a)
      | some (bunch, ch) =>
        (true, (drainChannel index fuel ({ a with conn := a.conn.setChannel index ch }.placeBunch index bunch)).2)

def queueLength (index : ℕ) : ℕ := ((a.conn.channel? index).map fun ch => ch.outBunchQueue.length).getD 0

/-- One round of the loop over the channels, and whether there has been progress so far. -/
def passStep (rr chCount : ℕ) (s : Bool × Assembling) (i : ℕ) : Bool × Assembling :=
  let index := (rr + i) % chCount
  let (progress, a) := drainChannel index (s.2.queueLength index + 1) s.2
  (s.1 || progress, a)

def pass (rr : ℕ) : Bool × Assembling :=
  (List.range a.conn.channels.length).foldl (passStep rr a.conn.channels.length) (false, a)

/-- The loop over the passes; every pass but the last takes a bunch. -/
def passes : ℕ → ℕ → Assembling → Assembling
  | 0, _, a => a
  | fuel + 1, rr, a =>
    let (progress, a) := a.pass rr
    if progress && !a.overflow then passes fuel ((rr + 1) % max 1 a.conn.channels.length) a else a

end Assembling

def Assembling.confirm (a : Assembling) : Assembling :=
  match a.packet with
  | some packet => if packet.bunchs.isEmpty then a else a.finish packet
  | none => a

def assembling : Assembling :=
  let queued := ((List.range c.channels.length).map (Assembling.mk c none [] false).queueLength).sum
  Assembling.passes (queued + 1) 0 ⟨c, none, [], false⟩

/-- `AssembleOutgoingPackets`; `keepAliveDue` says that nothing was sent for the keep-alive time. -/
def assembleOutgoingPackets (keepAliveDue : Bool) : NetConnection :=
  if !c.isRequireAssembleBunch then (if keepAliveDue then c.keepAlive else c)
  else
    let a := c.assembling
    if a.overflow then a.conn
    else { a.confirm.conn with outPacketQueue := a.confirm.conn.outPacketQueue ++ a.confirm.readyPackets }

/-! ## Flushing -/

def tryDequeuePacket : Option (OutReadyPacket × NetConnection) :=
  match c.outPacketQueue with
  | [] => none
  | packet :: rest => some (packet, { c with outPacketQueue := rest })

/-- `UpdatePacketHeader`: the header is written now, with the newest acks. -/
def updatePacketHeader (packet : OutReadyPacket) (nowUs : ℕ) : OutReadyPacket × NetConnection :=
  let (packet, notify) := ConnectionPacketBuilder.buildEnd packet (writeHeaderCallback c.handler) nowUs c.packetNotify
  (packet, { c with packetNotify := notify.commitAndIncrementOutSeq })

/-- One round of the loop of `TickFlush`: the packet that is sent, if there is one. -/
def flushPacket (nowUs : ℕ) : Option OutReadyPacket × NetConnection :=
  match c.tryDequeuePacket with
  | none => (none, c)
  | some (packet, c) =>
    let (packet, c) := c.updatePacketHeader packet nowUs
    (some packet, c)

/-! ## Notifications -/

def recivedAck (ackMarkPacketId : ℤ) : NetConnection :=
  let c := { c with outAckPacketId := ackMarkPacketId }
  let acked (c : NetConnection) (ackedId : ℤ) (channelIndex : ℕ) := c.modifyChannel channelIndex fun ch => ch.acked ackedId
  let (ok, record, c) := c.record.consumeChannelRecordsForPacket acked ackMarkPacketId c
  let c := { c with record := record }
  if ok then c else c.close

def recivedNack (nakMarkPacketId : ℤ) : NetConnection :=
  let nacked (c : NetConnection) (nackedId : ℤ) (channelIndex : ℕ) :=
    c.modifyChannel channelIndex fun ch => ch.nacked nackedId
  let (ok, record, c) := c.record.consumeChannelRecordsForPacket nacked nakMarkPacketId c
  let c := { c with record := record }
  if ok then c else c.close

/-- The functor of `ReceivedPacket`: notifications come in the order of the packet ids. -/
def handlePacketNotification (ackedSequence : Seq) (bDelivered : Bool) : NetConnection :=
  let c := { c with lastNotifiedSendPacketId := c.lastNotifiedSendPacketId + 1 }
  if Seq.ofInt c.lastNotifiedSendPacketId ≠ ackedSequence then c
  else if bDelivered then c.recivedAck c.lastNotifiedSendPacketId
  else c.recivedNack c.lastNotifiedSendPacketId

/-! ## Receiving -/

def receivedHeader (header : NotificationHeader) (reader : RecvPacketReader) : NetConnection :=
  let packetSequenceDelta := c.packetNotify.getSequenceDelta header
  if 0 < packetSequenceDelta then
    let (notify, updatedPacketSequenceDelta, c) := c.packetNotify.update handlePacketNotification header c
    let c := { c with packetNotify := notify }
    if notify.isWaitingForSequenceHistoryFlush then
      let c := { c with hasDirtyAcks := c.hasDirtyAcks + 1 }.mapChannels NetChannel.forceRetransmitAllUnAcked
      { c with inPacketId := c.inPacketId + updatedPacketSequenceDelta }
    else
      { c with
        inPacketId := c.inPacketId + packetSequenceDelta
        pendingDispatchPacketReaders := c.pendingDispatchPacketReaders ++ [reader] }
  else { c with pendingDispatchPacketReaders := c.pendingDispatchPacketReaders ++ [reader] }

def receivedPacket (reader : RecvPacketReader) : NetConnection :=
  let (ok, header, buffer) := NetPacketNotify.readHeader reader.header
  if ok then c.receivedHeader header { reader with header := buffer } else c

def bestSignedDifference (value reference max : ℤ) : ℤ := (value - reference + max / 2) % max - max / 2

def makeRelative (value reference max : ℤ) : ℤ := reference + bestSignedDifference value reference max

/-- The bunch header as `DispatchPacket` reads it, behind its size byte. -/
structure InBunchHeader where
  bControl : Bool
  bOpen : Bool
  bClose : Bool
  bReliable : Bool
  chIndex : ℕ
  chSequence : ℕ
  messageCount : ℕ
  bunchPayload : ℕ
  deriving DecidableEq

def readBunchHeader (view : List Byte) : InBunchHeader :=
  let header := BitReader.ofBytes view (view.length * 8)
  let (channelFlags, header) := header.readUInt 1
  let (chIndex, header) := header.readUInt 1
  let (chSequence, header) := header.readUInt 4
  let (messageCount, header) := header.readUInt 1
  let (bunchPayload, _) := header.readUInt 2
  ⟨channelFlags.testBit 0, channelFlags.testBit 1, channelFlags.testBit 2, channelFlags.testBit 3, chIndex, chSequence,
    messageCount, bunchPayload⟩

/-- The channel of a bunch; `CreateChannelByName` makes a missing one for a bunch with a name, which
is one of channel `0` or `1` that is reliable or opens the channel. -/
def findOrCreateChannel (header : InBunchHeader) : NetConnection :=
  match c.channel? header.chIndex with
  | some _ => c
  | none =>
    if (header.bReliable || header.bOpen) && decide (header.chIndex ≤ 1) then c.createChannelByName header.chIndex
    else c

def bunchSequence (header : InBunchHeader) (ch : NetChannel) : ℕ :=
  if header.bReliable then (makeRelative header.chSequence ch.inReliable maxChSequence % 2 ^ 32).toNat
  else header.chSequence

/-- A bunch that was read, given to its channel: kept for later if it is out of order, dispatched if
not; only channels `0` and `1` dispatch. -/
def takeBunch (header : InBunchHeader) (view : List Byte) (ch : NetChannel) : Option NetChannel :=
  let chSequence := bunchSequence header ch
  if header.bReliable && chSequence ≠ (ch.inReliable + 1) % 2 ^ 32 then
    some (ch.addUnreadInCopyBunch chSequence ⟨view, chSequence, header.messageCount⟩)
  else if ch.chIndex ≤ 1 then some (ch.dispatchRawBunch view header.messageCount)
  else none

/-- One round of the loop of `DispatchPacket`, before the rounds `next`: the connection and
`bOutHasBunchErrors`. A channel number is an `int8_t`. -/
def dispatchRound (next : BufferReader → NetConnection → NetConnection × Bool) (packetReader : BufferReader)
    (c : NetConnection) : NetConnection × Bool :=
  if !packetReader.canRead 1 || c.state = .closed then (c, false)
  else
    let (bunchHeaderByteSize, packetReader) := packetReader.read 1
    if bunchHeaderByteSize.getD 0 < 10 then (c, true)
    else
      let (bunchHeaderView, packetReader) := packetReader.readView (bunchHeaderByteSize.getD 0 - 1)
      if bunchHeaderView.isEmpty then (c, true)
      else
        let header := readBunchHeader bunchHeaderView
        if 128 ≤ header.chIndex ∨ c.channels.length ≤ header.chIndex then (c, true)
        else
          let c := c.findOrCreateChannel header
          match c.channel? header.chIndex with
          | none => (c, true)
          | some ch =>
            let (view, packetReader) := packetReader.readView header.bunchPayload
            match takeBunch header view ch with
            | some ch => next packetReader (c.setChannel header.chIndex ch)
            | none => if c.isServer then (c, true) else ((next packetReader c).1, true)

/-- The loop of `DispatchPacket`, with the number of payload bytes as its bound. -/
def dispatchLoop : ℕ → BufferReader → NetConnection → NetConnection × Bool
  | 0, _, c => (c, false)
  | fuel + 1, packetReader, c => dispatchRound (dispatchLoop fuel) packetReader c

/-- `DispatchPacket`; nothing in it sets `bOutSkipAck`. -/
def dispatchPacket (reader : RecvPacketReader) : NetConnection × Bool × Bool :=
  let (c, bHasBunchErrors) := dispatchLoop reader.payload.length ⟨reader.payload, false⟩ c
  (c, false, bHasBunchErrors)

/-- One round of `DispatchPendingPacket`: the payload, then its ack. -/
def dispatchReader (reader : RecvPacketReader) : NetConnection :=
  let (c, bSkipAck, _) := c.dispatchPacket reader
  let notify :=
    if bSkipAck then c.packetNotify.nakSeq (Seq.ofInt c.inPacketId)
    else c.packetNotify.ackSeq (Seq.ofInt c.inPacketId)
  { c with packetNotify := notify }

def dispatchPendingPacket : NetConnection :=
  c.pendingDispatchPacketReaders.foldl dispatchReader { c with pendingDispatchPacketReaders := [] }

end NetConnection

end RudpEngine

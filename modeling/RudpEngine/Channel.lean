import Mathlib.Data.Int.Order.Basic
import RudpEngine.BunchBuilder
import RudpEngine.Packet
import RudpEngine.SortedMap

/-!
# Channels

`NetChannel`: the bunches waiting to be sent, the bunches sent and not yet
acknowledged by packet id, and the bunches received out of order by channel
sequence number.
-/

namespace RudpEngine

/-- `InBunchReader`: a copy of a bunch that came out of order. -/
structure InBunchReader where
  buffer : List Byte
  chSequence : ℕ
  messageCount : ℕ
  deriving DecidableEq

/-- `RecvMessageReader`; the owner only keeps the bytes alive. -/
structure RecvMessageReader where
  view : List Byte
  messageId : ℕ
  deriving DecidableEq

/-- `NetChannel`. `receivedMessages` is the log of the calls of `ReceivedMessage`; a packet id is
nonnegative, so the `uint32_t` keys of `OutUnAckedBunches` are the ids. -/
structure NetChannel where
  chIndex : ℕ
  bControl : Bool
  bOpen : Bool
  bClose : Bool
  bReliable : Bool
  inReliable : ℕ
  outReliable : ℕ
  bunchBuilder : ChannelBunchBuilder
  outBunchQueue : List OutReadyBunch
  outUnAckedBunches : SortedMap ℤ (List OutReadyBunch)
  inUnreadBunchMap : SortedMap ℕ InBunchReader
  receivedMessages : List RecvMessageReader

namespace NetChannel

def reliableBuffer : ℕ := 512

/-- The policy `ControlChannel::Init` and `ActorChannel::Init` set. -/
def channelPolicy : BunchPolicy := { maxPacketBytes := 1200, packetHeaderBytes := 16, bunchHeaderBytes := 8, maxCoalesceUs := 2000 }

/-- `Init` of a new channel, the same for `ControlChannel` and `ActorChannel`. -/
def init (chIndex inReliable outReliable : ℕ) : NetChannel where
  chIndex := chIndex
  bControl := true
  bOpen := true
  bClose := false
  bReliable := true
  inReliable := inReliable
  outReliable := outReliable
  bunchBuilder := ChannelBunchBuilder.new chIndex true true false true channelPolicy
  outBunchQueue := []
  outUnAckedBunches := .empty
  inUnreadBunchMap := .empty
  receivedMessages := []

variable (ch : NetChannel)

/-! ## Sending -/

def registerMessage (m : NetMessage) : NetChannel := { ch with bunchBuilder := ch.bunchBuilder.submit m }

def hasReadyBunch : Bool := !ch.outBunchQueue.isEmpty

def dequeueReadyBunch : Option (OutReadyBunch × NetChannel) :=
  match ch.outBunchQueue with
  | [] => none
  | bunch :: rest => some (bunch, { ch with outBunchQueue := rest })

/-- `AddUnAckedOutBunch`; where it is `none` the connection is closed. -/
def addUnAckedOutBunch (outPacketId : ℤ) (bunch : OutReadyBunch) : Option NetChannel :=
  if reliableBuffer ≤ ch.outUnAckedBunches.size then none
  else
    some { ch with
      outUnAckedBunches :=
        ch.outUnAckedBunches.insert outPacketId ((ch.outUnAckedBunches.find? outPacketId).getD [] ++ [bunch]) }

def acked (ackPacketId : ℤ) : NetChannel := { ch with outUnAckedBunches := ch.outUnAckedBunches.erase ackPacketId }

/-- `Nacked`: the bunches of the packet go back to the front of the queue, in their order. -/
def nacked (nackPacketId : ℤ) : NetChannel :=
  { ch with
    outBunchQueue := ((ch.outUnAckedBunches.find? nackPacketId).getD []).foldr List.cons ch.outBunchQueue
    outUnAckedBunches := ch.outUnAckedBunches.erase nackPacketId }

def forceRetransmitAllUnAcked : NetChannel :=
  { ch with
    outBunchQueue := ch.outUnAckedBunches.entries.foldr (fun e queue => e.2.foldr List.cons queue) ch.outBunchQueue
    outUnAckedBunches := .empty }

/-- The loop of `TickFlush`, with the number of bunches ready as its bound. -/
def flushReady : ℕ → NetChannel → NetChannel
  | 0, ch => ch
  | n + 1, ch =>
    match ch.bunchBuilder.tryDequeueReady with
    | none => ch
    | some (bunch, builder) =>
      flushReady n { ch with bunchBuilder := builder, outBunchQueue := ch.outBunchQueue ++ [bunch] }

def pumpBunch (nowUs : ℕ → ℕ) (batchLimit : ℕ) (flushTail : Bool) : NetChannel :=
  let (builder, outReliable) := ch.bunchBuilder.pump nowUs batchLimit flushTail ch.outReliable
  { ch with bunchBuilder := builder, outReliable := outReliable }

def tickFlush (nowUs : ℕ → ℕ) : NetChannel :=
  let ch := ch.pumpBunch nowUs 256 true
  flushReady ch.bunchBuilder.queuedOutBunch.length ch

def updateChannelSeq (inReliable outReliable : ℕ) : NetChannel :=
  { ch with
    inReliable := inReliable
    outReliable := outReliable
    outBunchQueue := []
    outUnAckedBunches := .empty
    inUnreadBunchMap := .empty }

/-! ## Receiving -/

def addUnreadInCopyBunch (chSequence : ℕ) (copyBunch : InBunchReader) : NetChannel :=
  match ch.inUnreadBunchMap.find? chSequence with
  | some _ => ch
  | none => { ch with inUnreadBunchMap := ch.inUnreadBunchMap.insert chSequence copyBunch }

/-- `DispatchRawBunch_Interanl`: the messages handed on, and whether all could be read. A size below
the four bytes of the message header wraps. -/
def readMessages : ℕ → BufferReader → Bool × List RecvMessageReader
  | 0, _ => (true, [])
  | n + 1, r =>
    if !r.canRead 4 then (false, [])
    else
      let (header, r) := r.read 4
      let size := header.getD 0 % 2 ^ 16
      let payloadSize := (size + 2 ^ 16 - 4) % 2 ^ 16
      if !r.canRead payloadSize then (false, [])
      else
        let (view, r) := r.readView payloadSize
        let (ok, messages) := readMessages n r
        (ok, ⟨view, header.getD 0 / 2 ^ 16⟩ :: messages)

def takeBunch (view : List Byte) (messageCount : ℕ) : Bool × NetChannel :=
  let (ok, messages) := readMessages messageCount ⟨view, false⟩
  (ok, { ch with
    receivedMessages := ch.receivedMessages ++ messages
    inReliable := if ok then (ch.inReliable + 1) % 2 ^ 32 else ch.inReliable })

/-- The loop of `DispatchRawBunch` over the bunches kept for later; every round removes one. -/
def drain : ℕ → NetChannel → NetChannel
  | 0, ch => ch
  | fuel + 1, ch =>
    match ch.inUnreadBunchMap.begin? with
    | none => ch
    | some (key, bunch) =>
      if ch.bReliable && key == (ch.inReliable + 1) % 2 ^ 32 then
        let (ok, next) := ch.takeBunch bunch.buffer bunch.messageCount
        let next := { next with inUnreadBunchMap := ch.inUnreadBunchMap.erase key }
        if ok then drain fuel next else next
      else ch

def dispatchRawBunch (view : List Byte) (messageCount : ℕ) : NetChannel :=
  let (_, ch) := ch.takeBunch view messageCount
  drain ch.inUnreadBunchMap.size ch

end NetChannel

end RudpEngine

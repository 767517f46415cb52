import RudpEngine.Bunch

/-!
# The bunch builder

`ChannelBunchBuilder` packs the messages submitted on a channel into bunches.
Sealing a bunch takes the next channel sequence number from its owner, so the
functions that can seal carry the owner's `OutReliable` along.
-/

namespace RudpEngine

structure BunchPolicy where
  maxPacketBytes : ℕ := 1024
  packetHeaderBytes : ℕ := 16
  bunchHeaderBytes : ℕ := 8
  maxMsgsPerBunch : ℕ := 255
  maxCoalesceUs : ℕ := 2000
  deriving DecidableEq

structure ChannelBunchBuilder where
  activeMsgs : List NetMessage
  activePayload : ℕ
  activeHasInit : Bool
  chIndex : ℕ
  bControl : Bool
  bOpen : Bool
  bClose : Bool
  bReliable : Bool
  policy : BunchPolicy
  maxBunchPayload : ℕ
  queuedMessage : List NetMessage
  queuedOutBunch : List OutReadyBunch
  lastEmitUs : ℕ
  deriving DecidableEq

namespace ChannelBunchBuilder

def new (chIndex : ℕ) (bControl bOpen bClose bReliable : Bool) (policy : BunchPolicy) : ChannelBunchBuilder where
  activeMsgs := []
  activePayload := 0
  activeHasInit := false
  chIndex := chIndex
  bControl := bControl
  bOpen := bOpen
  bClose := bClose
  bReliable := bReliable
  policy := policy
  maxBunchPayload :=
    (((policy.maxPacketBytes : ℤ) - policy.packetHeaderBytes - policy.bunchHeaderBytes) % 2 ^ 32).toNat
  queuedMessage := []
  queuedOutBunch := []
  lastEmitUs := 0

variable (b : ChannelBunchBuilder)

def submit (m : NetMessage) : ChannelBunchBuilder := { b with queuedMessage := b.queuedMessage ++ [m] }

def empty : Bool := b.activeMsgs.isEmpty

def isFull : Bool := decide (b.policy.maxMsgsPerBunch ≤ b.activeMsgs.length) || decide (b.maxBunchPayload ≤ b.activePayload)

def resetActive (nowUs : ℕ) : ChannelBunchBuilder :=
  { b with activeMsgs := [], activePayload := 0, activeHasInit := true, lastEmitUs := nowUs }

/-- `TryInsert`; the payload is summed in a `uint32_t`. -/
def tryInsert (m : NetMessage) : Bool × ChannelBunchBuilder :=
  if b.policy.maxMsgsPerBunch ≤ b.activeMsgs.length then (false, b)
  else if b.maxBunchPayload < (b.activePayload + m.size) % 2 ^ 32 then (false, b)
  else
    (true, { b with
      activeMsgs := b.activeMsgs ++ [m]
      activePayload := (b.activePayload + m.size) % 2 ^ 32 })

def headerField (chSequence : ℕ) : BunchHeaderFields where
  bControl := b.bControl
  bOpen := b.bOpen
  bClose := b.bClose
  bReliable := b.bReliable
  chIndex := b.chIndex
  chSequence := chSequence
  messageCount := b.activeMsgs.length % 2 ^ 8
  payloadSize := b.activePayload % 2 ^ 16

def sealed (chSequence : ℕ) : OutReadyBunch :=
  let header := BunchHeader.encode (b.headerField chSequence)
  { headerBytes := header.1.take header.2
    headerSize := header.2
    messages := b.activeMsgs
    payloadBytes := b.activePayload
    totalSize := (b.activePayload + header.2) % 2 ^ 32
    chIndex := b.chIndex }

/-- `SealAndPush`, with the owner's `OutReliable`. -/
def sealAndPush (outReliable : ℕ) : ChannelBunchBuilder × ℕ :=
  let outReliable := (outReliable + 1) % 2 ^ 32
  ({ b with queuedOutBunch := b.queuedOutBunch ++ [b.sealed outReliable], activeMsgs := [] }, outReliable)

/-- `SealAndPush` and the `ResetActive` that follows it everywhere. -/
def sealAndReset (nowUs outReliable : ℕ) : ChannelBunchBuilder × ℕ :=
  let (b, outReliable) := b.sealAndPush outReliable
  (b.resetActive nowUs, outReliable)

/-- One round of the loop of `Pump`; a message that does not fit seals the bunch and is
inserted into the next one. -/
def pumpMessage (nowUs : ℕ) (m : NetMessage) (outReliable : ℕ) : ChannelBunchBuilder × ℕ :=
  let (inserted, b) := b.tryInsert m
  let (b, outReliable) :=
    if inserted then (b, outReliable)
    else
      let (b, outReliable) := b.sealAndReset nowUs outReliable
      ((b.tryInsert m).2, outReliable)
  if b.isFull then b.sealAndReset nowUs outReliable else (b, outReliable)

/-- The loop of `Pump`, for at most the given number of messages; `nowUs` is the clock round by round. -/
def pumpLoop (nowUs : ℕ → ℕ) : ℕ → ℕ → ChannelBunchBuilder → ℕ → ChannelBunchBuilder × ℕ
  | 0, _, b, outReliable => (b, outReliable)
  | left + 1, taken, b, outReliable =>
    match b.queuedMessage with
    | [] => (b, outReliable)
    | m :: rest =>
      let (b, outReliable) := { b with queuedMessage := rest }.pumpMessage (nowUs taken) m outReliable
      pumpLoop nowUs left (taken + 1) b outReliable

/-- The coalescing delay is over; the clock difference is one of `uint64_t`. -/
def coalesceOver (now : ℕ) : Bool :=
  decide (0 < b.policy.maxCoalesceUs) && !b.empty &&
    decide ((b.policy.maxCoalesceUs : ℤ) ≤ ((now : ℤ) - b.lastEmitUs) % 2 ^ 64)

/-- `Pump`; the clock is read once more, or twice, after the loop. -/
def pump (nowUs : ℕ → ℕ) (batchLimit : ℕ) (flushTail : Bool) (outReliable : ℕ) : ChannelBunchBuilder × ℕ :=
  let b := if b.activeHasInit then b else b.resetActive (nowUs 0)
  let (b, outReliable) := pumpLoop nowUs batchLimit 1 b outReliable
  let (b, outReliable) :=
    if b.coalesceOver (nowUs (batchLimit + 1)) then b.sealAndReset (nowUs (batchLimit + 2)) outReliable
    else (b, outReliable)
  if flushTail && !b.empty then b.sealAndReset (nowUs (batchLimit + 3)) outReliable else (b, outReliable)

def tryDequeueReady : Option (OutReadyBunch × ChannelBunchBuilder) :=
  match b.queuedOutBunch with
  | [] => none
  | bunch :: rest => some (bunch, { b with queuedOutBunch := rest })

def isHeaderOnlyBunch (bunch : OutReadyBunch) : Bool := decide (bunch.totalSize ≤ bunch.headerSize)

/-- The messages whose callbacks `DiscardOutReadyBunch` runs. -/
def discardOutReadyBunch (bunch : OutReadyBunch) : List NetMessage := bunch.messages.filter NetMessage.callback

end ChannelBunchBuilder

end RudpEngine

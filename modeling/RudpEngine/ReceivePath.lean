import RudpEngine.Driver
import RudpEngine.MessageViews
import RudpEngine.SharedPointers
import RudpEngine.SimulatedDuplicate

/-!
# The receive path

A hundred events, each with a buffer, wait in the socket for datagrams. Readers
share an event by `shared_ptr` on its way from the completion port through the
simulator, the job of the connection and the queue of packets to be dispatched,
and the messages of a packet share it until they are handled. When the last
pointer goes away the event is posted once more.

Readers are pointers and payloads lie in the buffers, so what a reader shows can
change under it. The steps are given twice: as the code has them, and with a
private copy of every datagram.
-/

namespace RudpEngine

/-- Where the bytes of a datagram are read: in the buffer of its event, or in a copy. -/
inductive Reading
  | inPlace
  | copied
  deriving DecidableEq

/-- A `RecvPacketReader`: the header is a copy, the payload a view. `datagram` is a copy of the bytes that came. -/
structure EventReader where
  ownerEvent : ℕ
  hashKey : BitVec 64
  header : BitReader
  bConnectionlessPacket : Bool
  payload : BufferView
  datagram : List Byte

/-- `RecvPacketReader(RecvEvent, NumOfBytes)`; a payload view whose size wraps shows the bytes up to the end of the buffer. -/
def EventReader.ofEvent (event : ℕ) (hashKey : BitVec 64) (data : List Byte) (numOfBytes : ℕ) : EventReader :=
  let reader := RecvPacketReader.ofEvent data numOfBytes
  { ownerEvent := event
    hashKey := hashKey
    header := reader.header
    bConnectionlessPacket := reader.bConnectionlessPacket
    payload := RecvPacketReader.payloadView data numOfBytes
    datagram := data.take numOfBytes }

/-- An entry of the completion port: the event, the bytes that came and the address they came from. -/
structure Completion where
  event : ℕ
  numOfBytes : ℕ
  hashKey : BitVec 64
  deriving DecidableEq

/-- A thread in `PumpIO` or `FlushStale`: the entries it has taken out, the `eventOwner` of the `RecvCompletionEvent` it
is in and the readers it is still to dispatch. -/
structure ReceivingThread where
  entries : List Completion := []
  eventOwner : Option ℕ := none
  toDispatch : List ℕ := []
  deriving DecidableEq

inductive ConnectionJob
  | received (reader : ℕ)
  | tick
  deriving DecidableEq

def ownerEvents (messages : List (ℕ × PendingMessage)) : List ℕ := messages.filterMap fun m => m.2.ownerEvent

/-- A connection, with the jobs of its worker that are its own. The message queues of its channels are one list, each
message with its channel. `ticking` is set while its tick is at work; `handled` is the log of the calls of
`ControlProtocol` and `ActorProtocol`. -/
structure ReceivingConnection where
  conn : NetConnection
  pendingDispatchPacketReaders : List ℕ := []
  pendingDispatchMessages : List (ℕ × PendingMessage) := []
  jobs : List ConnectionJob := []
  ticking : Bool := false
  alive : Bool := true
  handled : List (ℕ × RecvMessageReader) := []

/-- A pointer to an event, a reader or a connection is its place among all that were made. A pointer to a reader is
counted as one to its event, which the reader holds. -/
structure ReceivePath where
  isServer : Bool
  data : ℕ → List Byte
  posted : List ℕ
  port : List Completion
  /-- The events whose `WSARecvFrom` has failed. -/
  lost : List ℕ
  events : SharedPointers ℕ
  readers : List EventReader
  simulator : PacketSimulator ℕ
  threads : List ReceivingThread
  hashToConnectionMap : UnorderedMap (BitVec 64) ℕ
  connections : List ReceivingConnection

namespace ReceivePath

def recvEventCount : ℕ := 100

/-- Behind `PreRecvEvent`, where `posts` says whether an event could be posted; `threads` threads pump. -/
def start (isServer : Bool) (posts : ℕ → Bool) (settings : PacketSimulationSettings) (threads : ℕ) : ReceivePath where
  isServer := isServer
  data _ := List.replicate maxPacketSize 0
  posted := (List.range recvEventCount).filter posts
  port := []
  lost := (List.range recvEventCount).filter fun e => !posts e
  events := .none
  readers := []
  simulator := .new settings
  threads := List.replicate threads {}
  hashToConnectionMap := .empty
  connections := []

variable (mode : Reading) (s : ReceivePath)

def eventOf (r : ℕ) : Option ℕ := s.readers[r]?.map EventReader.ownerEvent

def bufferOf (reader : EventReader) : List Byte :=
  match mode with
  | .inPlace => s.data reader.ownerEvent
  | .copied => reader.datagram

def shown (reader : EventReader) : RecvPacketReader :=
  ⟨reader.header, reader.payload.bytes (s.bufferOf mode reader), reader.bConnectionlessPacket⟩

def read (p : PendingMessage) : RecvMessageReader :=
  match mode, p.ownerEvent with
  | .inPlace, some event => { p.message with view := p.view.bytes (s.data event) }
  | _, _ => p.message

def resetReaders (rs : List ℕ) : ReceivePath := { s with events := s.events.resetAll (rs.filterMap s.eventOf) }

def setThread (k : ℕ) (t : ReceivingThread) : ReceivePath := { s with threads := s.threads.set k t }

def setReader (r : ℕ) (reader : EventReader) : ReceivePath := { s with readers := s.readers.set r reader }

def setConnection (i : ℕ) (c : ReceivingConnection) : ReceivePath := { s with connections := s.connections.set i c }

/-- The header cursor and the flag of a reader, as a packet processor leaves them. -/
def passReader (r : ℕ) (reader : EventReader) (left : RecvPacketReader) : ReceivePath :=
  s.setReader r { reader with header := left.header, bConnectionlessPacket := left.bConnectionlessPacket }

/-! ## The socket -/

/-- A datagram is written into a posted buffer. -/
def complete (i : ℕ) (hashKey : BitVec 64) (datagram : List Byte) : ReceivePath :=
  match s.posted[i]? with
  | none => s
  | some event =>
    let bytes := datagram.take maxPacketSize
    { s with
      data := Function.update s.data event (bytes ++ (s.data event).drop bytes.length)
      posted := s.posted.eraseIdx i
      port := s.port ++ [⟨event, bytes.length, hashKey⟩] }

/-- `PostRecvEvent`, called by the deleter. -/
def postRecvEvent (i : ℕ) (posts : Bool) : ReceivePath :=
  match s.events.released[i]? with
  | none => s
  | some event =>
    let s := { s with events := s.events.reclaim i }
    if posts then { s with posted := s.posted ++ [event] } else { s with lost := s.lost ++ [event] }

/-! ## The IO threads -/

/-- `GetQueuedCompletionStatusEx`: a thread with nothing left takes out up to 64 entries. -/
def pumpIo (k removedCount : ℕ) : ReceivePath :=
  match s.threads[k]? with
  | some ⟨[], none, []⟩ =>
    { s.setThread k { entries := s.port.take (min removedCount 64) } with port := s.port.drop (min removedCount 64) }
  | _ => s

/-- `RecvCompletionEvent` up to the dispatch of what `Process` returns. `Process` copies its argument as often as it keeps
it, and its argument goes away. -/
def recvCompletionEvent (k : ℕ) (now : ℤ) (rolls : SimulatorRolls) : ReceivePath :=
  match s.threads[k]? with
  | some ⟨entry :: entries, none, []⟩ =>
    let r := s.readers.length
    let reader := EventReader.ofEvent entry.event entry.hashKey (s.data entry.event) entry.numOfBytes
    let (toDispatch, simulator) := s.simulator.process r now rolls
    let copies := (PacketSimulator.entering s.simulator.settings r rolls).map fun _ => entry.event
    { s.setThread k ⟨entries, some entry.event, toDispatch⟩ with
      readers := s.readers ++ [reader]
      simulator := simulator
      events := (((s.events.copy entry.event).copy entry.event).copyAll copies).reset entry.event }
  | _ => s

def endRecvCompletionEvent (k : ℕ) : ReceivePath :=
  match s.threads[k]? with
  | some ⟨entries, some event, []⟩ => { s.setThread k ⟨entries, none, []⟩ with events := s.events.reset event }
  | _ => s

def flushStale (k : ℕ) (now : ℤ) : ReceivePath :=
  match s.threads[k]? with
  | some ⟨[], none, []⟩ =>
    let (stale, simulator) := s.simulator.flushStale now
    { s.setThread k ⟨[], none, stale⟩ with simulator := simulator }
  | _ => s

/-- `ReceivedRawPacket`: the job gets a copy of the pointer, and that of the caller goes away. -/
def receivedRawPacket (i r : ℕ) : ReceivePath :=
  match s.connections[i]? with
  | none => s.resetReaders [r]
  | some c => s.setConnection i { c with jobs := c.jobs ++ [.received r] }

/-- `DispatchReceivedDatagram` of the next reader of a thread. A client has its server connection under the address of
the server, and drops what others send. -/
def dispatchReceivedDatagram (k : ℕ) : ReceivePath :=
  match s.threads[k]? with
  | some ⟨entries, eventOwner, r :: toDispatch⟩ =>
    let s := s.setThread k ⟨entries, eventOwner, toDispatch⟩
    match s.readers[r]? with
    | none => s
    | some reader =>
      match s.hashToConnectionMap reader.hashKey with
      | some i => s.receivedRawPacket i r
      | none =>
        if s.isServer then
          let left := defaultProcessor.incomingConnectionless { s.shown mode reader with bConnectionlessPacket := true }
          (s.passReader r reader left).resetReaders [r]
        else s.resetReaders [r]
  | _ => s

/-! ## The jobs of a connection -/

/-- `InitSequence` of a handshake that ends in the job of a reader. -/
def initSequence (i : ℕ) (c : ReceivingConnection) (sequences : Option (ℤ × ℤ)) : ReceivePath :=
  match sequences with
  | none => s.setConnection i c
  | some (incomingSequence, outgoingSequence) =>
    match c.conn.initSequence incomingSequence outgoingSequence with
    | (false, _) => s.setConnection i c
    | (true, conn) =>
      (s.setConnection i { c with conn := conn, pendingDispatchPacketReaders := [] }).resetReaders
        c.pendingDispatchPacketReaders

/-- The job of `ReceivedRawPacket`. `found` and `sequences` are what the handshake makes of a packet of its own. -/
def receivedJob (i r : ℕ) (c : ReceivingConnection) (found : Bool) (sequences : Option (ℤ × ℤ)) : ReceivePath :=
  match s.readers[r]? with
  | none => s.setConnection i c
  | some reader =>
    match (s.shown mode reader).dispatch found with
    | (.packet header _, left) =>
      let s := s.passReader r reader left
      let conn := { c.conn with pendingDispatchPacketReaders := [] }.receivedHeader header left
      let c := { c with conn := { conn with pendingDispatchPacketReaders := [] } }
      if conn.pendingDispatchPacketReaders = [] then (s.setConnection i c).resetReaders [r]
      else s.setConnection i { c with pendingDispatchPacketReaders := c.pendingDispatchPacketReaders ++ [r] }
    | (.handshake _, left) => ((s.passReader r reader left).initSequence i c sequences).resetReaders [r]
    | (_, left) => ((s.passReader r reader left).setConnection i c).resetReaders [r]

/-- The next job of a connection, where none is at work; a connection that is gone does nothing. -/
def runJob (i : ℕ) (found : Bool) (sequences : Option (ℤ × ℤ)) : ReceivePath :=
  match s.connections[i]? with
  | none => s
  | some c =>
    if c.ticking then s
    else
      match c.jobs with
      | [] => s
      | .received r :: jobs =>
        if c.alive then s.receivedJob mode i r { c with jobs := jobs } found sequences
        else (s.setConnection i { c with jobs := jobs }).resetReaders [r]
      | .tick :: jobs => s.setConnection i { c with jobs := jobs, ticking := c.alive }

/-- One round of `DispatchPendingPacket`: the queue's pointer goes away behind the dispatch. -/
def dispatchPending (i r : ℕ) (c : ReceivingConnection) : ReceivePath :=
  match s.readers[r]? with
  | none => s.setConnection i c
  | some reader =>
    let packet := s.shown mode reader
    let messages := c.conn.queuedMessages reader.ownerEvent reader.payload.offset packet.payload
    let c := { c with
      conn := c.conn.dispatchReader packet
      pendingDispatchMessages := c.pendingDispatchMessages ++ messages }
    ({ s.setConnection i c with events := s.events.copyAll (ownerEvents messages) }).resetReaders [r]

def dispatchPendingMessage (i j : ℕ) (c : ReceivingConnection) : ReceivePath :=
  match c.pendingDispatchMessages[j]? with
  | none => s
  | some (ch, p) =>
    { s.setConnection i { c with
        pendingDispatchMessages := c.pendingDispatchMessages.eraseIdx j
        handled := c.handled ++ [(ch, s.read mode p)] } with
      events := s.events.resetAll p.ownerEvent.toList }

/-- The next step of a tick: a packet that waits, the first message of the first channel that has one, or the end. -/
def tickStep (i : ℕ) : ReceivePath :=
  match s.connections[i]? with
  | none => s
  | some c =>
    if !c.ticking then s
    else
      match c.pendingDispatchPacketReaders with
      | r :: rest => s.dispatchPending mode i r { c with pendingDispatchPacketReaders := rest }
      | [] =>
        match (c.pendingDispatchMessages.map Prod.fst).min? with
        | none => s.setConnection i { c with ticking := false }
        | some ch => s.dispatchPendingMessage mode i (c.pendingDispatchMessages.findIdx fun m => m.1 = ch) c

def tickDispatch (i : ℕ) : ReceivePath :=
  match s.connections[i]? with
  | none => s
  | some c => s.setConnection i { c with jobs := c.jobs ++ [.tick] }

/-- What a connection does besides: it sends. -/
def work (i : ℕ) (change : NetConnection → NetConnection) : ReceivePath :=
  match s.connections[i]? with
  | none => s
  | some c => s.setConnection i { c with conn := change c.conn }

def destroy (i : ℕ) : ReceivePath :=
  match s.connections[i]? with
  | none => s
  | some c =>
    if c.ticking then s
    else
      { (s.setConnection i { c with
          alive := false
          pendingDispatchPacketReaders := []
          pendingDispatchMessages := [] }) with
        events := s.events.resetAll (c.pendingDispatchPacketReaders.filterMap s.eventOf ++
          ownerEvents c.pendingDispatchMessages) }

end ReceivePath

/-- One step; `conn` and `change` stand for what a connection is and does besides. -/
inductive ReceiveAction
  | complete (i : ℕ) (hashKey : BitVec 64) (datagram : List Byte)
  | post (i : ℕ) (posts : Bool)
  | pumpIo (k removedCount : ℕ)
  | recvCompletionEvent (k : ℕ) (now : ℤ) (rolls : SimulatorRolls)
  | endRecvCompletionEvent (k : ℕ)
  | flushStale (k : ℕ) (now : ℤ)
  | reconfigure (settings : PacketSimulationSettings)
  | dispatch (k : ℕ)
  | addClient (hashKey : BitVec 64) (conn : NetConnection)
  | removeConnection (i : ℕ)
  | destroy (i : ℕ)
  | tickDispatch (i : ℕ)
  | runJob (i : ℕ) (found : Bool) (sequences : Option (ℤ × ℤ))
  | tickStep (i : ℕ)
  | work (i : ℕ) (change : NetConnection → NetConnection)

namespace ReceivePath

def next (mode : Reading) (s : ReceivePath) : ReceiveAction → ReceivePath
  | .complete i hashKey datagram => s.complete i hashKey datagram
  | .post i posts => s.postRecvEvent i posts
  | .pumpIo k removedCount => s.pumpIo k removedCount
  | .recvCompletionEvent k now rolls => s.recvCompletionEvent k now rolls
  | .endRecvCompletionEvent k => s.endRecvCompletionEvent k
  | .flushStale k now => s.flushStale k now
  | .reconfigure settings => { s with simulator := s.simulator.reconfigure settings }
  | .dispatch k => s.dispatchReceivedDatagram mode k
  | .addClient hashKey conn =>
    { s with
      hashToConnectionMap := s.hashToConnectionMap.insert hashKey s.connections.length
      connections := s.connections ++ [{ conn := conn }] }
  | .removeConnection i => { s with hashToConnectionMap := s.hashToConnectionMap.eraseIf fun v => v = i }
  | .destroy i => s.destroy i
  | .tickDispatch i => s.tickDispatch i
  | .runJob i found sequences => s.runJob mode i found sequences
  | .tickStep i => s.tickStep mode i
  | .work i change => s.work i change

end ReceivePath

/-- The receive path, for any number of threads; which of the first posts fail is up to the socket. -/
def receivePath (mode : Reading) : System ReceivePath ReceiveAction where
  init s := ∃ isServer posts settings threads, s = ReceivePath.start isServer posts settings threads
  next := ReceivePath.next mode

end RudpEngine

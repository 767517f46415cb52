import RudpEngine.Bunch

/-!
# Packets

An outgoing packet keeps room for its header, the bunches behind it and, once
sealed, the views of the bytes that go to the wire. The header is written last,
when the packet is flushed; its first byte is its size, which is where the
receiver splits the datagram.
-/

namespace RudpEngine

def packetHeaderSize : ℕ := 10

/-- `PacketBufferView`: into the header of the packet itself, or into the bytes of a bunch. -/
inductive PacketBufferView
  | header
  | bytes (bs : List Byte)
  deriving DecidableEq

structure OutReadyPacket where
  bufferViews : List PacketBufferView
  header : List Byte
  bunchs : List OutReadyBunch
  headerSize : ℕ
  totalSize : ℕ
  sendTimeUs : ℕ
  dirtyFlag : Bool
  outPacketId : ℤ
  deriving DecidableEq

namespace OutReadyPacket

def buildBegin (headerSize : ℕ) : OutReadyPacket :=
  ⟨[], List.replicate headerSize 0, [], headerSize, headerSize, 0, true, 0⟩

variable (p : OutReadyPacket)

/-- `BuildEnd`: the header bytes, copied in. -/
def buildEnd (headerPtr : List Byte) (headerSize nowUs : ℕ) : OutReadyPacket :=
  { p with header := headerPtr.take headerSize ++ p.header.drop headerSize, sendTimeUs := nowUs }

def push (bunch : OutReadyBunch) : OutReadyPacket :=
  { p with totalSize := (p.totalSize + bunch.totalSize) % 2 ^ 32, bunchs := p.bunchs ++ [bunch], dirtyFlag := true }

def bunchViews (bunch : OutReadyBunch) : List PacketBufferView :=
  .bytes (bunch.headerBytes.take bunch.headerSize) :: bunch.messages.map fun m => .bytes m.buffer

def packetSealed : OutReadyPacket :=
  if !p.dirtyFlag then p
  else { p with bufferViews := .header :: p.bunchs.flatMap bunchViews, dirtyFlag := false }

def wire : List Byte :=
  p.bufferViews.flatMap fun
    | .header => p.header.take p.headerSize
    | .bytes bs => bs

end OutReadyPacket

namespace PacketHeader

/-- A new `PacketHeader`: the size byte is held free. -/
def new (reserveBits : ℕ) : BitWriter := (BitWriter.ofMaxBits reserveBits).serialize [0] 1

/-- `HeaderSealed` and `GetData`. -/
def headerSealed (buffer : BitWriter) : List Byte :=
  buffer.buffer.set 0 (BitVec.ofNat 8 (buffer.getNumBytes % 2 ^ 8))

end PacketHeader

namespace ConnectionPacketBuilder

def packetMaxSize : ℕ := 1024

def buildStart : OutReadyPacket := OutReadyPacket.buildBegin packetHeaderSize

/-- `BuildEnd`; the header writer is a function on the state `s` it captures. -/
def buildEnd {σ : Type} (p : OutReadyPacket) (func : BitWriter → σ → BitWriter × σ) (nowUs : ℕ) (s : σ) :
    OutReadyPacket × σ :=
  let (buffer, s) := func (PacketHeader.new (packetHeaderSize * 8)) s
  (p.buildEnd (PacketHeader.headerSealed buffer) packetHeaderSize nowUs, s)

def append (p : OutReadyPacket) (bunch : OutReadyBunch) : Bool × OutReadyPacket :=
  if packetMaxSize < bunch.totalSize then (false, p)
  else if packetMaxSize < (p.totalSize + bunch.totalSize) % 2 ^ 32 then (false, p)
  else (true, p.push bunch)

end ConnectionPacketBuilder

/-! ## The receiving side -/

/-- `RecvPacketReader`: the header as bits, the payload as bytes. -/
structure RecvPacketReader where
  header : BitReader
  payload : List Byte
  bConnectionlessPacket : Bool
  deriving DecidableEq

/-- `RecvPacketReader(RecvEvent, NumOfBytes)`. Where the header size is above `numOfBytes` the payload size
of the source wraps and its reads leave the buffer; here the payload is empty. -/
def RecvPacketReader.ofEvent (data : List Byte) (numOfBytes : ℕ) : RecvPacketReader :=
  let headerByteSize := (byteAt data 0).toNat
  let headerDataByteSize := (byteAt data 0 - 1).toNat
  { header := BitReader.ofBytes (data.drop 1) (headerDataByteSize * 8)
    payload := (data.drop headerByteSize).take (numOfBytes - headerByteSize)
    bConnectionlessPacket := false }

structure BufferReader where
  view : List Byte
  error : Bool
  deriving DecidableEq

namespace BufferReader

variable (r : BufferReader)

def canRead (byteSize : ℕ) : Bool := !r.error && decide (byteSize ≤ r.view.length)

/-- `Read` of an integer of `k` bytes; on an error the value is not written. -/
def read (k : ℕ) : Option ℕ × BufferReader :=
  if r.view.length < k then (none, { r with error := true })
  else (some (leNat (r.view.take k)), { r with view := r.view.drop k })

def readView (size : ℕ) : List Byte × BufferReader :=
  if r.view.length < size then ([], { r with error := true })
  else (r.view.take size, { r with view := r.view.drop size })

end BufferReader

end RudpEngine

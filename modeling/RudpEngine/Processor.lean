import RudpEngine.PacketNotify
import RudpEngine.Packet

/-!
# The connection processor

`UdpConnectionProcessor` writes its fields in front of the notification header
of every packet and reads them back. A packet with the handshake bit set is
taken out here and never reaches the connection.
-/

namespace RudpEngine

/-- `UdpConnectionProcessor`, what `Outgoing` and `Incoming` use of it. -/
structure UdpConnectionProcessor where
  magicHeaderSizeBits : ℕ := 1
  magicHeaderOffset : ℕ := 0
  expectMagicHeader : ℕ := 0
  sessionIDSizeBits : ℕ := 2
  clientIDSizeBits : ℕ := 3
  deriving DecidableEq

def cookieByteSize : ℕ := 20

namespace UdpConnectionProcessor

variable (u : UdpConnectionProcessor)

def outgoing (buffer : BitWriter) : BitWriter :=
  let readMagic := 0
  let buffer := buffer.serializeBitsWithOffset (leBytes 4 readMagic) u.magicHeaderOffset u.magicHeaderSizeBits
  if readMagic ≠ u.expectMagicHeader then buffer.setError
  else
    let buffer := buffer.serializeBits [0] u.sessionIDSizeBits
    let buffer := buffer.serializeBits [0] u.clientIDSizeBits
    buffer.serializeBits [0] 1

/-- `ParseHandshakePacket`; the fields are read past, none is kept. -/
def parseHandshakePacket (header : BitReader) : Bool × BitReader :=
  let (_, header) := header.readBit
  let (packetType, header) := header.readUInt 1
  let (_, header) := header.readUInt 1
  let header :=
    if packetType ≤ 3 then
      let (_, header) := header.readBit
      let (_, header) := header.readUInt 8
      (header.readUInt cookieByteSize).2
    else header
  (!header.arIsError, header)

/-- `Incoming`: the reader is left at the notification header, or is marked connectionless. -/
def incoming (r : RecvPacketReader) : RecvPacketReader :=
  let (readMagic, header) :=
    r.header.serializeBitsWithOffset (leBytes 4 0) u.magicHeaderOffset u.magicHeaderSizeBits
  if leNat readMagic ≠ u.expectMagicHeader then { r with header := header.setError }
  else
    let (_, header) := header.serializeBits [0] u.sessionIDSizeBits
    let (_, header) := header.serializeBits [0] u.clientIDSizeBits
    let (bHandshakePacket, header) := header.readBit
    if bHandshakePacket && !header.arIsError then
      let (parsed, header) := parseHandshakePacket header
      if parsed then { r with header := header.setAtEnd, bConnectionlessPacket := true }
      else { r with header := header }
    else { r with header := header }

end UdpConnectionProcessor

/-- `WriteHeaderCallback`: the processor's fields, then the notification header. -/
def writeHeaderCallback (u : UdpConnectionProcessor) (buffer : BitWriter) (p : NetPacketNotify) :
    BitWriter × NetPacketNotify :=
  let (_, p, buffer) := p.writeHeader (u.outgoing buffer) false
  (buffer, p)

end RudpEngine

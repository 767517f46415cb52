import RudpEngine.MagicHeader

/-!
# Handshake packets, there and back

Four senders write a handshake packet, one bit after the other behind the size
byte; one parser reads all of them. `SendInitialPacket` has no cookie to send
yet and fills its place with zeros.
-/

namespace RudpEngine

namespace BitWriter

variable {w w' w'' : BitWriter}

theorem Wrote.field {n : ℕ} {f : ℕ → Bool} (h : Wrote w w' n f) (hext : Extends w' w'') (i : ℕ) (hi : i < n) :
    bitOf w''.buffer (w.pos + i) = f i := by
  rw [hext.bit _ (by rw [h.pos]; omega), h.bit, if_pos (by omega), Nat.add_sub_cancel_left]

theorem ext_of_bits (hpos : w'.pos = w.pos) (hmax : w'.max = w.max) (herror : w'.arIsError = w.arIsError)
    (hbits : ∀ i, bitOf w'.buffer i = bitOf w.buffer i) : w' = w := by
  have hbuffer : w'.buffer = w.buffer :=
    bytes_ext (by rw [w'.size_eq, w.size_eq, hmax]) fun i _ => hbits i
  cases w
  cases w'
  simp only at hpos hmax herror hbuffer
  subst hpos hmax herror hbuffer
  rfl

theorem writeBit_wrote (bit : Bool) (h : w.AllowAppend 1) : Wrote w (w.writeBit bit) 1 fun _ => bit := by
  obtain ⟨hpos, hmax, herror, hbit⟩ := serializeBits_wrote [if bit then 1 else 0] h
  refine ⟨hpos, hmax, herror, fun i => ?_⟩
  rw [writeBit, hbit]
  by_cases hi : w.pos ≤ i ∧ i < w.pos + 1
  · rw [if_pos hi, if_pos hi, show i - w.pos = 0 by omega]
    cases bit with
    | true => rfl
    | false => rfl
  · rw [if_neg hi, if_neg hi]

theorem serialize_wrote (src : List Byte) {n : ℕ} (h : w.AllowAppend (n * 8)) :
    Wrote w (w.serialize src n) (n * 8) (bitOf src) := by
  have hw := serializeBitsWithOffset_wrote src 0 h
  simp only [Nat.zero_add] at hw
  exact hw

theorem foldl_serialize_pos (bytes : List Byte) : ∀ w : BitWriter, w.pos + 8 * bytes.length ≤ w.max →
    (bytes.foldl (fun w randVal => w.serialize [randVal] 1) w).pos = w.pos + 8 * bytes.length := by
  induction bytes with
  | nil => exact fun w _ => rfl
  | cons b bytes ih =>
    intro w hroom
    rw [List.length_cons] at hroom
    have hone := serialize_wrote (w := w) [b] (n := 1) (by unfold AllowAppend; omega)
    rw [List.foldl_cons, ih _ (by rw [hone.pos, hone.max]; omega), hone.pos, List.length_cons]
    omega

end BitWriter

namespace BitReader

variable {r : BitReader}

theorem serializeBits_bytes {bytes : List Byte} {n : ℕ} (hn : bytes.length = n) (h : Holds r (8 * n))
    (hbits : ∀ i < 8 * n, bitOf r.buffer (r.pos + i) = bitOf bytes i) :
    r.serializeBits (List.replicate n 0) (8 * n) = (bytes, { r with pos := r.pos + 8 * n }) := by
  obtain ⟨hr, hlen, hread⟩ := serializeBits_read h (List.replicate n 0) (by rw [List.length_replicate])
  rw [List.length_replicate] at hlen
  refine Prod.ext (bytes_ext (hlen.trans hn.symm) fun i hi => ?_) hr
  rw [hlen] at hi
  rw [hread i hi, hbits i hi]

end BitReader

/-! ## The parser -/

/-- `ParsedHandshakeData`, with the bytes of the time stamp and without `OrigCookie`, which nothing sets. -/
structure ParsedHandshakeData where
  handshakeTryCount : ℕ
  handshakePacketType : ℕ
  bRestartHandshake : Bool
  secretId : Bool
  timeStamp : List Byte
  cookie : List Byte
  deriving DecidableEq

namespace UdpConnectionProcessor

/-- `ParseHandshakePacket`, with what it leaves in `OutResult`. -/
def parseHandshakeData (header : BitReader) : ParsedHandshakeData × Bool × BitReader :=
  let (bRestartHandshake, header) := header.readBit
  let (packetType, header) := header.readUInt 1
  let (handshakeTryCount, header) := header.readUInt 1
  if packetType ≤ 3 then
    let (secretId, header) := header.readBit
    let (timeStamp, header) := header.serializeBits (List.replicate 8 0) (8 * 8)
    let (cookie, header) := header.serializeBits (List.replicate cookieByteSize 0) (8 * cookieByteSize)
    (⟨handshakeTryCount, packetType, bRestartHandshake, secretId, timeStamp, cookie⟩, !header.arIsError, header)
  else
    (⟨handshakeTryCount, packetType, bRestartHandshake, false, List.replicate 8 0, List.replicate cookieByteSize 0⟩,
      !header.arIsError, header)

theorem parseHandshakeData_snd (header : BitReader) : (parseHandshakeData header).2 = parseHandshakePacket header := by
  unfold parseHandshakeData parseHandshakePacket
  simp only
  split_ifs <;> rfl

/-! ## The senders -/

variable (u : UdpConnectionProcessor)

def sendInitialPacket (sentHandshakePacketCount sessionID clientID : ℕ) (randomData : List Byte) (buffer : BitWriter) :
    BitWriter :=
  let buffer := u.beginHandshakePacket ⟨0, sentHandshakePacketCount, sessionID, clientID, false, [], [], randomData⟩ buffer
  let buffer := buffer.writeBit false
  let packetSizeFiller := List.replicate 28 0
  let buffer := buffer.serialize packetSizeFiller 28
  capHandshakePacket randomData buffer

/-- The callback of `SendConnectChallenge`; the type is that of the pending connection. -/
def sendConnectChallenge (handshakePacketType sentHandshakePacketCount sessionID clientID : ℕ) (activeSecret : Bool)
    (cookieTime cookie randomData : List Byte) : BitWriter → BitWriter :=
  u.writeHandshakePacket
    ⟨handshakePacketType, sentHandshakePacketCount, sessionID, clientID, activeSecret, cookieTime, cookie, randomData⟩

def sendChallengeResponse (handshakeData : ParsedHandshakeData) (sentHandshakePacketCount sessionID clientID : ℕ)
    (randomData : List Byte) : BitWriter → BitWriter :=
  u.writeHandshakePacket ⟨2, sentHandshakePacketCount, sessionID, clientID, handshakeData.secretId,
    handshakeData.timeStamp, handshakeData.cookie, randomData⟩

/-- The bytes of the `double` `-1.0`. -/
def lastUpdateTime : List Byte := leBytes 8 0xBFF0000000000000

/-- The callback of `SendChallengeAck`; the type is that of the pending connection. -/
def sendChallengeAck (handshakePacketType sentHandshakePacketCount sessionID clientID : ℕ)
    (inCookie randomData : List Byte) : BitWriter → BitWriter :=
  u.writeHandshakePacket
    ⟨handshakePacketType, sentHandshakePacketCount, sessionID, clientID, true, lastUpdateTime, inCookie, randomData⟩

/-! ## The trip -/

variable {u} {sizeBits offset magic : ℕ} {f : HandshakeFields} {w : BitWriter}

structure Headed (sizeBits : ℕ) (f : HandshakeFields) (w w' : BitWriter) : Prop where
  pos : w'.pos = w.pos + sizeBits + 23
  max : w'.max = w.max
  restart : bitOf w'.buffer (w.pos + sizeBits + 6) = false
  type : ∀ i < 8, bitOf w'.buffer (w.pos + sizeBits + 7 + i) = bitOf (leBytes 1 f.handshakePacketType) i
  count : ∀ i < 8, bitOf w'.buffer (w.pos + sizeBits + 15 + i) = bitOf (leBytes 1 f.sentHandshakePacketCount) i

/-- What is written of a handshake packet, from the writer's old end on. -/
structure Recorded (sizeBits : ℕ) (f : HandshakeFields) (w w' : BitWriter) : Prop where
  pos : w'.pos = w.pos + sizeBits + 249 + 8 * f.randomData.length
  max : w'.max = w.max
  restart : bitOf w'.buffer (w.pos + sizeBits + 6) = false
  type : ∀ i < 8, bitOf w'.buffer (w.pos + sizeBits + 7 + i) = bitOf (leBytes 1 f.handshakePacketType) i
  count : ∀ i < 8, bitOf w'.buffer (w.pos + sizeBits + 15 + i) = bitOf (leBytes 1 f.sentHandshakePacketCount) i
  secret : bitOf w'.buffer (w.pos + sizeBits + 23) = f.secretId
  timeStamp : ∀ i < 64, bitOf w'.buffer (w.pos + sizeBits + 24 + i) = bitOf f.timeStamp i
  cookie : ∀ i < 160, bitOf w'.buffer (w.pos + sizeBits + 88 + i) = bitOf f.cookie i

theorem beginHandshakePacket_headed (sizeBits offset magic : ℕ) (f : HandshakeFields)
    (hroom : w.pos + sizeBits + 23 ≤ w.max) :
    Headed sizeBits f w ((setSupervisor sizeBits offset magic).beginHandshakePacket f w) := by
  unfold beginHandshakePacket setSupervisor
  simp only
  have h0 := BitWriter.serializeBitsWithOffset_wrote (w := w) (leBytes 4 magic) offset (n := sizeBits)
    (by unfold BitWriter.AllowAppend; omega)
  generalize w.serializeBitsWithOffset (leBytes 4 magic) offset sizeBits = w0 at h0 ⊢
  obtain ⟨p0, m0⟩ := And.intro h0.pos h0.max
  have h1 := BitWriter.serializeBits_wrote (w := w0) (leBytes 4 f.sessionID) (n := 2)
    (by unfold BitWriter.AllowAppend; omega)
  generalize w0.serializeBits (leBytes 4 f.sessionID) 2 = w1 at h1 ⊢
  obtain ⟨p1, m1⟩ := And.intro h1.pos h1.max
  have h2 := BitWriter.serializeBits_wrote (w := w1) (leBytes 4 f.clientID) (n := 3)
    (by unfold BitWriter.AllowAppend; omega)
  generalize w1.serializeBits (leBytes 4 f.clientID) 3 = w2 at h2 ⊢
  obtain ⟨p2, m2⟩ := And.intro h2.pos h2.max
  have h3 := BitWriter.writeBit_wrote (w := w2) true (by unfold BitWriter.AllowAppend; omega)
  generalize w2.writeBit true = w3 at h3 ⊢
  obtain ⟨p3, m3⟩ := And.intro h3.pos h3.max
  have h4 := BitWriter.writeBit_wrote (w := w3) false (by unfold BitWriter.AllowAppend; omega)
  generalize w3.writeBit false = w4 at h4 ⊢
  obtain ⟨p4, m4⟩ := And.intro h4.pos h4.max
  have h5 := BitWriter.serializeBits_wrote (w := w4) (leBytes 1 f.handshakePacketType) (n := 8)
    (by unfold BitWriter.AllowAppend; omega)
  generalize w4.serializeBits (leBytes 1 f.handshakePacketType) 8 = w5 at h5 ⊢
  obtain ⟨p5, m5⟩ := And.intro h5.pos h5.max
  have h6 := BitWriter.serializeBits_wrote (w := w5) (leBytes 1 f.sentHandshakePacketCount) (n := 8)
    (by unfold BitWriter.AllowAppend; omega)
  generalize w5.serializeBits (leBytes 1 f.sentHandshakePacketCount) 8 = w6 at h6 ⊢
  refine ⟨by rw [h6.pos]; omega, by rw [h6.max]; omega, ?_, ?_, ?_⟩
  · rw [← h4.field (h5.extends.trans h6.extends) 0 (by decide)]
    congr 1
    omega
  · intro i hi
    rw [← h5.field h6.extends i hi]
    congr 1
    omega
  · intro i hi
    rw [← h6.field (.refl w6) i hi]
    congr 1
    omega

theorem writeHandshakePacket_recorded (sizeBits offset magic : ℕ) (f : HandshakeFields)
    (hroom : w.pos + sizeBits + 249 + 8 * f.randomData.length ≤ w.max) :
    Recorded sizeBits f w ((setSupervisor sizeBits offset magic).writeHandshakePacket f w) := by
  have hheaded := beginHandshakePacket_headed sizeBits offset magic f (w := w) (by omega)
  unfold writeHandshakePacket capHandshakePacket
  simp only
  generalize (setSupervisor sizeBits offset magic).beginHandshakePacket f w = w0 at hheaded ⊢
  obtain ⟨p0, m0, hrestart, htype, hcount⟩ := hheaded
  have h1 := BitWriter.writeBit_wrote (w := w0) f.secretId (by unfold BitWriter.AllowAppend; omega)
  generalize w0.writeBit f.secretId = w1 at h1 ⊢
  obtain ⟨p1, m1⟩ := And.intro h1.pos h1.max
  have h2 := BitWriter.serialize_wrote (w := w1) f.timeStamp (n := 8) (by unfold BitWriter.AllowAppend; omega)
  generalize w1.serialize f.timeStamp 8 = w2 at h2 ⊢
  obtain ⟨p2, m2⟩ := And.intro h2.pos h2.max
  have h3 := BitWriter.serialize_wrote (w := w2) f.cookie (n := cookieByteSize)
    (by unfold BitWriter.AllowAppend cookieByteSize; omega)
  generalize w2.serialize f.cookie cookieByteSize = w3 at h3 ⊢
  unfold cookieByteSize at h3
  obtain ⟨p3, m3⟩ := And.intro h3.pos h3.max
  have p4 := BitWriter.foldl_serialize_pos f.randomData w3 (by omega)
  have e4 := BitWriter.foldl_extends
    (fun w (randVal : Byte) => BitWriter.serializeBitsWithOffset_extends w [randVal] 0 (1 * 8)) f.randomData w3
  change BitWriter.Extends w3 (f.randomData.foldl (fun w randVal => w.serialize [randVal] 1) w3) at e4
  generalize f.randomData.foldl (fun w randVal => w.serialize [randVal] 1) w3 = w4 at p4 e4 ⊢
  have m4 := e4.max
  have h5 := BitWriter.writeBit_wrote (w := w4) true (by unfold BitWriter.AllowAppend; omega)
  generalize w4.writeBit true = w5 at h5 ⊢
  -- each field stays while what is behind it is written
  have x3 : BitWriter.Extends w3 w5 := e4.trans h5.extends
  have x2 := h3.extends.trans x3
  have x1 := h2.extends.trans x2
  have x0 := h1.extends.trans x1
  refine ⟨by rw [h5.pos]; omega, by rw [h5.max]; omega, ?_, ?_, ?_, ?_, ?_, ?_⟩
  · rw [x0.bit _ (by omega)]
    exact hrestart
  · intro i hi
    rw [x0.bit _ (by omega)]
    exact htype i hi
  · intro i hi
    rw [x0.bit _ (by omega)]
    exact hcount i hi
  · rw [← h1.field x1 0 (by decide)]
    congr 1
    omega
  · intro i hi
    rw [← h2.field x2 i hi]
    congr 1
    omega
  · intro i hi
    rw [← h3.field x3 i hi]
    congr 1
    omega

/-- What fits the fields of a handshake packet; the random data has one of the lengths of `CapHandshakePacket`. -/
structure Fits (f : HandshakeFields) : Prop where
  handshakePacketType : f.handshakePacketType ≤ 3
  sentHandshakePacketCount : f.sentHandshakePacketCount < 256
  sessionID : f.sessionID < 4
  clientID : f.clientID < 8
  timeStamp : f.timeStamp.length = 8
  cookie : f.cookie.length = 20
  randomData : 8 ≤ f.randomData.length ∧ f.randomData.length ≤ 16

def parsed (f : HandshakeFields) : ParsedHandshakeData :=
  ⟨f.sentHandshakePacketCount, f.handshakePacketType, false, f.secretId, f.timeStamp, f.cookie⟩

theorem parseHandshakeData_recorded {w' : BitWriter} (h : Recorded sizeBits f w w') (hf : Fits f) {buf : List Byte}
    {max p : ℕ} (hroom : p + 242 ≤ max)
    (hbits : ∀ i < 242, bitOf buf (p + i) = bitOf w'.buffer (w.pos + sizeBits + 6 + i)) :
    parseHandshakeData ⟨buf, max, p, false⟩ = (parsed f, true, ⟨buf, max, p + 242, false⟩) := by
  obtain ⟨htype, hcount, -, -, htime, hcookie, -⟩ := hf
  have hat : ∀ k i, k + i < 242 → bitOf buf (p + k + i) = bitOf w'.buffer (w.pos + sizeBits + 6 + k + i) := by
    intro k i hi
    rw [Nat.add_assoc p, hbits _ hi, ← Nat.add_assoc]
  have hrestart : BitReader.readBit ⟨buf, max, p, false⟩ = (false, ⟨buf, max, p + 1, false⟩) := by
    rw [BitReader.readBit_read ⟨rfl, by simp only; omega⟩]
    exact Prod.ext ((hbits 0 (by decide)).trans h.restart) rfl
  have hpacketType : BitReader.readUInt ⟨buf, max, p + 1, false⟩ 1 =
      (f.handshakePacketType, ⟨buf, max, p + 9, false⟩) := by
    refine BitReader.readUInt_eq ⟨rfl, by simp only; omega⟩ (by omega) ?_
    intro i hi
    rw [hat 1 i (by omega), h.type i (by omega), bitOf_leBytes 1 _ i (by omega)]
  have htryCount : BitReader.readUInt ⟨buf, max, p + 9, false⟩ 1 =
      (f.sentHandshakePacketCount, ⟨buf, max, p + 17, false⟩) := by
    refine BitReader.readUInt_eq ⟨rfl, by simp only; omega⟩ (by omega) ?_
    intro i hi
    rw [hat 9 i (by omega), h.count i (by omega), bitOf_leBytes 1 _ i (by omega)]
  have hsecretId : BitReader.readBit ⟨buf, max, p + 17, false⟩ = (f.secretId, ⟨buf, max, p + 18, false⟩) := by
    rw [BitReader.readBit_read ⟨rfl, by simp only; omega⟩]
    exact Prod.ext ((hat 17 0 (by decide)).trans h.secret) rfl
  have htimeStamp : BitReader.serializeBits ⟨buf, max, p + 18, false⟩ (List.replicate 8 0) (8 * 8) =
      (f.timeStamp, ⟨buf, max, p + 82, false⟩) := by
    refine BitReader.serializeBits_bytes htime ⟨rfl, by simp only; omega⟩ ?_
    intro i hi
    rw [hat 18 i (by omega), h.timeStamp i (by omega)]
  have hcookieBytes : BitReader.serializeBits ⟨buf, max, p + 82, false⟩ (List.replicate cookieByteSize 0)
      (8 * cookieByteSize) = (f.cookie, ⟨buf, max, p + 242, false⟩) := by
    unfold cookieByteSize
    refine BitReader.serializeBits_bytes hcookie ⟨rfl, by simp only; omega⟩ ?_
    intro i hi
    rw [hat 82 i (by omega), h.cookie i (by omega)]
  unfold parseHandshakeData parsed
  simp only [hrestart, hpacketType, htryCount, htype, if_true, hsecretId, htimeStamp, hcookieBytes, Bool.not_false]

def datagramOf (func : BitWriter → BitWriter) (nowUs : ℕ) : List Byte :=
  (ProcessorPacketBuilder.build func nowUs).packetSealed.wire

/-- The size byte of the datagram is the length of the header that was written, the reader takes the header by it, and what
the packet carries is read from there. -/
structure HandshakeTrips (u : UdpConnectionProcessor) (func : BitWriter → BitWriter) (nowUs : ℕ) (f : HandshakeFields) :
    Prop where
  length : (datagramOf func nowUs).length = connectionlessPacketHeaderSize
  size : (byteAt (datagramOf func nowUs) 0).toNat = 33 + f.randomData.length
  written : (func (PacketHeader.new (connectionlessPacketHeaderSize * 8))).getNumBytes =
    (byteAt (datagramOf func nowUs) 0).toNat
  framed : (RecvPacketReader.ofEvent (datagramOf func nowUs) (datagramOf func nowUs).length).header.max =
    ((byteAt (datagramOf func nowUs) 0).toNat - 1) * 8
  parsed : ∃ header rest,
    u.readFields (RecvPacketReader.ofEvent (datagramOf func nowUs) (datagramOf func nowUs).length).header =
      some (⟨f.sessionID, f.clientID, true⟩, header) ∧ header.arIsError = false ∧
        parseHandshakeData header = (parsed f, true, rest)

theorem writeHandshakePacket_trips (hdefault : sizeBits ≤ 1) (hf : Fits f) (nowUs : ℕ) :
    HandshakeTrips (setSupervisor sizeBits 0 0) ((setSupervisor sizeBits 0 0).writeHandshakePacket f) nowUs f := by
  obtain ⟨hpos, hmax⟩ := packetHeader_new (connectionlessPacketHeaderSize * 8) (by decide)
  have hrandom := hf.randomData
  have hbegun := (beginHandshakePacket_begun sizeBits 0 0 (w := PacketHeader.new (connectionlessPacketHeaderSize * 8))
    (by unfold BitWriter.AllowAppend; rw [hpos, hmax, connectionlessPacketHeaderSize]; omega) f).extends
      (beginHandshakePacket_extends _ f _)
  have hrecorded := writeHandshakePacket_recorded (w := PacketHeader.new (connectionlessPacketHeaderSize * 8)) sizeBits 0 0 f
    (by rw [hpos, hmax, connectionlessPacketHeaderSize]; omega)
  generalize hw : (setSupervisor sizeBits 0 0).writeHandshakePacket f
    (PacketHeader.new (connectionlessPacketHeaderSize * 8)) = w at hbegun hrecorded
  have hwpos := hrecorded.pos
  have hwmax := hrecorded.max.trans hmax
  rw [hpos] at hwpos
  have hbytes : w.getNumBytes = 33 + f.randomData.length := by unfold BitWriter.getNumBytes; omega
  have hsize := w.size_eq
  rw [hwmax, connectionlessPacketHeaderSize] at hsize
  have hlen : (PacketHeader.headerSealed w ++ []).length = 100 := by
    rw [List.append_nil, PacketHeader.headerSealed, List.length_set, hsize]
  have hfst : (byteAt (PacketHeader.headerSealed w ++ []) 0).toNat = 33 + f.randomData.length := by
    rw [List.append_nil, PacketHeader.headerSealed, byteAt_set _ (by omega), if_pos rfl, hbytes, BitVec.toNat_ofNat]
    omega
  obtain ⟨buf, hbuf, hbits⟩ := ofEvent_sealed w (by omega) (by omega) [] (PacketHeader.headerSealed w ++ []).length
  have hread := readFields_begun (Or.inr (by omega)) (fun i h => by rw [Nat.zero_testBit] at h; cases h) hbegun hbits
  rw [Nat.mod_eq_of_lt hf.sessionID, Nat.mod_eq_of_lt hf.clientID] at hread
  have hdatagram : datagramOf ((setSupervisor sizeBits 0 0).writeHandshakePacket f) nowUs = PacketHeader.headerSealed w ++ [] :=
    wire_build hw hwmax nowUs
  refine ⟨?_, ?_, ?_, ?_, ?_⟩
  · rw [hdatagram]
    exact hlen
  · rw [hdatagram]
    exact hfst
  · rw [hdatagram, hw, hbytes, hfst]
  · rw [hdatagram, hbuf, hbytes, hfst]
  · rw [hdatagram, hbuf]
    refine ⟨_, _, hread, rfl, parseHandshakeData_recorded hrecorded hf (by rw [hbytes]; omega) ?_⟩
    intro i hi
    rw [hbits _ (by omega), hpos]
    congr 1
    omega

/-- The filler of `SendInitialPacket` is a record of a zero time stamp and a zero cookie. -/
theorem sendInitialPacket_eq (u : UdpConnectionProcessor) (count sessionID clientID : ℕ) (randomData : List Byte)
    {w : BitWriter} (hroom : ((u.beginHandshakePacket
      ⟨0, count, sessionID, clientID, false, [], [], randomData⟩ w).writeBit false).AllowAppend (28 * 8)) :
    u.sendInitialPacket count sessionID clientID randomData w = u.writeHandshakePacket ⟨0, count, sessionID, clientID,
      false, List.replicate 8 0, List.replicate 20 0, randomData⟩ w := by
  unfold sendInitialPacket writeHandshakePacket cookieByteSize
  simp only
  have hsame : u.beginHandshakePacket ⟨0, count, sessionID, clientID, false, [], [], randomData⟩ w =
      u.beginHandshakePacket
        ⟨0, count, sessionID, clientID, false, List.replicate 8 0, List.replicate 20 0, randomData⟩ w := rfl
  rw [← hsame]
  generalize (u.beginHandshakePacket ⟨0, count, sessionID, clientID, false, [], [], randomData⟩ w).writeBit false = w'
    at hroom ⊢
  unfold BitWriter.AllowAppend at hroom
  have h28 := BitWriter.serialize_wrote (w := w') (List.replicate 28 0) (n := 28) hroom
  have h8 := BitWriter.serialize_wrote (w := w') (List.replicate 8 0) (n := 8) (by unfold BitWriter.AllowAppend; omega)
  have h20 := BitWriter.serialize_wrote (w := w'.serialize (List.replicate 8 0) 8) (List.replicate 20 0) (n := 20)
    (by unfold BitWriter.AllowAppend; rw [h8.pos, h8.max]; omega)
  have hall := h8.trans h20
  rw [BitWriter.ext_of_bits (w := (w'.serialize (List.replicate 8 0) 8).serialize (List.replicate 20 0) 20)
    (h28.pos.trans hall.pos.symm) (h28.max.trans hall.max.symm) (h28.error.trans hall.error.symm) fun i => ?_]
  rw [h28.bit, hall.bit]
  simp only [bitOf_replicate_zero, ite_self]

theorem HandshakeTrips.congr {func func' : BitWriter → BitWriter} {nowUs : ℕ} (h : HandshakeTrips u func nowUs f)
    (heq : func' (PacketHeader.new (connectionlessPacketHeaderSize * 8)) =
      func (PacketHeader.new (connectionlessPacketHeaderSize * 8))) : HandshakeTrips u func' nowUs f := by
  have hdatagram : datagramOf func' nowUs = datagramOf func nowUs := by
    unfold datagramOf ProcessorPacketBuilder.build
    rw [heq]
  obtain ⟨hlength, hsize, hwritten, hframed, hparsed⟩ := h
  rw [← heq] at hwritten
  rw [← hdatagram] at hlength hsize hwritten hframed hparsed
  exact ⟨hlength, hsize, hwritten, hframed, hparsed⟩

theorem sendInitialPacket_trips (hdefault : sizeBits ≤ 1) {count sessionID clientID : ℕ} {randomData : List Byte}
    (hf : Fits ⟨0, count, sessionID, clientID, false, List.replicate 8 0, List.replicate 20 0, randomData⟩) (nowUs : ℕ) :
    HandshakeTrips (setSupervisor sizeBits 0 0)
      ((setSupervisor sizeBits 0 0).sendInitialPacket count sessionID clientID randomData) nowUs
      ⟨0, count, sessionID, clientID, false, List.replicate 8 0, List.replicate 20 0, randomData⟩ := by
  obtain ⟨hpos, hmax⟩ := packetHeader_new (connectionlessPacketHeaderSize * 8) (by decide)
  refine (writeHandshakePacket_trips hdefault hf nowUs).congr (sendInitialPacket_eq _ _ _ _ _ ?_)
  have hheaded := beginHandshakePacket_headed (w := PacketHeader.new (connectionlessPacketHeaderSize * 8)) sizeBits 0 0
    ⟨0, count, sessionID, clientID, false, [], [], randomData⟩
    (by rw [hpos, hmax, connectionlessPacketHeaderSize]; omega)
  obtain ⟨p0, m0, -⟩ := hheaded
  rw [hpos] at p0
  have m0 : _ = 800 := m0.trans hmax
  have h1 := BitWriter.writeBit_wrote (w := (setSupervisor sizeBits 0 0).beginHandshakePacket
    ⟨0, count, sessionID, clientID, false, [], [], randomData⟩
    (PacketHeader.new (connectionlessPacketHeaderSize * 8))) false (by unfold BitWriter.AllowAppend; omega)
  unfold BitWriter.AllowAppend
  rw [h1.pos, h1.max]
  omega

/-- A handshake packet that trips is marked as one, by `Incoming` and, if it has the expected session, by
`IncomingConnectionless`. -/
theorem HandshakeTrips.marked {func : BitWriter → BitWriter} {nowUs : ℕ} (h : HandshakeTrips u func nowUs f) :
    (u.incoming (RecvPacketReader.ofEvent (datagramOf func nowUs) (datagramOf func nowUs).length)).bConnectionlessPacket =
        true ∧
      (f.sessionID = expectedSessionId → (u.incomingConnectionless
        (RecvPacketReader.ofEvent (datagramOf func nowUs) (datagramOf func nowUs).length)).bConnectionlessPacket = true) := by
  obtain ⟨header, rest, hread, herror, hparse⟩ := h.parsed
  have hok : (parseHandshakePacket header).1 = true := by
    rw [← parseHandshakeData_snd, hparse]
  refine ⟨?_, fun hsession => ?_⟩
  · rw [incoming_of_some hread, herror, hok]
    rfl
  · rw [incomingConnectionless_of_some hread hsession herror, hok]
    rfl

/-- What each of the four senders writes is parsed again as it was written, the filler of `SendInitialPacket` as a zero time
stamp and a zero cookie. -/
theorem handshake_round_trip (hdefault : sizeBits ≤ 1) (hf : Fits f) (nowUs : ℕ) :
    HandshakeTrips (setSupervisor sizeBits 0 0) ((setSupervisor sizeBits 0 0).sendInitialPacket
      f.sentHandshakePacketCount f.sessionID f.clientID f.randomData) nowUs
      { f with handshakePacketType := 0, secretId := false, timeStamp := List.replicate 8 0, cookie := List.replicate 20 0 } ∧
    HandshakeTrips (setSupervisor sizeBits 0 0) ((setSupervisor sizeBits 0 0).sendConnectChallenge f.handshakePacketType
      f.sentHandshakePacketCount f.sessionID f.clientID f.secretId f.timeStamp f.cookie f.randomData) nowUs f ∧
    (∀ handshakeData : ParsedHandshakeData, handshakeData.secretId = f.secretId → handshakeData.timeStamp = f.timeStamp →
      handshakeData.cookie = f.cookie →
        HandshakeTrips (setSupervisor sizeBits 0 0) ((setSupervisor sizeBits 0 0).sendChallengeResponse handshakeData
          f.sentHandshakePacketCount f.sessionID f.clientID f.randomData) nowUs { f with handshakePacketType := 2 }) ∧
    HandshakeTrips (setSupervisor sizeBits 0 0) ((setSupervisor sizeBits 0 0).sendChallengeAck f.handshakePacketType
      f.sentHandshakePacketCount f.sessionID f.clientID f.cookie f.randomData) nowUs
      { f with secretId := true, timeStamp := lastUpdateTime } := by
  obtain ⟨htype, hcount, hsession, hclient, htime, hcookie, hrandom⟩ := hf
  have hlast : lastUpdateTime.length = 8 := leBytes_length 8 _
  have hinitial : Fits { f with
      handshakePacketType := 0, secretId := false, timeStamp := List.replicate 8 0, cookie := List.replicate 20 0 } :=
    ⟨Nat.zero_le 3, hcount, hsession, hclient, List.length_replicate, List.length_replicate, hrandom⟩
  have hresponse : Fits { f with handshakePacketType := 2 } :=
    ⟨Nat.le_succ 2, hcount, hsession, hclient, htime, hcookie, hrandom⟩
  have hack : Fits { f with secretId := true, timeStamp := lastUpdateTime } :=
    ⟨htype, hcount, hsession, hclient, hlast, hcookie, hrandom⟩
  refine ⟨sendInitialPacket_trips hdefault hinitial nowUs, ?_, ?_, ?_⟩
  · exact writeHandshakePacket_trips hdefault ⟨htype, hcount, hsession, hclient, htime, hcookie, hrandom⟩ nowUs
  · rintro ⟨_, _, _, secretId, timeStamp, cookie⟩ rfl rfl rfl
    exact writeHandshakePacket_trips hdefault hresponse nowUs
  · exact writeHandshakePacket_trips hdefault hack nowUs

def challengeFields : HandshakeFields :=
  ⟨1, 5, 0, 3, true, leBytes 8 0x4000000000000000, List.replicate 20 171, List.replicate 8 7⟩

theorem handshake_round_trip_challenge : HandshakeTrips (setSupervisor 1 0 0) ((setSupervisor 1 0 0).sendConnectChallenge 1 5
    0 3 true (leBytes 8 0x4000000000000000) (List.replicate 20 171) (List.replicate 8 7)) 0 challengeFields :=
  (handshake_round_trip (f := challengeFields) (Nat.le_refl 1) ⟨by decide, by decide, by decide, by decide,
    leBytes_length 8 _, List.length_replicate, by decide⟩ 0).2.1

end UdpConnectionProcessor

end RudpEngine

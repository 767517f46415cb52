import RudpEngine.HeaderTrip

/-!
# The magic header

Both kinds of packet start with the magic header, the session, the client and
the handshake bit. `BeginHandshakePacket` writes the magic header it is set to;
`Outgoing` writes zeros and marks the writer, which nobody looks at.
-/

namespace RudpEngine

namespace BitWriter

variable {w w' w'' : BitWriter}

def writeBit (w : BitWriter) (bit : Bool) : BitWriter := w.serializeBits [if bit then 1 else 0] 1

structure Extends (w w' : BitWriter) : Prop where
  pos : w.pos ≤ w'.pos
  max : w'.max = w.max
  bit : ∀ i < w.pos, bitOf w'.buffer i = bitOf w.buffer i

theorem Extends.refl (w : BitWriter) : Extends w w := ⟨Nat.le_refl _, rfl, fun _ _ => rfl⟩

theorem Extends.trans (h : Extends w w') (h' : Extends w' w'') : Extends w w'' :=
  ⟨h.pos.trans h'.pos, h'.max.trans h.max, fun i hi => (h'.bit i (hi.trans_le h.pos)).trans (h.bit i hi)⟩

theorem Wrote.extends {n : ℕ} {f : ℕ → Bool} (h : Wrote w w' n f) : Extends w w' where
  pos := by rw [h.pos]; exact Nat.le_add_right _ _
  max := h.max
  bit i hi := by rw [h.bit, if_neg (by omega)]

theorem serializeBitsWithOffset_extends (w : BitWriter) (src : List Byte) (sourceBit n : ℕ) :
    Extends w (w.serializeBitsWithOffset src sourceBit n) := by
  by_cases h : w.AllowAppend n
  · exact (serializeBitsWithOffset_wrote src sourceBit h).extends
  · rw [serializeBitsWithOffset_of_not h]
    exact .refl w

theorem serializeBits_extends (w : BitWriter) (src : List Byte) (n : ℕ) : Extends w (w.serializeBits src n) := by
  by_cases h : w.AllowAppend n
  · exact (serializeBits_wrote src h).extends
  · rw [serializeBits, dif_neg h]
    exact .refl w

theorem foldl_extends {α : Type} {f : BitWriter → α → BitWriter} (h : ∀ w a, Extends w (f w a)) (as : List α)
    (w : BitWriter) : Extends w (as.foldl f w) := by
  induction as generalizing w with
  | nil => exact .refl w
  | cons a as ih => exact (h w a).trans (ih _)

end BitWriter

/-! ## The two kinds of packet -/

def connectionlessPacketHeaderSize : ℕ := 100

def ProcessorPacketBuilder.build (func : BitWriter → BitWriter) (nowUs : ℕ) : OutReadyPacket :=
  (OutReadyPacket.buildBegin connectionlessPacketHeaderSize).buildEnd
    (PacketHeader.headerSealed (func (PacketHeader.new (connectionlessPacketHeaderSize * 8))))
    connectionlessPacketHeaderSize nowUs

/-- What the writers of handshake packets put behind the size byte. `SendInitialPacket` writes zeros for the time
stamp and the cookie. -/
structure HandshakeFields where
  handshakePacketType : ℕ
  sentHandshakePacketCount : ℕ
  sessionID : ℕ
  clientID : ℕ
  secretId : Bool
  timeStamp : List Byte
  cookie : List Byte
  randomData : List Byte

structure ProcessorFields where
  sessionID : ℕ
  clientID : ℕ
  bHandshakePacket : Bool
  deriving DecidableEq

namespace UdpConnectionProcessor

/-- `ExpectedSessionId`, which nothing sets. -/
def expectedSessionId : ℕ := 0

/-- `SetSupervisor`: the three numbers of the driver's setting. -/
def setSupervisor (magicHeaderSizeBits magicHeaderOffset magicHeader : ℕ) : UdpConnectionProcessor where
  magicHeaderSizeBits := magicHeaderSizeBits
  magicHeaderOffset := magicHeaderOffset
  expectMagicHeader := magicHeader

variable (u : UdpConnectionProcessor)

def beginHandshakePacket (h : HandshakeFields) (handshakePacket : BitWriter) : BitWriter :=
  let handshakePacket := handshakePacket.serializeBitsWithOffset (leBytes 4 u.expectMagicHeader) u.magicHeaderOffset
    u.magicHeaderSizeBits
  let handshakePacket := handshakePacket.serializeBits (leBytes 4 h.sessionID) u.sessionIDSizeBits
  let handshakePacket := handshakePacket.serializeBits (leBytes 4 h.clientID) u.clientIDSizeBits
  let handshakePacket := handshakePacket.writeBit true
  let handshakePacket := handshakePacket.writeBit false
  let handshakePacket := handshakePacket.serializeBits (leBytes 1 h.handshakePacketType) 8
  handshakePacket.serializeBits (leBytes 1 h.sentHandshakePacketCount) 8

def capHandshakePacket (randomData : List Byte) (handshakePacket : BitWriter) : BitWriter :=
  (randomData.foldl (fun w randVal => w.serialize [randVal] 1) handshakePacket).writeBit true

/-- The callbacks of `SendInitialPacket`, `SendConnectChallenge`, `SendChallengeResponse` and `SendChallengeAck`. -/
def writeHandshakePacket (h : HandshakeFields) (buffer : BitWriter) : BitWriter :=
  let buffer := u.beginHandshakePacket h buffer
  let buffer := buffer.writeBit h.secretId
  let buffer := buffer.serialize h.timeStamp 8
  let buffer := buffer.serialize h.cookie cookieByteSize
  capHandshakePacket h.randomData buffer

/-- The front of a packet as `Incoming` and `IncomingConnectionless` read it, where the magic header is the expected one. -/
def readFields (header : BitReader) : Option (ProcessorFields × BitReader) :=
  let (readMagic, header) := header.serializeBitsWithOffset (leBytes 4 0) u.magicHeaderOffset u.magicHeaderSizeBits
  if leNat readMagic ≠ u.expectMagicHeader then none
  else
    let (sessionID, header) := header.serializeBits [0] u.sessionIDSizeBits
    let (clientID, header) := header.serializeBits [0] u.clientIDSizeBits
    let (bHandshakePacket, header) := header.readBit
    some (⟨leNat sessionID, leNat clientID, bHandshakePacket⟩, header)

/-- `IncomingConnectionless`, up to the handshake itself. -/
def incomingConnectionless (r : RecvPacketReader) : RecvPacketReader :=
  let (magicHeader, header) :=
    r.header.serializeBitsWithOffset (leBytes 4 0) u.magicHeaderOffset u.magicHeaderSizeBits
  if leNat magicHeader ≠ u.expectMagicHeader then { r with header := header.setError }
  else
    let (sessionID, header) := header.serializeBits [0] u.sessionIDSizeBits
    let (_, header) := header.serializeBits [0] u.clientIDSizeBits
    if leNat sessionID = expectedSessionId ∧ header.arIsError = false then
      let (bHandshakePacket, header) := header.readBit
      if bHandshakePacket then
        let (parsed, header) := parseHandshakePacket header
        { r with header := header, bConnectionlessPacket := r.bConnectionlessPacket || parsed }
      else { r with header := header }
    else { r with header := header.setError }

variable {u} {r : RecvPacketReader} {fields : ProcessorFields} {header : BitReader}

theorem magic_of_readFields_none {r : BitReader} (h : u.readFields r = none) :
    leNat (r.serializeBitsWithOffset (leBytes 4 0) u.magicHeaderOffset u.magicHeaderSizeBits).1 ≠ u.expectMagicHeader := by
  intro hmagic
  unfold readFields at h
  simp only [if_neg (not_not.mpr hmagic), reduceCtorEq] at h

theorem of_readFields {r : BitReader} (h : u.readFields r = some (fields, header)) :
    leNat (r.serializeBitsWithOffset (leBytes 4 0) u.magicHeaderOffset u.magicHeaderSizeBits).1 = u.expectMagicHeader ∧
      let magic := r.serializeBitsWithOffset (leBytes 4 0) u.magicHeaderOffset u.magicHeaderSizeBits
      let session := magic.2.serializeBits [0] u.sessionIDSizeBits
      let client := session.2.serializeBits [0] u.clientIDSizeBits
      fields = ⟨leNat session.1, leNat client.1, client.2.readBit.1⟩ ∧ header = client.2.readBit.2 := by
  unfold readFields at h
  by_cases hmagic : leNat (r.serializeBitsWithOffset (leBytes 4 0) u.magicHeaderOffset
      u.magicHeaderSizeBits).1 = u.expectMagicHeader
  · simp only [if_neg (not_not.mpr hmagic), Option.some.injEq, Prod.mk.injEq] at h
    exact ⟨hmagic, h.1.symm, h.2.symm⟩
  · simp only [if_pos hmagic, reduceCtorEq] at h

theorem incoming_of_some (h : u.readFields r.header = some (fields, header)) : u.incoming r =
    if fields.bHandshakePacket && !header.arIsError then
      if (parseHandshakePacket header).1 then
        { r with header := (parseHandshakePacket header).2.setAtEnd, bConnectionlessPacket := true }
      else { r with header := (parseHandshakePacket header).2 }
    else { r with header := header } := by
  obtain ⟨hmagic, rfl, rfl⟩ := of_readFields h
  unfold incoming
  simp only [if_neg (not_not.mpr hmagic)]

theorem readBit_error (r : BitReader) : r.readBit.2.arIsError = r.arIsError := by
  unfold BitReader.readBit
  split <;> rfl

theorem incomingConnectionless_of_some (h : u.readFields r.header = some (fields, header))
    (hsession : fields.sessionID = expectedSessionId) (hok : header.arIsError = false) : u.incomingConnectionless r =
      if fields.bHandshakePacket then
        { r with
          header := (parseHandshakePacket header).2
          bConnectionlessPacket := r.bConnectionlessPacket || (parseHandshakePacket header).1 }
      else { r with header := header } := by
  obtain ⟨hmagic, rfl, rfl⟩ := of_readFields h
  rw [readBit_error] at hok
  unfold incomingConnectionless
  simp only [if_neg (not_not.mpr hmagic)]
  rw [if_pos ⟨hsession, hok⟩]

/-! ## Reading -/

theorem serializeBits_byte {r : BitReader} {n v : ℕ} (h : BitReader.Holds r n) (hn : n ≤ 8) (hv : v < 2 ^ n)
    (hbits : ∀ i < n, bitOf r.buffer (r.pos + i) = v.testBit i) :
    leNat (r.serializeBits [0] n).1 = v ∧ (r.serializeBits [0] n).2 = { r with pos := r.pos + n } := by
  obtain ⟨hr, hlen, hread⟩ := BitReader.serializeBits_read h [0] (by simpa using hn)
  refine ⟨Nat.eq_of_testBit_eq fun i => ?_, hr⟩
  rw [testBit_leNat]
  by_cases hi : i < n
  · rw [hread i hi, hbits i hi]
  · have hle : 2 ^ n ≤ 2 ^ i := Nat.pow_le_pow_right (by decide) (by omega)
    rw [Nat.testBit_lt_two_pow (hv.trans_le hle)]
    -- above the bits that were copied the byte stays zero
    rw [BitReader.serializeBits, if_neg h.not_over]
    by_cases h1 : n = 1
    · subst h1
      rw [if_pos rfl]
      have hone : ∀ j, bitOf [(1 : Byte)] (j + 1) = false := by
        intro j
        have hz : bitOf ([(0 : Byte)].set 0 1) (j + 1) = _ := bitOf_set [0] (by decide) 1 (j + 1)
        rw [List.set_cons_zero] at hz
        rw [hz]
        split
        · show (1#8).getLsbD _ = false
          rw [BitVec.getLsbD_one, decide_eq_false (by omega : ¬ (j + 1) % 8 = 0), Bool.and_false]
        · exact bitOf_replicate_zero 1 _
      obtain ⟨j, rfl⟩ : ∃ j, i = j + 1 := ⟨i - 1, by omega⟩
      cases bitOf r.buffer r.pos
      · exact bitOf_replicate_zero 1 _
      · exact hone j
    · rw [if_neg h1]
      by_cases h0 : n = 0
      · subst h0
        exact bitOf_replicate_zero 1 i
      · have hset : [(0 : Byte)].set ((n + 7) / 8 - 1) 0 = [0] := by
          rw [show (n + 7) / 8 - 1 = 0 by omega]
          rfl
        rw [if_pos h0, hset, bitOf_appBitsCpy _ (by simpa using hn), if_neg (by omega)]
        exact bitOf_replicate_zero 1 i

variable {sizeBits offset magic : ℕ}

theorem readMagic_testBit {r : BitReader} (h : BitReader.Holds r sizeBits)
    (hbounds : sizeBits = 0 ∨ offset + sizeBits ≤ 32) (i : ℕ) :
    (leNat (r.serializeBitsWithOffset (leBytes 4 0) offset sizeBits).1).testBit i =
        (decide (offset ≤ i ∧ i < offset + sizeBits) && bitOf r.buffer (r.pos + (i - offset))) ∧
      (r.serializeBitsWithOffset (leBytes 4 0) offset sizeBits).2 = { r with pos := r.pos + sizeBits } := by
  rw [BitReader.serializeBitsWithOffset, if_neg h.not_over, testBit_leNat]
  by_cases h0 : sizeBits = 0
  · subst h0
    rw [if_neg (not_not_intro rfl), decide_eq_false (by omega)]
    exact ⟨bitOf_leBytes_zero 4 i, rfl⟩
  · have hfit : offset + sizeBits ≤ 8 * (leBytes 4 0).length := hbounds.resolve_left h0
    rw [if_pos h0, bitOf_appBitsCpy _ hfit]
    refine ⟨?_, rfl⟩
    by_cases hi : offset ≤ i ∧ i < offset + sizeBits
    · rw [if_pos hi, decide_eq_true hi, Bool.true_and]
    · rw [if_neg hi, decide_eq_false hi, Bool.false_and]
      exact bitOf_leBytes_zero 4 i

theorem readFields_eq_some {r : BitReader} (h : BitReader.Holds r (sizeBits + 6))
    (hbounds : sizeBits = 0 ∨ offset + sizeBits ≤ 32)
    (hmagic : ∀ i, magic.testBit i = (decide (offset ≤ i ∧ i < offset + sizeBits) && bitOf r.buffer (r.pos + (i - offset))))
    (hsession : ∀ i < 2, bitOf r.buffer (r.pos + sizeBits + i) = fields.sessionID.testBit i)
    (hclient : ∀ i < 3, bitOf r.buffer (r.pos + sizeBits + 2 + i) = fields.clientID.testBit i)
    (hbit : bitOf r.buffer (r.pos + sizeBits + 2 + 3) = fields.bHandshakePacket)
    (hs : fields.sessionID < 4) (hc : fields.clientID < 8) :
    (setSupervisor sizeBits offset magic).readFields r = some (fields, { r with pos := r.pos + sizeBits + 6 }) := by
  obtain ⟨hn, hle⟩ := h
  have hread := readMagic_testBit (r := r) ⟨hn, by omega⟩ hbounds
  have hvalue : leNat (r.serializeBitsWithOffset (leBytes 4 0) offset sizeBits).1 = magic :=
    Nat.eq_of_testBit_eq fun i => by rw [(hread i).1, hmagic i]
  obtain ⟨hs1, hs2⟩ := serializeBits_byte (r := { r with pos := r.pos + sizeBits }) (n := 2) ⟨hn, by simp only; omega⟩
    (by decide) hs hsession
  obtain ⟨hc1, hc2⟩ := serializeBits_byte (r := { r with pos := r.pos + sizeBits + 2 }) (n := 3) ⟨hn, by simp only; omega⟩
    (by decide) hc hclient
  have hb := BitReader.readBit_read (r := { r with pos := r.pos + sizeBits + 2 + 3 }) ⟨hn, by simp only; omega⟩
  unfold readFields setSupervisor
  simp only [(hread 0).2, hvalue, ne_eq, not_true_eq_false, if_false, hs1, hs2, hc1, hc2, hb, hbit]

theorem readFields_eq_none {r : BitReader} (h : BitReader.Holds r sizeBits)
    (hbounds : sizeBits = 0 ∨ offset + sizeBits ≤ 32) (hzero : ∀ i < sizeBits, bitOf r.buffer (r.pos + i) = false)
    (hmagic : magic ≠ 0) : (setSupervisor sizeBits offset magic).readFields r = none := by
  have hvalue : leNat (r.serializeBitsWithOffset (leBytes 4 0) offset sizeBits).1 = 0 := by
    apply Nat.eq_of_testBit_eq
    intro i
    rw [(readMagic_testBit h hbounds i).1, Nat.zero_testBit]
    by_cases hi : offset ≤ i ∧ i < offset + sizeBits
    · rw [hzero _ (by omega), Bool.and_false]
    · rw [decide_eq_false hi, Bool.false_and]
  unfold readFields setSupervisor
  simp only [hvalue, ne_eq, hmagic.symm, not_false_eq_true, if_true]

/-! ## On the wire -/

theorem ofEvent_sealed (w : BitWriter) (hpos : 8 ≤ w.pos) (hbytes : w.getNumBytes < 256) (payload : List Byte) (n : ℕ) :
    ∃ buf, (RecvPacketReader.ofEvent (PacketHeader.headerSealed w ++ payload) n).header =
        ⟨buf, (w.getNumBytes - 1) * 8, 0, false⟩ ∧
      ∀ i, 8 + i < w.pos → bitOf buf i = bitOf w.buffer (8 + i) := by
  have hsize := w.size_eq
  have hle := w.pos_le
  unfold BitWriter.getNumBytes at *
  have hlen : (PacketHeader.headerSealed w).length = w.buffer.length := by rw [PacketHeader.headerSealed, List.length_set]
  have hfst : byteAt (PacketHeader.headerSealed w ++ payload) 0 = BitVec.ofNat 8 ((w.pos + 7) / 8) := by
    rw [byteAt_append_left _ (by omega), PacketHeader.headerSealed, byteAt_set _ (by omega), if_pos rfl,
      BitWriter.getNumBytes, Nat.mod_eq_of_lt (by omega)]
  have hcount : (BitVec.ofNat 8 ((w.pos + 7) / 8) - 1#8).toNat = (w.pos + 7) / 8 - 1 := by
    rw [BitVec.toNat_sub, BitVec.toNat_ofNat]
    simp only [BitVec.toNat_ofNat]
    omega
  refine ⟨((PacketHeader.headerSealed w ++ payload).drop 1).take ((w.pos + 7) / 8 - 1), ?_, fun i hi => ?_⟩
  · rw [RecvPacketReader.ofEvent, hfst]
    simp only
    rw [show (BitVec.ofNat 8 ((w.pos + 7) / 8) - 1).toNat = _ from hcount, BitReader.ofBytes_whole]
  · rw [bitOf_take (by omega), bitOf_drop, bitOf_append_left _ (by omega), PacketHeader.headerSealed,
      bitOf_set _ (by omega), if_neg (by omega)]

theorem packetHeader_new (bits : ℕ) (h : 8 ≤ bits) :
    (PacketHeader.new bits).pos = 8 ∧ (PacketHeader.new bits).max = bits := by
  have hw := BitWriter.serializeBitsWithOffset_wrote (w := BitWriter.ofMaxBits bits) [0] 0 (n := 1 * 8)
    (show 0 + 1 * 8 ≤ bits by omega)
  exact ⟨hw.pos, hw.max⟩

theorem writeHeaderCallback_extends (u : UdpConnectionProcessor) (buffer : BitWriter) (p : NetPacketNotify) :
    BitWriter.Extends (u.outgoing buffer) (writeHeaderCallback u buffer p).1 := by
  have hcallback : (writeHeaderCallback u buffer p).1 = p.inSeqHistory.write ((u.outgoing buffer).writeU32
      (PackedHeader.pack p.outSeq p.inAckSeq (p.currentHistoryWordCount - 1))) p.currentHistoryWordCount := by
    simp [writeHeaderCallback, NetPacketNotify.writeHeader]
  rw [hcallback]
  have hpacked : BitWriter.Extends (u.outgoing buffer) ((u.outgoing buffer).writeU32
      (PackedHeader.pack p.outSeq p.inAckSeq (p.currentHistoryWordCount - 1))) :=
    BitWriter.serializeBitsWithOffset_extends _ _ _ _
  exact hpacked.trans (BitWriter.foldl_extends (fun w word => BitWriter.serializeBitsWithOffset_extends w _ _ _) _ _)

/-- The zeros that `Outgoing` starts with: all its fields, or the magic header alone. -/
theorem outgoing_zero (sizeBits offset magic : ℕ) {w : BitWriter} (h : w.AllowAppend (sizeBits + 6)) :
    w.pos + (if magic = 0 then sizeBits + 6 else sizeBits) ≤ ((setSupervisor sizeBits offset magic).outgoing w).pos ∧
      ((setSupervisor sizeBits offset magic).outgoing w).max = w.max ∧
      ∀ i, w.pos ≤ i → i < w.pos + (if magic = 0 then sizeBits + 6 else sizeBits) →
        bitOf ((setSupervisor sizeBits offset magic).outgoing w).buffer i = false := by
  unfold outgoing setSupervisor
  by_cases hmagic : magic = 0
  · have hall := zeroFields_wrote offset h
    simp only [hmagic, ne_eq, not_true_eq_false, if_false, if_true]
    refine ⟨hall.pos.ge, hall.max, fun i hlo hi => ?_⟩
    show bitOf ((((w.serializeBitsWithOffset (leBytes 4 0) offset sizeBits).serializeBits [0] 2).serializeBits [0]
      3).serializeBits [0] 1).buffer i = false
    rw [hall.bit, if_pos ⟨hlo, hi⟩]
  · have h1 := BitWriter.serializeBitsWithOffset_wrote (w := w) (leBytes 4 0) offset (n := sizeBits)
      (by unfold BitWriter.AllowAppend at h ⊢; omega)
    simp only [hmagic, Ne.symm hmagic, ne_eq, not_false_eq_true, if_true, if_false]
    refine ⟨h1.pos.ge, h1.max, fun i hlo hi => ?_⟩
    show bitOf (w.serializeBitsWithOffset (leBytes 4 0) offset sizeBits).buffer i = false
    rw [h1.bit, if_pos ⟨hlo, hi⟩]
    exact bitOf_leBytes_zero 4 _

/-- The header of a connection packet, and what follows it in the datagram. -/
def connectionDatagram (u : UdpConnectionProcessor) (packet : OutReadyPacket) (nowUs : ℕ) (p : NetPacketNotify)
    (payload : List Byte) : List Byte :=
  (ConnectionPacketBuilder.buildEnd packet (writeHeaderCallback u) nowUs p).1.header.take packetHeaderSize ++ payload

theorem connectionDatagram_reader (sizeBits offset magic : ℕ) (packet : OutReadyPacket) (nowUs : ℕ) (p : NetPacketNotify) (payload : List Byte)
    (h : sizeBits ≤ 32) (n : ℕ) :
    ∃ buf k, (RecvPacketReader.ofEvent
        (connectionDatagram (setSupervisor sizeBits offset magic) packet nowUs p payload) n).header = ⟨buf, k, 0, false⟩ ∧
      (if magic = 0 then sizeBits + 6 else sizeBits) ≤ k ∧
      ∀ i < (if magic = 0 then sizeBits + 6 else sizeBits), bitOf buf i = false := by
  obtain ⟨hpos, hmax⟩ := packetHeader_new (packetHeaderSize * 8) (by decide)
  obtain ⟨hlo, hmax', hzero⟩ := outgoing_zero sizeBits offset magic (w := PacketHeader.new (packetHeaderSize * 8))
    (by unfold BitWriter.AllowAppend; rw [hpos, hmax, packetHeaderSize]; omega)
  have hext := writeHeaderCallback_extends (setSupervisor sizeBits offset magic) (PacketHeader.new (packetHeaderSize * 8)) p
  generalize (if magic = 0 then sizeBits + 6 else sizeBits) = m at *
  generalize hw : (writeHeaderCallback (setSupervisor sizeBits offset magic) (PacketHeader.new (packetHeaderSize * 8)) p).1 = w at *
  have hle := w.pos_le
  have hsize := w.size_eq
  rw [hext.max, hmax', hmax, packetHeaderSize] at hle hsize
  have hwpos := hext.pos
  have hlen : (PacketHeader.headerSealed w).length = 10 := by rw [PacketHeader.headerSealed, List.length_set, hsize]
  have hbytes : w.getNumBytes < 256 := by unfold BitWriter.getNumBytes; omega
  have hdatagram : connectionDatagram (setSupervisor sizeBits offset magic) packet nowUs p payload =
      PacketHeader.headerSealed w ++ payload := by
    unfold connectionDatagram ConnectionPacketBuilder.buildEnd OutReadyPacket.buildEnd
    simp only [hw]
    rw [List.take_append_of_le_length (by rw [List.length_take, hlen]; decide), List.take_take, Nat.min_self,
      List.take_of_length_le (by rw [hlen]; decide)]
  obtain ⟨buf, hbuf, hbits⟩ := ofEvent_sealed w (by omega) hbytes payload n
  have hroom : m ≤ (w.getNumBytes - 1) * 8 := by unfold BitWriter.getNumBytes; omega
  refine ⟨buf, (w.getNumBytes - 1) * 8, by rw [hdatagram, hbuf], hroom, fun i hi => ?_⟩
  rw [hbits i (by omega), hext.bit _ (by omega), hzero _ (by omega) (by omega)]

structure Begun (sizeBits offset magic : ℕ) (f : HandshakeFields) (w w' : BitWriter) : Prop where
  pos : w.pos + sizeBits + 6 ≤ w'.pos
  max : w'.max = w.max
  magic : ∀ i < sizeBits, bitOf w'.buffer (w.pos + i) = bitOf (leBytes 4 magic) (offset + i)
  session : ∀ i < 2, bitOf w'.buffer (w.pos + sizeBits + i) = bitOf (leBytes 4 f.sessionID) i
  client : ∀ i < 3, bitOf w'.buffer (w.pos + sizeBits + 2 + i) = bitOf (leBytes 4 f.clientID) i
  handshake : bitOf w'.buffer (w.pos + sizeBits + 2 + 3) = true

theorem Begun.extends {f : HandshakeFields} {w w' w'' : BitWriter} (h : Begun sizeBits offset magic f w w')
    (hext : BitWriter.Extends w' w'') : Begun sizeBits offset magic f w w'' := by
  have hpos := h.pos
  refine ⟨hpos.trans hext.pos, hext.max.trans h.max, ?_, ?_, ?_, ?_⟩
  · intro i hi
    rw [hext.bit _ (by omega), h.magic i hi]
  · intro i hi
    rw [hext.bit _ (by omega), h.session i hi]
  · intro i hi
    rw [hext.bit _ (by omega), h.client i hi]
  · rw [hext.bit _ (by omega), h.handshake]

theorem beginHandshakePacket_begun (sizeBits offset magic : ℕ) {w : BitWriter} (h : w.AllowAppend (sizeBits + 6)) (f : HandshakeFields) :
    Begun sizeBits offset magic f w ((setSupervisor sizeBits offset magic).beginHandshakePacket f w) := by
  unfold BitWriter.AllowAppend at h
  have h1 := BitWriter.serializeBitsWithOffset_wrote (w := w) (leBytes 4 magic) offset (n := sizeBits)
    (by unfold BitWriter.AllowAppend; omega)
  have h2 := BitWriter.serializeBits_wrote (leBytes 4 f.sessionID) (n := 2)
    (by unfold BitWriter.AllowAppend; rw [h1.pos, h1.max]; omega)
  have h12 := h1.trans h2
  have h3 := BitWriter.serializeBits_wrote (leBytes 4 f.clientID) (n := 3)
    (by unfold BitWriter.AllowAppend; rw [h12.pos, h12.max]; omega)
  have h13 := h12.trans h3
  have h4 := BitWriter.serializeBits_wrote [1] (n := 1) (by unfold BitWriter.AllowAppend; rw [h13.pos, h13.max]; omega)
  have hall := h13.trans h4
  have hrest : ∀ w : BitWriter, BitWriter.Extends w (((w.writeBit false).serializeBits
      (leBytes 1 f.handshakePacketType) 8).serializeBits (leBytes 1 f.sentHandshakePacketCount) 8) := fun w =>
    ((BitWriter.serializeBits_extends w _ 1).trans (BitWriter.serializeBits_extends _ _ 8)).trans
      (BitWriter.serializeBits_extends _ _ 8)
  refine Begun.extends ⟨by rw [hall.pos]; omega, hall.max, ?_, ?_, ?_, ?_⟩ (hrest _)
  · intro i hi
    rw [hall.bit, if_pos (by omega), Nat.add_sub_cancel_left, if_pos (by omega), if_pos (by omega), if_pos hi]
  · intro i hi
    rw [hall.bit, if_pos (by omega), Nat.add_assoc, Nat.add_sub_cancel_left, if_pos (by omega), if_pos (by omega),
      if_neg (by omega), Nat.add_sub_cancel_left]
  · intro i hi
    rw [hall.bit, if_pos (by omega), show w.pos + sizeBits + 2 + i - w.pos = sizeBits + 2 + i by omega, if_pos (by omega),
      if_neg (by omega), Nat.add_sub_cancel_left]
  · rw [hall.bit, if_pos (by omega), show w.pos + sizeBits + 2 + 3 - w.pos = sizeBits + 2 + 3 by omega, if_neg (by omega),
      Nat.sub_self]
    decide

theorem beginHandshakePacket_extends (u : UdpConnectionProcessor) (f : HandshakeFields) (w : BitWriter) :
    BitWriter.Extends (u.beginHandshakePacket f w) (u.writeHandshakePacket f w) := by
  unfold writeHandshakePacket capHandshakePacket
  have hsecret := BitWriter.serializeBits_extends (u.beginHandshakePacket f w) [if f.secretId then 1 else 0] 1
  have htime := hsecret.trans (BitWriter.serializeBitsWithOffset_extends _ f.timeStamp 0 (8 * 8))
  have hcookie := htime.trans (BitWriter.serializeBitsWithOffset_extends _ f.cookie 0 (cookieByteSize * 8))
  refine (hcookie.trans ?_).trans (BitWriter.serializeBits_extends _ [1] 1)
  exact BitWriter.foldl_extends (fun w randVal => BitWriter.serializeBitsWithOffset_extends w [randVal] 0 (1 * 8)) _ _

def handshakeDatagram (u : UdpConnectionProcessor) (f : HandshakeFields) (nowUs : ℕ) : List Byte :=
  (ProcessorPacketBuilder.build (u.writeHandshakePacket f) nowUs).packetSealed.wire

theorem wire_build {func : BitWriter → BitWriter} {w : BitWriter}
    (hw : func (PacketHeader.new (connectionlessPacketHeaderSize * 8)) = w)
    (hmax : w.max = connectionlessPacketHeaderSize * 8) (nowUs : ℕ) :
    (ProcessorPacketBuilder.build func nowUs).packetSealed.wire = PacketHeader.headerSealed w ++ [] := by
  have hsize := w.size_eq
  rw [hmax, connectionlessPacketHeaderSize] at hsize
  have hlen : (PacketHeader.headerSealed w).length = 100 := by rw [PacketHeader.headerSealed, List.length_set, hsize]
  unfold ProcessorPacketBuilder.build OutReadyPacket.packetSealed OutReadyPacket.wire OutReadyPacket.buildEnd
    OutReadyPacket.buildBegin
  rw [hw]
  simp only [connectionlessPacketHeaderSize, Bool.not_true, Bool.false_eq_true, if_false, List.flatMap_nil,
    List.flatMap_cons, List.drop_replicate, List.append_nil, Nat.sub_self, List.replicate_zero]
  rw [List.take_take, Nat.min_self, List.take_of_length_le (by omega)]

/-- The front of a handshake packet is read back where the magic header has its bits in the place that is written. -/
theorem readFields_begun (hbounds : sizeBits = 0 ∨ offset + sizeBits ≤ 32)
    (hmagic : ∀ i, magic.testBit i = true → offset ≤ i ∧ i < offset + sizeBits) {f : HandshakeFields} {w : BitWriter}
    (hbegun : Begun sizeBits offset magic f (PacketHeader.new (connectionlessPacketHeaderSize * 8)) w) {buf : List Byte}
    (hbits : ∀ i, 8 + i < w.pos → bitOf buf i = bitOf w.buffer (8 + i)) :
    (setSupervisor sizeBits offset magic).readFields ⟨buf, (w.getNumBytes - 1) * 8, 0, false⟩ =
      some (⟨f.sessionID % 4, f.clientID % 8, true⟩, ⟨buf, (w.getNumBytes - 1) * 8, sizeBits + 6, false⟩) := by
  obtain ⟨hpos, -⟩ := packetHeader_new (connectionlessPacketHeaderSize * 8) (by decide)
  obtain ⟨hwpos, -, hm, hs, hc, hh⟩ := hbegun
  rw [hpos] at hwpos hm hs hc hh
  have hroom : sizeBits + 6 ≤ (w.getNumBytes - 1) * 8 := by unfold BitWriter.getNumBytes; omega
  have hread : (setSupervisor sizeBits offset magic).readFields ⟨buf, (w.getNumBytes - 1) * 8, 0, false⟩ =
      some (⟨f.sessionID % 4, f.clientID % 8, true⟩, ⟨buf, (w.getNumBytes - 1) * 8, 0 + sizeBits + 6, false⟩) := by
    refine readFields_eq_some ⟨rfl, by simpa using hroom⟩ hbounds ?_ ?_ ?_ ?_ (Nat.mod_lt _ (by decide))
      (Nat.mod_lt _ (by decide))
    · intro i
      simp only [Nat.zero_add]
      by_cases hi : offset ≤ i ∧ i < offset + sizeBits
      · have hbit := hbits (i - offset) (by omega)
        rw [hm _ (by omega), show offset + (i - offset) = i by omega, bitOf_leBytes 4 magic i (by omega)] at hbit
        rw [decide_eq_true hi, Bool.true_and, hbit]
      · rw [decide_eq_false hi, Bool.false_and, ← Bool.not_eq_true]
        exact fun h => hi (hmagic i h)
    · intro i hi
      simp only [Nat.zero_add]
      have hmod : (f.sessionID % 2 ^ 2).testBit i = f.sessionID.testBit i := by
        rw [Nat.testBit_mod_two_pow, decide_eq_true hi, Bool.true_and]
      rw [hbits _ (by omega), ← Nat.add_assoc, hs i hi, bitOf_leBytes 4 _ i (by omega)]
      exact hmod.symm
    · intro i hi
      simp only [Nat.zero_add]
      have hmod : (f.clientID % 2 ^ 3).testBit i = f.clientID.testBit i := by
        rw [Nat.testBit_mod_two_pow, decide_eq_true hi, Bool.true_and]
      rw [hbits _ (by omega), show 8 + (sizeBits + 2 + i) = 8 + sizeBits + 2 + i by omega, hc i hi,
        bitOf_leBytes 4 _ i (by omega)]
      exact hmod.symm
    · simp only [Nat.zero_add]
      rw [hbits _ (by omega), show 8 + (sizeBits + 2 + 3) = 8 + sizeBits + 2 + 3 by omega, hh]
  rwa [Nat.zero_add] at hread

theorem readFields_handshake (hbounds : sizeBits = 0 ∨ offset + sizeBits ≤ 32)
    (hmagic : ∀ i, magic.testBit i = true → offset ≤ i ∧ i < offset + sizeBits) (f : HandshakeFields) (nowUs n : ℕ) :
    ∃ header, (setSupervisor sizeBits offset magic).readFields (RecvPacketReader.ofEvent
        (handshakeDatagram (setSupervisor sizeBits offset magic) f nowUs) n).header =
          some (⟨f.sessionID % 4, f.clientID % 8, true⟩, header) ∧
      header.pos = sizeBits + 6 ∧ header.arIsError = false := by
  obtain ⟨hpos, hmax⟩ := packetHeader_new (connectionlessPacketHeaderSize * 8) (by decide)
  have hbegun := (beginHandshakePacket_begun sizeBits offset magic (w := PacketHeader.new (connectionlessPacketHeaderSize * 8))
    (by unfold BitWriter.AllowAppend; rw [hpos, hmax, connectionlessPacketHeaderSize]; omega) f).extends
      (beginHandshakePacket_extends _ f _)
  generalize hw : (setSupervisor sizeBits offset magic).writeHandshakePacket f
    (PacketHeader.new (connectionlessPacketHeaderSize * 8)) = w at hbegun
  have hwpos := hbegun.pos
  have hwmax := hbegun.max.trans hmax
  rw [hpos] at hwpos
  have hle := w.pos_le
  rw [hwmax, connectionlessPacketHeaderSize] at hle
  have hbytes : w.getNumBytes < 256 := by unfold BitWriter.getNumBytes; omega
  obtain ⟨buf, hbuf, hbits⟩ := ofEvent_sealed w (by omega) hbytes [] n
  rw [handshakeDatagram, wire_build hw hwmax, hbuf]
  exact ⟨_, readFields_begun hbounds hmagic hbegun hbits, rfl, rfl⟩

/-- Every packet of either kind is accepted and its fields are read back where they were written; and the magic header
is read and written inside its 32 bits. -/
structure HeadersAgree (u : UdpConnectionProcessor) : Prop where
  inBounds : u.magicHeaderSizeBits = 0 ∨ u.magicHeaderOffset + u.magicHeaderSizeBits ≤ 32
  connection : ∀ packet nowUs p payload n, ∃ header, u.readFields (RecvPacketReader.ofEvent
      (connectionDatagram u packet nowUs p payload) n).header = some (⟨0, 0, false⟩, header) ∧
    header.pos = u.magicHeaderSizeBits + 6 ∧ header.arIsError = false
  handshake : ∀ f nowUs n, ∃ header, u.readFields (RecvPacketReader.ofEvent
      (handshakeDatagram u f nowUs) n).header = some (⟨f.sessionID % 4, f.clientID % 8, true⟩, header) ∧
    header.pos = u.magicHeaderSizeBits + 6 ∧ header.arIsError = false

/-- The two endpoints agree on their headers exactly where the magic header is zero and its bits are inside its variable. -/
theorem headersAgree_iff (sizeBits offset magic : ℕ) : HeadersAgree (setSupervisor sizeBits offset magic) ↔
    magic = 0 ∧ (sizeBits = 0 ∨ offset + sizeBits ≤ 32) := by
  constructor
  · rintro ⟨hbounds, hconnection, -⟩
    refine ⟨?_, hbounds⟩
    by_contra hmagic
    change sizeBits = 0 ∨ offset + sizeBits ≤ 32 at hbounds
    have hsize : sizeBits ≤ 32 := by omega
    obtain ⟨header, hread, -⟩ := hconnection ConnectionPacketBuilder.buildStart 0 NetPacketNotify.new [] 0
    obtain ⟨buf, k, hbuf, hk, hzero⟩ := connectionDatagram_reader sizeBits offset magic
      ConnectionPacketBuilder.buildStart 0 NetPacketNotify.new [] hsize 0
    rw [if_neg hmagic] at hk hzero
    have hnone := readFields_eq_none (r := ⟨buf, k, 0, false⟩) ⟨rfl, by simpa using hk⟩ hbounds
      (fun i hi => by simpa using hzero i hi) hmagic
    rw [hbuf, hnone] at hread
    cases hread
  · rintro ⟨rfl, hbounds⟩
    refine ⟨hbounds, ?_, ?_⟩
    · intro packet nowUs p payload n
      obtain ⟨buf, k, hbuf, hk, hzero⟩ := connectionDatagram_reader sizeBits offset 0
        packet nowUs p payload (by omega) n
      rw [if_pos rfl] at hk hzero
      rw [hbuf]
      refine ⟨_, readFields_eq_some ⟨rfl, by simpa using hk⟩ hbounds ?_ ?_ ?_ ?_ (by decide) (by decide), by simp [setSupervisor], rfl⟩
      · intro i
        rw [Nat.zero_testBit]
        by_cases hi : offset ≤ i ∧ i < offset + sizeBits
        · rw [hzero _ (by simp only; omega), Bool.and_false]
        · rw [decide_eq_false hi, Bool.false_and]
      · intro i hi
        rw [hzero _ (by simp only; omega), Nat.zero_testBit]
      · intro i hi
        rw [hzero _ (by simp only; omega), Nat.zero_testBit]
      · rw [hzero _ (by simp only; omega)]
    · intro f nowUs n
      exact readFields_handshake hbounds (fun i h => by rw [Nat.zero_testBit] at h; cases h) f nowUs n

/-- A one-bit magic header that is set: every connection packet is refused. -/
theorem connection_header_refused : ¬ ∀ sizeBits offset magic, sizeBits ≤ 32 → offset + sizeBits ≤ 32 →
    (∀ i, magic.testBit i = true → offset ≤ i ∧ i < offset + sizeBits ∧ i < sizeBits) →
      HeadersAgree (setSupervisor sizeBits offset magic) := by
  intro h
  have hbit : ∀ i, (1 : ℕ).testBit i = true → 0 ≤ i ∧ i < 0 + 1 ∧ i < 1 := by
    intro i hi
    obtain rfl := Nat.testBit_one_eq_true_iff_self_eq_zero.mp hi
    decide
  obtain ⟨header, hread, -⟩ := (h 1 0 1 (by decide) (by decide) hbit).connection
    ConnectionPacketBuilder.buildStart 0 NetPacketNotify.new [] 10
  have hnone : (setSupervisor 1 0 1).readFields (RecvPacketReader.ofEvent (connectionDatagram (setSupervisor 1 0 1)
      ConnectionPacketBuilder.buildStart 0 NetPacketNotify.new []) 10).header = none := by decide +kernel
  rw [hnone] at hread
  cases hread

end UdpConnectionProcessor

end RudpEngine

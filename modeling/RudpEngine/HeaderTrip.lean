import RudpEngine.Processor
import RudpEngine.Run

/-!
# The header on its way

The ten bytes of a packet header have room for the size byte, the processor's
seven bits, the packed header and one word of the receive history. What the
peer reads back is decided by whether the sender needed more than that word.
-/

namespace RudpEngine

def defaultProcessor : UdpConnectionProcessor := {}

/-- A packet's header as `UpdatePacketHeader` fills it, and the notification state behind it. -/
def builtHeader (p : NetPacketNotify) (packet : OutReadyPacket) (nowUs : ℕ) : OutReadyPacket × NetPacketNotify :=
  ConnectionPacketBuilder.buildEnd packet (writeHeaderCallback defaultProcessor) nowUs p

/-- What the peer makes of a datagram: its reader behind `Incoming`, and `ReadHeader`. -/
def peerReads (data : List Byte) : RecvPacketReader × Bool × NotificationHeader :=
  let r := defaultProcessor.incoming (RecvPacketReader.ofEvent data data.length)
  let (ok, h, _) := NetPacketNotify.readHeader r.header
  (r, ok, h)

/-! ## Writing -/

section
variable {w : BitWriter}

theorem writeWords_stuck (ws : List (BitVec 32)) (hw : ¬ w.AllowAppend 32) :
    ws.foldl (fun w word => w.writeU32 word.toNat) w = w := by
  induction ws with
  | nil => rfl
  | cons v ws ih => rw [List.foldl_cons, BitWriter.writeU32_of_not _ hw]; exact ih

theorem storage_cons (h : History) : ∃ v ws, h.storage = v :: ws ∧ ws.length = 7 := by
  have hl := h.size_eq
  cases hst : h.storage with
  | nil => rw [hst] at hl; simp [bitsPerWord] at hl
  | cons v ws => rw [hst] at hl; exact ⟨v, ws, rfl, by simpa [bitsPerWord] using hl⟩

theorem write_one (h : History) {n : ℕ} (hn : 1 ≤ n) (hw : w.AllowAppend 32) (hmax : w.max < w.pos + 64) :
    BitWriter.Wrote w (h.write w n) 32 (h.storage.getD 0 0).toNat.testBit := by
  obtain ⟨v, ws, hs, -⟩ := storage_cons h
  obtain ⟨k, rfl⟩ : ∃ k, n = k + 1 := ⟨n - 1, by omega⟩
  have hfirst := BitWriter.writeU32_wrote v.toNat hw
  have hrest : ¬ (w.writeU32 v.toNat).AllowAppend 32 := by
    unfold BitWriter.AllowAppend; rw [hfirst.pos, hfirst.max]; omega
  rw [SequenceHistory.write, hs, List.take_succ_cons, List.foldl_cons, writeWords_stuck _ hrest]
  exact hfirst

theorem bitOf_leBytes_zero (k i : ℕ) : bitOf (leBytes k 0) i = false := by
  by_cases h : i < 8 * k
  · rw [bitOf_leBytes k 0 i h, Nat.zero_testBit]
  · rw [bitOf, byteAt_of_length_le (by rw [leBytes_length]; omega)]; simp

theorem zeroFields_wrote (offset : ℕ) {sizeBits : ℕ} (h : w.AllowAppend (sizeBits + 6)) :
    BitWriter.Wrote w ((((w.serializeBitsWithOffset (leBytes 4 0) offset sizeBits).serializeBits [0] 2).serializeBits [0]
      3).serializeBits [0] 1) (sizeBits + 6) fun _ => false := by
  unfold BitWriter.AllowAppend at h
  have hz : ∀ i, bitOf [(0 : Byte)] i = false := bitOf_replicate_zero 1
  have h1 := BitWriter.serializeBitsWithOffset_wrote (w := w) (leBytes 4 0) offset (n := sizeBits)
    (by unfold BitWriter.AllowAppend; omega)
  have h2 := BitWriter.serializeBits_wrote [0] (n := 2) (by unfold BitWriter.AllowAppend; rw [h1.pos, h1.max]; omega)
  have h12 := h1.trans h2
  have h3 := BitWriter.serializeBits_wrote [0] (n := 3) (by unfold BitWriter.AllowAppend; rw [h12.pos, h12.max]; omega)
  have h13 := h12.trans h3
  have h4 := BitWriter.serializeBits_wrote [0] (n := 1) (by unfold BitWriter.AllowAppend; rw [h13.pos, h13.max]; omega)
  have hall := h13.trans h4
  simp only [hz, bitOf_leBytes_zero, ite_self] at hall
  exact hall

theorem outgoing_wrote (h : w.AllowAppend 7) : BitWriter.Wrote w (defaultProcessor.outgoing w) 7 fun _ => false :=
  zeroFields_wrote 0 h

end

section
variable (p : NetPacketNotify)

theorem one_le_currentHistoryWordCount : 1 ≤ p.currentHistoryWordCount := le_max_left _ _

theorem currentHistoryWordCount_le : p.currentHistoryWordCount ≤ 8 :=
  max_le (by decide) (min_le_left _ _)

theorem currentHistoryWordCount_eq_one_iff :
    p.currentHistoryWordCount = 1 ↔ p.getCurrentSequenceHistoryLength ≤ 32 := by
  unfold NetPacketNotify.currentHistoryWordCount bitsPerWord; omega

def headerBit (i : ℕ) : Bool :=
  if i < 7 then false
  else if i < 39 then
    (PackedHeader.pack p.outSeq p.inAckSeq (p.currentHistoryWordCount - 1)).testBit (i - 7)
  else (p.inSeqHistory.storage.getD 0 0).toNat.testBit (i - 39)

theorem writeHeaderCallback_wrote : BitWriter.Wrote (PacketHeader.new 80)
    (writeHeaderCallback defaultProcessor (PacketHeader.new 80) p).1 71 (headerBit p) := by
  have hnew : (PacketHeader.new 80).pos = 8 ∧ (PacketHeader.new 80).max = 80 := by
    have h := (WroteBytes.start 80).serialize (n := 1) [0] rfl (by simp)
    exact ⟨h.pos, h.max⟩
  have h1 := outgoing_wrote (w := PacketHeader.new 80) (by unfold BitWriter.AllowAppend; rw [hnew.1, hnew.2]; omega)
  have h2 := BitWriter.writeU32_wrote (w := defaultProcessor.outgoing (PacketHeader.new 80))
    (PackedHeader.pack p.outSeq p.inAckSeq (p.currentHistoryWordCount - 1))
    (by unfold BitWriter.AllowAppend; rw [h1.pos, h1.max, hnew.1, hnew.2]; omega)
  have h12 := h1.trans h2
  have h3 := write_one p.inSeqHistory (one_le_currentHistoryWordCount p)
    (by unfold BitWriter.AllowAppend; rw [h12.pos, h12.max, hnew.1, hnew.2]; omega)
    (by rw [h12.pos, h12.max, hnew.1, hnew.2]; omega)
  have hall := h12.trans h3
  have hw : (writeHeaderCallback defaultProcessor (PacketHeader.new 80) p).1 =
      p.inSeqHistory.write ((defaultProcessor.outgoing (PacketHeader.new 80)).writeU32
        (PackedHeader.pack p.outSeq p.inAckSeq (p.currentHistoryWordCount - 1))) p.currentHistoryWordCount := by
    simp [writeHeaderCallback, NetPacketNotify.writeHeader]
  have hf : (fun i => if i < 7 + 32 then (if i < 7 then false else
      (PackedHeader.pack p.outSeq p.inAckSeq (p.currentHistoryWordCount - 1)).testBit (i - 7)) else
      (p.inSeqHistory.storage.getD 0 0).toNat.testBit (i - (7 + 32))) = headerBit p := by
    funext i
    unfold headerBit
    by_cases h7 : i < 7
    · simp [h7, show i < 39 by omega]
    · by_cases h39 : i < 39
      · simp [h7, h39]
      · simp [h7, h39]
  rw [hw]
  rw [hf] at hall
  exact hall

variable (packet : OutReadyPacket) (nowUs : ℕ) (payload : List Byte)

def wireHeader : List Byte := (builtHeader p packet nowUs).1.header.take packetHeaderSize

theorem wireHeader_eq :
    wireHeader p packet nowUs = PacketHeader.headerSealed (writeHeaderCallback defaultProcessor (PacketHeader.new 80) p).1 := by
  have hw := writeHeaderCallback_wrote p
  have hlen := (writeHeaderCallback defaultProcessor (PacketHeader.new 80) p).1.size_eq
  have hmax : (writeHeaderCallback defaultProcessor (PacketHeader.new 80) p).1.max = 80 := hw.max
  rw [hmax] at hlen
  have h10 : (PacketHeader.headerSealed (writeHeaderCallback defaultProcessor (PacketHeader.new 80) p).1).length = 10 := by
    rw [PacketHeader.headerSealed, List.length_set, hlen]
  unfold wireHeader builtHeader ConnectionPacketBuilder.buildEnd OutReadyPacket.buildEnd
  simp only [packetHeaderSize, Nat.reduceMul]
  rw [List.take_append_of_le_length (by rw [List.length_take]; omega), List.take_take, Nat.min_self,
    List.take_of_length_le (by omega)]

theorem wireHeader_length : (wireHeader p packet nowUs).length = 10 := by
  have hmax : (writeHeaderCallback defaultProcessor (PacketHeader.new 80) p).1.max = 80 :=
    (writeHeaderCallback_wrote p).max
  rw [wireHeader_eq, PacketHeader.headerSealed, List.length_set, BitWriter.size_eq, hmax]

/-- The size byte is ten, whatever the history. -/
theorem wireHeader_size : byteAt (wireHeader p packet nowUs) 0 = 10 := by
  have hlen := wireHeader_length p packet nowUs
  have hpos : (writeHeaderCallback defaultProcessor (PacketHeader.new 80) p).1.pos = 79 :=
    (writeHeaderCallback_wrote p).pos
  rw [wireHeader_eq, PacketHeader.headerSealed, List.length_set] at hlen
  rw [wireHeader_eq, PacketHeader.headerSealed, byteAt_set _ (by omega), if_pos rfl, BitWriter.getNumBytes, hpos]
  rfl

theorem bitOf_wireHeader {i : ℕ} (hi : i < 71) : bitOf (wireHeader p packet nowUs) (8 + i) = headerBit p i := by
  have hw := writeHeaderCallback_wrote p
  have hlen := wireHeader_length p packet nowUs
  rw [wireHeader_eq, PacketHeader.headerSealed, List.length_set] at hlen
  have h8 : (PacketHeader.new 80).pos = 8 := ((WroteBytes.start 80).serialize (n := 1) [0] rfl (by simp)).pos
  rw [wireHeader_eq, PacketHeader.headerSealed, bitOf_set _ (by omega), if_neg (by omega), hw.bit, h8,
    if_pos (by omega), Nat.add_sub_cancel_left]

/-! ## Reading -/

theorem ofEvent_wire : ∃ buf, RecvPacketReader.ofEvent (wireHeader p packet nowUs ++ payload)
      (wireHeader p packet nowUs ++ payload).length = ⟨⟨buf, 72, 0, false⟩, payload, false⟩ ∧
    ∀ i < 71, bitOf buf i = headerBit p i := by
  have hlen := wireHeader_length p packet nowUs
  have hsize := wireHeader_size p packet nowUs
  have hfst : byteAt (wireHeader p packet nowUs ++ payload) 0 = 10 := by rw [byteAt_append_left _ (by omega), hsize]
  refine ⟨((wireHeader p packet nowUs ++ payload).drop 1).take 9, ?_, fun i hi => ?_⟩
  · rw [RecvPacketReader.ofEvent, hfst]
    have h9 : (10 - 1 : Byte).toNat = 9 := by decide
    have h10 : (10 : Byte).toNat = 10 := by decide
    simp only [h9, h10, BitReader.ofBytes_whole]
    have hdrop : (wireHeader p packet nowUs ++ payload).drop 10 = payload := by
      rw [← hlen, List.drop_left]
    have htake : payload.take ((wireHeader p packet nowUs ++ payload).length - 10) = payload :=
      List.take_of_length_le (by rw [List.length_append]; omega)
    rw [hdrop, htake]
  · rw [bitOf_take (by omega), bitOf_drop, bitOf_append_left _ (by omega), bitOf_wireHeader p packet nowUs hi]

theorem incoming_of_zero {r : RecvPacketReader} (hr : BitReader.Holds r.header 7)
    (hz : ∀ i < 7, bitOf r.header.buffer (r.header.pos + i) = false) :
    defaultProcessor.incoming r = { r with header := { r.header with pos := r.header.pos + 7 } } := by
  obtain ⟨hn, hle⟩ := hr
  have h1 : BitReader.Holds r.header 1 := ⟨hn, by omega⟩
  have hmagic : leNat (appBitsCpy (leBytes 4 0) 0 r.header.buffer r.header.pos 1) = 0 := by
    apply Nat.eq_of_testBit_eq
    intro i
    rw [testBit_leNat, bitOf_appBitsCpy _ (by simp), Nat.zero_testBit]
    split
    · rw [Nat.sub_zero, hz i (by omega)]
    · exact bitOf_leBytes_zero 4 i
  have hr1 : r.header.serializeBitsWithOffset (leBytes 4 0) 0 1 =
      (appBitsCpy (leBytes 4 0) 0 r.header.buffer r.header.pos 1, { r.header with pos := r.header.pos + 1 }) := by
    rw [BitReader.serializeBitsWithOffset, if_neg h1.not_over, if_pos (by decide)]
  have hr2 := (BitReader.serializeBits_read (r := { r.header with pos := r.header.pos + 1 }) (n := 2)
    ⟨hn, by simp only; omega⟩ [0] (by decide)).1
  have hr3 := (BitReader.serializeBits_read (r := { r.header with pos := r.header.pos + 1 + 2 }) (n := 3)
    ⟨hn, by simp only; omega⟩ [0] (by decide)).1
  have hr4 := BitReader.readBit_read (r := { r.header with pos := r.header.pos + 1 + 2 + 3 }) ⟨hn, by simp only; omega⟩
  have hb : bitOf r.header.buffer (r.header.pos + 1 + 2 + 3) = false := hz 6 (by decide)
  unfold UdpConnectionProcessor.incoming
  simp only [defaultProcessor, hr1, hmagic, ne_eq, not_true_eq_false, if_false, hr2, hr3, hr4, hb, Bool.false_and,
    Bool.false_eq_true]

end

/-! ## The round trip -/

/-- The peer accepts the header and reads what the sender wrote. -/
structure HeaderTrips (p : NetPacketNotify) (packet : OutReadyPacket) (nowUs : ℕ) (payload : List Byte) : Prop where
  taken : (peerReads (wireHeader p packet nowUs ++ payload)).1.bConnectionlessPacket = false
  accepted : (peerReads (wireHeader p packet nowUs ++ payload)).2.1 = true
  seq : (peerReads (wireHeader p packet nowUs ++ payload)).2.2.seq = p.outSeq
  ackedSeq : (peerReads (wireHeader p packet nowUs ++ payload)).2.2.ackedSeq = p.inAckSeq
  wordCount : (peerReads (wireHeader p packet nowUs ++ payload)).2.2.historyWordCount =
    (builtHeader p packet nowUs).2.writtenHistoryWordCount
  words : (peerReads (wireHeader p packet nowUs ++ payload)).2.2.history.storage.take
      (builtHeader p packet nowUs).2.writtenHistoryWordCount =
    p.inSeqHistory.storage.take (builtHeader p packet nowUs).2.writtenHistoryWordCount

section
variable (p : NetPacketNotify) (packet : OutReadyPacket) (nowUs : ℕ) (payload : List Byte)

theorem builtHeader_written : (builtHeader p packet nowUs).2.writtenHistoryWordCount = p.currentHistoryWordCount := by
  simp [builtHeader, ConnectionPacketBuilder.buildEnd, writeHeaderCallback, NetPacketNotify.writeHeader]

theorem readLoop_of_error {r : BitReader} (hr : r.arIsError = true) : ∀ (n : ℕ) (ws : List (BitVec 32)),
    (SequenceHistory.readLoop r n ws).2.arIsError = true
  | 0, _ => hr
  | _ + 1, [] => hr
  | n + 1, _ :: ws => by
    rw [SequenceHistory.readLoop, BitReader.readUInt_over (.inl hr)]
    exact readLoop_of_error (r := r.setError) rfl n ws

/-- The reader at the first history word: it gets that word, and an error at the second. -/
theorem readLoop_one {r : BitReader} {v : BitVec 32} (hr : BitReader.Holds r 32) (hmax : r.max < r.pos + 64)
    (hv : ∀ i < 32, bitOf r.buffer (r.pos + i) = v.toNat.testBit i) (n : ℕ) (u : BitVec 32) (ws : List (BitVec 32)) :
    (SequenceHistory.readLoop r (n + 1) (u :: ws)).1.take 1 = [v] ∧
      ((SequenceHistory.readLoop r (n + 1) (u :: ws)).2.arIsError = false ↔ n = 0 ∨ ws = []) := by
  rw [SequenceHistory.readLoop, BitReader.readUInt_eq (k := 4) hr v.isLt hv]
  refine ⟨by simp, ?_⟩
  simp only
  cases n with
  | zero => simpa [SequenceHistory.readLoop] using hr.noError
  | succ n =>
    cases ws with
    | nil => simpa [SequenceHistory.readLoop] using hr.noError
    | cons u' ws =>
      have hover : r.arIsError ∨ r.max < r.pos + 32 + 8 * 4 := .inr (by omega)
      rw [SequenceHistory.readLoop, BitReader.readUInt_over hover]
      have := readLoop_of_error (r := BitReader.setError { r with pos := r.pos + 32 }) rfl n ws
      simp [this]

/-- What the peer reads: the packed fields, the first history word, and no error if that was all. -/
theorem peerReads_wire :
    (peerReads (wireHeader p packet nowUs ++ payload)).1.bConnectionlessPacket = false ∧
    ((peerReads (wireHeader p packet nowUs ++ payload)).2.1 = true ↔ p.currentHistoryWordCount = 1) ∧
    (peerReads (wireHeader p packet nowUs ++ payload)).2.2.seq = p.outSeq ∧
    (peerReads (wireHeader p packet nowUs ++ payload)).2.2.ackedSeq = p.inAckSeq ∧
    (peerReads (wireHeader p packet nowUs ++ payload)).2.2.historyWordCount = p.currentHistoryWordCount ∧
    (peerReads (wireHeader p packet nowUs ++ payload)).2.2.history.storage.take 1 = p.inSeqHistory.storage.take 1 := by
  have hc1 := one_le_currentHistoryWordCount p
  have hc8 := currentHistoryWordCount_le p
  obtain ⟨buf, hev, hbit⟩ := ofEvent_wire p packet nowUs payload
  have hin := incoming_of_zero (r := ⟨⟨buf, 72, 0, false⟩, payload, false⟩) ⟨rfl, by simp⟩ fun i hi => by
    rw [Nat.zero_add, hbit i (by omega), headerBit, if_pos hi]
  have hpack : BitReader.readUInt ⟨buf, 72, 0 + 7, false⟩ 4 =
      (PackedHeader.pack p.outSeq p.inAckSeq (p.currentHistoryWordCount - 1), ⟨buf, 72, 39, false⟩) := by
    refine BitReader.readUInt_eq ⟨rfl, by simp⟩ (PackedHeader.pack_lt _ _ _) fun i hi => ?_
    simp only
    rw [hbit _ (by omega), headerBit, if_neg (by omega), if_pos (by omega)]
    congr 1; omega
  obtain ⟨v, ws, hs, -⟩ := storage_cons p.inSeqHistory
  have hword : ∀ i < 32, bitOf buf (39 + i) = v.toNat.testBit i := fun i hi => by
    rw [hbit _ (by omega), headerBit, if_neg (by omega), if_neg (by omega), hs]
    simp
  obtain ⟨hw, herr⟩ := readLoop_one (r := ⟨buf, 72, 39, false⟩) ⟨rfl, by simp⟩ (by simp) hword
    (p.currentHistoryWordCount - 1) 0 (List.replicate 7 0)
  have hcount : PackedHeader.getHistoryWordCount (PackedHeader.pack p.outSeq p.inAckSeq (p.currentHistoryWordCount - 1))
      = p.currentHistoryWordCount - 1 := by
    rw [PackedHeader.getHistoryWordCount_pack, Nat.mod_eq_of_lt (by omega)]
  have hreset : (SequenceHistory.reset 256).storage = 0 :: List.replicate 7 0 := rfl
  have hreads : peerReads (wireHeader p packet nowUs ++ payload) =
      let loop := SequenceHistory.readLoop ⟨buf, 72, 39, false⟩ (p.currentHistoryWordCount - 1 + 1) (0 :: List.replicate 7 0)
      (⟨⟨buf, 72, 0 + 7, false⟩, payload, false⟩, !loop.2.arIsError,
        ⟨((SequenceHistory.reset 256).read ⟨buf, 72, 39, false⟩ (p.currentHistoryWordCount - 1 + 1)).1,
          p.currentHistoryWordCount - 1 + 1, p.outSeq, p.inAckSeq⟩) := by
    rw [peerReads, hev, hin]
    simp only [NetPacketNotify.readHeader, hpack, hcount, PackedHeader.getSeq_pack, PackedHeader.getAckedSeq_pack,
      SequenceHistory.read, hreset]
  rw [hreads]
  refine ⟨rfl, ?_, rfl, rfl, by simp only; omega, ?_⟩
  · simp only [Bool.not_eq_true']
    rw [herr]
    simp only [List.replicate_succ, reduceCtorEq, or_false]
    omega
  · rw [hs]
    simp only [SequenceHistory.read, hreset]
    simpa using hw

end

section
variable {p : NetPacketNotify} {packet : OutReadyPacket} {nowUs : ℕ} {payload : List Byte}

theorem HeaderTrips.length_le (h : HeaderTrips p packet nowUs payload) : p.getCurrentSequenceHistoryLength ≤ 32 := by
  obtain ⟨-, hacc, -⟩ := peerReads_wire p packet nowUs payload
  exact (currentHistoryWordCount_eq_one_iff p).mp (hacc.mp h.accepted)

theorem headerTrips_of_length_le (h : p.getCurrentSequenceHistoryLength ≤ 32) : HeaderTrips p packet nowUs payload := by
  obtain ⟨htaken, hacc, hseq, hack, hcount, hwords⟩ := peerReads_wire p packet nowUs payload
  have hwritten := builtHeader_written p packet nowUs
  have h1 := (currentHistoryWordCount_eq_one_iff p).mpr h
  refine ⟨htaken, hacc.mpr h1, hseq, hack, hcount.trans hwritten.symm, ?_⟩
  rw [hwritten, h1]
  exact hwords

end

/-- The header trips exactly when one history word is enough for it. -/
theorem headerTrips_iff (p : NetPacketNotify) (packet : OutReadyPacket) (nowUs : ℕ) (payload : List Byte) :
    HeaderTrips p packet nowUs payload ↔ p.getCurrentSequenceHistoryLength ≤ 32 :=
  ⟨HeaderTrips.length_le, headerTrips_of_length_le⟩

/-! ## The reachable states -/

inductive NotifyAction
  | update (h : NotificationHeader)
  | ackSeq (seq : Seq)
  | nakSeq (seq : Seq)
  | send

/-- One notification object under any calls of its methods. -/
def notifySystem : System NetPacketNotify NotifyAction where
  init p := ∃ inSeq outSeq, p = NetPacketNotify.new.init inSeq outSeq
  next p
    | .update h => (p.update (fun _ _ _ => ()) h ()).1
    | .ackSeq seq => p.ackSeq seq
    | .nakSeq seq => p.nakSeq seq
    | .send => p.sendHeader (PacketHeader.new 80)

def gapOf33 : NetPacketNotify :=
  notifySystem.runFrom (NetPacketNotify.new.init (Seq.ofInt 0) (Seq.ofInt 0))
    [.update ⟨SequenceHistory.reset 256, 1, Seq.ofInt 33, Seq.ofInt (-1)⟩, .ackSeq (Seq.ofInt 33)]

theorem gapOf33_length : gapOf33.getCurrentSequenceHistoryLength = 33 := by decide +kernel

theorem header_round_trip_fails :
    ¬ ∀ p, notifySystem.Reachable p → ∀ packet nowUs payload, HeaderTrips p packet nowUs payload := by
  intro h
  have hreach : notifySystem.Reachable gapOf33 := System.reachable_runFrom (System.Reach.init (S := notifySystem) ⟨_, _, rfl⟩) _
  have := (h _ hreach ConnectionPacketBuilder.buildStart 0 []).length_le
  rw [gapOf33_length] at this
  omega

end RudpEngine

import RudpEngine.Dispatch
import RudpEngine.Sealing

/-!
# A bunch on its way

The receiver splits a payload into the bunches that were put in it, reads the
fields of each header as they were encoded, and cuts the bytes behind it into
the messages, each by the size in front of it.
-/

namespace RudpEngine

/-! ## Whole bytes -/

theorem BitReader.readUInt_bytes {buf : List Byte} {n p k : ℕ} (h : p + k ≤ n) :
    BitReader.readUInt ⟨buf, n * 8, 8 * p, false⟩ k =
      (leNat ((buf.drop p).take k), ⟨buf, n * 8, 8 * (p + k), false⟩) := by
  have hlt : leNat ((buf.drop p).take k) < 2 ^ (8 * k) := by
    have hb := leNat_lt ((buf.drop p).take k)
    have hlen : ((buf.drop p).take k).length ≤ k := by rw [List.length_take]; omega
    calc leNat ((buf.drop p).take k) < 256 ^ ((buf.drop p).take k).length := hb
      _ ≤ 256 ^ k := Nat.pow_le_pow_right (by decide) hlen
      _ = 2 ^ (8 * k) := by rw [show 256 = 2 ^ 8 by rfl, ← pow_mul]
  have hread := readUInt_eq (r := ⟨buf, n * 8, 8 * p, false⟩) ⟨rfl, by simp only; omega⟩ hlt fun i hi => by
    rw [testBit_leNat, bitOf_take hi, bitOf_drop]
  rw [hread]
  congr 2
  ring

theorem leNat_take_leBytes (k v : ℕ) (rest : List Byte) : leNat ((leBytes k v ++ rest).take k) = v % 256 ^ k := by
  rw [List.take_append_of_le_length (by rw [leBytes_length]), List.take_of_length_le (by rw [leBytes_length]),
    leNat_leBytes]

/-! ## The header -/

namespace NetConnection

structure FieldsFit (f : BunchHeaderFields) : Prop where
  chIndex : f.chIndex < 2 ^ 8
  chSequence : f.chSequence < 2 ^ 32
  messageCount : f.messageCount < 2 ^ 8
  payloadSize : f.payloadSize < 2 ^ 16

theorem flagsByte_testBit (f : BunchHeaderFields) :
    (leNat [BunchHeader.flagsByte f]).testBit 0 = f.bControl ∧ (leNat [BunchHeader.flagsByte f]).testBit 1 = f.bOpen ∧
      (leNat [BunchHeader.flagsByte f]).testBit 2 = f.bClose ∧
      (leNat [BunchHeader.flagsByte f]).testBit 3 = f.bReliable := by
  unfold BunchHeader.flagsByte
  cases f.bControl <;> cases f.bOpen <;> cases f.bClose <;> cases f.bReliable <;> decide

theorem readBunchHeader_bytes {f : BunchHeaderFields} (hf : FieldsFit f) :
    readBunchHeader ((BunchHeader.bytes f).drop 1) =
      ⟨f.bControl, f.bOpen, f.bClose, f.bReliable, f.chIndex, f.chSequence, f.messageCount, f.payloadSize⟩ := by
  have hlen : ((BunchHeader.bytes f).drop 1).length = 9 := by rw [List.length_drop, BunchHeader.bytes_length]
  have hstart : BitReader.ofBytes ((BunchHeader.bytes f).drop 1) (((BunchHeader.bytes f).drop 1).length * 8) =
      ⟨(BunchHeader.bytes f).drop 1, 9 * 8, 8 * 0, false⟩ := by
    rw [BitReader.ofBytes_whole, List.take_length, hlen]
  have hbytes : (BunchHeader.bytes f).drop 1 = BunchHeader.flagsByte f :: BitVec.ofNat 8 f.chIndex ::
      (leBytes 4 f.chSequence ++ (BitVec.ofNat 8 f.messageCount :: (leBytes 2 f.payloadSize ++ []))) := by
    simp [BunchHeader.bytes]
  have hdrop4 : ∀ rest : List Byte, (leBytes 4 f.chSequence ++ rest).drop 4 = rest := by
    intro rest
    rw [List.drop_append_of_le_length (by rw [leBytes_length]), List.drop_of_length_le (by rw [leBytes_length]),
      List.nil_append]
  have hone : ∀ (n : ℕ) (rest : List Byte), n < 2 ^ 8 → leNat ((BitVec.ofNat 8 n :: rest).take 1) = n := by
    intro n rest hn
    simp only [List.take_succ_cons, List.take_zero, leNat, BitVec.toNat_ofNat, Nat.mul_zero, Nat.add_zero]
    exact Nat.mod_eq_of_lt hn
  obtain ⟨h0, h1, h2, h3⟩ := flagsByte_testBit f
  unfold readBunchHeader
  rw [hstart]
  simp only [BitReader.readUInt_bytes (show 0 + 1 ≤ 9 by decide), BitReader.readUInt_bytes (show 0 + 1 + 1 ≤ 9 by decide),
    BitReader.readUInt_bytes (show 0 + 1 + 1 + 4 ≤ 9 by decide),
    BitReader.readUInt_bytes (show 0 + 1 + 1 + 4 + 1 ≤ 9 by decide),
    BitReader.readUInt_bytes (show 0 + 1 + 1 + 4 + 1 + 2 ≤ 9 by decide)]
  rw [hbytes]
  simp only [Nat.zero_add, Nat.reduceAdd, List.drop_succ_cons, List.drop_zero]
  have h6 : (leBytes 4 f.chSequence ++ (BitVec.ofNat 8 f.messageCount :: (leBytes 2 f.payloadSize ++ []))).drop 4 =
      BitVec.ofNat 8 f.messageCount :: (leBytes 2 f.payloadSize ++ []) := hdrop4 _
  have h7 : (leBytes 4 f.chSequence ++ (BitVec.ofNat 8 f.messageCount :: (leBytes 2 f.payloadSize ++ []))).drop 5 =
      leBytes 2 f.payloadSize ++ [] := by
    rw [show 5 = 4 + 1 by rfl, ← List.drop_drop, h6]
    rfl
  rw [h6, h7, leNat_take_leBytes, leNat_take_leBytes, hone _ _ hf.messageCount, hone _ _ hf.chIndex,
    Nat.mod_eq_of_lt (show f.chSequence < 256 ^ 4 from hf.chSequence),
    Nat.mod_eq_of_lt (show f.payloadSize < 256 ^ 2 from hf.payloadSize)]
  simp only [List.take_succ_cons, List.take_zero, h0, h1, h2, h3]

end NetConnection

/-! ## The messages -/

namespace NetMessage

/-- The message begins with its size, as `SendPacket` writes it. -/
structure Framed (m : NetMessage) : Prop where
  four : 4 ≤ m.size
  small : m.size < 2 ^ 16
  header : leNat (m.buffer.take 4) % 2 ^ 16 = m.size

def received (m : NetMessage) : RecvMessageReader := ⟨m.buffer.drop 4, leNat (m.buffer.take 4) / 2 ^ 16⟩

end NetMessage

namespace NetChannel

/-- One round of `DispatchRawBunch_Interanl`; `capacity` is the range of a `uint16_t`. -/
def messageRound (capacity : ℕ) (next : BufferReader → Bool × List RecvMessageReader) (r : BufferReader) :
    Bool × List RecvMessageReader :=
  if !r.canRead 4 then (false, [])
  else
    let (header, r) := r.read 4
    let size := header.getD 0 % capacity
    let payloadSize := (size + capacity - 4) % capacity
    if !r.canRead payloadSize then (false, [])
    else
      let (view, r) := r.readView payloadSize
      let (ok, messages) := next r
      (ok, ⟨view, header.getD 0 / capacity⟩ :: messages)

theorem readMessages_succ (n : ℕ) (r : BufferReader) :
    readMessages (n + 1) r = messageRound (2 ^ 16) (readMessages n) r := by
  rw [readMessages.eq_def, messageRound]

theorem messageRound_step {capacity v size : ℕ} {next : BufferReader → Bool × List RecvMessageReader}
    {r r₁ r₂ : BufferReader} {view : List Byte} {messages : List RecvMessageReader} (hcan : r.canRead 4 = true)
    (hread : r.read 4 = (some v, r₁)) (hsize : (v % capacity + capacity - 4) % capacity = size)
    (hcan' : r₁.canRead size = true) (hview : r₁.readView size = (view, r₂)) (hnext : next r₂ = (true, messages)) :
    messageRound capacity next r = (true, ⟨view, v / capacity⟩ :: messages) := by
  unfold messageRound
  simp only [hcan, hread, Bool.not_true, Bool.false_eq_true, if_false, Option.getD_some, hsize, hcan', hview, hnext]

/-- The messages of a bunch are handed on one by one. -/
theorem readMessages_framed (ms : List NetMessage) (h : ∀ m ∈ ms, m.Framed) (rest : List Byte) :
    readMessages ms.length ⟨ms.flatMap NetMessage.buffer ++ rest, false⟩ = (true, ms.map NetMessage.received) := by
  induction ms with
  | nil => rfl
  | cons m ms ih =>
    have ih := ih fun m hm => h m (List.mem_cons_of_mem _ hm)
    obtain ⟨hfour, hsmall, hheader⟩ := h m (List.mem_cons_self ..)
    unfold NetMessage.size at hfour hsmall hheader
    rw [List.flatMap_cons, List.append_assoc]
    generalize ms.flatMap NetMessage.buffer ++ rest = tail at ih
    rw [List.length_cons, readMessages_succ]
    have hcan : BufferReader.canRead ⟨m.buffer ++ tail, false⟩ 4 = true := by
      simp only [BufferReader.canRead, Bool.not_false, Bool.true_and, decide_eq_true_eq, List.length_append]
      omega
    have hread : BufferReader.read ⟨m.buffer ++ tail, false⟩ 4 =
        (some (leNat (m.buffer.take 4)), ⟨m.buffer.drop 4 ++ tail, false⟩) := by
      rw [BufferReader.read, if_neg (by simp only [List.length_append]; omega), List.take_append_of_le_length hfour,
        List.drop_append_of_le_length hfour]
    have hsize : (leNat (m.buffer.take 4) % 2 ^ 16 + 2 ^ 16 - 4) % 2 ^ 16 = (m.buffer.drop 4).length := by
      rw [List.length_drop, hheader]
      omega
    have hcan' : BufferReader.canRead ⟨m.buffer.drop 4 ++ tail, false⟩ (m.buffer.drop 4).length = true := by
      simp [BufferReader.canRead]
    have hview : BufferReader.readView ⟨m.buffer.drop 4 ++ tail, false⟩ (m.buffer.drop 4).length =
        (m.buffer.drop 4, ⟨tail, false⟩) := by
      rw [BufferReader.readView, if_neg (by simp), List.take_left, List.drop_left]
    rw [messageRound_step hcan hread hsize hcan' hview ih, List.map_cons, NetMessage.received]

end NetChannel

namespace ChannelBunchBuilder

/-- The payload is what the messages of a bunch add up to, and its header has room for it and for their number. -/
structure Measured (ms : List NetMessage) (payload : ℕ) : Prop where
  sum : payload = (ms.map NetMessage.size).sum
  room : payload < 2 ^ 16
  count : ms.length < 2 ^ 8

structure Whole (ms : List NetMessage) (payload : ℕ) : Prop extends Measured ms payload where
  framed : ∀ m ∈ ms, m.Framed

def received (b : ChannelBunchBuilder) (chSequence : ℕ) : NetConnection.InBunchHeader × List Byte :=
  (⟨b.bControl, b.bOpen, b.bClose, b.bReliable, b.chIndex, chSequence, b.activeMsgs.length, b.activePayload⟩,
    b.activeMsgs.flatMap NetMessage.buffer)

variable {b : ChannelBunchBuilder} {k : ℕ}

theorem Measured.length {ms : List NetMessage} {payload : ℕ} (h : Measured ms payload) :
    (ms.flatMap NetMessage.buffer).length = payload := by
  rw [List.length_flatMap, h.sum]
  rfl

theorem sealed_bytes (h : Measured b.activeMsgs b.activePayload) : (b.sealed k).bytes =
    BunchHeader.bytes
      ⟨b.bControl, b.bOpen, b.bClose, b.bReliable, b.chIndex, k, b.activeMsgs.length, b.activePayload⟩ ++
      b.activeMsgs.flatMap NetMessage.buffer := by
  have hfield : b.headerField k =
      ⟨b.bControl, b.bOpen, b.bClose, b.bReliable, b.chIndex, k, b.activeMsgs.length, b.activePayload⟩ := by
    unfold headerField
    rw [Nat.mod_eq_of_lt h.count, Nat.mod_eq_of_lt h.room]
  rw [OutReadyBunch.bytes]
  simp only [ChannelBunchBuilder.sealed, hfield, BunchHeader.encode_size, BunchHeader.encode_bytes]

end ChannelBunchBuilder

namespace NetConnection

open ChannelBunchBuilder

variable {b : ChannelBunchBuilder} {k : ℕ}

theorem readBunch_sealed (h : Measured b.activeMsgs b.activePayload) (hi : b.chIndex < 2 ^ 8) (hk : k < 2 ^ 32) (n : ℕ)
    (rest : List Byte) : readBunch n ⟨(b.sealed k).bytes ++ rest, false⟩ =
      if 128 ≤ b.chIndex ∨ n ≤ b.chIndex then none else some ((b.received k).1, (b.received k).2, ⟨rest, false⟩) := by
  have hfit : FieldsFit
      ⟨b.bControl, b.bOpen, b.bClose, b.bReliable, b.chIndex, k, b.activeMsgs.length, b.activePayload⟩ :=
    ⟨hi, hk, h.count, h.room⟩
  have hheader := readBunchHeader_bytes hfit
  rw [sealed_bytes h]
  generalize hf : (⟨b.bControl, b.bOpen, b.bClose, b.bReliable, b.chIndex, k, b.activeMsgs.length, b.activePayload⟩ :
    BunchHeaderFields) = f at hheader
  have hlen := BunchHeader.bytes_length f
  obtain ⟨l, hl⟩ : ∃ l, BunchHeader.bytes f = 10 :: l := ⟨_, rfl⟩
  rw [hl, List.length_cons] at hlen
  rw [hl, List.drop_succ_cons, List.drop_zero] at hheader
  rw [hl, List.append_assoc, List.cons_append]
  have hread : BufferReader.read ⟨10 :: (l ++ (b.activeMsgs.flatMap NetMessage.buffer ++ rest)), false⟩ 1 =
      (some 10, ⟨l ++ (b.activeMsgs.flatMap NetMessage.buffer ++ rest), false⟩) := by
    rw [BufferReader.read, if_neg (by simp)]
    rfl
  have hview : BufferReader.readView ⟨l ++ (b.activeMsgs.flatMap NetMessage.buffer ++ rest), false⟩ 9 =
      (l, ⟨b.activeMsgs.flatMap NetMessage.buffer ++ rest, false⟩) := by
    have h9 : l.length = 9 := by omega
    rw [BufferReader.readView, if_neg (by simp only [List.length_append]; omega), ← h9, List.take_left, List.drop_left]
  have hempty : l.isEmpty = false := by
    cases l with
    | nil => simp at hlen
    | cons => rfl
  have hmsgs : BufferReader.readView ⟨b.activeMsgs.flatMap NetMessage.buffer ++ rest, false⟩ b.activePayload =
      (b.activeMsgs.flatMap NetMessage.buffer, ⟨rest, false⟩) := by
    have hp := h.length
    rw [BufferReader.readView, if_neg (by simp only [List.length_append]; omega), ← hp, List.take_left, List.drop_left]
  have hcan : BufferReader.canRead ⟨10 :: (l ++ (b.activeMsgs.flatMap NetMessage.buffer ++ rest)), false⟩ 1 = true := by
    simp [BufferReader.canRead]
  have hpayload : f.payloadSize = b.activePayload := by rw [← hf]
  have hindex : f.chIndex = b.chIndex := by rw [← hf]
  unfold readBunch
  simp only [hcan, Bool.not_true, Bool.false_eq_true, if_false, hread, Option.getD_some, Nat.lt_irrefl, hview, hempty,
    hheader, Nat.reduceSub, hindex, hpayload]
  split_ifs
  · rfl
  · simp only [hmsgs, received, ← hf]

end NetConnection

end RudpEngine

import RudpEngine.Archive

/-!
# Messages and bunches

A bunch is the unit a channel numbers and retransmits: a header of ten bytes
and the messages behind it. The messages keep their own headers of a size and
an id, each two bytes.
-/

namespace RudpEngine

/-- `NetMessage`: the buffer the sender owns until `callback` releases it. -/
structure NetMessage where
  buffer : List Byte
  callback : Bool
  context : ℕ
  size_lt : buffer.length < 2 ^ 32
  deriving DecidableEq

theorem length_zeros_lt {n : ℕ} (h : n < 2 ^ 32) : (List.replicate n (0 : Byte)).length < 2 ^ 32 := by
  rwa [List.length_replicate]

def NetMessage.size (m : NetMessage) : ℕ := m.buffer.length

/-- `OutReadyBunch`; its `PacketId` is never set. -/
structure OutReadyBunch where
  headerBytes : List Byte
  headerSize : ℕ
  messages : List NetMessage
  payloadBytes : ℕ
  totalSize : ℕ
  chIndex : ℕ
  deriving DecidableEq

namespace OutReadyBunch

def bytes (b : OutReadyBunch) : List Byte := b.headerBytes ++ b.messages.flatMap NetMessage.buffer

end OutReadyBunch

structure BunchHeaderFields where
  bControl : Bool
  bOpen : Bool
  bClose : Bool
  bReliable : Bool
  chIndex : ℕ
  chSequence : ℕ
  messageCount : ℕ
  payloadSize : ℕ
  deriving DecidableEq

/-! ## Byte-aligned writing -/

/-- The bytes `bs` are all that was written into the `m` bits. -/
structure WroteBytes (m : ℕ) (w : BitWriter) (bs : List Byte) : Prop where
  max : w.max = m
  pos : w.pos = 8 * bs.length
  take : w.buffer.take bs.length = bs

theorem WroteBytes.start (m : ℕ) : WroteBytes m (BitWriter.ofMaxBits m) [] := ⟨rfl, rfl, rfl⟩

theorem WroteBytes.serialize {m : ℕ} {w : BitWriter} {bs : List Byte} (h : WroteBytes m w bs) (src : List Byte) {n : ℕ}
    (hn : src.length = n) (hfit : 8 * (bs.length + n) ≤ m) : WroteBytes m (w.serialize src n) (bs ++ src) := by
  have hallow : w.AllowAppend (n * 8) := by unfold BitWriter.AllowAppend; rw [h.pos, h.max]; omega
  have hw := BitWriter.serializeBitsWithOffset_wrote src 0 hallow
  have hsize := (w.serialize src n).size_eq
  have hmax : (w.serialize src n).max = m := hw.max.trans h.max
  refine ⟨hmax, ?_, ?_⟩
  · rw [BitWriter.serialize, hw.pos, h.pos, List.length_append, hn]; omega
  · have hlen : ((w.serialize src n).buffer.take (bs ++ src).length).length = (bs ++ src).length := by
      rw [List.length_take, hsize, hmax, List.length_append]; omega
    refine bytes_ext hlen fun i hi => ?_
    rw [hlen] at hi
    rw [bitOf_take hi, BitWriter.serialize, hw.bit i, h.pos]
    by_cases hold : i < 8 * bs.length
    · rw [if_neg (by omega), bitOf_append_left _ hold, ← bitOf_take hold, h.take]
    · obtain ⟨j, rfl⟩ : ∃ j, i = 8 * bs.length + j := ⟨i - 8 * bs.length, by omega⟩
      have hj : j < n * 8 := by rw [List.length_append, hn] at hi; omega
      rw [if_pos ⟨by omega, by omega⟩, bitOf_append_right]
      congr 1; omega

/-! ## The bunch header -/

namespace BunchHeader

def flagsByte (f : BunchHeaderFields) : Byte :=
  BitVec.ofNat 8 (f.bControl.toNat ||| (2 * f.bOpen.toNat) ||| (4 * f.bClose.toNat) ||| (8 * f.bReliable.toNat))

def encodeFields (f : BunchHeaderFields) : BitWriter :=
  ((((((BitWriter.ofMaxBits 128).serialize [0] 1).serialize [flagsByte f] 1).serialize [BitVec.ofNat 8 f.chIndex] 1).writeU32
    f.chSequence).serialize [BitVec.ofNat 8 f.messageCount] 1).writeU16 f.payloadSize

/-- `Encode`: the buffer, and the number of its bytes in the first one. -/
def encode (f : BunchHeaderFields) : List Byte × ℕ :=
  let w := encodeFields f
  (w.buffer.set 0 (BitVec.ofNat 8 w.getNumBytes), w.getNumBytes)

def bytes (f : BunchHeaderFields) : List Byte :=
  [10, flagsByte f, BitVec.ofNat 8 f.chIndex] ++ leBytes 4 f.chSequence ++ [BitVec.ofNat 8 f.messageCount] ++
    leBytes 2 f.payloadSize

@[simp] theorem bytes_length (f : BunchHeaderFields) : (bytes f).length = 10 := by simp [bytes]

theorem encodeFields_wrote (f : BunchHeaderFields) :
    WroteBytes 128 (encodeFields f) ([0, flagsByte f, BitVec.ofNat 8 f.chIndex] ++ leBytes 4 f.chSequence ++
      [BitVec.ofNat 8 f.messageCount] ++ leBytes 2 f.payloadSize) := by
  have h1 := (WroteBytes.start 128).serialize (n := 1) [0] rfl (by simp)
  have h2 := h1.serialize (n := 1) [flagsByte f] rfl (by simp)
  have h3 := h2.serialize (n := 1) [BitVec.ofNat 8 f.chIndex] rfl (by simp)
  have h4 := h3.serialize (leBytes 4 f.chSequence) (leBytes_length 4 _) (by simp)
  have h5 := h4.serialize (n := 1) [BitVec.ofNat 8 f.messageCount] rfl (by simp)
  have h6 := h5.serialize (leBytes 2 f.payloadSize) (leBytes_length 2 _) (by simp)
  simpa [encodeFields, BitWriter.writeU32, BitWriter.writeU16] using h6

theorem encode_size (f : BunchHeaderFields) : (encode f).2 = 10 := by
  have := (encodeFields_wrote f).pos
  simp only [encode, BitWriter.getNumBytes, this]
  simp

theorem encode_bytes (f : BunchHeaderFields) : (encode f).1.take 10 = bytes f := by
  have hw := encodeFields_wrote f
  have hn : (encodeFields f).getNumBytes = 10 := encode_size f
  have ht := hw.take
  simp only [List.length_append, List.length_cons, List.length_nil, leBytes_length] at ht
  simp only [encode, hn]
  rw [List.take_set, ht]
  rfl

end BunchHeader

end RudpEngine

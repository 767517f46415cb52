import RudpEngine.Packet

/-!
# The framing of a datagram

The first byte of a datagram is the size of its header, as the peer chose it.
`RecvPacketReader` sets up both of its views by that byte, and no one compares
it with the number of bytes that came.
-/

namespace RudpEngine

def maxPacketSize : ℕ := 1024

/-- A pointer into the buffer of an event, and the number of bytes behind it. -/
structure BufferView where
  offset : ℕ
  size : ℕ
  deriving DecidableEq

def BufferView.Covers (v : BufferView) (i : ℕ) : Prop := v.offset ≤ i ∧ i < v.offset + v.size

namespace RecvPacketReader

variable (data : List Byte) (numOfBytes : ℕ)

/-- What `Header` copies; `HeaderDataByteSzie` is a `uint8_t`. -/
def headerView : BufferView := ⟨1, (byteAt data 0 - 1).toNat⟩

/-- `RawBufferPtr` and `RawBufferByteSize`, a `uint32_t`. -/
def payloadView : BufferView := ⟨(byteAt data 0).toNat, (((numOfBytes : ℤ) - (byteAt data 0).toNat) % 2 ^ 32).toNat⟩

end RecvPacketReader

/-- `RecvCompletionEvent` where no packets are simulated to be lost: each datagram is dispatched. -/
def recvCompletionEvent (data : List Byte) (numOfBytes : ℕ) : List RecvPacketReader :=
  [RecvPacketReader.ofEvent data numOfBytes]

/-- Both views lie in the datagram and have no byte in common, and what is read does not depend on the buffer behind it. -/
structure FramedInside (data : List Byte) (numOfBytes : ℕ) : Prop where
  header : ∀ i, (RecvPacketReader.headerView data).Covers i → i < numOfBytes
  payload : ∀ i, (RecvPacketReader.payloadView data numOfBytes).Covers i → i < numOfBytes
  apart : ∀ i, (RecvPacketReader.headerView data).Covers i → ¬ (RecvPacketReader.payloadView data numOfBytes).Covers i
  parsed : ∀ buffer : List Byte, buffer.take numOfBytes = data.take numOfBytes →
    RecvPacketReader.ofEvent buffer numOfBytes = RecvPacketReader.ofEvent data numOfBytes

/-- The size byte counts itself, and no more bytes than came. -/
def SizeByteFits (data : List Byte) (numOfBytes : ℕ) : Prop :=
  1 ≤ (byteAt data 0).toNat ∧ (byteAt data 0).toNat ≤ numOfBytes

variable {data : List Byte} {numOfBytes : ℕ}

theorem byteAt_take {buf : List Byte} {n i : ℕ} (h : i < n) : byteAt (buf.take n) i = byteAt buf i := by
  rw [byteAt, byteAt, List.getD_eq_getElem?_getD, List.getD_eq_getElem?_getD, List.getElem?_take, if_pos h]

theorem toNat_sub_one {b : Byte} (h : 1 ≤ b.toNat) : (b - 1).toNat = b.toNat - 1 := by
  have hlt := b.isLt
  have hsub : (b - 1).toNat = (2 ^ 8 - 1 + b.toNat) % 2 ^ 8 := BitVec.toNat_sub b 1
  omega

theorem ofEvent_of_fits (h : SizeByteFits data numOfBytes) : RecvPacketReader.ofEvent data numOfBytes =
    ⟨BitReader.ofBytes (((data.take numOfBytes).drop 1).take ((byteAt (data.take numOfBytes) 0).toNat - 1))
        (((byteAt (data.take numOfBytes) 0).toNat - 1) * 8),
      (data.take numOfBytes).drop (byteAt (data.take numOfBytes) 0).toNat, false⟩ := by
  obtain ⟨hone, hle⟩ := h
  have hfirst : byteAt (data.take numOfBytes) 0 = byteAt data 0 := byteAt_take (by omega)
  rw [hfirst, RecvPacketReader.ofEvent]
  simp only [toNat_sub_one hone, BitReader.ofBytes_whole]
  generalize (byteAt data 0).toNat = size at hone hle ⊢
  have hheader : (((data.take numOfBytes).drop 1).take (size - 1)).take (size - 1) = (data.drop 1).take (size - 1) := by
    rw [List.take_take, Nat.min_self, List.drop_take, List.take_take, Nat.min_eq_left (by omega)]
  rw [hheader, List.drop_take]

theorem framedInside_of_fits (h : SizeByteFits data numOfBytes) : FramedInside data numOfBytes := by
  have hone := h.1
  have hle := h.2
  have hsize : (((numOfBytes : ℤ) - (byteAt data 0).toNat) % 2 ^ 32).toNat ≤ numOfBytes - (byteAt data 0).toNat := by
    omega
  refine ⟨?_, ?_, ?_, ?_⟩
  · rintro i ⟨-, hi⟩
    unfold RecvPacketReader.headerView at hi
    rw [toNat_sub_one hone] at hi
    simp only at hi
    omega
  · rintro i ⟨-, hi⟩
    unfold RecvPacketReader.payloadView at hi
    simp only at hi
    omega
  · rintro i ⟨-, hi⟩ ⟨hi', -⟩
    unfold RecvPacketReader.headerView at hi
    unfold RecvPacketReader.payloadView at hi'
    rw [toNat_sub_one hone] at hi
    simp only at hi hi'
    omega
  · intro buffer hbuffer
    have hpos : 0 < numOfBytes := by omega
    have hfirst : byteAt buffer 0 = byteAt data 0 := by
      have htake : byteAt (buffer.take numOfBytes) 0 = byteAt buffer 0 := byteAt_take hpos
      rw [← htake, hbuffer, byteAt_take hpos]
    have hfits : SizeByteFits buffer numOfBytes := by
      unfold SizeByteFits
      rw [hfirst]
      exact h
    rw [ofEvent_of_fits hfits, ofEvent_of_fits h, hbuffer]

/-- A size byte that does not fit leaves a view that goes too far, or two that overlap. -/
theorem fits_of_framedInside (hn : numOfBytes ≤ maxPacketSize) (h : FramedInside data numOfBytes) : SizeByteFits data numOfBytes := by
  by_contra hnot
  unfold SizeByteFits at hnot
  by_cases hzero : (byteAt data 0).toNat = 0
  · -- the header view has 255 bytes, and the payload view begins at the size byte
    have hbyte : byteAt data 0 = 0 := BitVec.eq_of_toNat_eq hzero
    have hcovers : (RecvPacketReader.headerView data).Covers 1 := by
      unfold RecvPacketReader.headerView
      rw [hbyte]
      exact ⟨Nat.le_refl 1, by decide⟩
    have hin := h.header 1 hcovers
    apply h.apart 1 hcovers
    unfold RecvPacketReader.payloadView BufferView.Covers maxPacketSize at *
    rw [hzero]
    simp only
    omega
  · have hlt := (byteAt data 0).isLt
    have hin := h.payload (byteAt data 0).toNat ⟨Nat.le_refl _, by
      unfold RecvPacketReader.payloadView
      simp only
      omega⟩
    omega

/-- A datagram is read inside its bytes, or not at all, exactly where its size byte fits: none is refused. -/
theorem framing_inside_iff (hn : numOfBytes ≤ maxPacketSize) :
    (recvCompletionEvent data numOfBytes ≠ [] → FramedInside data numOfBytes) ↔ SizeByteFits data numOfBytes :=
  ⟨fun h => fits_of_framedInside hn (h (List.cons_ne_nil _ _)), fun h _ => framedInside_of_fits h⟩

theorem framing_inside_short :
    (recvCompletionEvent [2, 7, 9, 1, 1] 3 ≠ [] → FramedInside [2, 7, 9, 1, 1] 3) ↔ SizeByteFits [2, 7, 9, 1, 1] 3 :=
  framing_inside_iff (by decide)

/-- A datagram of one byte claims a header of 200: the header is read from what older datagrams have left in the buffer. -/
theorem framing_outside : ¬ ∀ data numOfBytes, data.length = maxPacketSize → numOfBytes ≤ maxPacketSize →
    recvCompletionEvent data numOfBytes ≠ [] → FramedInside data numOfBytes := by
  intro h
  have hframed := h (200 :: List.replicate 1023 7) 1 (by rw [List.length_cons, List.length_replicate]; rfl) (by decide)
    (List.cons_ne_nil _ _)
  have hin := hframed.header 1 ⟨Nat.le_refl 1, by decide⟩
  exact absurd hin (by decide)

end RudpEngine

import RudpEngine.BitsCpy

/-!
# Bit archives

`BitWriter` fills a buffer of a fixed number of bits; what does not fit is
dropped without an error. `BitReader` reads the bits back; a read past the end
sets its error flag and yields zeros. Positions and lengths are natural numbers:
an archive has less than 2^31 bits, so that their casts to `int32_t` keep them.
-/

namespace RudpEngine

/-- `BitWriter`; nothing is written at or above `pos`. -/
structure BitWriter where
  buffer : List Byte
  pos : ℕ
  max : ℕ
  arIsError : Bool
  size_eq : buffer.length = (max + 7) / 8
  pos_le : pos ≤ max
  clean : ∀ i, pos ≤ i → bitOf buffer i = false

namespace BitWriter

/-- `BitWriter(InMaxBits, false)`. -/
def ofMaxBits (inMaxBits : ℕ) : BitWriter :=
  ⟨List.replicate ((inMaxBits + 7) / 8) 0, 0, inMaxBits, false, List.length_replicate, Nat.zero_le _,
    fun i _ => bitOf_replicate_zero _ i⟩

variable (w : BitWriter)

abbrev AllowAppend (lengthBits : ℕ) : Prop := w.pos + lengthBits ≤ w.max

theorem AllowAppend.fits {w : BitWriter} {n : ℕ} (h : w.AllowAppend n) : w.pos + n ≤ 8 * w.buffer.length := by
  have := w.size_eq; unfold AllowAppend at h; omega

/-- `SerializeBitsWithOffset`; `Serialize` is the call from bit `0`. -/
def serializeBitsWithOffset (src : List Byte) (sourceBit lengthBits : ℕ) : BitWriter :=
  if h : w.AllowAppend lengthBits then
    { w with
      buffer := appBitsCpy w.buffer w.pos src sourceBit lengthBits
      pos := w.pos + lengthBits
      size_eq := by rw [appBitsCpy_length src h.fits, w.size_eq]
      pos_le := h
      clean := fun i hi => by rw [bitOf_appBitsCpy src h.fits, if_neg (by omega), w.clean i (by omega)] }
  else w

def serialize (src : List Byte) (lengthBytes : ℕ) : BitWriter := w.serializeBitsWithOffset src 0 (lengthBytes * 8)

theorem bitOf_or_bit (buf : List Byte) {p : ℕ} (hp : p < 8 * buf.length) (i : ℕ) :
    bitOf (buf.set (p / 8) (byteAt buf (p / 8) ||| (1#8 <<< (p % 8)))) i = (bitOf buf i || decide (i = p)) := by
  have hi8 : i % 8 < 8 := Nat.mod_lt _ (by decide)
  rw [bitOf_set _ (by omega)]
  by_cases hb : i / 8 = p / 8
  · rw [if_pos hb, BitVec.getLsbD_or, BitVec.getLsbD_shiftLeft, BitVec.getLsbD_one, bitOf, hb]
    by_cases hi : i = p
    · subst hi; simp [hi8]
    · by_cases hlt : i % 8 < p % 8
      · simp [hi, hlt]
      · have : ¬ i % 8 - p % 8 = 0 := by omega
        simp [hi, this]
  · have : i ≠ p := fun h => hb (h ▸ rfl)
    rw [if_neg hb]; simp [this]

/-- `SerializeBits`: one bit is or-ed into the buffer, more are copied. -/
def serializeBits (src : List Byte) (lengthBits : ℕ) : BitWriter :=
  if h : w.AllowAppend lengthBits then
    if h1 : lengthBits = 1 then
      { w with
        buffer := if (byteAt src 0).getLsbD 0 then
            w.buffer.set (w.pos / 8) (byteAt w.buffer (w.pos / 8) ||| (1#8 <<< (w.pos % 8)))
          else w.buffer
        pos := w.pos + 1
        size_eq := by split <;> simp [w.size_eq]
        pos_le := by subst h1; exact h
        clean := fun i hi => by
          have hfit := h.fits
          split
          · rw [bitOf_or_bit _ (by omega), w.clean i (by omega), decide_eq_false (by omega)]; rfl
          · exact w.clean i (by omega) }
    else w.serializeBitsWithOffset src 0 lengthBits
  else w

/-- `Writer << uint32_t`, on a little-endian machine. -/
def writeU32 (v : ℕ) : BitWriter := w.serialize (leBytes 4 v) 4

def writeU16 (v : ℕ) : BitWriter := w.serialize (leBytes 2 v) 2

def getNumBytes : ℕ := (w.pos + 7) / 8

def setError : BitWriter := { w with arIsError := true }

/-! ## What a write does -/

/-- `w'` is `w` with `n` more bits, bit `i` of them being `f i`. -/
structure Wrote (w w' : BitWriter) (n : ℕ) (f : ℕ → Bool) : Prop where
  pos : w'.pos = w.pos + n
  max : w'.max = w.max
  error : w'.arIsError = w.arIsError
  bit : ∀ i, bitOf w'.buffer i = if w.pos ≤ i ∧ i < w.pos + n then f (i - w.pos) else bitOf w.buffer i

variable {w}

theorem Wrote.trans {w w' w'' : BitWriter} {n m : ℕ} {f g : ℕ → Bool} (h : Wrote w w' n f) (h' : Wrote w' w'' m g) :
    Wrote w w'' (n + m) fun i => if i < n then f i else g (i - n) := by
  refine ⟨by rw [h'.pos, h.pos, Nat.add_assoc], h'.max.trans h.max, h'.error.trans h.error, fun i => ?_⟩
  rw [h'.bit i, h.bit i, h.pos]
  by_cases h1 : w.pos + n ≤ i ∧ i < w.pos + n + m
  · rw [if_pos h1, if_pos (by omega), if_neg (by omega)]
    congr 1; omega
  · rw [if_neg h1]
    by_cases h2 : w.pos ≤ i ∧ i < w.pos + n
    · rw [if_pos h2, if_pos (by omega), if_pos (by omega)]
    · rw [if_neg h2, if_neg (by omega)]

theorem serializeBitsWithOffset_wrote (src : List Byte) (sourceBit : ℕ) {n : ℕ} (h : w.AllowAppend n) :
    Wrote w (w.serializeBitsWithOffset src sourceBit n) n fun i => bitOf src (sourceBit + i) := by
  rw [serializeBitsWithOffset, dif_pos h]
  exact ⟨rfl, rfl, rfl, fun i => bitOf_appBitsCpy src h.fits i⟩

theorem serializeBitsWithOffset_of_not {n : ℕ} (h : ¬ w.AllowAppend n) (src : List Byte) (sourceBit : ℕ) :
    w.serializeBitsWithOffset src sourceBit n = w := by
  rw [serializeBitsWithOffset, dif_neg h]

theorem serializeBits_wrote (src : List Byte) {n : ℕ} (h : w.AllowAppend n) :
    Wrote w (w.serializeBits src n) n (bitOf src) := by
  rw [serializeBits, dif_pos h]
  split
  · rename_i h1
    subst h1
    refine ⟨rfl, rfl, rfl, fun i => ?_⟩
    have hfit := h.fits
    have hbit : (byteAt src 0).getLsbD 0 = bitOf src 0 := rfl
    simp only
    rw [hbit]
    by_cases hi : w.pos ≤ i ∧ i < w.pos + 1
    · have : i = w.pos := by omega
      subst this
      rw [if_pos hi, Nat.sub_self]
      cases hs : bitOf src 0
      · simpa using w.clean _ (Nat.le_refl _)
      · simp [bitOf_or_bit _ (show w.pos < 8 * w.buffer.length by omega)]
    · rw [if_neg hi]
      split
      · rw [bitOf_or_bit _ (by omega), decide_eq_false (by omega), Bool.or_false]
      · rfl
  · have := serializeBitsWithOffset_wrote src 0 h
    simpa using this

theorem writeU32_wrote (v : ℕ) (h : w.AllowAppend 32) : Wrote w (w.writeU32 v) 32 v.testBit := by
  have hw := serializeBitsWithOffset_wrote (leBytes 4 v) 0 h
  refine ⟨hw.pos, hw.max, hw.error, fun i => ?_⟩
  rw [writeU32, serialize, hw.bit i]
  split
  · rw [Nat.zero_add, bitOf_leBytes 4 v _ (by omega)]
  · rfl

theorem writeU32_of_not (v : ℕ) (h : ¬ w.AllowAppend 32) : w.writeU32 v = w :=
  serializeBitsWithOffset_of_not h _ 0

end BitWriter

/-! ## Reading -/

structure BitReader where
  buffer : List Byte
  max : ℕ
  pos : ℕ
  arIsError : Bool
  deriving DecidableEq

namespace BitReader

def gMask (k : ℕ) : Byte := BitVec.ofNat 8 (2 ^ k - 1)

/-- `BitReader(Src, CountBits)`: a copy of the source, masked above the last bit. -/
def ofBytes (src : List Byte) (countBits : ℕ) : BitReader :=
  let buffer := src.take ((countBits + 7) / 8)
  ⟨if countBits % 8 ≠ 0 then
      buffer.set (countBits / 8) (byteAt buffer (countBits / 8) &&& gMask (countBits % 8))
    else buffer, countBits, 0, false⟩

variable (r : BitReader)

def setError : BitReader := { r with arIsError := true }

def setAtEnd : BitReader := { r with pos := r.max }

def serializeBits (dest : List Byte) (lengthBits : ℕ) : List Byte × BitReader :=
  if r.arIsError ∨ r.max < r.pos + lengthBits then
    let bytes := (lengthBits + 7) / 8
    (List.replicate bytes 0 ++ dest.drop bytes, r.setError)
  else if lengthBits = 1 then
    (dest.set 0 (if bitOf r.buffer r.pos then 1 else 0), { r with pos := r.pos + 1 })
  else if lengthBits ≠ 0 then
    (appBitsCpy (dest.set ((lengthBits + 7) / 8 - 1) 0) 0 r.buffer r.pos lengthBits,
      { r with pos := r.pos + lengthBits })
  else (dest, r)

/-- `SerializeBitsWithOffset`, which leaves `dest` alone on an error. -/
def serializeBitsWithOffset (dest : List Byte) (destBit lengthBits : ℕ) : List Byte × BitReader :=
  if r.arIsError ∨ r.max < r.pos + lengthBits then (dest, r.setError)
  else if lengthBits ≠ 0 then
    (appBitsCpy dest destBit r.buffer r.pos lengthBits, { r with pos := r.pos + lengthBits })
  else (dest, r)

/-- `ReadBit`; past the end it reads `0` and sets no error. -/
def readBit : Bool × BitReader :=
  if r.arIsError ∨ r.max ≤ r.pos then (false, r)
  else (bitOf r.buffer r.pos, { r with pos := r.pos + 1 })

def readUInt (k : ℕ) : ℕ × BitReader :=
  let (bytes, r) := r.serializeBits (List.replicate k 0) (8 * k)
  (leNat bytes, r)

/-! ## What a read yields -/

theorem ofBytes_whole (src : List Byte) (k : ℕ) : ofBytes src (k * 8) = ⟨src.take k, k * 8, 0, false⟩ := by
  have h1 : (k * 8 + 7) / 8 = k := by omega
  have h2 : k * 8 % 8 = 0 := by omega
  rw [ofBytes, h1, h2]; rfl

variable {r}

structure Holds (r : BitReader) (n : ℕ) : Prop where
  noError : r.arIsError = false
  le : r.pos + n ≤ r.max

theorem Holds.not_over {n : ℕ} (h : Holds r n) : ¬ (r.arIsError ∨ r.max < r.pos + n) := by
  rw [h.noError]; have := h.le; simp; omega

theorem serializeBits_read {n : ℕ} (h : Holds r n) (dest : List Byte) (hn : n ≤ 8 * dest.length) :
    (r.serializeBits dest n).2 = { r with pos := r.pos + n } ∧
      (r.serializeBits dest n).1.length = dest.length ∧
      ∀ i < n, bitOf (r.serializeBits dest n).1 i = bitOf r.buffer (r.pos + i) := by
  rw [serializeBits, if_neg h.not_over]
  by_cases h1 : n = 1
  · subst h1
    rw [if_pos rfl]
    refine ⟨rfl, by simp, fun i hi => ?_⟩
    obtain rfl : i = 0 := by omega
    simp only
    rw [bitOf_set _ (by omega)]
    cases bitOf r.buffer (r.pos + 0) <;> simp_all
  · rw [if_neg h1]
    by_cases h0 : n = 0
    · subst h0
      exact ⟨by simp, by simp, fun i hi => absurd hi (Nat.not_lt_zero i)⟩
    · have hfit : 0 + n ≤ 8 * (dest.set ((n + 7) / 8 - 1) 0).length := by rw [List.length_set]; omega
      rw [if_pos h0]
      refine ⟨rfl, by rw [appBitsCpy_length _ hfit, List.length_set], fun i hi => ?_⟩
      rw [bitOf_appBitsCpy _ hfit, if_pos (by omega), Nat.sub_zero]

theorem readUInt_read {k : ℕ} (h : Holds r (8 * k)) :
    (r.readUInt k).2 = { r with pos := r.pos + 8 * k } ∧ (r.readUInt k).1 < 2 ^ (8 * k) ∧
      ∀ i < 8 * k, (r.readUInt k).1.testBit i = bitOf r.buffer (r.pos + i) := by
  obtain ⟨hr, hl, hb⟩ := serializeBits_read h (List.replicate k 0) (by simp)
  have hlt := leNat_lt (r.serializeBits (List.replicate k 0) (8 * k)).1
  rw [hl, List.length_replicate, show 256 = 2 ^ 8 by rfl, ← pow_mul] at hlt
  exact ⟨hr, hlt, fun i hi => by rw [readUInt]; simp only; rw [testBit_leNat, hb i hi]⟩

theorem readUInt_eq {k v : ℕ} (h : Holds r (8 * k)) (hv : v < 2 ^ (8 * k))
    (hb : ∀ i < 8 * k, bitOf r.buffer (r.pos + i) = v.testBit i) :
    r.readUInt k = (v, { r with pos := r.pos + 8 * k }) := by
  obtain ⟨hr, hlt, ht⟩ := readUInt_read h
  refine Prod.ext (Nat.eq_of_testBit_eq fun i => ?_) hr
  by_cases hi : i < 8 * k
  · rw [ht i hi, hb i hi]
  · have hle : 2 ^ (8 * k) ≤ 2 ^ i := Nat.pow_le_pow_right (by decide) (by omega)
    rw [Nat.testBit_lt_two_pow (hlt.trans_le hle), Nat.testBit_lt_two_pow (hv.trans_le hle)]

theorem readUInt_over {k : ℕ} (h : r.arIsError ∨ r.max < r.pos + 8 * k) : r.readUInt k = (0, r.setError) := by
  have hz : ∀ n, leNat (List.replicate n 0#8) = 0 := by
    intro n
    induction n with
    | zero => rfl
    | succ n ih => rw [List.replicate_succ, leNat, ih]; rfl
  rw [readUInt, serializeBits, if_pos h]
  have h8 : (8 * k + 7) / 8 = k := by omega
  simp [h8, hz]

theorem readBit_read (h : Holds r 1) : r.readBit = (bitOf r.buffer r.pos, { r with pos := r.pos + 1 }) := by
  have := h.le
  rw [readBit, if_neg (by rw [h.noError]; simp; omega)]

end BitReader

end RudpEngine

import RudpEngine.ByteBits

/-!
# The bit copier

`appBitsCpy` copies `bitCount` bits between two byte buffers at any bit
offsets, through a 32-bit accumulator. `bitOf_appBitsCpy` says what it does
to each bit of the destination.
-/

namespace RudpEngine

def u32 (b : Byte) : BitVec 32 := b.setWidth 32

/-- Up to eight bits: one or two source bytes, one or two destination bytes. -/
def bitsCpyShort (dest : List Byte) (destBit : ℕ) (src : List Byte) (srcBit bitCount : ℕ) : List Byte :=
  let destIndex := destBit / 8
  let srcIndex := srcBit / 8
  let lastDest := (destBit + bitCount - 1) / 8
  let lastSrc := (srcBit + bitCount - 1) / 8
  let shiftDest := destBit % 8
  let shiftSrc := srcBit % 8
  let firstMask := 0xFF#32 <<< shiftDest
  let lastMask := 0xFE#32 <<< ((destBit + bitCount - 1) % 8)
  let accu :=
    if srcIndex = lastSrc then u32 (byteAt src srcIndex) >>> shiftSrc
    else (u32 (byteAt src srcIndex) >>> shiftSrc) ||| (u32 (byteAt src lastSrc) <<< (8 - shiftSrc))
  if destIndex = lastDest then
    let multiMask := firstMask &&& ~~~lastMask
    dest.set destIndex
      (((u32 (byteAt dest destIndex) &&& ~~~multiMask) ||| ((accu <<< shiftDest) &&& multiMask)).setWidth 8)
  else
    let dest := dest.set destIndex
      (((u32 (byteAt dest destIndex) &&& ~~~firstMask) ||| ((accu <<< shiftDest) &&& firstMask)).setWidth 8)
    dest.set lastDest
      (((u32 (byteAt dest lastDest) &&& lastMask) ||| ((accu >>> (8 - shiftDest)) &&& ~~~lastMask)).setWidth 8)

/-- One source byte comes in above the accumulator and the byte just written leaves it. -/
def bitsCpyStep (src : List Byte) (shiftCount srcIndex : ℕ) (bitAccu : BitVec 32) : BitVec 32 :=
  ((u32 (byteAt src srcIndex) <<< shiftCount) + bitAccu) >>> 8

def bitsCpyLoop (src : List Byte) (shiftCount : ℕ) :
    ℕ → ℕ → ℕ → BitVec 32 → List Byte → ℕ × ℕ × BitVec 32 × List Byte
  | 0, srcIndex, destIndex, bitAccu, dest => (srcIndex, destIndex, bitAccu, dest)
  | n + 1, srcIndex, destIndex, bitAccu, dest =>
    let bitAccu := bitsCpyStep src shiftCount srcIndex bitAccu
    bitsCpyLoop src shiftCount n (srcIndex + 1) (destIndex + 1) bitAccu (dest.set destIndex (bitAccu.setWidth 8))

/-- The first source byte, or the first two where the source starts higher in its byte than the
destination: the number of loops, the accumulator, its shift and the last byte read. -/
def bitsCpyHead (src : List Byte) (destBit srcBit bitCount : ℕ) : ℕ × BitVec 32 × ℕ × ℕ :=
  let srcIndex := srcBit / 8
  let destLoop := (destBit + bitCount) / 8 - destBit / 8
  let srcLoop := (srcBit + bitCount) / 8 - srcIndex
  let shiftCount : ℤ := (destBit % 8 : ℕ) - (srcBit % 8 : ℕ)
  if 0 ≤ shiftCount then
    (max destLoop srcLoop, u32 (byteAt src srcIndex) <<< shiftCount.toNat, (shiftCount + 8).toNat, srcIndex)
  else
    let bitAccu := u32 (byteAt src srcIndex) <<< (shiftCount + 8).toNat
    (max destLoop (srcLoop - 1), bitsCpyStep src (shiftCount + 16).toNat (srcIndex + 1) bitAccu,
      (shiftCount + 16).toNat, srcIndex + 1)

def bitsCpyLong (dest : List Byte) (destBit : ℕ) (src : List Byte) (srcBit bitCount : ℕ) : List Byte :=
  let destIndex := destBit / 8
  let firstSrcMask := 0xFF#32 <<< (destBit % 8)
  let lastSrcMask := 0xFF#32 <<< ((destBit + bitCount) % 8)
  let (fullLoop, bitAccu, shiftCount, srcIndex) := bitsCpyHead src destBit srcBit bitCount
  let dest := dest.set destIndex
    (((bitAccu &&& firstSrcMask) ||| (u32 (byteAt dest destIndex) &&& ~~~firstSrcMask)).setWidth 8)
  let (srcIndex, destIndex, bitAccu, dest) :=
    bitsCpyLoop src shiftCount (fullLoop - 1) (srcIndex + 1) (destIndex + 1) bitAccu dest
  if lastSrcMask ≠ 0xFF#32 then
    let bitAccu :=
      if (srcBit + bitCount - 1) / 8 = srcIndex then bitsCpyStep src shiftCount srcIndex bitAccu
      else bitAccu >>> 8
    dest.set destIndex
      (((u32 (byteAt dest destIndex) &&& lastSrcMask) ||| (bitAccu &&& ~~~lastSrcMask)).setWidth 8)
  else dest

def appBitsCpy (dest : List Byte) (destBit : ℕ) (src : List Byte) (srcBit bitCount : ℕ) : List Byte :=
  if bitCount = 0 then dest
  else if bitCount ≤ 8 then bitsCpyShort dest destBit src srcBit bitCount
  else bitsCpyLong dest destBit src srcBit bitCount

/-! ## Masks -/

theorem getLsbD_u32 (b : Byte) (t : ℕ) : (u32 b).getLsbD t = b.getLsbD t := by
  rw [u32, BitVec.getLsbD_setWidth]
  by_cases h : t < 32
  · simp [h]
  · simp [h, BitVec.getLsbD_of_ge b t (by omega)]

theorem getLsbD_FF (t : ℕ) : (0xFF#32).getLsbD t = decide (t < 8) := by
  rw [BitVec.getLsbD_ofNat, show (255 : ℕ) = 2 ^ 8 - 1 by rfl, Nat.testBit_two_pow_sub_one]
  by_cases h : t < 8
  · simp [h]; omega
  · simp [h]

theorem getLsbD_firstMask {d t : ℕ} (ht : t < 8) : (0xFF#32 <<< d).getLsbD t = decide (d ≤ t) := by
  rw [BitVec.getLsbD_shiftLeft, getLsbD_FF]
  by_cases h : d ≤ t
  · simp [h, Nat.not_lt.mpr h]; omega
  · simp [h, Nat.not_le.mp h]

theorem getLsbD_lastMask {l t : ℕ} (ht : t < 8) : (0xFE#32 <<< l).getLsbD t = decide (l < t) := by
  have hFE : (0xFE#32) = 0xFF#32 <<< 1 &&& 0xFF#32 := by decide
  rw [BitVec.getLsbD_shiftLeft, hFE, BitVec.getLsbD_and, BitVec.getLsbD_shiftLeft, getLsbD_FF, getLsbD_FF]
  by_cases h : l < t
  · have h1 : ¬ t < l := by omega
    have h2 : ¬ t - l < 1 := by omega
    simp [h, h1, h2]; omega
  · by_cases h1 : t < l
    · simp [h, h1]
    · have h2 : t - l < 1 := by omega
      simp [h, h2]

theorem getLsbD_byte (w : BitVec 32) {t : ℕ} (ht : t < 8) : (w.setWidth 8).getLsbD t = w.getLsbD t := by
  simp [ht]

theorem getLsbD_splice (a b m : BitVec 32) {t : ℕ} (ht : t < 8) :
    (((a &&& ~~~m) ||| (b &&& m)).setWidth 8).getLsbD t = if m.getLsbD t then b.getLsbD t else a.getLsbD t := by
  have h32 : t < 32 := by omega
  rw [getLsbD_byte _ ht, BitVec.getLsbD_or, BitVec.getLsbD_and, BitVec.getLsbD_and, BitVec.getLsbD_not]
  cases m.getLsbD t <;> simp [h32]

theorem getLsbD_splice_not (a b m : BitVec 32) {t : ℕ} (ht : t < 8) :
    (((a &&& m) ||| (b &&& ~~~m)).setWidth 8).getLsbD t = if m.getLsbD t then a.getLsbD t else b.getLsbD t := by
  rw [BitVec.or_comm, getLsbD_splice b a m ht]

/-! ## The short copy -/

section
variable (src : List Byte) (srcBit bitCount : ℕ)

def shortAccu : BitVec 32 :=
  if srcBit / 8 = (srcBit + bitCount - 1) / 8 then u32 (byteAt src (srcBit / 8)) >>> (srcBit % 8)
  else (u32 (byteAt src (srcBit / 8)) >>> (srcBit % 8)) |||
    (u32 (byteAt src ((srcBit + bitCount - 1) / 8)) <<< (8 - srcBit % 8))

theorem getLsbD_shortAccu (hc : bitCount ≤ 8) {k : ℕ} (hk : k < bitCount) :
    (shortAccu src srcBit bitCount).getLsbD k = bitOf src (srcBit + k) := by
  rw [shortAccu]
  by_cases hsame : srcBit / 8 = (srcBit + bitCount - 1) / 8
  · have hd : (srcBit + k) / 8 = srcBit / 8 := by omega
    have hm : (srcBit + k) % 8 = srcBit % 8 + k := by omega
    rw [if_pos hsame, BitVec.getLsbD_ushiftRight, getLsbD_u32, bitOf, hd, hm]
  · have hlast : (srcBit + bitCount - 1) / 8 = srcBit / 8 + 1 := by omega
    rw [if_neg hsame, hlast, BitVec.getLsbD_or, BitVec.getLsbD_ushiftRight, BitVec.getLsbD_shiftLeft,
      getLsbD_u32, getLsbD_u32, bitOf]
    by_cases hlow : srcBit % 8 + k < 8
    · have hd : (srcBit + k) / 8 = srcBit / 8 := by omega
      have hm : (srcBit + k) % 8 = srcBit % 8 + k := by omega
      have hlt : k < 8 - srcBit % 8 := by omega
      rw [hd, hm]; simp [hlt]
    · have hd : (srcBit + k) / 8 = srcBit / 8 + 1 := by omega
      have hm : (srcBit + k) % 8 = k - (8 - srcBit % 8) := by omega
      have hge : ¬ k < 8 - srcBit % 8 := by omega
      have h32 : k < 32 := by omega
      rw [BitVec.getLsbD_of_ge _ (srcBit % 8 + k) (by omega), hd, hm]; simp [hge, h32]

variable {dest : List Byte} {destBit : ℕ}

theorem bitsCpyShort_length : (bitsCpyShort dest destBit src srcBit bitCount).length = dest.length := by
  unfold bitsCpyShort; simp only; split <;> simp

theorem bitOf_bitsCpyShort (h0 : 0 < bitCount) (hc : bitCount ≤ 8) (hd : destBit + bitCount ≤ 8 * dest.length)
    (i : ℕ) : bitOf (bitsCpyShort dest destBit src srcBit bitCount) i =
      if destBit ≤ i ∧ i < destBit + bitCount then bitOf src (srcBit + (i - destBit)) else bitOf dest i := by
  have haccu : ∀ k, k < bitCount → (shortAccu src srcBit bitCount).getLsbD k = bitOf src (srcBit + k) :=
    fun k hk => getLsbD_shortAccu src srcBit bitCount hc hk
  have hi8 : i % 8 < 8 := Nat.mod_lt _ (by decide)
  unfold bitsCpyShort
  simp only
  rw [← shortAccu]
  generalize shortAccu src srcBit bitCount = accu at haccu
  split
  · rename_i hsame
    rw [bitOf_set _ (by omega), getLsbD_splice _ _ _ hi8, BitVec.getLsbD_and, BitVec.getLsbD_not,
      getLsbD_firstMask hi8, getLsbD_lastMask hi8, BitVec.getLsbD_shiftLeft, getLsbD_u32]
    by_cases hbyte : i / 8 = destBit / 8
    · have h32 : i % 8 < 32 := by omega
      by_cases hin : destBit ≤ i ∧ i < destBit + bitCount
      · have h1 : destBit % 8 ≤ i % 8 := by omega
        have h2 : ¬ (destBit + bitCount - 1) % 8 < i % 8 := by omega
        have hk := haccu (i % 8 - destBit % 8) (by omega)
        rw [show srcBit + (i % 8 - destBit % 8) = srcBit + (i - destBit) by omega] at hk
        simp [hbyte, hin, h1, h2, h32, hk, Nat.not_lt.mpr h1]
      · have hout : destBit % 8 ≤ i % 8 → (destBit + bitCount - 1) % 8 < i % 8 := by omega
        rw [if_pos hbyte, if_neg hin, if_neg (by simpa [h32] using hout), bitOf, hbyte]
    · rw [if_neg hbyte, if_neg (by omega)]
  · -- the copy runs over into the next byte
    rename_i hdiff
    have hlast : (destBit + bitCount - 1) / 8 = destBit / 8 + 1 := by omega
    have hlen : destBit / 8 + 1 < dest.length := by omega
    rw [hlast, bitOf_set _ (by rw [List.length_set]; exact hlen), byteAt_set _ (by omega),
      if_neg (show ¬ destBit / 8 + 1 = destBit / 8 by omega), bitOf_set _ (by omega), getLsbD_splice _ _ _ hi8, getLsbD_splice_not _ _ _ hi8, getLsbD_firstMask hi8,
      getLsbD_lastMask hi8, BitVec.getLsbD_shiftLeft, BitVec.getLsbD_ushiftRight, getLsbD_u32, getLsbD_u32]
    by_cases hsnd : i / 8 = destBit / 8 + 1
    · rw [if_pos hsnd]
      by_cases hin : (destBit + bitCount - 1) % 8 < i % 8
      · rw [if_pos (by simpa using hin), if_neg (by omega), bitOf, hsnd]
      · have hk := haccu (8 - destBit % 8 + i % 8) (by omega)
        rw [show srcBit + (8 - destBit % 8 + i % 8) = srcBit + (i - destBit) by omega] at hk
        rw [if_neg (by simpa using hin), if_pos (by omega), hk]
    · rw [if_neg hsnd]
      by_cases hfst : i / 8 = destBit / 8
      · rw [if_pos hfst]
        by_cases hin : destBit % 8 ≤ i % 8
        · have h32 : i % 8 < 32 := by omega
          have hk := haccu (i % 8 - destBit % 8) (by omega)
          rw [show srcBit + (i % 8 - destBit % 8) = srcBit + (i - destBit) by omega] at hk
          rw [if_pos (by simpa using hin), if_pos (by omega), hk]
          simp [h32, Nat.not_lt.mpr hin]
        · rw [if_neg (by simpa using hin), if_neg (by omega), bitOf, hfst]
      · rw [if_neg hfst, if_neg (by omega)]

/-! ## The long copy -/

/-- Above `lo` the accumulator holds the source bits that end before byte `srcIndex`. -/
def AccuHolds (lo shiftCount srcIndex : ℕ) (accu : BitVec 32) : Prop :=
  ∀ t, lo ≤ t → accu.getLsbD t = (decide (t < shiftCount) && bitOf src (8 * srcIndex + t - shiftCount))

theorem AccuHolds.step {src : List Byte} {lo sc si : ℕ} {accu : BitVec 32} (h : AccuHolds src (lo + 8) sc si accu)
    (h8 : 8 ≤ sc) (h15 : sc ≤ 15) (hlo : lo + 8 ≤ sc) :
    AccuHolds src lo sc (si + 1) (bitsCpyStep src sc si accu) := by
  have hdisj : (u32 (byteAt src si) <<< sc) &&& accu = 0 := by
    apply BitVec.eq_of_getLsbD_eq
    intro t _
    rw [BitVec.getLsbD_and, BitVec.getLsbD_shiftLeft]
    by_cases ht : t < sc
    · simp [ht]
    · simp [h t (by omega), ht]
  intro t ht
  have h32 : ∀ {j}, j < 23 → j < 32 := by omega
  rw [bitsCpyStep, BitVec.add_eq_or_of_and_eq_zero _ _ hdisj, BitVec.getLsbD_ushiftRight, BitVec.getLsbD_or,
    BitVec.getLsbD_shiftLeft, getLsbD_u32, h (8 + t) (by omega)]
  by_cases h1 : 8 + t < sc
  · have h2 : t < sc := by omega
    rw [show 8 * (si + 1) + t - sc = 8 * si + (8 + t) - sc by omega]
    simp [h1, h2]
  · by_cases h2 : t < sc
    · have hd : (8 * (si + 1) + t - sc) / 8 = si := by omega
      have hm : (8 * (si + 1) + t - sc) % 8 = 8 + t - sc := by omega
      have hbit : bitOf src (8 * (si + 1) + t - sc) = (byteAt src si).getLsbD (8 + t - sc) := by rw [bitOf, hd, hm]
      rw [hbit]
      simp [h1, h2, h32 (show 8 + t < 23 by omega)]
    · rw [BitVec.getLsbD_of_ge _ (8 + t - sc) (by omega)]
      simp [h1, h2]

theorem AccuHolds.mono {src : List Byte} {lo lo' sc si : ℕ} {accu : BitVec 32} (h : AccuHolds src lo sc si accu)
    (hle : lo ≤ lo') : AccuHolds src lo' sc si accu :=
  fun t ht => h t (by omega)

structure LoopCopied (src : List Byte) (sc n si di : ℕ) (dest : List Byte)
    (r : ℕ × ℕ × BitVec 32 × List Byte) : Prop where
  srcIndex : r.1 = si + n
  destIndex : r.2.1 = di + n
  accu : AccuHolds src 8 sc (si + n) r.2.2.1
  length : r.2.2.2.length = dest.length
  bit : ∀ i, bitOf r.2.2.2 i =
    if 8 * di ≤ i ∧ i < 8 * (di + n) then bitOf src (8 * (si + 1) + (i - 8 * di) - sc) else bitOf dest i

theorem bitsCpyLoop_copied {src : List Byte} {sc : ℕ} (h8 : 8 ≤ sc) (h15 : sc ≤ 15) (n si di : ℕ) (accu : BitVec 32)
    (dest : List Byte) (h : AccuHolds src 8 sc si accu) (hlen : di + n ≤ dest.length) :
    LoopCopied src sc n si di dest (bitsCpyLoop src sc n si di accu dest) := by
  induction n generalizing si di accu dest with
  | zero =>
    refine ⟨rfl, rfl, h, rfl, fun i => ?_⟩
    rw [if_neg (by omega)]; rfl
  | succ n ih =>
    have hstep : AccuHolds src 0 sc (si + 1) (bitsCpyStep src sc si accu) := h.step h8 h15 h8
    have hn := ih (si + 1) (di + 1) _ (dest.set di ((bitsCpyStep src sc si accu).setWidth 8))
      (hstep.mono (Nat.zero_le 8)) (by rw [List.length_set]; omega)
    rw [bitsCpyLoop]
    refine ⟨by rw [hn.srcIndex]; omega, by rw [hn.destIndex]; omega, ?_, by rw [hn.length, List.length_set], fun i => ?_⟩
    · rw [show si + (n + 1) = si + 1 + n by omega]; exact hn.accu
    · rw [hn.bit i, bitOf_set _ (by omega)]
      by_cases hnew : i / 8 = di
      · -- the byte this round wrote
        have hm : i % 8 < 8 := Nat.mod_lt _ (by decide)
        rw [if_neg (by omega), if_pos hnew, if_pos (by omega), getLsbD_byte _ hm, hstep _ (Nat.zero_le _),
          show i - 8 * di = i % 8 by omega]
        simp [show i % 8 < sc by omega]
      · by_cases hin : 8 * (di + 1) ≤ i ∧ i < 8 * (di + 1 + n)
        · rw [if_pos hin, if_pos (by omega)]
          congr 1; omega
        · rw [if_neg hin, if_neg hnew, if_neg (by omega)]

structure HeadAligned (src : List Byte) (destBit srcBit bitCount : ℕ) (r : ℕ × BitVec 32 × ℕ × ℕ) : Prop where
  fullLoop : r.1 = (destBit + bitCount) / 8 - destBit / 8
  accu : AccuHolds src (destBit % 8) r.2.2.1 (r.2.2.2 + 1) r.2.1
  shift_ge : 8 ≤ r.2.2.1
  shift_le : r.2.2.1 ≤ 15
  aligned : 8 * (r.2.2.2 + 1) + destBit % 8 = srcBit + r.2.2.1

theorem accuHolds_first (src : List Byte) (si k : ℕ) (hk : k ≤ 7) :
    AccuHolds src k (k + 8) (si + 1) (u32 (byteAt src si) <<< k) := by
  intro t ht
  rw [BitVec.getLsbD_shiftLeft, getLsbD_u32]
  by_cases h : t < k + 8
  · have hd : (8 * (si + 1) + t - (k + 8)) / 8 = si := by omega
    have hm : (8 * (si + 1) + t - (k + 8)) % 8 = t - k := by omega
    have hbit : bitOf src (8 * (si + 1) + t - (k + 8)) = (byteAt src si).getLsbD (t - k) := by rw [bitOf, hd, hm]
    rw [hbit]
    simp [h, Nat.not_lt.mpr ht, show t < 32 by omega]
  · rw [BitVec.getLsbD_of_ge _ (t - k) (by omega)]
    simp [h]

theorem bitsCpyHead_aligned (src : List Byte) (destBit srcBit bitCount : ℕ) (h9 : 8 < bitCount) :
    HeadAligned src destBit srcBit bitCount (bitsCpyHead src destBit srcBit bitCount) := by
  unfold bitsCpyHead
  simp only
  split
  · rename_i h
    obtain ⟨k, hk⟩ : ∃ k : ℕ, ((destBit % 8 : ℕ) : ℤ) - (srcBit % 8 : ℕ) = k := ⟨_, (Int.toNat_of_nonneg h).symm⟩
    rw [hk, Int.toNat_natCast, show ((k : ℤ) + 8).toNat = k + 8 by omega]
    exact ⟨by simp only; omega, (accuHolds_first src _ k (by omega)).mono (by omega),
      by simp only; omega, by simp only; omega, by simp only; omega⟩
  · rename_i h
    obtain ⟨k, hk⟩ : ∃ k : ℕ, ((destBit % 8 : ℕ) : ℤ) - (srcBit % 8 : ℕ) + 8 = k := ⟨_, (Int.toNat_of_nonneg (by omega)).symm⟩
    have h16 : (((destBit % 8 : ℕ) : ℤ) - (srcBit % 8 : ℕ) + 16).toNat = k + 8 := by omega
    rw [hk, h16, Int.toNat_natCast]
    have hfirst : AccuHolds src (destBit % 8 + 8) (k + 8) (srcBit / 8 + 1) (u32 (byteAt src (srcBit / 8)) <<< k) :=
      (accuHolds_first src (srcBit / 8) k (by omega)).mono (by omega)
    exact ⟨by simp only; omega, hfirst.step (by omega) (by omega) (by omega),
      by simp only; omega, by simp only; omega, by simp only; omega⟩

theorem lastSrcMask_ne {l : ℕ} : 0xFF#32 <<< l ≠ 0xFF#32 ↔ l ≠ 0 := by
  constructor
  · rintro h rfl; exact h (by decide)
  · intro h heq
    have := congrArg (fun w : BitVec 32 => w.getLsbD 0) heq
    simp [Nat.pos_of_ne_zero h] at this

theorem bitsCpyLong_copied {dest : List Byte} {destBit srcBit bitCount : ℕ} (h9 : 8 < bitCount)
    (hd : destBit + bitCount ≤ 8 * dest.length) :
    (bitsCpyLong dest destBit src srcBit bitCount).length = dest.length ∧
      ∀ i, bitOf (bitsCpyLong dest destBit src srcBit bitCount) i =
        if destBit ≤ i ∧ i < destBit + bitCount then bitOf src (srcBit + (i - destBit)) else bitOf dest i := by
  have hh := bitsCpyHead_aligned src destBit srcBit bitCount h9
  unfold bitsCpyLong
  generalize bitsCpyHead src destBit srcBit bitCount = head at hh
  obtain ⟨fullLoop, accu, sc, si⟩ := head
  obtain ⟨hfull, haccu, hge, hle, halign⟩ := hh
  simp only at hfull haccu hge hle halign ⊢
  generalize hd1 : dest.set (destBit / 8) _ = dest₁
  have hl1 : dest₁.length = dest.length := by rw [← hd1, List.length_set]
  -- the first byte
  have hfst : ∀ i, bitOf dest₁ i =
      if i / 8 = destBit / 8 ∧ destBit ≤ i then bitOf src (srcBit + (i - destBit)) else bitOf dest i := by
    intro i
    have hi8 : i % 8 < 8 := Nat.mod_lt _ (by decide)
    rw [← hd1, bitOf_set _ (by omega), BitVec.or_comm, getLsbD_splice _ _ _ hi8, getLsbD_firstMask hi8, getLsbD_u32]
    by_cases hb : i / 8 = destBit / 8
    · rw [if_pos hb]
      by_cases hin : destBit ≤ i
      · rw [if_pos (by simp; omega), if_pos ⟨hb, hin⟩, haccu _ (by omega),
          show 8 * (si + 1) + i % 8 - sc = srcBit + (i - destBit) by omega]
        simp [show i % 8 < sc by omega]
      · rw [if_neg (by simp; omega), if_neg (by omega), bitOf, hb]
    · rw [if_neg hb, if_neg (by omega)]
  have hloop := bitsCpyLoop_copied hge hle (fullLoop - 1) (si + 1) (destBit / 8 + 1) accu dest₁
    (haccu.mono (by omega)) (by omega)
  generalize bitsCpyLoop src sc (fullLoop - 1) (si + 1) (destBit / 8 + 1) accu dest₁ = loop at hloop
  obtain ⟨si', di', accu', dest₂⟩ := loop
  obtain ⟨hsi, hdi, haccu', hl2, hbit⟩ := hloop
  simp only at hsi hdi haccu' hl2 hbit ⊢
  -- everything before the last partial byte
  have hwhole : ∀ i, bitOf dest₂ i =
      if destBit ≤ i ∧ i < 8 * ((destBit + bitCount) / 8) then bitOf src (srcBit + (i - destBit))
      else bitOf dest i := by
    intro i
    rw [hbit, hfst]
    by_cases h1 : 8 * (destBit / 8 + 1) ≤ i ∧ i < 8 * (destBit / 8 + 1 + (fullLoop - 1))
    · rw [if_pos h1, if_pos (by omega)]
      congr 1; omega
    · rw [if_neg h1]
      by_cases h2 : i / 8 = destBit / 8 ∧ destBit ≤ i
      · rw [if_pos h2, if_pos (by omega)]
      · rw [if_neg h2, if_neg (by omega)]
  by_cases hl : (destBit + bitCount) % 8 = 0
  · rw [if_neg (by rw [lastSrcMask_ne]; exact not_not.mpr hl)]
    refine ⟨by omega, fun i => ?_⟩
    rw [hwhole i, show 8 * ((destBit + bitCount) / 8) = destBit + bitCount by omega]
  · rw [if_pos (lastSrcMask_ne.mpr hl)]
    refine ⟨by rw [List.length_set]; omega, fun i => ?_⟩
    have hi8 : i % 8 < 8 := Nat.mod_lt _ (by decide)
    have hdi' : di' = (destBit + bitCount) / 8 := by omega
    rw [bitOf_set _ (by omega), getLsbD_splice_not _ _ _ hi8, getLsbD_firstMask hi8, getLsbD_u32]
    by_cases hb : i / 8 = di'
    · rw [if_pos hb]
      by_cases hout : (destBit + bitCount) % 8 ≤ i % 8
      · have hold := hwhole i
        rw [if_neg (by omega)] at hold
        rw [if_pos (by simpa using hout), if_neg (by omega), ← hold, bitOf, hb]
      · have hin : destBit ≤ i ∧ i < destBit + bitCount := by omega
        rw [if_neg (by simpa using hout), if_pos hin]
        by_cases hlast : (srcBit + bitCount - 1) / 8 = si'
        · have hstep : AccuHolds src 0 sc (si + 1 + (fullLoop - 1) + 1)
              (bitsCpyStep src sc (si + 1 + (fullLoop - 1)) accu') := haccu'.step hge hle hge
          rw [if_pos hlast, hsi, hstep _ (Nat.zero_le _),
            show 8 * (si + 1 + (fullLoop - 1) + 1) + i % 8 - sc = srcBit + (i - destBit) by omega]
          simp [show i % 8 < sc by omega]
        · rw [if_neg hlast, BitVec.getLsbD_ushiftRight, haccu' _ (by omega),
            show 8 * (si + 1 + (fullLoop - 1)) + (8 + i % 8) - sc = srcBit + (i - destBit) by omega]
          simp [show 8 + i % 8 < sc by omega]
    · rw [if_neg hb, hwhole i]
      by_cases hin : destBit ≤ i ∧ i < 8 * ((destBit + bitCount) / 8)
      · rw [if_pos hin, if_pos (by omega)]
      · rw [if_neg hin, if_neg (by omega)]

end

/-! ## The copy -/

section
variable (src : List Byte) {dest : List Byte} {destBit srcBit bitCount : ℕ} (hd : destBit + bitCount ≤ 8 * dest.length)
include hd

theorem appBitsCpy_length : (appBitsCpy dest destBit src srcBit bitCount).length = dest.length := by
  unfold appBitsCpy
  split
  · rfl
  · split
    · exact bitsCpyShort_length src srcBit bitCount
    · exact (bitsCpyLong_copied src (by omega) hd).1

theorem bitOf_appBitsCpy (i : ℕ) : bitOf (appBitsCpy dest destBit src srcBit bitCount) i =
    if destBit ≤ i ∧ i < destBit + bitCount then bitOf src (srcBit + (i - destBit)) else bitOf dest i := by
  unfold appBitsCpy
  split
  · rw [if_neg (by omega)]
  · split
    · exact bitOf_bitsCpyShort src srcBit bitCount (by omega) (by assumption) hd i
    · exact (bitsCpyLong_copied src (by omega) hd).2 i

end

end RudpEngine

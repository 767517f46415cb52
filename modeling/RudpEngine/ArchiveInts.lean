import RudpEngine.HandshakeTrip
import Mathlib.Data.Nat.Find

/-!
# Numbers in the archives

Two codings have a number of bits that depends on the value. A number below a
bound is written from its lowest bit on, as long as a further bit could still
be set; a packed number goes out in groups of seven bits, each with a flag that
says whether another one follows, and may lie across two bytes.
-/

namespace RudpEngine

/-! ## The length of a bounded number -/

theorem exists_intLength (value max : ℕ) : ∃ k, max ≤ value % 2 ^ k + 2 ^ k :=
  ⟨max, Nat.lt_two_pow_self.le.trans (Nat.le_add_left _ _)⟩

/-- The first place at which a set bit would reach `max`. -/
def intLength (value max : ℕ) : ℕ := Nat.find (exists_intLength value max)

section
variable {value max k : ℕ}

theorem lt_of_lt_intLength (h : k < intLength value max) : value % 2 ^ k + 2 ^ k < max :=
  Nat.lt_of_not_le (Nat.find_min (exists_intLength value max) h)

theorem intLength_le (h : max ≤ 2 ^ k) : intLength value max ≤ k :=
  Nat.find_min' _ (h.trans (Nat.le_add_left _ _))

theorem le_of_eq_intLength (h : k = intLength value max) : max ≤ value % 2 ^ k + 2 ^ k :=
  h ▸ Nat.find_spec (exists_intLength value max)

theorem mod_intLength (h : value < max) : value % 2 ^ intLength value max = value := by
  have hspec : max ≤ value % 2 ^ intLength value max + 2 ^ intLength value max := le_of_eq_intLength rfl
  have hdiv := Nat.div_add_mod value (2 ^ intLength value max)
  have hzero : value / 2 ^ intLength value max = 0 := by
    by_contra hne
    have := Nat.le_mul_of_pos_right (2 ^ intLength value max) (Nat.pos_of_ne_zero hne)
    omega
  rw [hzero, Nat.mul_zero, Nat.zero_add] at hdiv
  exact hdiv

end

/-- `_BitScanReverse64` is the binary logarithm. -/
def countLeadingZeros (value : BitVec 32) : ℕ := 32 - (value.toNat * 2 + 1).log2

def ceilLogTwo (arg : BitVec 32) : ℕ := 32 - countLeadingZeros ((if arg = 0 then 1 else arg) - 1)

theorem log2_le (value : BitVec 32) : (value.toNat * 2 + 1).log2 ≤ 32 :=
  Nat.lt_succ_iff.mp ((Nat.log2_lt (by omega)).mpr (by have := value.isLt; omega))

theorem ceilLogTwo_le (arg : BitVec 32) : ceilLogTwo arg ≤ 32 := Nat.sub_le _ _

theorem le_two_pow_ceilLogTwo (arg : BitVec 32) : arg.toNat ≤ 2 ^ ceilLogTwo arg := by
  by_cases hzero : arg = 0
  · rw [hzero]
    exact Nat.zero_le _
  · have hpos : 0 < arg.toNat := Nat.pos_of_ne_zero fun h => hzero (BitVec.eq_of_toNat_eq h)
    have hpred : (arg - 1).toNat = arg.toNat - 1 := BitVec.toNat_sub_of_le (by rw [BitVec.le_def]; exact hpos)
    have hlog : ceilLogTwo arg = ((arg - 1).toNat * 2 + 1).log2 := by
      have := log2_le (arg - 1)
      unfold ceilLogTwo countLeadingZeros
      rw [if_neg hzero]
      omega
    have hlt := Nat.lt_log2_self (n := (arg - 1).toNat * 2 + 1)
    rw [← hlog, pow_succ] at hlt
    omega

theorem intLength_le_ceilLogTwo (value : ℕ) (max : BitVec 32) : intLength value max.toNat ≤ ceilLogTwo max :=
  intLength_le (le_two_pow_ceilLogTwo max)

/-! ## Writing a bounded number -/

namespace BitWriter

/-- The loop of `SerializeInt` and of `WriteIntWrapped`; behind 32 rounds `Mask` is zero. -/
def intLoop (value max : BitVec 32) : ℕ → BitVec 32 → BitVec 32 → List Byte → ℕ → List Byte × ℕ
  | 0, _, _, buffer, pos => (buffer, pos)
  | n + 1, newValue, mask, buffer, pos =>
    if newValue + mask < max ∧ mask ≠ 0 then
      if value &&& mask ≠ 0 then
        intLoop value max n (newValue + mask) (mask * 2)
          (buffer.set (pos / 8) (byteAt buffer (pos / 8) + (1#8 <<< (pos % 8)))) (pos + 1)
      else intLoop value max n newValue (mask * 2) buffer (pos + 1)
    else (buffer, pos)

theorem bitOf_add_bit {buf : List Byte} {p : ℕ} (hp : p < 8 * buf.length) (hclear : bitOf buf p = false) (i : ℕ) :
    bitOf (buf.set (p / 8) (byteAt buf (p / 8) + (1#8 <<< (p % 8)))) i = (bitOf buf i || decide (i = p)) := by
  have hand : byteAt buf (p / 8) &&& (1#8 <<< (p % 8)) = 0#8 := by
    rw [← BitVec.twoPow_eq, BitVec.and_twoPow]
    rw [if_neg (by rw [show (byteAt buf (p / 8)).getLsbD (p % 8) = false from hclear]; exact Bool.false_ne_true)]
  rw [BitVec.add_eq_or_of_and_eq_zero _ _ hand, bitOf_or_bit buf hp]

theorem intLoop_cond {newValue max : BitVec 32} {v k : ℕ} (hk : k < 32) (hnew : newValue.toNat = v % 2 ^ k) :
    newValue + BitVec.twoPow 32 k < max ∧ BitVec.twoPow 32 k ≠ 0 ↔ v % 2 ^ k + 2 ^ k < max.toNat := by
  have htwo : (BitVec.twoPow 32 k).toNat = 2 ^ k := BitVec.toNat_twoPow_of_lt hk
  have hmod : v % 2 ^ k < 2 ^ k := Nat.mod_lt _ (Nat.two_pow_pos k)
  have hle : 2 ^ (k + 1) ≤ 2 ^ 32 := Nat.pow_le_pow_right (by decide) hk
  have hsum : (newValue + BitVec.twoPow 32 k).toNat = v % 2 ^ k + 2 ^ k := by
    rw [BitVec.toNat_add, hnew, htwo, Nat.mod_eq_of_lt (by rw [pow_succ] at hle; omega)]
  have hne : BitVec.twoPow 32 k ≠ 0 := by
    intro h
    have := congrArg BitVec.toNat h
    rw [htwo] at this
    exact absurd this (Nat.two_pow_pos k).ne'
  rw [BitVec.lt_def, hsum]
  exact and_iff_left hne

theorem twoPow_mul_two (k : ℕ) : BitVec.twoPow 32 k * 2 = BitVec.twoPow 32 (k + 1) :=
  BitVec.twoPow_mul_twoPow_eq k 1

theorem mod_two_pow_succ (v k : ℕ) : v % 2 ^ (k + 1) = v % 2 ^ k + 2 ^ k * (v.testBit k).toNat := by
  rw [Nat.mod_pow_succ, Nat.testBit_eq_decide_div_mod_eq]
  rcases Nat.mod_two_eq_zero_or_one (v / 2 ^ k) with h | h <;> rw [h] <;> rfl

theorem toNat_add_twoPow {newValue : BitVec 32} {v k : ℕ} (hk : k < 32) (hnew : newValue.toNat = v % 2 ^ k)
    (hbit : v.testBit k = true) : (newValue + BitVec.twoPow 32 k).toNat = v % 2 ^ (k + 1) := by
  have hle : 2 ^ (k + 1) ≤ 2 ^ 32 := Nat.pow_le_pow_right (by decide) hk
  have hsucc := mod_two_pow_succ v k
  rw [hbit, Bool.toNat_true, Nat.mul_one] at hsucc
  have hlt : v % 2 ^ (k + 1) < 2 ^ (k + 1) := Nat.mod_lt _ (Nat.two_pow_pos _)
  rw [BitVec.toNat_add, hnew, BitVec.toNat_twoPow_of_lt hk, ← hsucc, Nat.mod_eq_of_lt (hlt.trans_le hle)]

structure LoopWrote (v l k : ℕ) (buffer : List Byte) (pos : ℕ) (r : List Byte × ℕ) : Prop where
  cursor : r.2 = pos + (l - k)
  length : r.1.length = buffer.length
  bit : ∀ i, bitOf r.1 i = if pos ≤ i ∧ i < pos + (l - k) then v.testBit (k + (i - pos)) else bitOf buffer i

theorem LoopWrote.stop {v l : ℕ} (buffer : List Byte) (pos : ℕ) : LoopWrote v l l buffer pos (buffer, pos) := by
  refine ⟨by rw [Nat.sub_self]; rfl, rfl, fun i => ?_⟩
  rw [Nat.sub_self, if_neg (by omega)]

theorem LoopWrote.step {v l k pos : ℕ} {buffer buffer' : List Byte} {r : List Byte × ℕ} (hk : k < l)
    (hlen : buffer'.length = buffer.length)
    (hbit : ∀ i, bitOf buffer' i = if i = pos then v.testBit k else bitOf buffer i)
    (h : LoopWrote v l (k + 1) buffer' (pos + 1) r) : LoopWrote v l k buffer pos r := by
  refine ⟨by rw [h.cursor]; omega, h.length.trans hlen, fun i => ?_⟩
  rw [h.bit, hbit]
  by_cases hi : i = pos
  · subst hi
    rw [if_neg (by omega), if_pos rfl, if_pos (by omega), Nat.sub_self, Nat.add_zero]
  · by_cases hin : pos + 1 ≤ i ∧ i < pos + (l - k)
    · rw [if_pos (by omega), if_pos (by omega), show k + 1 + (i - (pos + 1)) = k + (i - pos) by omega]
    · rw [if_neg (by omega), if_neg hi, if_neg (by omega)]

theorem intLoop_wrote {value max : BitVec 32} {l : ℕ} (hl : l = intLength value.toNat max.toNat) :
    ∀ {n k : ℕ} {newValue : BitVec 32} {buffer : List Byte} {pos : ℕ}, n + k = 32 → k ≤ l →
      newValue.toNat = value.toNat % 2 ^ k → (∀ i, pos ≤ i → bitOf buffer i = false) →
      pos + (l - k) ≤ 8 * buffer.length →
      LoopWrote value.toNat l k buffer pos (intLoop value max n newValue (BitVec.twoPow 32 k) buffer pos)
  | 0, k, newValue, buffer, pos, hn, hk, _, _, _ => by
    have hlen : l ≤ 32 := hl ▸ (intLength_le_ceilLogTwo _ _).trans (ceilLogTwo_le _)
    obtain rfl : l = k := by omega
    exact .stop buffer pos
  | n + 1, k, newValue, buffer, pos, hn, hk, hnew, hclean, hfit => by
    by_cases hlt : k < l
    · have hcond : newValue + BitVec.twoPow 32 k < max ∧ BitVec.twoPow 32 k ≠ 0 :=
        (intLoop_cond (by omega) hnew).mpr (lt_of_lt_intLength (hl ▸ hlt))
      have hbitOf : value.getLsbD k = value.toNat.testBit k := rfl
      rw [intLoop, if_pos hcond, BitVec.and_twoPow, twoPow_mul_two, hbitOf]
      cases hbit : value.toNat.testBit k with
      | true =>
        rw [if_pos rfl, if_pos hcond.2]
        have hset := bitOf_add_bit (show pos < 8 * buffer.length by omega) (hclean pos (Nat.le_refl _))
        refine .step hlt (List.length_set) (fun i => ?_) (intLoop_wrote hl (by omega) hlt ?_ (fun i hi => ?_) ?_)
        · rw [hset, hbit]
          by_cases hi : i = pos <;> simp [hi]
        · exact toNat_add_twoPow (by omega) hnew hbit
        · rw [hset, hclean i (by omega), decide_eq_false (by omega), Bool.or_false]
        · rw [List.length_set]
          omega
      | false =>
        rw [if_neg Bool.false_ne_true, if_neg (by simp)]
        refine .step hlt rfl (fun i => ?_) (intLoop_wrote hl (by omega) hlt ?_ (fun i hi => hclean i (by omega)) (by omega))
        · rw [hbit]
          by_cases hi : i = pos
          · rw [if_pos hi, hclean i (by omega)]
          · rw [if_neg hi]
        · rw [hnew, mod_two_pow_succ, hbit]
          rfl
    · obtain rfl : k = l := by omega
      have hstop := le_of_eq_intLength hl
      rw [intLoop, if_neg (fun h => by have := (intLoop_cond (by omega) hnew).mp h; omega)]
      exact .stop buffer pos

variable {w : BitWriter}

theorem intLoop_start (value : BitVec 32) {max : BitVec 32} (h : w.AllowAppend (ceilLogTwo max)) :
    LoopWrote value.toNat (intLength value.toNat max.toNat) 0 w.buffer w.pos (intLoop value max 32 0 1 w.buffer w.pos) := by
  have hfits := h.fits
  have hlen := intLength_le_ceilLogTwo value.toNat max
  refine intLoop_wrote rfl rfl (Nat.zero_le _) ?_ w.clean (by omega)
  rw [pow_zero, Nat.mod_one]
  rfl

variable (w)

def writeInt (value max : BitVec 32) : BitWriter :=
  if h : w.AllowAppend (ceilLogTwo max) then
    { w with
      buffer := (intLoop value max 32 0 1 w.buffer w.pos).1
      pos := (intLoop value max 32 0 1 w.buffer w.pos).2
      size_eq := (intLoop_start value h).length.trans w.size_eq
      pos_le := by
        have := intLength_le_ceilLogTwo value.toNat max
        unfold AllowAppend at h
        rw [(intLoop_start value h).cursor]
        omega
      clean := fun i hi => by
        rw [(intLoop_start value h).cursor] at hi
        rw [(intLoop_start value h).bit, if_neg (by omega), w.clean i (by omega)] }
  else w

def serializeInt (value max : BitVec 32) : BitWriter :=
  if 2 ≤ max then
    let writeValue := if max ≤ value then max - 1 else value
    w.writeInt writeValue max
  else w

def writeIntWrapped (value valueMax : BitVec 32) : BitWriter := w.writeInt value valueMax

variable {w}

theorem writeInt_wrote (value : BitVec 32) {max : BitVec 32} (h : w.AllowAppend (ceilLogTwo max)) :
    Wrote w (w.writeInt value max) (intLength value.toNat max.toNat) value.toNat.testBit := by
  rw [writeInt, dif_pos h]
  refine ⟨(intLoop_start value h).cursor, rfl, rfl, fun i => ?_⟩
  rw [(intLoop_start value h).bit, Nat.sub_zero]
  simp only [Nat.zero_add]

theorem writeInt_of_not (value : BitVec 32) {max : BitVec 32} (h : ¬ w.AllowAppend (ceilLogTwo max)) :
    w.writeInt value max = w := by
  rw [writeInt, dif_neg h]

/-! ## Writing a packed number -/

/-- `ByteAsWord`: seven bits behind the flag that says whether there are more. -/
def byteAsWord (value : BitVec 32) : BitVec 32 :=
  ((value &&& 0x7F#32) <<< 1) ||| (if value &&& ~~~0x7F#32 ≠ 0#32 then 1#32 else 0#32)

def bytesAsWords : ℕ → BitVec 32 → List (BitVec 32)
  | 0, _ => []
  | n + 1, value => byteAsWord value :: if value >>> 7 ≠ 0#32 then bytesAsWords n (value >>> 7) else []

def lowMask (k : ℕ) : Byte := ((1#32 <<< k) - 1).setWidth 8

/-- One round of the second loop of `SerializeIntPacked`, with the bit at which `Dest` stands. -/
def putWord (buffer : List Byte) (pos : ℕ) (word : BitVec 32) : List Byte :=
  let bitCountUsedInByte := pos % 8
  let bitCountLeftInByte := 8 - pos % 8
  let destMaskByte0 := lowMask bitCountUsedInByte
  let destMaskByte1 := 0xFF ^^^ destMaskByte0
  let dest := pos / 8
  let buffer := buffer.set dest ((byteAt buffer dest &&& destMaskByte0) ||| (word <<< bitCountUsedInByte).setWidth 8)
  if bitCountUsedInByte ≠ 0 then
    buffer.set (dest + 1)
      ((byteAt buffer (dest + 1) &&& destMaskByte1) ||| (word >>> bitCountLeftInByte).setWidth 8)
  else buffer

def putWords : List (BitVec 32) → List Byte → ℕ → List Byte
  | [], buffer, _ => buffer
  | word :: words, buffer, pos => putWords words (putWord buffer pos word) (pos + 8)

theorem getLsbD_lowMask {k t : ℕ} (hk : k ≤ 8) (ht : t < 8) : (lowMask k).getLsbD t = decide (t < k) := by
  have hall : ∀ k < 9, ∀ t < 8, (lowMask k).getLsbD t = decide (t < k) := by decide
  exact hall k (by omega) t ht

theorem getLsbD_firstByte (b : Byte) (word : BitVec 32) {u t : ℕ} (hu : u < 8) (ht : t < 8) :
    ((b &&& lowMask u) ||| (word <<< u).setWidth 8).getLsbD t =
      if u ≤ t then word.getLsbD (t - u) else b.getLsbD t := by
  rw [BitVec.getLsbD_or, BitVec.getLsbD_and, getLsbD_lowMask (by omega) ht, BitVec.getLsbD_setWidth,
    BitVec.getLsbD_shiftLeft]
  by_cases h : u ≤ t
  · simp [h, show ¬ t < u by omega, show t < 32 by omega, ht]
  · simp [h, show t < u by omega]

theorem getLsbD_secondByte (b : Byte) {word : BitVec 32} (hword : word.toNat < 256) {u t : ℕ} (hu : u < 8) (ht : t < 8) :
    ((b &&& (0xFF ^^^ lowMask u)) ||| (word >>> (8 - u)).setWidth 8).getLsbD t =
      if t < u then word.getLsbD (8 - u + t) else b.getLsbD t := by
  have hone : BitVec.getLsbD (0xFF : Byte) t = true := by
    have hall : ∀ t < 8, BitVec.getLsbD (0xFF : Byte) t = true := by decide
    exact hall t ht
  rw [BitVec.getLsbD_or, BitVec.getLsbD_and, BitVec.getLsbD_xor, getLsbD_lowMask (by omega) ht, hone,
    BitVec.getLsbD_setWidth, BitVec.getLsbD_ushiftRight]
  by_cases h : t < u
  · simp [h, ht]
  · have hhigh : word.getLsbD (8 - u + t) = false :=
      Nat.testBit_lt_two_pow (hword.trans_le (Nat.pow_le_pow_right (show 0 < 2 by decide) (show 8 ≤ 8 - u + t by omega)))
    simp [h, hhigh]

theorem putWord_length (buffer : List Byte) (pos : ℕ) (word : BitVec 32) :
    (putWord buffer pos word).length = buffer.length := by
  unfold putWord
  simp only
  split_ifs <;> simp only [List.length_set]

theorem bitOf_putWord {buffer : List Byte} {pos : ℕ} {word : BitVec 32} (hword : word.toNat < 256)
    (hfit : pos + 8 ≤ 8 * buffer.length) (i : ℕ) : bitOf (putWord buffer pos word) i =
      if pos ≤ i ∧ i < pos + 8 then word.getLsbD (i - pos) else bitOf buffer i := by
  have hu : pos % 8 < 8 := Nat.mod_lt _ (by decide)
  have ht : i % 8 < 8 := Nat.mod_lt _ (by decide)
  unfold putWord
  simp only
  by_cases hzero : pos % 8 = 0
  · rw [if_neg (not_not.mpr hzero), bitOf_set _ (by omega)]
    by_cases hi : i / 8 = pos / 8
    · rw [if_pos hi, getLsbD_firstByte _ _ hu ht, if_pos (by omega), if_pos (by omega),
        show i % 8 - pos % 8 = i - pos by omega]
    · rw [if_neg hi, if_neg (by omega)]
  · rw [if_pos hzero, bitOf_set _ (by rw [List.length_set]; omega)]
    by_cases hsecond : i / 8 = pos / 8 + 1
    · rw [if_pos hsecond, getLsbD_secondByte _ hword hu ht, byteAt_set _ (by omega),
        if_neg (by omega : ¬ pos / 8 + 1 = pos / 8)]
      by_cases hin : i % 8 < pos % 8
      · rw [if_pos hin, if_pos (by omega), show 8 - pos % 8 + i % 8 = i - pos by omega]
      · rw [if_neg hin, if_neg (by omega), bitOf, hsecond]
    · rw [if_neg hsecond, bitOf_set _ (by omega)]
      by_cases hi : i / 8 = pos / 8
      · rw [if_pos hi, getLsbD_firstByte _ _ hu ht]
        by_cases hin : pos % 8 ≤ i % 8
        · rw [if_pos hin, if_pos (by omega), show i % 8 - pos % 8 = i - pos by omega]
        · rw [if_neg hin, if_neg (by omega), bitOf, hi]
      · rw [if_neg hi, if_neg (by omega)]

def wordBit (words : List (BitVec 32)) (i : ℕ) : Bool := (words.getD (i / 8) 0).getLsbD (i % 8)

theorem wordBit_cons (word : BitVec 32) (words : List (BitVec 32)) (i : ℕ) :
    wordBit (word :: words) i = if i < 8 then word.getLsbD i else wordBit words (i - 8) := by
  unfold wordBit
  by_cases hi : i < 8
  · rw [if_pos hi, Nat.div_eq_of_lt hi, Nat.mod_eq_of_lt hi]
    rfl
  · rw [if_neg hi, show i / 8 = (i - 8) / 8 + 1 by omega, show i % 8 = (i - 8) % 8 by omega]
    rfl

theorem putWords_length : ∀ (words : List (BitVec 32)) (buffer : List Byte) (pos : ℕ),
    (putWords words buffer pos).length = buffer.length
  | [], _, _ => rfl
  | word :: words, buffer, pos => (putWords_length words _ _).trans (putWord_length buffer pos word)

theorem bitOf_putWords : ∀ {words : List (BitVec 32)} {buffer : List Byte} {pos : ℕ},
    (∀ word ∈ words, word.toNat < 256) → pos + words.length * 8 ≤ 8 * buffer.length → ∀ i,
      bitOf (putWords words buffer pos) i =
        if pos ≤ i ∧ i < pos + words.length * 8 then wordBit words (i - pos) else bitOf buffer i
  | [], buffer, pos, _, _, i => by
    rw [if_neg (by rw [List.length_nil]; omega)]
    rfl
  | word :: words, buffer, pos, hwords, hfit, i => by
    rw [List.length_cons] at hfit ⊢
    rw [putWords, bitOf_putWords (fun w hw => hwords w (List.mem_cons_of_mem _ hw)) (by rw [putWord_length]; omega),
      bitOf_putWord (hwords word List.mem_cons_self) (by omega), wordBit_cons]
    by_cases hfirst : pos ≤ i ∧ i < pos + 8
    · rw [if_neg (by omega), if_pos hfirst, if_pos (by omega), if_pos (by omega)]
    · by_cases hrest : pos + 8 ≤ i ∧ i < pos + 8 + words.length * 8
      · rw [if_pos hrest, if_pos (by omega), if_neg (by omega), show i - (pos + 8) = i - pos - 8 by omega]
      · rw [if_neg hrest, if_neg hfirst, if_neg (by omega)]

theorem byteAsWord_lt (value : BitVec 32) : (byteAsWord value).toNat < 256 := by
  have hlow : (value &&& 0x7F#32).toNat < 2 ^ 7 := by
    rw [BitVec.toNat_and]
    exact Nat.and_lt_two_pow _ (by decide)
  unfold byteAsWord
  rw [BitVec.toNat_or, BitVec.toNat_shiftLeft, Nat.shiftLeft_eq]
  refine Nat.or_lt_two_pow (n := 8) ((Nat.mod_le _ _).trans_lt (by omega)) ?_
  split_ifs <;> decide

theorem bytesAsWords_lt : ∀ (n : ℕ) (value : BitVec 32), ∀ word ∈ bytesAsWords n value, word.toNat < 256
  | 0, _, word, h => nomatch h
  | n + 1, value, word, h => by
    rcases List.mem_cons.mp h with rfl | h
    · exact byteAsWord_lt value
    · split_ifs at h
      · exact bytesAsWords_lt n _ word h
      · cases h

variable (w)

def serializeIntPacked (value : BitVec 32) : BitWriter :=
  let words := bytesAsWords 5 value
  if h : w.AllowAppend (words.length * 8) then
    { w with
      buffer := putWords words w.buffer w.pos
      pos := w.pos + words.length * 8
      size_eq := (putWords_length _ _ _).trans w.size_eq
      pos_le := h
      clean := fun i hi => by
        have hout : w.pos + (bytesAsWords 5 value).length * 8 ≤ i := hi
        rw [bitOf_putWords (bytesAsWords_lt 5 value) h.fits, if_neg (by omega), w.clean i (by omega)] }
  else w

variable {w}

theorem serializeIntPacked_wrote {value : BitVec 32} (h : w.AllowAppend ((bytesAsWords 5 value).length * 8)) :
    Wrote w (w.serializeIntPacked value) ((bytesAsWords 5 value).length * 8) (wordBit (bytesAsWords 5 value)) := by
  rw [serializeIntPacked, dif_pos h]
  exact ⟨rfl, rfl, rfl, fun i => bitOf_putWords (bytesAsWords_lt 5 value) h.fits i⟩

theorem serializeIntPacked_of_not {value : BitVec 32} (h : ¬ w.AllowAppend ((bytesAsWords 5 value).length * 8)) :
    w.serializeIntPacked value = w := by
  rw [serializeIntPacked, dif_neg h]

/-- `Reset`; it does not clear the error. -/
def reset (w : BitWriter) : BitWriter where
  buffer := List.replicate w.buffer.length 0
  pos := 0
  max := w.max
  arIsError := w.arIsError
  size_eq := List.length_replicate.trans w.size_eq
  pos_le := Nat.zero_le _
  clean := fun i _ => bitOf_replicate_zero _ i

end BitWriter

/-! ## Reading -/

namespace BitReader

variable (r : BitReader)

def readIntLoop (valueMax : BitVec 32) : ℕ → BitVec 32 → BitVec 32 → BitReader → BitVec 32 × BitReader
  | 0, value, _, r => (value, r)
  | n + 1, value, mask, r =>
    if value + mask < valueMax ∧ mask ≠ 0 then
      if r.max ≤ r.pos then (value, r.setError)
      else
        readIntLoop valueMax n (if bitOf r.buffer r.pos then value ||| mask else value) (mask * 2)
          { r with pos := r.pos + 1 }
    else (value, r)

/-- `SerializeInt`, which leaves `OutValue` alone on an error. -/
def serializeInt (outValue valueMax : BitVec 32) : BitVec 32 × BitReader :=
  if r.arIsError then (outValue, r) else readIntLoop valueMax 32 0 1 r

def packedByte (buffer : List Byte) (pos : ℕ) : Byte :=
  let src := pos / 8
  let bitCountUsedInByte := pos % 8
  let bitCountLeftInByte := 8 - pos % 8
  let srcMaskByte0 := BitWriter.lowMask bitCountLeftInByte
  let srcMaskByte1 := BitWriter.lowMask bitCountUsedInByte
  let nextSrcIndex := if bitCountUsedInByte ≠ 0 then 1 else 0
  ((byteAt buffer src >>> bitCountUsedInByte) &&& srcMaskByte0) |||
    ((byteAt buffer (src + nextSrcIndex) &&& srcMaskByte1) <<< (bitCountLeftInByte % 8))

def readPackedLoop : ℕ → ℕ → BitVec 32 → BitReader → BitVec 32 × BitReader
  | 0, _, value, r => (value, r)
  | n + 1, shiftCount, value, r =>
    if r.max < r.pos + 8 then (value, r.setError)
    else
      let byte := packedByte r.buffer r.pos
      let byteAsWord : BitVec 32 := (byte >>> 1).setWidth 32
      let value := (byteAsWord <<< shiftCount) ||| value
      let r := { r with pos := r.pos + 8 }
      if byte &&& 1#8 = 0#8 then (value, r) else readPackedLoop n (shiftCount + 7) value r

def serializeIntPacked : BitVec 32 × BitReader := if r.arIsError then (0#32, r) else readPackedLoop 5 0 0#32 r

variable {r}

/-! ## A bounded number is read back -/

theorem or_twoPow {value : BitVec 32} {v k : ℕ} (hvalue : value.toNat = v % 2 ^ k) :
    value ||| BitVec.twoPow 32 k = value + BitVec.twoPow 32 k := by
  refine (BitVec.add_eq_or_of_and_eq_zero _ _ ?_).symm
  rw [BitVec.and_twoPow, if_neg]
  rw [show value.getLsbD k = value.toNat.testBit k from rfl, hvalue, Nat.testBit_mod_two_pow]
  simp

theorem readIntLoop_read {valueMax : BitVec 32} {v l : ℕ} (hl : l = intLength v valueMax.toNat) :
    ∀ {n k : ℕ} {value : BitVec 32} {r : BitReader}, n + k = 32 → k ≤ l → value.toNat = v % 2 ^ k →
      r.pos + (l - k) ≤ r.max → (∀ i < l - k, bitOf r.buffer (r.pos + i) = v.testBit (k + i)) →
      (readIntLoop valueMax n value (BitVec.twoPow 32 k) r).1.toNat = v % 2 ^ l ∧
        (readIntLoop valueMax n value (BitVec.twoPow 32 k) r).2 = { r with pos := r.pos + (l - k) }
  | 0, k, value, r, hn, hk, hvalue, _, _ => by
    have hlen : l ≤ 32 := hl ▸ (intLength_le_ceilLogTwo _ _).trans (ceilLogTwo_le _)
    obtain rfl : l = k := by omega
    rw [Nat.sub_self]
    exact ⟨hvalue, rfl⟩
  | n + 1, k, value, r, hn, hk, hvalue, hroom, hbits => by
    by_cases hlt : k < l
    · have hcond := (BitWriter.intLoop_cond (by omega) hvalue).mpr (lt_of_lt_intLength (hl ▸ hlt))
      have hbit : bitOf r.buffer r.pos = v.testBit k := hbits 0 (by omega)
      have hnext : (if bitOf r.buffer r.pos then value ||| BitVec.twoPow 32 k else value).toNat = v % 2 ^ (k + 1) := by
        rw [hbit]
        cases hset : v.testBit k with
        | true => rw [if_pos rfl, or_twoPow hvalue, BitWriter.toNat_add_twoPow (by omega) hvalue hset]
        | false =>
          rw [if_neg Bool.false_ne_true, hvalue, BitWriter.mod_two_pow_succ, hset]
          rfl
      rw [readIntLoop, if_pos hcond, if_neg (by omega), BitWriter.twoPow_mul_two]
      obtain ⟨hread, hr⟩ := readIntLoop_read hl (r := { r with pos := r.pos + 1 }) (n := n) (k := k + 1) (by omega) hlt hnext
        (show r.pos + 1 + (l - (k + 1)) ≤ r.max by omega)
        (fun i hi => by
          have := hbits (i + 1) (by omega)
          rwa [show r.pos + (i + 1) = r.pos + 1 + i by omega, show k + (i + 1) = k + 1 + i by omega] at this)
      refine ⟨hread, hr.trans ?_⟩
      rw [BitReader.mk.injEq]
      exact ⟨rfl, rfl, show r.pos + 1 + (l - (k + 1)) = r.pos + (l - k) by omega, rfl⟩
    · obtain rfl : k = l := by omega
      have hstop := le_of_eq_intLength hl
      rw [readIntLoop, if_neg (fun h => by have := (BitWriter.intLoop_cond (by omega) hvalue).mp h; omega), Nat.sub_self]
      exact ⟨hvalue, rfl⟩

theorem serializeInt_read {value valueMax : BitVec 32} (hlt : value.toNat < valueMax.toNat) (outValue : BitVec 32)
    (h : Holds r (intLength value.toNat valueMax.toNat))
    (hbits : ∀ i < intLength value.toNat valueMax.toNat, bitOf r.buffer (r.pos + i) = value.toNat.testBit i) :
    r.serializeInt outValue valueMax =
      (value, { r with pos := r.pos + intLength value.toNat valueMax.toNat }) := by
  have hzero : (0 : BitVec 32).toNat = value.toNat % 2 ^ 0 := by
    rw [pow_zero, Nat.mod_one]
    rfl
  obtain ⟨hread, hr⟩ := readIntLoop_read (r := r) (n := 32) rfl rfl (Nat.zero_le _) hzero h.le
    (fun i hi => by rw [Nat.zero_add]; exact hbits i hi)
  rw [mod_intLength hlt] at hread
  unfold serializeInt
  rw [if_neg (by rw [h.noError]; exact Bool.false_ne_true)]
  exact Prod.ext (BitVec.eq_of_toNat_eq hread) hr

/-! ## A packed number is read back -/

theorem getLsbD_packedByte (buffer : List Byte) (pos : ℕ) {t : ℕ} (ht : t < 8) :
    (packedByte buffer pos).getLsbD t = bitOf buffer (pos + t) := by
  unfold packedByte
  simp only
  rw [BitVec.getLsbD_or, BitVec.getLsbD_and, BitVec.getLsbD_ushiftRight, BitWriter.getLsbD_lowMask (by omega) ht,
    BitVec.getLsbD_shiftLeft, BitVec.getLsbD_and]
  by_cases hfirst : pos % 8 + t < 8
  · rw [decide_eq_true (by omega : t < 8 - pos % 8), Bool.and_true]
    have hsecond : (decide (t < 8) && !decide (t < (8 - pos % 8) % 8) &&
        ((byteAt buffer (pos / 8 + if pos % 8 ≠ 0 then 1 else 0)).getLsbD (t - (8 - pos % 8) % 8) &&
          (BitWriter.lowMask (pos % 8)).getLsbD (t - (8 - pos % 8) % 8))) = false := by
      by_cases hzero : pos % 8 = 0
      · rw [BitWriter.getLsbD_lowMask (by omega) (by omega), decide_eq_false (by omega : ¬ _ < pos % 8)]
        simp only [Bool.and_false]
      · rw [decide_eq_true (by omega : t < (8 - pos % 8) % 8)]
        simp only [Bool.not_true, Bool.and_false, Bool.false_and]
    rw [hsecond, Bool.or_false, bitOf, show (pos + t) / 8 = pos / 8 by omega, show (pos + t) % 8 = pos % 8 + t by omega]
  · have hne : pos % 8 ≠ 0 := by omega
    rw [decide_eq_false (by omega : ¬ t < 8 - pos % 8), Bool.and_false, Bool.false_or, if_pos hne,
      BitWriter.getLsbD_lowMask (by omega) (by omega), decide_eq_true ht,
      decide_eq_false (by omega : ¬ t < (8 - pos % 8) % 8), decide_eq_true (by omega : t - (8 - pos % 8) % 8 < pos % 8),
      bitOf, show (pos + t) / 8 = pos / 8 + 1 by omega, show (pos + t) % 8 = t - (8 - pos % 8) % 8 by omega]
    simp only [Bool.true_and, Bool.not_false, Bool.and_true]

theorem getLsbD_7F (i : ℕ) : (0x7F#32).getLsbD i = decide (i < 7) := by
  have hall : ∀ i < 32, (0x7F#32).getLsbD i = decide (i < 7) := by decide
  by_cases hi : i < 32
  · exact hall i hi
  · rw [BitVec.getLsbD_of_ge _ _ (by omega), decide_eq_false (by omega)]

theorem and_not_7F_eq_zero (value : BitVec 32) : value &&& ~~~0x7F#32 = 0#32 ↔ value >>> 7 = 0#32 := by
  have hbit : ∀ i < 32, (value &&& ~~~0x7F#32).getLsbD i = (value.getLsbD i && !decide (i < 7)) := by
    intro i hi
    rw [BitVec.getLsbD_and, BitVec.getLsbD_not, getLsbD_7F, decide_eq_true hi, Bool.true_and]
  constructor
  · intro hzero
    refine BitVec.eq_of_getLsbD_eq fun i hi => ?_
    rw [BitVec.getLsbD_ushiftRight, BitVec.getLsbD_zero]
    by_cases hlt : 7 + i < 32
    · have := hbit (7 + i) hlt
      rw [hzero, BitVec.getLsbD_zero, decide_eq_false (by omega), Bool.not_false,
        Bool.and_true] at this
      exact this.symm
    · exact BitVec.getLsbD_of_ge _ _ (by omega)
  · intro hzero
    refine BitVec.eq_of_getLsbD_eq fun i hi => ?_
    rw [hbit i hi, BitVec.getLsbD_zero]
    by_cases hlt : i < 7
    · rw [decide_eq_true hlt, Bool.not_true, Bool.and_false]
    · have hshift : (value >>> 7).getLsbD (i - 7) = value.getLsbD i := by
        rw [BitVec.getLsbD_ushiftRight, show 7 + (i - 7) = i by omega]
      rw [← hshift, hzero, BitVec.getLsbD_zero, Bool.false_and]

open BitWriter

theorem getLsbD_byteAsWord (value : BitVec 32) {i : ℕ} (hi : i < 8) : (byteAsWord value).getLsbD i =
    if i = 0 then decide (value >>> 7 ≠ 0#32) else value.getLsbD (i - 1) := by
  have hflag : (if value &&& ~~~0x7F#32 ≠ 0#32 then 1#32 else 0#32).getLsbD i =
      (decide (i = 0) && decide (value >>> 7 ≠ 0#32)) := by
    by_cases h : value >>> 7 = 0#32
    · rw [if_neg (not_not.mpr ((and_not_7F_eq_zero value).mpr h)), decide_eq_false (not_not.mpr h), Bool.and_false]
      exact BitVec.getLsbD_zero
    · rw [if_pos (fun hzero => h ((and_not_7F_eq_zero value).mp hzero)), decide_eq_true h, Bool.and_true]
      rw [BitVec.getLsbD_one]
      simp
  unfold byteAsWord
  rw [BitVec.getLsbD_or, hflag, BitVec.getLsbD_shiftLeft, BitVec.getLsbD_and, getLsbD_7F]
  by_cases hzero : i = 0
  · simp [hzero]
  · simp [hzero, show i < 32 by omega, show ¬ i < 1 by omega, show i - 1 < 7 by omega]

theorem packedByte_eq {buffer : List Byte} {pos : ℕ} {value : BitVec 32}
    (hbits : ∀ i < 8, bitOf buffer (pos + i) = (byteAsWord value).getLsbD i) :
    (packedByte buffer pos >>> 1).setWidth 32 = value &&& 0x7F#32 ∧
      (packedByte buffer pos &&& 1#8 = 0#8 ↔ value >>> 7 = 0#32) := by
  have hbyte : ∀ i < 8, (packedByte buffer pos).getLsbD i =
      if i = 0 then decide (value >>> 7 ≠ 0#32) else value.getLsbD (i - 1) := by
    intro i hi
    rw [getLsbD_packedByte _ _ hi, hbits i hi, getLsbD_byteAsWord value hi]
  constructor
  · refine BitVec.eq_of_getLsbD_eq fun i hi => ?_
    rw [BitVec.getLsbD_setWidth, BitVec.getLsbD_ushiftRight, BitVec.getLsbD_and, getLsbD_7F, decide_eq_true hi]
    by_cases hlt : i < 7
    · rw [hbyte (1 + i) (by omega), if_neg (by omega), decide_eq_true hlt, Nat.add_sub_cancel_left, Bool.true_and,
        Bool.and_true]
    · rw [BitVec.getLsbD_of_ge _ _ (by omega), decide_eq_false hlt, Bool.and_false, Bool.and_false]
  · have hone := hbyte 0 (by decide)
    rw [if_pos rfl] at hone
    rw [show 1#8 = BitVec.twoPow 8 0 from rfl, BitVec.and_twoPow, hone]
    by_cases hzero : value >>> 7 = 0#32
    · rw [decide_eq_false (not_not.mpr hzero), if_neg Bool.false_ne_true]
      exact iff_of_true rfl hzero
    · rw [decide_eq_true hzero, if_pos rfl]
      exact iff_of_false (by decide) hzero

theorem or_shift (value a : BitVec 32) (s : ℕ) :
    (((value &&& 0x7F#32) <<< s) ||| a) ||| ((value >>> 7) <<< (s + 7)) = a ||| (value <<< s) := by
  refine BitVec.eq_of_getLsbD_eq fun i hi => ?_
  simp only [BitVec.getLsbD_or, BitVec.getLsbD_shiftLeft, BitVec.getLsbD_and, BitVec.getLsbD_ushiftRight]
  rw [getLsbD_7F, decide_eq_true hi]
  by_cases hs : i < s
  · simp [hs, show i < s + 7 by omega]
  · by_cases h7 : i < s + 7
    · simp [hs, h7, show i - s < 7 by omega, Bool.or_comm]
    · simp [hs, h7, show ¬ i - s < 7 by omega, show 7 + (i - (s + 7)) = i - s by omega]

theorem readPackedLoop_read : ∀ {n s : ℕ} {value a : BitVec 32} {r : BitReader}, value.toNat < 2 ^ (7 * n) →
    r.pos + (bytesAsWords n value).length * 8 ≤ r.max →
    (∀ i < (bytesAsWords n value).length * 8, bitOf r.buffer (r.pos + i) = wordBit (bytesAsWords n value) i) →
    readPackedLoop n s a r =
      (a ||| (value <<< s), { r with pos := r.pos + (bytesAsWords n value).length * 8 })
  | 0, s, value, a, r, hvalue, _, _ => by
    have hzero : value = 0#32 := BitVec.eq_of_toNat_eq (by
      rw [Nat.mul_zero, pow_zero] at hvalue
      exact Nat.lt_one_iff.mp hvalue)
    rw [hzero, readPackedLoop]
    simp [bytesAsWords]
  | n + 1, s, value, a, r, hvalue, hroom, hbits => by
    have hlen : 8 ≤ (bytesAsWords (n + 1) value).length * 8 := by
      rw [bytesAsWords, List.length_cons]
      omega
    have hfirst : ∀ i < 8, bitOf r.buffer (r.pos + i) = (byteAsWord value).getLsbD i := by
      intro i hi
      rw [hbits i (by omega), bytesAsWords, wordBit_cons, if_pos hi]
    obtain ⟨hseven, hmore⟩ := packedByte_eq hfirst
    rw [readPackedLoop, if_neg (by omega)]
    simp only
    rw [hseven]
    by_cases hlast : value >>> 7 = 0#32
    · have hwords : bytesAsWords (n + 1) value = [byteAsWord value] := by
        rw [bytesAsWords, if_neg (not_not.mpr hlast)]
      have hall := or_shift value a s
      rw [hlast, BitVec.zero_shiftLeft, BitVec.or_zero] at hall
      rw [if_pos (hmore.mpr hlast), hwords, hall]
      rfl
    · have hwords : bytesAsWords (n + 1) value = byteAsWord value :: bytesAsWords n (value >>> 7) := by
        rw [bytesAsWords, if_pos hlast]
      have hsmall : (value >>> 7).toNat < 2 ^ (7 * n) := by
        rw [BitVec.toNat_ushiftRight, Nat.shiftRight_eq_div_pow]
        exact Nat.div_lt_of_lt_mul (by rwa [← pow_add, show 7 + 7 * n = 7 * (n + 1) by omega])
      rw [hwords, List.length_cons] at hroom hbits
      have hrest := readPackedLoop_read (s := s + 7) (r := { r with pos := r.pos + 8 })
        (a := ((value &&& 0x7F#32) <<< s) ||| a) hsmall
        (show r.pos + 8 + _ ≤ r.max by omega)
        (fun i hi => by
          have := hbits (i + 8) (by omega)
          rwa [wordBit_cons, if_neg (by omega), Nat.add_sub_cancel, show r.pos + (i + 8) = r.pos + 8 + i by omega] at this)
      rw [if_neg (fun h => hlast (hmore.mp h)), hrest, or_shift, hwords, List.length_cons]
      refine Prod.ext rfl ?_
      rw [BitReader.mk.injEq]
      exact ⟨rfl, rfl, show r.pos + 8 + _ = r.pos + _ by omega, rfl⟩

theorem serializeIntPacked_read {value : BitVec 32} (h : Holds r ((bytesAsWords 5 value).length * 8))
    (hbits : ∀ i < (bytesAsWords 5 value).length * 8, bitOf r.buffer (r.pos + i) = wordBit (bytesAsWords 5 value) i) :
    r.serializeIntPacked = (value, { r with pos := r.pos + (bytesAsWords 5 value).length * 8 }) := by
  have hread := readPackedLoop_read (s := 0) (a := 0#32)
    (value.isLt.trans (Nat.pow_lt_pow_right (by decide) (by decide))) h.le hbits
  unfold serializeIntPacked
  rw [if_neg (by rw [h.noError]; exact Bool.false_ne_true), hread, BitVec.shiftLeft_zero, BitVec.zero_or]

end BitReader

end RudpEngine

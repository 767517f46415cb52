import RudpEngine.Archive

/-!
# The bytes the bit copier touches

`appBitsCpy` once more, statement by statement and on its own `int32_t` numbers,
on a memory that keeps the index of each byte it is asked for. Where the numbers
are not negative and the ends of the two ranges are below 2^31, it leaves the
copy of `BitsCpy` in the destination; the source bytes it reads and the
destination bytes it reads or writes are those with a bit of the copied ranges.
So an archive of less than 2^31 bits may count its bits in natural numbers.
-/

namespace RudpEngine

structure CopyMemory where
  dest : List Byte
  srcRead : List ℕ
  destTouched : List ℕ
  deriving DecidableEq

abbrev Copier := StateM CopyMemory

namespace Copier

def readSrc (src : List Byte) (index : ℕ) : Copier (BitVec 32) := fun m =>
  (u32 (byteAt src index), { m with srcRead := index :: m.srcRead })

def readDest (index : ℕ) : Copier (BitVec 32) := fun m =>
  (u32 (byteAt m.dest index), { m with destTouched := index :: m.destTouched })

def writeDest (index : ℕ) (word : BitVec 32) : Copier Unit := fun m =>
  ((), { m with dest := m.dest.set index (word.setWidth 8), destTouched := index :: m.destTouched })

variable (src : List Byte)

def byteIndex (bit : Int32) : UInt32 := (bit / 8).toUInt32

def bitIndex (bit : Int32) : ℕ := (bit &&& 7).toUInt32.toNat

/-- `((uint32_t)Src[SrcIndex] << ShiftCount) + BitAccu) >> 8`. -/
def step (shiftCount srcIndex : ℕ) (bitAccu : BitVec 32) : Copier (BitVec 32) := do
  let byte ← readSrc src srcIndex
  return ((byte <<< shiftCount) + bitAccu) >>> 8

def gather (srcIndex lastSrc shiftSrc : ℕ) : Copier (BitVec 32) :=
  if srcIndex = lastSrc then do
    let byte ← readSrc src srcIndex
    return byte >>> shiftSrc
  else do
    let first ← readSrc src srcIndex
    let last ← readSrc src lastSrc
    return (first >>> shiftSrc) ||| (last <<< (8 - shiftSrc))

def short (destBit srcBit bitCount : Int32) : Copier Unit := do
  let destIndex := (byteIndex destBit).toNat
  let srcIndex := (byteIndex srcBit).toNat
  let lastDest := (byteIndex (destBit + bitCount - 1)).toNat
  let lastSrc := (byteIndex (srcBit + bitCount - 1)).toNat
  let shiftDest := bitIndex destBit
  let shiftSrc := bitIndex srcBit
  let firstMask := 0xFF#32 <<< shiftDest
  let lastMask := 0xFE#32 <<< bitIndex (destBit + bitCount - 1)
  let accu ← gather src srcIndex lastSrc shiftSrc
  if destIndex = lastDest then
    let multiMask := firstMask &&& ~~~lastMask
    let old ← readDest destIndex
    writeDest destIndex ((old &&& ~~~multiMask) ||| ((accu <<< shiftDest) &&& multiMask))
  else
    let old ← readDest destIndex
    writeDest destIndex ((old &&& ~~~firstMask) ||| ((accu <<< shiftDest) &&& firstMask))
    let old ← readDest lastDest
    writeDest lastDest ((old &&& lastMask) ||| ((accu >>> (8 - shiftDest)) &&& ~~~lastMask))

/-- The bytes from that of the first bit to that of the bit behind the last, as an `int32_t`. -/
def loops (bit bitCount : Int32) : Int32 := (byteIndex (bit + bitCount) - byteIndex bit).toInt32

/-- The lead-in: the number of loops, the accumulator, its shift and the next source byte. -/
def leadIn (destBit srcBit bitCount : Int32) : Copier (ℕ × BitVec 32 × ℕ × ℕ) := do
  let srcIndex := (byteIndex srcBit).toNat
  let shiftCount : Int32 := (destBit &&& 7) - (srcBit &&& 7)
  let byte ← readSrc src srcIndex
  if 0 ≤ shiftCount then
    let fullLoop := (max (loops destBit bitCount) (loops srcBit bitCount)).toUInt32.toNat
    return (fullLoop, byte <<< shiftCount.toUInt32.toNat, (shiftCount + 8).toUInt32.toNat, srcIndex)
  else
    let fullLoop := (max (loops destBit bitCount) (loops srcBit bitCount - 1)).toUInt32.toNat
    let bitAccu := byte <<< (shiftCount + 8).toUInt32.toNat
    let bitAccu ← step src (shiftCount + 8 + 8).toUInt32.toNat (srcIndex + 1) bitAccu
    return (fullLoop, bitAccu, (shiftCount + 8 + 8).toUInt32.toNat, srcIndex + 1)

def loop (shiftCount : ℕ) : ℕ → ℕ → ℕ → BitVec 32 → Copier (ℕ × ℕ × BitVec 32)
  | 0, srcIndex, destIndex, bitAccu => pure (srcIndex, destIndex, bitAccu)
  | n + 1, srcIndex, destIndex, bitAccu => do
    let bitAccu ← step src shiftCount srcIndex bitAccu
    writeDest destIndex bitAccu
    loop shiftCount n (srcIndex + 1) (destIndex + 1) bitAccu

def leadOut (shiftCount lastSrc srcIndex destIndex : ℕ) (bitAccu lastSrcMask : BitVec 32) : Copier Unit := do
  if lastSrcMask ≠ 0xFF#32 then
    let bitAccu ← (if lastSrc = srcIndex then step src shiftCount srcIndex bitAccu else pure (bitAccu >>> 8))
    let old ← readDest destIndex
    writeDest destIndex ((old &&& lastSrcMask) ||| (bitAccu &&& ~~~lastSrcMask))

def long (destBit srcBit bitCount : Int32) : Copier Unit := do
  let destIndex := (byteIndex destBit).toNat
  let firstSrcMask := 0xFF#32 <<< bitIndex destBit
  let lastSrcMask := 0xFF#32 <<< bitIndex (destBit + bitCount)
  let (fullLoop, bitAccu, shiftCount, srcIndex) ← leadIn src destBit srcBit bitCount
  let old ← readDest destIndex
  writeDest destIndex ((bitAccu &&& firstSrcMask) ||| (old &&& ~~~firstSrcMask))
  let (srcIndex, destIndex, bitAccu) ← loop src shiftCount (fullLoop - 1) (srcIndex + 1) (destIndex + 1) bitAccu
  -- the cast is to `uint32_t` before the division
  leadOut src shiftCount ((srcBit + bitCount - 1).toUInt32 / 8).toNat srcIndex destIndex bitAccu lastSrcMask

def appBitsCpy (destBit srcBit bitCount : Int32) : Copier Unit := do
  if bitCount = 0 then return
  if bitCount ≤ 8 then short src destBit srcBit bitCount
  else long src destBit srcBit bitCount

end Copier

/-! ## Numbers that fit into an `int32_t` -/

section
variable {x y : Int32} {n m : ℕ}

theorem toNat_of_toInt (h : x.toInt = n) : x.toUInt32.toNat = n := by
  have hx : x.toInt = x.toBitVec.toInt := rfl
  have hn : x.toUInt32.toNat = x.toBitVec.toNat := rfl
  have hlt := x.toBitVec.isLt
  rw [hn]
  rw [hx, BitVec.toInt_eq_toNat_cond] at h
  split at h <;> omega

theorem toInt_of_toNat {w : UInt32} (h : w.toNat = n) (hlt : n < 2 ^ 31) : w.toInt32.toInt = n := by
  have hw : w.toInt32.toInt = w.toBitVec.toInt := rfl
  have hn : w.toNat = w.toBitVec.toNat := rfl
  rw [hw, BitVec.toInt_eq_toNat_of_lt (by omega)]
  omega

theorem toInt_add (hx : x.toInt = n) (hy : y.toInt = m) (h : n + m < 2 ^ 31) : (x + y).toInt = (n + m : ℕ) := by
  rw [Int32.toInt_add, hx, hy, Int.bmod_eq_of_le] <;> omega

theorem toInt_sub (hx : x.toInt = n) (hy : y.toInt = m) : (x - y).toInt = (n : ℤ) - m := by
  have hn := x.toInt_lt
  have hm := y.toInt_lt
  rw [Int32.toInt_sub, hx, hy, Int.bmod_eq_of_le] <;> omega

theorem toInt_sub_one (hx : x.toInt = n) (h : 0 < n) : (x - 1).toInt = (n - 1 : ℕ) := by
  rw [toInt_sub (m := 1) hx rfl]
  omega

theorem toInt_max (hx : x.toInt = n) (hy : y.toInt = m) : (max x y).toInt = (max n m : ℕ) := by
  have hle : x ≤ y ↔ n ≤ m := by
    rw [Int32.le_iff_toInt_le, hx, hy]
    omega
  show (if x ≤ y then y else x).toInt = _
  split
  case isTrue hxy => rw [hy, Nat.max_eq_right (hle.mp hxy)]
  case isFalse hxy => rw [hx, Nat.max_eq_left (Nat.le_of_not_le fun hnm => hxy (hle.mpr hnm))]

theorem toNat_byteIndex (h : x.toInt = n) : (Copier.byteIndex x).toNat = n / 8 := by
  apply toNat_of_toInt
  rw [Int32.toInt_div_of_ne_right _ _ (by decide), h]
  rfl

theorem bitIndex_eq (h : x.toInt = n) : Copier.bitIndex x = n % 8 := by
  have hand : (x &&& 7).toUInt32.toNat = x.toUInt32.toNat &&& 7 := rfl
  rw [Copier.bitIndex, hand, toNat_of_toInt h]
  exact Nat.and_two_pow_sub_one_eq_mod n 3

theorem toInt_and_seven (h : x.toInt = n) : (x &&& 7).toInt = (n % 8 : ℕ) := toInt_of_toNat (bitIndex_eq h) (by omega)

theorem toInt_loops (hx : x.toInt = n) (hy : y.toInt = m) (h : n + m < 2 ^ 31) :
    (Copier.loops x y).toInt = ((n + m) / 8 - n / 8 : ℕ) := by
  have hfirst := toNat_byteIndex hx
  have hlast := toNat_byteIndex (toInt_add hx hy h)
  have hle : Copier.byteIndex x ≤ Copier.byteIndex (x + y) := by
    rw [UInt32.le_iff_toNat_le, hfirst, hlast]
    omega
  refine toInt_of_toNat ?_ (by omega)
  rw [UInt32.toNat_sub_of_le _ _ hle, hfirst, hlast]

/-- The offsets and the count are these natural numbers, and the ends of the ranges are below 2^31. -/
structure FitInt32 (destBit srcBit bitCount : Int32) (d s c : ℕ) : Prop where
  destBit : destBit.toInt = d
  srcBit : srcBit.toInt = s
  bitCount : bitCount.toInt = c
  dest_lt : d + c < 2 ^ 31
  src_lt : s + c < 2 ^ 31

variable {destBit srcBit bitCount : Int32} {d s c : ℕ}

theorem FitInt32.destEnd (h : FitInt32 destBit srcBit bitCount d s c) : (destBit + bitCount).toInt = (d + c : ℕ) :=
  toInt_add h.destBit h.bitCount h.dest_lt

theorem FitInt32.srcEnd (h : FitInt32 destBit srcBit bitCount d s c) : (srcBit + bitCount).toInt = (s + c : ℕ) :=
  toInt_add h.srcBit h.bitCount h.src_lt

theorem FitInt32.destLast (h : FitInt32 destBit srcBit bitCount d s c) (hc : 0 < c) :
    (destBit + bitCount - 1).toInt = (d + c - 1 : ℕ) := toInt_sub_one h.destEnd (by omega)

theorem FitInt32.srcLast (h : FitInt32 destBit srcBit bitCount d s c) (hc : 0 < c) :
    (srcBit + bitCount - 1).toInt = (s + c - 1 : ℕ) := toInt_sub_one h.srcEnd (by omega)

end

/-! ## Staying in a range -/

def HoldsBitOf (bit n index : ℕ) : Prop := ∃ i < n, (bit + i) / 8 = index

theorem holdsBitOf_of_le {bit n index : ℕ} (hn : 0 < n) (hlo : bit / 8 ≤ index) (hhi : index ≤ (bit + n - 1) / 8) :
    HoldsBitOf bit n index := by
  rcases Nat.lt_or_ge (bit / 8) index with hlt | hge
  · exact ⟨8 * index - bit, by omega, by omega⟩
  · exact ⟨0, hn, by omega⟩

structure Touches (S D : ℕ → Prop) (m m' : CopyMemory) : Prop where
  srcRead : ∀ k ∈ m'.srcRead, k ∈ m.srcRead ∨ S k
  destTouched : ∀ k ∈ m'.destTouched, k ∈ m.destTouched ∨ D k

def Copier.Runs (S D : ℕ → Prop) {α : Type} (c : Copier α) (dest : List Byte) (a : α) (dest' : List Byte) : Prop :=
  ∀ m : CopyMemory, m.dest = dest → (c m).1 = a ∧ (c m).2.dest = dest' ∧ Touches S D m (c m).2

namespace Copier

section
variable {S D : ℕ → Prop} {α β : Type} {dest dest' dest'' : List Byte} {a : α} {b : β}

theorem Runs.pure (a : α) : Runs S D (Pure.pure a) dest a dest :=
  fun _ hm => ⟨rfl, hm, fun _ => .inl, fun _ => .inl⟩

theorem Runs.bind {c : Copier α} {f : α → Copier β} (hc : Runs S D c dest a dest') (hf : Runs S D (f a) dest' b dest'') :
    Runs S D (c >>= f) dest b dest'' := by
  intro m hm
  obtain ⟨ha, hdest, hs, hd⟩ := hc m hm
  obtain ⟨hb, hdest', hs', hd'⟩ := hf (c m).2 hdest
  have hbind : (c >>= f) m = f a (c m).2 := by rw [← ha]; rfl
  rw [hbind]
  exact ⟨hb, hdest', fun k hk => (hs' k hk).elim (hs k) .inr, fun k hk => (hd' k hk).elim (hd k) .inr⟩

theorem touched_cons {P : ℕ → Prop} {l : List ℕ} {index : ℕ} (h : P index) : ∀ k ∈ index :: l, k ∈ l ∨ P k := by
  intro k hk
  rcases List.mem_cons.mp hk with rfl | hk
  · exact .inr h
  · exact .inl hk

theorem runs_readSrc (src : List Byte) {index : ℕ} (h : S index) :
    Runs S D (readSrc src index) dest (u32 (byteAt src index)) dest :=
  fun _ hm => ⟨rfl, hm, touched_cons h, fun _ => .inl⟩

theorem runs_readDest {index : ℕ} (h : D index) :
    Runs S D (readDest index) dest (u32 (byteAt dest index)) dest := by
  rintro m rfl
  exact ⟨rfl, rfl, fun _ => .inl, touched_cons h⟩

theorem runs_writeDest {index : ℕ} (h : D index) (word : BitVec 32) :
    Runs S D (writeDest index word) dest () (dest.set index (word.setWidth 8)) := by
  rintro m rfl
  exact ⟨rfl, rfl, fun _ => .inl, touched_cons h⟩

/-! ## What the parts of the copier do -/

variable (src : List Byte)

theorem runs_step {srcIndex : ℕ} (h : S srcIndex) (shiftCount : ℕ) (bitAccu : BitVec 32) :
    Runs S D (step src shiftCount srcIndex bitAccu) dest (bitsCpyStep src shiftCount srcIndex bitAccu) dest :=
  (runs_readSrc src h).bind (.pure _)

theorem runs_short {destBit srcBit bitCount : Int32} {d s c : ℕ} (h : FitInt32 destBit srcBit bitCount d s c) (hc : 0 < c)
    (hs : S (s / 8)) (hs' : S ((s + c - 1) / 8)) (hd : D (d / 8)) (hd' : D ((d + c - 1) / 8)) :
    Runs S D (short src destBit srcBit bitCount) dest () (bitsCpyShort dest d src s c) := by
  have haccu : Runs S D (gather src (s / 8) ((s + c - 1) / 8) (s % 8)) dest (shortAccu src s c) dest := by
    unfold gather shortAccu
    split_ifs
    · exact (runs_readSrc src hs).bind (.pure _)
    · exact (runs_readSrc src hs).bind ((runs_readSrc src hs').bind (.pure _))
  unfold short
  rw [toNat_byteIndex h.destBit, toNat_byteIndex h.srcBit, toNat_byteIndex (h.destLast hc), toNat_byteIndex (h.srcLast hc),
    bitIndex_eq h.destBit, bitIndex_eq h.srcBit, bitIndex_eq (h.destLast hc)]
  refine haccu.bind ?_
  unfold bitsCpyShort
  simp only
  rw [← shortAccu]
  split_ifs
  · exact (runs_readDest hd).bind (runs_writeDest hd _)
  · exact (runs_readDest hd).bind <| (runs_writeDest hd _).bind <|
      (runs_readDest hd').bind (runs_writeDest hd' _)

theorem runs_leadIn {destBit srcBit bitCount : Int32} {d s c : ℕ} (h : FitInt32 destBit srcBit bitCount d s c) (h9 : 8 < c)
    (hs : S (s / 8)) (hs' : d % 8 < s % 8 → S (s / 8 + 1)) :
    Runs S D (leadIn src destBit srcBit bitCount) dest (bitsCpyHead src d s c) dest := by
  have hshift := toInt_sub (toInt_and_seven h.destBit) (toInt_and_seven h.srcBit)
  have hdest := toInt_loops h.destBit h.bitCount h.dest_lt
  have hsrc := toInt_loops h.srcBit h.bitCount h.src_lt
  generalize hsc : (destBit &&& 7) - (srcBit &&& 7) = shiftCount at hshift
  unfold leadIn
  rw [toNat_byteIndex h.srcBit, hsc]
  refine (runs_readSrc src hs).bind ?_
  unfold bitsCpyHead
  simp only
  by_cases hsign : 0 ≤ shiftCount
  · have hnat : (0 : ℤ) ≤ (d % 8 : ℕ) - (s % 8 : ℕ) := by
      rw [Int32.le_iff_toInt_le, hshift] at hsign
      exact hsign
    obtain ⟨k, hk⟩ := Int.eq_ofNat_of_zero_le hnat
    rw [hk] at hshift
    have h8 : (shiftCount + 8).toInt = (k + 8 : ℕ) := toInt_add hshift rfl (by omega)
    rw [if_pos hsign, if_pos hnat, hk, toNat_of_toInt (toInt_max hdest hsrc), toNat_of_toInt hshift, toNat_of_toInt h8]
    exact .pure _
  · have hneg : ¬ (0 : ℤ) ≤ (d % 8 : ℕ) - (s % 8 : ℕ) := by
      rw [Int32.le_iff_toInt_le, hshift] at hsign
      exact hsign
    have hadd : ∀ (x : Int32) (z : ℤ) (n : ℕ), x.toInt = z → z + 8 = n → n < 2 ^ 31 → (x + 8).toInt = n := by
      intro x z n hx hz hn
      rw [Int32.toInt_add, hx, show (8 : Int32).toInt = 8 from rfl, hz, Int.bmod_eq_of_le] <;> omega
    obtain ⟨k, hk⟩ : ∃ k : ℕ, ((d % 8 : ℕ) : ℤ) - (s % 8 : ℕ) + 8 = k := Int.eq_ofNat_of_zero_le (by omega)
    have h8 := hadd _ _ _ hshift hk (by omega)
    have h16 := hadd _ _ (k + 8) h8 (by omega) (by omega)
    have hk' : ((d % 8 : ℕ) : ℤ) - (s % 8 : ℕ) + 16 = (k + 8 : ℕ) := by omega
    have hone := toInt_sub_one hsrc (by omega)
    rw [if_neg hsign, if_neg hneg, hk, hk', toNat_of_toInt (toInt_max hdest hone), toNat_of_toInt h8, toNat_of_toInt h16]
    exact (runs_step src (hs' (by omega)) _ _).bind (.pure _)

theorem runs_loop (shiftCount : ℕ) : ∀ (n srcIndex destIndex : ℕ) (bitAccu : BitVec 32) (dest : List Byte),
    (∀ k, srcIndex ≤ k → k < srcIndex + n → S k) → (∀ k, destIndex ≤ k → k < destIndex + n → D k) →
    let r := bitsCpyLoop src shiftCount n srcIndex destIndex bitAccu dest
    Runs S D (loop src shiftCount n srcIndex destIndex bitAccu) dest (r.1, r.2.1, r.2.2.1) r.2.2.2
  | 0, _, _, _, _, _, _ => .pure _
  | n + 1, srcIndex, destIndex, bitAccu, dest, hs, hd =>
    (runs_step src (hs srcIndex le_rfl (by omega)) _ _).bind <|
      (runs_writeDest (hd destIndex le_rfl (by omega)) _).bind <|
        runs_loop shiftCount n (srcIndex + 1) (destIndex + 1) _ _ (fun k hk hlt => hs k (by omega) (by omega))
          fun k hk hlt => hd k (by omega) (by omega)

theorem runs_leadOut {shiftCount lastSrc srcIndex destIndex : ℕ} {bitAccu lastSrcMask : BitVec 32}
    (hs : S lastSrc) (hd : lastSrcMask ≠ 0xFF#32 → D destIndex) :
    Runs S D (leadOut src shiftCount lastSrc srcIndex destIndex bitAccu lastSrcMask) dest ()
      (if lastSrcMask ≠ 0xFF#32 then
        let bitAccu := if lastSrc = srcIndex then bitsCpyStep src shiftCount srcIndex bitAccu else bitAccu >>> 8
        dest.set destIndex
          (((u32 (byteAt dest destIndex) &&& lastSrcMask) ||| (bitAccu &&& ~~~lastSrcMask)).setWidth 8)
      else dest) := by
  unfold leadOut
  by_cases hmask : lastSrcMask ≠ 0xFF#32
  · rw [if_pos hmask, if_pos hmask]
    have haccu : Runs S D (if lastSrc = srcIndex then step src shiftCount srcIndex bitAccu else Pure.pure (bitAccu >>> 8))
        dest (if lastSrc = srcIndex then bitsCpyStep src shiftCount srcIndex bitAccu else bitAccu >>> 8) dest := by
      split_ifs with heq
      · exact runs_step src (heq ▸ hs) _ _
      · exact .pure _
    exact haccu.bind ((runs_readDest (hd hmask)).bind (runs_writeDest (hd hmask) _))
  · rw [if_neg hmask, if_neg hmask]
    exact .pure _

end

section
variable (src : List Byte) {dest : List Byte} {destBit srcBit bitCount : Int32} {d s c : ℕ}

theorem runs_long (hfit : FitInt32 destBit srcBit bitCount d s c) (h9 : 8 < c) (hd : d + c ≤ 8 * dest.length) :
    Runs (HoldsBitOf s c) (HoldsBitOf d c) (long src destBit srcBit bitCount) dest () (bitsCpyLong dest d src s c) := by
  have hh := bitsCpyHead_aligned src d s c h9
  have hlead : Runs (HoldsBitOf s c) (HoldsBitOf d c) (leadIn src destBit srcBit bitCount) dest (bitsCpyHead src d s c) dest :=
    runs_leadIn src hfit h9 (holdsBitOf_of_le (by omega) le_rfl (by omega))
      fun hlt => holdsBitOf_of_le (by omega) (by omega) (by omega)
  have hlast : ((srcBit + bitCount - 1).toUInt32 / 8).toNat = (s + c - 1) / 8 := by
    rw [UInt32.toNat_div, toNat_of_toInt (hfit.srcLast (by omega))]
    rfl
  unfold long
  rw [toNat_byteIndex hfit.destBit, bitIndex_eq hfit.destBit, bitIndex_eq hfit.destEnd, hlast]
  refine hlead.bind ?_
  unfold bitsCpyLong
  generalize bitsCpyHead src d s c = head at hh
  obtain ⟨fullLoop, accu, sc, si⟩ := head
  obtain ⟨hfull, haccu, hge, hle, halign⟩ := hh
  simp only at hfull haccu hge hle halign ⊢
  have hfirst : HoldsBitOf d c (d / 8) := holdsBitOf_of_le (by omega) le_rfl (by omega)
  refine (runs_readDest hfirst).bind ((runs_writeDest hfirst _).bind ?_)
  generalize hd1 : dest.set (d / 8) _ = dest₁
  have hl1 : dest₁.length = dest.length := by rw [← hd1, List.length_set]
  have hloop := bitsCpyLoop_copied hge hle (fullLoop - 1) (si + 1) (d / 8 + 1) accu dest₁
    (haccu.mono (by omega)) (by omega)
  -- the bytes of the inner loop lie inside both ranges
  refine (runs_loop src sc (fullLoop - 1) (si + 1) (d / 8 + 1) accu dest₁
    (fun k hk hlt => holdsBitOf_of_le (by omega) (by omega) (by omega))
    fun k hk hlt => holdsBitOf_of_le (by omega) (by omega) (by omega)).bind ?_
  generalize bitsCpyLoop src sc (fullLoop - 1) (si + 1) (d / 8 + 1) accu dest₁ = r at hloop
  obtain ⟨si', di', accu', dest₂⟩ := r
  obtain ⟨hsi, hdi, -, -, -⟩ := hloop
  simp only at hsi hdi ⊢
  refine runs_leadOut src (holdsBitOf_of_le (by omega) (by omega) le_rfl) fun hmask => ?_
  have hl : (d + c) % 8 ≠ 0 := lastSrcMask_ne.mp hmask
  exact holdsBitOf_of_le (by omega) (by omega) (by omega)

/-- The statements leave what the copy of `BitsCpy` computes, and touch no byte outside the ranges. -/
theorem runs_appBitsCpy (hfit : FitInt32 destBit srcBit bitCount d s c) (hd : d + c ≤ 8 * dest.length) :
    Runs (HoldsBitOf s c) (HoldsBitOf d c) (appBitsCpy src destBit srcBit bitCount) dest ()
      (RudpEngine.appBitsCpy dest d src s c) := by
  have hzero : bitCount = 0 ↔ c = 0 := by
    rw [← Int32.toInt_inj, hfit.bitCount, show (0 : Int32).toInt = 0 from rfl]
    omega
  have height : bitCount ≤ 8 ↔ c ≤ 8 := by
    rw [Int32.le_iff_toInt_le, hfit.bitCount, show (8 : Int32).toInt = 8 from rfl]
    omega
  unfold appBitsCpy RudpEngine.appBitsCpy
  by_cases h0 : c = 0
  · rw [if_pos (hzero.mpr h0), if_pos h0]
    exact .pure _
  · rw [if_neg (mt hzero.mp h0), if_neg h0]
    by_cases h8 : c ≤ 8
    · rw [if_pos (height.mpr h8), if_pos h8]
      exact runs_short src hfit (by omega) (holdsBitOf_of_le (by omega) le_rfl (by omega))
        (holdsBitOf_of_le (by omega) (by omega) le_rfl) (holdsBitOf_of_le (by omega) le_rfl (by omega))
        (holdsBitOf_of_le (by omega) (by omega) le_rfl)
    · rw [if_neg (mt height.mp h8), if_neg h8]
      exact runs_long src hfit (by omega) hd

end

end Copier

/-- The plain copy: the copied range is set, every other bit of the destination is left, and no byte is accessed without
a bit of the two ranges. -/
structure PlainCopy (dest src : List Byte) (destBit srcBit bitCount : ℕ) (m : CopyMemory) : Prop where
  length : m.dest.length = dest.length
  copied : ∀ i < bitCount, bitOf m.dest (destBit + i) = bitOf src (srcBit + i)
  unchanged : ∀ j, (∀ i < bitCount, j ≠ destBit + i) → bitOf m.dest j = bitOf dest j
  srcRead : ∀ k ∈ m.srcRead, HoldsBitOf srcBit bitCount k
  destTouched : ∀ k ∈ m.destTouched, HoldsBitOf destBit bitCount k

/-- **The bit copier is the plain copy, bit by bit**, where the count is not negative and the sums do not overflow. -/
theorem appBitsCpy_plain_copy (dest src : List Byte) (destBit srcBit bitCount : Int32) (hd0 : 0 ≤ destBit) (hs0 : 0 ≤ srcBit)
    (hc0 : 0 ≤ bitCount) (hdest : destBit.toInt + bitCount.toInt < 2 ^ 31) (hsrc : srcBit.toInt + bitCount.toInt < 2 ^ 31)
    (hd : destBit.toInt + bitCount.toInt ≤ 8 * dest.length) :
    PlainCopy dest src destBit.toNatClampNeg srcBit.toNatClampNeg bitCount.toNatClampNeg
      (Copier.appBitsCpy src destBit srcBit bitCount ⟨dest, [], []⟩).2 := by
  have hnat : ∀ x : Int32, 0 ≤ x → x.toInt = x.toNatClampNeg := by
    intro x hx
    have hx0 := Int32.le_iff_toInt_le.mp hx
    exact (Int.toNat_of_nonneg hx0).symm
  rw [hnat _ hd0, hnat _ hc0] at hdest hd
  rw [hnat _ hs0, hnat _ hc0] at hsrc
  have hfit : FitInt32 destBit srcBit bitCount _ _ _ := ⟨hnat _ hd0, hnat _ hs0, hnat _ hc0, by omega, by omega⟩
  have hle : destBit.toNatClampNeg + bitCount.toNatClampNeg ≤ 8 * dest.length := by omega
  obtain ⟨-, hcopy, hs, ht⟩ := Copier.runs_appBitsCpy src hfit hle ⟨dest, [], []⟩ rfl
  refine ⟨?_, ?_, ?_, ?_, ?_⟩
  · rw [hcopy]
    exact appBitsCpy_length src hle
  · intro i hi
    rw [hcopy, bitOf_appBitsCpy src hle, if_pos (by omega), Nat.add_sub_cancel_left]
  · intro j hj
    rw [hcopy, bitOf_appBitsCpy src hle, if_neg fun hin => hj (j - destBit.toNatClampNeg) (by omega) (by omega)]
  · exact fun k hk => (hs k hk).resolve_left List.not_mem_nil
  · exact fun k hk => (ht k hk).resolve_left List.not_mem_nil

/-- Ten bits from bit 7 on: the last one is in the third source byte. -/
theorem appBitsCpy_plain_copy_ten :
    let m := (Copier.appBitsCpy [0x80, 0xFF, 0x01] 3 7 10 ⟨[0, 0, 0], [], []⟩).2
    m.dest = [0xF8, 0x1F, 0] ∧ m.srcRead = [2, 1, 0] ∧ bitOf m.dest 12 = true := by
  have hcopy := appBitsCpy_plain_copy [0, 0, 0] [0x80, 0xFF, 0x01] 3 7 10 (by decide) (by decide) (by decide) (by decide)
    (by decide) (by decide)
  exact ⟨by decide, by decide, (hcopy.copied 9 (by decide)).trans (by decide)⟩

/-- A count below 0 takes the short path and sets bits that it does not name; and an end of 2^31 bits overflows, so that the
last source byte is looked for far behind the range. -/
theorem appBitsCpy_not_plain_copy :
    (¬ ∀ (dest src : List Byte) (destBit srcBit bitCount : Int32), 0 ≤ destBit → 0 ≤ srcBit →
      destBit.toInt + bitCount.toInt ≤ 8 * dest.length →
        PlainCopy dest src destBit.toNatClampNeg srcBit.toNatClampNeg bitCount.toNatClampNeg
          (Copier.appBitsCpy src destBit srcBit bitCount ⟨dest, [], []⟩).2) ∧
    ¬ ∀ (dest src : List Byte) (destBit srcBit bitCount : Int32), 0 ≤ destBit → 0 ≤ srcBit → 0 ≤ bitCount →
      destBit.toInt + bitCount.toInt ≤ 8 * dest.length →
        PlainCopy dest src destBit.toNatClampNeg srcBit.toNatClampNeg bitCount.toNatClampNeg
          (Copier.appBitsCpy src destBit srcBit bitCount ⟨dest, [], []⟩).2 := by
  constructor
  · intro h
    have hkept := (h [0] [0xFF] 0 0 (-5) (by decide) (by decide) (by decide)).unchanged 0 fun i hi => absurd hi (by simp)
    revert hkept
    decide
  · intro h
    have hread := (h [0] [] 0 2147483647 2 (by decide) (by decide) (by decide) (by decide)).srcRead 4026531840 (by decide)
    obtain ⟨i, hi, hbyte⟩ := hread
    have hcount : (2 : Int32).toNatClampNeg = 2 := rfl
    have hfirst : (2147483647 : Int32).toNatClampNeg = 2147483647 := by decide
    rw [hcount] at hi
    rw [hfirst] at hbyte
    omega

/-! ## The calls of the archives -/

theorem fitInt32_ofNat {d s c : ℕ} (hd : d + c < 2 ^ 31) (hs : s + c < 2 ^ 31) :
    FitInt32 (.ofNat d) (.ofNat s) (.ofNat c) d s c :=
  ⟨Int32.toInt_ofNat_of_lt (by omega), Int32.toInt_ofNat_of_lt (by omega), Int32.toInt_ofNat_of_lt (by omega), hd, hs⟩

/-- What a writer of less than 2^31 bits gets from the copier. -/
theorem BitWriter.serializeBitsWithOffset_copier {w : BitWriter} {n sourceBit : ℕ} (h : w.AllowAppend n)
    (hmax : w.max < 2 ^ 31) (hsource : sourceBit + n < 2 ^ 31) (src : List Byte) :
    (Copier.appBitsCpy src (.ofNat w.pos) (.ofNat sourceBit) (.ofNat n) ⟨w.buffer, [], []⟩).2.dest =
      (w.serializeBitsWithOffset src sourceBit n).buffer := by
  have hend : w.pos + n ≤ w.max := h
  rw [serializeBitsWithOffset, dif_pos h]
  exact (Copier.runs_appBitsCpy src (fitInt32_ofNat (by omega) hsource) h.fits _ rfl).2.1

/-- What a reader of less than 2^31 bits gets from the copier. -/
theorem BitReader.serializeBitsWithOffset_copier {r : BitReader} {n destBit : ℕ} (h : r.Holds n) (hn : n ≠ 0)
    (hmax : r.max < 2 ^ 31) (hdest : destBit + n < 2 ^ 31) {dest : List Byte} (hfit : destBit + n ≤ 8 * dest.length) :
    (Copier.appBitsCpy r.buffer (.ofNat destBit) (.ofNat r.pos) (.ofNat n) ⟨dest, [], []⟩).2.dest =
      (r.serializeBitsWithOffset dest destBit n).1 := by
  have hend := h.le
  rw [serializeBitsWithOffset, if_neg h.not_over, if_pos hn]
  exact (Copier.runs_appBitsCpy r.buffer (fitInt32_ofNat hdest (by omega)) hfit _ rfl).2.1

end RudpEngine

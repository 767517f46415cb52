import RudpEngine.ArchiveInts

/-!
# Archives, there and back

Seven operations write to a `BitWriter`, six read from a `BitReader`. Reading
what was written with the mirrored operations gives the values back and ends
where the writing ended, wherever in a byte each value begins.
-/

namespace RudpEngine

/-- A call on a `BitWriter`; `src` is the memory that the source points to. -/
inductive WriteOp
  | serializeBits (src : List Byte) (lengthBits : ℕ)
  | serializeBitsWithOffset (src : List Byte) (sourceBit lengthBits : ℕ)
  | serialize (src : List Byte) (lengthBytes : ℕ)
  | serializeInt (value max : BitVec 32)
  | serializeIntPacked (value : BitVec 32)
  | writeIntWrapped (value valueMax : BitVec 32)
  | writeBit (bit : Byte)

/-- A call on a `BitReader`; `dest` is the memory that is read into, with what is in it before. -/
inductive ReadOp
  | serializeBits (dest : List Byte) (lengthBits : ℕ)
  | serializeBitsWithOffset (dest : List Byte) (destBit lengthBits : ℕ)
  | serialize (dest : List Byte) (lengthBytes : ℕ)
  | serializeInt (outValue valueMax : BitVec 32)
  | serializeIntPacked
  | readBit

inductive ArchiveValue
  | bits (bits : List Bool)
  | int (value : BitVec 32)
  | bit (bit : Bool)
  deriving DecidableEq

def memoryBits (memory : List Byte) (start n : ℕ) : List Bool := (List.range n).map fun i => bitOf memory (start + i)

namespace WriteOp

def run (w : BitWriter) : WriteOp → BitWriter
  | serializeBits src lengthBits => w.serializeBits src lengthBits
  | serializeBitsWithOffset src sourceBit lengthBits => w.serializeBitsWithOffset src sourceBit lengthBits
  | serialize src lengthBytes => w.serialize src lengthBytes
  | serializeInt value max => w.serializeInt value max
  | serializeIntPacked value => w.serializeIntPacked value
  | writeIntWrapped value valueMax => w.writeIntWrapped value valueMax
  | writeBit bit => w.writeBit (bit != 0)

/-- The number of bits that `AllowAppend` is asked for; below a bound of 2 nothing is written. -/
def lengthBits : WriteOp → ℕ
  | serializeBits _ lengthBits => lengthBits
  | serializeBitsWithOffset _ _ lengthBits => lengthBits
  | serialize _ lengthBytes => lengthBytes * 8
  | serializeInt _ max => if 2 ≤ max then ceilLogTwo max else 0
  | serializeIntPacked value => (BitWriter.bytesAsWords 5 value).length * 8
  | writeIntWrapped _ valueMax => ceilLogTwo valueMax
  | writeBit _ => 1

abbrev Fits (w : BitWriter) (op : WriteOp) : Prop := w.AllowAppend op.lengthBits

def value : WriteOp → ArchiveValue
  | serializeBits src lengthBits => .bits (memoryBits src 0 lengthBits)
  | serializeBitsWithOffset src sourceBit lengthBits => .bits (memoryBits src sourceBit lengthBits)
  | serialize src lengthBytes => .bits (memoryBits src 0 (lengthBytes * 8))
  | serializeInt value _ => .int value
  | serializeIntPacked value => .int value
  | writeIntWrapped value _ => .int value
  | writeBit bit => .bit (bit != 0)

def Bounded : WriteOp → Prop
  | serializeInt value max => value < max ∧ 2 ≤ max
  | writeIntWrapped value valueMax => value < valueMax ∧ 2 ≤ valueMax
  | _ => True

instance decidableBounded : (op : WriteOp) → Decidable op.Bounded
  | serializeBits .. => isTrue trivial
  | serializeBitsWithOffset .. => isTrue trivial
  | serialize .. => isTrue trivial
  | serializeInt value max => inferInstanceAs (Decidable (value < max ∧ 2 ≤ max))
  | serializeIntPacked _ => isTrue trivial
  | writeIntWrapped value valueMax => inferInstanceAs (Decidable (value < valueMax ∧ 2 ≤ valueMax))
  | writeBit _ => isTrue trivial

end WriteOp

def BitReader.serialize (r : BitReader) (dest : List Byte) (lengthBytes : ℕ) : List Byte × BitReader :=
  r.serializeBits dest (lengthBytes * 8)

def ReadOp.run (r : BitReader) : ReadOp → ArchiveValue × BitReader
  | serializeBits dest lengthBits =>
    let (dest, r) := r.serializeBits dest lengthBits
    (.bits (memoryBits dest 0 lengthBits), r)
  | serializeBitsWithOffset dest destBit lengthBits =>
    let (dest, r) := r.serializeBitsWithOffset dest destBit lengthBits
    (.bits (memoryBits dest destBit lengthBits), r)
  | serialize dest lengthBytes =>
    let (dest, r) := r.serialize dest lengthBytes
    (.bits (memoryBits dest 0 (lengthBytes * 8)), r)
  | serializeInt outValue valueMax =>
    let (value, r) := r.serializeInt outValue valueMax
    (.int value, r)
  | serializeIntPacked =>
    let (value, r) := r.serializeIntPacked
    (.int value, r)
  | readBit =>
    let (bit, r) := r.readBit
    (.bit bit, r)

/-- The read of what an operation wrote, into memory that has room for it. -/
inductive Mirrors : WriteOp → ReadOp → Prop
  | serializeBits {src dest : List Byte} {n : ℕ} : n ≤ 8 * dest.length →
      Mirrors (.serializeBits src n) (.serializeBits dest n)
  | serializeBitsWithOffset {src dest : List Byte} {sourceBit destBit n : ℕ} : destBit + n ≤ 8 * dest.length →
      Mirrors (.serializeBitsWithOffset src sourceBit n) (.serializeBitsWithOffset dest destBit n)
  | serialize {src dest : List Byte} {k : ℕ} : k ≤ dest.length → Mirrors (.serialize src k) (.serialize dest k)
  | serializeInt {value max outValue : BitVec 32} : Mirrors (.serializeInt value max) (.serializeInt outValue max)
  | serializeIntPacked {value : BitVec 32} : Mirrors (.serializeIntPacked value) .serializeIntPacked
  | writeIntWrapped {value max outValue : BitVec 32} : Mirrors (.writeIntWrapped value max) (.serializeInt outValue max)
  | writeBit {bit : Byte} : Mirrors (.writeBit bit) .readBit

/-! ## One operation -/

section
variable {w : BitWriter} {r : BitReader}

theorem memoryBits_congr {a b : List Byte} {i j n : ℕ} (h : ∀ k < n, bitOf a (i + k) = bitOf b (j + k)) :
    memoryBits a i n = memoryBits b j n :=
  List.map_congr_left fun k hk => h k (List.mem_range.mp hk)

theorem BitReader.serializeBitsWithOffset_read {dest : List Byte} {destBit n : ℕ} (h : r.Holds n)
    (hroom : destBit + n ≤ 8 * dest.length) :
    (r.serializeBitsWithOffset dest destBit n).2 = { r with pos := r.pos + n } ∧
      ∀ i < n, bitOf (r.serializeBitsWithOffset dest destBit n).1 (destBit + i) = bitOf r.buffer (r.pos + i) := by
  rw [serializeBitsWithOffset, if_neg h.not_over]
  by_cases hzero : n = 0
  · subst hzero
    exact ⟨rfl, fun i hi => absurd hi (Nat.not_lt_zero i)⟩
  · rw [if_pos hzero]
    refine ⟨rfl, fun i hi => ?_⟩
    rw [bitOf_appBitsCpy _ hroom, if_pos (by omega), Nat.add_sub_cancel_left]

def ReadsBack (read : ReadOp) (value : ArchiveValue) (n : ℕ) (f : ℕ → Bool) : Prop :=
  ∀ r : BitReader, r.Holds n → (∀ i < n, bitOf r.buffer (r.pos + i) = f i) →
    read.run r = (value, { r with pos := r.pos + n })

theorem readsBack_serializeBits {src dest : List Byte} {n : ℕ} (hroom : n ≤ 8 * dest.length) :
    ReadsBack (.serializeBits dest n) (.bits (memoryBits src 0 n)) n (bitOf src) := by
  intro r hr hbits
  obtain ⟨hread, -, hdest⟩ := BitReader.serializeBits_read hr dest hroom
  show (ArchiveValue.bits (memoryBits (r.serializeBits dest n).1 0 n), (r.serializeBits dest n).2) = _
  refine Prod.ext (congrArg ArchiveValue.bits (memoryBits_congr fun i hi => ?_)) hread
  rw [Nat.zero_add, hdest i hi, hbits i hi]

theorem readsBack_serializeInt {value max : BitVec 32} (hlt : value < max) (outValue : BitVec 32) :
    ReadsBack (.serializeInt outValue max) (.int value) (intLength value.toNat max.toNat) value.toNat.testBit := by
  intro r hr hbits
  show (ArchiveValue.int (r.serializeInt outValue max).1, (r.serializeInt outValue max).2) = _
  rw [BitReader.serializeInt_read (BitVec.lt_def.mp hlt) outValue hr hbits]

/-- An operation that fits writes bits which its read gives back. -/
theorem Mirrors.trips {op : WriteOp} {read : ReadOp} (h : Mirrors op read) (hbounded : op.Bounded) (hfits : op.Fits w) :
    ∃ n f, BitWriter.Wrote w (op.run w) n f ∧ ReadsBack read op.value n f := by
  cases h with
  | serializeBits hroom => exact ⟨_, _, BitWriter.serializeBits_wrote _ hfits, readsBack_serializeBits hroom⟩
  | @serializeBitsWithOffset src dest sourceBit destBit n hroom =>
    refine ⟨_, _, BitWriter.serializeBitsWithOffset_wrote src sourceBit hfits, fun r hr hbits => ?_⟩
    obtain ⟨hread, hdest⟩ := BitReader.serializeBitsWithOffset_read hr hroom
    show (ArchiveValue.bits (memoryBits (r.serializeBitsWithOffset dest destBit n).1 destBit n),
      (r.serializeBitsWithOffset dest destBit n).2) = _
    refine Prod.ext (congrArg ArchiveValue.bits (memoryBits_congr fun i hi => ?_)) hread
    rw [hdest i hi, hbits i hi]
  | serialize hroom => exact ⟨_, _, BitWriter.serialize_wrote _ hfits, readsBack_serializeBits (by omega)⟩
  | @serializeInt value max outValue =>
    obtain ⟨hlt, htwo⟩ := hbounded
    refine ⟨_, _, ?_, readsBack_serializeInt hlt outValue⟩
    have hroom : w.AllowAppend (ceilLogTwo max) := by
      have hif : w.AllowAppend (if 2 ≤ max then ceilLogTwo max else 0) := hfits
      rwa [if_pos htwo] at hif
    show BitWriter.Wrote w (w.serializeInt value max) _ _
    unfold BitWriter.serializeInt
    rw [if_pos htwo, if_neg (BitVec.not_le.mpr hlt)]
    exact BitWriter.writeInt_wrote value hroom
  | serializeIntPacked =>
    refine ⟨_, _, BitWriter.serializeIntPacked_wrote hfits, fun r hr hbits => ?_⟩
    show (ArchiveValue.int r.serializeIntPacked.1, r.serializeIntPacked.2) = _
    rw [BitReader.serializeIntPacked_read hr hbits]
    rfl
  | writeIntWrapped => exact ⟨_, _, BitWriter.writeInt_wrote _ hfits, readsBack_serializeInt hbounded.1 _⟩
  | @writeBit bit =>
    refine ⟨_, _, BitWriter.writeBit_wrote (bit != 0) hfits, fun r hr hbits => ?_⟩
    have hbit := hbits 0 (by decide)
    show (ArchiveValue.bit r.readBit.1, r.readBit.2) = _
    rw [BitReader.readBit_read hr]
    exact Prod.ext (congrArg ArchiveValue.bit hbit) rfl

end

/-! ## All operations -/

namespace BitWriter

def runAll (w : BitWriter) (ops : List WriteOp) : BitWriter := ops.foldl WriteOp.run w

def AllFit : BitWriter → List WriteOp → Prop
  | _, [] => True
  | w, op :: ops => op.Fits w ∧ AllFit (op.run w) ops

instance decidableAllFit : (w : BitWriter) → (ops : List WriteOp) → Decidable (w.AllFit ops)
  | _, [] => isTrue trivial
  | w, op :: ops =>
    have := decidableAllFit (op.run w) ops
    inferInstanceAs (Decidable (op.Fits w ∧ AllFit (op.run w) ops))

end BitWriter

def BitReader.readAll : BitReader → List ReadOp → List ArchiveValue × BitReader
  | r, [] => ([], r)
  | r, read :: reads =>
    let (value, r) := read.run r
    let (values, r) := r.readAll reads
    (value :: values, r)

section
variable {w : BitWriter} {ops : List WriteOp} {reads : List ReadOp}

theorem runAll_extends (hmirror : List.Forall₂ Mirrors ops reads) : ∀ {w : BitWriter}, (∀ op ∈ ops, op.Bounded) →
    w.AllFit ops → BitWriter.Extends w (w.runAll ops) := by
  induction hmirror with
  | nil => exact fun _ _ => .refl _
  | cons h _ ih =>
    intro w hbounded hfit
    obtain ⟨n, f, hwrote, -⟩ := h.trips (hbounded _ List.mem_cons_self) hfit.1
    exact hwrote.extends.trans (ih (fun op hop => hbounded op (List.mem_cons_of_mem _ hop)) hfit.2)

/-- From a reader that stands where the writer began, over any buffer that holds what was written. -/
theorem readAll_runAll (hmirror : List.Forall₂ Mirrors ops reads) : ∀ {w : BitWriter} {r : BitReader},
    (∀ op ∈ ops, op.Bounded) → w.AllFit ops → r.pos = w.pos → r.arIsError = false → (w.runAll ops).pos ≤ r.max →
    (∀ i < (w.runAll ops).pos, bitOf r.buffer i = bitOf (w.runAll ops).buffer i) →
    r.readAll reads = (ops.map WriteOp.value, { r with pos := (w.runAll ops).pos }) := by
  induction hmirror with
  | nil =>
    intro w r _ _ hpos _ _ _
    show ([], r) = ([], { r with pos := w.pos })
    rw [← hpos]
  | @cons op read ops reads h hrest ih =>
    intro w r hbounded hfit hpos herror hmax hbits
    obtain ⟨n, f, hwrote, hback⟩ := h.trips (hbounded _ List.mem_cons_self) hfit.1
    have hbounded' : ∀ op ∈ ops, op.Bounded := fun op hop => hbounded op (List.mem_cons_of_mem _ hop)
    have hext := runAll_extends hrest hbounded' hfit.2
    have hrun : w.runAll (op :: ops) = (op.run w).runAll ops := rfl
    rw [hrun] at hmax hbits ⊢
    have hle := hext.pos
    rw [hwrote.pos] at hle
    have hread : read.run r = (op.value, { r with pos := r.pos + n }) := by
      refine hback r ⟨herror, by omega⟩ fun i hi => ?_
      rw [hbits _ (by omega), hpos]
      exact hwrote.field hext i hi
    have hpos' : r.pos + n = (op.run w).pos := by rw [hwrote.pos, hpos]
    have htail := ih (r := { r with pos := r.pos + n }) hbounded' hfit.2 hpos' herror hmax hbits
    unfold BitReader.readAll
    rw [hread]
    simp only
    rw [htail]
    rfl

theorem getLsbD_gMask {k t : ℕ} (hk : k < 8) (ht : t < 8) : (BitReader.gMask k).getLsbD t = decide (t < k) := by
  have hall : ∀ k < 8, ∀ t < 8, (BitReader.gMask k).getLsbD t = decide (t < k) := by decide
  exact hall k hk t ht

/-- The mask of the constructor leaves the bits below the end. -/
theorem bitOf_ofBytes {src : List Byte} {n i : ℕ} (hn : n ≤ 8 * src.length) (hi : i < n) :
    bitOf (BitReader.ofBytes src n).buffer i = bitOf src i := by
  have htake : bitOf (src.take ((n + 7) / 8)) i = bitOf src i := bitOf_take (by omega)
  unfold BitReader.ofBytes
  simp only
  split_ifs with hzero
  · have hlen : n / 8 < (src.take ((n + 7) / 8)).length := by
      rw [List.length_take]
      omega
    rw [bitOf_set _ hlen]
    by_cases hbyte : i / 8 = n / 8
    · rw [if_pos hbyte, BitVec.getLsbD_and, getLsbD_gMask (Nat.mod_lt _ (by decide)) (Nat.mod_lt _ (by decide)),
        decide_eq_true (by omega), Bool.and_true, ← hbyte]
      exact htake
    · rw [if_neg hbyte]
      exact htake
  · exact htake

/-- What is written to a fresh writer, or to one that was reset, is read back. -/
theorem archive_round_trip (hstart : (∃ maxBits, w = .ofMaxBits maxBits) ∨ ∃ used : BitWriter, w = used.reset)
    (hbounded : ∀ op ∈ ops, op.Bounded) (hfit : w.AllFit ops) (hmirror : List.Forall₂ Mirrors ops reads) :
    ((BitReader.ofBytes (w.runAll ops).buffer (w.runAll ops).pos).readAll reads).1 = ops.map WriteOp.value ∧
      ((BitReader.ofBytes (w.runAll ops).buffer (w.runAll ops).pos).readAll reads).2.arIsError = false ∧
      ((BitReader.ofBytes (w.runAll ops).buffer (w.runAll ops).pos).readAll reads).2.pos = (w.runAll ops).pos := by
  have hpos : w.pos = 0 := by
    rcases hstart with ⟨maxBits, rfl⟩ | ⟨used, rfl⟩
    · rfl
    · rfl
  have hlen : (w.runAll ops).pos ≤ 8 * (w.runAll ops).buffer.length := by
    have := (w.runAll ops).pos_le
    rw [(w.runAll ops).size_eq]
    omega
  have hread := readAll_runAll hmirror (r := .ofBytes (w.runAll ops).buffer (w.runAll ops).pos) hbounded hfit hpos.symm rfl
    (Nat.le_refl _) (fun i hi => bitOf_ofBytes hlen hi)
  rw [hread]
  exact ⟨rfl, rfl, rfl⟩

end

/-- A bit, a bounded and a packed number that begin inside a byte. -/
theorem archive_round_trip_unaligned :
    ((BitReader.ofBytes ((BitWriter.ofMaxBits 32).runAll [.writeBit 1, .serializeInt 5 12, .serializeIntPacked 300]).buffer
        ((BitWriter.ofMaxBits 32).runAll [.writeBit 1, .serializeInt 5 12, .serializeIntPacked 300]).pos).readAll
      [.readBit, .serializeInt 0 12, .serializeIntPacked]).1 = [.bit true, .int 5, .int 300] :=
  (archive_round_trip (.inl ⟨32, rfl⟩) (by decide) (by decide)
    (.cons .writeBit (.cons .serializeInt (.cons .serializeIntPacked .nil)))).1

end RudpEngine

import RudpEngine.HandshakeTrip
import Mathlib.Data.Nat.Bits

/-!
# The bits of a header

What the peer reads at the front of a datagram is decided by its bits and by
how many there are: a packet of the connection, a packet of the handshake, or
nothing that could be read. The same bits are read the same wherever the cursor
stands.
-/

namespace RudpEngine

namespace BitReader

variable {r : BitReader}

def bits (r : BitReader) (i : ℕ) : Bool := bitOf r.buffer (r.pos + i)

def left (r : BitReader) : ℕ := r.max - r.pos

theorem holds_of_not_over {n : ℕ} (h : ¬ (r.arIsError ∨ r.max < r.pos + n)) : Holds r n := by
  obtain ⟨hok, hle⟩ := not_or.mp h
  exact ⟨Bool.eq_false_iff.mpr hok, Nat.le_of_not_lt hle⟩

theorem over_of_not_holds {n : ℕ} (h : ¬ Holds r n) : r.arIsError ∨ r.max < r.pos + n :=
  not_not.mp (mt holds_of_not_over h)

theorem serializeBits_noError {dest : List Byte} {n : ℕ} (h : (r.serializeBits dest n).2.arIsError = false) :
    Holds r n := by
  by_cases hover : r.arIsError ∨ r.max < r.pos + n
  · rw [serializeBits, if_pos hover] at h
    exact absurd h (by simp [setError])
  · exact holds_of_not_over hover

theorem serializeBitsWithOffset_noError {dest : List Byte} {destBit n : ℕ}
    (h : (r.serializeBitsWithOffset dest destBit n).2.arIsError = false) : Holds r n := by
  by_cases hover : r.arIsError ∨ r.max < r.pos + n
  · rw [serializeBitsWithOffset, if_pos hover] at h
    exact absurd h (by simp [setError])
  · exact holds_of_not_over hover

theorem readUInt_noError {k : ℕ} (h : (r.readUInt k).2.arIsError = false) : Holds r (8 * k) := serializeBits_noError h

theorem readUInt_bits {k : ℕ} (h : Holds r (8 * k)) :
    r.readUInt k = (Nat.ofBits fun i : Fin (8 * k) => r.bits i, { r with pos := r.pos + 8 * k }) := by
  refine readUInt_eq h (Nat.ofBits_lt_two_pow _) fun i hi => ?_
  rw [Nat.testBit_ofBits_lt _ i hi]
  rfl

end BitReader

/-! ## A packet of the connection -/

section
variable (b : ℕ → Bool)

def packedOf : ℕ := Nat.ofBits fun i : Fin 32 => b (7 + i)

def wordsOf : ℕ := min (Nat.ofBits (fun i : Fin 4 => b (7 + i)) + 1) 8

def wordOf (j : ℕ) : BitVec 32 := BitVec.ofNat 32 (Nat.ofBits fun i : Fin 32 => b (39 + 32 * j + i))

def headerLength : ℕ := 39 + 32 * wordsOf b

theorem wordsOf_le : wordsOf b ≤ 8 := Nat.min_le_right _ _

theorem length_historyWords :
    ((List.range (wordsOf b)).map (wordOf b) ++ List.replicate (8 - wordsOf b) 0).length = 256 / bitsPerWord := by
  have hle := wordsOf_le b
  rw [List.length_append, List.length_map, List.length_range, List.length_replicate, bitsPerWord]
  omega

def headerOf : NotificationHeader where
  history := ⟨(List.range (wordsOf b)).map (wordOf b) ++ List.replicate (8 - wordsOf b) 0, length_historyWords b⟩
  historyWordCount := Nat.ofBits (fun i : Fin 4 => b (7 + i)) + 1
  seq := PackedHeader.getSeq (packedOf b)
  ackedSeq := PackedHeader.getAckedSeq (packedOf b)

/-- `n` bits with the header of a packet of the connection at their front. -/
structure CarriesPacket (n : ℕ) : Prop where
  magic : b 0 = false
  handshake : b 6 = false
  length : headerLength b ≤ n

structure CarriesHandshake (n : ℕ) : Prop where
  magic : b 0 = false
  handshake : b 6 = true
  length : 24 ≤ n
  fields : 3 < (Nat.ofBits fun i : Fin 8 => b (8 + i)) ∨ 249 ≤ n

variable {b}

theorem getHistoryWordCount_packedOf :
    PackedHeader.getHistoryWordCount (packedOf b) = Nat.ofBits fun i : Fin 4 => b (7 + i) := by
  have hmod : PackedHeader.getHistoryWordCount (packedOf b) = packedOf b % 2 ^ 4 :=
    Nat.and_two_pow_sub_one_eq_mod _ 4
  rw [hmod]
  apply Nat.eq_of_testBit_eq
  intro i
  rw [Nat.testBit_mod_two_pow, Nat.testBit_ofBits]
  by_cases hi : i < 4
  · rw [dif_pos hi, packedOf, Nat.testBit_ofBits_lt _ i (by omega)]
    simp [hi]
  · simp [hi]

theorem packedOf_eq_pack : packedOf b = PackedHeader.pack (PackedHeader.getSeq (packedOf b))
    (PackedHeader.getAckedSeq (packedOf b)) (PackedHeader.getHistoryWordCount (packedOf b)) := by
  have hlt : packedOf b < 2 ^ 32 := Nat.ofBits_lt_two_pow _
  have hvalue : ∀ n : ℕ, (Seq.ofInt ((n &&& PackedHeader.seqMask : ℕ) : ℤ)).value = n % 2 ^ 14 := by
    intro n
    have hof := SequenceNumber.ofInt_value (n := 14) (by decide) ((n &&& PackedHeader.seqMask : ℕ) : ℤ)
    rw [PackedHeader.seqMask, Nat.and_two_pow_sub_one_eq_mod] at hof ⊢
    rw [Seq.ofInt]
    omega
  rw [PackedHeader.pack_eq, PackedHeader.getSeq, PackedHeader.getAckedSeq, hvalue, hvalue,
    PackedHeader.getHistoryWordCount, PackedHeader.historyWordCountMask, Nat.and_two_pow_sub_one_eq_mod,
    Nat.shiftRight_eq_div_pow, Nat.shiftRight_eq_div_pow]
  omega

theorem packedOf_congr {b' : ℕ → Bool} : packedOf b' = packedOf b ↔ ∀ i, 7 ≤ i → i < 39 → b' i = b i := by
  constructor
  · intro h i h7 h39
    have hbit : ∀ c : ℕ → Bool, (packedOf c).testBit (i - 7) = c i := by
      intro c
      rw [packedOf, Nat.testBit_ofBits_lt _ _ (by omega)]
      exact congrArg c (by simp only; omega)
    rw [← hbit b', ← hbit b, h]
  · intro h
    exact congrArg Nat.ofBits (funext fun i => h _ (by omega) (by omega))

theorem wordOf_congr {b' : ℕ → Bool} {j : ℕ} :
    wordOf b' j = wordOf b j ↔ ∀ i, 39 + 32 * j ≤ i → i < 39 + 32 * (j + 1) → b' i = b i := by
  constructor
  · intro h i hlo hhi
    have hbit : ∀ c : ℕ → Bool, (wordOf c j).getLsbD (i - (39 + 32 * j)) = c i := by
      intro c
      rw [wordOf, BitVec.getLsbD_ofNat, Nat.testBit_ofBits_lt _ _ (by omega), decide_eq_true (by omega), Bool.true_and]
      exact congrArg c (by simp only; omega)
    rw [← hbit b', ← hbit b, h]
  · intro h
    exact congrArg (fun f => BitVec.ofNat 32 (Nat.ofBits f)) (funext fun i => h _ (by omega) (by omega))

/-- Two headers are read the same exactly if their bits behind the processor's are the same. -/
theorem headerOf_eq_iff {b' : ℕ → Bool} :
    headerOf b' = headerOf b ↔ ∀ i, 7 ≤ i → i < headerLength b → b' i = b i := by
  have hwords := wordsOf_le b
  constructor
  · intro h i h7 hlt
    have hcount := congrArg NotificationHeader.historyWordCount h
    have hseq := congrArg NotificationHeader.seq h
    have hacked := congrArg NotificationHeader.ackedSeq h
    have hhistory := congrArg (fun g : NotificationHeader => g.history.storage) h
    simp only [headerOf] at hcount hseq hacked hhistory
    have hn : wordsOf b' = wordsOf b := by rw [wordsOf, wordsOf, hcount]
    by_cases h39 : i < 39
    · have hpacked : packedOf b' = packedOf b := by
        rw [packedOf_eq_pack (b := b'), packedOf_eq_pack (b := b), hseq, hacked, getHistoryWordCount_packedOf,
          getHistoryWordCount_packedOf, Nat.succ_injective hcount]
      exact packedOf_congr.mp hpacked i h7 h39
    · rw [hn] at hhistory
      have hmap := (List.append_inj hhistory (by simp)).1
      unfold headerLength at hlt
      have hword : wordOf b' ((i - 39) / 32) = wordOf b ((i - 39) / 32) :=
        List.map_inj_left.mp hmap _ (List.mem_range.mpr (by omega))
      exact wordOf_congr.mp hword i (by omega) (by omega)
  · intro h
    have hlen : 39 ≤ headerLength b := Nat.le_add_right _ _
    have hcount : (fun i : Fin 4 => b' (7 + i)) = fun i : Fin 4 => b (7 + i) :=
      funext fun i => h _ (by omega) (by omega)
    have hn : wordsOf b' = wordsOf b := by rw [wordsOf, wordsOf, hcount]
    have hpacked : packedOf b' = packedOf b := packedOf_congr.mpr fun i h7 h39 => h i h7 (by omega)
    have hmap : (List.range (wordsOf b)).map (wordOf b') = (List.range (wordsOf b)).map (wordOf b) := by
      refine List.map_inj_left.mpr fun j hj => wordOf_congr.mpr fun i hlo hhi => h i (by omega) ?_
      rw [List.mem_range] at hj
      unfold headerLength
      omega
    simp only [headerOf, hcount, hn, hpacked, hmap]

end

/-! ## Reading it -/

section
variable {r : BitReader}

theorem readLoop_read : ∀ (n : ℕ) (ws : List (BitVec 32)) {r : BitReader}, BitReader.Holds r (32 * min n ws.length) →
    SequenceHistory.readLoop r n ws =
      ((List.range (min n ws.length)).map (fun j => BitVec.ofNat 32 (Nat.ofBits fun i : Fin 32 => r.bits (32 * j + i))) ++
        ws.drop n, { r with pos := r.pos + 32 * min n ws.length })
  | 0, ws, r, _ => by simp [SequenceHistory.readLoop]
  | n + 1, [], r, _ => by simp [SequenceHistory.readLoop]
  | n + 1, w :: ws, r, h => by
    have hmin : min (n + 1) (w :: ws).length = min n ws.length + 1 := Nat.succ_min_succ n ws.length
    rw [hmin] at h ⊢
    have hfirst : BitReader.Holds r (8 * 4) := ⟨h.noError, by have := h.le; omega⟩
    have hrest : BitReader.Holds { r with pos := r.pos + 8 * 4 } (32 * min n ws.length) :=
      ⟨h.noError, by have := h.le; simp only; omega⟩
    have hshift : ∀ j, (fun i : Fin 32 => ({ r with pos := r.pos + 8 * 4 } : BitReader).bits (32 * j + i)) =
        fun i : Fin 32 => r.bits (32 * (j + 1) + i) := by
      intro j
      funext i
      exact congrArg (bitOf r.buffer) (by simp only; omega)
    rw [SequenceHistory.readLoop, BitReader.readUInt_bits hfirst]
    simp only [readLoop_read n ws hrest, hshift]
    rw [List.range_succ_eq_map, List.map_cons, List.map_map, List.drop_succ_cons, List.cons_append]
    refine Prod.ext (congrArg₂ List.cons (by simp) rfl) ?_
    simp only [BitReader.mk.injEq, true_and, and_true]
    omega

theorem readLoop_noError : ∀ (n : ℕ) (ws : List (BitVec 32)) {r : BitReader}, r.pos ≤ r.max →
    (SequenceHistory.readLoop r n ws).2.arIsError = false → BitReader.Holds r (32 * min n ws.length)
  | 0, ws, r, hle, h => ⟨h, by simpa using hle⟩
  | n + 1, [], r, hle, h => ⟨h, by simpa using hle⟩
  | n + 1, w :: ws, r, hle, h => by
    have hfirst : BitReader.Holds r (8 * 4) := by
      by_contra hover
      rw [SequenceHistory.readLoop, BitReader.readUInt_over (BitReader.over_of_not_holds hover)] at h
      simp only [readLoop_of_error (r := r.setError) rfl n ws] at h
      cases h
    rw [SequenceHistory.readLoop, BitReader.readUInt_bits hfirst] at h
    have hrest := readLoop_noError n ws (r := { r with pos := r.pos + 8 * 4 }) (by have := hfirst.le; simpa using this) h
    have hmin : min (n + 1) (w :: ws).length = min n ws.length + 1 := Nat.succ_min_succ n ws.length
    have hmax := hrest.le
    simp only at hmax
    exact ⟨hfirst.noError, by omega⟩

def behindFields (r : BitReader) : BitReader := { r with pos := r.pos + 7 }

theorem readUInt_packed (h : BitReader.Holds (behindFields r) 32) :
    (behindFields r).readUInt 4 = (packedOf r.bits, { r with pos := r.pos + 39 }) := by
  refine BitReader.readUInt_eq (k := 4) h (Nat.ofBits_lt_two_pow _) fun i hi => ?_
  rw [packedOf, Nat.testBit_ofBits_lt _ i hi]
  exact congrArg (bitOf r.buffer) (by simp only [behindFields]; omega)

theorem min_historyWordCount :
    min (PackedHeader.getHistoryWordCount (packedOf r.bits) + 1) (SequenceHistory.reset 256).storage.length =
      wordsOf r.bits := by
  rw [getHistoryWordCount_packedOf, (SequenceHistory.reset 256).size_eq]
  rfl

theorem readHeader_of_length (hok : r.arIsError = false) (hle : r.pos + headerLength r.bits ≤ r.max) :
    NetPacketNotify.readHeader (behindFields r) =
      (true, headerOf r.bits, { r with pos := r.pos + headerLength r.bits }) := by
  have hlen : headerLength r.bits = 39 + 32 * wordsOf r.bits := rfl
  have hwords := wordsOf_le r.bits
  have hpacked : BitReader.Holds (behindFields r) 32 := ⟨hok, by simp only [behindFields]; omega⟩
  have hloop := readLoop_read (PackedHeader.getHistoryWordCount (packedOf r.bits) + 1)
    (SequenceHistory.reset 256).storage (r := { r with pos := r.pos + 39 })
    (by rw [min_historyWordCount]; exact ⟨hok, by simp only; omega⟩)
  rw [min_historyWordCount] at hloop
  have hdrop : (SequenceHistory.reset 256).storage.drop (PackedHeader.getHistoryWordCount (packedOf r.bits) + 1) =
      List.replicate (8 - wordsOf r.bits) 0 := by
    have hcount : 256 / bitsPerWord = 8 := rfl
    rw [SequenceHistory.reset, List.drop_replicate, hcount, wordsOf, getHistoryWordCount_packedOf]
    congr 1
    omega
  have hbits : ∀ j, (fun i : Fin 32 => ({ r with pos := r.pos + 39 } : BitReader).bits (32 * j + i)) =
      fun i : Fin 32 => r.bits (39 + 32 * j + i) := by
    intro j
    funext i
    exact congrArg (bitOf r.buffer) (by simp only; omega)
  unfold NetPacketNotify.readHeader SequenceHistory.read
  simp only [readUInt_packed hpacked, hloop, hdrop, hbits]
  refine Prod.ext (by simp [hok]) (Prod.ext ?_ ?_)
  · simp only [headerOf, getHistoryWordCount_packedOf]
    rfl
  · simp only [hlen, Nat.add_assoc]

theorem readHeader_holds (h : (NetPacketNotify.readHeader r).1 = true) : BitReader.Holds r 32 := by
  by_contra hover
  unfold NetPacketNotify.readHeader SequenceHistory.read at h
  simp [BitReader.readUInt_over (k := 4) (BitReader.over_of_not_holds hover), readLoop_of_error (r := r.setError) rfl] at h

theorem readHeader_noError (h : (NetPacketNotify.readHeader (behindFields r)).1 = true) :
    r.arIsError = false ∧ r.pos + headerLength r.bits ≤ r.max := by
  have hpacked := readHeader_holds h
  have hmax := hpacked.le
  simp only [behindFields] at hmax
  unfold NetPacketNotify.readHeader SequenceHistory.read at h
  simp only [readUInt_packed hpacked, Bool.not_eq_true'] at h
  have hwords := readLoop_noError _ _ (r := { r with pos := r.pos + 39 }) (by simp only; omega) h
  rw [min_historyWordCount] at hwords
  have hlen : headerLength r.bits = 39 + 32 * wordsOf r.bits := rfl
  have := hwords.le
  simp only at this
  exact ⟨hpacked.noError, by omega⟩

/-! ## The fields of the processor -/

theorem readFields_of_left (h : BitReader.Holds r 7) (hmagic : r.bits 0 = false) :
    ∃ fields, fields.bHandshakePacket = r.bits 6 ∧
      defaultProcessor.readFields r = some (fields, behindFields r) := by
  refine ⟨⟨Nat.ofBits fun i : Fin 2 => r.bits (1 + i), Nat.ofBits fun i : Fin 3 => r.bits (3 + i), r.bits 6⟩, rfl, ?_⟩
  have hbounds : 1 = 0 ∨ 0 + 1 ≤ 32 := .inr (by decide)
  refine UdpConnectionProcessor.readFields_eq_some h hbounds ?_ ?_ ?_ rfl (Nat.ofBits_lt_two_pow _) (Nat.ofBits_lt_two_pow _)
  · intro i
    rw [Nat.zero_testBit]
    by_cases hi : i = 0
    · subst hi
      exact hmagic.symm
    · rw [decide_eq_false (by omega), Bool.false_and]
  · intro i hi
    rw [Nat.testBit_ofBits_lt _ i hi]
    exact congrArg (bitOf r.buffer) (Nat.add_assoc _ _ _)
  · intro i hi
    rw [Nat.testBit_ofBits_lt _ i hi]
    exact congrArg (bitOf r.buffer) (by simp only; omega)

/-- A reader that has bits left behind the fields had all of them. -/
theorem readFields_cases {fields : ProcessorFields} {header : BitReader}
    (h : defaultProcessor.readFields r = some (fields, header)) (hok : header.arIsError = false)
    (hmore : header.pos < header.max) :
    BitReader.Holds r 7 ∧ r.bits 0 = false ∧ fields.bHandshakePacket = r.bits 6 ∧ header = behindFields r := by
  obtain ⟨hmagic, rfl, rfl⟩ := UdpConnectionProcessor.of_readFields h
  simp only [defaultProcessor] at hmagic hok hmore ⊢
  -- without an error at the end every read had its bits
  rw [UdpConnectionProcessor.readBit_error] at hok
  have h3 := BitReader.serializeBits_noError hok
  have h2 := BitReader.serializeBits_noError h3.noError
  have h1 := BitReader.serializeBitsWithOffset_noError h2.noError
  have hbounds : 1 = 0 ∨ 0 + 1 ≤ 32 := .inr (by decide)
  obtain ⟨hbit, hr1⟩ := UdpConnectionProcessor.readMagic_testBit h1 hbounds 0
  rw [hr1] at h2 h3 hmore ⊢
  have hr2 := (BitReader.serializeBits_read h2 [0] (by decide)).1
  rw [hr2] at h3 hmore ⊢
  have hr3 := (BitReader.serializeBits_read h3 [0] (by decide)).1
  rw [hr3] at hmore ⊢
  have hle := h3.le
  simp only at hle
  have hlast : r.pos + 1 + 2 + 3 < r.max := by
    by_contra hend
    rw [BitReader.readBit, if_pos (.inr (Nat.le_of_not_lt hend))] at hmore
    exact hend hmore
  rw [BitReader.readBit_read (r := { r with pos := r.pos + 1 + 2 + 3 }) ⟨h1.noError, hlast⟩]
  refine ⟨⟨h1.noError, hlast⟩, ?_, rfl, rfl⟩
  rw [hmagic, Nat.zero_testBit] at hbit
  simpa [BitReader.bits] using hbit.symm

theorem readBit_snd (hok : r.arIsError = false) (hle : r.pos ≤ r.max) :
    r.readBit.2 = { r with pos := min (r.pos + 1) r.max } := by
  by_cases hend : r.max ≤ r.pos
  · have heq : r.max = r.pos := Nat.le_antisymm hend hle
    rw [BitReader.readBit, if_pos (.inr hend), Nat.min_eq_right (by omega), heq]
    cases r
    simp only at heq
    subst heq
    rfl
  · rw [BitReader.readBit_read ⟨hok, by omega⟩, Nat.min_eq_left (by omega)]

theorem left_of_parse (h : (UdpConnectionProcessor.parseHandshakePacket r).1 = true) : r.pos < r.max := by
  have htry : BitReader.Holds (r.readBit.2.readUInt 1).2 8 := by
    unfold UdpConnectionProcessor.parseHandshakePacket at h
    simp only [Bool.not_eq_true'] at h
    split at h
    · have h64 := BitReader.readUInt_noError (BitReader.readUInt_noError h).noError
      have hbit := h64.noError
      rw [UdpConnectionProcessor.readBit_error] at hbit
      exact BitReader.readUInt_noError hbit
    · exact BitReader.readUInt_noError h
  have hle := (BitReader.readUInt_noError htry.noError).le
  by_contra hend
  rw [BitReader.readBit, if_pos (.inr (Nat.le_of_not_lt hend))] at hle
  simp only at hle
  omega

theorem parseHandshakePacket_iff (h : BitReader.Holds r 7) :
    (UdpConnectionProcessor.parseHandshakePacket (behindFields r)).1 = true ↔
      r.pos + 24 ≤ r.max ∧ (3 < (Nat.ofBits fun i : Fin 8 => r.bits (8 + i)) ∨ r.pos + 249 ≤ r.max) := by
  obtain ⟨hok, hle⟩ := h
  have hbit : (behindFields r).readBit.2 = { r with pos := min (r.pos + 8) r.max } :=
    readBit_snd (r := behindFields r) hok hle
  unfold UdpConnectionProcessor.parseHandshakePacket
  simp only [hbit, Bool.not_eq_true']
  by_cases h24 : r.pos + 24 ≤ r.max
  · rw [Nat.min_eq_left (by omega)]
    have htype : BitReader.readUInt { r with pos := r.pos + 8 } 1 =
        (Nat.ofBits fun i : Fin 8 => r.bits (8 + i), { r with pos := r.pos + 16 }) := by
      refine BitReader.readUInt_eq ⟨hok, by simp only; omega⟩ (Nat.ofBits_lt_two_pow _) fun i hi => ?_
      rw [Nat.testBit_ofBits_lt _ i hi]
      exact congrArg (bitOf r.buffer) (by simp only; omega)
    have htry := BitReader.readUInt_bits (r := { r with pos := r.pos + 16 }) (k := 1) ⟨hok, by simp only; omega⟩
    simp only [htype, htry]
    by_cases hsmall : (Nat.ofBits fun i : Fin 8 => r.bits (8 + i)) ≤ 3
    · have hsecret := readBit_snd (r := { r with pos := r.pos + 24 }) hok h24
      rw [if_pos hsmall, or_iff_right (by omega), and_iff_right h24]
      simp only [Nat.add_assoc, Nat.reduceAdd, Nat.reduceMul, hsecret]
      constructor
      · intro hend
        have h160 := BitReader.readUInt_noError hend
        have h64 := BitReader.readUInt_noError h160.noError
        rw [BitReader.readUInt_bits h64] at h160
        have hmax := h160.le
        simp only [cookieByteSize] at hmax
        omega
      · intro h249
        have hmin : min (r.pos + (24 + 1)) r.max = r.pos + 25 := Nat.min_eq_left (by omega)
        have hstamp := BitReader.readUInt_bits (r := { r with pos := r.pos + 25 }) (k := 8) ⟨hok, by simp only; omega⟩
        have hcookie := BitReader.readUInt_bits (r := { r with pos := r.pos + 25 + 8 * 8 }) (k := cookieByteSize)
          ⟨hok, by simp only [cookieByteSize]; omega⟩
        rw [hmin, hstamp, hcookie]
        exact hok
    · rw [if_neg hsmall]
      exact iff_of_true hok ⟨h24, .inl (by omega)⟩
  · refine iff_of_false (fun hend => ?_) fun h => h24 h.1
    -- the number of tries does not fit any more
    have htry : ∀ header : BitReader, header.pos = min (r.pos + 8) r.max → header.max = r.max →
        ((header.readUInt 1).2.readUInt 1).2.arIsError = true := by
      intro header hpos hmax
      by_contra herr
      have h2 := BitReader.readUInt_noError (Bool.eq_false_iff.mpr herr)
      have h1 := BitReader.readUInt_noError h2.noError
      rw [BitReader.readUInt_bits h1] at h2
      have := h2.le
      simp only at this
      omega
    have herr := htry { r with pos := min (r.pos + 8) r.max } rfl rfl
    split at hend
    · have h160 := BitReader.readUInt_noError hend
      have h64 := BitReader.readUInt_noError h160.noError
      have hbitErr := h64.noError
      rw [UdpConnectionProcessor.readBit_error, herr] at hbitErr
      cases hbitErr
    · rw [herr] at hend
      cases hend

end

end RudpEngine

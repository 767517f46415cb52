import RudpEngine.Archive
import RudpEngine.SequenceHistory
import RudpEngine.SequenceNumber

/-!
# Packet notification

`NetPacketNotify`: which packets of the peer have arrived, what has been told
to the peer about them, and which of the own packets the peer has
acknowledged. Every packet carries the state of the receive history in its
header.
-/

namespace RudpEngine

def sequenceNumberBits : ℕ := 14

def maxSequenceHistoryLength : ℕ := 256

abbrev Seq := SequenceNumber 14

abbrev History := SequenceHistory 256

def Seq.ofInt (x : ℤ) : Seq := SequenceNumber.ofInt 14 x

structure NotificationHeader where
  history : History
  historyWordCount : ℕ
  seq : Seq
  ackedSeq : Seq
  deriving DecidableEq

structure NetPacketNotify where
  ackRecord : List (Seq × Seq)
  writtenHistoryWordCount : ℕ
  writtenInAckSeq : Seq
  inSeqHistory : History
  inSeq : Seq
  inAckSeq : Seq
  inAckSeqAck : Seq
  waitingForFlushSeqAck : Seq
  outSeq : Seq
  outAckSeq : Seq
  deriving DecidableEq

/-! ## The packed header -/

namespace PackedHeader

def historyWordCountMask : ℕ := 2 ^ 4 - 1

def seqMask : ℕ := 2 ^ 14 - 1

def pack (seq ackedSeq : Seq) (historyWordCount : ℕ) : ℕ :=
  (seq.value <<< 18) ||| (ackedSeq.value <<< 4) ||| (historyWordCount &&& historyWordCountMask)

def getSeq (packed : ℕ) : Seq := Seq.ofInt ((packed >>> 18) &&& seqMask : ℕ)

def getAckedSeq (packed : ℕ) : Seq := Seq.ofInt ((packed >>> 4) &&& seqMask : ℕ)

def getHistoryWordCount (packed : ℕ) : ℕ := packed &&& historyWordCountMask

theorem pack_eq (seq ackedSeq : Seq) (count : ℕ) :
    pack seq ackedSeq count = seq.value * 2 ^ 18 + (ackedSeq.value * 2 ^ 4 + count % 16) := by
  have hs := seq.lt
  have ha := ackedSeq.lt
  have hc : count &&& historyWordCountMask = count % 16 := Nat.and_two_pow_sub_one_eq_mod count 4
  have h4 : count % 16 < 2 ^ 4 := Nat.mod_lt _ (by decide)
  rw [pack, hc, Nat.or_assoc, ← Nat.shiftLeft_add_eq_or_of_lt h4, ← Nat.shiftLeft_add_eq_or_of_lt,
    Nat.shiftLeft_eq, Nat.shiftLeft_eq]
  rw [Nat.shiftLeft_eq]; omega

theorem pack_lt (seq ackedSeq : Seq) (count : ℕ) : pack seq ackedSeq count < 2 ^ 32 := by
  have hs := seq.lt
  have ha := ackedSeq.lt
  rw [pack_eq]; omega

theorem ofInt_value (s : Seq) : Seq.ofInt s.value = s := SequenceNumber.ofInt_value_self (by decide) s

theorem getSeq_pack (seq ackedSeq : Seq) (count : ℕ) : getSeq (pack seq ackedSeq count) = seq := by
  have hs := seq.lt
  have ha := ackedSeq.lt
  have hm : (pack seq ackedSeq count >>> 18) &&& seqMask = seq.value := by
    rw [seqMask, Nat.and_two_pow_sub_one_eq_mod, Nat.shiftRight_eq_div_pow, pack_eq]; omega
  rw [getSeq, hm, ofInt_value]

theorem getAckedSeq_pack (seq ackedSeq : Seq) (count : ℕ) : getAckedSeq (pack seq ackedSeq count) = ackedSeq := by
  have ha := ackedSeq.lt
  have hm : (pack seq ackedSeq count >>> 4) &&& seqMask = ackedSeq.value := by
    rw [seqMask, Nat.and_two_pow_sub_one_eq_mod, Nat.shiftRight_eq_div_pow, pack_eq]; omega
  rw [getAckedSeq, hm, ofInt_value]

theorem getHistoryWordCount_pack (seq ackedSeq : Seq) (count : ℕ) :
    getHistoryWordCount (pack seq ackedSeq count) = count % 16 := by
  rw [getHistoryWordCount, historyWordCountMask, Nat.and_two_pow_sub_one_eq_mod, pack_eq]; omega

end PackedHeader

/-! ## The history words -/

namespace SequenceHistory

variable {s : ℕ}

def write (h : SequenceHistory s) (writer : BitWriter) (numWords : ℕ) : BitWriter :=
  (h.storage.take numWords).foldl (fun w word => w.writeU32 word.toNat) writer

def readLoop (r : BitReader) : ℕ → List (BitVec 32) → List (BitVec 32) × BitReader
  | 0, ws => (ws, r)
  | _ + 1, [] => ([], r)
  | n + 1, _ :: ws =>
    let (v, r) := r.readUInt 4
    let (ws, r) := readLoop r n ws
    (BitVec.ofNat 32 v :: ws, r)

theorem readLoop_length : ∀ (r : BitReader) (n : ℕ) (ws : List (BitVec 32)), (readLoop r n ws).1.length = ws.length
  | _, 0, _ => rfl
  | _, _ + 1, [] => rfl
  | r, n + 1, _ :: ws => by simp only [readLoop, List.length_cons, readLoop_length _ n ws]

def read (h : SequenceHistory s) (r : BitReader) (numWords : ℕ) : SequenceHistory s × BitReader :=
  (⟨(readLoop r numWords h.storage).1, by rw [readLoop_length, h.size_eq]⟩, (readLoop r numWords h.storage).2)

/-- The first words of a history, the others zero: what a header carries of it. -/
def firstWords (h : SequenceHistory s) (n : ℕ) : SequenceHistory s :=
  ⟨h.storage.take n ++ List.replicate (s / bitsPerWord - n) 0, by
    rw [List.length_append, List.length_take, List.length_replicate, h.size_eq]; omega⟩

end SequenceHistory

namespace NetPacketNotify

/-- The state of a new object; `Init` sets every sequence number. -/
def new : NetPacketNotify :=
  ⟨[], 0, Seq.ofInt 0, SequenceHistory.reset 256, Seq.ofInt 0, Seq.ofInt 0, Seq.ofInt 0, Seq.ofInt 0, Seq.ofInt 0,
    Seq.ofInt 0⟩

variable (p : NetPacketNotify)

def init (initialInSeq initialOutSeq : Seq) : NetPacketNotify :=
  let outAckSeq := Seq.ofInt ((initialOutSeq.value : ℤ) - 1)
  { p with
    inSeqHistory := SequenceHistory.reset 256
    inSeq := initialInSeq
    inAckSeq := initialInSeq
    inAckSeqAck := initialInSeq
    outSeq := initialOutSeq
    outAckSeq := outAckSeq
    waitingForFlushSeqAck := outAckSeq
    ackRecord := [] }

/-! ## Sending -/

def getCurrentSequenceHistoryLength : ℕ :=
  if p.inAckSeq.ge p.inAckSeqAck then min (p.inAckSeq.diff p.inAckSeqAck).toNat maxSequenceHistoryLength
  else maxSequenceHistoryLength

/-- The `std::clamp` at the head of `WriteHeader`. -/
def currentHistoryWordCount : ℕ :=
  max 1 (min 8 ((p.getCurrentSequenceHistoryLength + bitsPerWord - 1) / bitsPerWord))

def writeHeader (writer : BitWriter) (bRefresh : Bool) : Bool × NetPacketNotify × BitWriter :=
  if bRefresh ∧ p.writtenHistoryWordCount < p.currentHistoryWordCount then (false, p, writer)
  else
    let count := if bRefresh then p.writtenHistoryWordCount else p.currentHistoryWordCount
    let writer := writer.writeU32 (PackedHeader.pack p.outSeq p.inAckSeq (count - 1))
    (true, { p with writtenHistoryWordCount := count, writtenInAckSeq := p.inAckSeq },
      p.inSeqHistory.write writer count)

def commitAndIncrementOutSeq : NetPacketNotify :=
  if p.writtenHistoryWordCount = 0 then p
  else
    { p with
      ackRecord := p.ackRecord ++ [(p.outSeq, p.writtenInAckSeq)]
      writtenHistoryWordCount := 0
      outSeq := p.outSeq.inc }

/-- The header as a value, and the object after it was written and committed. -/
def header : NotificationHeader :=
  ⟨p.inSeqHistory.firstWords p.currentHistoryWordCount, p.currentHistoryWordCount, p.outSeq, p.inAckSeq⟩

def sendHeader (writer : BitWriter) : NetPacketNotify :=
  (p.writeHeader writer false).2.1.commitAndIncrementOutSeq

/-! ## Receiving -/

def readHeader (r : BitReader) : Bool × NotificationHeader × BitReader :=
  let (packed, r) := r.readUInt 4
  let count := PackedHeader.getHistoryWordCount packed + 1
  let (history, r) := (SequenceHistory.reset 256).read r count
  (!r.arIsError, ⟨history, count, PackedHeader.getSeq packed, PackedHeader.getAckedSeq packed⟩, r)

def getSequenceDelta (h : NotificationHeader) : ℤ :=
  if h.seq.gt p.inSeq && h.ackedSeq.ge p.outAckSeq && p.outSeq.gt h.ackedSeq then h.seq.diff p.inSeq
  else 0

def isWaitingForSequenceHistoryFlush : Bool := p.waitingForFlushSeqAck.gt p.outAckSeq

/-- `UpdateInAckSeqAck`: the new `AckRecord` and the sequence number it returns. -/
def updateInAckSeqAck (ackCount : ℕ) (ackedSeq : Seq) : List (Seq × Seq) × Seq :=
  let fallback := Seq.ofInt ((ackedSeq.value : ℤ) - maxSequenceHistoryLength)
  if ackCount ≤ p.ackRecord.length then
    match p.ackRecord.drop (ackCount - 1) with
    | (outSeq, inAckSeq) :: rest => (rest, if outSeq = ackedSeq then inAckSeq else fallback)
    | [] => ([], fallback)
  else (p.ackRecord, fallback)

section
variable {σ : Type} (f : σ → Seq → Bool → σ)

/-- The first loop of `ProcessReceivedAcks`: what the history no longer holds is lost. -/
def reportLost (historyBits : ℕ) : ℕ → Seq → σ → ℕ × Seq × σ
  | 0, cur, s => (0, cur, s)
  | n + 1, cur, s =>
    if historyBits < n + 1 then reportLost historyBits n cur.inc (f s cur false) else (n + 1, cur, s)

/-- The second loop: the rest of the packets by their bits in the history. -/
def reportHistory (history : History) : ℕ → Seq → σ → σ
  | 0, _, s => s
  | n + 1, cur, s => reportHistory history n cur.inc (f s cur (history.isDelivered n))

/-- `ProcessReceivedAcks`; the functor is a function on the state `s` it captures. -/
def processReceivedAcks (h : NotificationHeader) (s : σ) : NetPacketNotify × σ :=
  if h.ackedSeq.gt p.outAckSeq then
    let ackCount := (h.ackedSeq.diff p.outAckSeq).toNat
    let (ackRecord, newInAckSeqAck) := p.updateInAckSeqAck ackCount h.ackedSeq
    let (ackCount, cur, s) := reportLost f (h.historyWordCount * bitsPerWord) ackCount p.outAckSeq.inc s
    let s := reportHistory f h.history ackCount cur s
    ({ p with
        ackRecord := ackRecord
        inAckSeqAck := if newInAckSeqAck.gt p.inAckSeqAck then newInAckSeqAck else p.inAckSeqAck
        outAckSeq := h.ackedSeq
        waitingForFlushSeqAck :=
          if h.ackedSeq.gt p.waitingForFlushSeqAck then h.ackedSeq else p.waitingForFlushSeqAck }, s)
  else (p, s)

end

def getHasUnacknowledgedAcks : Bool :=
  (List.range p.getCurrentSequenceHistoryLength).any p.inSeqHistory.isDelivered

def willSequenceFitInSequenceHistory (seq : Seq) : Bool :=
  seq.ge p.inAckSeqAck && decide (seq.diff p.inAckSeqAck ≤ maxSequenceHistoryLength)

def setWaitForSequenceHistoryFlush : NetPacketNotify := { p with waitingForFlushSeqAck := p.outSeq }

/-- The loop of `AckSeq`; a half range of rounds is enough for it to end by its condition. -/
def ackLoop (ackedSeq : Seq) (isAck : Bool) : ℕ → Seq → History → Seq × History
  | 0, inAckSeq, history => (inAckSeq, history)
  | fuel + 1, inAckSeq, history =>
    if ackedSeq.gt inAckSeq then
      let inAckSeq := inAckSeq.inc
      ackLoop ackedSeq isAck fuel inAckSeq
        (history.addDeliveryStatus (if inAckSeq = ackedSeq then isAck else false))
    else (inAckSeq, history)

def ackSeqWith (ackedSeq : Seq) (isAck : Bool) : NetPacketNotify :=
  let (inAckSeq, history) := ackLoop ackedSeq isAck (2 ^ (sequenceNumberBits - 1)) p.inAckSeq p.inSeqHistory
  { p with inAckSeq := inAckSeq, inSeqHistory := history }

def ackSeq (seq : Seq) : NetPacketNotify := p.ackSeqWith seq true

def nakSeq (seq : Seq) : NetPacketNotify := p.ackSeqWith seq false

/-- The head of `InternalUpdate`: where the packet does not fit into the window, the flush
mode is entered or, with nothing to flush, the window is moved. -/
def makeRoom (h : NotificationHeader) : NetPacketNotify :=
  if !p.isWaitingForSequenceHistoryFlush && !p.willSequenceFitInSequenceHistory h.seq then
    if p.getHasUnacknowledgedAcks then p.setWaitForSequenceHistoryFlush
    else { p with inAckSeqAck := Seq.ofInt ((h.seq.value : ℤ) - 1) }
  else p

def internalUpdate (h : NotificationHeader) (inSeqDelta : ℤ) : NetPacketNotify × ℤ :=
  let p := p.makeRoom h
  if !p.isWaitingForSequenceHistoryFlush then ({ p with inSeq := h.seq }, inSeqDelta)
  else
    let newInSeqToAck :=
      if !p.willSequenceFitInSequenceHistory h.seq && p.getHasUnacknowledgedAcks then
        Seq.ofInt (p.inAckSeqAck.value + (maxSequenceHistoryLength - p.getCurrentSequenceHistoryLength : ℤ))
      else h.seq
    if newInSeqToAck.ge p.inSeq then
      (({ p with inSeq := newInSeqToAck } : NetPacketNotify).ackSeqWith newInSeqToAck false,
        newInSeqToAck.diff p.inSeq)
    else (p, 0)

/-- `Update`; the functor is a function on the state it captures. -/
def update {σ : Type} (f : σ → Seq → Bool → σ) (h : NotificationHeader) (s : σ) : NetPacketNotify × ℤ × σ :=
  let inSeqDelta := p.getSequenceDelta h
  if 0 < inSeqDelta then
    let (p, s) := p.processReceivedAcks f h s
    let (p, delta) := p.internalUpdate h inSeqDelta
    (p, delta, s)
  else (p, 0, s)

end NetPacketNotify

end RudpEngine

import RudpEngine.PacketNotify

/-!
# Acknowledging a sequence number

`AckSeq` pushes one status for every packet between the newest one recorded and
the one it is called for: all but the last are lost.
-/

namespace RudpEngine

namespace SequenceHistory

variable {s : ℕ}

def missed : ℕ → SequenceHistory s → SequenceHistory s
  | 0, h => h
  | n + 1, h => missed n (h.addDeliveryStatus false)

theorem isDelivered_missed (hs : 32 ∣ s) : ∀ (n : ℕ) (h : SequenceHistory s) (i : ℕ), i < s →
    (missed n h).isDelivered i = if i < n then false else h.isDelivered (i - n)
  | 0, _, _, _ => by rw [if_neg (Nat.not_lt_zero _)]; rfl
  | n + 1, h, i, hi => by
    rw [missed, isDelivered_missed hs n _ i hi]
    by_cases hn : i < n
    · rw [if_pos hn, if_pos (by omega)]
    · rw [if_neg hn, isDelivered_push hs h false (by omega)]
      by_cases hin : i = n
      · rw [if_pos (by omega), if_pos (by omega)]
      · rw [if_neg (by omega), if_neg (by omega)]
        congr 1

/-- The history after `n` packets of which the last has the status `isAck`. -/
def recorded (isAck : Bool) : ℕ → SequenceHistory s → SequenceHistory s
  | 0, h => h
  | n + 1, h => (missed n h).addDeliveryStatus isAck

theorem isDelivered_recorded (hs : 32 ∣ s) (isAck : Bool) {n : ℕ} (hn : 0 < n) (h : SequenceHistory s) {i : ℕ} (hi : i < s) :
    (recorded isAck n h).isDelivered i = if i = 0 then isAck else if i < n then false else h.isDelivered (i - n) := by
  obtain ⟨m, rfl⟩ := Nat.exists_eq_succ_of_ne_zero (Nat.pos_iff_ne_zero.mp hn)
  rw [recorded, isDelivered_push hs _ isAck hi]
  by_cases h0 : i = 0
  · rw [if_pos h0, if_pos h0]
  · rw [if_neg h0, if_neg h0, isDelivered_missed hs m h (i - 1) (by omega)]
    by_cases hm : i < m + 1
    · rw [if_pos hm, if_pos (by omega)]
    · rw [if_neg hm, if_neg (by omega)]
      congr 1; omega

end SequenceHistory

namespace NetPacketNotify

theorem ackLoop_of_not_gt {q a : Seq} (h : q.gt a = false) (isAck : Bool) (fuel : ℕ) (hist : History) :
    ackLoop q isAck fuel a hist = (a, hist) := by
  cases fuel with
  | zero => rfl
  | succ fuel => rw [ackLoop, if_neg (by rw [h]; exact Bool.false_ne_true)]

/-- The loop pushes one status for every step up to the sequence number. -/
theorem ackLoop_eq (isAck : Bool) : ∀ (n : ℕ), n < 2 ^ 13 → ∀ (fuel : ℕ), n ≤ fuel → ∀ (x : ℤ) (hist : History),
    ackLoop (Seq.ofInt (x + n)) isAck fuel (Seq.ofInt x) hist =
      (Seq.ofInt (x + n), SequenceHistory.recorded isAck n hist)
  | 0, _, fuel, _, x, hist => by
    have hgt : (Seq.ofInt (x + (0 : ℕ))).gt (Seq.ofInt x) = false := by
      rw [Nat.cast_zero, Int.add_zero]
      exact (SequenceNumber.gt_ofInt (by decide) (x := x) (y := x) (by omega) (by omega)).trans (by simp)
    rw [ackLoop_of_not_gt hgt, Nat.cast_zero, Int.add_zero]
    rfl
  | n + 1, hn, fuel + 1, hfuel, x, hist => by
    have hgt : (Seq.ofInt (x + (n + 1 : ℕ))).gt (Seq.ofInt x) = true :=
      (SequenceNumber.gt_ofInt (by decide) (x := x + (n + 1 : ℕ)) (y := x) (by omega) (by omega)).trans (by simp)
    have hinc : (Seq.ofInt x).inc = Seq.ofInt (x + 1) := SequenceNumber.inc_ofInt (by decide) x
    have heq : Seq.ofInt (x + 1) = Seq.ofInt (x + (n + 1 : ℕ)) ↔ n = 0 := by
      rw [show (Seq.ofInt (x + 1) = Seq.ofInt (x + (n + 1 : ℕ)) ↔ _) from
        SequenceNumber.ofInt_inj (n := 14) (by decide) (by omega) (by omega)]
      omega
    have hx : x + ((n + 1 : ℕ) : ℤ) = x + 1 + (n : ℤ) := by push_cast; ring
    rw [ackLoop, if_pos hgt]
    simp only [hinc, heq]
    rw [hx, ackLoop_eq isAck n (by omega) fuel (by omega) (x + 1)]
    cases n with
    | zero => rfl
    | succ n => rfl

variable {p : NetPacketNotify}

theorem ackSeqWith_of_not_gt {q : Seq} (h : q.gt p.inAckSeq = false) (isAck : Bool) : p.ackSeqWith q isAck = p := by
  rw [ackSeqWith, ackLoop_of_not_gt h]

theorem ackSeqWith_eq {x : ℤ} (hx : p.inAckSeq = Seq.ofInt x) {n : ℕ} (hn : n < 2 ^ 13) (isAck : Bool) :
    p.ackSeqWith (Seq.ofInt (x + n)) isAck =
      { p with inAckSeq := Seq.ofInt (x + n), inSeqHistory := SequenceHistory.recorded isAck n p.inSeqHistory } := by
  rw [ackSeqWith, hx, ackLoop_eq isAck n hn _ (by rw [sequenceNumberBits]; omega)]

/-- A sequence number that is acknowledged is not ahead any more. -/
theorem gt_ackSeqWith (p : NetPacketNotify) (q : Seq) (isAck : Bool) : q.gt (p.ackSeqWith q isAck).inAckSeq = false := by
  cases hgt : q.gt p.inAckSeq with
  | false => rw [ackSeqWith_of_not_gt hgt, hgt]
  | true =>
    have hpos := (SequenceNumber.gt_iff_diff (by decide) _ _).mp hgt
    obtain ⟨-, hhi⟩ := SequenceNumber.diff_bounds (by decide) q p.inAckSeq
    obtain ⟨n, hn⟩ := Int.eq_ofNat_of_zero_le (le_of_lt hpos)
    have hx : p.inAckSeq = Seq.ofInt p.inAckSeq.value := (SequenceNumber.ofInt_value_self (by decide) _).symm
    have hq : q = Seq.ofInt (p.inAckSeq.value + n) := by
      have := SequenceNumber.ofInt_add_diff (n := 14) (by decide) q p.inAckSeq.value
      rw [SequenceNumber.ofInt_value_self (by decide)] at this
      rw [← hn]
      exact this.symm
    rw [hq, ackSeqWith_eq hx (by rw [hn] at hhi; omega)]
    exact (SequenceNumber.gt_ofInt (by decide) (x := p.inAckSeq.value + n) (y := p.inAckSeq.value + n)
      (by omega) (by omega)).trans (by simp)

end NetPacketNotify

end RudpEngine

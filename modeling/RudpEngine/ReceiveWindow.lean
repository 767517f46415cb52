import RudpEngine.AckEnumeration
import RudpEngine.ReceiveHistory
import Mathlib.Data.List.Induction

/-!
# The receive window

The packets of the peer that have a status in the receive history are the first
ones up to `InAckSeq`, those it is known to have been told about the first ones
up to `InAckSeqAck`, and `InSeq` is the newest. A header that is taken in keeps
every delivered packet the peer may not know of inside the history, as long as
the sequence numbers are less than their range apart.
-/

namespace RudpEngine

namespace Seq

variable (x y : ℤ)

def ahead (a b : Seq) : ℕ := (((a.value : ℤ) - b.value) % 2 ^ sequenceNumberBits).toNat

theorem sub_emod : (((Seq.ofInt x).value : ℤ) - (Seq.ofInt y).value) % 16384 = (x - y) % 16384 :=
  SequenceNumber.sub_value_emod (n := 14) (by decide) x y

theorem ahead_ofInt {x y : ℤ} {n : ℕ} (h : x - y = n) (hn : n < 2 ^ 14) : (Seq.ofInt x).ahead (Seq.ofInt y) = n := by
  have := sub_emod x y
  show (_ % 16384 : ℤ).toNat = n
  omega

theorem ofInt_eq_iff : Seq.ofInt x = Seq.ofInt y ↔ (x - y) % 16384 = 0 := by
  have := SequenceNumber.ofInt_eq_iff (n := 14) (by decide) x y
  rw [Seq.ofInt, Seq.ofInt, this, Int.emod_eq_emod_iff_emod_sub_eq_zero]
  rfl

theorem ge_iff : (Seq.ofInt x).ge (Seq.ofInt y) = true ↔ (x - y) % 16384 < 8192 := by
  rw [← sub_emod, SequenceNumber.ge, decide_eq_true_eq]
  rfl

theorem gt_iff : (Seq.ofInt x).gt (Seq.ofInt y) = true ↔ (x - y) % 16384 ≠ 0 ∧ (x - y) % 16384 < 8192 := by
  have hne : (Seq.ofInt x).value ≠ (Seq.ofInt y).value ↔ (x - y) % 16384 ≠ 0 := by
    rw [ne_eq, ← SequenceNumber.ext_iff, ofInt_eq_iff]
  rw [SequenceNumber.gt, Bool.and_eq_true, bne_iff_ne, hne, decide_eq_true_eq]
  have := sub_emod x y
  omega

theorem diff_of_lt {x y : ℤ} (h0 : -8192 ≤ x - y) (h1 : x - y < 8192) : (Seq.ofInt x).diff (Seq.ofInt y) = x - y :=
  SequenceNumber.diff_ofInt (n := 14) (by decide) h0 h1

end Seq

namespace SequenceHistory

def pushed (l : List Bool) : History := l.foldl addDeliveryStatus (reset 256)

theorem pushed_append (l l' : List Bool) : pushed (l ++ l') = l'.foldl addDeliveryStatus (pushed l) :=
  List.foldl_append

theorem isDelivered_pushed (l : List Bool) {i : ℕ} (hi : i < 256) :
    (pushed l).isDelivered i = true ↔ ∃ k, k + i + 1 = l.length ∧ l[k]? = some true := by
  have hnewest : (pushed l).isDelivered i = l.reverse.getD i false := isDelivered_foldl (by decide) l hi
  rw [hnewest, List.getD_eq_getElem?_getD]
  constructor
  · intro h
    have hlt : i < l.length := by
      by_contra hge
      rw [List.getElem?_eq_none (by rw [List.length_reverse]; omega)] at h
      cases h
    rw [List.getElem?_reverse hlt, List.getElem?_eq_getElem (by omega)] at h
    exact ⟨l.length - 1 - i, by omega, (List.getElem?_eq_getElem _).trans (congrArg some h)⟩
  · rintro ⟨k, hk, hget⟩
    obtain rfl : k = l.length - 1 - i := by omega
    rw [List.getElem?_reverse (by omega), hget]
    rfl

end SequenceHistory

namespace NetPacketNotify

open SequenceHistory

/-! ## What is recorded -/

/-- The statuses that the loop of `AckSeq` adds, each with the number it is about. -/
def statusLoop (ackedSeq : Seq) (isAck : Bool) : ℕ → Seq → List (Seq × Bool)
  | 0, _ => []
  | fuel + 1, inAckSeq =>
    if ackedSeq.gt inAckSeq then
      (inAckSeq.inc, if inAckSeq.inc = ackedSeq then isAck else false) :: statusLoop ackedSeq isAck fuel inAckSeq.inc
    else []

def statuses (p : NetPacketNotify) (ackedSeq : Seq) (isAck : Bool) : List (Seq × Bool) :=
  statusLoop ackedSeq isAck (2 ^ (sequenceNumberBits - 1)) p.inAckSeq

def flushStatuses (p : NetPacketNotify) (h : NotificationHeader) : List (Seq × Bool) :=
  if (p.makeRoom h).isWaitingForSequenceHistoryFlush ∧ ((p.makeRoom h).newInSeqToAck h).ge (p.makeRoom h).inSeq then
    (p.makeRoom h).statuses ((p.makeRoom h).newInSeqToAck h) false
  else []

theorem ackLoop_snd (ackedSeq : Seq) (isAck : Bool) : ∀ (fuel : ℕ) (inAckSeq : Seq) (hist : History),
    (ackLoop ackedSeq isAck fuel inAckSeq hist).2 =
      ((statusLoop ackedSeq isAck fuel inAckSeq).map Prod.snd).foldl addDeliveryStatus hist
  | 0, _, _ => rfl
  | fuel + 1, inAckSeq, hist => by
    unfold ackLoop statusLoop
    cases ackedSeq.gt inAckSeq with
    | true => exact ackLoop_snd ackedSeq isAck fuel _ _
    | false => rfl

def marks (isAck : Bool) : ℕ → List Bool
  | 0 => []
  | n + 1 => List.replicate n false ++ [isAck]

@[simp] theorem length_marks (isAck : Bool) (n : ℕ) : (marks isAck n).length = n := by
  cases n <;> simp [marks]

theorem getElem?_append_marks {l : List Bool} {isAck : Bool} {n k : ℕ} :
    (l ++ marks isAck n)[k]? = some true ↔ l[k]? = some true ∨ isAck = true ∧ 0 < n ∧ k + 1 = l.length + n := by
  rcases Nat.lt_or_ge k l.length with hk | hk
  · rw [List.getElem?_append_left hk]
    exact (or_iff_left (by omega)).symm
  · rw [List.getElem?_append_right hk, List.getElem?_eq_none hk]
    cases n with
    | zero => simp [marks]
    | succ n =>
      simp only [marks, List.getElem?_append, List.length_replicate, List.getElem?_replicate]
      by_cases hlt : k - l.length < n
      · simp only [hlt, if_true]
        simp
        omega
      · simp only [hlt, if_false]
        by_cases heq : k - l.length = n
        · rw [heq, Nat.sub_self]
          simp
          omega
        · rw [List.getElem?_eq_none (by rw [List.length_singleton]; omega)]
          simp
          omega

theorem statusLoop_of_not_gt {q a : Seq} (h : q.gt a = false) (isAck : Bool) (fuel : ℕ) : statusLoop q isAck fuel a = [] := by
  cases fuel with
  | zero => rfl
  | succ fuel => rw [statusLoop, if_neg (by rw [h]; exact Bool.false_ne_true)]

theorem statusLoop_eq (isAck : Bool) : ∀ (n : ℕ), n < 2 ^ 13 → ∀ (fuel : ℕ), n ≤ fuel → ∀ (x : ℤ),
    (statusLoop (Seq.ofInt (x + n)) isAck fuel (Seq.ofInt x)).map Prod.fst = numbersFrom (x + 1) n ∧
      (statusLoop (Seq.ofInt (x + n)) isAck fuel (Seq.ofInt x)).map Prod.snd = marks isAck n
  | 0, _, fuel, _, x => by
    have hgt : (Seq.ofInt (x + (0 : ℕ))).gt (Seq.ofInt x) = false := by
      rw [← Bool.not_eq_true, Seq.gt_iff]
      omega
    rw [statusLoop_of_not_gt hgt]
    exact ⟨rfl, rfl⟩
  | n + 1, hn, fuel + 1, hfuel, x => by
    have hgt : (Seq.ofInt (x + (n + 1 : ℕ))).gt (Seq.ofInt x) = true := by
      rw [Seq.gt_iff]
      omega
    have hinc : (Seq.ofInt x).inc = Seq.ofInt (x + 1) := SequenceNumber.inc_ofInt (by decide) x
    have heq : Seq.ofInt (x + 1) = Seq.ofInt (x + (n + 1 : ℕ)) ↔ n = 0 := by
      rw [Seq.ofInt_eq_iff]
      omega
    have hx : x + ((n + 1 : ℕ) : ℤ) = x + 1 + (n : ℤ) := by push_cast; ring
    obtain ⟨hfst, hsnd⟩ := statusLoop_eq isAck n (by omega) fuel (by omega) (x + 1)
    rw [statusLoop, if_pos hgt]
    simp only [hinc, heq, List.map_cons]
    rw [hx, hfst, hsnd]
    refine ⟨?_, ?_⟩
    · rw [Nat.add_comm n 1, numbersFrom_add (x + 1) 1 n]
      simp [numbersFrom]
    · cases n with
      | zero => rfl
      | succ n => rfl

/-! ## The window -/

/-- The packets of the peer from `first` on: `l` are the statuses recorded, `i` have come up to the newest one, and of the
first `w` the peer has been told. -/
structure Placed (first : ℤ) (l : List Bool) (i w : ℕ) (p : NetPacketNotify) : Prop where
  inSeq : p.inSeq = Seq.ofInt (first + i - 1)
  inAckSeq : p.inAckSeq = Seq.ofInt (first + l.length - 1)
  inAckSeqAck : p.inAckSeqAck = Seq.ofInt (first + w - 1)
  history : p.inSeqHistory = pushed l

/-- A window that is longer than the history has been flushed: nothing in it is delivered. -/
structure Window (l : List Bool) (i w : ℕ) : Prop where
  recorded : l.length ≤ i
  le : w ≤ i
  pending : l.length < i → w < i
  near : i < w + 2 ^ 14
  flushed : w + 256 < i → l.length = i ∧ ∀ k, l[k]? = some true → k < w

variable {first : ℤ} {l : List Bool} {i w : ℕ} {p p' : NetPacketNotify} {h : NotificationHeader} {x : ℕ}

theorem Placed.congr (hp : Placed first l i w p) (h1 : p'.inSeq = p.inSeq) (h2 : p'.inAckSeq = p.inAckSeq)
    (h3 : p'.inAckSeqAck = p.inAckSeqAck) (h4 : p'.inSeqHistory = p.inSeqHistory) : Placed first l i w p' :=
  ⟨h1.trans hp.inSeq, h2.trans hp.inAckSeq, h3.trans hp.inAckSeqAck, h4.trans hp.history⟩

theorem Window.reach_le (hw : Window l i w) {k : ℕ} (hk : l[k]? = some true) (hle : w ≤ k) : i ≤ k + 256 := by
  by_contra hfar
  have := (hw.flushed (by omega)).2 k hk
  omega

theorem lt_of_getElem? {k : ℕ} (hk : l[k]? = some true) : k < l.length :=
  (List.getElem?_eq_some_iff.mp hk).1

theorem Placed.willSequenceFitInSequenceHistory (hp : Placed first l i w p) (hw : Window l i w) (hix : i ≤ x) (hx : x + 1 < w + 2 ^ 14) :
    p.willSequenceFitInSequenceHistory (Seq.ofInt (first + x)) = decide (x + 1 ≤ w + 256) := by
  have hle := hw.le
  have hge := Seq.ge_iff (first + x) (first + w - 1)
  unfold NetPacketNotify.willSequenceFitInSequenceHistory
  rw [hp.inAckSeqAck, maxSequenceHistoryLength]
  by_cases hcmp : (Seq.ofInt (first + x)).ge (Seq.ofInt (first + w - 1)) = true
  · have hlt := hge.mp hcmp
    rw [hcmp, Bool.true_and, Seq.diff_of_lt (by omega) (by omega), decide_eq_decide]
    omega
  · have hlt := mt hge.mpr hcmp
    rw [Bool.eq_false_iff.mpr hcmp, Bool.false_and, eq_comm, decide_eq_false_iff_not]
    omega

section
variable (hp : Placed first l i w p) (hw : Window l i w) (hnear : i < l.length + 2 ^ 13)
include hp hw hnear

theorem Placed.getCurrentSequenceHistoryLength :
    p.getCurrentSequenceHistoryLength = if w ≤ l.length then min (l.length - w) 256 else 256 := by
  have hrecorded := hw.recorded
  have hle := hw.le
  have hfar := hw.near
  have hge := Seq.ge_iff (first + l.length - 1) (first + w - 1)
  unfold NetPacketNotify.getCurrentSequenceHistoryLength
  rw [hp.inAckSeq, hp.inAckSeqAck, maxSequenceHistoryLength]
  -- from half a range on the comparison takes the window for negative, and the length is the same
  by_cases hcmp : (Seq.ofInt (first + l.length - 1)).ge (Seq.ofInt (first + w - 1)) = true
  · have hlt := hge.mp hcmp
    rw [if_pos hcmp, Seq.diff_of_lt (by omega) (by omega)]
    split_ifs <;> omega
  · have hlt := mt hge.mpr hcmp
    rw [if_neg hcmp]
    split_ifs <;> omega

theorem Placed.getHasUnacknowledgedAcks : p.getHasUnacknowledgedAcks = true ↔
    ∃ k, l[k]? = some true ∧ l.length ≤ k + if w ≤ l.length then min (l.length - w) 256 else 256 := by
  unfold NetPacketNotify.getHasUnacknowledgedAcks
  rw [hp.getCurrentSequenceHistoryLength hw hnear, List.any_eq_true, hp.history]
  have hlen : (if w ≤ l.length then min (l.length - w) 256 else 256) ≤ 256 := by
    split_ifs <;> omega
  generalize (if w ≤ l.length then min (l.length - w) 256 else 256) = n at hlen
  constructor
  · rintro ⟨j, hj, hbit⟩
    have hj := List.mem_range.mp hj
    obtain ⟨k, hk, hget⟩ := (isDelivered_pushed l (by omega)).mp hbit
    exact ⟨k, hget, by omega⟩
  · rintro ⟨k, hget, hk⟩
    have hlt := lt_of_getElem? hget
    refine ⟨l.length - k - 1, List.mem_range.mpr (by omega), ?_⟩
    exact (isDelivered_pushed l (by omega)).mpr ⟨k, by omega, hget⟩

/-- Without unacknowledged acks the peer knows of every delivered packet. -/
theorem Placed.lt_of_not_unacknowledged (hun : p.getHasUnacknowledgedAcks = false) {k : ℕ} (hk : l[k]? = some true) :
    k < w := by
  by_contra hle
  have hreach := hw.reach_le hk (by omega)
  have hlt := lt_of_getElem? hk
  have hrecorded := hw.recorded
  rw [← Bool.not_eq_true, hp.getHasUnacknowledgedAcks hw hnear] at hun
  exact hun ⟨k, hk, by rw [if_pos (by omega)]; omega⟩

/-- With unacknowledged acks the window is not longer than the history. -/
theorem Placed.le_of_unacknowledged (hun : p.getHasUnacknowledgedAcks = true) : i ≤ w + 256 := by
  by_contra hlt
  obtain ⟨hlen, hbelow⟩ := hw.flushed (by omega)
  obtain ⟨k, hk, hle⟩ := (hp.getHasUnacknowledgedAcks hw hnear).mp hun
  have := hbelow k hk
  rw [if_pos (by omega)] at hle
  omega

end

/-! ## One header -/

theorem Placed.ackSeqWith (hp : Placed first l i w p) {n : ℕ} (hle : l.length ≤ n) (hnear : n < l.length + 2 ^ 13) (isAck : Bool) :
    Placed first (l ++ marks isAck (n - l.length)) i w (p.ackSeqWith (Seq.ofInt (first + n - 1)) isAck) ∧
      (p.statuses (Seq.ofInt (first + n - 1)) isAck).map Prod.fst = numbersFrom (first + l.length) (n - l.length) ∧
      (p.statuses (Seq.ofInt (first + n - 1)) isAck).map Prod.snd = marks isAck (n - l.length) := by
  have hn : first + (n : ℤ) - 1 = first + l.length - 1 + (n - l.length : ℕ) := by omega
  obtain ⟨hfst, hsnd⟩ := statusLoop_eq isAck (n - l.length) (by omega) (2 ^ (sequenceNumberBits - 1))
    (by rw [sequenceNumberBits]; omega) (first + l.length - 1)
  have hloop := ackLoop_snd (Seq.ofInt (first + n - 1)) isAck (2 ^ (sequenceNumberBits - 1)) p.inAckSeq p.inSeqHistory
  have hlast := congrArg NetPacketNotify.inAckSeq (ackSeqWith_eq hp.inAckSeq (by omega : n - l.length < 2 ^ 13) isAck)
  rw [← hn] at hfst hsnd hlast
  unfold statuses
  rw [hp.inAckSeq] at hloop ⊢
  refine ⟨⟨hp.inSeq, ?_, hp.inAckSeqAck, ?_⟩, ?_, hsnd⟩
  · rw [hlast, List.length_append, length_marks]
    show Seq.ofInt _ = Seq.ofInt _
    congr 1
    omega
  · unfold NetPacketNotify.ackSeqWith
    rw [hp.inAckSeq]
    exact hloop.trans (by rw [hsnd, hp.history, pushed_append])
  · rw [hfst]
    congr 1
    omega

theorem ofInt_value_add (y c : ℤ) : Seq.ofInt ((Seq.ofInt y).value + c) = Seq.ofInt (y + c) := by
  have hvalue := SequenceNumber.ofInt_value (n := 14) (by decide) y
  rw [Seq.ofInt_eq_iff, show ((Seq.ofInt y).value : ℤ) = y % 16384 from hvalue]
  omega

/-- The head of `InternalUpdate` either leaves the window, or moves it up to the packet; outside the flush mode the packet
fits then. -/
theorem Placed.makeRoom (hp : Placed first l i w p) (hw : Window l i w) (hout : p.outSeq.gt p.outAckSeq = true)
    (hx : h.seq = Seq.ofInt (first + x)) (hix : i ≤ x) (hfar : x + 1 < w + 2 ^ 14) (hnear : i < l.length + 2 ^ 13) :
    Placed first l i w (p.makeRoom h) ∧ ((p.makeRoom h).isWaitingForSequenceHistoryFlush = false → x + 1 ≤ w + 256) ∨
      Placed first l i x (p.makeRoom h) ∧ (p.makeRoom h).isWaitingForSequenceHistoryFlush = false ∧
        ∀ k, l[k]? = some true → k < w := by
  have hfit := hp.willSequenceFitInSequenceHistory hw hix hfar
  rw [← hx] at hfit
  unfold NetPacketNotify.makeRoom
  cases hwait : p.isWaitingForSequenceHistoryFlush with
  | true =>
    left
    refine ⟨hp, fun hf => ?_⟩
    simp [hwait] at hf
  | false =>
    by_cases hroom : x + 1 ≤ w + 256
    · left
      rw [hfit, decide_eq_true hroom]
      exact ⟨hp, fun _ => hroom⟩
    · rw [hfit, decide_eq_false hroom]
      cases hun : p.getHasUnacknowledgedAcks with
      | true =>
        left
        exact ⟨hp.congr rfl rfl rfl rfl, fun hf => absurd (hout.symm.trans hf) (by decide)⟩
      | false =>
        right
        refine ⟨⟨hp.inSeq, hp.inAckSeq, ?_, hp.history⟩, hwait, fun k => hp.lt_of_not_unacknowledged hw hnear hun⟩
        show Seq.ofInt ((h.seq.value : ℤ) - 1) = _
        rw [hx, Int.sub_eq_add_neg, ofInt_value_add]
        rfl

/-- The flush mode takes as lost what the history has room for, or everything up to the packet. -/
theorem Placed.newInSeqToAck (hp : Placed first l i w p) (hw : Window l i w) (hx : h.seq = Seq.ofInt (first + x)) (hix : i ≤ x)
    (hfar : x + 1 < w + 2 ^ 14) (hnear : x + 1 < l.length + 2 ^ 13) :
    ∃ m : ℕ, p.newInSeqToAck h = Seq.ofInt (first + m - 1) ∧ i ≤ m + 256 ∧ m ≤ x + 1 ∧ m < l.length + 2 ^ 13 ∧
      (m ≤ w + 256 ∨ ∀ k, l[k]? = some true → k < w) := by
  have hnear' : i < l.length + 2 ^ 13 := by omega
  have hfit := hp.willSequenceFitInSequenceHistory hw hix hfar
  have hlast : h.seq = Seq.ofInt (first + (x + 1 : ℕ) - 1) := by
    rw [hx, Nat.cast_succ, ← Int.add_assoc, Int.add_sub_cancel]
  rw [← hx] at hfit
  unfold NetPacketNotify.newInSeqToAck
  rw [hfit]
  by_cases hroom : x + 1 ≤ w + 256
  · rw [decide_eq_true hroom]
    exact ⟨x + 1, hlast, by omega, Nat.le_refl _, hnear, .inl hroom⟩
  · rw [decide_eq_false hroom]
    cases hun : p.getHasUnacknowledgedAcks with
    | false =>
      exact ⟨x + 1, hlast, by omega, Nat.le_refl _, hnear, .inr fun k => hp.lt_of_not_unacknowledged hw hnear' hun⟩
    | true =>
      have hle := hp.le_of_unacknowledged hw hnear' hun
      have hwi := hw.le
      rw [hp.getCurrentSequenceHistoryLength hw hnear']
      refine ⟨w + (256 - if w ≤ l.length then min (l.length - w) 256 else 256), ?_, ?_⟩
      · simp only [Bool.not_false, Bool.and_self, if_true]
        rw [hp.inAckSeqAck, ofInt_value_add, maxSequenceHistoryLength]
        congr 1
        split_ifs <;> omega
      · split_ifs <;> omega

/-- What a header of packet `x` makes of the window: some packets are recorded as lost, and no delivered one leaves it. -/
structure Moved (l : List Bool) (i w x n i' w' : ℕ) : Prop where
  window : Window (l ++ marks false n) i' w'
  le : i ≤ i'
  le_seq : i' ≤ x + 1
  kept : ∀ k, l[k]? = some true → k < w' → k < w

theorem Placed.flushed (hp : Placed first l i w (p.makeRoom h)) (hwait : (p.makeRoom h).isWaitingForSequenceHistoryFlush = true)
    {m : ℕ} (hm : (p.makeRoom h).newInSeqToAck h = Seq.ofInt (first + m - 1)) (him : i ≤ m) (hnear : m < i + 2 ^ 13)
    (hmnear : m < l.length + 2 ^ 13) (hrecorded : l.length ≤ i) (d : ℤ) :
    Placed first (l ++ marks false (m - l.length)) m w (p.internalUpdate h d).1 ∧
      (p.flushStatuses h).map Prod.fst = numbersFrom (first + l.length) (m - l.length) ∧
      (p.flushStatuses h).map Prod.snd = marks false (m - l.length) := by
  have hge := (Seq.ge_iff (first + m - 1) (first + i - 1)).mpr (by omega)
  have hbegun : Placed first l m w { p.makeRoom h with inSeq := Seq.ofInt (first + m - 1) } :=
    ⟨rfl, hp.inAckSeq, hp.inAckSeqAck, hp.history⟩
  obtain ⟨hacked, hfst, hsnd⟩ := hbegun.ackSeqWith (by omega) hmnear false
  unfold flushStatuses
  rw [internalUpdate_of_waiting _ hwait, hm, hp.inSeq, if_pos hge, if_pos ⟨hwait, hge⟩]
  exact ⟨hacked, hfst, hsnd⟩

theorem window_accepted (hle : l.length ≤ x) (hw : w ≤ x) (hfits : x + 1 ≤ w + 256) : Window l (x + 1) w :=
  ⟨by omega, by omega, by omega, by omega, by omega⟩

theorem Placed.internalUpdate (hp : Placed first l i w p) (hw : Window l i w) (hout : p.outSeq.gt p.outAckSeq = true)
    (hx : h.seq = Seq.ofInt (first + x)) (hix : i ≤ x) (hfar : x + 1 < w + 2 ^ 14) (hnear : x + 1 < l.length + 2 ^ 13) (d : ℤ) :
    ∃ n i' w', Placed first (l ++ marks false n) i' w' (p.internalUpdate h d).1 ∧ Moved l i w x n i' w' ∧
      (p.flushStatuses h).map Prod.fst = numbersFrom (first + l.length) n ∧
      (p.flushStatuses h).map Prod.snd = marks false n := by
  have hrecorded := hw.recorded
  have hwi := hw.le
  have hroom := hp.makeRoom hw hout hx hix hfar (by omega)
  have hnone : l ++ marks false 0 = l := List.append_nil l
  unfold flushStatuses
  cases hwait : (p.makeRoom h).isWaitingForSequenceHistoryFlush with
  | false =>
    have hseq : h.seq = Seq.ofInt (first + (x + 1 : ℕ) - 1) := by
      rw [hx, Nat.cast_succ, ← Int.add_assoc, Int.add_sub_cancel]
    rw [internalUpdate_of_not_waiting _ _ _ hwait, if_neg (by simp)]
    rcases hroom with ⟨hplaced, hfits⟩ | ⟨hplaced, -, hbelow⟩
    · refine ⟨0, x + 1, w, ?_, ⟨?_, Nat.le_succ_of_le hix, Nat.le_refl _, fun _ _ hk => hk⟩, rfl, rfl⟩
      · rw [hnone]
        exact ⟨hseq, hplaced.inAckSeq, hplaced.inAckSeqAck, hplaced.history⟩
      · rw [hnone]
        exact window_accepted (by omega) (by omega) (hfits hwait)
    · refine ⟨0, x + 1, x, ?_, ⟨?_, Nat.le_succ_of_le hix, Nat.le_refl _, fun k hk _ => hbelow k hk⟩, rfl, rfl⟩
      · rw [hnone]
        exact ⟨hseq, hplaced.inAckSeq, hplaced.inAckSeqAck, hplaced.history⟩
      · rw [hnone]
        exact window_accepted (by omega) (Nat.le_refl x) (by omega)
  | true =>
    have hplaced : Placed first l i w (p.makeRoom h) := by
      rcases hroom with ⟨hplaced, -⟩ | ⟨-, hnot, -⟩
      · exact hplaced
      · rw [hwait] at hnot
        cases hnot
    obtain ⟨m, hm, him, hmx, hmnear, hroom⟩ := hplaced.newInSeqToAck hw hx hix hfar hnear
    by_cases him' : i ≤ m
    · obtain ⟨hflushed, hfst, hsnd⟩ := hplaced.flushed hwait hm him' (by omega) hmnear hrecorded d
      rw [flushStatuses, hwait] at hfst hsnd
      refine ⟨m - l.length, m, w, hflushed, ⟨⟨?_, ?_, ?_, ?_, ?_⟩, him', hmx, fun _ _ hk => hk⟩, hfst, hsnd⟩
      · rw [List.length_append, length_marks]
        omega
      · omega
      · rw [List.length_append, length_marks]
        omega
      · omega
      · rw [List.length_append, length_marks]
        intro hlong
        refine ⟨by omega, fun k hk => ?_⟩
        rcases getElem?_append_marks.mp hk with hk | ⟨hf, -⟩
        · exact (hroom.resolve_left (by omega)) k hk
        · cases hf
    · have hge := mt (Seq.ge_iff (first + m - 1) (first + i - 1)).mp (by omega)
      rw [internalUpdate_of_waiting _ hwait, hm, hplaced.inSeq, if_neg hge, if_neg (fun hc => hge hc.2)]
      refine ⟨0, i, w, ?_, ⟨?_, Nat.le_refl _, by omega, fun _ _ hk => hk⟩, rfl, rfl⟩
      · rw [hnone]
        exact hplaced
      · rw [hnone]
        exact hw

end NetPacketNotify

end RudpEngine

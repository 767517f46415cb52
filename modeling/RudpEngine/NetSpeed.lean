import Mathlib.Algebra.Group.Nat.Defs
import Mathlib.Data.List.Induction
import Mathlib.Logic.Function.Basic
import Mathlib.Tactic.Common

/-!
# The reliability self-test

The peer numbers its `NMT_NetSpeed` messages, and the handler compares each
number with the one it expects next. Behind a message that keeps the order the
expected number is its successor, behind one that breaks it the number itself:
the branch of the mismatch does not add one.
-/

namespace RudpEngine

@[ext] structure RUdpStatus where
  expectedReliable : BitVec 32
  totalPacket : BitVec 32
  passCount : BitVec 32
  failCount : BitVec 32
deriving DecidableEq, Repr

namespace RUdpStatus

def new : RUdpStatus := ⟨-1, 0, 0, 0⟩

/-- `Protocol_NMT_NetSpeed` on the status of the connection. The field of the message is a `uint64`: a store cuts it to
the `int`, a comparison widens the `int` with its sign. -/
def protocolNMTNetSpeed (status : RUdpStatus) (lastAckedPacketTime : BitVec 64) : RUdpStatus :=
  let status := { status with totalPacket := status.totalPacket + 1 }
  if status.expectedReliable = -1 then
    { status with
      expectedReliable := lastAckedPacketTime.setWidth 32 + 1
      passCount := status.passCount + 1 }
  else if status.expectedReliable.signExtend 64 = lastAckedPacketTime then
    { status with
      passCount := status.passCount + 1
      expectedReliable := status.expectedReliable + 1 }
  else
    { status with
      failCount := status.failCount + 1
      expectedReliable := lastAckedPacketTime.setWidth 32 }

end RUdpStatus

/-- `ConnectionRUDPMap`; its `operator[]` builds the entry that is not there. -/
abbrev ConnectionRUDPMap := BitVec 32 → RUdpStatus

def ConnectionRUDPMap.protocolNMTNetSpeed (map : ConnectionRUDPMap) (connectionId : BitVec 32)
    (lastAckedPacketTime : BitVec 64) : Bool × ConnectionRUDPMap :=
  (true, Function.update map connectionId ((map connectionId).protocolNMTNetSpeed lastAckedPacketTime))

def ControlProtocolServerHandler.protocolNMTNetSpeed := ConnectionRUDPMap.protocolNMTNetSpeed

/-- It also logs the mismatch. -/
def ControlProtocolClientHandler.protocolNMTNetSpeed := ConnectionRUDPMap.protocolNMTNetSpeed

inductive SelfTest
  | gameServer
  | remoteServer

def SelfTest.protocolNMTNetSpeed : SelfTest → ConnectionRUDPMap → BitVec 32 → BitVec 64 → Bool × ConnectionRUDPMap
  | .gameServer => ControlProtocolServerHandler.protocolNMTNetSpeed
  | .remoteServer => ControlProtocolClientHandler.protocolNMTNetSpeed

/-- The map behind some messages, each with the connection it came from. -/
def SelfTest.handled (program : SelfTest) (messages : List (BitVec 32 × BitVec 64)) : ConnectionRUDPMap :=
  messages.foldl (fun map m => (program.protocolNMTNetSpeed map m.1 m.2).2) fun _ => .new

def numbersOf (connectionId : BitVec 32) (messages : List (BitVec 32 × BitVec 64)) : List (BitVec 64) :=
  (messages.filter fun m => m.1 = connectionId).map Prod.snd

/-! ## What the counters are to say -/

def OutOfOrder (m m' : BitVec 64) : Prop := m'.toNat ≠ m.toNat + 1

instance (m m' : BitVec 64) : Decidable (OutOfOrder m m') := inferInstanceAs (Decidable (_ ≠ _))

def Breaks (ms : List (BitVec 64)) (m : BitVec 64) : Prop := ∃ last ∈ ms.getLast?, OutOfOrder last m

instance (ms : List (BitVec 64)) (m : BitVec 64) : Decidable (Breaks ms m) :=
  match h : ms.getLast? with
  | none => isFalse (by rintro ⟨x, hx, _⟩; rw [h] at hx; cases hx)
  | some x => decidable_of_iff (OutOfOrder x m) (by simp [Breaks, h])

/-- The positions from the second on that break the order. -/
def orderViolations : List (BitVec 64) → ℕ
  | m :: m' :: ms => (if OutOfOrder m m' then 1 else 0) + orderViolations (m' :: ms)
  | _ => 0

namespace RUdpStatus

/-- The counters say how many numbers there were and how many of them broke the order. -/
structure Counts (status : RUdpStatus) (ms : List (BitVec 64)) : Prop where
  totalPacket : status.totalPacket.toInt = ms.length
  passCount : status.passCount.toInt + status.failCount.toInt = status.totalPacket.toInt
  failCount : status.failCount.toInt = orderViolations ms

end RUdpStatus

def awaited (ms : List (BitVec 64)) (m : BitVec 64) : BitVec 32 := m.setWidth 32 + if Breaks ms m then 0 else 1

/-- The comparison of `m'` with `awaited` tells whether it is the successor of `m`: if every number passes it has to be,
and if the awaited number is not the successor, neither of the two comes. -/
def Told (awaited : BitVec 32) (m m' : BitVec 64) : Prop :=
  if awaited = -1 then ¬ OutOfOrder m m'
  else (awaited.signExtend 64).toNat = m.toNat + 1 ∨ OutOfOrder m m' ∧ m' ≠ awaited.signExtend 64

def AllTold (ms : List (BitVec 64)) : Prop :=
  ∀ before m m', before ++ [m, m'] <+: ms → Told (awaited before m) m m'

section

variable {ms : List (BitVec 64)} {m m' : BitVec 64}

theorem breaks_concat : Breaks (ms ++ [m]) m' ↔ OutOfOrder m m' := by simp [Breaks]

theorem orderViolations_concat :
    orderViolations (ms ++ [m]) = orderViolations ms + if Breaks ms m then 1 else 0 := by
  induction ms with
  | nil => simp [orderViolations, Breaks]
  | cons x ms ih =>
    cases ms with
    | nil => simp [orderViolations, Breaks]
    | cons y ms =>
      have hb : Breaks (x :: y :: ms) m ↔ Breaks (y :: ms) m := by simp [Breaks, List.getLast?_cons_cons]
      simp only [List.cons_append, orderViolations, hb] at ih ⊢
      rw [ih, Nat.add_assoc]

theorem told_iff {a : BitVec 32} : Told a m m' ↔ ((a = -1 ∨ a.signExtend 64 = m') ↔ ¬ OutOfOrder m m') := by
  unfold Told OutOfOrder
  by_cases ha : a = -1
  · simp [ha]
  rw [if_neg ha, or_iff_right ha, not_not, eq_comm (a := a.signExtend 64)]
  have heq : m' = a.signExtend 64 ↔ m'.toNat = (a.signExtend 64).toNat := BitVec.toNat_inj.symm
  rw [ne_eq, heq]
  grind

theorem allTold_concat : AllTold (ms ++ [m']) ↔
    AllTold ms ∧ ∀ before m, ms = before ++ [m] → Told (awaited before m) m m' := by
  constructor
  · intro h
    refine ⟨fun before m x hx => h before m x (hx.trans (List.prefix_append ms [m'])), ?_⟩
    rintro before m rfl
    exact h before m m' (by simp)
  · rintro ⟨h, hlast⟩ before m x hx
    rw [List.append_cons, ← List.singleton_append, List.prefix_concat_iff] at hx
    rcases hx with hx | hx
    · obtain ⟨hms, hm⟩ := List.append_inj' hx rfl
      rw [List.singleton_inj] at hm
      subst hm
      exact hlast before m hms.symm
    · exact h before m x (by simpa using hx)

end

/-! ## The counters along the numbers of a connection -/

namespace RUdpStatus

variable {status : RUdpStatus} {ms : List (BitVec 64)} {m : BitVec 64} {violations : ℕ}

def Passes (status : RUdpStatus) (m : BitVec 64) : Prop :=
  status.expectedReliable = -1 ∨ status.expectedReliable.signExtend 64 = m

instance (status : RUdpStatus) (m : BitVec 64) : Decidable (status.Passes m) := inferInstanceAs (Decidable (_ ∨ _))

theorem protocolNMTNetSpeed_of_passes (h : status.Passes m) : status.protocolNMTNetSpeed m =
    ⟨m.setWidth 32 + 1, status.totalPacket + 1, status.passCount + 1, status.failCount⟩ := by
  unfold protocolNMTNetSpeed
  by_cases hfirst : status.expectedReliable = -1
  · simp [hfirst]
  · obtain rfl := h.resolve_left hfirst
    have hcut : (status.expectedReliable.signExtend 64).setWidth 32 = status.expectedReliable := by
      ext i hi
      have hi' : i < 64 := by omega
      simp [BitVec.getElem_signExtend, hi, hi']
    simp only [if_neg hfirst, if_true, hcut]

theorem protocolNMTNetSpeed_of_not_passes (h : ¬ status.Passes m) : status.protocolNMTNetSpeed m =
    ⟨m.setWidth 32, status.totalPacket + 1, status.passCount, status.failCount + 1⟩ := by
  obtain ⟨hfirst, hne⟩ := not_or.mp h
  simp only [protocolNMTNetSpeed, if_neg hfirst, if_neg hne]

def counted (ms : List (BitVec 64)) : RUdpStatus := ms.foldl protocolNMTNetSpeed new

theorem counted_concat : counted (ms ++ [m]) = (counted ms).protocolNMTNetSpeed m := by simp [counted]

structure Tallies (status : RUdpStatus) (numbers failures : ℕ) : Prop where
  totalPacket : status.totalPacket = BitVec.ofNat 32 numbers
  passCount : status.passCount = BitVec.ofNat 32 (numbers - failures)
  failCount : status.failCount = BitVec.ofNat 32 failures
  le : failures ≤ numbers

theorem Tallies.protocolNMTNetSpeed {n : ℕ} (h : status.Tallies n violations) (m : BitVec 64) :
    (status.protocolNMTNetSpeed m).Tallies (n + 1) (violations + if status.Passes m then 0 else 1) := by
  have hle := h.le
  by_cases hp : status.Passes m
  · rw [protocolNMTNetSpeed_of_passes hp, if_pos hp]
    refine ⟨by simp [h.totalPacket, BitVec.ofNat_add], ?_, h.failCount, by omega⟩
    have hpass : n + 1 - (violations + 0) = n - violations + 1 := by omega
    rw [hpass, h.passCount]
    exact (BitVec.ofNat_add _ 1).symm
  · rw [protocolNMTNetSpeed_of_not_passes hp, if_neg hp]
    refine ⟨by simp [h.totalPacket, BitVec.ofNat_add], ?_, by simp [h.failCount, BitVec.ofNat_add], by omega⟩
    rw [h.passCount, Nat.add_sub_add_right]

theorem toInt_ofNat {n : ℕ} (h : n < 2 ^ 31) : (BitVec.ofNat 32 n).toInt = n := by
  rw [BitVec.toInt_eq_toNat_of_lt] <;> simp <;> omega

/-- A tally is right up to the largest `int`. -/
theorem Tallies.counts_iff {failures : ℕ} (h : status.Tallies ms.length failures) :
    status.Counts ms ↔ ms.length < 2 ^ 31 ∧ failures = orderViolations ms := by
  have hle := h.le
  constructor
  · intro hc
    have hlt : ms.length < 2 ^ 31 := by
      have := BitVec.toInt_lt (x := status.totalPacket)
      rw [hc.totalPacket] at this
      omega
    have hfail := hc.failCount
    rw [h.failCount, toInt_ofNat (by omega)] at hfail
    exact ⟨hlt, by omega⟩
  · rintro ⟨hlt, hfail⟩
    refine ⟨?_, ?_, ?_⟩
    · rw [h.totalPacket, toInt_ofNat hlt]
    · rw [h.totalPacket, h.passCount, h.failCount, toInt_ofNat hlt, toInt_ofNat (by omega), toInt_ofNat (by omega)]
      omega
    · rw [h.failCount, toInt_ofNat (by omega), hfail]

/-- What is awaited behind the last number; before the first one anything is. -/
def Awaits (status : RUdpStatus) (ms : List (BitVec 64)) : Prop :=
  (ms = [] → status.expectedReliable = -1) ∧
    ∀ before m, ms = before ++ [m] → status.expectedReliable = awaited before m

def Judges (status : RUdpStatus) (ms : List (BitVec 64)) (m : BitVec 64) : Prop := status.Passes m ↔ ¬ Breaks ms m

theorem Awaits.protocolNMTNetSpeed (h : status.Judges ms m) : (status.protocolNMTNetSpeed m).Awaits (ms ++ [m]) := by
  refine ⟨by simp, ?_⟩
  rintro before m' heq
  obtain ⟨rfl, hm⟩ := List.append_inj' heq rfl
  obtain rfl := List.singleton_inj.mp hm
  by_cases hp : status.Passes m
  · simp [protocolNMTNetSpeed_of_passes hp, awaited, if_neg (h.mp hp)]
  · simp [protocolNMTNetSpeed_of_not_passes hp, awaited, if_pos (not_not.mp (mt h.mpr hp))]

theorem Awaits.judges_iff (h : status.Awaits ms) :
    status.Judges ms m ↔ ∀ before last, ms = before ++ [last] → Told (awaited before last) last m := by
  rcases List.eq_nil_or_concat ms with rfl | ⟨before, last, rfl⟩
  · simp [Judges, Passes, h.1 rfl, Breaks]
  · rw [List.concat_eq_append] at h ⊢
    rw [Judges, Passes, h.2 before last rfl, breaks_concat, ← told_iff]
    constructor
    · rintro ht before' last' heq
      obtain ⟨rfl, hl⟩ := List.append_inj' heq rfl
      obtain rfl := List.singleton_inj.mp hl
      exact ht
    · exact fun ht => ht before last rfl

theorem counted_of_allTold (h : AllTold ms) :
    (counted ms).Tallies ms.length (orderViolations ms) ∧ (counted ms).Awaits ms := by
  induction ms using List.reverseRecOn with
  | nil => exact ⟨⟨rfl, rfl, rfl, Nat.le_refl 0⟩, fun _ => rfl, by simp⟩
  | append_singleton ms m ih =>
    obtain ⟨hms, hlast⟩ := allTold_concat.mp h
    obtain ⟨ht, ha⟩ := ih hms
    have hj : (counted ms).Judges ms m := ha.judges_iff.mpr hlast
    rw [counted_concat]
    refine ⟨?_, .protocolNMTNetSpeed hj⟩
    have hstep := ht.protocolNMTNetSpeed m
    have hfail : (if (counted ms).Passes m then 0 else 1) = if Breaks ms m then 1 else 0 := by
      by_cases hp : (counted ms).Passes m
      · rw [if_pos hp, if_neg (hj.mp hp)]
      · rw [if_neg hp, if_pos (not_not.mp (mt hj.mpr hp))]
    rw [hfail, ← orderViolations_concat] at hstep
    simpa using hstep

/-- The counters are right behind each number exactly if each number is told right and the `int` holds their count. -/
theorem counts_prefixes_iff :
    (∀ p, p <+: ms → (counted p).Counts p) ↔ ms.length < 2 ^ 31 ∧ AllTold ms := by
  induction ms using List.reverseRecOn with
  | nil =>
    refine ⟨fun _ => ⟨by simp, by simp [AllTold]⟩, fun _ p hp => ?_⟩
    rw [List.prefix_nil.mp hp]
    exact ⟨rfl, rfl, rfl⟩
  | append_singleton ms m ih =>
    have hsplit : (∀ p, p <+: ms ++ [m] → (counted p).Counts p) ↔
        (counted (ms ++ [m])).Counts (ms ++ [m]) ∧ ms.length < 2 ^ 31 ∧ AllTold ms := by
      rw [← ih]
      simp only [List.prefix_concat_iff, or_imp, forall_and, forall_eq]
    rw [hsplit, allTold_concat, List.length_append, List.length_singleton]
    by_cases hms : AllTold ms
    swap
    · simp [hms]
    obtain ⟨ht, ha⟩ := counted_of_allTold hms
    have hstep := ht.protocolNMTNetSpeed m
    rw [← counted_concat] at hstep
    rw [← List.length_singleton (a := m), ← List.length_append] at hstep
    rw [hstep.counts_iff, orderViolations_concat, ← ha.judges_iff, Judges, List.length_append, List.length_singleton]
    have hfail : (orderViolations ms + (if (counted ms).Passes m then 0 else 1) =
        orderViolations ms + if Breaks ms m then 1 else 0) ↔ ((counted ms).Passes m ↔ ¬ Breaks ms m) := by
      by_cases hp : (counted ms).Passes m <;> by_cases hb : Breaks ms m <;> simp [hp, hb]
    rw [hfail]
    constructor
    · rintro ⟨⟨hlen, hj⟩, -, -⟩
      exact ⟨hlen, hms, hj⟩
    · rintro ⟨hlen, -, hj⟩
      exact ⟨⟨hlen, hj⟩, by omega, hms⟩

end RUdpStatus

/-! ## Several connections -/

theorem numbersOf_concat (c : BitVec 32) (messages : List (BitVec 32 × BitVec 64)) (m : BitVec 32 × BitVec 64) :
    numbersOf c (messages ++ [m]) = numbersOf c messages ++ if m.1 = c then [m.2] else [] := by
  by_cases h : m.1 = c <;> simp [numbersOf, h]

theorem SelfTest.protocolNMTNetSpeed_snd (program : SelfTest) (map : ConnectionRUDPMap) (c : BitVec 32) (m : BitVec 64) :
    (program.protocolNMTNetSpeed map c m).2 = Function.update map c ((map c).protocolNMTNetSpeed m) := by
  cases program <;> rfl

theorem SelfTest.handled_apply (program : SelfTest) (messages : List (BitVec 32 × BitVec 64)) (c : BitVec 32) :
    program.handled messages c = RUdpStatus.counted (numbersOf c messages) := by
  induction messages using List.reverseRecOn with
  | nil => rfl
  | append_singleton messages m ih =>
    have hstep : program.handled (messages ++ [m]) = (program.protocolNMTNetSpeed (program.handled messages) m.1 m.2).2 := by
      simp [handled]
    rw [hstep, protocolNMTNetSpeed_snd, numbersOf_concat]
    by_cases h : m.1 = c
    · subst h
      rw [Function.update_self, if_pos rfl, RUdpStatus.counted_concat, ih]
    · rw [Function.update_of_ne (Ne.symm h), if_neg h, List.append_nil, ih]

theorem forall_prefix_numbersOf (c : BitVec 32) (messages : List (BitVec 32 × BitVec 64)) (P : List (BitVec 64) → Prop) :
    (∀ before, before <+: messages → P (numbersOf c before)) ↔ ∀ p, p <+: numbersOf c messages → P p := by
  induction messages using List.reverseRecOn with
  | nil => simp [numbersOf]
  | append_singleton messages m ih =>
    rw [numbersOf_concat]
    by_cases h : m.1 = c
    · simp only [if_pos h, List.prefix_concat_iff, or_imp, forall_and, forall_eq, ih, numbersOf_concat]
    · simp only [if_neg h, List.append_nil, List.prefix_concat_iff, or_imp, forall_and, forall_eq, ih, numbersOf_concat]
      exact and_iff_right_of_imp fun hp => hp _ (List.prefix_refl _)

/-- The counters of a connection are right behind every message exactly if each of its numbers is told right and there
are no more of them than an `int` counts. -/
theorem self_test_counts_iff (program : SelfTest) (messages : List (BitVec 32 × BitVec 64)) (c : BitVec 32) :
    (∀ before, before <+: messages → (program.handled before c).Counts (numbersOf c before)) ↔
      (numbersOf c messages).length < 2 ^ 31 ∧ AllTold (numbersOf c messages) := by
  simp only [SelfTest.handled_apply]
  rw [forall_prefix_numbersOf c messages fun ms => (RUdpStatus.counted ms).Counts ms]
  exact RUdpStatus.counts_prefixes_iff

/-- One number is left out and the next one keeps the order: two failures for one violation. -/
theorem gap_counts_twice : ¬ ∀ (program : SelfTest) (messages : List (BitVec 32 × BitVec 64)) (c : BitVec 32),
    (program.handled messages c).Counts (numbersOf c messages) := by
  intro h
  have hfail := (h .gameServer [(1, 0), (1, 2), (1, 3)] 1).failCount
  revert hfail
  decide

theorem toNat_signExtend_int (a : BitVec 32) :
    (a.signExtend 64).toNat = a.toNat + if a.toNat < 2 ^ 31 then 0 else 2 ^ 64 - 2 ^ 32 := by
  rw [BitVec.toNat_signExtend, BitVec.msb_eq_decide, BitVec.toNat_setWidth_of_le (by omega)]
  have hmsb : decide (2 ^ (32 - 1) ≤ a.toNat) = true ↔ ¬ a.toNat < 2 ^ 31 := decide_eq_true_iff.trans Nat.not_lt.symm
  rw [if_congr hmsb rfl rfl, ite_not]

/-- Numbers that an `int` holds are told right unless one that breaks the order is followed by itself or its successor. -/
theorem allTold_iff_of_lt {ms : List (BitVec 64)} (hms : ∀ m ∈ ms, m.toNat < 2 ^ 31) :
    AllTold ms ↔ ∀ before m m', before ++ [m, m'] <+: ms → Breaks before m → OutOfOrder m m' ∧ m' ≠ m := by
  refine forall_congr' fun before => forall_congr' fun m => forall_congr' fun m' => imp_congr_right fun hp => ?_
  have hm : m.toNat < 2 ^ 31 := hms m (hp.subset (by simp))
  have hm' : m'.toNat < 2 ^ 31 := hms m' (hp.subset (by simp))
  have hcut : (m.setWidth 32).toNat = m.toNat := by
    rw [BitVec.toNat_setWidth]
    omega
  by_cases hb : Breaks before m
  · have hne : m.setWidth 32 ≠ -1 := by
      rintro heq
      rw [heq] at hcut
      simp at hcut
      omega
    have hsame : (m.setWidth 32).signExtend 64 = m := by
      apply BitVec.eq_of_toNat_eq
      rw [toNat_signExtend_int, hcut, if_pos hm, Nat.add_zero]
    have hne' : m.toNat ≠ m.toNat + 1 := by omega
    have hkept : awaited before m = m.setWidth 32 := by simp [awaited, hb]
    rw [hkept, Told, if_neg hne, hsame, or_iff_right hne', forall_prop_of_true hb]
  · have hnext : (m.setWidth 32 + 1).toNat = m.toNat + 1 := by
      rw [BitVec.toNat_add, hcut]
      simp
      omega
    have hne : m.setWidth 32 + 1 ≠ -1 := by
      rintro heq
      rw [heq] at hnext
      simp at hnext
      omega
    rw [awaited, if_neg hb, Told, if_neg hne]
    refine iff_of_true ?_ fun h => absurd h hb
    have hwide := toNat_signExtend_int (m.setWidth 32 + 1)
    by_cases hlt : m.toNat + 1 < 2 ^ 31
    · left
      rwa [hnext, if_pos hlt, Nat.add_zero] at hwide
    · right
      rw [hnext, if_neg hlt] at hwide
      refine ⟨by unfold OutOfOrder; omega, ?_⟩
      rintro heq
      rw [← heq] at hwide
      omega

end RudpEngine

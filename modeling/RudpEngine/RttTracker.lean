import Mathlib.Algebra.Group.Nat.Defs
import Mathlib.Data.List.Induction
import Mathlib.Data.List.Pairwise
import Mathlib.Data.Int.Order.Basic
import RudpEngine.Ring

/-!
# The tracker of round trip times

The packets that were sent wait in `Pending`, oldest first, until one of the
two streams of confirmations comes past them. An acked packet leaves a sample
in a ring, cut to 32 bits.
-/

namespace RudpEngine

structure PendingSample where
  packetId : ℤ
  sendTimeUs : ℕ
deriving DecidableEq, Repr

def kRingSize : ℕ := 2048

def kMaxPending : ℕ := kRingSize * 4

structure ConnectionRttTracker where
  pending : List PendingSample
  samplesUs : Fin kRingSize → ℕ
  sampleTimesUs : Fin kRingSize → ℕ
  writeIndex : Fin kRingSize
  sampleCount : ℕ

namespace ConnectionRttTracker

def new : ConnectionRttTracker := ⟨[], fun _ => 0, fun _ => 0, ⟨0, by decide⟩, 0⟩

def recordSend (tracker : ConnectionRttTracker) (packetId : ℤ) (sendTimeUs : ℕ) : ConnectionRttTracker :=
  let pending := tracker.pending ++ [⟨packetId, sendTimeUs⟩]
  { tracker with pending := if kMaxPending < pending.length then pending.tail else pending }

/-- Both confirmations first pop what is older than their packet. -/
def popOlder (tracker : ConnectionRttTracker) (packetId : ℤ) : List PendingSample :=
  tracker.pending.dropWhile fun sample => sample.packetId < packetId

def uint32Max : ℕ := 2 ^ 32 - 1

def writeSample (tracker : ConnectionRttTracker) (rttUs nowUs : ℕ) : ConnectionRttTracker :=
  { tracker with
    samplesUs := Function.update tracker.samplesUs tracker.writeIndex rttUs
    sampleTimesUs := Function.update tracker.sampleTimesUs tracker.writeIndex nowUs
    writeIndex := ⟨(tracker.writeIndex + 1) % kRingSize, Nat.mod_lt _ (by decide)⟩
    sampleCount := min (tracker.sampleCount + 1) kRingSize }

def consumeAcked (tracker : ConnectionRttTracker) (ackMarkPacketId : ℤ) (nowUs : ℕ) : Option ℕ × ConnectionRttTracker :=
  match tracker.popOlder ackMarkPacketId with
  | [] => (none, { tracker with pending := [] })
  | front :: pending =>
    if front.packetId ≠ ackMarkPacketId then (none, { tracker with pending := front :: pending })
    else if nowUs < front.sendTimeUs then (none, { tracker with pending := pending })
    else
      let rttUs := min (nowUs - front.sendTimeUs) uint32Max
      (some rttUs, { tracker with pending := pending }.writeSample rttUs nowUs)

def consumeNacked (tracker : ConnectionRttTracker) (nakMarkPacketId : ℤ) : ConnectionRttTracker :=
  match tracker.popOlder nakMarkPacketId with
  | [] => { tracker with pending := [] }
  | front :: pending => { tracker with pending := if front.packetId = nakMarkPacketId then pending else front :: pending }

end ConnectionRttTracker

inductive RttCall
  | recordSend (packetId : ℤ) (sendTimeUs : ℕ)
  | consumeAcked (ackMarkPacketId : ℤ) (nowUs : ℕ)
  | consumeNacked (nakMarkPacketId : ℤ)
deriving DecidableEq, Repr

namespace RttCall

def sent? : RttCall → Option ℤ
  | .recordSend packetId _ => some packetId
  | _ => none

def confirmed? : RttCall → Option ℤ
  | .recordSend .. => none
  | .consumeAcked packetId _ | .consumeNacked packetId => some packetId

structure Ordered (calls : List RttCall) : Prop where
  sent : (calls.filterMap sent?).Pairwise (· < ·)
  confirmed : (calls.filterMap confirmed?).Pairwise (· < ·)

end RttCall

/-- A sample that was written, with the packet whose acknowledgement it came from. -/
structure RttSample where
  packetId : ℤ
  rttUs : ℕ
  nowUs : ℕ
deriving DecidableEq, Repr

structure RttRun where
  tracker : ConnectionRttTracker
  written : List RttSample

namespace RttRun

def next (run : RttRun) : RttCall → RttRun
  | .recordSend packetId sendTimeUs => { run with tracker := run.tracker.recordSend packetId sendTimeUs }
  | .consumeAcked packetId nowUs =>
    let (rttUs?, tracker) := run.tracker.consumeAcked packetId nowUs
    { tracker, written := run.written ++ (rttUs?.map fun rttUs => ⟨packetId, rttUs, nowUs⟩).toList }
  | .consumeNacked packetId => { run with tracker := run.tracker.consumeNacked packetId }

def behind (calls : List RttCall) : RttRun := calls.foldl next ⟨.new, []⟩

/-- The slots of the two arrays that are in use, from the one that is written next. -/
def ring (tracker : ConnectionRttTracker) (h : tracker.sampleCount ≤ kRingSize) : List (ℕ × ℕ) :=
  (Ring.used (fun i => (tracker.samplesUs i, tracker.sampleTimesUs i)) tracker.sampleCount h).rotate tracker.writeIndex

/-- The sample of the packet came from its acknowledgement and from its own send time. -/
def Measured (sampleOf : ℕ → ℕ → ℕ) (calls : List RttCall) (sample : RttSample) : Prop :=
  ∃ before after sendTimeUs, calls = before ++ .consumeAcked sample.packetId sample.nowUs :: after ∧
    .recordSend sample.packetId sendTimeUs ∈ before ∧ sendTimeUs ≤ sample.nowUs ∧
    sample.rttUs = sampleOf sample.nowUs sendTimeUs

/-- What is to hold of a tracker behind some calls, if a sample is to be `sampleOf` of its two times. -/
structure Matches (run : RttRun) (sampleOf : ℕ → ℕ → ℕ) (calls : List RttCall) : Prop where
  pending_increasing : run.tracker.pending.Pairwise fun a b => a.packetId < b.packetId
  pending_length : run.tracker.pending.length ≤ kMaxPending
  measured : ∀ sample ∈ run.written, Measured sampleOf calls sample
  once : (run.written.map RttSample.packetId).Nodup
  nacked : ∀ sample ∈ run.written, .consumeNacked sample.packetId ∉ calls
  sampleCount : run.tracker.sampleCount = min run.written.length kRingSize
  ring : ∃ h : run.tracker.sampleCount ≤ kRingSize, ring run.tracker h =
    (run.written.map fun sample => (sample.rttUs, sample.nowUs)).drop (run.written.length - kRingSize)

end RttRun

/-! ## What one call does to `Pending` -/

namespace ConnectionRttTracker

variable (tracker : ConnectionRttTracker) (packetId : ℤ) (timeUs : ℕ)

theorem popOlder_suffix : tracker.popOlder packetId <:+ tracker.pending := List.dropWhile_suffix _

theorem recordSend_cases : ∃ pending, pending <:+ tracker.pending ++ [⟨packetId, timeUs⟩] ∧
    (tracker.pending.length ≤ kMaxPending → pending.length ≤ kMaxPending) ∧
    tracker.recordSend packetId timeUs = { tracker with pending := pending } := by
  unfold recordSend
  by_cases h : kMaxPending < (tracker.pending ++ [PendingSample.mk packetId timeUs]).length
  · refine ⟨_, List.tail_suffix _, ?_, by simp only [if_pos h]⟩
    rw [List.length_tail, List.length_append, List.length_singleton]
    omega
  · exact ⟨_, List.suffix_rfl, fun _ => Nat.le_of_not_lt h, by simp only [if_neg h]⟩

theorem consumeNacked_cases : ∃ pending, pending <:+ tracker.pending ∧
    tracker.consumeNacked packetId = { tracker with pending := pending } := by
  have hsuffix := tracker.popOlder_suffix packetId
  unfold consumeNacked
  match hpop : tracker.popOlder packetId with
  | [] => exact ⟨[], List.nil_suffix, rfl⟩
  | front :: pending =>
    rw [hpop] at hsuffix
    by_cases h : front.packetId = packetId
    · exact ⟨pending, (List.suffix_cons front pending).trans hsuffix, by simp only [if_pos h]⟩
    · exact ⟨front :: pending, hsuffix, by simp only [if_neg h]⟩

theorem consumeAcked_cases : ∃ pending, pending <:+ tracker.pending ∧
    (tracker.consumeAcked packetId timeUs = (none, { tracker with pending := pending }) ∨
      ∃ sendTimeUs ≤ timeUs, ⟨packetId, sendTimeUs⟩ ∈ tracker.pending ∧
        tracker.consumeAcked packetId timeUs = (some (min (timeUs - sendTimeUs) uint32Max),
          { tracker with pending := pending }.writeSample (min (timeUs - sendTimeUs) uint32Max) timeUs)) := by
  have hsuffix := tracker.popOlder_suffix packetId
  unfold consumeAcked
  match hpop : tracker.popOlder packetId with
  | [] => exact ⟨[], List.nil_suffix, .inl rfl⟩
  | front :: pending =>
    rw [hpop] at hsuffix
    have hrest : pending <:+ tracker.pending := (List.suffix_cons front pending).trans hsuffix
    by_cases h : front.packetId = packetId
    · subst h
      by_cases htime : timeUs < front.sendTimeUs
      · exact ⟨pending, hrest, .inl (by simp [htime])⟩
      · have hfront : front ∈ tracker.pending := hsuffix.subset List.mem_cons_self
        exact ⟨pending, hrest, .inr ⟨front.sendTimeUs, Nat.le_of_not_lt htime, hfront, by simp [htime]⟩⟩
    · exact ⟨front :: pending, hsuffix, .inl (by simp [h])⟩

end ConnectionRttTracker

/-! ## Runs of calls -/

namespace RttCall

variable {calls : List RttCall} {call : RttCall}

def acked? : RttCall → Option ℤ
  | .consumeAcked packetId _ => some packetId
  | _ => none

theorem Ordered.of_concat (h : Ordered (calls ++ [call])) : Ordered calls := by
  refine ⟨?_, ?_⟩
  · exact h.sent.sublist ((List.sublist_append_left _ _).filterMap _)
  · exact h.confirmed.sublist ((List.sublist_append_left _ _).filterMap _)

theorem Ordered.lt_sent {packetId packetId' : ℤ} {sendTimeUs sendTimeUs' : ℕ}
    (h : Ordered (calls ++ [.recordSend packetId sendTimeUs])) (hsent : .recordSend packetId' sendTimeUs' ∈ calls) :
    packetId' < packetId := by
  have hp := h.sent
  rw [List.filterMap_append, List.pairwise_append] at hp
  exact hp.2.2 packetId' (List.mem_filterMap.mpr ⟨_, hsent, rfl⟩) packetId (by simp [sent?])

theorem Ordered.eq_of_confirmed {call' : RttCall} {packetId : ℤ} (h : Ordered calls) (hc : call ∈ calls)
    (hc' : call' ∈ calls) (hid : call.confirmed? = some packetId) (hid' : call'.confirmed? = some packetId) :
    call = call' := by
  by_contra hne
  let Apart (a b : RttCall) : Prop := ∀ x, a.confirmed? = some x → ∀ y, b.confirmed? = some y → x ≠ y
  have : Std.Symm Apart := ⟨fun _ _ hab x hx y hy => (hab y hy x hx).symm⟩
  have hp : calls.Pairwise Apart := (List.pairwise_filterMap.mp h.confirmed).imp fun hlt x hx y hy => (hlt x hx y hy).ne
  exact hp.forall hc hc' hne packetId hid packetId hid' rfl

end RttCall

namespace RttRun

variable {calls : List RttCall} {call : RttCall} {run : RttRun} {sampleOf : ℕ → ℕ → ℕ}

theorem behind_concat : behind (calls ++ [call]) = (behind calls).next call := by simp [behind]

theorem Measured.concat {sample : RttSample} (h : Measured sampleOf calls sample) :
    Measured sampleOf (calls ++ [call]) sample := by
  obtain ⟨before, after, sendTimeUs, rfl, hrest⟩ := h
  exact ⟨before, after ++ [call], sendTimeUs, by simp, hrest⟩

def values (run : RttRun) : List (ℕ × ℕ) := run.written.map fun sample => (sample.rttUs, sample.nowUs)

structure Stores (run : RttRun) : Prop where
  holds : Ring.Holds (fun i => (run.tracker.samplesUs i, run.tracker.sampleTimesUs i)) run.values
  writeIndex : run.tracker.writeIndex = run.written.length % kRingSize
  sampleCount : run.tracker.sampleCount = min run.written.length kRingSize

theorem Stores.writeSample (h : Stores run) (pending : List PendingSample) (sample : RttSample) :
    Stores ⟨{ run.tracker with pending := pending }.writeSample sample.rttUs sample.nowUs, run.written ++ [sample]⟩ := by
  refine ⟨?_, ?_, ?_⟩
  · have hvalues : values ⟨{ run.tracker with pending := pending }.writeSample sample.rttUs sample.nowUs,
        run.written ++ [sample]⟩ = run.values ++ [(sample.rttUs, sample.nowUs)] := by simp [values]
    have hindex : (run.tracker.writeIndex : ℕ) = run.values.length % kRingSize := by simpa [values] using h.writeIndex
    rw [hvalues]
    convert h.holds.write hindex (sample.rttUs, sample.nowUs) using 2 with i
    by_cases hi : i = run.tracker.writeIndex
    · subst hi
      simp [ConnectionRttTracker.writeSample]
    · simp [ConnectionRttTracker.writeSample, hi]
  · simp [ConnectionRttTracker.writeSample, h.writeIndex]
  · simp only [ConnectionRttTracker.writeSample, h.sampleCount, List.length_append, List.length_singleton]
    omega

/-- The sample of the two times, which the 32 bits of an entry of the ring cut. -/
def cutSample (nowUs sendTimeUs : ℕ) : ℕ := min (nowUs - sendTimeUs) ConnectionRttTracker.uint32Max

structure Tracks (calls : List RttCall) (run : RttRun) : Prop where
  increasing : run.tracker.pending.Pairwise fun a b => a.packetId < b.packetId
  length : run.tracker.pending.length ≤ kMaxPending
  recorded : ∀ sample ∈ run.tracker.pending, .recordSend sample.packetId sample.sendTimeUs ∈ calls
  measured : ∀ sample ∈ run.written, Measured cutSample calls sample
  acked : (run.written.map RttSample.packetId).Sublist (calls.filterMap RttCall.acked?)
  stores : Stores run

theorem Tracks.pop (h : Tracks calls run) {pending : List PendingSample} (hp : pending <:+ run.tracker.pending)
    (call : RttCall) : Tracks (calls ++ [call]) { run with tracker := { run.tracker with pending := pending } } where
  increasing := h.increasing.sublist hp.sublist
  length := hp.length_le.trans h.length
  recorded sample hs := List.mem_append_left _ (h.recorded sample (hp.subset hs))
  measured sample hs := (h.measured sample hs).concat
  acked := h.acked.trans ((List.sublist_append_left _ _).filterMap _)
  stores := ⟨h.stores.holds, h.stores.writeIndex, h.stores.sampleCount⟩

theorem Tracks.recordSend (h : Tracks calls run) {packetId : ℤ} {sendTimeUs : ℕ}
    (hord : RttCall.Ordered (calls ++ [.recordSend packetId sendTimeUs])) :
    Tracks (calls ++ [.recordSend packetId sendTimeUs]) (run.next (.recordSend packetId sendTimeUs)) := by
  obtain ⟨pending, hsuffix, hlen, heq⟩ := run.tracker.recordSend_cases packetId sendTimeUs
  have hnew : (run.tracker.pending ++ [PendingSample.mk packetId sendTimeUs]).Pairwise fun a b => a.packetId < b.packetId := by
    refine List.pairwise_append.mpr ⟨h.increasing, List.pairwise_singleton _ _, fun a ha b hb => ?_⟩
    rw [List.mem_singleton] at hb
    subst hb
    exact hord.lt_sent (h.recorded a ha)
  simp only [next, heq]
  refine ⟨hnew.sublist hsuffix.sublist, hlen h.length, ?_, fun sample hs => (h.measured sample hs).concat, ?_, ?_⟩
  · intro sample hs
    rcases List.mem_append.mp (hsuffix.subset hs) with hs | hs
    · exact List.mem_append_left _ (h.recorded sample hs)
    · rw [List.mem_singleton] at hs
      subst hs
      exact List.mem_append_right _ (List.mem_singleton_self _)
  · exact h.acked.trans ((List.sublist_append_left _ _).filterMap _)
  · exact ⟨h.stores.holds, h.stores.writeIndex, h.stores.sampleCount⟩

theorem Tracks.consumeAcked (h : Tracks calls run) (packetId : ℤ) (nowUs : ℕ) :
    Tracks (calls ++ [.consumeAcked packetId nowUs]) (run.next (.consumeAcked packetId nowUs)) := by
  obtain ⟨pending, hp, heq | ⟨sendTimeUs, hle, hmem, heq⟩⟩ := run.tracker.consumeAcked_cases packetId nowUs
  · have hpop := h.pop hp (.consumeAcked packetId nowUs)
    simpa [next, heq] using hpop
  · have hpop := h.pop hp (.consumeAcked packetId nowUs)
    simp only [next, heq, Option.map_some, Option.toList_some]
    refine ⟨hpop.increasing, hpop.length, hpop.recorded, ?_, ?_, ?_⟩
    · intro sample hs
      rcases List.mem_append.mp hs with hs | hs
      · exact (h.measured sample hs).concat
      · rw [List.mem_singleton] at hs
        subst hs
        exact ⟨calls, [], sendTimeUs, rfl, h.recorded _ hmem, hle, rfl⟩
    · rw [List.map_append, List.filterMap_append]
      exact h.acked.append (List.Sublist.refl _)
    · exact h.stores.writeSample pending ⟨packetId, cutSample nowUs sendTimeUs, nowUs⟩

theorem tracks_behind (h : RttCall.Ordered calls) : Tracks calls (behind calls) := by
  induction calls using List.reverseRecOn with
  | nil =>
    exact ⟨List.Pairwise.nil, Nat.zero_le _, by simp [behind, ConnectionRttTracker.new], by simp [behind], List.Sublist.slnil,
      .nil, rfl, rfl⟩
  | append_singleton calls call ih =>
    have hcalls := ih h.of_concat
    rw [behind_concat]
    cases call with
    | recordSend packetId sendTimeUs => exact hcalls.recordSend h
    | consumeAcked packetId nowUs => exact hcalls.consumeAcked packetId nowUs
    | consumeNacked packetId =>
      obtain ⟨pending, hp, heq⟩ := (behind calls).tracker.consumeNacked_cases packetId
      simp only [next, heq]
      exact hcalls.pop hp (.consumeNacked packetId)

theorem acked_sublist_confirmed (calls : List RttCall) :
    (calls.filterMap RttCall.acked?).Sublist (calls.filterMap RttCall.confirmed?) := by
  induction calls with
  | nil => exact List.Sublist.slnil
  | cons call calls ih =>
    cases call with
    | recordSend => exact ih
    | consumeAcked => exact ih.cons_cons _
    | consumeNacked => exact ih.cons _

end RttRun

/-- The samples match their packets, each cut to 32 bits. -/
theorem rtt_samples_match (calls : List RttCall) (h : RttCall.Ordered calls) :
    (RttRun.behind calls).Matches RttRun.cutSample calls := by
  obtain ⟨hinc, hlen, hrec, hmeas, hacked, hstores⟩ := RttRun.tracks_behind h
  have hle : (RttRun.behind calls).tracker.sampleCount ≤ kRingSize := by
    rw [hstores.sampleCount]
    exact Nat.min_le_right _ _
  refine ⟨hinc, hlen, hmeas, ?_, ?_, hstores.sampleCount, hle, ?_⟩
  · have hconfirmed : (calls.filterMap RttCall.confirmed?).Nodup := h.confirmed.imp fun hlt => hlt.ne
    exact hconfirmed.sublist (hacked.trans (RttRun.acked_sublist_confirmed calls))
  · intro sample hs hnak
    obtain ⟨before, after, -, hcalls, -⟩ := hmeas sample hs
    have hack : .consumeAcked sample.packetId sample.nowUs ∈ calls := by simp [hcalls]
    exact absurd (h.eq_of_confirmed hack hnak rfl rfl) (by simp)
  · have hlast := hstores.holds.rotate_used
      (by simpa [RttRun.values] using hstores.writeIndex) (by simpa [RttRun.values] using hstores.sampleCount) hle
    simpa [RttRun.values, RttRun.ring] using hlast

/-- One packet that is acked within its time, one that is nacked and one that stays. -/
theorem rtt_samples_match_three :
    (RttRun.behind [.recordSend 1 10, .recordSend 2 20, .recordSend 5 50, .consumeAcked 1 15, .consumeNacked 2]).Matches
      RttRun.cutSample [.recordSend 1 10, .recordSend 2 20, .recordSend 5 50, .consumeAcked 1 15, .consumeNacked 2] :=
  rtt_samples_match _ ⟨by decide, by decide⟩

/-- A packet acked after 2^32 microseconds leaves a smaller sample. -/
theorem late_sample_is_cut : ¬ ∀ calls : List RttCall, RttCall.Ordered calls →
    (RttRun.behind calls).Matches (fun nowUs sendTimeUs => nowUs - sendTimeUs) calls := by
  intro h
  obtain ⟨before, after, sendTimeUs, hcalls, hsent, -, hrtt⟩ :=
    (h [.recordSend 1 0, .consumeAcked 1 (2 ^ 32)] ⟨by decide, by decide⟩).measured ⟨1, 2 ^ 32 - 1, 2 ^ 32⟩ (by decide)
  have hmem : RttCall.recordSend 1 sendTimeUs ∈ [RttCall.recordSend 1 0, .consumeAcked 1 (2 ^ 32)] := by
    rw [hcalls]
    exact List.mem_append_left _ hsent
  have hzero : sendTimeUs = 0 := by simpa using hmem
  rw [hzero] at hrtt
  exact absurd hrtt (by decide)

end RudpEngine

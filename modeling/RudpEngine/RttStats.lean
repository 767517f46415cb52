import Mathlib.Data.List.Rotate
import Mathlib.Data.List.Sort
import RudpEngine.RttTracker

/-!
# What a tracker reports

`ComputeStats` copies the samples of the last ten seconds and reads five of
them: the least, the greatest and three by their places in order. A place is a
floating point product cut to an integer, of which only the order is used here.
-/

namespace RudpEngine

namespace ConnectionRttTracker

def kMaxSampleAgeUs : ℕ := 10000000

structure Stats where
  p50Us : ℕ
  p95Us : ℕ
  p99Us : ℕ
  minUs : ℕ
  maxUs : ℕ
  sampleCount : ℕ
deriving DecidableEq, Repr

def recent (nowUs timeUs : ℕ) : Bool :=
  let age := if timeUs ≤ nowUs then nowUs - timeUs else 0
  age ≤ kMaxSampleAgeUs

def copyRecent (tracker : ConnectionRttTracker) (nowUs : ℕ) : List ℕ :=
  (((List.finRange kRingSize).take tracker.sampleCount).filter fun i => recent nowUs (tracker.sampleTimesUs i)).map
    tracker.samplesUs

/-- `placeOf percent n` is `static_cast<size_t>(percent / 100.0 * n)`; `nth_element` puts at its place what stands there
in order. -/
def nthPercentile (placeOf : ℕ → ℕ → ℕ) (copy : List ℕ) (percent : ℕ) : ℕ :=
  let index := placeOf percent (copy.length - 1)
  let index := if copy.length ≤ index then copy.length - 1 else index
  (copy.mergeSort).getD index 0

def computeStats (placeOf : ℕ → ℕ → ℕ) (tracker : ConnectionRttTracker) (nowUs : ℕ) : Stats :=
  if tracker.sampleCount = 0 then ⟨0, 0, 0, 0, 0, 0⟩
  else
    let copy := tracker.copyRecent nowUs
    if copy.isEmpty then ⟨0, 0, 0, 0, 0, 0⟩
    else ⟨nthPercentile placeOf copy 50, nthPercentile placeOf copy 95, nthPercentile placeOf copy 99,
      copy.min?.getD 0, copy.max?.getD 0, copy.length⟩

structure Stats.Reports (stats : Stats) (placeOf : ℕ → ℕ → ℕ) (samples : List ℕ) : Prop where
  sampleCount : stats.sampleCount = samples.length
  nothing : samples = [] → stats = ⟨0, 0, 0, 0, 0, 0⟩
  mem : samples ≠ [] → ∀ us ∈ [stats.minUs, stats.p50Us, stats.p95Us, stats.p99Us, stats.maxUs], us ∈ samples
  increasing : [stats.minUs, stats.p50Us, stats.p95Us, stats.p99Us, stats.maxUs].Pairwise (· ≤ ·)
  bounds : ∀ us ∈ samples, stats.minUs ≤ us ∧ us ≤ stats.maxUs
  /-- As many samples as its place says are less than a percentile at most, and more of them are not greater. -/
  places : samples ≠ [] → ∀ percentile ∈ [(50, stats.p50Us), (95, stats.p95Us), (99, stats.p99Us)],
    samples.countP (· < percentile.2) ≤ min (placeOf percentile.1 (samples.length - 1)) (samples.length - 1) ∧
      min (placeOf percentile.1 (samples.length - 1)) (samples.length - 1) < samples.countP (· ≤ percentile.2)

/-! ## Places in order -/

section
variable (placeOf : ℕ → ℕ → ℕ) {copy : List ℕ}

theorem pairwise_mergeSort (copy : List ℕ) : (copy.mergeSort).Pairwise (· ≤ ·) := by
  have hsorted : (copy.mergeSort).Pairwise fun a b => decide (a ≤ b) = true :=
    List.pairwise_mergeSort (fun a b c => by simpa using Nat.le_trans) (fun a b => by simpa using Nat.le_total a b) copy
  exact hsorted.imp of_decide_eq_true

theorem exists_place (hne : copy ≠ []) (percent : ℕ) : ∃ k, k = min (placeOf percent (copy.length - 1)) (copy.length - 1) ∧
    ∃ hk : k < copy.mergeSort.length, nthPercentile placeOf copy percent = copy.mergeSort[k] := by
  have hpos := List.length_pos_iff.mpr hne
  have hk : min (placeOf percent (copy.length - 1)) (copy.length - 1) < copy.mergeSort.length := by
    rw [List.length_mergeSort]
    omega
  refine ⟨_, rfl, hk, ?_⟩
  have hindex : (if copy.length ≤ placeOf percent (copy.length - 1) then copy.length - 1 else placeOf percent (copy.length - 1)) =
      min (placeOf percent (copy.length - 1)) (copy.length - 1) := by
    split <;> omega
  show copy.mergeSort.getD (if copy.length ≤ placeOf percent (copy.length - 1) then _ else _) 0 = _
  rw [hindex, List.getD_eq_getElem?_getD, List.getElem?_eq_getElem hk, Option.getD_some]

theorem nthPercentile_mem (hne : copy ≠ []) (percent : ℕ) : nthPercentile placeOf copy percent ∈ copy := by
  obtain ⟨k, -, hk, heq⟩ := exists_place placeOf hne percent
  rw [heq, ← List.mem_mergeSort]
  exact List.getElem_mem hk

variable {placeOf} in
theorem nthPercentile_mono (hplace : ∀ n p q, p ≤ q → placeOf p n ≤ placeOf q n) (hne : copy ≠ []) (percent percent' : ℕ)
    (hle : percent ≤ percent') : nthPercentile placeOf copy percent ≤ nthPercentile placeOf copy percent' := by
  obtain ⟨k, hk, hklt, heq⟩ := exists_place placeOf hne percent
  obtain ⟨l, hl, hllt, heq'⟩ := exists_place placeOf hne percent'
  have hkl : k ≤ l := by
    have hplaces := hplace (copy.length - 1) percent percent' hle
    omega
  rw [heq, heq']
  rcases Nat.lt_or_eq_of_le hkl with hlt | rfl
  · exact List.pairwise_iff_getElem.mp (pairwise_mergeSort copy) k l hklt hllt hlt
  · exact Nat.le_refl _

theorem countP_of_pairwise {l : List ℕ} (h : l.Pairwise (· ≤ ·)) {k : ℕ} (hk : k < l.length) :
    l.countP (· < l[k]) ≤ k ∧ k < l.countP (· ≤ l[k]) := by
  have hle : ∀ i j (hi : i < l.length) (hj : j < l.length), i ≤ j → l[i] ≤ l[j] := by
    intro i j hi hj hij
    rcases Nat.lt_or_eq_of_le hij with hlt | rfl
    · exact List.pairwise_iff_getElem.mp h i j hi hj hlt
    · exact Nat.le_refl _
  constructor
  · have hbehind : (l.drop k).countP (· < l[k]) = 0 := by
      rw [List.countP_eq_zero]
      intro x hx
      obtain ⟨j, hj, rfl⟩ := List.mem_drop_iff_getElem.mp hx
      simpa using hle k (k + j) hk (by omega) (Nat.le_add_right _ _)
    have hbefore : (l.take k).countP (· < l[k]) ≤ k := List.countP_le_length.trans (List.length_take_le _ _)
    have hall : l.countP (· < l[k]) = (l.take k).countP (· < l[k]) + (l.drop k).countP (· < l[k]) := by
      rw [← List.countP_append, List.take_append_drop]
    omega
  · have hbefore : (l.take (k + 1)).countP (· ≤ l[k]) = (l.take (k + 1)).length := by
      rw [List.countP_eq_length]
      intro x hx
      obtain ⟨j, hj, rfl⟩ := List.mem_take_iff_getElem.mp hx
      simpa using hle j k (by omega) hk (by omega)
    have hall := (List.take_sublist (k + 1) l).countP_le (p := (· ≤ l[k]))
    rw [hbefore, List.length_take] at hall
    omega

theorem nthPercentile_rank (hne : copy ≠ []) (percent : ℕ) :
    copy.countP (· < nthPercentile placeOf copy percent) ≤ min (placeOf percent (copy.length - 1)) (copy.length - 1) ∧
      min (placeOf percent (copy.length - 1)) (copy.length - 1) < copy.countP (· ≤ nthPercentile placeOf copy percent) := by
  obtain ⟨k, hk, hklt, heq⟩ := exists_place placeOf hne percent
  have hperm : copy.mergeSort.Perm copy := List.mergeSort_perm copy _
  rw [← hk, heq, ← hperm.countP_eq, ← hperm.countP_eq]
  exact countP_of_pairwise (pairwise_mergeSort copy) hklt

variable {placeOf}

theorem Stats.Reports.perm {stats : Stats} {samples samples' : List ℕ} (h : stats.Reports placeOf samples)
    (hperm : samples.Perm samples') : stats.Reports placeOf samples' := by
  have hne : samples' ≠ [] → samples ≠ [] := fun hne heq => hne (List.nil_perm.mp (heq ▸ hperm))
  refine ⟨h.sampleCount.trans hperm.length_eq, ?_, ?_, h.increasing, fun us hus => h.bounds us (hperm.mem_iff.mpr hus), ?_⟩
  · exact fun heq => h.nothing (List.perm_nil.mp (heq ▸ hperm))
  · exact fun hne' us hus => hperm.mem_iff.mp (h.mem (hne hne') us hus)
  · intro hne' percentile hp
    rw [← hperm.countP_eq, ← hperm.countP_eq, ← hperm.length_eq]
    exact h.places (hne hne') percentile hp

theorem computeStats_reports (hplace : ∀ n p q, p ≤ q → placeOf p n ≤ placeOf q n) (tracker : ConnectionRttTracker) (nowUs : ℕ) :
    (computeStats placeOf tracker nowUs).Reports placeOf (tracker.copyRecent nowUs) := by
  by_cases hempty : tracker.copyRecent nowUs = []
  · have hnothing : computeStats placeOf tracker nowUs = ⟨0, 0, 0, 0, 0, 0⟩ := by
      unfold computeStats
      split
      · rfl
      · simp [hempty]
    rw [hnothing, hempty]
    exact ⟨rfl, fun _ => rfl, fun hne => absurd rfl hne, by decide, by simp, fun hne => absurd rfl hne⟩
  · have hcount : tracker.sampleCount ≠ 0 := by
      intro hzero
      simp [copyRecent, hzero] at hempty
    obtain ⟨least, hleast⟩ := Option.isSome_iff_exists.mp (List.isSome_min?_of_ne_nil hempty)
    obtain ⟨greatest, hgreatest⟩ := Option.isSome_iff_exists.mp (List.isSome_max?_of_ne_nil hempty)
    obtain ⟨hminMem, hmin⟩ := List.min?_eq_some_iff.mp hleast
    obtain ⟨hmaxMem, hmax⟩ := List.max?_eq_some_iff.mp hgreatest
    have hstats : computeStats placeOf tracker nowUs = ⟨nthPercentile placeOf (tracker.copyRecent nowUs) 50,
        nthPercentile placeOf (tracker.copyRecent nowUs) 95, nthPercentile placeOf (tracker.copyRecent nowUs) 99, least, greatest,
        (tracker.copyRecent nowUs).length⟩ := by
      simp [computeStats, hcount, hempty, hleast, hgreatest]
    have hmem := nthPercentile_mem placeOf hempty
    have hmono := nthPercentile_mono hplace hempty
    rw [hstats]
    refine ⟨rfl, fun hnone => absurd hnone hempty, ?_, ?_, fun us hus => ⟨hmin us hus, hmax us hus⟩, ?_⟩
    · intro _ us hus
      simp only [List.mem_cons, List.not_mem_nil, or_false] at hus
      rcases hus with rfl | rfl | rfl | rfl | rfl
      · exact hminMem
      · exact hmem 50
      · exact hmem 95
      · exact hmem 99
      · exact hmaxMem
    · have h50 := hmono 50 95 (by decide)
      have h95 := hmono 95 99 (by decide)
      have hlow := hmin _ (hmem 50)
      have hhigh := hmax _ (hmem 99)
      simp only [List.pairwise_cons, List.mem_cons, List.not_mem_nil, or_false, forall_eq_or_imp, forall_eq, List.Pairwise.nil]
      refine ⟨⟨hlow, ?_, ?_, ?_⟩, ⟨h50, ?_, ?_⟩, ⟨h95, ?_⟩, hhigh, ?_⟩
      all_goals first | omega | simp
    · intro _ percentile hp
      simp only [List.mem_cons, List.not_mem_nil, or_false] at hp
      rcases hp with rfl | rfl | rfl
      all_goals exact nthPercentile_rank placeOf hempty _

end

end ConnectionRttTracker

namespace RttRun

open ConnectionRttTracker

variable {run : RttRun} {calls : List RttCall}

def recentUs (run : RttRun) (nowUs : ℕ) : List ℕ :=
  ((run.written.drop (run.written.length - kRingSize)).filter fun sample => recent nowUs sample.nowUs).map RttSample.rttUs

theorem take_finRange {α : Type} {N : ℕ} (slots : Fin N → α) {count : ℕ} (h : count ≤ N) :
    ((List.finRange N).take count).map slots = Ring.used slots count h := by
  apply List.ext_getElem
  · simp [Ring.used, h]
  · intro k hk hk'
    simp [Ring.used]

theorem copyRecent_perm (h : Stores run) (nowUs : ℕ) : (run.tracker.copyRecent nowUs).Perm (run.recentUs nowUs) := by
  have hle : run.tracker.sampleCount ≤ kRingSize := by
    rw [h.sampleCount]
    exact Nat.min_le_right _ _
  have hlast := h.holds.rotate_used
    (by simpa [RttRun.values] using h.writeIndex) (by simpa [RttRun.values] using h.sampleCount) hle
  have hslots : run.tracker.copyRecent nowUs =
      ((Ring.used (fun i => (run.tracker.samplesUs i, run.tracker.sampleTimesUs i)) run.tracker.sampleCount hle).filter
        fun value => recent nowUs value.2).map Prod.fst := by
    rw [← take_finRange, List.filter_map, List.map_map]
    rfl
  have hvalues : run.recentUs nowUs = ((run.values.drop (run.values.length - kRingSize)).filter
      fun value => recent nowUs value.2).map Prod.fst := by
    rw [RttRun.values, List.length_map, ← List.map_drop, List.filter_map, List.map_map]
    rfl
  rw [hslots, hvalues, ← hlast]
  exact (((List.rotate_perm _ _).symm).filter _).map _

end RttRun

/-- In every run the report is about the samples of the last ten seconds that the ring still holds. -/
theorem rtt_stats_report (placeOf : ℕ → ℕ → ℕ) (hplace : ∀ n p q, p ≤ q → placeOf p n ≤ placeOf q n) (calls : List RttCall)
    (h : RttCall.Ordered calls) (nowUs : ℕ) : ((RttRun.behind calls).tracker.computeStats placeOf nowUs).Reports placeOf
      ((RttRun.behind calls).recentUs nowUs) :=
  (ConnectionRttTracker.computeStats_reports hplace _ nowUs).perm
    (RttRun.copyRecent_perm (RttRun.tracks_behind h).stores nowUs)

/-- The first sample is too old by then. -/
theorem rtt_stats_report_oneOld : ((RttRun.behind [.recordSend 1 10, .recordSend 2 20, .recordSend 3 30, .consumeAcked 1 15,
    .consumeAcked 2 60, .consumeAcked 3 50]).tracker.computeStats (fun p n => p * n / 100) 10000020).Reports
      (fun p n => p * n / 100) [40, 20] := by
  have hrecent : (RttRun.behind [.recordSend 1 10, .recordSend 2 20, .recordSend 3 30, .consumeAcked 1 15,
      .consumeAcked 2 60, .consumeAcked 3 50]).recentUs 10000020 = [40, 20] := by decide
  rw [← hrecent]
  exact rtt_stats_report _ (fun n p q hle => Nat.div_le_div_right (Nat.mul_le_mul_right n hle)) _ ⟨by decide, by decide⟩ _

end RudpEngine

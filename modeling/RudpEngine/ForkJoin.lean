import RudpEngine.CoroutineSteps

/-!
# A coroutine is resumed once, behind all it awaits

Whoever takes the counter of a coroutine from one to zero submits it again, so
that this happens once, and not before the last of the tasks it awaits is
counted off. A job that moves to another worker is counted twice, and whoever
awaits it is never resumed.
-/

namespace RudpEngine

open Finset

namespace Coroutines

/-- No task submits a job that it does not await; the first job of a tuple is one that is submitted; and a coroutine
only moves while its root task, if it has one, is not counted off and its counter does not overflow. -/
def Structured (s : Coroutines) : CoroutineAction → Prop
  | .addAsyncJob i _ _ _ => s.inTask i = none
  | .await i tuple => (s.inTask i).isSome → sumOfJobCount tuple ≠ 0 → firstSubmitted tuple = true ∧ sumOfJobCount tuple < 2 ^ 31
  | .resumeOn i _ => ∀ job ∈ s.inTask i, ∀ root ∈ s.rootTask job.task, root ∉ s.finished ∧ (s.count root).toNat + 1 < 2 ^ 32
  | _ => True

instance (s : Coroutines) (a : CoroutineAction) : Decidable (s.Structured a) := by
  cases a <;> unfold Structured <;> infer_instance

theorem inTask_eq_some {s : Coroutines} {i : ℕ} {job : Job ℕ} :
    s.inTask i = some job ↔ s.system.running i = some job ∧ s.stage i = .doTask := by
  unfold inTask
  rw [Option.filter_eq_some_iff]
  simp

theorem Kept.next {s : Coroutines} (h : s.Kept) {a : CoroutineAction} (hok : s.Structured a) : (s.next a).Kept := by
  cases a with
  | submit isFunctionTask threadIndex => exact h.submitStep isFunctionTask threadIndex
  | addAsyncJob i isFunctionTask threadIndex taskCount =>
    have hok : s.inTask i = none := hok
    simp only [Coroutines.next, hok]
    exact h
  | await i tuple =>
    simp only [Coroutines.next]
    cases htask : s.inTask i with
    | none => exact h
    | some job =>
      obtain ⟨hrun, hstage⟩ := inTask_eq_some.mp htask
      simp only
      split_ifs with hb
      · exact h
      · exact h.awaitStep hrun hstage (Bool.eq_false_iff.mpr hb) (hok (by rw [htask]; rfl))
  | resumeOn i threadIndex =>
    simp only [Coroutines.next]
    cases htask : s.inTask i with
    | none => exact h
    | some job =>
      obtain ⟨hrun, hstage⟩ := inTask_eq_some.mp htask
      simp only
      split_ifs with hb
      · exact h
      · exact h.moveStep hrun hstage (Bool.eq_false_iff.mpr hb) threadIndex fun root hroot => hok job htask root hroot
  | returnTask i =>
    simp only [Coroutines.next]
    cases htask : s.inTask i with
    | none => exact h
    | some job =>
      obtain ⟨hrun, hstage⟩ := inTask_eq_some.mp htask
      exact h.returnStep hrun hstage
  | run i =>
    simp only [Coroutines.next]
    cases hrun : s.system.running i with
    | none => exact h
    | some job => exact h.runStep hrun
  | submitter k => exact h.quietStep trivial
  | wake i => exact h.quietStep trivial
  | shutDown => exact h.quietStep trivial
  | worker i =>
    simp only [Coroutines.next]
    split_ifs with hi
    · unfold workerStep
      cases hpc : (s.system.workers i).pc with
      | running job => exact h
      | popped job => exact h.beginStep hi hpc
      | _ => exact h.quietStep ⟨by rw [hpc]; simp, by rw [hpc]; simp⟩
    · exact h

theorem reach_kept {s : Coroutines} (h : coroutines.Reach Structured s) : s.Kept := by
  refine h.invariant (fun s hs => ?_) fun s a hs hok => hs.next hok
  obtain ⟨threadCount, bUseCVWait, rfl⟩ := hs
  exact kept_start threadCount bUseCVWait

end Coroutines

/-- **A coroutine is resumed once, and behind all it awaits.** Every task is in
exactly one place. A coroutine whose code runs awaits nothing any more: every job
of the tuples it awaited so far has returned, and is in no queue and on no worker.
And it sleeps only as long as a job that it awaits is not counted off, or if one
of the tuple was not submitted or has moved to another worker. -/
theorem awaiting_coroutine_resumed {s : Coroutines} (h : coroutines.Reach Coroutines.Structured s) :
    (∀ task < s.tasks.length, s.held.count task + s.awaiting.count task + s.finished.count task = 1) ∧
      (∀ i job, s.inTask i = some job → ∀ task, s.awaitedBy task = some job.task → s.bDone task = true ∧ task ∉ s.held) ∧
      ∀ coroutine ∈ s.awaiting, (∃ task, s.awaitedBy task = some coroutine ∧ task ∉ s.finished) ∨ 0 < s.surplus coroutine := by
  have hkept := Coroutines.reach_kept h
  refine ⟨fun task hlt => ?_, fun i job htask task hby => ?_, fun c hc => ?_⟩
  · have hcount := congrArg (Multiset.count task) hkept.once
    rwa [Multiset.count_add, Multiset.count_add,
      Multiset.count_eq_one_of_mem (Multiset.nodup_range _) (Multiset.mem_range.mpr hlt)] at hcount
  · obtain ⟨hrun, hstage⟩ := Coroutines.inTask_eq_some.mp htask
    have hmem : job.task ∈ s.held :=
      Coroutines.mem_held_of_atWork (i := i) (by rw [Coroutines.atWork_doTask hrun hstage]; exact Multiset.mem_singleton_self _)
    have hfin : task ∈ s.finished := by
      by_contra hnot
      exact hkept.not_awaiting hmem (hkept.awaited task _ hby hnot).1
    exact ⟨hkept.done task hfin, fun hheld => hkept.not_finished hheld hfin⟩
  · obtain ⟨-, hpos, hsum⟩ := hkept.asleep c hc
    rcases Nat.eq_zero_or_pos (s.unfinished c).card with hzero | hcard
    · exact .inr (by omega)
    · obtain ⟨task, htask⟩ := card_pos.mp hcard
      exact .inl ⟨task, (Coroutines.mem_unfinished.mp htask).2⟩

/-! ## A coroutine that is never resumed -/

namespace Coroutines

section
variable {s : Coroutines} {p : ℕ}

/-- Whoever counts off a task at a coroutine with a surplus does not find the counter at one. -/
theorem Kept.asleep_countOff (h : s.Kept) {i : ℕ} {job : Job ℕ} (hrun : s.system.running i = some job) {root : ℕ}
    (hstage : s.stage i = .counting root) (hp : p ∈ s.awaiting) (hsurplus : 0 < s.surplus p) :
    p ∈ (s.countOff i job root).awaiting ∧ (s.countOff i job root).surplus p = s.surplus p := by
  unfold countOff
  simp only
  split_ifs with hlast
  · refine ⟨(Multiset.mem_erase_of_ne ?_).mpr hp, rfl⟩
    rintro rfl
    obtain ⟨hone, -⟩ := Bool.and_eq_true_iff.mp hlast
    have hone : (s.count p).toNat = 1 := congrArg BitVec.toNat (of_decide_eq_true hone)
    obtain ⟨-, -, hsum⟩ := h.asleep p hp
    have hmem : job.task ∈ s.held := mem_held_of_atWork (i := i) (by
      rw [atWork_leaving hrun (.inr ⟨p, hstage⟩)]
      exact Multiset.mem_singleton_self _)
    rcases h.root_cases hrun hstage with ⟨-, hby⟩ | ⟨-, hzero, -⟩
    · have := card_pos.mpr ⟨_, mem_unfinished.mpr ⟨h.lt_of_held hmem, hby, h.not_finished hmem⟩⟩
      omega
    · rw [hzero] at hone
      cases hone
  · exact ⟨hp, rfl⟩

theorem Kept.asleep_runStep (h : s.Kept) {i : ℕ} {job : Job ℕ} (hrun : s.system.running i = some job) (hp : p ∈ s.awaiting)
    (hsurplus : 0 < s.surplus p) : p ∈ (s.runStep i job).awaiting ∧ (s.runStep i job).surplus p = s.surplus p := by
  unfold Coroutines.runStep
  cases hstage : s.stage i with
  | doTask | choosing | ended => exact ⟨hp, rfl⟩
  | suspending jobs =>
    match jobs with
    | [] => exact ⟨hp, rfl⟩
    | (task, jobCount) :: jobs =>
      simp only [Coroutines.suspendStep]
      rw [setRootTask_eq]
      show p ∈ (s.fallAsleep job.task ((task, jobCount) :: jobs) jobCount).awaiting ∧
        (s.fallAsleep job.task ((task, jobCount) :: jobs) jobCount).surplus p = s.surplus p
      unfold fallAsleep
      split_ifs with hzero
      · exact ⟨hp, rfl⟩
      · refine ⟨Multiset.mem_cons_of_mem hp, if_neg ?_⟩
        -- the coroutine that falls asleep is at work
        rintro rfl
        refine h.not_awaiting (mem_held_of_atWork (i := i) ?_) hp
        rw [atWork_of_running hrun, hstage]
        simp [TaskStage.holds, TaskStage.self, hzero]
  | submitting task rest =>
    simp only
    split_ifs
    · exact ⟨hp, rfl⟩
    · exact ⟨hp, rfl⟩
  | returned =>
    simp only
    cases s.rootTask job.task with
    | none => exact ⟨hp, rfl⟩
    | some root => exact ⟨hp, rfl⟩
  | counting root => exact h.asleep_countOff hrun hstage hp hsurplus
  | resuming root =>
    simp only [Coroutines.resumeStep]
    rw [setRootTask_eq]
    exact ⟨hp, rfl⟩

/-- A coroutine with a surplus goes on sleeping. -/
theorem Kept.asleep_next (h : s.Kept) (hp : p ∈ s.awaiting) (hsurplus : 0 < s.surplus p) (a : CoroutineAction) :
    p ∈ (s.next a).awaiting ∧ 0 < (s.next a).surplus p := by
  cases a with
  | submit | submitter | wake | shutDown => exact ⟨hp, hsurplus⟩
  | addAsyncJob i isFunctionTask threadIndex taskCount =>
    simp only [Coroutines.next]
    cases s.inTask i with
    | none => exact ⟨hp, hsurplus⟩
    | some job =>
      simp only [Coroutines.addAsyncJob]
      rw [setRootTask_eq]
      exact ⟨hp, hsurplus⟩
  | await i tuple =>
    simp only [Coroutines.next]
    cases s.inTask i with
    | none => exact ⟨hp, hsurplus⟩
    | some job =>
      simp only [Coroutines.await]
      split_ifs <;> exact ⟨hp, hsurplus⟩
  | resumeOn i threadIndex =>
    simp only [Coroutines.next]
    cases s.inTask i with
    | none => exact ⟨hp, hsurplus⟩
    | some job =>
      simp only [Coroutines.resumeOn]
      split_ifs
      · exact ⟨hp, hsurplus⟩
      · exact ⟨hp, hsurplus⟩
      · rw [setRootTask_eq]
        refine ⟨hp, lt_of_lt_of_le hsurplus ?_⟩
        show s.surplus p ≤ if _ then s.surplus p + 1 else s.surplus p
        split_ifs
        · exact Nat.le_succ _
        · exact le_refl _
  | returnTask i =>
    simp only [Coroutines.next]
    cases s.inTask i with
    | none => exact ⟨hp, hsurplus⟩
    | some job => exact ⟨hp, hsurplus⟩
  | run i =>
    simp only [Coroutines.next]
    cases hrun : s.system.running i with
    | none => exact ⟨hp, hsurplus⟩
    | some job =>
      obtain ⟨hmem, hsame⟩ := h.asleep_runStep hrun hp hsurplus
      exact ⟨hmem, hsame.symm ▸ hsurplus⟩
  | worker i =>
    simp only [Coroutines.next]
    split_ifs
    · unfold workerStep
      split <;> exact ⟨hp, hsurplus⟩
    · exact ⟨hp, hsurplus⟩

end

end Coroutines

/-- **A job that moves strands whoever awaits it.** When a coroutine that another
one awaits moves to another worker, it is counted twice at that one and counted
off once: the other coroutine sleeps in every state from then on. -/
theorem moved_job_strands_coroutine {s t : Coroutines} (h : coroutines.Reach Coroutines.Structured s) {i : ℕ} {job : Job ℕ}
    (htask : s.inTask i = some job) (hcoroutine : job.bFunction = false) {coroutine : ℕ}
    (hawaited : s.awaitedBy job.task = some coroutine) {threadIndex : ℤ} (hother : s.threadIndex job.task ≠ threadIndex)
    (hok : s.Structured (.resumeOn i threadIndex))
    (ht : coroutines.ReachFrom Coroutines.Structured (s.next (.resumeOn i threadIndex)) t) :
    coroutine ∈ t.awaiting := by
  have hkept := Coroutines.reach_kept h
  have hinv : t.Kept ∧ coroutine ∈ t.awaiting ∧ 0 < t.surplus coroutine := by
    refine ht.invariant (I := fun t => t.Kept ∧ coroutine ∈ t.awaiting ∧ 0 < t.surplus coroutine) (fun t ht => ?_)
      fun t a ⟨hk, hc, hs⟩ hok => ⟨hk.next hok, hk.asleep_next hc hs a⟩
    obtain rfl : t = s.next (.resumeOn i threadIndex) := ht
    refine ⟨hkept.next hok, ?_⟩
    obtain ⟨hrun, hstage⟩ := Coroutines.inTask_eq_some.mp htask
    have hmem : job.task ∈ s.atWork i := by
      rw [Coroutines.atWork_doTask hrun hstage]
      exact Multiset.mem_singleton_self _
    have hheld := Coroutines.mem_held_of_atWork hmem
    obtain ⟨hawaiting, hroot⟩ := hkept.awaited _ coroutine hawaited (hkept.not_finished hheld)
    have hlink : s.Linked job.task := hkept.linked hrun (by rwa [← Coroutines.atWork_of_running hrun]) (by
      rw [hstage]
      exact List.not_mem_nil)
    have hne : coroutine ≠ job.task := by
      rintro rfl
      exact hkept.not_awaiting hheld hawaiting
    have hcurrent : ¬ (s.currentJob i).map s.threadIndex = some threadIndex := by
      rw [hkept.current i job hrun hcoroutine]
      exact fun heq => hother (Option.some.inj heq)
    simp only [Coroutines.next, htask, hcoroutine, Coroutines.resumeOn, if_neg hcurrent, hroot hlink]
    rw [Coroutines.setRootTask_eq]
    refine ⟨hawaiting, ?_⟩
    show 0 < if _ then s.surplus coroutine + 1 else s.surplus coroutine
    rw [if_pos ⟨rfl, hne⟩]
    exact Nat.succ_pos _
  exact hinv.2.1

/-! ### Runs on two workers -/

namespace Coroutines

def takeTask (i : ℕ) : List CoroutineAction := List.replicate 20 (.worker i)

def addNext (i : ℕ) : List CoroutineAction := [.run i, .run i] ++ submitAll .submitter ++ [.run i]

def leave (i : ℕ) : List CoroutineAction := [.returnTask i, .run i, .run i, .run i]

def awaitFunction : List CoroutineAction :=
  List.flatten [[.submit false 0], submitAll .submitter, takeTask 0, [.await 0 [[⟨true, 1, false⟩]]], addNext 0, [.run 0, .run 0]]

def functionReturns : List CoroutineAction :=
  List.flatten [takeTask 1, [.returnTask 1, .run 1, .run 1, .run 1, .run 1], submitAll .submitter, takeTask 0]

theorem awaiting_coroutine_resumed_one :
    (coroutines.runFrom (.start 2 true) (awaitFunction ++ functionReturns)).inTask 0 = some ⟨0, false, 0⟩ ∧
      1 ∉ (coroutines.runFrom (.start 2 true) (awaitFunction ++ functionReturns)).held := by
  have hstart : coroutines.Reach Structured (.start 2 true) := .init ⟨2, true, rfl⟩
  have hreach := hstart.of_checked (awaitFunction ++ functionReturns) (by decide +kernel)
  have htask : (coroutines.runFrom (.start 2 true) (awaitFunction ++ functionReturns)).inTask 0 = some ⟨0, false, 0⟩ := by
    decide +kernel
  exact ⟨htask, ((awaiting_coroutine_resumed hreach).2.1 0 _ htask 1 (by decide +kernel)).2⟩

def awaitCoroutine : List CoroutineAction :=
  List.flatten [[.submit false 0], submitAll .submitter, takeTask 0, [.await 0 [[⟨false, 1, false⟩]]], addNext 0, [.run 0, .run 0],
    takeTask 1]

def moveAndReturn : List CoroutineAction :=
  List.flatten [[.run 1], submitAll .submitter, [.run 1, .run 1, .run 1], takeTask 0, leave 0, takeTask 0, takeTask 1]

theorem moved_job_strands_coroutine_one :
    0 ∈ (coroutines.runFrom ((coroutines.runFrom (.start 2 true) awaitCoroutine).next (.resumeOn 1 0)) moveAndReturn).awaiting := by
  have hstart : coroutines.Reach Structured (.start 2 true) := .init ⟨2, true, rfl⟩
  have hreach := hstart.of_checked awaitCoroutine (by decide +kernel)
  have hafter : coroutines.ReachFrom Structured ((coroutines.runFrom (.start 2 true) awaitCoroutine).next (.resumeOn 1 0))
      ((coroutines.runFrom (.start 2 true) awaitCoroutine).next (.resumeOn 1 0)) := .init rfl
  have htask : (coroutines.runFrom (.start 2 true) awaitCoroutine).inTask 1 = some ⟨1, false, 1⟩ := by decide +kernel
  have hby : (coroutines.runFrom (.start 2 true) awaitCoroutine).awaitedBy (⟨1, false, 1⟩ : Job ℕ).task = some 0 := by decide +kernel
  have hother : (coroutines.runFrom (.start 2 true) awaitCoroutine).threadIndex (⟨1, false, 1⟩ : Job ℕ).task ≠ 0 := by decide +kernel
  have hok : (coroutines.runFrom (.start 2 true) awaitCoroutine).Structured (.resumeOn 1 0) := by decide +kernel
  have hrest := hafter.of_checked moveAndReturn (by decide +kernel)
  generalize coroutines.runFrom ((coroutines.runFrom (.start 2 true) awaitCoroutine).next (.resumeOn 1 0)) moveAndReturn = t at *
  generalize coroutines.runFrom (.start 2 true) awaitCoroutine = s at *
  exact moved_job_strands_coroutine hreach htask rfl hby hother hok hrest

end Coroutines

end RudpEngine

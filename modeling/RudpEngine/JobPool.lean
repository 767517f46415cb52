import RudpEngine.JobOutlives

/-!
# The job system as a pool of tasks

Whoever submits tasks needs to know three things of the job system: a task that
is submitted waits, a worker that begins a task takes it out of those that
wait, and nothing else changes what waits and what the workers run.
-/

namespace RudpEngine

open Finset

namespace JobSystem

section
variable {s : JobSystem ℕ} {i : ℕ} {job : Job ℕ}

def Quiet (s : JobSystem ℕ) : JobAction ℕ → Prop
  | .submit _ => False
  | .worker i => (∀ job, (s.workers i).pc ≠ .popped job) ∧ ∀ job, (s.workers i).pc ≠ .running job
  | _ => True

variable (hq : ∀ i, (s.workers i).QueuesOk)
include hq

theorem quiet_next {a : JobAction ℕ} (ha : s.Quiet a) :
    (s.next a).waiting = s.waiting ∧ ∀ k, (s.next a).running k = s.running k := by
  cases a with
  | submit job => cases ha
  | submitter j => exact ⟨waiting_submitterStep hq j, fun k => running_next (by simp)⟩
  | wake j => exact ⟨waiting_wake hq j, fun k => running_next (by simp)⟩
  | shutDown => exact ⟨rfl, fun k => running_next (by simp)⟩
  | worker j =>
    obtain ⟨hpopped, hnot⟩ := ha
    by_cases hj : j < s.threadCount
    · have hwait := waiting_worker hq hj
      rw [Worker.tasksOf_hand_other hpopped, add_zero] at hwait
      refine ⟨hwait, fun k => ?_⟩
      by_cases hk : k = j
      · subst hk
        refine running_congr (threadCount_next s _) fun job => ?_
        have hself : (s.next (.worker k)).workers k = (s.workers k).step s.bSystemWork s.bUseCVWait := by
          rw [next, if_pos hj, workers_setWorker_self]
        exact iff_of_false (by rw [hself]; exact Worker.step_not_running hpopped hnot _ _ job) (hnot job)
      · exact running_next fun h => hk (JobAction.worker.inj h).symm
    · have hsame : s.next (.worker j) = s := if_neg hj
      rw [hsame]
      exact ⟨rfl, fun _ => rfl⟩

theorem begin_next (hi : i < s.threadCount) (hpc : (s.workers i).pc = .popped job) :
    (s.next (.worker i)).waiting + {job.task} = s.waiting ∧ (s.next (.worker i)).running i = some job ∧
      s.running i = none := by
  have hwait := waiting_worker hq hi
  rw [Worker.tasksOf_hand_popped hpc] at hwait
  refine ⟨hwait, running_eq_some.mpr ⟨by rwa [threadCount_next], ?_⟩, running_eq_none fun job' => by simp [hpc]⟩
  rw [next, if_pos hi, workers_setWorker_self]
  unfold Worker.step
  rw [hpc]

theorem end_next (hrun : s.running i = some job) :
    (s.next (.worker i)).waiting = s.waiting ∧ (s.next (.worker i)).running i = none := by
  obtain ⟨hi, hpc⟩ := running_eq_some.mp hrun
  have hwait := waiting_worker hq hi
  rw [Worker.tasksOf_hand_other (by rw [hpc]; simp), add_zero] at hwait
  refine ⟨hwait, running_eq_none fun job' => ?_⟩
  rw [next, if_pos hi, workers_setWorker_self]
  unfold Worker.step
  rw [hpc]
  simp

end

/-! ## What holds of every job -/

section
variable {α : Type} (p : Job α → Prop)

structure AllJobs (s : JobSystem α) : Prop where
  submissions : ∀ sub ∈ s.submissions, p sub.job
  pending : ∀ i kind, ∀ job ∈ (s.workers i).pending kind, p job
  running : ∀ i job, (s.workers i).pc = .running job → p job

variable {p} {s : JobSystem α} {i : ℕ}

theorem AllJobs.mono {q : Job α → Prop} (h : s.AllJobs p) (hpq : ∀ job, p job → q job) : s.AllJobs q where
  submissions sub hsub := hpq _ (h.submissions sub hsub)
  pending i kind job hjob := hpq _ (h.pending i kind job hjob)
  running i job hpc := hpq _ (h.running i job hpc)

theorem allJobs_start (threadCount : ℕ) (bUseCVWait : Bool) : (start threadCount bUseCVWait : JobSystem α).AllJobs p where
  submissions := fun _ h => nomatch h
  pending := fun _ kind _ h => by cases kind <;> cases h
  running := fun _ _ h => nomatch h

theorem AllJobs.setWorker (h : s.AllJobs p) {w : Worker α} (hpending : ∀ kind, ∀ job ∈ w.pending kind, p job)
    (hrunning : ∀ job, w.pc = .running job → p job) : (s.setWorker i w).AllJobs p where
  submissions := h.submissions
  pending j kind job hjob := by
    by_cases hj : j = i
    · subst hj
      rw [workers_setWorker_self] at hjob
      exact hpending kind job hjob
    · rw [workers_setWorker_other _ _ hj] at hjob
      exact h.pending j kind job hjob
  running j job hpc := by
    by_cases hj : j = i
    · subst hj
      rw [workers_setWorker_self] at hpc
      exact hrunning job hpc
    · rw [workers_setWorker_other _ _ hj] at hpc
      exact h.running j job hpc

theorem AllJobs.withSubmissions (h : s.AllJobs p) {submissions : List (Submission α)} (hsub : ∀ sub ∈ submissions, p sub.job) :
    ({ s with submissions := submissions } : JobSystem α).AllJobs p :=
  ⟨hsub, h.pending, h.running⟩

end

theorem running_of_notify {α : Type} {w : Worker α} {job : Job α} (h : w.notify.pc = .running job) :
    w.pc = .running job := by
  unfold Worker.notify at h
  split at h
  · cases h
  · exact h

section
variable {s : JobSystem ℕ} {p : Job ℕ → Prop} (hq : ∀ i, (s.workers i).QueuesOk)
include hq

theorem AllJobs.submitter (h : s.AllJobs p) (k : ℕ) : (s.submitterStep k).AllJobs p := by
  unfold submitterStep
  cases hsub : s.submissions[k]? with
  | none => exact h
  | some sub =>
    have hjob : p sub.job := h.submissions sub (List.mem_of_getElem? hsub)
    have hset : ∀ stage, ∀ sub' ∈ s.submissions.set k { sub with stage := stage }, p sub'.job := by
      intro stage sub' hmem
      rcases List.mem_or_eq_of_mem_set hmem with hold | rfl
      · exact h.submissions sub' hold
      · exact hjob
    -- behind the push, the worker keeps its jobs
    have hbehind : ∀ (w : Worker ℕ) (stage : SubmitStage), w.queues = (s.workers sub.index).queues →
        w.pc = (s.workers sub.index).pc → ((s.setWorker sub.index w).setStage k sub stage).AllJobs p := by
      intro w stage hqueues hpc
      refine (h.setWorker (i := sub.index) (w := w) (fun kind job hmem => ?_) fun job hrun => ?_).withSubmissions (hset stage)
      · refine h.pending sub.index kind job ?_
        unfold Worker.pending Worker.hand Worker.inQueue Worker.stage at hmem ⊢
        rwa [hqueues, hpc] at hmem
      · exact h.running sub.index job (hpc ▸ hrun)
    simp only
    cases hstage : sub.stage with
    | chosen =>
      simp only
      split_ifs with hlt
      · refine (h.setWorker (i := sub.index) (fun kind job hmem => ?_) fun job hrun => ?_).withSubmissions (hset .pushed)
        · rw [Worker.pending_pushBack] at hmem
          rcases List.mem_append.mp hmem with hold | hnew
          · exact h.pending sub.index kind job hold
          · split_ifs at hnew
            · rw [List.mem_singleton.mp hnew]
              exact hjob
            · cases hnew
        · exact h.running sub.index job hrun
      · exact h
    | pushed =>
      simp only
      split_ifs
      · exact h
      · exact hbehind _ _ rfl rfl
    | locked => exact hbehind _ _ rfl rfl
    | counted => exact hbehind _ _ rfl rfl
    | unlocked =>
      refine (h.setWorker (i := sub.index) (fun kind job hmem => ?_) fun job hrun => ?_).withSubmissions
        fun sub' hmem => h.submissions sub' (List.mem_of_mem_eraseIdx hmem)
      · rw [(Worker.notify_pending (hq sub.index)).2] at hmem
        exact h.pending sub.index kind job hmem
      · exact h.running sub.index job (running_of_notify hrun)

theorem AllJobs.worker (h : s.AllJobs p) (i : ℕ) :
    (s.setWorker i ((s.workers i).step s.bSystemWork s.bUseCVWait)).AllJobs p := by
  have hpending := (Worker.step_pending (hq i) s.bSystemWork s.bUseCVWait).2
  refine h.setWorker (fun kind job hmem => ?_) fun job hrun => ?_
  · rw [hpending] at hmem
    exact h.pending i kind job (List.mem_append_right _ hmem)
  · cases hpc : (s.workers i).pc with
    | popped job' =>
      have hstep : ((s.workers i).step s.bSystemWork s.bUseCVWait).pc = .running job' := by
        unfold Worker.step
        rw [hpc]
      obtain rfl : job' = job := WorkerPc.running.inj (hstep.symm.trans hrun)
      refine h.pending i job'.queue job' (List.mem_append_left _ ?_)
      unfold Worker.hand
      rw [hpc]
      simp
    | running job' =>
      unfold Worker.step at hrun
      rw [hpc] at hrun
      cases hrun
    | _ => exact absurd hrun (Worker.step_not_running (by rw [hpc]; simp) (by rw [hpc]; simp) _ _ job)

/-- What holds of every job that is submitted holds of every job in the system. -/
theorem AllJobs.next (h : s.AllJobs p) {a : JobAction ℕ} (ha : ∀ job, a = .submit job → p job) : (s.next a).AllJobs p := by
  cases a with
  | submit job =>
    obtain ⟨-, hworkers, i, hsub⟩ := s.internalAddJob_same job
    refine ⟨fun sub hmem => ?_, fun i kind => ?_, fun i => ?_⟩
    · have hmem : sub ∈ (s.internalAddJob job).submissions := hmem
      rw [hsub] at hmem
      rcases List.mem_append.mp hmem with hold | hnew
      · exact h.submissions sub hold
      · rw [List.mem_singleton.mp hnew]
        exact ha job rfl
    · show ∀ job' ∈ ((s.internalAddJob job).workers i).pending kind, p job'
      rw [hworkers]
      exact h.pending i kind
    · show ∀ job', ((s.internalAddJob job).workers i).pc = .running job' → p job'
      rw [hworkers]
      exact h.running i
  | submitter k => exact h.submitter hq k
  | worker i =>
    simp only [JobSystem.next]
    split_ifs
    · exact h.worker hq i
    · exact h
  | wake i =>
    refine h.setWorker (fun kind job hmem => ?_) fun job hrun => ?_
    · rw [(Worker.notify_pending (hq i)).2] at hmem
      exact h.pending i kind job hmem
    · exact h.running i job (running_of_notify hrun)
  | shutDown => exact ⟨h.submissions, h.pending, h.running⟩

end

end JobSystem

end RudpEngine

import RudpEngine.JobTree
import Mathlib.Algebra.BigOperators.Group.Finset.Basic
import Mathlib.Data.Multiset.Range
import Mathlib.Tactic.Abel

/-!
# Whether a root task is still there

Every job is in one place until it is deleted: with the thread that submits it,
in a queue, in the hand of a worker, or run by it. As long as no job is deleted
before those it has submitted, no counter of a deleted root task is touched.
-/

namespace RudpEngine

open Finset

theorem sum_range_change {M : Type} [AddCommMonoid M] {n i : ℕ} (hi : i < n) {f g : ℕ → M} {x y : M}
    (hother : ∀ j, j ≠ i → g j = f j) (h : g i + x = f i + y) : ∑ j ∈ range n, g j + x = ∑ j ∈ range n, f j + y := by
  have hmem : i ∈ range n := mem_range.mpr hi
  rw [← sum_erase_add _ _ hmem, ← sum_erase_add (range n) f hmem, add_assoc, h, ← add_assoc]
  congr 2
  exact sum_congr rfl fun j hj => hother j (ne_of_mem_erase hj)

/-! ## The jobs that wait -/

def tasksOf (f : QueueKind → List (Job ℕ)) : Multiset ℕ :=
  (f .localFunc).map Job.task + (f .localCoroutine).map Job.task + (f .globalFunc).map Job.task +
    (f .globalCoroutine).map Job.task

theorem tasksOf_append (f g : QueueKind → List (Job ℕ)) :
    tasksOf (fun kind => f kind ++ g kind) = tasksOf f + tasksOf g := by
  simp only [tasksOf, List.map_append, ← Multiset.coe_add]
  abel

theorem tasksOf_single (job : Job ℕ) :
    tasksOf (fun kind => if job.queue = kind then [job] else []) = {job.task} := by
  unfold tasksOf
  cases job.queue <;> simp

namespace Worker

variable {w : Worker ℕ}

def tasks (w : Worker ℕ) : Multiset ℕ := tasksOf w.pending

theorem tasks_pushBack (w : Worker ℕ) (job : Job ℕ) : (w.pushBack job).tasks = w.tasks + {job.task} := by
  rw [tasks, funext (w.pending_pushBack job), tasksOf_append, tasksOf_single, tasks]

theorem tasks_notify (h : w.QueuesOk) : w.notify.tasks = w.tasks := by
  rw [tasks, funext (notify_pending h).2, tasks]

theorem tasks_step (h : w.QueuesOk) (b c : Bool) : (w.step b c).tasks + tasksOf w.hand = w.tasks := by
  have hpending : w.pending = fun kind => w.hand kind ++ w.inQueue kind := rfl
  rw [tasks, funext (step_pending h b c).2, tasks, hpending, tasksOf_append, add_comm]

theorem tasksOf_hand_popped {job : Job ℕ} (hpc : w.pc = .popped job) : tasksOf w.hand = {job.task} := by
  rw [← tasksOf_single]
  congr 1
  funext kind
  unfold hand
  rw [hpc]

theorem tasksOf_hand_other (hpc : ∀ job, w.pc ≠ .popped job) : tasksOf w.hand = 0 := by
  have hnone : w.hand = fun _ => [] := by
    funext kind
    unfold hand
    cases h : w.pc with
    | popped job => exact absurd h (hpc job)
    | _ => rfl
  rw [hnone]
  rfl

end Worker

namespace JobSystem

variable (s : JobSystem ℕ)

def unpushed (submissions : List (Submission ℕ)) : Multiset ℕ :=
  (submissions.filter fun sub => sub.stage = .chosen).map fun sub => sub.job.task

def waiting : Multiset ℕ := unpushed s.submissions + ∑ i ∈ range s.threadCount, (s.workers i).tasks

theorem unpushed_append (l r : List (Submission ℕ)) : unpushed (l ++ r) = unpushed l + unpushed r := by
  simp only [unpushed, List.filter_append, List.map_append, Multiset.coe_add]

theorem unpushed_cons (sub : Submission ℕ) (l : List (Submission ℕ)) :
    unpushed (sub :: l) = (if sub.stage = .chosen then {sub.job.task} else 0) + unpushed l := by
  unfold unpushed
  by_cases h : sub.stage = .chosen
  · simp [h]
  · simp [h]

variable {s} {k : ℕ} {sub : Submission ℕ}

theorem unpushed_setStage (h : s.submissions[k]? = some sub) (stage : SubmitStage) :
    unpushed (s.submissions.set k { sub with stage := stage }) + (if sub.stage = .chosen then {sub.job.task} else 0) =
      unpushed s.submissions + (if stage = .chosen then {sub.job.task} else 0) := by
  obtain ⟨l, r, hsplit, hset, -⟩ := submissions_split h
  rw [hset, hsplit, unpushed_append, unpushed_append, unpushed_cons, unpushed_cons]
  abel

theorem unpushed_eraseIdx (h : s.submissions[k]? = some sub) :
    unpushed (s.submissions.eraseIdx k) + (if sub.stage = .chosen then {sub.job.task} else 0) =
      unpushed s.submissions := by
  obtain ⟨l, r, hsplit, -, herase⟩ := submissions_split h
  rw [herase, hsplit, unpushed_append, unpushed_append, unpushed_cons]
  abel

theorem waiting_of_same {t : JobSystem ℕ} (hsub : unpushed t.submissions = unpushed s.submissions)
    (hcount : t.threadCount = s.threadCount) (hw : ∀ i, (t.workers i).tasks = (s.workers i).tasks) :
    t.waiting = s.waiting := by
  rw [waiting, hsub, hcount, waiting]
  congr 1
  exact sum_congr rfl fun i _ => hw i

theorem tasks_setWorker {i : ℕ} {w : Worker ℕ} (h : w.tasks = (s.workers i).tasks) (j : ℕ) :
    ((s.setWorker i w).workers j).tasks = (s.workers j).tasks := by
  by_cases hj : j = i
  · subst hj
    rw [workers_setWorker_self, h]
  · rw [workers_setWorker_other _ _ hj]

theorem internalAddJob_same (s : JobSystem ℕ) (job : Job ℕ) :
    (s.internalAddJob job).threadCount = s.threadCount ∧ (s.internalAddJob job).workers = s.workers ∧
      ∃ i, (s.internalAddJob job).submissions = s.submissions ++ [⟨job, i, .chosen⟩] := by
  unfold internalAddJob
  split
  · obtain ⟨hworkers, hsub⟩ := s.takeThreadIndex_same
    have hcount : s.takeThreadIndex.2.threadCount = s.threadCount := by unfold takeThreadIndex; split <;> rfl
    exact ⟨hcount, hworkers, _, congrArg (· ++ [_]) hsub⟩
  · exact ⟨rfl, rfl, _, rfl⟩

theorem waiting_internalAddJob (s : JobSystem ℕ) (job : Job ℕ) :
    (s.internalAddJob job).waiting = s.waiting + {job.task} := by
  obtain ⟨hcount, hworkers, i, hsub⟩ := s.internalAddJob_same job
  have hnew : unpushed [⟨job, i, .chosen⟩] = {job.task} := rfl
  rw [waiting, hcount, hworkers, hsub, unpushed_append, hnew, waiting]
  abel

theorem threadCount_submitterStep (s : JobSystem ℕ) (k : ℕ) : (s.submitterStep k).threadCount = s.threadCount := by
  unfold submitterStep
  cases s.submissions[k]? with
  | none => rfl
  | some sub => cases hstage : sub.stage <;> simp only [hstage] <;> (try split) <;> rfl

/-- A submitter moves its job from its hand into the queue, and no other job. -/
theorem waiting_submitterStep (hq : ∀ i, (s.workers i).QueuesOk) (k : ℕ) : (s.submitterStep k).waiting = s.waiting := by
  unfold submitterStep
  cases hsub : s.submissions[k]? with
  | none => rfl
  | some sub =>
    -- behind the push, only the signal of the worker changes
    have hbehind : ∀ (w : Worker ℕ) (stage : SubmitStage), sub.stage ≠ .chosen → stage ≠ .chosen →
        w.tasks = (s.workers sub.index).tasks → ((s.setWorker sub.index w).setStage k sub stage).waiting = s.waiting := by
      intro w stage hold hnew hw
      refine waiting_of_same ?_ rfl (tasks_setWorker hw)
      have := unpushed_setStage hsub stage
      rwa [if_neg hold, if_neg hnew, add_zero, add_zero] at this
    simp only
    cases hstage : sub.stage with
    | chosen =>
      simp only
      split_ifs with hlt
      · have hpush := unpushed_setStage hsub .pushed
        rw [hstage, if_pos rfl, if_neg (by decide), add_zero] at hpush
        have hqueue := sum_range_change (x := 0) (y := {sub.job.task}) hlt (f := fun i => (s.workers i).tasks)
          (g := fun i => ((s.setWorker sub.index ((s.workers sub.index).pushBack sub.job)).workers i).tasks)
          (fun j hj => by rw [workers_setWorker_other _ _ hj])
          (by rw [workers_setWorker_self, Worker.tasks_pushBack, add_zero])
        rw [add_zero] at hqueue
        show unpushed (s.submissions.set k { sub with stage := .pushed }) + _ = s.waiting
        rw [waiting, ← hpush]
        exact (congrArg _ hqueue).trans (by abel)
      · rfl
    | pushed =>
      simp only
      split_ifs
      · rfl
      · exact hbehind { s.workers sub.index with locked := true } _ (by rw [hstage]; decide) (by decide) rfl
    | locked =>
      exact hbehind { s.workers sub.index with pendingTaskCount := _ } _ (by rw [hstage]; decide) (by decide) rfl
    | counted => exact hbehind { s.workers sub.index with locked := false } _ (by rw [hstage]; decide) (by decide) rfl
    | unlocked =>
      refine waiting_of_same ?_ rfl (tasks_setWorker (Worker.tasks_notify (hq sub.index)))
      have := unpushed_eraseIdx hsub
      rwa [hstage, if_neg (by decide), add_zero] at this

theorem waiting_worker (hq : ∀ i, (s.workers i).QueuesOk) {i : ℕ} (hi : i < s.threadCount) :
    (s.next (.worker i)).waiting + tasksOf (s.workers i).hand = s.waiting := by
  have hqueue := sum_range_change (x := tasksOf (s.workers i).hand) (y := 0) hi (f := fun j => (s.workers j).tasks)
    (g := fun j => ((s.setWorker i ((s.workers i).step s.bSystemWork s.bUseCVWait)).workers j).tasks)
    (fun j hj => by rw [workers_setWorker_other _ _ hj])
    (by rw [workers_setWorker_self, Worker.tasks_step (hq i), add_zero])
  rw [add_zero] at hqueue
  have hnext : s.next (.worker i) = s.setWorker i ((s.workers i).step s.bSystemWork s.bUseCVWait) := if_pos hi
  rw [hnext, waiting, waiting, add_assoc]
  exact congrArg _ hqueue

theorem waiting_wake (hq : ∀ i, (s.workers i).QueuesOk) (i : ℕ) : (s.next (.wake i)).waiting = s.waiting :=
  waiting_of_same rfl rfl (tasks_setWorker (Worker.tasks_notify (hq i)))

end JobSystem

theorem Worker.step_not_running {w : Worker ℕ} (hpopped : ∀ job, w.pc ≠ .popped job) (hrun : ∀ job, w.pc ≠ .running job)
    (b c : Bool) (job : Job ℕ) : (w.step b c).pc ≠ .running job := by
  unfold Worker.step
  cases hpc : w.pc with
  | loop => cases b <;> simp
  | polling kind stage =>
    simp only
    generalize (w.queues kind).tryPopFront stage = r
    obtain ⟨q, stage' | entry⟩ := r
    · simp
    · cases entry with
      | some job' => simp
      | none => cases kind <;> cases c <;> simp [QueueKind.next]
  | popped job' => exact absurd hpc (hpopped job')
  | running job' => exact absurd hpc (hrun job')
  | locking =>
    simp only
    split_ifs
    · rw [hpc]; simp
    · simp
  | predicate =>
    simp only
    split_ifs <;> simp
  | waiting | stopped => simp [hpc]
  | blocking => simp

namespace JobSystem

section
variable {α : Type} {s t : JobSystem α} {i : ℕ} {job : Job α}

theorem running_eq_some : s.running i = some job ↔ i < s.threadCount ∧ (s.workers i).pc = .running job := by
  unfold running
  split_ifs with hi
  · cases (s.workers i).pc <;> simp [hi]
  · simp [hi]

theorem running_eq_none (h : ∀ job, (s.workers i).pc ≠ .running job) : s.running i = none := by
  rw [Option.eq_none_iff_forall_ne_some]
  exact fun job hjob => h job (running_eq_some.mp hjob).2

theorem running_congr (hcount : t.threadCount = s.threadCount)
    (hpc : ∀ job, (t.workers i).pc = .running job ↔ (s.workers i).pc = .running job) : t.running i = s.running i := by
  apply Option.ext
  intro job
  rw [running_eq_some, running_eq_some, hcount, hpc]

end

variable {s : JobSystem ℕ} {i : ℕ}

theorem threadCount_next (s : JobSystem ℕ) (a : JobAction ℕ) : (s.next a).threadCount = s.threadCount := by
  cases a with
  | submit job => exact (s.internalAddJob_same job).1
  | submitter k => exact s.threadCount_submitterStep k
  | worker i =>
    simp only [JobSystem.next]
    split <;> rfl
  | wake i => rfl
  | shutDown => rfl

theorem running_next {a : JobAction ℕ} (ha : a ≠ .worker i) : (s.next a).running i = s.running i := by
  refine running_congr (s.threadCount_next a) fun job => ?_
  rcases JobHistory.next_pc (s := s) ha with hsame | ⟨hold, hnew⟩
  · rw [hsame]
  · rw [hold, hnew]
    simp

end JobSystem

namespace JobTree

variable {s t : JobTree} {i k : ℕ} {job : Job ℕ}

theorem running_next {a : JobAction ℕ} (hsys : t.system = s.system.next a) (ha : a ≠ .worker i) :
    t.running i = s.running i := by
  unfold running
  rw [hsys, JobSystem.running_next ha]

/-! ## Where the jobs are -/

end JobTree

/-- The tasks that are with the worker at its stage: the one it runs until it deletes it, and the one it has made. -/
def RunStage.holds (job : Job ℕ) : RunStage → Multiset ℕ
  | .adding job' _ => {job'.task} + {job.task}
  | .choosing job' => {job'.task} + {job.task}
  | .counting _ => 0
  | .ended => 0
  | _ => {job.task}

namespace JobTree

def atWork (s : JobTree) (i : ℕ) : Multiset ℕ :=
  match s.running i with
  | some job => (s.stage i).holds job
  | none => 0

def held (s : JobTree) : Multiset ℕ := s.system.waiting + ∑ i ∈ range s.system.threadCount, s.atWork i

variable {s t : JobTree} {i k : ℕ} {job : Job ℕ}

theorem atWork_of_running (h : s.running i = some job) : s.atWork i = (s.stage i).holds job := by
  unfold atWork
  rw [h]

theorem atWork_of_not_running (h : s.running i = none) : s.atWork i = 0 := by
  unfold atWork
  rw [h]

theorem atWork_congr (hrun : t.running i = s.running i) (hstage : t.stage i = s.stage i) : t.atWork i = s.atWork i := by
  unfold atWork
  rw [hrun, hstage]

theorem held_setStage (h : s.running i = some job) (stage : RunStage) :
    (s.setStage i stage).held + (s.stage i).holds job = s.held + stage.holds job := by
  have hother : ∀ j, j ≠ i → (s.setStage i stage).atWork j = s.atWork j :=
    fun j hj => atWork_congr rfl (if_neg hj)
  have hnew : (s.setStage i stage).atWork i = stage.holds job := by
    rw [atWork_of_running (s := s.setStage i stage) h]
    exact congrArg _ (if_pos rfl)
  have hsum := sum_range_change (x := (s.stage i).holds job) (y := stage.holds job) (JobSystem.running_eq_some.mp h).1 hother
    (by rw [hnew, atWork_of_running h, add_comm])
  show s.system.waiting + _ + _ = _
  rw [add_assoc]
  exact (congrArg _ hsum).trans (add_assoc _ _ _).symm

theorem counting_of_setStage {stage : RunStage} {root : ℕ} (hne : ∀ r, stage ≠ .counting r)
    (h : (s.setStage i stage).stage k = .counting root) : s.stage k = .counting root := by
  by_cases hki : k = i
  · exact absurd ((if_pos hki).symm.trans h) (hne root)
  · exact (if_neg hki).symm.trans h

theorem mem_held_of_running {task : ℕ} (hrun : s.running i = some job) (hmem : task ∈ (s.stage i).holds job) :
    task ∈ s.held := by
  refine Multiset.mem_add.mpr (.inr ?_)
  rw [Multiset.mem_sum]
  exact ⟨i, mem_range.mpr (JobSystem.running_eq_some.mp hrun).1, by rwa [atWork_of_running hrun]⟩

theorem held_of_waiting {x y : Multiset ℕ} (hcount : t.system.threadCount = s.system.threadCount)
    (hat : ∀ j, t.atWork j = s.atWork j) (hwait : t.system.waiting + x = s.system.waiting + y) :
    t.held + x = s.held + y := by
  have hsum : ∑ j ∈ range t.system.threadCount, t.atWork j = ∑ j ∈ range s.system.threadCount, s.atWork j := by
    rw [hcount]
    exact sum_congr rfl fun j _ => hat j
  rw [held, held, hsum, add_right_comm, hwait, add_right_comm]

theorem held_of_waiting_eq (hcount : t.system.threadCount = s.system.threadCount) (hat : ∀ j, t.atWork j = s.atWork j)
    (hwait : t.system.waiting = s.system.waiting) : t.held = s.held :=
  add_right_cancel (held_of_waiting hcount hat (congrArg (· + 0) hwait))

theorem held_internalAddJob (s : JobTree) (job : Job ℕ) :
    ({ s with system := s.system.internalAddJob job } : JobTree).held = s.held + {job.task} := by
  have h := held_of_waiting (s := s) (t := { s with system := s.system.internalAddJob job }) (x := 0) (y := {job.task})
    (s.system.internalAddJob_same job).1
    (fun j => atWork_congr (running_next (a := .submit job) rfl (by simp)) rfl)
    (by rw [add_zero]; exact s.system.waiting_internalAddJob job)
  rwa [add_zero] at h

/-! ## The tasks -/

section
variable (task : ℕ)

theorem rootTask_setCount (s : JobTree) (t : ℕ) (f : BitVec 32 → BitVec 32) :
    (s.setCount t f).rootTask task = s.rootTask task := by
  unfold rootTask setCount
  rw [List.getElem?_modify]
  split_ifs <;> cases s.tasks[task]? <;> rfl

theorem length_setCount (s : JobTree) (t : ℕ) (f : BitVec 32 → BitVec 32) :
    (s.setCount t f).tasks.length = s.tasks.length := List.length_modify ..

theorem rootTask_newTask (s : JobTree) (root : Option ℕ) (count : BitVec 32) :
    (s.newTask root count).rootTask task = if task = s.tasks.length then root else s.rootTask task := by
  unfold rootTask newTask
  rcases Nat.lt_trichotomy task s.tasks.length with hlt | rfl | hgt
  · rw [if_neg (by omega), List.getElem?_append_left hlt]
  · rw [if_pos rfl, List.getElem?_concat_length]
    rfl
  · rw [if_neg (by omega), List.getElem?_eq_none (by rw [List.length_append, List.length_singleton]; omega),
      List.getElem?_eq_none (by omega)]

end

theorem addChildren_cases (s : JobTree) (task : ℕ) (count : ℤ) :
    s.addChildren task count = s ∨ ∃ root f, s.addChildren task count = s.setCount root f := by
  unfold addChildren
  cases s.rootTask task with
  | none => exact .inl rfl
  | some root =>
    simp only
    by_cases hcount : count ≠ 0
    · rw [if_pos hcount]
      exact .inr ⟨root, _, rfl⟩
    · rw [if_neg hcount]
      exact .inl rfl

/-! ## What is kept -/

/-- Every job is in one place or deleted; and a job with a root task, or that is counted off there, is deleted before it. -/
structure Kept (s : JobTree) : Prop where
  reach : (jobSystem ℕ).Reachable s.system
  current : ∀ i job, s.running i = some job → s.currentJob i = some job.task
  once : s.held + (s.deleted : Multiset ℕ) = Multiset.range s.tasks.length
  root : ∀ task root, s.rootTask task = some root → task ∉ s.deleted → root ∉ s.deleted
  counting : ∀ i root, (s.running i).isSome → s.stage i = .counting root → root ∉ s.deleted

theorem kept_start (threadCount : ℕ) (bUseCVWait : Bool) : (start threadCount bUseCVWait).Kept where
  reach := .init ⟨threadCount, bUseCVWait, rfl⟩
  current i job h := by
    have := (JobSystem.running_eq_some.mp h).2
    cases this
  once := by
    have hnone : ∀ i, (start threadCount bUseCVWait).running i = none :=
      fun i => JobSystem.running_eq_none fun job hpc => nomatch hpc
    have hwait : (start threadCount bUseCVWait).system.waiting = 0 := by
      show 0 + ∑ i ∈ range threadCount, (Worker.start : Worker ℕ).tasks = 0
      rw [zero_add]
      exact sum_eq_zero fun i _ => rfl
    rw [held, hwait, sum_eq_zero fun i _ => atWork_of_not_running (hnone i)]
    rfl
  root task root h := by cases h
  counting i root _ h := by cases h

namespace Kept

variable (h : s.Kept)
include h

theorem queuesOk (i : ℕ) : (s.system.workers i).QueuesOk := JobSystem.reach_queuesOk h.reach i

theorem reach_next (a : JobAction ℕ) : (jobSystem ℕ).Reachable (s.system.next a) := .next h.reach trivial

theorem count_le (task : ℕ) : s.held.count task + s.deleted.count task ≤ 1 := by
  have := Multiset.nodup_iff_count_le_one.mp (h.once ▸ Multiset.nodup_range s.tasks.length) task
  rwa [Multiset.count_add, Multiset.coe_count] at this

theorem not_deleted {task : ℕ} (hheld : task ∈ s.held) : task ∉ s.deleted := by
  intro hdel
  have hle := h.count_le task
  have h1 := Multiset.count_pos.mpr hheld
  have h2 := List.count_pos_iff.mpr hdel
  omega

theorem of_same {t : JobTree} (hreach : (jobSystem ℕ).Reachable t.system)
    (hcurrent : ∀ i job, t.running i = some job → t.currentJob i = some job.task) (hheld : t.held = s.held)
    (hlen : t.tasks.length = s.tasks.length) (hroot : ∀ task, t.rootTask task = s.rootTask task)
    (hdel : t.deleted = s.deleted)
    (hcounting : ∀ i root, (t.running i).isSome → t.stage i = .counting root →
      (s.running i).isSome ∧ s.stage i = .counting root) : t.Kept where
  reach := hreach
  current := hcurrent
  once := by rw [hheld, hdel, hlen, h.once]
  root task root := by
    rw [hroot, hdel]
    exact h.root task root
  counting i root hrun hstage := by
    obtain ⟨hrun', hstage'⟩ := hcounting i root hrun hstage
    rw [hdel]
    exact h.counting i root hrun' hstage'

theorem setStage (hrun : s.running i = some job) {stage : RunStage} (hholds : stage.holds job = (s.stage i).holds job)
    (hne : ∀ root, stage ≠ .counting root) : (s.setStage i stage).Kept := by
  have hheld := held_setStage hrun stage
  rw [hholds] at hheld
  refine h.of_same (t := s.setStage i stage) h.reach h.current (add_right_cancel hheld) rfl (fun _ => rfl) rfl ?_
  exact fun k root hk hstage => ⟨hk, counting_of_setStage hne hstage⟩

theorem setCount (t : ℕ) (f : BitVec 32 → BitVec 32) : (s.setCount t f).Kept :=
  h.of_same h.reach h.current rfl (length_setCount s t f) (fun task => rootTask_setCount task s t f) rfl
    fun _ _ hk hstage => ⟨hk, hstage⟩

theorem addChildren (task : ℕ) (count : ℤ) : (s.addChildren task count).Kept := by
  rcases s.addChildren_cases task count with heq | ⟨root, f, heq⟩
  · rw [heq]
    exact h
  · rw [heq]
    exact h.setCount root f

theorem newTask (root : Option ℕ) (count : BitVec 32) {t : JobTree} (hroot : ∀ r, root = some r → r ∈ s.held)
    (hreach : (jobSystem ℕ).Reachable t.system) (hcurrent : ∀ i job, t.running i = some job → t.currentJob i = some job.task)
    (htasks : t.tasks = (s.newTask root count).tasks) (hdel : t.deleted = s.deleted)
    (hheld : t.held = s.held + {s.tasks.length}) (hcounting : ∀ i root, (t.running i).isSome → t.stage i = .counting root →
      (s.running i).isSome ∧ s.stage i = .counting root) : t.Kept where
  reach := hreach
  current := hcurrent
  once := by
    have hlen : t.tasks.length = s.tasks.length + 1 := by
      rw [htasks]
      exact List.length_append
    rw [hheld, hdel, hlen, Multiset.range_succ, ← h.once, ← Multiset.singleton_add]
    abel
  root task r htask hnot := by
    have heq : t.rootTask task = (s.newTask root count).rootTask task := by rw [rootTask, htasks, rootTask]
    rw [heq, rootTask_newTask] at htask
    rw [hdel] at hnot ⊢
    by_cases hnew : task = s.tasks.length
    · rw [if_pos hnew] at htask
      exact h.not_deleted (hroot r htask)
    · rw [if_neg hnew] at htask
      exact h.root task r htask hnot
  counting i r hrun hstage := by
    obtain ⟨hrun', hstage'⟩ := hcounting i r hrun hstage
    rw [hdel]
    exact h.counting i r hrun' hstage'

theorem submit (threadIndex : ℤ) : (s.next (.submit threadIndex)).Kept := by
  have hrun : ∀ i, (s.next (.submit threadIndex)).running i = s.running i :=
    fun i => running_next (a := .submit ⟨s.tasks.length, true, threadIndex⟩) rfl (by simp)
  refine h.newTask none 1 (fun r hr => nomatch hr)
    (h.reach_next (.submit ⟨s.tasks.length, true, threadIndex⟩)) (fun i job hjob => ?_) rfl rfl ?_
    fun i r hsome hstage => ⟨by rwa [hrun] at hsome, hstage⟩
  · rw [hrun] at hjob
    exact h.current i job hjob
  · exact held_internalAddJob (s.newTask none 1) ⟨s.tasks.length, true, threadIndex⟩

theorem addAsyncJob (i : ℕ) (threadIndex taskCount : ℤ) : (s.next (.addAsyncJob i threadIndex taskCount)).Kept := by
  show (if s.inTask i then (s.newTask (s.currentJob i) 0).setStage i _ else s).Kept
  split_ifs with htask
  · obtain ⟨hsome, hstage⟩ := Bool.and_eq_true_iff.mp htask
    obtain ⟨job, hrun⟩ := Option.isSome_iff_exists.mp hsome
    have hstage : s.stage i = .doTask := of_decide_eq_true hstage
    have hheld := held_setStage (s := s.newTask (s.currentJob i) 0) hrun
      (.adding ⟨s.tasks.length, true, threadIndex⟩ taskCount)
    have hbefore : ((s.newTask (s.currentJob i) 0).stage i).holds job = {job.task} := by
      show (s.stage i).holds job = _
      rw [hstage]
      rfl
    rw [hbefore] at hheld
    refine h.newTask (s.currentJob i) 0 (fun r hr => ?_) h.reach h.current rfl rfl ?_
      fun k r hk hstage' => ⟨hk, counting_of_setStage (by simp) hstage'⟩
    · -- the root task is the job that runs
      obtain rfl : job.task = r := Option.some.inj ((h.current i job hrun).symm.trans hr)
      exact mem_held_of_running hrun (by rw [hstage]; exact Multiset.mem_singleton_self _)
    · refine add_right_cancel (b := {job.task}) (hheld.trans ?_)
      rw [add_assoc]
      rfl
  · exact h

theorem returnTask (i : ℕ) : (s.next (.returnTask i)).Kept := by
  show (if s.inTask i then s.setStage i .notifyRootTask else s).Kept
  split_ifs with htask
  · obtain ⟨hsome, hstage⟩ := Bool.and_eq_true_iff.mp htask
    obtain ⟨job, hrun⟩ := Option.isSome_iff_exists.mp hsome
    refine h.setStage hrun ?_ (by simp)
    rw [of_decide_eq_true hstage]
    rfl
  · exact h

theorem ofSystem {a : JobAction ℕ}
    (hrun : ∀ i, ({ s with system := s.system.next a } : JobTree).running i = s.running i)
    (hwait : (s.system.next a).waiting = s.system.waiting) : ({ s with system := s.system.next a } : JobTree).Kept := by
  refine h.of_same (h.reach_next a) (fun i job hjob => ?_) ?_ rfl (fun _ => rfl) rfl
    fun i r hsome hstage => ⟨by rwa [hrun] at hsome, hstage⟩
  · rw [hrun] at hjob
    exact h.current i job hjob
  · exact held_of_waiting_eq (JobSystem.threadCount_next _ _) (fun j => atWork_congr (hrun j) rfl) hwait

theorem systemStep {a : JobAction ℕ} (ha : ∀ i, a ≠ .worker i) (hwait : (s.system.next a).waiting = s.system.waiting) :
    ({ s with system := s.system.next a } : JobTree).Kept :=
  h.ofSystem (fun i => running_next rfl (ha i)) hwait

theorem otherStep {i : ℕ} (hpopped : ∀ job, (s.system.workers i).pc ≠ .popped job)
    (hnot : ∀ job, (s.system.workers i).pc ≠ .running job) :
    ({ s with system := s.system.next (.worker i) } : JobTree).Kept := by
  by_cases hi : i < s.system.threadCount
  · have hself : (s.system.next (.worker i)).workers i = (s.system.workers i).step s.system.bSystemWork s.system.bUseCVWait := by
      rw [JobSystem.next, if_pos hi, JobSystem.workers_setWorker_self]
    have hrun : ∀ k, ({ s with system := s.system.next (.worker i) } : JobTree).running k = s.running k := by
      intro k
      by_cases hk : k = i
      · subst hk
        refine JobSystem.running_congr (JobSystem.threadCount_next _ _) fun job => ?_
        exact iff_of_false (by rw [hself]; exact Worker.step_not_running hpopped hnot _ _ job) (hnot job)
      · exact running_next rfl fun ha => hk (JobAction.worker.inj ha).symm
    have hwait := JobSystem.waiting_worker h.queuesOk hi
    rw [Worker.tasksOf_hand_other hpopped, add_zero] at hwait
    exact h.ofSystem hrun hwait
  · have hsame : s.system.next (.worker i) = s.system := if_neg hi
    rw [hsame]
    exact h

theorem beginStep {i : ℕ} {job : Job ℕ} (hpc : (s.system.workers i).pc = .popped job) (hi : i < s.system.threadCount) :
    (({ s with
      system := s.system.next (.worker i)
      currentJob := fun k => if k = i then some job.task else s.currentJob k } : JobTree).setStage i .doTask).Kept := by
  have hself : ((s.system.next (.worker i)).workers i).pc = .running job := by
    rw [JobSystem.next, if_pos hi, JobSystem.workers_setWorker_self]
    unfold Worker.step
    rw [hpc]
  generalize ht : (({ s with
    system := s.system.next (.worker i)
    currentJob := fun k => if k = i then some job.task else s.currentJob k } : JobTree).setStage i .doTask) = t
  have hsystem : t.system = s.system.next (.worker i) := by rw [← ht]; rfl
  have hstage : ∀ k, t.stage k = if k = i then .doTask else s.stage k := by rw [← ht]; exact fun _ => rfl
  have hnew : t.running i = some job :=
    JobSystem.running_eq_some.mpr ⟨by rw [hsystem, JobSystem.threadCount_next]; exact hi, by rw [hsystem]; exact hself⟩
  have hold : s.running i = none := JobSystem.running_eq_none fun job' => by simp [hpc]
  have hother : ∀ k, k ≠ i → t.running k = s.running k :=
    fun k hk => running_next hsystem fun ha => hk (JobAction.worker.inj ha).symm
  have hwait := JobSystem.waiting_worker h.queuesOk hi
  rw [Worker.tasksOf_hand_popped hpc, ← hsystem] at hwait
  have hsum := sum_range_change (x := 0) (y := {job.task}) hi (f := s.atWork) (g := t.atWork)
    (fun k hk => atWork_congr (hother k hk) (by rw [hstage, if_neg hk]))
    (by rw [atWork_of_running hnew, atWork_of_not_running hold, hstage, if_pos rfl, add_zero, zero_add]; rfl)
  rw [add_zero] at hsum
  refine h.of_same (hsystem ▸ h.reach_next _) (fun k job' hjob' => ?_) ?_ (by rw [← ht]; rfl) (by rw [← ht]; exact fun _ => rfl)
    (by rw [← ht]; rfl) fun k r hsome hk => ?_
  · have hcurrent : t.currentJob k = if k = i then some job.task else s.currentJob k := by rw [← ht]; rfl
    rw [hcurrent]
    split_ifs with hki
    · subst hki
      rw [Option.some.inj (hnew.symm.trans hjob')]
    · rw [hother k hki] at hjob'
      exact h.current k job' hjob'
  · rw [held, hsystem, JobSystem.threadCount_next, hsum, held, ← hwait, hsystem]
    abel
  · rw [hstage] at hk
    split_ifs at hk with hki
    rw [hother k hki] at hsome
    exact ⟨hsome, hk⟩

theorem workerStep (i : ℕ) : (s.workerStep i).Kept := by
  unfold JobTree.workerStep
  cases hpc : (s.system.workers i).pc with
  | running job => exact h
  | popped job =>
    by_cases hi : i < s.system.threadCount
    · exact h.beginStep hpc hi
    · -- an index that is no worker's
      have hsame : s.system.next (.worker i) = s.system := if_neg hi
      have hnone : s.running i = none := if_neg hi
      simp only [hsame]
      refine h.of_same h.reach (fun k job' hjob' => ?_) ?_ rfl (fun _ => rfl) rfl fun k r hsome hk => ?_
      · have hki : k ≠ i := fun hki => hi (hki ▸ (JobSystem.running_eq_some.mp hjob').1)
        exact (if_neg hki).trans (h.current k job' hjob')
      · unfold held
        refine congrArg _ (sum_congr rfl fun k hk => atWork_congr rfl (if_neg ?_))
        rintro rfl
        exact hi (mem_range.mp hk)
      · have hki : k ≠ i := by
          rintro rfl
          have hsome : (s.running k).isSome := hsome
          rw [hnone] at hsome
          cases hsome
        exact ⟨hsome, (if_neg hki).symm.trans hk⟩
  | _ => exact h.otherStep (by rw [hpc]; simp) (by rw [hpc]; simp)

theorem endStep {i : ℕ} (hrun : s.running i = some job) (hstage : s.stage i = .ended) :
    (({ s with system := s.system.next (.worker i) } : JobTree).setStage i .doTask).Kept := by
  obtain ⟨hi, hpc⟩ := JobSystem.running_eq_some.mp hrun
  generalize ht : (({ s with system := s.system.next (.worker i) } : JobTree).setStage i .doTask) = t
  have hsystem : t.system = s.system.next (.worker i) := by rw [← ht]; rfl
  have hstage' : ∀ k, t.stage k = if k = i then .doTask else s.stage k := by rw [← ht]; exact fun _ => rfl
  have hnew : t.running i = none := by
    refine JobSystem.running_eq_none fun job' hloop => ?_
    rw [hsystem, JobSystem.next, if_pos hi, JobSystem.workers_setWorker_self] at hloop
    unfold Worker.step at hloop
    rw [hpc] at hloop
    cases hloop
  have hother : ∀ k, k ≠ i → t.running k = s.running k :=
    fun k hk => running_next hsystem fun ha => hk (JobAction.worker.inj ha).symm
  have hwait := JobSystem.waiting_worker h.queuesOk hi
  rw [Worker.tasksOf_hand_other (by rw [hpc]; simp), add_zero] at hwait
  have hat : ∀ k, t.atWork k = s.atWork k := by
    intro k
    by_cases hk : k = i
    · subst hk
      rw [atWork_of_not_running hnew, atWork_of_running hrun, hstage]
      rfl
    · exact atWork_congr (hother k hk) (by rw [hstage', if_neg hk])
  have hheld : t.held = s.held :=
    held_of_waiting_eq (by rw [hsystem, JobSystem.threadCount_next]) hat (by rw [hsystem]; exact hwait)
  refine h.of_same (hsystem ▸ h.reach_next _) (fun k job' hjob' => ?_) hheld (by rw [← ht]; rfl)
    (by rw [← ht]; exact fun _ => rfl) (by rw [← ht]; rfl) fun k r hsome hk => ?_
  · have hki : k ≠ i := by
      rintro rfl
      rw [hnew] at hjob'
      cases hjob'
    rw [hother k hki] at hjob'
    rw [← ht]
    exact h.current k job' hjob'
  · have hki : k ≠ i := by
      rintro rfl
      rw [hnew] at hsome
      cases hsome
    rw [hstage', if_neg hki] at hk
    rw [hother k hki] at hsome
    exact ⟨hsome, hk⟩

theorem chooseStep {i : ℕ} {job' : Job ℕ} (hrun : s.running i = some job) (hstage : s.stage i = .choosing job') :
    (({ s.setCount job'.task (fun _ => 1) with system := s.system.internalAddJob job' } : JobTree).setStage i
      (.submitting job'.task)).Kept := by
  generalize ht : ({ s.setCount job'.task (fun _ => 1) with system := s.system.internalAddJob job' } : JobTree) = t
  have hsystem : t.system = s.system.next (.submit job') := by rw [← ht]; rfl
  have hruns : ∀ k, t.running k = s.running k := fun k => running_next hsystem (by simp)
  have hadd : t.held = s.held + {job'.task} := by
    rw [← ht]
    exact held_internalAddJob (s.setCount job'.task fun _ => 1) job'
  have hheld := held_setStage (s := t) (i := i) ((hruns i).trans hrun) (.submitting job'.task)
  have hbefore : t.stage i = .choosing job' := by rw [← ht]; exact hstage
  rw [hbefore, hadd, add_assoc] at hheld
  refine h.of_same (t := t.setStage i _) ?_ (fun k job'' hk => ?_) (add_right_cancel hheld) ?_ (fun task => ?_) ?_
    fun k r hsome hk => ?_
  · show (jobSystem ℕ).Reachable t.system
    rw [hsystem]
    exact h.reach_next _
  · have hk : t.running k = some job'' := hk
    rw [hruns] at hk
    rw [← ht]
    exact h.current k job'' hk
  · rw [← ht]
    exact length_setCount s job'.task fun _ => 1
  · rw [← ht]
    exact rootTask_setCount task s job'.task fun _ => 1
  · rw [← ht]
    rfl
  · have hsome : (t.running k).isSome := hsome
    rw [hruns] at hsome
    have hk : t.stage k = .counting r := counting_of_setStage (by simp) hk
    rw [← ht] at hk
    exact ⟨hsome, hk⟩

theorem deleteStep {i : ℕ} (hrun : s.running i = some job) (hstage : s.stage i = .notifyRootTask)
    (htasks : ∀ task < s.tasks.length, s.rootTask task = some job.task → task ∈ s.deleted)
    (hcounting : ∀ k < s.system.threadCount, s.stage k ≠ .counting job.task) : (s.deleteJob i job.task).Kept := by
  obtain ⟨stage, hnew, hheldNew, hcountingNew⟩ : ∃ stage, s.deleteJob i job.task =
      ({ s with deleted := job.task :: s.deleted } : JobTree).setStage i stage ∧ stage.holds job = 0 ∧
        ∀ root, stage = .counting root → s.rootTask job.task = some root := by
    cases hroot : s.rootTask job.task with
    | none => exact ⟨.ended, by unfold deleteJob; rw [hroot], rfl, fun _ hr => by cases hr⟩
    | some root => exact ⟨.counting root, by unfold deleteJob; rw [hroot], rfl, fun _ hr => by cases hr; rfl⟩
  have hmem : job.task ∈ s.held := mem_held_of_running hrun (by rw [hstage]; exact Multiset.mem_singleton_self _)
  have hnot : job.task ∉ s.deleted := h.not_deleted hmem
  have hlt : ∀ {task root}, s.rootTask task = some root → task < s.tasks.length := by
    intro task root hroot
    by_contra hge
    rw [rootTask, List.getElem?_eq_none (Nat.le_of_not_lt hge)] at hroot
    cases hroot
  rw [hnew]
  refine ⟨h.reach, h.current, ?_, fun task root hroot hdel => ?_, fun k root hk hcount => ?_⟩
  · have hheld := held_setStage (s := { s with deleted := job.task :: s.deleted }) hrun stage
    have hbefore : (({ s with deleted := job.task :: s.deleted } : JobTree).stage i).holds job = {job.task} := by
      show (s.stage i).holds job = _
      rw [hstage]
      rfl
    rw [hbefore, hheldNew, add_zero] at hheld
    show _ + ((job.task :: s.deleted : List ℕ) : Multiset ℕ) = Multiset.range s.tasks.length
    rw [← h.once, ← Multiset.cons_coe, ← Multiset.singleton_add, ← add_assoc, hheld]
    rfl
  · have hroot : s.rootTask task = some root := hroot
    obtain ⟨-, hold⟩ := not_or.mp (mt List.mem_cons.mpr hdel)
    refine fun hmem => (List.mem_cons.mp hmem).elim (fun heq => ?_) (h.root task root hroot hold)
    exact hold (htasks task (hlt hroot) (heq ▸ hroot))
  · refine fun hmem => (List.mem_cons.mp hmem).elim (fun heq => ?_) ?_
    · subst heq
      by_cases hki : k = i
      · have hself := hcountingNew job.task ((if_pos hki).symm.trans hcount)
        exact hnot (htasks job.task (hlt hself) hself)
      · obtain ⟨job', hjob'⟩ := Option.isSome_iff_exists.mp hk
        exact hcounting k (JobSystem.running_eq_some.mp hjob').1 ((if_neg hki).symm.trans hcount)
    · by_cases hki : k = i
      · exact h.root job.task root (hcountingNew root ((if_pos hki).symm.trans hcount)) hnot
      · exact h.counting k root hk ((if_neg hki).symm.trans hcount)

theorem runStep {i : ℕ} (hrun : s.running i = some job) (hok : s.ChildrenDone (.run i)) : (s.runStep i).Kept := by
  unfold JobTree.runStep
  cases hstage : s.stage i with
  | doTask => exact h
  | adding job' count =>
    rcases s.addChildren_cases job'.task count with heq | ⟨root, f, heq⟩
    · simp only [heq]
      exact h.setStage hrun (by rw [hstage]; rfl) (by simp)
    · simp only [heq]
      exact (h.setCount root f).setStage hrun (by
        show _ = (s.stage i).holds job
        rw [hstage]; rfl) (by simp)
  | choosing job' => exact h.chooseStep hrun hstage
  | submitting task =>
    simp only
    split_ifs
    · exact h
    · exact h.setStage hrun (by rw [hstage]; rfl) (by simp)
  | notifyRootTask =>
    have hcurrent := h.current i job hrun
    obtain ⟨htasks, hcounting⟩ := hok (by rw [hrun]; rfl) hstage job.task hcurrent
    simp only [hcurrent]
    exact h.deleteStep hrun hstage htasks hcounting
  | counting root =>
    exact (h.setCount root (· - 1)).setStage hrun (by
      show _ = (s.stage i).holds job
      rw [hstage]; rfl) (by simp)
  | ended => exact h.endStep hrun hstage

theorem next {a : JobTreeAction} (hok : s.ChildrenDone a) : (s.next a).Kept := by
  cases a with
  | submit threadIndex => exact h.submit threadIndex
  | addAsyncJob i threadIndex taskCount => exact h.addAsyncJob i threadIndex taskCount
  | returnTask i => exact h.returnTask i
  | run i =>
    show (if (s.running i).isSome then s.runStep i else s).Kept
    cases hrun : s.running i with
    | none => exact h
    | some job => exact h.runStep hrun hok
  | submitter k => exact h.systemStep (by simp) (JobSystem.waiting_submitterStep h.queuesOk k)
  | worker i => exact h.workerStep i
  | wake i => exact h.systemStep (by simp) (JobSystem.waiting_wake h.queuesOk i)
  | shutDown => exact h.systemStep (by simp) (JobSystem.waiting_of_same rfl rfl fun _ => rfl)

end Kept

/-- A root task whose counter is touched is in some place, or was not deleted before the job counted off there. -/
theorem Kept.access (h : s.Kept) {a : JobTreeAction} {root : ℕ} (hroot : s.counterAccess a = some root) :
    root ∉ s.deleted := by
  cases a with
  | run i =>
    unfold counterAccess at hroot
    cases hrun : s.running i with
    | none => simp [hrun] at hroot
    | some job =>
      simp only [hrun, Option.isSome_some, if_true] at hroot
      cases hstage : s.stage i with
      | adding job' count =>
        simp only [hstage] at hroot
        split_ifs at hroot
        have hmem : job'.task ∈ (s.stage i).holds job := by
          rw [hstage]
          exact Multiset.mem_add.mpr (.inl (Multiset.mem_singleton_self _))
        exact h.root job'.task root hroot (h.not_deleted (mem_held_of_running hrun hmem))
      | counting root' =>
        simp only [hstage] at hroot
        cases hroot
        exact h.counting i root (by rw [hrun]; rfl) hstage
      | _ => simp [hstage] at hroot
  | _ => cases hroot

end JobTree

/-- **A root task is there as long as its counter is used**, and every job is
deleted exactly once, as long as no job is deleted before those it has
submitted. -/
theorem root_outlives_children {s : JobTree} (h : jobTree.Reach JobTree.ChildrenDone s) :
    (∀ a root, s.counterAccess a = some root → root ∉ s.deleted) ∧
      ∀ task < s.tasks.length, s.held.count task + s.deleted.count task = 1 := by
  have hkept : s.Kept := by
    refine h.invariant (fun s hs => ?_) fun s a hs hok => hs.next hok
    obtain ⟨threadCount, bUseCVWait, rfl⟩ := hs
    exact JobTree.kept_start threadCount bUseCVWait
  refine ⟨fun a root hroot => hkept.access hroot, fun task htask => ?_⟩
  have hcount := congrArg (Multiset.count task) hkept.once
  rwa [Multiset.count_add, Multiset.coe_count,
    Multiset.count_eq_one_of_mem (Multiset.nodup_range _) (Multiset.mem_range.mpr htask)] at hcount

namespace JobTree

def takeJob (i : ℕ) : List JobTreeAction := List.replicate 8 (.worker i)

/-- The only worker runs job 0, which submits job 1 and returns; it deletes job 0, and is to count job 1 off there. -/
def outlived : List JobTreeAction :=
  List.flatten [[.submit 0], submitAll .submitter, takeJob 0, [.addAsyncJob 0 0 (-1), .run 0, .run 0], submitAll .submitter,
    [.run 0, .returnTask 0, .run 0, .run 0], takeJob 0, [.returnTask 0, .run 0]]

theorem outlived_access : (jobTree.runFrom (.start 1 true) outlived).counterAccess (.run 0) = some 0 ∧
    0 ∈ (jobTree.runFrom (.start 1 true) outlived).deleted := by
  decide +kernel

/-- The counter of job 0 is changed although job 0 is deleted. -/
theorem root_deleted_before_child : ¬ ∀ s : JobTree, jobTree.Reachable s →
    (∀ a root, s.counterAccess a = some root → root ∉ s.deleted) ∧
      ∀ task < s.tasks.length, s.held.count task + s.deleted.count task = 1 := by
  intro hall
  have hstart : jobTree.Reachable (.start 1 true) := .init ⟨1, true, rfl⟩
  exact (hall _ (System.reachable_runFrom hstart outlived)).1 (.run 0) 0 outlived_access.1 outlived_access.2

/-- Job 0 on the first worker submits job 1 to the second one, which deletes it while job 0 still runs. -/
def childFirst : List JobTreeAction :=
  List.flatten [[.submit 0], submitAll .submitter, takeJob 0, [.addAsyncJob 0 1 (-1), .run 0, .run 0],
    submitAll .submitter, takeJob 1, [.returnTask 1, .run 1]]

theorem root_outlives_children_one :
    (jobTree.runFrom (.start 2 true) childFirst).counterAccess (.run 1) = some 0 ∧
      0 ∉ (jobTree.runFrom (.start 2 true) childFirst).deleted := by
  have haccess : (jobTree.runFrom (.start 2 true) childFirst).counterAccess (.run 1) = some 0 := by decide +kernel
  have hstart : jobTree.Reach ChildrenDone (.start 2 true) := .init ⟨2, true, rfl⟩
  have hreach := hstart.of_checked childFirst (by decide +kernel)
  exact ⟨haccess, (root_outlives_children hreach).1 (.run 1) 0 haccess⟩

end JobTree

end RudpEngine

import RudpEngine.Coroutines

/-!
# Where the tasks are

Every task is in one place: it waits or is at work, it is a coroutine that
sleeps, or it is counted off. The counter of a coroutine that sleeps is the
number of the tasks it awaits and that are not counted off, and what jobs of the
tuple that were never submitted and coroutines that moved have added to it.
-/

namespace RudpEngine

open Finset

namespace Coroutines

/-! ## The tasks -/

section
variable (s : Coroutines) (k t : ℕ) (f : Task → Task)

theorem get_setTask : (s.setTask k f).tasks[t]? = (s.tasks[t]?).map fun task => if k = t then f task else task := by
  unfold setTask
  rw [List.getElem?_modify]
  rfl

theorem length_setTask : (s.setTask k f).tasks.length = s.tasks.length := List.length_modify ..

variable {f}

theorem map_setTask {β : Type} (part : Task → β) (hf : ∀ task, part (f task) = part task) :
    (s.setTask k f).tasks[t]?.map part = s.tasks[t]?.map part := by
  rw [get_setTask, Option.map_map]
  congr 1
  funext task
  by_cases hk : k = t
  · simp [hk, hf]
  · simp [hk]

theorem rootTask_setTask (hf : ∀ task, (f task).rootTask = task.rootTask) : (s.setTask k f).rootTask t = s.rootTask t :=
  congrArg Option.join (s.map_setTask k t _ hf)

theorem count_setTask (hf : ∀ task, (f task).childrenTaskCount = task.childrenTaskCount) :
    (s.setTask k f).count t = s.count t :=
  congrArg (Option.getD · 0) (s.map_setTask k t _ hf)

theorem bDone_setTask (hf : ∀ task, (f task).bDone = task.bDone) : (s.setTask k f).bDone t = s.bDone t :=
  congrArg (Option.getD · false) (s.map_setTask k t _ hf)

theorem count_setCount (g : BitVec 32 → BitVec 32) (hk : k < s.tasks.length) :
    (s.setCount k g).count t = if t = k then g (s.count k) else s.count t := by
  unfold count setCount
  rw [get_setTask]
  by_cases ht : k = t
  · subst ht
    rw [List.getElem?_eq_getElem hk]
    simp
  · simp [ht, Ne.symm ht]

end

structure SameKinds (s t : Coroutines) : Prop where
  length : t.tasks.length = s.tasks.length
  kind : ∀ k : ℕ, t.tasks[k]?.map Task.isFunctionTask = s.tasks[k]?.map Task.isFunctionTask

theorem SameKinds.isFunctionTask {s t : Coroutines} (h : SameKinds s t) (k : ℕ) : t.isFunctionTask k = s.isFunctionTask k :=
  congrArg (Option.getD · false) (h.kind k)

theorem SameKinds.trans {s t u : Coroutines} (h : SameKinds s t) (h' : SameKinds t u) : SameKinds s u :=
  ⟨h'.length.trans h.length, fun k => (h'.kind k).trans (h.kind k)⟩

theorem sameKinds_setTask (s : Coroutines) (k : ℕ) {f : Task → Task} (hf : ∀ task, (f task).isFunctionTask = task.isFunctionTask) :
    SameKinds s (s.setTask k f) :=
  ⟨s.length_setTask k f, fun t => s.map_setTask k t _ hf⟩

section
variable (s : Coroutines) (task : ℕ) (root : Option ℕ) (childrenCount : ℤ)

theorem setRootTask_cases :
    s.setRootTask task root childrenCount = s.setTask task (fun t => { t with rootTask := root }) ∨
      ∃ r f, s.setRootTask task root childrenCount = (s.setTask task fun t => { t with rootTask := root }).setCount r f := by
  unfold setRootTask
  cases root with
  | none => exact .inl rfl
  | some root =>
    simp only
    by_cases hcount : childrenCount ≠ 0
    · rw [if_pos hcount]
      exact .inr ⟨root, _, rfl⟩
    · rw [if_neg hcount]
      exact .inl rfl

theorem setRootTask_eq : s.setRootTask task root childrenCount =
    { s with tasks := (s.setRootTask task root childrenCount).tasks } := by
  rcases s.setRootTask_cases task root childrenCount with heq | ⟨r, f, heq⟩
  · rw [heq]
    rfl
  · rw [heq]
    rfl

theorem sameKinds_setRootTask : SameKinds s (s.setRootTask task root childrenCount) := by
  have h := sameKinds_setTask s task (f := fun t => { t with rootTask := root }) fun _ => rfl
  rcases s.setRootTask_cases task root childrenCount with heq | ⟨r, f, heq⟩
  · rw [heq]
    exact h
  · rw [heq]
    exact h.trans (sameKinds_setTask _ r fun _ => rfl)

theorem bDone_setRootTask (t : ℕ) : (s.setRootTask task root childrenCount).bDone t = s.bDone t := by
  have h := s.bDone_setTask task t (f := fun t => { t with rootTask := root }) fun _ => rfl
  rcases s.setRootTask_cases task root childrenCount with heq | ⟨r, f, heq⟩
  · rw [heq, h]
  · rw [heq, ← h]
    exact bDone_setTask _ r t fun _ => rfl

theorem rootTask_setRootTask (htask : task < s.tasks.length) (t : ℕ) :
    (s.setRootTask task root childrenCount).rootTask t = if t = task then root else s.rootTask t := by
  have h : (s.setTask task fun t => { t with rootTask := root }).rootTask t = if t = task then root else s.rootTask t := by
    unfold rootTask
    rw [get_setTask]
    by_cases ht : task = t
    · subst ht
      rw [List.getElem?_eq_getElem htask]
      simp
    · simp [ht, Ne.symm ht]
  rcases s.setRootTask_cases task root childrenCount with heq | ⟨r, f, heq⟩
  · rw [heq, h]
  · rw [heq, ← h]
    exact rootTask_setTask _ r t fun _ => rfl

/-- No children are counted, or there is nowhere to count them. -/
theorem count_setRootTask_zero (t : ℕ) : (s.setRootTask task root 0).count t = s.count t := by
  unfold setRootTask
  cases root with
  | none => exact s.count_setTask task t fun _ => rfl
  | some root => exact s.count_setTask task t fun _ => rfl

theorem count_setRootTask (r : ℕ) (hr : r < s.tasks.length) (hne : childrenCount ≠ 0) (t : ℕ) :
    (s.setRootTask task (some r) childrenCount).count t =
      if t = r then s.count r + BitVec.ofInt 32 (if childrenCount < 0 then 1 else childrenCount) else s.count t := by
  have h : ∀ t, (s.setTask task fun t => { t with rootTask := some r }).count t = s.count t :=
    fun t => s.count_setTask task t fun _ => rfl
  unfold setRootTask
  simp only [if_pos hne]
  rw [count_setCount _ _ _ _ (by rwa [length_setTask]), h, h]

end

/-! ## Where the tasks are -/

end Coroutines

def TaskStage.tuple : TaskStage → List ℕ
  | .suspending jobs => jobs.map Prod.fst
  | .choosing _ (some jobs) => jobs.map Prod.fst
  | .submitting _ (some jobs) => jobs.map Prod.fst
  | _ => []

def TaskStage.inHand : TaskStage → Multiset ℕ
  | .choosing job _ => {job.task}
  | .resuming root => {root}
  | _ => 0

def TaskStage.self (task : ℕ) : TaskStage → Multiset ℕ
  | .doTask => {task}
  | .suspending ((_, jobCount) :: _) => if jobCount = 0 then 0 else {task}
  | .choosing _ none => {task}
  | .submitting _ none => {task}
  | .returned => {task}
  | .counting _ => {task}
  | _ => 0

def TaskStage.holds (task : ℕ) (stage : TaskStage) : Multiset ℕ := stage.self task + stage.inHand + (stage.tuple : Multiset ℕ)

namespace Coroutines

def atWork (s : Coroutines) (i : ℕ) : Multiset ℕ :=
  match s.system.running i with
  | some job => (s.stage i).holds job.task
  | none => 0

def held (s : Coroutines) : Multiset ℕ := s.system.waiting + ∑ i ∈ range s.system.threadCount, s.atWork i

variable {s t : Coroutines} {i k : ℕ} {job : Job ℕ}

theorem atWork_of_running (h : s.system.running i = some job) : s.atWork i = (s.stage i).holds job.task := by
  unfold atWork
  rw [h]

theorem atWork_of_not_running (h : s.system.running i = none) : s.atWork i = 0 := by
  unfold atWork
  rw [h]

theorem atWork_congr (hrun : t.system.running i = s.system.running i) (hstage : t.stage i = s.stage i) :
    t.atWork i = s.atWork i := by
  unfold atWork
  rw [hrun, hstage]

theorem held_change {x y : Multiset ℕ} (hi : i < s.system.threadCount) (hcount : t.system.threadCount = s.system.threadCount)
    (hother : ∀ j, j ≠ i → t.atWork j = s.atWork j)
    (h : t.system.waiting + t.atWork i + x = s.system.waiting + s.atWork i + y) : t.held + x = s.held + y := by
  have hmem : i ∈ range s.system.threadCount := mem_range.mpr hi
  have hrest : ∑ j ∈ (range s.system.threadCount).erase i, t.atWork j = ∑ j ∈ (range s.system.threadCount).erase i, s.atWork j :=
    sum_congr rfl fun j hj => hother j (ne_of_mem_erase hj)
  unfold held
  rw [hcount, ← sum_erase_add _ _ hmem, ← sum_erase_add (range s.system.threadCount) s.atWork hmem, hrest]
  calc t.system.waiting + (_ + t.atWork i) + x
      = t.system.waiting + t.atWork i + x + ∑ j ∈ (range s.system.threadCount).erase i, s.atWork j := by abel
    _ = s.system.waiting + s.atWork i + y + ∑ j ∈ (range s.system.threadCount).erase i, s.atWork j := by rw [h]
    _ = _ := by abel

theorem held_of_waiting {x y : Multiset ℕ} (hcount : t.system.threadCount = s.system.threadCount)
    (hat : ∀ j, t.atWork j = s.atWork j) (h : t.system.waiting + x = s.system.waiting + y) : t.held + x = s.held + y := by
  unfold held
  rw [hcount, sum_congr rfl fun j _ => hat j, add_right_comm, h, add_right_comm]

theorem lt_of_atWork {task : ℕ} (h : task ∈ s.atWork i) : i ∈ range s.system.threadCount := by
  rw [mem_range]
  by_contra hi
  rw [atWork_of_not_running (if_neg hi)] at h
  exact Multiset.notMem_zero _ h

theorem mem_held_of_atWork {task : ℕ} (h : task ∈ s.atWork i) : task ∈ s.held := by
  refine Multiset.mem_add.mpr (.inr ?_)
  rw [Multiset.mem_sum]
  exact ⟨i, lt_of_atWork h, h⟩

theorem atWork_unique {task : ℕ} (hone : s.held.count task ≤ 1) (hi : task ∈ s.atWork i) (hk : task ∈ s.atWork k) :
    i = k := by
  by_contra hne
  have hmem : i ∈ range s.system.threadCount := lt_of_atWork hi
  have hmem' : k ∈ (range s.system.threadCount).erase i := mem_erase.mpr ⟨Ne.symm hne, lt_of_atWork hk⟩
  have hle : s.atWork i + s.atWork k ≤ s.held := by
    unfold held
    rw [← sum_erase_add _ _ hmem, ← sum_erase_add _ _ hmem']
    refine le_trans ?_ (Multiset.le_add_left _ _)
    rw [add_assoc, add_comm (s.atWork k)]
    exact le_trans (le_of_eq rfl) (Multiset.le_add_left _ _)
  have hcount := Multiset.count_le_of_le task hle
  rw [Multiset.count_add] at hcount
  have h1 := Multiset.count_pos.mpr hi
  have h2 := Multiset.count_pos.mpr hk
  omega

/-! ## What is kept -/

def IsKind (s : Coroutines) (task : ℕ) (b : Bool) : Prop := s.tasks[task]?.map Task.isFunctionTask = some b

/-- The jobs of the tuple are counted at the coroutine, and bring no more counts. -/
def Asleep (s : Coroutines) (coroutine : ℕ) (jobs : List (ℕ × ℤ)) : Prop :=
  ∀ elem ∈ jobs, elem.2 = 0 ∧ s.awaitedBy elem.1 = some coroutine

def Entering (s : Coroutines) : List (ℕ × ℤ) → Prop
  | [] => False
  | (task, jobCount) :: jobs => (jobs.length : ℤ) < jobCount ∧ jobCount < 2 ^ 31 ∧ (∀ elem ∈ jobs, elem.2 = 0) ∧
      ∀ elem ∈ (task, jobCount) :: jobs, s.awaitedBy elem.1 = none ∧ s.rootTask elem.1 = none

def StageOk (s : Coroutines) (job : Job ℕ) : TaskStage → Prop
  | .doTask => True
  | .suspending jobs => s.Asleep job.task jobs ∨ job.bFunction = false ∧ s.Entering jobs
  | .choosing job' rest => s.IsKind job'.task job'.bFunction ∧ ∃ jobs, rest = some jobs ∧ s.Asleep job.task jobs
  | .submitting _ rest => ∃ jobs, rest = some jobs ∧ s.Asleep job.task jobs
  | .returned => s.bDone job.task = true
  | .counting root => s.bDone job.task = true ∧ s.rootTask job.task = some root
  | .resuming root => job.task ∈ s.finished ∧ s.awaitedBy job.task = some root ∧ s.IsKind root false
  | .ended => True

theorem StageOk.frame {s t : Coroutines} {job : Job ℕ} {stage : TaskStage} (h : s.StageOk job stage)
    (hkind : ∀ x b, s.IsKind x b → t.IsKind x b) (hdone : ∀ x, s.bDone x = true → t.bDone x = true)
    (hfinished : ∀ x ∈ s.finished, x ∈ t.finished) (hawaited : ∀ x p, s.awaitedBy x = some p → t.awaitedBy x = some p)
    (hholds : ∀ x ∈ stage.holds job.task, t.rootTask x = s.rootTask x ∧ t.awaitedBy x = s.awaitedBy x) :
    t.StageOk job stage := by
  have hasleep : ∀ jobs, s.Asleep job.task jobs → t.Asleep job.task jobs :=
    fun jobs hjobs elem hmem => ⟨(hjobs elem hmem).1, hawaited _ _ (hjobs elem hmem).2⟩
  cases stage with
  | doTask | ended => trivial
  | suspending jobs =>
    rcases h with hjobs | ⟨hb, hjobs⟩
    · exact .inl (hasleep jobs hjobs)
    · refine .inr ⟨hb, ?_⟩
      cases jobs with
      | nil => exact hjobs
      | cons elem jobs =>
        obtain ⟨hlt, hsmall, hzero, hnone⟩ := hjobs
        refine ⟨hlt, hsmall, hzero, fun elem' hmem => ?_⟩
        obtain ⟨hroot, hby⟩ := hholds elem'.1
          (Multiset.mem_add.mpr (.inr (Multiset.mem_coe.mpr (List.mem_map_of_mem hmem))))
        rw [hroot, hby]
        exact hnone elem' hmem
  | choosing job' rest =>
    obtain ⟨hjob', jobs, hrest, hjobs⟩ := h
    exact ⟨hkind _ _ hjob', jobs, hrest, hasleep jobs hjobs⟩
  | submitting task rest =>
    obtain ⟨jobs, hrest, hjobs⟩ := h
    exact ⟨jobs, hrest, hasleep jobs hjobs⟩
  | returned => exact hdone _ h
  | counting root =>
    obtain ⟨hbDone, hroot⟩ := h
    have hmem : job.task ∈ (TaskStage.counting root).holds job.task := by simp [TaskStage.holds, TaskStage.self]
    exact ⟨hdone _ hbDone, (hholds _ hmem).1.trans hroot⟩
  | resuming root =>
    obtain ⟨hfin, hby, hroot⟩ := h
    exact ⟨hfinished _ hfin, hawaited _ _ hby, hkind _ _ hroot⟩

def Linked (s : Coroutines) (task : ℕ) : Prop := ∀ i job, s.system.running i = some job → task ∉ (s.stage i).tuple

def Choosing (s : Coroutines) (task : ℕ) : Prop :=
  ∃ i job job' rest, s.system.running i = some job ∧ s.stage i = .choosing job' rest ∧ job'.task = task

def Leaving (s : Coroutines) (task : ℕ) : Prop :=
  ∃ i job, s.system.running i = some job ∧ job.task = task ∧ (s.stage i = .returned ∨ ∃ root, s.stage i = .counting root)

/-- The tasks that the coroutine awaits and that are not counted off. -/
def unfinished (s : Coroutines) (coroutine : ℕ) : Finset ℕ :=
  (range s.tasks.length).filter fun task => s.awaitedBy task = some coroutine ∧ task ∉ s.finished

structure Kept (s : Coroutines) : Prop where
  reach : (jobSystem ℕ).Reachable s.system
  jobs : s.system.AllJobs fun job => s.IsKind job.task job.bFunction
  current : ∀ i job, s.system.running i = some job → job.bFunction = false → s.currentJob i = some job.task
  once : s.held + s.awaiting + s.finished = Multiset.range s.tasks.length
  stage : ∀ i job, s.system.running i = some job → s.StageOk job (s.stage i)
  fresh : ∀ x, s.tasks.length ≤ x → s.awaitedBy x = none ∧ s.surplus x = 0
  awaited : ∀ x p, s.awaitedBy x = some p → x ∉ s.finished → p ∈ s.awaiting ∧ (s.Linked x → s.rootTask x = some p)
  root : ∀ x, s.awaitedBy x = none → x ∉ s.finished → s.rootTask x = none ∨ s.IsKind x false ∧
    (s.rootTask x = some x ∨ ∃ f ∈ s.finished, s.rootTask x = some f ∧ s.awaitedBy f = some x ∧ s.IsKind f false)
  asleep : ∀ p ∈ s.awaiting, s.IsKind p false ∧ 0 < (s.count p).toNat ∧
    (s.count p).toNat = (s.unfinished p).card + s.surplus p
  awake : ∀ x ∈ s.held, s.IsKind x false → s.surplus x = 0 ∧ (s.count x = 0 ∨ s.Choosing x)
  spent : ∀ f ∈ s.finished, s.IsKind f false → ∀ p, s.awaitedBy f = some p → p ∉ s.finished → s.count f = 0
  leaving : ∀ x, s.bDone x = true → x ∈ s.finished ∨ s.Leaving x
  done : ∀ x ∈ s.finished, s.bDone x = true

theorem kept_start (threadCount : ℕ) (bUseCVWait : Bool) : (start threadCount bUseCVWait).Kept where
  reach := .init ⟨threadCount, bUseCVWait, rfl⟩
  jobs := JobSystem.allJobs_start threadCount bUseCVWait
  current i job h := nomatch (JobSystem.running_eq_some.mp h).2
  once := by
    have hnone : ∀ i, (start threadCount bUseCVWait).system.running i = none :=
      fun i => JobSystem.running_eq_none fun job hpc => nomatch hpc
    have hwait : (start threadCount bUseCVWait).system.waiting = 0 := by
      show 0 + ∑ i ∈ range threadCount, (Worker.start : Worker ℕ).tasks = 0
      rw [zero_add]
      exact sum_eq_zero fun i _ => rfl
    rw [held, hwait, sum_eq_zero fun i _ => atWork_of_not_running (hnone i)]
    rfl
  stage i job h := nomatch (JobSystem.running_eq_some.mp h).2
  fresh _ _ := ⟨rfl, rfl⟩
  awaited _ _ h := nomatch h
  root _ _ _ := .inl rfl
  asleep _ h := absurd h (Multiset.notMem_zero _)
  awake x h := by
    intro hkind
    cases hkind
  spent _ h := absurd h (Multiset.notMem_zero _)
  leaving _ h := nomatch h
  done _ h := absurd h (Multiset.notMem_zero _)

section
variable {s : Coroutines} {x : ℕ} {b : Bool}

theorem IsKind.lt (h : s.IsKind x b) : x < s.tasks.length := by
  by_contra hge
  rw [IsKind, List.getElem?_eq_none (Nat.le_of_not_lt hge)] at h
  cases h

theorem IsKind.eq (h : s.IsKind x b) : s.isFunctionTask x = b := congrArg (Option.getD · false) h

theorem isKind_of_lt (h : x < s.tasks.length) : s.IsKind x (s.isFunctionTask x) := by
  unfold IsKind isFunctionTask
  rw [List.getElem?_eq_getElem h]
  rfl

theorem SameKinds.isKind {t : Coroutines} (h : SameKinds s t) (hx : s.IsKind x b) : t.IsKind x b := (h.kind x).trans hx

theorem mem_unfinished {p : ℕ} : x ∈ s.unfinished p ↔ x < s.tasks.length ∧ s.awaitedBy x = some p ∧ x ∉ s.finished := by
  unfold unfinished
  rw [mem_filter, mem_range]

end

namespace Kept

variable {s : Coroutines} (h : s.Kept) {x : ℕ}
include h

theorem queuesOk (i : ℕ) : (s.system.workers i).QueuesOk := JobSystem.reach_queuesOk h.reach i

theorem reach_next (a : JobAction ℕ) : (jobSystem ℕ).Reachable (s.system.next a) := .next h.reach trivial

theorem count_le (x : ℕ) : s.held.count x + s.awaiting.count x + s.finished.count x ≤ 1 := by
  have := Multiset.nodup_iff_count_le_one.mp (h.once ▸ Multiset.nodup_range s.tasks.length) x
  rwa [Multiset.count_add, Multiset.count_add] at this

theorem not_awaiting (hx : x ∈ s.held) : x ∉ s.awaiting := by
  intro hmem
  have := h.count_le x
  have h1 := Multiset.count_pos.mpr hx
  have h2 := Multiset.count_pos.mpr hmem
  omega

theorem not_finished (hx : x ∈ s.held) : x ∉ s.finished := by
  intro hmem
  have := h.count_le x
  have h1 := Multiset.count_pos.mpr hx
  have h2 := Multiset.count_pos.mpr hmem
  omega

theorem awaiting_not_finished (hx : x ∈ s.awaiting) : x ∉ s.finished := by
  intro hmem
  have := h.count_le x
  have h1 := Multiset.count_pos.mpr hx
  have h2 := Multiset.count_pos.mpr hmem
  omega

theorem lt_of_mem (hx : x ∈ s.held + s.awaiting + s.finished) : x < s.tasks.length := by
  rw [h.once] at hx
  exact Multiset.mem_range.mp hx

theorem lt_of_held (hx : x ∈ s.held) : x < s.tasks.length :=
  h.lt_of_mem (Multiset.mem_add.mpr (.inl (Multiset.mem_add.mpr (.inl hx))))

theorem lt_of_awaiting (hx : x ∈ s.awaiting) : x < s.tasks.length :=
  h.lt_of_mem (Multiset.mem_add.mpr (.inl (Multiset.mem_add.mpr (.inr hx))))

theorem lt_of_finished (hx : x ∈ s.finished) : x < s.tasks.length := h.lt_of_mem (Multiset.mem_add.mpr (.inr hx))

theorem unique {i k : ℕ} (hi : x ∈ s.atWork i) (hk : x ∈ s.atWork k) : i = k :=
  atWork_unique (by have := h.count_le x; omega) hi hk

theorem not_atWork (hx : x ∈ s.system.waiting) (i : ℕ) : x ∉ s.atWork i := by
  intro hat
  have hlt : i ∈ range s.system.threadCount := lt_of_atWork hat
  have hle := h.count_le x
  rw [held, ← sum_erase_add _ _ hlt, Multiset.count_add, Multiset.count_add] at hle
  have h1 := Multiset.count_pos.mpr hx
  have h2 := Multiset.count_pos.mpr hat
  omega

theorem linked {i : ℕ} {job : Job ℕ} (hrun : s.system.running i = some job) (hx : x ∈ (s.stage i).holds job.task)
    (hnot : x ∉ (s.stage i).tuple) : s.Linked x := by
  intro k job' hrun' hmem
  have hk : x ∈ s.atWork k := by
    rw [atWork_of_running hrun']
    exact Multiset.mem_add.mpr (.inr (Multiset.mem_coe.mpr hmem))
  have hi : x ∈ s.atWork i := by rwa [atWork_of_running hrun]
  obtain rfl := h.unique hi hk
  exact hnot hmem

/-! ## Steps that change no task -/

theorem of_same {t : Coroutines} (hreach : (jobSystem ℕ).Reachable t.system)
    (hjobs : t.system.AllJobs fun job => s.IsKind job.task job.bFunction)
    (hcurrent : ∀ i job, t.system.running i = some job → job.bFunction = false → t.currentJob i = some job.task)
    (htasks : t.tasks = s.tasks) (hawaiting : t.awaiting = s.awaiting) (hfinished : t.finished = s.finished)
    (hby : t.awaitedBy = s.awaitedBy) (hsurplus : t.surplus = s.surplus) (hheld : t.held = s.held)
    (hstage : ∀ i job, t.system.running i = some job → s.StageOk job (t.stage i))
    (hlinked : ∀ x, t.Linked x → s.Linked x) (hchoosing : ∀ x, s.Choosing x → t.Choosing x)
    (hleaving : ∀ x, s.Leaving x → t.Leaving x) : t.Kept := by
  have hkind : ∀ x b, t.IsKind x b ↔ s.IsKind x b := fun x b => by unfold IsKind; rw [htasks]
  have hroot : ∀ x, t.rootTask x = s.rootTask x := fun x => by unfold rootTask; rw [htasks]
  have hcount : ∀ x, t.count x = s.count x := fun x => by unfold count; rw [htasks]
  have hdone : ∀ x, t.bDone x = s.bDone x := fun x => by unfold bDone; rw [htasks]
  have hunfinished : ∀ p, t.unfinished p = s.unfinished p := fun p => by unfold unfinished; rw [htasks, hby, hfinished]
  constructor
  case reach => exact hreach
  case jobs => exact hjobs.mono fun job => (hkind _ _).mpr
  case current => exact hcurrent
  case once => rw [hheld, hawaiting, hfinished, htasks, h.once]
  case stage =>
    intro i job hrun
    refine (hstage i job hrun).frame (fun x b => (hkind x b).mpr) (fun x hx => (hdone x).trans hx) ?_ ?_ ?_
    · rw [hfinished]
      exact fun _ hx => hx
    · rw [hby]
      exact fun _ _ hx => hx
    · exact fun x _ => ⟨hroot x, by rw [hby]⟩
  case fresh =>
    rw [htasks, hby, hsurplus]
    exact h.fresh
  case awaited =>
    intro x p
    rw [hby, hfinished, hawaiting, hroot]
    exact fun hx hfin => ⟨(h.awaited x p hx hfin).1, fun hlink => (h.awaited x p hx hfin).2 (hlinked x hlink)⟩
  case root =>
    intro x
    simp only [hby, hfinished, hroot, hkind]
    exact h.root x
  case asleep =>
    intro p
    rw [hawaiting, hkind, hcount, hunfinished, hsurplus]
    exact h.asleep p
  case awake =>
    intro x
    rw [hheld, hkind, hsurplus, hcount]
    exact fun hx hk => ⟨(h.awake x hx hk).1, (h.awake x hx hk).2.imp_right (hchoosing x)⟩
  case spent =>
    intro f
    simp only [hby, hfinished, hcount, hkind]
    exact h.spent f
  case leaving =>
    intro x
    rw [hdone, hfinished]
    exact fun hx => (h.leaving x hx).imp_right (hleaving x)
  case done =>
    intro x
    rw [hfinished, hdone]
    exact h.done x

end Kept

theorem otherWorkers {s t : Coroutines} {i : ℕ} (hsystem : t.system = s.system.next (.worker i))
    (hstage : ∀ k, k ≠ i → t.stage k = s.stage k) {k : ℕ} (hk : k ≠ i) :
    t.system.running k = s.system.running k ∧ t.stage k = s.stage k :=
  ⟨by rw [hsystem]; exact JobSystem.running_next fun ha => hk (JobAction.worker.inj ha).symm, hstage k hk⟩

/-- The jobs of the tuple that wait for their turn are those of before. -/
theorem linked_of_stage {s t : Coroutines} {x : ℕ} (hrun : ∀ k, t.system.running k = s.system.running k)
    (htuple : ∀ k, (t.stage k).tuple = (s.stage k).tuple) (hx : t.Linked x) : s.Linked x := by
  intro k job hk
  rw [← htuple]
  exact hx k job ((hrun k).trans hk)

namespace Kept

variable {s : Coroutines} (h : s.Kept) {i : ℕ} {job : Job ℕ}
include h

theorem setStage (hrun : s.system.running i = some job) {stage : TaskStage}
    (hholds : stage.holds job.task = (s.stage i).holds job.task) (htuple : stage.tuple = (s.stage i).tuple)
    (hok : s.StageOk job stage) (hchoosing : ∀ job' rest, s.stage i ≠ .choosing job' rest)
    (hleaving : (s.stage i = .returned ∨ ∃ root, s.stage i = .counting root) → ∃ root, stage = .counting root) :
    (s.setStage i stage).Kept := by
  have hself : (s.setStage i stage).stage i = stage := if_pos rfl
  have hother : ∀ k, k ≠ i → (s.setStage i stage).stage k = s.stage k := fun k hk => if_neg hk
  refine h.of_same h.reach h.jobs h.current rfl rfl rfl rfl rfl ?_ (fun k job' hk => ?_) (fun x => ?_) (fun x hx => ?_)
    fun x hx => ?_
  · refine add_right_cancel (b := 0) (held_of_waiting rfl (fun k => ?_) rfl)
    by_cases hk : k = i
    · subst hk
      rw [atWork_of_running (s := s.setStage k stage) hrun, atWork_of_running hrun, hself, hholds]
    · exact atWork_congr rfl (hother k hk)
  · by_cases hki : k = i
    · subst hki
      rw [hself]
      obtain rfl : job = job' := Option.some.inj (hrun.symm.trans hk)
      exact hok
    · rw [hother k hki]
      exact h.stage k job' hk
  · refine linked_of_stage (fun k => rfl) fun k => ?_
    by_cases hki : k = i
    · subst hki
      rw [hself, htuple]
    · rw [hother k hki]
  · obtain ⟨k, job', job'', rest, hk, hstage, htask⟩ := hx
    have hki : k ≠ i := fun hki => hchoosing _ _ (hki ▸ hstage)
    exact ⟨k, job', job'', rest, hk, (hother k hki).trans hstage, htask⟩
  · obtain ⟨k, job', hk, htask, hstage⟩ := hx
    refine ⟨k, job', hk, htask, ?_⟩
    by_cases hki : k = i
    · subst hki
      rw [hself]
      exact .inr (hleaving hstage)
    · rw [hother k hki]
      exact hstage

theorem quietStep {a : JobAction ℕ} (ha : s.system.Quiet a) : ({ s with system := s.system.next a } : Coroutines).Kept := by
  obtain ⟨hwait, hrun⟩ := JobSystem.quiet_next h.queuesOk ha
  refine h.of_same (h.reach_next a) (h.jobs.next h.queuesOk fun job hjob => ?_) (fun i job hi => ?_) rfl rfl rfl rfl rfl ?_
    (fun i job hi => h.stage i job ((hrun i).symm.trans hi)) (fun x => ?_) (fun x hx => ?_) fun x hx => ?_
  · subst hjob
    cases ha
  · exact h.current i job ((hrun i).symm.trans hi)
  · exact add_right_cancel (b := 0) (held_of_waiting (JobSystem.threadCount_next s.system a)
      (fun j => atWork_congr (hrun j) rfl) (congrArg (· + 0) hwait))
  · exact linked_of_stage hrun fun k => rfl
  · obtain ⟨k, job', job'', rest, hk, hstage⟩ := hx
    exact ⟨k, job', job'', rest, (hrun k).trans hk, hstage⟩
  · obtain ⟨k, job', hk, hstage⟩ := hx
    exact ⟨k, job', (hrun k).trans hk, hstage⟩

theorem endStep (hrun : s.system.running i = some job) (hended : s.stage i = .ended) :
    (({ s with system := s.system.next (.worker i) } : Coroutines).setStage i .doTask).Kept := by
  generalize ht : (({ s with system := s.system.next (.worker i) } : Coroutines).setStage i .doTask) = t
  have hsystem : t.system = s.system.next (.worker i) := by rw [← ht]; rfl
  have hstage : ∀ k, k ≠ i → t.stage k = s.stage k := fun k hk => by rw [← ht]; exact if_neg hk
  obtain ⟨hwait, hnone⟩ := JobSystem.end_next h.queuesOk hrun
  rw [← hsystem] at hwait hnone
  have hother := fun {k : ℕ} (hk : k ≠ i) => otherWorkers hsystem hstage hk
  have hne : ∀ {k : ℕ} {job' : Job ℕ}, t.system.running k = some job' → k ≠ i := by
    rintro k job' hk rfl
    rw [hnone] at hk
    cases hk
  refine h.of_same (hsystem ▸ h.reach_next _) (hsystem ▸ h.jobs.next h.queuesOk fun job hjob => nomatch hjob)
    (fun k job' hk => ?_) (by rw [← ht]; rfl) (by rw [← ht]; rfl) (by rw [← ht]; rfl) (by rw [← ht]; rfl) (by rw [← ht]; rfl)
    ?_ (fun k job' hk => ?_) (fun x hx => ?_) (fun x hx => ?_) fun x hx => ?_
  · have hcurrent : t.currentJob = s.currentJob := by rw [← ht]; rfl
    rw [hcurrent]
    exact h.current k job' ((hother (hne hk)).1.symm.trans hk)
  · refine add_right_cancel (b := 0) (held_of_waiting (by rw [hsystem, JobSystem.threadCount_next]) (fun k => ?_)
      (congrArg (· + 0) hwait))
    by_cases hk : k = i
    · subst hk
      rw [atWork_of_not_running hnone, atWork_of_running hrun, hended]
      rfl
    · exact atWork_congr (hother hk).1 (hother hk).2
  · rw [(hother (hne hk)).2]
    exact h.stage k job' ((hother (hne hk)).1.symm.trans hk)
  · intro k job' hk
    by_cases hki : k = i
    · subst hki
      rw [hended]
      exact List.not_mem_nil
    · rw [← (hother hki).2]
      exact hx k job' ((hother hki).1.trans hk)
  · obtain ⟨k, job', job'', rest, hk, hchoosing, htask⟩ := hx
    have hki : k ≠ i := by
      rintro rfl
      rw [hended] at hchoosing
      cases hchoosing
    exact ⟨k, job', job'', rest, (hother hki).1.trans hk, (hother hki).2.trans hchoosing, htask⟩
  · obtain ⟨k, job', hk, htask, hleaving⟩ := hx
    have hki : k ≠ i := by
      rintro rfl
      rw [hended] at hleaving
      rcases hleaving with hret | ⟨root, hcount⟩
      · cases hret
      · cases hcount
    exact ⟨k, job', (hother hki).1.trans hk, htask, by rwa [(hother hki).2]⟩

theorem beginStep (hi : i < s.system.threadCount) (hpc : (s.system.workers i).pc = .popped job) :
    (({ s with
      system := s.system.next (.worker i)
      currentJob := fun k => if k = i then some job.task else s.currentJob k } : Coroutines).setStage i
        (if !job.bFunction && s.bDone job.task then .ended else .doTask)).Kept := by
  obtain ⟨hwait, hnew, hold⟩ := JobSystem.begin_next h.queuesOk hi hpc
  have hmem : job.task ∈ s.system.waiting := by
    rw [← hwait]
    exact Multiset.mem_add.mpr (.inr (Multiset.mem_singleton_self _))
  -- the task has not run to its end, since it would be counted off or with another worker
  have hdone : s.bDone job.task = false := by
    by_contra hnot
    have hheld : job.task ∈ s.held := Multiset.mem_add.mpr (.inl hmem)
    rcases h.leaving _ (Bool.eq_true_of_not_eq_false hnot) with hfin | ⟨k, job', hk, htask, hleaving⟩
    · exact h.not_finished hheld hfin
    · have hat : job.task ∈ s.atWork k := by
        rw [atWork_of_running hk, ← htask]
        rcases hleaving with hret | ⟨root, hcount⟩
        · rw [hret]
          simp [TaskStage.holds, TaskStage.self]
        · rw [hcount]
          simp [TaskStage.holds, TaskStage.self]
      exact h.not_atWork hmem k hat
  rw [hdone, Bool.and_false, if_neg Bool.false_ne_true]
  generalize ht : (({ s with
    system := s.system.next (.worker i)
    currentJob := fun k => if k = i then some job.task else s.currentJob k } : Coroutines).setStage i .doTask) = t
  have hsystem : t.system = s.system.next (.worker i) := by rw [← ht]; rfl
  have hself : t.stage i = .doTask := by rw [← ht]; exact if_pos rfl
  have hstage : ∀ k, k ≠ i → t.stage k = s.stage k := fun k hk => by rw [← ht]; exact if_neg hk
  rw [← hsystem] at hwait hnew
  have hother := fun {k : ℕ} (hk : k ≠ i) => otherWorkers hsystem hstage hk
  have hne : ∀ {k : ℕ} {job' : Job ℕ}, s.system.running k = some job' → k ≠ i := by
    rintro k job' hk rfl
    rw [hold] at hk
    cases hk
  refine h.of_same (hsystem ▸ h.reach_next _) (hsystem ▸ h.jobs.next h.queuesOk fun job hjob => nomatch hjob)
    (fun k job' hk => ?_) (by rw [← ht]; rfl) (by rw [← ht]; rfl) (by rw [← ht]; rfl) (by rw [← ht]; rfl) (by rw [← ht]; rfl)
    ?_ (fun k job' hk => ?_) (fun x hx => ?_) (fun x hx => ?_) fun x hx => ?_
  · have hcurrent : t.currentJob k = if k = i then some job.task else s.currentJob k := by rw [← ht]; rfl
    rw [hcurrent]
    split_ifs with hki
    · subst hki
      rw [Option.some.inj (hnew.symm.trans hk)]
      exact fun _ => rfl
    · exact h.current k job' ((hother hki).1.symm.trans hk)
  · refine add_right_cancel (b := 0) (held_change hi (by rw [hsystem, JobSystem.threadCount_next])
      (fun k hk => atWork_congr (hother hk).1 (hother hk).2) ?_)
    rw [atWork_of_running hnew, atWork_of_not_running hold, hself, ← hwait, add_zero, add_zero, add_zero]
    rfl
  · by_cases hki : k = i
    · rw [hki, hself]
      trivial
    · rw [(hother hki).2]
      exact h.stage k job' ((hother hki).1.symm.trans hk)
  · intro k job' hk
    rw [← (hother (hne hk)).2]
    exact hx k job' ((hother (hne hk)).1.trans hk)
  · obtain ⟨k, job', job'', rest, hk, hchoosing, htask⟩ := hx
    exact ⟨k, job', job'', rest, (hother (hne hk)).1.trans hk, (hother (hne hk)).2.trans hchoosing, htask⟩
  · obtain ⟨k, job', hk, htask, hleaving⟩ := hx
    exact ⟨k, job', (hother (hne hk)).1.trans hk, htask, by rwa [(hother (hne hk)).2]⟩

end Kept

end Coroutines

end RudpEngine

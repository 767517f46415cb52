import RudpEngine.CoroutineTasks

/-!
# Every step keeps the counters

Each step of a worker keeps the counter of a coroutine that sleeps at the number
of the tasks it awaits: they are counted all at once when it falls asleep, and
one by one when they are counted off.
-/

namespace RudpEngine

open Finset

/-! ## The counts that a tuple brings -/

/-- The first element of the tuple is no empty vector, and its first job is submitted. -/
def firstSubmitted : List (List AwaitedJob) → Bool
  | (job :: _) :: _ => job.submitted
  | _ => false

theorem addVector_zero (jobs : List AwaitedJob) : ∀ elem ∈ addVector 0 jobs, elem.2 = 0 := by
  induction jobs with
  | nil => exact fun _ h => nomatch h
  | cons job jobs ih =>
    intro elem helem
    rcases List.mem_cons.mp helem with rfl | helem
    · rfl
    · exact ih elem helem

theorem pollTuple_zero (tuple : List (List AwaitedJob)) : ∀ elem ∈ pollTuple 0 tuple, elem.2 = 0 := by
  induction tuple with
  | nil => exact fun _ h => nomatch h
  | cons jobs tuple ih => exact fun elem helem => (List.mem_append.mp helem).elim (addVector_zero jobs elem) (ih elem)

theorem length_addVector (jobCount : ℤ) (jobs : List AwaitedJob) : (addVector jobCount jobs).length = jobs.length := by
  induction jobs generalizing jobCount with
  | nil => rfl
  | cons job jobs ih => exact congrArg (· + 1) (ih 0)

theorem length_pollTuple (jobCount : ℤ) (tuple : List (List AwaitedJob)) :
    (pollTuple jobCount tuple).length = sumOfJobCount tuple := by
  induction tuple generalizing jobCount with
  | nil => rfl
  | cons jobs tuple ih =>
    rw [pollTuple, List.length_append, length_addVector, ih]
    rfl

/-- The first job that is submitted counts for all of the tuple, those that are not submitted included. -/
theorem awaitSuspend_eq {tuple : List (List AwaitedJob)} (hfirst : firstSubmitted tuple = true)
    (hsmall : sumOfJobCount tuple < 2 ^ 31) :
    ∃ job rest, awaitSuspend tuple = (job, (sumOfJobCount tuple : ℤ)) :: rest ∧ rest.length < sumOfJobCount tuple ∧
      ∀ elem ∈ rest, elem.2 = 0 := by
  have hcount : (BitVec.ofNat 32 (sumOfJobCount tuple)).toInt = sumOfJobCount tuple := by
    rw [BitVec.toInt_eq_toNat_of_lt]
    · rw [BitVec.toNat_ofNat, Nat.mod_eq_of_lt (by omega)]
    · rw [BitVec.toNat_ofNat, Nat.mod_eq_of_lt (by omega)]
      omega
  have hlength := length_pollTuple (sumOfJobCount tuple) tuple
  unfold awaitSuspend
  rw [hcount]
  generalize sumOfJobCount tuple = n at *
  match tuple with
  | [] => cases hfirst
  | [] :: tuple => cases hfirst
  | (job :: jobs) :: tuple =>
    have hfirst : job.submitted = true := hfirst
    refine ⟨job, ((addVector 0 jobs ++ pollTuple 0 tuple).filter fun elem => elem.1.submitted), ?_, ?_, fun elem helem => ?_⟩
    · exact List.filter_cons_of_pos hfirst
    · refine lt_of_le_of_lt (List.length_filter_le _ _) ?_
      have : (addVector 0 jobs ++ pollTuple 0 tuple).length + 1 = n := hlength
      omega
    · rcases List.mem_append.mp (List.mem_of_mem_filter helem) with hvec | hpoll
      · exact addVector_zero jobs elem hvec
      · exact pollTuple_zero tuple elem hpoll

namespace Coroutines

/-! ## Steps of one worker -/

structure WorkerStep (s t : Coroutines) (i : ℕ) : Prop where
  threadCount : t.system.threadCount = s.system.threadCount
  running : ∀ k, t.system.running k = s.system.running k
  stage : ∀ k, k ≠ i → t.stage k = s.stage k

namespace WorkerStep

variable {s t : Coroutines} {i : ℕ} {job : Job ℕ}

theorem atWork (hw : WorkerStep s t i) {k : ℕ} (hk : k ≠ i) : t.atWork k = s.atWork k :=
  atWork_congr (hw.running k) (hw.stage k hk)

theorem held (hw : WorkerStep s t i) (hrun : s.system.running i = some job) {x y : Multiset ℕ}
    (h : t.system.waiting + (t.stage i).holds job.task + x = s.system.waiting + (s.stage i).holds job.task + y) :
    t.held + x = s.held + y := by
  refine held_change (JobSystem.running_eq_some.mp hrun).1 hw.threadCount (fun k hk => hw.atWork hk) ?_
  rwa [atWork_of_running ((hw.running i).trans hrun), atWork_of_running hrun]

theorem stageOk (hw : WorkerStep s t i) (h : s.Kept) (hrun : s.system.running i = some job)
    (hkind : ∀ x b, s.IsKind x b → t.IsKind x b) (hdone : ∀ x, s.bDone x = true → t.bDone x = true)
    (hfinished : ∀ x ∈ s.finished, x ∈ t.finished) (hawaited : ∀ x p, s.awaitedBy x = some p → t.awaitedBy x = some p)
    (hholds : ∀ x, x ∉ s.atWork i → x ∈ s.held → t.rootTask x = s.rootTask x ∧ t.awaitedBy x = s.awaitedBy x)
    (hself : t.StageOk job (t.stage i)) : ∀ k job', t.system.running k = some job' → t.StageOk job' (t.stage k) := by
  intro k job' hk
  rw [hw.running] at hk
  by_cases hki : k = i
  · subst hki
    obtain rfl : job = job' := Option.some.inj (hrun.symm.trans hk)
    exact hself
  · rw [hw.stage k hki]
    refine (h.stage k job' hk).frame hkind hdone hfinished hawaited fun x hx => ?_
    have hat : x ∈ s.atWork k := by rwa [atWork_of_running hk]
    exact hholds x (fun hi => hki (h.unique hat hi)) (mem_held_of_atWork hat)

theorem linked (hw : WorkerStep s t i) {x : ℕ} (htuple : x ∈ (s.stage i).tuple → x ∈ (t.stage i).tuple) (hx : t.Linked x) :
    s.Linked x := by
  intro k job' hk
  have := hx k job' ((hw.running k).trans hk)
  by_cases hki : k = i
  · subst hki
    exact mt htuple this
  · rwa [hw.stage k hki] at this

theorem choosing (hw : WorkerStep s t i) {x : ℕ} (hx : s.Choosing x)
    (hself : ∀ job' rest, s.stage i = .choosing job' rest → job'.task ≠ x) : t.Choosing x := by
  obtain ⟨k, job', job'', rest, hk, hstage, htask⟩ := hx
  have hki : k ≠ i := by
    rintro rfl
    exact hself job'' rest hstage htask
  exact ⟨k, job', job'', rest, (hw.running k).trans hk, (hw.stage k hki).trans hstage, htask⟩

theorem leaving (hw : WorkerStep s t i) (hrun : s.system.running i = some job) {x : ℕ} (hx : s.Leaving x)
    (hself : x = job.task → s.stage i = .returned ∨ (∃ root, s.stage i = .counting root) →
      t.stage i = .returned ∨ ∃ root, t.stage i = .counting root) : t.Leaving x := by
  obtain ⟨k, job', hk, htask, hstage⟩ := hx
  refine ⟨k, job', (hw.running k).trans hk, htask, ?_⟩
  by_cases hki : k = i
  · subst hki
    obtain rfl : job = job' := Option.some.inj (hrun.symm.trans hk)
    exact hself htask.symm hstage
  · rwa [hw.stage k hki]

end WorkerStep

theorem atWork_doTask {s : Coroutines} {i : ℕ} {job : Job ℕ} (hrun : s.system.running i = some job)
    (hstage : s.stage i = .doTask) : s.atWork i = {job.task} := by
  rw [atWork_of_running hrun, hstage]
  rfl

theorem rootTask_append {s t : Coroutines} {tasks : List Task} (htasks : t.tasks = s.tasks ++ tasks)
    (hnone : ∀ task ∈ tasks, task.rootTask = none) (x : ℕ) : t.rootTask x = s.rootTask x := by
  unfold rootTask
  rw [htasks]
  by_cases hx : x < s.tasks.length
  · rw [List.getElem?_append_left hx]
  · rw [List.getElem?_append_right (Nat.le_of_not_lt hx), List.getElem?_eq_none (l := s.tasks) (Nat.le_of_not_lt hx)]
    cases hget : tasks[x - s.tasks.length]? with
    | none => rfl
    | some task => exact hnone task (List.mem_of_getElem? hget)

theorem atWork_leaving {s : Coroutines} {i : ℕ} {job : Job ℕ} (hrun : s.system.running i = some job)
    (hstage : s.stage i = .returned ∨ ∃ root, s.stage i = .counting root) : s.atWork i = {job.task} := by
  rw [atWork_of_running hrun]
  rcases hstage with hst | ⟨_, hst⟩ <;> rw [hst] <;> rfl

theorem card_unfinished {s t : Coroutines} {c : ℕ} (hlength : t.tasks.length = s.tasks.length) (hby : t.awaitedBy = s.awaitedBy)
    (hfinished : t.finished = c ::ₘ s.finished) (hc : c < s.tasks.length) (hnot : c ∉ s.finished) (p : ℕ) :
    (t.unfinished p).card + (if s.awaitedBy c = some p then 1 else 0) = (s.unfinished p).card := by
  have hset : t.unfinished p = (s.unfinished p).erase c := by
    ext x
    rw [mem_erase, mem_unfinished, mem_unfinished, hlength, hby, hfinished, Multiset.mem_cons, not_or]
    tauto
  rw [hset]
  split_ifs with hp
  · exact card_erase_add_one (mem_unfinished.mpr ⟨hc, hp, hnot⟩)
  · rw [erase_eq_of_notMem fun hmem => hp (mem_unfinished.mp hmem).2.1, add_zero]

/-- What a move to another worker makes of the tasks. -/
theorem exists_moved (s : Coroutines) {c r : ℕ} (hc : c < s.tasks.length) (hr : r < s.tasks.length) (threadIndex : ℤ) :
    ∃ tasks, (s.setTask c fun t => { t with threadIndex := threadIndex }).setRootTask c (some r) (-1) = { s with tasks := tasks } ∧
      SameKinds s { s with tasks := tasks } ∧ (∀ x, ({ s with tasks := tasks } : Coroutines).bDone x = s.bDone x) ∧
      (∀ x, ({ s with tasks := tasks } : Coroutines).rootTask x = if x = c then some r else s.rootTask x) ∧
      ∀ x, ({ s with tasks := tasks } : Coroutines).count x = if x = r then s.count r + 1 else s.count x := by
  have hmoved := s.sameKinds_setTask c (f := fun t => { t with threadIndex := threadIndex }) fun _ => rfl
  have hroot := fun x => s.rootTask_setTask c x (f := fun t => { t with threadIndex := threadIndex }) fun _ => rfl
  have hcount := fun x => s.count_setTask c x (f := fun t => { t with threadIndex := threadIndex }) fun _ => rfl
  have hdone := fun x => s.bDone_setTask c x (f := fun t => { t with threadIndex := threadIndex }) fun _ => rfl
  have heq := (s.setTask c fun t => { t with threadIndex := threadIndex }).setRootTask_eq c (some r) (-1)
  refine ⟨_, heq, ?_, fun x => ?_, fun x => ?_, fun x => ?_⟩
  · exact hmoved.trans (sameKinds_setRootTask _ c (some r) (-1))
  · exact (bDone_setRootTask _ c (some r) (-1) x).trans (hdone x)
  · have := rootTask_setRootTask _ c (some r) (-1) (hmoved.length.symm ▸ hc) x
    rw [hroot x] at this
    exact this
  · have := count_setRootTask _ c (-1) r (hmoved.length.symm ▸ hr) (by decide) x
    rw [hcount x, hcount r] at this
    exact this

/-- What falling asleep makes of the tasks: those of the tuple are awaited by the coroutine, the first one is linked to it,
and the coroutine counts them all. -/
structure FallsAsleep (s t : Coroutines) (coroutine task : ℕ) (jobCount : ℤ) (elems : List ℕ) (i : ℕ) (stage : TaskStage) : Prop where
  kinds : SameKinds s t
  root : ∀ x, t.rootTask x = if x = task then some coroutine else s.rootTask x
  count : ∀ x, t.count x =
    if x = coroutine then s.count coroutine + BitVec.ofInt 32 (if jobCount < 0 then 1 else jobCount) else s.count x
  bDone : ∀ x, t.bDone x = s.bDone x
  system : t.system = s.system
  currentJob : t.currentJob = s.currentJob
  awaiting : t.awaiting = coroutine ::ₘ s.awaiting
  finished : t.finished = s.finished
  awaitedBy : ∀ x, t.awaitedBy x = if x ∈ elems then some coroutine else s.awaitedBy x
  surplus : ∀ x, t.surplus x = if x = coroutine then jobCount.toNat - elems.length else s.surplus x
  stage : ∀ k, t.stage k = if k = i then stage else s.stage k

theorem fallsAsleep {s : Coroutines} {c task : ℕ} {jobCount : ℤ} (hc : c < s.tasks.length) (htask : task < s.tasks.length)
    (hne : jobCount ≠ 0) (jobs : List (ℕ × ℤ)) (i : ℕ) (stage : TaskStage) :
    FallsAsleep s (((s.fallAsleep c ((task, jobCount) :: jobs) jobCount).setRootTask task (some c) jobCount).setStage i stage) c task
      jobCount (task :: jobs.map Prod.fst) i stage := by
  have htasks : (s.fallAsleep c ((task, jobCount) :: jobs) jobCount).tasks = s.tasks := by
    unfold fallAsleep
    rw [if_neg hne]
  have hkinds : SameKinds s (s.fallAsleep c ((task, jobCount) :: jobs) jobCount) :=
    ⟨congrArg List.length htasks, fun k => by rw [htasks]⟩
  have hroot := fun x => rootTask_setRootTask (s.fallAsleep c ((task, jobCount) :: jobs) jobCount) task (some c) jobCount
    (hkinds.length.symm ▸ htask) x
  have hcount := fun x => count_setRootTask (s.fallAsleep c ((task, jobCount) :: jobs) jobCount) task jobCount c
    (hkinds.length.symm ▸ hc) hne x
  have hbDone := fun x => bDone_setRootTask (s.fallAsleep c ((task, jobCount) :: jobs) jobCount) task (some c) jobCount x
  have hkinds' := hkinds.trans (sameKinds_setRootTask _ task (some c) jobCount)
  rw [setRootTask_eq] at hkinds' hroot hcount hbDone ⊢
  generalize ((s.fallAsleep c ((task, jobCount) :: jobs) jobCount).setRootTask task (some c) jobCount).tasks = tasks at *
  unfold fallAsleep at hkinds' hroot hcount hbDone ⊢
  rw [if_neg hne] at hkinds' hroot hcount hbDone ⊢
  refine ⟨⟨hkinds'.length, hkinds'.kind⟩, hroot, hcount, hbDone, rfl, rfl, rfl, rfl, fun _ => rfl, fun x => ?_, fun _ => rfl⟩
  have hlength : (task :: jobs.map Prod.fst).length = jobs.length + 1 := by rw [List.length_cons, List.length_map]
  rw [hlength]
  rfl

theorem Entering.nobody {s : Coroutines} {task : ℕ} {jobCount : ℤ} {jobs : List (ℕ × ℤ)}
    (h : s.Entering ((task, jobCount) :: jobs)) : ∀ x ∈ task :: jobs.map Prod.fst, s.awaitedBy x = none ∧ s.rootTask x = none := by
  intro x hx
  rcases List.mem_cons.mp hx with rfl | hx
  · exact h.2.2.2 _ List.mem_cons_self
  · obtain ⟨elem, helem, rfl⟩ := List.mem_map.mp hx
    exact h.2.2.2 elem (List.mem_cons_of_mem _ helem)

namespace Kept

variable {s : Coroutines} (h : s.Kept) {i : ℕ} {job : Job ℕ}
include h

theorem nodup_atWork {x : ℕ} (hx : x ∈ s.atWork i) : (s.atWork i).Nodup := by
  have hle : s.atWork i ≤ s.held := by
    unfold held
    refine le_trans ?_ (Multiset.le_add_left _ _)
    rw [← sum_erase_add _ _ (lt_of_atWork hx)]
    exact Multiset.le_add_left _ _
  refine Multiset.nodup_iff_count_le_one.mpr fun y => ?_
  have := h.count_le y
  have := Multiset.count_le_of_le y hle
  omega

theorem not_atWork_of_awaiting {x : ℕ} (hx : x ∈ s.awaiting) : x ∉ s.atWork i :=
  fun hat => h.not_awaiting (mem_held_of_atWork hat) hx

theorem not_atWork_of_finished {x : ℕ} (hx : x ∈ s.finished) : x ∉ s.atWork i :=
  fun hat => h.not_finished (mem_held_of_atWork hat) hx

/-- The counter of a coroutine at work is zero, but right before it is cleared. -/
theorem count_eq_zero {x : ℕ} (hx : x ∈ s.atWork i) (hk : s.IsKind x false) (hstage : ∀ job' rest, s.stage i ≠ .choosing job' rest) :
    s.count x = 0 := by
  refine (h.awake x (mem_held_of_atWork hx) hk).2.resolve_right fun ⟨k, job', job'', rest, hrun, hst, htask⟩ => ?_
  have hat : x ∈ s.atWork k := by
    rw [atWork_of_running hrun, hst, ← htask]
    exact Multiset.mem_add.mpr (.inl (Multiset.mem_add.mpr (.inr (Multiset.mem_singleton_self _))))
  obtain rfl := h.unique hx hat
  exact hstage job'' rest hst

theorem retask {t : Coroutines} (hw : WorkerStep s t i) (hrun : s.system.running i = some job)
    (hreach : (jobSystem ℕ).Reachable t.system) (hjobs : t.system.AllJobs fun job => s.IsKind job.task job.bFunction)
    (hkinds : SameKinds s t) (hcurrent : t.currentJob = s.currentJob) (hawaiting : t.awaiting = s.awaiting)
    (hfinished : t.finished = s.finished) (hby : t.awaitedBy = s.awaitedBy)
    (hsurplus : ∀ x, x ∉ s.awaiting → t.surplus x = s.surplus x) (hheld : t.held = s.held) (hself : t.StageOk job (t.stage i))
    (hroot : ∀ x, x ∉ s.atWork i → t.rootTask x = s.rootTask x)
    (hcount : ∀ x, x ∉ s.atWork i → x ∉ s.awaiting → t.count x = s.count x)
    (hasleep : ∀ p ∈ s.awaiting, ∃ d, (t.count p).toNat = (s.count p).toNat + d ∧ t.surplus p = s.surplus p + d)
    (hawaited : ∀ x ∈ s.atWork i, ∀ p, s.awaitedBy x = some p → t.Linked x → t.rootTask x = some p)
    (hfree : ∀ x ∈ s.atWork i, s.awaitedBy x = none → t.rootTask x = none ∨ s.IsKind x false ∧
      (t.rootTask x = some x ∨ ∃ f ∈ s.finished, t.rootTask x = some f ∧ s.awaitedBy f = some x ∧ s.IsKind f false))
    (hawake : ∀ x ∈ s.atWork i, s.IsKind x false → t.count x = 0 ∨ t.Choosing x)
    (hbDone : ∀ x, s.bDone x = true → t.bDone x = true) (hdone : ∀ x, t.bDone x = true → s.bDone x = true ∨ t.Leaving x)
    (hleaving : s.stage i = .returned ∨ (∃ root, s.stage i = .counting root) →
      t.stage i = .returned ∨ ∃ root, t.stage i = .counting root) : t.Kept := by
  have hkind : ∀ x b, t.IsKind x b ↔ s.IsKind x b := fun x b => by unfold IsKind; rw [hkinds.kind]
  constructor
  case reach => exact hreach
  case jobs => exact hjobs.mono fun job => (hkind _ _).mpr
  case current =>
    intro k job' hk
    rw [hcurrent]
    exact h.current k job' ((hw.running k).symm.trans hk)
  case once => rw [hheld, hawaiting, hfinished, hkinds.length, h.once]
  case stage =>
    refine hw.stageOk h hrun (fun x b => (hkind x b).mpr) hbDone ?_ ?_ (fun x hx _ => ⟨hroot x hx, by rw [hby]⟩) hself
    · rw [hfinished]
      exact fun _ hx => hx
    · rw [hby]
      exact fun _ _ hx => hx
  case fresh =>
    rw [hkinds.length, hby]
    refine fun x hx => ⟨(h.fresh x hx).1, (hsurplus x fun hmem => ?_).trans (h.fresh x hx).2⟩
    exact absurd (h.lt_of_awaiting hmem) (Nat.not_lt.mpr hx)
  case awaited =>
    intro x p
    rw [hby, hfinished, hawaiting]
    refine fun hx hfin => ⟨(h.awaited x p hx hfin).1, fun hlink => ?_⟩
    by_cases hat : x ∈ s.atWork i
    · exact hawaited x hat p hx hlink
    · refine (hroot x hat).trans ((h.awaited x p hx hfin).2 (hw.linked (fun hmem => absurd ?_ hat) hlink))
      rw [atWork_of_running hrun]
      exact Multiset.mem_add.mpr (.inr (Multiset.mem_coe.mpr hmem))
  case root =>
    intro x
    simp only [hby, hfinished, hkind]
    intro hx hfin
    by_cases hat : x ∈ s.atWork i
    · exact hfree x hat hx
    · rw [hroot x hat]
      exact h.root x hx hfin
  case asleep =>
    intro p
    rw [hawaiting]
    intro hp
    obtain ⟨hk, hpos, hsum⟩ := h.asleep p hp
    obtain ⟨d, hd, hsur⟩ := hasleep p hp
    have hsame : t.unfinished p = s.unfinished p := by
      unfold unfinished
      rw [hkinds.length, hby, hfinished]
    rw [hkind, hd, hsur, hsame]
    exact ⟨hk, by omega, by omega⟩
  case awake =>
    intro x
    rw [hheld, hkind]
    intro hx hk
    refine ⟨(hsurplus x (h.not_awaiting hx)).trans (h.awake x hx hk).1, ?_⟩
    by_cases hat : x ∈ s.atWork i
    · exact hawake x hat hk
    · rw [hcount x hat (h.not_awaiting hx)]
      refine (h.awake x hx hk).2.imp_right fun hch => hw.choosing hch fun job' rest hst htask => hat ?_
      rw [atWork_of_running hrun, hst, ← htask]
      exact Multiset.mem_add.mpr (.inl (Multiset.mem_add.mpr (.inr (Multiset.mem_singleton_self _))))
  case spent =>
    intro f
    simp only [hby, hfinished, hkind]
    intro hf hk p hp hpf
    rw [hcount f (h.not_atWork_of_finished hf) fun hmem => h.awaiting_not_finished hmem hf]
    exact h.spent f hf hk p hp hpf
  case leaving =>
    intro x hx
    rw [hfinished]
    rcases hdone x hx with hold | hnew
    · exact (h.leaving x hold).imp_right fun hl => hw.leaving hrun hl fun _ => hleaving
    · exact .inr hnew
  case done =>
    intro x
    rw [hfinished]
    exact fun hx => hbDone x (h.done x hx)

/-! ## Submitting -/

/-- The next job of a tuple is linked to the coroutine, which counts it already. -/
theorem addStep (hrun : s.system.running i = some job) {task : ℕ} {jobs : List (ℕ × ℤ)}
    (hstage : s.stage i = .suspending ((task, 0) :: jobs)) (hasleep : s.Asleep job.task ((task, 0) :: jobs)) :
    ((s.setRootTask task (some job.task) 0).setStage i
      (.choosing ⟨task, s.isFunctionTask task, s.threadIndex task⟩ (some jobs))).Kept := by
  have hby : s.awaitedBy task = some job.task := (hasleep _ List.mem_cons_self).2
  have hholds : s.atWork i = {task} + (jobs.map Prod.fst : Multiset ℕ) := by
    rw [atWork_of_running hrun, hstage]
    simp [TaskStage.holds, TaskStage.self, TaskStage.inHand, TaskStage.tuple]
  have htask : task < s.tasks.length :=
    h.lt_of_held (mem_held_of_atWork (i := i) (by rw [hholds]; exact Multiset.mem_add.mpr (.inl (Multiset.mem_singleton_self _))))
  have hkinds := s.sameKinds_setRootTask task (some job.task) 0
  have hroot := s.rootTask_setRootTask task (some job.task) 0 htask
  have hcount := s.count_setRootTask_zero task (some job.task)
  have hbDone := s.bDone_setRootTask task (some job.task) 0
  rw [setRootTask_eq] at hkinds hroot hcount hbDone ⊢
  generalize (s.setRootTask task (some job.task) 0).tasks = tasks at *
  generalize ht : ({ s with tasks := tasks } : Coroutines).setStage i _ = t
  have hw : WorkerStep s t i := by
    rw [← ht]
    exact ⟨rfl, fun _ => rfl, fun k hk => if_neg hk⟩
  have hself : t.stage i = .choosing ⟨task, s.isFunctionTask task, s.threadIndex task⟩ (some jobs) := by
    rw [← ht]
    exact if_pos rfl
  have hheld : t.held = s.held := by
    refine add_right_cancel (b := 0) (hw.held hrun (congrArg (· + 0) ?_))
    rw [hself, ← atWork_of_running hrun, hholds, ← ht]
    exact congrArg _ (by simp [TaskStage.holds, TaskStage.self, TaskStage.inHand, TaskStage.tuple])
  subst ht
  refine h.retask hw hrun h.reach h.jobs ⟨hkinds.length, hkinds.kind⟩ rfl rfl rfl rfl (fun _ _ => rfl) hheld ?_
    (fun x hx => (hroot x).trans (if_neg ?_)) (fun x _ _ => hcount x)
    (fun p _ => ⟨0, congrArg BitVec.toNat (hcount p), rfl⟩) (fun x hx p hp hlink => (hroot x).trans ?_) (fun x hx hnone => ?_) (fun x hx hk => ?_)
    (fun x hx => (hbDone x).trans hx) (fun x hx => .inl ((hbDone x).symm.trans hx)) ?_
  · rw [hself]
    exact ⟨hkinds.isKind (isKind_of_lt htask), jobs, rfl, fun elem hmem => hasleep elem (List.mem_cons_of_mem _ hmem)⟩
  · rintro rfl
    exact hx (by rw [hholds]; exact Multiset.mem_add.mpr (.inl (Multiset.mem_singleton_self _)))
  · split_ifs with hxt
    · exact hby.symm.trans (hxt ▸ hp)
    · rw [hholds] at hx
      have hmem := (Multiset.mem_add.mp hx).resolve_left fun hx => hxt (Multiset.mem_singleton.mp hx)
      exact absurd (by rw [hself]; exact hmem) (hlink i job hrun)
  · -- all jobs of the tuple are awaited by the coroutine
    rw [hholds] at hx
    exfalso
    rcases Multiset.mem_add.mp hx with hx | hx
    · rw [Multiset.mem_singleton.mp hx, hby] at hnone
      cases hnone
    · obtain ⟨elem, hmem, rfl⟩ := List.mem_map.mp (Multiset.mem_coe.mp hx)
      rw [(hasleep elem (List.mem_cons_of_mem _ hmem)).2] at hnone
      cases hnone
  · refine (h.awake x (mem_held_of_atWork hx) hk).2.imp (hcount x).trans fun hch => hw.choosing hch fun job' rest hst => ?_
    rw [hstage] at hst
    cases hst
  · rw [hstage]
    rintro (hst | ⟨_, hst⟩) <;> cases hst

theorem chooseStep (hrun : s.system.running i = some job) {job' : Job ℕ} {jobs : List (ℕ × ℤ)}
    (hstage : s.stage i = .choosing job' (some jobs)) : (s.chooseWorker i job' (some jobs)).Kept := by
  obtain ⟨hkind', _, hrest, hasleep⟩ : s.IsKind job'.task job'.bFunction ∧ ∃ jobs', some jobs = some jobs' ∧ s.Asleep job.task jobs' := by
    have := h.stage i job hrun
    rwa [hstage] at this
  obtain rfl := Option.some.inj hrest
  have hholds : s.atWork i = {job'.task} + (jobs.map Prod.fst : Multiset ℕ) := by
    rw [atWork_of_running hrun, hstage]
    simp [TaskStage.holds, TaskStage.self, TaskStage.inHand, TaskStage.tuple]
  have hmem : job'.task ∈ s.atWork i := by
    rw [hholds]
    exact Multiset.mem_add.mpr (.inl (Multiset.mem_singleton_self _))
  have hkinds := s.sameKinds_setTask job'.task 
    (f := fun t => { t with childrenTaskCount := if job'.bFunction then 1 else 0 }) fun _ => rfl
  generalize ht : s.chooseWorker i job' (some jobs) = t
  have hsystem : t.system = s.system.next (.submit job') := by rw [← ht]; rfl
  have hself : t.stage i = .submitting job'.task (some jobs) := by
    rw [← ht]
    exact if_pos rfl
  have hw : WorkerStep s t i := by
    refine ⟨by rw [hsystem, JobSystem.threadCount_next], fun k => ?_, fun k hk => ?_⟩
    · rw [hsystem]
      exact JobSystem.running_next (by simp)
    · rw [← ht]
      exact if_neg hk
  have hheld : t.held = s.held := by
    refine add_right_cancel (b := 0) (hw.held hrun (congrArg (· + 0) ?_))
    have hwait : t.system.waiting = s.system.waiting + {job'.task} := by
      rw [hsystem]
      exact s.system.waiting_internalAddJob job'
    rw [hself, ← atWork_of_running hrun, hholds, hwait, add_assoc]
    exact congrArg _ (by simp [TaskStage.holds, TaskStage.self, TaskStage.inHand, TaskStage.tuple])
  have hcount : ∀ x, t.count x = if x = job'.task then (if job'.bFunction then 1 else 0) else s.count x := by
    intro x
    rw [← ht]
    exact s.count_setCount job'.task x (fun _ => if job'.bFunction then 1 else 0) hkind'.lt
  have hroot : ∀ x, t.rootTask x = s.rootTask x := by
    intro x
    rw [← ht]
    exact s.rootTask_setTask job'.task x fun _ => rfl
  have hbDone : ∀ x, t.bDone x = s.bDone x := by
    intro x
    rw [← ht]
    exact s.bDone_setTask job'.task x fun _ => rfl
  refine h.retask hw hrun (hsystem ▸ h.reach_next _) (hsystem ▸ h.jobs.next h.queuesOk fun job hjob => ?_) ?_ (by rw [← ht]; rfl)
    (by rw [← ht]; rfl) (by rw [← ht]; rfl) (by rw [← ht]; rfl) (fun x _ => by rw [← ht]; rfl) hheld ?_ (fun x _ => hroot x)
    (fun x hx _ => (hcount x).trans (if_neg ?_)) (fun p hp => ⟨0, ?_, by rw [← ht]; rfl⟩) (fun x hx p hp hlink => ?_) (fun x hx hnone => ?_) (fun x hx hk => ?_)
    (fun x hx => (hbDone x).trans hx) (fun x hx => .inl ((hbDone x).symm.trans hx)) ?_
  · cases hjob
    exact hkind'
  · rw [← ht]
    exact ⟨hkinds.length, hkinds.kind⟩
  · rw [hself]
    refine ⟨jobs, rfl, ?_⟩
    rw [← ht]
    exact hasleep
  · rintro rfl
    exact hx hmem
  · rw [hcount, if_neg]
    · rfl
    · rintro rfl
      exact h.not_atWork_of_awaiting hp hmem
  · rw [hroot]
    have hfin := h.not_finished (mem_held_of_atWork hx)
    refine (h.awaited x p hp hfin).2 (hw.linked (fun hxt => ?_) hlink)
    rw [hself]
    rwa [hstage] at hxt
  · rw [hroot]
    exact h.root x hnone (h.not_finished (mem_held_of_atWork hx))
  · rw [hcount]
    by_cases hxt : x = job'.task
    · subst hxt
      rw [if_pos rfl, ← hkind'.eq, hk.eq]
      exact .inl rfl
    · rw [if_neg hxt]
      refine (h.awake x (mem_held_of_atWork hx) hk).2.imp_right fun hch => hw.choosing hch fun job'' rest hst => ?_
      rw [hstage] at hst
      cases hst
      exact Ne.symm hxt
  · rw [hstage]
    rintro (hst | ⟨_, hst⟩) <;> cases hst

theorem returnStep (hrun : s.system.running i = some job) (hstage : s.stage i = .doTask) :
    ((s.setTask job.task fun t => { t with bDone := true }).setStage i .returned).Kept := by
  have hholds : s.atWork i = {job.task} := by
    rw [atWork_of_running hrun, hstage]
    rfl
  have hkinds := s.sameKinds_setTask job.task (f := fun t => { t with bDone := true }) fun _ => rfl
  have hroot : ∀ x, (s.setTask job.task fun t => { t with bDone := true }).rootTask x = s.rootTask x :=
    fun x => s.rootTask_setTask job.task x fun _ => rfl
  have hcount : ∀ x, (s.setTask job.task fun t => { t with bDone := true }).count x = s.count x :=
    fun x => s.count_setTask job.task x fun _ => rfl
  have htask : job.task < s.tasks.length :=
    h.lt_of_held (mem_held_of_atWork (i := i) (by rw [hholds]; exact Multiset.mem_singleton_self _))
  have hbDone : ∀ x, (s.setTask job.task fun t => { t with bDone := true }).bDone x = if x = job.task then true else s.bDone x := by
    intro x
    unfold bDone
    rw [get_setTask]
    by_cases hx : job.task = x
    · subst hx
      rw [List.getElem?_eq_getElem htask]
      simp
    · simp [hx, Ne.symm hx]
  generalize ht : (s.setTask job.task fun t => { t with bDone := true }).setStage i .returned = t
  have hw : WorkerStep s t i := by
    rw [← ht]
    exact ⟨rfl, fun _ => rfl, fun k hk => if_neg hk⟩
  have hself : t.stage i = .returned := by
    rw [← ht]
    exact if_pos rfl
  have hheld : t.held = s.held := by
    refine add_right_cancel (b := 0) (hw.held hrun (congrArg (· + 0) ?_))
    rw [hself, ← atWork_of_running hrun, hholds, ← ht]
    rfl
  subst ht
  refine h.retask hw hrun h.reach h.jobs ⟨hkinds.length, hkinds.kind⟩ rfl rfl rfl rfl (fun _ _ => rfl) hheld ?_
    (fun x _ => hroot x) (fun x _ _ => hcount x) (fun p _ => ⟨0, congrArg BitVec.toNat (hcount p), rfl⟩) (fun x hx p hp hlink => (hroot x).trans ?_) (fun x hx hnone => ?_) (fun x hx hk => ?_)
    (fun x hx => (hbDone x).trans ?_) (fun x hx => ?_) ?_
  · rw [hself]
    exact (hbDone job.task).trans (if_pos rfl)
  · refine (h.awaited x p hp (h.not_finished (mem_held_of_atWork hx))).2 (hw.linked (fun hxt => ?_) hlink)
    rw [hstage] at hxt
    cases hxt
  · have := h.root x hnone (h.not_finished (mem_held_of_atWork hx))
    rwa [← hroot x] at this
  · refine (h.awake x (mem_held_of_atWork hx) hk).2.imp (hcount x).trans fun hch => hw.choosing hch fun job' rest hst => ?_
    rw [hstage] at hst
    cases hst
  · split_ifs
    · rfl
    · exact hx
  · have hx := (hbDone x).symm.trans hx
    split_ifs at hx with hxt
    · exact .inr ⟨i, job, hrun, hxt.symm, .inl hself⟩
    · exact .inl hx
  · exact fun _ => .inl hself

/-- The coroutine whose last task is counted off is submitted again. Where it has no root task, the task that was counted
off takes that place if it is a coroutine. -/
theorem resumeStep (hrun : s.system.running i = some job) {root : ℕ} (hstage : s.stage i = .resuming root) :
    (s.resumeStep i job root).Kept := by
  obtain ⟨hfin, hby, hkind⟩ : job.task ∈ s.finished ∧ s.awaitedBy job.task = some root ∧ s.IsKind root false := by
    have := h.stage i job hrun
    rwa [hstage] at this
  have hholds : s.atWork i = {root} := by
    rw [atWork_of_running hrun, hstage]
    rfl
  have hmem : root ∈ s.atWork i := by
    rw [hholds]
    exact Multiset.mem_singleton_self _
  obtain ⟨rootOfRoot, hdef, hcases⟩ : ∃ r, (if job.bFunction then s.rootTask root else (s.rootTask root).or (s.currentJob i)) = r ∧
      (r = s.rootTask root ∨ s.rootTask root = none ∧ r = some job.task ∧ s.IsKind job.task false) := by
    refine ⟨_, rfl, ?_⟩
    cases hb : job.bFunction with
    | true => exact .inl rfl
    | false =>
      have hjob := h.jobs.running i job (JobSystem.running_eq_some.mp hrun).2
      rw [hb] at hjob
      cases hroot : s.rootTask root with
      | none => exact .inr ⟨rfl, h.current i job hrun hb, hjob⟩
      | some r => exact .inl rfl
  unfold Coroutines.resumeStep
  rw [hdef]
  have hkinds := s.sameKinds_setRootTask root rootOfRoot 0
  have hroot := s.rootTask_setRootTask root rootOfRoot 0 hkind.lt
  have hcount := s.count_setRootTask_zero root rootOfRoot
  have hbDone := s.bDone_setRootTask root rootOfRoot 0
  simp only
  rw [setRootTask_eq] at hkinds hroot hcount hbDone ⊢
  generalize (s.setRootTask root rootOfRoot 0).tasks = tasks at *
  generalize ht : ({ s with tasks := tasks } : Coroutines).setStage i _ = t
  have hw : WorkerStep s t i := by
    rw [← ht]
    exact ⟨rfl, fun _ => rfl, fun k hk => if_neg hk⟩
  have hself : t.stage i = .choosing ⟨root, false, s.threadIndex root⟩ (some []) := by
    rw [← ht]
    exact if_pos rfl
  have hheld : t.held = s.held := by
    refine add_right_cancel (b := 0) (hw.held hrun (congrArg (· + 0) ?_))
    rw [hself, ← atWork_of_running hrun, hholds, ← ht]
    rfl
  subst ht
  refine h.retask hw hrun h.reach h.jobs ⟨hkinds.length, hkinds.kind⟩ rfl rfl rfl rfl (fun _ _ => rfl) hheld ?_
    (fun x hx => (hroot x).trans (if_neg ?_)) (fun x _ _ => hcount x) (fun p _ => ⟨0, congrArg BitVec.toNat (hcount p), rfl⟩)
    (fun x hx p hp _ => (hroot x).trans ?_) (fun x hx hnone => ?_) (fun x hx hk => .inr ⟨i, job, _, _, hrun, hself, ?_⟩)
    (fun x hx => (hbDone x).trans hx) (fun x hx => .inl ((hbDone x).symm.trans hx)) ?_
  · rw [hself]
    exact ⟨hkinds.isKind hkind, [], rfl, fun elem hmem => nomatch hmem⟩
  · rintro rfl
    exact hx hmem
  · -- the root task of a coroutine that is awaited stays what it is
    obtain rfl := Multiset.mem_singleton.mp (hholds ▸ hx)
    have hlink : s.Linked x := h.linked hrun (by rwa [← atWork_of_running hrun]) (by rw [hstage]; exact List.not_mem_nil)
    have hold := (h.awaited x p hp (h.not_finished (mem_held_of_atWork hx))).2 hlink
    rw [if_pos rfl]
    rcases hcases with hsame | ⟨hno, -⟩
    · exact hsame.trans hold
    · rw [hno] at hold
      cases hold
  · obtain rfl := Multiset.mem_singleton.mp (hholds ▸ hx)
    have hnew := (hroot x).trans (if_pos rfl)
    rcases hcases with hsame | ⟨-, hsome, hjob⟩
    · have := h.root x hnone (h.not_finished (mem_held_of_atWork hx))
      rwa [← hsame, ← hnew] at this
    · exact .inr ⟨hkind, .inr ⟨job.task, hfin, hnew.trans hsome, hby, hjob⟩⟩
  · exact (Multiset.mem_singleton.mp (hholds ▸ hx)).symm
  · rw [hstage]
    rintro (hst | ⟨_, hst⟩) <;> cases hst

theorem moveStep (hrun : s.system.running i = some job) (hstage : s.stage i = .doTask) (hb : job.bFunction = false)
    (threadIndex : ℤ) (hroot : ∀ r, s.rootTask job.task = some r → r ∉ s.finished ∧ (s.count r).toNat + 1 < 2 ^ 32) :
    (s.resumeOn i job.task threadIndex).Kept := by
  unfold Coroutines.resumeOn
  split_ifs with hsame
  · exact h
  have hholds := atWork_doTask hrun hstage
  have hmem : job.task ∈ s.atWork i := by
    rw [hholds]
    exact Multiset.mem_singleton_self _
  have hkind : s.IsKind job.task false := hb ▸ h.jobs.running i job (JobSystem.running_eq_some.mp hrun).2
  have hfin := h.not_finished (mem_held_of_atWork hmem)
  have hlink : s.Linked job.task := h.linked hrun (by rwa [← atWork_of_running hrun]) (by rw [hstage]; exact List.not_mem_nil)
  obtain ⟨r, hr, hcases⟩ : ∃ r, (s.rootTask job.task).or (s.currentJob i) = some r ∧
      (r = job.task ∧ s.awaitedBy job.task = none ∨ s.awaitedBy job.task = some r ∧ r ∈ s.awaiting ∧ s.rootTask job.task = some r) := by
    have hcurrent := h.current i job hrun hb
    cases hby : s.awaitedBy job.task with
    | some p =>
      obtain ⟨hp, hold⟩ := h.awaited _ p hby hfin
      exact ⟨p, by rw [hold hlink]; rfl, .inr ⟨rfl, hp, hold hlink⟩⟩
    | none =>
      refine ⟨job.task, ?_, .inl ⟨rfl, rfl⟩⟩
      rcases h.root _ hby hfin with hnone | ⟨-, hself | ⟨f, hf, hrf, -⟩⟩
      · rw [hnone, hcurrent]
        rfl
      · rw [hself]
        rfl
      · exact absurd hf (hroot f hrf).1
  have hlt : r < s.tasks.length := by
    rcases hcases with ⟨rfl, -⟩ | ⟨-, hp, -⟩
    · exact hkind.lt
    · exact h.lt_of_awaiting hp
  obtain ⟨tasks, heq, hkinds, hbDone, hrootTask, hcount⟩ := s.exists_moved hkind.lt hlt threadIndex
  simp only [hr, heq]
  generalize ht : Coroutines.setStage _ i _ = t
  have hw : WorkerStep s t i := by
    rw [← ht]
    exact ⟨rfl, fun _ => rfl, fun k hk => if_neg hk⟩
  have hself : t.stage i = .choosing ⟨job.task, false, threadIndex⟩ (some []) := by
    rw [← ht]
    exact if_pos rfl
  have hheld : t.held = s.held := by
    refine add_right_cancel (b := 0) (hw.held hrun (congrArg (· + 0) ?_))
    rw [hself, ← atWork_of_running hrun, hholds, ← ht]
    rfl
  have hsurplus : ∀ x, t.surplus x = if some r = some x ∧ x ≠ job.task then s.surplus x + 1 else s.surplus x := by
    rw [← ht]
    exact fun _ => rfl
  subst ht
  refine h.retask hw hrun h.reach h.jobs ⟨hkinds.length, hkinds.kind⟩ rfl rfl rfl rfl (fun x hx => (hsurplus x).trans (if_neg ?_))
    hheld ?_ (fun x hx => (hrootTask x).trans (if_neg ?_)) (fun x hx hnot => (hcount x).trans (if_neg ?_)) (fun p hp => ?_)
    (fun x hx p hp _ => (hrootTask x).trans ?_) (fun x hx hnone => ?_) (fun x hx hk => .inr ⟨i, job, _, _, hrun, hself, ?_⟩)
    (fun x hx => (hbDone x).trans hx) (fun x hx => .inl ((hbDone x).symm.trans hx)) ?_
  · rintro ⟨hrx, hne⟩
    cases hrx
    rcases hcases with ⟨rfl, -⟩ | ⟨-, hp, -⟩
    · exact hne rfl
    · exact hx hp
  · rw [hself]
    exact ⟨hkinds.isKind hkind, [], rfl, fun elem hmem => nomatch hmem⟩
  · rintro rfl
    exact hx hmem
  · rintro rfl
    rcases hcases with ⟨rfl, -⟩ | ⟨-, hp, -⟩
    · exact hx hmem
    · exact hnot hp
  · have hpc : p ≠ job.task := by
      rintro rfl
      exact h.not_awaiting (mem_held_of_atWork hmem) hp
    by_cases hpr : p = r
    · subst hpr
      refine ⟨1, ?_, (hsurplus p).trans (if_pos ⟨rfl, hpc⟩)⟩
      rcases hcases with ⟨hpc', -⟩ | ⟨-, -, hold⟩
      · exact absurd hpc' hpc
      · have hc : BitVec.toNat _ = BitVec.toNat _ := congrArg BitVec.toNat ((hcount p).trans (if_pos rfl))
        have hone : (1 : BitVec 32).toNat = 1 := rfl
        rw [BitVec.toNat_add, hone, Nat.mod_eq_of_lt (hroot p hold).2] at hc
        exact hc
    · exact ⟨0, congrArg BitVec.toNat ((hcount p).trans (if_neg hpr)), (hsurplus p).trans (if_neg fun hrp => hpr (Option.some.inj hrp.1).symm)⟩
  · obtain rfl := Multiset.mem_singleton.mp (hholds ▸ hx)
    rw [if_pos rfl]
    rcases hcases with ⟨-, hnone⟩ | ⟨hby, -⟩
    · rw [hp] at hnone
      cases hnone
    · exact hby.symm.trans hp
  · obtain rfl := Multiset.mem_singleton.mp (hholds ▸ hx)
    rcases hcases with ⟨rfl, -⟩ | ⟨hby, -⟩
    · exact .inr ⟨hkind, .inl ((hrootTask _).trans (if_pos rfl))⟩
    · rw [hby] at hnone
      cases hnone
  · exact (Multiset.mem_singleton.mp (hholds ▸ hx)).symm
  · rw [hstage]
    rintro (hst | ⟨_, hst⟩) <;> cases hst

/-- The first job of the tuple puts the coroutine to sleep: all jobs of the tuple are counted at it at once. -/
theorem sleepStep (hrun : s.system.running i = some job) (hb : job.bFunction = false) {task : ℕ} {jobCount : ℤ}
    {jobs : List (ℕ × ℤ)} (hstage : s.stage i = .suspending ((task, jobCount) :: jobs))
    (hentering : s.Entering ((task, jobCount) :: jobs)) :
    (((s.fallAsleep job.task ((task, jobCount) :: jobs) jobCount).setRootTask task (some job.task) jobCount).setStage i
      (.choosing ⟨task, s.isFunctionTask task, s.threadIndex task⟩ (some jobs))).Kept := by
  have hnone := hentering.nobody
  obtain ⟨hlen, hsmall, hzero, -⟩ := hentering
  have hne : jobCount ≠ 0 := by omega
  have hholds : s.atWork i = job.task ::ₘ (task :: jobs.map Prod.fst : List ℕ) := by
    rw [atWork_of_running hrun, hstage]
    simp [TaskStage.holds, TaskStage.self, TaskStage.inHand, TaskStage.tuple, hne]
  have htask : task < s.tasks.length := h.lt_of_held (mem_held_of_atWork (i := i) (by
    rw [hholds]
    exact Multiset.mem_cons_of_mem (Multiset.mem_coe.mpr List.mem_cons_self)))
  have hkind : s.IsKind job.task false := hb ▸ h.jobs.running i job (JobSystem.running_eq_some.mp hrun).2
  obtain ⟨hkinds, hroot, hcount, hbDone, hsystem, hcurrent, hawaiting, hfinished, hby, hsurplus, hstages⟩ :=
    fallsAsleep (s := s) hkind.lt htask hne jobs i (.choosing ⟨task, s.isFunctionTask task, s.threadIndex task⟩ (some jobs))
  generalize Coroutines.setStage _ i _ = t at *
  have hlength : (task :: jobs.map Prod.fst).length = jobs.length + 1 := by rw [List.length_cons, List.length_map]
  have hself := (hstages i).trans (if_pos rfl)
  have hw : WorkerStep s t i := ⟨by rw [hsystem], fun _ => by rw [hsystem], fun k hk => (hstages k).trans (if_neg hk)⟩
  have htuple : (s.stage i).tuple = task :: jobs.map Prod.fst := by
    rw [hstage]
    rfl
  have hheld : t.held + {job.task} = s.held := by
    refine (hw.held hrun (x := {job.task}) (y := 0) ?_).trans (add_zero _)
    have hafter : (t.stage i).holds job.task = (task :: jobs.map Prod.fst : List ℕ) := by
      rw [hself]
      rfl
    rw [hafter, ← atWork_of_running hrun, hholds, hsystem, ← Multiset.singleton_add, add_zero]
    abel
  generalize helems : task :: jobs.map Prod.fst = elems at *
  have hmemTask : task ∈ elems := by
    rw [← helems]
    exact List.mem_cons_self
  have hmem : job.task ∈ s.atWork i := by
    rw [hholds]
    exact Multiset.mem_cons_self _ _
  have hheldOf : ∀ x ∈ elems, x ∈ s.held :=
    fun x hx => mem_held_of_atWork (i := i) (by rw [hholds]; exact Multiset.mem_cons_of_mem (Multiset.mem_coe.mpr hx))
  have hnodup : (job.task :: elems).Nodup := by
    rw [← Multiset.coe_nodup, ← Multiset.cons_coe, ← hholds]
    exact h.nodup_atWork hmem
  have hcount0 : s.count job.task = 0 := h.count_eq_zero hmem hkind fun job' rest hst => by rw [hstage] at hst; cases hst
  have hnot : ∀ x ∈ elems, x ∉ s.finished := fun x hx => h.not_finished (hheldOf x hx)
  constructor
  case reach => rw [hsystem]; exact h.reach
  case jobs =>
    rw [hsystem]
    exact h.jobs.mono fun job' => hkinds.isKind
  case current =>
    rw [hsystem, hcurrent]
    exact h.current
  case once =>
    rw [hawaiting, hfinished, hkinds.length, ← h.once, ← hheld, ← Multiset.singleton_add]
    abel
  case stage =>
    refine hw.stageOk h hrun (fun x b => hkinds.isKind) (fun x hx => (hbDone x).trans hx) ?_ (fun x p hp => ?_)
      (fun x hx hheldx => ⟨(hroot x).trans (if_neg ?_), (hby x).trans (if_neg fun hmem => ?_)⟩) ?_
    · rw [hfinished]
      exact fun _ hx => hx
    · refine (hby x).trans ?_
      split_ifs with hx
      · rw [(hnone x hx).1] at hp
        cases hp
      · exact hp
    · rintro rfl
      exact hx (by rw [hholds]; exact Multiset.mem_cons_of_mem (Multiset.mem_coe.mpr hmemTask))
    · exact hx (by rw [hholds]; exact Multiset.mem_cons_of_mem (Multiset.mem_coe.mpr hmem))
    · rw [hself]
      refine ⟨hkinds.isKind (isKind_of_lt htask), jobs, rfl, fun elem hmem => ⟨hzero elem hmem, (hby _).trans (if_pos ?_)⟩⟩
      rw [← helems]
      exact List.mem_cons_of_mem _ (List.mem_map_of_mem hmem)
  case fresh =>
    intro x hx
    rw [hkinds.length] at hx
    refine ⟨(hby x).trans ((if_neg fun hmem => ?_).trans (h.fresh x hx).1), (hsurplus x).trans ((if_neg ?_).trans (h.fresh x hx).2)⟩
    · exact Nat.not_lt.mpr hx (h.lt_of_held (hheldOf x hmem))
    · rintro rfl
      exact Nat.not_lt.mpr hx hkind.lt
  case awaited =>
    intro x p hp hfin
    rw [hby] at hp
    rw [hfinished] at hfin
    rw [hawaiting, hroot]
    split_ifs at hp with hx
    · cases hp
      refine ⟨Multiset.mem_cons_self _ _, fun hlink => if_pos ?_⟩
      by_contra hxt
      rw [← helems] at hx
      exact hlink i job ((hw.running i).trans hrun) (by rw [hself]; exact (List.mem_cons.mp hx).resolve_left hxt)
    · obtain ⟨hmemp, hold⟩ := h.awaited x p hp hfin
      refine ⟨Multiset.mem_cons_of_mem hmemp, fun hlink => ?_⟩
      rw [if_neg]
      · exact hold (hw.linked (fun hmem => absurd (htuple ▸ hmem) hx) hlink)
      · rintro rfl
        exact hx hmemTask
  case root =>
    intro x hx hfin
    rw [hby] at hx
    rw [hfinished] at hfin
    split_ifs at hx with hmemx
    have hrootx : t.rootTask x = s.rootTask x := by
      rw [hroot, if_neg]
      rintro rfl
      exact hmemx hmemTask
    rw [hrootx, hfinished]
    obtain hnone' | ⟨hk, hcases⟩ := h.root x hx hfin
    · exact .inl hnone'
    · refine .inr ⟨hkinds.isKind hk, hcases.imp_right ?_⟩
      rintro ⟨f, hf, hrf, hbf, hkf⟩
      exact ⟨f, hf, hrf, (hby f).trans ((if_neg fun hmem => hnot f hmem hf).trans hbf), hkinds.isKind hkf⟩
  case asleep =>
    intro p hp
    rw [hawaiting] at hp
    by_cases hpc : p = job.task
    · subst hpc
      have hset : t.unfinished job.task = elems.toFinset := by
        ext x
        rw [mem_unfinished, hkinds.length, hby, hfinished, List.mem_toFinset]
        constructor
        · rintro ⟨-, hx, hfin⟩
          by_contra hnotmem
          rw [if_neg hnotmem] at hx
          have := (h.awaited x _ hx hfin).1
          exact h.not_awaiting (mem_held_of_atWork hmem) this
        · exact fun hx => ⟨h.lt_of_held (hheldOf x hx), if_pos hx, hnot x hx⟩
      have hcard : (t.unfinished job.task).card = elems.length := by
        rw [hset, List.toFinset_card_of_nodup (List.nodup_cons.mp hnodup).2]
      have hc : (t.count job.task).toNat = jobCount.toNat := by
        rw [hcount, if_pos rfl, show s.count job.task = 0#32 from hcount0, BitVec.zero_add, if_neg (by omega), BitVec.toNat_ofInt]
        omega
      rw [hcard, hc, hsurplus, if_pos rfl]
      exact ⟨hkinds.isKind hkind, by omega, by omega⟩
    · have hp := (Multiset.mem_cons.mp hp).resolve_left hpc
      obtain ⟨hk, hpos, hsum⟩ := h.asleep p hp
      have hset : t.unfinished p = s.unfinished p := by
        ext x
        rw [mem_unfinished, mem_unfinished, hkinds.length, hby, hfinished]
        refine and_congr_right fun _ => and_congr_left fun _ => ?_
        split_ifs with hx
        · rw [(hnone x hx).1]
          exact iff_of_false (fun heq => hpc (Option.some.inj heq).symm) (by simp)
        · exact Iff.rfl
      rw [hset, hcount, if_neg hpc, hsurplus, if_neg hpc]
      exact ⟨hkinds.isKind hk, hpos, hsum⟩
  case awake =>
    intro x hx hk
    have hxs : x ∈ s.held := by
      rw [← hheld]
      exact Multiset.mem_add.mpr (.inl hx)
    have hxc : x ≠ job.task := by
      rintro rfl
      have := h.count_le job.task
      rw [← hheld, Multiset.count_add, Multiset.count_singleton_self] at this
      have := Multiset.count_pos.mpr hx
      omega
    rw [hsurplus, if_neg hxc, hcount, if_neg hxc]
    obtain ⟨hs, hc⟩ := h.awake x hxs ((hkinds.kind x).symm.trans hk)
    refine ⟨hs, hc.imp_right fun hch => hw.choosing hch fun job' rest hst => ?_⟩
    rw [hstage] at hst
    cases hst
  case spent =>
    intro f hf hk p hp hpf
    rw [hfinished] at hf hpf
    rw [hby, if_neg fun hmem => hnot f hmem hf] at hp
    rw [hcount, if_neg]
    · exact h.spent f hf ((hkinds.kind f).symm.trans hk) p hp hpf
    · rintro rfl
      exact h.not_finished (mem_held_of_atWork hmem) hf
  case leaving =>
    intro x hx
    rw [hbDone] at hx
    rw [hfinished]
    refine (h.leaving x hx).imp_right fun hl => hw.leaving hrun hl fun _ => ?_
    rw [hstage]
    rintro (hst | ⟨_, hst⟩) <;> cases hst
  case done =>
    intro x hx
    rw [hfinished] at hx
    exact (hbDone x).trans (h.done x hx)

/-! ## A task is counted off -/

theorem finishStep {t : Coroutines} (hw : WorkerStep s t i) (hrun : s.system.running i = some job)
    (hholds : s.atWork i = {job.task}) (hstage : s.stage i = .returned ∨ ∃ root, s.stage i = .counting root)
    (hsystem : t.system = s.system)
    (hcurrent : ∀ k job', s.system.running k = some job' → job'.bFunction = false → t.currentJob k = s.currentJob k)
    (hkinds : SameKinds s t) (hroot : ∀ x, t.rootTask x = s.rootTask x) (hbDone : ∀ x, t.bDone x = s.bDone x)
    (hby : t.awaitedBy = s.awaitedBy) (hsurplus : t.surplus = s.surplus) (hfinished : t.finished = job.task ::ₘ s.finished)
    (woken : Multiset ℕ) (hawaiting : t.awaiting + woken = s.awaiting) (hheld : t.held + {job.task} = s.held + woken)
    (hself : t.StageOk job (t.stage i)) (hcount : ∀ x ∈ s.held, x ≠ job.task → t.count x = s.count x)
    (hspent : ∀ f ∈ s.finished, ∀ p, s.awaitedBy f = some p → p ∉ s.finished → p ≠ job.task → t.count f = s.count f)
    (hspentSelf : s.IsKind job.task false → ∀ p, s.awaitedBy job.task = some p → t.count job.task = 0)
    (hasleep : ∀ p ∈ t.awaiting, 0 < (t.count p).toNat ∧
      (t.count p).toNat + (if s.awaitedBy job.task = some p then 1 else 0) = (s.count p).toNat)
    (hwoken : ∀ p ∈ woken, t.count p = 0 ∧ s.surplus p = 0 ∧ s.unfinished p = {job.task}) : t.Kept := by
  have hmem : job.task ∈ s.atWork i := by
    rw [hholds]
    exact Multiset.mem_singleton_self _
  have hmemHeld := mem_held_of_atWork hmem
  have hnot := h.not_finished hmemHeld
  have htuple : (s.stage i).tuple = [] := by
    rcases hstage with hst | ⟨_, hst⟩ <;> rw [hst] <;> rfl
  have hdone : s.bDone job.task = true := by
    have := h.stage i job hrun
    rcases hstage with hst | ⟨_, hst⟩ <;> rw [hst] at this
    · exact this
    · exact this.1
  constructor
  case reach => rw [hsystem]; exact h.reach
  case jobs =>
    rw [hsystem]
    exact h.jobs.mono fun job' => hkinds.isKind
  case current =>
    rw [hsystem]
    exact fun k job' hk hb => (hcurrent k job' hk hb).trans (h.current k job' hk hb)
  case once =>
    rw [hfinished, hkinds.length, ← h.once, ← hawaiting, ← Multiset.singleton_add]
    calc t.held + t.awaiting + ({job.task} + s.finished)
        = t.held + {job.task} + t.awaiting + s.finished := by abel
      _ = s.held + woken + t.awaiting + s.finished := by rw [hheld]
      _ = _ := by abel
  case stage =>
    refine hw.stageOk h hrun (fun x b => hkinds.isKind) (fun x hx => (hbDone x).trans hx) (fun x hx => ?_) ?_
      (fun x _ _ => ⟨hroot x, by rw [hby]⟩) hself
    · rw [hfinished]
      exact Multiset.mem_cons_of_mem hx
    · rw [hby]
      exact fun _ _ hx => hx
  case fresh =>
    rw [hkinds.length, hby, hsurplus]
    exact h.fresh
  case awaited =>
    intro x p hp hfin
    rw [hby] at hp
    rw [hfinished, Multiset.mem_cons, not_or] at hfin
    obtain ⟨hmemp, hold⟩ := h.awaited x p hp hfin.2
    refine ⟨?_, fun hlink => (hroot x).trans (hold (hw.linked (fun hx => ?_) hlink))⟩
    · rw [← hawaiting] at hmemp
      refine (Multiset.mem_add.mp hmemp).resolve_right fun hwok => hfin.1 ?_
      have hx : x ∈ s.unfinished p := mem_unfinished.mpr ⟨?_, hp, hfin.2⟩
      · rw [(hwoken p hwok).2.2] at hx
        exact mem_singleton.mp hx
      · by_contra hge
        rw [(h.fresh x (Nat.le_of_not_lt hge)).1] at hp
        cases hp
    · rw [htuple] at hx
      cases hx
  case root =>
    intro x hx hfin
    rw [hby] at hx
    rw [hfinished, Multiset.mem_cons, not_or] at hfin
    rw [hroot]
    refine (h.root x hx hfin.2).imp_right fun ⟨hk, hcases⟩ => ⟨hkinds.isKind hk, hcases.imp_right ?_⟩
    rw [hby, hfinished]
    exact fun ⟨f, hf, hrf, hbf, hkf⟩ => ⟨f, Multiset.mem_cons_of_mem hf, hrf, hbf, hkinds.isKind hkf⟩
  case asleep =>
    intro p hp
    have hmemp : p ∈ s.awaiting := by
      rw [← hawaiting]
      exact Multiset.mem_add.mpr (.inl hp)
    obtain ⟨hk, -, hsum⟩ := h.asleep p hmemp
    obtain ⟨hpos, hc⟩ := hasleep p hp
    have hcard := card_unfinished hkinds.length hby hfinished (h.lt_of_held hmemHeld) hnot p
    rw [hsurplus]
    exact ⟨hkinds.isKind hk, hpos, by omega⟩
  case awake =>
    intro x hx hk
    rw [hsurplus]
    have hxs : x ∈ s.held + woken := by
      rw [← hheld]
      exact Multiset.mem_add.mpr (.inl hx)
    by_cases hwok : x ∈ woken
    · obtain ⟨hzero, hsur, -⟩ := hwoken x hwok
      exact ⟨hsur, .inl hzero⟩
    · have hold := (Multiset.mem_add.mp hxs).resolve_right hwok
      have hxc : x ≠ job.task := by
        rintro rfl
        have hle := congrArg (Multiset.count job.task) hheld
        have := h.count_le job.task
        rw [Multiset.count_add, Multiset.count_add, Multiset.count_singleton_self, Multiset.count_eq_zero.mpr hwok] at hle
        have := Multiset.count_pos.mpr hx
        omega
      obtain ⟨hs, hc⟩ := h.awake x hold ((hkinds.kind x).symm.trans hk)
      rw [hcount x hold hxc]
      refine ⟨hs, hc.imp_right fun hch => hw.choosing hch fun job' rest hst => ?_⟩
      rcases hstage with hst' | ⟨_, hst'⟩ <;> rw [hst'] at hst <;> cases hst
  case spent =>
    intro f hf hk p hp hpf
    rw [hby] at hp
    rw [hfinished, Multiset.mem_cons, not_or] at hpf
    rw [hfinished] at hf
    have hkf : s.IsKind f false := (hkinds.kind f).symm.trans hk
    rcases Multiset.mem_cons.mp hf with rfl | hold
    · exact hspentSelf hkf p hp
    · exact (hspent f hold p hp hpf.2 hpf.1).trans (h.spent f hold hkf p hp hpf.2)
  case leaving =>
    intro x hx
    rw [hbDone] at hx
    rw [hfinished, Multiset.mem_cons]
    by_cases hxc : x = job.task
    · exact .inl (.inl hxc)
    · exact (h.leaving x hx).imp .inr fun hl => hw.leaving hrun hl fun hxc' => absurd hxc' hxc
  case done =>
    intro x hx
    rw [hfinished] at hx
    rw [hbDone]
    rcases Multiset.mem_cons.mp hx with rfl | hx
    · exact hdone
    · exact h.done x hx

/-- The root task of a task behind its code is the coroutine that awaits it. -/
theorem root_of_awaited (hrun : s.system.running i = some job)
    (hstage : s.stage i = .returned ∨ ∃ root, s.stage i = .counting root) {p : ℕ} (hby : s.awaitedBy job.task = some p) :
    p ∈ s.awaiting ∧ s.rootTask job.task = some p := by
  have hmem : job.task ∈ s.atWork i := by
    rw [atWork_leaving hrun hstage]
    exact Multiset.mem_singleton_self _
  have htuple : (s.stage i).tuple = [] := by
    rcases hstage with hst | ⟨_, hst⟩ <;> rw [hst] <;> rfl
  have hlink : s.Linked job.task :=
    h.linked hrun (by rwa [← atWork_of_running hrun]) (by rw [htuple]; exact List.not_mem_nil)
  obtain ⟨hp, hold⟩ := h.awaited _ p hby (h.not_finished (mem_held_of_atWork hmem))
  exact ⟨hp, hold hlink⟩

/-- The root task at which a task is counted off awaits it. Else it is the task itself, which has moved, or one that is
counted off and took the place of the root task; then its counter stands at zero. -/
theorem root_cases (hrun : s.system.running i = some job) {root : ℕ} (hstage : s.stage i = .counting root) :
    root ∈ s.awaiting ∧ s.awaitedBy job.task = some root ∨ s.awaitedBy job.task = none ∧ s.count root = 0 ∧
      (root = job.task ∨ root ∈ s.finished ∧ s.awaitedBy root = some job.task) := by
  have hleaving : s.stage i = .returned ∨ ∃ root, s.stage i = .counting root := .inr ⟨root, hstage⟩
  have hmem : job.task ∈ s.atWork i := by
    rw [atWork_leaving hrun hleaving]
    exact Multiset.mem_singleton_self _
  have hnot := h.not_finished (mem_held_of_atWork hmem)
  have hroot : s.rootTask job.task = some root := by
    have := h.stage i job hrun
    rw [hstage] at this
    exact this.2
  cases hby : s.awaitedBy job.task with
  | some p =>
    obtain ⟨hp, hold⟩ := h.root_of_awaited hrun hleaving hby
    obtain rfl := Option.some.inj (hroot.symm.trans hold)
    exact .inl ⟨hp, rfl⟩
  | none =>
    refine .inr ⟨rfl, ?_⟩
    rcases h.root _ hby hnot with hnone | ⟨hk, hself | ⟨f, hf, hrf, hbf, hkf⟩⟩
    · rw [hroot] at hnone
      cases hnone
    · obtain rfl := Option.some.inj (hroot.symm.trans hself)
      refine ⟨h.count_eq_zero hmem hk fun job' rest hst => ?_, .inl rfl⟩
      rw [hstage] at hst
      cases hst
    · obtain rfl := Option.some.inj (hroot.symm.trans hrf)
      exact ⟨h.spent _ hf hkf _ hbf hnot, .inr ⟨hf, hbf⟩⟩

theorem finishAlone (hrun : s.system.running i = some job) (hstage : s.stage i = .returned) (hroot : s.rootTask job.task = none) :
    ({ s with finished := job.task ::ₘ s.finished }.setStage i .ended).Kept := by
  have hby : ∀ p, s.awaitedBy job.task ≠ some p := by
    intro p hp
    have := (h.root_of_awaited hrun (.inl hstage) hp).2
    rw [hroot] at this
    cases this
  have hholds := atWork_leaving hrun (.inl hstage)
  generalize ht : ({ s with finished := job.task ::ₘ s.finished } : Coroutines).setStage i .ended = t
  have hw : WorkerStep s t i := by
    rw [← ht]
    exact ⟨rfl, fun _ => rfl, fun k hk => if_neg hk⟩
  have hself : t.stage i = .ended := by
    rw [← ht]
    exact if_pos rfl
  have hheld : t.held + {job.task} = s.held + 0 := by
    refine hw.held hrun ?_
    rw [hself, ← atWork_of_running hrun, hholds, ← ht]
    show s.system.waiting + 0 + {job.task} = s.system.waiting + {job.task} + 0
    rw [add_zero, add_zero]
  subst ht
  refine h.finishStep hw hrun hholds (.inl hstage) rfl (fun _ _ _ _ => rfl) ⟨rfl, fun _ => rfl⟩ (fun _ => rfl) (fun _ => rfl) rfl rfl rfl
    0 (add_zero _) hheld (by rw [hself]; trivial) (fun _ _ _ => rfl) (fun _ _ _ _ _ _ => rfl) (fun _ p hp => absurd hp (hby p))
    (fun p hp => ?_) fun p hp => absurd hp (Multiset.notMem_zero p)
  rw [if_neg (hby p)]
  exact ⟨(h.asleep p hp).2.1, rfl⟩

/-- The task is counted off at its root task, which is submitted again if it was the last. -/
theorem countStep (hrun : s.system.running i = some job) {root : ℕ} (hstage : s.stage i = .counting root) :
    (s.countOff i job root).Kept := by
  have hleaving : s.stage i = .returned ∨ ∃ root, s.stage i = .counting root := .inr ⟨root, hstage⟩
  have hcases := h.root_cases hrun hstage
  have hholds := atWork_leaving hrun hleaving
  have hmem : job.task ∈ s.atWork i := by
    rw [hholds]
    exact Multiset.mem_singleton_self _
  have hmemHeld := mem_held_of_atWork hmem
  have hlt : root < s.tasks.length := by
    rcases hcases with ⟨hp, -⟩ | ⟨-, -, rfl | ⟨hfin, -⟩⟩
    · exact h.lt_of_awaiting hp
    · exact h.lt_of_held hmemHeld
    · exact h.lt_of_finished hfin
  have hkinds := s.sameKinds_setTask root (f := fun t => { t with childrenTaskCount := t.childrenTaskCount - 1 }) fun _ => rfl
  have hroots : ∀ x, (s.setCount root (· - 1)).rootTask x = s.rootTask x := fun x => s.rootTask_setTask root x fun _ => rfl
  have hdones : ∀ x, (s.setCount root (· - 1)).bDone x = s.bDone x := fun x => s.bDone_setTask root x fun _ => rfl
  have hcounts : ∀ x, (s.setCount root (· - 1)).count x = if x = root then s.count root - 1 else s.count x :=
    fun x => s.count_setCount root x (· - 1) hlt
  -- whoever is not the root task keeps its counter
  have hheldCount : ∀ x ∈ s.held, x ≠ job.task → (s.setCount root (· - 1)).count x = s.count x := by
    intro x hx hxc
    rw [hcounts, if_neg]
    rintro rfl
    rcases hcases with ⟨hp, -⟩ | ⟨-, -, rfl | ⟨hfin, -⟩⟩
    · exact h.not_awaiting hx hp
    · exact hxc rfl
    · exact h.not_finished hx hfin
  have hspent : ∀ f ∈ s.finished, ∀ p, s.awaitedBy f = some p → p ∉ s.finished → p ≠ job.task →
      (s.setCount root (· - 1)).count f = s.count f := by
    intro f hf p hp hpf hpc
    rw [hcounts, if_neg]
    rintro rfl
    rcases hcases with ⟨hp', -⟩ | ⟨-, -, rfl | ⟨-, hbr⟩⟩
    · exact h.awaiting_not_finished hp' hf
    · exact h.not_finished hmemHeld hf
    · exact hpc (Option.some.inj (hp.symm.trans hbr))
  have hspentSelf : s.IsKind job.task false → ∀ p, s.awaitedBy job.task = some p → (s.setCount root (· - 1)).count job.task = 0 := by
    intro hk p hp
    rw [hcounts, if_neg]
    · exact h.count_eq_zero hmem hk fun job' rest hst => by rw [hstage] at hst; cases hst
    · rintro rfl
      rcases hcases with ⟨hp', -⟩ | ⟨hby, -⟩
      · exact h.not_awaiting hmemHeld hp'
      · rw [hby] at hp
        cases hp
  have hw : ∀ t : Coroutines, t.system = s.system → (∀ k, k ≠ i → t.stage k = s.stage k) → WorkerStep s t i := by
    intro t hsystem ht
    exact ⟨by rw [hsystem], fun k => by rw [hsystem], ht⟩
  unfold countOff
  simp only
  split_ifs with hlast
  · -- only a coroutine that sleeps has a counter at one
    obtain ⟨hone, -⟩ := Bool.and_eq_true_iff.mp hlast
    have hone : s.count root = 1 := of_decide_eq_true hone
    obtain ⟨hroot, hby⟩ : root ∈ s.awaiting ∧ s.awaitedBy job.task = some root := by
      rcases hcases with hawaits | ⟨-, hzero, -⟩
      · exact hawaits
      · rw [hone] at hzero
        cases hzero
    obtain ⟨hkind, -, hsum⟩ := h.asleep root hroot
    have hmemUnfinished : job.task ∈ s.unfinished root :=
      mem_unfinished.mpr ⟨h.lt_of_held hmemHeld, hby, h.not_finished hmemHeld⟩
    have htoNat : (s.count root).toNat = 1 := by
      rw [hone]
      rfl
    have hpos := card_pos.mpr ⟨_, hmemUnfinished⟩
    have hsingle : s.unfinished root = {job.task} :=
      (card_eq_one.mp (by omega : (s.unfinished root).card = 1)).elim fun y hy => by
        rw [hy] at hmemUnfinished ⊢
        rw [mem_singleton.mp hmemUnfinished]
    have honce : ∀ p ∈ s.awaiting.erase root, p ≠ root := by
      rintro p hp rfl
      have h1 := Multiset.count_pos.mpr hp
      rw [Multiset.count_erase_self] at h1
      have := h.count_le p
      omega
    generalize ht : Coroutines.setStage _ i _ = t
    have hself : t.stage i = .resuming root := by
      rw [← ht]
      exact if_pos rfl
    have hwt : WorkerStep s t i := hw t (by rw [← ht]; rfl) fun k hk => by rw [← ht]; exact if_neg hk
    have hheld : t.held + {job.task} = s.held + {root} := by
      refine hwt.held hrun ?_
      rw [hself, ← atWork_of_running hrun, hholds, ← ht]
      show s.system.waiting + (0 + {root} + 0) + {job.task} = s.system.waiting + {job.task} + {root}
      abel
    subst ht
    refine h.finishStep hwt hrun hholds hleaving rfl (fun k job' hk hb => if_neg ?_) ⟨hkinds.length, hkinds.kind⟩ hroots hdones rfl rfl
      rfl {root} ?_ hheld ?_ hheldCount hspent hspentSelf (fun p hp => ?_) fun p hp => ?_
    · intro hki
      obtain ⟨hki, hb'⟩ := Bool.and_eq_true_iff.mp hki
      obtain rfl : k = i := of_decide_eq_true hki
      obtain rfl := Option.some.inj (hrun.symm.trans hk)
      rw [hb] at hb'
      cases hb'
    · exact (add_comm _ _).trans (Multiset.cons_erase hroot)
    · rw [hself]
      exact ⟨Multiset.mem_cons_self _ _, hby, hkinds.isKind hkind⟩
    · have hne := honce p hp
      have hc : ({ s.setCount root (· - 1) with finished := job.task ::ₘ s.finished } : Coroutines).count p = s.count p :=
        (hcounts p).trans (if_neg hne)
      rw [if_neg fun heq => hne (Option.some.inj (heq.symm.trans hby))]
      exact ⟨(congrArg BitVec.toNat hc).trans_gt (h.asleep p (Multiset.mem_of_mem_erase hp)).2.1, congrArg BitVec.toNat hc⟩
    · obtain rfl := Multiset.mem_singleton.mp hp
      refine ⟨(hcounts p).trans ?_, by omega, hsingle⟩
      rw [if_pos rfl, hone]
      rfl
  · generalize ht : Coroutines.setStage _ i _ = t
    have hself : t.stage i = .ended := by
      rw [← ht]
      exact if_pos rfl
    have hwt : WorkerStep s t i := hw t (by rw [← ht]; rfl) fun k hk => by rw [← ht]; exact if_neg hk
    have hheld : t.held + {job.task} = s.held + 0 := by
      refine hwt.held hrun ?_
      rw [hself, ← atWork_of_running hrun, hholds, ← ht]
      show s.system.waiting + 0 + {job.task} = s.system.waiting + {job.task} + 0
      rw [add_zero, add_zero]
    subst ht
    refine h.finishStep hwt hrun hholds hleaving rfl (fun _ _ _ _ => rfl) ⟨hkinds.length, hkinds.kind⟩ hroots hdones rfl rfl rfl
      0 (add_zero _) hheld (by rw [hself]; trivial) hheldCount hspent hspentSelf (fun p hp => ?_)
      fun p hp => absurd hp (Multiset.notMem_zero p)
    obtain ⟨hkind, hpos, -⟩ := h.asleep p hp
    have hc := congrArg BitVec.toNat (hcounts p)
    by_cases hpr : p = root
    · subst hpr
      rcases hcases with ⟨-, hby⟩ | ⟨-, -, rfl | ⟨hfin, -⟩⟩
      · -- it is not the last
        have hne : s.count p ≠ 1 := by
          intro hone
          rw [hone, hkind.eq, Bool.and_false] at hlast
          exact hlast rfl
        have hne' : (s.count p).toNat ≠ 1 := fun hone => hne (BitVec.eq_of_toNat_eq hone)
        rw [if_pos rfl, BitVec.toNat_sub_of_le (by rw [BitVec.le_def]; exact hpos)] at hc
        have hone : (1 : BitVec 32).toNat = 1 := rfl
        rw [hone] at hc
        rw [if_pos hby]
        exact ⟨hc.trans_gt (by omega), (congrArg (· + 1) hc).trans (by omega)⟩
      · exact absurd hp (h.not_awaiting hmemHeld)
      · exact absurd hfin (h.awaiting_not_finished hp)
    · rw [if_neg hpr] at hc
      rw [if_neg fun hby => ?_]
      · exact ⟨hc.trans_gt hpos, hc⟩
      · rcases hcases with ⟨-, hby'⟩ | ⟨hnone, -⟩
        · exact hpr (Option.some.inj (hby.symm.trans hby'))
        · rw [hnone] at hby
          cases hby

/-! ## New tasks -/

theorem newTasks {t : Coroutines} {tasks : List Task} (htasks : t.tasks = s.tasks ++ tasks)
    (hfresh : ∀ task ∈ tasks, task.rootTask = none ∧ task.bDone = false ∧
      (task.isFunctionTask = false → task.childrenTaskCount = 0))
    (hreach : (jobSystem ℕ).Reachable t.system) (hjobs : t.system.AllJobs fun job => t.IsKind job.task job.bFunction)
    (hrunning : ∀ k, t.system.running k = s.system.running k) (hcurrent : t.currentJob = s.currentJob)
    (hawaiting : t.awaiting = s.awaiting) (hfinished : t.finished = s.finished) (hby : t.awaitedBy = s.awaitedBy)
    (hsurplus : t.surplus = s.surplus)
    (hheld : t.held = s.held + (Multiset.range tasks.length).map (s.tasks.length + ·))
    (hstage : ∀ k job, s.system.running k = some job → t.stage k = s.stage k ∨ t.StageOk job (t.stage k))
    (hlinked : ∀ x, t.Linked x → s.Linked x) (hchoosing : ∀ x, s.Choosing x → t.Choosing x)
    (hleaving : ∀ x, s.Leaving x → t.Leaving x) : t.Kept := by
  have hold : ∀ x, x < s.tasks.length → t.tasks[x]? = s.tasks[x]? := by
    intro x hx
    rw [htasks, List.getElem?_append_left hx]
  have hnew : ∀ x, ¬ x < s.tasks.length → t.tasks[x]? = none ∨ ∃ task ∈ tasks, t.tasks[x]? = some task := by
    intro x hx
    rw [htasks, List.getElem?_append_right (Nat.le_of_not_lt hx)]
    cases hget : tasks[x - s.tasks.length]? with
    | none => exact .inl rfl
    | some task => exact .inr ⟨task, List.mem_of_getElem? hget, rfl⟩
  have hkind : ∀ x b, s.IsKind x b → t.IsKind x b := fun x b hx => by unfold IsKind; rwa [hold x hx.lt]
  have hroot := rootTask_append htasks fun task hmem => (hfresh task hmem).1
  have hbDone : ∀ x, t.bDone x = s.bDone x := by
    intro x
    unfold bDone
    by_cases hx : x < s.tasks.length
    · rw [hold x hx]
    · rw [List.getElem?_eq_none (l := s.tasks) (Nat.le_of_not_lt hx)]
      rcases hnew x hx with hnone | ⟨task, hmem, hget⟩
      · rw [hnone]
      · rw [hget]
        exact (hfresh task hmem).2.1
  have hcount : ∀ x, x < s.tasks.length → t.count x = s.count x := by
    intro x hx
    unfold count
    rw [hold x hx]
  have hkindOld : ∀ x b, x < s.tasks.length → t.IsKind x b → s.IsKind x b := by
    intro x b hx
    unfold IsKind
    rw [hold x hx]
    exact id
  have hlength : t.tasks.length = s.tasks.length + tasks.length := by rw [htasks, List.length_append]
  constructor
  case reach => exact hreach
  case jobs => exact hjobs
  case current =>
    intro k job' hk
    rw [hcurrent]
    exact h.current k job' ((hrunning k).symm.trans hk)
  case once =>
    rw [hheld, hawaiting, hfinished, hlength, Multiset.range_add, ← h.once]
    abel
  case stage =>
    intro k job' hk
    rw [hrunning] at hk
    rcases hstage k job' hk with hsame | hok
    · rw [hsame]
      refine (h.stage k job' hk).frame hkind (fun x hx => (hbDone x).trans hx) ?_ ?_ fun x _ => ⟨hroot x, by rw [hby]⟩
      · rw [hfinished]
        exact fun _ hx => hx
      · rw [hby]
        exact fun _ _ hx => hx
    · exact hok
  case fresh =>
    intro x hx
    rw [hby, hsurplus]
    exact h.fresh x (by omega)
  case awaited =>
    intro x p
    rw [hby, hfinished, hawaiting, hroot]
    exact fun hx hfin => ⟨(h.awaited x p hx hfin).1, fun hlink => (h.awaited x p hx hfin).2 (hlinked x hlink)⟩
  case root =>
    intro x
    rw [hby, hfinished, hroot]
    refine fun hx hfin => (h.root x hx hfin).imp_right fun ⟨hk, hcases⟩ => ⟨hkind _ _ hk, hcases.imp_right ?_⟩
    exact fun ⟨f, hf, hrf, hbf, hkf⟩ => ⟨f, hf, hrf, hbf, hkind _ _ hkf⟩
  case asleep =>
    intro p hp
    rw [hawaiting] at hp
    obtain ⟨hk, hpos, hsum⟩ := h.asleep p hp
    have hset : t.unfinished p = s.unfinished p := by
      ext x
      rw [mem_unfinished, mem_unfinished, hby, hfinished]
      refine and_congr_left fun ⟨hx, _⟩ => iff_of_true ?_ ?_
      · by_contra hge
        rw [(h.fresh x (by omega)).1] at hx
        cases hx
      · by_contra hge
        rw [(h.fresh x (by omega)).1] at hx
        cases hx
    rw [hset, hcount p hk.lt, hsurplus]
    exact ⟨hkind _ _ hk, hpos, hsum⟩
  case awake =>
    intro x hx hk
    rw [hsurplus]
    by_cases hlt : x < s.tasks.length
    · rw [hheld] at hx
      have hx : x ∈ s.held := by
        refine (Multiset.mem_add.mp hx).resolve_right fun hx => ?_
        obtain ⟨y, -, rfl⟩ := Multiset.mem_map.mp hx
        omega
      obtain ⟨hs, hc⟩ := h.awake x hx (hkindOld _ _ hlt hk)
      rw [hcount x hlt]
      exact ⟨hs, hc.imp_right (hchoosing x)⟩
    · refine ⟨(h.fresh x (Nat.le_of_not_lt hlt)).2, .inl ?_⟩
      unfold IsKind at hk
      unfold count
      rcases hnew x hlt with hnone | ⟨task, hmem, hget⟩
      · rw [hnone]
        rfl
      · rw [hget] at hk ⊢
        exact (hfresh task hmem).2.2 (Option.some.inj hk)
  case spent =>
    intro f hf hk p
    rw [hfinished] at hf ⊢
    rw [hby, hcount f (h.lt_of_finished hf)]
    exact h.spent f hf (hkindOld _ _ (h.lt_of_finished hf) hk) p
  case leaving =>
    intro x hx
    rw [hbDone] at hx
    rw [hfinished]
    exact (h.leaving x hx).imp_right (hleaving x)
  case done =>
    intro x
    rw [hfinished, hbDone]
    exact h.done x

theorem submitStep (isFunctionTask : Bool) (threadIndex : ℤ) : (s.next (.submit isFunctionTask threadIndex)).Kept := by
  generalize ht : s.next (.submit isFunctionTask threadIndex) = t
  have hsystem : t.system = s.system.next (.submit ⟨s.tasks.length, isFunctionTask, threadIndex⟩) := by rw [← ht]; rfl
  have htasks : t.tasks = s.tasks ++ [⟨none, if isFunctionTask then 1 else 0, isFunctionTask, threadIndex, false⟩] := by
    rw [← ht]
    rfl
  have hrunning : ∀ k, t.system.running k = s.system.running k := by
    intro k
    rw [hsystem]
    exact JobSystem.running_next (by simp)
  have hstage : t.stage = s.stage := by rw [← ht]; rfl
  refine h.newTasks htasks (fun task hmem => ?_) (hsystem ▸ h.reach_next _) ?_ hrunning (by rw [← ht]; rfl) (by rw [← ht]; rfl)
    (by rw [← ht]; rfl) (by rw [← ht]; rfl) (by rw [← ht]; rfl) ?_ (fun k _ _ => .inl (congrFun hstage k))
    (fun x => linked_of_stage hrunning fun k => by rw [hstage]) (fun x hx => ?_) fun x hx => ?_
  · rw [List.mem_singleton.mp hmem]
    exact ⟨rfl, rfl, fun hk => by simp only at hk ⊢; rw [hk]; rfl⟩
  · rw [hsystem]
    refine JobSystem.AllJobs.next h.queuesOk (h.jobs.mono fun job' hk => ?_) fun job' hjob => ?_
    · unfold IsKind
      rwa [htasks, List.getElem?_append_left hk.lt]
    · cases hjob
      unfold IsKind
      rw [htasks, List.getElem?_concat_length]
      rfl
  · have hwait : t.system.waiting = s.system.waiting + {s.tasks.length} := by
      rw [hsystem]
      exact s.system.waiting_internalAddJob _
    have := held_of_waiting (s := s) (t := t) (x := 0) (y := {s.tasks.length}) (by rw [hsystem, JobSystem.threadCount_next])
      (fun k => atWork_congr (hrunning k) (congrFun hstage k)) (by rw [hwait, add_zero])
    rw [add_zero] at this
    rw [this]
    rfl
  · obtain ⟨k, job', job'', rest, hk, hst⟩ := hx
    exact ⟨k, job', job'', rest, (hrunning k).trans hk, by rwa [hstage]⟩
  · obtain ⟨k, job', hk, hst⟩ := hx
    exact ⟨k, job', (hrunning k).trans hk, by rwa [hstage]⟩

theorem awaitStep (hrun : s.system.running i = some job) (hstage : s.stage i = .doTask) (hb : job.bFunction = false)
    {tuple : List (List AwaitedJob)} (hok : sumOfJobCount tuple ≠ 0 → firstSubmitted tuple = true ∧ sumOfJobCount tuple < 2 ^ 31) :
    (s.await i tuple).Kept := by
  unfold Coroutines.await
  split_ifs with hzero
  · exact h
  obtain ⟨hfirst, hsmall⟩ := hok hzero
  obtain ⟨first, rest, helems, hlen, hrest⟩ := awaitSuspend_eq hfirst hsmall
  simp only [helems]
  generalize ht : Coroutines.setStage _ i _ = t
  have htasks : t.tasks = s.tasks ++ ((first, (sumOfJobCount tuple : ℤ)) :: rest).map fun elem =>
      ⟨none, 0, elem.1.isFunctionTask, elem.1.threadIndex, false⟩ := by
    rw [← ht]
    rfl
  have hself : t.stage i = .suspending ((s.tasks.length, (sumOfJobCount tuple : ℤ)) ::
      rest.mapIdx fun k elem => (s.tasks.length + (k + 1), elem.2)) := by
    rw [← ht]
    exact (if_pos rfl).trans (congrArg _ List.mapIdx_cons)
  have hsystem : t.system = s.system := by rw [← ht]; rfl
  have hby : t.awaitedBy = s.awaitedBy := by rw [← ht]; rfl
  have hw : WorkerStep s t i := by
    refine ⟨by rw [hsystem], fun k => by rw [hsystem], fun k hk => ?_⟩
    rw [← ht]
    exact if_neg hk
  have hids : (s.tasks.length, (sumOfJobCount tuple : ℤ)).1 :: (rest.mapIdx fun k elem => (s.tasks.length + (k + 1), elem.2)).map Prod.fst =
      (List.range (rest.length + 1)).map (s.tasks.length + ·) := by
    refine List.ext_getElem (by simp) fun k hk hk' => ?_
    cases k with
    | zero => simp
    | succ k => simp
  have hroot := rootTask_append htasks fun task hmem => by
    obtain ⟨elem, -, rfl⟩ := List.mem_map.mp hmem
    rfl
  have hne : (sumOfJobCount tuple : ℤ) ≠ 0 := by omega
  refine h.newTasks htasks (fun task hmem => ?_) (hsystem ▸ h.reach) ?_ hw.running (by rw [← ht]; rfl) (by rw [← ht]; rfl)
    (by rw [← ht]; rfl) hby (by rw [← ht]; rfl) ?_ (fun k job' hk => ?_) (fun x => hw.linked fun hx => ?_)
    (fun x hx => hw.choosing hx fun job' rest hst => ?_) fun x hx => hw.leaving hrun hx fun _ hst => ?_
  · obtain ⟨elem, -, rfl⟩ := List.mem_map.mp hmem
    exact ⟨rfl, rfl, fun _ => rfl⟩
  · rw [hsystem]
    refine h.jobs.mono fun job' hk => ?_
    unfold IsKind
    rwa [htasks, List.getElem?_append_left hk.lt]
  · have hafter : (t.stage i).holds job.task = {job.task} + ((List.range (rest.length + 1)).map (s.tasks.length + ·) : List ℕ) := by
      rw [hself, ← hids]
      show (if (sumOfJobCount tuple : ℤ) = 0 then (0 : Multiset ℕ) else {job.task}) + 0 + _ = _
      rw [if_neg hne, add_zero]
      rfl
    refine (add_zero _).symm.trans (hw.held hrun ?_)
    rw [hafter, ← atWork_of_running hrun, atWork_doTask hrun hstage, hsystem, add_zero, add_assoc, List.length_map, List.length_cons]
    rfl
  · by_cases hki : k = i
    · subst hki
      obtain rfl := Option.some.inj (hrun.symm.trans hk)
      refine .inr ?_
      rw [hself]
      refine .inr ⟨hb, ?_, by omega, fun elem hmem => ?_, fun elem hmem => ?_⟩
      · rw [List.length_mapIdx]
        omega
      · obtain ⟨k, hk, rfl⟩ := List.mem_mapIdx.mp hmem
        exact hrest _ (List.getElem_mem hk)
      · have hge : s.tasks.length ≤ elem.1 := by
          rcases List.mem_cons.mp hmem with rfl | hmem
          · exact le_refl _
          · obtain ⟨k, hk, rfl⟩ := List.mem_mapIdx.mp hmem
            exact Nat.le_add_right _ _
        rw [hby, hroot]
        refine ⟨(h.fresh _ hge).1, ?_⟩
        unfold rootTask
        rw [List.getElem?_eq_none hge]
        rfl
    · exact .inl (hw.stage k hki)
  · rw [hstage] at hx
    cases hx
  · rw [hstage] at hst
    cases hst
  · rw [hstage] at hst
    rcases hst with hst | ⟨_, hst⟩ <;> cases hst

/-! ## Every step -/

theorem suspendStep (hrun : s.system.running i = some job) {jobs : List (ℕ × ℤ)} (hstage : s.stage i = .suspending jobs) :
    (s.suspendStep i job.task jobs).Kept := by
  have hok : s.Asleep job.task jobs ∨ job.bFunction = false ∧ s.Entering jobs := by
    have := h.stage i job hrun
    rwa [hstage] at this
  match jobs with
  | [] =>
    refine h.setStage hrun (by rw [hstage]; rfl) (by rw [hstage]; rfl) trivial (fun job' rest hst => ?_) fun hst => ?_
    · rw [hstage] at hst
      cases hst
    · rw [hstage] at hst
      rcases hst with hst | ⟨_, hst⟩ <;> cases hst
  | (task, jobCount) :: jobs =>
    rcases hok with hasleep | ⟨hb, hentering⟩
    · obtain rfl : jobCount = 0 := (hasleep _ List.mem_cons_self).1
      have hsame : s.fallAsleep job.task ((task, 0) :: jobs) 0 = s := if_pos rfl
      have hstep := h.addStep hrun hstage hasleep
      simp only [Coroutines.suspendStep, hsame]
      exact hstep
    · exact h.sleepStep hrun hb hstage hentering

theorem runStep (hrun : s.system.running i = some job) : (s.runStep i job).Kept := by
  unfold Coroutines.runStep
  have hok := h.stage i job hrun
  cases hstage : s.stage i with
  | doTask => exact h
  | suspending jobs => exact h.suspendStep hrun hstage
  | choosing job' rest =>
    rw [hstage] at hok
    obtain ⟨-, jobs, rfl, -⟩ := hok
    exact h.chooseStep hrun hstage
  | submitting task rest =>
    rw [hstage] at hok
    obtain ⟨jobs, rfl, hasleep⟩ := hok
    simp only
    split_ifs
    · exact h
    · refine h.setStage hrun ?_ (by rw [hstage]; rfl) (.inl hasleep) (fun job' rest hst => ?_) fun hst => ?_
      · rw [hstage]
        match jobs with
        | [] => rfl
        | (task', jobCount) :: jobs =>
          obtain rfl : jobCount = 0 := (hasleep _ List.mem_cons_self).1
          rfl
      · rw [hstage] at hst
        cases hst
      · rw [hstage] at hst
        rcases hst with hst | ⟨_, hst⟩ <;> cases hst
  | returned =>
    rw [hstage] at hok
    cases hroot : s.rootTask job.task with
    | none => exact h.finishAlone hrun hstage hroot
    | some root =>
      refine h.setStage hrun (by rw [hstage]; rfl) (by rw [hstage]; rfl) ⟨hok, hroot⟩ (fun job' rest hst => ?_)
        fun _ => ⟨root, rfl⟩
      rw [hstage] at hst
      cases hst
  | counting root => exact h.countStep hrun hstage
  | resuming root => exact h.resumeStep hrun hstage
  | ended => exact h.endStep hrun hstage

end Kept

end Coroutines

end RudpEngine

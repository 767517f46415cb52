import RudpEngine.JobSystem
import Mathlib.Data.List.Perm.Basic

/-!
# Pinned jobs

The state of a connection has no lock. What protects it is that the jobs pinned
to one worker are run by that worker alone, one after the other and in the order
in which they were pushed, although a queue is two stacks that are turned over
while more jobs come in.
-/

namespace RudpEngine

namespace SListQueue

variable {α : Type}

def content (q : SListQueue α) (stage : PopStage α) : List α :=
  match stage with
  | .moving listHead => listHead.reverse ++ (q.popStack ++ q.pushStack.reverse)
  | _ => q.popStack ++ q.pushStack.reverse

def StageOk (q : SListQueue α) (stage : PopStage α) : Prop :=
  match stage with
  | .flush => q.popStack = []
  | _ => True

theorem content_pushBack (q : SListQueue α) (data : α) (stage : PopStage α) :
    (q.pushBack data).content stage = q.content stage ++ [data] := by
  cases stage <;> simp [content, pushBack]

theorem StageOk.pushBack {q : SListQueue α} {stage : PopStage α} (h : q.StageOk stage) (data : α) :
    (q.pushBack data).StageOk stage := by
  cases stage <;> exact h

/-- A step of `TryPopFront` takes the first entry, or none. -/
theorem tryPopFront_content {q : SListQueue α} {stage : PopStage α} (h : q.StageOk stage) :
    match q.tryPopFront stage with
    | (q', .inl stage') => q'.StageOk stage' ∧ q.content stage = q'.content stage'
    | (q', .inr entry) => q.content stage = entry.toList ++ q'.content .first := by
  obtain ⟨pushStack, popStack⟩ := q
  cases stage with
  | first => cases popStack <;> simp [tryPopFront, popEntry, content, StageOk]
  | second => cases popStack <;> simp [tryPopFront, popEntry, content, StageOk]
  | flush =>
    have h : popStack = [] := h
    subst h
    simp [tryPopFront, content, StageOk]
  | moving listHead => cases listHead <;> simp [tryPopFront, content, StageOk]
  | third => cases popStack <;> simp [tryPopFront, popEntry, content]

end SListQueue

/-! ## One worker -/

/-- A place at which the worker has taken nothing from a queue yet. -/
def WorkerPc.fresh {α : Type} : WorkerPc α → Bool
  | .polling _ .first => true
  | .polling _ _ => false
  | .popped _ => false
  | _ => true

namespace Worker

variable {α : Type} {w : Worker α}

def stage (w : Worker α) (kind : QueueKind) : PopStage (Job α) :=
  match w.pc with
  | .polling k stage => if k = kind then stage else .first
  | _ => .first

def inQueue (w : Worker α) (kind : QueueKind) : List (Job α) := (w.queues kind).content (w.stage kind)

def hand (w : Worker α) (kind : QueueKind) : List (Job α) :=
  match w.pc with
  | .popped job => if job.queue = kind then [job] else []
  | _ => []

def pending (w : Worker α) (kind : QueueKind) : List (Job α) := w.hand kind ++ w.inQueue kind

structure QueuesOk (w : Worker α) : Prop where
  stage : ∀ kind, (w.queues kind).StageOk (w.stage kind)
  queue : ∀ kind, ∀ job ∈ w.inQueue kind, job.queue = kind

theorem stage_of_other {k kind : QueueKind} {stage : PopStage (Job α)} (hpc : w.pc = .polling k stage) (h : k ≠ kind) :
    w.stage kind = .first := by
  unfold Worker.stage
  rw [hpc]
  exact if_neg h

theorem stage_of_polling {kind : QueueKind} {stage : PopStage (Job α)} (hpc : w.pc = .polling kind stage) :
    w.stage kind = stage := by
  unfold Worker.stage
  rw [hpc]
  exact if_pos rfl

theorem stage_of_fresh (h : w.pc.fresh = true) (kind : QueueKind) : w.stage kind = .first := by
  unfold Worker.stage
  cases hpc : w.pc with
  | polling k stage =>
    rw [hpc] at h
    cases stage with
    | first => exact ite_self _
    | _ => cases h
  | _ => rfl

theorem hand_of_fresh (h : w.pc.fresh = true) (kind : QueueKind) : w.hand kind = [] := by
  unfold hand
  cases hpc : w.pc with
  | popped job =>
    rw [hpc] at h
    cases h
  | _ => rfl

theorem pending_pushBack (w : Worker α) (job : Job α) (kind : QueueKind) :
    (w.pushBack job).pending kind = w.pending kind ++ if job.queue = kind then [job] else [] := by
  have hhand : (w.pushBack job).hand kind = w.hand kind := rfl
  have hstage : (w.pushBack job).stage kind = w.stage kind := rfl
  unfold pending inQueue
  rw [hhand, hstage, List.append_assoc]
  congr 1
  unfold pushBack setQueue
  by_cases h : job.queue = kind
  · subst h
    simp only [if_true]
    exact SListQueue.content_pushBack _ _ _
  · rw [if_neg h, List.append_nil]
    simp only [if_neg (Ne.symm h)]

theorem QueuesOk.pushBack (h : w.QueuesOk) (job : Job α) : (w.pushBack job).QueuesOk where
  stage kind := by
    show ((w.pushBack job).queues kind).StageOk (w.stage kind)
    unfold Worker.pushBack setQueue
    by_cases hk : kind = job.queue
    · subst hk
      simp only [if_true]
      exact (h.stage job.queue).pushBack job
    · simp only [if_neg hk]
      exact h.stage kind
  queue kind j hj := by
    have hin : (w.pushBack job).inQueue kind = w.inQueue kind ++ if job.queue = kind then [job] else [] := by
      have := w.pending_pushBack job kind
      unfold pending at this
      rw [show (w.pushBack job).hand kind = w.hand kind from rfl, List.append_assoc] at this
      exact List.append_cancel_left this
    rw [hin, List.mem_append] at hj
    rcases hj with hj | hj
    · exact h.queue kind j hj
    · by_cases hk : job.queue = kind
      · rw [if_pos hk] at hj
        rw [List.mem_singleton.mp hj]
        exact hk
      · rw [if_neg hk] at hj
        cases hj

theorem pending_of_same_queues (h : w.QueuesOk) {w' : Worker α} (hqueues : w'.queues = w.queues)
    (hw : ∀ kind, w.stage kind = .first) (hfresh : w'.pc.fresh = true) :
    w'.QueuesOk ∧ ∀ kind, w'.pending kind = w.inQueue kind := by
  have hin : ∀ kind, w'.inQueue kind = w.inQueue kind := by
    intro kind
    rw [inQueue, inQueue, stage_of_fresh hfresh, hw, hqueues]
  refine ⟨⟨fun kind => ?_, fun kind job hj => h.queue kind job (by rw [← hin]; exact hj)⟩, fun kind => ?_⟩
  · rw [stage_of_fresh hfresh]
    trivial
  · rw [pending, hand_of_fresh hfresh, hin, List.nil_append]

theorem pending_of_setQueue (h : w.QueuesOk) {w' : Worker α} {kind : QueueKind} {q : SListQueue (Job α)}
    (hqueues : w'.queues = (w.setQueue kind q).queues) (hstage : ∀ k, k ≠ kind → w.stage k = .first ∧ w'.stage k = .first)
    (hhand : ∀ k, k ≠ kind → w'.hand k = []) (hok : q.StageOk (w'.stage kind))
    (hcontent : w'.hand kind ++ q.content (w'.stage kind) = w.inQueue kind) :
    w'.QueuesOk ∧ ∀ k, w'.pending k = w.inQueue k := by
  have hthis : w'.queues kind = q := by rw [hqueues]; exact if_pos rfl
  have hpending : ∀ k, w'.pending k = w.inQueue k := by
    intro k
    by_cases hk : k = kind
    · subst hk
      rw [← hcontent, pending, inQueue, hthis]
    · rw [pending, hhand k hk, List.nil_append, inQueue, inQueue, (hstage k hk).1, (hstage k hk).2, hqueues]
      unfold setQueue
      simp only [if_neg hk]
  refine ⟨⟨fun k => ?_, fun k job hj => ?_⟩, hpending⟩
  · by_cases hk : k = kind
    · subst hk
      rw [hthis]
      exact hok
    · rw [(hstage k hk).2]
      trivial
  · exact h.queue k job (by rw [← hpending, pending]; exact List.mem_append_right _ hj)

/-- A step takes nothing away but the job it begins. -/
theorem step_pending (h : w.QueuesOk) (bSystemWork bUseCVWait : Bool) :
    (w.step bSystemWork bUseCVWait).QueuesOk ∧
      ∀ kind, (w.step bSystemWork bUseCVWait).pending kind = w.inQueue kind := by
  have hfirst : (∀ k stage, w.pc ≠ .polling k stage) → ∀ kind, w.stage kind = .first := by
    intro hpc kind
    unfold Worker.stage
    cases hw : w.pc with
    | polling k stage => exact absurd hw (hpc k stage)
    | _ => rfl
  cases hpc : w.pc with
  | polling kind stage =>
    have hcontent := SListQueue.tryPopFront_content (h.stage kind)
    rw [stage_of_polling hpc] at hcontent
    have hin : w.inQueue kind = (w.queues kind).content stage := by rw [inQueue, stage_of_polling hpc]
    have hother : ∀ k, k ≠ kind → w.stage k = .first := fun k hk => stage_of_other hpc (Ne.symm hk)
    unfold step
    simp only [hpc]
    generalize (w.queues kind).tryPopFront stage = r at hcontent
    obtain ⟨q, stage' | entry⟩ := r
    · obtain ⟨hok, hcontent⟩ := hcontent
      refine pending_of_setQueue h rfl (fun k hk => ⟨hother k hk, stage_of_other rfl (Ne.symm hk)⟩) (fun _ _ => rfl) ?_ ?_
      · rw [stage_of_polling rfl]
        exact hok
      · rw [stage_of_polling rfl, hin, hcontent]
        rfl
    · cases entry with
      | some job =>
        have hjob : job.queue = kind := h.queue kind job (by rw [hin, hcontent]; exact List.mem_cons_self ..)
        refine pending_of_setQueue h rfl (fun k hk => ⟨hother k hk, rfl⟩) (fun k hk => ?_) trivial ?_
        · exact if_neg fun hq => hk (hq.symm.trans hjob)
        · rw [hin, hcontent]
          congr 1
          exact if_pos hjob
      | none =>
        -- the next queue, or the end of the round: nothing is polled or popped
        have hnext : ∀ pc : WorkerPc α, pc.fresh = true →
            ({ w.setQueue kind q with pc := pc } : Worker α).QueuesOk ∧
              ∀ k, ({ w.setQueue kind q with pc := pc } : Worker α).pending k = w.inQueue k := by
          intro pc hfresh
          refine pending_of_setQueue h rfl (fun k hk => ⟨hother k hk, stage_of_fresh hfresh k⟩)
            (fun k _ => hand_of_fresh hfresh k) ?_ ?_
          · rw [stage_of_fresh hfresh]
            trivial
          · rw [hand_of_fresh hfresh, stage_of_fresh hfresh, hin, hcontent]
            rfl
        cases kind.next with
        | some next => exact hnext _ rfl
        | none => cases bUseCVWait <;> exact hnext _ rfl
  | loop =>
    have hw := hfirst fun _ _ hp => by rw [hpc] at hp; cases hp
    unfold step
    simp only [hpc]
    exact pending_of_same_queues h rfl hw (by cases bSystemWork <;> rfl)
  | locking =>
    have hw := hfirst fun _ _ hp => by rw [hpc] at hp; cases hp
    unfold step
    simp only [hpc]
    split
    · exact pending_of_same_queues h rfl hw (by rw [hpc]; rfl)
    · exact pending_of_same_queues h rfl hw rfl
  | predicate =>
    have hw := hfirst fun _ _ hp => by rw [hpc] at hp; cases hp
    unfold step
    simp only [hpc]
    split <;> exact pending_of_same_queues h rfl hw rfl
  | waiting | stopped =>
    have hw := hfirst fun _ _ hp => by rw [hpc] at hp; cases hp
    unfold step
    simp only [hpc]
    exact pending_of_same_queues h rfl hw (by rw [hpc]; rfl)
  | popped | running | blocking =>
    have hw := hfirst fun _ _ hp => by rw [hpc] at hp; cases hp
    unfold step
    simp only [hpc]
    exact pending_of_same_queues h rfl hw rfl

theorem notify_pending (h : w.QueuesOk) : w.notify.QueuesOk ∧ ∀ kind, w.notify.pending kind = w.pending kind := by
  unfold notify
  cases hpc : w.pc with
  | waiting =>
    have hw : ∀ kind, w.stage kind = .first := fun kind => by unfold Worker.stage; rw [hpc]
    obtain ⟨hok, hpending⟩ := pending_of_same_queues h (show ({ w with pc := .locking } : Worker α).queues = w.queues from rfl) hw rfl
    refine ⟨hok, fun kind => ?_⟩
    rw [hpending, pending, hand_of_fresh (by rw [hpc]; rfl), List.nil_append]
  | _ => exact ⟨h, fun _ => rfl⟩

end Worker

namespace JobSystem

variable {α : Type}

theorem workers_setWorker_self (s : JobSystem α) (i : ℕ) (w : Worker α) : (s.setWorker i w).workers i = w := if_pos rfl

theorem workers_setWorker_other (s : JobSystem α) {i j : ℕ} (w : Worker α) (hj : j ≠ i) :
    (s.setWorker i w).workers j = s.workers j := if_neg hj

theorem takeThreadIndex_same (s : JobSystem α) :
    s.takeThreadIndex.2.workers = s.workers ∧ s.takeThreadIndex.2.submissions = s.submissions := by
  unfold takeThreadIndex
  split <;> exact ⟨rfl, rfl⟩

end JobSystem

/-! ## The history of a run -/

inductive JobEvent (α : Type)
  | began (worker : ℕ) (job : Job α)
  | ended (worker : ℕ) (job : Job α)

namespace JobEvent

variable {α : Type}

def worker : JobEvent α → ℕ
  | began i _ => i
  | ended i _ => i

def begins (i : ℕ) (kind : QueueKind) : JobEvent α → Option (Job α)
  | began j job => if j = i ∧ job.queue = kind then some job else none
  | ended _ _ => none

end JobEvent

/-- A job system with the pushes in the order in which they took effect, each with the worker of its queue, with what
the workers did, and with every job submitted. -/
structure JobHistory (α : Type) where
  system : JobSystem α
  pushes : List (ℕ × Job α)
  events : List (JobEvent α)
  submitted : List (Job α)

namespace JobHistory

variable {α : Type}

def pushesOf (s : JobSystem α) : JobAction α → List (ℕ × Job α)
  | .submitter i =>
    match s.submissions[i]? with
    | some ⟨job, index, .chosen⟩ => if index < s.threadCount then [(index, job)] else []
    | _ => []
  | _ => []

def eventsAt (i : ℕ) (w : Worker α) : List (JobEvent α) :=
  match w.pc with
  | .popped job => [.began i job]
  | .running job => [.ended i job]
  | _ => []

def eventsOf (s : JobSystem α) : JobAction α → List (JobEvent α)
  | .worker i => if i < s.threadCount then eventsAt i (s.workers i) else []
  | _ => []

def submittedBy : JobAction α → List (Job α)
  | .submit job => [job]
  | _ => []

def next (h : JobHistory α) (a : JobAction α) : JobHistory α :=
  ⟨h.system.next a, h.pushes ++ pushesOf h.system a, h.events ++ eventsOf h.system a, h.submitted ++ submittedBy a⟩

variable (h : JobHistory α)

def sent (i : ℕ) (kind : QueueKind) : List (Job α) :=
  (h.pushes.filter fun p => p.1 = i ∧ p.2.queue = kind).map Prod.snd

def begun (i : ℕ) (kind : QueueKind) : List (Job α) := h.events.filterMap (JobEvent.begins i kind)

/-- What holds in every state: each queue is kept in order, and each submission is at its worker. -/
structure InOrder : Prop where
  queues : ∀ i, (h.system.workers i).QueuesOk
  order : ∀ i kind, h.sent i kind = h.begun i kind ++ (h.system.workers i).pending kind
  chosen : ∀ sub ∈ h.system.submissions, 0 ≤ sub.job.threadIndex → sub.index = sub.job.threadIndex.toNat
  pushed : ∀ p ∈ h.pushes, 0 ≤ p.2.threadIndex → p.1 = p.2.threadIndex.toNat

end JobHistory

def jobHistory (α : Type) : System (JobHistory α) (JobAction α) where
  init h := (jobSystem α).init h.system ∧ h.pushes = [] ∧ h.events = [] ∧ h.submitted = []
  next := JobHistory.next

namespace JobHistory

variable {α : Type} {h : JobHistory α}

theorem InOrder.of_same (ho : h.InOrder) {s : JobSystem α} (hq : ∀ i, (s.workers i).QueuesOk ∧
      ∀ kind, (s.workers i).pending kind = (h.system.workers i).pending kind)
    (hc : ∀ sub ∈ s.submissions, 0 ≤ sub.job.threadIndex → sub.index = sub.job.threadIndex.toNat)
    (es : List (JobEvent α)) (hes : ∀ i kind, es.filterMap (JobEvent.begins i kind) = []) (submitted : List (Job α)) :
    InOrder ⟨s, h.pushes, h.events ++ es, submitted⟩ where
  queues i := (hq i).1
  order i kind := by
    show h.sent i kind = (h.events ++ es).filterMap (JobEvent.begins i kind) ++ (s.workers i).pending kind
    rw [ho.order, (hq i).2, List.filterMap_append, hes, List.append_nil]
    rfl
  chosen := hc
  pushed := ho.pushed

theorem same_of_setWorker (ho : h.InOrder) {i : ℕ} {w : Worker α} (hw : w.QueuesOk ∧
      ∀ kind, w.pending kind = (h.system.workers i).pending kind) (j : ℕ) :
    ((h.system.setWorker i w).workers j).QueuesOk ∧
      ∀ kind, ((h.system.setWorker i w).workers j).pending kind = (h.system.workers j).pending kind := by
  by_cases hj : j = i
  · subst hj
    rw [JobSystem.workers_setWorker_self]
    exact hw
  · rw [JobSystem.workers_setWorker_other _ _ hj]
    exact ⟨ho.queues j, fun _ => rfl⟩

theorem eventsAt_begins (w : Worker α) (i j : ℕ) (kind : QueueKind) :
    (eventsAt i w).filterMap (JobEvent.begins j kind) = if j = i then w.hand kind else [] := by
  unfold eventsAt Worker.hand
  by_cases hj : j = i
  · subst hj
    rw [if_pos rfl]
    cases hpc : w.pc with
    | popped job => by_cases hq : job.queue = kind <;> simp [JobEvent.begins, hq]
    | _ => rfl
  · rw [if_neg hj]
    cases hpc : w.pc with
    | popped job => simp [JobEvent.begins, Ne.symm hj]
    | _ => rfl

theorem eventsOf_worker {s : JobSystem α} {i : ℕ} (hi : i < s.threadCount) :
    eventsOf s (.worker i) = eventsAt i (s.workers i) := if_pos hi

theorem InOrder.submit (ho : h.InOrder) (job : Job α) : (h.next (.submit job)).InOrder := by
  have hkeep : ∀ (s : JobSystem α) (index : ℕ), s.workers = h.system.workers → s.submissions = h.system.submissions →
      (0 ≤ job.threadIndex → index = job.threadIndex.toNat) →
        InOrder ⟨{ s with submissions := s.submissions ++ [⟨job, index, .chosen⟩] }, h.pushes, h.events ++ [],
          h.submitted ++ [job]⟩ := by
    intro s index hworkers hsubs hindex
    refine ho.of_same (fun i => ?_) (fun sub hsub => ?_) _ (fun _ _ => rfl) _
    · show (s.workers i).QueuesOk ∧ ∀ kind, (s.workers i).pending kind = _
      rw [hworkers]
      exact ⟨ho.queues i, fun _ => rfl⟩
    · rw [hsubs, List.mem_append] at hsub
      rcases hsub with hsub | hsub
      · exact ho.chosen sub hsub
      · obtain rfl := List.mem_singleton.mp hsub
        exact hindex
  unfold JobHistory.next pushesOf eventsOf
  rw [List.append_nil]
  show InOrder ⟨h.system.internalAddJob job, h.pushes, h.events ++ [], h.submitted ++ [job]⟩
  unfold JobSystem.internalAddJob
  by_cases hneg : job.threadIndex < 0
  · rw [if_pos hneg]
    obtain ⟨hworkers, hsubs⟩ := h.system.takeThreadIndex_same
    exact hkeep _ _ hworkers hsubs fun hpos => absurd hneg (Int.not_lt.mpr hpos)
  · rw [if_neg hneg]
    exact hkeep h.system _ rfl rfl fun _ => rfl

theorem InOrder.submitter (ho : h.InOrder) (i : ℕ) : (h.next (.submitter i)).InOrder := by
  have hsame : ∀ s : JobSystem α, (∀ j, (s.workers j).QueuesOk ∧
      ∀ kind, (s.workers j).pending kind = (h.system.workers j).pending kind) →
      (∀ sub ∈ s.submissions, 0 ≤ sub.job.threadIndex → sub.index = sub.job.threadIndex.toNat) →
        InOrder ⟨s, h.pushes ++ [], h.events ++ [], h.submitted ++ []⟩ := by
    intro s hq hc
    rw [List.append_nil h.pushes]
    exact ho.of_same hq hc _ (fun _ _ => rfl) _
  show InOrder ⟨h.system.submitterStep i, h.pushes ++ pushesOf h.system (.submitter i), h.events ++ [], h.submitted ++ []⟩
  unfold JobSystem.submitterStep pushesOf
  cases hsub : h.system.submissions[i]? with
  | none =>
    simp only [hsub]
    exact hsame _ (fun j => ⟨ho.queues j, fun _ => rfl⟩) ho.chosen
  | some sub =>
    obtain ⟨job, index, stage⟩ := sub
    simp only [hsub]
    have hmem : ⟨job, index, stage⟩ ∈ h.system.submissions := List.mem_of_getElem? hsub
    have hindex := ho.chosen _ hmem
    have hset : ∀ stage', ∀ sub ∈ h.system.submissions.set i ⟨job, index, stage'⟩,
        0 ≤ sub.job.threadIndex → sub.index = sub.job.threadIndex.toNat := by
      intro stage' sub' hsub'
      rcases List.mem_or_eq_of_mem_set hsub' with hold | rfl
      · exact ho.chosen sub' hold
      · exact hindex
    have hsignal : ∀ w : Worker α, w.queues = (h.system.workers index).queues → w.pc = (h.system.workers index).pc →
        w.QueuesOk ∧ ∀ kind, w.pending kind = (h.system.workers index).pending kind := by
      rintro ⟨queues, locked, count, pc⟩ hqueues hpc
      obtain rfl : queues = _ := hqueues
      obtain rfl : pc = _ := hpc
      exact ⟨⟨(ho.queues index).stage, (ho.queues index).queue⟩, fun _ => rfl⟩
    cases stage with
    | chosen =>
      by_cases hlt : index < h.system.threadCount
      · simp only [if_pos hlt]
        -- the push takes effect
        refine ⟨fun j => ?_, fun j kind => ?_, hset _, fun p hp => ?_⟩
        · show ((h.system.setWorker index _).workers j).QueuesOk
          by_cases hj : j = index
          · subst hj
            rw [JobSystem.workers_setWorker_self]
            exact (ho.queues j).pushBack job
          · rw [JobSystem.workers_setWorker_other _ _ hj]
            exact ho.queues j
        · show ((h.pushes ++ [(index, job)]).filter fun p => p.1 = j ∧ p.2.queue = kind).map Prod.snd =
            (h.events ++ []).filterMap (JobEvent.begins j kind) ++ ((h.system.setWorker index _).workers j).pending kind
          have horder := ho.order j kind
          unfold sent begun at horder
          rw [List.filter_append, List.map_append, horder, List.append_nil, List.append_assoc]
          congr 1
          by_cases hj : j = index
          · subst hj
            rw [JobSystem.workers_setWorker_self, Worker.pending_pushBack]
            by_cases hk : job.queue = kind <;> simp [hk]
          · rw [JobSystem.workers_setWorker_other _ _ hj]
            simp [Ne.symm hj]
        · rcases List.mem_append.mp hp with hp | hp
          · exact ho.pushed p hp
          · obtain rfl := List.mem_singleton.mp hp
            exact hindex
      · simp only [if_neg hlt]
        exact hsame _ (fun j => ⟨ho.queues j, fun _ => rfl⟩) ho.chosen
    | pushed =>
      simp only
      split
      · exact hsame _ (fun j => ⟨ho.queues j, fun _ => rfl⟩) ho.chosen
      · exact hsame (JobSystem.setStage (h.system.setWorker index _) i _ _) (same_of_setWorker ho (hsignal _ rfl rfl)) (hset _)
    | locked =>
      exact hsame (JobSystem.setStage (h.system.setWorker index _) i _ _) (same_of_setWorker ho (hsignal _ rfl rfl)) (hset _)
    | counted =>
      exact hsame (JobSystem.setStage (h.system.setWorker index _) i _ _) (same_of_setWorker ho (hsignal _ rfl rfl)) (hset _)
    | unlocked =>
      refine hsame { h.system.setWorker index _ with submissions := _ }
        (same_of_setWorker ho (Worker.notify_pending (ho.queues index))) fun sub' hsub' => ?_
      exact ho.chosen sub' (List.mem_of_mem_eraseIdx hsub')

theorem InOrder.worker (ho : h.InOrder) (i : ℕ) : (h.next (.worker i)).InOrder := by
  unfold JobHistory.next pushesOf
  rw [List.append_nil]
  show InOrder ⟨if i < h.system.threadCount then _ else _, h.pushes, _, _⟩
  by_cases hi : i < h.system.threadCount
  · rw [if_pos hi]
    obtain ⟨hok, hpending⟩ := Worker.step_pending (ho.queues i) h.system.bSystemWork h.system.bUseCVWait
    refine ⟨fun j => ?_, fun j kind => ?_, ho.chosen, ho.pushed⟩
    · show ((h.system.setWorker i _).workers j).QueuesOk
      by_cases hj : j = i
      · subst hj
        rw [JobSystem.workers_setWorker_self]
        exact hok
      · rw [JobSystem.workers_setWorker_other _ _ hj]
        exact ho.queues j
    · show h.sent j kind = (h.events ++ eventsOf h.system (.worker i)).filterMap (JobEvent.begins j kind) ++
        ((h.system.setWorker i _).workers j).pending kind
      rw [ho.order, List.filterMap_append, eventsOf_worker hi, eventsAt_begins, List.append_assoc]
      by_cases hj : j = i
      · subst hj
        rw [JobSystem.workers_setWorker_self, if_pos rfl, hpending]
        rfl
      · rw [JobSystem.workers_setWorker_other _ _ hj, if_neg hj]
        rfl
  · rw [if_neg hi]
    refine ho.of_same (fun j => ⟨ho.queues j, fun _ => rfl⟩) ho.chosen _ (fun j kind => ?_) _
    rw [show eventsOf h.system (.worker i) = [] from if_neg hi]
    rfl

theorem InOrder.next (ho : h.InOrder) (a : JobAction α) : (h.next a).InOrder := by
  cases a with
  | submit job => exact ho.submit job
  | submitter i => exact ho.submitter i
  | worker i => exact ho.worker i
  | wake i =>
    have hsame := ho.of_same (same_of_setWorker ho (i := i) (Worker.notify_pending (ho.queues i))) ho.chosen []
      (fun _ _ => rfl) (h.submitted ++ [])
    unfold JobHistory.next pushesOf
    rw [List.append_nil]
    exact hsame
  | shutDown =>
    have hsame := ho.of_same (s := { h.system with bSystemWork := false }) (fun j => ⟨ho.queues j, fun _ => rfl⟩) ho.chosen []
      (fun _ _ => rfl) (h.submitted ++ [])
    unfold JobHistory.next pushesOf
    rw [List.append_nil]
    exact hsame

theorem reach_inOrder (hr : (jobHistory α).Reachable h) : h.InOrder := by
  refine System.Reach.invariant (I := InOrder) ?_ (fun h a hi _ => hi.next a) hr
  rintro ⟨system, pushes, events, submitted⟩ ⟨⟨threadCount, bUseCVWait, hsystem⟩, hpushes, hevents, -⟩
  obtain rfl : system = .start threadCount bUseCVWait := hsystem
  obtain rfl : pushes = [] := hpushes
  obtain rfl : events = [] := hevents
  refine ⟨fun i => ⟨fun _ => trivial, fun kind job hj => ?_⟩, fun i kind => rfl, fun sub hsub => ?_, fun p hp => ?_⟩
  · cases hj
  · cases hsub
  · cases hp

/-! ## Every submission is pushed once -/

def awaiting (s : JobSystem α) : List (Job α) := (s.submissions.filter fun sub => sub.stage = .chosen).map Submission.job

theorem awaiting_set {s : JobSystem α} {i : ℕ} {sub : Submission α} (hsub : s.submissions[i]? = some sub)
    (workers : ℕ → Worker α) {stage : SubmitStage} (hstage : stage ≠ .chosen) :
    (awaiting s).Perm ((if sub.stage = .chosen then [sub.job] else []) ++
      awaiting { s with workers := workers, submissions := s.submissions.set i { sub with stage := stage } }) := by
  obtain ⟨hi, rfl⟩ := List.getElem?_eq_some_iff.mp hsub
  have hold := ((List.getElem_cons_eraseIdx_perm hi).symm.filter fun sub => sub.stage = .chosen).map Submission.job
  have hnew := ((List.set_perm_cons_eraseIdx hi { s.submissions[i] with stage := stage }).filter
    fun sub => sub.stage = .chosen).map Submission.job
  rw [List.filter_cons_of_neg (by simpa using hstage)] at hnew
  refine hold.trans (List.Perm.trans ?_ (hnew.symm.append_left _))
  by_cases hchosen : s.submissions[i].stage = .chosen
  · rw [List.filter_cons_of_pos (by simpa using hchosen), if_pos hchosen]
    exact List.Perm.refl _
  · rw [List.filter_cons_of_neg (by simpa using hchosen), if_neg hchosen]
    exact List.Perm.refl _

theorem awaiting_eraseIdx {s : JobSystem α} {i : ℕ} {sub : Submission α} (hsub : s.submissions[i]? = some sub)
    {workers : ℕ → Worker α} (hstage : sub.stage ≠ .chosen) :
    (awaiting s).Perm (awaiting { s with workers := workers, submissions := s.submissions.eraseIdx i }) := by
  obtain ⟨hi, rfl⟩ := List.getElem?_eq_some_iff.mp hsub
  have hold := ((List.getElem_cons_eraseIdx_perm hi).symm.filter fun sub => sub.stage = .chosen).map Submission.job
  rw [List.filter_cons_of_neg (by simpa using hstage)] at hold
  exact hold

/-- A step takes from the jobs that wait exactly those it pushes. -/
theorem awaiting_next (s : JobSystem α) (a : JobAction α) :
    (awaiting s ++ submittedBy a).Perm (awaiting (s.next a) ++ (pushesOf s a).map Prod.snd) := by
  cases a with
  | submit job =>
    have hkeep : ∀ (s' : JobSystem α) (index : ℕ), s'.submissions = s.submissions →
        awaiting { s' with submissions := s'.submissions ++ [⟨job, index, .chosen⟩] } = awaiting s ++ [job] := by
      intro s' index hsame
      simp [awaiting, hsame]
    have hnext : awaiting (s.next (.submit job)) = awaiting s ++ [job] := by
      show awaiting (s.internalAddJob job) = _
      unfold JobSystem.internalAddJob
      by_cases hneg : job.threadIndex < 0
      · rw [if_pos hneg]
        exact hkeep _ _ s.takeThreadIndex_same.2
      · rw [if_neg hneg]
        exact hkeep s _ rfl
    rw [hnext]
    exact .of_eq (List.append_nil _).symm
  | submitter i =>
    show (awaiting s ++ []).Perm (awaiting (s.submitterStep i) ++ (pushesOf s (.submitter i)).map Prod.snd)
    rw [List.append_nil]
    unfold JobSystem.submitterStep pushesOf
    cases hsub : s.submissions[i]? with
    | none =>
      simp only [hsub]
      exact .of_eq (List.append_nil _).symm
    | some sub =>
      obtain ⟨job, index, stage⟩ := sub
      simp only [hsub]
      have hgo : ∀ (workers : ℕ → Worker α) (stage' : SubmitStage), stage' ≠ .chosen → stage ≠ .chosen →
          (awaiting s).Perm (awaiting { s with
            workers := workers
            submissions := s.submissions.set i ⟨job, index, stage'⟩ } ++ []) := by
        intro workers stage' hnew hold
        have hperm := awaiting_set hsub workers hnew
        rw [if_neg hold, List.nil_append] at hperm
        rw [List.append_nil]
        exact hperm
      cases stage with
      | chosen =>
        by_cases hlt : index < s.threadCount
        · simp only [if_pos hlt]
          -- the push takes effect
          have hpushed : SubmitStage.pushed ≠ .chosen := by decide
          have hperm := awaiting_set hsub (s.setWorker index ((s.workers index).pushBack job)).workers hpushed
          rw [if_pos rfl] at hperm
          exact hperm.trans List.perm_append_comm
        · simp only [if_neg hlt]
          exact .of_eq (List.append_nil _).symm
      | pushed =>
        simp only
        split
        · exact .of_eq (List.append_nil _).symm
        · exact hgo _ .locked (by decide) (by decide)
      | locked => exact hgo _ .counted (by decide) (by decide)
      | counted => exact hgo _ .unlocked (by decide) (by decide)
      | unlocked =>
        rw [List.map_nil, List.append_nil]
        exact awaiting_eraseIdx hsub SubmitStage.noConfusion
  | worker i =>
    refine .of_eq (congrArg (· ++ []) ?_)
    show awaiting s = awaiting (if i < s.threadCount then _ else s)
    split <;> rfl
  | wake i => exact .refl _
  | shutDown => exact .refl _

/-- The jobs submitted are those that wait for their push and those pushed, each as often. -/
theorem reach_submitted (hr : (jobHistory α).Reachable h) :
    h.submitted.Perm (awaiting h.system ++ h.pushes.map Prod.snd) := by
  refine System.Reach.invariant
    (I := fun h => h.submitted.Perm (awaiting h.system ++ h.pushes.map Prod.snd)) ?_ ?_ hr
  · rintro h ⟨⟨threadCount, bUseCVWait, hsystem⟩, hpushes, -, hsubmitted⟩
    rw [hsystem, hpushes, hsubmitted]
    exact .refl _
  · intro h a hI _
    show (h.submitted ++ submittedBy a).Perm (awaiting (h.system.next a) ++ (h.pushes ++ pushesOf h.system a).map Prod.snd)
    have hswap : ∀ xs ys zs : List (Job α), (xs ++ ys ++ zs).Perm (xs ++ zs ++ ys) := by
      intro xs ys zs
      rw [List.append_assoc, List.append_assoc]
      exact List.perm_append_comm.append_left xs
    have hpushed := (hI.append_right (submittedBy a)).trans (hswap _ _ _)
    have hnext := ((awaiting_next h.system a).append_right (h.pushes.map Prod.snd)).trans (hswap _ _ _)
    rw [List.map_append, ← List.append_assoc]
    exact hpushed.trans hnext

/-! ## One at a time -/

def runningOf (i : ℕ) (w : Worker α) : List (JobEvent α) :=
  match w.pc with
  | .running job => [.began i job]
  | _ => []

def Alternating (i : ℕ) (w : Worker α) (es : List (JobEvent α)) : Prop :=
  ∃ done : List (Job α), es = done.flatMap (fun job => [.began i job, .ended i job]) ++ runningOf i w

theorem runningOf_popFront {i : ℕ} {w : Worker α} {kind : QueueKind} {stage : PopStage (Job α)}
    (hpc : w.pc = .polling kind stage) (b c : Bool) : runningOf i (w.step b c) = [] := by
  unfold Worker.step
  simp only [hpc]
  generalize (w.queues kind).tryPopFront stage = r
  obtain ⟨q, stage' | entry⟩ := r
  · rfl
  · cases entry with
    | some job => rfl
    | none =>
      simp only [runningOf]
      cases kind.next with
      | some kind => rfl
      | none => cases c <;> rfl

theorem Alternating.step {i : ℕ} {w : Worker α} {es : List (JobEvent α)} (h : Alternating i w es) (b c : Bool) :
    Alternating i (w.step b c) (es ++ eventsAt i w) := by
  obtain ⟨done, rfl⟩ := h
  unfold eventsAt
  cases hpc : w.pc with
  | popped job =>
    refine ⟨done, ?_⟩
    unfold Worker.step runningOf
    simp [hpc]
  | running job =>
    refine ⟨done ++ [job], ?_⟩
    unfold Worker.step runningOf
    simp [hpc]
  | polling kind stage =>
    refine ⟨done, ?_⟩
    rw [runningOf_popFront hpc]
    unfold runningOf
    simp [hpc]
  | loop =>
    refine ⟨done, ?_⟩
    unfold Worker.step runningOf
    cases b <;> simp [hpc]
  | locking =>
    refine ⟨done, ?_⟩
    unfold Worker.step runningOf
    cases w.locked <;> simp [hpc]
  | predicate =>
    refine ⟨done, ?_⟩
    unfold Worker.step runningOf
    cases (!b || decide (w.pendingTaskCount ≠ 0)) <;> simp [hpc]
  | blocking | waiting | stopped =>
    refine ⟨done, ?_⟩
    unfold Worker.step runningOf
    simp [hpc]

theorem Alternating.of_pc {i : ℕ} {w w' : Worker α} {es : List (JobEvent α)} (h : Alternating i w es)
    (hpc : w'.pc = w.pc ∨ w.pc = .waiting ∧ w'.pc = .locking) : Alternating i w' es := by
  obtain ⟨done, rfl⟩ := h
  refine ⟨done, ?_⟩
  unfold runningOf
  rcases hpc with hpc | ⟨hw, hw'⟩
  · rw [hpc]
  · rw [hw, hw']

theorem notify_pc (w : Worker α) : w.notify.pc = w.pc ∨ w.pc = .waiting ∧ w.notify.pc = .locking := by
  unfold Worker.notify
  cases hpc : w.pc with
  | waiting => exact .inr ⟨rfl, rfl⟩
  | _ => exact .inl hpc

/-- Only its own steps move a worker, but for the wake-ups. -/
theorem next_pc {s : JobSystem α} {a : JobAction α} {i : ℕ} (ha : a ≠ .worker i) :
    ((s.next a).workers i).pc = (s.workers i).pc ∨
      (s.workers i).pc = .waiting ∧ ((s.next a).workers i).pc = .locking := by
  have hset : ∀ j (w : Worker α), (w.pc = (s.workers j).pc ∨ (s.workers j).pc = .waiting ∧ w.pc = .locking) →
      ((s.setWorker j w).workers i).pc = (s.workers i).pc ∨
        (s.workers i).pc = .waiting ∧ ((s.setWorker j w).workers i).pc = .locking := by
    intro j w hw
    by_cases hi : i = j
    · subst hi
      rw [JobSystem.workers_setWorker_self]
      exact hw
    · rw [JobSystem.workers_setWorker_other _ _ hi]
      exact .inl rfl
  unfold JobSystem.next
  cases a with
  | submit job =>
    left
    simp only [JobSystem.internalAddJob]
    split
    · show (s.takeThreadIndex.2.workers i).pc = _
      rw [s.takeThreadIndex_same.1]
    · rfl
  | submitter j =>
    simp only [JobSystem.submitterStep]
    cases hsub : s.submissions[j]? with
    | none => exact .inl rfl
    | some sub =>
      simp only
      cases sub.stage with
      | chosen =>
        simp only
        split
        · exact hset _ _ (.inl rfl)
        · exact .inl rfl
      | pushed =>
        simp only
        split
        · exact .inl rfl
        · exact hset _ { s.workers sub.index with locked := true } (.inl rfl)
      | locked => exact hset _ { s.workers sub.index with pendingTaskCount := _ } (.inl rfl)
      | counted => exact hset _ { s.workers sub.index with locked := false } (.inl rfl)
      | unlocked => exact hset _ _ (notify_pc _)
  | worker j =>
    have hij : i ≠ j := by
      rintro rfl
      exact ha rfl
    simp only
    split
    · rw [JobSystem.workers_setWorker_other _ _ hij]
      exact .inl rfl
    · exact .inl rfl
  | wake j => exact hset _ _ (notify_pc _)
  | shutDown => exact .inl rfl

def eventsBy (h : JobHistory α) (i : ℕ) : List (JobEvent α) := h.events.filter fun e => e.worker = i

theorem eventsAt_worker (i : ℕ) (w : Worker α) : ∀ e ∈ eventsAt i w, e.worker = i := by
  intro e he
  unfold eventsAt at he
  cases hpc : w.pc <;> simp [hpc] at he
  · rw [he]
    rfl
  · rw [he]
    rfl

theorem eventsBy_next_self {i : ℕ} (hi : i < h.system.threadCount) :
    (h.next (.worker i)).eventsBy i = h.eventsBy i ++ eventsAt i (h.system.workers i) := by
  show (h.events ++ eventsOf h.system (.worker i)).filter _ = _
  rw [eventsOf_worker hi, List.filter_append]
  congr 1
  exact List.filter_eq_self.mpr fun e he => decide_eq_true (eventsAt_worker i _ e he)

theorem eventsBy_next_other {a : JobAction α} {i : ℕ} (ha : a ≠ .worker i ∨ h.system.threadCount ≤ i) :
    (h.next a).eventsBy i = h.eventsBy i := by
  have hnone : (eventsOf h.system a).filter (fun e => e.worker = i) = [] := by
    cases a with
    | worker j =>
      by_cases hj : j < h.system.threadCount
      · rw [eventsOf_worker hj]
        refine List.filter_eq_nil_iff.mpr fun e he => ?_
        rw [eventsAt_worker j _ e he, decide_eq_true_eq]
        rintro rfl
        rcases ha with ha | hle
        · exact ha rfl
        · exact absurd hj (Nat.not_lt.mpr hle)
      · rw [show eventsOf h.system (.worker j) = [] from if_neg hj]
        rfl
    | _ => rfl
  show (h.events ++ eventsOf h.system a).filter _ = _
  rw [List.filter_append, hnone, List.append_nil]
  rfl

theorem reach_alternating (hr : (jobHistory α).Reachable h) (i : ℕ) : Alternating i (h.system.workers i) (h.eventsBy i) := by
  refine System.Reach.invariant (I := fun h => Alternating i (h.system.workers i) (h.eventsBy i)) ?_ ?_ hr
  · rintro ⟨system, pushes, events, submitted⟩ ⟨⟨threadCount, bUseCVWait, hsystem⟩, -, hevents, -⟩
    obtain rfl : system = .start threadCount bUseCVWait := hsystem
    obtain rfl : events = [] := hevents
    exact ⟨[], rfl⟩
  · intro h a ih _
    show Alternating i ((h.system.next a).workers i) ((h.next a).eventsBy i)
    by_cases ha : a = .worker i
    · subst ha
      unfold JobSystem.next
      by_cases hi : i < h.system.threadCount
      · rw [eventsBy_next_self hi]
        simp only [if_pos hi, JobSystem.workers_setWorker_self]
        exact ih.step _ _
      · rw [eventsBy_next_other (.inr (Nat.not_lt.mp hi))]
        simp only [if_neg hi]
        exact ih
    · rw [eventsBy_next_other (.inl ha)]
      exact ih.of_pc (next_pc ha)

end JobHistory

/-! ## Progress -/

namespace Worker

variable {α : Type} {w : Worker α}

def run (bUseCVWait : Bool) (w : Worker α) : ℕ → Worker α
  | 0 => w
  | n + 1 => (w.step true bUseCVWait).run bUseCVWait n

theorem run_add (c : Bool) (w : Worker α) (m n : ℕ) : w.run c (m + n) = (w.run c m).run c n := by
  induction m generalizing w with
  | zero => rw [Nat.zero_add]; rfl
  | succ m ih =>
    rw [Nat.succ_add]
    exact ih (w.step true c)

theorem run_moving (c : Bool) (l : List (Job α)) : ∀ (w : Worker α) (popStack : List (Job α)),
    w.pc = .polling .localFunc (.moving l) → w.queues .localFunc = ⟨[], popStack⟩ →
      ∃ n, (w.run c n).pc = .polling .localFunc .third ∧ (w.run c n).queues .localFunc = ⟨[], l.reverse ++ popStack⟩ := by
  induction l with
  | nil =>
    intro w popStack hpc hq
    refine ⟨1, ?_, ?_⟩
    · simp [run, step, hpc, hq, SListQueue.tryPopFront]
    · simp [run, step, hpc, hq, SListQueue.tryPopFront, setQueue]
  | cons job l ih =>
    intro w popStack hpc hq
    obtain ⟨n, hn1, hn2⟩ := ih (w.step true c) (job :: popStack) (by simp [step, hpc, hq, SListQueue.tryPopFront])
      (by simp [step, hpc, hq, SListQueue.tryPopFront, setQueue])
    refine ⟨n + 1, hn1, ?_⟩
    rw [List.reverse_cons, List.append_assoc]
    exact hn2

theorem run_popEntry (c : Bool) {stage : PopStage (Job α)} (hstage : stage = .first ∨ stage = .third)
    (hpc : w.pc = .polling .localFunc stage) {job : Job α} {pushStack popStack : List (Job α)}
    (hq : w.queues .localFunc = ⟨pushStack, job :: popStack⟩) :
    (w.run c 3).pc = .loop ∧ (w.run c 3).queues .localFunc = ⟨pushStack, popStack⟩ := by
  rcases hstage with rfl | rfl
  · simp [run, step, hpc, hq, SListQueue.tryPopFront, SListQueue.popEntry, setQueue]
  · simp [run, step, hpc, hq, SListQueue.tryPopFront, SListQueue.popEntry, setQueue]

/-- At the head of its loop with a pinned job in its queue, the worker runs it and comes back. -/
theorem run_job (c : Bool) {job : Job α} {rest : List (Job α)} (hpc : w.pc = .loop)
    (hin : w.inQueue .localFunc = job :: rest) :
    ∃ n, (w.run c n).pc = .loop ∧ (w.run c n).inQueue .localFunc = rest := by
  have hcontent : ∀ w : Worker α, w.pc = .loop → ∀ pushStack popStack, w.queues .localFunc = ⟨pushStack, popStack⟩ →
      w.inQueue .localFunc = popStack ++ pushStack.reverse := by
    intro w hpc pushStack popStack hq
    rw [inQueue, stage_of_fresh (by rw [hpc]; rfl), hq]
    rfl
  obtain ⟨pushStack, popStack, hq⟩ : ∃ pushStack popStack, w.queues .localFunc = ⟨pushStack, popStack⟩ := ⟨_, _, rfl⟩
  rw [hcontent w hpc pushStack popStack hq] at hin
  cases popStack with
  | cons job' popStack =>
    obtain ⟨rfl, rfl⟩ := List.cons.inj hin
    have hfirst : (w.run c 1).pc = .polling .localFunc .first ∧ (w.run c 1).queues .localFunc = ⟨pushStack, job' :: popStack⟩ := by
      simp [run, step, hpc, hq]
    obtain ⟨hloop, hqueue⟩ := run_popEntry c (.inl rfl) hfirst.1 hfirst.2
    refine ⟨1 + 3, ?_⟩
    rw [run_add]
    exact ⟨hloop, hcontent _ hloop _ _ hqueue⟩
  | nil =>
    -- the second stack is empty: the first is turned over
    have hflush : (w.run c 4).pc = .polling .localFunc (.moving pushStack) ∧ (w.run c 4).queues .localFunc = ⟨[], []⟩ := by
      simp [run, step, hpc, hq, SListQueue.tryPopFront, SListQueue.popEntry, setQueue]
    obtain ⟨n, hthird, hmoved⟩ := run_moving c pushStack _ _ hflush.1 hflush.2
    rw [List.append_nil, show pushStack.reverse = job :: rest from hin] at hmoved
    obtain ⟨hloop, hqueue⟩ := run_popEntry c (.inr rfl) hthird hmoved
    refine ⟨4 + n + 3, ?_⟩
    rw [run_add, run_add]
    refine ⟨hloop, ?_⟩
    rw [hcontent _ hloop _ _ hqueue, List.reverse_nil, List.append_nil]

theorem run_all (c : Bool) (m : ℕ) : ∀ w : Worker α, w.pc = .loop → (w.inQueue .localFunc).length = m →
    ∃ n, (w.run c n).pc = .loop ∧ (w.run c n).inQueue .localFunc = [] := by
  induction m with
  | zero =>
    intro w hpc hlen
    exact ⟨0, hpc, List.length_eq_zero_iff.mp hlen⟩
  | succ m ih =>
    intro w hpc hlen
    obtain ⟨job, rest, hin⟩ := List.exists_cons_of_length_eq_add_one hlen
    obtain ⟨n, hloop, hrest⟩ := run_job c hpc hin
    obtain ⟨n', hloop', hnil⟩ := ih _ hloop (by rw [hrest]; rw [hin] at hlen; exact Nat.succ.inj hlen)
    refine ⟨n + n', ?_⟩
    rw [run_add]
    exact ⟨hloop', hnil⟩

end Worker

/-! ## The jobs pinned to one worker -/

def Job.pinnedTo {α : Type} (job : Job α) (k : ℕ) : Bool := job.bFunction && decide (job.threadIndex = k)

namespace JobHistory

variable {α : Type} {h : JobHistory α}

/-- The jobs pinned to worker `k`, in the order in which their pushes took effect. -/
def pinnedPushes (h : JobHistory α) (k : ℕ) : List (Job α) := (h.pushes.map Prod.snd).filter fun job => job.pinnedTo k

def pinnedSubmitted (h : JobHistory α) (k : ℕ) : List (Job α) := h.submitted.filter fun job => job.pinnedTo k

/-- The jobs pinned to worker `k` whose push has not taken effect yet. -/
def pinnedAwaiting (h : JobHistory α) (k : ℕ) : List (Job α) := (awaiting h.system).filter fun job => job.pinnedTo k

def pinnedBegun (h : JobHistory α) (k : ℕ) : List (Job α) :=
  h.events.filterMap fun
    | .began _ job => if job.pinnedTo k then some job else none
    | .ended _ _ => none

theorem queue_eq_localFunc {job : Job α} : job.queue = .localFunc ↔ job.bFunction = true ∧ 0 ≤ job.threadIndex := by
  unfold Job.queue
  by_cases hneg : job.threadIndex < 0
  · cases job.bFunction <;> simp [hneg]
  · have hpos : 0 ≤ job.threadIndex := Int.not_lt.mp hneg
    cases job.bFunction <;> simp [hneg, hpos]

theorem pinnedTo_iff {job : Job α} {k : ℕ} :
    job.pinnedTo k = true ↔ job.queue = .localFunc ∧ job.threadIndex.toNat = k := by
  rw [queue_eq_localFunc, Job.pinnedTo, Bool.and_eq_true, decide_eq_true_eq]
  constructor
  · rintro ⟨hf, hk⟩
    exact ⟨⟨hf, by omega⟩, by omega⟩
  · rintro ⟨⟨hf, hpos⟩, hk⟩
    exact ⟨hf, by omega⟩

theorem InOrder.pushed_of_began (ho : h.InOrder) {i : ℕ} {job : Job α} (hb : .began i job ∈ h.events) :
    (i, job) ∈ h.pushes := by
  have hmem : job ∈ h.sent i job.queue := by
    rw [ho.order]
    refine List.mem_append_left _ (List.mem_filterMap.mpr ⟨_, hb, ?_⟩)
    exact if_pos ⟨rfl, rfl⟩
  obtain ⟨⟨j, job'⟩, hp, rfl⟩ := List.mem_map.mp hmem
  obtain ⟨hpush, hj⟩ := List.mem_filter.mp hp
  rw [decide_eq_true_eq] at hj
  rw [← hj.1]
  exact hpush

theorem InOrder.pinnedPushes_eq (ho : h.InOrder) (k : ℕ) : h.pinnedPushes k = h.sent k .localFunc := by
  unfold pinnedPushes sent
  rw [List.filter_map]
  congr 1
  refine List.filter_congr fun p hp => ?_
  rw [Function.comp_apply, Bool.eq_iff_iff, pinnedTo_iff, decide_eq_true_eq, queue_eq_localFunc]
  constructor
  · rintro ⟨hq, hk⟩
    exact ⟨(ho.pushed p hp hq.2).trans hk, hq⟩
  · rintro ⟨hk, hq⟩
    exact ⟨hq, (ho.pushed p hp hq.2).symm.trans hk⟩

theorem InOrder.pinnedBegun_eq (ho : h.InOrder) (k : ℕ) : h.pinnedBegun k = h.begun k .localFunc := by
  refine List.filterMap_congr fun e he => ?_
  cases e with
  | ended i job => rfl
  | began i job =>
    have hpush := ho.pushed_of_began he
    show (if job.pinnedTo k = true then some job else none) = if i = k ∧ job.queue = .localFunc then some job else none
    congr 1
    rw [pinnedTo_iff, queue_eq_localFunc]
    refine propext ⟨?_, ?_⟩
    · rintro ⟨hq, hk⟩
      exact ⟨(ho.pushed _ hpush hq.2).trans hk, hq⟩
    · rintro ⟨hk, hq⟩
      exact ⟨hq, (ho.pushed _ hpush hq.2).symm.trans hk⟩

theorem runFrom_worker {k : ℕ} (n : ℕ) : ∀ h : JobHistory α, k < h.system.threadCount → h.system.bSystemWork = true →
    (((jobHistory α).runFrom h (List.replicate n (.worker k))).system.workers k =
      (h.system.workers k).run h.system.bUseCVWait n) ∧
      ((jobHistory α).runFrom h (List.replicate n (.worker k))).pushes = h.pushes := by
  induction n with
  | zero => exact fun _ _ _ => ⟨rfl, rfl⟩
  | succ n ih =>
    intro h hk hwork
    have hnext : (h.next (.worker k)).system = h.system.setWorker k ((h.system.workers k).step true h.system.bUseCVWait) := by
      rw [← hwork]
      exact if_pos hk
    have hpushes : (h.next (.worker k)).pushes = h.pushes := List.append_nil _
    obtain ⟨hw, hp⟩ := ih (h.next (.worker k)) (by rw [hnext]; exact hk) (by rw [hnext]; exact hwork)
    rw [hpushes] at hp
    rw [hnext, JobSystem.workers_setWorker_self] at hw
    exact ⟨hw, hp⟩

/-- The function jobs pinned to worker `k` are each pushed once and begun by it alone, once each and in the order in which
their pushes took effect, as far as they are begun: the others wait for their push, or are in its hand and its queue. It ends
each before it begins the next, and from the head of its loop it runs all of them by its own steps. -/
theorem pinned_jobs_in_order (hr : (jobHistory α).Reachable h) (k : ℕ) :
    (∀ i job, .began i job ∈ h.events → job.pinnedTo k = true → i = k) ∧
    (h.pinnedSubmitted k).Perm (h.pinnedAwaiting k ++ h.pinnedPushes k) ∧
    h.pinnedPushes k = h.pinnedBegun k ++ (h.system.workers k).pending .localFunc ∧
    (∃ (done : List (Job α)) (current : Option (Job α)),
      h.eventsBy k = done.flatMap (fun job => [.began k job, .ended k job]) ++ current.toList.map (.began k)) ∧
    (k < h.system.threadCount → h.system.bSystemWork = true → (h.system.workers k).pc = .loop →
      ∃ n, ((jobHistory α).runFrom h (List.replicate n (.worker k))).pinnedBegun k = h.pinnedPushes k) := by
  have ho := reach_inOrder hr
  refine ⟨?_, ?_, ?_, ?_, ?_⟩
  · intro i job hb hk
    obtain ⟨hq, hk⟩ := pinnedTo_iff.mp hk
    exact (ho.pushed _ (ho.pushed_of_began hb) (queue_eq_localFunc.mp hq).2).trans hk
  · have hsubmitted := (reach_submitted hr).filter fun job => job.pinnedTo k
    rw [List.filter_append] at hsubmitted
    exact hsubmitted
  · rw [ho.pinnedPushes_eq, ho.pinnedBegun_eq, ho.order]
  · obtain ⟨done, hdone⟩ := reach_alternating hr k
    rw [hdone]
    unfold runningOf
    cases (h.system.workers k).pc with
    | running job => exact ⟨done, some job, rfl⟩
    | _ => exact ⟨done, none, rfl⟩
  · intro hlt hwork hloop
    obtain ⟨n, hpc, hnil⟩ := Worker.run_all h.system.bUseCVWait _ _ hloop rfl
    obtain ⟨hw, hpushes⟩ := runFrom_worker n h hlt hwork
    refine ⟨n, ?_⟩
    have ho' : InOrder ((jobHistory α).runFrom h (List.replicate n (.worker k))) :=
      reach_inOrder (System.reachable_runFrom hr _)
    have hsame : h.pinnedPushes k = ((jobHistory α).runFrom h (List.replicate n (.worker k))).pinnedPushes k := by
      unfold pinnedPushes
      rw [hpushes]
    rw [hsame, ho'.pinnedBegun_eq, ho'.pinnedPushes_eq, ho'.order, hw, Worker.pending, hnil,
      Worker.hand_of_fresh (by rw [hpc]; rfl), List.append_nil, List.append_nil]

theorem start_reachable (threadCount : ℕ) (bUseCVWait : Bool) :
    (jobHistory α).Reachable ⟨.start threadCount bUseCVWait, [], [], []⟩ :=
  .init ⟨⟨threadCount, bUseCVWait, rfl⟩, rfl, rfl, rfl⟩

/-- Two workers and three jobs pinned to the second: the second submission is pushed first and begun, the third waits. -/
def threePinned : JobHistory ℕ :=
  (jobHistory ℕ).runFrom ⟨.start 2 true, [], [], []⟩
    ([.submit ⟨7, true, 1⟩, .submit ⟨8, true, 1⟩, .submit ⟨9, true, 1⟩, .submitter 1, .submitter 0] ++
      List.replicate 9 (.worker 1))

theorem pinned_jobs_in_order_three :
    threePinned.pinnedSubmitted 1 = [⟨7, true, 1⟩, ⟨8, true, 1⟩, ⟨9, true, 1⟩] ∧
    threePinned.pinnedAwaiting 1 = [⟨9, true, 1⟩] ∧ threePinned.pinnedPushes 1 = [⟨8, true, 1⟩, ⟨7, true, 1⟩] ∧
    threePinned.pinnedBegun 1 = [⟨8, true, 1⟩] ∧
    (threePinned.pinnedSubmitted 1).Perm (threePinned.pinnedAwaiting 1 ++ threePinned.pinnedPushes 1) ∧
    threePinned.pinnedPushes 1 = threePinned.pinnedBegun 1 ++ (threePinned.system.workers 1).pending .localFunc := by
  obtain ⟨-, hsubmitted, horder, -, -⟩ := pinned_jobs_in_order (System.reachable_runFrom (start_reachable 2 true) _) 1
  exact ⟨by decide, by decide, by decide, by decide, hsubmitted, horder⟩

end JobHistory

end RudpEngine

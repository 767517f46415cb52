import RudpEngine.PinnedJobs

/-!
# No lost wake-up

A submitter pushes its job, counts it under the worker's mutex and notifies. The
worker may take the job before it is counted, so the counter can be below zero,
modulo 2^64, or zero with jobs queued. What it is short of is the number of
submitters that have pushed and not counted.
-/

namespace RudpEngine

namespace SubmitStage

def uncounted : SubmitStage → Bool
  | .pushed | .locked => true
  | _ => false

def unnotified : SubmitStage → Bool
  | .counted | .unlocked => true
  | _ => false

def holdsMutex : SubmitStage → Bool
  | .locked | .counted => true
  | _ => false

end SubmitStage

namespace Worker

variable {α : Type} {w : Worker α}

def holdsMutex (w : Worker α) : Bool :=
  match w.pc with
  | .predicate | .blocking => true
  | _ => false

def queued (w : Worker α) : ℕ :=
  (w.inQueue .localFunc).length + (w.inQueue .localCoroutine).length + (w.inQueue .globalFunc).length +
    (w.inQueue .globalCoroutine).length

def held (w : Worker α) : ℕ :=
  (w.pending .localFunc).length + (w.pending .localCoroutine).length + (w.pending .globalFunc).length +
    (w.pending .globalCoroutine).length

theorem held_of_popped {job : Job α} (hpc : w.pc = .popped job) : w.held = w.queued + 1 := by
  unfold held queued pending hand
  rw [hpc]
  cases hq : job.queue <;> simp [hq] <;> omega

theorem held_of_not_popped (hpc : ∀ job, w.pc ≠ .popped job) : w.held = w.queued := by
  have hnone : ∀ kind, w.hand kind = [] := by
    intro kind
    unfold hand
    cases h : w.pc with
    | popped job => exact absurd h (hpc job)
    | _ => rfl
  unfold held queued pending
  simp only [hnone, List.nil_append]

theorem held_step (h : w.QueuesOk) (b c : Bool) : (w.step b c).held = w.queued := by
  unfold held queued
  simp only [(step_pending h b c).2]

theorem held_pushBack (w : Worker α) (job : Job α) : (w.pushBack job).held = w.held + 1 := by
  unfold held
  simp only [pending_pushBack, List.length_append]
  cases hq : job.queue <;> simp <;> omega

theorem held_notify (h : w.QueuesOk) : w.notify.held = w.held := by
  unfold held
  simp only [(notify_pending h).2]

end Worker

namespace JobSystem

variable {α : Type} {s : JobSystem α}

def submitting (s : JobSystem α) (i : ℕ) (p : SubmitStage → Bool) : ℕ :=
  s.submissions.countP fun sub => decide (sub.index = i) && p sub.stage

structure SignalOk (s : JobSystem α) (i : ℕ) : Prop where
  count : ((s.workers i).pendingTaskCount.toNat + s.submitting i SubmitStage.uncounted) % 2 ^ 64 =
    (s.workers i).held % 2 ^ 64
  mutex : s.submitting i SubmitStage.holdsMutex + (s.workers i).holdsMutex.toNat = (s.workers i).locked.toNat
  blocking : (s.workers i).pc = .blocking → (s.workers i).pendingTaskCount = 0
  waiting : (s.workers i).pc = .waiting → (s.workers i).pendingTaskCount ≠ 0 → 0 < s.submitting i SubmitStage.unnotified

theorem submissions_split {j : ℕ} {sub : Submission α} (h : s.submissions[j]? = some sub) :
    ∃ l r, s.submissions = l ++ sub :: r ∧ (∀ sub', s.submissions.set j sub' = l ++ sub' :: r) ∧
      s.submissions.eraseIdx j = l ++ r := by
  obtain ⟨hj, rfl⟩ := List.getElem?_eq_some_iff.mp h
  refine ⟨s.submissions.take j, s.submissions.drop (j + 1), ?_, fun sub' => ?_, ?_⟩
  · rw [List.getElem_cons_drop, List.take_append_drop]
  · exact List.set_eq_take_append_cons_drop.trans (if_pos hj)
  · exact List.eraseIdx_eq_take_drop_succ ..

section
variable (i : ℕ) (p : SubmitStage → Bool) {j : ℕ} {sub : Submission α}

def counts (sub : Submission α) : ℕ := (decide (sub.index = i) && p sub.stage).toNat

theorem countP_one (sub : Submission α) : [sub].countP (fun sub => decide (sub.index = i) && p sub.stage) = counts i p sub := by
  unfold counts
  cases h : (decide (sub.index = i) && p sub.stage) <;> simp [h]

theorem submitting_set (h : s.submissions[j]? = some sub) (sub' : Submission α) :
    ({ s with submissions := s.submissions.set j sub' } : JobSystem α).submitting i p + counts i p sub =
      s.submitting i p + counts i p sub' := by
  obtain ⟨l, r, hsplit, hset, -⟩ := submissions_split h
  unfold submitting
  simp only [hset]
  rw [hsplit, List.append_cons l sub r, List.append_cons l sub' r]
  simp only [List.countP_append, countP_one]
  omega

theorem submitting_eraseIdx (h : s.submissions[j]? = some sub) :
    ({ s with submissions := s.submissions.eraseIdx j } : JobSystem α).submitting i p + counts i p sub =
      s.submitting i p := by
  obtain ⟨l, r, hsplit, -, herase⟩ := submissions_split h
  unfold submitting
  simp only [herase]
  rw [hsplit, List.append_cons l sub r]
  simp only [List.countP_append, countP_one]
  omega

theorem counts_of_index (hi : sub.index = i) : counts i p sub = (p sub.stage).toNat := by
  rw [counts, decide_eq_true hi, Bool.true_and]

theorem counts_of_other (hi : sub.index ≠ i) : counts i p sub = 0 := by
  rw [counts, decide_eq_false hi, Bool.false_and]
  rfl

end

theorem SignalOk.of_same {i : ℕ} (h : s.SignalOk i) {s' : JobSystem α} (hw : s'.workers i = s.workers i)
    (hs : ∀ p, s'.submitting i p = s.submitting i p) : s'.SignalOk i := by
  obtain ⟨hcount, hmutex, hblocking, hwaiting⟩ := h
  exact ⟨by rw [hw, hs]; exact hcount, by rw [hw, hs]; exact hmutex, by rw [hw]; exact hblocking, by rw [hw, hs]; exact hwaiting⟩

theorem notify_signal (w : Worker α) : w.notify.pendingTaskCount = w.pendingTaskCount ∧ w.notify.locked = w.locked ∧
    w.notify.holdsMutex = w.holdsMutex ∧ (w.notify.pc = .blocking → w.pc = .blocking) ∧ w.notify.pc ≠ .waiting := by
  unfold Worker.notify Worker.holdsMutex
  cases hpc : w.pc <;> simp [hpc]

theorem SignalOk.submitter_other {i : ℕ} (h : s.SignalOk i) {j : ℕ} {sub : Submission α}
    (hsub : s.submissions[j]? = some sub) (hi : sub.index ≠ i) : (s.submitterStep j).SignalOk i := by
  have hset : ∀ (w : Worker α) stage', (((s.setWorker sub.index w).setStage j sub stage').SignalOk i) := by
    intro w stage'
    refine h.of_same (workers_setWorker_other _ _ (Ne.symm hi)) fun p => ?_
    have hcount := submitting_set i p hsub { sub with stage := stage' }
    rw [counts_of_other i p hi, counts_of_other i p (show ({ sub with stage := stage' } : Submission α).index ≠ i from hi)]
      at hcount
    exact hcount
  have herase : ∀ w : Worker α,
      ({ s.setWorker sub.index w with submissions := s.submissions.eraseIdx j } : JobSystem α).SignalOk i := by
    intro w
    refine h.of_same (workers_setWorker_other _ _ (Ne.symm hi)) fun p => ?_
    have hcount := submitting_eraseIdx i p hsub
    rw [counts_of_other i p hi] at hcount
    exact hcount
  unfold submitterStep
  simp only [hsub]
  cases sub.stage with
  | chosen =>
    simp only
    split
    · exact hset _ _
    · exact h
  | pushed =>
    simp only
    split
    · exact h
    · exact hset _ _
  | locked | counted => exact hset _ _
  | unlocked => exact herase _

theorem SignalOk.of_stage {i j : ℕ} {sub : Submission α} (hsub : s.submissions[j]? = some sub) (hi : sub.index = i)
    {w : Worker α} {stage' : SubmitStage}
    (hgoal : ∀ a b c : ℕ, a + (sub.stage.uncounted).toNat = s.submitting i SubmitStage.uncounted + stage'.uncounted.toNat →
      b + (sub.stage.holdsMutex).toNat = s.submitting i SubmitStage.holdsMutex + stage'.holdsMutex.toNat →
      c + (sub.stage.unnotified).toNat = s.submitting i SubmitStage.unnotified + stage'.unnotified.toNat →
        (w.pendingTaskCount.toNat + a) % 2 ^ 64 = w.held % 2 ^ 64 ∧ b + w.holdsMutex.toNat = w.locked.toNat ∧
          (w.pc = .blocking → w.pendingTaskCount = 0) ∧ (w.pc = .waiting → w.pendingTaskCount ≠ 0 → 0 < c)) :
    ((s.setWorker sub.index w).setStage j sub stage').SignalOk i := by
  have hcount : ∀ p, ((s.setWorker sub.index w).setStage j sub stage').submitting i p + (p sub.stage).toNat =
      s.submitting i p + (p stage').toNat := by
    intro p
    have h := submitting_set i p hsub { sub with stage := stage' }
    rw [counts_of_index i p hi, counts_of_index i p (show ({ sub with stage := stage' } : Submission α).index = i from hi)] at h
    exact h
  obtain ⟨h1, h2, h3, h4⟩ := hgoal _ _ _ (hcount _) (hcount _) (hcount _)
  have hw : ((s.setWorker sub.index w).setStage j sub stage').workers i = w := by
    rw [← hi]
    exact workers_setWorker_self s sub.index w
  exact ⟨by rw [hw]; exact h1, by rw [hw]; exact h2, by rw [hw]; exact h3, by rw [hw]; exact h4⟩

theorem SignalOk.submitter (hq : ∀ i, (s.workers i).QueuesOk) {i : ℕ} (h : s.SignalOk i) (j : ℕ) :
    (s.submitterStep j).SignalOk i := by
  cases hsub : s.submissions[j]? with
  | none =>
    unfold submitterStep
    simp only [hsub]
    exact h
  | some sub =>
    by_cases hi : sub.index = i
    · obtain ⟨job, index, stage⟩ := sub
      obtain rfl : index = i := hi
      obtain ⟨hcount, hmutex, hblocking, hwaiting⟩ := h
      have hlt := (s.workers index).pendingTaskCount.isLt
      unfold submitterStep
      simp only [hsub]
      cases stage with
      | chosen =>
        simp only
        split
        · refine SignalOk.of_stage hsub rfl fun a b c ha hb hc => ?_
          rw [Worker.held_pushBack]
          simp only [SubmitStage.uncounted, SubmitStage.holdsMutex, SubmitStage.unnotified, Bool.toNat_false, Bool.toNat_true,
            Nat.add_zero] at ha hb hc
          refine ⟨?_, ?_, hblocking, ?_⟩
          · show ((s.workers index).pendingTaskCount.toNat + a) % _ = _
            omega
          · rw [hb]
            exact hmutex
          · rw [hc]
            exact hwaiting
        · exact ⟨hcount, hmutex, hblocking, hwaiting⟩
      | pushed =>
        simp only
        split
        · exact ⟨hcount, hmutex, hblocking, hwaiting⟩
        · rename_i hfree
          refine SignalOk.of_stage hsub rfl fun a b c ha hb hc => ?_
          simp only [SubmitStage.uncounted, SubmitStage.holdsMutex, SubmitStage.unnotified, Bool.toNat_false, Bool.toNat_true,
            Nat.add_zero] at ha hb hc
          refine ⟨?_, ?_, hblocking, ?_⟩
          · show ((s.workers index).pendingTaskCount.toNat + a) % _ = (s.workers index).held % _
            omega
          · rw [Bool.not_eq_true] at hfree
            rw [hfree, Bool.toNat_false] at hmutex
            show b + (s.workers index).holdsMutex.toNat = 1
            omega
          · rw [hc]
            exact hwaiting
      | locked =>
        simp only
        refine SignalOk.of_stage hsub rfl fun a b c ha hb hc => ?_
        simp only [SubmitStage.uncounted, SubmitStage.holdsMutex, SubmitStage.unnotified, Bool.toNat_false, Bool.toNat_true,
          Nat.add_zero] at ha hb hc
        refine ⟨?_, ?_, ?_, fun _ _ => by omega⟩
        · show (((s.workers index).pendingTaskCount + 1).toNat + a) % _ = (s.workers index).held % _
          rw [BitVec.toNat_add]
          show (((s.workers index).pendingTaskCount.toNat + 1) % 2 ^ 64 + a) % _ = _
          omega
        · have hb : b = s.submitting index SubmitStage.holdsMutex := by omega
          rw [hb]
          exact hmutex
        · -- the mutex is the submitter's, so the worker is not about to wait
          intro hpc
          have hpos : 0 < s.submitting index SubmitStage.holdsMutex := by
            refine List.countP_pos_iff.mpr ⟨_, List.mem_of_getElem? hsub, ?_⟩
            simp [SubmitStage.holdsMutex]
          have hholds : (s.workers index).holdsMutex = true := by
            unfold Worker.holdsMutex
            rw [show (s.workers index).pc = .blocking from hpc]
          have hle := Bool.toNat_le (s.workers index).locked
          rw [hholds, Bool.toNat_true] at hmutex
          omega
      | counted =>
        simp only
        refine SignalOk.of_stage hsub rfl fun a b c ha hb hc => ?_
        simp only [SubmitStage.uncounted, SubmitStage.holdsMutex, SubmitStage.unnotified, Bool.toNat_false, Bool.toNat_true,
          Nat.add_zero] at ha hb hc
        refine ⟨?_, ?_, hblocking, ?_⟩
        · show ((s.workers index).pendingTaskCount.toNat + a) % _ = (s.workers index).held % _
          omega
        · show b + (s.workers index).holdsMutex.toNat = 0
          have hle := Bool.toNat_le (s.workers index).locked
          omega
        · have hc : c = s.submitting index SubmitStage.unnotified := by omega
          rw [hc]
          exact hwaiting
      | unlocked =>
        obtain ⟨hn1, hn2, hn3, hn4, hn5⟩ := notify_signal (s.workers index)
        have hw : ({ s.setWorker index (s.workers index).notify with submissions := s.submissions.eraseIdx j } :
            JobSystem α).workers index = (s.workers index).notify := workers_setWorker_self s index _
        have herase : ∀ p : SubmitStage → Bool, p .unlocked = false →
            ({ s.setWorker index (s.workers index).notify with submissions := s.submissions.eraseIdx j } :
              JobSystem α).submitting index p = s.submitting index p := by
          intro p hp
          have h := submitting_eraseIdx index p hsub
          rw [counts_of_index index p rfl, hp] at h
          exact h
        refine ⟨?_, ?_, ?_, ?_⟩
        · rw [hw, hn1, herase _ rfl, Worker.held_notify (hq index)]
          exact hcount
        · rw [hw, hn2, hn3, herase _ rfl]
          exact hmutex
        · rw [hw, hn1]
          exact fun hpc => hblocking (hn4 hpc)
        · rw [hw]
          exact fun hpc => absurd hpc hn5
    · exact h.submitter_other hsub hi

structure SignalAfter (s : JobSystem α) (i : ℕ) (w : Worker α) : Prop where
  count : (w.pendingTaskCount.toNat + s.submitting i SubmitStage.uncounted) % 2 ^ 64 = (s.workers i).queued % 2 ^ 64
  mutex : s.submitting i SubmitStage.holdsMutex + w.holdsMutex.toNat = w.locked.toNat
  blocking : w.pc = .blocking → w.pendingTaskCount = 0
  waiting : w.pc = .waiting → w.pendingTaskCount ≠ 0 → 0 < s.submitting i SubmitStage.unnotified

theorem holdsMutex_popFront {w : Worker α} {kind : QueueKind} {stage : PopStage (Job α)}
    (hpc : w.pc = .polling kind stage) (b c : Bool) : (w.step b c).pendingTaskCount = w.pendingTaskCount ∧
      (w.step b c).locked = w.locked ∧ (w.step b c).holdsMutex = false ∧ (w.step b c).pc ≠ .blocking ∧
      (w.step b c).pc ≠ .waiting := by
  unfold Worker.step
  simp only [hpc]
  generalize (w.queues kind).tryPopFront stage = r
  obtain ⟨q, stage' | entry⟩ := r
  · simp [Worker.holdsMutex, Worker.setQueue]
  · cases entry with
    | some job => simp [Worker.holdsMutex, Worker.setQueue]
    | none =>
      cases kind.next with
      | some kind => simp [Worker.holdsMutex, Worker.setQueue]
      | none => cases c <;> simp [Worker.holdsMutex, Worker.setQueue]

theorem SignalOk.step {i : ℕ} (h : s.SignalOk i) (b c : Bool) : SignalAfter s i ((s.workers i).step b c) := by
  obtain ⟨hcount, hmutex, hblocking, hwaiting⟩ := h
  have hlt := (s.workers i).pendingTaskCount.isLt
  have hle := Bool.toNat_le (s.workers i).locked
  cases hpc : (s.workers i).pc with
  | popped job =>
    rw [Worker.held_of_popped hpc] at hcount
    unfold Worker.step
    simp only [hpc]
    refine ⟨?_, ?_, (fun hpc' => by cases hpc'), (fun hpc' => by cases hpc')⟩
    · rw [BitVec.toNat_sub]
      show ((2 ^ 64 - 1 + (s.workers i).pendingTaskCount.toNat) % 2 ^ 64 + _) % _ = _
      omega
    · rw [← hmutex]
      unfold Worker.holdsMutex
      rw [hpc]
  | polling kind stage =>
    rw [Worker.held_of_not_popped (by rw [hpc]; intro _ h; cases h)] at hcount
    obtain ⟨h1, h2, h3, h4, h5⟩ := holdsMutex_popFront hpc b c
    refine ⟨by rw [h1]; exact hcount, ?_, fun hpc' => absurd hpc' h4, fun hpc' => absurd hpc' h5⟩
    rw [h2, h3, ← hmutex]
    unfold Worker.holdsMutex
    rw [hpc]
  | loop =>
    rw [Worker.held_of_not_popped (by rw [hpc]; intro _ h; cases h)] at hcount
    unfold Worker.holdsMutex at hmutex
    rw [hpc] at hmutex
    unfold Worker.step
    simp only [hpc]
    cases b
    · exact ⟨hcount, hmutex, (fun hpc' => by cases hpc'), (fun hpc' => by cases hpc')⟩
    · exact ⟨hcount, hmutex, (fun hpc' => by cases hpc'), (fun hpc' => by cases hpc')⟩
  | running job =>
    rw [Worker.held_of_not_popped (by rw [hpc]; intro _ h; cases h)] at hcount
    unfold Worker.holdsMutex at hmutex
    rw [hpc] at hmutex
    unfold Worker.step
    simp only [hpc]
    exact ⟨hcount, hmutex, (fun hpc' => by cases hpc'), (fun hpc' => by cases hpc')⟩
  | locking =>
    rw [Worker.held_of_not_popped (by rw [hpc]; intro _ h; cases h)] at hcount
    unfold Worker.step
    simp only [hpc]
    cases hfree : (s.workers i).locked with
    | true =>
      rw [if_pos rfl]
      refine ⟨hcount, hmutex, (fun hpc' => by rw [hpc] at hpc'; cases hpc'), (fun hpc' => by rw [hpc] at hpc'; cases hpc')⟩
    | false =>
      unfold Worker.holdsMutex at hmutex
      rw [hpc, hfree] at hmutex
      refine ⟨hcount, ?_, (fun hpc' => by cases hpc'), (fun hpc' => by cases hpc')⟩
      show s.submitting i SubmitStage.holdsMutex + 1 = 1
      exact congrArg (· + 1) hmutex
  | predicate =>
    rw [Worker.held_of_not_popped (by rw [hpc]; intro _ h; cases h)] at hcount
    unfold Worker.holdsMutex at hmutex
    rw [hpc] at hmutex
    simp only [Bool.toNat_true] at hmutex
    unfold Worker.step
    simp only [hpc]
    cases hgo : (!b || decide ((s.workers i).pendingTaskCount ≠ 0)) with
    | true =>
      rw [if_pos rfl]
      refine ⟨hcount, ?_, (fun hpc' => by cases hpc'), (fun hpc' => by cases hpc')⟩
      show s.submitting i SubmitStage.holdsMutex + 0 = 0
      omega
    | false =>
      rw [if_neg Bool.false_ne_true]
      refine ⟨hcount, hmutex, fun _ => ?_, (fun hpc' => by cases hpc')⟩
      rw [Bool.or_eq_false_iff, decide_eq_false_iff_not] at hgo
      exact not_not.mp hgo.2
  | blocking =>
    rw [Worker.held_of_not_popped (by rw [hpc]; intro _ h; cases h)] at hcount
    unfold Worker.holdsMutex at hmutex
    rw [hpc] at hmutex
    simp only [Bool.toNat_true] at hmutex
    unfold Worker.step
    simp only [hpc]
    refine ⟨hcount, ?_, (fun hpc' => by cases hpc'), fun _ hne => absurd (hblocking hpc) hne⟩
    show s.submitting i SubmitStage.holdsMutex + 0 = 0
    omega
  | waiting | stopped =>
    rw [Worker.held_of_not_popped (by rw [hpc]; intro _ h; cases h)] at hcount
    unfold Worker.step
    simp only [hpc]
    exact ⟨hcount, hmutex, hblocking, hwaiting⟩

theorem SignalOk.worker {i : ℕ} (hq : (s.workers i).QueuesOk) (h : s.SignalOk i) (b c : Bool) :
    (s.setWorker i ((s.workers i).step b c)).SignalOk i := by
  obtain ⟨hcount, hmutex, hblocking, hwaiting⟩ := h.step b c
  have hw := workers_setWorker_self s i ((s.workers i).step b c)
  refine ⟨?_, ?_, ?_, ?_⟩
  · rw [hw, Worker.held_step hq]
    exact hcount
  · rw [hw]
    exact hmutex
  · rw [hw]
    exact hblocking
  · rw [hw]
    exact hwaiting

theorem SignalOk.notify {i : ℕ} (hq : (s.workers i).QueuesOk) (h : s.SignalOk i) :
    (s.setWorker i (s.workers i).notify).SignalOk i := by
  obtain ⟨hcount, hmutex, hblocking, hwaiting⟩ := h
  obtain ⟨hn1, hn2, hn3, hn4, hn5⟩ := notify_signal (s.workers i)
  have hw := workers_setWorker_self s i (s.workers i).notify
  refine ⟨?_, ?_, ?_, ?_⟩
  · rw [hw, hn1, Worker.held_notify hq]
    exact hcount
  · rw [hw, hn2, hn3]
    exact hmutex
  · rw [hw, hn1]
    exact fun hpc => hblocking (hn4 hpc)
  · rw [hw]
    exact fun hpc => absurd hpc hn5

theorem SignalOk.next (hq : ∀ i, (s.workers i).QueuesOk) {i : ℕ} (h : s.SignalOk i) (a : JobAction α) :
    (s.next a).SignalOk i := by
  unfold JobSystem.next
  cases a with
  | submit job =>
    have happend : ∀ (s' : JobSystem α) index, s'.workers = s.workers → s'.submissions = s.submissions →
        ({ s' with submissions := s'.submissions ++ [⟨job, index, .chosen⟩] } : JobSystem α).SignalOk i := by
      intro s' index hworkers hsubs
      have hcounts : ∀ p : SubmitStage → Bool, p .chosen = false →
          ({ s' with submissions := s'.submissions ++ [⟨job, index, .chosen⟩] } : JobSystem α).submitting i p =
            s.submitting i p := by
        intro p hp
        unfold submitting
        simp only [List.countP_append, countP_one, hsubs, counts, hp, Bool.and_false, Bool.toNat_false, Nat.add_zero]
      obtain ⟨hcount, hmutex, hblocking, hwaiting⟩ := h
      refine ⟨?_, ?_, ?_, ?_⟩
      · rw [hcounts _ rfl]
        simp only [hworkers]
        exact hcount
      · rw [hcounts _ rfl]
        simp only [hworkers]
        exact hmutex
      · simp only [hworkers]
        exact hblocking
      · rw [hcounts _ rfl]
        simp only [hworkers]
        exact hwaiting
    simp only [internalAddJob]
    split
    · exact happend _ _ s.takeThreadIndex_same.1 s.takeThreadIndex_same.2
    · exact happend _ _ rfl rfl
  | submitter j => exact h.submitter hq j
  | worker j =>
    simp only
    split
    · by_cases hj : i = j
      · subst hj
        exact h.worker (hq i) _ _
      · exact h.of_same (workers_setWorker_other _ _ hj) fun _ => rfl
    · exact h
  | wake j =>
    by_cases hj : i = j
    · subst hj
      exact h.notify (hq i)
    · exact h.of_same (workers_setWorker_other _ _ hj) fun _ => rfl
  | shutDown => exact ⟨h.count, h.mutex, h.blocking, h.waiting⟩

/-- Every run of the job system has its history. -/
theorem exists_history (hr : (jobSystem α).Reachable s) : ∃ h, (jobHistory α).Reachable h ∧ h.system = s := by
  induction hr with
  | init hinit => exact ⟨⟨_, [], [], []⟩, .init ⟨hinit, rfl, rfl, rfl⟩, rfl⟩
  | next _ _ ih =>
    obtain ⟨h, hr, rfl⟩ := ih
    exact ⟨h.next _, .next hr trivial, rfl⟩

theorem reach_queuesOk (hr : (jobSystem α).Reachable s) (i : ℕ) : (s.workers i).QueuesOk := by
  obtain ⟨h, hreach, rfl⟩ := exists_history hr
  exact (JobHistory.reach_inOrder hreach).queues i

theorem reach_signalOk (hr : (jobSystem α).Reachable s) (i : ℕ) : s.SignalOk i := by
  induction hr with
  | init hinit =>
    obtain ⟨threadCount, bUseCVWait, rfl⟩ := hinit
    exact ⟨rfl, rfl, fun _ => rfl, fun hpc => by cases hpc⟩
  | next hr _ ih => exact ih.next (reach_queuesOk hr) _

/-- Some submitter for worker `i` is behind its push and has not notified. -/
def BetweenPushAndNotify (s : JobSystem α) (i : ℕ) : Prop :=
  ∃ sub ∈ s.submissions, sub.index = i ∧ sub.stage ≠ .chosen

theorem between_of_submitting {i : ℕ} {p : SubmitStage → Bool} (hp : p .chosen = false) (h : 0 < s.submitting i p) :
    s.BetweenPushAndNotify i := by
  obtain ⟨sub, hsub, hcounts⟩ := List.countP_pos_iff.mp h
  rw [Bool.and_eq_true, decide_eq_true_eq] at hcounts
  refine ⟨sub, hsub, hcounts.1, ?_⟩
  intro hchosen
  rw [hchosen, hp] at hcounts
  exact Bool.false_ne_true hcounts.2

/-- While a worker waits with a job in one of its queues, a submitter is on its way to notify it. -/
theorem no_lost_wakeup (hr : (jobSystem α).Reachable s) {i : ℕ} (hwait : (s.workers i).pc = .waiting) {k : QueueKind}
    (hjob : (s.workers i).inQueue k ≠ []) (hflight : (s.workers i).queued < 2 ^ 63) : s.BetweenPushAndNotify i := by
  obtain ⟨hcount, -, -, hwaiting⟩ := reach_signalOk hr i
  rw [Worker.held_of_not_popped (by rw [hwait]; intro _ h; cases h)] at hcount
  have hqueued : 0 < (s.workers i).queued := by
    have hlen := List.length_pos_iff.mpr hjob
    unfold Worker.queued
    cases k <;> omega
  have hlt := (s.workers i).pendingTaskCount.isLt
  by_cases hzero : (s.workers i).pendingTaskCount = 0
  · -- nothing queued is counted: a submitter has pushed and not counted
    refine between_of_submitting (p := SubmitStage.uncounted) rfl ?_
    rw [hzero] at hcount
    by_contra hnone
    rw [Nat.eq_zero_of_not_pos hnone] at hcount
    simp at hcount
    omega
  · exact between_of_submitting (p := SubmitStage.unnotified) rfl (hwaiting hwait hzero)

/-- The only worker looks into its four queues and waits; then a job is pushed, and not counted yet. -/
def waitingOne : JobSystem ℕ :=
  (jobSystem ℕ).runFrom (.start 1 true) (List.replicate 24 (.worker 0) ++ [.submit ⟨7, true, 0⟩, .submitter 0])

theorem reachable_start (threadCount : ℕ) (bUseCVWait : Bool) :
    (jobSystem α).Reachable (.start threadCount bUseCVWait) := .init ⟨threadCount, bUseCVWait, rfl⟩

theorem waitingOne_reachable : (jobSystem ℕ).Reachable waitingOne :=
  System.reachable_runFrom (reachable_start 1 true) _

theorem no_lost_wakeup_one : waitingOne.BetweenPushAndNotify 0 :=
  no_lost_wakeup (k := .localFunc) waitingOne_reachable (by decide +kernel)
    (by decide +kernel) (by decide +kernel)

end JobSystem

end RudpEngine

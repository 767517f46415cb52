import RudpEngine.PinnedJobs
import Mathlib.Data.List.Nodup

/-!
# A queue with several consumers

`SListQueue` has a critical section for its consumers: the one that finds the
second stack empty turns the first over while the others may still take from
the second. What is turned over comes newest first, so whoever takes an entry
before the last one is there takes it too early.
-/

namespace RudpEngine

/-- Where a consumer stands: at a step of `TryPopFront`, before its critical section, or about to leave it. -/
inductive ConsumerStage (α : Type)
  | idle
  | inside (stage : PopStage α)
  | entering
  | leaving (entry : Option α)
  deriving DecidableEq

def ConsumerStage.holds {α : Type} : ConsumerStage α → Bool
  | .inside .first | .idle | .entering => false
  | .inside _ | .leaving _ => true

def PopStage.isFlush {α : Type} : PopStage α → Bool
  | .flush => true
  | _ => false

/-- The queue, who is in the critical section, and what was pushed and taken. Entries carry the number of their push;
`flushedAt` is the number of pushes before the last `InterlockedFlushSList`. -/
structure QueueRun (α : Type) where
  queue : SListQueue (ℕ × α)
  critical : Option ℕ
  consumers : ℕ → ConsumerStage (ℕ × α)
  pushed : List (ℕ × α)
  taken : List (ℕ × α)
  flushedAt : ℕ

inductive QueueAction (α : Type)
  | pushBack (data : α)
  | step (consumer : ℕ)

namespace QueueRun

variable {α : Type}

def start : QueueRun α := ⟨.empty, none, fun _ => .idle, [], [], 0⟩

variable (s : QueueRun α)

def setConsumer (k : ℕ) (stage : ConsumerStage (ℕ × α)) : QueueRun α :=
  { s with consumers := fun i => if i = k then stage else s.consumers i }

def pushBack (data : α) : QueueRun α :=
  let entry := (s.pushed.length, data)
  { s with queue := s.queue.pushBack entry, pushed := s.pushed ++ [entry] }

def step (k : ℕ) : QueueRun α :=
  match s.consumers k with
  | .idle => s.setConsumer k (.inside .first)
  | .entering =>
    match s.critical with
    | some _ => s
    | none => { s with critical := some k }.setConsumer k (.inside .second)
  | .leaving _ => { s with critical := none }.setConsumer k .idle
  | .inside .first =>
    match s.queue.tryPopFront .first with
    | (queue, .inl _) => { s with queue := queue }.setConsumer k .entering
    | (queue, .inr entry) => { s with queue := queue, taken := s.taken ++ entry.toList }.setConsumer k .idle
  | .inside stage =>
    match s.queue.tryPopFront stage with
    | (queue, .inl next) =>
      { s with queue := queue, flushedAt := if stage.isFlush then s.pushed.length else s.flushedAt }.setConsumer k
        (.inside next)
    | (queue, .inr entry) => { s with queue := queue, taken := s.taken ++ entry.toList }.setConsumer k (.leaving entry)

def next : QueueAction α → QueueRun α
  | .pushBack data => s.pushBack data
  | .step k => s.step k

def holderStage : PopStage (ℕ × α) :=
  match s.critical with
  | none => .first
  | some k =>
    match s.consumers k with
    | .inside stage => stage
    | _ => .first

def held : List (ℕ × α) :=
  match s.holderStage with
  | .moving listHead => listHead
  | _ => []

def remaining : List (ℕ × α) := s.queue.content s.holderStage

/-- Nobody takes from the second stack while the first is being turned over. -/
def TakesInTurn : QueueAction α → Prop
  | .pushBack _ => True
  | .step k => s.consumers k = .inside .first → s.queue.popStack ≠ [] → s.held = []

end QueueRun

def queueRun (α : Type) : System (QueueRun α) (QueueAction α) where
  init s := s = .start
  next := QueueRun.next

namespace QueueRun

variable {α : Type} {s : QueueRun α}

theorem remaining_eq (s : QueueRun α) : s.remaining = s.held.reverse ++ (s.queue.popStack ++ s.queue.pushStack.reverse) := by
  unfold remaining held SListQueue.content
  split
  case h_1 listHead heq => simp [heq]
  case h_2 hne =>
    split
    case h_1 listHead heq => exact absurd heq (hne listHead)
    case h_2 => simp

structure Sound (s : QueueRun α) : Prop where
  holder : ∀ k, s.critical = some k ↔ (s.consumers k).holds
  stageOk : s.queue.StageOk s.holderStage
  numbered : s.pushed.map Prod.fst = List.range s.pushed.length
  content : s.pushed.Perm (s.taken ++ s.remaining)
  flushed : s.flushedAt ≤ s.pushed.length
  behind : (∃ listHead, s.holderStage = .moving listHead) ∨ s.holderStage = .third → ∀ e ∈ s.queue.pushStack, s.flushedAt ≤ e.1

theorem holderStage_of_holder {k : ℕ} {stage : PopStage (ℕ × α)} (hcritical : s.critical = some k)
    (hk : s.consumers k = .inside stage) : s.holderStage = stage := by
  unfold holderStage
  simp only [hcritical, hk]

theorem holderStage_of_leaving {k : ℕ} {entry : Option (ℕ × α)} (hcritical : s.critical = some k)
    (hk : s.consumers k = .leaving entry) : s.holderStage = .first := by
  unfold holderStage
  simp only [hcritical, hk]

theorem holderStage_setConsumer {k : ℕ} (hk : s.critical ≠ some k) (stage : ConsumerStage (ℕ × α)) :
    (s.setConsumer k stage).holderStage = s.holderStage := by
  unfold holderStage setConsumer
  cases hcritical : s.critical with
  | none => rfl
  | some i =>
    have hne : i ≠ k := fun hik => hk (hcritical.trans (congrArg some hik))
    simp only [if_neg hne]

theorem consumers_setConsumer_self (s : QueueRun α) (k : ℕ) (stage : ConsumerStage (ℕ × α)) :
    (s.setConsumer k stage).consumers k = stage := if_pos rfl

/-- The consumer keeps out of the critical section, or stays in it. -/
theorem Sound.holder_setConsumer (h : s.Sound) (k : ℕ) (stage : ConsumerStage (ℕ × α))
    (hstage : stage.holds = (s.consumers k).holds) (i : ℕ) :
    s.critical = some i ↔ ((s.setConsumer k stage).consumers i).holds := by
  rw [h.holder]
  by_cases hik : i = k
  · subst hik
    rw [consumers_setConsumer_self, hstage]
  · show _ ↔ (if i = k then stage else s.consumers i).holds
    rw [if_neg hik]

theorem Sound.pushBack (h : s.Sound) (data : α) : (s.pushBack data).Sound := by
  have hstage : (s.pushBack data).holderStage = s.holderStage := rfl
  have hremaining : (s.pushBack data).remaining = s.remaining ++ [(s.pushed.length, data)] := by
    unfold remaining
    rw [hstage]
    exact SListQueue.content_pushBack _ _ _
  constructor
  · exact h.holder
  · exact h.stageOk.pushBack _
  · show (s.pushed ++ [(s.pushed.length, data)]).map Prod.fst = List.range (s.pushed ++ [(s.pushed.length, data)]).length
    simp [List.range_succ, h.numbered]
  · rw [hremaining, ← List.append_assoc]
    exact h.content.append_right _
  · show s.flushedAt ≤ (s.pushed ++ [(s.pushed.length, data)]).length
    rw [List.length_append]
    exact Nat.le_add_right_of_le h.flushed
  · intro hbehind e he
    rcases List.mem_cons.mp he with rfl | he
    · exact h.flushed
    · exact h.behind hbehind e he

/-! ## What a step of a consumer takes -/

/-- It takes nothing, or the oldest entry, or the next of the second stack while older ones are being turned over. -/
inductive Takes (s t : QueueRun α) (k : ℕ) : Prop
  | nothing : t.taken = s.taken → t.remaining = s.remaining → Takes s t k
  | oldest (e : ℕ × α) : t.taken = s.taken ++ [e] → s.remaining = e :: t.remaining → Takes s t k
  | overtaking (e : ℕ × α) (rest : List (ℕ × α)) : s.consumers k = .inside .first → s.held ≠ [] → s.queue.popStack = e :: rest →
      t.taken = s.taken ++ [e] → t.remaining = s.held.reverse ++ (rest ++ s.queue.pushStack.reverse) → Takes s t k

theorem Takes.content {t : QueueRun α} {k : ℕ} (h : s.pushed.Perm (s.taken ++ s.remaining)) (htakes : Takes s t k) :
    s.pushed.Perm (t.taken ++ t.remaining) := by
  cases htakes with
  | nothing htaken hremaining => rwa [htaken, hremaining]
  | oldest e htaken hremaining =>
    rw [htaken, List.append_assoc]
    rwa [hremaining] at h
  | overtaking e rest _ _ hpop htaken hremaining =>
    refine h.trans ?_
    rw [htaken, hremaining, remaining_eq, hpop, List.append_assoc]
    exact List.Perm.append_left _ List.perm_middle

theorem Sound.outside (h : s.Sound) {k : ℕ} (hk : s.consumers k = .inside .first) :
    (s.step k).Sound ∧ Takes s (s.step k) k := by
  have hnot : s.critical ≠ some k := by
    intro hcritical
    have := (h.holder k).mp hcritical
    rw [hk] at this
    cases this
  unfold QueueRun.step
  simp only [hk]
  cases hpop : s.queue.popStack with
  | nil =>
    have hnull : s.queue.tryPopFront .first = (s.queue, .inl .second) := by
      unfold SListQueue.tryPopFront SListQueue.popEntry
      rw [hpop]
    rw [hnull]
    have hstage := holderStage_setConsumer hnot (.entering : ConsumerStage (ℕ × α))
    have hsame : (s.setConsumer k .entering).remaining = s.remaining := by
      unfold remaining
      rw [hstage]
      rfl
    refine ⟨?_, .nothing rfl hsame⟩
    refine ⟨h.holder_setConsumer k _ (by rw [hk]; rfl), ?_, h.numbered, ?_, h.flushed, ?_⟩
    · exact hstage ▸ h.stageOk
    · rw [hsame]
      exact h.content
    · exact hstage ▸ h.behind
  | cons e rest =>
    have htake : s.queue.tryPopFront .first = ({ s.queue with popStack := rest }, .inr (some e)) := by
      unfold SListQueue.tryPopFront SListQueue.popEntry
      rw [hpop]
    rw [htake]
    simp only [Option.toList]
    generalize ht : ({ s with queue := { s.queue with popStack := rest }, taken := s.taken ++ [e] } : QueueRun α) = t
    have hcritical : t.critical = s.critical := by rw [← ht]
    have hstage : (t.setConsumer k .idle).holderStage = s.holderStage := by
      rw [holderStage_setConsumer (hcritical ▸ hnot), ← ht]
      rfl
    have hheld : (t.setConsumer k .idle).held = s.held := by
      unfold held
      rw [hstage]
    have hremaining : (t.setConsumer k .idle).remaining = s.held.reverse ++ (rest ++ s.queue.pushStack.reverse) := by
      rw [remaining_eq, hheld, ← ht]
      rfl
    have htaken : (t.setConsumer k .idle).taken = s.taken ++ [e] := by
      rw [← ht]
      rfl
    have htakes : Takes s (t.setConsumer k .idle) k := by
      by_cases hempty : s.held = []
      · apply Takes.oldest e htaken
        rw [hremaining, remaining_eq, hempty, hpop]
        rfl
      · exact .overtaking e rest hk hempty hpop htaken hremaining
    refine ⟨⟨?_, ?_, ?_, ?_, ?_, ?_⟩, htakes⟩
    · have hholder := h.holder_setConsumer k .idle (by rw [hk]; rfl)
      rw [← ht]
      exact hholder
    · have hok := h.stageOk
      rw [hstage]
      cases hs : s.holderStage <;> rw [hs] at hok
      case flush =>
        have hok : s.queue.popStack = [] := hok
        rw [hpop] at hok
        cases hok
      all_goals trivial
    · rw [← ht]
      exact h.numbered
    · have hperm := htakes.content h.content
      rw [← ht] at hperm ⊢
      exact hperm
    · rw [← ht]
      exact h.flushed
    · rw [hstage, ← ht]
      exact h.behind

theorem Sound.goesOn (h : s.Sound) {k : ℕ} (hcritical : s.critical = some k) {queue : SListQueue (ℕ × α)}
    {stage : PopStage (ℕ × α)} {flushedAt : ℕ} (hholds : (ConsumerStage.inside stage).holds) (hok : queue.StageOk stage)
    (hcontent : queue.content stage = s.remaining) (hflushed : flushedAt ≤ s.pushed.length)
    (hbehind : (∃ listHead, stage = .moving listHead) ∨ stage = .third → ∀ e ∈ queue.pushStack, flushedAt ≤ e.1) :
    ({ s with queue := queue, flushedAt := flushedAt }.setConsumer k (.inside stage)).Sound ∧
      Takes s ({ s with queue := queue, flushedAt := flushedAt }.setConsumer k (.inside stage)) k := by
  generalize ht : ({ s with queue := queue, flushedAt := flushedAt } : QueueRun α) = t
  have hstage : (t.setConsumer k (.inside stage)).holderStage = stage := by
    refine holderStage_of_holder (k := k) ?_ (consumers_setConsumer_self _ _ _)
    rw [← ht]
    exact hcritical
  have hremaining : (t.setConsumer k (.inside stage)).remaining = s.remaining := by
    unfold remaining
    rw [hstage, ← ht]
    exact hcontent
  have htakes : Takes s (t.setConsumer k (.inside stage)) k := .nothing (by rw [← ht]; rfl) hremaining
  refine ⟨⟨?_, ?_, ?_, ?_, ?_, ?_⟩, htakes⟩
  · have hholder := h.holder_setConsumer k (.inside stage) (hholds.trans ((h.holder k).mp hcritical).symm)
    rw [← ht]
    exact hholder
  · rw [hstage, ← ht]
    exact hok
  · rw [← ht]
    exact h.numbered
  · have hperm := htakes.content h.content
    rw [← ht] at hperm ⊢
    exact hperm
  · rw [← ht]
    exact hflushed
  · rw [hstage, ← ht]
    exact hbehind

theorem Sound.takesOut (h : s.Sound) {k : ℕ} (hcritical : s.critical = some k) {queue : SListQueue (ℕ × α)}
    {entry : Option (ℕ × α)} (hcontent : s.remaining = entry.toList ++ queue.content .first) :
    ({ s with queue := queue, taken := s.taken ++ entry.toList }.setConsumer k (.leaving entry)).Sound ∧
      Takes s ({ s with queue := queue, taken := s.taken ++ entry.toList }.setConsumer k (.leaving entry)) k := by
  generalize ht : ({ s with queue := queue, taken := s.taken ++ entry.toList } : QueueRun α) = t
  have hstage : (t.setConsumer k (.leaving entry)).holderStage = .first := by
    refine holderStage_of_leaving (k := k) ?_ (consumers_setConsumer_self _ _ _)
    rw [← ht]
    exact hcritical
  have hremaining : s.remaining = entry.toList ++ (t.setConsumer k (.leaving entry)).remaining := by
    rw [hcontent]
    unfold remaining
    rw [hstage, ← ht]
    rfl
  have htaken : (t.setConsumer k (.leaving entry)).taken = s.taken ++ entry.toList := by
    rw [← ht]
    rfl
  have htakes : Takes s (t.setConsumer k (.leaving entry)) k := by
    cases entry with
    | none => exact .nothing (htaken.trans (List.append_nil _)) hremaining.symm
    | some e => exact .oldest e htaken hremaining
  refine ⟨⟨?_, ?_, ?_, ?_, ?_, ?_⟩, htakes⟩
  · have hholder := h.holder_setConsumer k (.leaving entry) ((h.holder k).mp hcritical).symm
    rw [← ht]
    exact hholder
  · rw [hstage]
    trivial
  · rw [← ht]
    exact h.numbered
  · have hperm := htakes.content h.content
    rw [← ht] at hperm ⊢
    exact hperm
  · rw [← ht]
    exact h.flushed
  · rw [hstage]
    simp

theorem Sound.holding (h : s.Sound) {k : ℕ} {stage : PopStage (ℕ × α)} (hk : s.consumers k = .inside stage)
    (hholds : (ConsumerStage.inside stage).holds) : (s.step k).Sound ∧ Takes s (s.step k) k := by
  have hcritical : s.critical = some k := (h.holder k).mpr (by rw [hk]; exact hholds)
  have hstage := holderStage_of_holder hcritical hk
  have hok := h.stageOk
  rw [hstage] at hok
  have hremaining : s.queue.content stage = s.remaining := by
    unfold remaining
    rw [hstage]
  have hpop := SListQueue.tryPopFront_content hok
  unfold QueueRun.step
  cases stage with
  | first => cases hholds
  | second =>
    simp only [hk]
    cases hresult : s.queue.tryPopFront .second with
    | mk queue next =>
      rw [hresult] at hpop
      cases next with
      | inl next =>
        have hnext : next = .flush := by
          unfold SListQueue.tryPopFront SListQueue.popEntry at hresult
          cases hp : s.queue.popStack <;> rw [hp] at hresult <;> simp_all
        subst hnext
        exact h.goesOn hcritical rfl hpop.1 (hpop.2.symm.trans hremaining) h.flushed (by simp)
      | inr entry => exact h.takesOut hcritical (hremaining.symm.trans hpop)
  | flush =>
    simp only [hk]
    exact h.goesOn hcritical rfl hpop.1 (hpop.2.symm.trans hremaining) (Nat.le_refl _) (by simp)
  | moving listHead =>
    simp only [hk]
    have hbehind := h.behind (.inl ⟨listHead, hstage⟩)
    cases listHead with
    | nil => exact h.goesOn hcritical rfl hpop.1 (hpop.2.symm.trans hremaining) h.flushed fun _ => hbehind
    | cons e listHead => exact h.goesOn hcritical rfl hpop.1 (hpop.2.symm.trans hremaining) h.flushed fun _ => hbehind
  | third =>
    simp only [hk]
    cases hresult : s.queue.tryPopFront .third with
    | mk queue next =>
      rw [hresult] at hpop
      cases next with
      | inl next =>
        unfold SListQueue.tryPopFront SListQueue.popEntry at hresult
        cases hp : s.queue.popStack <;> rw [hp] at hresult <;> simp_all
      | inr entry => exact h.takesOut hcritical (hremaining.symm.trans hpop)

theorem step_pushed (s : QueueRun α) (k : ℕ) : (s.step k).pushed = s.pushed := by
  unfold QueueRun.step
  repeat' split
  all_goals rfl

theorem Sound.step (h : s.Sound) (k : ℕ) : (s.step k).Sound ∧ Takes s (s.step k) k := by
  cases hk : s.consumers k with
  | idle =>
    have hnot : s.critical ≠ some k := by
      intro hcritical
      have := (h.holder k).mp hcritical
      rw [hk] at this
      cases this
    have hstage := holderStage_setConsumer hnot (.inside .first)
    have hsame : (s.setConsumer k (.inside .first)).remaining = s.remaining := by
      unfold remaining
      rw [hstage]
      rfl
    unfold QueueRun.step
    simp only [hk]
    refine ⟨⟨h.holder_setConsumer k _ (by rw [hk]; rfl), ?_, h.numbered, ?_, h.flushed, ?_⟩, .nothing rfl hsame⟩
    · exact hstage ▸ h.stageOk
    · rw [hsame]
      exact h.content
    · exact hstage ▸ h.behind
  | inside stage =>
    by_cases hholds : (ConsumerStage.inside stage).holds
    · exact h.holding hk hholds
    · have hfirst : stage = .first := by cases stage <;> simp_all [ConsumerStage.holds]
      exact h.outside (hfirst ▸ hk)
  | entering =>
    unfold QueueRun.step
    simp only [hk]
    cases hcritical : s.critical with
    | some i => exact ⟨h, .nothing rfl rfl⟩
    | none =>
      have hnone : s.holderStage = .first := by
        unfold holderStage
        rw [hcritical]
      generalize ht : ({ s with critical := some k } : QueueRun α) = t
      have hstage : (t.setConsumer k (.inside .second)).holderStage = .second :=
        holderStage_of_holder (k := k) (by rw [← ht]; rfl) (consumers_setConsumer_self _ _ _)
      have hsame : (t.setConsumer k (.inside .second)).remaining = s.remaining := by
        unfold remaining
        rw [hstage, hnone, ← ht]
        rfl
      refine ⟨⟨?_, ?_, ?_, ?_, ?_, ?_⟩, .nothing (by rw [← ht]; rfl) hsame⟩
      · intro i
        rw [← ht]
        show some k = some i ↔ (if i = k then ConsumerStage.inside .second else s.consumers i).holds
        by_cases hik : i = k
        · rw [if_pos hik, hik]
          simp [ConsumerStage.holds]
        · -- nobody was in it
          rw [if_neg hik, ← h.holder, hcritical]
          simp [Ne.symm hik]
      · rw [hstage]
        trivial
      · rw [← ht]
        exact h.numbered
      · rw [hsame, ← ht]
        exact h.content
      · rw [← ht]
        exact h.flushed
      · rw [hstage]
        simp
  | leaving entry =>
    have hcritical : s.critical = some k := (h.holder k).mpr (by rw [hk]; rfl)
    have hfirst := holderStage_of_leaving hcritical hk
    unfold QueueRun.step
    simp only [hk]
    have hstage : ({ s with critical := none }.setConsumer k .idle : QueueRun α).holderStage = .first := rfl
    have hsame : ({ s with critical := none }.setConsumer k .idle : QueueRun α).remaining = s.remaining := by
      unfold remaining
      rw [hstage, hfirst]
      rfl
    refine ⟨⟨?_, ?_, h.numbered, ?_, h.flushed, ?_⟩, .nothing rfl hsame⟩
    · intro i
      show none = some i ↔ (if i = k then ConsumerStage.idle else s.consumers i).holds
      by_cases hik : i = k
      · rw [if_pos hik]
        simp [ConsumerStage.holds]
      · rw [if_neg hik, ← h.holder, hcritical]
        simp [Ne.symm hik]
    · rw [hstage]
      trivial
    · rw [hsame]
      exact h.content
    · rw [hstage]
      simp

theorem sound_start : (start : QueueRun α).Sound := by
  constructor <;> simp [start, holderStage, remaining, SListQueue.empty, SListQueue.content, SListQueue.StageOk,
    ConsumerStage.holds]

theorem Sound.next (h : s.Sound) (a : QueueAction α) : (s.next a).Sound := by
  cases a with
  | pushBack data => exact h.pushBack data
  | step k => exact (h.step k).1

theorem Sound.nodup (h : s.Sound) : s.pushed.Nodup := by
  apply List.Nodup.of_map Prod.fst
  rw [h.numbered]
  exact List.nodup_range

/-! ## Nothing is lost -/

/-- In every run each entry is taken once or still to be taken; and a consumer that finds no entry at its last look leaves
only entries that were pushed since it turned the stack over. -/
theorem entries_conserved (h : (queueRun α).Reachable s) : s.pushed.Perm (s.taken ++ s.remaining) ∧ s.pushed.Nodup ∧
    ∀ k, s.consumers k = .inside .third → s.queue.popStack = [] → ∀ e ∈ s.pushed, e.1 < s.flushedAt → e ∈ s.taken := by
  have hsound : s.Sound := by
    apply h.invariant
    · intro s hs
      obtain rfl : s = start := hs
      exact sound_start
    · intro s a hI _
      exact hI.next a
  refine ⟨hsound.content, hsound.nodup, ?_⟩
  · intro k hk hempty e he hlt
    have hcritical : s.critical = some k := (hsound.holder k).mpr (by rw [hk]; rfl)
    have hstage := holderStage_of_holder hcritical hk
    rcases List.mem_append.mp (hsound.content.mem_iff.mp he) with htaken | hleft
    · exact htaken
    · have hleft : e ∈ s.queue.pushStack := by
        unfold remaining at hleft
        rw [hstage] at hleft
        simpa [SListQueue.content, hempty] using hleft
      exact absurd (hsound.behind (.inr hstage) e hleft) (Nat.not_le.mpr hlt)

/-- A consumer takes the one entry, and another comes behind it. -/
def emptied : QueueRun ℕ :=
  (queueRun ℕ).runFrom .start ((.pushBack 7 :: List.replicate 9 (.step 0)) ++ List.replicate 6 (.step 1))

theorem entries_conserved_emptied : emptied.pushed.Perm (emptied.taken ++ emptied.remaining) ∧ (0, 7) ∈ emptied.taken := by
  have hstart : (queueRun ℕ).Reachable .start := .init rfl
  have hreach : (queueRun ℕ).Reachable emptied := System.reachable_runFrom hstart _
  have h := entries_conserved hreach
  exact ⟨h.1, h.2.2 1 (by decide) (by decide) (0, 7) (by decide) (by decide)⟩

/-! ## The order -/

def InOrder (s : QueueRun α) : Prop := s.taken <+: s.pushed

theorem step_of_first {k : ℕ} {e : ℕ × α} {rest : List (ℕ × α)} (hk : s.consumers k = .inside .first)
    (hpop : s.queue.popStack = e :: rest) : (s.step k).taken = s.taken ++ [e] := by
  unfold QueueRun.step
  simp only [hk, SListQueue.tryPopFront, SListQueue.popEntry, hpop]
  rfl

/-- The consumers take the entries in the order of their pushes exactly as long as nobody takes from the second stack while
another is turning the first over. -/
theorem taken_in_order_iff (as : List (QueueAction α)) :
    (∀ n, ((queueRun α).runFrom .start (as.take n)).InOrder) ↔
      ∀ n a, as[n]? = some a → ((queueRun α).runFrom .start (as.take n)).TakesInTurn a := by
  apply System.runFrom_good_iff (I := fun s => s.Sound ∧ s.pushed = s.taken ++ s.remaining)
  · intro s hI
    exact ⟨s.remaining, hI.2.symm⟩
  · intro s a hI hok
    obtain ⟨hsound, hcontent⟩ := hI
    refine ⟨hsound.next a, ?_⟩
    cases a with
    | pushBack data =>
      show s.pushed ++ [(s.pushed.length, data)] = s.taken ++ (s.pushBack data).remaining
      have hremaining : (s.pushBack data).remaining = s.remaining ++ [(s.pushed.length, data)] :=
        SListQueue.content_pushBack _ _ _
      rw [hremaining, ← List.append_assoc, ← hcontent]
    | step k =>
      show (s.step k).pushed = (s.step k).taken ++ (s.step k).remaining
      rw [step_pushed]
      cases (hsound.step k).2 with
      | nothing htaken hremaining => rw [htaken, hremaining, hcontent]
      | oldest e htaken hremaining => rw [htaken, hcontent, hremaining, List.append_assoc, List.singleton_append]
      | overtaking e rest hk hheld hpop _ _ => exact absurd (hok hk (by simp [hpop])) hheld
  · intro s a hI hnot hgood
    obtain ⟨hsound, hcontent⟩ := hI
    cases a with
    | pushBack data => exact hnot trivial
    | step k =>
      simp only [TakesInTurn, Classical.not_imp] at hnot
      obtain ⟨hk, hne, hheld⟩ := hnot
      obtain ⟨e, rest, hpop⟩ := List.exists_cons_of_ne_nil hne
      obtain ⟨first, older, hfirst⟩ := List.exists_cons_of_ne_nil (mt List.reverse_eq_nil_iff.mp hheld)
      have hprefix : (s.step k).taken <+: (s.step k).pushed := hgood
      rw [step_pushed, step_of_first hk hpop, hcontent, remaining_eq, hfirst, hpop, List.cons_append,
        List.prefix_append_right_inj, List.cons_prefix_cons] at hprefix
      -- the entry that is taken is still behind the oldest one
      have hnodup := hsound.nodup
      rw [hcontent, remaining_eq, hfirst, hpop, hprefix.1] at hnodup
      have hrest := (List.nodup_append.mp hnodup).2.1
      rw [List.cons_append, List.nodup_cons] at hrest
      exact hrest.1 (by simp)
  · exact ⟨sound_start, rfl⟩

/-- The second entry, taken while the first is still being turned over. -/
example : ((queueRun ℕ).runFrom .start
    ([.pushBack 1, .pushBack 2] ++ List.replicate 6 (.step 0) ++ [.step 1, .step 1])).taken = [(1, 2)] := by decide

end QueueRun

end RudpEngine

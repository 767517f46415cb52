import RudpEngine.Run
import Mathlib.Data.List.Nodup
import Mathlib.Data.List.Perm.Basic
import Mathlib.Logic.Function.Basic

/-!
# The telemetry of a run

`Emit` keeps the last lines for viewers to come and queues a line for those who
are there. `AcceptLoop` enters a viewer first and then replays what was kept, so
no line falls between the two; a line can come both ways. Any number of threads
emit, one accepts, one writes, and each viewer has a reader that removes it.
Each step here is what happens under one lock, or one access to the queue or to
`bHasSubscribers`, between a `Start` and its `Stop`; a load sees the last store,
and the queue hands over in order to its one consumer. A reader knows its viewer
by the handle only, and the system gives closed handles out again.
-/

namespace RudpEngine

/-- A viewer by its socket. The lines that `AcceptLoop` gave to `send`, which does not look at the result, are apart from
those that `WriterLoop` sent. -/
structure Viewer where
  handle : ℕ
  closed : Bool
  /-- Whether its `ReaderLoop` runs. -/
  reading : Bool
  replayed : Option (List ℕ)
  written : List ℕ
  /-- How many lines there were when it was entered, and when they were replayed. -/
  enteredAt : ℕ
  replayedAt : ℕ

/-- A line is its number in the order in which the lines came into `RecentEvents`. -/
structure TelemetrySink where
  emitted : ℕ
  recentEvents : List ℕ
  /-- The lines in `Emit` behind `RecentMutex`, and whether `bHasSubscribers` was read. -/
  emitting : List (ℕ × Bool)
  emitQueue : List ℕ
  /-- What `WriterLoop` has popped. -/
  line : Option ℕ
  viewer : ℕ → Viewer
  accepted : ℕ
  /-- The viewers whose sockets are in the vector. -/
  clientSockets : List ℕ
  bHasSubscribers : Bool
  /-- The viewer that `AcceptLoop` is at. -/
  accepting : Option ℕ

inductive TelemetryAction
  | emit
  | loadSubscribers (k : ℕ)
  | pushBack (k : ℕ)
  | accept (handle : ℕ)
  | replay
  | tryPopFront
  | write (fails : List ℕ)
  | removeClient (viewer : ℕ)

namespace TelemetrySink

def recentEventCapacity : ℕ := 300

variable (s : TelemetrySink)

def start : TelemetrySink :=
  ⟨0, [], [], [], none, fun _ => ⟨0, true, false, none, [], 0, 0⟩, 0, [], false, none⟩

/-- `Emit` up to the end of its lock. -/
def emit : TelemetrySink :=
  let recentEvents := s.recentEvents ++ [s.emitted]
  { s with
    emitted := s.emitted + 1
    recentEvents := if recentEvents.length > recentEventCapacity then recentEvents.tail else recentEvents
    emitting := s.emitting ++ [(s.emitted, false)] }

def loadSubscribers (k : ℕ) : TelemetrySink :=
  match s.emitting[k]? with
  | some (line, false) =>
    if s.bHasSubscribers then { s with emitting := s.emitting.set k (line, true) }
    else { s with emitting := s.emitting.eraseIdx k }
  | _ => s

def pushBack (k : ℕ) : TelemetrySink :=
  match s.emitting[k]? with
  | some (line, true) => { s with emitting := s.emitting.eraseIdx k, emitQueue := s.emitQueue ++ [line] }
  | _ => s

/-- `AcceptLoop` up to the end of its first lock; the system gives a handle that is not open. -/
def accept (handle : ℕ) : TelemetrySink :=
  if s.accepting.isNone ∧ ∀ p ∈ s.clientSockets, (s.viewer p).handle ≠ handle then
    { s with
      viewer := Function.update s.viewer s.accepted ⟨handle, false, false, none, [], s.emitted, 0⟩
      accepted := s.accepted + 1
      clientSockets := s.clientSockets ++ [s.accepted]
      bHasSubscribers := true
      accepting := some s.accepted }
  else s

/-- The second lock of `AcceptLoop`; behind it the reader starts. -/
def replay : TelemetrySink :=
  match s.accepting with
  | none => s
  | some p =>
    { s with
      viewer := Function.update s.viewer p { s.viewer p with
        replayed := some s.recentEvents, replayedAt := s.emitted, reading := true }
      accepting := none }

def tryPopFront : TelemetrySink :=
  match s.line, s.emitQueue with
  | none, line :: emitQueue => { s with line := some line, emitQueue := emitQueue }
  | _, _ => s

/-- The lock of `WriterLoop`, with the viewers whose `send` fails. -/
def write (fails : List ℕ) : TelemetrySink :=
  match s.line with
  | none => s
  | some line =>
    let clientSockets := s.clientSockets.filter fun p => p ∉ fails
    { s with
      line := none
      viewer := fun p =>
        if p ∈ s.clientSockets then
          if p ∈ fails then { s.viewer p with closed := true }
          else { s.viewer p with written := (s.viewer p).written ++ [line] }
        else s.viewer p
      clientSockets := clientSockets
      bHasSubscribers := !clientSockets.isEmpty }

/-- `RemoveClient` of a reader: it goes by the handle. -/
def removeClient (p : ℕ) : TelemetrySink :=
  if (s.viewer p).reading then
    let clientSockets := s.clientSockets.filter fun q => (s.viewer q).handle ≠ (s.viewer p).handle
    { s with
      viewer := fun q =>
        { s.viewer q with
          closed := (s.viewer q).closed || (q ∈ s.clientSockets ∧ (s.viewer q).handle = (s.viewer p).handle)
          reading := (s.viewer q).reading && q ≠ p }
      clientSockets := clientSockets
      bHasSubscribers := !clientSockets.isEmpty }
  else s

def next : TelemetryAction → TelemetrySink
  | .emit => s.emit
  | .loadSubscribers k => s.loadSubscribers k
  | .pushBack k => s.pushBack k
  | .accept handle => s.accept handle
  | .replay => s.replay
  | .tryPopFront => s.tryPopFront
  | .write fails => s.write fails
  | .removeClient p => s.removeClient p

/-- A handle that was closed is not given out again before its reader is done. -/
def Fresh : TelemetryAction → Prop
  | .accept handle => ∀ p < s.accepted, (s.viewer p).reading = true → (s.viewer p).handle ≠ handle
  | _ => True

instance (a : TelemetryAction) : Decidable (s.Fresh a) := by
  cases a <;> unfold Fresh <;> infer_instance

end TelemetrySink

def telemetrySystem : System TelemetrySink TelemetryAction where
  init s := s = .start
  next := TelemetrySink.next

/-! ## What is kept -/

namespace TelemetrySink

def lastOf (n : ℕ) : List ℕ := (List.range n).drop (n - recentEventCapacity)

def pending (s : TelemetrySink) : List ℕ := s.emitting.map Prod.fst ++ s.emitQueue ++ s.line.toList

/-- A viewer has been sent each line since it was entered once, or will be. -/
structure Fed (s : TelemetrySink) (v : Viewer) (there : Prop) : Prop where
  enteredAt : v.enteredAt ≤ s.emitted
  replayedAt : v.replayedAt ≤ s.emitted
  replayed : ∀ lines, v.replayed = some lines → v.enteredAt ≤ v.replayedAt ∧ lines = lastOf v.replayedAt
  once : v.written.Nodup
  sent : ∀ e ∈ v.written, e < s.emitted ∧ e ∉ s.pending
  every : there → ∀ e, v.enteredAt ≤ e → e < s.emitted → e ∈ v.written ∨ e ∈ s.pending

structure Kept (s : TelemetrySink) : Prop where
  subscribers : s.bHasSubscribers = !s.clientSockets.isEmpty
  recentEvents : s.recentEvents = lastOf s.emitted
  nodup : s.pending.Nodup
  below : ∀ e ∈ s.pending, e < s.emitted
  accepted : ∀ p ∈ s.clientSockets, p < s.accepted
  fed : ∀ p, s.Fed (s.viewer p) (p ∈ s.clientSockets)

variable {s t : TelemetrySink} {p : ℕ} {v w : Viewer} {there there' : Prop}

theorem Fed.perm (h : s.Fed v there) (hemitted : t.emitted = s.emitted) (hperm : t.pending.Perm s.pending) : t.Fed v there := by
  refine ⟨hemitted ▸ h.enteredAt, hemitted ▸ h.replayedAt, h.replayed, h.once, ?_, ?_⟩
  · intro e he
    rw [hemitted, hperm.mem_iff]
    exact h.sent e he
  · intro hthere e
    rw [hemitted, hperm.mem_iff]
    exact h.every hthere e

structure SameViewers (s t : TelemetrySink) : Prop where
  viewer : t.viewer = s.viewer
  accepted : t.accepted = s.accepted
  clientSockets : t.clientSockets = s.clientSockets
  bHasSubscribers : t.bHasSubscribers = s.bHasSubscribers
  accepting : t.accepting = s.accepting

theorem sameViewers_emit : s.SameViewers s.emit := ⟨rfl, rfl, rfl, rfl, rfl⟩

theorem sameViewers_loadSubscribers (k : ℕ) : s.SameViewers (s.loadSubscribers k) := by
  unfold TelemetrySink.loadSubscribers
  split
  · split <;> exact ⟨rfl, rfl, rfl, rfl, rfl⟩
  · exact ⟨rfl, rfl, rfl, rfl, rfl⟩

theorem sameViewers_pushBack (k : ℕ) : s.SameViewers (s.pushBack k) := by
  unfold TelemetrySink.pushBack
  split <;> exact ⟨rfl, rfl, rfl, rfl, rfl⟩

theorem sameViewers_tryPopFront : s.SameViewers s.tryPopFront := by
  unfold TelemetrySink.tryPopFront
  split <;> exact ⟨rfl, rfl, rfl, rfl, rfl⟩

theorem Kept.perm (h : s.Kept) (hemitted : t.emitted = s.emitted) (hrecent : t.recentEvents = s.recentEvents)
    (hperm : t.pending.Perm s.pending) (hsame : s.SameViewers t) : t.Kept := by
  refine ⟨?_, ?_, hperm.nodup_iff.mpr h.nodup, ?_, ?_, ?_⟩
  · rw [hsame.bHasSubscribers, hsame.clientSockets]
    exact h.subscribers
  · rw [hrecent, hemitted]
    exact h.recentEvents
  · intro e he
    rw [hemitted]
    exact h.below e (hperm.mem_iff.mp he)
  · rw [hsame.clientSockets, hsame.accepted]
    exact h.accepted
  · intro p
    rw [hsame.viewer, hsame.clientSockets]
    exact (h.fed p).perm hemitted hperm

theorem lastOf_succ (n : ℕ) : (if (lastOf n ++ [n]).length > recentEventCapacity then (lastOf n ++ [n]).tail
    else lastOf n ++ [n]) = lastOf (n + 1) := by
  have hconcat : lastOf n ++ [n] = (List.range (n + 1)).drop (n - recentEventCapacity) := by
    rw [lastOf, List.range_succ, List.drop_append_of_le_length (by simp)]
  rw [hconcat, List.length_drop, List.length_range, List.tail_drop, lastOf]
  split
  case isTrue hover =>
    have hfrom : n - recentEventCapacity + 1 = n + 1 - recentEventCapacity := by omega
    rw [hfrom]
  case isFalse hroom =>
    have hfrom : n - recentEventCapacity = n + 1 - recentEventCapacity := by omega
    rw [hfrom]

theorem mem_lastOf {n e : ℕ} (hfrom : n - recentEventCapacity ≤ e) (hlt : e < n) : e ∈ lastOf n := by
  unfold lastOf
  rw [List.mem_drop_iff_getElem]
  refine ⟨e - (n - recentEventCapacity), ?_, ?_⟩
  · rw [List.length_range]
    omega
  · rw [List.getElem_range]
    omega

theorem nodup_lastOf (n : ℕ) : (lastOf n).Nodup := List.nodup_range.sublist (List.drop_sublist _ _)

theorem Kept.emit (h : s.Kept) : s.emit.Kept := by
  have hpending : s.emit.pending.Perm (s.emitted :: s.pending) := by
    simp only [TelemetrySink.emit, pending, List.map_append, List.map_cons, List.map_nil, List.append_assoc]
    exact List.perm_middle
  have hmem : ∀ e, e ∈ s.emit.pending ↔ e = s.emitted ∨ e ∈ s.pending := by
    intro e
    rw [hpending.mem_iff, List.mem_cons]
  have hnew : s.emitted ∉ s.pending := fun hin => Nat.lt_irrefl _ (h.below _ hin)
  refine ⟨h.subscribers, ?_, ?_, ?_, h.accepted, ?_⟩
  · show (if (s.recentEvents ++ [s.emitted]).length > recentEventCapacity then _ else _) = _
    rw [h.recentEvents]
    exact lastOf_succ s.emitted
  · rw [hpending.nodup_iff]
    exact List.nodup_cons.mpr ⟨hnew, h.nodup⟩
  · intro e he
    rcases (hmem e).mp he with rfl | he
    · exact Nat.lt_succ_self _
    · exact Nat.lt_succ_of_lt (h.below e he)
  · intro p
    have hfed := h.fed p
    refine ⟨Nat.le_succ_of_le hfed.enteredAt, Nat.le_succ_of_le hfed.replayedAt, hfed.replayed, hfed.once, ?_, ?_⟩
    · intro e he
      obtain ⟨hlt, hnot⟩ := hfed.sent e he
      refine ⟨Nat.lt_succ_of_lt hlt, ?_⟩
      intro hin
      rcases (hmem e).mp hin with rfl | hin
      · exact Nat.lt_irrefl _ hlt
      · exact hnot hin
    · intro hthere e hfrom hlt
      rcases Nat.lt_succ_iff_lt_or_eq.mp hlt with hlt | rfl
      · exact (hfed.every hthere e hfrom hlt).imp_right fun hin => (hmem e).mpr (.inr hin)
      · exact .inr ((hmem _).mpr (.inl rfl))

theorem Fed.gone (h : s.Fed v there) (hemitted : t.emitted = s.emitted) (hpending : ∀ e ∈ t.pending, e ∈ s.pending)
    (henteredAt : w.enteredAt = v.enteredAt) (hreplayedAt : w.replayedAt = v.replayedAt) (hreplayed : w.replayed = v.replayed)
    (hwritten : w.written = v.written) (hnot : ¬ there') : t.Fed w there' := by
  refine ⟨?_, ?_, ?_, hwritten ▸ h.once, ?_, fun hin => absurd hin hnot⟩
  · rw [henteredAt, hemitted]
    exact h.enteredAt
  · rw [hreplayedAt, hemitted]
    exact h.replayedAt
  · rw [hreplayed, henteredAt, hreplayedAt]
    exact h.replayed
  · rw [hwritten, hemitted]
    exact fun e he => ⟨(h.sent e he).1, fun hin => (h.sent e he).2 (hpending e hin)⟩

theorem Kept.forget (h : s.Kept) (hnobody : s.clientSockets = []) (hemitted : t.emitted = s.emitted)
    (hrecent : t.recentEvents = s.recentEvents) (hsub : t.pending.Sublist s.pending) (hsame : s.SameViewers t) : t.Kept := by
  refine ⟨?_, ?_, h.nodup.sublist hsub, ?_, ?_, ?_⟩
  · rw [hsame.bHasSubscribers, hsame.clientSockets]
    exact h.subscribers
  · rw [hrecent, hemitted]
    exact h.recentEvents
  · intro e he
    rw [hemitted]
    exact h.below e (hsub.subset he)
  · rw [hsame.clientSockets, hsame.accepted]
    exact h.accepted
  · intro p
    rw [hsame.viewer, hsame.clientSockets, hnobody]
    exact (h.fed p).gone hemitted (fun e he => hsub.subset he) rfl rfl rfl rfl List.not_mem_nil

theorem Kept.loadSubscribers (h : s.Kept) (k : ℕ) : (s.loadSubscribers k).Kept := by
  unfold TelemetrySink.loadSubscribers
  split
  case h_2 => exact h
  case h_1 line hk =>
    split
    case isTrue =>
      refine h.perm rfl rfl ?_ ⟨rfl, rfl, rfl, rfl, rfl⟩
      have hsame : (s.emitting.set k (line, true)).map Prod.fst = s.emitting.map Prod.fst := by
        rw [List.map_set]
        obtain ⟨hlt, heq⟩ := List.getElem?_eq_some_iff.mp hk
        apply List.ext_getElem?
        intro j
        rw [List.getElem?_set]
        by_cases hj : k = j
        · subst hj
          simp [hlt, heq]
        · simp [hj]
      simp only [pending, hsame]
      exact .refl _
    case isFalse hnone =>
      have hnobody : s.clientSockets = [] := by
        rw [h.subscribers] at hnone
        simpa using hnone
      refine h.forget hnobody rfl rfl ?_ ⟨rfl, rfl, rfl, rfl, rfl⟩
      simp only [pending]
      exact (((List.eraseIdx_sublist ..).map _).append_right _).append_right _

theorem Kept.pushBack (h : s.Kept) (k : ℕ) : (s.pushBack k).Kept := by
  unfold TelemetrySink.pushBack
  split
  case h_2 => exact h
  case h_1 line hk =>
    refine h.perm rfl rfl ?_ ⟨rfl, rfl, rfl, rfl, rfl⟩
    obtain ⟨hlt, heq⟩ := List.getElem?_eq_some_iff.mp hk
    have hperm : (s.emitting.map Prod.fst).Perm (line :: (s.emitting.eraseIdx k).map Prod.fst) := by
      have hout := (List.getElem_cons_eraseIdx_perm hlt).symm.map Prod.fst
      rw [heq] at hout
      exact hout
    simp only [pending, List.append_assoc, List.singleton_append]
    rw [← List.append_assoc]
    refine List.perm_middle.trans ?_
    rw [List.append_assoc]
    exact hperm.symm.append_right (s.emitQueue ++ s.line.toList)

theorem Fed.keep (h : s.Fed v there) (hemitted : t.emitted = s.emitted) (hpending : t.pending = s.pending)
    (henteredAt : w.enteredAt = v.enteredAt) (hreplayedAt : w.replayedAt = v.replayedAt) (hreplayed : w.replayed = v.replayed)
    (hwritten : w.written = v.written) (hthere : there' → there) : t.Fed w there' := by
  have hsame : t.Fed v there := h.perm hemitted (hpending ▸ .refl _)
  refine ⟨henteredAt ▸ hsame.enteredAt, hreplayedAt ▸ hsame.replayedAt, ?_, hwritten ▸ hsame.once, ?_, ?_⟩
  · rw [hreplayed, henteredAt, hreplayedAt]
    exact hsame.replayed
  · rw [hwritten]
    exact hsame.sent
  · rw [hwritten, henteredAt]
    exact fun hin => hsame.every (hthere hin)

theorem Kept.accept (h : s.Kept) (handle : ℕ) : (s.accept handle).Kept := by
  unfold TelemetrySink.accept
  split
  case isFalse => exact h
  case isTrue =>
    refine ⟨by simp, h.recentEvents, h.nodup, h.below, ?_, ?_⟩
    · intro q hq
      rcases List.mem_append.mp hq with hq | hq
      · exact Nat.lt_succ_of_lt (h.accepted q hq)
      · rw [List.mem_singleton.mp hq]
        exact Nat.lt_succ_self _
    · intro q
      by_cases hq : q = s.accepted
      · subst hq
        show Fed _ (Function.update s.viewer s.accepted _ s.accepted) _
        rw [Function.update_self]
        refine ⟨Nat.le_refl _, Nat.zero_le _, by simp, List.nodup_nil, by simp, ?_⟩
        exact fun _ e hfrom hlt => absurd hlt (Nat.not_lt.mpr hfrom)
      · show Fed _ (Function.update s.viewer s.accepted _ q) _
        rw [Function.update_of_ne hq]
        refine (h.fed q).keep rfl rfl rfl rfl rfl rfl ?_
        intro hin
        exact (List.mem_append.mp hin).resolve_right fun heq => hq (List.mem_singleton.mp heq)

theorem Kept.replay (h : s.Kept) : s.replay.Kept := by
  unfold TelemetrySink.replay
  split
  case h_1 => exact h
  case h_2 p _ =>
    refine ⟨h.subscribers, h.recentEvents, h.nodup, h.below, h.accepted, ?_⟩
    intro q
    by_cases hq : q = p
    · subst hq
      have hfed := h.fed q
      show Fed _ (Function.update s.viewer q _ q) _
      rw [Function.update_self]
      refine ⟨hfed.enteredAt, Nat.le_refl _, ?_, hfed.once, hfed.sent, hfed.every⟩
      intro lines hlines
      exact ⟨hfed.enteredAt, (Option.some.inj hlines).symm.trans h.recentEvents⟩
    · show Fed _ (Function.update s.viewer p _ q) _
      rw [Function.update_of_ne hq]
      exact (h.fed q).keep rfl rfl rfl rfl rfl rfl fun hin => hin

theorem Kept.tryPopFront (h : s.Kept) : s.tryPopFront.Kept := by
  unfold TelemetrySink.tryPopFront
  split
  case h_2 => exact h
  case h_1 line rest hline hqueue =>
    refine h.perm rfl rfl ?_ ⟨rfl, rfl, rfl, rfl, rfl⟩
    simp only [pending, hline, hqueue, Option.toList_some, Option.toList_none, List.append_nil, List.append_assoc]
    exact (List.perm_append_singleton line rest).append_left _

theorem Fed.send {line : ℕ} (h : s.Fed v there) (hthere : there) (hemitted : t.emitted = s.emitted)
    (hperm : s.pending.Perm (line :: t.pending)) (hnodup : s.pending.Nodup) (hlt : line < s.emitted) :
    t.Fed { v with written := v.written ++ [line] } there' := by
  have hnot : line ∉ t.pending := (List.nodup_cons.mp (hperm.nodup_iff.mp hnodup)).1
  refine ⟨hemitted ▸ h.enteredAt, hemitted ▸ h.replayedAt, h.replayed, ?_, ?_, ?_⟩
  · rw [List.nodup_append]
    refine ⟨h.once, List.nodup_singleton line, ?_⟩
    intro e he f hf heq
    rw [heq, List.mem_singleton.mp hf] at he
    exact (h.sent line he).2 (hperm.mem_iff.mpr List.mem_cons_self)
  · intro e he
    rw [hemitted]
    rcases List.mem_append.mp he with he | he
    · refine ⟨(h.sent e he).1, ?_⟩
      exact fun hin => (h.sent e he).2 (hperm.mem_iff.mpr (List.mem_cons_of_mem _ hin))
    · rw [List.mem_singleton.mp he]
      exact ⟨hlt, hnot⟩
  · intro _ e hfrom hbelow
    rw [hemitted] at hbelow
    rcases h.every hthere e hfrom hbelow with hsent | hin
    · exact .inl (List.mem_append_left _ hsent)
    · rcases List.mem_cons.mp (hperm.mem_iff.mp hin) with rfl | hin
      · exact .inl (List.mem_append_right _ (List.mem_singleton_self _))
      · exact .inr hin

theorem Kept.write (h : s.Kept) (fails : List ℕ) : (s.write fails).Kept := by
  cases hline : s.line with
  | none =>
    rw [TelemetrySink.write, hline]
    exact h
  | some line =>
    have hperm : s.pending.Perm (line :: (s.write fails).pending) := by
      simp only [TelemetrySink.write, pending, hline, Option.toList_some, Option.toList_none, List.append_nil]
      exact List.perm_append_singleton _ _
    have hless : ∀ e ∈ (s.write fails).pending, e ∈ s.pending := fun e he =>
      hperm.mem_iff.mpr (List.mem_cons_of_mem _ he)
    have hemitted : (s.write fails).emitted = s.emitted := by simp only [TelemetrySink.write, hline]
    have hrecent : (s.write fails).recentEvents = s.recentEvents := by simp only [TelemetrySink.write, hline]
    have haccepted : (s.write fails).accepted = s.accepted := by simp only [TelemetrySink.write, hline]
    have hsockets : (s.write fails).clientSockets = s.clientSockets.filter fun p => p ∉ fails := by
      simp only [TelemetrySink.write, hline]
    refine ⟨?_, ?_, (List.nodup_cons.mp (hperm.nodup_iff.mp h.nodup)).2, ?_, ?_, ?_⟩
    · simp only [TelemetrySink.write, hline]
    · rw [hrecent, hemitted]
      exact h.recentEvents
    · intro e he
      rw [hemitted]
      exact h.below e (hless e he)
    · intro q hq
      rw [hsockets] at hq
      rw [haccepted]
      exact h.accepted q (List.mem_filter.mp hq).1
    · intro q
      have hviewer : (s.write fails).viewer q = if q ∈ s.clientSockets then
          if q ∈ fails then { s.viewer q with closed := true }
          else { s.viewer q with written := (s.viewer q).written ++ [line] }
        else s.viewer q := by simp only [TelemetrySink.write, hline]
      rw [hviewer, hsockets]
      split
      case isTrue hin =>
        split
        case isTrue hfails => exact (h.fed q).gone hemitted hless rfl rfl rfl rfl (by simp [hfails])
        case isFalse =>
          exact (h.fed q).send hin hemitted hperm h.nodup (h.below line (hperm.mem_iff.mpr List.mem_cons_self))
      case isFalse hout => exact (h.fed q).gone hemitted hless rfl rfl rfl rfl (by simp [hout])

theorem Kept.removeClient (h : s.Kept) (p : ℕ) : (s.removeClient p).Kept := by
  unfold TelemetrySink.removeClient
  split
  case isFalse => exact h
  case isTrue =>
    refine ⟨rfl, h.recentEvents, h.nodup, h.below, fun q hq => h.accepted q (List.mem_filter.mp hq).1, ?_⟩
    exact fun q => (h.fed q).keep rfl rfl rfl rfl rfl rfl fun hin => (List.mem_filter.mp hin).1

theorem kept_start : start.Kept := by
  refine ⟨rfl, rfl, List.nodup_nil, by simp [pending, start], by simp [start], ?_⟩
  intro p
  exact ⟨Nat.le_refl _, Nat.le_refl _, by simp [start], List.nodup_nil, by simp [start], by simp [start]⟩

theorem Kept.next (h : s.Kept) (a : TelemetryAction) : (s.next a).Kept := by
  cases a with
  | emit => exact h.emit
  | loadSubscribers k => exact h.loadSubscribers k
  | pushBack k => exact h.pushBack k
  | accept handle => exact h.accept handle
  | replay => exact h.replay
  | tryPopFront => exact h.tryPopFront
  | write fails => exact h.write fails
  | removeClient p => exact h.removeClient p

theorem Kept.of_reach (h : telemetrySystem.Reachable s) : s.Kept := by
  apply h.invariant
  · intro s hs
    obtain rfl : s = start := hs
    exact kept_start
  · exact fun s a hk _ => hk.next a

/-- In every run a viewer that is there and has had its replay gets every line from the 300 last ones before the replay on:
it was replayed, it was written, or it is on its way to the writer. Neither way brings it twice. -/
theorem viewer_gets_every_line {lines : List ℕ} (h : telemetrySystem.Reachable s) (hp : p ∈ s.clientSockets)
    (hreplayed : (s.viewer p).replayed = some lines) : ∃ n, n ≤ s.emitted ∧ lines = lastOf n ∧
      (∀ e, n - recentEventCapacity ≤ e → e < s.emitted → e ∈ lines ∨ e ∈ (s.viewer p).written ∨ e ∈ s.pending) ∧
      lines.Nodup ∧ (s.viewer p).written.Nodup ∧ ∀ e ∈ (s.viewer p).written, e ∉ s.pending := by
  have hfed := (Kept.of_reach h).fed p
  obtain ⟨hentered, hlines⟩ := hfed.replayed lines hreplayed
  refine ⟨_, hfed.replayedAt, hlines, ?_, ?_, hfed.once, fun e he => (hfed.sent e he).2⟩
  · intro e hfrom hlt
    by_cases hearly : e < (s.viewer p).replayedAt
    · rw [hlines]
      exact .inl (mem_lastOf hfrom hearly)
    · exact .inr (hfed.every hp e (by omega) hlt)
  · rw [hlines]
    exact nodup_lastOf _

def bothWays : TelemetrySink :=
  telemetrySystem.runFrom start [.emit, .loadSubscribers 0, .accept 4, .emit, .loadSubscribers 0, .replay, .emit,
    .loadSubscribers 1, .pushBack 0, .tryPopFront, .write [], .pushBack 0]

theorem viewer_gets_every_line_bothWays : (bothWays.viewer 0).written = [1] ∧ bothWays.emitQueue = [2] ∧
    ∃ n, n ≤ bothWays.emitted ∧ [0, 1] = lastOf n ∧
      (∀ e, n - recentEventCapacity ≤ e → e < bothWays.emitted → e ∈ [0, 1] ∨ e ∈ (bothWays.viewer 0).written ∨
        e ∈ bothWays.pending) ∧
      [0, 1].Nodup ∧ (bothWays.viewer 0).written.Nodup ∧ ∀ e ∈ (bothWays.viewer 0).written, e ∉ bothWays.pending :=
  ⟨by decide +kernel, by decide +kernel, viewer_gets_every_line (System.reachable_runFrom (.init rfl) _) (by decide +kernel)
    (by decide +kernel)⟩

/-! ## Who removes a viewer -/

def Named (s : TelemetrySink) (p : ℕ) : Prop :=
  p ∈ s.clientSockets ∨ (s.viewer p).reading = true ∨ s.accepting = some p

structure HandlesApart (s : TelemetrySink) : Prop where
  below : ∀ p, s.Named p → p < s.accepted
  apart : ∀ p q, s.Named p → s.Named q → (s.viewer p).handle = (s.viewer q).handle → p = q

theorem HandlesApart.fewer (h : s.HandlesApart) (hnamed : ∀ p, t.Named p → s.Named p) (haccepted : t.accepted = s.accepted)
    (hhandle : ∀ p, (t.viewer p).handle = (s.viewer p).handle) : t.HandlesApart := by
  constructor
  · intro p hp
    rw [haccepted]
    exact h.below p (hnamed p hp)
  · intro p q hp hq heq
    rw [hhandle, hhandle] at heq
    exact h.apart p q (hnamed p hp) (hnamed q hq) heq

theorem HandlesApart.same (h : s.HandlesApart) (hsame : s.SameViewers t) : t.HandlesApart := by
  refine h.fewer ?_ hsame.accepted fun p => by rw [hsame.viewer]
  intro p hp
  unfold Named at hp ⊢
  rwa [hsame.clientSockets, hsame.viewer, hsame.accepting] at hp

theorem HandlesApart.accept (h : s.HandlesApart) {handle : ℕ} (hfresh : s.Fresh (.accept handle)) :
    (s.accept handle).HandlesApart := by
  unfold TelemetrySink.accept
  split
  case isFalse => exact h
  case isTrue hopen =>
    obtain ⟨hidle, hclosed⟩ := hopen
    rw [Option.isNone_iff_eq_none] at hidle
    -- whoever was named before has another handle
    have hother : ∀ p, s.Named p → p ≠ s.accepted ∧ (s.viewer p).handle ≠ handle := by
      intro p hp
      have hlt := h.below p hp
      refine ⟨Nat.ne_of_lt hlt, ?_⟩
      rcases hp with hin | hreading | haccepting
      · exact hclosed p hin
      · exact hfresh p hlt hreading
      · rw [hidle] at haccepting
        cases haccepting
    set t : TelemetrySink := { s with
      viewer := Function.update s.viewer s.accepted ⟨handle, false, false, none, [], s.emitted, 0⟩
      accepted := s.accepted + 1
      clientSockets := s.clientSockets ++ [s.accepted]
      bHasSubscribers := true
      accepting := some s.accepted } with ht
    have hnew : (t.viewer s.accepted).handle = handle := by simp [ht]
    have hold : ∀ p, p ≠ s.accepted → t.viewer p = s.viewer p := fun p hp => Function.update_of_ne hp _ _
    have hnamed : ∀ p, t.Named p → p = s.accepted ∨ s.Named p := by
      intro p hp
      by_cases hpn : p = s.accepted
      · exact .inl hpn
      · rcases hp with hin | hreading | haccepting
        · exact .inr (.inl ((List.mem_append.mp hin).resolve_right fun heq => hpn (List.mem_singleton.mp heq)))
        · exact .inr (.inr (.inl (hold p hpn ▸ hreading)))
        · exact .inl (Option.some.inj haccepting).symm
    constructor
    · intro p hp
      rcases hnamed p hp with rfl | hp
      · exact Nat.lt_succ_self _
      · exact Nat.lt_succ_of_lt (h.below p hp)
    · intro p q hp hq heq
      rcases hnamed p hp with rfl | hp <;> rcases hnamed q hq with rfl | hq
      · rfl
      · rw [hnew, hold q (hother q hq).1] at heq
        exact absurd heq.symm (hother q hq).2
      · rw [hnew, hold p (hother p hp).1] at heq
        exact absurd heq (hother p hp).2
      · rw [hold p (hother p hp).1, hold q (hother q hq).1] at heq
        exact h.apart p q hp hq heq

theorem HandlesApart.replay (h : s.HandlesApart) : s.replay.HandlesApart := by
  unfold TelemetrySink.replay
  split
  case h_1 => exact h
  case h_2 p hp =>
    refine h.fewer ?_ rfl ?_
    · intro q hq
      by_cases hqp : q = p
      · exact .inr (.inr (hqp ▸ hp))
      · rcases hq with hin | hreading | haccepting
        · exact .inl hin
        · refine .inr (.inl ?_)
          simpa [Function.update_of_ne hqp] using hreading
        · cases haccepting
    · intro q
      by_cases hqp : q = p
      · subst hqp
        simp
      · simp [Function.update_of_ne hqp]

theorem viewer_write (fails : List ℕ) (q : ℕ) : ((s.write fails).viewer q).handle = (s.viewer q).handle ∧
    ((s.write fails).viewer q).reading = (s.viewer q).reading := by
  unfold TelemetrySink.write
  split
  case h_1 => exact ⟨rfl, rfl⟩
  case h_2 =>
    dsimp only
    split
    · split <;> exact ⟨rfl, rfl⟩
    · exact ⟨rfl, rfl⟩

theorem clientSockets_write (fails : List ℕ) (hp : p ∈ (s.write fails).clientSockets) : p ∈ s.clientSockets := by
  unfold TelemetrySink.write at hp
  split at hp
  · exact hp
  · exact (List.mem_filter.mp hp).1

theorem HandlesApart.write (h : s.HandlesApart) (fails : List ℕ) : (s.write fails).HandlesApart := by
  have haccept : (s.write fails).accepted = s.accepted ∧ (s.write fails).accepting = s.accepting := by
    unfold TelemetrySink.write
    split <;> exact ⟨rfl, rfl⟩
  refine h.fewer ?_ haccept.1 fun q => (viewer_write fails q).1
  intro q hq
  rcases hq with hin | hreading | haccepting
  · exact .inl (clientSockets_write fails hin)
  · exact .inr (.inl ((viewer_write fails q).2.symm.trans hreading))
  · exact .inr (.inr (haccept.2.symm.trans haccepting))

theorem HandlesApart.removeClient (h : s.HandlesApart) (p : ℕ) : (s.removeClient p).HandlesApart := by
  unfold TelemetrySink.removeClient
  split
  case isFalse => exact h
  case isTrue =>
    refine h.fewer ?_ rfl fun _ => rfl
    intro q hq
    rcases hq with hin | hreading | haccepting
    · exact .inl (List.mem_filter.mp hin).1
    · exact .inr (.inl (Bool.and_eq_true_iff.mp hreading).1)
    · exact .inr (.inr haccepting)

theorem HandlesApart.next (h : s.HandlesApart) (a : TelemetryAction) (ha : s.Fresh a) : (s.next a).HandlesApart := by
  cases a with
  | emit => exact h.same sameViewers_emit
  | loadSubscribers k => exact h.same (sameViewers_loadSubscribers k)
  | pushBack k => exact h.same (sameViewers_pushBack k)
  | accept handle => exact h.accept ha
  | replay => exact h.replay
  | tryPopFront => exact h.same sameViewers_tryPopFront
  | write fails => exact h.write fails
  | removeClient p => exact h.removeClient p

theorem HandlesApart.of_reach (h : telemetrySystem.Reach Fresh s) : s.HandlesApart := by
  apply h.invariant
  · intro s hs
    obtain rfl : s = start := hs
    constructor <;> simp [Named, start]
  · exact fun s a hI ha => hI.next a ha

/-- In every run in which no closed handle is given out again while its reader still runs, a viewer goes only where its own
`send` fails or its own reader ends. -/
theorem viewer_leaves_by_itself (h : telemetrySystem.Reach Fresh s) (hp : p ∈ s.clientSockets) (a : TelemetryAction) :
    p ∈ (s.next a).clientSockets ∨ (∃ fails, a = .write fails ∧ p ∈ fails) ∨ a = .removeClient p := by
  have hapart := HandlesApart.of_reach h
  cases a with
  | emit => exact .inl hp
  | loadSubscribers k => exact .inl ((sameViewers_loadSubscribers (s := s) k).clientSockets ▸ hp)
  | pushBack k => exact .inl ((sameViewers_pushBack (s := s) k).clientSockets ▸ hp)
  | accept handle =>
    left
    show p ∈ (s.accept handle).clientSockets
    unfold TelemetrySink.accept
    split
    · exact List.mem_append_left _ hp
    · exact hp
  | replay =>
    left
    show p ∈ s.replay.clientSockets
    unfold TelemetrySink.replay
    split <;> exact hp
  | tryPopFront => exact .inl ((sameViewers_tryPopFront (s := s)).clientSockets ▸ hp)
  | write fails =>
    by_cases hfails : p ∈ fails
    · exact .inr (.inl ⟨fails, rfl, hfails⟩)
    · left
      show p ∈ (s.write fails).clientSockets
      unfold TelemetrySink.write
      split
      · exact hp
      · exact List.mem_filter.mpr ⟨hp, by simp [hfails]⟩
  | removeClient q =>
    by_cases hpq : p = q
    · exact .inr (.inr (by rw [hpq]))
    · left
      show p ∈ (s.removeClient q).clientSockets
      unfold TelemetrySink.removeClient
      split
      case isFalse => exact hp
      case isTrue hreading =>
        refine List.mem_filter.mpr ⟨hp, ?_⟩
        have hne : (s.viewer p).handle ≠ (s.viewer q).handle := fun heq =>
          hpq (hapart.apart p q (.inl hp) (.inr (.inl hreading)) heq)
        simpa using hne

/-- The writer has closed the first viewer; its reader still runs. -/
def closedByWriter : TelemetrySink :=
  telemetrySystem.runFrom start
    [.accept 4, .replay, .emit, .loadSubscribers 0, .pushBack 0, .tryPopFront, .write [0]]

theorem viewer_leaves_by_itself_secondViewer :
    1 ∈ ((closedByWriter.accept 5).next (.removeClient 0)).clientSockets := by
  have hstart : telemetrySystem.Reach Fresh start := .init rfl
  have hclosed : telemetrySystem.Reach Fresh closedByWriter := hstart.of_checked _ (by decide +kernel)
  have hfresh : closedByWriter.Fresh (.accept 5) := by decide +kernel
  have hentered : 1 ∈ (closedByWriter.accept 5).clientSockets := by decide +kernel
  rcases viewer_leaves_by_itself (hclosed.next hfresh) hentered (.removeClient 0) with hin | ⟨fails, hwrite, -⟩ | hown
  · exact hin
  · cases hwrite
  · cases hown

/-- Where `accept` gives the closed handle again, the reader of the first viewer takes the second one along. -/
example : 1 ∈ (closedByWriter.accept 4).clientSockets ∧
    1 ∉ ((closedByWriter.accept 4).next (.removeClient 0)).clientSockets := by decide +kernel

end TelemetrySink

end RudpEngine

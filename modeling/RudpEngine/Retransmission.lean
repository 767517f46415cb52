import RudpEngine.BunchNumbers
import RudpEngine.SendQueue

/-!
# Retransmission

A channel as a queue with retransmission. `ForceRetransmitAllUnAcked` keeps the
order in which the bunches were sent; nacks one after the other turn the packets
around. No bunch gets lost or doubled on the way, and an ack removes what was
sent under its packet id last.
-/

namespace RudpEngine

namespace NetChannel

variable (ch : NetChannel)

def sends : SendQueue OutReadyBunch := ⟨ch.outBunchQueue, ch.outUnAckedBunches⟩

/-- `DequeueReadyBunch`, and `AddUnAckedOutBunch` of what it gives; `none` where the reliable buffer overflows. -/
def sendReady (outPacketId : ℤ) : Option NetChannel :=
  match ch.dequeueReadyBunch with
  | none => some ch
  | some (bunch, ch) => ch.addUnAckedOutBunch outPacketId bunch

theorem sends_acked (id : ℤ) : (ch.acked id).sends = ch.sends.acked id := rfl

theorem sends_nacked (id : ℤ) : (ch.nacked id).sends = ch.sends.nacked id := by
  show SendQueue.mk (((ch.outUnAckedBunches.find? id).getD []).foldr List.cons ch.outBunchQueue) _ = _
  rw [List.foldr_cons_eq_append']
  rfl

theorem sends_forceRetransmitAllUnAcked : ch.forceRetransmitAllUnAcked.sends = ch.sends.retransmitAll := by
  have key : ∀ es : List (ℤ × List OutReadyBunch),
      es.foldr (fun e queue => e.2.foldr List.cons queue) ch.outBunchQueue = es.flatMap Prod.snd ++ ch.outBunchQueue := by
    intro es
    induction es with
    | nil => rfl
    | cons e es ih => rw [List.foldr_cons, ih, List.foldr_cons_eq_append', List.flatMap_cons, List.append_assoc]
  show SendQueue.mk (ch.outUnAckedBunches.entries.foldr (fun e queue => e.2.foldr List.cons queue) ch.outBunchQueue) _ = _
  rw [key]
  rfl

theorem sends_sendReady {id : ℤ} {next : NetChannel} (h : ch.sendReady id = some next) :
    next.sends = ch.sends.send id ∧ next.bunchBuilder = ch.bunchBuilder := by
  unfold sendReady dequeueReadyBunch at h
  unfold SendQueue.send
  cases hq : ch.outBunchQueue with
  | nil =>
    have hsends : ch.sends.queue = [] := hq
    rw [hq] at h
    rw [hsends, ← Option.some.inj h]
    exact ⟨rfl, rfl⟩
  | cons bunch rest =>
    have hsends : ch.sends.queue = bunch :: rest := hq
    rw [hq] at h
    have h : addUnAckedOutBunch { ch with outBunchQueue := rest } id bunch = some next := h
    unfold addUnAckedOutBunch at h
    split_ifs at h with hfull
    rw [hsends, ← Option.some.inj h]
    exact ⟨rfl, rfl⟩

theorem sends_nacked_all (ids : List ℤ) : (ids.foldl nacked ch).sends = ids.foldl SendQueue.nacked ch.sends := by
  induction ids generalizing ch with
  | nil => rfl
  | cons id ids ih => rw [List.foldl_cons, ih, sends_nacked, List.foldl_cons]

/-! ## The order of the two ways -/

/-- Nacks of all packets with un-acked bunches, in the order of the packet ids, leave the queue that
`ForceRetransmitAllUnAcked` leaves: the un-acked bunches as they were sent, and the old queue. -/
def RetransmitsAlike : Prop :=
  ∀ ids : List ℤ, ids.Pairwise (· < ·) → (∀ e ∈ ch.outUnAckedBunches.entries, e.1 ∈ ids) →
    (ids.foldl nacked ch).outBunchQueue = ch.outUnAckedBunches.members ++ ch.outBunchQueue ∧
      ch.forceRetransmitAllUnAcked.outBunchQueue = ch.outUnAckedBunches.members ++ ch.outBunchQueue

def AtMostOneUnAckedPacket : Prop :=
  ∀ e ∈ ch.outUnAckedBunches.entries, ∀ e' ∈ ch.outUnAckedBunches.entries, e.2 ≠ [] → e'.2 ≠ [] → e = e'

theorem queue_forced : ch.forceRetransmitAllUnAcked.outBunchQueue = ch.outUnAckedBunches.members ++ ch.outBunchQueue :=
  congrArg SendQueue.queue ch.sends_forceRetransmitAllUnAcked

theorem queue_nacked {ids : List ℤ} (hlt : ids.Pairwise (· < ·)) (hids : ∀ e ∈ ch.outUnAckedBunches.entries, e.1 ∈ ids) :
    (ids.foldl nacked ch).outBunchQueue =
      ch.outUnAckedBunches.entries.reverse.flatMap Prod.snd ++ ch.outBunchQueue := by
  have hsends := ch.sends_nacked_all ids
  rw [SendQueue.nackAll_of_ids ch.sends hlt hids, SendQueue.nackAll_eq] at hsends
  exact congrArg SendQueue.queue hsends

/-- Where no bunch is un-acked twice, the two ways agree on at most one packet only. -/
theorem retransmitsAlike_iff :
    (ch.AtMostOneUnAckedPacket → ch.RetransmitsAlike) ∧
      (ch.outUnAckedBunches.members.Nodup → ch.RetransmitsAlike → ch.AtMostOneUnAckedPacket) := by
  refine ⟨fun hone ids hlt hids => ⟨?_, ch.queue_forced⟩, fun hnodup halike => ?_⟩
  · have hsame := SendQueue.flatMap_reverse_of_one ch.outUnAckedBunches.entries_nodup hone
    rw [ch.queue_nacked hlt hids, hsame]
    rfl
  · have hkeys : (ch.outUnAckedBunches.entries.map Prod.fst).Pairwise (· < ·) :=
      List.pairwise_map.mpr ch.outUnAckedBunches.sorted
    have hids : ∀ e ∈ ch.outUnAckedBunches.entries, e.1 ∈ ch.outUnAckedBunches.entries.map Prod.fst :=
      fun e he => List.mem_map_of_mem he
    obtain ⟨hnacked, -⟩ := halike _ hkeys hids
    rw [ch.queue_nacked hkeys hids] at hnacked
    exact SendQueue.one_of_flatMap_reverse hnodup (List.append_cancel_right hnacked)

def twoPacketsSent : Option NetChannel :=
  let message : NetMessage := ⟨[5, 0, 1, 0, 7], false, 0, by decide⟩
  let ch := ((init 0 0 0).registerMessage message).tickFlush fun _ => 0
  let ch := (ch.registerMessage message).tickFlush fun _ => 0
  (ch.sendReady 1).bind fun ch => ch.sendReady 2

theorem nacks_reverse_packets : ∃ ch, twoPacketsSent = some ch ∧ ¬ ch.RetransmitsAlike := by
  refine ⟨twoPacketsSent.get (by decide +kernel), (Option.some_get _).symm, fun halike => ?_⟩
  obtain ⟨hnacked, -⟩ := halike [1, 2] (by decide) (by decide +kernel)
  revert hnacked
  decide +kernel

end NetChannel

/-! ## Conservation -/

/-- A channel with its bunches in the order in which they were sealed. The `n`-th one goes by the number `n` in the
history, so that equal bunches stay apart. -/
structure BunchRun where
  channel : NetChannel
  sealed : List OutReadyBunch
  history : SendHistory (OutReadyBunch × ℕ)

inductive BunchAction
  | registerMessage (m : NetMessage)
  | tickFlush (nowUs : ℕ → ℕ)
  | send (outPacketId : ℤ)
  | acked (ackPacketId : ℤ)
  | nacked (nackPacketId : ℤ)
  | forceRetransmitAllUnAcked

namespace BunchRun

variable (r : BunchRun)

def sealedBy (nowUs : ℕ → ℕ) : List OutReadyBunch :=
  (r.channel.pumpBunch nowUs 256 true).bunchBuilder.queuedOutBunch.drop r.channel.bunchBuilder.queuedOutBunch.length

/-- One operation of the channel; a send that overflows the reliable buffer is left out. -/
def next : BunchAction → BunchRun
  | .registerMessage m => { r with channel := r.channel.registerMessage m }
  | .tickFlush nowUs =>
    { channel := r.channel.tickFlush nowUs
      sealed := r.sealed ++ r.sealedBy nowUs
      history := r.history.push ((r.sealedBy nowUs).zipIdx r.sealed.length) }
  | .send outPacketId =>
    match r.channel.sendReady outPacketId with
    | none => r
    | some ch => { r with channel := ch, history := r.history.send outPacketId }
  | .acked ackPacketId => { r with channel := r.channel.acked ackPacketId, history := r.history.acked ackPacketId }
  | .nacked nackPacketId => { r with channel := r.channel.nacked nackPacketId, history := r.history.nacked nackPacketId }
  | .forceRetransmitAllUnAcked =>
    { r with channel := r.channel.forceRetransmitAllUnAcked, history := r.history.retransmitAll }

def Starts : Prop :=
  ∃ chIndex inReliable outReliable,
    r = ⟨NetChannel.init chIndex inReliable outReliable, [], ⟨⟨[], .empty⟩, [], [], []⟩⟩

/-- A send keeps the reliable buffer from its overflow, and its packet id is not below an earlier one. -/
def Allowed : BunchAction → Prop
  | .send outPacketId =>
    r.channel.outUnAckedBunches.size < NetChannel.reliableBuffer ∧ ∀ e ∈ r.history.sent, e.2 ≤ outPacketId
  | _ => True

/-- What the history says of the bunches of the channel: every sealed bunch waits, is un-acked or was removed, each once; it
was removed under the id it was sent under last, which is an earlier one only where it was sent under that one again. -/
structure Conserved : Prop where
  places : r.history.sends.map Prod.fst = r.channel.sends
  once : (r.history.sends.queue ++ r.history.sends.unAcked.members ++ r.history.removed.map Prod.fst).Perm r.sealed.zipIdx
  last : ∀ b id, (b, id) ∈ r.history.removed → r.history.lastSent b = some id
  again : ∀ b earlier id, (b, earlier) ∈ r.history.requeued → (b, id) ∈ r.history.removed →
    earlier < id ∨ earlier = id ∧ 2 ≤ r.history.timesSent b id

end BunchRun

def bunchSystem : System BunchRun BunchAction := ⟨BunchRun.Starts, BunchRun.next⟩

namespace BunchRun

structure Tracked (r : BunchRun) : Prop where
  flushed : r.channel.bunchBuilder.queuedOutBunch = []
  places : r.history.sends.map Prod.fst = r.channel.sends
  accounted : r.history.Accounted r.sealed.zipIdx
  ascending : r.history.sent.Pairwise fun e e' => e.2 ≤ e'.2

variable {r : BunchRun}

theorem sealed_nodup : r.sealed.zipIdx.Nodup := by
  have hsnd : (r.sealed.zipIdx.map Prod.snd).Nodup := by
    rw [List.zipIdx_map_snd]
    exact List.nodup_range' ..
  exact List.Nodup.of_map Prod.snd hsnd

theorem Tracked.start (h : r.Starts) : r.Tracked := by
  obtain ⟨chIndex, inReliable, outReliable, rfl⟩ := h
  refine ⟨rfl, rfl, ⟨List.Perm.nil, fun b id => rfl, fun b id hb => ?_⟩, List.Pairwise.nil⟩
  rcases hb with hb | hb <;> cases hb

theorem Tracked.tickFlush (h : r.Tracked) (nowUs : ℕ → ℕ) : (r.next (.tickFlush nowUs)).Tracked := by
  have hnew : r.sealedBy nowUs = (r.channel.pumpBunch nowUs 256 true).bunchBuilder.queuedOutBunch := by
    unfold sealedBy
    rw [h.flushed]
    rfl
  have hflush : r.channel.tickFlush nowUs = _ := SendRun.flushReady_eq _ (r.channel.pumpBunch nowUs 256 true) rfl
  refine ⟨?_, ?_, ?_, h.ascending⟩
  · show (r.channel.tickFlush nowUs).bunchBuilder.queuedOutBunch = []
    rw [hflush]
  · show (r.history.sends.push ((r.sealedBy nowUs).zipIdx r.sealed.length)).map Prod.fst = (r.channel.tickFlush nowUs).sends
    rw [SendQueue.map_push, h.places, List.zipIdx_map_fst, hflush, hnew]
    rfl
  · have hnumbers : (r.sealed ++ r.sealedBy nowUs).zipIdx = r.sealed.zipIdx ++ (r.sealedBy nowUs).zipIdx r.sealed.length := by
      rw [List.zipIdx_append, Nat.zero_add]
    show (r.history.push _).Accounted (r.sealed ++ r.sealedBy nowUs).zipIdx
    rw [hnumbers]
    exact h.accounted.push _

theorem Tracked.send (h : r.Tracked) {outPacketId : ℤ} (hok : r.Allowed (.send outPacketId)) :
    (r.next (.send outPacketId)).Tracked := by
  cases hsend : r.channel.sendReady outPacketId with
  | none =>
    have hnext : r.next (.send outPacketId) = r := by simp only [BunchRun.next, hsend]
    rw [hnext]
    exact h
  | some ch =>
    have hnext : r.next (.send outPacketId) = ⟨ch, r.sealed, r.history.send outPacketId⟩ := by simp only [BunchRun.next, hsend]
    rw [hnext]
    obtain ⟨hsends, hbuilder⟩ := r.channel.sends_sendReady hsend
    refine ⟨?_, ?_, h.accounted.send sealed_nodup outPacketId, ?_⟩
    · show ch.bunchBuilder.queuedOutBunch = []
      rw [hbuilder]
      exact h.flushed
    · show (r.history.sends.send outPacketId).map Prod.fst = ch.sends
      rw [SendQueue.map_send, h.places, hsends]
    · refine List.pairwise_append.mpr ⟨h.ascending, ?_, ?_⟩
      · cases r.history.sends.queue.head? with
        | none => exact List.Pairwise.nil
        | some b => exact List.pairwise_singleton _ _
      · intro e he e' he'
        obtain ⟨b, -, rfl⟩ := Option.map_eq_some_iff.mp (Option.mem_toList.mp he')
        exact hok.2 e he

theorem Tracked.next (h : r.Tracked) {a : BunchAction} (hok : r.Allowed a) : (r.next a).Tracked := by
  cases a with
  | registerMessage m => exact ⟨h.flushed, h.places, h.accounted, h.ascending⟩
  | tickFlush nowUs => exact h.tickFlush nowUs
  | send outPacketId => exact h.send hok
  | acked id =>
    refine ⟨h.flushed, ?_, h.accounted.acked id, h.ascending⟩
    show (r.history.sends.acked id).map Prod.fst = (r.channel.acked id).sends
    rw [SendQueue.map_acked, h.places, NetChannel.sends_acked]
  | nacked id =>
    refine ⟨h.flushed, ?_, h.accounted.nacked id, h.ascending⟩
    show (r.history.sends.nacked id).map Prod.fst = (r.channel.nacked id).sends
    rw [SendQueue.map_nacked, h.places, NetChannel.sends_nacked]
  | forceRetransmitAllUnAcked =>
    refine ⟨h.flushed, ?_, h.accounted.retransmitAll, h.ascending⟩
    show r.history.sends.retransmitAll.map Prod.fst = r.channel.forceRetransmitAllUnAcked.sends
    rw [SendQueue.map_retransmitAll, h.places, NetChannel.sends_forceRetransmitAllUnAcked]

theorem Tracked.conserved (h : r.Tracked) : r.Conserved := by
  refine ⟨h.places, h.accounted.once, fun b id hb => h.accounted.last b id (.inr hb), ?_⟩
  intro b earlier id hrequeued hremoved
  have hlast := h.accounted.last b id (.inr hremoved)
  have hsent := h.accounted.sent_of_requeued hrequeued
  have hle : earlier ≤ id := SendHistory.le_lastSent h.ascending hsent hlast
  by_cases heq : earlier = id
  · subst heq
    exact .inr ⟨rfl, h.accounted.two_sends hrequeued hremoved⟩
  · exact .inl (lt_of_le_of_ne hle heq)

end BunchRun

/-- Bunches are conserved in every run of a channel whose packet ids do not go down. -/
theorem bunches_conserved {r : BunchRun} (h : bunchSystem.Reach BunchRun.Allowed r) : r.Conserved :=
  (h.invariant (I := BunchRun.Tracked) (fun _ h0 => .start h0) fun _ _ h hok => h.next hok).conserved

/-- A bunch is sent in packet 5, nacked and sent in packet 5 again. -/
def sentAgain : BunchRun :=
  bunchSystem.runFrom ⟨NetChannel.init 0 0 0, [], ⟨⟨[], .empty⟩, [], [], []⟩⟩
    [.registerMessage ⟨[5, 0, 1, 0, 7], false, 0, by decide⟩, .tickFlush fun _ => 0, .send 5, .nacked 5, .send 5]

theorem reach_sentAgain : bunchSystem.Reach BunchRun.Allowed sentAgain := by
  refine .next (.next (.next (.next (.next (.init ⟨0, 0, 0, rfl⟩) ?_) ?_) ?_) ?_) ?_
  · trivial
  · trivial
  · exact ⟨by decide +kernel, by decide +kernel⟩
  · trivial
  · exact ⟨by decide +kernel, by decide +kernel⟩

theorem bunches_conserved_sentAgain : (sentAgain.next (.acked 5)).Conserved :=
  bunches_conserved (show bunchSystem.Reach BunchRun.Allowed (bunchSystem.next sentAgain (.acked 5)) from
    .next reach_sentAgain trivial)

/-- The ack of packet 5 removes the bunch that was put back from it. -/
theorem acked_under_earlier_id : bunchSystem.Reach BunchRun.Allowed sentAgain ∧
    ∃ e ∈ sentAgain.history.requeued, e ∉ sentAgain.history.removed ∧
      e ∈ (sentAgain.next (.acked e.2)).history.removed := by
  refine ⟨reach_sentAgain, ?_⟩
  decide +kernel

end RudpEngine

import RudpEngine.BunchNumbers
import RudpEngine.Ledger

/-!
# Where a channel holds its messages

A message is loose in the builder, or in a bunch: sealed, ready, or un-acked.
Every function of a channel moves bunches between these places or forgets some of
them; `Pump` seals loose messages into new bunches, and can drop one.
-/

namespace RudpEngine

open ChannelBunchBuilder NetConnection NetConnection.Assembling

open scoped List

namespace ChannelBunchBuilder

def loose (b : ChannelBunchBuilder) : List NetMessage := b.queuedMessage ++ b.activeMsgs

/-- `TryInsert` takes the message into the active bunch, or into the one begun for it. -/
def Takes (b : ChannelBunchBuilder) (m : NetMessage) : Prop :=
  (b.tryInsert m).1 = true ∨ (({ b with activeMsgs := [], activePayload := 0 } : ChannelBunchBuilder).tryInsert m).1 = true

def unsealed (b : ChannelBunchBuilder) : List NetMessage := b.activeMsgs ++ b.queuedMessage

/-- From `b` to `b'` the bunches `new` were sealed, of the first messages of `b`. -/
structure Follows (b b' : ChannelBunchBuilder) (new : List OutReadyBunch) : Prop where
  queue : b'.queuedOutBunch = b.queuedOutBunch ++ new
  messages : b.unsealed = new.flatMap OutReadyBunch.messages ++ b'.unsealed

/-- From `b` to `b'` the bunches `new` were sealed and the messages `dropped` are gone. -/
structure Repacked (b b' : ChannelBunchBuilder) (new : List OutReadyBunch) (dropped : List NetMessage) : Prop where
  queue : b'.queuedOutBunch = b.queuedOutBunch ++ new
  loose : b.loose.Perm (b'.loose ++ new.flatMap OutReadyBunch.messages ++ dropped)

variable {b b' b'' : ChannelBunchBuilder} {new new' : List OutReadyBunch} {dropped dropped' : List NetMessage}

theorem Follows.refl (b : ChannelBunchBuilder) : Follows b b [] := ⟨(List.append_nil _).symm, rfl⟩

theorem Follows.trans (h : Follows b b' new) (h' : Follows b' b'' new') : Follows b b'' (new ++ new') := by
  constructor
  · rw [h'.queue, h.queue, List.append_assoc]
  · rw [h.messages, h'.messages, List.flatMap_append, List.append_assoc]

theorem Follows.sealAndReset (b : ChannelBunchBuilder) (nowUs o : ℕ) :
    Follows b (b.sealAndReset nowUs o).1 [b.sealed ((o + 1) % 2 ^ 32)] := by
  refine ⟨rfl, ?_⟩
  show b.activeMsgs ++ b.queuedMessage = b.activeMsgs ++ [] ++ ([] ++ b.queuedMessage)
  rw [List.append_nil, List.nil_append]

theorem Follows.sealIfFull (b : ChannelBunchBuilder) (nowUs o : ℕ) : ∃ new, Follows b (b.sealIfFull nowUs o).1 new := by
  unfold ChannelBunchBuilder.sealIfFull
  split_ifs
  · exact ⟨_, .sealAndReset b nowUs o⟩
  · exact ⟨_, .refl b⟩

theorem Follows.inserted {m : NetMessage} {rest : List NetMessage} (hq : b.queuedMessage = m :: rest) :
    Follows b ({ b with queuedMessage := rest }.inserted m) [] := by
  refine ⟨(List.append_nil _).symm, ?_⟩
  show b.activeMsgs ++ b.queuedMessage = b.activeMsgs ++ [m] ++ rest
  rw [hq, List.append_assoc]
  rfl

theorem Follows.repacked (h : Follows b b' new) : Repacked b b' new [] := by
  refine ⟨h.queue, List.perm_iff_count.mpr fun m => ?_⟩
  have hcount := congrArg (List.count m) h.messages
  simp only [ChannelBunchBuilder.unsealed, ChannelBunchBuilder.loose, List.count_append, List.count_nil] at hcount ⊢
  omega

theorem Repacked.trans (h : Repacked b b' new dropped) (h' : Repacked b' b'' new' dropped') :
    Repacked b b'' (new ++ new') (dropped ++ dropped') := by
  constructor
  · rw [h'.queue, h.queue, List.append_assoc]
  · refine List.perm_iff_count.mpr fun m => ?_
    have h1 := h.loose.count_eq m
    have h2 := h'.loose.count_eq m
    simp only [List.count_append, List.flatMap_append] at h1 h2 ⊢
    omega

theorem Repacked.sealIfFull (b : ChannelBunchBuilder) (nowUs o : ℕ) :
    ∃ new, Repacked b (b.sealIfFull nowUs o).1 new [] := by
  obtain ⟨new, hnew⟩ := Follows.sealIfFull b nowUs o
  exact ⟨new, hnew.repacked⟩

theorem tryInsert_cases (b : ChannelBunchBuilder) (m : NetMessage) :
    b.tryInsert m = (false, b) ∨ b.tryInsert m = (true, b.inserted m) := by
  unfold tryInsert
  split_ifs
  · exact .inl rfl
  · exact .inl rfl
  · exact .inr rfl

section
variable {m : NetMessage} {rest : List NetMessage}

theorem Repacked.forgotten (hq : b.queuedMessage = m :: rest) : Repacked b { b with queuedMessage := rest } [] [m] := by
  refine ⟨(List.append_nil _).symm, ?_⟩
  show (b.queuedMessage ++ b.activeMsgs).Perm (rest ++ b.activeMsgs ++ [] ++ [m])
  rw [hq, List.append_nil]
  exact (List.perm_append_singleton m (rest ++ b.activeMsgs)).symm

/-- One round of `Pump` drops its message only where neither bunch takes it. -/
theorem Repacked.pumpMessage (hq : b.queuedMessage = m :: rest) (nowUs o : ℕ) :
    ∃ new dropped, Repacked b ({ b with queuedMessage := rest }.pumpMessage nowUs m o).1 new dropped ∧
      ∀ x ∈ dropped, x = m ∧ ¬ b.Takes m := by
  have hround : ({ b with queuedMessage := rest } : ChannelBunchBuilder).tryInsert m = (true, { b with queuedMessage := rest }.inserted m) ∨
      ({ b with queuedMessage := rest } : ChannelBunchBuilder).tryInsert m = (false, { b with queuedMessage := rest }) :=
    (tryInsert_cases _ m).symm
  have hsame : (({ b with queuedMessage := rest } : ChannelBunchBuilder).tryInsert m).1 = (b.tryInsert m).1 := by
    unfold tryInsert
    simp only
    split_ifs <;> rfl
  unfold ChannelBunchBuilder.pumpMessage
  rcases hround with he | he
  · -- into the active bunch
    obtain ⟨new, hnew⟩ := Repacked.sealIfFull ({ b with queuedMessage := rest }.inserted m) nowUs o
    rw [he]
    exact ⟨_, _, (Follows.inserted hq).repacked.trans hnew, fun x hx => by cases hx⟩
  · have hactive : (b.tryInsert m).1 = false := by rw [← hsame, he]
    rw [he]
    simp only [Bool.false_eq_true, if_false]
    -- the active bunch is sealed while the message still counts as queued
    have hseal := (Follows.sealAndReset b nowUs o).repacked
    have hq' : (b.sealAndReset nowUs o).1.queuedMessage = m :: rest := hq
    have hnext : ({ b with queuedMessage := rest } : ChannelBunchBuilder).sealAndReset nowUs o =
        ({ (b.sealAndReset nowUs o).1 with queuedMessage := rest }, (b.sealAndReset nowUs o).2) := rfl
    rw [hnext]
    generalize hb' : (b.sealAndReset nowUs o).1 = b' at hseal hq' ⊢
    generalize (b.sealAndReset nowUs o).2 = o'
    have hempty : (({ b' with queuedMessage := rest } : ChannelBunchBuilder).tryInsert m).1 =
        (({ b with activeMsgs := [], activePayload := 0 } : ChannelBunchBuilder).tryInsert m).1 := by
      rw [← hb', sealAndReset_eq]
      unfold tryInsert
      simp only
      split_ifs <;> rfl
    rcases tryInsert_cases { b' with queuedMessage := rest } m with he' | he'
    · obtain ⟨new, hnew⟩ := Repacked.sealIfFull { b' with queuedMessage := rest } nowUs o'
      rw [he']
      refine ⟨_, _, (hseal.trans (.forgotten hq')).trans hnew, ?_⟩
      intro x hx
      obtain rfl : x = m := by simpa using hx
      refine ⟨rfl, ?_⟩
      rintro (h | h)
      · rw [hactive] at h; cases h
      · rw [← hempty, he'] at h; cases h
    · obtain ⟨new, hnew⟩ := Repacked.sealIfFull ({ b' with queuedMessage := rest }.inserted m) nowUs o'
      rw [he']
      exact ⟨_, _, (hseal.trans (Follows.inserted hq').repacked).trans hnew, fun x hx => by simp at hx⟩

end

theorem pumpMessage_rule {P : ChannelBunchBuilder → Prop} {nowUs : ℕ} {m : NetMessage} (hinsert : ∀ b, P b → P (b.inserted m))
    (hseal : ∀ b o, P b → P (b.sealAndReset nowUs o).1) (h : P b) (o : ℕ) : P (b.pumpMessage nowUs m o).1 := by
  have htry : ∀ b : ChannelBunchBuilder, P b → P (b.tryInsert m).2 := by
    intro b hb
    rcases tryInsert_cases b m with he | he
    · rw [he]; exact hb
    · rw [he]; exact hinsert b hb
  unfold ChannelBunchBuilder.pumpMessage
  have h1 := htry b h
  generalize b.tryInsert m = r at h1
  obtain ⟨inserted, b₁⟩ := r
  simp only at h1 ⊢
  cases inserted with
  | true =>
    simp only [if_true]
    split
    · exact hseal _ _ h1
    · exact h1
  | false =>
    have h2 := htry _ (hseal _ o h1)
    simp only [Bool.false_eq_true, if_false]
    split
    · exact hseal _ _ h2
    · exact h2

theorem activeHasInit_pumpMessage (h : b.activeHasInit = true) (nowUs : ℕ) (m : NetMessage) (o : ℕ) :
    (b.pumpMessage nowUs m o).1.activeHasInit = true :=
  pumpMessage_rule (P := fun b => b.activeHasInit = true) (fun _ hb => hb) (fun _ _ _ => rfl) h o

/-- `Pump` drops only messages that are `ok` to drop, where it takes all others. -/
theorem pump_repacked {ok : NetMessage → Prop} {nowUs : ℕ → ℕ} {batchLimit : ℕ} {flushTail : Bool} {o : ℕ}
    (hinit : b.activeHasInit = true ∨ b.activeMsgs = [])
    (hp : PumpMeets (fun b m => b.Takes m ∨ ok m) (fun _ => True) nowUs batchLimit flushTail b o) :
    (b.pump nowUs batchLimit flushTail o).1.activeHasInit = true ∧
      ∃ new dropped, Repacked b (b.pump nowUs batchLimit flushTail o).1 new dropped ∧ ∀ m ∈ dropped, ok m := by
  refine pump_rule (I := fun b' _ => b'.activeHasInit = true ∧
    ∃ new dropped, Repacked b b' new dropped ∧ ∀ m ∈ dropped, ok m) ?_ ?_ ?_ hp
  · intro b' o' m rest now ⟨hi, new, dropped, hr, hok⟩ hq hm
    obtain ⟨new', dropped', hr', hd⟩ := Repacked.pumpMessage hq now o'
    have hi : ({ b' with queuedMessage := rest } : ChannelBunchBuilder).activeHasInit = true := hi
    refine ⟨activeHasInit_pumpMessage hi now m o', _, _, hr.trans hr', ?_⟩
    intro x hx
    rcases List.mem_append.mp hx with hx | hx
    · exact hok x hx
    · obtain ⟨rfl, hno⟩ := hd x hx
      exact hm.resolve_left hno
  · intro b' o' now ⟨_, new, dropped, hr, hok⟩ _ _
    refine ⟨rfl, _, _, hr.trans (Follows.sealAndReset b' now o').repacked, ?_⟩
    simpa using hok
  · unfold begun
    cases hi : b.activeHasInit with
    | true => exact ⟨hi, [], [], (Follows.refl b).repacked, fun m hm => by cases hm⟩
    | false =>
      have hnil : b.activeMsgs = [] := hinit.resolve_left (by rw [hi]; decide)
      refine ⟨rfl, [], [], ⟨(List.append_nil _).symm, ?_⟩, fun m hm => by cases hm⟩
      show (b.queuedMessage ++ b.activeMsgs).Perm (b.queuedMessage ++ [] ++ [] ++ [])
      rw [hnil]
      simp

end ChannelBunchBuilder

/-! ## A channel -/

namespace NetChannel

def bunches (ch : NetChannel) : List OutReadyBunch :=
  ch.bunchBuilder.queuedOutBunch ++ ch.outBunchQueue ++ ch.outUnAckedBunches.members

def held (ch : NetChannel) : List NetMessage := ch.bunchBuilder.loose ++ ch.bunches.flatMap OutReadyBunch.messages

/-- The messages that can still be discarded: loose, or in a bunch that will be. -/
def discardable (ch : NetChannel) : List NetMessage :=
  ch.bunchBuilder.loose ++ (ch.bunches.filter fun b => !kept b).flatMap OutReadyBunch.messages

def sendable (ch : NetChannel) : List NetMessage := (ch.bunches.filter kept).flatMap OutReadyBunch.messages

/-- From `ch` to `ch'` the bunches `new` were sealed, the bunches `lost` left, and the messages `dropped`
are gone. -/
structure Changed (ch ch' : NetChannel) (new lost : List OutReadyBunch) (dropped : List NetMessage) : Prop where
  loose : ch.bunchBuilder.loose.Perm (ch'.bunchBuilder.loose ++ new.flatMap OutReadyBunch.messages ++ dropped)
  bunches : (ch.bunches ++ new).Perm (ch'.bunches ++ lost)

variable {ch ch' : NetChannel} {new lost : List OutReadyBunch} {dropped : List NetMessage}

theorem count_kept_add (l : List OutReadyBunch) (m : NetMessage) :
    (l.flatMap OutReadyBunch.messages).count m = ((l.filter kept).flatMap OutReadyBunch.messages).count m +
      ((l.filter fun b => !kept b).flatMap OutReadyBunch.messages).count m := by
  have hp := (List.filter_append_perm kept l).flatMap_right OutReadyBunch.messages
  rw [← hp.count_eq m, List.flatMap_append, List.count_append]

theorem count_held (ch : NetChannel) (m : NetMessage) : ch.held.count m = ch.discardable.count m + ch.sendable.count m := by
  rw [held, discardable, sendable, List.count_append, List.count_append, count_kept_add]
  omega

theorem Changed.count_sendable (h : Changed ch ch' new lost dropped) (m : NetMessage) :
    ch'.sendable.count m + ((lost.filter kept).flatMap OutReadyBunch.messages).count m =
      ch.sendable.count m + ((new.filter kept).flatMap OutReadyBunch.messages).count m := by
  have hp := ((h.bunches.filter kept).flatMap_right OutReadyBunch.messages).count_eq m
  simp only [List.filter_append, List.flatMap_append, List.count_append] at hp
  exact hp.symm

theorem Changed.count_discardable (h : Changed ch ch' new lost dropped) (m : NetMessage) :
    ch'.discardable.count m + ((lost.filter fun b => !kept b).flatMap OutReadyBunch.messages).count m +
      ((new.filter kept).flatMap OutReadyBunch.messages).count m + dropped.count m = ch.discardable.count m := by
  have hp := ((h.bunches.filter fun b => !kept b).flatMap_right OutReadyBunch.messages).count_eq m
  have hl := h.loose.count_eq m
  have hnew := count_kept_add new m
  simp only [List.filter_append, List.flatMap_append, List.count_append] at hp hl
  rw [discardable, discardable, List.count_append, List.count_append]
  omega

theorem Changed.of_bunches (hb : ch'.bunchBuilder.loose = ch.bunchBuilder.loose) (h : ch.bunches.Perm (ch'.bunches ++ lost)) :
    Changed ch ch' [] lost [] := by
  refine ⟨?_, by simpa using h⟩
  rw [hb]
  simp

theorem changed_pumpBunch {ok : NetMessage → Prop} {nowUs : ℕ → ℕ} {batchLimit : ℕ} {flushTail : Bool}
    (hinit : ch.bunchBuilder.activeHasInit = true ∨ ch.bunchBuilder.activeMsgs = [])
    (hp : PumpMeets (fun b m => b.Takes m ∨ ok m) (fun _ => True) nowUs batchLimit flushTail ch.bunchBuilder ch.outReliable) :
    (ch.pumpBunch nowUs batchLimit flushTail).bunchBuilder.activeHasInit = true ∧
      ∃ new dropped, Changed ch (ch.pumpBunch nowUs batchLimit flushTail) new [] dropped ∧ ∀ m ∈ dropped, ok m := by
  obtain ⟨hi, new, dropped, hr, hok⟩ := pump_repacked hinit hp
  refine ⟨hi, new, dropped, ⟨hr.loose, ?_⟩, hok⟩
  have hq : (ch.pumpBunch nowUs batchLimit flushTail).bunchBuilder.queuedOutBunch = _ := hr.queue
  rw [bunches, bunches, hq]
  show (_ ++ ch.outBunchQueue ++ ch.outUnAckedBunches.members ++ new).Perm
    (_ ++ new ++ ch.outBunchQueue ++ ch.outUnAckedBunches.members ++ [])
  refine List.perm_iff_count.mpr fun b => ?_
  simp only [List.count_append, List.count_nil]
  omega

theorem changed_flushReady (ch : NetChannel) :
    Changed ch (ch.flushReady ch.bunchBuilder.queuedOutBunch.length) [] [] [] := by
  rw [SendRun.flushReady_eq _ ch rfl]
  refine .of_bunches rfl ?_
  refine List.perm_iff_count.mpr fun b => ?_
  simp only [bunches, List.count_append, List.count_nil]
  omega

theorem changed_acked (ch : NetChannel) (id : ℤ) : Changed ch (ch.acked id) [] (ch.unAcked id) [] := by
  refine .of_bunches rfl ?_
  calc ch.bunchBuilder.queuedOutBunch ++ ch.outBunchQueue ++ ch.outUnAckedBunches.members
    _ ~ ch.bunchBuilder.queuedOutBunch ++ ch.outBunchQueue ++ ((ch.outUnAckedBunches.erase id).members ++ ch.unAcked id) :=
        (ch.outUnAckedBunches.members_erase_perm id).append_left _
    _ = (ch.acked id).bunches ++ ch.unAcked id := by rw [← List.append_assoc]; rfl

theorem changed_nacked (ch : NetChannel) (id : ℤ) : Changed ch (ch.nacked id) [] [] [] := by
  refine .of_bunches rfl ?_
  have hm := ch.outUnAckedBunches.members_erase_perm id
  refine List.perm_iff_count.mpr fun b => ?_
  have hm := hm.count_eq b
  simp only [bunches, nacked, List.foldr_cons_eq_append', List.count_append, List.count_nil] at hm ⊢
  omega

theorem changed_forceRetransmitAllUnAcked (ch : NetChannel) : Changed ch ch.forceRetransmitAllUnAcked [] [] [] := by
  refine .of_bunches rfl ?_
  have hqueue : ∀ es : List (ℤ × List OutReadyBunch), es.foldr (fun e queue => e.2.foldr List.cons queue) ch.outBunchQueue =
      es.flatMap Prod.snd ++ ch.outBunchQueue := by
    intro es
    induction es with
    | nil => rfl
    | cons e es ih => rw [List.foldr_cons, ih, List.foldr_cons_eq_append', List.flatMap_cons, List.append_assoc]
  refine List.perm_iff_count.mpr fun b => ?_
  simp only [bunches, forceRetransmitAllUnAcked, hqueue, SortedMap.members, SortedMap.empty, List.flatMap_nil,
    List.count_append, List.count_nil]
  omega

theorem changed_updateChannelSeq (ch : NetChannel) (inReliable outReliable : ℕ) :
    Changed ch (ch.updateChannelSeq inReliable outReliable) [] (ch.outBunchQueue ++ ch.outUnAckedBunches.members) [] := by
  refine .of_bunches rfl ?_
  refine List.perm_iff_count.mpr fun b => ?_
  simp only [bunches, updateChannelSeq, SortedMap.members, SortedMap.empty, List.flatMap_nil, List.count_append,
    List.count_nil]
  omega

theorem changed_dequeued {bunch : OutReadyBunch} {rest : List OutReadyBunch} (hq : ch.outBunchQueue = bunch :: rest) :
    Changed ch { ch with outBunchQueue := rest } [] [bunch] [] := by
  refine .of_bunches rfl ?_
  refine List.perm_iff_count.mpr fun b => ?_
  simp only [bunches, hq, List.count_append, List.count_cons, List.count_nil]
  omega

theorem changed_recorded {bunch : OutReadyBunch} {rest : List OutReadyBunch} {id : ℤ}
    (hq : ch.outBunchQueue = bunch :: rest)
    (hadd : ({ ch with outBunchQueue := rest } : NetChannel).addUnAckedOutBunch id bunch = some ch') :
    Changed ch ch' [] [] [] := by
  have hch' := addUnAckedOutBunch_some hadd
  have hm := ch.outUnAckedBunches.members_extend_perm id [bunch]
  apply Changed.of_bunches
  · rw [hch']
  · refine List.perm_iff_count.mpr fun b => ?_
    have hm := hm.count_eq b
    rw [bunches, bunches, hch']
    simp only [NetChannel.unAcked, hq, List.count_append, List.count_cons, List.count_nil] at hm ⊢
    omega

end NetChannel

end RudpEngine
